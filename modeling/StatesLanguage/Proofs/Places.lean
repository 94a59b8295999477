import StatesLanguage.Proofs.StoredValues

/-!
# Places in models

States hold branches, branches hold states, and each of them stores something. A place says
where in all of this, down to one value (`StatePlace`, `CollectionPlace`).

An edit puts a value at one place or at several: a state that is added brings along all that is
stored in it, and chaining rewrites transitions of states that are not named in the edit. The
function `Collection.puts` is the whole list of that. Whether an edit rewrites a transition
depends on what is there, so that it is a function of the model, too.

`StateEdit.isAccountedFor` and `CollectionEdit.isAccountedFor` are that the list is complete:
at every place there is what the edit puts there, or else what was there before. The proof
follows the nesting of the edits, with one lemma for each edit that reaches into branches or
states.
-/

namespace StatesLanguage

mutual

/-- A place in a state. -/
inductive StatePlace where
  /-- One that the state has itself. -/
  | own (x : Setting)
  /-- One in the rules of a choice: in a tree, at the node of an address. -/
  | rule (root : Nat) (address : List Nat) (x : RuleSetting)
  /-- One in the branch at a position. -/
  | branch (i : Nat) (q : CollectionPlace)

/-- A place in a collection. -/
inductive CollectionPlace where
  /-- The start. -/
  | start
  /-- One in the state of a name. -/
  | held (name : String) (p : StatePlace)

end

/-! ### What is stored -/

mutual

/-- What is stored at a place in a state. -/
def State.value : StatePlace → State → Option Value
  | .own x, s => s.stored x
  | .rule root address x, s => s.body.rules[root]?.bind (Rule.value x address)
  | .branch i q, s => s.branches[i]?.bind (Collection.value q)

/-- What is stored at a place in a collection. -/
def Collection.value : CollectionPlace → Collection State → Option Value
  | .start, c => c.startAt.map .text
  | .held name p, c => (c.get? name).bind (State.value p)

end

/-! ### What is put -/

namespace TransitionField

/-- What is put in the place of no transition. -/
def fills (t : Transition) (f : TransitionField) : Option Transition :=
  if f.isConfigured then none else some t

/-- What is put in the place of the end. -/
def continues (target : String) (f : TransitionField) : Option Transition :=
  if f.isTerminal then some (.next target) else none

theorem transition_filled (t : Transition) (f : TransitionField) :
    (f.filled t).transition = (f.fills t).or f.transition := by
  obtain ⟨mode, _ | transition⟩ := f <;> rfl

theorem transition_continued (target : String) (f : TransitionField) :
    (f.continued target).transition = (f.continues target).or f.transition := by
  obtain ⟨mode, _ | _ | _⟩ := f <;> rfl

end TransitionField

/-- What is put at the place of the transition, and nothing elsewhere. -/
def StatePlace.atTransition : StatePlace → Option Value → Option Value
  | .own .transition, v => v
  | _, _ => none

@[simp] theorem StatePlace.atTransition_none (p : StatePlace) : p.atTransition none = none := by
  cases p with
  | own x => cases x <;> rfl
  | rule root address x => rfl
  | branch i q => rfl

/-- What is put in the transition of a state, if its kind has one. -/
def State.rewritten (put : TransitionField → Option Transition) (s : State) : Option Value :=
  s.next?.bind fun f => (put f).map .transition

namespace Collection

/-- The transition that the state of a name is given when a new one is added behind it: if it
is the last state and the execution ends there, control goes on to the new one. -/
def continued (target name : String) (c : Collection State) : Option Value :=
  (c.position? name).bind fun i =>
    if i + 1 = c.states.length then
      c.states[i]?.bind (State.rewritten (TransitionField.continues target))
    else none

/-- The transition that the state of a name is given when the states are chained. -/
def linked (name : String) (c : Collection State) : Option Value :=
  (c.position? name).bind fun i =>
    c.states[i]?.bind (State.rewritten (TransitionField.fills (.onward c.states[i + 1]?)))

end Collection

mutual

/-- What an edit puts at a place in a state. -/
def State.puts : StatePlace → StateEdit → State → Option Value
  | .own x, e, s => State.sets x e s
  | .rule root address x, .editRule i edited e, s =>
    if i = root then s.body.rules[root]?.bind (Rule.puts x address e edited) else none
  | .branch i q, .pushBranch c, s =>
    if s.kind = .parallel ∧ i = s.branches.length then Collection.value q c else none
  | .branch i q, .editBranch j e, s =>
    if j = i then s.branches[i]?.bind (Collection.puts q e) else none
  | _, _, _ => none

/-- What an edit puts at a place in a collection. A state that is added brings along what is
stored in it. -/
def Collection.puts : CollectionPlace → CollectionEdit → Collection State → Option Value
  | .start, .add s, c => if c.startAt.isNone then some (.text s.name) else none
  | .start, .setStart name, _ => some (.text name)
  | .held name p, .add s, c =>
    if s.name = name then
      (if c.autolink then p.atTransition (s.rewritten (TransitionField.fills .terminal))
        else none).or (State.value p s)
    else if c.autolink then p.atTransition (c.continued s.name name)
    else none
  | .held name p, .link, c => p.atTransition (c.linked name)
  | .held name p, .editState edited e, c =>
    if edited = name then (c.get? name).bind (State.puts p e) else none
  | _, _, _ => none

end

/-! ### Transitions that are rewritten -/

theorem State.value_mapNext {g : TransitionField → TransitionField}
    {put : TransitionField → Option Transition}
    (hg : ∀ f, (g f).transition = (put f).or f.transition) (p : StatePlace) (s : State) :
    State.value p (s.mapNext g) = (p.atTransition (s.rewritten put)).or (State.value p s) := by
  cases p with
  | own x =>
    by_cases hx : x = .transition
    · subst hx
      simp only [State.value, State.stored, State.next?_mapNext, StatePlace.atTransition,
        State.rewritten]
      cases s.next? with
      | none => rfl
      | some f =>
        simp only [Option.map_some, Option.bind_some, hg]
        cases put f <;> rfl
    · have hput : (StatePlace.own x).atTransition (s.rewritten put) = none := by
        cases x with
        | transition => exact absurd rfl hx
        | _ => rfl
      rw [hput, Option.none_or]
      exact State.stored_mapNext s hx
  | rule root address x =>
    obtain ⟨name, comment, body⟩ := s
    cases body <;> rfl
  | branch i q =>
    obtain ⟨name, comment, body⟩ := s
    cases body <;> rfl

/-! ### Collections -/

namespace Collection

/-- A position is stored under another name. -/
theorem position?_concat {c d : Collection State} {new : String} {i : Nat}
    (h : d.index = c.index ++ [(new, i)]) (name : String) :
    d.position? name = (c.position? name).or (if new = name then some i else none) := by
  rw [position?, position?, h, List.lookup_append, List.lookup_cons]
  by_cases hname : new = name
  · rw [if_pos hname, beq_iff_eq.mpr hname.symm]
  · rw [if_neg hname, beq_eq_false_iff_ne.mpr (Ne.symm hname)]
    rfl

theorem getElem?_before (s : State) (ss : List State) (i : Nat) :
    (before s ss)[i]? = ss[i]?.map fun u =>
      if i + 1 = ss.length then u.mapNext (.continued s.name) else u := by
  rcases List.eq_nil_or_concat ss with rfl | ⟨front, last, rfl⟩
  · rfl
  · rw [before, List.concat_eq_append, List.modifyLast_concat]
    rcases Nat.lt_trichotomy i front.length with hlt | rfl | hgt
    · have hne : i + 1 ≠ (front ++ [last]).length := by simp; omega
      rw [List.getElem?_append_left hlt, List.getElem?_append_left hlt]
      simp only [hne, if_false, Option.map_id']
    · simp
    · have hnone : (front ++ [last])[i]? = none := by simp; omega
      have hnone' : (front ++ [last.mapNext (.continued s.name)])[i]? = none := by simp; omega
      rw [hnone, hnone']
      rfl

/-- What is read of the states before a new one. -/
theorem bind_getElem?_before (p : StatePlace) (s : State) (ss : List State) (i : Nat) :
    (before s ss)[i]?.bind (State.value p) =
      (p.atTransition (if i + 1 = ss.length then
          ss[i]?.bind (State.rewritten (TransitionField.continues s.name)) else none)).or
        (ss[i]?.bind (State.value p)) := by
  rw [getElem?_before]
  cases ss[i]? with
  | none => simp
  | some u =>
    by_cases hi : i + 1 = ss.length
    · simp only [hi, if_true, Option.map_some, Option.bind_some]
      exact State.value_mapNext (TransitionField.transition_continued s.name) p u
    · simp [hi]

/-- A state as it is held once it is added. -/
def entering (s : State) (c : Collection State) : State :=
  if c.autolink then s.mapNext (.filled .terminal) else s

/-- The states of a collection as they are held once a state is added. -/
def preceding (s : State) (c : Collection State) : List State :=
  if c.autolink then before s c.states else c.states

section Add

variable {s : State} {c d : Collection State}

theorem eq_of_add (h : c.add s = .ok d) : s.name ∉ c.names ∧ d =
    ⟨preceding s c ++ [entering s c], c.index ++ [(s.name, c.states.length)],
      c.startAt.or (some s.name), c.autolink⟩ := by
  have hindex := (index_of_add h).1
  obtain ⟨hfree, added, front, hadded, hfront, rfl⟩ := add_eq_ok_iff.mp h
  refine ⟨hfree, ?_⟩
  dsimp only at hindex
  rw [hindex, preceding, entering]
  cases hauto : c.autolink with
  | true =>
    rw [if_pos hauto] at hadded hfront
    rw [eq_of_endIfUnset hadded, eq_of_editLast (fun _ _ => eq_of_continueTo) hfront]
    rfl
  | false =>
    rw [if_neg (Bool.eq_false_iff.mp hauto)] at hadded hfront
    rw [Except.ok.inj hadded, Except.ok.inj hfront]
    rfl

theorem length_preceding (s : State) (c : Collection State) :
    (preceding s c).length = c.states.length := by
  rw [preceding]
  split
  · exact length_before s c.states
  · rfl

/-- A state that is added is stored as it is, but for its transition. -/
theorem value_entering (p : StatePlace) (s : State) (c : Collection State) :
    State.value p (entering s c) =
      (if c.autolink then p.atTransition (s.rewritten (TransitionField.fills .terminal))
        else none).or (State.value p s) := by
  rw [entering]
  split
  · exact State.value_mapNext (TransitionField.transition_filled .terminal) p s
  · exact Option.none_or.symm

/-- The states before it are stored as they are, but for the transition of the last one. -/
theorem bind_getElem?_preceding (p : StatePlace) (s : State) (c : Collection State) (i : Nat) :
    (preceding s c)[i]?.bind (State.value p) =
      (if c.autolink then p.atTransition (if i + 1 = c.states.length then
          c.states[i]?.bind (State.rewritten (TransitionField.continues s.name)) else none)
        else none).or (c.states[i]?.bind (State.value p)) := by
  rw [preceding]
  split
  · exact bind_getElem?_before p s c.states i
  · exact Option.none_or.symm

/-- **What adding a state puts**, and where. -/
theorem value_add (hc : c.Indexed) (h : c.add s = .ok d) (q : CollectionPlace) :
    Collection.value q d = (Collection.puts q (.add s) c).or (Collection.value q c) := by
  obtain ⟨hfree, rfl⟩ := eq_of_add h
  cases q with
  | start =>
    rw [Collection.value, Collection.value, Collection.puts]
    cases c.startAt <;> rfl
  | held name p =>
    have hposition := position?_concat (c := c) (d := ⟨preceding s c ++ [entering s c],
      c.index ++ [(s.name, c.states.length)], c.startAt.or (some s.name), c.autolink⟩) rfl name
    rw [Collection.value, Collection.value, Collection.puts]
    cases hi : c.position? name with
    | some i =>
      -- the name was taken before, so that it is not the one of the new state
      obtain ⟨u, hu, hname⟩ := Option.map_eq_some_iff.mp (hc.position?_eq_some.mp hi)
      have hlt : i < (preceding s c).length := by
        rw [length_preceding]
        exact (List.getElem?_eq_some_iff.mp hu).1
      have hne : s.name ≠ name := by
        rintro rfl
        exact hfree (hc.names.mem_iff.mpr (List.mem_map.mpr ⟨u, List.mem_of_getElem? hu, hname⟩))
      rw [hi, Option.some_or] at hposition
      rw [get?_of_position?_eq_some hposition, get?_of_position?_eq_some hi, if_neg hne, continued,
        hi, List.getElem?_append_left hlt]
      exact bind_getElem?_preceding p s c i
    | none =>
      rw [hi, Option.none_or] at hposition
      rw [get?_of_position?_eq_none hi, continued, hi]
      by_cases hname : s.name = name
      · have hlast : (preceding s c ++ [entering s c])[c.states.length]? =
            some (entering s c) := by
          rw [← length_preceding s c, List.getElem?_concat_length]
        rw [if_pos hname] at hposition
        rw [get?_of_position?_eq_some hposition, if_pos hname, hlast]
        exact (value_entering p s c).trans (Option.or_none).symm
      · rw [if_neg hname] at hposition
        rw [get?_of_position?_eq_none hposition, if_neg hname]
        simp

end Add

theorem value_held {c : Collection State} {name : String} {i : Nat} (h : c.position? name = some i)
    (p : StatePlace) : Collection.value (.held name p) c = c.states[i]?.bind (State.value p) := by
  rw [Collection.value, get?_of_position?_eq_some h]

theorem value_held_of_none {c : Collection State} {name : String} (h : c.position? name = none)
    (p : StatePlace) : Collection.value (.held name p) c = none := by
  rw [Collection.value, get?_of_position?_eq_none h]
  rfl

/-- **What chaining puts**, and where. -/
theorem value_link {c d : Collection State} (hc : ∀ s ∈ c.states, s.IsOrdinary)
    (h : c.link = .ok d) (q : CollectionPlace) :
    Collection.value q d = (Collection.puts q .link c).or (Collection.value q c) := by
  obtain rfl := Except.ok.inj ((link_eq_ok hc).symm.trans h)
  cases q with
  | start => exact Option.none_or.symm
  | held name p =>
    rw [Collection.puts, linked]
    cases hi : c.position? name with
    | none =>
      have hi' : ({ c with states := chain .filled c.states } : Collection State).position? name =
          none := hi
      rw [value_held_of_none hi, value_held_of_none hi']
      simp
    | some i =>
      have hi' : ({ c with states := chain .filled c.states } : Collection State).position? name =
          some i := hi
      rw [value_held hi, value_held hi', getElem?_chain]
      dsimp only [Option.bind_some]
      cases c.states[i]? with
      | none => simp
      | some s =>
        exact State.value_mapNext (TransitionField.transition_filled (.onward c.states[i + 1]?)) p s

/-- **What an edit of one state puts**, and where. -/
theorem value_edit {c d : Collection State} {edited : String} {e : StateEdit} (hc : c.Indexed)
    (h : c.edit edited (State.apply e) = .ok d)
    (he : ∀ s ∈ c.states, ∀ t, State.apply e s = .ok t → ∀ p,
      State.value p t = (State.puts p e s).or (State.value p s)) (q : CollectionPlace) :
    Collection.value q d =
      (Collection.puts q (.editState edited e) c).or (Collection.value q c) := by
  rw [Collection.edit] at h
  cases hi : c.position? edited with
  | none =>
    rw [hi] at h
    obtain rfl := Except.ok.inj h
    have hputs : Collection.puts q (.editState edited e) c = none := by
      cases q with
      | start => rfl
      | held name p =>
        rw [Collection.puts]
        split
        · next heq => rw [← heq, get?_of_position?_eq_none hi]; rfl
        · rfl
    rw [hputs, Option.none_or]
  | some i =>
    rw [hi] at h
    obtain ⟨states, hstates, rfl⟩ := map_eq_ok.mp h
    cases q with
    | start => exact Option.none_or.symm
    | held name p =>
      rw [Collection.puts]
      cases hj : c.position? name with
      | none =>
        have hj' : ({ c with states } : Collection State).position? name = none := hj
        rw [value_held_of_none hj, value_held_of_none hj', get?_of_position?_eq_none hj]
        simp
      | some j =>
        have hj' : ({ c with states } : Collection State).position? name = some j := hj
        -- two names lead to one position only if they are the same
        have hij : i = j ↔ edited = name := by
          constructor
          · rintro rfl
            have hname := hc.position?_eq_some.mp hi
            exact Option.some.inj (hname.symm.trans (hc.position?_eq_some.mp hj))
          · rintro rfl
            exact Option.some.inj (hi.symm.trans hj)
        rw [value_held hj, value_held hj', get?_of_position?_eq_some hj, ← if_congr hij rfl rfl]
        exact bind_getElem?_editAt hstates (fun s hs t ht => he s hs t ht p) j

end Collection

/-! ### States -/

namespace State

variable {s t : State}

/-- **What an edit of a tree of rules puts**, and where. -/
theorem value_rule {e : StateEdit} (h : State.apply e s = .ok t) (root : Nat) (address : List Nat)
    (x : RuleSetting) : State.value (.rule root address x) t =
      (State.puts (.rule root address x) e s).or (State.value (.rule root address x) s) := by
  have hsame : e.keepsRules = true → State.puts (.rule root address x) e s = none →
      State.value (.rule root address x) t =
        (State.puts (.rule root address x) e s).or (State.value (.rule root address x) s) := by
    intro hkeeps hputs
    rw [hputs, Option.none_or, State.value, State.value, (changes_of_apply h).rules hkeeps]
  cases e with
  | addRule op =>
    have hputs : State.puts (.rule root address x) (.addRule op) s = none := rfl
    rw [hputs, Option.none_or]
    obtain ⟨name, comment, body⟩ := s
    cases body with
    | choice b =>
      obtain rfl := Except.ok.inj h
      change (b.rules ++ [Rule.new .withoutEnd op])[root]?.bind _ = b.rules[root]?.bind _
      rw [bind_getElem?_concat, Rule.value_new, ite_self, Option.none_or]
    | _ =>
      obtain rfl := Except.ok.inj h
      rfl
  | editRule i edited f =>
    obtain ⟨name, comment, body⟩ := s
    obtain ⟨body', hbody, rfl⟩ := map_eq_ok.mp h
    cases body with
    | choice b =>
      obtain ⟨d, hd, rfl⟩ := map_eq_ok.mp hbody
      obtain ⟨rules, hrules, rfl⟩ := map_eq_ok.mp hd
      exact bind_getElem?_editAt hrules (fun r _ u hu => Rule.value_apply hu x address) root
    | _ =>
      -- other states have no rules
      obtain rfl := Except.ok.inj hbody
      rw [State.puts]
      split <;> rfl
  | _ => exact hsame rfl rfl

theorem value_branch_of_keepsBranches {e : StateEdit} (h : State.apply e s = .ok t)
    (he : e.keepsBranches = true) (i : Nat) (q : CollectionPlace) :
    State.value (.branch i q) t = State.value (.branch i q) s := by
  rw [State.value, State.value, (changes_of_apply h).branches he]

end State

/-- Nothing is stored in an empty collection. -/
theorem Collection.value_empty (autolink : Bool) (q : CollectionPlace) :
    Collection.value q (.empty autolink) = none := by
  cases q <;> rfl

/-- Nothing is stored in a new state. -/
theorem State.value_new (kind : StateKind) (name : String) (p : StatePlace) :
    State.value p (.new kind name) = none := by
  cases p with
  | own x => exact State.stored_new kind name x
  | rule root address x => cases kind <;> rfl
  | branch i q => cases kind <;> rfl

/-- An edit of states puts what it is said to put, and changes nothing else. -/
def StateEdit.IsAccountedFor (e : StateEdit) : Prop :=
  ∀ s t : State, s.Sound → State.apply e s = .ok t →
    ∀ p, State.value p t = (State.puts p e s).or (State.value p s)

/-- An edit of collections puts what it is said to put, and changes nothing else. -/
def CollectionEdit.IsAccountedFor (e : CollectionEdit) : Prop :=
  ∀ c d : Collection State, c.Sound → Collection.apply e c = .ok d →
    ∀ q, Collection.value q d = (Collection.puts q e c).or (Collection.value q c)

theorem StateEdit.isAccountedFor_of_branch {e : StateEdit}
    (he : ∀ s t : State, s.Sound → State.apply e s = .ok t → ∀ i q,
      State.value (.branch i q) t =
        (State.puts (.branch i q) e s).or (State.value (.branch i q) s)) : e.IsAccountedFor := by
  intro s t hs h p
  cases p with
  | own x => exact (State.changes_of_apply h).stored x
  | rule root address x => exact State.value_rule h root address x
  | branch i q => exact he s t hs h i q

theorem StateEdit.isAccountedFor_addBranch : StateEdit.addBranch.IsAccountedFor := by
  refine isAccountedFor_of_branch fun s t _ h i q => ?_
  have hputs : State.puts (.branch i q) .addBranch s = none := rfl
  rw [hputs, Option.none_or]
  obtain ⟨name, comment, body⟩ := s
  cases body with
  | parallel b =>
    obtain rfl := Except.ok.inj h
    change (b.branches ++ [Collection.empty defaultAutolink])[i]?.bind _ = b.branches[i]?.bind _
    rw [bind_getElem?_concat, Collection.value_empty, ite_self, Option.none_or]
  | _ =>
    obtain rfl := Except.ok.inj h
    rfl

theorem StateEdit.isAccountedFor_pushBranch (c : Collection State) :
    (StateEdit.pushBranch c).IsAccountedFor := by
  refine isAccountedFor_of_branch fun s t _ h i q => ?_
  obtain ⟨name, comment, body⟩ := s
  rw [State.puts]
  cases body with
  | parallel b =>
    obtain rfl := Except.ok.inj h
    have hparallel : (State.kind ⟨name, comment, .parallel b⟩ = .parallel ∧
        i = (State.branches ⟨name, comment, .parallel b⟩).length) ↔ i = b.branches.length :=
      and_iff_right rfl
    rw [if_congr hparallel rfl rfl]
    exact bind_getElem?_concat (Collection.value q) b.branches c i
  | _ =>
    obtain rfl := Except.ok.inj h
    rw [if_neg (by rintro ⟨⟨⟩, _⟩)]
    rfl

theorem StateEdit.isAccountedFor_editBranch {e : CollectionEdit} (he : e.IsAccountedFor) (j : Nat) :
    (StateEdit.editBranch j e).IsAccountedFor := by
  refine isAccountedFor_of_branch fun s t hs h i q => ?_
  obtain ⟨name, comment, body⟩ := s
  rw [State.apply] at h
  obtain ⟨body', hbody, rfl⟩ := map_eq_ok.mp h
  cases body with
  | parallel b =>
    obtain ⟨branches, hbranches, rfl⟩ := map_eq_ok.mp hbody
    exact bind_getElem?_editAt hbranches (fun c hc d hd => he c d (hs.branches c hc) hd q) i
  | _ =>
    obtain rfl := Except.ok.inj hbody
    rw [State.puts]
    split <;> rfl

mutual

/-- **Edits of states put what they are said to put**, in them and in all that is inside them,
and change nothing else. -/
theorem StateEdit.isAccountedFor (e : StateEdit) : e.IsAccountedFor := by
  cases e with
  | addBranch => exact StateEdit.isAccountedFor_addBranch
  | pushBranch c => exact StateEdit.isAccountedFor_pushBranch c
  | editBranch i e => exact StateEdit.isAccountedFor_editBranch e.isAccountedFor i
  | _ =>
    refine StateEdit.isAccountedFor_of_branch fun s t _ h i q => ?_
    exact (State.value_branch_of_keepsBranches h rfl i q).trans Option.none_or.symm

/-- **Edits of collections put what they are said to put**, and change nothing else. -/
theorem CollectionEdit.isAccountedFor (e : CollectionEdit) : e.IsAccountedFor := by
  intro c d hc h q
  cases e with
  | add s => exact Collection.value_add hc.indexed h q
  | link =>
    exact Collection.value_link (fun s hs f hf => ((hc.inside s hs).body.next f hf).mode_eq) h q
  | setStart name =>
    obtain rfl := Except.ok.inj h
    cases q with
    | start => rfl
    | held name p => exact Option.none_or.symm
  | editState name e =>
    exact Collection.value_edit hc.indexed h
      (fun s hs t ht => e.isAccountedFor s t (hc.inside s hs) ht) q

end

end StatesLanguage
