import StatesLanguage.Proofs.Built

/-!
# Collections in step

A collection keeps its states in a list, and finds them by the positions that have been stored
under their names. `Collection.InStep` says that the two agree: a position is stored under a
name exactly if the state there is called so, no two states share a name, a collection that is
not empty has a start, and every state takes a target as well as the end. It is the same as
`Collection.Indexed` for ordinary states (`Collection.inStep_iff`), where the index as a whole
is compared with the names of the states and their positions.

Nothing in the type of a collection enforces this, so every operation has to keep it. For
each of them one lemma says what it does to a collection in step:
`Collection.InStep.add_cases`, `Collection.InStep.link_cases` and
`Collection.InStep.update_cases`. Adding and chaining change the transitions of states and
nothing else of them (`State.SameButNext`), and on ordinary transitions none of the changes
can fail, which leaves a taken name as the only reason not to add a state.
-/

namespace StatesLanguage

/-! ### Ordinary transitions -/

/-- A function of transition fields that succeeds on ordinary ones and keeps them ordinary. -/
def TransitionField.Handles (f : TransitionField → Except Error TransitionField) : Prop :=
  ∀ x : TransitionField, x.mode = .ordinary → ∃ y, f x = .ok y ∧ y.mode = .ordinary

namespace TransitionField

theorem handles_ok : Handles Except.ok :=
  fun x hx => ⟨x, rfl, hx⟩

theorem handles_setTarget (target : String) : Handles (setTarget target) := by
  rintro ⟨mode, transition⟩ rfl
  exact ⟨_, rfl, rfl⟩

theorem handles_setTerminal : Handles setTerminal := by
  rintro ⟨mode, transition⟩ rfl
  exact ⟨_, rfl, rfl⟩

theorem Handles.ite {f g : TransitionField → Except Error TransitionField} (hf : Handles f)
    (hg : Handles g) (p : TransitionField → Bool) :
    Handles fun x => if p x then f x else g x := by
  intro x hx
  dsimp only
  split
  · exact hf x hx
  · exact hg x hx

end TransitionField

namespace State

/-- The transition of a state, if its kind has one, takes a target as well as the end. -/
def IsOrdinary (s : State) : Prop :=
  ∀ f, s.next? = some f → f.mode = .ordinary

/-- One state differs from the other in its transition at most. -/
def SameButNext (s t : State) : Prop :=
  ∃ f, s.editNext f = .ok t

theorem SameButNext.refl (s : State) : s.SameButNext s := by
  refine ⟨Except.ok, ?_⟩
  obtain ⟨name, comment, body⟩ := s
  cases body <;> rfl

theorem SameButNext.trans {s t u : State} (hst : s.SameButNext t) (htu : t.SameButNext u) :
    s.SameButNext u := by
  obtain ⟨f, hf⟩ := hst
  obtain ⟨g, hg⟩ := htu
  refine ⟨fun x => f x >>= g, ?_⟩
  obtain ⟨name, comment, body⟩ := s
  obtain ⟨body', hbody, rfl⟩ := map_eq_ok.mp hf
  cases body with
  | pass b | task b | wait b | parallel b =>
    obtain ⟨next, hnext, rfl⟩ := map_eq_ok.mp hbody
    have hbind : (f b.next >>= g) = g next := by
      rw [hnext]
      rfl
    simp only [State.editNext, Body.editNext, hbind]
    exact hg
  | succeed | fail b | choice b =>
    obtain rfl := Except.ok.inj hbody
    exact hg

theorem SameButNext.name_eq {s t : State} (h : s.SameButNext t) : t.name = s.name := by
  obtain ⟨f, hf⟩ := h
  exact name_editBody hf

/-- An edit of an ordinary transition succeeds, and nothing else of the state changes. -/
theorem IsOrdinary.editNext {f : TransitionField → Except Error TransitionField}
    (hf : TransitionField.Handles f) {s : State} (h : s.IsOrdinary) :
    ∃ t, s.editNext f = .ok t ∧ t.IsOrdinary ∧ s.SameButNext t := by
  have hbody : ∃ body, s.body.editNext f = .ok body ∧
      ∀ g, body.next? = some g → g.mode = .ordinary := by
    obtain ⟨name, comment, body⟩ := s
    -- the kinds without a transition of their own are left as they are
    cases body with
    | pass b | task b | wait b | parallel b =>
      obtain ⟨next, hnext, hmode⟩ := hf b.next (h b.next rfl)
      exact ⟨_, map_eq_ok.mpr ⟨next, hnext, rfl⟩, fun g hg => Option.some.inj hg ▸ hmode⟩
    | succeed | fail b | choice b => exact ⟨_, rfl, h⟩
  obtain ⟨body, hbody, hordinary⟩ := hbody
  have hedit : s.editNext f = .ok { s with body } := map_eq_ok.mpr ⟨body, hbody, rfl⟩
  exact ⟨_, hedit, hordinary, f, hedit⟩

/-- Whatever is built is ordinary. -/
theorem Built.isOrdinary {s : State} (h : s.Built) : s.IsOrdinary :=
  fun f hf => (h.sound.body.next f hf).mode_eq

end State

/-! ### Lists of states -/

/-- States that are called like others have their list of names. -/
theorem map_name_eq_of_forall₂ {ss ts : List State}
    (h : List.Forall₂ (fun s t => t.name = s.name) ss ts) :
    ts.map State.name = ss.map State.name :=
  (map_eq_map_of_forall₂ h fun _ _ _ hname => hname.symm).symm

theorem map_name_of_sameButNext {ss ts : List State} (h : List.Forall₂ State.SameButNext ss ts) :
    ts.map State.name = ss.map State.name :=
  map_name_eq_of_forall₂ (h.imp fun _ _ => State.SameButNext.name_eq)

theorem forall₂_sameButNext_refl (ss : List State) : List.Forall₂ State.SameButNext ss ss :=
  List.forall₂_same.mpr fun s _ => .refl s

theorem forall₂_trans {α : Type} {R : α → α → Prop} (htrans : ∀ x y z, R x y → R y z → R x z)
    {xs ys zs : List α} (hxy : List.Forall₂ R xs ys) (hyz : List.Forall₂ R ys zs) :
    List.Forall₂ R xs zs := by
  induction hxy generalizing zs with
  | nil => exact hyz
  | cons h _ ih =>
    obtain ⟨z, zs, hz, hzs, rfl⟩ := List.forall₂_cons_left_iff.mp hyz
    exact .cons (htrans _ _ _ h hz) (ih hzs)

namespace Collection

theorem handles_endIfUnset {s : State} (h : s.IsOrdinary) :
    ∃ t, endIfUnset s = .ok t ∧ t.IsOrdinary ∧ s.SameButNext t :=
  h.editNext (TransitionField.handles_ok.ite TransitionField.handles_setTerminal _)

theorem handles_continueTo (target : String) {s : State} (h : s.IsOrdinary) :
    ∃ t, continueTo target s = .ok t ∧ t.IsOrdinary ∧ s.SameButNext t :=
  h.editNext ((TransitionField.handles_setTarget target).ite TransitionField.handles_ok _)

theorem handles_linkState (following : Option State) {s : State} (h : s.IsOrdinary) :
    ∃ t, linkState following s = .ok t ∧ t.IsOrdinary ∧ s.SameButNext t := by
  refine h.editNext (TransitionField.handles_ok.ite ?_ _)
  cases following with
  | some t => exact TransitionField.handles_setTarget t.name
  | none => exact TransitionField.handles_setTerminal

/-- The last state goes on to the one that is added, if the execution would end there. -/
theorem handles_editLast (target : String) {ss : List State} (h : ∀ s ∈ ss, s.IsOrdinary) :
    ∃ ts, editLast (continueTo target) ss = .ok ts ∧ (∀ t ∈ ts, t.IsOrdinary) ∧
      List.Forall₂ State.SameButNext ss ts := by
  induction ss with
  | nil => exact ⟨[], rfl, nofun, .nil⟩
  | cons s ss ih =>
    obtain ⟨hs, hss⟩ := List.forall_mem_cons.mp h
    cases ss with
    | nil =>
      obtain ⟨t, ht, hordinary, hsame⟩ := handles_continueTo target hs
      refine ⟨[t], ?_, List.forall_mem_singleton.mpr hordinary, .cons hsame .nil⟩
      rw [editLast, ht]
      rfl
    | cons s' ss =>
      obtain ⟨ts, hts, hordinary, hsame⟩ := ih hss
      refine ⟨s :: ts, ?_, List.forall_mem_cons.mpr ⟨hs, hordinary⟩, .cons (.refl s) hsame⟩
      rw [editLast, hts]
      rfl

/-- Chaining ordinary states succeeds: by induction on the list. -/
theorem handles_linkStates {ss : List State} (h : ∀ s ∈ ss, s.IsOrdinary) :
    ∃ ts, linkStates ss = .ok ts ∧ (∀ t ∈ ts, t.IsOrdinary) ∧
      List.Forall₂ State.SameButNext ss ts := by
  induction ss with
  | nil => exact ⟨[], rfl, nofun, .nil⟩
  | cons s ss ih =>
    obtain ⟨hs, hss⟩ := List.forall_mem_cons.mp h
    obtain ⟨t, ht, hordinary, hsame⟩ := handles_linkState ss.head? hs
    obtain ⟨ts, hts, hordinaries, hsames⟩ := ih hss
    refine ⟨t :: ts, ?_, List.forall_mem_cons.mpr ⟨hordinary, hordinaries⟩, .cons hsame hsames⟩
    rw [linkStates, ht, hts]
    rfl

/-! ### In step -/

/-- The index of a collection is in step with its states. -/
structure InStep (c : Collection State) : Prop where
  /-- No two states have one name. -/
  distinct : (c.states.map State.name).Nodup
  /-- A position is stored under a name once. -/
  taken : c.names.Nodup
  /-- There is a name for every position. -/
  positions : c.names.length = c.states.length
  /-- A position is stored under a name exactly if the state there is called so. -/
  index : ∀ name i, c.position? name = some i ↔ (c.states[i]?).map State.name = some name
  /-- A collection that is not empty has a start. -/
  startAt : c.states ≠ [] → c.startAt.isSome = true
  /-- Every state takes a target as well as the end. -/
  ordinary : ∀ s ∈ c.states, s.IsOrdinary

/-- A name leads to the position that is stored under it. -/
theorem position?_eq_some {c : Collection State} (h : c.names.Nodup) {name : String} {i : Nat} :
    c.position? name = some i ↔ (name, i) ∈ c.index :=
  ⟨mem_of_lookup, lookup_of_mem h⟩

theorem position?_eq_none {c : Collection State} {name : String} :
    c.position? name = none ↔ name ∉ c.names := by
  rw [position?, List.lookup_eq_none_iff, names, List.mem_map]
  constructor
  · rintro h ⟨entry, hentry, rfl⟩
    exact bne_iff_ne.mp (h entry hentry) rfl
  · intro h entry hentry
    exact bne_iff_ne.mpr fun heq => h ⟨entry, hentry, heq.symm⟩

/-- In an indexed collection this is the position of the state that is called so. -/
theorem Indexed.position?_eq_some {c : Collection State} (h : c.Indexed) {name : String} {i : Nat} :
    c.position? name = some i ↔ (c.states[i]?).map State.name = some name := by
  rw [Collection.position?_eq_some h.taken, h.index.mem_iff, List.mk_mem_zipIdx_iff_getElem?,
    List.getElem?_map]

theorem inStep_iff {c : Collection State} :
    c.InStep ↔ c.Indexed ∧ ∀ s ∈ c.states, s.IsOrdinary := by
  constructor
  · rintro ⟨hdistinct, htaken, -, hindex, hstart, hordinary⟩
    have hzip : (c.states.map State.name).zipIdx.Nodup :=
      .of_map Prod.fst (by rwa [List.zipIdx_map_fst])
    refine ⟨⟨?_, hdistinct, hstart⟩, hordinary⟩
    refine (List.perm_ext_iff_of_nodup (.of_map Prod.fst htaken) hzip).mpr ?_
    rintro ⟨name, i⟩
    rw [← position?_eq_some htaken, hindex, List.mk_mem_zipIdx_iff_getElem?, List.getElem?_map]
  · rintro ⟨h, hordinary⟩
    refine ⟨h.distinct, h.taken, ?_, fun name i => h.position?_eq_some, h.startAt, hordinary⟩
    rw [h.names.length_eq, List.length_map]

namespace InStep

variable {c : Collection State}

theorem indexed (h : c.InStep) : c.Indexed :=
  (inStep_iff.mp h).1

/-- A name is taken if a state is called so. -/
theorem mem_names (h : c.InStep) {name : String} :
    name ∈ c.names ↔ ∃ s ∈ c.states, s.name = name := by
  rw [h.indexed.names.mem_iff, List.mem_map]

/-- No position is out of range. -/
theorem position_lt (h : c.InStep) {name : String} {i : Nat} (hi : c.position? name = some i) :
    i < c.states.length := by
  obtain ⟨s, hs, -⟩ := Option.map_eq_some_iff.mp ((h.index name i).mp hi)
  exact (List.getElem?_eq_some_iff.mp hs).1

/-- **A state is found under its name, and nothing else is.** -/
theorem get?_eq_some (h : c.InStep) {name : String} {s : State} :
    c.get? name = some s ↔ s ∈ c.states ∧ s.name = name := by
  constructor
  · intro hs
    obtain ⟨i, hi, hs⟩ := Option.bind_eq_some_iff.mp hs
    have hname := (h.index name i).mp hi
    rw [hs] at hname
    exact ⟨List.mem_of_getElem? hs, Option.some.inj hname⟩
  · rintro ⟨hs, rfl⟩
    obtain ⟨i, hi⟩ := List.mem_iff_getElem?.mp hs
    have hposition := (h.index s.name i).mpr (by rw [hi]; rfl)
    exact Option.bind_eq_some_iff.mpr ⟨i, hposition, hi⟩

/-! ### Operations on a collection in step -/

/-- **Adding fails because of a taken name only.** Otherwise the state comes last, and no
state changes but for its transition. -/
theorem add_cases (h : c.InStep) {s : State} (hs : s.IsOrdinary) :
    (s.name ∈ c.names ∧ c.add s = .error (.duplicateName s.name)) ∨
      s.name ∉ c.names ∧ ∃ d, c.add s = .ok d ∧ d.InStep ∧
        List.Forall₂ State.SameButNext (c.states ++ [s]) d.states ∧
        d.startAt = c.startAt.or (some s.name) := by
  by_cases hname : s.name ∈ c.names
  · refine Or.inl ⟨hname, ?_⟩
    rw [Collection.add, if_pos (List.contains_iff_mem.mpr hname)]
  · -- with chaining two transitions change, that of the new state and that of the last one
    have hadded : ∃ t, (if c.autolink then endIfUnset s else .ok s) = .ok t ∧ t.IsOrdinary ∧
        s.SameButNext t := by
      split
      · exact handles_endIfUnset hs
      · exact ⟨s, rfl, hs, .refl s⟩
    have hbefore : ∃ ts, (if c.autolink then editLast (continueTo s.name) c.states
        else .ok c.states) = .ok ts ∧ (∀ t ∈ ts, t.IsOrdinary) ∧
        List.Forall₂ State.SameButNext c.states ts := by
      split
      · exact handles_editLast s.name h.ordinary
      · exact ⟨c.states, rfl, h.ordinary, forall₂_sameButNext_refl c.states⟩
    obtain ⟨added, hadded, hordinary, hsame⟩ := hadded
    obtain ⟨before, hbefore, hordinaries, hsames⟩ := hbefore
    refine Or.inr ⟨hname, _, add_eq_ok_iff.mpr ⟨hname, added, before, hadded, hbefore, rfl⟩,
      inStep_iff.mpr ⟨?_, forall_mem_snoc hordinaries hordinary⟩,
      List.rel_append hsames (.cons hsame .nil), rfl⟩
    -- what is taken is the name of the new state before its transition changed
    rw [← hsame.name_eq] at hname ⊢
    exact h.indexed.append (map_name_of_sameButNext hsames) hname

/-- **Chaining never fails.** No state changes but for its transition. -/
theorem link_cases (h : c.InStep) : ∃ d, c.link = .ok d ∧ d.InStep ∧
    List.Forall₂ State.SameButNext c.states d.states ∧ d.startAt = c.startAt := by
  obtain ⟨states, hstates, hordinary, hsame⟩ := handles_linkStates h.ordinary
  exact ⟨{ c with states }, map_eq_ok.mpr ⟨states, hstates, rfl⟩,
    inStep_iff.mpr ⟨h.indexed.withStates (map_name_of_sameButNext hsame), hordinary⟩, hsame, rfl⟩

theorem withStart (h : c.InStep) (name : String) : (c.withStart name).InStep :=
  inStep_iff.mpr ⟨⟨h.indexed.index, h.indexed.distinct, fun _ => rfl⟩, h.ordinary⟩

/-- An update of the state of a name either finds none and changes nothing, or replaces the
one state that is called so. -/
theorem update_cases (h : c.InStep) (name : String) (f : State → State) :
    (name ∉ c.names ∧ c.edit name (fun s => .ok (f s)) = .ok c) ∨
      ∃ before s after, c.states = before ++ s :: after ∧ s.name = name ∧
        c.edit name (fun s => .ok (f s)) =
          .ok { c with states := before ++ f s :: after } := by
  rcases hi : c.position? name with _ | i
  · refine Or.inl ⟨position?_eq_none.mp hi, ?_⟩
    rw [Collection.edit, hi]
  · obtain ⟨s, hs, hname⟩ := Option.map_eq_some_iff.mp ((h.index name i).mp hi)
    have hedit : editAt (fun s => .ok (f s)) i c.states = .ok (c.states.set i (f s)) :=
      editAt_of_getElem? _ hs
    obtain ⟨hlt, rfl⟩ := List.getElem?_eq_some_iff.mp hs
    obtain ⟨before, after, hsplit, -, hset⟩ := @List.exists_of_set _ i (f c.states[i]) _ hlt
    refine Or.inr ⟨before, c.states[i], after, hsplit, hname, ?_⟩
    rw [Collection.edit, hi]
    exact map_eq_ok.mpr ⟨_, hedit, by rw [hset]⟩

end InStep

end Collection

end StatesLanguage
