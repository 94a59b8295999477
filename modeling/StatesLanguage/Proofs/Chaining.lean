import Mathlib.Data.List.ModifyLast
import StatesLanguage.Proofs.CollectionRuns

/-!
# Chaining states as they are added, and afterwards

There are two ways to a chain. A collection in autolink mode chains every state that it is
given: the new one ends the execution, and the one before it, which did so until then, goes
on to it. `Collection.link` chains the states that are already there, in one walk.

The one thing to know about the first way is that it looks at the transition that the state
before has *now*. That this state ends the execution may be the doing of the collection, or
of whoever made the state, and by then the two are the same. So both ways give every state
the transition that leads onward in the chain (`Transition.onward`), but not in the same
places: linking does so where none is set (`TransitionField.filled`), adding also where the
end is (`TransitionField.refilled`).

`Collection.states_of_addAll` and `Collection.link_eq_ok` say this of whole lists of states,
in terms of one definition, `Collection.chain`. Where no state ends the execution by itself
they agree, which is `Collection.autolink_eq_link`; where one does, adding changes its
transition unless it stays the last one, which is `Collection.autolink_keeps_iff`.
-/

namespace StatesLanguage

/-! ### Changing the transition of a state -/

namespace TransitionField

/-- The field with a transition in the place of none. -/
def filled (t : Transition) (f : TransitionField) : TransitionField :=
  ⟨f.mode, f.transition.or (some t)⟩

/-- The field with a transition in the place of none and of the end. -/
def refilled (t : Transition) (f : TransitionField) : TransitionField :=
  ⟨f.mode, (f.target?.map .next).or (some t)⟩

/-- The field with a target in the place of the end. -/
def continued (target : String) (f : TransitionField) : TransitionField :=
  if f.isTerminal then ⟨f.mode, some (.next target)⟩ else f

/-- Filling a field and going on after it leaves a target, and puts one everywhere else. -/
theorem continued_filled (target : String) (f : TransitionField) :
    (f.filled .terminal).continued target = f.refilled (.next target) := by
  obtain ⟨mode, _ | _ | _⟩ := f <;> rfl

/-- Where the end is not set, filling and filling again are one. -/
theorem refilled_eq_filled {f : TransitionField} (h : f.isTerminal = false) (t : Transition) :
    f.refilled t = f.filled t := by
  obtain ⟨mode, _ | _ | _⟩ := f
  · rfl
  · rfl
  · nomatch h

theorem refilled_terminal (f : TransitionField) : f.refilled .terminal = f.filled .terminal := by
  obtain ⟨mode, _ | _ | _⟩ := f <;> rfl

/-- **What filling again leaves alone**: targets, and the end where the end is put. -/
theorem refilled_eq_self_iff {f : TransitionField} (h : f.isConfigured = true) {t : Transition} :
    f.refilled t = f ↔ f.target?.isSome = true ∨ t = .terminal := by
  obtain ⟨mode, _ | _ | _⟩ := f
  · nomatch h
  · simp [refilled, target?]
  · simp [refilled, target?]

/-- A target can be set in any mode but the locked one, which it does not change. -/
theorem eq_of_setTarget {target : String} {f g : TransitionField}
    (h : f.setTarget target = .ok g) : g = ⟨f.mode, some (.next target)⟩ := by
  obtain ⟨mode, transition⟩ := f
  cases mode with
  | locked => nomatch h
  | ordinary | withoutEnd => exact (Except.ok.inj h).symm

theorem eq_of_setTerminal {f g : TransitionField} (h : f.setTerminal = .ok g) :
    g = ⟨f.mode, some .terminal⟩ := by
  obtain ⟨mode, transition⟩ := f
  cases mode with
  | locked | withoutEnd => nomatch h
  | ordinary => exact (Except.ok.inj h).symm

end TransitionField

/-- The body with another transition, for the kinds that have one. -/
def Body.mapNext {σ : Type} (g : TransitionField → TransitionField) : Body σ → Body σ
  | .pass b => .pass { b with next := g b.next }
  | .task b => .task { b with next := g b.next }
  | .wait b => .wait { b with next := g b.next }
  | .parallel b => .parallel { b with next := g b.next }
  | b => b

namespace State

variable {g : TransitionField → TransitionField} {s t : State}

/-- The state with another transition, for the kinds that have one. -/
def mapNext (g : TransitionField → TransitionField) (s : State) : State :=
  { s with body := s.body.mapNext g }

theorem next?_mapNext (g : TransitionField → TransitionField) (s : State) :
    (s.mapNext g).next? = s.next?.map g := by
  obtain ⟨name, comment, body⟩ := s
  cases body <;> rfl

theorem mapNext_mapNext (g h : TransitionField → TransitionField) (s : State) :
    (s.mapNext g).mapNext h = s.mapNext fun f => h (g f) := by
  obtain ⟨name, comment, body⟩ := s
  cases body <;> rfl

/-- Only the transition that a state has matters for what becomes of it. -/
theorem mapNext_congr {h : TransitionField → TransitionField}
    (hgh : ∀ f, s.next? = some f → g f = h f) : s.mapNext g = s.mapNext h := by
  obtain ⟨name, comment, body⟩ := s
  cases body with
  | pass b | task b | wait b | parallel b => simp only [mapNext, Body.mapNext, hgh b.next rfl]
  | succeed | fail b | choice b => rfl

theorem sameButNext_mapNext (g : TransitionField → TransitionField) (s : State) :
    s.SameButNext (s.mapNext g) := by
  refine ⟨fun f => .ok (g f), ?_⟩
  obtain ⟨name, comment, body⟩ := s
  cases body <;> rfl

/-- An edit that succeeds has changed the transition as it does change transitions. -/
theorem eq_mapNext_of_editNext {f : TransitionField → Except Error TransitionField}
    (hfg : ∀ x y, f x = .ok y → y = g x) (h : s.editNext f = .ok t) : t = s.mapNext g := by
  obtain ⟨name, comment, body⟩ := s
  obtain ⟨body', hbody, rfl⟩ := map_eq_ok.mp h
  cases body with
  | pass b | task b | wait b | parallel b =>
    obtain ⟨next, hnext, rfl⟩ := map_eq_ok.mp hbody
    obtain rfl := hfg _ _ hnext
    rfl
  | succeed | fail b | choice b =>
    obtain rfl := Except.ok.inj hbody
    rfl

end State

/-! ### Chains -/

/-- Where control goes from a state in a chain: on to the one behind it, or nowhere. -/
def Transition.onward : Option State → Transition
  | some s => .next s.name
  | none => .terminal

namespace Collection

/-- States in a chain: their transitions are filled with those that lead onward. -/
def chain (fill : Transition → TransitionField → TransitionField) : List State → List State
  | [] => []
  | s :: ss => s.mapNext (fill (.onward ss.head?)) :: chain fill ss

variable {fill : Transition → TransitionField → TransitionField}

/-- What stands at a position of a chain. -/
theorem getElem?_chain (ss : List State) (i : Nat) :
    (chain fill ss)[i]? = ss[i]?.map fun s => s.mapNext (fill (.onward ss[i + 1]?)) := by
  induction ss generalizing i with
  | nil => rfl
  | cons s ss ih =>
    cases i with
    | zero => rw [chain, List.head?_eq_getElem?]; rfl
    | succ i => exact ih i

theorem map_name_chain (ss : List State) :
    (chain fill ss).map State.name = ss.map State.name := by
  induction ss with
  | nil => rfl
  | cons s ss ih =>
    rw [chain, List.map_cons, List.map_cons, ih]
    rfl

/-- Chains that differ in what they fill are one, if they do not differ on the states. -/
theorem chain_congr {fill' : Transition → TransitionField → TransitionField} {ss : List State}
    (h : ∀ s ∈ ss, ∀ f, s.next? = some f → ∀ t, fill t f = fill' t f) :
    chain fill ss = chain fill' ss := by
  induction ss with
  | nil => rfl
  | cons s ss ih =>
    obtain ⟨hs, hss⟩ := List.forall_mem_cons.mp h
    rw [chain, chain, ih hss, State.mapNext_congr fun f hf => hs f hf _]

/-! ### Linking -/

theorem eq_of_linkState {following : Option State} {s t : State}
    (h : linkState following s = .ok t) : t = s.mapNext (.filled (.onward following)) := by
  refine State.eq_mapNext_of_editNext (fun x y hy => ?_) h
  obtain ⟨mode, _ | transition⟩ := x
  · cases following with
    | some u => exact TransitionField.eq_of_setTarget hy
    | none => exact TransitionField.eq_of_setTerminal hy
  · exact (Except.ok.inj hy).symm

/-- **Linking fills the transitions that are not set**: by induction on the states. -/
theorem eq_of_linkStates {ss ts : List State} (h : linkStates ss = .ok ts) :
    ts = chain .filled ss := by
  induction ss generalizing ts with
  | nil => exact (Except.ok.inj h).symm
  | cons s ss ih =>
    rw [linkStates] at h
    simp only [bind_eq_ok, pure_eq_ok] at h
    obtain ⟨linked, hlinked, rest, hrest, rfl⟩ := h
    rw [chain, ih hrest, eq_of_linkState hlinked]

/-- Ordinary states are linked. -/
theorem link_eq_ok {c : Collection State} (h : ∀ s ∈ c.states, s.IsOrdinary) :
    c.link = .ok { c with states := chain .filled c.states } := by
  obtain ⟨states, hstates, -⟩ := handles_linkStates h
  exact map_eq_ok.mpr ⟨states, hstates, by rw [eq_of_linkStates hstates]⟩

/-! ### Adding one state after another -/

theorem eq_of_endIfUnset {s t : State} (h : endIfUnset s = .ok t) :
    t = s.mapNext (.filled .terminal) := by
  refine State.eq_mapNext_of_editNext (fun x y hy => ?_) h
  obtain ⟨mode, _ | transition⟩ := x
  · exact TransitionField.eq_of_setTerminal hy
  · exact (Except.ok.inj hy).symm

theorem eq_of_continueTo {target : String} {s t : State} (h : continueTo target s = .ok t) :
    t = s.mapNext (.continued target) := by
  refine State.eq_mapNext_of_editNext (fun x y hy => ?_) h
  rw [TransitionField.continued]
  split at hy
  · next hterminal => rw [if_pos hterminal, TransitionField.eq_of_setTarget hy]
  · next hterminal => rw [if_neg hterminal, Except.ok.inj hy]

theorem eq_of_editLast {f : State → Except Error State} {g : State → State}
    (hfg : ∀ s t, f s = .ok t → t = g s) {ss ts : List State} (h : editLast f ss = .ok ts) :
    ts = ss.modifyLast g := by
  induction ss generalizing ts with
  | nil => exact (Except.ok.inj h).symm
  | cons s ss ih =>
    cases ss with
    | nil =>
      obtain ⟨t, ht, rfl⟩ := map_eq_ok.mp h
      rw [hfg s t ht]
      rfl
    | cons u us =>
      obtain ⟨rest, hrest, rfl⟩ := map_eq_ok.mp h
      rw [ih hrest]
      exact (List.modifyLast_append_of_right_ne_nil g [s] (u :: us) (List.cons_ne_nil u us)).symm

/-- Adds states, one after another. -/
def addAll (ss : List State) (c : Collection State) : Except Error (Collection State) :=
  ss.foldlM (fun c s => c.add s) c

theorem addAll_cons_eq_ok {s : State} {ss : List State} {c e : Collection State} :
    addAll (s :: ss) c = .ok e ↔ ∃ d, c.add s = .ok d ∧ addAll ss d = .ok e := by
  rw [addAll, List.foldlM_cons, bind_eq_ok]
  rfl

/-- The states before a new one, of which the last goes on to it instead of ending. -/
def before (s : State) (ss : List State) : List State :=
  ss.modifyLast (State.mapNext (.continued s.name))

theorem length_before (s : State) (ss : List State) : (before s ss).length = ss.length := by
  rcases List.eq_nil_or_concat ss with rfl | ⟨front, last, rfl⟩
  · rfl
  · rw [before, List.concat_eq_append, List.modifyLast_concat, List.length_append,
      List.length_append]
    rfl

/-- **What adding one state does** in autolink mode: the new one ends the execution if it
says nothing else, and the last one does not any more. -/
theorem states_of_add {c d : Collection State} {s : State} (hc : c.autolink = true)
    (h : c.add s = .ok d) : d.autolink = true ∧
      d.states = before s c.states ++ [s.mapNext (.filled .terminal)] := by
  obtain ⟨-, added, front, hadded, hfront, rfl⟩ := add_eq_ok_iff.mp h
  rw [if_pos hc] at hadded hfront
  refine ⟨hc, ?_⟩
  rw [eq_of_endIfUnset hadded, eq_of_editLast (fun _ _ => eq_of_continueTo) hfront]
  rfl

/-- **What adding states does** in autolink mode: by induction on the states, each of which
first ends the execution, and then goes on to the next one unless it has a target. -/
theorem states_of_addAll {c d : Collection State} {s : State} {ss : List State}
    (hc : c.autolink = true) (h : addAll (s :: ss) c = .ok d) :
    d.states = before s c.states ++ chain .refilled (s :: ss) := by
  induction ss generalizing s c with
  | nil =>
    obtain ⟨e, he, h⟩ := addAll_cons_eq_ok.mp h
    obtain rfl := Except.ok.inj h
    rw [(states_of_add hc he).2, chain, chain]
    exact congrArg (_ ++ [·]) (State.mapNext_congr fun f _ => f.refilled_terminal.symm)
  | cons u us ih =>
    obtain ⟨e, he, h⟩ := addAll_cons_eq_ok.mp h
    obtain ⟨hauto, hstates⟩ := states_of_add hc he
    rw [ih hauto h, hstates, before, List.modifyLast_concat, State.mapNext_mapNext,
      State.mapNext_congr fun f _ => f.continued_filled u.name, List.append_assoc]
    rfl

/-- Without autolink mode the states are held as they are added. -/
theorem states_of_addAll_of_not_autolink {c d : Collection State} {ss : List State}
    (hc : c.autolink = false) (h : addAll ss c = .ok d) : d.states = c.states ++ ss := by
  induction ss generalizing c with
  | nil =>
    obtain rfl := Except.ok.inj h
    exact (List.append_nil c.states).symm
  | cons s ss ih =>
    obtain ⟨e, he, h⟩ := addAll_cons_eq_ok.mp h
    obtain ⟨-, rfl⟩ := (add_eq_ok hc).mp he
    rw [ih rfl h, List.append_assoc]
    rfl

/-- States whose names are free and different can be added. -/
theorem InStep.addAll_succeeds {c : Collection State} (hc : c.InStep) {ss : List State}
    (hordinary : ∀ s ∈ ss, s.IsOrdinary) (hnames : (c.names ++ ss.map State.name).Nodup) :
    ∃ d, addAll ss c = .ok d ∧ d.InStep ∧
      d.index = c.index ++ (ss.map State.name).zipIdx c.states.length ∧
      d.startAt = c.startAt.or (ss.head?.map State.name) := by
  induction ss generalizing c with
  | nil =>
    refine ⟨c, rfl, hc, ?_, ?_⟩
    · rw [List.map_nil, List.zipIdx_nil, List.append_nil]
    · exact Option.or_none.symm
  | cons s ss ih =>
    obtain ⟨hs, hss⟩ := List.forall_mem_cons.mp hordinary
    rw [List.map_cons, List.append_cons] at hnames
    have hfree : s.name ∉ c.names := by
      rw [← List.concat_eq_append, List.nodup_append, List.nodup_concat] at hnames
      exact hnames.1.1
    rcases hc.add_cases hs with ⟨htaken, -⟩ | ⟨-, d, hadd, hd, -, hstart⟩
    · exact absurd htaken hfree
    · obtain ⟨hindex, hlength⟩ := index_of_add hadd
      have hnamesd : d.names = c.names ++ [s.name] := by
        rw [names, hindex, List.map_append]
        rfl
      obtain ⟨e, he, hinStep, hindexe, hstarte⟩ := ih hd hss (hnamesd ▸ hnames)
      refine ⟨e, addAll_cons_eq_ok.mpr ⟨d, hadd, he⟩, hinStep, ?_, ?_⟩
      · rw [hindexe, hindex, hlength, List.map_cons, List.zipIdx_cons, List.append_assoc]
        rfl
      · rw [hstarte, hstart]
        cases c.startAt <;> rfl

/-! ### Both ways -/

/-- What becomes of a state of a list in a chain where only empty places are filled. -/
theorem exists_getElem?_chain {ss : List State} {i : Nat} {s : State} (hs : ss[i]? = some s) :
    ∃ t, (chain .filled ss)[i]? = some t ∧ s.SameButNext t ∧ ∀ f, s.next? = some f →
      t.next? = some ⟨f.mode, f.transition.or (some (.onward ss[i + 1]?))⟩ := by
  refine ⟨_, by rw [getElem?_chain, hs]; rfl, s.sameButNext_mapNext _, fun f hf => ?_⟩
  rw [State.next?_mapNext, hf]
  rfl

/-- Where no transition was set, a chain leads from each of its states to the next one, and
nowhere from the last one only. -/
theorem closed_of_chain {ss : List State}
    (hunset : ∀ s ∈ ss, ∀ f, s.next? = some f → f.transition = none) {i : Nat} {t : State}
    {f : TransitionField} (ht : (chain .filled ss)[i]? = some t) (hf : t.next? = some f) :
    (∀ target, f.transition = some (.next target) →
        ∃ u ∈ chain .filled ss, u.name = target) ∧
      (f.transition = some .terminal → i + 1 = (chain .filled ss).length) := by
  have hlength : (chain .filled ss).length = ss.length := by
    simpa using congrArg List.length (@map_name_chain .filled ss)
  rw [getElem?_chain] at ht
  obtain ⟨s, hs, rfl⟩ := Option.map_eq_some_iff.mp ht
  rw [State.next?_mapNext] at hf
  obtain ⟨x, hx, rfl⟩ := Option.map_eq_some_iff.mp hf
  obtain ⟨hlt, rfl⟩ := List.getElem?_eq_some_iff.mp hs
  have hnone := hunset _ (List.getElem_mem hlt) x hx
  rw [TransitionField.filled, hnone, Option.none_or]
  rcases hfollowing : ss[i + 1]? with _ | u
  · refine ⟨nofun, fun _ => ?_⟩
    have hle := List.getElem?_eq_none_iff.mp hfollowing
    omega
  · refine ⟨fun target htarget => ?_, nofun⟩
    obtain rfl := Transition.next.inj (Option.some.inj htarget)
    have hmem : u.name ∈ (chain .filled ss).map State.name := by
      rw [map_name_chain]
      exact List.mem_map_of_mem (List.mem_of_getElem? hfollowing)
    exact List.mem_map.mp hmem

/-- **Chaining states as they are added is chaining them afterwards**, for states that have
different names and of which none ends the execution by itself: each of them leads to the
one behind it, and the last one nowhere, unless it has a target. What is built is ordinary,
so that this is about all states that can be added. -/
theorem autolink_eq_link :
    (∀ s : State, s.Built → s.IsOrdinary) ∧
      ∀ ss : List State, (∀ s ∈ ss, s.IsOrdinary) → (ss.map State.name).Nodup →
        (∀ s ∈ ss, ∀ f, s.next? = some f → f.isTerminal = false) →
        ∃ c d e, addAll ss (empty true) = .ok c ∧ addAll ss (empty false) = .ok d ∧
          d.link = .ok e ∧ c.states = e.states ∧ c.index = e.index ∧ c.startAt = e.startAt ∧
          c.states.map State.name = ss.map State.name ∧
          (∀ (i : Nat) (s : State), ss[i]? = some s → ∃ t, c.states[i]? = some t ∧
            s.SameButNext t ∧ ∀ f, s.next? = some f →
              t.next? = some ⟨f.mode, f.transition.or (some (.onward ss[i + 1]?))⟩) ∧
          ((∀ s ∈ ss, ∀ f, s.next? = some f → f.transition = none) →
            ∀ (i : Nat) (t : State) (f : TransitionField), c.states[i]? = some t →
              t.next? = some f → (∀ target, f.transition = some (.next target) →
                ∃ u ∈ c.states, u.name = target) ∧
              (f.transition = some .terminal → i + 1 = c.states.length)) := by
  refine ⟨fun s hs => hs.isOrdinary, fun ss hordinary hnames hterminal => ?_⟩
  obtain ⟨c, hc, -, hindexc, hstartc⟩ := (inStep_empty true).addAll_succeeds hordinary hnames
  obtain ⟨d, hd, -, hindexd, hstartd⟩ := (inStep_empty false).addAll_succeeds hordinary hnames
  have hstatesd : d.states = ss := states_of_addAll_of_not_autolink rfl hd
  have hlink := link_eq_ok (hstatesd ▸ hordinary)
  -- the two fill the same places, as no state says that it is the end
  have hstatesc : c.states = chain .filled ss := by
    cases ss with
    | nil =>
      obtain rfl := Except.ok.inj hc
      rfl
    | cons s ss =>
      rw [states_of_addAll rfl hc, chain_congr fun u hu f hf t =>
        TransitionField.refilled_eq_filled (hterminal u hu f hf) t]
      rfl
  refine ⟨c, d, _, hc, hd, hlink, ?_, hindexc.trans hindexd.symm, hstartc.trans hstartd.symm,
    ?_, ?_, ?_⟩ <;> rw [hstatesc]
  · rw [hstatesd]
  · exact map_name_chain ss
  · exact fun i s hs => exists_getElem?_chain hs
  · exact fun hunset i t f ht hf => closed_of_chain hunset ht hf

/-- A task that goes on to a state of its own choice. -/
def skipping : State :=
  ⟨"Work", none, .task { next := ⟨.ordinary, some (.next "Done")⟩ }⟩

/-- The task and three states behind it, which do not say where to go on. -/
def skippingFirst : List State :=
  [skipping, .new .wait "Pause", .new .fail "Broken", .new .pass "Done"]

theorem autolink_eq_link_skipping : (∀ s ∈ skippingFirst, s.IsOrdinary) ∧
    (skippingFirst.map State.name).Nodup ∧
    (∀ s ∈ skippingFirst, ∀ f, s.next? = some f → f.isTerminal = false) ∧
    ∃ c d e, addAll skippingFirst (empty true) = .ok c ∧
      addAll skippingFirst (empty false) = .ok d ∧ d.link = .ok e ∧ c.states = e.states ∧
      c.startAt = e.startAt ∧
      c.states.map State.next? =
        [some ⟨.ordinary, some (.next "Done")⟩, some ⟨.ordinary, some (.next "Broken")⟩, none,
          some ⟨.ordinary, some .terminal⟩] := by
  have hnext : ∀ s ∈ skippingFirst, ∀ f, s.next? = some f →
      f.mode = .ordinary ∧ f.isTerminal = false := by
    simp only [skippingFirst, List.forall_mem_cons]
    refine ⟨?_, ?_, ?_, ?_, nofun⟩ <;> rintro f ⟨⟩ <;> exact ⟨rfl, rfl⟩
  have hordinary : ∀ s ∈ skippingFirst, s.IsOrdinary := fun s hs f hf => (hnext s hs f hf).1
  have hnames : (skippingFirst.map State.name).Nodup := by decide
  have hterminal := fun s hs f hf => (hnext s hs f hf).2
  obtain ⟨-, hagree⟩ := autolink_eq_link
  obtain ⟨c, d, e, hc, hd, he, hstates, -, hstart, -⟩ :=
    hagree skippingFirst hordinary hnames hterminal
  refine ⟨hordinary, hnames, hterminal, c, d, e, hc, hd, he, hstates, hstart, ?_⟩
  obtain rfl := Except.ok.inj hc
  rfl

/-! ### Transitions set beforehand -/

/-- **A state that is added with a transition keeps it exactly if that is a target, or if
nothing is added behind it.** Whatever the collection holds and whatever is added later, a
state that ends the execution by itself goes on to the next one that is added, and nothing
else of it changes. -/
theorem autolink_keeps_iff {c d : Collection State} {s : State} {ss : List State}
    {f : TransitionField} (hc : c.autolink = true) (h : addAll (s :: ss) c = .ok d)
    (hs : s.next? = some f) (hf : f.isConfigured = true) :
    ∃ t, d.states[c.states.length]? = some t ∧ s.SameButNext t ∧
      (t.next? = some f ↔ f.target?.isSome = true ∨ ss = []) ∧
      (∀ u us, f.isTerminal = true → ss = u :: us →
        t.next? = some ⟨f.mode, some (.next u.name)⟩) := by
  have ht : d.states[c.states.length]? = some (s.mapNext (.refilled (.onward ss.head?))) := by
    rw [states_of_addAll hc h, ← length_before s, List.getElem?_append_right (Nat.le_refl _),
      Nat.sub_self]
    rfl
  have hnext : (s.mapNext (.refilled (.onward ss.head?))).next? =
      some (f.refilled (.onward ss.head?)) := by
    rw [State.next?_mapNext, hs]
    rfl
  refine ⟨_, ht, s.sameButNext_mapNext _, ?_, fun u us hterminal hss => ?_⟩
  · rw [hnext, Option.some.injEq, TransitionField.refilled_eq_self_iff hf]
    cases ss <;> simp [Transition.onward]
  · obtain ⟨mode, _ | _ | _⟩ := f
    · nomatch hf
    · nomatch hterminal
    · rw [hnext, hss]
      rfl

theorem autolink_keeps_iff_skipping : (empty true).autolink = true ∧
    skipping.next? = some ⟨.ordinary, some (.next "Done")⟩ ∧
    ∃ d, addAll skippingFirst (empty true) = .ok d ∧
      ∃ t, d.states[0]? = some t ∧ t.next? = some ⟨.ordinary, some (.next "Done")⟩ := by
  obtain ⟨d, hd⟩ : ∃ d, addAll skippingFirst (empty true) = .ok d := ⟨_, rfl⟩
  have hnext : skipping.next? = some ⟨.ordinary, some (.next "Done")⟩ := rfl
  obtain ⟨t, ht, -, hkept, -⟩ := autolink_keeps_iff rfl hd hnext rfl
  exact ⟨rfl, hnext, d, hd, t, ht, hkept.mpr (Or.inl rfl)⟩

/-- A state that ends the execution by itself. -/
def ended : State :=
  ⟨"Stop", none, .pass { next := ⟨.ordinary, some .terminal⟩ }⟩

/-- It goes on, though, once another state is added. -/
theorem autolink_redirects_end : ended.Built ∧ ended.next? = some ⟨.ordinary, some .terminal⟩ ∧
    ∃ d, addAll [ended, .new .pass "Then"] (empty true) = .ok d ∧
      (d.get? "Stop").bind State.next? = some ⟨.ordinary, some (.next "Then")⟩ :=
  ⟨.edit (.new .pass "Stop") (.plain (e := .setTerminal) rfl) rfl, rfl, _, rfl, rfl⟩

end Collection

end StatesLanguage
