import StatesLanguage.Proofs.Reading
import StatesLanguage.Proofs.Sound

/-!
# Models that are built

A model comes about by edits or by reading, and the models that an edit brings along do
so as well. `Machine.Built` and its companions are the models that come about in this way,
in any number of steps; states may also be taken out of a collection, and branches out of
a state.

The main result is `Machine.Built.sound`: whatever is built is sound. It is one induction
over states, collections and the edits of both, in which every step has been proved
before: an edit of a state in `State.Sound.apply_of_isPlain`, and adding, chaining and
reading here.
-/

namespace StatesLanguage

open Json (Members)

/-! ### Edits of collections -/

theorem State.Sound.editNext {f : TransitionField → Except Error TransitionField}
    (hf : ∀ x y, x.Fits .ordinary → f x = .ok y → y.Fits .ordinary) {s t : State} (h : s.Sound)
    (ht : s.editNext f = .ok t) : t.Sound ∧ t.name = s.name :=
  ⟨h.editBody (Body.keeps_editNext hf) ht, State.name_editBody ht⟩

/-- Edits that rename nothing leave the list of names as it is. -/
theorem map_name_editAt {f : State → Except Error State} {i : Nat} {ss ts : List State}
    (hf : ∀ s t, f s = .ok t → t.name = s.name) (h : editAt f i ss = .ok ts) :
    ts.map State.name = ss.map State.name := by
  rcases editAt_eq_ok h with rfl | ⟨before, s, t, after, rfl, ht, rfl⟩
  · rfl
  · simp only [List.map_append, List.map_cons, hf s t ht]

theorem map_name_editLast {f : State → Except Error State} {ss ts : List State}
    (hf : ∀ s t, f s = .ok t → t.name = s.name) (h : editLast f ss = .ok ts) :
    ts.map State.name = ss.map State.name := by
  rcases editLast_eq_ok h with rfl | ⟨before, s, t, rfl, ht, rfl⟩
  · rfl
  · simp only [List.map_append, List.map_cons, hf s t ht]

theorem forall_mem_editLast {α : Type} {P : α → Prop} {f : α → Except Error α} {xs ys : List α}
    (hf : ∀ x y, P x → f x = .ok y → P y) (hxs : ∀ x ∈ xs, P x) (h : editLast f xs = .ok ys) :
    ∀ y ∈ ys, P y := by
  rcases editLast_eq_ok h with rfl | ⟨before, x, y, rfl, hy, rfl⟩
  · exact hxs
  · obtain ⟨hbefore, hx⟩ := List.forall_mem_append.mp hxs
    exact forall_mem_snoc hbefore (hf x y (hx x List.mem_cons_self) hy)

namespace Collection

theorem endIfUnset_sound {s t : State} (h : s.Sound) (ht : endIfUnset s = .ok t) :
    t.Sound ∧ t.name = s.name := by
  refine h.editNext (fun x y hx hy => ?_) ht
  split at hy
  · obtain rfl := Except.ok.inj hy
    exact hx
  · exact hx.setTerminal hy

theorem continueTo_sound {target : String} {s t : State} (h : s.Sound)
    (ht : continueTo target s = .ok t) : t.Sound := by
  refine (h.editNext (fun x y hx hy => ?_) ht).1
  split at hy
  · exact hx.setTarget hy
  · obtain rfl := Except.ok.inj hy
    exact hx

theorem linkState_sound {following : Option State} {s t : State} (h : s.Sound)
    (ht : linkState following s = .ok t) : t.Sound ∧ t.name = s.name := by
  refine h.editNext (fun x y hx hy => ?_) ht
  split at hy
  · obtain rfl := Except.ok.inj hy
    exact hx
  · cases following with
    | some u => exact hx.setTarget hy
    | none => exact hx.setTerminal hy

/-- Adding a state either fails, or appends it, maybe with another transition, and
changes the transition of the state before it at most. -/
theorem add_eq_ok_iff {s : State} {c d : Collection State} : c.add s = .ok d ↔
    s.name ∉ c.names ∧ ∃ added before,
      (if c.autolink then endIfUnset s else .ok s) = .ok added ∧
      (if c.autolink then editLast (continueTo s.name) c.states else .ok c.states) = .ok before ∧
      d = ⟨before ++ [added], c.index ++ [(s.name, before.length)], c.startAt.or (some s.name),
        c.autolink⟩ := by
  rw [Collection.add]
  by_cases hname : s.name ∈ c.names
  · simp [hname]
  · have hcontains : ¬ c.names.contains s.name = true := by rwa [List.contains_iff_mem]
    rw [if_neg hcontains, and_iff_right hname]
    cases c.autolink <;>
      simp only [Bool.false_eq_true, if_false, if_true, bind_eq_ok, pure_eq_ok,
        exists_and_left, @eq_comm _ d]

/-- A state that is added takes the position behind all others, and it is stored under its
name. -/
theorem index_of_add {s : State} {c d : Collection State} (h : c.add s = .ok d) :
    d.index = c.index ++ [(s.name, c.states.length)] ∧
      d.states.length = c.states.length + 1 := by
  obtain ⟨-, added, before, -, hbefore, rfl⟩ := add_eq_ok_iff.mp h
  have hlength : before.length = c.states.length := by
    split at hbefore
    · simpa using congrArg List.length
        (map_name_editLast (fun _ _ hy => State.name_editBody hy) hbefore)
    · rw [Except.ok.inj hbefore]
  rw [← hlength, List.length_append]
  exact ⟨rfl, rfl⟩

/-- A collection is indexed with one state more, under a name that is not taken. -/
theorem Indexed.append {c : Collection State} (h : c.Indexed) {before : List State}
    (hbefore : before.map State.name = c.states.map State.name) {added : State}
    (hname : added.name ∉ c.names) :
    Indexed ⟨before ++ [added], c.index ++ [(added.name, before.length)],
      c.startAt.or (some added.name), c.autolink⟩ := by
  -- the old names are kept in front, and the new one is none of them
  refine ⟨?_, ?_, fun _ => ?_⟩
  · rw [List.map_append, List.zipIdx_append, List.length_map, hbefore, Nat.zero_add]
    exact h.index.append_right _
  · rw [List.map_append, hbefore, List.map_singleton, ← List.concat_eq_append, List.nodup_concat,
      ← h.names.mem_iff]
    exact ⟨hname, h.distinct⟩
  · cases c.startAt <;> rfl

/-- A collection is indexed with other states in the places and under the names of its own. -/
theorem Indexed.withStates {c : Collection State} (h : c.Indexed) {states : List State}
    (hnames : states.map State.name = c.states.map State.name) :
    ({ c with states } : Collection State).Indexed := by
  refine ⟨hnames ▸ h.index, hnames ▸ h.distinct, fun hne => h.startAt ?_⟩
  rintro hnil
  rw [hnil, List.map_nil, List.map_eq_nil_iff] at hnames
  exact hne hnames

theorem Sound.add {s : State} {c d : Collection State} (h : c.Sound) (hs : s.Sound)
    (hd : c.add s = .ok d) : d.Sound := by
  obtain ⟨hname, added, before, hadded, hbefore, rfl⟩ := add_eq_ok_iff.mp hd
  have hadded : added.Sound ∧ added.name = s.name := by
    split at hadded
    · exact endIfUnset_sound hs hadded
    · obtain rfl := Except.ok.inj hadded
      exact ⟨hs, rfl⟩
  have hbefore : (∀ t ∈ before, t.Sound) ∧ before.map State.name = c.states.map State.name := by
    split at hbefore
    · exact ⟨forall_mem_editLast (fun _ _ hx hy => continueTo_sound hx hy) h.inside hbefore,
        map_name_editLast (fun _ _ hy => State.name_editBody hy) hbefore⟩
    · obtain rfl := Except.ok.inj hbefore
      exact ⟨h.inside, rfl⟩
  rw [← hadded.2] at hname ⊢
  exact ⟨h.indexed.append hbefore.2 hname, forall_mem_snoc hbefore.1 hadded.1⟩

theorem linkStates_sound {ss ts : List State} (h : ∀ s ∈ ss, s.Sound)
    (ht : linkStates ss = .ok ts) :
    (∀ t ∈ ts, t.Sound) ∧ ts.map State.name = ss.map State.name := by
  induction ss generalizing ts with
  | nil =>
    obtain rfl := Except.ok.inj ht
    exact ⟨h, rfl⟩
  | cons s ss ih =>
    rw [linkStates] at ht
    simp only [bind_eq_ok, pure_eq_ok] at ht
    obtain ⟨linked, hlinked, rest, hrest, rfl⟩ := ht
    rw [List.forall_mem_cons] at h
    obtain ⟨hsound, hname⟩ := linkState_sound h.1 hlinked
    obtain ⟨hsounds, hnames⟩ := ih h.2 hrest
    exact ⟨List.forall_mem_cons.mpr ⟨hsound, hsounds⟩, by
      rw [List.map_cons, hname, hnames, List.map_cons]⟩

/-- A collection is sound with other states in the places and under the names of its own. -/
theorem Sound.withStates {c : Collection State} (h : c.Sound) {states : List State}
    (hsound : ∀ s ∈ states, s.Sound) (hnames : states.map State.name = c.states.map State.name) :
    ({ c with states } : Collection State).Sound :=
  ⟨h.indexed.withStates hnames, hsound⟩

theorem Sound.link {c d : Collection State} (h : c.Sound) (hd : c.link = .ok d) : d.Sound := by
  obtain ⟨states, hstates, rfl⟩ := map_eq_ok.mp hd
  obtain ⟨hsound, hnames⟩ := linkStates_sound h.inside hstates
  exact h.withStates hsound hnames

theorem Sound.withStart {c : Collection State} (h : c.Sound) (name : String) :
    (c.withStart name).Sound :=
  ⟨⟨h.indexed.index, h.indexed.distinct, fun _ => rfl⟩, h.inside⟩

theorem Sound.edit {name : String} {f : State → Except Error State}
    (hsound : ∀ s t, s.Sound → f s = .ok t → t.Sound)
    (hname : ∀ s t, f s = .ok t → t.name = s.name) {c d : Collection State} (h : c.Sound)
    (hd : c.edit name f = .ok d) : d.Sound := by
  rw [Collection.edit] at hd
  split at hd
  · obtain ⟨states, hstates, rfl⟩ := map_eq_ok.mp hd
    exact h.withStates (forall_mem_editAt hsound h.inside hstates)
      (map_name_editAt hname hstates)
  · obtain rfl := Except.ok.inj hd
    exact h

end Collection

/-! ### Reading -/

/-- What is read as a collection is indexed. -/
theorem Collection.Shown.indexed {r : Registry} {ms : Members} {c : Collection State}
    (h : c.Shown r ms) : c.Indexed := by
  refine ⟨.of_eq h.index, h.distinct, fun hne => ?_⟩
  obtain ⟨start, -, hstart⟩ := h.startAt
  obtain ⟨s, ss, hcons⟩ := List.exists_cons_of_ne_nil hne
  rw [hstart, hcons]
  cases start <;> rfl

/-- It is sound, given that for the states in it. -/
theorem Collection.Shown.sound {r : Registry} {ms : Members} {c : Collection State}
    (h : c.Shown r ms) (hms : (Json.object ms).HasDistinctKeys)
    (hstates : ∀ s ∈ c.states, ∀ name v, v.HasDistinctKeys →
      (State.ofJson r name v).outcome = .ok s → s.Sound) : c.Sound := by
  refine ⟨h.indexed, fun s hs => ?_⟩
  obtain ⟨members, name, v, hmembers, hm, hread⟩ := h.exists_state hs
  have hdistinct := hms.getD hmembers (.object List.nodup_nil nofun)
  exact hstates s hs name v (hdistinct.members _ hm) hread

/-- Whatever is read as a state from a value without a key twice is sound: by induction
on the branches of the state. -/
theorem State.sound_of_ofJson {r : Registry} {s : State} {name : String} {v : Json}
    (hv : v.HasDistinctKeys) (h : (State.ofJson r name v).outcome = .ok s) : s.Sound := by
  induction s using State.branchInduction generalizing name v with
  | step s ih =>
  obtain ⟨ms, rfl, hshown⟩ := State.ofJson_eq_ok.mp h
  refine sound_of_branches (hshown.body.sound hv) fun c hc => ?_
  obtain ⟨items, members, hitems, hmem, hcshown⟩ := hshown.exists_branch hc
  have hdistinct := hv.getD hitems (.array nofun)
  exact hcshown.sound (hdistinct.items _ hmem) fun t ht name v hv hread => ih c hc t ht hv hread

theorem Collection.sound_of_ofMembers {r : Registry} {ms : Members} {c : Collection State}
    (hms : (Json.object ms).HasDistinctKeys)
    (h : (Collection.ofMembers r ms).outcome = .ok c) : c.Sound :=
  (Collection.ofMembers_eq_ok.mp h).sound hms fun _ _ _ _ hv hread =>
    State.sound_of_ofJson hv hread

/-! ### What is built -/

/-- The error handlers that are made for any names of errors, given a transition and a
placement of the error output, or read. -/
inductive Catcher.Built : Catcher → Prop
  | ofNames (errors : List ErrorName) : Built ⟨errors, .unset .ordinary, .unset⟩
  | setTarget {c d : Catcher} {target : String} (hc : c.Built) (h : c.setTarget target = .ok d) :
    d.Built
  | setTerminal {c d : Catcher} (hc : c.Built) (h : c.setTerminal = .ok d) : d.Built
  | place {c d : Catcher} {text : String} (hc : c.Built) (h : c.place text = .ok d) : d.Built
  | discard {c : Catcher} (hc : c.Built) : c.discard.Built
  | read {c : Catcher} {v : Json} (h : Catcher.ofJson v = .ok c) : c.Built

mutual

/-- The states that are made by edits, read, or taken out of a collection. -/
inductive State.Built : State → Prop
  | new (kind : StateKind) (name : String) : State.Built (.new kind name)
  | edit {s t : State} {e : StateEdit} (hs : State.Built s) (he : StateEdit.Built e)
    (h : State.apply e s = .ok t) : State.Built t
  | read {r : Registry} {name : String} {v : Json} {s : State} (hv : v.HasDistinctKeys)
    (h : (State.ofJson r name v).outcome = .ok s) : State.Built s
  | held {c : Collection State} {s : State} (hc : Collection.Built c) (h : s ∈ c.states) :
    State.Built s

/-- The collections that are made by edits, read, or taken out of a state. -/
inductive Collection.Built : Collection State → Prop
  | empty (autolink : Bool) : Collection.Built (.empty autolink)
  | edit {c d : Collection State} {e : CollectionEdit} (hc : Collection.Built c)
    (he : CollectionEdit.Built e) (h : Collection.apply e c = .ok d) : Collection.Built d
  | read {r : Registry} {ms : Members} {c : Collection State}
    (hms : (Json.object ms).HasDistinctKeys)
    (h : (Collection.ofMembers r ms).outcome = .ok c) : Collection.Built c
  | branch {s : State} {c : Collection State} (hs : State.Built s) (h : c ∈ s.branches) :
    Collection.Built c

/-- The edits of states that bring along only what is built itself. -/
inductive StateEdit.Built : StateEdit → Prop
  | plain {e : StateEdit} (h : e.isPlain = true) : StateEdit.Built e
  | setResult {v : Json} (hv : v.HasDistinctKeys) : StateEdit.Built (.setResult v)
  | addCatcher {c : Catcher} (hc : c.Built) : StateEdit.Built (.addCatcher c)
  | pushBranch {c : Collection State} (hc : Collection.Built c) : StateEdit.Built (.pushBranch c)
  | editBranch {i : Nat} {e : CollectionEdit} (he : CollectionEdit.Built e) :
    StateEdit.Built (.editBranch i e)

/-- The edits of collections that bring along only what is built itself. -/
inductive CollectionEdit.Built : CollectionEdit → Prop
  | add {s : State} (hs : State.Built s) : CollectionEdit.Built (.add s)
  | link : CollectionEdit.Built .link
  | setStart (name : String) : CollectionEdit.Built (.setStart name)
  | editState {name : String} {e : StateEdit} (he : StateEdit.Built e) :
    CollectionEdit.Built (.editState name e)

end

/-- The machines that are made of a collection, such as the empty one, by edits of a
machine, or read. -/
inductive Machine.Built : Machine → Prop
  | ofCollection {c : Collection State} (hc : c.Built) : Built { states := c }
  | edit {m n : Machine} {e : MachineEdit}
    (hm : m.Built) (he : ∀ f, e = .states f → f.Built) (h : m.apply e = .ok n) : n.Built
  | read {r : Registry} {document : Json} {m : Machine} (hd : document.HasDistinctKeys)
    (h : (Machine.ofDocument r document).outcome = .ok m) : m.Built

/-! ### Whatever is built is sound -/

theorem Catcher.Built.fits {c : Catcher} (h : c.Built) : c.next.Fits .ordinary := by
  induction h with
  | ofNames errors => exact TransitionField.fits_unset .ordinary
  | setTarget _ h ih =>
    obtain ⟨next, hnext, rfl⟩ := map_eq_ok.mp h
    exact ih.setTarget hnext
  | setTerminal _ h ih =>
    obtain ⟨next, hnext, rfl⟩ := map_eq_ok.mp h
    exact ih.setTerminal hnext
  | place _ h ih =>
    obtain ⟨_, -, rfl⟩ := map_eq_ok.mp h
    exact ih
  | discard _ ih => exact ih
  | read h =>
    obtain ⟨_, -, hshown⟩ := Catcher.ofJson_eq_ok.mp h
    exact hshown.next.fits

/-- An edit of a state keeps every state sound. -/
def StateEdit.Keeps (e : StateEdit) : Prop :=
  ∀ s t : State, s.Sound → State.apply e s = .ok t → t.Sound

/-- An edit of a collection keeps every collection sound. -/
def CollectionEdit.Keeps (e : CollectionEdit) : Prop :=
  ∀ c d : Collection State, c.Sound → Collection.apply e c = .ok d → d.Sound

theorem StateEdit.keeps_setResult {v : Json} (hv : v.HasDistinctKeys) :
    (StateEdit.setResult v).Keeps := by
  intro s t hs ht
  rw [State.apply] at ht
  refine hs.editBody (fun b c hb hc => ?_) ht
  obtain rfl := Except.ok.inj hc
  exact hb.withResult hv

theorem StateEdit.keeps_addCatcher {c : Catcher} (hc : c.Built) :
    (StateEdit.addCatcher c).Keeps := by
  intro s t hs ht
  refine hs.editTask (fun b d hb hd => ?_) ht
  obtain rfl := Except.ok.inj hd
  exact ⟨hb.next, hb.result, forall_mem_snoc hb.catchers hc.fits, hb.rules⟩

theorem StateEdit.keeps_pushBranch {c : Collection State} (hc : c.Sound) :
    (StateEdit.pushBranch c).Keeps := by
  intro s t hs ht
  rw [State.apply] at ht
  refine hs.editBranches (fun cs ds hcs hds => ?_) ht
  obtain rfl := Except.ok.inj hds
  exact forall_mem_snoc hcs hc

theorem StateEdit.keeps_editBranch {i : Nat} {e : CollectionEdit} (he : e.Keeps) :
    (StateEdit.editBranch i e).Keeps := by
  intro s t hs ht
  rw [State.apply] at ht
  exact hs.editBranches (fun cs ds hcs hds => forall_mem_editAt he hcs hds) ht

theorem CollectionEdit.keeps_editState {name : String} {e : StateEdit} (he : e.Keeps) :
    (CollectionEdit.editState name e).Keeps := by
  intro c d hc hd
  rw [Collection.apply] at hd
  exact hc.edit he (fun _ _ h => State.name_apply h) hd

mutual

theorem State.Built.sound {s : State} : s.Built → s.Sound
  | .new kind name => State.sound_new kind name
  | .edit hs he h => he.keeps _ _ hs.sound h
  | .read hv h => State.sound_of_ofJson hv h
  | .held hc h => hc.sound.inside _ h

theorem Collection.Built.sound {c : Collection State} : c.Built → c.Sound
  | .empty autolink => Collection.sound_empty autolink
  | .edit hc he h => he.keeps _ _ hc.sound h
  | .read hms h => Collection.sound_of_ofMembers hms h
  | .branch hs h => hs.sound.branches _ h

theorem StateEdit.Built.keeps {e : StateEdit} : e.Built → e.Keeps
  | .plain h => fun _ _ hs ht => hs.apply_of_isPlain h ht
  | .setResult hv => StateEdit.keeps_setResult hv
  | .addCatcher hc => StateEdit.keeps_addCatcher hc
  | .pushBranch hc => StateEdit.keeps_pushBranch hc.sound
  | .editBranch he => StateEdit.keeps_editBranch he.keeps

theorem CollectionEdit.Built.keeps {e : CollectionEdit} : e.Built → e.Keeps
  | .add hs => fun _ _ hc hd => hc.add hs.sound hd
  | .link => fun _ _ hc hd => hc.link hd
  | .setStart name => fun _ _ hc hd => Except.ok.inj hd ▸ hc.withStart name
  | .editState he => CollectionEdit.keeps_editState he.keeps

end

/-- **Whatever is built is sound.** -/
theorem Machine.Built.sound {m : Machine} (h : m.Built) : m.states.Sound := by
  induction h with
  | ofCollection hc => exact hc.sound
  | @edit m n e _ he h ih =>
    -- the other edits do not touch the states
    cases e with
    | states f =>
      obtain ⟨states, hstates, rfl⟩ := map_eq_ok.mp h
      exact (he f rfl).keeps _ _ ih hstates
    | setTimeout n =>
      obtain ⟨_, -, rfl⟩ := map_eq_ok.mp h
      exact ih
    | setComment text | setVersion text =>
      obtain rfl := Except.ok.inj h
      exact ih
  | read hd h =>
    obtain ⟨ms, rfl, hshown⟩ := Machine.ofDocument_eq_ok.mp h
    exact Collection.sound_of_ofMembers hd (Collection.ofMembers_eq_ok.mpr hshown.states)

/-- A machine of a task that ends, also after an error of its own. -/
def Machine.oneTask : Machine where
  states :=
    { states := [⟨"Work", none, .task {
        resource := some "work"
        next := ⟨.ordinary, some .terminal⟩
        catchers := [⟨[.custom "Broken"], ⟨.ordinary, some .terminal⟩, .unset⟩] }⟩]
      index := [("Work", 0)]
      startAt := some "Work"
      autolink := true }

theorem Machine.oneTask_built : oneTask.Built := by
  have hcatcher : Catcher.Built ⟨[.custom "Broken"], ⟨.ordinary, some .terminal⟩, .unset⟩ :=
    .setTerminal (.ofNames _) rfl
  have hstate : State.Built ⟨"Work", none, .task {
      resource := some "work"
      catchers := [⟨[.custom "Broken"], ⟨.ordinary, some .terminal⟩, .unset⟩] }⟩ :=
    .edit (.edit (.new .task "Work") (.plain (e := .setResource "work") rfl) rfl)
      (.addCatcher hcatcher) rfl
  exact .edit (e := .states (.add _)) (.ofCollection (.empty true))
    (fun _ h => MachineEdit.states.inj h ▸ .add hstate) rfl

end StatesLanguage
