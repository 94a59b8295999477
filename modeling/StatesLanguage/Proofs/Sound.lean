import StatesLanguage.Edit
import StatesLanguage.Proofs.Bodies
import StatesLanguage.Proofs.Preorder

/-!
# What holds of every model

A model may be incomplete, but some things are true of it at any time, however it came
about. Transitions are such as their place allows: no rule ends the execution, and below
the root of a tree there is no transition at all. The names in a collection are those of
its states, with their positions, and no two are equal. No stored value holds a key twice.

`State.Sound` and `Collection.Sound` say so of a model and of all that is inside it. This
file shows that each edit of a rule or a state keeps them, apart from those that bring a
model along.
-/

namespace StatesLanguage

open Json (Members)

/-! ### Transitions -/

namespace TransitionField

theorem fits_unset (mode : TransitionMode) : (unset mode).Fits mode :=
  ⟨rfl, fun h => (nomatch h), fun _ => rfl⟩

theorem Fits.setTarget {mode : TransitionMode} {target : String} {f g : TransitionField}
    (h : f.Fits mode) (hg : f.setTarget target = .ok g) : g.Fits mode := by
  obtain ⟨m, t⟩ := f
  obtain rfl : m = mode := h.mode_eq
  cases m with
  | locked => nomatch hg
  | ordinary | withoutEnd =>
    obtain rfl := Except.ok.inj hg
    exact ⟨rfl, nofun, nofun⟩

theorem Fits.setTerminal {mode : TransitionMode} {f g : TransitionField} (h : f.Fits mode)
    (hg : f.setTerminal = .ok g) : g.Fits mode := by
  obtain ⟨m, t⟩ := f
  obtain rfl : m = mode := h.mode_eq
  cases m with
  | locked | withoutEnd => nomatch hg
  | ordinary =>
    obtain rfl := Except.ok.inj hg
    exact ⟨rfl, fun _ => rfl, nofun⟩

theorem Shown.fits {mode : TransitionMode} {ms : Members} {f : TransitionField}
    (h : f.Shown mode ms) : f.Fits mode := by
  obtain ⟨m, _ | target | _⟩ := f
  · exact ⟨h.1, nofun, fun _ => rfl⟩
  -- neither a target nor the end is shown in a locked place
  · exact ⟨h.1, nofun, fun hlocked => absurd hlocked h.2.1⟩
  · exact ⟨h.1, fun _ => h.2.1, fun hlocked => nomatch hlocked.symm.trans h.2.1⟩

end TransitionField

/-! ### Rules -/

/-- Every transition in a tree of rules is such as its place allows; the root stands in
the place of the mode. -/
inductive Rule.Placed : TransitionMode → Rule → Prop
  /-- A logic operator over rules that are locked. -/
  | logic {mode : TransitionMode} {op : LogicOp} {children : List Rule} {next : TransitionField}
    (fits : next.Fits mode) (inside : ∀ r ∈ children, Placed .locked r) :
    Placed mode (.logic op children next)
  /-- A comparison. -/
  | compare {mode : TransitionMode} {c : Comparison} {next : TransitionField}
    (fits : next.Fits mode) : Placed mode (.compare c next)

namespace Rule

theorem placed_new (mode : TransitionMode) (op : Operator) : (new mode op).Placed mode := by
  cases op with
  | logic op => exact .logic (TransitionField.fits_unset mode) nofun
  | compare op => exact .compare (TransitionField.fits_unset mode)

theorem Placed.next {mode : TransitionMode} {r : Rule} (h : r.Placed mode) :
    r.next.Fits mode := by
  cases h with
  | logic fits _ => exact fits
  | compare fits => exact fits

theorem Placed.withNext {mode : TransitionMode} {r : Rule} (h : r.Placed mode)
    {next : TransitionField} (hnext : next.Fits mode) : (r.withNext next).Placed mode := by
  cases h with
  | logic _ inside => exact .logic hnext inside
  | compare _ => exact .compare hnext

theorem Placed.applyHere {mode : TransitionMode} {e : RuleEdit} {r t : Rule} (h : r.Placed mode)
    (ht : r.applyHere e = .ok t) : t.Placed mode := by
  cases e with
  | setTarget target =>
    obtain ⟨next, hnext, rfl⟩ := map_eq_ok.mp ht
    exact h.withNext (h.next.setTarget hnext)
  | setTerminal =>
    obtain ⟨next, hnext, rfl⟩ := map_eq_ok.mp ht
    exact h.withNext (h.next.setTerminal hnext)
  | setVariable text =>
    cases h with
    | logic fits inside =>
      obtain rfl := Except.ok.inj ht
      exact .logic fits inside
    | compare fits =>
      obtain ⟨d, -, rfl⟩ := map_eq_ok.mp ht
      exact .compare fits
  | setLiteral v =>
    cases h with
    | logic fits inside =>
      obtain rfl := Except.ok.inj ht
      exact .logic fits inside
    | compare fits =>
      obtain ⟨d, -, rfl⟩ := map_eq_ok.mp ht
      exact .compare fits
  | add child =>
    cases h with
    | logic fits inside =>
      obtain rfl := Except.ok.inj ht
      exact .logic fits (forall_mem_snoc inside (placed_new .locked child))
    | compare fits =>
      obtain rfl := Except.ok.inj ht
      exact .compare fits

end Rule

/-- What holds of every item, and is kept by an edit of one, holds of every item still. -/
theorem forall_mem_editAt {α : Type} {P : α → Prop} {f : α → Except Error α} {i : Nat}
    {xs ys : List α} (hf : ∀ x y, P x → f x = .ok y → P y) (hxs : ∀ x ∈ xs, P x)
    (h : editAt f i xs = .ok ys) : ∀ y ∈ ys, P y := by
  rcases editAt_eq_ok h with rfl | ⟨before, x, y, after, rfl, hy, rfl⟩
  · exact hxs
  · obtain ⟨hbefore, hx⟩ := List.forall_mem_append.mp hxs
    obtain ⟨hx, hafter⟩ := List.forall_mem_cons.mp hx
    exact List.forall_mem_append.mpr
      ⟨hbefore, List.forall_mem_cons.mpr ⟨hf x y hx hy, hafter⟩⟩

/-- **An edit anywhere in a tree keeps every transition in its place**: by induction on
the address. -/
theorem Rule.Placed.apply {mode : TransitionMode} {e : RuleEdit} {address : List Nat}
    {r t : Rule} (h : r.Placed mode) (ht : r.apply e address = .ok t) : t.Placed mode := by
  induction address generalizing mode r t with
  | nil => exact h.applyHere ht
  | cons i address ih =>
    cases h with
    | logic fits inside =>
      obtain ⟨children, hchildren, rfl⟩ := map_eq_ok.mp ht
      exact .logic fits (forall_mem_editAt (fun _ _ hx hy => ih hx hy) inside hchildren)
    | compare fits =>
      obtain rfl := Except.ok.inj ht
      exact .compare fits

/-- Whatever is read as a rule has every transition in its place: by induction on the
rule. -/
theorem Rule.placed_of_ofJson {mode : TransitionMode} {v : Json} {r : Rule}
    (h : Rule.ofJson mode v = .ok r) : r.Placed mode := by
  induction r generalizing mode v with
  | logic op children next ih =>
    obtain ⟨ms, rfl, -, ⟨_, items, -, -, hread⟩, hnext⟩ := Rule.ofJson_eq_ok.mp h
    refine .logic hnext.fits fun r hr => ?_
    obtain ⟨w, -, hw⟩ := forall₂_mem_right hread hr
    exact ih r hr hw
  | compare c next =>
    obtain ⟨ms, rfl, -, -, -, hnext⟩ := Rule.ofJson_eq_ok.mp h
    exact .compare hnext.fits

/-! ### Bodies -/

namespace Body

variable {σ : Type}

/-- What holds of a body at any time, its branches apart. -/
structure Sound (b : Body σ) : Prop where
  /-- The transition of a state takes either a target or the end. -/
  next : ∀ f, b.next? = some f → f.Fits .ordinary
  /-- The fixed result holds no key twice. -/
  result : ∀ v, b.result? = some v → v.HasDistinctKeys
  /-- The transition of an error handler takes either. -/
  catchers : ∀ c ∈ b.catchers, c.next.Fits .ordinary
  /-- The rules stand at the roots of their trees. -/
  rules : ∀ r ∈ b.rules, r.Placed .withoutEnd

theorem sound_new (kind : StateKind) : (Body.new kind : Body σ).Sound := by
  cases kind with
  | pass | task | wait | parallel =>
    exact ⟨fun f hf => Option.some.inj hf ▸ TransitionField.fits_unset .ordinary, nofun, nofun,
      nofun⟩
  | succeed | fail | choice => exact ⟨nofun, nofun, nofun, nofun⟩

/-- An edit of a body that keeps it sound and leaves the branches alone. -/
def Keeps (f : Body σ → Except Error (Body σ)) : Prop :=
  ∀ b c, b.Sound → f b = .ok c → c.Sound ∧ c.branches = b.branches

theorem keeps_editNext {f : TransitionField → Except Error TransitionField}
    (hf : ∀ x y, x.Fits .ordinary → f x = .ok y → y.Fits .ordinary) :
    Keeps (Body.editNext f : Body σ → Except Error (Body σ)) := by
  intro b c hb hc
  cases b with
  | pass b | task b | wait b | parallel b =>
    obtain ⟨next, hnext, rfl⟩ := map_eq_ok.mp hc
    have hfits := hf _ _ (hb.next _ rfl) hnext
    exact ⟨⟨fun g hg => Option.some.inj hg ▸ hfits, hb.result, hb.catchers, hb.rules⟩, rfl⟩
  | succeed | fail b | choice b =>
    obtain rfl := Except.ok.inj hc
    exact ⟨hb, rfl⟩

theorem keeps_editPaths (f : DataPaths → Except Error DataPaths) :
    Keeps (Body.editPaths f : Body σ → Except Error (Body σ)) := by
  intro b c hb hc
  cases b with
  | pass b | task b | parallel b =>
    obtain ⟨paths, -, rfl⟩ := map_eq_ok.mp hc
    exact ⟨⟨hb.next, hb.result, hb.catchers, hb.rules⟩, rfl⟩
  | succeed | fail b | choice b | wait b =>
    obtain rfl := Except.ok.inj hc
    exact ⟨hb, rfl⟩

theorem Sound.withResultPath {b : Body σ} (h : b.Sound) (r : ResultPath) :
    (b.withResultPath r).Sound ∧ (b.withResultPath r).branches = b.branches := by
  cases b with
  | pass b | task b | parallel b => exact ⟨⟨h.next, h.result, h.catchers, h.rules⟩, rfl⟩
  | succeed | fail b | choice b | wait b => exact ⟨h, rfl⟩

theorem Sound.withResult {b : Body σ} (h : b.Sound) {v : Json} (hv : v.HasDistinctKeys) :
    (b.withResult v).Sound ∧ (b.withResult v).branches = b.branches := by
  cases b with
  | pass b | task b =>
    exact ⟨⟨h.next, fun w hw => Option.some.inj hw ▸ hv, h.catchers, h.rules⟩, rfl⟩
  | succeed | fail b | choice b | wait b | parallel b => exact ⟨h, rfl⟩

/-- What is read as a body from members without a key twice is sound. -/
theorem Shown.sound {ms : Members} (hms : (Json.object ms).HasDistinctKeys) {b : Body State}
    (h : b.Shown ms) : b.Sound := by
  cases b with
  | pass b =>
    exact ⟨fun f hf => Option.some.inj hf ▸ h.next.fits,
      fun v hv => hms.lookup (h.result.trans hv), nofun, nofun⟩
  | task b =>
    refine ⟨fun f hf => Option.some.inj hf ▸ h.next.fits,
      fun v hv => hms.lookup (h.result.trans hv), fun c hc => ?_, nofun⟩
    obtain ⟨items, -, hread⟩ := h.catchers
    obtain ⟨w, -, hw⟩ := forall₂_mem_right hread hc
    obtain ⟨_, -, hshown⟩ := Catcher.ofJson_eq_ok.mp hw
    exact hshown.next.fits
  | wait b | parallel b =>
    exact ⟨fun f hf => Option.some.inj hf ▸ h.next.fits, nofun, nofun, nofun⟩
  | succeed | fail b => exact ⟨nofun, nofun, nofun, nofun⟩
  | choice b =>
    refine ⟨nofun, nofun, nofun, fun r hr => ?_⟩
    obtain ⟨items, -, hread⟩ := h.rules
    obtain ⟨w, -, hw⟩ := forall₂_mem_right hread hr
    exact Rule.placed_of_ofJson hw

end Body

/-! ### States and collections -/

/-- The positions of the states, and no others, are stored under their names, no two of which
are equal, and a collection that is not empty has a start. -/
structure Collection.Indexed (c : Collection State) : Prop where
  /-- A state is found under its own name. The order of what is stored does not matter. -/
  index : c.index.Perm (c.states.map State.name).zipIdx
  /-- No two states have one name. -/
  distinct : (c.states.map State.name).Nodup
  /-- The first state is the start, if no other one is. -/
  startAt : c.states ≠ [] → c.startAt.isSome = true

theorem Collection.Indexed.names {c : Collection State} (h : c.Indexed) :
    c.names.Perm (c.states.map State.name) := by
  have hperm := h.index.map Prod.fst
  rwa [List.zipIdx_map_fst] at hperm

/-- A position is stored under a name once. -/
theorem Collection.Indexed.taken {c : Collection State} (h : c.Indexed) : c.names.Nodup :=
  h.names.nodup_iff.mpr h.distinct

/-- A state that is sound, and all that is inside it. -/
inductive State.Sound : State → Prop
  /-- The body is sound, the branches are indexed, and the states in them are sound. -/
  | intro {s : State} (body : s.body.Sound) (indexed : ∀ c ∈ s.branches, c.Indexed)
    (inside : ∀ c ∈ s.branches, ∀ t ∈ c.states, State.Sound t) : State.Sound s

/-- A collection that is indexed, and all of whose states are sound. -/
structure Collection.Sound (c : Collection State) : Prop where
  /-- The collection itself. -/
  indexed : c.Indexed
  /-- The states. -/
  inside : ∀ s ∈ c.states, s.Sound

theorem Collection.sound_empty (autolink : Bool) : (Collection.empty autolink).Sound :=
  ⟨⟨.refl _, List.nodup_nil, fun h => absurd rfl h⟩, nofun⟩

namespace State

theorem Sound.body {s : State} (h : s.Sound) : s.body.Sound := by
  cases h with
  | intro body _ _ => exact body

theorem Sound.branches {s : State} (h : s.Sound) : ∀ c ∈ s.branches, c.Sound := by
  cases h with
  | intro _ indexed inside => exact fun c hc => ⟨indexed c hc, inside c hc⟩

theorem sound_of_branches {s : State} (body : s.body.Sound)
    (branches : ∀ c ∈ s.branches, c.Sound) : s.Sound :=
  .intro body (fun c hc => (branches c hc).indexed) fun c hc => (branches c hc).inside

theorem sound_new (kind : StateKind) (name : String) : (State.new kind name).Sound := by
  refine sound_of_branches (Body.sound_new kind) ?_
  cases kind <;> exact nofun

theorem Sound.editBody {f : Body State → Except Error (Body State)} (hf : Body.Keeps f)
    {s t : State} (h : s.Sound) (ht : s.editBody f = .ok t) : t.Sound := by
  obtain ⟨body, hbody, rfl⟩ := map_eq_ok.mp ht
  obtain ⟨hsound, hbranches⟩ := hf _ _ h.body hbody
  refine sound_of_branches hsound fun c hc => h.branches c ?_
  rw [State.branches, ← hbranches]
  exact hc

theorem name_editBody {f : Body State → Except Error (Body State)} {s t : State}
    (ht : s.editBody f = .ok t) : t.name = s.name := by
  obtain ⟨body, -, rfl⟩ := map_eq_ok.mp ht
  rfl

/-! ### Edits of states -/

section Edits

variable {s t : State}

theorem Sound.editTask {f : Task → Except Error Task}
    (hf : ∀ b c, (Body.task b : Body State).Sound → f b = .ok c → (Body.task c : Body State).Sound)
    (h : s.Sound) (ht : s.editTask f = .ok t) : t.Sound := by
  refine h.editBody (fun b c hb hc => ?_) ht
  cases b with
  | task b =>
    obtain ⟨d, hd, rfl⟩ := map_eq_ok.mp hc
    exact ⟨hf b d hb hd, rfl⟩
  | _ =>
    obtain rfl := Except.ok.inj hc
    exact ⟨hb, rfl⟩

theorem Sound.editWait {f : Wait → Except Error Wait}
    (hf : ∀ b c, f b = .ok c → c.next = b.next) (h : s.Sound)
    (ht : s.editWait f = .ok t) : t.Sound := by
  refine h.editBody (fun b c hb hc => ?_) ht
  cases b with
  | wait b =>
    obtain ⟨d, hd, rfl⟩ := map_eq_ok.mp hc
    refine ⟨⟨fun g hg => hb.next g ?_, hb.result, hb.catchers, hb.rules⟩, rfl⟩
    rw [← hg, Body.next?, Body.next?, hf b d hd]
  | _ =>
    obtain rfl := Except.ok.inj hc
    exact ⟨hb, rfl⟩

theorem Sound.editFail {f : Fail → Except Error Fail} (h : s.Sound)
    (ht : s.editFail f = .ok t) : t.Sound := by
  refine h.editBody (fun b c hb hc => ?_) ht
  cases b with
  | fail b =>
    obtain ⟨d, hd, rfl⟩ := map_eq_ok.mp hc
    exact ⟨⟨nofun, nofun, nofun, nofun⟩, rfl⟩
  | _ =>
    obtain rfl := Except.ok.inj hc
    exact ⟨hb, rfl⟩

theorem Sound.editChoice {f : Choice → Except Error Choice}
    (hf : ∀ b c, (∀ r ∈ b.rules, r.Placed .withoutEnd) → f b = .ok c →
      ∀ r ∈ c.rules, r.Placed .withoutEnd)
    (h : s.Sound) (ht : s.editChoice f = .ok t) : t.Sound := by
  refine h.editBody (fun b c hb hc => ?_) ht
  cases b with
  | choice b =>
    obtain ⟨d, hd, rfl⟩ := map_eq_ok.mp hc
    exact ⟨⟨nofun, nofun, nofun, hf b d hb.rules hd⟩, rfl⟩
  | _ =>
    obtain rfl := Except.ok.inj hc
    exact ⟨hb, rfl⟩

theorem Sound.editBranches
    {f : List (Collection State) → Except Error (List (Collection State))}
    (hf : ∀ cs ds, (∀ c ∈ cs, c.Sound) → f cs = .ok ds → ∀ d ∈ ds, d.Sound)
    (h : s.Sound) (ht : s.editBranches f = .ok t) : t.Sound := by
  obtain ⟨name, comment, body⟩ := s
  obtain ⟨body', hbody, rfl⟩ := map_eq_ok.mp ht
  cases body with
  | parallel b =>
    obtain ⟨branches, hbranches, rfl⟩ := map_eq_ok.mp hbody
    -- soundness of a body does not see the branches
    refine sound_of_branches ?_ (hf _ _ h.branches hbranches)
    exact ⟨h.body.next, h.body.result, h.body.catchers, h.body.rules⟩
  | _ =>
    obtain rfl := Except.ok.inj hbody
    exact h

end Edits

end State

/-- An edit that brings neither a model nor a value along that must be sound itself. -/
def StateEdit.isPlain : StateEdit → Bool
  | .setResult _ | .addCatcher _ | .pushBranch _ | .editBranch _ _ => false
  | _ => true

theorem State.Sound.apply_of_isPlain {e : StateEdit} {s t : State} (h : s.Sound)
    (he : e.isPlain = true) (ht : State.apply e s = .ok t) : t.Sound := by
  cases e with
  | setResult v | addCatcher c | pushBranch c | editBranch i e => nomatch he
  | setComment text =>
    obtain rfl := Except.ok.inj ht
    exact sound_of_branches h.body h.branches
  | setTarget target =>
    exact h.editBody (Body.keeps_editNext fun _ _ hx hy => hx.setTarget hy) ht
  | setTerminal => exact h.editBody (Body.keeps_editNext fun _ _ hx hy => hx.setTerminal hy) ht
  | setInput text => exact h.editBody (Body.keeps_editPaths _) ht
  | setOutput text => exact h.editBody (Body.keeps_editPaths _) ht
  | placeResult text =>
    rw [State.apply] at ht
    refine h.editBody (fun b c hb hc => ?_) ht
    obtain ⟨r, -, rfl⟩ := map_eq_ok.mp hc
    exact hb.withResultPath r
  | discardResult =>
    rw [State.apply] at ht
    refine h.editBody (fun b c hb hc => ?_) ht
    obtain rfl := Except.ok.inj hc
    exact hb.withResultPath .discarded
  | setResource text =>
    refine h.editTask (fun b c hb hc => ?_) ht
    obtain rfl := Except.ok.inj hc
    exact ⟨hb.next, hb.result, hb.catchers, hb.rules⟩
  | setTimeout n | setHeartbeat n =>
    refine h.editTask (fun b c hb hc => ?_) ht
    obtain ⟨_, -, rfl⟩ := map_eq_ok.mp hc
    exact ⟨hb.next, hb.result, hb.catchers, hb.rules⟩
  | addRetrier r =>
    refine h.editTask (fun b c hb hc => ?_) ht
    obtain rfl := Except.ok.inj hc
    exact ⟨hb.next, hb.result, hb.catchers, hb.rules⟩
  | setSeconds n =>
    refine h.editWait (fun b c hc => ?_) ht
    obtain ⟨_, -, rfl⟩ := map_eq_ok.mp hc
    rfl
  | setError text | setCause text => exact h.editFail ht
  | setFallback target =>
    refine h.editChoice (fun b c hb hc => ?_) ht
    obtain rfl := Except.ok.inj hc
    exact hb
  | addRule op =>
    refine h.editChoice (fun b c hb hc => ?_) ht
    obtain rfl := Except.ok.inj hc
    exact forall_mem_snoc hb (Rule.placed_new .withoutEnd op)
  | editRule root address e =>
    refine h.editChoice (fun b c hb hc => ?_) ht
    obtain ⟨rules, hrules, rfl⟩ := map_eq_ok.mp hc
    exact forall_mem_editAt (fun _ _ hx hy => hx.apply hy) hb hrules
  | addBranch =>
    rw [State.apply] at ht
    refine h.editBranches (fun cs ds hcs hds => ?_) ht
    obtain rfl := Except.ok.inj hds
    exact forall_mem_snoc hcs (Collection.sound_empty defaultAutolink)

/-- No edit renames a state. -/
theorem State.name_apply {e : StateEdit} {s t : State} (ht : State.apply e s = .ok t) :
    t.name = s.name := by
  cases e with
  | setComment text =>
    obtain rfl := Except.ok.inj ht
    rfl
  | _ =>
    rw [State.apply] at ht
    exact State.name_editBody ht

end StatesLanguage
