import StatesLanguage.Proofs.RoundTrip

/-!
# Reading declared fields back

A document shows the declared fields of a state side by side, and each kind of field has
keys of its own there (`FieldKind.keys`). So a field is read from the members under these
keys and from no others, which is why fields can be written into one object without regard
to each other.

Nothing has to be complete for that. A policy without errors, or a handler that leads
nowhere, is no part of any document that the program writes, because a check finds it first.
But its members are read back as the same field all the same, and so is what a field with
nothing set writes. What has to be known is only that the transitions in a field are such as
setting them leaves them (`Field.Fits`), which holds of every field that is set step by step
(`Field.Built`).

The main result is `Field.Built.ofMembers_of_writtenIn`. The one thing that a document cannot
show is a custom name of an error in the reserved namespace, as for whole machines.
-/

namespace StatesLanguage

open Json (Members)

/-! ### The keys of a kind of field -/

/-- The keys under which fields of a kind stand in a document. -/
def FieldKind.keys : FieldKind → List String
  | .next => ["Next", "End"]
  | .paths => ["InputPath", "OutputPath"]
  | .result => ["Result"]
  | .resultPath => ["ResultPath"]
  | .retriers => ["Retry"]
  | .catchers => ["Catch"]

/-- No two kinds of field share a key. -/
theorem FieldKind.eq_of_mem_keys {kind other : FieldKind} {key : String} (h : key ∈ kind.keys)
    (hother : key ∈ other.keys) : kind = other := by
  have hdisjoint : ∀ kind ∈ all, ∀ other ∈ all, ∀ key ∈ kind.keys, key ∈ other.keys →
      kind = other := by
    decide
  have hall : ∀ kind : FieldKind, kind ∈ all := by
    rintro (_ | _ | _ | _ | _ | _) <;> decide
  exact hdisjoint kind (hall kind) other (hall other) key h hother

namespace Field

/-- Under the keys of its kind, members hold exactly what a field writes. -/
def WrittenIn (ms : Members) (f : Field) : Prop :=
  ∀ key ∈ f.kind.keys, ms.lookup key = f.members.lookup key

/-- A field writes nothing under the keys of other kinds. -/
theorem lookup_members_of_not_mem {f : Field} {key : String} (h : key ∉ f.kind.keys) :
    f.members.lookup key = none := by
  cases f with
  | next f =>
    obtain ⟨hnext, hend⟩ : key ≠ "Next" ∧ key ≠ "End" := by simpa [kind, FieldKind.keys] using h
    exact TransitionField.lookup_members_of_ne hnext hend
  | paths p | result r | resultPath r | retriers rs | catchers cs =>
    simp_all [kind, FieldKind.keys, members]

/-- **Fields do not interfere.** Where the members of fields of different kinds stand side by
side, each of the fields is written. -/
theorem writtenIn_flatMap {fs : List Field} (hkinds : (fs.map kind).Nodup) {f : Field}
    (hf : f ∈ fs) : f.WrittenIn (fs.flatMap members) := by
  intro key hkey
  obtain ⟨before, after, rfl⟩ := List.append_of_mem hf
  -- a field of another kind finds nothing under a key of this one
  have hother : ∀ gs : List Field, (∀ g ∈ gs, g.kind ≠ f.kind) →
      (gs.flatMap members).lookup key = none := by
    intro gs hgs
    induction gs with
    | nil => rfl
    | cons g gs ih =>
      obtain ⟨hg, hgs⟩ := List.forall_mem_cons.mp hgs
      have hnone := lookup_members_of_not_mem fun h => hg (FieldKind.eq_of_mem_keys h hkey)
      rw [List.flatMap_cons, List.lookup_append, hnone, ih hgs]
      rfl
  rw [List.map_append, List.map_cons, List.nodup_append] at hkinds
  obtain ⟨-, hafter, hbefore⟩ := hkinds
  have hnone := hother before fun g hg =>
    hbefore g.kind (List.mem_map_of_mem hg) f.kind List.mem_cons_self
  have hlast := hother after fun g hg heq =>
    (List.nodup_cons.mp hafter).1 (heq ▸ List.mem_map_of_mem hg)
  rw [List.flatMap_append, List.flatMap_cons, List.lookup_append, List.lookup_append, hnone, hlast,
    Option.none_or, Option.or_none]

/-! ### Fields that are set step by step -/

/-- The error handlers of a field. -/
def handlers : Field → List Catcher
  | .catchers cs => cs
  | _ => []

/-- The transitions in a field hold nothing that their place forbids; the mode is that of the
transition of the owner. -/
structure Fits (mode : TransitionMode) (f : Field) : Prop where
  /-- The transition of the owner. -/
  next : ∀ g, f = .next g → g.Fits mode
  /-- The transitions of error handlers take a target as well as the end. -/
  handlers : ∀ c ∈ f.handlers, c.next.Fits .ordinary

/-- The fields that are made of new ones by setting what they hold. A transition has a mode
from the beginning. -/
inductive Built (mode : TransitionMode) : Field → Prop
  | next : Built mode (.next (.unset mode))
  | setTarget {f g : TransitionField} {target : String} (hf : Built mode (.next f))
    (h : f.setTarget target = .ok g) : Built mode (.next g)
  | setTerminal {f g : TransitionField} (hf : Built mode (.next f))
    (h : f.setTerminal = .ok g) : Built mode (.next g)
  | paths : Built mode (.paths {})
  | setInput {p q : DataPaths} {text : String} (hp : Built mode (.paths p))
    (h : p.setInput text = .ok q) : Built mode (.paths q)
  | setOutput {p q : DataPaths} {text : String} (hp : Built mode (.paths p))
    (h : p.setOutput text = .ok q) : Built mode (.paths q)
  | result : Built mode (.result none)
  | setResult {r : Option Json} (hr : Built mode (.result r)) (v : Json) :
    Built mode (.result (some v))
  | resultPath : Built mode (.resultPath .unset)
  | place {r s : ResultPath} {text : String} (hr : Built mode (.resultPath r))
    (h : ResultPath.place text = .ok s) : Built mode (.resultPath s)
  | discard {r : ResultPath} (hr : Built mode (.resultPath r)) : Built mode (.resultPath .discarded)
  | retriers : Built mode (.retriers [])
  | addRetrier {rs : List Retrier} (hrs : Built mode (.retriers rs)) (r : Retrier) :
    Built mode (.retriers (rs ++ [r]))
  | catchers : Built mode (.catchers [])
  | addCatcher {cs : List Catcher} {c : Catcher} (hcs : Built mode (.catchers cs)) (hc : c.Built) :
    Built mode (.catchers (cs ++ [c]))

/-- Fields without transitions fit anywhere. -/
theorem fits_of_plain {mode : TransitionMode} {f : Field} (hnext : ∀ g, f ≠ .next g)
    (hhandlers : f.handlers = []) : f.Fits mode :=
  ⟨fun g hg => absurd hg (hnext g), fun _ hc => absurd (hhandlers ▸ hc) List.not_mem_nil⟩

theorem fits_next {mode : TransitionMode} {g : TransitionField} (h : g.Fits mode) :
    Fits mode (.next g) :=
  ⟨fun _ hf => Field.next.inj hf ▸ h, nofun⟩

/-- **Setting a field keeps its transitions in their places.** -/
theorem Built.fits {mode : TransitionMode} {f : Field} (h : f.Built mode) : f.Fits mode := by
  induction h with
  | next => exact fits_next (TransitionField.fits_unset mode)
  | setTarget _ h ih => exact fits_next ((ih.next _ rfl).setTarget h)
  | setTerminal _ h ih => exact fits_next ((ih.next _ rfl).setTerminal h)
  | catchers => exact ⟨nofun, nofun⟩
  | addCatcher _ hc ih => exact ⟨nofun, forall_mem_snoc ih.handlers hc.fits⟩
  | _ => exact fits_of_plain nofun rfl

/-! ### Reading back -/

/-- A field whose transitions are in their places is read from whatever members it is
written in. -/
theorem Fits.ofMembers {mode : TransitionMode} {f : Field} (h : f.Fits mode)
    (hnames : NamesShown f.handlers) {ms : Members} (hms : f.WrittenIn ms) :
    Field.ofMembers mode ms f.kind = .ok f := by
  cases f with
  | next f =>
    obtain ⟨hnext, hrest⟩ := List.forall_mem_cons.mp hms
    have hshown := (h.next f rfl).shown (hrest "End" List.mem_cons_self) hnext
    exact map_eq_ok.mpr ⟨f, TransitionField.ofMembers_eq_ok.mpr hshown, rfl⟩
  | paths p =>
    obtain ⟨hinput, hrest⟩ := List.forall_mem_cons.mp hms
    have hshown : p.Shown ms :=
      ⟨hinput.trans (by simp [members]),
        (hrest "OutputPath" List.mem_cons_self).trans (by simp [members])⟩
    exact map_eq_ok.mpr ⟨p, DataPaths.ofMembers_eq_ok.mpr hshown, rfl⟩
  | result r =>
    have hfound : ms.lookup "Result" = r :=
      (hms "Result" List.mem_cons_self).trans (by simp [members])
    exact congrArg (Except.ok ∘ Field.result) hfound
  | resultPath r =>
    have hfound := (hms "ResultPath" List.mem_cons_self).trans (r.lookup_members "ResultPath")
    exact map_eq_ok.mpr ⟨r, ResultPath.ofMembers_eq_ok.mpr hfound, rfl⟩
  | retriers rs =>
    have hread : List.Forall₂ (fun v r => Retrier.ofJson v = .ok r) (rs.map Retrier.toJson) rs := by
      rw [List.forall₂_map_left_iff, List.forall₂_same]
      exact fun r _ => r.ofJson_toJson
    have hfound : (ms.lookup "Retry").getD (.array []) = .array (rs.map Retrier.toJson) := by
      rw [hms "Retry" List.mem_cons_self]
      rfl
    exact map_eq_ok.mpr ⟨rs, Retrier.listOfMembers_eq_ok.mpr ⟨_, hfound, hread⟩, rfl⟩
  | catchers cs =>
    have hread : List.Forall₂ (fun v c => Catcher.ofJson v = .ok c) (cs.map Catcher.toJson) cs := by
      rw [List.forall₂_map_left_iff, List.forall₂_same]
      exact fun c hc => Catcher.ofJson_toJson (h.handlers c hc) (hnames c hc)
    have hfound : (ms.lookup "Catch").getD (.array []) = .array (cs.map Catcher.toJson) := by
      rw [hms "Catch" List.mem_cons_self]
      rfl
    exact map_eq_ok.mpr ⟨cs, Catcher.listOfMembers_eq_ok.mpr ⟨_, hfound, hread⟩, rfl⟩

/-- **Fields are read back, complete or not.** A field that is set step by step is read from
every object that holds what the field writes under the keys of its kind, whatever it holds
under other keys; so it is read from any fields of different kinds that are written side by
side. Only error handlers have to name no custom error in the reserved namespace. -/
theorem Built.ofMembers_of_writtenIn {mode : TransitionMode} {f : Field} (h : f.Built mode)
    (hnames : ∀ c ∈ f.handlers, ∀ name : String, .custom name ∈ c.errors →
      ErrorName.reserved.toList.isPrefixOf name.toList = false) :
    (∀ ms : Members, f.WrittenIn ms → Field.ofMembers mode ms f.kind = .ok f) ∧
      ∀ fs : List Field, (fs.map kind).Nodup → f ∈ fs →
        Field.ofMembers mode (fs.flatMap members) f.kind = .ok f := by
  have hshown : NamesShown f.handlers := by
    intro c hc n hn
    cases n with
    | predefined code => rfl
    | custom name => exact hnames c hc name hn
  have hread : ∀ ms : Members, f.WrittenIn ms → Field.ofMembers mode ms f.kind = .ok f :=
    fun _ hms => h.fits.ofMembers hshown hms
  exact ⟨hread, fun fs hkinds hf => hread _ (writtenIn_flatMap hkinds hf)⟩

/-- An error handler that responds to nothing and leads nowhere. -/
def idleHandler : Field :=
  .catchers [⟨[], .unset .ordinary, .discarded⟩]

theorem idleHandler_ofMembers : idleHandler.Built .ordinary ∧ idleHandler.problem?.isSome = true ∧
    let ms : Members := [("Next", .bool false), ("Catch", .array [.object
      [("ErrorEquals", .array []), ("ResultPath", .null)]])]
    Field.ofMembers .ordinary ms .catchers = .ok idleHandler := by
  have hbuilt : idleHandler.Built .ordinary :=
    .addCatcher (c := ⟨[], .unset .ordinary, .discarded⟩) .catchers (.discard (.ofNames []))
  have hnames : ∀ c ∈ idleHandler.handlers, ∀ name : String, .custom name ∈ c.errors →
      ErrorName.reserved.toList.isPrefixOf name.toList = false := by
    simp [idleHandler, handlers]
  refine ⟨hbuilt, rfl, (hbuilt.ofMembers_of_writtenIn hnames).1 _ fun key hkey => ?_⟩
  obtain rfl := List.mem_singleton.mp hkey
  rfl

end Field

/-- The reader of a state reads the declared fields of its kind one by one. -/
theorem Body.map_fields_readFields (ms : Members) (b : Body State) :
    (b.readFields ms).map fields =
      b.fields.mapM fun f => Field.ofMembers .ordinary ms f.kind := by
  -- each reader of a field fails on both sides, or gives its value to both
  have hfield {α : Type} {x : Except Error α} {f : α → Field}
      {k : Field → Except Error (List Field)} : (x.map f >>= k) = x >>= fun a => k (f a) := by
    cases x <;> rfl
  have hfields {α : Type} {x : Except Error α} {f : α → Except Error (Body State)} :
      (x >>= f).map fields = x >>= fun a => (f a).map fields := by
    cases x <;> rfl
  cases b <;>
    simp only [readFields, fields, List.mapM_cons, List.mapM_nil, Field.kind, Field.ofMembers,
      hfields, hfield, bind_assoc, pure_bind] <;> rfl

end StatesLanguage
