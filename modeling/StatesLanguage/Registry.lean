import StatesLanguage.State.Basic
import StatesLanguage.Text.Quoted

/-!
# The registry of state types

In a document a state names its type. A registry resolves types to kinds of
states; it may know a kind under several types, or under none. Its entries are in
the order of their types, with one entry for each, so registries that resolve the
same types alike are equal.
-/

namespace StatesLanguage

/-- The kinds of states by their types, in the order of the types. -/
structure Registry where
  /-- The types and their kinds. -/
  entries : List (String × StateKind)
deriving DecidableEq

namespace Registry

/-- The registry without entries. -/
def empty : Registry :=
  ⟨[]⟩

/-- Puts an entry in its place, where it replaces the former entry of its type. -/
def place (type : String) (kind : StateKind) :
    List (String × StateKind) → List (String × StateKind)
  | [] => [(type, kind)]
  | (t, k) :: rest =>
    if type < t then (type, kind) :: (t, k) :: rest
    else if type = t then (type, kind) :: rest
    else (t, k) :: place type kind rest

/-- Registers a kind of states under a type. A later entry of the same type
replaces a former one. -/
def register (type : String) (kind : StateKind) (r : Registry) : Registry :=
  ⟨place type kind r.entries⟩

/-- The registry that knows every kind of states under its own name. -/
def standard : Registry :=
  StateKind.all.foldl (fun r kind => r.register kind.name kind) empty

/-- The kind of states of a type. -/
def resolve (r : Registry) (type : String) : Except Error StateKind :=
  match r.entries.lookup type with
  | some kind => .ok kind
  | none => .error (.unknownStateType type)

theorem lookup_cons_eq_ite (t u : String) (kind : StateKind)
    (entries : List (String × StateKind)) :
    ((u, kind) :: entries).lookup t = if t = u then some kind else entries.lookup t := by
  rw [List.lookup_cons]
  by_cases h : t = u
  · rw [if_pos h, beq_iff_eq.mpr h]
  · rw [if_neg h, beq_eq_false_iff_ne.mpr h]

theorem lookup_place (type : String) (kind : StateKind) (entries : List (String × StateKind))
    (t : String) :
    (place type kind entries).lookup t = if t = type then some kind else entries.lookup t := by
  induction entries with
  | nil => exact lookup_cons_eq_ite t type kind []
  | cons entry rest ih =>
    obtain ⟨u, k⟩ := entry
    rw [place]
    split
    · exact lookup_cons_eq_ite t type kind _
    · split
      · next same => grind [lookup_cons_eq_ite]
      · next other => grind [lookup_cons_eq_ite]

/-- The last entry of a type is the one that resolves it. -/
theorem resolve_register (r : Registry) (type : String) (kind : StateKind) (t : String) :
    (r.register type kind).resolve t = if t = type then .ok kind else r.resolve t := by
  rw [resolve, register, lookup_place]
  by_cases h : t = type
  · rw [if_pos h, if_pos h]
  · rw [if_neg h, if_neg h, resolve]

/-- The registered types. -/
def types (r : Registry) : List String :=
  r.entries.map Prod.fst

/-- A description of the registered types for human readers. -/
def description (r : Registry) : String :=
  "Registry \x7b types: [" ++ ", ".intercalate (r.types.map Text.quoted) ++ "] \x7d"

end Registry

end StatesLanguage
