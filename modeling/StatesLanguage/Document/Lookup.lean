import StatesLanguage.Error

/-!
# Typed access to the members of a document

A key that is absent is not an error, and gives `none`; a key with a value of the
wrong type always is one. Null is a value, not an absence.
-/

namespace StatesLanguage

namespace Json

/-- A failure to read a document. -/
def malformed {α : Type} (cause : Malformation) : Except Error α :=
  .error (.malformedDocument cause)

/-- The members of a value that has to be an object. -/
def asObject (what : String) : Json → Except Error Members
  | .object ms => .ok ms
  | _ => malformed (.notObject what)

/-- The string under a key. -/
def lookupString (key : String) (ms : Members) : Except Error (Option String) :=
  match ms.lookup key with
  | none => .ok none
  | some (.string s) => .ok (some s)
  | some v => malformed (.notString key v)

/-- The integer under a key, in the range of the unsigned 32-bit words. -/
def lookupCount (key : String) (ms : Members) : Except Error (Option UInt32) :=
  match ms.lookup key with
  | none => .ok none
  | some (.number n) =>
    match n.toUInt32? with
    | some count => .ok (some count)
    | none => malformed (.notCount key (.number n))
  | some v => malformed (.notCount key v)

/-- The number under a key. -/
def lookupNumber (key : String) (ms : Members) : Except Error (Option Number) :=
  match ms.lookup key with
  | none => .ok none
  | some (.number n) => .ok (some n)
  | some v => malformed (.notNumber key v)

/-- The items of the array under a key; none if the key is absent. -/
def lookupArray (key : String) (ms : Members) : Except Error (List Json) :=
  match ms.lookup key with
  | none => .ok []
  | some (.array items) => .ok items
  | some v => malformed (.notArray key v)

/-- The strings of an array under a key. -/
def asStrings (key : String) : List Json → Except Error (List String)
  | [] => .ok []
  | .string s :: items => (asStrings key items).map fun rest => s :: rest
  | _ :: _ => malformed (.notStrings key)

/-- The strings in the array under a key; none if the key is absent. -/
def lookupStrings (key : String) (ms : Members) : Except Error (List String) := do
  let items ← lookupArray key ms
  asStrings key items

end Json

end StatesLanguage
