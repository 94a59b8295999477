import StatesLanguage.ErrorName

/-!
# Retry policies

A retrier names error codes after which a task is tried again, and may bound the
seconds before the first attempt, the factor by which they grow, and the number of
attempts. Whole seconds are never zero and the factor never below one: `Seconds`
and `BackoffRate` hold no other values.
-/

namespace StatesLanguage

/-! ### Seconds -/

/-- A positive number of seconds. -/
structure Seconds where
  /-- The number. -/
  count : UInt32
  /-- It is not zero. -/
  positive : 0 < count
deriving DecidableEq

/-- The seconds of a number that stands under a key, which must not be zero. -/
def Seconds.ofCount (key : String) (n : UInt32) : Except Error Seconds :=
  if h : 0 < n then .ok ⟨n, h⟩ else .error (.invalidValue (.notPositive key))

/-! ### Backoff rates -/

/-- A factor of at least one, spelled as it was given. -/
structure BackoffRate where
  /-- The number. -/
  number : Json.Number
  /-- It is at least one. -/
  bound : number.atLeastOne = true
deriving DecidableEq

namespace BackoffRate

/-- The rate of a number. -/
def ofNumber (n : Json.Number) : Except Error BackoffRate :=
  if h : n.atLeastOne = true then .ok ⟨n, h⟩ else .error (.invalidValue (.rateBelowOne n))

/-- The rate of a double. -/
def ofDouble : Double → Except Error BackoffRate
  | .finite x => ofNumber (.float x)
  | .nonFinite x => .error (.invalidValue (.rateNotFinite x))

end BackoffRate

/-! ### Retriers -/

/-- A retry policy. -/
structure Retrier where
  /-- The errors after which to try again. -/
  errors : List ErrorCode
  /-- The seconds before the first attempt. -/
  interval : Option Seconds := none
  /-- The factor by which the interval grows. -/
  backoff : Option BackoffRate := none
  /-- The number of attempts; zero is allowed and means none. -/
  attempts : Option UInt32 := none
deriving DecidableEq

namespace Retrier

/-- Sets the interval. -/
def setInterval (seconds : UInt32) (r : Retrier) : Except Error Retrier :=
  (Seconds.ofCount "IntervalSeconds" seconds).map fun s => { r with interval := some s }

/-- Sets the backoff rate to a double. -/
def setBackoff (rate : Double) (r : Retrier) : Except Error Retrier :=
  (BackoffRate.ofDouble rate).map fun b => { r with backoff := some b }

/-- Sets the backoff rate to a number and keeps its spelling. -/
def setBackoffNumber (rate : Json.Number) (r : Retrier) : Except Error Retrier :=
  (BackoffRate.ofNumber rate).map fun b => { r with backoff := some b }

/-- Sets the number of attempts. -/
def setAttempts (attempts : UInt32) (r : Retrier) : Retrier :=
  { r with attempts := some attempts }

/-- What is missing. -/
def problem? (r : Retrier) : Option Error :=
  if r.errors.isEmpty then some (.configurationMissing "ErrorEquals") else none

end Retrier

end StatesLanguage
