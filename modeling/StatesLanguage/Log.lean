/-!
# Logged computations

Reading and writing documents tells what it does in a log. A computation of type
`Logged ε α` has its log in order and an outcome; where it fails, the log holds
what happened up to the failure.

The entries are events, with a level of severity and a wording each.
-/

namespace StatesLanguage

/-! ### Levels -/

/-- The levels of a log, the severest first. -/
inductive LogLevel where
  /-- Something failed. -/
  | error
  /-- Something is suspicious. -/
  | warn
  /-- A result. -/
  | info
  /-- A step of a computation. -/
  | debug
  /-- A detail of a step. -/
  | trace
deriving DecidableEq

namespace LogLevel

/-- Every level, the severest first. -/
def all : List LogLevel :=
  [.error, .warn, .info, .debug, .trace]

/-- The name of a level. -/
def name : LogLevel → String
  | .error => "error"
  | .warn => "warn"
  | .info => "info"
  | .debug => "debug"
  | .trace => "trace"

/-- The rank of a level, lower for a severer one. -/
def rank : LogLevel → Nat
  | .error => 1
  | .warn => 2
  | .info => 3
  | .debug => 4
  | .trace => 5

end LogLevel

/-! ### Events -/

/-- What happens on the way to a result. -/
inductive Event where
  /-- A state of a type begins to be read. -/
  | reading (type name : String)
  /-- A state of a kind begins to be written. -/
  | writing (kind name : String)
  /-- A document is of another version of the language. -/
  | otherVersion (found expected : String)
  /-- A document has been checked. -/
  | checked (states problems : Nat)
  /-- Settings have been taken, as in the text. -/
  | settings (text : String)
deriving DecidableEq

namespace Event

/-- The level of an event. -/
def level : Event → LogLevel
  | .reading _ _ => .debug
  | .writing _ _ => .debug
  | .otherVersion _ _ => .warn
  | .checked _ _ => .info
  | .settings _ => .debug

/-- The wording of an event. -/
def message : Event → String
  | .reading type name => s!"Hydrating {type} state {name}"
  | .writing kind name => s!"Encoding {kind} state {name}"
  | .otherVersion found expected =>
    s!"Document targets States language version {found}, expected {expected}"
  | .checked states problems => s!"{states} states checked, {problems} problem(s) found"
  | .settings text => s!"Settings: {text}"

end Event

/-! ### Computations -/

/-- A computation that logs events and may fail with an error of type `ε`. -/
structure Logged (ε α : Type) where
  /-- What happened, in order. -/
  log : List Event
  /-- The value, or the error that ended the computation. -/
  outcome : Except ε α

namespace Logged

variable {ε : Type}

/-- Goes on with the value, if there is one. -/
def andThen {α β : Type} (x : Logged ε α) (f : α → Logged ε β) : Logged ε β :=
  match x.outcome with
  | .ok a => ⟨x.log ++ (f a).log, (f a).outcome⟩
  | .error e => ⟨x.log, .error e⟩

instance : Monad (Logged ε) where
  pure a := ⟨[], .ok a⟩
  bind := andThen

instance : MonadLift (Except ε) (Logged ε) where
  monadLift x := ⟨[], x⟩

/-- Logs an event. -/
def event (e : Event) : Logged ε Unit :=
  ⟨[e], .ok ()⟩

/-- Fails. -/
def fail {α : Type} (e : ε) : Logged ε α :=
  ⟨[], .error e⟩

/-- The same computation with another error. -/
def mapError {ε' α : Type} (f : ε → ε') (x : Logged ε α) : Logged ε' α :=
  ⟨x.log, x.outcome.mapError f⟩

/-! ### Outcomes and logs of compound computations -/

section Laws

variable {α β : Type}

@[simp] theorem outcome_pure (a : α) : (pure a : Logged ε α).outcome = .ok a := rfl

@[simp] theorem log_pure (a : α) : (pure a : Logged ε α).log = [] := rfl

@[simp] theorem outcome_fail (e : ε) : (fail e : Logged ε α).outcome = .error e := rfl

@[simp] theorem log_fail (e : ε) : (fail e : Logged ε α).log = [] := rfl

@[simp] theorem outcome_event (e : Event) : (event e : Logged ε Unit).outcome = .ok () := rfl

@[simp] theorem log_event (e : Event) : (event e : Logged ε Unit).log = [e] := rfl

@[simp] theorem outcome_liftM (x : Except ε α) : (liftM x : Logged ε α).outcome = x := rfl

@[simp] theorem log_liftM (x : Except ε α) : (liftM x : Logged ε α).log = [] := rfl

/-- A computation that succeeds hands its value on. -/
theorem bind_of_ok {x : Logged ε α} {a : α} (h : x.outcome = .ok a) (f : α → Logged ε β) :
    x >>= f = ⟨x.log ++ (f a).log, (f a).outcome⟩ := by
  show x.andThen f = _
  rw [andThen, h]

/-- A computation that fails ends there. -/
theorem bind_of_error {x : Logged ε α} {e : ε} (h : x.outcome = .error e) (f : α → Logged ε β) :
    x >>= f = ⟨x.log, .error e⟩ := by
  show x.andThen f = _
  rw [andThen, h]

/-- Logs do not interfere with outcomes. -/
@[simp] theorem outcome_bind (x : Logged ε α) (f : α → Logged ε β) :
    (x >>= f).outcome = x.outcome >>= fun a => (f a).outcome := by
  cases h : x.outcome with
  | ok a => rw [bind_of_ok h]; rfl
  | error e => rw [bind_of_error h]; rfl

instance : LawfulMonad (Logged ε) :=
  LawfulMonad.mk' (Logged ε)
    (fun x => by
      obtain ⟨log, outcome⟩ := x
      cases outcome with
      | ok a => exact congrArg (Logged.mk · _) (List.append_nil log)
      | error e => rfl)
    (fun a f => rfl)
    (fun x f g => by
      cases h : x.outcome with
      | error e => rw [bind_of_error h, bind_of_error h, bind_of_error rfl]
      | ok a =>
        rw [bind_of_ok h, bind_of_ok h]
        cases k : (f a).outcome with
        | error e => rw [bind_of_error k, bind_of_error rfl]
        | ok b => rw [bind_of_ok k, bind_of_ok rfl, List.append_assoc])

end Laws

end Logged

end StatesLanguage
