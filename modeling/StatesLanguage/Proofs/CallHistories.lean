import StatesLanguage.Proofs.InPlace

/-!
# Histories of calls

A model is built by calls that change it in place, each of them made on whatever the one before
it left behind, whether that one failed or not. This file is about such runs in general: what
is called, on what, and which places there are to store something at, are parameters
(`Builder`).

A builder says for every place what is stored there, and what a call puts there if it
succeeds. There are three laws that it may obey (`Builder.Lawful`): calls keep the models good,
a call that fails changes nothing, and one that succeeds changes nothing but what it puts. From
these laws alone, and by induction on the calls, follows the account that can be given of every
run (`Builder.Accounts`): the calls that fail might as well not have been made, and every place
holds what has been put there last.
-/

namespace StatesLanguage

/-- What can be stored at a place. -/
inductive Value where
  /-- A text, such as a path expression. -/
  | text (t : String)
  /-- A JSON value. -/
  | json (v : Json)
  /-- A number of seconds. -/
  | seconds (n : UInt32)
  /-- Where control goes. -/
  | transition (t : Transition)
  /-- That a result is discarded. -/
  | discarded
  /-- A retry policy. -/
  | retrier (r : Retrier)
  /-- An error handler. -/
  | catcher (c : Catcher)

/-- Calls on models, and places in them. -/
structure Builder (κ σ π : Type) where
  /-- What a call does. -/
  perform : κ → EStateM Error σ Unit
  /-- What is stored at a place. -/
  value : π → σ → Option Value
  /-- What a call on a model puts at a place, if it succeeds. -/
  puts : π → κ → σ → Option Value

namespace Builder

variable {κ σ π : Type} (B : Builder κ σ π)

/-! ### Runs -/

/-- The model that a call leaves, whether it fails or not. -/
def after (call : κ) (s : σ) : σ :=
  match (B.perform call).run s with
  | .ok _ t => t
  | .error _ t => t

/-- What a call returns. -/
def result (call : κ) (s : σ) : Except Error Unit :=
  match (B.perform call).run s with
  | .ok u _ => .ok u
  | .error e _ => .error e

/-- The model after calls. -/
def run : List κ → σ → σ
  | [], s => s
  | call :: calls, s => run calls (B.after call s)

/-- What calls return. -/
def results : List κ → σ → List (Except Error Unit)
  | [], _ => []
  | call :: calls, s => B.result call s :: results calls (B.after call s)

/-- The calls that do not fail. -/
def succeeding : List κ → σ → List κ
  | [], _ => []
  | call :: calls, s =>
    (if (B.result call s).isOk then [call] else []) ++ succeeding calls (B.after call s)

/-- What the calls that do not fail put at a place. -/
def history (p : π) : List κ → σ → List Value
  | [], _ => []
  | call :: calls, s =>
    (if (B.result call s).isOk then (B.puts p call s).toList else []) ++
      history p calls (B.after call s)

/-- The account of a run of calls on a model. -/
structure Accounts (calls : List κ) (s : σ) : Prop where
  /-- Without the calls that fail, the model is the same in the end, -/
  model : B.run (B.succeeding calls s) s = B.run calls s
  /-- and so is what the other calls return. -/
  results : B.results (B.succeeding calls s) s = (B.results calls s).filter Except.isOk
  /-- A place holds what has been put there last, or what it has always held. -/
  values : ∀ p, B.value p (B.run calls s) = (B.history p calls s).getLast?.or (B.value p s)

/-- The account of a run of calls on a model in which nothing is stored: they have put there
all that is in the end. -/
structure Explains (calls : List κ) (s : σ) : Prop extends B.Accounts calls s where
  /-- A place holds what has been put there last, or nothing. -/
  stored : ∀ p, B.value p (B.run calls s) = (B.history p calls s).getLast?

/-! ### Laws -/

/-- Calls of a kind, on good models, change what they put and nothing else, and nothing at all
where they fail. -/
structure Lawful (Good : σ → Prop) (Allowed : κ → Prop) : Prop where
  /-- The model that is left is good again. -/
  keeps : ∀ {call s}, Good s → Allowed call → Good (B.after call s)
  /-- A call that fails changes nothing. -/
  fails : ∀ {call s}, Good s → Allowed call → (B.result call s).isOk = false →
    B.after call s = s
  /-- A call that does not fail changes what it puts. -/
  succeeds : ∀ {call s}, Good s → Allowed call → (B.result call s).isOk = true →
    ∀ p, B.value p (B.after call s) = (B.puts p call s).or (B.value p s)

variable {B} {Good : σ → Prop} {Allowed : κ → Prop}

/-- Atomic calls are lawful, if those that succeed are. -/
theorem lawful_of_atomic (h : ∀ {call s}, Good s → Allowed call →
    ∃ x, (B.perform call).run s = atomic s x ∧ ∀ t, x = .ok t →
      Good t ∧ ∀ p, B.value p t = (B.puts p call s).or (B.value p s)) : B.Lawful Good Allowed := by
  have hcases : ∀ {call s}, Good s → Allowed call →
      (B.after call s = s ∧ (B.result call s).isOk = false) ∨
        (B.result call s).isOk = true ∧ Good (B.after call s) ∧
          ∀ p, B.value p (B.after call s) = (B.puts p call s).or (B.value p s) := by
    intro call s hs hcall
    obtain ⟨x, hrun, hx⟩ := h hs hcall
    rw [after, result, hrun]
    cases x with
    | error e => exact Or.inl ⟨rfl, rfl⟩
    | ok t => exact Or.inr ⟨rfl, hx t rfl⟩
  refine ⟨fun hs hcall => ?_, fun hs hcall hresult => ?_, fun hs hcall hresult => ?_⟩ <;>
    rcases hcases hs hcall with ⟨hsame, hfails⟩ | ⟨hok, hgood, hvalue⟩
  · rw [hsame]
    exact hs
  · exact hgood
  · exact hsame
  · cases hresult.symm.trans hok
  · cases hresult.symm.trans hfails
  · exact hvalue

namespace Lawful

variable (h : B.Lawful Good Allowed)

include h

theorem run_good {calls : List κ} {s : σ} (hs : Good s) (hcalls : ∀ call ∈ calls, Allowed call) :
    Good (B.run calls s) := by
  induction calls generalizing s with
  | nil => exact hs
  | cons call calls ih =>
    obtain ⟨hcall, hcalls⟩ := List.forall_mem_cons.mp hcalls
    exact ih (h.keeps hs hcall) hcalls

/-- **The account of a run**: by induction on the calls. -/
theorem accounts {calls : List κ} {s : σ} (hs : Good s) (hcalls : ∀ call ∈ calls, Allowed call) :
    B.Accounts calls s := by
  induction calls generalizing s with
  | nil => exact ⟨rfl, rfl, fun p => rfl⟩
  | cons call calls ih =>
    obtain ⟨hcall, hcalls⟩ := List.forall_mem_cons.mp hcalls
    obtain ⟨hmodel, hresults, hvalues⟩ := ih (h.keeps hs hcall) hcalls
    cases hok : (B.result call s).isOk with
    | false =>
      -- the rest of the calls is made on the model from before
      rw [h.fails hs hcall hok] at hmodel hresults hvalues
      refine ⟨?_, ?_, fun p => ?_⟩
      · simp [succeeding, run, hok, h.fails hs hcall hok, hmodel]
      · simp [succeeding, results, hok, h.fails hs hcall hok, hresults]
      · simp [history, run, hok, h.fails hs hcall hok, hvalues p]
    | true =>
      refine ⟨?_, ?_, fun p => ?_⟩
      · simp [succeeding, run, hok, hmodel]
      · simp [succeeding, results, hok, hresults]
      · rw [run, hvalues p, h.succeeds hs hcall hok p, history, if_pos hok, List.getLast?_append]
        cases B.puts p call s <;> simp

theorem explains {calls : List κ} {s : σ} (hs : Good s) (hcalls : ∀ call ∈ calls, Allowed call)
    (hnew : ∀ p, B.value p s = none) : B.Explains calls s := by
  have haccounts := h.accounts hs hcalls
  refine ⟨haccounts, fun p => ?_⟩
  rw [haccounts.values p, hnew p, Option.or_none]

end Lawful

end Builder

end StatesLanguage
