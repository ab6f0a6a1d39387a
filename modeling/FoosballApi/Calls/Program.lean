import Mathlib.Logic.Basic

/-!
# Programs of atomic calls

`Prog ι ρ ε α` is the syntax of a program that issues calls `op : ι` one after another, receives
a result in `ρ op` or an exception in `ε` for each, and ends with a value or an exception. What
a call does is not part of the program: `Sequential.lean` runs one program alone, possibly with
failing calls, and `Interleaving.lean` runs many of them against one world.

The control operators are those of an `async` method: `throwIf` and `require` for guards,
`attempt` and `catchFinally` for `try … catch … finally`.
-/

namespace FoosballApi.Calls

/-- A program issuing calls in `ι`: it ends with a value, ends with an exception, or issues a call
and continues with its outcome. -/
inductive Prog (ι : Type) (ρ : ι → Type) (ε : Type) (α : Type) where
  | pure (value : α)
  | throw (error : ε)
  | call (op : ι) (next : Except ε (ρ op) → Prog ι ρ ε α)

namespace Prog

variable {ι : Type} {ρ : ι → Type} {ε α β γ : Type}

/-- Sequencing: the second program starts when the first has returned. -/
def bind : Prog ι ρ ε α → (α → Prog ι ρ ε β) → Prog ι ρ ε β
  | .pure value, next => next value
  | .throw error, _ => .throw error
  | .call op rest, next => .call op fun result => (rest result).bind next

instance : Monad (Prog ι ρ ε) where
  pure := .pure
  bind := bind

/-- Issue one call; a failed call raises its exception. -/
def perform (op : ι) : Prog ι ρ ε (ρ op) :=
  .call op fun
    | .ok value => .pure value
    | .error error => .throw error

/-- Raise `error` when the guard `refused` holds. -/
def throwIf (refused : Prop) [Decidable refused] (error : ε) : Prog ι ρ ε Unit :=
  if refused then .throw error else .pure ()

/-- The value that must be present; raise `error` when it is missing. -/
def require (found : Option α) (error : ε) : Prog ι ρ ε α :=
  match found with
  | some value => .pure value
  | none => .throw error

/-- Run a program and return its outcome as a value; the result never throws. -/
def attempt : Prog ι ρ ε α → Prog ι ρ ε (Except ε α)
  | .pure value => .pure (.ok value)
  | .throw error => .pure (.error error)
  | .call op rest => .call op fun result => (rest result).attempt

/-- Return a value or raise an exception, as a recorded outcome says. -/
def resume : Except ε α → Prog ι ρ ε α
  | .ok value => .pure value
  | .error error => .throw error

/-- `try body catch (e) { handler e } finally { finalizer }`. -/
def catchFinally (body : Prog ι ρ ε α) (handler : ε → Prog ι ρ ε α)
    (finalizer : Prog ι ρ ε Unit) : Prog ι ρ ε α := do
  let outcome ← attempt body
  let handled ← attempt (match outcome with
    | .ok value => .pure value
    | .error error => handler error)
  finalizer
  resume handled

/-! ## Equations -/

@[simp] theorem pure_eq (value : α) : (Pure.pure value : Prog ι ρ ε α) = .pure value := rfl

@[simp] theorem pure_bind_eq (value : α) (next : α → Prog ι ρ ε β) :
    (Prog.pure value >>= next) = next value := rfl

@[simp] theorem call_bind_eq (op : ι) (rest : Except ε (ρ op) → Prog ι ρ ε α)
    (next : α → Prog ι ρ ε β) :
    (Prog.call op rest >>= next) = .call op fun result => rest result >>= next := rfl

@[simp] theorem require_some (value : α) (error : ε) :
    (require (some value) error : Prog ι ρ ε α) = .pure value := rfl

@[simp] theorem require_none (error : ε) :
    (require none error : Prog ι ρ ε α) = .throw error := rfl

/-- Returning the value of a program is the program. -/
theorem bind_pure (program : Prog ι ρ ε α) : program >>= Prog.pure = program := by
  induction program with
  | pure value => rfl
  | throw error => rfl
  | call op rest ih =>
      rw [call_bind_eq]
      congr 1
      funext result
      exact ih result

/-- Sequencing is associative. -/
theorem bind_assoc (program : Prog ι ρ ε α) (first : α → Prog ι ρ ε β)
    (second : β → Prog ι ρ ε γ) :
    (program >>= first) >>= second = program >>= fun value => first value >>= second := by
  induction program with
  | pure value => rfl
  | throw error => rfl
  | call op rest ih =>
      simp only [call_bind_eq]
      congr 1
      funext result
      exact ih result

/-! ## The calls of a program -/

/-- Whatever its calls return, the program issues calls in `may` only. -/
def Issues (may : ι → Prop) : Prog ι ρ ε α → Prop
  | .pure _ => True
  | .throw _ => True
  | .call op rest => may op ∧ ∀ result, (rest result).Issues may

variable {may : ι → Prop}

theorem issues_perform {op : ι} (hop : may op) :
    (perform op : Prog ι ρ ε (ρ op)).Issues may :=
  ⟨hop, fun result => by cases result <;> trivial⟩

theorem issues_bind {program : Prog ι ρ ε α} {next : α → Prog ι ρ ε β}
    (hprogram : program.Issues may) (hnext : ∀ value, (next value).Issues may) :
    (program >>= next).Issues may := by
  induction program with
  | pure value => exact hnext value
  | throw error => trivial
  | call op rest ih => exact ⟨hprogram.1, fun result => ih result (hprogram.2 result)⟩

theorem issues_throwIf {refused : Prop} [Decidable refused] {error : ε} :
    (throwIf refused error : Prog ι ρ ε Unit).Issues may := by
  unfold throwIf
  split <;> trivial

theorem issues_require {found : Option α} {error : ε} :
    (require found error : Prog ι ρ ε α).Issues may := by
  cases found <;> trivial

theorem issues_attempt {program : Prog ι ρ ε α} (hprogram : program.Issues may) :
    program.attempt.Issues may := by
  induction program with
  | pure value => trivial
  | throw error => trivial
  | call op rest ih => exact ⟨hprogram.1, fun result => ih result (hprogram.2 result)⟩

/-- A program issues calls in `may` when every call is one. -/
theorem issues_of_forall (hmay : ∀ op, may op) (program : Prog ι ρ ε α) : program.Issues may := by
  induction program with
  | pure value => trivial
  | throw error => trivial
  | call op rest ih => exact ⟨hmay op, ih⟩

end Prog

end FoosballApi.Calls
