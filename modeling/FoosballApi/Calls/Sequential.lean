import FoosballApi.Calls.Program

/-!
# One program running alone

A `System` gives the calls their meaning: what a call does to the caller's session and to the
shared world, which exception an unsuccessful call raises, whether a session holds the lock, and
which calls of other sessions the lock excludes. `Prog.eval` runs a program to its end with nobody
else running; the oracle `fails` decides, from the calls made so far, which calls fail. A failed call
has no effect.

`Prog.after` states a property of what a program leaves behind, and comes with one rule for each
way to build a program, so that a proof steps through the program's text.
-/

namespace FoosballApi.Calls

/-- The meaning of the calls `ι` over a private session `τ` and a shared world `σ`. -/
structure System (ι : Type) (ρ : ι → Type) (ε τ σ : Type) where
  /-- The effect and the result of a call that is carried out. -/
  exec : (op : ι) → τ → σ → Except ε (ρ op) × τ × σ
  /-- The exception a call raises when it fails; `none` for a call that cannot fail. -/
  fault : ι → Option ε
  /-- The session is inside its exclusive section. -/
  held : τ → Bool
  /-- The calls that have to wait while another session is inside its exclusive section. -/
  waits : ι → Bool
  /-- Only a call that waits enters the exclusive section. -/
  enter : ∀ op session world, held (exec op session world).2.1 = true →
    held session = true ∨ waits op = true

/-- What a program leaves behind: its result, the calls it made (latest first), its session and
the world. -/
structure Outcome (ι ε τ σ α : Type) where
  result : Except ε α
  calls : List ι
  session : τ
  world : σ

variable {ι : Type} {ρ : ι → Type} {ε τ σ α β : Type}

/-- One call, carried out or failed. -/
def System.perform (S : System ι ρ ε τ σ) (fails : Bool) (op : ι) (session : τ) (world : σ) :
    Except ε (ρ op) × τ × σ :=
  match fails, S.fault op with
  | true, some error => (.error error, session, world)
  | _, _ => S.exec op session world

@[simp] theorem System.perform_false (S : System ι ρ ε τ σ) (op : ι) (session : τ) (world : σ) :
    S.perform false op session world = S.exec op session world := rfl

/-- A call that cannot fail is always carried out. -/
theorem System.perform_of_fault_none {S : System ι ρ ε τ σ} {op : ι} (h : S.fault op = none)
    (fails : Bool) (session : τ) (world : σ) :
    S.perform fails op session world = S.exec op session world := by
  cases fails <;> simp [System.perform, h]

/-- A failed call raises its exception and changes nothing. -/
theorem System.perform_true {S : System ι ρ ε τ σ} {op : ι} {error : ε}
    (h : S.fault op = some error) (session : τ) (world : σ) :
    S.perform true op session world = (.error error, session, world) := by
  simp [System.perform, h]

/-- A call is carried out, or it raises its exception and changes nothing. -/
theorem System.perform_cases (S : System ι ρ ε τ σ) (fails : Bool) (op : ι) (session : τ)
    (world : σ) : S.perform fails op session world = S.exec op session world ∨
      ∃ error, S.fault op = some error ∧
        S.perform fails op session world = (.error error, session, world) := by
  unfold System.perform
  split
  · next error hfault => exact .inr ⟨error, hfault, rfl⟩
  · exact .inl rfl

/-- Failed or not, only a call that waits enters the exclusive section. -/
theorem System.perform_enter (S : System ι ρ ε τ σ) {fails : Bool} {op : ι} {session : τ}
    {world : σ} (h : S.held (S.perform fails op session world).2.1 = true) :
    S.held session = true ∨ S.waits op = true := by
  unfold System.perform at h
  split at h
  · exact .inl h
  · exact S.enter op session world h

namespace Prog

/-- Run a program alone, from a session and a world; `fails` picks the failing calls. -/
def eval (S : System ι ρ ε τ σ) (fails : List ι → ι → Bool) :
    Prog ι ρ ε α → List ι → τ → σ → Outcome ι ε τ σ α
  | .pure value, calls, session, world => ⟨.ok value, calls, session, world⟩
  | .throw error, calls, session, world => ⟨.error error, calls, session, world⟩
  | .call op rest, calls, session, world =>
      let (result, session', world') := S.perform (fails calls op) op session world
      (rest result).eval S fails (op :: calls) session' world'

/-- The oracle under which every call is carried out. -/
def noFaults : List ι → ι → Bool := fun _ _ => false

/-- What a program run alone leaves behind satisfies `Q`. -/
def after (S : System ι ρ ε τ σ) (fails : List ι → ι → Bool) (program : Prog ι ρ ε α)
    (calls : List ι) (session : τ) (world : σ) (Q : Outcome ι ε τ σ α → Prop) : Prop :=
  Q (program.eval S fails calls session world)

variable {S : System ι ρ ε τ σ} {fails : List ι → ι → Bool} {calls : List ι} {session : τ}
  {world : σ} {Q : Outcome ι ε τ σ α → Prop}

@[simp] theorem after_pure {value : α} :
    (Prog.pure value : Prog ι ρ ε α).after S fails calls session world Q ↔
      Q ⟨.ok value, calls, session, world⟩ := Iff.rfl

@[simp] theorem after_throw {error : ε} :
    (Prog.throw error : Prog ι ρ ε α).after S fails calls session world Q ↔
      Q ⟨.error error, calls, session, world⟩ := Iff.rfl

/-- A sequence runs its second part from where the first part stopped, unless that threw. -/
@[simp] theorem after_bind {program : Prog ι ρ ε α} {next : α → Prog ι ρ ε β}
    {Q : Outcome ι ε τ σ β → Prop} :
    (program >>= next).after S fails calls session world Q ↔
      program.after S fails calls session world fun out =>
        match out.result with
        | .ok value => (next value).after S fails out.calls out.session out.world Q
        | .error error => Q ⟨.error error, out.calls, out.session, out.world⟩ := by
  induction program generalizing calls session world with
  | pure value => exact Iff.rfl
  | throw error => exact Iff.rfl
  | call op rest ih => exact ih _

/-- A single call returns or raises its outcome. -/
@[simp] theorem after_perform {op : ι} {Q : Outcome ι ε τ σ (ρ op) → Prop} :
    (perform op : Prog ι ρ ε (ρ op)).after S fails calls session world Q ↔
      Q ⟨(S.perform (fails calls op) op session world).1, op :: calls,
        (S.perform (fails calls op) op session world).2.1,
        (S.perform (fails calls op) op session world).2.2⟩ := by
  unfold after perform
  simp only [eval]
  rcases S.perform (fails calls op) op session world with ⟨result, session', world'⟩
  cases result <;> exact Iff.rfl

/-- A guard either throws or lets the rest go on. -/
@[simp] theorem after_throwIf {refused : Prop} [Decidable refused] {error : ε}
    {Q : Outcome ι ε τ σ Unit → Prop} :
    (throwIf refused error : Prog ι ρ ε Unit).after S fails calls session world Q ↔
      (refused → Q ⟨.error error, calls, session, world⟩) ∧
        (¬ refused → Q ⟨.ok (), calls, session, world⟩) := by
  unfold throwIf
  split <;> simp_all

/-- A call that returns is followed by the rest. -/
theorem after_perform_ok {op : ι} {next : ρ op → Prog ι ρ ε β} {value : ρ op} {session' : τ}
    {world' : σ} {Q : Outcome ι ε τ σ β → Prop}
    (hperform : S.perform (fails calls op) op session world = (.ok value, session', world')) :
    (perform op >>= next).after S fails calls session world Q ↔
      (next value).after S fails (op :: calls) session' world' Q := by
  simp only [after_bind, after_perform, hperform]

/-- A call that throws ends the program. -/
theorem after_perform_error {op : ι} {next : ρ op → Prog ι ρ ε β} {error : ε} {session' : τ}
    {world' : σ} {Q : Outcome ι ε τ σ β → Prop}
    (hperform : S.perform (fails calls op) op session world = (.error error, session', world')) :
    (perform op >>= next).after S fails calls session world Q ↔
      Q ⟨.error error, op :: calls, session', world'⟩ := by
  simp only [after_bind, after_perform, hperform]

/-- A guard ends the program, or it is followed by the rest. -/
theorem after_throwIf_bind {refused : Prop} [Decidable refused] {error : ε}
    {next : Unit → Prog ι ρ ε β} {Q : Outcome ι ε τ σ β → Prop} :
    (throwIf refused error >>= next).after S fails calls session world Q ↔
      (refused → Q ⟨.error error, calls, session, world⟩) ∧
        (¬ refused → (next ()).after S fails calls session world Q) := by
  rw [after_bind, after_throwIf]

/-- A guard that does not hold is passed. -/
theorem after_throwIf_of_not {refused : Prop} [Decidable refused] {error : ε}
    {next : Unit → Prog ι ρ ε β} {Q : Outcome ι ε τ σ β → Prop} (hnot : ¬ refused) :
    (throwIf refused error >>= next).after S fails calls session world Q ↔
      (next ()).after S fails calls session world Q := by
  simp [hnot]

/-- A guard that holds ends the program. -/
theorem after_throwIf_of {refused : Prop} [Decidable refused] {error : ε}
    {next : Unit → Prog ι ρ ε β} {Q : Outcome ι ε τ σ β → Prop} (hrefused : refused) :
    (throwIf refused error >>= next).after S fails calls session world Q ↔
      Q ⟨.error error, calls, session, world⟩ := by
  simp [hrefused]

/-- A missing value throws, a present one is returned. -/
theorem after_require {found : Option α} {error : ε} :
    (require found error : Prog ι ρ ε α).after S fails calls session world Q ↔
      (found = none → Q ⟨.error error, calls, session, world⟩) ∧
        ∀ value, found = some value → Q ⟨.ok value, calls, session, world⟩ := by
  cases found <;> simp

/-- A recorded outcome replays itself. -/
@[simp] theorem after_resume {outcome : Except ε α} :
    (resume outcome : Prog ι ρ ε α).after S fails calls session world Q ↔
      Q ⟨outcome, calls, session, world⟩ := by
  cases outcome <;> exact Iff.rfl

/-- An attempted program leaves what the program leaves, and its outcome becomes the result. -/
@[simp] theorem after_attempt {program : Prog ι ρ ε α}
    {Q : Outcome ι ε τ σ (Except ε α) → Prop} :
    program.attempt.after S fails calls session world Q ↔
      program.after S fails calls session world fun out =>
        Q ⟨.ok out.result, out.calls, out.session, out.world⟩ := by
  induction program generalizing calls session world with
  | pure value => exact Iff.rfl
  | throw error => exact Iff.rfl
  | call op rest ih => exact ih _

/-- What follows a caught outcome starts from where the program stopped. -/
theorem after_attempt_bind {program : Prog ι ρ ε α} {next : Except ε α → Prog ι ρ ε β}
    {Q : Outcome ι ε τ σ β → Prop} :
    (program.attempt >>= next).after S fails calls session world Q ↔
      program.after S fails calls session world fun out =>
        (next out.result).after S fails out.calls out.session out.world Q := by
  rw [after_bind, after_attempt]

/-- A `try` statement: the handler takes over where the body has thrown, and the finalizer runs
before the outcome is handed on. -/
theorem after_catchFinally {body : Prog ι ρ ε α} {handler : ε → Prog ι ρ ε α}
    {finalizer : Prog ι ρ ε Unit} :
    (catchFinally body handler finalizer).after S fails calls session world Q ↔
      body.after S fails calls session world fun out =>
        (match out.result with
          | .ok value => Prog.pure value
          | .error error => handler error).after S fails out.calls out.session out.world
          fun handled =>
            (finalizer >>= fun _ => resume handled.result).after S fails handled.calls
              handled.session handled.world Q := by
  unfold catchFinally
  rw [after_attempt_bind]
  exact after_attempt_bind

/-- Turning the value of a program into another one changes neither the calls nor the world. -/
theorem after_map {program : Prog ι ρ ε α} {f : α → β} {P : List ι → σ → Prop} :
    (program >>= fun value => Prog.pure (f value)).after S fails calls session world
        (fun out => P out.calls out.world) ↔
      program.after S fails calls session world fun out => P out.calls out.world := by
  rw [after_bind]
  unfold after
  rcases program.eval S fails calls session world with ⟨_ | _, _, _, _⟩ <;> exact Iff.rfl

theorem after_map_world {program : Prog ι ρ ε α} {f : α → β} {P : σ → Prop} :
    (program >>= fun value => Prog.pure (f value)).after S fails calls session world
        (fun out => P out.world) ↔
      program.after S fails calls session world fun out => P out.world :=
  after_map (P := fun _ w => P w)

/-- Two properties that agree on every outcome. -/
theorem after_congr {program : Prog ι ρ ε α} {Q' : Outcome ι ε τ σ α → Prop}
    (hQ : ∀ out, Q out ↔ Q' out) : program.after S fails calls session world Q ↔
      program.after S fails calls session world Q' := hQ _

/-- What holds of an outcome, weakened. -/
theorem after_mono {program : Prog ι ρ ε α} {Q' : Outcome ι ε τ σ α → Prop}
    (h : program.after S fails calls session world Q) (hQ : ∀ out, Q out → Q' out) :
    program.after S fails calls session world Q' := hQ _ h

end Prog

end FoosballApi.Calls
