import FoosballApi.Calls.Sequential

/-!
# Two runs of similar programs

A `Likeness` says which calls two programs may make and when two results of a call are alike. Two
programs are similar when they make the same calls in the same order as long as the results they
receive are alike, and end with related values or with the same exception. If each such call, made
in two related states, has results that are alike and keeps the states related, then so do the whole
programs (`Similar.eval`): what a program answers and leaves depends only on what the relation of
the states compares.
-/

namespace FoosballApi.Calls

variable {ι : Type} {ρ : ι → Type} {ε τ σ α β : Type}

/-- Two outcomes that are related values or the same exception. -/
inductive ExceptRel (rel : α → β → Prop) : Except ε α → Except ε β → Prop where
  | ok {a : α} {b : β} (related : rel a b) : ExceptRel rel (.ok a) (.ok b)
  | error (error : ε) : ExceptRel rel (.error error) (.error error)

/-- Outcomes with equal values are equal. -/
theorem ExceptRel.eq_of_map {γ : Type} {f : α → γ} {outcome outcome' : Except ε α}
    (h : ExceptRel (fun a b => f a = f b) outcome outcome') : outcome.map f = outcome'.map f := by
  cases h with
  | ok related => exact congrArg Except.ok related
  | error error => rfl

theorem ExceptRel.eq {outcome outcome' : Except ε α}
    (h : ExceptRel (fun a b => b = a) outcome outcome') : outcome = outcome' := by
  cases h with
  | ok related => rw [related]
  | error error => rfl

/-- The calls that two programs may make, and which results of a call are alike. -/
structure Likeness (ι : Type) (ρ : ι → Type) where
  may : ι → Prop
  alike : (op : ι) → ρ op → ρ op → Prop

namespace Prog

/-- Two programs that make the same calls while the results are alike. -/
inductive Similar (L : Likeness ι ρ) (post : α → α → Prop) :
    Prog ι ρ ε α → Prog ι ρ ε α → Prop where
  | pure {a b : α} (related : post a b) : Similar L post (.pure a) (.pure b)
  | throw (error : ε) : Similar L post (.throw error) (.throw error)
  | call {op : ι} {next next' : Except ε (ρ op) → Prog ι ρ ε α} (may : L.may op)
      (value : ∀ a b, L.alike op a b → Similar L post (next (.ok a)) (next' (.ok b)))
      (error : ∀ error, Similar L post (next (.error error)) (next' (.error error))) :
      Similar L post (.call op next) (.call op next')

namespace Similar

variable {L : Likeness ι ρ} {post : α → α → Prop} {post' : β → β → Prop}
  {program program' : Prog ι ρ ε α}

/-- A related postcondition may be weakened. -/
theorem mono {weaker : α → α → Prop} (h : Similar L post program program')
    (hpost : ∀ a b, post a b → weaker a b) : Similar L weaker program program' := by
  induction h with
  | pure related => exact .pure (hpost _ _ related)
  | throw error => exact .throw error
  | call may _ _ value error => exact .call may value error

/-- A sequence of similar programs. -/
theorem bind {next next' : α → Prog ι ρ ε β} (h : Similar L post program program')
    (hnext : ∀ a b, post a b → Similar L post' (next a) (next' b)) :
    Similar L post' (program >>= next) (program' >>= next') := by
  induction h with
  | pure related => exact hnext _ _ related
  | throw error => exact .throw error
  | call may _ _ value error => exact .call may value error

/-- A single call. -/
theorem perform {op : ι} (may : L.may op) :
    Similar L (L.alike op) (Prog.perform op : Prog ι ρ ε (ρ op)) (Prog.perform op) :=
  .call may (fun _ _ halike => .pure halike) fun error => .throw error

/-- A call and what follows it. -/
theorem perform_bind {op : ι} {next next' : ρ op → Prog ι ρ ε β} (may : L.may op)
    (hnext : ∀ a b, L.alike op a b → Similar L post' (next a) (next' b)) :
    Similar L post' (Prog.perform op >>= next) (Prog.perform op >>= next') :=
  bind (perform may) hnext

/-- A guard. -/
theorem throwIf {refused : Prop} [Decidable refused] {error : ε} :
    Similar L (fun _ _ => True) (Prog.throwIf refused error : Prog ι ρ ε Unit)
      (Prog.throwIf refused error) := by
  unfold Prog.throwIf
  split
  · exact .throw error
  · exact .pure trivial

/-- A guard and what follows it. -/
theorem throwIf_bind {refused : Prop} [Decidable refused] {error : ε}
    {next next' : Unit → Prog ι ρ ε β}
    (hnext : ¬ refused → Similar L post' (next ()) (next' ())) :
    Similar L post' (Prog.throwIf refused error >>= next)
      (Prog.throwIf refused error >>= next') := by
  unfold Prog.throwIf
  split
  · exact .throw error
  · next hgo => exact hnext hgo

/-- A required value and what follows it. -/
theorem require_bind {found : Option α} {error : ε} {next next' : α → Prog ι ρ ε β}
    (hnext : ∀ value, found = some value → Similar L post' (next value) (next' value)) :
    Similar L post' (Prog.require found error >>= next)
      (Prog.require found error >>= next') := by
  cases found with
  | none => exact .throw error
  | some value => exact hnext value rfl

/-- Attempted programs. -/
theorem attempt (h : Similar L post program program') :
    Similar L (ExceptRel post) program.attempt program'.attempt := by
  induction h with
  | pure related => exact .pure (.ok related)
  | throw error => exact .pure (.error error)
  | call may _ _ value error => exact .call may value error

/-- Replayed outcomes. -/
theorem resume {outcome outcome' : Except ε α} (h : ExceptRel post outcome outcome') :
    Similar L post (Prog.resume outcome) (Prog.resume outcome') := by
  cases h with
  | ok related => exact .pure related
  | error error => exact .throw error

/-- `try` statements with similar bodies and the same blocks. -/
theorem catchFinally {handler : ε → Prog ι ρ ε α} {finalizer : Prog ι ρ ε Unit}
    (hbody : Similar L post program program')
    (hhandler : ∀ error, Similar L post (handler error) (handler error))
    (hfinalizer : Similar L (fun _ _ => True) finalizer finalizer) :
    Similar L post (Prog.catchFinally program handler finalizer)
      (Prog.catchFinally program' handler finalizer) := by
  refine hbody.attempt.bind fun outcome outcome' houtcome => ?_
  have hfinish : ∀ {handled handled' : Prog ι ρ ε α}, Similar L post handled handled' →
      Similar L post (handled.attempt >>= fun ended => finalizer >>= fun _ => Prog.resume ended)
        (handled'.attempt >>= fun ended => finalizer >>= fun _ => Prog.resume ended) :=
    fun h => h.attempt.bind fun _ _ hended => hfinalizer.bind fun _ _ _ => resume hended
  cases houtcome with
  | ok related => exact hfinish (.pure related)
  | error error => exact hfinish (hhandler error)

/-! ## Running two similar programs -/

variable {S : System ι ρ ε τ σ} {R : τ → σ → τ → σ → Prop} {fails : List ι → ι → Bool}

/-- A call that fails in one run fails in the other, with the same exception; a call that is carried
out in both is alike in both. -/
theorem perform_rel {op : ι} {alike : ρ op → ρ op → Prop} {s s' : τ} {w w' : σ}
    (hstates : R s w s' w')
    (hstep : ExceptRel alike (S.exec op s w).1 (S.exec op s' w').1 ∧
      R (S.exec op s w).2.1 (S.exec op s w).2.2 (S.exec op s' w').2.1 (S.exec op s' w').2.2)
    (failing : Bool) :
    ExceptRel alike (S.perform failing op s w).1 (S.perform failing op s' w').1 ∧
      R (S.perform failing op s w).2.1 (S.perform failing op s w).2.2
        (S.perform failing op s' w').2.1 (S.perform failing op s' w').2.2 := by
  unfold System.perform
  split
  · exact ⟨.error _, hstates⟩
  · exact hstep

/-- Similar programs run in related states, with the same calls failing, make the same calls, end
alike, and leave related states. -/
theorem eval (h : Similar L post program program')
    (hstep : ∀ op, L.may op → ∀ s w s' w', R s w s' w' →
      ExceptRel (L.alike op) (S.exec op s w).1 (S.exec op s' w').1 ∧
        R (S.exec op s w).2.1 (S.exec op s w).2.2 (S.exec op s' w').2.1 (S.exec op s' w').2.2)
    {calls : List ι} {s s' : τ} {w w' : σ} (hstates : R s w s' w') :
    let out := program.eval S fails calls s w
    let out' := program'.eval S fails calls s' w'
    ExceptRel post out.result out'.result ∧ out.calls = out'.calls ∧
      R out.session out.world out'.session out'.world := by
  induction h generalizing calls s s' w w' with
  | pure related => exact ⟨.ok related, rfl, hstates⟩
  | throw error => exact ⟨.error error, rfl, hstates⟩
  | @call op next next' may _ _ ihvalue iherror =>
      obtain ⟨hresult, hafter⟩ :=
        perform_rel hstates (hstep op may s w s' w' hstates) (fails calls op)
      simp only [Prog.eval]
      generalize S.perform (fails calls op) op s w = out at hresult hafter
      generalize S.perform (fails calls op) op s' w' = out' at hresult hafter
      obtain ⟨result, session, world⟩ := out
      obtain ⟨result', session', world'⟩ := out'
      cases hresult with
      | ok related => exact ihvalue _ _ related hafter
      | error error => exact iherror error hafter

/-- What each call of similar programs keeps holds of the state they leave, and they make only calls
they may make, when a result is always alike to itself. -/
theorem keeps {I : τ → σ → Prop} (h : Similar L post program program')
    (hstep : ∀ op, L.may op → ∀ s w, I s w →
      (∀ value, (S.exec op s w).1 = .ok value → L.alike op value value) ∧
        I (S.exec op s w).2.1 (S.exec op s w).2.2)
    {calls : List ι} {s : τ} {w : σ} (hcalls : ∀ op ∈ calls, L.may op) (hstate : I s w) :
    program.after S fails calls s w fun out =>
      I out.session out.world ∧ ∀ op ∈ out.calls, L.may op := by
  induction h generalizing calls s w with
  | pure | throw => exact ⟨hstate, hcalls⟩
  | @call op next next' may _ _ ihvalue iherror =>
      have hmore : ∀ other ∈ op :: calls, L.may other := List.forall_mem_cons.mpr ⟨may, hcalls⟩
      have hperform : (∀ value, (S.perform (fails calls op) op s w).1 = .ok value →
          L.alike op value value) ∧
            I (S.perform (fails calls op) op s w).2.1 (S.perform (fails calls op) op s w).2.2 := by
        unfold System.perform
        split
        · exact ⟨nofun, hstate⟩
        · exact hstep op may s w hstate
      obtain ⟨halike, hafter⟩ := hperform
      simp only [Prog.after, Prog.eval]
      generalize S.perform (fails calls op) op s w = out at halike hafter ⊢
      obtain ⟨result, session, world⟩ := out
      cases result with
      | ok value => exact ihvalue value value (halike value rfl) hmore hafter
      | error error => exact iherror error hmore hafter

end Similar

end Prog

end FoosballApi.Calls
