import FoosballApi.Calls.Sequential

/-!
# What a program can raise and which calls it makes

`Raises` bounds the exceptions of a program run alone, from any state and with any failing calls,
by one rule for each way to build a program. `Issues`, which bounds the calls by the program's
text alone, bounds the calls of every run.
-/

namespace FoosballApi.Calls.Prog

variable {ι : Type} {ρ : ι → Type} {ε τ σ α β : Type} {S : System ι ρ ε τ σ} {may : ε → Prop}

/-- Every exception that a run of the program ends in satisfies `may`. -/
def Raises (S : System ι ρ ε τ σ) (may : ε → Prop) (program : Prog ι ρ ε α) : Prop :=
  ∀ fails calls session world, program.after S fails calls session world fun out =>
    ∀ error, out.result = .error error → may error

theorem raises_pure {value : α} : Raises S may (.pure value : Prog ι ρ ε α) := by
  intro fails calls session world error herror
  cases herror

theorem raises_throw {error : ε} (h : may error) :
    Raises S may (.throw error : Prog ι ρ ε α) := by
  intro fails calls session world error' herror
  cases herror
  exact h

/-- A call raises what it fails with or what its effect ends in. -/
theorem raises_perform {op : ι} (hfault : ∀ error ∈ S.fault op, may error)
    (hexec : ∀ session world error, (S.exec op session world).1 = .error error → may error) :
    Raises S may (perform op : Prog ι ρ ε (ρ op)) := by
  intro fails calls session world
  rw [after_perform]
  intro error herror
  rcases S.perform_cases (fails calls op) op session world with hdone | ⟨fault, hop, hfailed⟩
  · rw [hdone] at herror
    exact hexec session world error herror
  · rw [hfailed] at herror
    cases herror
    exact hfault _ hop

theorem raises_bind {program : Prog ι ρ ε α} {next : α → Prog ι ρ ε β}
    (hprogram : Raises S may program) (hnext : ∀ value, Raises S may (next value)) :
    Raises S may (program >>= next) := by
  intro fails calls session world
  rw [after_bind]
  refine after_mono (hprogram fails calls session world) fun out hout => ?_
  cases hresult : out.result with
  | ok value => exact hnext value fails out.calls out.session out.world
  | error error =>
      intro error' herror
      cases herror
      exact hout error hresult

theorem raises_throwIf {refused : Prop} [Decidable refused] {error : ε} (h : may error) :
    Raises S may (throwIf refused error : Prog ι ρ ε Unit) := by
  unfold throwIf
  split
  · exact raises_throw h
  · exact raises_pure

/-- A `try` statement raises what its handler and its finalizer raise. -/
theorem raises_catchFinally {body : Prog ι ρ ε α} {handler : ε → Prog ι ρ ε α}
    {finalizer : Prog ι ρ ε Unit} (hbody : Raises S may body)
    (hhandler : ∀ error, may error → Raises S may (handler error))
    (hfinalizer : Raises S may finalizer) :
    Raises S may (catchFinally body handler finalizer) := by
  intro fails calls session world
  rw [after_catchFinally]
  have hfinish : ∀ {handled : Outcome ι ε τ σ α},
      (∀ error, handled.result = .error error → may error) →
        (finalizer >>= fun _ => resume handled.result).after S fails handled.calls handled.session
          handled.world fun out => ∀ error, out.result = .error error → may error := by
    intro handled hresult
    rw [after_bind]
    refine after_mono (hfinalizer fails handled.calls handled.session handled.world)
      fun final hfinal => ?_
    cases hlast : final.result with
    | ok value => exact after_resume.mpr hresult
    | error error =>
        intro error' herror
        cases herror
        exact hfinal error hlast
  refine after_mono (hbody fails calls session world) fun out hout => ?_
  cases hresult : out.result with
  | ok value =>
      exact after_mono (raises_pure fails out.calls out.session out.world) fun _ => hfinish
  | error error =>
      exact after_mono (hhandler error (hout error hresult) fails out.calls out.session out.world)
        fun _ => hfinish

/-- A `try` statement issues what its parts issue. -/
theorem issues_catchFinally {mayCall : ι → Prop} {body : Prog ι ρ ε α} {handler : ε → Prog ι ρ ε α}
    {finalizer : Prog ι ρ ε Unit} (hbody : body.Issues mayCall)
    (hhandler : ∀ error, (handler error).Issues mayCall) (hfinalizer : finalizer.Issues mayCall) :
    (catchFinally body handler finalizer).Issues mayCall := by
  have hfinish : ∀ handled : Except ε α,
      (finalizer >>= fun _ => resume handled).Issues mayCall := by
    intro handled
    refine issues_bind hfinalizer fun _ => ?_
    cases handled <;> trivial
  have hpure : ∀ value : α, (Prog.pure value : Prog ι ρ ε α).Issues mayCall := fun _ => trivial
  refine issues_bind (issues_attempt hbody) fun outcome => ?_
  cases outcome with
  | ok value => exact issues_bind (issues_attempt (hpure value)) hfinish
  | error error => exact issues_bind (issues_attempt (hhandler error)) hfinish

/-- A run makes the calls that the program may issue, after those made before. -/
theorem calls_of_issues {mayCall : ι → Prop} {program : Prog ι ρ ε α}
    (hissues : program.Issues mayCall) (fails : List ι → ι → Bool) (calls : List ι) (session : τ)
    (world : σ) : program.after S fails calls session world fun out =>
      ∃ made, out.calls = made ++ calls ∧ ∀ op ∈ made, mayCall op := by
  induction program generalizing calls session world with
  | pure value => exact ⟨[], rfl, fun op => nofun⟩
  | throw error => exact ⟨[], rfl, fun op => nofun⟩
  | call op rest ih =>
      obtain ⟨hop, hrest⟩ := hissues
      obtain ⟨made, hcalls, hmade⟩ := ih (S.perform (fails calls op) op session world).1
        (hrest _) (op :: calls) (S.perform (fails calls op) op session world).2.1
        (S.perform (fails calls op) op session world).2.2
      refine ⟨made ++ [op], ?_, fun op' hop' => ?_⟩
      · rw [List.append_assoc]
        exact hcalls
      · rcases List.mem_append.mp hop' with hlater | hfirst
        · exact hmade op' hlater
        · rw [List.mem_singleton.mp hfirst]
          exact hop

end FoosballApi.Calls.Prog
