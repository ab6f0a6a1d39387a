import FoosballApi.Calls.RelyGuarantee

/-!
# What a program returns

Postconditions about a returned value. A program that throws meets any of them, so a proof follows
the calls that go through, one after another, and says nothing about the others.
-/

namespace FoosballApi.Calls

variable {θ ι : Type} {ρ : ι → Type} {ε τ σ α β : Type} {S : System ι ρ ε τ σ}
  {C : Contract θ ι ρ ε σ} {tid : θ} {session : τ} {h : Trace θ ι ρ ε σ}
  {P : α → Trace θ ι ρ ε σ → Prop}

/-- `P` holds of the value and of the past when a program returns. -/
def OnReturn (P : α → Trace θ ι ρ ε σ → Prop) (result : Except ε α) (_ : τ)
    (h : Trace θ ι ρ ε σ) : Prop :=
  ∀ value, result = .ok value → P value h

theorem OnReturn.ok {value : α} (hvalue : P value h) : OnReturn P (.ok value : Except ε α) session h
    := by
  intro returned heq
  cases heq
  exact hvalue

theorem OnReturn.error (error : ε) : OnReturn P (.error error) session h := by
  intro value heq
  cases heq

/-- What the past of a value keeps is kept by a postcondition. -/
theorem OnReturn.snoc {result : Except ε α} {event : Event θ ι ρ ε σ}
    (hresult : OnReturn P result session h) (hkeep : ∀ value, P value h → P value (h.snoc event)) :
    OnReturn P result session (h.snoc event) :=
  fun value heq => hkeep value (hresult value heq)

/-- A program only adds to the past. -/
theorem wp_past {program : Prog ι ρ ε α} {Q : Except ε α → τ → Trace θ ι ρ ε σ → Prop}
    {h₀ : Trace θ ι ρ ε σ} (hpast : Trace.Past h₀ h) (hwp : wp S C tid program session h Q) :
    wp S C tid program session h fun result session' h' =>
      Trace.Past h₀ h' ∧ Q result session' h' := by
  induction program generalizing session h with
  | pure value => exact ⟨hpast, hwp⟩
  | throw error => exact ⟨hpast, hwp⟩
  | call op rest ih =>
      intro h' hmean hvalid fails hallow
      obtain ⟨hg, hrest⟩ := hwp h' hmean hvalid fails hallow
      have hpast' : Trace.Past h₀ h' := hpast.trans hmean.past
      exact ⟨hg, ih _ hpast'.snoc hrest⟩

/-- A program, with what follows it when it returns. -/
theorem wp_bind_onReturn {program : Prog ι ρ ε β} {next : β → Prog ι ρ ε α}
    {R : β → Trace θ ι ρ ε σ → Prop}
    (hprogram : wp S C tid program session h (OnReturn R))
    (hnext : ∀ value session' h', Trace.Past h h' → R value h' →
      wp S C tid (next value) session' h' (OnReturn P)) :
    wp S C tid (program >>= next) session h (OnReturn P) := by
  refine wp_bind.mpr (wp_mono (wp_past (.refl h) hprogram) fun result session' h' hended => ?_)
  obtain ⟨hpast, hreturned⟩ := hended
  cases result with
  | ok value => exact hnext value session' h' hpast (hreturned value rfl)
  | error error => exact .error error

/-- A value that must be present, with what follows it. -/
theorem wp_require_onReturn {found : Option β} {error : ε} {next : β → Prog ι ρ ε α}
    (hnext : ∀ value, found = some value → wp S C tid (next value) session h (OnReturn P)) :
    wp S C tid (Prog.require found error >>= next) session h (OnReturn P) :=
  wp_bind.mpr (wp_require.mpr ⟨fun _ => .error error, hnext⟩)

/-- A guard, with what follows it when it does not throw. -/
theorem wp_throwIf_onReturn {refused : Prop} [Decidable refused] {error : ε}
    {next : Unit → Prog ι ρ ε α}
    (hnext : ¬ refused → wp S C tid (next ()) session h (OnReturn P)) :
    wp S C tid (Prog.throwIf refused error >>= next) session h (OnReturn P) :=
  wp_bind.mpr (wp_throwIf.mpr ⟨fun _ => .error error, hnext⟩)

/-- A call that keeps the guarantee, with what follows it when it goes through. -/
theorem wp_call_onReturn {op : ι} {next : ρ op → Prog ι ρ ε α}
    (hguar : ∀ h', Meanwhile S C tid session h h' → C.Valid h' → ∀ fails,
      C.guar h' ⟨tid, op, (S.perform fails op session h'.world).1,
        (S.perform fails op session h'.world).2.2⟩)
    (hnext : ∀ h', Meanwhile S C tid session h h' → C.Valid h' → ∀ fails value session' world',
      S.perform fails op session h'.world = (.ok value, session', world') →
      wp S C tid (next value) session' (h'.snoc ⟨tid, op, .ok value, world'⟩) (OnReturn P)) :
    wp S C tid (Prog.perform op >>= next) session h (OnReturn P) := by
  refine wp_perform_bind fun h' hmean hvalid fails _ => ⟨hguar h' hmean hvalid fails, ?_⟩
  rcases hperform : S.perform fails op session h'.world with ⟨result, session', world'⟩
  cases result with
  | ok value => exact hnext h' hmean hvalid fails value session' world' hperform
  | error error => exact .error error

end FoosballApi.Calls
