import FoosballApi.Calls.Interleaving

/-!
# Rely–guarantee reasoning for interleaved programs

A `Contract` says what is known of the initial world, under which condition a call may be
scheduled, and what every call must guarantee. `wp` is the weakest precondition of a program
under a contract: at each of its calls the other programs may have made any number of calls that
keep the guarantee (none that waits while the program holds the lock), and the call itself must
keep it.
It is a recursion on the program, so a proof about a program follows the program's text.

`Contract.sound` is the rule that makes thread-local proofs a proof about every schedule: if every
program meets its weakest precondition, then every call of every allowed run keeps the guarantee
and every program that has ended satisfies its postcondition.
-/

namespace FoosballApi.Calls

variable {θ ι : Type} {ρ : ι → Type} {ε τ σ α β : Type}

/-- The terms under which programs run together. -/
structure Contract (θ ι : Type) (ρ : ι → Type) (ε σ : Type) where
  /-- What is known of the world in which every program starts. -/
  init : σ → Prop
  /-- The condition under which a call is scheduled: caller, trace so far, call, failure. -/
  allow : θ → Trace θ ι ρ ε σ → ι → Bool → Prop
  /-- What each call guarantees to everybody, given the trace before it. -/
  guar : Trace θ ι ρ ε σ → Event θ ι ρ ε σ → Prop

namespace Contract

/-- A trace that starts as the contract says and all of whose calls keep the guarantee. -/
def Valid (C : Contract θ ι ρ ε σ) (h : Trace θ ι ρ ε σ) : Prop := C.init h.init ∧ h.Steps C.guar

theorem valid_snoc {C : Contract θ ι ρ ε σ} {h : Trace θ ι ρ ε σ} {event : Event θ ι ρ ε σ} :
    C.Valid (h.snoc event) ↔ C.guar h event ∧ C.Valid h := by
  simp only [Valid, Trace.init_snoc, Trace.steps_snoc]
  exact ⟨fun ⟨hi, hg, hs⟩ => ⟨hg, hi, hs⟩, fun ⟨hg, hi, hs⟩ => ⟨hi, hg, hs⟩⟩

/-- The past of a valid trace is valid. -/
theorem Valid.past {C : Contract θ ι ρ ε σ} {h₀ h : Trace θ ι ρ ε σ} (hv : C.Valid h)
    (hpast : Trace.Past h₀ h) : C.Valid h₀ :=
  ⟨hpast.1 ▸ hv.1, hv.2.past hpast⟩

/-- Induction along a valid trace, one guaranteed call at a time. -/
theorem Valid.induction {C : Contract θ ι ρ ε σ} {I : Trace θ ι ρ ε σ → Prop}
    {h : Trace θ ι ρ ε σ} (hv : C.Valid h) (hinit : ∀ world, C.init world → I ⟨world, []⟩)
    (hstep : ∀ h₀ e, C.Valid h₀ → I h₀ → C.guar h₀ e → I (h₀.snoc e)) : I h :=
  hv.2.induction (hinit _ hv.1) fun h₀ e hinit₀ hs hinv hg =>
    hstep h₀ e ⟨hinit₀ ▸ hv.1, hs⟩ hinv hg

/-- The calls the programs other than `tid` may have made between two traces: calls in `may`, each
keeping the guarantee. -/
inductive Others (C : Contract θ ι ρ ε σ) (tid : θ) (may : ι → Prop) (h : Trace θ ι ρ ε σ) :
    Trace θ ι ρ ε σ → Prop where
  | refl : Others C tid may h h
  | snoc {h' : Trace θ ι ρ ε σ} {event : Event θ ι ρ ε σ} :
      Others C tid may h h' → event.tid ≠ tid → may event.op → C.guar h' event →
      Others C tid may h (h'.snoc event)

variable {C : Contract θ ι ρ ε σ} {tid : θ} {may : ι → Prop} {h h' : Trace θ ι ρ ε σ}

/-- What others do only adds to the trace. -/
theorem Others.past (ho : C.Others tid may h h') : Trace.Past h h' := by
  induction ho with
  | refl => exact .refl _
  | snoc _ _ _ _ ih => exact ih.snoc

/-- What others do is not the program's own doing. -/
theorem Others.madeBy [DecidableEq θ] (ho : C.Others tid may h h') :
    h'.madeBy tid = h.madeBy tid := by
  induction ho with
  | refl => rfl
  | snoc _ hne _ _ ih => rw [Trace.madeBy_snoc_other _ hne, ih]

/-- One more call of another program at the start of what others do. -/
theorem Others.cons {event : Event θ ι ρ ε σ} (hne : event.tid ≠ tid) (hmay : may event.op)
    (hg : C.guar h event) (ho : C.Others tid may (h.snoc event) h') : C.Others tid may h h' := by
  induction ho with
  | refl => exact .snoc .refl hne hmay hg
  | snoc _ hne' hmay' hg' ih => exact .snoc ih hne' hmay' hg'

/-- What every call of others keeps holds of the trace they leave. -/
theorem Others.induction {I : Trace θ ι ρ ε σ → Prop} (ho : C.Others tid may h h') (hinit : I h)
    (hstep : ∀ h₁ e, e.tid ≠ tid → may e.op → C.guar h₁ e → I h₁ → I (h₁.snoc e)) : I h' := by
  induction ho with
  | refl => exact hinit
  | snoc _ hne hmay hg ih => exact hstep _ _ hne hmay hg ih

end Contract

open Contract

variable (S : System ι ρ ε τ σ) (C : Contract θ ι ρ ε σ) (tid : θ)

/-- What others may have done while program `tid` was at one of its calls: anything that keeps the
guarantee, but no call that waits while the program holds the lock. -/
def Meanwhile (session : τ) (h h' : Trace θ ι ρ ε σ) : Prop :=
  C.Others tid (fun op => S.held session = true → S.waits op = false) h h'

/-- The weakest precondition of program `tid` under a contract. -/
def wp : Prog ι ρ ε α → τ → Trace θ ι ρ ε σ → (Except ε α → τ → Trace θ ι ρ ε σ → Prop) → Prop
  | .pure value, session, h, Q => Q (.ok value) session h
  | .throw error, session, h, Q => Q (.error error) session h
  | .call op rest, session, h, Q =>
      ∀ h', Meanwhile S C tid session h h' → C.Valid h' →
        ∀ fails, C.allow tid h' op fails →
          let out := S.perform fails op session h'.world
          C.guar h' ⟨tid, op, out.1, out.2.2⟩ ∧
            wp (rest out.1) out.2.1 (h'.snoc ⟨tid, op, out.1, out.2.2⟩) Q

variable {S C tid} {session : τ} {h : Trace θ ι ρ ε σ}

/-- When every call waits, nothing happens to a program that holds the lock. -/
theorem Meanwhile.eq {h' : Trace θ ι ρ ε σ} (hmean : Meanwhile S C tid session h h')
    (hheld : S.held session = true) (hwaits : ∀ op, S.waits op = true) : h' = h := by
  refine hmean.induction (I := (· = h)) rfl fun h₁ e _ hmay _ _ => ?_
  have hnot := hmay hheld
  rw [hwaits] at hnot
  cases hnot

@[simp] theorem wp_pure {value : α} {Q : Except ε α → τ → Trace θ ι ρ ε σ → Prop} :
    wp S C tid (.pure value : Prog ι ρ ε α) session h Q ↔ Q (.ok value) session h := Iff.rfl

@[simp] theorem wp_throw {error : ε} {Q : Except ε α → τ → Trace θ ι ρ ε σ → Prop} :
    wp S C tid (.throw error : Prog ι ρ ε α) session h Q ↔ Q (.error error) session h := Iff.rfl

/-- A sequence: the second part starts where the first returned, a throw skips it. -/
theorem wp_bind {program : Prog ι ρ ε α} {next : α → Prog ι ρ ε β}
    {Q : Except ε β → τ → Trace θ ι ρ ε σ → Prop} :
    wp S C tid (program >>= next) session h Q ↔
      wp S C tid program session h fun result session' h' =>
        match result with
        | .ok value => wp S C tid (next value) session' h' Q
        | .error error => Q (.error error) session' h' := by
  induction program generalizing session h with
  | pure value => exact Iff.rfl
  | throw error => exact Iff.rfl
  | call op rest ih =>
      simp only [Prog.call_bind_eq, wp]
      exact forall_congr' fun h' => forall_congr' fun _ => forall_congr' fun _ =>
        forall_congr' fun _ => forall_congr' fun _ => and_congr_right fun _ => ih _

/-- A weakest precondition is monotone in its postcondition. -/
theorem wp_mono {program : Prog ι ρ ε α} {Q Q' : Except ε α → τ → Trace θ ι ρ ε σ → Prop}
    (hwp : wp S C tid program session h Q) (hQ : ∀ r s h, Q r s h → Q' r s h) :
    wp S C tid program session h Q' := by
  induction program generalizing session h with
  | pure value => exact hQ _ _ _ hwp
  | throw error => exact hQ _ _ _ hwp
  | call op rest ih =>
      intro h' hrely hv fails hallow
      obtain ⟨hg, hrest⟩ := hwp h' hrely hv fails hallow
      exact ⟨hg, ih _ hrest⟩

/-- A single call. The call keeps the guarantee and its outcome satisfies the postcondition. -/
theorem wp_perform {op : ι} {Q : Except ε (ρ op) → τ → Trace θ ι ρ ε σ → Prop}
    (hcall : ∀ h', Meanwhile S C tid session h h' → C.Valid h' →
      ∀ fails, C.allow tid h' op fails →
        let out := S.perform fails op session h'.world
        C.guar h' ⟨tid, op, out.1, out.2.2⟩ ∧
          Q out.1 out.2.1 (h'.snoc ⟨tid, op, out.1, out.2.2⟩)) :
    wp S C tid (Prog.perform op) session h Q := by
  intro h' hrely hv fails hallow
  obtain ⟨hg, hQ⟩ := hcall h' hrely hv fails hallow
  refine ⟨hg, ?_⟩
  rcases hout : S.perform fails op session h'.world with ⟨result, session', world'⟩
  rw [hout] at hQ
  cases result <;> exact hQ

/-- A guard either throws or lets the rest go on. -/
@[simp] theorem wp_throwIf {refused : Prop} [Decidable refused] {error : ε}
    {Q : Except ε Unit → τ → Trace θ ι ρ ε σ → Prop} :
    wp S C tid (Prog.throwIf refused error) session h Q ↔
      (refused → Q (.error error) session h) ∧ (¬ refused → Q (.ok ()) session h) := by
  unfold Prog.throwIf
  split <;> simp_all

/-- An attempted program has the program's outcome as its value. -/
theorem wp_attempt {program : Prog ι ρ ε α}
    {Q : Except ε (Except ε α) → τ → Trace θ ι ρ ε σ → Prop} :
    wp S C tid program.attempt session h Q ↔
      wp S C tid program session h fun result session' h' => Q (.ok result) session' h' := by
  induction program generalizing session h with
  | pure value => exact Iff.rfl
  | throw error => exact Iff.rfl
  | call op rest ih =>
      simp only [Prog.attempt, wp]
      exact forall_congr' fun h' => forall_congr' fun _ => forall_congr' fun _ =>
        forall_congr' fun _ => forall_congr' fun _ => and_congr_right fun _ => ih _

/-- A recorded outcome replays itself. -/
@[simp] theorem wp_resume {outcome : Except ε α} {Q : Except ε α → τ → Trace θ ι ρ ε σ → Prop} :
    wp S C tid (Prog.resume outcome) session h Q ↔ Q outcome session h := by
  cases outcome <;> exact Iff.rfl

/-- A missing value throws, a present one is returned. -/
theorem wp_require {found : Option α} {error : ε} {Q : Except ε α → τ → Trace θ ι ρ ε σ → Prop} :
    wp S C tid (Prog.require found error) session h Q ↔
      (found = none → Q (.error error) session h) ∧
        ∀ value, found = some value → Q (.ok value) session h := by
  cases found <;> simp

/-- A call and what follows it. A call that throws skips what follows. -/
theorem wp_perform_bind {op : ι} {next : ρ op → Prog ι ρ ε β}
    {Q : Except ε β → τ → Trace θ ι ρ ε σ → Prop}
    (hcall : ∀ h', Meanwhile S C tid session h h' → C.Valid h' →
      ∀ fails, C.allow tid h' op fails →
        let out := S.perform fails op session h'.world
        C.guar h' ⟨tid, op, out.1, out.2.2⟩ ∧
          match out.1 with
          | .ok value => wp S C tid (next value) out.2.1 (h'.snoc ⟨tid, op, out.1, out.2.2⟩) Q
          | .error error => Q (.error error) out.2.1 (h'.snoc ⟨tid, op, out.1, out.2.2⟩)) :
    wp S C tid (Prog.perform op >>= next) session h Q := by
  refine wp_bind.mpr (wp_perform fun h' hmean hv fails hallow => ?_)
  obtain ⟨hg, hnext⟩ := hcall h' hmean hv fails hallow
  refine ⟨hg, ?_⟩
  rcases hout : S.perform fails op session h'.world with ⟨result, session', world'⟩
  rw [hout] at hnext
  cases result <;> exact hnext

/-- What follows a caught outcome starts from it. -/
theorem wp_attempt_bind {program : Prog ι ρ ε α} {next : Except ε α → Prog ι ρ ε β}
    {Q : Except ε β → τ → Trace θ ι ρ ε σ → Prop} :
    wp S C tid (program.attempt >>= next) session h Q ↔
      wp S C tid program session h fun outcome s h' => wp S C tid (next outcome) s h' Q :=
  wp_bind.trans wp_attempt

/-- A `try` statement: the handler takes over where the body has thrown, and the finalizer runs
before the outcome is handed on. -/
theorem wp_catchFinally {body : Prog ι ρ ε α} {handler : ε → Prog ι ρ ε α}
    {finalizer : Prog ι ρ ε Unit} {Q : Except ε α → τ → Trace θ ι ρ ε σ → Prop} :
    wp S C tid (Prog.catchFinally body handler finalizer) session h Q ↔
      wp S C tid body session h fun outcome s h' =>
        wp S C tid (match outcome with
          | .ok value => .pure value
          | .error error => handler error) s h' fun handled s h' =>
            wp S C tid (finalizer >>= fun _ => Prog.resume handled) s h' Q := by
  unfold Prog.catchFinally
  refine wp_attempt_bind.trans ⟨fun hbody => ?_, fun hbody => ?_⟩
  · exact wp_mono hbody fun _ _ _ => wp_attempt_bind.mp
  · exact wp_mono hbody fun _ _ _ => wp_attempt_bind.mpr

/-- Whatever it ends in, every call of the program keeps the guarantee. -/
def Safe (S : System ι ρ ε τ σ) (C : Contract θ ι ρ ε σ) (tid : θ) (program : Prog ι ρ ε α)
    (session : τ) (h : Trace θ ι ρ ε σ) : Prop :=
  wp S C tid program session h fun _ _ _ => True

/-- A guard is safe, and what follows it starts with the condition that did not hold. -/
theorem safe_throwIf {refused : Prop} [Decidable refused] {error : ε} {next : Unit → Prog ι ρ ε α}
    (hnext : ¬ refused → Safe S C tid (next ()) session h) :
    Safe S C tid (Prog.throwIf refused error >>= next) session h :=
  wp_bind.mpr (wp_throwIf.mpr ⟨fun _ => trivial, hnext⟩)

/-- What follows a value that must be present starts with the value. -/
theorem safe_require {found : Option β} {error : ε} {next : β → Prog ι ρ ε α}
    (hnext : ∀ value, found = some value → Safe S C tid (next value) session h) :
    Safe S C tid (Prog.require found error >>= next) session h :=
  wp_bind.mpr (wp_require.mpr ⟨fun _ => trivial, hnext⟩)

/-- A program whose value is turned into another one. -/
theorem safe_map {program : Prog ι ρ ε α} {f : α → β} (hprogram : Safe S C tid program session h) :
    Safe S C tid (program >>= fun value => Prog.pure (f value)) session h :=
  wp_bind.mpr (wp_mono hprogram fun result _ _ _ => by cases result <;> exact trivial)

/-- A program is safe when each of the calls it may issue keeps the guarantee. -/
theorem safe_of_issues {may : ι → Prop} {program : Prog ι ρ ε α} (hissues : program.Issues may)
    (hcall : ∀ op session h fails, may op → C.Valid h → C.allow tid h op fails →
      C.guar h ⟨tid, op, (S.perform fails op session h.world).1,
        (S.perform fails op session h.world).2.2⟩) :
    Safe S C tid program session h := by
  induction program generalizing session h with
  | pure value => trivial
  | throw error => trivial
  | call op rest ih =>
      intro h' _ hv fails hallow
      exact ⟨hcall op session h' fails hissues.1 hv hallow, ih _ (hissues.2 _)⟩

/-- A `try` statement is safe when its body is, and its `catch` and `finally` blocks are wherever
the body may end. -/
theorem safe_catchFinally {body : Prog ι ρ ε α} {handler : ε → Prog ι ρ ε α}
    {finalizer : Prog ι ρ ε Unit} (hbody : Safe S C tid body session h)
    (hhandler : ∀ error s h', Safe S C tid (handler error) s h')
    (hfinalizer : ∀ s h', Safe S C tid finalizer s h') :
    Safe S C tid (Prog.catchFinally body handler finalizer) session h := by
  have hfinish : ∀ (handled : Except ε α) s h',
      Safe S C tid (finalizer >>= fun _ => Prog.resume handled) s h' := fun handled s h' => by
    refine wp_bind.mpr (wp_mono (hfinalizer s h') fun result s h' _ => ?_)
    cases result <;> simp
  refine wp_catchFinally.mpr (wp_mono hbody fun outcome s h' _ => ?_)
  cases outcome with
  | ok value => exact hfinish _ s h'
  | error error => exact wp_mono (hhandler error s h') fun result s h' _ => hfinish result s h'

/-- What a program may still do is not invalidated by a call of another that the lock admits. -/
theorem wp_other {program : Prog ι ρ ε α} {Q : Except ε α → τ → Trace θ ι ρ ε σ → Prop}
    {event : Event θ ι ρ ε σ} (hwp : wp S C tid program session h Q) (hne : event.tid ≠ tid)
    (hmay : S.held session = true → S.waits event.op = false) (hg : C.guar h event)
    (hQ : ∀ r s h e, e.tid ≠ tid → C.guar h e → Q r s h → Q r s (h.snoc e)) :
    wp S C tid program session (h.snoc event) Q := by
  cases program with
  | pure value => exact hQ _ _ _ _ hne hg hwp
  | throw error => exact hQ _ _ _ _ hne hg hwp
  | call op rest =>
      intro h' hmean hv fails hallow
      exact hwp h' (Others.cons hne hmay hg hmean) hv fails hallow

/-- Soundness. If every program meets its weakest precondition, every call of every allowed run
keeps the guarantee, and whatever a program still does meets its weakest precondition. -/
theorem Contract.sound [DecidableEq θ] {session : τ} {progs : θ → Prog ι ρ ε α} {world : σ}
    {Q : θ → Except ε α → τ → Trace θ ι ρ ε σ → Prop}
    {c : Config θ ι ρ ε τ σ α} (hreach : Reach S C.allow (Config.start session progs world) c)
    (hheld : S.held session = false) (hinit : C.init world)
    (hQ : ∀ i r s h e, e.tid ≠ i → C.guar h e → Q i r s h → Q i r s (h.snoc e))
    (hwp : ∀ i, wp S C i (progs i) session ⟨world, []⟩ (Q i)) :
    C.Valid c.trace ∧ (∀ i, S.held (c.threads i).session = true → c.lock = some i) ∧
      ∀ i, wp S C i (c.threads i).prog (c.threads i).session c.trace (Q i) := by
  induction hreach with
  | start =>
      refine ⟨⟨hinit, Trace.steps_nil _ _⟩, fun i hi => ?_, hwp⟩
      simp [Config.start, hheld] at hi
  | @step c tid fails op rest _ hissue hprog hallow ih =>
      obtain ⟨hvalid, hholder, hthreads⟩ := ih
      have hown := hthreads tid
      rw [hprog] at hown
      obtain ⟨hg, hrest⟩ := hown c.trace .refl hvalid fails hallow
      -- While another program holds the lock, `tid` can only have made a call that does not wait.
      have hother : ∀ i, i ≠ tid → S.held (c.threads i).session = true → S.waits op = false := by
        intro i hit hi
        rcases hissue with hlock | hlock | hwaits
        · simp [hholder i hi] at hlock
        · simp [hholder i hi, hit] at hlock
        · exact hwaits
      refine ⟨valid_snoc.mpr ⟨hg, hvalid⟩, fun i hi => ?_, fun i => ?_⟩
      · by_cases hit : i = tid
        · subst hit
          simp only [Config.advance, Function.update_self] at hi ⊢
          simp [hi]
        · simp only [Config.advance, Function.update_of_ne hit] at hi ⊢
          have hnotheld : S.held (S.perform fails op (c.threads tid).session c.trace.world).2.1 =
              false := by
            by_contra hheld'
            rcases S.perform_enter (by simpa using hheld') with htid | hwaits
            · have hsame := (hholder i hi).symm.trans (hholder tid htid)
              exact hit (Option.some.inj hsame)
            · rw [hother i hit hi] at hwaits
              cases hwaits
          simp [hnotheld, hholder i hi, hit]
      · by_cases hit : i = tid
        · subst hit
          simpa only [Config.advance, Function.update_self] using hrest
        · simp only [Config.advance, Function.update_of_ne hit]
          exact wp_other (hthreads i) (Ne.symm hit) (hother i hit) hg (hQ i)

/-- The guarantee of a contract holds of every call of every allowed run. -/
theorem Contract.guaranteed [DecidableEq θ] {session : τ} {progs : θ → Prog ι ρ ε α} {world : σ}
    {c : Config θ ι ρ ε τ σ α} (hreach : Reach S C.allow (Config.start session progs world) c)
    (hheld : S.held session = false) (hinit : C.init world)
    (hwp : ∀ i, wp S C i (progs i) session ⟨world, []⟩ fun _ _ _ => True) : C.Valid c.trace :=
  (C.sound hreach hheld hinit (fun _ _ _ _ _ _ _ h => h) hwp).1

/-- A program that has ended satisfies its postcondition. -/
theorem Contract.result_post [DecidableEq θ] {session : τ} {progs : θ → Prog ι ρ ε α} {world : σ}
    {Q : θ → Except ε α → τ → Trace θ ι ρ ε σ → Prop}
    {c : Config θ ι ρ ε τ σ α} (hreach : Reach S C.allow (Config.start session progs world) c)
    (hheld : S.held session = false) (hinit : C.init world)
    (hQ : ∀ i r s h e, e.tid ≠ i → C.guar h e → Q i r s h → Q i r s (h.snoc e))
    (hwp : ∀ i, wp S C i (progs i) session ⟨world, []⟩ (Q i)) {i : θ} {result : Except ε α}
    (hresult : c.resultOf i = some result) :
    Q i result (c.threads i).session c.trace := by
  have hi := (C.sound hreach hheld hinit hQ hwp).2.2 i
  unfold Config.resultOf at hresult
  split at hresult
  · next hprog => cases hresult; rwa [hprog] at hi
  · next hprog => cases hresult; rwa [hprog] at hi
  · cases hresult

end FoosballApi.Calls
