import FoosballApi.Calls.RelyGuarantee

/-!
# What a program throws

Postconditions about a thrown exception, dual to those of `Returning.lean`: a program that returns
meets any of them. Here every call is allowed to do anything, so a proof follows the program's text
and keeps what the program has seen and done itself; `Reach.thrown` turns it into a fact about every
run.

A program that only relays throws nothing but what its own calls raise, so the part of a method that
follows its last guard needs no proof of its own.
-/

namespace FoosballApi.Calls

variable {θ ι : Type} {ρ : ι → Type} {ε τ σ α β : Type}

/-! ## What a program has seen, done and raised -/

namespace Trace

variable {tid : θ} {h h' : Trace θ ι ρ ε σ} {event : Event θ ι ρ ε σ}

/-- `P` held of the world when the program made one of its calls. -/
def Saw (h : Trace θ ι ρ ε σ) (tid : θ) (P : σ → Prop) : Prop :=
  ∃ (h₀ : Trace θ ι ρ ε σ) (event : Event θ ι ρ ε σ),
    event.tid = tid ∧ Past (h₀.snoc event) h ∧ P h₀.world

theorem Saw.past {P : σ → Prop} (hsaw : h.Saw tid P) (hpast : Past h h') : h'.Saw tid P := by
  obtain ⟨h₀, event, htid, hbefore, hworld⟩ := hsaw
  exact ⟨h₀, event, htid, hbefore.trans hpast, hworld⟩

/-- What was seen by a call that has just been made. -/
theorem saw_snoc {P : σ → Prop} (htid : event.tid = tid) (hworld : P h.world) :
    (h.snoc event).Saw tid P := ⟨h, event, htid, .refl _, hworld⟩

/-- One of the program's calls has ended in `error`. -/
def Raised (h : Trace θ ι ρ ε σ) (tid : θ) (error : ε) : Prop :=
  ∃ event ∈ h.events, event.tid = tid ∧ event.result = .error error

theorem Raised.past {error : ε} (hraised : h.Raised tid error) (hpast : Past h h') :
    h'.Raised tid error := by
  obtain ⟨event, hmem, hown⟩ := hraised
  exact ⟨event, hpast.2.subset hmem, hown⟩

theorem raised_snoc {op : ι} {error : ε} {world : σ} :
    (h.snoc ⟨tid, op, .error error, world⟩).Raised tid error :=
  ⟨_, List.mem_cons_self, rfl, rfl⟩

/-- Every call of the program has left the world as `R` says. -/
def Keeps (h : Trace θ ι ρ ε σ) (tid : θ) (R : σ → σ → Prop) : Prop :=
  h.Steps fun h e => e.tid = tid → R h.world e.world

variable {R : σ → σ → Prop}

/-- One more call, by another program or such that `R` holds. -/
theorem Keeps.snoc (hkeeps : h.Keeps tid R) (hstep : event.tid = tid → R h.world event.world) :
    (h.snoc event).Keeps tid R := steps_snoc.mpr ⟨hstep, hkeeps⟩

theorem Keeps.mono {R' : σ → σ → Prop} (hkeeps : h.Keeps tid R)
    (hle : ∀ w w', R w w' → R' w w') : h.Keeps tid R' :=
  Steps.mono hkeeps fun _ _ hstep htid => hle _ _ (hstep htid)

/-- The program has not made any call yet. -/
theorem keeps_nil (tid : θ) (R : σ → σ → Prop) (world : σ) :
    (⟨world, []⟩ : Trace θ ι ρ ε σ).Keeps tid R := steps_nil _ _

end Trace

open Trace

/-! ## Rules -/

/-- The contract under which programs may do anything that `allow` admits. -/
def Contract.free (allow : θ → Trace θ ι ρ ε σ → ι → Bool → Prop) : Contract θ ι ρ ε σ where
  init _ := True
  allow := allow
  guar _ _ := True

/-- What others do is not the program's own doing. -/
theorem Meanwhile.keeps {S : System ι ρ ε τ σ} {C : Contract θ ι ρ ε σ} {tid : θ} {session : τ}
    {h h' : Trace θ ι ρ ε σ} {R : σ → σ → Prop} (hmean : Meanwhile S C tid session h h')
    (hkeeps : h.Keeps tid R) : h'.Keeps tid R :=
  hmean.induction (I := fun h => h.Keeps tid R) hkeeps fun _ _ hne _ _ hkept =>
    hkept.snoc fun htid => absurd htid hne

variable {S : System ι ρ ε τ σ} {C : Contract θ ι ρ ε σ} {tid : θ} {session : τ}
  {h : Trace θ ι ρ ε σ} {E : ε → τ → Trace θ ι ρ ε σ → Prop}

/-- `E` holds of the exception, the session and the past when a program throws. -/
def OnThrow (E : ε → τ → Trace θ ι ρ ε σ → Prop) (result : Except ε α) (session : τ)
    (h : Trace θ ι ρ ε σ) : Prop :=
  ∀ error, result = .error error → E error session h

theorem OnThrow.ok (value : α) : OnThrow E (.ok value) session h := by
  intro error heq
  cases heq

theorem OnThrow.error {error : ε} (herror : E error session h) :
    OnThrow E (.error error : Except ε α) session h := by
  intro thrown heq
  cases heq
  exact herror

/-- A guard whose exception is justified where it holds, with what follows it when it does not. -/
theorem wp_throwIf_onThrow {refused : Prop} [Decidable refused] {error : ε}
    {next : Unit → Prog ι ρ ε α} (hthrow : refused → E error session h)
    (hnext : ¬ refused → wp S C tid (next ()) session h (OnThrow E)) :
    wp S C tid (Prog.throwIf refused error >>= next) session h (OnThrow E) :=
  wp_bind.mpr (wp_throwIf.mpr ⟨fun hrefused => .error (hthrow hrefused), hnext⟩)

/-- A value that must be present, with what follows it. -/
theorem wp_require_onThrow {found : Option β} {error : ε} {next : β → Prog ι ρ ε α}
    (hthrow : found = none → E error session h)
    (hnext : ∀ value, found = some value → wp S C tid (next value) session h (OnThrow E)) :
    wp S C tid (Prog.require found error >>= next) session h (OnThrow E) :=
  wp_bind.mpr (wp_require.mpr ⟨fun hnone => .error (hthrow hnone), hnext⟩)

/-- A program whose value is turned into another one. -/
theorem wp_map_onThrow {program : Prog ι ρ ε α} {f : α → β}
    (hprogram : wp S C tid program session h (OnThrow E)) :
    wp S C tid (program >>= fun value => Prog.pure (f value)) session h (OnThrow E) := by
  refine wp_bind.mpr (wp_mono hprogram fun result session' h' hthrown => ?_)
  cases result with
  | ok value => exact .ok _
  | error error => exact .error (hthrown error rfl)

/-- A `try` statement: what the body throws is handed to the handler, and an exception of either is
still justified when the finalizer has run. -/
theorem wp_catchFinally_onThrow {body : Prog ι ρ ε α} {handler : ε → Prog ι ρ ε α}
    {finalizer : Prog ι ρ ε Unit} {E' : ε → τ → Trace θ ι ρ ε σ → Prop}
    (hbody : wp S C tid body session h (OnThrow E'))
    (hhandler : ∀ error s h', E' error s h' → wp S C tid (handler error) s h' (OnThrow E))
    (hfinalizer : ∀ s h', wp S C tid finalizer s h' fun result s' h'' =>
      OnThrow E result s' h'' ∧ ∀ error, E error s h' → E error s' h'') :
    wp S C tid (Prog.catchFinally body handler finalizer) session h (OnThrow E) := by
  have hfinish : ∀ (handled : Except ε α) s h', OnThrow E handled s h' →
      wp S C tid (finalizer >>= fun _ => Prog.resume handled) s h' (OnThrow E) := by
    intro handled s h' hhandled
    refine wp_bind.mpr (wp_mono (hfinalizer s h') fun result s' h'' hended => ?_)
    obtain ⟨hthrown, hkeep⟩ := hended
    cases result with
    | ok value => exact wp_resume.mpr fun error heq => hkeep error (hhandled error heq)
    | error error => exact .error (hthrown error rfl)
  refine wp_catchFinally.mpr (wp_mono hbody fun outcome s h' hthrown => ?_)
  cases outcome with
  | ok value => exact hfinish _ s h' (.ok value)
  | error error => exact wp_mono (hhandler error s h' (hthrown error rfl)) hfinish

/-! ## Programs that relay the exceptions of their calls -/

/-- The program throws nothing but what its calls raise. -/
def Prog.Relays : Prog ι ρ ε α → Prop
  | .pure _ => True
  | .throw _ => False
  | .call _ rest => (∀ value, (rest (.ok value)).Relays) ∧
      ∀ error, rest (.error error) = .throw error

theorem relays_perform (op : ι) : (Prog.perform op : Prog ι ρ ε (ρ op)).Relays :=
  ⟨fun _ => trivial, fun _ => rfl⟩

theorem relays_bind {program : Prog ι ρ ε α} {next : α → Prog ι ρ ε β}
    (hprogram : program.Relays) (hnext : ∀ value, (next value).Relays) :
    (program >>= next).Relays := by
  induction program with
  | pure value => exact hnext value
  | throw error => exact hprogram.elim
  | call op rest ih =>
      refine ⟨fun value => ih (.ok value) (hprogram.1 value), fun error => ?_⟩
      show rest (.error error) >>= next = .throw error
      rw [hprogram.2 error]
      rfl

/-- What a relaying program throws was raised by one of its calls. -/
theorem wp_relays {allow : θ → Trace θ ι ρ ε σ → ι → Bool → Prop} {program : Prog ι ρ ε α}
    (hrelays : program.Relays) :
    wp S (.free allow) tid program session h (OnThrow fun error _ h' => h'.Raised tid error) := by
  induction program generalizing session h with
  | pure value => exact .ok value
  | throw error => exact hrelays.elim
  | call op rest ih =>
      intro h' _ _ fails _
      refine ⟨trivial, ?_⟩
      rcases hperform : S.perform fails op session h'.world with ⟨result, session', world'⟩
      cases result with
      | ok value => exact ih (.ok value) (hrelays.1 value)
      | error error =>
          show wp S _ tid (rest (.error error)) _ _ _
          rw [hrelays.2 error]
          exact .error raised_snoc

/-! ## Runs -/

/-- Nothing has to be shown for a postcondition that always holds. -/
theorem wp_free {allow : θ → Trace θ ι ρ ε σ → ι → Bool → Prop} {program : Prog ι ρ ε α}
    {Q : Except ε α → τ → Trace θ ι ρ ε σ → Prop} (hQ : ∀ r s h, Q r s h) :
    wp S (.free allow) tid program session h Q := by
  induction program generalizing session h with
  | pure value => exact hQ _ _ _
  | throw error => exact hQ _ _ _
  | call op rest ih => exact fun _ _ _ _ _ => ⟨trivial, ih _⟩

/-- What holds of the exceptions of every program, and of a longer past when it holds of a shorter
one, holds of the exceptions that a run ends in. -/
theorem Reach.thrown [DecidableEq θ] {allow : θ → Trace θ ι ρ ε σ → ι → Bool → Prop}
    {progs : θ → Prog ι ρ ε α} {world : σ} {c : Config θ ι ρ ε τ σ α}
    (hreach : Reach S allow (Config.start session progs world) c)
    (hheld : S.held session = false) {E : θ → ε → Trace θ ι ρ ε σ → Prop}
    (hkeep : ∀ i error h e, e.tid ≠ i → E i error h → E i error (h.snoc e))
    (hwp : ∀ i, wp S (.free allow) i (progs i) session ⟨world, []⟩
      (OnThrow fun error _ h => E i error h)) {i : θ} {error : ε}
    (hresult : c.resultOf i = some (.error error)) : E i error c.trace :=
  Contract.result_post (C := .free allow) hreach hheld trivial
    (fun i _ _ h e hne _ hthrown error heq => hkeep i error h e hne (hthrown error heq)) hwp hresult
    error rfl

end FoosballApi.Calls
