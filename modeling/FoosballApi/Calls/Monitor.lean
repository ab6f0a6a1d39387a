import FoosballApi.Calls.Interleaving

/-!
# Monitors of a program's calls

A `Monitor` follows the calls of one program and how they end. `Prog.monitored` says that a program
ends in `Q` however its calls end, as far as the monitor admits it; it is a recursion on the
program, with one rule for each way to build one, and knows nothing of a world or of other programs.

`Reach.monitored` carries it over to every interleaved run of a system, provided that the sessions
of the system keep step with the monitor.
-/

namespace FoosballApi.Calls

variable {ι : Type} {ρ : ι → Type} {ε μ τ σ α β θ : Type}

/-- A monitor with states `μ`. -/
structure Monitor (ι : Type) (ρ : ι → Type) (ε μ : Type) where
  /-- The state after a call. -/
  next : μ → (op : ι) → Except ε (ρ op) → μ
  /-- The ways a call can end. -/
  admits : μ → (op : ι) → Except ε (ρ op) → Prop

/-- The state after the calls of a program, latest first. -/
def Monitor.after (M : Monitor ι ρ ε μ) (state : μ) (events : List (Event θ ι ρ ε σ)) : μ :=
  events.foldr (fun event s => M.next s event.op event.result) state

namespace Prog

variable {M : Monitor ι ρ ε μ} {state : μ} {Q : Except ε α → μ → Prop}

/-- However its calls end, the program ends in `Q`. -/
def monitored (M : Monitor ι ρ ε μ) : Prog ι ρ ε α → μ → (Except ε α → μ → Prop) → Prop
  | .pure value, state, Q => Q (.ok value) state
  | .throw error, state, Q => Q (.error error) state
  | .call op rest, state, Q =>
      ∀ result, M.admits state op result → (rest result).monitored M (M.next state op result) Q

@[simp] theorem monitored_pure {value : α} :
    (Prog.pure value : Prog ι ρ ε α).monitored M state Q ↔ Q (.ok value) state := Iff.rfl

@[simp] theorem monitored_throw {error : ε} :
    (Prog.throw error : Prog ι ρ ε α).monitored M state Q ↔ Q (.error error) state := Iff.rfl

/-- The second part of a sequence goes on from where the first returned; a throw skips it. -/
@[simp] theorem monitored_bind {program : Prog ι ρ ε α} {next : α → Prog ι ρ ε β}
    {Q : Except ε β → μ → Prop} :
    (program >>= next).monitored M state Q ↔
      program.monitored M state fun outcome s =>
        match outcome with
        | .ok value => (next value).monitored M s Q
        | .error error => Q (.error error) s := by
  induction program generalizing state with
  | pure value => exact Iff.rfl
  | throw error => exact Iff.rfl
  | call op rest ih => exact forall_congr' fun result => imp_congr_right fun _ => ih result

/-- A program that hands on its value ends as without that. -/
theorem monitored_map {program : Prog ι ρ ε α} {f : α → β} {Q : Except ε β → μ → Prop} :
    (program >>= fun value => Prog.pure (f value)).monitored M state Q ↔
      program.monitored M state fun outcome s => Q (outcome.map f) s := by
  rw [monitored_bind]
  have hends : ∀ (outcome : Except ε α) (s : μ), (match outcome with
      | .ok value => (Prog.pure (f value) : Prog ι ρ ε β).monitored M s Q
      | .error error => Q (.error error) s) = Q (outcome.map f) s := by
    intro outcome s
    cases outcome <;> rfl
  simp only [hends]

@[simp] theorem monitored_perform {op : ι} {Q : Except ε (ρ op) → μ → Prop} :
    (perform op : Prog ι ρ ε (ρ op)).monitored M state Q ↔
      ∀ result, M.admits state op result → Q result (M.next state op result) := by
  refine forall_congr' fun result => imp_congr_right fun _ => ?_
  cases result <;> exact Iff.rfl

@[simp] theorem monitored_throwIf {refused : Prop} [Decidable refused] {error : ε}
    {Q : Except ε Unit → μ → Prop} :
    (throwIf refused error : Prog ι ρ ε Unit).monitored M state Q ↔
      (refused → Q (.error error) state) ∧ (¬ refused → Q (.ok ()) state) := by
  unfold throwIf
  split <;> simp_all

theorem monitored_require {found : Option α} {error : ε} :
    (require found error : Prog ι ρ ε α).monitored M state Q ↔
      (found = none → Q (.error error) state) ∧
        ∀ value, found = some value → Q (.ok value) state := by
  cases found <;> simp

@[simp] theorem monitored_resume {outcome : Except ε α} :
    (resume outcome : Prog ι ρ ε α).monitored M state Q ↔ Q outcome state := by
  cases outcome <;> exact Iff.rfl

@[simp] theorem monitored_attempt {program : Prog ι ρ ε α}
    {Q : Except ε (Except ε α) → μ → Prop} :
    program.attempt.monitored M state Q ↔
      program.monitored M state fun outcome s => Q (.ok outcome) s := by
  induction program generalizing state with
  | pure value => exact Iff.rfl
  | throw error => exact Iff.rfl
  | call op rest ih => exact forall_congr' fun result => imp_congr_right fun _ => ih result

/-- What follows a caught outcome starts from where the program stopped. -/
theorem monitored_attempt_bind {program : Prog ι ρ ε α} {next : Except ε α → Prog ι ρ ε β}
    {Q : Except ε β → μ → Prop} :
    (program.attempt >>= next).monitored M state Q ↔
      program.monitored M state fun outcome s => (next outcome).monitored M s Q := by
  rw [monitored_bind, monitored_attempt]

/-- A weaker end. -/
theorem monitored_mono {program : Prog ι ρ ε α} {Q' : Except ε α → μ → Prop}
    (h : program.monitored M state Q) (hQ : ∀ outcome s, Q outcome s → Q' outcome s) :
    program.monitored M state Q' := by
  induction program generalizing state with
  | pure value => exact hQ _ _ h
  | throw error => exact hQ _ _ h
  | call op rest ih => exact fun result hadmits => ih result (h result hadmits)

/-- Ends that agree. -/
theorem monitored_congr {program : Prog ι ρ ε α} {Q' : Except ε α → μ → Prop}
    (hQ : ∀ outcome s, Q outcome s ↔ Q' outcome s) :
    program.monitored M state Q ↔ program.monitored M state Q' :=
  ⟨fun h => monitored_mono h fun outcome s => (hQ outcome s).mp,
    fun h => monitored_mono h fun outcome s => (hQ outcome s).mpr⟩

/-- From a state that no call leaves a program ends in this state. -/
theorem not_monitored_of_absorbing {stuck : μ}
    (hstays : ∀ op result, M.admits stuck op result → M.next stuck op result = stuck)
    (hadmits : ∀ op, ∃ result, M.admits stuck op result) (hQ : ∀ outcome, ¬ Q outcome stuck)
    (program : Prog ι ρ ε α) : ¬ program.monitored M stuck Q := by
  induction program with
  | pure value => exact hQ _
  | throw error => exact hQ _
  | call op rest ih =>
      intro h
      obtain ⟨result, hresult⟩ := hadmits op
      have hrest := h result hresult
      rw [hstays op result hresult] at hrest
      exact ih result hrest

/-- A `try` statement: the handler goes on where the body has thrown, the finalizer after both. -/
theorem monitored_catchFinally {body : Prog ι ρ ε α} {handler : ε → Prog ι ρ ε α}
    {finalizer : Prog ι ρ ε Unit} :
    (catchFinally body handler finalizer).monitored M state Q ↔
      body.monitored M state fun outcome s =>
        (match outcome with
          | .ok value => Prog.pure value
          | .error error => handler error).monitored M s fun handled s' =>
            (finalizer >>= fun _ => resume handled).monitored M s' Q := by
  unfold catchFinally
  rw [monitored_attempt_bind]
  exact monitored_congr fun _ _ => monitored_attempt_bind

end Prog

/-- The sessions keep step with the monitor: a call that may end this way does so as the monitor
admits, and leaves related states. -/
def Monitor.Follows (M : Monitor ι ρ ε μ) (S : System ι ρ ε τ σ) (mayFail : ι → Bool → Prop)
    (rel : τ → μ → Prop) : Prop :=
  ∀ session state op fails world, rel session state → mayFail op fails →
    M.admits state op (S.perform fails op session world).1 ∧
      rel (S.perform fails op session world).2.1
        (M.next state op (S.perform fails op session world).1)

/-- In a run the sessions keep step with the monitor, and what a program has left to do is
monitored. -/
theorem Reach.monitors [DecidableEq θ] {S : System ι ρ ε τ σ}
    {allow : θ → Trace θ ι ρ ε σ → ι → Bool → Prop} {session : τ} {progs : θ → Prog ι ρ ε α}
    {world : σ} {c : Config θ ι ρ ε τ σ α} (h : Reach S allow (Config.start session progs world) c)
    {M : Monitor ι ρ ε μ} {mayFail : ι → Bool → Prop} {rel : τ → μ → Prop}
    (hfollows : M.Follows S mayFail rel)
    (hallow : ∀ tid h op fails, allow tid h op fails → mayFail op fails) {state : μ}
    (hinit : rel session state) {Q : Except ε α → μ → Prop} (i : θ)
    (hprog : (progs i).monitored M state Q) :
    rel (c.threads i).session (M.after state (c.trace.madeBy i)) ∧
      (c.threads i).prog.monitored M (M.after state (c.trace.madeBy i)) Q := by
  induction h with
  | start => exact ⟨hinit, hprog⟩
  | @step c tid fails op rest _ _ hcall hstep ih =>
      obtain ⟨hrel, hleft⟩ := ih
      by_cases hi : i = tid
      · subst hi
        rw [hcall] at hleft
        obtain ⟨hadmits, hrel'⟩ := hfollows _ _ op fails c.trace.world hrel (hallow _ _ _ _ hstep)
        simp only [Config.advance, Function.update_self, Trace.madeBy, Trace.events_snoc,
          List.filter_cons, decide_true, ↓reduceIte]
        exact ⟨hrel', hleft _ hadmits⟩
      · simp only [Config.advance, Function.update_of_ne hi]
        rw [Trace.madeBy_snoc_other _ (Ne.symm hi)]
        exact ⟨hrel, hleft⟩

/-- A program of a run that has ended did so as it is monitored to. -/
theorem Reach.monitored [DecidableEq θ] {S : System ι ρ ε τ σ}
    {allow : θ → Trace θ ι ρ ε σ → ι → Bool → Prop} {session : τ} {progs : θ → Prog ι ρ ε α}
    {world : σ} {c : Config θ ι ρ ε τ σ α} (h : Reach S allow (Config.start session progs world) c)
    {M : Monitor ι ρ ε μ} {mayFail : ι → Bool → Prop} {rel : τ → μ → Prop}
    (hfollows : M.Follows S mayFail rel)
    (hallow : ∀ tid h op fails, allow tid h op fails → mayFail op fails) {state : μ}
    (hinit : rel session state) {Q : Except ε α → μ → Prop} (i : θ)
    (hprog : (progs i).monitored M state Q) {outcome : Except ε α}
    (hended : c.resultOf i = some outcome) : Q outcome (M.after state (c.trace.madeBy i)) := by
  have hleft := (h.monitors hfollows hallow hinit i hprog).2
  unfold Config.resultOf at hended
  split at hended
  · next value hvalue =>
      cases hended
      rwa [hvalue] at hleft
  · next error herror =>
      cases hended
      rwa [herror] at hleft
  · cases hended

/-! ## Staying within bounds -/

/-- The monitor that gives up in a state that is not `ok`. -/
def Monitor.within (M : Monitor ι ρ ε μ) (ok : μ → Bool) : Monitor ι ρ ε (Option μ) where
  next state op result := state.bind fun s => Option.guard ok (M.next s op result)
  admits state op result := ∀ s ∈ state, M.admits s op result

/-- A monitor that has not given up is in an `ok` state. -/
theorem Monitor.after_of_within {M : Monitor ι ρ ε μ} {ok : μ → Bool} {start s : μ}
    (hstart : ok start = true) {events : List (Event θ ι ρ ε σ)}
    (h : (M.within ok).after (some start) events = some s) :
    M.after start events = s ∧ ok s = true := by
  induction events generalizing s with
  | nil =>
      obtain rfl := Option.some.inj h
      exact ⟨rfl, hstart⟩
  | cons event events ih =>
      obtain ⟨earlier, hearlier, hguard⟩ := Option.bind_eq_some_iff.mp h
      obtain ⟨rfl, -⟩ := ih hearlier
      obtain ⟨rfl, hok⟩ := Option.guard_eq_some_iff.mp hguard
      exact ⟨rfl, hok⟩

/-- A program that ends without giving up is in `ok` states all along. -/
theorem Reach.within [DecidableEq θ] [Nonempty ε] {S : System ι ρ ε τ σ}
    {allow : θ → Trace θ ι ρ ε σ → ι → Bool → Prop} {session : τ} {progs : θ → Prog ι ρ ε α}
    {world : σ} {c : Config θ ι ρ ε τ σ α} (h : Reach S allow (Config.start session progs world) c)
    {M : Monitor ι ρ ε μ} {ok : μ → Bool} {mayFail : ι → Bool → Prop} {rel : τ → Option μ → Prop}
    (hfollows : (M.within ok).Follows S mayFail rel)
    (hallow : ∀ tid h op fails, allow tid h op fails → mayFail op fails) {start : μ}
    (hstart : ok start = true) (hinit : rel session (some start)) {Q : Except ε α → Option μ → Prop}
    (hQ : ∀ outcome, ¬ Q outcome none) (i : θ)
    (hprog : (progs i).monitored (M.within ok) (some start) Q) :
    ok (M.after start (c.trace.madeBy i)) = true ∧
      (M.within ok).after (some start) (c.trace.madeBy i) =
        some (M.after start (c.trace.madeBy i)) := by
  obtain ⟨-, hleft⟩ := h.monitors hfollows hallow hinit i hprog
  cases hafter : (M.within ok).after (some start) (c.trace.madeBy i) with
  | none =>
      rw [hafter] at hleft
      refine absurd hleft (Prog.not_monitored_of_absorbing (fun _ _ _ => rfl) (fun op => ?_) hQ _)
      exact ⟨.error (Classical.arbitrary ε), fun s hs => by cases hs⟩
  | some s =>
      obtain ⟨rfl, hok⟩ := Monitor.after_of_within hstart hafter
      exact ⟨hok, rfl⟩

end FoosballApi.Calls
