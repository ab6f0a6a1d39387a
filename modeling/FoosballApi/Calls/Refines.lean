import FoosballApi.Calls.Interleaving
import FoosballApi.Calls.Similar

/-!
# Refinement of systems of calls

Two systems whose calls correspond one to one: a `Translation` says which call of the second stands
for a call of the first, and which of their results stand for one another. A program refines
another when both make corresponding calls as long as the results they receive correspond. If the
first system simulates the second, call by call, then every interleaved run of programs of the first
is a run of the programs they refine, with the same schedule and the same calls failing
(`Reach.refines`).
-/

namespace FoosballApi.Calls

variable {θ ι κ : Type} {ρ : ι → Type} {π : κ → Type} {ε τ σ σ' α β α' β' : Type}

/-- The calls of two systems that stand for one another, and the results that do. -/
structure Translation (ι κ : Type) (ρ : ι → Type) (π : κ → Type) where
  calls : ι → κ → Prop
  results : (op : ι) → (op' : κ) → ρ op → π op' → Prop

/-! ## Programs -/

namespace Prog

/-- Two programs that make corresponding calls while the results correspond. -/
inductive Refines (T : Translation ι κ ρ π) (post : α → β → Prop) :
    Prog ι ρ ε α → Prog κ π ε β → Prop where
  | pure {a : α} {b : β} (related : post a b) : Refines T post (.pure a) (.pure b)
  | throw (error : ε) : Refines T post (.throw error) (.throw error)
  | call {op : ι} {op' : κ} {next : Except ε (ρ op) → Prog ι ρ ε α}
      {next' : Except ε (π op') → Prog κ π ε β} (calls : T.calls op op')
      (value : ∀ a b, T.results op op' a b → Refines T post (next (.ok a)) (next' (.ok b)))
      (error : ∀ error, Refines T post (next (.error error)) (next' (.error error))) :
      Refines T post (.call op next) (.call op' next')

namespace Refines

variable {T : Translation ι κ ρ π} {post : α → β → Prop} {post' : α' → β' → Prop}
  {program : Prog ι ρ ε α} {program' : Prog κ π ε β}

/-- A sequence of programs. -/
theorem bind {next : α → Prog ι ρ ε α'} {next' : β → Prog κ π ε β'}
    (h : Refines T post program program')
    (hnext : ∀ a b, post a b → Refines T post' (next a) (next' b)) :
    Refines T post' (program >>= next) (program' >>= next') := by
  induction h with
  | pure related => exact hnext _ _ related
  | throw error => exact .throw error
  | call calls _ _ value error => exact .call calls value error

/-- A single call. -/
theorem perform {op : ι} {op' : κ} (calls : T.calls op op') :
    Refines T (T.results op op') (Prog.perform op : Prog ι ρ ε (ρ op))
      (Prog.perform op' : Prog κ π ε (π op')) :=
  .call calls (fun _ _ hresult => .pure hresult) fun error => .throw error

/-- A call and what follows it. -/
theorem perform_bind {op : ι} {op' : κ} {next : ρ op → Prog ι ρ ε α'}
    {next' : π op' → Prog κ π ε β'} (calls : T.calls op op')
    (hnext : ∀ a b, T.results op op' a b → Refines T post' (next a) (next' b)) :
    Refines T post' (Prog.perform op >>= next) (Prog.perform op' >>= next') :=
  bind (perform calls) hnext

/-- A guard and what follows it. -/
theorem throwIf_bind {refused : Prop} [Decidable refused] {error : ε}
    {next : Unit → Prog ι ρ ε α'} {next' : Unit → Prog κ π ε β'}
    (hnext : ¬ refused → Refines T post' (next ()) (next' ())) :
    Refines T post' (Prog.throwIf refused error >>= next)
      (Prog.throwIf refused error >>= next') := by
  unfold Prog.throwIf
  split
  · exact .throw error
  · next hgo => exact hnext hgo

/-- Attempted programs. -/
theorem attempt (h : Refines T post program program') :
    Refines T (ExceptRel post) program.attempt program'.attempt := by
  induction h with
  | pure related => exact .pure (.ok related)
  | throw error => exact .pure (.error error)
  | call calls _ _ value error => exact .call calls value error

end Refines

end Prog

/-! ## Runs -/

/-- The first system does what the second does, on related worlds. -/
structure Simulates (T : Translation ι κ ρ π) (R : σ → σ' → Prop) (S : System ι ρ ε τ σ)
    (S' : System κ π ε τ σ') : Prop where
  fault : ∀ {op op'}, T.calls op op' → S.fault op = S'.fault op'
  waits : ∀ {op op'}, T.calls op op' → S.waits op = S'.waits op'
  held : ∀ session, S.held session = S'.held session
  exec : ∀ {op op'} session {w w'}, T.calls op op' → R w w' →
    ExceptRel (T.results op op') (S.exec op session w).1 (S'.exec op' session w').1 ∧
      (S.exec op session w).2.1 = (S'.exec op' session w').2.1 ∧
        R (S.exec op session w).2.2 (S'.exec op' session w').2.2

variable {T : Translation ι κ ρ π} {R : σ → σ' → Prop} {S : System ι ρ ε τ σ}
  {S' : System κ π ε τ σ'}

/-- A call fails in both systems, or is carried out in both. -/
theorem Simulates.perform (h : Simulates T R S S') {op : ι} {op' : κ} (calls : T.calls op op')
    (fails : Bool) (session : τ) {w : σ} {w' : σ'} (hworld : R w w') :
    ExceptRel (T.results op op') (S.perform fails op session w).1
        (S'.perform fails op' session w').1 ∧
      (S.perform fails op session w).2.1 = (S'.perform fails op' session w').2.1 ∧
        R (S.perform fails op session w).2.2 (S'.perform fails op' session w').2.2 := by
  have hexec := h.exec session calls hworld
  cases fails with
  | false => exact hexec
  | true =>
      cases hfault : S.fault op with
      | none =>
          rw [System.perform_of_fault_none hfault,
            System.perform_of_fault_none ((h.fault calls).symm.trans hfault)]
          exact hexec
      | some error =>
          rw [System.perform_true hfault,
            System.perform_true ((h.fault calls).symm.trans hfault)]
          exact ⟨.error error, rfl, hworld⟩

/-- Two calls of one caller that correspond, with their results and the worlds they left. -/
structure Event.Refines (T : Translation ι κ ρ π) (R : σ → σ' → Prop) (e : Event θ ι ρ ε σ)
    (e' : Event θ κ π ε σ') : Prop where
  tid : e.tid = e'.tid
  calls : T.calls e.op e'.op
  results : ExceptRel (T.results e.op e'.op) e.result e'.result
  world : R e.world e'.world

/-- Two pasts whose calls correspond. -/
structure Trace.Refines (T : Translation ι κ ρ π) (R : σ → σ' → Prop) (h : Trace θ ι ρ ε σ)
    (h' : Trace θ κ π ε σ') : Prop where
  init : R h.init h'.init
  events : List.Forall₂ (Event.Refines T R) h.events h'.events

/-- Corresponding pasts end in related worlds. -/
theorem Trace.Refines.world {h : Trace θ ι ρ ε σ} {h' : Trace θ κ π ε σ'}
    (hrefines : Trace.Refines T R h h') : R h.world h'.world := by
  obtain ⟨init, events⟩ := h
  obtain ⟨init', events'⟩ := h'
  obtain ⟨hinit, hevents⟩ := hrefines
  cases hevents with
  | nil => exact hinit
  | cons hevent => exact hevent.world

variable [DecidableEq θ]

/-- Two states of a run that correspond. -/
structure Config.Refines (T : Translation ι κ ρ π) (R : σ → σ' → Prop) (post : θ → α → β → Prop)
    (c : Config θ ι ρ ε τ σ α) (c' : Config θ κ π ε τ σ' β) : Prop where
  trace : c.trace.Refines T R c'.trace
  lock : c.lock = c'.lock
  session : ∀ i, (c.threads i).session = (c'.threads i).session
  prog : ∀ i, (c.threads i).prog.Refines T (post i) (c'.threads i).prog

variable {post : θ → α → β → Prop} {c : Config θ ι ρ ε τ σ α} {c' : Config θ κ π ε τ σ' β}

omit [DecidableEq θ] in
/-- Programs that have ended have corresponding results. -/
theorem Config.Refines.result (h : c.Refines T R post c') {i : θ} {result : Except ε α}
    (hresult : c.resultOf i = some result) :
    ∃ result', c'.resultOf i = some result' ∧ ExceptRel (post i) result result' := by
  have hprog := h.prog i
  unfold Config.resultOf at hresult ⊢
  generalize (c.threads i).prog = prog at hprog hresult
  generalize (c'.threads i).prog = prog' at hprog ⊢
  cases hprog with
  | pure related =>
      cases hresult
      exact ⟨_, rfl, .ok related⟩
  | throw error =>
      cases hresult
      exact ⟨_, rfl, .error error⟩
  | call => cases hresult

/-- A step of the first system is a step of the second. -/
theorem Config.Refines.advance (hsim : Simulates T R S S') (h : c.Refines T R post c') {tid : θ}
    (fails : Bool) {op : ι} {rest : Except ε (ρ op) → Prog ι ρ ε α}
    (hprog : (c.threads tid).prog = .call op rest) :
    ∃ op' rest', T.calls op op' ∧ (c'.threads tid).prog = .call op' rest' ∧
      (c.advance S tid fails op rest).Refines T R post (c'.advance S' tid fails op' rest') := by
  have hown := h.prog tid
  rw [hprog] at hown
  generalize hprog' : (c'.threads tid).prog = prog' at hown
  cases hown with
  | @call _ op' _ rest' calls value error =>
      obtain ⟨hresult, hsession, hworld⟩ :=
        hsim.perform calls fails (c.threads tid).session h.trace.world
      have hrest : ∀ result result', ExceptRel (T.results op op') result result' →
          (rest result).Refines T (post tid) (rest' result') := by
        intro result result' hresult
        cases hresult with
        | ok related => exact value _ _ related
        | error e => exact error e
      refine ⟨op', rest', calls, rfl, ?_⟩
      have hsame := h.session tid
      rw [hsame] at hresult hsession hworld
      constructor
      · refine ⟨h.trace.init, .cons ⟨rfl, calls, ?_, ?_⟩ h.trace.events⟩
        · rw [hsame]
          exact hresult
        · rw [hsame]
          exact hworld
      · simp only [Config.advance, hsame, hsession, hsim.held, h.lock]
      · intro i
        by_cases hi : i = tid
        · subst hi
          simp only [Config.advance, Function.update_self, hsame, hsession]
        · simp only [Config.advance, Function.update_of_ne hi]
          exact h.session i
      · intro i
        by_cases hi : i = tid
        · subst hi
          simp only [Config.advance, Function.update_self, hsame]
          exact hrest _ _ hresult
        · simp only [Config.advance, Function.update_of_ne hi]
          exact h.prog i

/-- Every run of programs that refine others is a run of those, when the first system simulates the
second. -/
theorem Reach.refines (hsim : Simulates T R S S') {session : τ} {progs : θ → Prog ι ρ ε α}
    {progs' : θ → Prog κ π ε β} {world : σ} {world' : σ'} (hworld : R world world')
    (hprogs : ∀ i, (progs i).Refines T (post i) (progs' i))
    {allow : θ → Trace θ ι ρ ε σ → ι → Bool → Prop}
    {allow' : θ → Trace θ κ π ε σ' → κ → Bool → Prop}
    (hallow : ∀ tid h h' op op' fails, Trace.Refines T R h h' → T.calls op op' →
      allow tid h op fails → allow' tid h' op' fails)
    (hreach : Reach S allow (Config.start session progs world) c) :
    ∃ c', Reach S' allow' (Config.start session progs' world') c' ∧ c.Refines T R post c' := by
  induction hreach with
  | start => exact ⟨_, .start, ⟨hworld, .nil⟩, rfl, fun _ => rfl, hprogs⟩
  | @step c tid fails op rest _ hmay hprog hallowed ih =>
      obtain ⟨c', hreach', hrefines⟩ := ih
      obtain ⟨op', rest', calls, hprog', hnext⟩ := hrefines.advance hsim fails hprog
      refine ⟨_, .step hreach' ?_ hprog' (hallow _ _ _ _ _ _ hrefines.trace calls hallowed), hnext⟩
      unfold Config.MayIssue at hmay ⊢
      rwa [← hrefines.lock, ← hsim.waits calls]

end FoosballApi.Calls
