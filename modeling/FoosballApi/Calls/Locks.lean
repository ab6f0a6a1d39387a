import FoosballApi.Calls.Monitor
import FoosballApi.Calls.Projection
import Mathlib.Data.List.Forall2

/-!
# Locks on keys

The calls of a program may lock keys, such as the rows of a table, and wait for keys that others
have locked. `Locks` reads off the calls of one program, with a monitor, which keys it holds. So
whether a call has to wait is a condition on the trace, and a run under locks is one whose steps
meet it.

If a call waits for the keys it takes, each key has one holder (`Locks.holder_unique`). What a
program has locked depends on its own calls alone, so that the locks do not care for programs that
are left out of a run (`Locks.admits_of_alike`). And if every program needs at most one key and
frees it before it ends, then nothing is ever stuck: the holder of a key can be run to its end, and
then whoever waits for it (`Locks.finish`).
-/

namespace FoosballApi.Calls

variable {θ ι : Type} {ρ : ι → Type} {ε κ μ τ σ α : Type}

/-- The state after a call depends on whether the call has failed, not on its value. -/
def Monitor.Blind (M : Monitor ι ρ ε μ) : Prop :=
  ∀ state op value value', M.next state op (.ok value) = M.next state op (.ok value')

/-- Exclusive locks on keys `κ`, over a monitor of the calls that take and free them. -/
structure Locks (M : Monitor ι ρ ε μ) (κ : Type) where
  /-- The state of a program that has made no call. -/
  init : μ
  /-- The program holds the key. -/
  held : μ → κ → Prop
  /-- The call waits while another program holds the key. -/
  waits : ι → κ → Prop
  init_free : ∀ key, ¬ held init key
  /-- A call that goes through may take the keys it has waited for. -/
  taken : ∀ {state op result key}, held (M.next state op result) key →
    held state key ∨ waits op key ∧ ∃ value, result = .ok value

namespace Locks

variable [DecidableEq θ] {M : Monitor ι ρ ε μ} (L : Locks M κ) {S : System ι ρ ε τ σ}
  {allow : θ → Trace θ ι ρ ε σ → ι → Bool → Prop} {h h' : Trace θ ι ρ ε σ} {i j : θ} {key : κ}

/-- The state of a program after its calls. -/
def state (h : Trace θ ι ρ ε σ) (i : θ) : μ := M.after L.init (h.madeBy i)

/-- The program holds the key. -/
def Holds (h : Trace θ ι ρ ε σ) (i : θ) (key : κ) : Prop := L.held (L.state h i) key

/-- Nobody else holds a key that the call waits for. -/
def Free (i : θ) (h : Trace θ ι ρ ε σ) (op : ι) : Prop :=
  ∀ key, L.waits op key → ∀ j, L.Holds h j key → j = i

/-- A call may be made: it need not wait, or it fails. -/
def Admits (i : θ) (h : Trace θ ι ρ ε σ) (op : ι) (fails : Bool) : Prop :=
  fails = true ∨ L.Free i h op

theorem state_snoc_self {event : Event θ ι ρ ε σ} (htid : event.tid = i) :
    L.state (h.snoc event) i = M.next (L.state h i) event.op event.result := by
  simp [state, Trace.madeBy, Monitor.after, htid]

theorem state_snoc_other {event : Event θ ι ρ ε σ} (htid : event.tid ≠ i) :
    L.state (h.snoc event) i = L.state h i := by
  rw [state, Trace.madeBy_snoc_other h htid, state]

theorem not_holds_of_madeBy (hnone : h.madeBy i = []) : ¬ L.Holds h i key := by
  rw [Holds, state, hnone]
  exact L.init_free key

/-- Whoever holds a key after a call held it before, or has made this call and waited for the
key. -/
theorem holds_snoc {event : Event θ ι ρ ε σ} (hholds : L.Holds (h.snoc event) i key) :
    L.Holds h i key ∨
      event.tid = i ∧ L.waits event.op key ∧ ∃ value, event.result = .ok value := by
  by_cases htid : event.tid = i
  · rw [Holds, L.state_snoc_self htid] at hholds
    exact (L.taken hholds).imp_right fun htaken => ⟨htid, htaken⟩
  · rw [Holds, L.state_snoc_other htid] at hholds
    exact .inl hholds

/-- A key has one holder. -/
theorem holder_unique (hallow : ∀ {i h op fails}, allow i h op fails → L.Admits i h op fails)
    (hfault : ∀ {op key}, L.waits op key → ∃ error, S.fault op = some error) {session : τ}
    {progs : θ → Prog ι ρ ε α} {world : σ} {c : Config θ ι ρ ε τ σ α}
    (hreach : Reach S allow (Config.start session progs world) c) (hi : L.Holds c.trace i key)
    (hj : L.Holds c.trace j key) : i = j := by
  induction hreach with
  | start => exact absurd hi (L.init_free key)
  | @step c tid fails op rest _ _ _ hstep ih =>
      -- A call that has taken the key did not fail, so nobody else held the key before it.
      have hfree : ∀ {k}, L.waits op key →
          (∃ value, (S.perform fails op (c.threads tid).session c.trace.world).1 = .ok value) →
            L.Holds c.trace k key → k = tid := by
        intro k hwaits ⟨value, hok⟩ hk
        rcases hallow hstep with rfl | hfree
        · obtain ⟨error, herror⟩ := hfault hwaits
          rw [System.perform_true herror] at hok
          cases hok
        · exact hfree key hwaits k hk
      rcases L.holds_snoc hi with hi | ⟨rfl, hwaits, hok⟩ <;>
        rcases L.holds_snoc hj with hj | ⟨rfl, hwaits', hok'⟩
      · exact ih hi hj
      · exact hfree hwaits' hok' hi
      · exact (hfree hwaits hok hj).symm
      · rfl

/-! ## Without the others -/

variable {own : θ → Bool} {likeness : θ → Likeness ι ρ}

omit [DecidableEq θ] in
/-- Calls that are alike leave the monitor in the same state. -/
theorem after_of_alike (hblind : M.Blind) (start : μ) {events events' : List (Event θ ι ρ ε σ)}
    (halike : List.Forall₂ (Event.Alike likeness) events events') :
    M.after start events = M.after start events' := by
  induction halike with
  | nil => rfl
  | @cons event event' events events' hevent _ ih =>
      cases hevent with
      | @intro tid op result result' _ _ hresult =>
          show M.next (M.after start events) op result = M.next (M.after start events') op result'
          rw [ih]
          cases hresult with
          | ok related => exact hblind _ _ _ _
          | error error => rfl

/-- The calls of a program among the own ones are those it makes without the others. -/
theorem madeBy_of_alike (i : θ)
    (halike : List.Forall₂ (Event.Alike likeness) (h.events.filter fun e => own e.tid) h'.events) :
    List.Forall₂ (Event.Alike likeness) ((h.madeBy i).filter fun e => own e.tid)
      (h'.madeBy i) := by
  have hswap : (h.madeBy i).filter (fun e => own e.tid) =
      (h.events.filter fun e => own e.tid).filter (·.tid = i) := by
    rw [Trace.madeBy, List.filter_filter, List.filter_filter]
    exact List.filter_congr fun e _ => Bool.and_comm _ _
  rw [hswap]
  refine List.rel_filter (fun e e' he => ?_) halike
  cases he with
  | intro _ => exact Iff.rfl

theorem own_of_mem_madeBy {e : Event θ ι ρ ε σ} (he : e ∈ h.madeBy i) : own e.tid = own i := by
  have htid : e.tid = i := of_decide_eq_true (List.mem_filter.mp he).2
  rw [htid]

/-- A call that may be made may be made without the others. -/
theorem admits_of_alike (hblind : M.Blind) (own : θ → Bool)
    (halike : List.Forall₂ (Event.Alike likeness) (h.events.filter fun e => own e.tid) h'.events)
    {op : ι} {fails : Bool} (hadmits : L.Admits i h op fails) : L.Admits i h' op fails := by
  refine hadmits.imp_right fun hfree key hwaits j hholds => ?_
  have hmade := madeBy_of_alike j halike
  cases hj : own j with
  | true =>
      rw [List.filter_eq_self.mpr fun e he => (own_of_mem_madeBy he).trans hj] at hmade
      refine hfree key hwaits j ?_
      rwa [Holds, state, after_of_alike hblind L.init hmade]
  | false =>
      rw [List.filter_eq_nil_iff.mpr fun e he => by simp [own_of_mem_madeBy he, hj]] at hmade
      exact absurd hholds (L.not_holds_of_madeBy (List.forall₂_nil_left_iff.mp hmade))

end Locks

/-! ## Programs that end -/

section

variable {c c' : Config θ ι ρ ε τ σ α} {i : θ}

/-- The program has ended. -/
def Config.Ended (c : Config θ ι ρ ε τ σ α) (i : θ) : Prop := ∃ result, c.resultOf i = some result

/-- Whether a program has ended depends on its thread alone. -/
theorem Config.Ended.of_threads (hended : c.Ended i) (hsame : c'.threads i = c.threads i) :
    c'.Ended i := by
  obtain ⟨result, hresult⟩ := hended
  refine ⟨result, ?_⟩
  unfold Config.resultOf at hresult ⊢
  rw [hsame]
  exact hresult

end

variable [DecidableEq θ] {M : Monitor ι ρ ε μ} {S : System ι ρ ε τ σ}
  {allow : θ → Trace θ ι ρ ε σ → ι → Bool → Prop} {c₀ c c' c'' : Config θ ι ρ ε τ σ α} {i : θ}

/-- When no session is exclusive, nobody waits for one. -/
theorem Reach.lock_eq_none (hheld : ∀ session, S.held session = false) {session : τ}
    {progs : θ → Prog ι ρ ε α} {world : σ}
    (hreach : Reach S allow (Config.start session progs world) c) : c.lock = none := by
  induction hreach with
  | start => rfl
  | step _ _ _ _ ih => simp [Config.advance, hheld, ih]

/-- A run goes on: those that had ended have ended, and so has everybody who has made a call
since. -/
structure Continues (S : System ι ρ ε τ σ) (allow : θ → Trace θ ι ρ ε σ → ι → Bool → Prop)
    (c₀ c c' : Config θ ι ρ ε τ σ α) : Prop where
  reach : Reach S allow c₀ c'
  past : Trace.Past c.trace c'.trace
  ended : ∀ i, c.Ended i → c'.Ended i
  moved : ∀ i, c'.trace.madeBy i = c.trace.madeBy i ∨ c'.Ended i

theorem Continues.refl (hreach : Reach S allow c₀ c) : Continues S allow c₀ c c :=
  ⟨hreach, .refl _, fun _ => id, fun _ => .inl rfl⟩

theorem Continues.trans (h : Continues S allow c₀ c c') (h' : Continues S allow c₀ c' c'') :
    Continues S allow c₀ c c'' := by
  refine ⟨h'.reach, h.past.trans h'.past, fun i hi => h'.ended i (h.ended i hi), fun i => ?_⟩
  rcases h'.moved i with hsame | hended
  · rcases h.moved i with hsame' | hended
    · exact .inl (hsame.trans hsame')
    · exact .inr (h'.ended i hended)
  · exact .inr hended

/-- Every program needs one key at most, and has freed it when it ends; a call that need not wait
may be made without failing. -/
structure Locks.OneKey (L : Locks M κ) (S : System ι ρ ε τ σ)
    (allow : θ → Trace θ ι ρ ε σ → ι → Bool → Prop) (c₀ : Config θ ι ρ ε τ σ α)
    (target : θ → Option κ) : Prop where
  start : ∀ i, c₀.trace.madeBy i = []
  lock : ∀ {c}, Reach S allow c₀ c → c.lock = none
  free : ∀ {i h op}, L.Free i h op → allow i h op false
  unique : ∀ {c i j key}, Reach S allow c₀ c → L.Holds c.trace i key → L.Holds c.trace j key →
    i = j
  needs : ∀ {c i op rest}, Reach S allow c₀ c → (c.threads i).prog = .call op rest →
    ∀ key, L.waits op key → target i = some key
  ended : ∀ {c i key}, Reach S allow c₀ c → c.Ended i → ¬ L.Holds c.trace i key

namespace Locks.OneKey

variable {L : Locks M κ} {target : θ → Option κ} {key : κ}

/-- A program holds no key but the one it needs. -/
theorem target_of_holds (h : L.OneKey S allow c₀ target) (hreach : Reach S allow c₀ c)
    (hholds : L.Holds c.trace i key) : target i = some key := by
  induction hreach with
  | start => exact absurd hholds (L.not_holds_of_madeBy (h.start i))
  | @step c tid fails op rest hbefore _ hprog _ ih =>
      rcases L.holds_snoc hholds with hholds | ⟨rfl, hwaits, -⟩
      · exact ih hholds
      · exact h.needs hbefore hprog key hwaits

/-- A program whose key nobody else holds can be run to its end. -/
theorem run_to_end (h : L.OneKey S allow c₀ target) (hreach : Reach S allow c₀ c)
    (hfree : ∀ key, target i = some key → ∀ j, L.Holds c.trace j key → j = i) :
    ∃ c', Continues S allow c₀ c c' ∧ c'.Ended i ∧
      ∀ j, j ≠ i → c'.trace.madeBy j = c.trace.madeBy j := by
  generalize hprog : (c.threads i).prog = program
  induction program generalizing c with
  | pure value =>
      refine ⟨c, .refl hreach, ⟨.ok value, ?_⟩, fun _ _ => rfl⟩
      unfold Config.resultOf
      rw [hprog]
  | throw error =>
      refine ⟨c, .refl hreach, ⟨.error error, ?_⟩, fun _ _ => rfl⟩
      unfold Config.resultOf
      rw [hprog]
  | call op rest ih =>
      have hnext : Reach S allow c₀ (c.advance S i false op rest) :=
        hreach.step (.inl (h.lock hreach)) hprog
          (h.free fun key hwaits j hj => hfree key (h.needs hreach hprog key hwaits) j hj)
      have hfree' : ∀ key, target i = some key →
          ∀ j, L.Holds (c.advance S i false op rest).trace j key → j = i := by
        intro key htarget j hj
        rcases L.holds_snoc hj with hj | ⟨htid, -⟩
        · exact hfree key htarget j hj
        · exact htid.symm
      have hleft : ((c.advance S i false op rest).threads i).prog =
          rest (S.perform false op (c.threads i).session c.trace.world).1 := by
        simp only [Config.advance, Function.update_self]
      obtain ⟨c', hcontinues, hended, hothers⟩ := ih _ hnext hfree' hleft
      have hothers' : ∀ j, j ≠ i → c'.trace.madeBy j = c.trace.madeBy j := fun j hj =>
        (hothers j hj).trans (Trace.madeBy_snoc_other c.trace (Ne.symm hj))
      refine ⟨c', ⟨hcontinues.reach, (Trace.past_snoc _ _).trans hcontinues.past, fun j hj => ?_,
        fun j => ?_⟩, hended, hothers'⟩
      · by_cases hji : j = i
        · rw [hji]
          exact hended
        · exact hcontinues.ended j (hj.of_threads (Function.update_of_ne hji _ _))
      · by_cases hji : j = i
        · rw [hji]
          exact .inr hended
        · exact .inl (hothers' j hji)

/-- Any program can be run to its end, if need be after the one that holds its key. -/
theorem end_one (h : L.OneKey S allow c₀ target) (hreach : Reach S allow c₀ c) (i : θ) :
    ∃ c', Continues S allow c₀ c c' ∧ c'.Ended i := by
  by_cases hfree : ∀ key, target i = some key → ∀ j, L.Holds c.trace j key → j = i
  · obtain ⟨c', hcontinues, hended, -⟩ := h.run_to_end hreach hfree
    exact ⟨c', hcontinues, hended⟩
  · simp only [not_forall] at hfree
    obtain ⟨key, htarget, j, hholder, -⟩ := hfree
    have hneeds := h.target_of_holds hreach hholder
    obtain ⟨c₁, hcontinues₁, hended₁, hothers⟩ := h.run_to_end (i := j) hreach
      fun key' htarget' k hk => by
        obtain rfl : key = key' := Option.some.inj (hneeds.symm.trans htarget')
        exact h.unique hreach hk hholder
    -- The holder has freed the key, and nobody else has taken it since.
    obtain ⟨c₂, hcontinues₂, hended₂, -⟩ := h.run_to_end (i := i) hcontinues₁.reach
      fun key' htarget' k hk => by
        obtain rfl : key = key' := Option.some.inj (htarget.symm.trans htarget')
        have hkj : k ≠ j := fun heq => h.ended hcontinues₁.reach hended₁ (heq ▸ hk)
        rw [Locks.Holds, Locks.state, hothers k hkj] at hk
        exact absurd (h.unique hreach hk hholder) hkj
    exact ⟨c₂, hcontinues₁.trans hcontinues₂, hended₂⟩

/-- Given programs can be run to their ends. -/
theorem end_all (h : L.OneKey S allow c₀ target) (hreach : Reach S allow c₀ c)
    (programs : List θ) : ∃ c', Continues S allow c₀ c c' ∧ ∀ i ∈ programs, c'.Ended i := by
  induction programs generalizing c with
  | nil => exact ⟨c, .refl hreach, fun i hi => absurd hi List.not_mem_nil⟩
  | cons i programs ih =>
      obtain ⟨c₁, hcontinues₁, hended₁⟩ := h.end_one hreach i
      obtain ⟨c₂, hcontinues₂, hended₂⟩ := ih hcontinues₁.reach
      refine ⟨c₂, hcontinues₁.trans hcontinues₂, fun j hj => ?_⟩
      rcases List.mem_cons.mp hj with rfl | hj
      · exact hcontinues₂.ended j hended₁
      · exact hended₂ j hj

/-- Nothing is ever stuck: every run can be continued until given programs have ended and nobody
holds a key. -/
theorem finish (h : L.OneKey S allow c₀ target) (hreach : Reach S allow c₀ c)
    (programs : List θ) :
    ∃ c', Reach S allow c₀ c' ∧ Trace.Past c.trace c'.trace ∧
      (∀ i key, ¬ L.Holds c'.trace i key) ∧ ∀ i ∈ programs, c'.Ended i := by
  -- Whoever holds a key has made a call.
  obtain ⟨c', hcontinues, hended⟩ :=
    h.end_all hreach (programs ++ c.trace.events.map (·.tid))
  refine ⟨c', hcontinues.reach, hcontinues.past, fun i key hholds => ?_,
    fun i hi => hended i (List.mem_append_left _ hi)⟩
  rcases hcontinues.moved i with hsame | hi
  · cases hmade : c.trace.madeBy i with
    | nil => exact L.not_holds_of_madeBy (hsame.trans hmade) hholds
    | cons e earlier =>
        have he : e ∈ c.trace.madeBy i := hmade ▸ List.mem_cons_self
        obtain ⟨hmem, htid⟩ := List.mem_filter.mp he
        refine h.ended hcontinues.reach (hended i (List.mem_append_right _ ?_)) hholds
        exact List.mem_map.mpr ⟨e, hmem, of_decide_eq_true htid⟩
  · exact h.ended hcontinues.reach hi hholds

end Locks.OneKey

end FoosballApi.Calls
