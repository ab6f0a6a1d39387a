import FoosballApi.Calls.Sequential
import Mathlib.Data.List.Basic

/-!
# Interleaved programs

Many programs, one for each `θ`, run against one world. A step lets one of them issue its next
call, which is atomic; while a program's session holds the lock, the others cannot issue a call
that waits for it. When every call waits, everything a program does under the lock is one atomic
section. The past of a run is kept as a `Trace`: the initial world and every call made, by whom,
with its result and the world it left.

`Reach` are the configurations of the runs whose steps satisfy `allow`, a condition on the trace
so far, the caller and the call it is about to make. `execute` replays a schedule under a decidable
condition, so that a concrete run can be computed.
-/

namespace FoosballApi.Calls

/-- One call of a run: who made it, what it returned, and the world right after it. -/
structure Event (θ ι : Type) (ρ : ι → Type) (ε σ : Type) where
  tid : θ
  op : ι
  result : Except ε (ρ op)
  world : σ

/-- The past of a run: its initial world and its calls, latest first. -/
structure Trace (θ ι : Type) (ρ : ι → Type) (ε σ : Type) where
  init : σ
  events : List (Event θ ι ρ ε σ)

variable {θ ι : Type} {ρ : ι → Type} {ε τ σ α : Type}

namespace Trace

/-- The world a trace ends in. -/
def world (h : Trace θ ι ρ ε σ) : σ :=
  match h.events with
  | [] => h.init
  | last :: _ => last.world

/-- The trace after one more call. -/
def snoc (h : Trace θ ι ρ ε σ) (event : Event θ ι ρ ε σ) : Trace θ ι ρ ε σ :=
  { h with events := event :: h.events }

@[simp] theorem world_snoc (h : Trace θ ι ρ ε σ) (event : Event θ ι ρ ε σ) :
    (h.snoc event).world = event.world := rfl

@[simp] theorem init_snoc (h : Trace θ ι ρ ε σ) (event : Event θ ι ρ ε σ) :
    (h.snoc event).init = h.init := rfl

@[simp] theorem events_snoc (h : Trace θ ι ρ ε σ) (event : Event θ ι ρ ε σ) :
    (h.snoc event).events = event :: h.events := rfl

@[simp] theorem world_nil (world : σ) :
    (⟨world, []⟩ : Trace θ ι ρ ε σ).world = world := rfl

/-- `P` holds of every call of the trace and of the trace before it. -/
def Steps (P : Trace θ ι ρ ε σ → Event θ ι ρ ε σ → Prop) (h : Trace θ ι ρ ε σ) : Prop :=
  ∀ later event earlier, h.events = later ++ event :: earlier → P ⟨h.init, earlier⟩ event

/-- Nothing has happened in an empty trace. -/
theorem steps_nil (P : Trace θ ι ρ ε σ → Event θ ι ρ ε σ → Prop) (world : σ) :
    Steps P ⟨world, []⟩ := by
  intro later event earlier h
  simp at h

/-- A step property holds of a longer trace when it holds of the shorter one and of the new
call. -/
theorem steps_snoc {P : Trace θ ι ρ ε σ → Event θ ι ρ ε σ → Prop} {h : Trace θ ι ρ ε σ}
    {event : Event θ ι ρ ε σ} : Steps P (h.snoc event) ↔ P h event ∧ Steps P h := by
  constructor
  · intro hsteps
    refine ⟨hsteps [] event h.events rfl, fun later e earlier he => ?_⟩
    exact hsteps (event :: later) e earlier (by simp [he])
  · rintro ⟨hlast, hsteps⟩ later e earlier he
    cases later with
    | nil =>
        simp only [events_snoc, List.nil_append, List.cons.injEq] at he
        obtain ⟨rfl, rfl⟩ := he
        exact hlast
    | cons first later =>
        simp only [events_snoc, List.cons_append, List.cons.injEq] at he
        exact hsteps later e earlier he.2

/-- Step properties are monotone. -/
theorem Steps.mono {P Q : Trace θ ι ρ ε σ → Event θ ι ρ ε σ → Prop} {h : Trace θ ι ρ ε σ}
    (hsteps : Steps P h) (hPQ : ∀ h e, P h e → Q h e) : Steps Q h :=
  fun later event earlier he => hPQ _ _ (hsteps later event earlier he)

/-- `h₀` is an initial part of `h`. -/
def Past (h₀ h : Trace θ ι ρ ε σ) : Prop := h₀.init = h.init ∧ h₀.events <:+ h.events

theorem Past.refl (h : Trace θ ι ρ ε σ) : Past h h := ⟨rfl, List.suffix_refl _⟩

theorem past_init (h : Trace θ ι ρ ε σ) : Past ⟨h.init, []⟩ h := ⟨rfl, List.nil_suffix⟩

theorem Past.trans {h₀ h₁ h₂ : Trace θ ι ρ ε σ} (h01 : Past h₀ h₁) (h12 : Past h₁ h₂) :
    Past h₀ h₂ := ⟨h01.1.trans h12.1, h01.2.trans h12.2⟩

theorem past_snoc (h : Trace θ ι ρ ε σ) (event : Event θ ι ρ ε σ) : Past h (h.snoc event) :=
  ⟨rfl, List.suffix_cons _ _⟩

theorem Past.snoc {h₀ h : Trace θ ι ρ ε σ} {event : Event θ ι ρ ε σ} (hpast : Past h₀ h) :
    Past h₀ (h.snoc event) := hpast.trans (past_snoc _ _)

/-- A past of a trace with one more call is that trace, or a past of the shorter one. -/
theorem Past.of_snoc {h₀ h : Trace θ ι ρ ε σ} {event : Event θ ι ρ ε σ}
    (hpast : Past h₀ (h.snoc event)) : h₀ = h.snoc event ∨ Past h₀ h := by
  obtain ⟨init, events⟩ := h₀
  obtain ⟨rfl, hevents⟩ := hpast
  rcases List.suffix_cons_iff.mp hevents with rfl | hsuffix
  · exact .inl rfl
  · exact .inr ⟨rfl, hsuffix⟩

/-- An empty trace is its only past. -/
theorem Past.of_nil {h₀ : Trace θ ι ρ ε σ} {world : σ} (hpast : Past h₀ ⟨world, []⟩) :
    h₀ = ⟨world, []⟩ := by
  obtain ⟨init, events⟩ := h₀
  obtain ⟨rfl, hevents⟩ := hpast
  obtain rfl := List.suffix_nil.mp hevents
  rfl

/-- The pasts of a trace are pasts of one another. -/
theorem Past.total {h₀ h₁ h : Trace θ ι ρ ε σ} (h0 : Past h₀ h) (h1 : Past h₁ h) :
    Past h₀ h₁ ∨ Past h₁ h₀ := by
  rcases List.suffix_or_suffix_of_suffix h0.2 h1.2 with hle | hle
  · exact .inl ⟨h0.1.trans h1.1.symm, hle⟩
  · exact .inr ⟨h1.1.trans h0.1.symm, hle⟩

/-- A step property of a trace holds of its past. -/
theorem Steps.past {P : Trace θ ι ρ ε σ → Event θ ι ρ ε σ → Prop} {h₀ h : Trace θ ι ρ ε σ}
    (hsteps : Steps P h) (hpast : Past h₀ h) : Steps P h₀ := by
  intro later event earlier he
  obtain ⟨hinit, more, hmore⟩ := hpast
  rw [hinit]
  exact hsteps (more ++ later) event earlier (by rw [← hmore, he, List.append_assoc])

/-- A step property holds of every call a past of the trace ends in. -/
theorem Steps.of_past {P : Trace θ ι ρ ε σ → Event θ ι ρ ε σ → Prop} {h₀ h : Trace θ ι ρ ε σ}
    {event : Event θ ι ρ ε σ} (hsteps : Steps P h) (hpast : Past (h₀.snoc event) h) :
    P h₀ event := (steps_snoc.mp (hsteps.past hpast)).1

/-- What holds of a later world and not of an earlier one was brought about by a call between
them. -/
theorem Past.exists_step {P : σ → Prop} {h₀ h : Trace θ ι ρ ε σ} (hpast : Past h₀ h)
    (hfalse : ¬ P h₀.world) (htrue : P h.world) :
    ∃ h₁ event, Past h₀ h₁ ∧ Past (h₁.snoc event) h ∧ ¬ P h₁.world ∧ P event.world := by
  obtain ⟨init, events⟩ := h
  induction events with
  | nil =>
      obtain rfl := hpast.of_nil
      exact absurd htrue hfalse
  | cons event earlier ih =>
      change Past h₀ (Trace.snoc ⟨init, earlier⟩ event) at hpast
      rcases hpast.of_snoc with rfl | hpast
      · exact absurd htrue hfalse
      · by_cases hearlier : P (world ⟨init, earlier⟩)
        · obtain ⟨h₁, e, hpast₁, hpast₂, hstep⟩ := ih hpast hearlier
          exact ⟨h₁, e, hpast₁, hpast₂.snoc, hstep⟩
        · exact ⟨⟨init, earlier⟩, event, hpast, .refl _, hearlier, htrue⟩

/-- What holds of the worlds of all calls since `event` holds of every trace between. -/
theorem Past.between {P : σ → Prop} {h₀ h₁ h : Trace θ ι ρ ε σ} {event : Event θ ι ρ ε σ}
    {newer : List (Event θ ι ρ ε σ)} (he : h.events = newer ++ event :: h₀.events)
    (hnewer : ∀ e ∈ newer, P e.world) (hevent : P event.world)
    (hpast₀ : Past (h₀.snoc event) h₁) (hpast₁ : Past h₁ h) : P h₁.world := by
  obtain ⟨init, events⟩ := h₁
  obtain ⟨_, first, rfl⟩ := hpast₀
  obtain ⟨_, second, hsecond⟩ := hpast₁
  have hsplit : second ++ first = newer := by
    refine List.append_cancel_right (?_ : _ ++ event :: h₀.events = _ ++ event :: h₀.events)
    rw [List.append_assoc, ← he]
    exact hsecond
  cases first with
  | nil => exact hevent
  | cons e first => exact hnewer e (hsplit ▸ List.mem_append_right _ List.mem_cons_self)

/-- Induction along a trace: what the first world has and every call of the trace keeps, every
past of the trace has. -/
theorem Steps.induction {P : Trace θ ι ρ ε σ → Event θ ι ρ ε σ → Prop}
    {Inv : Trace θ ι ρ ε σ → Prop} {h : Trace θ ι ρ ε σ} (hsteps : Steps P h)
    (hinit : Inv ⟨h.init, []⟩)
    (hstep : ∀ h₀ e, h₀.init = h.init → Steps P h₀ → Inv h₀ → P h₀ e → Inv (h₀.snoc e)) :
    Inv h := by
  obtain ⟨init, events⟩ := h
  induction events with
  | nil => exact hinit
  | cons event earlier ih =>
      have hsnoc : Steps P (snoc ⟨init, earlier⟩ event) := hsteps
      obtain ⟨hlast, hearlier⟩ := steps_snoc.mp hsnoc
      exact hstep ⟨init, earlier⟩ event rfl hearlier (ih hearlier hinit hstep) hlast

/-- What precedes a call of a trace is a past of it. -/
theorem past_of_events {h : Trace θ ι ρ ε σ} {later : List (Event θ ι ρ ε σ)}
    {event : Event θ ι ρ ε σ} {earlier : List (Event θ ι ρ ε σ)}
    (he : h.events = later ++ event :: earlier) : Past ⟨h.init, earlier⟩ h :=
  ⟨rfl, later ++ [event], by simp [he]⟩

/-- The trace without its last calls. -/
def before (h : Trace θ ι ρ ε σ) (calls : Nat) : Trace θ ι ρ ε σ :=
  ⟨h.init, h.events.drop calls⟩

theorem past_before (h : Trace θ ι ρ ε σ) (calls : Nat) : Past (h.before calls) h :=
  ⟨rfl, List.drop_suffix calls h.events⟩

/-- What precedes a call that was made, and that call, are a past of the trace. -/
theorem past_of_mem {h : Trace θ ι ρ ε σ} {event : Event θ ι ρ ε σ} (he : event ∈ h.events) :
    ∃ h₀ : Trace θ ι ρ ε σ, Past (h₀.snoc event) h := by
  obtain ⟨later, earlier, hsplit⟩ := List.append_of_mem he
  exact ⟨⟨h.init, earlier⟩, rfl, later, hsplit.symm⟩

/-- What a past of the trace has and every later call keeps, the trace has. -/
theorem Steps.since {P : Trace θ ι ρ ε σ → Event θ ι ρ ε σ → Prop}
    {I : Trace θ ι ρ ε σ → Prop} {h₀ h : Trace θ ι ρ ε σ} (hsteps : Steps P h)
    (hpast : Past h₀ h) (hinit : I h₀) (hstep : ∀ h₁ e, I h₁ → P h₁ e → I (h₁.snoc e)) :
    I h := by
  obtain ⟨init, events⟩ := h
  induction events with
  | nil => rwa [← hpast.of_nil]
  | cons event earlier ih =>
      change Steps P (Trace.snoc ⟨init, earlier⟩ event) at hsteps
      change Past h₀ (Trace.snoc ⟨init, earlier⟩ event) at hpast
      obtain ⟨hlast, hearlier⟩ := steps_snoc.mp hsteps
      rcases hpast.of_snoc with rfl | hpast
      · exact hinit
      · exact hstep _ _ (ih hearlier hpast) hlast

/-- What every call relates, its reflexive and transitive closure included, holds between any past
world and the last one. -/
theorem Steps.related {R : σ → σ → Prop} (hrefl : ∀ w, R w w)
    (htrans : ∀ w w' w'', R w w' → R w' w'' → R w w'') {h₀ h : Trace θ ι ρ ε σ}
    (hsteps : Steps (fun h e => R h.world e.world) h) (hpast : Past h₀ h) :
    R h₀.world h.world := by
  obtain ⟨init, events⟩ := h
  induction events with
  | nil =>
      obtain rfl := hpast.of_nil
      exact hrefl _
  | cons event earlier ih =>
      change Steps _ (Trace.snoc ⟨init, earlier⟩ event) at hsteps
      change Past h₀ (Trace.snoc ⟨init, earlier⟩ event) at hpast
      obtain ⟨hlast, hearlier⟩ := steps_snoc.mp hsteps
      rcases hpast.of_snoc with rfl | hpast
      · exact hrefl _
      · exact htrans _ _ _ (ih hearlier hpast) hlast

/-- What an invariant of the trace adds to what is known of every call. -/
theorem Steps.strengthen {P Q : Trace θ ι ρ ε σ → Event θ ι ρ ε σ → Prop}
    {Inv : Trace θ ι ρ ε σ → Prop} {h : Trace θ ι ρ ε σ} (hsteps : Steps P h)
    (hinit : Inv ⟨h.init, []⟩)
    (hstep : ∀ h₀ e, h₀.init = h.init → Steps P h₀ → Inv h₀ → P h₀ e → Inv (h₀.snoc e))
    (hQ : ∀ h₀ e, Steps P h₀ → Inv h₀ → P h₀ e → Q h₀ e) : Steps Q h := by
  intro later event earlier he
  have hearlier := hsteps.past (past_of_events he)
  exact hQ _ _ hearlier (hearlier.induction hinit hstep) (hsteps later event earlier he)

/-- The calls one program has made, latest first. -/
def madeBy [DecidableEq θ] (h : Trace θ ι ρ ε σ) (tid : θ) : List (Event θ ι ρ ε σ) :=
  h.events.filter (·.tid = tid)

theorem madeBy_snoc_other [DecidableEq θ] (h : Trace θ ι ρ ε σ) {event : Event θ ι ρ ε σ} {tid : θ}
    (htid : event.tid ≠ tid) : (h.snoc event).madeBy tid = h.madeBy tid := by
  simp [madeBy, htid]

/-- What the calls of one program add up to: `add` takes each into account, from the world before
it. -/
def tally [DecidableEq θ] {γ : Type} (add : σ → Event θ ι ρ ε σ → γ → γ) (zero : γ) (tid : θ)
    (init : σ) : List (Event θ ι ρ ε σ) → γ
  | [] => zero
  | event :: earlier =>
      let sum := tally add zero tid init earlier
      if event.tid = tid then add (world ⟨init, earlier⟩) event sum else sum

end Trace

/-! ## Configurations -/

-- The numerals of `Fin n`, which number the programs of a small run.
instance neZeroTwo : @NeZero Nat .ofOfNat0 2 := ⟨by decide⟩
instance neZeroThree : @NeZero Nat .ofOfNat0 3 := ⟨by decide⟩
instance neZeroFour : @NeZero Nat .ofOfNat0 4 := ⟨by decide⟩

/-- A program in progress, with its private session. -/
structure Thread (ι : Type) (ρ : ι → Type) (ε τ α : Type) where
  session : τ
  prog : Prog ι ρ ε α

/-- A state of the interleaved system: the past, the programs in progress, and the holder of the
lock. -/
structure Config (θ ι : Type) (ρ : ι → Type) (ε τ σ α : Type) where
  trace : Trace θ ι ρ ε σ
  threads : θ → Thread ι ρ ε τ α
  lock : Option θ

variable [DecidableEq θ] (S : System ι ρ ε τ σ)

namespace Config

/-- The call event that program `tid` produces when it issues `op` now. -/
def event (c : Config θ ι ρ ε τ σ α) (tid : θ) (fails : Bool) (op : ι) : Event θ ι ρ ε σ :=
  let out := S.perform fails op (c.threads tid).session c.trace.world
  ⟨tid, op, out.1, out.2.2⟩

/-- The configuration after program `tid`, at `call op rest`, has issued its call. -/
def advance (c : Config θ ι ρ ε τ σ α) (tid : θ) (fails : Bool) (op : ι)
    (rest : Except ε (ρ op) → Prog ι ρ ε α) : Config θ ι ρ ε τ σ α :=
  let out := S.perform fails op (c.threads tid).session c.trace.world
  { trace := c.trace.snoc ⟨tid, op, out.1, out.2.2⟩
    threads := Function.update c.threads tid ⟨out.2.1, rest out.1⟩
    lock := if S.held out.2.1 then some tid else if c.lock = some tid then none else c.lock }

/-- Program `tid` may issue `op` now: nobody else holds the lock, or the call does not wait. -/
def MayIssue (c : Config θ ι ρ ε τ σ α) (tid : θ) (op : ι) : Prop :=
  c.lock = none ∨ c.lock = some tid ∨ S.waits op = false

instance (c : Config θ ι ρ ε τ σ α) (tid : θ) (op : ι) : Decidable (c.MayIssue S tid op) :=
  inferInstanceAs (Decidable (_ ∨ _ ∨ _))

/-- Let program `tid` take one step, if it has one that it may take now and `allow` permits. -/
def step (allow : θ → Trace θ ι ρ ε σ → ι → Bool → Prop)
    [∀ tid h op fails, Decidable (allow tid h op fails)] (c : Config θ ι ρ ε τ σ α) (tid : θ)
    (fails : Bool) : Option (Config θ ι ρ ε τ σ α) :=
  match (c.threads tid).prog with
  | .call op rest =>
      if c.MayIssue S tid op ∧ allow tid c.trace op fails then
        some (c.advance S tid fails op rest)
      else none
  | _ => none

/-- Replay a schedule: which program steps, and whether its call fails. -/
def execute (allow : θ → Trace θ ι ρ ε σ → ι → Bool → Prop)
    [∀ tid h op fails, Decidable (allow tid h op fails)] (c : Config θ ι ρ ε τ σ α) :
    List (θ × Bool) → Option (Config θ ι ρ ε τ σ α)
  | [] => some c
  | (tid, fails) :: schedule => (c.step S allow tid fails).bind (execute allow · schedule)

/-- The configuration in which every program is about to start. -/
def start (session : τ) (progs : θ → Prog ι ρ ε α) (world : σ) : Config θ ι ρ ε τ σ α :=
  ⟨⟨world, []⟩, fun tid => ⟨session, progs tid⟩, none⟩

/-- The result of a program that has ended. -/
def resultOf (c : Config θ ι ρ ε τ σ α) (tid : θ) : Option (Except ε α) :=
  match (c.threads tid).prog with
  | .pure value => some (.ok value)
  | .throw error => some (.error error)
  | .call _ _ => none

end Config

/-- The configurations reached from `c₀` by steps that satisfy `allow`. -/
inductive Reach (allow : θ → Trace θ ι ρ ε σ → ι → Bool → Prop) (c₀ : Config θ ι ρ ε τ σ α) :
    Config θ ι ρ ε τ σ α → Prop where
  | start : Reach allow c₀ c₀
  | step {c : Config θ ι ρ ε τ σ α} {tid : θ} {fails : Bool} {op : ι}
      {rest : Except ε (ρ op) → Prog ι ρ ε α} :
      Reach allow c₀ c → c.MayIssue S tid op →
      (c.threads tid).prog = .call op rest → allow tid c.trace op fails →
      Reach allow c₀ (c.advance S tid fails op rest)

/-- A condition that the steps of a run meet where they are made. -/
theorem Reach.strengthen {S : System ι ρ ε τ σ}
    {allow allow' : θ → Trace θ ι ρ ε σ → ι → Bool → Prop} {c₀ c : Config θ ι ρ ε τ σ α}
    (h : Reach S allow c₀ c)
    (hle : ∀ (c : Config θ ι ρ ε τ σ α) tid op fails, Reach S allow c₀ c →
      allow tid c.trace op fails → allow' tid c.trace op fails) :
    Reach S allow' c₀ c := by
  induction h with
  | start => exact .start
  | step hreach hlock hprog hallow ih =>
      exact .step ih hlock hprog (hle _ _ _ _ hreach hallow)

/-- A weaker condition on the steps reaches at least as much. -/
theorem Reach.mono {S : System ι ρ ε τ σ} {allow allow' : θ → Trace θ ι ρ ε σ → ι → Bool → Prop}
    {c₀ c : Config θ ι ρ ε τ σ α} (h : Reach S allow c₀ c)
    (hle : ∀ tid h op fails, allow tid h op fails → allow' tid h op fails) :
    Reach S allow' c₀ c := h.strengthen fun _ _ _ _ _ hallow => hle _ _ _ _ hallow

/-- The initial world of a run is the one it was started in. -/
theorem Reach.init {S : System ι ρ ε τ σ} {allow : θ → Trace θ ι ρ ε σ → ι → Bool → Prop}
    {c₀ c : Config θ ι ρ ε τ σ α} (h : Reach S allow c₀ c) :
    c.trace.init = c₀.trace.init := by
  induction h with
  | start => rfl
  | step _ _ _ _ ih => exact ih

/-- A call that was made under `allow`: failed or not, from some session of its caller. -/
def Made (allow : θ → Trace θ ι ρ ε σ → ι → Bool → Prop) (h : Trace θ ι ρ ε σ)
    (event : Event θ ι ρ ε σ) : Prop :=
  ∃ fails session session', allow event.tid h event.op fails ∧
    S.perform fails event.op session h.world = (event.result, session', event.world)

/-- Every call of a run was made under `allow`. -/
theorem Reach.made {S : System ι ρ ε τ σ} {allow : θ → Trace θ ι ρ ε σ → ι → Bool → Prop}
    {session : τ} {progs : θ → Prog ι ρ ε α} {world : σ} {c : Config θ ι ρ ε τ σ α}
    (h : Reach S allow (Config.start session progs world) c) :
    c.trace.Steps (Made S allow) := by
  induction h with
  | start => exact Trace.steps_nil _ _
  | step _ _ _ hallow ih => exact Trace.steps_snoc.mpr ⟨⟨_, _, _, hallow, rfl⟩, ih⟩

omit [DecidableEq θ] in
/-- A call that went through, and can fail, was allowed to go through. -/
theorem Made.allowed {S : System ι ρ ε τ σ} {allow : θ → Trace θ ι ρ ε σ → ι → Bool → Prop}
    {h : Trace θ ι ρ ε σ} {event : Event θ ι ρ ε σ} (hmade : Made S allow h event)
    {error : ε} (hfault : S.fault event.op = some error) {value : ρ event.op}
    (hok : event.result = .ok value) : allow event.tid h event.op false := by
  obtain ⟨fails, session, session', hallow, hperform⟩ := hmade
  cases fails with
  | false => exact hallow
  | true =>
      rw [System.perform_true hfault, hok] at hperform
      cases hperform

/-! ## What a program has left to do -/

/-- After calls of its own, latest first, `program` has `left` to do. -/
inductive Leaves (program : Prog ι ρ ε α) : List (Event θ ι ρ ε σ) → Prog ι ρ ε α → Prop where
  | start : Leaves program [] program
  | call {made : List (Event θ ι ρ ε σ)} {tid : θ} {op : ι} {result : Except ε (ρ op)} {world : σ}
      {rest : Except ε (ρ op) → Prog ι ρ ε α} :
      Leaves program made (.call op rest) → Leaves program (⟨tid, op, result, world⟩ :: made)
        (rest result)

omit [DecidableEq θ] in
/-- The first call of a program is the one its text starts with. -/
theorem Leaves.first {op : ι} {rest : Except ε (ρ op) → Prog ι ρ ε α} {left : Prog ι ρ ε α}
    {later : List (Event θ ι ρ ε σ)} {tid : θ} {result : Except ε (ρ op)} {world : σ}
    (h : Leaves (.call op rest) (later ++ [⟨tid, op, result, world⟩]) left) :
    Leaves (rest result) later left := by
  induction later generalizing left with
  | nil =>
      rw [List.nil_append] at h
      cases h with
      | call hmade => cases hmade; exact .start
  | cons event later ih =>
      rw [List.cons_append] at h
      cases h with
      | call hmade => exact .call (ih hmade)

omit [DecidableEq θ] in
/-- A program that has thrown makes no more calls. -/
theorem Leaves.of_throw {error : ε} {left : Prog ι ρ ε α} {made : List (Event θ ι ρ ε σ)}
    (h : Leaves (.throw error) made left) : made = [] ∧ left = .throw error := by
  induction h with
  | start => exact ⟨rfl, rfl⟩
  | call _ ih => cases ih.2

/-- What each program of a run has left is what its own calls have left of it. -/
theorem Reach.leaves {S : System ι ρ ε τ σ} {allow : θ → Trace θ ι ρ ε σ → ι → Bool → Prop}
    {session : τ} {progs : θ → Prog ι ρ ε α} {world : σ} {c : Config θ ι ρ ε τ σ α}
    (h : Reach S allow (Config.start session progs world) c) (i : θ) :
    Leaves (progs i) (c.trace.madeBy i) (c.threads i).prog := by
  induction h with
  | start => exact .start
  | @step c tid fails op rest _ _ hprog _ ih =>
      by_cases hi : i = tid
      · subst hi
        rw [hprog] at ih
        simp only [Config.advance, Function.update_self, Trace.madeBy, Trace.events_snoc,
          List.filter_cons, decide_true, ↓reduceIte]
        exact .call ih
      · simp only [Config.advance, Function.update_of_ne hi]
        rw [Trace.madeBy_snoc_other _ (Ne.symm hi)]
        exact ih

/-- Replaying a schedule reaches its last configuration. -/
theorem Reach.of_execute {S : System ι ρ ε τ σ} {allow : θ → Trace θ ι ρ ε σ → ι → Bool → Prop}
    [∀ tid h op fails, Decidable (allow tid h op fails)] {c₀ c c' : Config θ ι ρ ε τ σ α}
    {schedule : List (θ × Bool)} (h : Reach S allow c₀ c)
    (hrun : c.execute S allow schedule = some c') : Reach S allow c₀ c' := by
  induction schedule generalizing c with
  | nil => cases hrun; exact h
  | cons entry schedule ih =>
      simp only [Config.execute, Option.bind_eq_some_iff] at hrun
      obtain ⟨next, hstep, hrun⟩ := hrun
      refine ih ?_ hrun
      unfold Config.step at hstep
      split at hstep
      · next op rest hprog =>
          split at hstep
          · next hmay => cases hstep; exact h.step hmay.1 hprog hmay.2
          · cases hstep
      · cases hstep

/-- A replayed schedule whose last configuration passes a test. -/
theorem Reach.exists_of_execute (S : System ι ρ ε τ σ)
    (allow : θ → Trace θ ι ρ ε σ → ι → Bool → Prop)
    [∀ tid h op fails, Decidable (allow tid h op fails)] (c₀ : Config θ ι ρ ε τ σ α)
    (schedule : List (θ × Bool)) (test : Config θ ι ρ ε τ σ α → Bool)
    (hrun : (c₀.execute S allow schedule).any test = true) :
    ∃ c, Reach S allow c₀ c ∧ test c = true := by
  obtain ⟨c, hc, htest⟩ := (Option.any_eq_true _ _).mp hrun
  exact ⟨c, Reach.of_execute .start hc, htest⟩

end FoosballApi.Calls
