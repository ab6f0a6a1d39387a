import FoosballApi.Calls.Monitor
import FoosballApi.Matches.RowLocks

/-!
# The query runners of `confirm` and `overrideResult`

`RunnerUse` counts what a request does with its query runner. Both methods connect it and start the
transaction before their `try` block, and both make calls inside the block after they have ended
the transaction themselves. `Route.unguarded` are these calls: when one of them fails, the runner
is never released, or the `catch` block rolls back a transaction that is no longer open.

Rollback and release do not fail. Every schedule is a run here, also one that no row lock admits.
-/

namespace FoosballApi.Matches

open Calls Prog Trace World

/-- What a request has done with its query runner, which is created right before it connects. -/
structure RunnerUse where
  created : Bool := false
  releases : Nat := 0
  started : Nat := 0
  /-- The transactions ended by a commit or a rollback. -/
  ended : Nat := 0
  isOpen : Bool := false
  /-- The rollbacks without an open transaction. -/
  strayRollbacks : Nat := 0
  deriving DecidableEq, Repr

namespace RunnerUse

/-- The use after one more call. -/
def next (use : RunnerUse) : (op : Call) → Except Failure op.Result → RunnerUse
  | .connect, _ => { use with created := true }
  | .startTransaction, .ok _ => { use with started := use.started + 1, isOpen := true }
  | .commitTransaction, .ok _ => { use with ended := use.ended + 1, isOpen := false }
  | .rollbackTransaction, _ =>
      if use.isOpen then { use with ended := use.ended + 1, isOpen := false }
      else { use with strayRollbacks := use.strayRollbacks + 1 }
  | .release, _ => { use with releases := use.releases + 1, isOpen := false }
  | _, _ => use

/-- The runner was released once if it was created, every transaction that was started was ended,
and none was rolled back that was not open. -/
def Correct (use : RunnerUse) : Prop :=
  (use.created = true → use.releases = 1) ∧ use.started = use.ended ∧ use.strayRollbacks = 0

instance (use : RunnerUse) : Decidable use.Correct := inferInstanceAs (Decidable (_ ∧ _ ∧ _))

/-- The use of the calls of a request, latest first. -/
def ofCalls {θ : Type} (events : List (CallEvent θ)) : RunnerUse :=
  events.foldr (fun event use => use.next event.op event.result) {}

end RunnerUse

/-- The calls that can fail: all but a rollback and a release. -/
def Call.mayFail : Call → Bool
  | .rollbackTransaction | .release => false
  | _ => true

/-- The routes whose service takes a query runner. -/
def Route.takesRunner : Route → Bool
  | .confirmResult _ | .adminOverrideResult .. => true
  | _ => false

/-- The calls a service makes on its runner before the `try` block, and those in the block that
follow the end of the transaction. -/
def Route.unguarded : Route → Call → Bool
  | .confirmResult _, .connect | .confirmResult _, .startTransaction
  | .confirmResult _, .findConfirmations _ | .confirmResult _, .add .. => true
  | .adminOverrideResult .., .connect | .adminOverrideResult .., .startTransaction
  | .adminOverrideResult .., .findPlayers _ => true
  | _, _ => false

/-- A call that failed. -/
def failed {α : Type} : Except Failure α → Bool
  | .ok _ => false
  | .error _ => true

/-- The monitor of a query runner, and of whether no call in `watched` has failed. -/
def runnerMonitor (watched : Call → Bool) :
    Monitor Call Call.Result Failure (RunnerUse × Bool) where
  next state op result :=
    (state.1.next op result, state.2 && !(watched op && failed result))
  admits state op result :=
    match op with
    | .rollbackTransaction => failed result = !state.1.isOpen
    | .release | .now => failed result = false
    | _ => True

/-- A session's transaction is open when the monitor says so. -/
def SessionUse (s : Session) (state : RunnerUse × Bool) : Prop :=
  s.transaction.isSome = state.1.isOpen

variable {watched : Call → Bool} {θ : Type}

/-- The sessions keep step with the monitor. -/
theorem runnerMonitor_follows :
    (runnerMonitor watched).Follows unlocked (fun op fails => fails = true → op.mayFail = true)
      SessionUse := by
  intro s state op fails w hrel hmay
  have hopen : s.transaction.isSome = state.1.isOpen := hrel
  cases fails with
  | true =>
      -- A failed call leaves the session, and the monitor sees that nothing was opened or ended.
      cases op with
      | rollbackTransaction | release => cases hmay rfl
      | now => exact ⟨rfl, hopen⟩
      | _ => exact ⟨trivial, hopen⟩
  | false =>
      cases op with
      | commitTransaction | rollbackTransaction =>
          cases htransaction : s.transaction with
          | none =>
              rw [htransaction] at hopen
              simp [unlocked, exec, htransaction, runnerMonitor, SessionUse, RunnerUse.next, failed,
                ← hopen]
          | some changes =>
              rw [htransaction] at hopen
              simp [unlocked, exec, htransaction, runnerMonitor, SessionUse, RunnerUse.next, failed,
                ← hopen]
      | savePlayers | saveUser | insertUser =>
          refine ⟨trivial, ?_⟩
          simp only [System.perform_false, unlocked, exec]
          split <;> exact hopen
      | saveConfirmation | saveMatch | saveTransactionAuditLog =>
          refine ⟨trivial, ?_⟩
          simp only [System.perform_false, unlocked, exec, Session.write]
          split <;> simp_all [SessionUse, runnerMonitor, RunnerUse.next]
      | release => exact ⟨rfl, rfl⟩
      | now => exact ⟨rfl, hopen⟩
      | _ => exact ⟨trivial, by first | exact hopen | rfl⟩

/-! ## A transaction in a `try` block -/

/-- The use right after the transaction was started. -/
def RunnerUse.inTransaction : RunnerUse := { created := true, started := 1, isOpen := true }

/-- The use right after the transaction was ended. -/
def RunnerUse.afterTransaction : RunnerUse := { created := true, started := 1, ended := 1 }

/-- How the `try` block ends: it has ended its transaction when it returns, and when it throws, then
unless no watched call has failed. -/
def EndsTransaction {α : Type} (outcome : Except Failure α) (state : RunnerUse × Bool) : Prop :=
  match outcome with
  | .ok _ => state = (.afterTransaction, true)
  | .error _ => state = (.inTransaction, true) ∨ state = (.afterTransaction, false)

/-- How a request ends: it has used its runner correctly just when no watched call has failed. -/
def EndsCorrectly {α : Type} (_ : Except Failure α) (state : RunnerUse × Bool) : Prop :=
  state.1.Correct ↔ state.2 = true

/-- The `finally` block releases the runner and hands the outcome on. -/
theorem monitored_release {α : Type} {handled : Except Failure α} {state : RunnerUse × Bool}
    (hends : (state.1.next .release (.ok ())).Correct ↔ state.2 = true) :
    (do
      await .release
      Prog.resume handled : Api α).monitored (runnerMonitor watched) state EndsCorrectly := by
  rw [monitored_bind, monitored_perform]
  intro released hreleased
  cases released with
  | error _ => cases hreleased
  | ok _ =>
      rw [monitored_resume]
      simpa [EndsCorrectly, runnerMonitor, failed] using hends

/-- A runner that is connected, a transaction that is started, and a `try` block with a handler that
rolls back and a finalizer that releases. -/
theorem monitored_transaction {α : Type} {body : Api α} {rethrown : Failure → Failure}
    (hconnect : watched .connect = true) (hstart : watched .startTransaction = true)
    (hbody : body.monitored (runnerMonitor watched) (.inTransaction, true) EndsTransaction) :
    (do
      await .connect
      await .startTransaction
      catchFinally body
        (fun err => do
          await .rollbackTransaction
          Prog.throw (rethrown err))
        (await .release) : Api α).monitored (runnerMonitor watched) ({}, true) EndsCorrectly := by
  rw [monitored_bind, monitored_perform]
  intro connected _
  cases connected with
  | error e =>
      simp [runnerMonitor, RunnerUse.next, EndsCorrectly, RunnerUse.Correct, failed, hconnect]
  | ok _ =>
  rw [monitored_bind, monitored_perform]
  intro started _
  cases started with
  | error e =>
      simp [runnerMonitor, RunnerUse.next, EndsCorrectly, RunnerUse.Correct, failed, hstart]
  | ok _ =>
  rw [monitored_catchFinally]
  have hbegun : (runnerMonitor watched).next
      ((runnerMonitor watched).next ({}, true) .connect (.ok ())) .startTransaction (.ok ()) =
        (.inTransaction, true) := by
    simp [runnerMonitor, failed]
    rfl
  rw [hbegun]
  refine monitored_mono hbody fun outcome state hends => ?_
  cases outcome with
  | ok value =>
      obtain rfl : state = (.afterTransaction, true) := hends
      rw [monitored_pure]
      exact monitored_release (by decide)
  | error e =>
      rw [monitored_bind, monitored_perform]
      intro rolledBack hrolledBack
      rcases hends with rfl | rfl
      · cases rolledBack with
        | error _ => cases hrolledBack
        | ok _ =>
            refine monitored_release ?_
            simp [runnerMonitor, failed, RunnerUse.next, RunnerUse.inTransaction, RunnerUse.Correct]
      · cases rolledBack with
        | ok _ => cases hrolledBack
        | error _ =>
            refine monitored_release ?_
            simp [runnerMonitor, RunnerUse.next, RunnerUse.afterTransaction, RunnerUse.Correct]

/-! ## The two services -/

/-- A call in the transaction that the monitor does not watch: when it throws, the transaction is
open still. -/
theorem monitored_inside {α : Type} {op : Call} {next : op.Result → Api α}
    (hnext : ∀ result, RunnerUse.next .inTransaction op result = .inTransaction)
    (hwatched : watched op = false)
    (h : ∀ value, (next value).monitored (runnerMonitor watched) (.inTransaction, true)
      EndsTransaction) :
    (await op >>= next).monitored (runnerMonitor watched) (.inTransaction, true)
      EndsTransaction := by
  rw [monitored_bind, monitored_perform]
  intro result _
  have hstate : (runnerMonitor watched).next (.inTransaction, true) op result =
      (.inTransaction, true) := by
    simp [runnerMonitor, hnext, hwatched]
  rw [hstate]
  cases result with
  | ok value => exact h value
  | error e => exact .inl rfl

/-- A call after the end of the transaction: when it fails, the monitor has watched it. -/
theorem monitored_afterwards {α : Type} {op : Call} {next : op.Result → Api α}
    (hnext : ∀ result, RunnerUse.next .afterTransaction op result = .afterTransaction)
    (hwatched : watched op = true ∨ op = .now)
    (h : ∀ value, (next value).monitored (runnerMonitor watched) (.afterTransaction, true)
      EndsTransaction) :
    (await op >>= next).monitored (runnerMonitor watched) (.afterTransaction, true)
      EndsTransaction := by
  rw [monitored_bind, monitored_perform]
  intro result hadmits
  cases result with
  | ok value =>
      have hstate : (runnerMonitor watched).next (.afterTransaction, true) op (.ok value) =
          (.afterTransaction, true) := by
        simp [runnerMonitor, hnext, failed]
      rw [hstate]
      exact h value
  | error e =>
      rcases hwatched with hwatched | rfl
      · right
        simp [runnerMonitor, hnext, hwatched, failed]
      · cases hadmits

/-- A rollback of the open transaction. -/
theorem monitored_rollback {α : Type} {next : Unit → Api α}
    (h : (next ()).monitored (runnerMonitor watched) (.afterTransaction, true) EndsTransaction) :
    (await .rollbackTransaction >>= next).monitored (runnerMonitor watched) (.inTransaction, true)
      EndsTransaction := by
  rw [monitored_bind, monitored_perform]
  intro result hadmits
  cases result with
  | ok _ =>
      have hstate : (runnerMonitor watched).next (.inTransaction, true) .rollbackTransaction
          (.ok ()) = (.afterTransaction, true) := by
        simp [runnerMonitor, failed]
        rfl
      rw [hstate]
      exact h
  | error e => cases hadmits

/-- A commit of the open transaction: it stays open when the commit fails. -/
theorem monitored_commit {α : Type} {next : Unit → Api α}
    (hwatched : watched .commitTransaction = false)
    (h : (next ()).monitored (runnerMonitor watched) (.afterTransaction, true) EndsTransaction) :
    (await .commitTransaction >>= next).monitored (runnerMonitor watched) (.inTransaction, true)
      EndsTransaction := by
  rw [monitored_bind, monitored_perform]
  intro result _
  cases result with
  | ok _ =>
      have hstate : (runnerMonitor watched).next (.inTransaction, true) .commitTransaction
          (.ok ()) = (.afterTransaction, true) := by
        simp [runnerMonitor, failed]
        rfl
      rw [hstate]
      exact h
  | error e =>
      left
      simp [runnerMonitor, hwatched, RunnerUse.next]

/-- The quorum's branch of `confirm`. -/
theorem confirmMatch_monitored {α : Type} {matchId : MatchId} {m : MatchEntity}
    {next : Unit → Api α}
    (h : (next ()).monitored (runnerMonitor (Route.unguarded (.confirmResult matchId)))
      (.afterTransaction, true) EndsTransaction) :
    (ConfirmationService.confirmMatch matchId m >>= next).monitored
      (runnerMonitor (Route.unguarded (.confirmResult matchId))) (.inTransaction, true)
      EndsTransaction := by
  unfold ConfirmationService.confirmMatch
  simp only [Prog.bind_assoc]
  refine monitored_inside (fun _ => rfl) rfl fun confirmedAt => ?_
  refine monitored_inside (fun _ => rfl) rfl fun saved => ?_
  refine monitored_commit rfl ?_
  refine monitored_afterwards (fun _ => rfl) (.inr rfl) fun occurredAt => ?_
  refine monitored_afterwards (fun _ => rfl) (.inl rfl) fun _ => ?_
  refine monitored_afterwards (fun _ => rfl) (.inr rfl) fun occurredAt => ?_
  exact monitored_afterwards (fun _ => rfl) (.inl rfl) fun _ => h

/-- The `try` block of `confirm`. -/
theorem lockedSection_monitored {matchId : MatchId} {userId : UserId}
    {players : List MatchPlayerEntity} :
    (ConfirmationService.lockedSection matchId userId players).monitored
      (runnerMonitor (Route.unguarded (.confirmResult matchId))) (.inTransaction, true)
      EndsTransaction := by
  unfold ConfirmationService.lockedSection
  refine monitored_inside (fun _ => rfl) rfl fun found => ?_
  cases found.filter (·.status = .awaitingConfirmation) with
  | none =>
      show (ConfirmationService.reportCurrent matchId players).monitored _ _ _
      unfold ConfirmationService.reportCurrent
      refine monitored_rollback ?_
      refine monitored_afterwards (fun _ => rfl) (.inl rfl) fun confirmations => ?_
      rfl
  | some m =>
      show (ConfirmationService.castVote matchId userId players m).monitored _ _ _
      unfold ConfirmationService.castVote
      refine monitored_inside (fun _ => rfl) rfl fun existing => ?_
      have hrest : ∀ _ : Unit, (await (.findTransactionConfirmations matchId) >>= fun all =>
          ConfirmationService.settle matchId players m all).monitored
          (runnerMonitor (Route.unguarded (.confirmResult matchId))) (.inTransaction, true)
          EndsTransaction := by
        intro _
        refine monitored_inside (fun _ => rfl) rfl fun all => ?_
        unfold ConfirmationService.settle
        split
        · exact confirmMatch_monitored rfl
        · refine monitored_commit rfl ?_
          rfl
      unfold ConfirmationService.saveVote
      cases existing with
      | some _ => exact hrest ()
      | none =>
          show (((await _ >>= _) >>= _ : Api _)).monitored _ _ _
          rw [Prog.bind_assoc]
          exact monitored_inside (fun _ => rfl) rfl fun _ => hrest ()

/-- The `try` block of `overrideResult`. -/
theorem overrideTransaction_monitored {matchId : MatchId} {actorId : UserId}
    {dto : AdminOverrideResultDto} {m : MatchEntity} :
    (AdminOverrideService.overrideTransaction matchId actorId dto m).monitored
      (runnerMonitor (Route.unguarded (.adminOverrideResult matchId dto))) (.inTransaction, true)
      EndsTransaction := by
  unfold AdminOverrideService.overrideTransaction
  refine monitored_inside (fun _ => rfl) rfl fun saved => ?_
  refine monitored_inside (fun _ => rfl) rfl fun auditLog => ?_
  refine monitored_inside (fun _ => rfl) rfl fun occurredAt => ?_
  refine monitored_inside (fun _ => rfl) rfl fun _ => ?_
  refine monitored_inside (fun _ => rfl) rfl fun occurredAt => ?_
  refine monitored_inside (fun _ => rfl) rfl fun _ => ?_
  refine monitored_commit rfl ?_
  refine monitored_afterwards (fun _ => rfl) (.inl rfl) fun players => ?_
  rfl

/-- A call before the runner exists: when it throws, nothing was used. -/
theorem monitored_before {α : Type} {op : Call} {next : op.Result → Api α}
    (hnext : ∀ result, RunnerUse.next {} op result = {}) (hwatched : watched op = false)
    (h : ∀ value, (next value).monitored (runnerMonitor watched) ({}, true) EndsCorrectly) :
    (await op >>= next).monitored (runnerMonitor watched) ({}, true) EndsCorrectly := by
  rw [monitored_bind, monitored_perform]
  intro result _
  have hstate : (runnerMonitor watched).next ({}, true) op result = ({}, true) := by
    simp [runnerMonitor, hnext, hwatched]
  rw [hstate]
  cases result with
  | ok value => exact h value
  | error e => exact iff_of_true (by decide) rfl

/-- `confirm` uses its runner correctly unless a call outside the guarded part fails. -/
theorem confirm_monitored {matchId : MatchId} {userId : UserId} :
    (ConfirmationService.confirm matchId userId).monitored
      (runnerMonitor (Route.unguarded (.confirmResult matchId))) ({}, true) EndsCorrectly := by
  have hunused : ∀ failure : Failure, EndsCorrectly (.error failure : Except Failure
      ConfirmationStatusResult) ({}, true) := fun _ => iff_of_true (by decide) rfl
  unfold ConfirmationService.confirm
  refine monitored_before (fun _ => rfl) rfl fun found => ?_
  refine monitored_bind.mpr (monitored_require.mpr ⟨fun _ => hunused _, fun m _ => ?_⟩)
  refine monitored_bind.mpr (monitored_throwIf.mpr ⟨fun _ => hunused _, fun _ => ?_⟩)
  refine monitored_before (fun _ => rfl) rfl fun players => ?_
  refine monitored_bind.mpr (monitored_throwIf.mpr ⟨fun _ => hunused _, fun _ => ?_⟩)
  exact monitored_transaction rfl rfl lockedSection_monitored

/-- `overrideResult` uses its runner correctly unless a call outside the guarded part fails. -/
theorem overrideResult_monitored {matchId : MatchId} {actorId : UserId} {isAdmin : Bool}
    {dto : AdminOverrideResultDto} :
    (AdminOverrideService.overrideResult matchId actorId isAdmin dto).monitored
      (runnerMonitor (Route.unguarded (.adminOverrideResult matchId dto))) ({}, true)
      EndsCorrectly := by
  have hunused : ∀ failure : Failure, EndsCorrectly (.error failure : Except Failure
      AdminOverrideResult) ({}, true) := fun _ => iff_of_true (by decide) rfl
  unfold AdminOverrideService.overrideResult
  refine monitored_bind.mpr (monitored_throwIf.mpr ⟨fun _ => hunused _, fun _ => ?_⟩)
  refine monitored_before (fun _ => rfl) rfl fun found => ?_
  refine monitored_bind.mpr (monitored_require.mpr ⟨fun _ => hunused _, fun m _ => ?_⟩)
  refine monitored_bind.mpr (monitored_throwIf.mpr ⟨fun _ => hunused _, fun _ => ?_⟩)
  exact monitored_transaction rfl rfl overrideTransaction_monitored

/-- The requests that take a query runner. -/
theorem Request.monitored_runner {r : Request} (hruns : r.route.takesRunner = true) :
    r.prog.monitored (runnerMonitor r.route.unguarded) ({}, true) EndsCorrectly := by
  obtain ⟨user, route⟩ := r
  cases route with
  | confirmResult matchId => exact monitored_map.mpr confirm_monitored
  | adminOverrideResult matchId dto =>
      refine monitored_bind.mpr (monitored_throwIf.mpr ⟨fun _ => ?_, fun _ => ?_⟩)
      · exact iff_of_true (by decide) rfl
      · exact monitored_map.mpr overrideResult_monitored
  | _ => cases hruns

/-! ## Runs -/

/-- What the monitor has seen of the calls of a request. -/
theorem runnerMonitor_after {events : List (CallEvent θ)} :
    (runnerMonitor watched).after ({}, true) events =
      (.ofCalls events, !events.any fun event => watched event.op && failed event.result) := by
  induction events with
  | nil => rfl
  | cons event events ih =>
      show (runnerMonitor watched).next ((runnerMonitor watched).after ({}, true) events) event.op
        event.result = _
      rw [ih]
      simp [runnerMonitor, RunnerUse.ofCalls, Bool.and_comm]

/-- In every run of interleaved inputs, a request to confirm a match or to override its result has
used its query runner correctly when it ends if and only if no unguarded call of it has failed. -/
theorem runner_correct_iff [DecidableEq θ] {inputs : θ → Input} {w : World} {c : Running θ} {i : θ}
    {r : Request} {result : Except Failure Response}
    (hreach : Reach unlocked (fun _ _ op fails => fails = true → op.mayFail = true)
      (w.begin inputs) c)
    (hinput : inputs i = .request r) (hruns : r.route.takesRunner = true)
    (hended : c.resultOf i = some result) :
    (RunnerUse.ofCalls (c.trace.madeBy i)).Correct ↔
      ∀ event ∈ c.trace.madeBy i, r.route.unguarded event.op = true →
        failed event.result = false := by
  have hprog : (inputs i).prog.monitored (runnerMonitor r.route.unguarded) ({}, true)
      EndsCorrectly := by
    rw [hinput]
    exact Request.monitored_runner hruns
  have hinit : SessionUse {} (({}, true) : RunnerUse × Bool) := rfl
  have hends : EndsCorrectly result
      ((runnerMonitor r.route.unguarded).after ({}, true) (c.trace.madeBy i)) :=
    hreach.monitored runnerMonitor_follows (fun _ _ _ _ h => h) hinit i hprog hended
  rw [EndsCorrectly, runnerMonitor_after] at hends
  rw [hends]
  simp

/-- `mario` and `rival` vote at once. -/
def duelVotes : Fin 2 → Input
  | 0 => .request ⟨mario, .confirmResult 1⟩
  | 1 => .request ⟨rival, .confirmResult 1⟩

/-- `rival` votes after `mario`, so that the quorum is reached, and no call fails. -/
theorem runner_correct_iff_duel :
    ∃ c : Running (Fin 2), (c.resultOf 1).any (!failed ·) = true ∧
      ((RunnerUse.ofCalls (c.trace.madeBy 1)).Correct ↔
        ∀ event ∈ c.trace.madeBy 1, (Route.confirmResult 1).unguarded event.op = true →
          failed event.result = false) := by
  obtain ⟨c, hreach, htest⟩ := Reach.exists_of_execute unlocked
    (fun _ _ op fails => fails = true → op.mayFail = true)
    (((World.withUsers signedIn).run duel).begin duelVotes)
    (.replicate 10 (0, false) ++ .replicate 16 (1, false))
    (fun c => (c.resultOf 1).any (!failed ·)) (by decide)
  refine ⟨c, htest, ?_⟩
  obtain ⟨result, hended, _⟩ := (Option.any_eq_true _ _).mp htest
  exact runner_correct_iff hreach rfl rfl hended

/-- The matches queue does not take `rival`'s job: the transaction is committed, and the `catch`
block rolls it back. The run is one that the row locks admit. -/
theorem not_runner_correct_queueFails :
    ¬ ∀ (inputs : Fin 2 → Input) (w : World) (c : Running (Fin 2)) (i : Fin 2) (r : Request)
      (result : Except Failure Response),
      Reach unlocked (fun i h op fails => (rowLocks fun _ => true).Admits i h op fails ∧
        (fails = true → op.mayFail = true)) (w.begin inputs) c →
      inputs i = .request r → r.route.takesRunner = true → c.resultOf i = some result →
      (RunnerUse.ofCalls (c.trace.madeBy i)).Correct := by
  intro h
  obtain ⟨c, hreach, htest⟩ := Reach.exists_of_execute unlocked
    (fun i h op fails => (rowLocks fun _ => true).Admits i h op fails ∧
      (fails = true → op.mayFail = true))
    (((World.withUsers signedIn).run duel).begin duelVotes)
    (.replicate 10 (0, false) ++ .replicate 12 (1, false) ++ [(1, true), (1, false), (1, false)])
    (fun c => c.resultOf 1 = some (.error .transactionNotStarted) ∧
      ¬ (RunnerUse.ofCalls (c.trace.madeBy 1)).Correct) (by decide)
  have hwrong := of_decide_eq_true htest
  exact hwrong.2 (h _ _ c 1 _ _ hreach rfl rfl hwrong.1)

end FoosballApi.Matches
