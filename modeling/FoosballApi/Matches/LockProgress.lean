import FoosballApi.Matches.ConcurrentIsolation
import FoosballApi.Matches.QueryRunners

/-!
# No request waits for ever

`confirm` locks the row of its match with a `FOR UPDATE` read and `overrideResult` with the `UPDATE`
of its save, and everything that waits for a row waits for one of these. Whatever fails in between,
both make at most six calls until their transaction is committed or rolled back, and release the
query runner only then. So no request that has ended holds a row. As each request needs the row of
one match, every run can be continued until all its requests have ended.

Which other calls wait is left open, and a call that waits may fail instead. Rollbacks do not fail.
-/

namespace FoosballApi.Matches

open Calls Prog Trace World

/-- At most six calls are made while the row is locked, and the lock is not leaked. -/
def LockUse.brief : LockUse → Bool
  | .idle | .inTransaction => true
  | .held _ calls => calls ≤ 6
  | .leaked _ => false

/-- The monitor of the row locks, as long as they are held briefly. -/
abbrev briefLocks : Monitor Call Call.Result Failure (Option LockUse) :=
  lockMonitor.within LockUse.brief

/-- A session has a transaction when the monitor says so. -/
def LockUse.Of (s : Session) : LockUse → Prop
  | .idle => s.transaction.isSome = false
  | .inTransaction | .held .. => s.transaction.isSome = true
  | .leaked _ => True

/-- A call that ends a transaction or its query runner. -/
def Call.endsTransaction : Call → Bool
  | .commitTransaction | .rollbackTransaction | .release => true
  | _ => false

/-- A call that opens a transaction. -/
def Call.opensTransaction : Call → Bool
  | .startTransaction => true
  | _ => false

variable {α β θ : Type} {use : LockUse}

/-! ## The monitor and the sessions -/

/-- Without a transaction only its start counts. -/
theorem LockUse.next_idle {op : Call} (hop : op.opensTransaction = false)
    (result : Except Failure op.Result) : LockUse.idle.next op result = .idle := by
  cases op with
  | startTransaction => cases hop
  | _ => rfl

/-- With a lock a call that does not end the transaction is one more call. -/
theorem LockUse.next_held {op : Call} (hop : op.endsTransaction = false) (row : MatchId)
    (calls : Nat) (result : Except Failure op.Result) :
    (LockUse.held row calls).next op result = .held row (calls + 1) := by
  cases op with
  | commitTransaction | rollbackTransaction | release => cases hop
  | _ => rfl

/-- A failed call opens and ends nothing. -/
theorem LockUse.of_next_error {s : Session} (hof : use.Of s) (op : Call) (failure : Failure) :
    (use.next op (.error failure)).Of s := by
  cases use <;> cases op <;> exact hof

/-- A call other than the start and the end of a transaction leaves it open, or not open. -/
theorem isSome_exec {op : Call} (hopens : op.opensTransaction = false)
    (hends : op.endsTransaction = false) (s : Session) (w : World) :
    (exec op s w).2.1.transaction.isSome = s.transaction.isSome := by
  cases op with
  | startTransaction => cases hopens
  | commitTransaction | rollbackTransaction | release => cases hends
  | savePlayers | saveUser | insertUser =>
      simp only [exec]
      split <;> rfl
  | saveConfirmation | saveMatch | saveTransactionAuditLog =>
      simp only [exec, Session.write]
      split
      · next htransaction => rw [htransaction]; rfl
      · rfl
  | _ => rfl

/-- A call that is carried out keeps the session in step with the monitor. -/
theorem LockUse.of_exec {s : Session} (hof : use.Of s) (op : Call) (w : World) :
    (use.next op (exec op s w).1).Of (exec op s w).2.1 := by
  cases hcontrol : op.opensTransaction || op.endsTransaction with
  | false =>
      obtain ⟨hopens, hends⟩ := Bool.or_eq_false_iff.mp hcontrol
      have hsame := isSome_exec hopens hends s w
      cases use with
      | idle =>
          rw [LockUse.next_idle hopens]
          exact hsame.trans hof
      | inTransaction =>
          have hopen : (exec op s w).2.1.transaction.isSome = true := hsame.trans hof
          generalize (exec op s w).1 = result
          cases op <;> cases result <;> first | exact hopen | cases hends
      | held row calls =>
          rw [LockUse.next_held hends]
          exact hsame.trans hof
      | leaked row => trivial
  | true =>
      cases op with
      | startTransaction => cases use <;> first | rfl | trivial
      | commitTransaction | rollbackTransaction =>
          cases htransaction : s.transaction with
          | none =>
              simp only [exec, htransaction]
              exact LockUse.of_next_error hof _ _
          | some changes =>
              simp only [exec, htransaction]
              cases use with
              | idle => cases hof.symm.trans (congrArg Option.isSome htransaction)
              | inTransaction | held => rfl
              | leaked => trivial
      | release => cases use <;> first | rfl | trivial
      | _ => cases hcontrol

/-- An open transaction can be rolled back. -/
theorem admits_exec {s : Session} (hof : use.Of s) (op : Call) (w : World) :
    lockMonitor.admits use op (exec op s w).1 := by
  cases use with
  | idle | leaked => trivial
  | inTransaction | held =>
      cases op with
      | rollbackTransaction =>
          obtain ⟨changes, hchanges⟩ := Option.isSome_iff_exists.mp hof
          exact ⟨(), by simp only [exec, hchanges]⟩
      | _ => trivial

/-- A call that fails is not a rollback. -/
theorem admits_error {op : Call} (hop : op ≠ .rollbackTransaction) (failure : Failure) :
    lockMonitor.admits use op (.error failure) := by
  cases use with
  | idle | leaked => trivial
  | inTransaction | held =>
      cases op with
      | rollbackTransaction => exact absurd rfl hop
      | _ => trivial

/-- The sessions keep step with the monitor, in every system with these calls. -/
theorem briefLocks_follows {S : System Call Call.Result Failure Session World}
    (hS : S.exec = exec) :
    briefLocks.Follows S (fun op fails => fails = true → op ≠ .rollbackTransaction)
      fun s state => ∀ use ∈ state, use.Of s := by
  intro s state op fails w hrel hmay
  have hstep : ∀ use ∈ state, lockMonitor.admits use op (S.perform fails op s w).1 ∧
      (use.next op (S.perform fails op s w).1).Of (S.perform fails op s w).2.1 := by
    intro use huse
    have hof := hrel use huse
    cases fails with
    | false =>
        rw [System.perform_false, hS]
        exact ⟨admits_exec hof op w, LockUse.of_exec hof op w⟩
    | true =>
        rcases S.perform_cases true op s w with hdone | ⟨failure, -, hfailed⟩
        · rw [hdone, hS]
          exact ⟨admits_exec hof op w, LockUse.of_exec hof op w⟩
        · rw [hfailed]
          exact ⟨admits_error (hmay rfl) failure, LockUse.of_next_error hof op failure⟩
  refine ⟨fun use huse => (hstep use huse).1, fun use' huse' => ?_⟩
  obtain ⟨use, huse, hguard⟩ := Option.bind_eq_some_iff.mp huse'
  obtain ⟨rfl, -⟩ := Option.guard_eq_some_iff.mp hguard
  exact (hstep use huse).2

/-! ## Programs that end their transactions -/

/-- How a request ends: without a transaction. -/
def EndsIdle {α : Type} (_ : Except Failure α) (state : Option LockUse) : Prop :=
  state = some .idle

/-- A program that opens no transaction ends without one. -/
theorem monitored_idle {program : Api α}
    (hissues : program.Issues fun op => op.opensTransaction = false) :
    program.monitored briefLocks (some .idle) EndsIdle := by
  induction program with
  | pure value => rfl
  | throw error => rfl
  | call op rest ih =>
      intro result _
      have hnext : briefLocks.next (some .idle) op result = some .idle :=
        congrArg (Option.guard LockUse.brief) (LockUse.next_idle hissues.1 result)
      rw [hnext]
      exact ih result (hissues.2 result)

/-- How the `try` block ends: when it returns, its transaction has ended; when it throws, the
transaction can still be rolled back. -/
def EndsSection {α : Type} (outcome : Except Failure α) (state : Option LockUse) : Prop :=
  match outcome with
  | .ok _ => state = some .idle
  | .error _ => state = some .idle ∨ state = some .inTransaction ∨
      ∃ row calls, state = some (.held row calls)

/-- A block that opens no more transaction once it has ended its own. -/
theorem monitored_section_idle {program : Api α}
    (hissues : program.Issues fun op => op.opensTransaction = false) :
    program.monitored briefLocks (some .idle) EndsSection := by
  refine monitored_mono (monitored_idle hissues) fun outcome state hidle => ?_
  cases outcome with
  | ok value => exact hidle
  | error failure => exact .inl hidle

/-- The call that locks the row. -/
theorem monitored_section_lock {op : Call} {next : op.Result → Api α} {row : MatchId}
    (htakes : ∀ value, LockUse.inTransaction.next op (.ok value) = .held row 0)
    (hfails : ∀ failure, LockUse.inTransaction.next op (.error failure) = .inTransaction)
    (h : ∀ value, (next value).monitored briefLocks (some (.held row 0)) EndsSection) :
    (await op >>= next).monitored briefLocks (some .inTransaction) EndsSection := by
  rw [monitored_bind, monitored_perform]
  intro result _
  cases result with
  | ok value =>
      have hstate : briefLocks.next (some .inTransaction) op (.ok value) = some (.held row 0) :=
        congrArg (Option.guard LockUse.brief) (htakes value)
      rw [hstate]
      exact h value
  | error failure =>
      exact .inr (.inl (congrArg (Option.guard LockUse.brief) (hfails failure)))

/-- One more call with the lock. -/
theorem monitored_section_call {op : Call} {next : op.Result → Api α} {row : MatchId} {calls : Nat}
    (hop : op.endsTransaction = false) (hcalls : calls < 6)
    (h : ∀ value, (next value).monitored briefLocks (some (.held row (calls + 1))) EndsSection) :
    (await op >>= next).monitored briefLocks (some (.held row calls)) EndsSection := by
  rw [monitored_bind, monitored_perform]
  intro result _
  have hstate : briefLocks.next (some (.held row calls)) op result =
      some (.held row (calls + 1)) := by
    refine (congrArg (Option.guard LockUse.brief) (LockUse.next_held hop row calls result)).trans ?_
    exact Option.guard_eq_some_iff.mpr ⟨rfl, decide_eq_true hcalls⟩
  rw [hstate]
  cases result with
  | ok value => exact h value
  | error failure => exact .inr (.inr ⟨row, calls + 1, rfl⟩)

/-- The commit of the transaction. -/
theorem monitored_section_commit {next : Unit → Api α} {row : MatchId} {calls : Nat}
    (hcalls : calls < 6)
    (h : ∀ value, (next value).Issues fun op => op.opensTransaction = false) :
    (await .commitTransaction >>= next).monitored briefLocks (some (.held row calls))
      EndsSection := by
  rw [monitored_bind, monitored_perform]
  intro result _
  cases result with
  | ok value => exact monitored_section_idle (h value)
  | error failure =>
      exact .inr (.inr ⟨row, calls + 1, Option.guard_eq_some_iff.mpr
        ⟨rfl, decide_eq_true (show calls + 1 ≤ 6 from hcalls)⟩⟩)

/-- The rollback of the transaction in the block. -/
theorem monitored_section_rollback {next : Unit → Api α} {row : MatchId} {calls : Nat}
    (h : ∀ value, (next value).Issues fun op => op.opensTransaction = false) :
    (await .rollbackTransaction >>= next).monitored briefLocks (some (.held row calls))
      EndsSection := by
  rw [monitored_bind, monitored_perform]
  intro result hadmits
  obtain ⟨value, rfl⟩ := hadmits _ rfl
  exact monitored_section_idle (h value)

/-- A call that opens no transaction, with what follows it. -/
theorem monitored_idle_call {op : Call} {next : op.Result → Api α}
    (hop : op.opensTransaction = false)
    (h : ∀ value, (next value).monitored briefLocks (some .idle) EndsIdle) :
    (await op >>= next).monitored briefLocks (some .idle) EndsIdle := by
  rw [monitored_bind, monitored_perform]
  intro result _
  have hstate : briefLocks.next (some .idle) op result = some .idle :=
    congrArg (Option.guard LockUse.brief) (LockUse.next_idle hop result)
  rw [hstate]
  cases result with
  | ok value => exact h value
  | error failure => rfl

/-- The release of the query runner after the transaction has ended. -/
theorem monitored_idle_release {handled : Except Failure α} :
    (do
      await .release
      Prog.resume handled : Api α).monitored briefLocks (some .idle) EndsIdle :=
  monitored_idle_call rfl fun _ => monitored_resume.mpr rfl

/-- A `try` block with a handler that rolls back and a finalizer that releases the query runner. -/
theorem monitored_try {body : Api α} {rethrown : Failure → Failure}
    (hbody : body.monitored briefLocks (some .inTransaction) EndsSection) :
    (catchFinally body
      (fun err => do
        await .rollbackTransaction
        Prog.throw (rethrown err))
      (await .release) : Api α).monitored briefLocks (some .inTransaction) EndsIdle := by
  rw [monitored_catchFinally]
  refine monitored_mono hbody fun outcome state hends => ?_
  cases outcome with
  | ok value =>
      obtain rfl : state = some .idle := hends
      exact monitored_idle_release
  | error failure =>
      rw [monitored_bind, monitored_perform]
      intro rolledBack hadmits
      have hstate : briefLocks.next state .rollbackTransaction rolledBack = some .idle := by
        rcases hends with rfl | rfl | ⟨row, calls, rfl⟩
        · rfl
        · obtain ⟨value, rfl⟩ := hadmits _ rfl
          rfl
        · obtain ⟨value, rfl⟩ := hadmits _ rfl
          rfl
      rw [hstate]
      cases rolledBack with
      | ok _ => exact monitored_idle_release
      | error e => exact monitored_idle_release

/-- The start of the transaction, with what follows it. -/
theorem monitored_start {next : Unit → Api α}
    (h : ∀ value, (next value).monitored briefLocks (some .inTransaction) EndsIdle) :
    (await .startTransaction >>= next).monitored briefLocks (some .idle) EndsIdle := by
  rw [monitored_bind, monitored_perform]
  intro result _
  cases result with
  | ok value => exact h value
  | error failure => rfl

/-! ## The services -/

/-- The branch of `confirm` for a match that awaits confirmation. -/
theorem castVote_brief {matchId : MatchId} {userId : UserId} {players : List MatchPlayerEntity}
    {m : MatchEntity} : (ConfirmationService.castVote matchId userId players m).monitored
      briefLocks (some (.held matchId 0)) EndsSection := by
  have hsettle : ∀ calls ≤ 3, ∀ all, (ConfirmationService.settle matchId players m all).monitored
      briefLocks (some (.held matchId calls)) EndsSection := by
    intro calls hcalls all
    unfold ConfirmationService.settle
    split
    · unfold ConfirmationService.confirmMatch
      simp only [Prog.bind_assoc]
      refine monitored_section_call rfl (by omega) fun confirmedAt => ?_
      refine monitored_section_call rfl (by omega) fun saved => ?_
      refine monitored_section_commit (by omega) fun _ => ?_
      refine issues_bind (issues_perform rfl) fun occurredAt => ?_
      refine issues_bind (issues_perform rfl) fun _ => ?_
      refine issues_bind (issues_perform rfl) fun occurredAt => ?_
      exact issues_bind (issues_perform rfl) fun _ => trivial
    · exact monitored_section_commit (by omega) fun _ => trivial
  unfold ConfirmationService.castVote
  refine monitored_section_call rfl (by omega) fun existing => ?_
  cases existing with
  | some vote =>
      show (await (.findTransactionConfirmations matchId) >>= _).monitored _ _ _
      exact monitored_section_call rfl (by omega) fun all => hsettle 2 (by omega) all
  | none =>
      show ((await _ >>= _) >>= _ : Api _).monitored _ _ _
      rw [Prog.bind_assoc]
      refine monitored_section_call rfl (by omega) fun saved => ?_
      show (await (.findTransactionConfirmations matchId) >>= _).monitored _ _ _
      exact monitored_section_call rfl (by omega) fun all => hsettle 3 le_rfl all

/-- The `try` block of `confirm`. -/
theorem lockedSection_brief {matchId : MatchId} {userId : UserId}
    {players : List MatchPlayerEntity} :
    (ConfirmationService.lockedSection matchId userId players).monitored briefLocks
      (some .inTransaction) EndsSection := by
  unfold ConfirmationService.lockedSection
  refine monitored_section_lock (fun _ => rfl) (fun _ => rfl) fun found => ?_
  cases found.filter (·.status = .awaitingConfirmation) with
  | none =>
      show (ConfirmationService.reportCurrent matchId players).monitored _ _ _
      unfold ConfirmationService.reportCurrent
      refine monitored_section_rollback fun _ => ?_
      exact issues_bind (issues_perform rfl) fun _ => trivial
  | some m => exact castVote_brief

/-- `confirm` ends the transaction it opens. -/
theorem confirm_brief {matchId : MatchId} {userId : UserId} :
    (ConfirmationService.confirm matchId userId).monitored briefLocks (some .idle) EndsIdle := by
  unfold ConfirmationService.confirm
  refine monitored_idle_call rfl fun found => ?_
  refine monitored_bind.mpr (monitored_require.mpr ⟨fun _ => rfl, fun m _ => ?_⟩)
  refine monitored_bind.mpr (monitored_throwIf.mpr ⟨fun _ => rfl, fun _ => ?_⟩)
  refine monitored_idle_call rfl fun players => ?_
  refine monitored_bind.mpr (monitored_throwIf.mpr ⟨fun _ => rfl, fun _ => ?_⟩)
  refine monitored_idle_call rfl fun _ => ?_
  exact monitored_start fun _ => monitored_try lockedSection_brief

/-- The `try` block of `overrideResult`. -/
theorem overrideTransaction_brief {matchId : MatchId} {actorId : UserId}
    {dto : AdminOverrideResultDto} {m : MatchEntity} :
    (AdminOverrideService.overrideTransaction matchId actorId dto m).monitored briefLocks
      (some .inTransaction) EndsSection := by
  unfold AdminOverrideService.overrideTransaction
  refine monitored_section_lock (fun _ => rfl) (fun _ => rfl) fun saved => ?_
  refine monitored_section_call rfl (by omega) fun auditLog => ?_
  refine monitored_section_call rfl (by omega) fun occurredAt => ?_
  refine monitored_section_call rfl (by omega) fun _ => ?_
  refine monitored_section_call rfl (by omega) fun occurredAt => ?_
  refine monitored_section_call rfl (by omega) fun _ => ?_
  refine monitored_section_commit (by omega) fun _ => ?_
  exact issues_bind (issues_perform rfl) fun _ => trivial

/-- `overrideResult` ends the transaction it opens. -/
theorem overrideResult_brief {matchId : MatchId} {actorId : UserId} {isAdmin : Bool}
    {dto : AdminOverrideResultDto} :
    (AdminOverrideService.overrideResult matchId actorId isAdmin dto).monitored briefLocks
      (some .idle) EndsIdle := by
  unfold AdminOverrideService.overrideResult
  refine monitored_bind.mpr (monitored_throwIf.mpr ⟨fun _ => rfl, fun _ => ?_⟩)
  refine monitored_idle_call rfl fun found => ?_
  refine monitored_bind.mpr (monitored_require.mpr ⟨fun _ => rfl, fun m _ => ?_⟩)
  refine monitored_bind.mpr (monitored_throwIf.mpr ⟨fun _ => rfl, fun _ => ?_⟩)
  refine monitored_idle_call rfl fun _ => ?_
  exact monitored_start fun _ => monitored_try overrideTransaction_brief

/-- `findById` opens no transaction. -/
theorem findById_plain (matchId : MatchId) :
    (MatchService.findById matchId).Issues fun op => op.opensTransaction = false := by
  refine issues_bind (issues_perform rfl) fun found => ?_
  refine issues_bind issues_require fun m => ?_
  cases m.players with
  | some players => trivial
  | none => exact issues_bind (issues_perform rfl) fun _ => trivial

/-- The slot checks open no transaction. -/
theorem checkSlots_plain (matchId : MatchId) (existing : List MatchPlayerEntity)
    (ps : List PlayerDto) :
    (MatchService.checkSlots matchId existing ps).Issues fun op => op.opensTransaction = false := by
  induction ps with
  | nil => trivial
  | cons p ps ih => exact issues_bind issues_throwIf fun _ => ih

/-- `addPlayers` opens no transaction. -/
theorem addPlayers_plain (matchId : MatchId) (userId : UserId) (dto : AddPlayersDto) :
    (MatchService.addPlayers matchId userId dto).Issues fun op => op.opensTransaction = false := by
  refine issues_bind (findById_plain matchId) fun m => ?_
  refine issues_bind (issues_bind issues_throwIf fun _ => issues_throwIf) fun _ => ?_
  refine issues_bind (issues_perform rfl) fun existing => ?_
  refine issues_bind issues_throwIf fun _ => ?_
  refine issues_bind (checkSlots_plain _ _ _) fun _ => ?_
  refine issues_bind (issues_perform rfl) fun _ => ?_
  refine issues_bind (issues_perform rfl) fun allPlayers => ?_
  refine issues_bind ?_ fun _ => trivial
  unfold MatchService.startPlaying
  split
  · exact issues_bind (issues_perform rfl) fun _ => trivial
  · trivial

/-- `deleteMatch` opens no transaction. -/
theorem deleteMatch_plain (matchId : MatchId) (actorId : UserId) (isAdmin : Bool) :
    (AdminOverrideService.deleteMatch matchId actorId isAdmin).Issues
      fun op => op.opensTransaction = false := by
  refine issues_bind issues_throwIf fun _ => ?_
  refine issues_bind (issues_perform rfl) fun found => ?_
  refine issues_bind issues_require fun m => issues_bind ?_ fun _ => issues_perform rfl
  unfold AdminOverrideService.recordDelete
  split
  · exact issues_bind (issues_perform rfl) fun _ => trivial
  · trivial

/-- The requests without a query runner open no transaction. -/
theorem Request.plain {request : Request} (hruns : request.route.takesRunner = false) :
    request.prog.Issues fun op => op.opensTransaction = false := by
  obtain ⟨user, route⟩ := request
  have hlocked : ∀ m : MatchEntity, ∀ id notCreator locked,
      (MatchService.checkEditable id m user.sub notCreator locked).Issues
        fun op => op.opensTransaction = false :=
    fun m id notCreator locked => issues_bind issues_throwIf fun _ => issues_throwIf
  cases route with
  | confirmResult | adminOverrideResult => cases hruns
  | createMatch dto =>
      refine issues_bind ?_ fun _ => trivial
      exact issues_bind (issues_perform rfl) fun _ => trivial
  | getMatch id => exact issues_bind (findById_plain id) fun _ => trivial
  | updateMatch id dto =>
      refine issues_bind ?_ fun _ => trivial
      refine issues_bind (findById_plain id) fun m => issues_bind (hlocked _ _ _ _) fun _ => ?_
      refine issues_bind (issues_perform rfl) fun saved => ?_
      exact issues_bind (issues_perform rfl) fun _ => trivial
  | deleteMatch id =>
      refine issues_bind issues_throwIf fun _ => issues_bind ?_ fun _ => trivial
      refine issues_bind issues_throwIf fun _ => issues_bind (issues_perform rfl) fun found => ?_
      exact issues_bind issues_require fun _ => issues_perform rfl
  | addPlayers id dto => exact issues_bind (addPlayers_plain _ _ _) fun _ => trivial
  | submitResult id dto =>
      refine issues_bind ?_ fun _ => trivial
      refine issues_bind (findById_plain id) fun m => issues_bind (hlocked _ _ _ _) fun _ => ?_
      refine issues_bind (issues_perform rfl) fun players => issues_bind issues_throwIf fun _ => ?_
      refine issues_bind (issues_perform rfl) fun saved => ?_
      refine issues_bind (issues_perform rfl) fun occurredAt => ?_
      exact issues_bind (issues_perform rfl) fun _ => trivial
  | getConfirmationStatus id =>
      refine issues_bind ?_ fun _ => trivial
      refine issues_bind (issues_perform rfl) fun found => issues_bind issues_require fun m => ?_
      refine issues_bind issues_throwIf fun _ => issues_bind (issues_perform rfl) fun players => ?_
      exact issues_bind (issues_perform rfl) fun _ => trivial
  | cancelConfirmation id =>
      refine issues_bind ?_ fun _ => trivial
      refine issues_bind (issues_perform rfl) fun found => issues_bind issues_require fun m => ?_
      refine issues_bind issues_throwIf fun _ => issues_bind issues_throwIf fun _ => ?_
      refine issues_bind issues_throwIf fun _ => issues_bind (issues_perform rfl) fun _ => ?_
      refine issues_bind (issues_perform rfl) fun saved => ?_
      refine issues_bind (issues_perform rfl) fun occurredAt => ?_
      refine issues_bind (issues_perform rfl) fun _ => ?_
      exact issues_bind (issues_perform rfl) fun _ => trivial
  | adminDeleteMatch id =>
      exact issues_bind issues_throwIf fun _ => issues_bind (deleteMatch_plain _ _ _) fun _ => trivial
  | getMatchAuditLog id =>
      refine issues_bind issues_throwIf fun _ => issues_bind ?_ fun _ => trivial
      refine issues_bind issues_throwIf fun _ => issues_bind (issues_perform rfl) fun found => ?_
      exact issues_bind issues_require fun _ => issues_perform rfl

/-- Every request ends the transaction it opens. -/
theorem Request.brief (request : Request) :
    request.prog.monitored briefLocks (some .idle) EndsIdle := by
  cases hruns : request.route.takesRunner with
  | false => exact monitored_idle (Request.plain hruns)
  | true =>
      obtain ⟨user, route⟩ := request
      cases route with
      | confirmResult id => exact monitored_map.mpr confirm_brief
      | adminOverrideResult id dto =>
          refine monitored_bind.mpr (monitored_throwIf.mpr ⟨fun _ => rfl, fun _ => ?_⟩)
          exact monitored_map.mpr overrideResult_brief
      | _ => cases hruns

/-- So do logins and ticks, which open none. -/
theorem Input.brief (input : Input) : input.prog.monitored briefLocks (some .idle) EndsIdle := by
  cases input with
  | request r => exact r.brief
  | signIn user => exact monitored_idle (issues_bind (issues_perform rfl) fun _ => trivial)
  | tick elapsed => exact monitored_idle (issues_bind (issues_perform rfl) fun _ => trivial)

/-! ## Every run -/

/-- A lock is held since the call that took it, and one call longer with every call. -/
theorem LockUse.held_of_next {op : Call} {result : Except Failure op.Result} {row : MatchId}
    {calls : Nat} (hheld : use.next op result = .held row calls) :
    (calls = 0 ∧ row ∈ op.rows ∧ op.locksRow = true) ∨
      ∃ before, use = .held row before ∧ calls = before + 1 := by
  cases use with
  | idle => cases op <;> cases result <;> cases hheld
  | leaked => cases op <;> cases hheld
  | inTransaction =>
      cases op with
      | findMatchForUpdate | saveMatch =>
          cases result with
          | ok value =>
              cases hheld
              exact .inl ⟨rfl, List.mem_singleton_self _, rfl⟩
          | error failure => cases hheld
      | _ => cases result <;> cases hheld
  | held =>
      cases op with
      | commitTransaction | rollbackTransaction | release =>
          cases result with
          | ok value => cases hheld
          | error failure =>
              cases hheld
              exact .inr ⟨_, rfl, rfl⟩
      | _ =>
          cases hheld
          exact .inr ⟨_, rfl, rfl⟩

/-- The calls a request has made with the lock follow the call that took it. -/
theorem LockUse.held_after {events : List (CallEvent θ)} {row : MatchId} {calls : Nat}
    (hheld : lockMonitor.after .idle events = .held row calls) :
    ∃ newer taking earlier, events = newer ++ taking :: earlier ∧ row ∈ taking.op.rows ∧
      taking.op.locksRow = true ∧ newer.length = calls := by
  induction events generalizing calls with
  | nil => cases hheld
  | cons event events ih =>
      change (lockMonitor.after .idle events).next event.op event.result = _ at hheld
      rcases LockUse.held_of_next hheld with ⟨rfl, hrow, hlocks⟩ | ⟨before, hbefore, rfl⟩
      · exact ⟨[], event, events, rfl, hrow, hlocks, rfl⟩
      · obtain ⟨newer, taking, earlier, rfl, hrow, hlocks, rfl⟩ := ih hbefore
        exact ⟨event :: newer, taking, earlier, rfl, hrow, hlocks, rfl⟩

/-- The match of an input. -/
def Input.target : Input → Option MatchId
  | .request r => r.route.target
  | .signIn _ | .tick _ => none

/-- A call about a match is about no other row. -/
theorem Call.About.row_eq {op : Call} {matchId row : MatchId} (habout : op.About matchId)
    (hrow : row ∈ op.rows) : row = matchId := by
  cases op with
  | findById | delete | findPlayers | findConfirmations | deleteAllConfirmations
  | findMatchForUpdate | findOneConfirmation | saveConfirmation | findTransactionConfirmations =>
      exact (List.mem_singleton.mp hrow).trans habout
  | save | saveMatch => exact (List.mem_singleton.mp hrow).trans habout.1
  | savePlayers players =>
      obtain ⟨p, hp, rfl⟩ := List.mem_map.mp hrow
      exact habout p hp
  | _ => cases hrow

/-- The calls of an input are about the row of its match. -/
theorem Input.target_of_may {input : Input} {op : Call} {row : MatchId}
    (hop : input.likeness.may op) (hrow : row ∈ op.rows) : input.target = some row := by
  cases input with
  | request r =>
      rw [Input.likeness] at hop
      rw [Input.target]
      cases htarget : r.route.target with
      | some matchId =>
          rw [htarget] at hop
          rw [Call.About.row_eq hop hrow]
      | none =>
          rw [htarget] at hop
          cases op with
          | create => cases hrow
          | _ => exact hop.elim
  | signIn user =>
      obtain rfl : op = .signIn user := hop
      cases hrow
  | tick elapsed =>
      obtain rfl : op = .tick elapsed := hop
      cases hrow

/-- The steps that the row locks admit, if no rollback fails. -/
def underRowLocks [DecidableEq θ] (waits : Call → Bool) (i : θ) (h : History θ) (op : Call)
    (fails : Bool) : Prop :=
  (rowLocks waits).Admits i h op fails ∧ (fails = true → op ≠ .rollbackTransaction)

instance {n : Nat} (waits : Call → Bool) (i : Fin n) (h : History (Fin n)) (op : Call)
    (fails : Bool) : Decidable (underRowLocks waits i h op fails) :=
  inferInstanceAs (Decidable (_ ∧ _))

/-- Whoever has locked a row is one request, which has not ended and has made at most six calls
since, and any requests can be run until they have ended and no row is locked. -/
structure NeverStuck [DecidableEq θ] (waits : Call → Bool) (c₀ c : Running θ) : Prop where
  holder : ∀ i j row, (rowLocks waits).Holds c.trace i row → (rowLocks waits).Holds c.trace j row →
    i = j
  brief : ∀ i row, (rowLocks waits).Holds c.trace i row → ¬ c.Ended i ∧
    ∃ newer taking earlier, c.trace.madeBy i = newer ++ taking :: earlier ∧
      row ∈ taking.op.rows ∧ taking.op.locksRow = true ∧ newer.length ≤ 6
  finish : ∀ requests : List θ, ∃ c', Reach unlocked (underRowLocks waits) c₀ c' ∧
    Past c.trace c'.trace ∧ (∀ i row, ¬ (rowLocks waits).Holds c'.trace i row) ∧
      ∀ i ∈ requests, c'.Ended i

variable [DecidableEq θ] {waits : Call → Bool} {inputs : θ → Input} {w : World} {c : Running θ}
  {i : θ} {row : MatchId}

/-- A call that waits for a row can fail. -/
theorem fault_of_waits {op : Call} (hwaits : (rowLocks waits).waits op row) :
    ∃ failure, unlocked.fault op = some failure := by
  cases op with
  | now => cases hwaits.1
  | _ => exact ⟨.unavailable, rfl⟩

/-- A row has one holder. -/
theorem row_holder_unique {j : θ}
    (hreach : Reach unlocked (underRowLocks waits) (w.begin inputs) c)
    (hi : (rowLocks waits).Holds c.trace i row) (hj : (rowLocks waits).Holds c.trace j row) :
    i = j :=
  (rowLocks waits).holder_unique (fun hallow => hallow.1) fault_of_waits hreach hi hj

instance : Nonempty Failure := ⟨.unavailable⟩

/-- Whoever has locked a row has not ended, and has made at most six calls since. -/
theorem brief_of_reach (hreach : Reach unlocked (underRowLocks waits) (w.begin inputs) c)
    (hholds : (rowLocks waits).Holds c.trace i row) : ¬ c.Ended i ∧
      ∃ newer taking earlier, c.trace.madeBy i = newer ++ taking :: earlier ∧
        row ∈ taking.op.rows ∧ taking.op.locksRow = true ∧ newer.length ≤ 6 := by
  have hstart : ∀ use ∈ some LockUse.idle, use.Of {} := by
    intro use huse
    obtain rfl := Option.some.inj huse
    rfl
  have hfails : ∀ (tid : θ) h op fails, underRowLocks waits tid h op fails →
      fails = true → op ≠ .rollbackTransaction := fun _ _ _ _ hallow => hallow.2
  obtain ⟨hbrief, hafter⟩ := hreach.within (briefLocks_follows rfl) hfails rfl hstart
    (fun _ hends => by cases hends) i (inputs i).brief
  cases hstate : lockMonitor.after .idle (c.trace.madeBy i) with
  | idle | inTransaction =>
      rw [Locks.Holds, Locks.state, rowLocks, hstate] at hholds
      exact hholds.elim
  | leaked leaked =>
      rw [hstate] at hbrief
      cases hbrief
  | held held calls =>
      rw [Locks.Holds, Locks.state, rowLocks, hstate] at hholds
      obtain rfl : held = row := hholds
      constructor
      · rintro ⟨result, hresult⟩
        have hidle := hreach.monitored (briefLocks_follows rfl) hfails hstart i (inputs i).brief
          hresult
        rw [hafter, hstate] at hidle
        cases hidle
      · obtain ⟨newer, taking, earlier, hmade, hrow, hlocks, rfl⟩ := LockUse.held_after hstate
        rw [hstate] at hbrief
        exact ⟨newer, taking, earlier, hmade, hrow, hlocks, of_decide_eq_true hbrief⟩

/-- A request waits for no row but that of its match. -/
theorem target_of_waits {allow : θ → History θ → Call → Bool → Prop}
    (hreach : Reach unlocked allow (w.begin inputs) c) {op : Call}
    {rest : Except Failure op.Result → Api Response} (hprog : (c.threads i).prog = .call op rest)
    (hwaits : (rowLocks waits).waits op row) : (inputs i).target = some row := by
  have hsimilar := (thread_alike hreach i).prog
  rw [hprog] at hsimilar
  exact Input.target_of_may hsimilar.next.1 hwaits.1

/-- Every request needs the row of one match, and has freed it when it ends. -/
theorem rowLocks_oneKey (waits : Call → Bool) (inputs : θ → Input) (w : World) :
    (rowLocks waits).OneKey unlocked (underRowLocks waits) (w.begin inputs)
      fun i => (inputs i).target where
  start _ := rfl
  lock hreach := hreach.lock_eq_none fun _ => rfl
  free hfree := ⟨.inr hfree, Bool.noConfusion⟩
  unique hreach hi hj := row_holder_unique hreach hi hj
  needs hreach hprog _ hwaits := target_of_waits hreach hprog hwaits
  ended hreach hended hholds := (brief_of_reach hreach hholds).1 hended

/-- `mario` and `rival` confirm the result of their second duel, while `admin` overrides the
first. -/
def confirmAndOverride : Fin 3 → Input
  | 0 => .request ⟨mario, .confirmResult 2⟩
  | 1 => .request ⟨rival, .confirmResult 2⟩
  | 2 => .request ⟨admin, .adminOverrideResult 1 ⟨2, 2, none, no_reason_length⟩⟩

end FoosballApi.Matches
