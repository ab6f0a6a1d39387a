import FoosballApi.Matches.ServiceSpecs

/-!
# An override that fails

`overrideResult` publishes its two events before the commit, and reads the roster after it, inside
the same `try`. Whatever fails there, the method rolls back and answers `AUDIT_LOG_WRITE_FAILED`;
but a rollback takes back neither a job that was added nor a transaction that was committed. The
theorem says exactly which failures leave something behind.
-/

namespace FoosballApi.Matches

open Calls Prog World Events

/-- Which awaited calls of the `try` block fail. -/
structure OverrideFaults where
  saveMatch : Bool
  saveAudit : Bool
  auditAdd : Bool
  leaderboardAdd : Bool
  commit : Bool
  rosterRead : Bool

/-- The calls that fail. -/
def OverrideFaults.fails (f : OverrideFaults) : List Call → Call → Bool
  | _, .saveMatch _ => f.saveMatch
  | _, .saveTransactionAuditLog _ => f.saveAudit
  | _, .add .auditQueue _ => f.auditAdd
  | _, .add .leaderboardQueue _ => f.leaderboardAdd
  | _, .commitTransaction => f.commit
  | _, .findPlayers _ => f.rosterRead
  | _, _ => false

/-- The scores of the match and the audit log are as before, and no job was left in the queues an
override publishes to. -/
structure LeavesNothing (matchId : MatchId) (w w' : World) : Prop where
  scores : (w'.row matchId).map (fun r => (r.scoreA, r.scoreB)) =
    (w.row matchId).map fun r => (r.scoreA, r.scoreB)
  auditLogs : w'.auditLogs = w.auditLogs
  auditQueue : w'.auditQueue = w.auditQueue
  leaderboardQueue : w'.leaderboardQueue = w.leaderboardQueue

/-- The override takes effect as far as the first event, and something after it fails. -/
def OverrideFaults.Late (f : OverrideFaults) : Prop :=
  f.saveMatch = false ∧ f.saveAudit = false ∧ f.auditAdd = false ∧
    (f.leaderboardAdd = true ∨ f.commit = true ∨ f.rosterRead = true)

variable {w : World} {matchId : MatchId} {actorId : UserId} {dto : AdminOverrideResultDto}

/-- A call that fails raises an exception and does nothing. -/
theorem perform_fault {op : Call} (hop : op ≠ .now) (s : Session) (w : World) :
    system.perform true op s w = (.error .unavailable, s, w) := by
  refine System.perform_true ?_ s w
  cases op <;> first | rfl | exact absurd rfl hop

theorem LeavesNothing.refl (matchId : MatchId) (w : World) : LeavesNothing matchId w w :=
  ⟨rfl, rfl, rfl, rfl⟩

/-- A job that was added to the audit queue is left behind. -/
theorem not_leavesNothing_of_audit {w' : World}
    (h : w.auditQueue.length < w'.auditQueue.length) : ¬ LeavesNothing matchId w w' :=
  fun hnothing => absurd (congrArg List.length hnothing.auditQueue) (Nat.ne_of_gt h)

/-- A call that does not fail is carried out. -/
@[simp] theorem exec_system (op : Call) (s : Session) (w : World) :
    system.exec op s w = exec op s w := rfl

/-- An audit id that was used up is not a trace of the override. -/
theorem LeavesNothing.takeAuditId (matchId : MatchId) (w : World) :
    LeavesNothing matchId w w.takeAuditId := ⟨rfl, rfl, rfl, rfl⟩

/-- What a transaction writes does not touch the audit queue. -/
@[simp] theorem auditQueue_commit (w : World) (change : Write) :
    (change.commit w).auditQueue = w.auditQueue := by
  cases change with
  | saveMatch m => rw [Write.commit, saveMatch_eq]
  | putConfirmation c => rfl
  | appendAuditLog entry => rfl

/-- The `try` block succeeds, or it fails and leaves something behind exactly when the failure is
late. -/
theorem overrideTransaction_fails {f : OverrideFaults} {m : MatchEntity} {calls : List Call} :
    (AdminOverrideService.overrideTransaction matchId actorId dto m).after system f.fails calls
      ⟨some [], false⟩ w fun out =>
        match out.result with
        | .ok _ => ¬ f.Late
        | .error _ => LeavesNothing matchId w out.world ↔ ¬ f.Late := by
  obtain ⟨saveMatch, saveAudit, auditAdd, leaderboardAdd, commit, rosterRead⟩ := f
  simp only [AdminOverrideService.overrideTransaction, after_bind, after_perform,
    OverrideFaults.fails, OverrideFaults.Late]
  -- The cases follow the calls: before the first event everything rolls back.
  cases saveMatch with
  | true => simp [perform_fault, LeavesNothing.refl]
  | false =>
  cases saveAudit with
  | true => simp [perform_fault, exec, Session.write, LeavesNothing.refl]
  | false =>
  cases auditAdd with
  | true => simp [perform_fault, exec, Session.write, LeavesNothing.takeAuditId]
  | false =>
  cases leaderboardAdd with
  | true =>
      refine iff_of_false (not_leavesNothing_of_audit ?_) (by simp)
      simp [perform_fault, exec, Session.write, enqueue, World.takeAuditId]
  | false =>
  cases commit with
  | true =>
      refine iff_of_false (not_leavesNothing_of_audit ?_) (by simp)
      simp [perform_fault, exec, Session.write, enqueue, World.takeAuditId]
  | false =>
  cases rosterRead with
  | true =>
      refine iff_of_false (not_leavesNothing_of_audit ?_) (by simp)
      simp [perform_fault, exec, Session.write, enqueue, World.takeAuditId]
  | false => simp [exec, Session.write]

/-- The `catch` and `finally` blocks keep the world, and the exception is replaced by
`AUDIT_LOG_WRITE_FAILED` or by the one the rollback raised. -/
theorem rollback_keeps {f : OverrideFaults} {body : Api AdminOverrideResult} {calls : List Call}
    {s : Session} {P R : World → Prop}
    (hbody : body.after system f.fails calls s w fun out =>
      match out.result with
      | .ok _ => P out.world
      | .error _ => R out.world) :
    (catchFinally body
      (fun _ => do
        await .rollbackTransaction
        Prog.throw .auditLogWriteFailed)
      (await .release)).after system f.fails calls s w fun out =>
        match out.result with
        | .ok _ => P out.world
        | .error _ => R out.world := by
  simp only [catchFinally, after_bind, after_attempt]
  refine after_mono hbody fun out hout => ?_
  obtain ⟨result, calls, ⟨transaction, locked⟩, w'⟩ := out
  cases result with
  | ok value => simpa [OverrideFaults.fails, exec] using hout
  | error failure => cases transaction <;> simpa [OverrideFaults.fails, exec] using hout

/-- A failed override leaves nothing behind, unless it was made by an admin on a confirmed match
and failed after its first event. -/
theorem failed_override_leaves_nothing_iff (w : World) (matchId : MatchId) (actorId : UserId)
    (isAdmin : Bool) (dto : AdminOverrideResultDto) (f : OverrideFaults) :
    (AdminOverrideService.overrideResult matchId actorId isAdmin dto).after system f.fails [] {} w
      (fun out => (∃ failure, out.result = .error failure) → LeavesNothing matchId w out.world) ↔
    ¬ (isAdmin = true ∧ (∃ r, w.row matchId = some r ∧ r.status = .confirmed) ∧ f.Late) := by
  change (AdminOverrideService.overrideResult matchId actorId isAdmin dto).after system f.fails []
    {} w fun out => ((∃ failure, out.result = .error failure) → LeavesNothing matchId w out.world) ↔
      ¬ (isAdmin = true ∧ (∃ r, w.row matchId = some r ∧ r.status = .confirmed) ∧ f.Late)
  simp only [AdminOverrideService.overrideResult, after_bind, after_throwIf, after_perform,
    after_require, OverrideFaults.fails, System.perform_false, exec_system, exec, World.findById]
  refine ⟨fun hadmin => ?_, fun hadmin => ⟨fun hmissing => ?_, fun m hm => ⟨fun hstatus => ?_,
    fun hconfirmed => ?_⟩⟩⟩
  · simp [LeavesNothing.refl, hadmin]
  · simp [LeavesNothing.refl, Option.map_eq_none_iff.mp hmissing]
  · obtain ⟨r, hrow, rfl⟩ := Option.map_eq_some_iff.mp hm
    simp_all [LeavesNothing.refl]
  · obtain ⟨r, hrow, rfl⟩ := Option.map_eq_some_iff.mp hm
    have hconfirmed : r.status = .confirmed := not_not.mp hconfirmed
    refine after_mono (rollback_keeps (P := fun _ => ¬ f.Late)
      (R := fun w' => LeavesNothing matchId w w' ↔ ¬ f.Late) overrideTransaction_fails)
      fun out hout => ?_
    have hlate : (isAdmin = true ∧ (∃ r, w.row matchId = some r ∧ r.status = .confirmed) ∧
        f.Late) ↔ f.Late := by
      simpa [hrow, hconfirmed] using fun _ => Decidable.not_not.mp hadmin
    rw [hlate]
    cases hresult : out.result with
    | ok value => simpa [hresult] using hout
    | error failure => simpa [hresult] using hout

/-- The leaderboard queue does not take its event: the audit event stays behind. -/
theorem not_failed_override_leaves_nothing_duel :
    ¬ ∀ (w : World) (matchId : MatchId) (actorId : UserId) (dto : AdminOverrideResultDto)
      (f : OverrideFaults),
      (AdminOverrideService.overrideResult matchId actorId true dto).after system f.fails [] {} w
        fun out => (∃ failure, out.result = .error failure) →
          LeavesNothing matchId w out.world := by
  intro h
  have hnothing := h ((World.withUsers signedIn).run duelConfirmed) 1 admin.sub
    ⟨2, 2, none, by simp⟩ ⟨false, false, false, true, false, false⟩ ⟨.auditLogWriteFailed, by rfl⟩
  have hjobs := congrArg List.length hnothing.auditQueue
  revert hjobs
  decide

end FoosballApi.Matches
