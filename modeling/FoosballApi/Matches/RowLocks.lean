import FoosballApi.Calls.Locks
import FoosballApi.Matches.CallEffects

/-!
# Locks on the rows of `matches`

Each row has a lock of its own. A transaction takes it with a `FOR UPDATE` read or with the `UPDATE`
of a save, waits for it while another transaction has it, and keeps it until it is committed or
rolled back. `LockUse` reads this off the calls of a request. A query runner that is released inside
its transaction has leaked the lock: releasing it does not end the transaction.

The calls of `unlocked` are never held up; a run under the locks is one whose steps the locks
admit. Which other calls wait for the row of their match is left open.
-/

namespace FoosballApi.Matches

open Calls

/-- The calls of the services, without the lock of `system`. -/
def unlocked : System Call Call.Result Failure Session World where
  exec := exec
  fault := system.fault
  held _ := false
  waits _ := false
  enter _ _ _ h := .inl h

/-- The rows of `matches` that a call is about. -/
def Call.rows : Call → List MatchId
  | .findById id | .delete id | .findPlayers id | .findConfirmations id
  | .deleteAllConfirmations id | .findMatchForUpdate id | .findOneConfirmation id _
  | .saveConfirmation id _ | .findTransactionConfirmations id => [id]
  | .save m | .saveMatch m => [m.id]
  | .savePlayers players => players.map (·.matchId)
  | _ => []

/-- The calls that take the lock of their row when a transaction is open. A save counts as an
`UPDATE` also when it changes nothing. -/
def Call.locksRow : Call → Bool
  | .findMatchForUpdate _ | .saveMatch _ => true
  | _ => false

/-- What a request has done to the row locks: it is in no transaction, in one without a lock, or it
has locked a row and made so many calls since, or it has released its query runner without ending
the transaction. -/
inductive LockUse where
  | idle
  | inTransaction
  | held (row : MatchId) (calls : Nat)
  | leaked (row : Option MatchId)
  deriving DecidableEq, Repr

namespace LockUse

/-- The use after one more call. -/
def next : LockUse → (op : Call) → Except Failure op.Result → LockUse
  | .idle, .startTransaction, .ok _ => .inTransaction
  | .idle, _, _ => .idle
  | .inTransaction, .findMatchForUpdate matchId, .ok _ => .held matchId 0
  | .inTransaction, .saveMatch m, .ok _ => .held m.id 0
  | .inTransaction, .commitTransaction, .ok _ => .idle
  | .inTransaction, .rollbackTransaction, .ok _ => .idle
  | .inTransaction, .release, .ok _ => .leaked none
  | .inTransaction, _, _ => .inTransaction
  | .held .., .commitTransaction, .ok _ => .idle
  | .held .., .rollbackTransaction, .ok _ => .idle
  | .held row _, .release, .ok _ => .leaked (some row)
  | .held row calls, _, _ => .held row (calls + 1)
  | .leaked row, _, _ => .leaked row

/-- The row is locked. -/
def Holds : LockUse → MatchId → Prop
  | .idle, _ | .inTransaction, _ => False
  | .held row _, matchId => row = matchId
  | .leaked row, matchId => row = some matchId

instance (use : LockUse) (matchId : MatchId) : Decidable (use.Holds matchId) := by
  cases use <;> unfold Holds <;> infer_instance

end LockUse

/-- The monitor of the row locks. An open transaction can be rolled back. -/
def lockMonitor : Monitor Call Call.Result Failure LockUse where
  next := LockUse.next
  admits use op result :=
    match use, op with
    | .inTransaction, .rollbackTransaction | .held .., .rollbackTransaction =>
        ∃ value, result = .ok value
    | _, _ => True

/-- Whether a call has gone through is all the locks see of its result. -/
theorem lockMonitor_blind : lockMonitor.Blind := by
  intro use op value value'
  cases use <;> cases op <;> rfl

/-- A call that takes a row has waited for it. -/
theorem LockUse.holds_of_next {use : LockUse} {op : Call} {result : Except Failure op.Result}
    {matchId : MatchId} (hholds : (use.next op result).Holds matchId) :
    use.Holds matchId ∨
      (matchId ∈ op.rows ∧ op.locksRow = true) ∧ ∃ value, result = .ok value := by
  cases result with
  | error failure =>
      refine .inl ?_
      cases use with
      | idle | inTransaction => cases op <;> cases hholds
      | held row calls => cases op <;> exact hholds
      | leaked row => cases op <;> exact hholds
  | ok value =>
      cases use with
      | idle => cases op <;> cases hholds
      | inTransaction =>
          cases op with
          | findMatchForUpdate id =>
              exact .inr ⟨⟨List.mem_singleton.mpr (Eq.symm hholds), rfl⟩, value, rfl⟩
          | saveMatch m =>
              exact .inr ⟨⟨List.mem_singleton.mpr (Eq.symm hholds), rfl⟩, value, rfl⟩
          | release => cases hholds
          | _ => cases hholds
      | held row calls =>
          refine .inl ?_
          cases op with
          | commitTransaction | rollbackTransaction => cases hholds
          | release => exact Option.some.inj hholds
          | _ => exact hholds
      | leaked row => cases op <;> exact .inl hholds

/-- A lock on each row: it is taken by the calls that lock, and the calls of `waits` wait for it as
well. -/
def rowLocks (waits : Call → Bool) : Locks lockMonitor MatchId where
  init := .idle
  held := LockUse.Holds
  waits op matchId := matchId ∈ op.rows ∧ (op.locksRow || waits op) = true
  init_free _ h := h
  taken h := (LockUse.holds_of_next h).imp_right fun ⟨⟨hrow, hlocks⟩, hok⟩ =>
    ⟨⟨hrow, by rw [hlocks, Bool.true_or]⟩, hok⟩

instance {n : Nat} (waits : Call → Bool) (i : Fin n) (h : History (Fin n)) (op : Call)
    (fails : Bool) : Decidable ((rowLocks waits).Admits i h op fails) :=
  decidable_of_iff (fails = true ∨ ∀ matchId ∈ op.rows, (op.locksRow || waits op) = true →
    ∀ j, (lockMonitor.after .idle (h.madeBy j)).Holds matchId → j = i)
    (or_congr_right (forall_congr' fun _ => and_imp.symm))

end FoosballApi.Matches
