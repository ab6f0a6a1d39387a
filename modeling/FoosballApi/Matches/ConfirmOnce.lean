import FoosballApi.Matches.MatchSteps
import FoosballApi.Matches.Queues
import Mathlib.Data.List.Dedup

/-!
# Concurrent confirmations confirm once

Any number of `confirm` calls on one match that awaits confirmation, and nothing else. The row lock
is modelled as the database has it: the section from the `FOR UPDATE` read to the commit excludes
the same section of other calls, but their unlocked reads, and what they do after their commit, go
on. `Ballot.Step` is what each call guarantees, `Ballot.Inv` the invariant this keeps, and
`CallRecord` what one caller has done so far.
-/

namespace FoosballApi.Matches

open Calls Events Prog Trace World

/-- The statements that wait for the row lock: the `FOR UPDATE` read, and those that follow it in
the transaction. -/
def waitsForRow : Call → Bool
  | .findMatchForUpdate _ | .findOneConfirmation .. | .saveConfirmation ..
  | .findTransactionConfirmations _ | .saveMatch _ | .saveTransactionAuditLog _
  | .commitTransaction => true
  | _ => false

/-- The calls of the services on one match, where its lock excludes the locked sections of others
only. -/
def rowLock : System Call Call.Result Failure Session World where
  exec := exec
  fault := system.fault
  held := Session.locked
  waits := waitsForRow
  enter _ _ _ h := (exec_locked h).imp_right fun ⟨_, hop⟩ => hop ▸ rfl

/-- What a caller has done: whether it has entered the locked section, whether it has confirmed the
match, and the jobs it has added. -/
structure CallRecord where
  entered : Bool := false
  confirmed : Bool := false
  jobs : List (Queue × EventEnvelope) := []

/-- `confirm` calls on a match that awaits confirmation, with votes of players and fewer than the
quorum. -/
structure Ballot (θ : Type) where
  callers : θ → JwtPayload
  matchId : MatchId
  world : World
  awaiting : world.status matchId = some .awaitingConfirmation
  voters : ∀ vote ∈ world.votes matchId, vote.userId ∈ (world.roster matchId).map (·.userId)
  below : (world.votes matchId).length < calculateQuorum (world.roster matchId).length

namespace Ballot

variable {θ : Type}

/-- The requests of the callers. -/
def requests (b : Ballot θ) (i : θ) : Input := .request ⟨b.callers i, .confirmResult b.matchId⟩

/-- The players of the match. -/
def players (b : Ballot θ) : List UserId := (b.world.roster b.matchId).map (·.userId)

/-- The quorum of the match. -/
def quorum (b : Ballot θ) : Nat := calculateQuorum (b.world.roster b.matchId).length

/-- The users who have voted. -/
def votersOf (b : Ballot θ) (w : World) : List UserId := (w.votes b.matchId).map (·.userId)

/-- The match is confirmed. -/
def IsConfirmed (b : Ballot θ) (w : World) : Prop := w.status b.matchId = some .confirmed

instance (b : Ballot θ) (w : World) : Decidable (b.IsConfirmed w) :=
  inferInstanceAs (Decidable (_ = _))

/-- A record after one more call. -/
def recordCall (b : Ballot θ) (w : World) (event : CallEvent θ) (record : CallRecord) :
    CallRecord where
  entered := record.entered || decide (event.op = .findMatchForUpdate b.matchId)
  confirmed := record.confirmed || decide (¬ b.IsConfirmed w ∧ b.IsConfirmed event.world)
  jobs := record.jobs ++ jobsOfEvent event

/-- What a call of a caller leaves. `quiet` calls leave the tables and the clock. -/
inductive Step (b : Ballot θ) (entered : θ → Bool) (h : History θ) (event : CallEvent θ) : Prop
  | quiet (same : SameTables h.world event.world) (clock : event.world.clock = h.world.clock)
  | vote {r : MatchRow} {votes} (op : event.op = .commitTransaction)
      (row : h.world.row b.matchId = some r) (awaiting : r.status = .awaitingConfirmation)
      (entered : entered event.tid = true)
      (cast : Cast (b.callers event.tid).sub (b.world.roster b.matchId) (h.world.votes b.matchId)
        votes)
      (below : votes.length < b.quorum)
      (view : event.world.matchView b.matchId = ⟨some r, h.world.roster b.matchId, votes⟩)
  | confirm {r r' : MatchRow} {votes} (op : event.op = .commitTransaction)
      (row : h.world.row b.matchId = some r) (awaiting : r.status = .awaitingConfirmation)
      (entered : entered event.tid = true)
      (cast : Cast (b.callers event.tid).sub (b.world.roster b.matchId) (h.world.votes b.matchId)
        votes)
      (quorum : b.quorum ≤ votes.length) (confirmed : r'.status = .confirmed)
      (view : event.world.matchView b.matchId = ⟨some r', h.world.roster b.matchId, votes⟩)

variable [DecidableEq θ]

/-- What the call of `i` has done. -/
def record (b : Ballot θ) (i : θ) (h : History θ) : CallRecord :=
  tally b.recordCall {} i h.init h.events

/-- The terms under which the callers run: no call fails, and each does one of the above. -/
def contract (b : Ballot θ) : Contract θ Call Call.Result Failure World where
  init w := w = b.world
  allow _ _ _ fails := fails = false
  guar h := b.Step (fun i => (b.record i h).entered) h

/-- The match awaits confirmation below the quorum and nobody has confirmed it, or it was confirmed
at the quorum by one of the callers. -/
inductive Stage (b : Ballot θ) (h : History θ) : Prop
  | awaiting {r : MatchRow} (row : h.world.row b.matchId = some r)
      (status : r.status = .awaitingConfirmation)
      (below : (h.world.votes b.matchId).length < b.quorum)
      (nobody : ∀ i, (b.record i h).confirmed = false)
  | confirmed {r : MatchRow} (row : h.world.row b.matchId = some r) (status : r.status = .confirmed)
      (quorum : (h.world.votes b.matchId).length = b.quorum) (by_one : θ)
      (once : ∀ i, (b.record i h).confirmed = true ↔ i = by_one)

/-- What holds of the match after any calls. -/
structure Inv (b : Ballot θ) (h : History θ) : Prop where
  roster : h.world.roster b.matchId = b.world.roster b.matchId
  stage : b.Stage h
  kept : ∀ u ∈ b.votersOf b.world, u ∈ b.votersOf h.world
  origin : ∀ u ∈ b.votersOf h.world,
    u ∈ b.votersOf b.world ∨ ∃ i, (b.record i h).entered = true ∧ (b.callers i).sub = u
  players : ∀ u ∈ b.votersOf h.world, u ∈ b.players

variable {b : Ballot θ} {i : θ} {h h' : History θ} {event : CallEvent θ}

/-! ## What a call adds to the records -/

theorem record_snoc_self (htid : event.tid = i) :
    b.record i (h.snoc event) = b.recordCall h.world event (b.record i h) := by
  show (if event.tid = i then _ else _) = _
  rw [if_pos htid]
  rfl

theorem record_snoc_other (htid : event.tid ≠ i) : b.record i (h.snoc event) = b.record i h := by
  show (if event.tid = i then _ else _) = _
  rw [if_neg htid]
  rfl

/-- A caller that has entered has. -/
theorem entered_snoc (hentered : (b.record i h).entered = true) :
    (b.record i (h.snoc event)).entered = true := by
  by_cases htid : event.tid = i
  · rw [record_snoc_self htid, recordCall, hentered, Bool.true_or]
  · rwa [record_snoc_other htid]

/-- A call after which the match is confirmed if and only if it was before confirms nothing. -/
theorem confirmed_snoc (hsame : b.IsConfirmed event.world ↔ b.IsConfirmed h.world) :
    (b.record i (h.snoc event)).confirmed = (b.record i h).confirmed := by
  by_cases htid : event.tid = i
  · have hnot : ¬ (¬ b.IsConfirmed h.world ∧ b.IsConfirmed event.world) := fun hflip =>
      hflip.1 (hsame.mp hflip.2)
    rw [record_snoc_self htid, recordCall, decide_eq_false hnot, Bool.or_false]
  · rw [record_snoc_other htid]

omit [DecidableEq θ] in
/-- A row tells whether the match is confirmed. -/
theorem isConfirmed_iff {w : World} {r : MatchRow} (hrow : w.row b.matchId = some r) :
    b.IsConfirmed w ↔ r.status = .confirmed := by
  rw [IsConfirmed, World.status, hrow, Option.map_some, Option.some.injEq]

/-! ## The invariant -/

omit [DecidableEq θ] in
/-- The caster's vote is one of those after the call. -/
theorem votersOf_cast {userId : UserId} {votes : List MatchConfirmationEntity} {row roster}
    (hcast : Cast userId (b.world.roster b.matchId) (h.world.votes b.matchId) votes)
    (hview : event.world.matchView b.matchId = ⟨row, roster, votes⟩) (u : UserId) :
    u ∈ b.votersOf event.world ↔ u ∈ b.votersOf h.world ∨ u = userId := by
  have hvotes : event.world.votes b.matchId = votes := congrArg MatchView.votes hview
  rw [votersOf, hvotes]
  exact hcast.voters u

/-- What a cast keeps of the invariant. -/
theorem Inv.cast (hinv : b.Inv h) {votes : List MatchConfirmationEntity} {row}
    (hentered : (b.record event.tid h).entered = true)
    (hcast : Cast (b.callers event.tid).sub (b.world.roster b.matchId) (h.world.votes b.matchId)
      votes)
    (hview : event.world.matchView b.matchId = ⟨row, h.world.roster b.matchId, votes⟩)
    (hstage : b.Stage (h.snoc event)) : b.Inv (h.snoc event) := by
  have hvotes : event.world.votes b.matchId = votes := congrArg MatchView.votes hview
  refine ⟨(congrArg MatchView.roster hview).trans hinv.roster, hstage, fun u hu => ?_,
    fun u hu => ?_, fun u hu => ?_⟩
  · exact (votersOf_cast hcast hview u).mpr (.inl (hinv.kept u hu))
  · rcases (votersOf_cast hcast hview u).mp hu with hold | rfl
    · refine (hinv.origin u hold).imp_right (.imp fun _ => .imp_left entered_snoc)
    · exact .inr ⟨event.tid, entered_snoc hentered, rfl⟩
  · obtain ⟨vote, hvote, rfl⟩ := List.mem_map.mp hu
    rw [world_snoc, hvotes] at hvote
    rcases hcast.mem hvote with hold | hplayer
    · exact hinv.players _ (List.mem_map_of_mem hold)
    · exact hplayer

/-- Each call of the callers keeps the invariant. -/
theorem Inv.snoc (hinv : b.Inv h) (hstep : b.Step (fun i => (b.record i h).entered) h event) :
    b.Inv (h.snoc event) := by
  cases hstep with
  | quiet same =>
      have hrow := same.row b.matchId
      have hvoters : b.votersOf event.world = b.votersOf h.world := by
        rw [votersOf, same.votes, votersOf]
      have hstatus : b.IsConfirmed event.world ↔ b.IsConfirmed h.world := by
        rw [IsConfirmed, World.status, hrow, IsConfirmed, World.status]
      refine ⟨(same.roster _).trans hinv.roster, ?_, ?_, ?_, ?_⟩
      · cases hinv.stage with
        | awaiting row status below nobody =>
            refine .awaiting (hrow.trans row) status ?_ fun i => ?_
            · rwa [world_snoc, same.votes]
            · rw [confirmed_snoc hstatus, nobody]
        | confirmed row status quorum by_one once =>
            refine .confirmed (hrow.trans row) status ?_ by_one fun i => ?_
            · rwa [world_snoc, same.votes]
            · rw [confirmed_snoc hstatus, once]
      · rw [world_snoc, hvoters]
        exact hinv.kept
      · rw [world_snoc, hvoters]
        exact fun u hu => (hinv.origin u hu).imp_right (.imp fun _ => .imp_left entered_snoc)
      · rw [world_snoc, hvoters]
        exact hinv.players
  | @vote r votes op row awaiting entered cast below view =>
      have hrow' : event.world.row b.matchId = some r := congrArg MatchView.row view
      have hvotes : event.world.votes b.matchId = votes := congrArg MatchView.votes view
      refine hinv.cast entered cast view ?_
      cases hinv.stage with
      | awaiting _ _ _ nobody =>
          refine .awaiting hrow' awaiting (hvotes ▸ below) fun i => ?_
          rw [confirmed_snoc (by rw [isConfirmed_iff hrow', isConfirmed_iff row]), nobody]
      | confirmed row' status =>
          rw [row] at row'
          cases row'
          rw [awaiting] at status
          cases status
  | @confirm r r' votes op row awaiting entered cast quorum confirmed view =>
      have hrow' : event.world.row b.matchId = some r' := congrArg MatchView.row view
      have hvotes : event.world.votes b.matchId = votes := congrArg MatchView.votes view
      refine hinv.cast entered cast view ?_
      cases hinv.stage with
      | awaiting _ _ below nobody =>
          have hlength := cast.length_le
          refine .confirmed hrow' confirmed (by rw [world_snoc, hvotes]; omega) event.tid
            fun i => ?_
          have hflip : ¬ b.IsConfirmed h.world ∧ b.IsConfirmed event.world := by
            rw [isConfirmed_iff row, isConfirmed_iff hrow', awaiting]
            exact ⟨MatchStatus.awaitingConfirmation_ne_confirmed, confirmed⟩
          by_cases htid : event.tid = i
          · rw [record_snoc_self htid, recordCall, decide_eq_true hflip, Bool.or_true]
            exact iff_of_true rfl htid.symm
          · rw [record_snoc_other htid, nobody]
            exact iff_of_false Bool.false_ne_true (Ne.symm htid)
      | confirmed row' status =>
          rw [row] at row'
          cases row'
          rw [awaiting] at status
          cases status

/-- The invariant holds after any calls of the callers. -/
theorem inv_of_valid (hvalid : b.contract.Valid h) : b.Inv h := by
  refine hvalid.induction (fun w hw => ?_) fun h₀ e _ hinv hguar => hinv.snoc hguar
  obtain rfl : w = b.world := hw
  obtain ⟨r, hrow, hstatus⟩ := Option.map_eq_some_iff.mp b.awaiting
  refine ⟨rfl, .awaiting hrow hstatus b.below fun _ => rfl, fun u hu => hu,
    fun u hu => .inl hu, fun u hu => ?_⟩
  obtain ⟨vote, hvote, rfl⟩ := List.mem_map.mp hu
  exact b.voters vote hvote

/-! ## What a call of `confirm` has done when it ends -/

/-- The caller has voted, or the match is confirmed. -/
def Settled (b : Ballot θ) (i : θ) (w : World) : Prop :=
  (b.callers i).sub ∈ b.votersOf w ∨ b.IsConfirmed w

/-- Who confirmed has added the two jobs, and nobody else has added any. -/
inductive Published : CallRecord → Prop
  | nothing (entered : Bool) : Published ⟨entered, false, []⟩
  | both (entered : Bool) {confirmed invalidate : EventEnvelope}
      (confirmedType : confirmed.eventType = .matchConfirmed)
      (invalidateType : invalidate.eventType = .leaderboardInvalidate) :
      Published ⟨entered, true, [(.matchesQueue, confirmed), (.leaderboardQueue, invalidate)]⟩

theorem Published.of_not_confirmed {record : CallRecord} (hpublished : Published record)
    (hnot : record.confirmed = false) : record.jobs = [] := by
  cases hpublished with
  | nothing => rfl
  | both => cases hnot

theorem Published.of_confirmed {record : CallRecord} (hpublished : Published record)
    (hconfirmed : record.confirmed = true) : ∃ confirmed invalidate : EventEnvelope,
      confirmed.eventType = .matchConfirmed ∧ invalidate.eventType = .leaderboardInvalidate ∧
      record.jobs = [(.matchesQueue, confirmed), (.leaderboardQueue, invalidate)] := by
  cases hpublished with
  | nothing => cases hconfirmed
  | both _ confirmedType invalidateType => exact ⟨_, _, confirmedType, invalidateType, rfl⟩

/-- What holds of a call that has ended with `result`. -/
structure Done {α : Type} (b : Ballot θ) (i : θ) (result : Except Failure α) (h : History θ) :
    Prop where
  settled : (b.record i h).entered = true → b.Settled i h.world
  refused : (b.callers i).sub ∉ b.players → ∃ failure, result = .error failure
  published : Published (b.record i h)

omit [DecidableEq θ] in
/-- No call takes back a vote or a confirmation. -/
theorem Settled.step (hsettled : b.Settled i h.world) {entered : θ → Bool}
    (hstep : b.Step entered h event) : b.Settled i event.world := by
  cases hstep with
  | quiet same =>
      rw [Settled, votersOf, same.votes, IsConfirmed, World.status, same.row]
      exact hsettled
  | vote op row awaiting entered cast below view =>
      refine hsettled.imp (fun hvoted => (votersOf_cast cast view _).mpr (.inl hvoted)) ?_
      rw [isConfirmed_iff row, awaiting]
      exact fun h => absurd h MatchStatus.awaitingConfirmation_ne_confirmed
  | confirm op row awaiting entered cast quorum confirmed view =>
      exact .inr ((isConfirmed_iff (congrArg MatchView.row view)).mpr confirmed)

/-- What others do leaves an ended call as it is. -/
theorem Done.other {α : Type} {result : Except Failure α} (hdone : b.Done i result h)
    (htid : event.tid ≠ i) (hguar : b.contract.guar h event) : b.Done i result (h.snoc event) := by
  obtain ⟨hsettled, hrefused, hpublished⟩ := hdone
  have hrecord : b.record i (h.snoc event) = b.record i h := record_snoc_other htid
  refine ⟨fun hentered => ?_, hrefused, hrecord ▸ hpublished⟩
  rw [hrecord] at hentered
  exact (hsettled hentered).step hguar

/-- What a caller can rely on at a later moment, at which its record is `record`. -/
structure Later (b : Ballot θ) (i : θ) (locked : Bool) (record : CallRecord) (h h' : History θ) :
    Prop where
  record : b.record i h' = record
  settled : b.Settled i h.world → b.Settled i h'.world
  frozen : locked = true → SameTables h.world h'.world ∧ h'.world.clock = h.world.clock
  inv : b.Inv h'

/-- While others are at work the record of a caller stays, and nothing changes under its lock. -/
theorem later_of_meanwhile {s : Session} (hmean : Meanwhile rowLock b.contract i s h h')
    (hvalid : b.contract.Valid h') : b.Later i s.locked (b.record i h) h h' := by
  have hinv := inv_of_valid hvalid
  clear hvalid
  refine ⟨?_, ?_, ?_, hinv⟩
  · refine hmean.induction (I := fun h' => b.record i h' = b.record i h) rfl ?_
    intro h₁ e htid _ _ hrecord
    rw [record_snoc_other htid, hrecord]
  · intro hsettled
    refine hmean.induction (I := fun h' => b.Settled i h'.world) hsettled ?_
    intro h₁ e _ _ hguar hsettled
    exact hsettled.step hguar
  · intro hlocked
    refine hmean.induction (I := fun h' => SameTables h.world h'.world ∧
      h'.world.clock = h.world.clock) ⟨.refl _, rfl⟩ ?_
    intro h₁ e _ hmay hguar hframe
    -- A commit waits for the lock, so only quiet calls are left.
    have hwaits : waitsForRow e.op = false := hmay hlocked
    cases hguar with
    | quiet same clock => exact ⟨hframe.1.trans same, clock.trans hframe.2⟩
    | vote op | confirm op =>
        rw [op] at hwaits
        cases hwaits

variable {α β : Type} {s : Session} {record : CallRecord}
  {Q : Except Failure α → Session → History θ → Prop}

/-- A call, and what follows it. -/
theorem wp_next {op : Call} {next : op.Result → Api α} (hrecord : b.record i h = record)
    (hcall : ∀ h', b.Later i s.locked record h h' →
      b.Step (fun i => (b.record i h').entered) h'
        ⟨i, op, (exec op s h'.world).1, (exec op s h'.world).2.2⟩ ∧
      match (exec op s h'.world).1 with
      | .ok value => wp rowLock b.contract i (next value) (exec op s h'.world).2.1
          (h'.snoc ⟨i, op, (exec op s h'.world).1, (exec op s h'.world).2.2⟩) Q
      | .error failure => Q (.error failure) (exec op s h'.world).2.1
          (h'.snoc ⟨i, op, (exec op s h'.world).1, (exec op s h'.world).2.2⟩)) :
    wp rowLock b.contract i (await op >>= next) s h Q := by
  refine wp_perform_bind fun h' hmean hvalid fails hallow => ?_
  obtain rfl : fails = false := hallow
  obtain ⟨hstep, hnext⟩ := hcall h' (hrecord ▸ later_of_meanwhile hmean hvalid)
  have hperform : rowLock.perform false op s h'.world = exec op s h'.world := rfl
  rw [hperform]
  refine ⟨hstep, ?_⟩
  cases hresult : (exec op s h'.world).1 <;> rw [hresult] at hnext <;> exact hnext

/-- A quiet call, and what follows it. -/
theorem wp_quiet {op : Call} {f : World → op.Result} {g : World → Session} {k : World → World}
    {next : op.Result → Api α} (hrecord : b.record i h = record)
    (hop : ∀ w, exec op s w = (.ok (f w), g w, k w)) (hsame : ∀ w, SameTables w (k w))
    (hclock : ∀ w, (k w).clock = w.clock)
    (hnext : ∀ w h', h'.world = k w →
      b.Later i s.locked ⟨record.entered || decide (op = .findMatchForUpdate b.matchId),
        record.confirmed, record.jobs ++ op.job⟩ h h' →
      wp rowLock b.contract i (next (f w)) (g w) h' Q) :
    wp rowLock b.contract i (await op >>= next) s h Q := by
  refine wp_next hrecord fun h' hlater => ?_
  rw [hop]
  have hstep : b.Step (fun i => (b.record i h').entered) h' ⟨i, op, .ok (f h'.world), k h'.world⟩ :=
    .quiet (hsame _) (hclock _)
  have hstatus : b.IsConfirmed (k h'.world) ↔ b.IsConfirmed h'.world := by
    rw [IsConfirmed, World.status, (hsame _).row, IsConfirmed, World.status]
  refine ⟨hstep, hnext h'.world _ rfl ⟨?_, fun hsettled => ?_, fun hlocked => ?_, ?_⟩⟩
  · have hconfirmed : (b.record i (h'.snoc ⟨i, op, .ok (f h'.world), k h'.world⟩)).confirmed =
        (b.record i h').confirmed := confirmed_snoc hstatus
    rw [record_snoc_self (i := i) rfl, hlater.record] at hconfirmed ⊢
    exact congrArg (CallRecord.mk _ · _) hconfirmed
  · exact (hlater.settled hsettled).step hstep
  · obtain ⟨htables, hclock'⟩ := hlater.frozen hlocked
    exact ⟨htables.trans (hsame _), (hclock _).trans hclock'⟩
  · exact hlater.inv.snoc hstep

/-- A call that leaves the world as it is, and what follows it. -/
theorem wp_read {op : Call} {f : World → op.Result} {g : World → Session}
    {next : op.Result → Api α} (hrecord : b.record i h = record)
    (hop : ∀ w, exec op s w = (.ok (f w), g w, w)) (hentry : op ≠ .findMatchForUpdate b.matchId)
    (hjob : op.job = [])
    (hnext : ∀ h', b.Later i s.locked record h h' →
      wp rowLock b.contract i (next (f h'.world)) (g h'.world) h' Q) :
    wp rowLock b.contract i (await op >>= next) s h Q := by
  refine wp_quiet hrecord hop SameTables.refl (fun _ => rfl) ?_
  rintro w h' rfl hlater
  rw [decide_eq_false hentry, Bool.or_false, hjob, List.append_nil] at hlater
  exact hnext h' hlater

/-! ## The calls of `confirm` -/

/-- What `confirm` has to show when its `try` block ends. -/
structure Left (b : Ballot θ) (i : θ) (result : Except Failure α) (h : History θ) : Prop where
  ok : ∃ value, result = .ok value
  published : Published (b.record i h)
  settled : b.Settled i h.world

/-- A player is in the locked section, and has read the match as `r`. -/
structure Voting (b : Ballot θ) (i : θ) (r : MatchRow) (h : History θ) : Prop where
  record : b.record i h = ⟨true, false, []⟩
  player : (b.callers i).sub ∈ b.players
  row : h.world.row b.matchId = some r
  awaiting : r.status = .awaitingConfirmation

/-- Under the lock the match stays as it was read. -/
theorem Voting.later {r : MatchRow} (hvoting : b.Voting i r h)
    (hlater : b.Later i true ⟨true, false, []⟩ h h') : b.Voting i r h' := by
  obtain ⟨hsame, _⟩ := hlater.frozen rfl
  exact ⟨hlater.record, hvoting.player, (hsame.row _).trans hvoting.row, hvoting.awaiting⟩

/-- The vote of a caller depends on the tables and the clock. -/
theorem voteWrites_of_same {w w' : World} (hsame : SameTables w w') (hclock : w'.clock = w.clock)
    (matchId : MatchId) (userId : UserId) :
    w'.voteWrites matchId userId = w.voteWrites matchId userId := by
  unfold World.voteWrites World.newConfirmation
  rw [hsame.confirmations, hclock]

theorem votes_votedWorld_of_same {w w' : World} (hsame : SameTables w w')
    (hclock : w'.clock = w.clock) (matchId : MatchId) (userId : UserId) :
    (w'.votedWorld matchId userId).votes matchId = (w.votedWorld matchId userId).votes matchId := by
  unfold World.votedWorld
  rw [voteWrites_of_same hsame hclock]
  unfold World.voteWrites
  cases w.confirmations.get (matchId, userId) with
  | some c => exact hsame.votes matchId
  | none =>
      show Data.Table.sel (w'.confirmations.put _) _ = Data.Table.sel (w.confirmations.put _) _
      rw [hsame.confirmations]

/-- The branch that only reports, for a match that is confirmed. -/
theorem reportCurrent_wp {players : List MatchPlayerEntity}
    (hrecord : b.record i h = ⟨true, false, []⟩) (hsettled : b.Settled i h.world) :
    wp rowLock b.contract i (ConfirmationService.reportCurrent b.matchId players) ⟨some [], true⟩ h
      fun result _ h' => b.Left i result h' := by
  unfold ConfirmationService.reportCurrent
  refine wp_read hrecord (fun _ => rfl) nofun rfl fun h₁ hlater₁ => ?_
  refine wp_read hlater₁.record (fun _ => rfl) nofun rfl fun h₂ hlater₂ => ?_
  refine ⟨⟨_, rfl⟩, hlater₂.record ▸ .nothing true, hlater₂.settled (hlater₁.settled hsettled)⟩

/-- A commit of the locked section, and what follows it. -/
theorem wp_commit {r : MatchRow} {changes : List Write} {next : Unit → Api α} (confirmed : Bool)
    (hvoting : b.Voting i r h)
    (hcommit : ∀ h', b.Later i true ⟨true, false, []⟩ h h' →
      b.Step (fun j => (b.record j h').entered) h'
          ⟨i, .commitTransaction, .ok (), changes.foldl Write.commit h'.world⟩ ∧
        (b.IsConfirmed (changes.foldl Write.commit h'.world) ↔ confirmed = true) ∧
        b.Settled i (changes.foldl Write.commit h'.world))
    (hnext : ∀ h', b.record i h' = ⟨true, confirmed, []⟩ → b.Settled i h'.world →
      wp rowLock b.contract i (next ()) {} h' Q) :
    wp rowLock b.contract i (await .commitTransaction >>= next) ⟨some changes, true⟩ h Q := by
  refine wp_next hvoting.record fun h' hlater => ?_
  obtain ⟨hstep, hconfirmed, hsettled⟩ := hcommit h' hlater
  have hvoting' := hvoting.later hlater
  have hnot : ¬ b.IsConfirmed h'.world := by
    rw [isConfirmed_iff hvoting'.row, hvoting.awaiting]
    exact MatchStatus.awaitingConfirmation_ne_confirmed
  refine ⟨hstep, hnext _ ?_ hsettled⟩
  show b.record i (h'.snoc ⟨i, .commitTransaction, .ok (), changes.foldl Write.commit h'.world⟩) = _
  rw [record_snoc_self (i := i) rfl, hvoting'.record]
  refine congrArg (CallRecord.mk true · []) ?_
  rw [Bool.false_or, Bool.eq_iff_iff, decide_eq_true_iff, ← hconfirmed]
  exact and_iff_right hnot

/-- The commit below the quorum leaves the caller's vote. -/
theorem commitVote_wp {r : MatchRow} {value : α} (hvoting : b.Voting i r h)
    (hbelow : ((h.world.votedWorld b.matchId (b.callers i).sub).votes b.matchId).length <
      b.quorum) :
    wp rowLock b.contract i (await .commitTransaction >>= fun _ => Prog.pure value)
      ⟨some (h.world.voteWrites b.matchId (b.callers i).sub), true⟩ h
      fun result _ h' => b.Left i result h' := by
  refine wp_commit false hvoting (fun h' hlater => ?_) fun h' hrecord hsettled => ?_
  · obtain ⟨hsame, hclock⟩ := hlater.frozen rfl
    have hvoting' := hvoting.later hlater
    have hview := votedWorld_view h'.world b.matchId (b.callers i).sub
    have hcast := votedWorld_cast h'.world b.matchId hvoting.player
    rw [hvoting'.row] at hview
    rw [← voteWrites_of_same hsame hclock]
    rw [← votes_votedWorld_of_same hsame hclock] at hbelow
    refine ⟨.vote rfl hvoting'.row hvoting'.awaiting ?_ hcast hbelow hview, ?_, ?_⟩
    · show (b.record i h').entered = true
      rw [hvoting'.record]
    · refine (isConfirmed_iff (congrArg MatchView.row hview)).trans ?_
      rw [hvoting.awaiting]
      exact iff_of_false MatchStatus.awaitingConfirmation_ne_confirmed Bool.false_ne_true
    · exact .inl ((hcast.voters _).mpr (.inr rfl))
  · exact ⟨⟨_, rfl⟩, hrecord ▸ .nothing true, hsettled⟩

/-- The commit at the quorum confirms the match, and the two jobs follow it. -/
theorem confirmMatch_wp {r : MatchRow} {next : Unit → Api α} (hvoting : b.Voting i r h)
    (hquorum : b.quorum ≤
      ((h.world.votedWorld b.matchId (b.callers i).sub).votes b.matchId).length)
    (hnext : ∀ s h', Published (b.record i h') → b.Settled i h'.world →
      wp rowLock b.contract i (next ()) s h' Q) :
    wp rowLock b.contract i (ConfirmationService.confirmMatch b.matchId ⟨r, none⟩ >>= next)
      ⟨some (h.world.voteWrites b.matchId (b.callers i).sub), true⟩ h Q := by
  unfold ConfirmationService.confirmMatch
  rw [Prog.bind_assoc]
  refine wp_read hvoting.record (fun _ => rfl) nofun rfl fun h₁ hlater₁ => ?_
  have hvoting₁ := hvoting.later hlater₁
  rw [Prog.bind_assoc]
  refine wp_read hvoting₁.record (fun _ => rfl) nofun rfl fun h₂ hlater₂ => ?_
  have hvoting₂ := hvoting₁.later hlater₂
  rw [Prog.bind_assoc]
  refine wp_commit true hvoting₂ (fun h' hlater => ?_) fun h₃ hrecord₃ hsettled₃ => ?_
  · obtain ⟨hsame₁, hclock₁⟩ := hlater₁.frozen rfl
    obtain ⟨hsame₂, hclock₂⟩ := hlater₂.frozen rfl
    obtain ⟨hsame₃, hclock₃⟩ := hlater.frozen rfl
    have hsame := (hsame₁.trans hsame₂).trans hsame₃
    have hclock := (hclock₃.trans hclock₂).trans hclock₁
    have hvoting' := hvoting₂.later hlater
    have hcast := votedWorld_cast h'.world b.matchId hvoting.player
    have hid : r.id = b.matchId := id_of_row hvoting'.row
    have hrow : (h'.world.votedWorld b.matchId (b.callers i).sub).row b.matchId = some r :=
      (row_votedWorld _ _ _ _).trans hvoting'.row
    obtain ⟨t, hview⟩ := matchView_saveMatch (m := ⟨r.confirmedAtTime h₁.world.clock, none⟩) hid
      hrow
    rw [roster_votedWorld] at hview
    rw [List.foldl_append, ← voteWrites_of_same hsame hclock]
    rw [← votes_votedWorld_of_same hsame hclock] at hquorum
    refine ⟨.confirm rfl hvoting'.row hvoting'.awaiting ?_ hcast hquorum rfl hview, ?_, ?_⟩
    · show (b.record i h').entered = true
      rw [hvoting'.record]
    · exact iff_of_true ((isConfirmed_iff (congrArg MatchView.row hview)).mpr rfl) rfl
    · exact .inr ((isConfirmed_iff (congrArg MatchView.row hview)).mpr rfl)
  rw [Prog.bind_assoc]
  refine wp_read hrecord₃ (fun _ => rfl) nofun rfl fun h₄ hlater₄ => ?_
  rw [Prog.bind_assoc]
  refine wp_quiet hlater₄.record (fun _ => rfl) (fun _ => sameTables_enqueue _ _ _)
    (fun _ => rfl) fun _ h₅ _ hlater₅ => ?_
  rw [Prog.bind_assoc]
  refine wp_read hlater₅.record (fun _ => rfl) nofun rfl fun h₆ hlater₆ => ?_
  refine wp_quiet hlater₆.record (fun _ => rfl) (fun _ => sameTables_enqueue _ _ _)
    (fun _ => rfl) fun _ h₇ _ hlater₇ => ?_
  refine hnext _ h₇ ?_ ?_
  · rw [hlater₇.record]
    exact .both true rfl rfl
  · exact hlater₇.settled (hlater₆.settled (hlater₅.settled (hlater₄.settled hsettled₃)))

/-- The end of the locked section, for votes that were counted in it. -/
theorem settle_wp {r : MatchRow} {players : List MatchPlayerEntity} (hvoting : b.Voting i r h)
    (hplayers : players = b.world.roster b.matchId) :
    wp rowLock b.contract i (ConfirmationService.settle b.matchId players ⟨r, none⟩
        ((h.world.votedWorld b.matchId (b.callers i).sub).votes b.matchId))
      ⟨some (h.world.voteWrites b.matchId (b.callers i).sub), true⟩ h
      fun result _ h' => b.Left i result h' := by
  unfold ConfirmationService.settle
  rw [hplayers]
  split
  · next hquorum =>
      exact confirmMatch_wp hvoting hquorum fun _ _ hpublished hsettled =>
        ⟨⟨_, rfl⟩, hpublished, hsettled⟩
  · next hbelow => exact commitVote_wp hvoting (Nat.lt_of_not_le hbelow)

/-- The `if (!existing)` block leaves the caller's vote in the transaction. -/
theorem saveVote_wp {r : MatchRow} {next : Unit → Api α} (hvoting : b.Voting i r h)
    (hnext : ∀ h', b.Voting i r h' → wp rowLock b.contract i (next ())
      ⟨some (h'.world.voteWrites b.matchId (b.callers i).sub), true⟩ h' Q) :
    wp rowLock b.contract i (ConfirmationService.saveVote b.matchId (b.callers i).sub
      (h.world.confirmations.get (b.matchId, (b.callers i).sub)) >>= next) ⟨some [], true⟩ h Q := by
  unfold ConfirmationService.saveVote
  cases hget : h.world.confirmations.get (b.matchId, (b.callers i).sub) with
  | some c =>
      have hrest := hnext h hvoting
      rw [voteWrites, hget] at hrest
      exact hrest
  | none =>
      rw [Prog.bind_assoc]
      refine wp_read hvoting.record (fun _ => rfl) (by simp) rfl fun h₁ hlater => ?_
      have hrest := hnext h₁ (hvoting.later hlater)
      rw [voteWrites, (hlater.frozen rfl).1.confirmations, hget] at hrest
      exact hrest

/-- The branch of `confirm` for a match that awaits confirmation. -/
theorem castVote_wp {r : MatchRow} {players : List MatchPlayerEntity} (hvoting : b.Voting i r h)
    (hplayers : players = b.world.roster b.matchId) :
    wp rowLock b.contract i
      (ConfirmationService.castVote b.matchId (b.callers i).sub players ⟨r, none⟩)
      ⟨some [], true⟩ h fun result _ h' => b.Left i result h' := by
  unfold ConfirmationService.castVote
  refine wp_read hvoting.record (fun _ => rfl) nofun rfl fun h₁ hlater₁ => ?_
  refine saveVote_wp (hvoting.later hlater₁) fun h₂ hvoting₂ => ?_
  refine wp_read hvoting₂.record (fun _ => rfl) nofun rfl fun h₃ hlater₃ => ?_
  obtain ⟨hsame, hclock⟩ := hlater₃.frozen rfl
  rw [← voteWrites_of_same hsame hclock]
  exact settle_wp (hvoting₂.later hlater₃) hplayers

/-- The `try` block of `confirm`, for a player. -/
theorem lockedSection_wp {players : List MatchPlayerEntity} (hrecord : b.record i h = {})
    (hplayer : (b.callers i).sub ∈ b.players) (hplayers : players = b.world.roster b.matchId) :
    wp rowLock b.contract i
      (ConfirmationService.lockedSection b.matchId (b.callers i).sub players) ⟨some [], false⟩ h
      fun result _ h' => b.Left i result h' := by
  unfold ConfirmationService.lockedSection
  refine wp_quiet hrecord (fun _ => rfl) .refl (fun _ => rfl) ?_
  rintro w h₁ rfl hlater
  have hentered : b.record i h₁ = ⟨true, false, []⟩ := by
    rw [hlater.record, decide_eq_true rfl]
    rfl
  have hview : (⟨some [], false⟩ : Session).view h₁.world = h₁.world := rfl
  rw [hview]
  cases hlater.inv.stage with
  | @awaiting r row status =>
      rw [row, Option.map_some, Option.filter_some, if_pos (by simpa using status)]
      exact castVote_wp ⟨hentered, hplayer, row, status⟩ hplayers
  | @confirmed r row status =>
      rw [row, Option.map_some, Option.filter_some, if_neg (by simp [status])]
      exact reportCurrent_wp hentered (.inr ((isConfirmed_iff row).mpr status))

/-- A call that ends before it has entered. -/
theorem done_refused {failure : Failure} (hrecord : b.record i h = {}) :
    b.Done i (.error failure : Except Failure α) h := by
  refine ⟨fun hentered => ?_, fun _ => ⟨failure, rfl⟩, hrecord ▸ .nothing false⟩
  rw [hrecord] at hentered
  cases hentered

/-- `confirm` under the terms of the ballot. -/
theorem confirm_wp (hrecord : b.record i h = {}) :
    wp rowLock b.contract i (ConfirmationService.confirm b.matchId (b.callers i).sub) {} h
      fun result _ h' => b.Done i result h' := by
  unfold ConfirmationService.confirm
  refine wp_read hrecord (fun _ => rfl) nofun rfl fun h₁ hlater₁ => ?_
  refine wp_bind.mpr (wp_require.mpr ⟨fun _ => done_refused hlater₁.record, fun m hm => ?_⟩)
  refine wp_bind.mpr (wp_throwIf.mpr ⟨fun _ => done_refused hlater₁.record, fun _ => ?_⟩)
  refine wp_read hlater₁.record (fun _ => rfl) nofun rfl fun h₂ hlater₂ => ?_
  refine wp_bind.mpr (wp_throwIf.mpr ⟨fun _ => done_refused hlater₂.record, fun hplayer => ?_⟩)
  have hplayers := hlater₂.inv.roster
  have hplayer : (b.callers i).sub ∈ b.players := by
    rw [players, ← hplayers]
    exact Decidable.not_not.mp hplayer
  refine wp_read hlater₂.record (fun _ => rfl) nofun rfl fun h₃ hlater₃ => ?_
  refine wp_read hlater₃.record (fun _ => rfl) nofun rfl fun h₄ hlater₄ => ?_
  refine wp_catchFinally.mpr (wp_mono (lockedSection_wp hlater₄.record hplayer hplayers) ?_)
  rintro _ s h₅ ⟨⟨value, rfl⟩, hpublished, hsettled⟩
  refine wp_read rfl (fun _ => rfl) nofun rfl fun h₆ hlater₆ => ?_
  refine ⟨fun _ => hlater₆.settled hsettled, fun hno => absurd hplayer hno, ?_⟩
  rw [hlater₆.record]
  exact hpublished

/-! ## The jobs of all callers -/

/-- When only one caller has added jobs, its jobs are all. -/
theorem jobsAdded_eq (one : θ) (hothers : ∀ i, i ≠ one → (b.record i h).jobs = []) :
    jobsAdded h = (b.record one h).jobs := by
  obtain ⟨init, events⟩ := h
  induction events with
  | nil => rfl
  | cons event earlier ih =>
      change ∀ i, i ≠ one → (b.record i (Trace.snoc ⟨init, earlier⟩ event)).jobs = [] at hothers
      change jobsAdded (Trace.snoc ⟨init, earlier⟩ event) =
        (b.record one (Trace.snoc ⟨init, earlier⟩ event)).jobs
      by_cases htid : event.tid = one
      · rw [jobsAdded_snoc, record_snoc_self htid, ih fun i hi => ?_]
        · rfl
        · rw [← hothers i hi, record_snoc_other fun hcaller => hi (hcaller.symm.trans htid)]
      · have hnone := hothers event.tid htid
        rw [record_snoc_self rfl, recordCall, List.append_eq_nil_iff] at hnone
        rw [jobsAdded_snoc, hnone.2, List.append_nil, record_snoc_other htid]
        refine ih fun i hi => ?_
        by_cases hcaller : event.tid = i
        · exact hcaller ▸ hnone.1
        · rw [← hothers i hi, record_snoc_other hcaller]

/-- When no caller has added jobs, there are none. -/
theorem jobsAdded_eq_nil (hnobody : ∀ i, (b.record i h).jobs = []) : jobsAdded h = [] := by
  obtain ⟨init, events⟩ := h
  cases events with
  | nil => rfl
  | cons event earlier => rw [jobsAdded_eq event.tid fun i _ => hnobody i, hnobody]

end Ballot

namespace Ballot

variable {θ : Type} [DecidableEq θ] {b : Ballot θ} {i : θ} {h : History θ}

/-! ## Every run -/

/-- The users whose calls have entered the locked section. -/
def usersEntered (b : Ballot θ) (h : History θ) : List UserId :=
  (h.events.filter (·.op = .findMatchForUpdate b.matchId)).map fun e => (b.callers e.tid).sub

/-- The number of users who had voted at the start or have entered the locked section. -/
def turnout (b : Ballot θ) (h : History θ) : Nat :=
  (b.votersOf b.world ++ b.usersEntered h).dedup.length

/-- The match was confirmed once if enough players turned out, and not at all otherwise. -/
structure ConfirmedOnce (b : Ballot θ) (c : Running θ) : Prop where
  confirmed : b.IsConfirmed c.trace.world ↔ b.quorum ≤ b.turnout c.trace
  votes : (c.trace.world.votes b.matchId).length = min (b.turnout c.trace) b.quorum
  published : b.IsConfirmed c.trace.world → ∃ confirmed invalidate : EventEnvelope,
    confirmed.eventType = .matchConfirmed ∧ invalidate.eventType = .leaderboardInvalidate ∧
    c.trace.world.matchesQueue = b.world.matchesQueue ++ [confirmed] ∧
    c.trace.world.leaderboardQueue = b.world.leaderboardQueue ++ [invalidate]
  unpublished : ¬ b.IsConfirmed c.trace.world →
    c.trace.world.matchesQueue = b.world.matchesQueue ∧
    c.trace.world.leaderboardQueue = b.world.leaderboardQueue
  refused : ∀ i, (b.callers i).sub ∉ b.players →
    (∃ failure, c.resultOf i = some (.error failure)) ∧
    ∀ vote ∈ c.trace.world.votes b.matchId, vote.userId ≠ (b.callers i).sub

/-- The records tell which users have entered. -/
theorem entered_iff :
    (b.record i h).entered = true ↔
      ∃ e ∈ h.events, e.tid = i ∧ e.op = .findMatchForUpdate b.matchId := by
  obtain ⟨init, events⟩ := h
  induction events with
  | nil => exact iff_of_false Bool.false_ne_true (by simp)
  | cons event earlier ih =>
      change (b.record i (Trace.snoc ⟨init, earlier⟩ event)).entered = true ↔ _
      rw [List.exists_mem_cons_iff, ← ih]
      by_cases htid : event.tid = i
      · rw [record_snoc_self htid, recordCall, Bool.or_eq_true, decide_eq_true_iff, or_comm]
        exact or_congr_left (and_iff_right htid).symm
      · rw [record_snoc_other htid]
        exact (or_iff_right fun hcall => htid hcall.1).symm

theorem mem_usersEntered {u : UserId} :
    u ∈ b.usersEntered h ↔ ∃ i, (b.record i h).entered = true ∧ (b.callers i).sub = u := by
  simp only [usersEntered, List.mem_map, List.mem_filter, decide_eq_true_eq, entered_iff]
  constructor
  · rintro ⟨e, ⟨he, hop⟩, rfl⟩
    exact ⟨e.tid, ⟨e, he, rfl, hop⟩, rfl⟩
  · rintro ⟨_, ⟨e, he, rfl, hop⟩, rfl⟩
    exact ⟨e, ⟨he, hop⟩, rfl⟩

/-- Whoever has voted has turned out. -/
theorem Inv.voters_le (hinv : b.Inv h) : (h.world.votes b.matchId).length ≤ b.turnout h := by
  have hsubset : b.votersOf h.world ⊆ (b.votersOf b.world ++ b.usersEntered h).dedup := by
    intro u hu
    rw [List.mem_dedup, List.mem_append, mem_usersEntered]
    exact hinv.origin u hu
  have hle := List.Nodup.length_le_of_subset (votes_users_nodup h.world b.matchId) hsubset
  rwa [List.length_map] at hle

/-- When whoever has entered has voted, the voters are those who turned out. -/
theorem Inv.turnout_le (hinv : b.Inv h)
    (hvoted : ∀ i, (b.record i h).entered = true → (b.callers i).sub ∈ b.votersOf h.world) :
    b.turnout h ≤ (h.world.votes b.matchId).length := by
  have hsubset : (b.votersOf b.world ++ b.usersEntered h).dedup ⊆ b.votersOf h.world := by
    intro u hu
    rw [List.mem_dedup, List.mem_append, mem_usersEntered] at hu
    rcases hu with hold | ⟨i, hentered, rfl⟩
    · exact hinv.kept u hold
    · exact hvoted i hentered
  have hle := List.Nodup.length_le_of_subset (List.nodup_dedup _) hsubset
  exact Nat.le_trans hle (Nat.le_of_eq (List.length_map _))

/-- `confirmResult` under the terms of the ballot. -/
theorem requests_wp (b : Ballot θ) (i : θ) :
    wp rowLock b.contract i (b.requests i).prog {} ⟨b.world, []⟩
      fun result _ h => b.Done i result h := by
  refine wp_bind.mpr (wp_mono (confirm_wp rfl) fun result s h hdone => ?_)
  obtain ⟨hsettled, hrefused, hpublished⟩ := hdone
  cases result with
  | ok status =>
      refine ⟨hsettled, fun hno => ?_, hpublished⟩
      obtain ⟨failure, hfailure⟩ := hrefused hno
      cases hfailure
  | error failure => exact ⟨hsettled, fun _ => ⟨failure, rfl⟩, hpublished⟩

/-- However `confirm` calls on a match that awaits confirmation interleave, when all have ended the
match was confirmed once if enough players turned out, and not at all otherwise. -/
theorem concurrent_confirmations_confirm_once (b : Ballot θ) {c : Running θ}
    (hreach : Reach rowLock (fun _ _ _ fails => fails = false) (b.world.begin b.requests) c)
    (hended : ∀ i, (c.resultOf i).isSome) : b.ConfirmedOnce c := by
  have hother : ∀ i (r : Except Failure Response) (s : Session) h e, e.tid ≠ i →
      b.contract.guar h e → b.Done i r h → b.Done i r (h.snoc e) :=
    fun _ _ _ _ _ htid hguar hdone => hdone.other htid hguar
  have hinv : b.Inv c.trace := inv_of_valid (Contract.sound hreach rfl rfl hother b.requests_wp).1
  have hdone : ∀ i, ∃ result, c.resultOf i = some result ∧ b.Done i result c.trace := fun i => by
    obtain ⟨result, hresult⟩ := Option.isSome_iff_exists.mp (hended i)
    exact ⟨result, hresult, Contract.result_post hreach rfl rfl hother b.requests_wp hresult⟩
  have hpublished : ∀ i, Published (b.record i c.trace) := fun i =>
    (hdone i).elim fun _ hd => hd.2.published
  have hrefused : ∀ i, (b.callers i).sub ∉ b.players →
      (∃ failure, c.resultOf i = some (.error failure)) ∧
      ∀ vote ∈ c.trace.world.votes b.matchId, vote.userId ≠ (b.callers i).sub := fun i hno => by
    obtain ⟨result, hresult, hd⟩ := hdone i
    obtain ⟨failure, rfl⟩ := hd.refused hno
    refine ⟨⟨failure, hresult⟩, fun vote hvote huser => hno ?_⟩
    exact huser ▸ hinv.players _ (List.mem_map_of_mem hvote)
  have hinit : c.trace.init = b.world := hreach.init
  have hmatches := holds_of_made rfl hreach.made .matchesQueue
  have hleaderboard := holds_of_made rfl hreach.made .leaderboardQueue
  rw [Holds, hinit] at hmatches hleaderboard
  have hle := hinv.voters_le
  cases hinv.stage with
  | awaiting row status below nobody =>
      have hnot : ¬ b.IsConfirmed c.trace.world := by
        rw [isConfirmed_iff row, status]
        exact MatchStatus.awaitingConfirmation_ne_confirmed
      have hge := hinv.turnout_le fun i hentered =>
        (hdone i).elim fun _ hd => (hd.2.settled hentered).resolve_right hnot
      have hjobs : jobsAdded c.trace = [] := jobsAdded_eq_nil fun i =>
        (hpublished i).of_not_confirmed (nobody i)
      rw [hjobs] at hmatches hleaderboard
      refine ⟨iff_of_false hnot (by omega), by omega, fun h => absurd h hnot, fun _ => ?_, hrefused⟩
      exact ⟨hmatches.trans (List.append_nil _), hleaderboard.trans (List.append_nil _)⟩
  | confirmed row status quorum by_one once =>
      have hconfirmed := (isConfirmed_iff row).mpr status
      obtain ⟨confirmed, invalidate, hconfirmedType, hinvalidateType, hown⟩ :=
        (hpublished by_one).of_confirmed ((once by_one).mpr rfl)
      have hjobs := jobsAdded_eq by_one fun i hi =>
        (hpublished i).of_not_confirmed (Bool.eq_false_iff.mpr fun h => hi ((once i).mp h))
      rw [hjobs, hown] at hmatches hleaderboard
      refine ⟨iff_of_true hconfirmed (by omega), by omega, fun _ => ?_,
        fun h => absurd hconfirmed h, hrefused⟩
      exact ⟨confirmed, invalidate, hconfirmedType, hinvalidateType, hmatches, hleaderboard⟩

/-! ## A run -/

/-- `mario` confirms twice, and `rival` and an outsider once each, on the match of the duel. -/
def duelBallot : Ballot (Fin 4) where
  callers := fun
    | 0 | 1 => mario
    | 2 => rival
    | 3 => admin
  matchId := 1
  world := (World.withUsers signedIn).run duel
  awaiting := by decide
  voters := by decide
  below := by decide

/-- Everybody reads the match first; then `mario` votes twice, while `rival` reads on. -/
def crowdedSchedule : List (Fin 4 × Bool) :=
  [(0, false), (1, false), (2, false), (3, false), (3, false)] ++ .replicate 4 (0, false) ++
    .replicate 3 (2, false) ++ .replicate 5 (0, false) ++ .replicate 8 (1, false) ++
    .replicate 12 (2, false)

/-- The match of the duel is confirmed once. -/
theorem concurrent_confirmations_confirm_once_duel :
    ∃ c : Running (Fin 4), duelBallot.IsConfirmed c.trace.world ∧ duelBallot.ConfirmedOnce c := by
  obtain ⟨c, hreach, htest⟩ := Reach.exists_of_execute rowLock (fun _ _ _ fails => fails = false)
    (duelBallot.world.begin duelBallot.requests) crowdedSchedule
    (fun c => duelBallot.IsConfirmed c.trace.world ∧ ∀ i, (c.resultOf i).isSome) (by decide)
  obtain ⟨hconfirmed, hended⟩ := of_decide_eq_true htest
  exact ⟨c, hconfirmed, concurrent_confirmations_confirm_once duelBallot hreach hended⟩

end Ballot

end FoosballApi.Matches
