import FoosballApi.Matches.Invariant
import FoosballApi.Matches.RowHistory
import FoosballApi.Matches.StatusMachine

/-!
# The matches queue as the history of the matches

A consumer that reads the jobs of the matches queue in order learns the status of every match:
`replay` is such a consumer, which refuses a job that does not fit what it has read before. When
requests do not overlap it refuses none, and what it has read about a stored match agrees with the
match's row. Overrides and deletions are not published, so the scores of a confirmed match may
differ from those that were read.
-/

namespace FoosballApi.Events

open Matches

/-- The match that a payload is about. -/
def Payload.matchId? : Payload → Option MatchId
  | .matchConfirmed matchId .. | .matchCancelled matchId _ | .matchResultSubmitted matchId .. =>
      some matchId
  | .leaderboardInvalidate .. | .auditLog _ => none

end FoosballApi.Events

namespace FoosballApi.Matches

open Calls Data Events Prog Users World

/-! ## A consumer -/

/-- What was read about a match. -/
inductive Learned where
  | unsubmitted
  | submitted (matchType : MatchType) (scoreA scoreB : Score)
  | confirmed (scoreA scoreB : Score) (confirmedAt : Date)
  deriving DecidableEq, Repr

/-- One more job about the match. -/
def Learned.read : Learned → Payload → Option Learned
  | .unsubmitted, .matchResultSubmitted _ matchType scoreA scoreB =>
      some (.submitted matchType scoreA scoreB)
  | .submitted .., .matchCancelled .. => some .unsubmitted
  | .submitted _ scoreA scoreB, .matchConfirmed _ winner scoreA' scoreB' confirmedAt =>
      if scoreA' = scoreA ∧ scoreB' = scoreB ∧ winner = winnerTeam scoreA scoreB then
        some (.confirmed scoreA scoreB confirmedAt)
      else none
  | _, _ => none

/-- One more job, which may be about another match. -/
def Learned.step (matchId : MatchId) (s : Learned) (job : EventEnvelope) : Option Learned :=
  if job.payload.matchId? = some matchId then s.read job.payload else some s

/-- What the jobs say about a match. -/
def replay (matchId : MatchId) (jobs : List EventEnvelope) : Option Learned :=
  jobs.foldlM (Learned.step matchId) .unsubmitted

theorem replay_append (matchId : MatchId) (jobs more : List EventEnvelope) :
    replay matchId (jobs ++ more) =
      (replay matchId jobs).bind fun s => more.foldlM (Learned.step matchId) s :=
  List.foldlM_append ..

theorem replay_snoc (matchId : MatchId) (jobs : List EventEnvelope) (job : EventEnvelope) :
    replay matchId (jobs ++ [job]) = (replay matchId jobs).bind (Learned.step matchId · job) := by
  rw [replay_append]
  simp

/-- A job about another match is skipped. -/
theorem Learned.step_of_ne {matchId : MatchId} {job : EventEnvelope}
    (hjob : job.payload.matchId? ≠ some matchId) (s : Learned) :
    s.step matchId job = some s := if_neg hjob

/-- Nothing is read about a match once it was read as confirmed. -/
theorem Learned.skips_confirmed {matchId : MatchId} {scoreA scoreB : Score} {confirmedAt : Date}
    {jobs : List EventEnvelope} {s : Learned}
    (hjobs : jobs.foldlM (Learned.step matchId) (.confirmed scoreA scoreB confirmedAt) = some s) :
    ∀ job ∈ jobs, job.payload.matchId? ≠ some matchId := by
  induction jobs with
  | nil => exact fun _ hjob => absurd hjob List.not_mem_nil
  | cons job jobs ih =>
      rw [List.foldlM_cons] at hjobs
      by_cases hjob : job.payload.matchId? = some matchId
      · have hrefused : Learned.step matchId (.confirmed scoreA scoreB confirmedAt) job = none := by
          rw [Learned.step, if_pos hjob]
          cases job.payload <;> rfl
        rw [hrefused] at hjobs
        cases hjobs
      · rw [Learned.step_of_ne hjob] at hjobs
        intro job' hjob'
        rcases List.mem_cons.mp hjob' with rfl | hmem
        · exact hjob
        · exact ih hjobs job' hmem

/-- What was read agrees with a row. -/
def Learned.Agrees (s : Learned) (r : MatchRow) : Prop :=
  match s with
  | .unsubmitted => r.status = .draft ∨ r.status = .playing
  | .submitted matchType scoreA scoreB =>
      r.status = .awaitingConfirmation ∧ r.matchType = matchType ∧ r.scoreA = some scoreA ∧
        r.scoreB = some scoreB
  | .confirmed _ _ confirmedAt => r.status = .confirmed ∧ r.confirmedAt = some confirmedAt

/-- The matches queue tells the status of a match, and nothing about a match not yet created. -/
structure World.Told (w : World) (matchId : MatchId) (s : Learned) : Prop where
  replayed : replay matchId w.matchesQueue = some s
  fresh : w.nextMatchId ≤ matchId → s = .unsubmitted
  agrees : ∀ r, w.row matchId = some r → s.Agrees r

namespace World.Told

variable {w w' : World} {matchId : MatchId} {s : Learned}

/-- A request that publishes nothing. -/
theorem quiet (h : w.Told matchId s) (hqueue : w'.matchesQueue = w.matchesQueue)
    (hnext : w.nextMatchId ≤ w'.nextMatchId)
    (hrow : ∀ r', w'.row matchId = some r' →
      (∃ r, w.row matchId = some r ∧ ∀ s : Learned, s.Agrees r → s.Agrees r') ∨
        w.nextMatchId ≤ matchId ∧ r'.status = .draft) : w'.Told matchId s where
  replayed := hqueue ▸ h.replayed
  fresh hid := h.fresh (hnext.trans hid)
  agrees r' hr' := by
    rcases hrow r' hr' with ⟨r, hr, hkeep⟩ | ⟨hnew, hdraft⟩
    · exact hkeep s (h.agrees r hr)
    · rw [h.fresh hnew]
      exact .inl hdraft

/-- A request that saves a stored match as `m` and publishes a job about it. -/
theorem publish (h : w.Told matchId s) (hw : w.Sound) (m : MatchEntity) (mid : World)
    (job : EventEnvelope) {r : MatchRow} (hrow : w.row m.id = some r)
    (hmid : ∀ id, mid.row id = w.row id)
    (hqueue : w'.matchesQueue = w.matchesQueue ++ [job])
    (hnext : w'.nextMatchId = w.nextMatchId)
    (hsame : ∀ id, w'.row id = (mid.saveMatch m).row id)
    (hjob : job.payload.matchId? = some m.id)
    (hread : s.Agrees r → ∃ s', s.read job.payload = some s' ∧
      ∀ t, s'.Agrees { m.toMatchRow with updatedAt := t }) : ∃ s', w'.Told matchId s' := by
  by_cases hid : m.id = matchId
  · subst hid
    obtain ⟨s', hs', hagrees⟩ := hread (h.agrees r hrow)
    refine ⟨s', ?_, fun hfresh => ?_, fun r' hr' => ?_⟩
    · rw [hqueue, replay_snoc, h.replayed]
      exact (if_pos hjob).trans hs'
    · rw [hw.fresh m.id (hnext ▸ hfresh)] at hrow
      cases hrow
    · obtain ⟨t, ht⟩ := row_saveMatch_self (w := mid) m
      obtain rfl := Option.some.inj ((hsame m.id).symm.trans hr' |>.symm.trans ht)
      exact hagrees t
  · refine ⟨s, ?_, fun hfresh => h.fresh (hnext ▸ hfresh), fun r' hr' => h.agrees r' ?_⟩
    · have hother : job.payload.matchId? ≠ some matchId := fun heq =>
        hid (Option.some.inj (hjob.symm.trans heq))
      rw [hqueue, replay_snoc, h.replayed]
      exact Learned.step_of_ne hother s
    · rw [hsame, row_saveMatch_of_ne (Ne.symm hid), hmid] at hr'
      exact hr'

end World.Told

/-! ## Requests -/

/-- The jobs of a submission and of a cancellation. -/
def submittedJob (matchId : MatchId) (matchType : MatchType) (dto : SubmitResultDto)
    (occurredAt : Date) : EventEnvelope where
  eventType := .matchResultSubmitted
  version := 1
  occurredAt := occurredAt
  payload := .matchResultSubmitted matchId matchType dto.scoreA dto.scoreB

def cancelledJob (matchId : MatchId) (cancelledBy : UserId) (occurredAt : Date) :
    EventEnvelope where
  eventType := .matchConfirmationCancelled
  version := 1
  occurredAt := occurredAt
  payload := .matchCancelled matchId cancelledBy

variable {w : World} {matchId : MatchId} {user : JwtPayload} {s : Learned}

/-- `submitResult` publishes the scores it saves. -/
theorem submitResult_publishes (dto : SubmitResultDto) :
    (MatchService.submitResult matchId user.sub dto).after system noFaults [] {} w fun out =>
      out.world = w ∨ ∃ r, w.row matchId = some r ∧ ¬ r.status.Locked ∧
        out.world = (w.saveMatch
          ⟨{ r with
            scoreA := some dto.scoreA
            scoreB := some dto.scoreB
            status := .awaitingConfirmation }, some (w.roster matchId)⟩).enqueue
          .matchesQueue (submittedJob matchId r.matchType dto w.clock) := by
  refine editable_after (fun _ => .inl rfl) fun r hrow hcreator hopen => ?_
  simp only [after_bind, after_perform, perform_noFaults, exec, after_throwIf, Nat.not_lt, pure_eq,
    after_pure]
  refine ⟨fun _ => .inl trivial, fun hfull => .inr ⟨r, hrow, hopen, ?_⟩⟩
  obtain ⟨t, hsaved⟩ := row_saveMatch_self (w := w) ⟨{ r with
    scoreA := some dto.scoreA, scoreB := some dto.scoreB, status := .awaitingConfirmation },
    some (w.roster matchId)⟩
  unfold savedEntity
  rw [hsaved, clock_saveMatch]
  rfl

/-- `cancel` publishes that it reopens the match. -/
theorem cancel_publishes :
    (ConfirmationService.cancel matchId user.sub).after system noFaults [] {} w fun out =>
      out.world = w ∨ ∃ r, w.row matchId = some r ∧ r.status = .awaitingConfirmation ∧
        out.world = ((w.deleteAllConfirmations matchId).saveMatch
          ⟨{ r with status := .playing }, some (w.roster matchId)⟩).enqueue .matchesQueue
            (cancelledJob matchId user.sub w.clock) := by
  simp only [ConfirmationService.cancel, after_bind, after_perform, perform_noFaults, exec,
    World.findById, after_require, after_throwIf, not_not, not_notCreator, pure_eq, after_pure]
  refine ⟨fun _ => .inl trivial, fun m hm => ⟨fun _ => .inl trivial, fun _ =>
    ⟨fun _ => .inl trivial, fun hawait => ⟨fun _ => .inl trivial, fun hcreator => ?_⟩⟩⟩⟩
  obtain ⟨r, hrow, rfl⟩ := Option.map_eq_some_iff.mp hm
  refine .inr ⟨r, hrow, hawait, ?_⟩
  rw [clock_saveMatch]
  rfl

/-- Saving a match publishes nothing. -/
theorem matchesQueue_saveMatch (w : World) (m : MatchEntity) :
    (w.saveMatch m).matchesQueue = w.matchesQueue := by
  rw [saveMatch_eq]

/-- Before its result is submitted a match is open. -/
theorem Learned.Agrees.unsubmitted {r : MatchRow} (h : s.Agrees r) (hopen : ¬ r.status.Locked) :
    s = .unsubmitted := by
  cases s with
  | unsubmitted => rfl
  | submitted => exact absurd (.inl h.1) hopen
  | confirmed => exact absurd (.inr h.1) hopen

/-- A match that awaits confirmation was read with its scores. -/
theorem Learned.Agrees.submitted {r : MatchRow} (h : s.Agrees r)
    (hawait : r.status = .awaitingConfirmation) :
    ∃ scoreA scoreB, s = .submitted r.matchType scoreA scoreB ∧ r.scoreA = some scoreA ∧
      r.scoreB = some scoreB := by
  cases s with
  | unsubmitted => rcases h with h | h <;> cases hawait.symm.trans h
  | submitted matchType scoreA scoreB => exact ⟨scoreA, scoreB, by rw [h.2.1], h.2.2⟩
  | confirmed => cases hawait.symm.trans h.1

/-- A row whose status, with what was published of it, stays. -/
theorem Learned.agrees_of_open {r r' : MatchRow} (hopen : ¬ r.status.Locked)
    (hstatus : r'.status = r.status ∨ r'.status = .playing) (h : s.Agrees r) : s.Agrees r' := by
  obtain rfl := h.unsubmitted hopen
  rcases hstatus with hstatus | hstatus
  · exact (show r.status = .draft ∨ r.status = .playing from h).imp hstatus.trans hstatus.trans
  · exact .inr hstatus

/-- A submission. -/
theorem submitResult_told (hw : w.Sound) (h : w.Told matchId s) {id : MatchId}
    {dto : SubmitResultDto} : ∃ s', (Input.after w (.request ⟨user, .submitResult id dto⟩)).Told
      matchId s' := by
  refine Input.after_handler (P := fun w' => ∃ s', w'.Told matchId s') _ rfl
    (after_mono (submitResult_publishes dto) fun out hout => ?_)
  rcases hout with hout | ⟨r, hrow, hopen, hout⟩
  · exact ⟨s, hout ▸ h⟩
  · rw [hout]
    obtain rfl := id_of_row hrow
    refine h.publish hw ⟨{ r with
      scoreA := some dto.scoreA, scoreB := some dto.scoreB, status := .awaitingConfirmation },
      some (w.roster r.id)⟩ w (submittedJob r.id r.matchType dto w.clock) hrow (fun _ => rfl) ?_
      (nextMatchId_saveMatch _) (fun _ => rfl) rfl fun hagrees => ?_
    · exact congrArg (· ++ [_]) (matchesQueue_saveMatch w _)
    · obtain rfl := hagrees.unsubmitted hopen
      exact ⟨_, rfl, fun _ => ⟨rfl, rfl, rfl, rfl⟩⟩

/-- A cancellation. -/
theorem cancel_told (hw : w.Sound) (h : w.Told matchId s) {id : MatchId} :
    ∃ s', (Input.after w (.request ⟨user, .cancelConfirmation id⟩)).Told matchId s' := by
  refine Input.after_handler (P := fun w' => ∃ s', w'.Told matchId s') _ rfl
    (after_mono cancel_publishes fun out hout => ?_)
  rcases hout with hout | ⟨r, hrow, hawait, hout⟩
  · exact ⟨s, hout ▸ h⟩
  · rw [hout]
    obtain rfl := id_of_row hrow
    refine h.publish hw ⟨{ r with status := .playing }, some (w.roster r.id)⟩
      (w.deleteAllConfirmations r.id) (cancelledJob r.id user.sub w.clock) hrow (fun _ => rfl) ?_
      (nextMatchId_saveMatch _) (fun _ => rfl) rfl fun hagrees => ?_
    · exact congrArg (· ++ [_]) (matchesQueue_saveMatch _ _)
    · obtain ⟨scoreA, scoreB, rfl, -⟩ := hagrees.submitted hawait
      exact ⟨_, rfl, fun _ => .inr rfl⟩

/-- The confirmation of a match. -/
theorem confirm_told (hw : w.Sound) (h : w.Told matchId s) {id : MatchId} {userId : UserId}
    {r : MatchRow} (hrow : w.row id = some r) (hawait : r.status = .awaitingConfirmation) :
    ∃ s', (w.confirmedWorld id userId r).Told matchId s' := by
  obtain rfl := id_of_row hrow
  have hvoted := votedWorld_eq w r.id userId
  refine h.publish hw ⟨r.confirmedAtTime w.clock, none⟩ (w.votedWorld r.id userId)
    (confirmedJob r.id r w.clock) hrow (row_votedWorld w r.id userId) ?_
    ((nextMatchId_saveMatch _).trans ?_) (fun _ => rfl) rfl fun hagrees => ?_
  · refine congrArg (· ++ [_]) ((matchesQueue_saveMatch _ _).trans ?_)
    rw [hvoted]
  · rw [hvoted]
  · obtain ⟨scoreA, scoreB, rfl, hA, hB⟩ := hagrees.submitted hawait
    refine ⟨.confirmed scoreA scoreB w.clock, ?_, fun _ => ⟨rfl, rfl⟩⟩
    show (Learned.submitted _ scoreA scoreB).read (.matchConfirmed _
      (winnerTeam (r.scoreA.getD 0) (r.scoreB.getD 0)) (r.scoreA.getD 0) (r.scoreB.getD 0) _) = _
    rw [hA, hB]
    exact if_pos ⟨rfl, rfl, rfl⟩

/-- A row that is stored after a deletion was stored before. -/
theorem row_of_deleteMatch {id : MatchId} {r' : MatchRow}
    (hr' : (w.deleteMatch id).row matchId = some r') : w.row matchId = some r' := by
  by_cases hid : matchId = id
  · subst hid
    have habsent : (w.deleteMatch matchId).row matchId = none :=
      congrArg MatchView.row (matchView_deleteMatch w matchId)
    cases habsent.symm.trans hr'
  · exact (congrArg MatchView.row (matchView_deleteMatch_of_ne hid)).symm.trans hr'

/-- A row that was saved over a stored row. -/
theorem agrees_saveMatch {mid : World} {m : MatchEntity} {r r' : MatchRow}
    (hr' : (mid.saveMatch m).row matchId = some r') (hrow : w.row m.id = some r)
    (hmid : ∀ id, mid.row id = w.row id)
    (hkeep : ∀ t (s : Learned), s.Agrees r → s.Agrees { m.toMatchRow with updatedAt := t }) :
    ∃ r, w.row matchId = some r ∧ ∀ s : Learned, s.Agrees r → s.Agrees r' := by
  rcases row_saveMatch_cases hr' with ⟨rfl, t, rfl⟩ | hstored
  · exact ⟨r, hrow, hkeep t⟩
  · exact ⟨r', (hmid matchId).symm.trans hstored, fun _ => id⟩

/-- The other requests keep the queue telling the status of the match. -/
theorem Request.Leaves.told {request : Request} {w' : World} (hleaves : request.Leaves w w')
    (hw : w.Sound) (h : w.Told matchId s)
    (hsubmit : ∀ id dto, request.route ≠ .submitResult id dto)
    (hcancel : ∀ id, request.route ≠ .cancelConfirmation id) : ∃ s', w'.Told matchId s' := by
  have hstored : ∀ {r'}, w.row matchId = some r' →
      ∃ r, w.row matchId = some r ∧ ∀ s : Learned, s.Agrees r → s.Agrees r' :=
    fun {r'} hr' => ⟨r', hr', fun _ => id⟩
  cases hleaves with
  | same => exact ⟨s, h⟩
  | @submitResult user id dto => exact absurd rfl (hsubmit id dto)
  | @cancel user id => exact absurd rfl (hcancel id)
  | confirm confirmable quorum => exact confirm_told hw h confirmable.row confirmable.awaiting
  | @create user dto =>
      refine ⟨s, h.quiet rfl (Nat.le_succ _) fun r' hr' => ?_⟩
      by_cases hid : matchId = w.nextMatchId
      · have hnew : (w.insertMatch (w.newMatch user.sub (dto.matchType.getD .twoVsTwo) .draft)).row
            w.nextMatchId = some (w.newMatch user.sub (dto.matchType.getD .twoVsTwo) .draft) :=
          congrArg MatchView.row (matchView_insertMatch (w := w) (r := w.newMatch _ _ _))
        rw [hid] at hr'
        obtain rfl := Option.some.inj (hr'.symm.trans hnew)
        exact .inr ⟨hid.ge, rfl⟩
      · exact .inl (hstored ((congrArg MatchView.row (matchView_insertMatch_of_ne hid)).symm.trans
          hr'))
  | @update user id dto r row creator editable =>
      refine ⟨s, h.quiet (matchesQueue_saveMatch _ _) (nextMatchId_saveMatch _).ge fun r' hr' =>
        .inl (agrees_saveMatch (r := r) hr' ?_ (fun _ => rfl) fun t s hs => ?_)⟩
      · exact (congrArg w.row (id_of_row row)).trans row
      · exact Learned.agrees_of_open editable (.inl rfl) hs
  | @addPlayers user id dto r saved row creator editable room free hsave =>
      have hframe := savePlayers_frame hsave
      have hsame : ∀ id, saved.row id = w.row id := fun id => by rw [hframe]; rfl
      unfold playingWorld
      split
      · refine ⟨s, h.quiet ((matchesQueue_saveMatch _ _).trans (by rw [hframe]))
          (((nextMatchId_saveMatch _).trans (by rw [hframe])).ge) fun r' hr' =>
            .inl (agrees_saveMatch (r := r) hr' ?_ hsame fun t s hs => ?_)⟩
        · exact (congrArg w.row (id_of_row row)).trans row
        · exact Learned.agrees_of_open editable (.inr rfl) hs
      · exact ⟨s, h.quiet (by rw [hframe]) (by rw [hframe]) fun r' hr' =>
          .inl (hstored ((hsame matchId).symm.trans hr'))⟩
  | @vote user id r confirmable below =>
      have hframe := votedWorld_eq w id user.sub
      exact ⟨s, h.quiet (by rw [hframe]) (by rw [hframe]) fun r' hr' =>
        .inl (hstored ((row_votedWorld w id user.sub matchId).symm.trans hr'))⟩
  | @overrideResult user id dto r admin row confirmed =>
      have hnext : (w.overriddenWorld id r user.sub dto).nextMatchId = w.nextMatchId :=
        nextMatchId_saveMatch _
      refine ⟨s, h.quiet (matchesQueue_saveMatch _ _) hnext.ge fun r' hr' => ?_⟩
      have hr' := ((sameTables_appendAuditLog _ _).row matchId).symm.trans hr'
      refine .inl (agrees_saveMatch (r := r) hr' ?_ (fun _ => rfl) fun t s hs => ?_)
      · exact (congrArg w.row (id_of_row row)).trans row
      · cases s with
        | confirmed scoreA scoreB confirmedAt => exact hs
        | unsubmitted => rcases hs with hs | hs <;> cases confirmed.symm.trans hs
        | submitted => cases confirmed.symm.trans hs.1
  | @delete user id r admin row =>
      refine ⟨s, h.quiet rfl (le_refl _) fun r' hr' => .inl (hstored ?_)⟩
      exact row_of_deleteMatch hr'
  | @adminDelete user id r admin row =>
      obtain ⟨hsame, hnext, -⟩ := recordedWorld_frame w id r user.sub
      refine ⟨s, h.quiet ?_ hnext.ge fun r' hr' => .inl (hstored ?_)⟩
      · unfold World.recordedWorld
        split <;> rfl
      · exact (hsame.row matchId).symm.trans (row_of_deleteMatch hr')

/-- Every step of a run keeps the queue telling the status of the match. -/
theorem Input.told (hw : w.Sound) (h : w.Told matchId s) (input : Input) :
    ∃ s', (Input.after w input).Told matchId s' := by
  cases input with
  | signIn user => exact ⟨s, h.replayed, h.fresh, h.agrees⟩
  | tick elapsed => exact ⟨s, h.replayed, h.fresh, h.agrees⟩
  | request request =>
      obtain ⟨user, route⟩ := request
      have hother (hsubmit : ∀ id dto, route ≠ .submitResult id dto)
          (hcancel : ∀ id, route ≠ .cancelConfirmation id) :=
        (Request.leaves ⟨user, route⟩ w).told hw h hsubmit hcancel
      cases route with
      | submitResult id dto => exact submitResult_told hw h
      | cancelConfirmation id => exact cancel_told hw h
      | _ => exact hother (fun _ _ => Route.noConfusion) fun _ => Route.noConfusion

/-- After the job that confirms a match, no job about it was read. -/
theorem replay_confirmed {before after : List EventEnvelope} {job : EventEnvelope}
    (hreplay : replay matchId (before ++ job :: after) = some s) {winner : WinnerTeam}
    {scoreA scoreB : Score} {confirmedAt : Date}
    (hjob : job.payload = .matchConfirmed matchId winner scoreA scoreB confirmedAt) :
    ∀ later ∈ after, later.payload.matchId? ≠ some matchId := by
  rw [replay_append] at hreplay
  obtain ⟨s₀, -, hafter⟩ := Option.bind_eq_some_iff.mp hreplay
  rw [List.foldlM_cons] at hafter
  obtain ⟨s₁, hread, hafter⟩ := Option.bind_eq_some_iff.mp hafter
  have habout : job.payload.matchId? = some matchId := by rw [hjob]; rfl
  rw [Learned.step, if_pos habout, hjob] at hread
  cases s₀ with
  | unsubmitted | confirmed => cases hread
  | submitted matchType a b =>
      simp only [Learned.read] at hread
      split at hread
      · obtain rfl := Option.some.inj hread
        exact Learned.skips_confirmed hafter
      · cases hread

/-- In every run of requests that do not overlap, a consumer that reads the matches queue in order
never meets a job that does not fit: a match is submitted, cancelled and submitted again, and
confirmed at most once, with the scores that were submitted last, after which no job about it
follows. What it has read of a stored match agrees with the match's row: its status, the scores that
await confirmation, and the time at which it was confirmed. -/
theorem events_replay (users : Table UserEntity.id) (inputs : List Input) (matchId : MatchId) :
    ∃ s, replay matchId ((World.withUsers users).run inputs).matchesQueue = some s ∧
      (∀ r, ((World.withUsers users).run inputs).row matchId = some r → s.Agrees r) ∧
      ∀ before job after, ((World.withUsers users).run inputs).matchesQueue =
        before ++ job :: after → ∀ winner scoreA scoreB confirmedAt,
          job.payload = .matchConfirmed matchId winner scoreA scoreB confirmedAt →
            ∀ later ∈ after, later.payload.matchId? ≠ some matchId := by
  have hrun : ((World.withUsers users).run inputs).Sound ∧
      ∃ s, ((World.withUsers users).run inputs).Told matchId s := by
    refine World.run_induction (P := fun w => w.Sound ∧ ∃ s, w.Told matchId s)
      (World.steps_of_forall (fun _ _ => trivial) _ _)
      ⟨World.sound_withUsers users, .unsubmitted, rfl, fun _ => rfl, nofun⟩ ?_
    intro w input _ ⟨hw, s, htold⟩
    exact ⟨Input.sound hw input, Input.told hw htold input⟩
  obtain ⟨-, s, htold⟩ := hrun
  refine ⟨s, htold.replayed, htold.agrees, fun before job after hqueue _ _ _ _ hjob => ?_⟩
  exact replay_confirmed (hqueue ▸ htold.replayed) hjob

end FoosballApi.Matches
