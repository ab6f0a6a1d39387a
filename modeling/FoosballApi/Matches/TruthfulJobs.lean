import FoosballApi.Matches.Authorization

/-!
# What the jobs of a run announce

A consumer of the queues sees only the jobs. `Request.Announces` says what its request has done
before it adds a job: the job of a submission, a cancellation or a confirmation follows the write
that it announces, carries what was written, and names a time after it. The jobs of an override are
added before its commit, so they announce only what the override has read and is about to write.
The runs are those of `system`, in which the locked section of a confirmation is one step.
-/

namespace FoosballApi.Matches

open Calls Events Prog Trace World

variable {θ : Type} {request : Request} {h : History θ} {event : CallEvent θ} {tid : θ}

/-- A call of `tid` has gone through that found `w` and left `w'`, and afterwards the clock showed
`time`. -/
def Did (h : History θ) (tid : θ) (op : Call) (w w' : World) (time : Date) : Prop :=
  ∃ (h₁ h₂ : History θ) (result : op.Result), h₁.world = w ∧
    Past (h₁.snoc ⟨tid, op, .ok result, w'⟩) h₂ ∧ Past h₂ h ∧ h₂.world.clock = time

/-- What a request has done before it adds a job. -/
inductive Request.Announces (request : Request) (tid : θ) (h : History θ) :
    Queue → EventEnvelope → Prop
  | submitted {matchId : MatchId} {dto : SubmitResultDto}
      (route : request.route = .submitResult matchId dto)
      {w : World} {m : MatchEntity} {r : MatchRow} {time : Date}
      (saved : Did h tid (.save m) w (w.saveMatch m) time)
      (row : (w.saveMatch m).row matchId = some r) (creator : r.createdBy = some request.user.sub)
      (status : r.status = .awaitingConfirmation) (scoreA : r.scoreA = some dto.scoreA)
      (scoreB : r.scoreB = some dto.scoreB) :
      request.Announces tid h .matchesQueue
        { eventType := .matchResultSubmitted
          version := 1
          occurredAt := time
          payload := .matchResultSubmitted matchId r.matchType dto.scoreA dto.scoreB }
  | cancelled {matchId : MatchId} (route : request.route = .cancelConfirmation matchId)
      {w₀ w : World} {m : MatchEntity} {r : MatchRow} {time : Date}
      (erased : Did h tid (.deleteAllConfirmations matchId) w₀ (w₀.deleteAllConfirmations matchId)
        time)
      (saved : Did h tid (.save m) w (w.saveMatch m) time)
      (row : (w.saveMatch m).row matchId = some r) (creator : r.createdBy = some request.user.sub)
      (status : r.status = .playing) :
      request.Announces tid h .matchesQueue
        { eventType := .matchConfirmationCancelled
          version := 1
          occurredAt := time
          payload := .matchCancelled matchId request.user.sub }
  | confirmed {matchId : MatchId} (route : request.route = .confirmResult matchId)
      {w w' : World} {r r' : MatchRow} {time confirmedAt : Date}
      (committed : Did h tid .commitTransaction w w' time)
      (awaiting : w.row matchId = some r ∧ r.status = .awaitingConfirmation)
      (row : w'.row matchId = some r') (updatedAt : Date)
      (written : r' = { r.confirmedAtTime confirmedAt with updatedAt := updatedAt }) :
      request.Announces tid h .matchesQueue
        { eventType := .matchConfirmed
          version := 1
          occurredAt := time
          payload := .matchConfirmed matchId
            (winnerTeam (r'.scoreA.getD 0) (r'.scoreB.getD 0)) (r'.scoreA.getD 0)
            (r'.scoreB.getD 0) confirmedAt }
  | standings {matchId : MatchId} (route : request.route = .confirmResult matchId)
      {w w' : World} {r' : MatchRow} {time : Date}
      (committed : Did h tid .commitTransaction w w' time)
      (row : w'.row matchId = some r') (status : r'.status = .confirmed) :
      request.Announces tid h .leaderboardQueue
        { eventType := .leaderboardInvalidate
          version := 1
          occurredAt := time
          payload := .leaderboardInvalidate .matchConfirmed [.week, .month, .year, .total] }
  | overridden {matchId : MatchId} {dto : AdminOverrideResultDto}
      (route : request.route = .adminOverrideResult matchId dto)
      (admin : request.user.isAdmin = true) {data : AuditLogData} {time : Date}
      (read : ReadAs h matchId fun r => r.status = .confirmed ∧
        data = overrideData request matchId dto r) :
      request.Announces tid h .auditQueue
        { eventType := .auditLogWrite
          version := 1
          occurredAt := time
          payload := .auditLog data }
  | overriddenStandings {matchId : MatchId} {dto : AdminOverrideResultDto}
      (route : request.route = .adminOverrideResult matchId dto)
      (admin : request.user.isAdmin = true) {time : Date}
      (read : ReadAs h matchId fun r => r.status = .confirmed) :
      request.Announces tid h .leaderboardQueue
        { eventType := .leaderboardInvalidate
          version := 1
          occurredAt := time
          payload := .leaderboardInvalidate .adminResultOverride [.week, .month, .year, .total] }

/-- Consumers check the version first. -/
theorem Request.Announces.version {queue : Queue} {job : EventEnvelope}
    (hannounces : request.Announces tid h queue job) : job.version = 1 := by
  cases hannounces <;> rfl

/-! ## Rules -/

/-- A call that adds no job. -/
def Call.Quiet (op : Call) : Prop := op.job = []

section Calls

variable {α : Type} {C : Contract θ Call Call.Result Failure World} {s : Session}
  {matchId : MatchId}

/-- The contract admits a call whose job is announced. -/
def AdmitsAnnounced (C : Contract θ Call Call.Result Failure World) (tid : θ) (request : Request) :
    Prop :=
  ∀ h event, event.tid = tid →
    (∀ queue job, (queue, job) ∈ jobsOfEvent event → request.Announces event.tid h queue job) →
      C.guar h event

/-- A quiet call has no job. -/
theorem not_mem_jobsOfEvent {event : CallEvent θ} (hquiet : event.op.Quiet) {queue : Queue}
    {job : EventEnvelope} : (queue, job) ∉ jobsOfEvent event := by
  intro hjob
  unfold jobsOfEvent at hjob
  split at hjob
  · rw [show event.op.job = [] from hquiet] at hjob
    cases hjob
  · cases hjob

/-- The contract admits a call that adds no job. -/
theorem admits_quiet (hadmits : AdmitsAnnounced C tid request)
    (htid : event.tid = tid) (hquiet : event.op.Quiet) : C.guar h event :=
  hadmits h event htid fun _ _ hjob => absurd hjob (not_mem_jobsOfEvent hquiet)

/-- A call that adds no job, with what follows it when it goes through. -/
theorem quiet_call {op : Call} {next : op.Result → Api α} (hadmits : AdmitsAnnounced C tid request)
    (hquiet : op.Quiet)
    (hnext : ∀ h' value, Past h h' → (s.locked = true → h' = h) →
      (exec op s h'.world).1 = .ok value →
        Safe system C tid (next value) (exec op s h'.world).2.1
          (h'.snoc ⟨tid, op, .ok value, (exec op s h'.world).2.2⟩)) :
    Safe system C tid (await op >>= next) s h := by
  refine wp_perform_bind fun h' hmean _ fails _ => ⟨admits_quiet hadmits rfl hquiet, ?_⟩
  rcases perform_cases fails op s h'.world with hperform | hperform <;> rw [hperform]
  · cases hresult : (exec op s h'.world).1 with
    | ok value =>
        exact hnext h' value hmean.past (fun hlocked => hmean.eq hlocked fun _ => rfl) hresult
    | error failure => exact trivial
  · exact trivial

/-- A read, or a write whose result is known. -/
theorem quiet_exec {op : Call} {f : World → op.Result} {g : World → World} {k : World → Session}
    {next : op.Result → Api α} (hadmits : AdmitsAnnounced C tid request)
    (hquiet : op.Quiet) (hop : ∀ w, exec op s w = (.ok (f w), k w, g w))
    (hnext : ∀ h', Past h h' → (s.locked = true → h' = h) →
      Safe system C tid (next (f h'.world)) (k h'.world)
        (h'.snoc ⟨tid, op, .ok (f h'.world), g h'.world⟩)) :
    Safe system C tid (await op >>= next) s h := by
  refine quiet_call hadmits hquiet fun h' value hpast hlocked hvalue => ?_
  rw [hop] at hvalue ⊢
  cases hvalue
  exact hnext h' hpast hlocked

/-- A job is added after what it announces. -/
theorem add_call {queue : Queue} {job : EventEnvelope} {next : Unit → Api α}
    (hadmits : AdmitsAnnounced C tid request)
    (hannounces : ∀ h', Past h h' → request.Announces tid h' queue job)
    (hnext : ∀ h', Past h h' → Safe system C tid (next ()) s
      (h'.snoc ⟨tid, .add queue job, .ok (), h'.world.enqueue queue job⟩)) :
    Safe system C tid (await (.add queue job) >>= next) s h := by
  refine wp_perform_bind fun h' hmean _ fails _ => ?_
  have hpast := hmean.past
  rcases perform_cases fails (.add queue job) s h'.world with hperform | hperform <;> rw [hperform]
  · refine ⟨hadmits _ _ rfl fun queue' job' hjob => ?_, hnext h' hpast⟩
    obtain ⟨rfl, rfl⟩ := Prod.mk.inj (List.mem_singleton.mp hjob)
    exact hannounces h' hpast
  · refine ⟨hadmits _ _ rfl fun queue' job' hjob => ?_, trivial⟩
    cases hjob

/-- The rest of a program that adds no job. -/
theorem quiet_rest {program : Api α} (hadmits : AdmitsAnnounced C tid request)
    (hquiet : program.Issues Call.Quiet) : Safe system C tid program s h :=
  safe_of_issues hquiet fun _ _ _ _ hop _ _ => admits_quiet hadmits rfl hop

/-! ## The services -/

/-- A write of the request itself is done for everything that comes later. -/
theorem did {op : Call} {result : op.Result} {h₀ h₁ h' : History θ} {w' : World}
    (hpast : Past (h₀.snoc ⟨tid, op, .ok result, w'⟩) h₁) (hlater : Past h₁ h') :
    Did h' tid op h₀.world w' h₁.world.clock := ⟨h₀, h₁, result, rfl, hpast, hlater, rfl⟩

/-- `findById` hands on a row that was read. -/
theorem findById_quiet {next : MatchEntity → Api α} (hadmits : AdmitsAnnounced C tid request)
    (hnext : ∀ r players h', ReadAs h' matchId (· = r) →
      Safe system C tid (next ⟨r, some players⟩) s h') :
    Safe system C tid (MatchService.findById matchId >>= next) s h := by
  unfold MatchService.findById
  rw [Prog.bind_assoc]
  refine quiet_exec hadmits rfl (fun _ => rfl) fun h₀ _ _ => ?_
  rw [Prog.bind_assoc]
  refine safe_require fun m hm => ?_
  obtain ⟨r, hrow, rfl⟩ := Option.map_eq_some_iff.mp hm
  exact hnext r _ _ ⟨h₀, r, past_snoc _ _, hrow, rfl⟩

/-- `submitResult` announces the scores it has saved. -/
theorem submitResult_announced {dto : SubmitResultDto} (hadmits : AdmitsAnnounced C tid request)
    (hroute : request.route = .submitResult matchId dto) :
    Safe system C tid (MatchService.submitResult matchId request.user.sub dto) s h := by
  unfold MatchService.submitResult MatchService.checkEditable
  refine findById_quiet hadmits fun r players h hread => ?_
  rw [Prog.bind_assoc]
  refine safe_throwIf fun hcreator => ?_
  refine safe_throwIf fun _ => ?_
  refine quiet_exec hadmits rfl (fun _ => rfl) fun _ _ _ => ?_
  refine safe_throwIf fun _ => ?_
  refine quiet_exec hadmits rfl (fun _ => rfl) fun h₁ _ _ => ?_
  refine quiet_exec hadmits rfl (fun _ => rfl) fun h₂ hsaved _ => ?_
  refine add_call hadmits (fun h₃ hlater => ?_) fun _ _ => trivial
  have hid : r.id = matchId := by
    obtain ⟨h₀, r, -, hrow, rfl⟩ := hread
    exact id_of_row hrow
  subst hid
  obtain ⟨t, hrow⟩ := row_saveMatch_self (w := h₁.world) ⟨{ r with
    scoreA := some dto.scoreA, scoreB := some dto.scoreB, status := .awaitingConfirmation },
    some players⟩
  unfold savedEntity
  rw [hrow]
  have hsaved := did hsaved ((past_snoc _ _).trans hlater)
  exact .submitted hroute hsaved hrow (not_notCreator.mp hcreator) rfl rfl rfl

/-- `cancel` announces that it has deleted the votes and reopened the match. -/
theorem cancel_announced (hadmits : AdmitsAnnounced C tid request)
    (hroute : request.route = .cancelConfirmation matchId) :
    Safe system C tid (ConfirmationService.cancel matchId request.user.sub) s h := by
  unfold ConfirmationService.cancel
  refine quiet_exec hadmits rfl (fun _ => rfl) fun h₀ _ _ => ?_
  refine safe_require fun m hm => ?_
  obtain ⟨r, hrow, rfl⟩ := Option.map_eq_some_iff.mp hm
  obtain rfl := id_of_row hrow
  refine safe_throwIf fun _ => ?_
  refine safe_throwIf fun _ => ?_
  refine safe_throwIf fun hcreator => ?_
  refine quiet_exec hadmits rfl (fun _ => rfl) fun h₁ _ _ => ?_
  refine quiet_exec hadmits rfl (fun _ => rfl) fun h₂ herased _ => ?_
  refine quiet_exec hadmits rfl (fun _ => rfl) fun h₃ hsaved _ => ?_
  refine add_call hadmits (fun h₄ hlater => ?_) fun _ _ =>
    quiet_exec hadmits rfl (fun _ => rfl) fun _ _ _ => trivial
  have hlater := (past_snoc _ _).trans hlater
  obtain ⟨t, hrow⟩ := row_saveMatch_self (w := h₂.world)
    ⟨{ r with status := .playing }, some (h₀.world.roster r.id)⟩
  exact .cancelled hroute (did (herased.trans ((past_snoc _ _).trans hsaved)) hlater)
    (did hsaved hlater) hrow (not_notCreator.mp hcreator) rfl

/-- The commit of `confirm` stores the confirmed row. -/
theorem row_committed (w : World) (r : MatchRow) (userId : UserId) (confirmedAt : Date) :
    ∃ t, ((⟨some (w.voteWrites r.id userId ++
      [.saveMatch ⟨r.confirmedAtTime confirmedAt, none⟩]), true⟩ : Session).view w).row r.id =
        some { r.confirmedAtTime confirmedAt with updatedAt := t } := by
  rw [Session.view_some, List.foldl_append]
  exact row_saveMatch_self (w := w.votedWorld r.id userId) ⟨r.confirmedAtTime confirmedAt, none⟩

/-- `confirmMatch` announces the row that its transaction has committed. -/
theorem confirmMatch_announced {r : MatchRow} {next : Unit → Api α}
    (hadmits : AdmitsAnnounced C tid request)
    (hroute : request.route = .confirmResult r.id) (hrow : h.world.row r.id = some r)
    (hawait : r.status = .awaitingConfirmation)
    (hnext : ∀ s' h', Safe system C tid (next ()) s' h') :
    Safe system C tid (ConfirmationService.confirmMatch r.id ⟨r, none⟩ >>= next)
      ⟨some (h.world.voteWrites r.id request.user.sub), true⟩ h := by
  unfold ConfirmationService.confirmMatch
  rw [Prog.bind_assoc]
  refine quiet_exec hadmits rfl (fun _ => rfl) fun h₁ _ hlocked => ?_
  obtain rfl := hlocked rfl
  rw [Prog.bind_assoc]
  refine quiet_exec hadmits rfl (fun _ => rfl) fun h₂ _ hlocked => ?_
  obtain rfl := hlocked rfl
  rw [Prog.bind_assoc]
  refine quiet_exec hadmits rfl (fun _ => rfl) fun h₃ _ hlocked => ?_
  obtain rfl := hlocked rfl
  obtain ⟨t, hcommitted⟩ := row_committed h₁.world r request.user.sub h₁.world.clock
  rw [Prog.bind_assoc]
  refine quiet_exec hadmits rfl (fun _ => rfl) fun h₃ hdone _ => ?_
  rw [Prog.bind_assoc]
  refine add_call hadmits (fun h₄ hlater => ?_) fun h₄ hlater => ?_
  · have hjob : request.Announces tid h₄ _ _ := .confirmed hroute
      (did hdone ((past_snoc _ _).trans hlater)) ⟨hrow, hawait⟩ hcommitted t rfl
    exact hjob
  rw [Prog.bind_assoc]
  have hdone := (hdone.trans (past_snoc _ _)).trans hlater
  refine quiet_exec hadmits rfl (fun _ => rfl) fun h₅ hpast₅ _ => ?_
  refine add_call hadmits (fun h₆ hlater => ?_) fun _ _ => hnext _ _
  exact .standings hroute (did (hdone.snoc.trans hpast₅) ((past_snoc _ _).trans hlater)) hcommitted
    rfl

/-- The branch of `confirm` for a match that awaits confirmation. -/
theorem castVote_announced {r : MatchRow} {players : List MatchPlayerEntity}
    (hadmits : AdmitsAnnounced C tid request)
    (hroute : request.route = .confirmResult r.id) (hrow : h.world.row r.id = some r)
    (hawait : r.status = .awaitingConfirmation) :
    Safe system C tid (ConfirmationService.castVote r.id request.user.sub players ⟨r, none⟩)
      ⟨some [], true⟩ h := by
  have hsettle : ∀ h : History θ, h.world.row r.id = some r → Safe system C tid (do
      let allConfirmations ← await (.findTransactionConfirmations r.id)
      ConfirmationService.settle r.id players ⟨r, none⟩ allConfirmations)
        ⟨some (h.world.voteWrites r.id request.user.sub), true⟩ h := by
    intro h hrow
    refine quiet_exec hadmits rfl (fun _ => rfl) fun h₁ _ hlocked => ?_
    obtain rfl := hlocked rfl
    unfold ConfirmationService.settle
    split
    · exact confirmMatch_announced (h := h₁.snoc _) hadmits hroute hrow hawait fun _ _ => trivial
    · exact quiet_exec hadmits rfl (fun _ => rfl) fun _ _ _ => trivial
  unfold ConfirmationService.castVote
  refine quiet_exec hadmits rfl (fun _ => rfl) fun h₁ _ hlocked => ?_
  obtain rfl := hlocked rfl
  unfold ConfirmationService.saveVote
  have hview : (⟨some [], true⟩ : Session).view h₁.world = h₁.world := rfl
  rw [hview]
  cases hget : h₁.world.confirmations.get (r.id, request.user.sub) with
  | some c =>
      have hwrites : h₁.world.voteWrites r.id request.user.sub = [] := by
        rw [World.voteWrites, hget]
      exact hwrites ▸ hsettle (h₁.snoc _) hrow
  | none =>
      have hwrites : h₁.world.voteWrites r.id request.user.sub =
          [.putConfirmation (h₁.world.newConfirmation r.id request.user.sub)] := by
        rw [World.voteWrites, hget]
      rw [Prog.bind_assoc]
      refine quiet_exec hadmits rfl (fun _ => rfl) fun h₂ _ hlocked => ?_
      obtain rfl := hlocked rfl
      exact hwrites ▸ hsettle ((h₁.snoc _).snoc _) hrow

/-- The locked section of `confirm` announces what it has committed. -/
theorem lockedSection_announced {players : List MatchPlayerEntity}
    (hadmits : AdmitsAnnounced C tid request) (hroute : request.route = .confirmResult matchId) :
    Safe system C tid (ConfirmationService.lockedSection matchId request.user.sub players)
      ⟨some [], false⟩ h := by
  unfold ConfirmationService.lockedSection
  refine quiet_exec hadmits rfl (fun _ => rfl) fun h₁ _ _ => ?_
  have hview : (⟨some [], false⟩ : Session).view h₁.world = h₁.world := rfl
  rw [hview]
  have hreport : ∀ h, Safe system C tid (ConfirmationService.reportCurrent matchId players)
      ⟨some [], true⟩ h := fun h =>
    quiet_exec hadmits rfl (fun _ => rfl) fun _ _ _ =>
      quiet_exec hadmits rfl (fun _ => rfl) fun _ _ _ => trivial
  cases hrow : h₁.world.row matchId with
  | none => exact hreport _
  | some r =>
      rw [Option.map_some, Option.filter_some]
      by_cases hawait : r.status = .awaitingConfirmation
      · rw [if_pos (by simpa using hawait)]
        obtain rfl := id_of_row hrow
        exact castVote_announced hadmits hroute hrow hawait
      · rw [if_neg (by simpa using hawait)]
        exact hreport _

/-- The `catch` and `finally` blocks add no job. -/
theorem rollback_quiet {failure : Failure} {s' : Session} (hadmits : AdmitsAnnounced C tid request) :
    Safe system C tid (await .rollbackTransaction >>= fun _ => (Prog.throw failure : Api α)) s' h :=
  quiet_rest hadmits (issues_bind (issues_perform rfl) fun _ => trivial)

theorem confirm_announced (hadmits : AdmitsAnnounced C tid request)
    (hroute : request.route = .confirmResult matchId) :
    Safe system C tid (ConfirmationService.confirm matchId request.user.sub) {} h := by
  unfold ConfirmationService.confirm
  refine quiet_exec hadmits rfl (fun _ => rfl) fun h₀ _ _ => ?_
  refine safe_require fun m _ => ?_
  refine safe_throwIf fun _ => ?_
  refine quiet_exec hadmits rfl (fun _ => rfl) fun h₁ _ _ => ?_
  refine safe_throwIf fun _ => ?_
  refine quiet_exec hadmits rfl (fun _ => rfl) fun h₂ _ _ => ?_
  refine quiet_exec hadmits rfl (fun _ => rfl) fun h₃ _ _ => ?_
  refine safe_catchFinally (lockedSection_announced hadmits hroute)
    (fun _ _ _ => rollback_quiet hadmits) fun _ _ => quiet_rest hadmits (issues_perform rfl)

/-- `overrideResult` announces the override it is about to commit. -/
theorem overrideResult_announced {isAdmin : Bool} {dto : AdminOverrideResultDto}
    (hadmits : AdmitsAnnounced C tid request)
    (hroute : request.route = .adminOverrideResult matchId dto)
    (hadmin : request.user.isAdmin = true) :
    Safe system C tid
      (AdminOverrideService.overrideResult matchId request.user.sub isAdmin dto) {} h := by
  unfold AdminOverrideService.overrideResult
  refine safe_throwIf fun _ => ?_
  refine quiet_exec hadmits rfl (fun _ => rfl) fun h₀ _ _ => ?_
  refine safe_require fun m hm => ?_
  obtain ⟨r, hrow, rfl⟩ := Option.map_eq_some_iff.mp hm
  refine safe_throwIf fun hconfirmed => ?_
  have hconfirmed : r.status = .confirmed := Decidable.not_not.mp hconfirmed
  refine quiet_exec hadmits rfl (fun _ => rfl) fun h₁ hpast₁ _ => ?_
  refine quiet_exec hadmits rfl (fun _ => rfl) fun h₂ hpast₂ _ => ?_
  have hpast₂ := ((past_snoc _ _).trans hpast₁).trans ((past_snoc _ _).trans hpast₂)
  refine safe_catchFinally ?_ (fun _ _ _ => rollback_quiet hadmits)
    fun _ _ => quiet_rest hadmits (issues_perform rfl)
  unfold AdminOverrideService.overrideTransaction
  refine quiet_exec hadmits rfl (fun _ => rfl) fun h₃ hpast₃ _ => ?_
  refine quiet_exec hadmits rfl (fun _ => rfl) fun h₄ hpast₄ _ => ?_
  refine quiet_exec hadmits rfl (fun _ => rfl) fun h₅ hpast₅ _ => ?_
  have hpast₅ := (hpast₂.trans ((past_snoc _ _).trans hpast₃)).trans
    (((past_snoc _ _).trans hpast₄).trans ((past_snoc _ _).trans hpast₅))
  refine add_call hadmits (fun h₆ hpast₆ => ?_) fun h₆ hpast₆ => ?_
  · exact .overridden hroute hadmin
      ⟨h₀, r, hpast₅.trans ((past_snoc _ _).trans hpast₆), hrow, hconfirmed, rfl⟩
  have hpast₆ := hpast₅.trans ((past_snoc _ _).trans hpast₆)
  refine quiet_exec hadmits rfl (fun _ => rfl) fun h₇ hpast₇ _ => ?_
  refine add_call hadmits (fun h₈ hpast₈ => ?_) fun h₈ hpast₈ => ?_
  · refine .overriddenStandings hroute hadmin ⟨h₀, r, ?_, hrow, hconfirmed⟩
    exact (hpast₆.trans ((past_snoc _ _).trans hpast₇)).trans ((past_snoc _ _).trans hpast₈)
  · exact quiet_rest hadmits (issues_bind (issues_perform rfl) fun _ =>
      issues_bind (issues_perform rfl) fun _ => trivial)

/-! ## Every request -/

theorem findById_issues (matchId : MatchId) : (MatchService.findById matchId).Issues Call.Quiet := by
  refine issues_bind (issues_perform rfl) fun found => ?_
  refine issues_bind issues_require fun m => ?_
  cases m.players with
  | some players => exact trivial
  | none => exact issues_bind (issues_perform rfl) fun _ => trivial

theorem checkEditable_issues (matchId : MatchId) (m : MatchEntity) (userId : UserId)
    (notCreator locked : String) :
    (MatchService.checkEditable matchId m userId notCreator locked).Issues Call.Quiet :=
  issues_bind issues_throwIf fun _ => issues_throwIf

theorem checkSlots_issues (matchId : MatchId) (existing : List MatchPlayerEntity)
    (ps : List PlayerDto) : (MatchService.checkSlots matchId existing ps).Issues Call.Quiet := by
  induction ps with
  | nil => exact trivial
  | cons p ps ih => exact issues_bind issues_throwIf fun _ => ih

theorem update_issues (matchId : MatchId) (userId : UserId) (dto : UpdateMatchDto) :
    (MatchService.update matchId userId dto).Issues Call.Quiet := by
  refine issues_bind (findById_issues matchId) fun m => ?_
  refine issues_bind (checkEditable_issues _ _ _ _ _) fun _ => ?_
  refine issues_bind (issues_perform rfl) fun _ => ?_
  exact issues_bind (issues_perform rfl) fun _ => trivial

theorem addPlayers_issues (matchId : MatchId) (userId : UserId) (dto : AddPlayersDto) :
    (MatchService.addPlayers matchId userId dto).Issues Call.Quiet := by
  refine issues_bind (findById_issues matchId) fun m => ?_
  refine issues_bind (checkEditable_issues _ _ _ _ _) fun _ => ?_
  refine issues_bind (issues_perform rfl) fun existing => ?_
  refine issues_bind issues_throwIf fun _ => ?_
  refine issues_bind (checkSlots_issues _ _ _) fun _ => ?_
  refine issues_bind (issues_perform rfl) fun _ => ?_
  refine issues_bind (issues_perform rfl) fun allPlayers => ?_
  refine issues_bind ?_ fun _ => trivial
  unfold MatchService.startPlaying
  split
  · exact issues_bind (issues_perform rfl) fun _ => trivial
  · exact trivial

/-- Both deletions look for the match and delete it, the second with an audit row. -/
theorem recordDelete_issues (m : MatchEntity) (matchId : MatchId) (actorId : UserId) :
    (AdminOverrideService.recordDelete m matchId actorId).Issues Call.Quiet := by
  unfold AdminOverrideService.recordDelete
  split
  · exact issues_bind (issues_perform rfl) fun _ => trivial
  · exact trivial

/-- Every job of a request is announced. -/
theorem Request.safe_announced (hadmits : AdmitsAnnounced C tid request) :
    Safe system C tid request.prog {} h := by
  obtain ⟨user, route⟩ := request
  -- A handler that only reads, behind the lookup of its match.
  have hlookup : ∀ {β : Type} {next : Option MatchEntity → Api β} id,
      (∀ found, (next found).Issues Call.Quiet) →
        (await (.findById id) >>= next).Issues Call.Quiet := fun id hnext =>
    issues_bind (issues_perform rfl) hnext
  cases route with
  | submitResult id dto => exact safe_map (submitResult_announced hadmits rfl)
  | confirmResult id => exact safe_map (confirm_announced hadmits rfl)
  | cancelConfirmation id => exact safe_map (cancel_announced hadmits rfl)
  | adminOverrideResult id dto =>
      exact safe_throwIf fun hrole =>
        safe_map (overrideResult_announced hadmits rfl (Decidable.not_not.mp hrole))
  | createMatch dto =>
      exact safe_map (quiet_rest hadmits (issues_bind (issues_perform rfl) fun _ => trivial))
  | getMatch id => exact safe_map (quiet_rest hadmits (findById_issues id))
  | updateMatch id dto => exact safe_map (quiet_rest hadmits (update_issues id user.sub dto))
  | addPlayers id dto => exact safe_map (quiet_rest hadmits (addPlayers_issues id user.sub dto))
  | deleteMatch id =>
      refine safe_throwIf fun _ => safe_map (quiet_rest hadmits ?_)
      exact issues_bind issues_throwIf fun _ => hlookup id fun _ =>
        issues_bind issues_require fun _ => issues_perform rfl
  | getConfirmationStatus id =>
      refine safe_map (quiet_rest hadmits (hlookup id fun _ => ?_))
      refine issues_bind issues_require fun _ => issues_bind issues_throwIf fun _ => ?_
      exact issues_bind (issues_perform rfl) fun _ =>
        issues_bind (issues_perform rfl) fun _ => trivial
  | adminDeleteMatch id =>
      refine safe_throwIf fun _ => safe_map (quiet_rest hadmits ?_)
      refine issues_bind issues_throwIf fun _ => hlookup id fun _ => ?_
      refine issues_bind issues_require fun m => ?_
      exact issues_bind (recordDelete_issues m id user.sub) fun _ => issues_perform rfl
  | getMatchAuditLog id =>
      refine safe_throwIf fun _ => safe_map (quiet_rest hadmits ?_)
      exact issues_bind issues_throwIf fun _ => hlookup id fun _ =>
        issues_bind issues_require fun _ => issues_perform rfl

end Calls

/-! ## Every run -/

/-- What a job of an input announces. -/
def Input.Announces (input : Input) (h : History θ) (event : CallEvent θ) : Prop :=
  ∀ queue job, (queue, job) ∈ jobsOfEvent event →
    ∃ request, input = .request request ∧ request.Announces event.tid h queue job

/-- Every job of a run is announced. -/
theorem steps_announced [DecidableEq θ] {inputs : θ → Input} {w : World}
    {allow : θ → History θ → Call → Bool → Prop} {c : Running θ}
    (hreach : Reach system allow (w.begin inputs) c) :
    c.trace.Steps fun h e => (inputs e.tid).Announces h e := by
  refine steps_of_inputs hreach fun C tid input h hadmits => ?_
  cases input with
  | request request =>
      exact Request.safe_announced fun h event htid hannounces =>
        hadmits h event htid fun queue job hjob => ⟨request, rfl, hannounces queue job hjob⟩
  | signIn user =>
      have hquiet : (Input.signIn user).prog.Issues Call.Quiet :=
        issues_bind (issues_perform rfl) fun _ => trivial
      exact safe_of_issues hquiet fun _ _ _ _ hop _ _ =>
        hadmits _ _ rfl fun _ _ hjob => absurd hjob (not_mem_jobsOfEvent hop)
  | tick elapsed =>
      have hquiet : (Input.tick elapsed).prog.Issues Call.Quiet :=
        issues_bind (issues_perform rfl) fun _ => trivial
      exact safe_of_issues hquiet fun _ _ _ _ hop _ _ =>
        hadmits _ _ rfl fun _ _ hjob => absurd hjob (not_mem_jobsOfEvent hop)

/-- A `match.confirmed` job tells what the confirmed match was stored with. -/
theorem Request.Announces.confirmedAs {queue : Queue} {job : EventEnvelope}
    (hannounces : request.Announces tid h queue job)
    (hrows : RowsSatisfy MatchRow.Consistent h) {matchId : MatchId} {winner : WinnerTeam}
    {scoreA scoreB : Score} {confirmedAt : Date}
    (hpayload : job.payload = .matchConfirmed matchId winner scoreA scoreB confirmedAt) :
    ReadAs h matchId fun r => r.status = .confirmed ∧ r.scoreA = some scoreA ∧
      r.scoreB = some scoreB ∧ r.confirmedAt = some confirmedAt ∧
        winner = winnerTeam scoreA scoreB := by
  cases hannounces with
  | @confirmed id route w w' r r' time t committed awaiting row updatedAt written =>
      obtain ⟨rfl, rfl, rfl, rfl, rfl⟩ := Payload.matchConfirmed.inj hpayload
      obtain ⟨h₁, h₂, result, -, hpast, hlater, -⟩ := committed
      have hpast := hpast.trans hlater
      have hrow := hrows _ hpast id r' row
      have hconfirmed : r'.status = .confirmed := by rw [written]; rfl
      obtain ⟨hA, hB⟩ := hrow.scores (.inr hconfirmed)
      obtain ⟨scoreA, hA⟩ := Option.isSome_iff_exists.mp hA
      obtain ⟨scoreB, hB⟩ := Option.isSome_iff_exists.mp hB
      refine ⟨_, r', hpast, row, hconfirmed, ?_, ?_, ?_, rfl⟩
      · rw [hA]
        rfl
      · rw [hB]
        rfl
      · rw [written]
        rfl
  | submitted | cancelled | standings | overridden | overriddenStandings => cases hpayload

/-- In every interleaving of any requests, with locked sections as one step and any failing calls,
every job that is added announces what its request has done: the submission, the cancellation or the
confirmation that it has stored before, or the override of a confirmed match that it is about to
commit; and a `match.confirmed` job carries the scores, the time and the winner that the match was
stored with as confirmed. -/
theorem jobs_truthful [DecidableEq θ] {inputs : θ → Input} {w : World}
    {allow : θ → History θ → Call → Bool → Prop} {c : Running θ}
    (hinit : ∀ matchId r, w.row matchId = some r → r.Consistent)
    (hreach : Reach system allow (w.begin inputs) c) :
    c.trace.Steps fun h e => ∀ queue job, (queue, job) ∈ jobsOfEvent e →
      job.version = 1 ∧
      (∃ request, inputs e.tid = .request request ∧ request.Announces e.tid h queue job) ∧
      ∀ matchId winner scoreA scoreB confirmedAt,
        job.payload = .matchConfirmed matchId winner scoreA scoreB confirmedAt →
          ReadAs h matchId fun r => r.status = .confirmed ∧ r.scoreA = some scoreA ∧
            r.scoreB = some scoreB ∧ r.confirmedAt = some confirmedAt ∧
              winner = winnerTeam scoreA scoreB := by
  intro later e earlier he queue job hjob
  have hannounced : (inputs e.tid).Announces ⟨c.trace.init, earlier⟩ e :=
    steps_announced hreach later e earlier he
  obtain ⟨request, hrequest, hannounces⟩ := hannounced queue job hjob
  have hrows : RowsSatisfy MatchRow.Consistent ⟨c.trace.init, earlier⟩ := fun h₀ hpast id r hrow =>
    rowsSatisfy_consistent hinit hreach h₀ (hpast.trans (past_of_events he)) id r hrow
  exact ⟨hannounces.version, ⟨request, hrequest, hannounces⟩, fun _ _ _ _ _ hpayload =>
    hannounces.confirmedAs hrows hpayload⟩

/-- Both players confirm the result of the one-on-one at once. -/
def duelConfirms : Fin 2 → Input
  | 0 => .request ⟨mario, .confirmResult 1⟩
  | 1 => .request ⟨rival, .confirmResult 1⟩

/-- The call adds a job that tells the result of the one-on-one. -/
def announcesDuel (e : CallEvent (Fin 2)) : Bool :=
  (jobsOfEvent e).any fun job =>
    job.1 = .matchesQueue ∧ job.2.payload = .matchConfirmed 1 (.team .A) 3 1 0

/-- The job that the second vote adds tells the stored result. -/
theorem jobs_truthful_duel :
    ∃ (h : History (Fin 2)) (e : CallEvent (Fin 2)), announcesDuel e = true ∧
      ReadAs h 1 fun r => r.status = .confirmed ∧ r.scoreA = some 3 ∧ r.scoreB = some 1 ∧
        r.confirmedAt = some 0 := by
  obtain ⟨c, hreach, hjob⟩ := Reach.exists_of_execute system (fun _ _ _ _ => True)
    (((World.withUsers signedIn).run duel).begin duelConfirms)
    (.replicate 3 (0, false) ++ .replicate 3 (1, false) ++ .replicate 7 (0, false) ++
      .replicate 13 (1, false)) (fun c => c.trace.events.any announcesDuel) (by decide)
  obtain ⟨e, he, hannounces⟩ := List.any_eq_true.mp hjob
  obtain ⟨h, hpast⟩ := past_of_mem he
  obtain ⟨⟨queue, job⟩, hmem, hjob⟩ := List.any_eq_true.mp hannounces
  have hsteps := jobs_truthful (fun matchId r hr =>
    (World.run_wellKept signedIn duel matchId r hr).consistent) hreach
  obtain ⟨-, -, htells⟩ := hsteps.of_past hpast queue job hmem
  obtain ⟨h₀, r, hpast₀, hrow, hstatus, hA, hB, hat, -⟩ :=
    htells _ _ _ _ _ (of_decide_eq_true hjob).2
  exact ⟨h, e, hannounces, h₀, r, hpast₀, hrow, hstatus, hA, hB, hat⟩

end FoosballApi.Matches
