import FoosballApi.Matches.Simulation

/-!
# The audit trail of deleted matches

`AdminOverrideService.deleteMatch` records the deletion of a confirmed match before it deletes it;
`MatchService.delete`, the other endpoint, deletes without recording. In every run in which no
admin deletes a confirmed match through the latter, each confirmed match that is removed leaves
exactly one `match_delete` row, and audit rows are only ever appended.
-/

namespace FoosballApi.Matches

open Calls Data Prog World Users Events

/-- The `match_delete` rows of a match. -/
def World.deletions (w : World) (matchId : MatchId) : List AuditLogEntity :=
  w.auditLogs.filter fun entry => entry.action = .matchDelete ∧ entry.entityId = matchId

/-- What a request does to the audit log, with the calls it made, latest first. -/
inductive AuditEffect (request : Request) (w : World) (calls : List Call) (w' : World) : Prop where
  | unchanged (same : w'.auditLogs = w.auditLogs)
      (kept : ∀ matchId r, request.route = .adminDeleteMatch matchId → w.row matchId = some r →
        r.status = .confirmed → w'.row matchId = some r)
  | overrideResult (route : ∀ matchId, request.route ≠ .adminDeleteMatch matchId)
      (entry : AuditLogEntity) (action : entry.action = .resultOverride)
      (logs : w'.auditLogs = w.auditLogs ++ [entry])
  | delete {matchId : MatchId} {r : MatchRow} (route : request.route = .adminDeleteMatch matchId)
      (admin : request.user.isAdmin = true) (row : w.row matchId = some r)
      (gone : w'.row matchId = none) (entry : AuditLogEntity)
      (data : entry.toAuditLogData =
        AdminOverrideService.deleteAuditData ⟨r, none⟩ matchId request.user.sub)
      (logs : w'.auditLogs = w.auditLogs ++ [entry])
      (order : calls = [.delete matchId, .saveAuditLog entry.toAuditLogData, .findById matchId])

variable {w : World} {user : JwtPayload} {matchId : MatchId}

theorem auditLogs_playingWorld {saved : World} {r : MatchRow} {ps : List MatchPlayerEntity}
    (hsave : w.savePlayers ps = some saved) :
    (playingWorld w saved matchId r).auditLogs = w.auditLogs := by
  have hsaved : saved.auditLogs = w.auditLogs := by rw [savePlayers_frame hsave]
  unfold playingWorld
  split
  · rw [auditLogs_saveMatch, hsaved]
  · exact hsaved

/-- The route that records deletions. -/
def Route.recordsDeletion : Route → Bool
  | .adminDeleteMatch _ => true
  | _ => false

theorem ne_adminDeleteMatch {route : Route} (h : route.recordsDeletion = false)
    (matchId : MatchId) : route ≠ .adminDeleteMatch matchId := by
  rintro rfl
  cases h

/-- A request through another route that appends nothing. -/
theorem AuditEffect.of_same {request : Request} {calls : List Call} {w' : World}
    (hroute : ∀ matchId, request.route ≠ .adminDeleteMatch matchId)
    (hsame : w'.auditLogs = w.auditLogs) : AuditEffect request w calls w' :=
  .unchanged hsame fun matchId _ h => absurd h (hroute matchId)

/-- A request that left the world as it was. -/
theorem AuditEffect.of_eq {request : Request} {calls : List Call} {w' : World} (h : w' = w) :
    AuditEffect request w calls w' := by
  subst h
  exact .unchanged rfl fun _ _ _ hrow _ => hrow

/-- An override appends one row. -/
theorem auditLogs_overriddenWorld (w : World) (matchId : MatchId) (r : MatchRow)
    (actorId : UserId) (dto : AdminOverrideResultDto) :
    (w.overriddenWorld matchId r actorId dto).auditLogs = w.auditLogs ++
      [w.newAuditLog (AdminOverrideService.overrideAuditData ⟨r, some (w.roster matchId)⟩ matchId
        actorId dto)] := by
  simp only [overriddenWorld, appendAuditLog, auditLogs_saveMatch, auditLogs_enqueue]
  rfl

/-- The admin's deletion appends one row for a confirmed match, before it deletes it. -/
theorem deleteMatch_auditEffect :
    (AdminOverrideService.deleteMatch matchId user.sub user.isAdmin).after system noFaults [] {} w
      fun out => AuditEffect ⟨user, .adminDeleteMatch matchId⟩ w out.calls out.world := by
  refine after_mono (deleteMatch_after user.isAdmin) fun out hout => ?_
  rcases hout with ⟨hsame, -⟩ | ⟨r, hadmin, hrow, hout, hcalls⟩
  · exact .of_eq hsame
  · rw [hout]
    unfold recordedWorld
    split
    · next hconfirmed =>
        refine .delete rfl hadmin hrow ?_ (w.newAuditLog _) rfl rfl (hcalls hconfirmed)
        exact congrArg MatchView.row (matchView_deleteMatch _ matchId)
    · next hother =>
        refine .unchanged rfl fun matchId' r' hroute hrow' hconfirmed => absurd ?_ hother
        cases hroute
        rw [hrow] at hrow'
        cases hrow'
        exact hconfirmed

/-- What every request does to the audit log. -/
theorem Request.auditEffect (request : Request) (w : World) :
    AuditEffect request w (request.outcome w).calls (request.outcome w).world := by
  obtain ⟨user, route⟩ := request
  cases hrecords : route.recordsDeletion with
  | true =>
      cases route with
      | adminDeleteMatch matchId =>
          have hspec : (Request.prog ⟨user, .adminDeleteMatch matchId⟩).after system noFaults [] {}
              w fun out => AuditEffect ⟨user, .adminDeleteMatch matchId⟩ w out.calls out.world :=
            rolesGuard_after (.of_eq rfl) (after_map.mpr deleteMatch_auditEffect)
          exact hspec
      | _ => cases hrecords
  | false =>
      -- For the other routes the world that is left decides.
      have hroute := ne_adminDeleteMatch hrecords
      have hleaves := Request.leaves ⟨user, route⟩ w
      generalize (Request.outcome ⟨user, route⟩ w).calls = calls
      generalize (Request.outcome ⟨user, route⟩ w).world = w' at hleaves ⊢
      cases hleaves with
      | same => exact .of_eq rfl
      | create => exact .of_same hroute rfl
      | update => exact .of_same hroute (auditLogs_saveMatch _)
      | addPlayers row creator editable room free save =>
          exact .of_same hroute (auditLogs_playingWorld save)
      | submitResult => exact .of_same hroute (by simp)
      | vote => exact .of_same hroute (auditLogs_votedWorld _ _ _)
      | confirm => exact .of_same hroute (by simp [confirmedWorld])
      | cancel => exact .of_same hroute (by simp [World.deleteAllConfirmations])
      | overrideResult => exact .overrideResult hroute _ rfl (auditLogs_overriddenWorld _ _ _ _ _)
      | delete => exact .of_same hroute rfl
      | adminDelete => cases hrecords

/-! ## Runs -/

/-- The match is not stored and its id will not be handed out again. -/
def World.Gone (w : World) (matchId : MatchId) : Prop :=
  matchId < w.nextMatchId ∧ w.row matchId = none

/-- One more audit row, seen from one match. -/
theorem deletions_of_append {w' : World} {entry : AuditLogEntity}
    (h : w'.auditLogs = w.auditLogs ++ [entry]) (matchId : MatchId) :
    w'.deletions matchId = w.deletions matchId ++
      if entry.action = .matchDelete ∧ entry.entityId = matchId then [entry] else [] := by
  rw [deletions, h, List.filter_append, deletions]
  congr 1
  split <;> simp_all

/-- A match that is gone stays gone. -/
theorem Input.gone (hw : w.Sound) (h : w.Gone matchId) (input : Input) :
    (input.after w).Gone matchId := by
  cases input with
  | signIn user => exact h
  | tick elapsed => exact h
  | request r =>
      show World.Gone (r.outcome w).world matchId
      rcases r.effect hw with ⟨hsame, hnext⟩ | ⟨changed, action, hp⟩
      · exact ⟨hnext ▸ h.1, (congrArg MatchView.row (hsame matchId)).trans h.2⟩
      · have hne : matchId ≠ changed := by
          rintro rfl
          exact Nat.not_le_of_lt h.1 (hp.stored_or_new h.2)
        exact ⟨Nat.lt_of_lt_of_le h.1 hp.next,
          (congrArg MatchView.row (hp.others matchId hne)).trans h.2⟩

/-- Every step appends to the audit log; a deletion is recorded only for a match that was stored
and is no longer. -/
theorem Input.deletions (w : World) (input : Input) (matchId : MatchId) :
    w.auditLogs <+: (input.after w).auditLogs ∧
      ((input.after w).deletions matchId = w.deletions matchId ∨
        (w.row matchId).isSome ∧ (input.after w).row matchId = none) := by
  cases input with
  | signIn user => exact ⟨List.prefix_refl _, .inl rfl⟩
  | tick elapsed => exact ⟨List.prefix_refl _, .inl rfl⟩
  | request r =>
      cases r.auditEffect w with
      | unchanged hsame hkept =>
          refine ⟨hsame ▸ List.prefix_refl _, .inl ?_⟩
          rw [World.deletions, Input.after, hsame, World.deletions]
      | overrideResult hroute entry haction hlogs =>
          refine ⟨hlogs ▸ List.prefix_append _ _, .inl ?_⟩
          rw [Input.after, deletions_of_append hlogs, haction]
          simp
      | @delete deleted row hroute hadmin hrow hgone entry hdata hlogs hcalls =>
          refine ⟨hlogs ▸ List.prefix_append _ _, ?_⟩
          by_cases heq : matchId = deleted
          · subst heq
            exact .inr ⟨hrow ▸ rfl, hgone⟩
          · refine .inl ?_
            have hid : entry.entityId = deleted := by rw [hdata]; rfl
            rw [Input.after, deletions_of_append hlogs, hid]
            simp [Ne.symm heq]

/-- What the trail needs of a world: it is sound, and what was recorded as deleted is gone. -/
structure World.Trail (w : World) : Prop extends w.Sound where
  gone : ∀ matchId, w.deletions matchId ≠ [] → w.Gone matchId

/-- Every step keeps the trail. -/
theorem Input.trail (hw : w.Trail) (input : Input) : (input.after w).Trail := by
  refine ⟨Input.sound hw.toSound input, fun matchId hsome => ?_⟩
  rcases (Input.deletions w input matchId).2 with hsame | ⟨hstored, hgone⟩
  · exact Input.gone hw.toSound (hw.gone matchId (hsame ▸ hsome)) input
  · obtain ⟨r, hrow⟩ := Option.isSome_iff_exists.mp hstored
    have hissued := Effect.issued_of_row hw.toSound hrow
    exact ⟨Nat.lt_of_lt_of_le hissued (Input.next_le hw.toSound input), hgone⟩

/-- What was written stays written. -/
theorem World.auditLogs_prefix_run (w : World) (inputs : List Input) :
    w.auditLogs <+: (w.run inputs).auditLogs := by
  induction inputs generalizing w with
  | nil => exact List.prefix_refl _
  | cons input inputs ih =>
      exact ((Input.deletions w input 0).1).trans (ih (input.after w))

/-- A run keeps the trail. -/
theorem World.run_trail (hw : w.Trail) (inputs : List Input) : (w.run inputs).Trail := by
  induction inputs generalizing w with
  | nil => exact hw
  | cons input inputs ih => exact ih (Input.trail hw input)

/-- Nothing more is recorded about a match that is gone. -/
theorem World.deletions_run (hw : w.Sound) (h : w.Gone matchId) (inputs : List Input) :
    (w.run inputs).deletions matchId = w.deletions matchId := by
  induction inputs generalizing w with
  | nil => rfl
  | cons input inputs ih =>
      rw [World.run_cons, ih (Input.sound hw input) (Input.gone hw h input)]
      rcases (Input.deletions w input matchId).2 with hsame | ⟨hstored, _⟩
      · exact hsame
      · simp [h.2] at hstored

/-- A step that no admin takes to delete a confirmed match through `DELETE /matches/:matchId`. -/
def RecordsDeletion (w : World) : Input → Prop
  | .request ⟨user, .deleteMatch matchId⟩ =>
      user.isAdmin = true → ∀ r, w.row matchId = some r → r.status ≠ .confirmed
  | _ => True

/-- A step that removes a confirmed match is an admin's request and records the deletion first. -/
theorem Input.records (hw : w.Trail) {input : Input} (hok : RecordsDeletion w input)
    {r : MatchRow} (hrow : w.row matchId = some r) (hconfirmed : r.status = .confirmed)
    (hgone : (input.after w).row matchId = none) :
    ∃ request entry, input = .request request ∧ request.user.isAdmin = true ∧
      (input.after w).deletions matchId = [entry] ∧
      entry.toAuditLogData =
        AdminOverrideService.deleteAuditData ⟨r, none⟩ matchId request.user.sub ∧
      (request.outcome w).calls =
        [.delete matchId, .saveAuditLog entry.toAuditLogData, .findById matchId] := by
  have hnone : w.deletions matchId = [] := by
    by_contra hsome
    simp [(hw.gone matchId hsome).2] at hrow
  rcases Input.simulates hw.toSound input matchId with
    hsame | ⟨⟨user, route⟩, action, rfl, hdo, htrans⟩
  · have hkept := (congrArg MatchView.row hsame).symm.trans hgone
    simp [hrow] at hkept
  · obtain ⟨userId, rfl⟩ := htrans.eq_delete (by simp [hrow]) hgone
    obtain ⟨rfl | rfl, hadmin⟩ := Request.mayDo_delete hdo
    · exact absurd hconfirmed (hok hadmin r hrow)
    · cases Request.auditEffect ⟨user, .adminDeleteMatch matchId⟩ w with
      | unchanged hsame hkept =>
          rw [Input.after, hkept matchId r rfl hrow hconfirmed] at hgone
          cases hgone
      | overrideResult hroute entry haction hlogs => exact absurd rfl (hroute matchId)
      | delete hroute _ hrow' _ entry hdata hlogs hcalls =>
          cases hroute
          obtain rfl : r = _ := Option.some.inj (hrow.symm.trans hrow')
          refine ⟨_, entry, rfl, hadmin, ?_, hdata, hcalls⟩
          rw [Input.after, deletions_of_append hlogs, hnone, hdata]
          simp [AdminOverrideService.deleteAuditData]

/-- In a run in which no admin deletes a confirmed match through `DELETE /matches/:matchId`, each
confirmed match that is removed has exactly one `match_delete` row from then on: written before
the removal, by the deleting admin, with the scores and the status the match had. Audit rows are
only appended. -/
theorem confirmed_deletion_recorded (users : Table UserEntity.id) (before : List Input)
    (input : Input) (later : List Input)
    (hsteps : (World.withUsers users).Steps RecordsDeletion (before ++ input :: later)) :
    (∀ matchId r, ((World.withUsers users).run before).row matchId = some r →
      r.status = .confirmed →
      ((World.withUsers users).run (before ++ [input])).row matchId = none →
        ∃ request entry, input = .request request ∧ request.user.isAdmin = true ∧
          ((World.withUsers users).run (before ++ input :: later)).deletions matchId = [entry] ∧
          entry.actorId = some request.user.sub ∧
          entry.beforeData = .scoresAndStatus r.scoreA r.scoreB r.status ∧
          (request.outcome ((World.withUsers users).run before)).calls =
            [.delete matchId, .saveAuditLog entry.toAuditLogData, .findById matchId]) ∧
      ((World.withUsers users).run before).auditLogs <+:
        ((World.withUsers users).run (before ++ input :: later)).auditLogs := by
  have htrail : ((World.withUsers users).run before).Trail :=
    run_trail ⟨sound_withUsers users, fun _ h => absurd rfl h⟩ before
  simp only [World.run_append, World.run_cons, World.run_nil]
  refine ⟨fun matchId r hrow hconfirmed hgone => ?_, auditLogs_prefix_run _ (input :: later)⟩
  obtain ⟨request, entry, rfl, hadmin, hdeletions, hdata, hcalls⟩ :=
    Input.records htrail (steps_append.mp hsteps).2.1 hrow hconfirmed hgone
  have hafter := Input.trail htrail (.request request)
  refine ⟨request, entry, rfl, hadmin, ?_, by rw [hdata]; rfl, by rw [hdata]; rfl, hcalls⟩
  rw [World.deletions_run hafter.toSound (hafter.gone matchId (by simp [hdeletions])), hdeletions]

/-- The admin's own endpoint records the deletion of the confirmed one-on-one match. -/
theorem confirmed_deletion_recorded_duel :
    ∃ entry, ((World.withUsers signedIn).run
      (duelConfirmed ++ [.request ⟨admin, .adminDeleteMatch 1⟩])).deletions 1 = [entry] ∧
        entry.beforeData = .scoresAndStatus (some 3) (some 1) .confirmed := by
  have hrow : ((World.withUsers signedIn).run duelConfirmed).row 1 =
      some ⟨1, some 1, .oneVsOne, .confirmed, some 3, some 1, 0, 5, some 5, some 5⟩ := by decide
  have hsteps : (World.withUsers signedIn).Steps RecordsDeletion
      (duelConfirmed ++ [.request ⟨admin, .adminDeleteMatch 1⟩]) :=
    ⟨trivial, trivial, trivial, trivial, trivial, trivial, trivial, trivial⟩
  obtain ⟨request, entry, _, _, hdeletions, _, hbefore, _⟩ :=
    (confirmed_deletion_recorded signedIn duelConfirmed (.request ⟨admin, .adminDeleteMatch 1⟩) []
      hsteps).1 1 _ hrow rfl (by decide)
  exact ⟨entry, hdeletions, hbefore⟩

/-- `DELETE /matches/:matchId` removes a confirmed match without a `match_delete` row. -/
theorem not_confirmed_deletion_recorded_delete :
    ¬ ∀ (users : Table UserEntity.id) (before : List Input) (input : Input) (later : List Input)
      (matchId : MatchId) (r : MatchRow),
      ((World.withUsers users).run before).row matchId = some r → r.status = .confirmed →
      ((World.withUsers users).run (before ++ [input])).row matchId = none →
        ∃ entry, ((World.withUsers users).run (before ++ input :: later)).deletions matchId =
          [entry] := by
  intro h
  have hrow : ((World.withUsers signedIn).run duelConfirmed).row 1 =
      some ⟨1, some 1, .oneVsOne, .confirmed, some 3, some 1, 0, 5, some 5, some 5⟩ := by decide
  obtain ⟨entry, hentry⟩ := h signedIn duelConfirmed (.request ⟨admin, .deleteMatch 1⟩) [] 1 _
    hrow rfl (by decide)
  have hnone : ((World.withUsers signedIn).run
      (duelConfirmed ++ [.request ⟨admin, .deleteMatch 1⟩])).deletions 1 = [] := by decide
  rw [hnone] at hentry
  cases hentry

end FoosballApi.Matches
