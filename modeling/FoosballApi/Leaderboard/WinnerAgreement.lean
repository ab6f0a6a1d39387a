import FoosballApi.Leaderboard.LeaderboardService
import FoosballApi.Leaderboard.ChangeAnnounced

/-!
# The winner of a confirmation

`confirm` names the winner in the `match.confirmed` job, from the scores with `null` read as 0; the
leaderboard query decides the winner again, from the columns. In every state a run reaches both
agree: the confirmation adds one win for each player on the team the job names, and nothing else.
After overrides the leaderboard is the one of a match confirmed with the overriding scores.
-/

namespace FoosballApi.Leaderboard

open Calls Data Events Matches Matches.World Prog Text Users

variable {w w' : World} {matchId : MatchId} {r : MatchRow} {user : JwtPayload}

/-! ## Both decisions -/

/-- The players of a match on the team that a job names. -/
def winningUsers (w : World) (matchId : MatchId) : WinnerTeam → List UserId
  | .team winner => ((w.roster matchId).filter (·.team = winner)).map (·.userId)
  | .draw => []

/-- The job names a draw when the scores are equal, and else the team the query finds. -/
theorem winnerTeam_cases {scoreA scoreB : Score} (hA : r.scoreA = some scoreA)
    (hB : r.scoreB = some scoreB) :
    (winnerTeam scoreA scoreB = .draw ∧ scoreA = scoreB) ∨
      ∃ winner, winnerTeam scoreA scoreB = .team winner ∧ r.winningTeam = some winner ∧
        scoreA ≠ scoreB := by
  simp only [winnerTeam, MatchRow.winningTeam, hA, hB]
  rcases lt_trichotomy scoreA scoreB with hlt | heq | hgt
  · rw [if_neg hlt.asymm, if_pos hlt, if_neg hlt.asymm, if_pos hlt]
    exact .inr ⟨.B, rfl, rfl, hlt.ne⟩
  · subst heq
    rw [if_neg (lt_irrefl _), if_neg (lt_irrefl _)]
    exact .inl ⟨rfl, rfl⟩
  · rw [if_pos hgt, if_pos hgt]
    exact .inr ⟨.A, rfl, rfl, hgt.ne'⟩

/-! ## A confirmation -/

/-- Publishing a confirmation touches no table. -/
theorem sameTables_confirmedWorld (w : World) (matchId : MatchId) (userId : UserId) (r : MatchRow) :
    SameTables ((w.votedWorld matchId userId).saveMatch ⟨r.confirmedAtTime w.clock, none⟩)
      (w.confirmedWorld matchId userId r) :=
  (sameTables_enqueue _ .matchesQueue (confirmedJob matchId r w.clock)).trans
    (sameTables_enqueue _ .leaderboardQueue (invalidateJob .matchConfirmed w.clock))

/-- A confirmed world has the row with the new status and stamps. -/
theorem row_confirmedWorld (hr : w.Confirmable matchId user.sub r) :
    ∃ t, (w.confirmedWorld matchId user.sub r).row matchId =
      some { r.confirmedAtTime w.clock with updatedAt := t } := by
  obtain rfl := id_of_row hr.row
  have hrow : (w.votedWorld r.id user.sub).row r.id = some r :=
    (row_votedWorld _ _ _ _).trans hr.row
  have hsame := sameTables_confirmedWorld w r.id user.sub r
  obtain ⟨t, ht⟩ := row_saveMatch (m := ⟨r.confirmedAtTime w.clock, none⟩) hrow
  exact ⟨t, (hsame.row r.id).trans ht⟩

/-- A confirmation leaves the other matches, all rosters and the users. -/
theorem confirmedWorld_frame (hr : w.Confirmable matchId user.sub r) :
    (∀ other, other ≠ matchId →
        (w.confirmedWorld matchId user.sub r).row other = w.row other) ∧
      (w.confirmedWorld matchId user.sub r).roster = w.roster ∧
        (w.confirmedWorld matchId user.sub r).users = w.users := by
  obtain rfl := id_of_row hr.row
  have hvoted := votedWorld_eq w r.id user.sub
  have hrow : (w.votedWorld r.id user.sub).row r.id = some r :=
    (row_votedWorld _ _ _ _).trans hr.row
  have hsame := sameTables_confirmedWorld w r.id user.sub r
  refine ⟨fun other hne => (hsame.row other).trans ?_, roster_congr (hsame.players.trans ?_),
    hsame.users.trans ?_⟩
  · rw [row_saveMatch_of_ne hne, row_votedWorld]
  · rw [players_saveMatch (m := ⟨r.confirmedAtTime w.clock, none⟩) hrow, hvoted]
  · rw [users_saveMatch, hvoted]

/-- At the quorum a vote confirms the match. -/
theorem confirm_outcome (hr : w.Confirmable matchId user.sub r)
    (hquorum : w.QuorumReached matchId user.sub) :
    (Request.outcome ⟨user, .confirmResult matchId⟩ w).world =
      w.confirmedWorld matchId user.sub r := by
  have hleaves := Request.leaves ⟨user, .confirmResult matchId⟩ w
  generalize (Request.outcome ⟨user, .confirmResult matchId⟩ w).world = w' at hleaves ⊢
  cases hleaves with
  | same refused => exact absurd hr (refused r)
  | vote _ below => exact absurd hquorum below
  | confirm confirmable =>
      rw [Option.some.inj (hr.row.symm.trans confirmable.row)]

/-- A request that makes a match confirmed is such a vote. -/
theorem confirmable_of_confirms {r' : MatchRow}
    (hopen : ∀ r, w.row matchId = some r → r.status ≠ .confirmed)
    (hrow : (Request.outcome ⟨user, .confirmResult matchId⟩ w).world.row matchId = some r')
    (hconfirmed : r'.status = .confirmed) :
    ∃ r, w.Confirmable matchId user.sub r ∧ w.QuorumReached matchId user.sub := by
  have hleaves := Request.leaves ⟨user, .confirmResult matchId⟩ w
  generalize (Request.outcome ⟨user, .confirmResult matchId⟩ w).world = w' at hleaves hrow
  cases hleaves with
  | same => exact absurd hconfirmed (hopen r' hrow)
  | vote =>
      rw [row_votedWorld] at hrow
      exact absurd hconfirmed (hopen r' hrow)
  | confirm confirmable quorum => exact ⟨_, confirmable, quorum⟩

/-- What a match contributes to the wins once it is confirmed: one for each player on the team the
job names, while the window contains the confirmation. -/
theorem userPart_confirmedWorld (hlinked : w.Linked) (hr : w.Confirmable matchId user.sub r)
    {scoreA scoreB : Score} (hA : r.scoreA = some scoreA) (hB : r.scoreB = some scoreB)
    {startDate : Option Date} (hwindow : ∀ start ∈ startDate, start ≤ w.clock) :
    (w.confirmedWorld matchId user.sub r).userPart startDate matchId =
      ((winningUsers w matchId (winnerTeam scoreA scoreB)).map fun userId =>
        (userId, w.displayName userId) : List (UserId × String)) := by
  obtain ⟨t, hrow⟩ := row_confirmedWorld hr
  obtain ⟨-, hroster, husers⟩ := confirmedWorld_frame hr
  rcases winnerTeam_cases hA hB with ⟨hdraw, heq⟩ | ⟨winner, hwinner, hteam, hne⟩
  · rw [hdraw]
    refine (parts_of_not_counts fun r' hr' hcounts => ?_).1
    obtain rfl := Option.some.inj (hrow.symm.trans hr')
    exact hcounts.2.2.2.1 (hA.trans (heq ▸ hB.symm))
  · have hcounts : MatchRow.Counts startDate { r.confirmedAtTime w.clock with updatedAt := t } := by
      refine ⟨rfl, ?_, ?_, fun heq => hne ?_, fun start hstart => ⟨_, rfl, hwindow start hstart⟩⟩
      · exact Option.ne_none_iff_isSome.mpr (hA ▸ rfl)
      · exact Option.ne_none_iff_isSome.mpr (hB ▸ rfl)
      · exact Option.some.inj (hA.symm.trans (heq.trans hB))
    have hid : r.id = matchId := id_of_row hr.row
    have hrows : (w.confirmedWorld matchId user.sub r).userWinRows
        { r.confirmedAtTime w.clock with updatedAt := t } =
          (winningUsers w matchId (.team winner)).map fun userId =>
            (userId, w.displayName userId) := by
      have hwinners : (w.confirmedWorld matchId user.sub r).winners
          { r.confirmedAtTime w.clock with updatedAt := t } =
            (w.roster matchId).filter (·.team = winner) := by
        show ((w.confirmedWorld matchId user.sub r).roster r.id).filter
          (fun p => r.winningTeam = some p.team) = _
        rw [hroster, hid, hteam]
        refine List.filter_congr fun p _ => decide_eq_decide.mpr ?_
        rw [Option.some.injEq, eq_comm]
      rw [userWinRows, hwinners, userKey_congr husers, winningUsers, List.map_map,
        ← List.filterMap_eq_map]
      refine List.filterMap_congr fun p hp => ?_
      exact userKey_of_isSome (hlinked p (mem_roster.mp (List.mem_filter.mp hp).1).1)
    rw [userPart_of_counts hrow hcounts, hrows, hwinner]

/-- A confirmation credits each player on the team the job names with one win. -/
theorem userWins_confirmedWorld (hlinked : w.Linked) (hr : w.Confirmable matchId user.sub r)
    {scoreA scoreB : Score} (hA : r.scoreA = some scoreA) (hB : r.scoreB = some scoreB)
    {startDate : Option Date} (hwindow : ∀ start ∈ startDate, start ≤ w.clock) :
    ((w.confirmedWorld matchId user.sub r).userWins startDate).Perm
      (w.creditWins (winningUsers w matchId (winnerTeam scoreA scoreB)) (w.userWins startDate)) := by
  obtain ⟨hothers, hroster, husers⟩ := confirmedWorld_frame hr
  refine userWins_credit ?_ (fun other hne => ?_) ?_
    (userPart_confirmedWorld hlinked hr hA hB hwindow)
  · cases winnerTeam scoreA scoreB with
    | draw => exact List.nodup_nil
    | team winner =>
        exact (roster_users_nodup w matchId).sublist (List.filter_sublist.map _)
  · exact (parts_of_view (hothers other hne) (congrFun hroster other) husers).1
  · refine (parts_of_not_counts fun r' hr' hcounts => ?_).1
    obtain rfl := Option.some.inj (hr.row.symm.trans hr')
    cases hr.awaiting.symm.trans hcounts.1

/-! ## Overrides -/

/-- An override of one match, or time passing. -/
def OverridesResult (matchId : MatchId) : Input → Prop
  | .request ⟨_, .adminOverrideResult id _⟩ => id = matchId
  | .tick _ => True
  | _ => False

/-- The world after overrides of a confirmed match: only its scores are others. -/
structure Overridden (w : World) (matchId : MatchId) (r : MatchRow) (w' : World) : Prop where
  users : w'.users = w.users
  roster : w'.roster = w.roster
  others : ∀ other, other ≠ matchId → w'.row other = w.row other
  row : ∃ scoreA scoreB t, w'.row matchId =
    some { r with scoreA := scoreA, scoreB := scoreB, updatedAt := t }

/-- The world an admin's override of a confirmed match leaves. -/
theorem overridden_overriddenWorld (hrow : w.row matchId = some r) (userId : UserId)
    (dto : AdminOverrideResultDto) :
    ∃ t, (w.overriddenWorld matchId r userId dto).row matchId = some { r with
        scoreA := some dto.scoreA, scoreB := some dto.scoreB, updatedAt := t } ∧
      Overridden w matchId r (w.overriddenWorld matchId r userId dto) := by
  obtain rfl := id_of_row hrow
  let data := AdminOverrideService.overrideAuditData ⟨r, some (w.roster r.id)⟩ r.id userId dto
  let mid := (w.takeAuditId.enqueue .auditQueue (auditJob data w.clock)).enqueue .leaderboardQueue
    (invalidateJob .adminResultOverride w.clock)
  let m : MatchEntity :=
    ⟨{ r with scoreA := some dto.scoreA, scoreB := some dto.scoreB }, some (w.roster r.id)⟩
  have hmid : SameTables w mid :=
    ((sameTables_takeAuditId w).trans (sameTables_enqueue _ _ _)).trans (sameTables_enqueue _ _ _)
  have hsaved : SameTables (mid.saveMatch m) (w.overriddenWorld r.id r userId dto) :=
    sameTables_appendAuditLog _ _
  have hstored : mid.row m.id = some r := (hmid.row r.id).trans hrow
  obtain ⟨t, ht⟩ := row_saveMatch hstored
  have hfinal := (hsaved.row r.id).trans ht
  refine ⟨t, hfinal, hsaved.users.trans ((users_saveMatch m).trans hmid.users), ?_, ?_,
    ⟨_, _, t, hfinal⟩⟩
  · exact roster_congr (hsaved.players.trans ((players_saveMatch hstored).trans hmid.players))
  · intro other hne
    exact (hsaved.row other).trans ((row_saveMatch_of_ne hne).trans (hmid.row other))

namespace Overridden

theorem refl (hrow : w.row matchId = some r) : Overridden w matchId r w :=
  ⟨rfl, rfl, fun _ _ => rfl, r.scoreA, r.scoreB, r.updatedAt, hrow⟩

/-- One more override. -/
theorem step (h : Overridden w matchId r w') {input : Input}
    (hinput : OverridesResult matchId input) : Overridden w matchId r (input.after w') := by
  cases input with
  | tick elapsed => exact ⟨h.users, h.roster, h.others, h.row⟩
  | signIn user => exact hinput.elim
  | request request =>
      obtain ⟨user, route⟩ := request
      cases route with
      | adminOverrideResult id dto =>
          obtain rfl : id = matchId := hinput
          have hleaves := Request.leaves ⟨user, .adminOverrideResult id dto⟩ w'
          rw [Input.after]
          generalize (Request.outcome ⟨user, .adminOverrideResult id dto⟩ w').world = w''
            at hleaves ⊢
          cases hleaves with
          | same => exact h
          | overrideResult admin row =>
              obtain ⟨scoreA, scoreB, t, hrow⟩ := h.row
              obtain rfl := Option.some.inj (hrow.symm.trans row)
              obtain ⟨t', hfinal, hnext⟩ := overridden_overriddenWorld row user.sub dto
              exact ⟨hnext.users.trans h.users, hnext.roster.trans h.roster,
                fun other hne => (hnext.others other hne).trans (h.others other hne),
                _, _, t', hfinal⟩
      | _ => exact hinput.elim

/-- A sequence of overrides. -/
theorem run (h : Overridden w matchId r w') {overrides : List Input}
    (hinputs : ∀ input ∈ overrides, OverridesResult matchId input) :
    Overridden w matchId r (w'.run overrides) := by
  induction overrides generalizing w' with
  | nil => exact h
  | cons input overrides ih =>
      exact ih (h.step (hinputs input List.mem_cons_self)) fun next hnext =>
        hinputs next (List.mem_cons_of_mem _ hnext)

/-- An admin's override of a confirmed match stores its scores. -/
theorem scores (h : Overridden w matchId r w') (hconfirmed : r.status = .confirmed)
    {admin : JwtPayload} (hadmin : admin.isAdmin = true) (dto : AdminOverrideResultDto) :
    ∃ r'' ∈ (Input.after w' (.request ⟨admin, .adminOverrideResult matchId dto⟩)).row matchId,
      r''.scoreA = some dto.scoreA ∧ r''.scoreB = some dto.scoreB := by
  obtain ⟨scoreA, scoreB, t, hrow⟩ := h.row
  have hleaves := Request.leaves ⟨admin, .adminOverrideResult matchId dto⟩ w'
  rw [Input.after]
  generalize (Request.outcome ⟨admin, .adminOverrideResult matchId dto⟩ w').world = w''
    at hleaves ⊢
  cases hleaves with
  | same refused => exact (refused hadmin _ hrow hconfirmed).elim
  | overrideResult _ row =>
      obtain ⟨t', hfinal, -⟩ := overridden_overriddenWorld row admin.sub dto
      exact ⟨_, hfinal, rfl, rfl⟩

end Overridden

/-- The world in which the stored match was submitted with other scores. -/
def withScores (w : World) (matchId : MatchId) (scoreA scoreB : Score) : World :=
  match w.row matchId with
  | some r =>
      { w with matchRows := w.matchRows.put { r with scoreA := some scoreA, scoreB := some scoreB } }
  | none => w

theorem withScores_eq (hrow : w.row matchId = some r) (scoreA scoreB : Score) :
    withScores w matchId scoreA scoreB = { w with
      matchRows := w.matchRows.put { r with scoreA := some scoreA, scoreB := some scoreB } } := by
  rw [withScores, hrow]

/-- With other scores the same vote confirms the match. -/
theorem confirmable_withScores (hr : w.Confirmable matchId user.sub r)
    (hquorum : w.QuorumReached matchId user.sub) (scoreA scoreB : Score) :
    (withScores w matchId scoreA scoreB).Confirmable matchId user.sub
        { r with scoreA := some scoreA, scoreB := some scoreB } ∧
      (withScores w matchId scoreA scoreB).QuorumReached matchId user.sub := by
  obtain rfl := id_of_row hr.row
  rw [withScores_eq hr.row]
  refine ⟨⟨Table.get_put_self w.matchRows _, hr.awaiting, hr.player⟩, ?_⟩
  have hvotes : ∀ rows : Table MatchRow.id,
      (({ w with matchRows := rows } : World).votedWorld r.id user.sub).votes r.id =
        (w.votedWorld r.id user.sub).votes r.id := by
    intro rows
    simp only [votedWorld, voteWrites]
    split <;> rfl
  rw [QuorumReached, hvotes]
  exact hquorum

/-- After overrides of a match the standings are those of the match confirmed with its scores. -/
theorem sameStandings_overridden (hr : w.Confirmable matchId user.sub r) {final : World}
    (h : ∃ t, Overridden (w.confirmedWorld matchId user.sub r) matchId
      { r.confirmedAtTime w.clock with updatedAt := t } final)
    {r'' : MatchRow} (hrow'' : final.row matchId = some r'') {scoreA scoreB : Score}
    (hA : r''.scoreA = some scoreA) (hB : r''.scoreB = some scoreB)
    (hr₂ : (withScores w matchId scoreA scoreB).Confirmable matchId user.sub
      { r with scoreA := some scoreA, scoreB := some scoreB })
    (startDate : Option Date) :
    SameStandings startDate ((withScores w matchId scoreA scoreB).confirmedWorld matchId user.sub
      { r with scoreA := some scoreA, scoreB := some scoreB }) final := by
  obtain ⟨t, h⟩ := h
  obtain ⟨hothers, hroster, husers⟩ := confirmedWorld_frame hr
  obtain ⟨hothers₂, hroster₂, husers₂⟩ := confirmedWorld_frame hr₂
  obtain ⟨t₂, hrow₂⟩ := row_confirmedWorld hr₂
  obtain rfl := id_of_row hr.row
  have heq := withScores_eq hr.row scoreA scoreB
  have husers' : final.users = ((withScores w r.id scoreA scoreB).confirmedWorld r.id user.sub
      { r with scoreA := some scoreA, scoreB := some scoreB }).users := by
    rw [h.users, husers, husers₂, heq]
  have hroster' : final.roster = ((withScores w r.id scoreA scoreB).confirmedWorld r.id user.sub
      { r with scoreA := some scoreA, scoreB := some scoreB }).roster := by
    rw [h.roster, hroster, hroster₂, heq]
    rfl
  refine sameStandings_of_parts fun other => ?_
  by_cases hne : other = r.id
  · subst hne
    refine parts_congr hrow₂ hrow'' ?_ (congrFun hroster' r.id) husers'
    obtain ⟨a, b, t', hrow'⟩ := h.row
    obtain rfl := Option.some.inj (hrow'.symm.trans hrow'')
    have ha : a = some scoreA := hA
    have hb : b = some scoreB := hB
    rw [heq, ha, hb]
    exact ⟨t', rfl⟩
  · refine parts_of_view ?_ (congrFun hroster' other) husers'
    rw [h.others other hne, hothers other hne, hothers₂ other hne, heq]
    refine (Table.get_put_of_ne w.matchRows ?_).symm
    exact hne

/-! ## Every run -/

/-- In every state a run reaches, a confirmation publishes the stored scores and time, and adds one
win for each player on the team it names, in every window that contains it; overrides then leave
the standings of a match that was confirmed with the overriding scores. -/
theorem confirmation_agrees [TimeZone] (users : Table UserEntity.id) (inputs : List Input)
    (user : JwtPayload) (matchId : MatchId) (r' : MatchRow) :
    let w := (World.withUsers users).run inputs
    let w' := (Request.outcome ⟨user, .confirmResult matchId⟩ w).world
    (∀ r, w.row matchId = some r → r.status ≠ .confirmed) → w'.row matchId = some r' →
    r'.status = .confirmed → ∃ winner scoreA scoreB confirmedAt occurredAt,
      w'.matchesQueue = w.matchesQueue ++ [⟨.matchConfirmed, 1, occurredAt,
          .matchConfirmed matchId winner scoreA scoreB confirmedAt⟩] ∧
      (r'.scoreA = some scoreA ∧ r'.scoreB = some scoreB ∧ r'.confirmedAt = some confirmedAt) ∧
      (∀ filter now, (∀ start ∈ windowStart now filter, start ≤ confirmedAt) →
        (w'.userWins (windowStart now filter)).Perm (w.creditWins (winningUsers w matchId winner)
          (w.userWins (windowStart now filter)))) ∧
      ∀ overrides, (∀ input ∈ overrides, OverridesResult matchId input) →
        (∀ admin dto, admin.isAdmin = true →
          overrides.getLast? = some (.request ⟨admin, .adminOverrideResult matchId dto⟩) →
          ∃ r'' ∈ (w'.run overrides).row matchId,
            r''.scoreA = some dto.scoreA ∧ r''.scoreB = some dto.scoreB) ∧
        ∀ scoreA scoreB, (∃ r'' ∈ (w'.run overrides).row matchId,
            r''.scoreA = some scoreA ∧ r''.scoreB = some scoreB) →
          let other := (Request.outcome ⟨user, .confirmResult matchId⟩
            (withScores w matchId scoreA scoreB)).world
          (∃ r₂ ∈ other.row matchId, r₂.status = .confirmed ∧ r₂.confirmedAt = some confirmedAt) ∧
            ∀ startDate, SameStandings startDate other (w'.run overrides) := by
  intro w w' hopen hrow' hconfirmed
  have hw : w.Regular := regular_run users inputs
  obtain ⟨r, hr, hquorum⟩ := confirmable_of_confirms hopen hrow' hconfirmed
  have hw' : w' = w.confirmedWorld matchId user.sub r := confirm_outcome hr hquorum
  obtain ⟨t, hrow⟩ := row_confirmedWorld hr
  rw [hw'] at hrow'
  obtain rfl := Option.some.inj (hrow.symm.trans hrow')
  have hlocked : r.status.Locked := .inl hr.awaiting
  obtain ⟨hsomeA, hsomeB⟩ := (hw.wellKept matchId r hr.row).scores hlocked
  obtain ⟨scoreA, hA⟩ := Option.isSome_iff_exists.mp hsomeA
  obtain ⟨scoreB, hB⟩ := Option.isSome_iff_exists.mp hsomeB
  rw [hw']
  refine ⟨winnerTeam scoreA scoreB, scoreA, scoreB, w.clock, w.clock, ?_, ⟨hA, hB, rfl⟩,
    fun filter now => userWins_confirmedWorld hw.linked hr hA hB, fun overrides hinputs => ?_⟩
  · have hjob : confirmedJob matchId r w.clock = ⟨.matchConfirmed, 1, w.clock,
        .matchConfirmed matchId (winnerTeam scoreA scoreB) scoreA scoreB w.clock⟩ := by
      rw [confirmedJob, hA, hB]
      rfl
    rw [confirmedWorld, hjob, saveMatch_eq, votedWorld_eq]
    rfl
  · have hstart := Overridden.refl hrow
    refine ⟨fun admin dto hadmin hlast => ?_, ?_⟩
    · obtain ⟨earlier, rfl⟩ := List.getLast?_eq_some_iff.mp hlast
      rw [run_append]
      exact (hstart.run fun input hinput => hinputs input
        (List.mem_append_left _ hinput)).scores rfl hadmin dto
    · rintro scoreA scoreB ⟨r'', hrow'', hA'', hB''⟩
      obtain ⟨hr₂, hquorum₂⟩ := confirmable_withScores hr hquorum scoreA scoreB
      obtain ⟨t₂, hrow₂⟩ := row_confirmedWorld hr₂
      dsimp only
      rw [confirm_outcome hr₂ hquorum₂]
      refine ⟨⟨_, hrow₂, rfl, ?_⟩, fun startDate => sameStandings_overridden hr
        ⟨t, hstart.run hinputs⟩ hrow'' hA'' hB'' hr₂ startDate⟩
      rw [withScores_eq hr.row]
      rfl

/-- The duel before the last vote. -/
def duelAwaiting : List Input := duel ++ [.request ⟨mario, .confirmResult 1⟩, .tick 5]

open Utc in
/-- The confirmation of the duel names a team, and the wins it adds are those of this team. -/
theorem confirmation_agrees_duel :
    let w := (World.withUsers signedIn).run duelAwaiting
    let w' := (Request.outcome ⟨rival, .confirmResult 1⟩ w).world
    ∃ winner occurredAt, w'.matchesQueue = w.matchesQueue ++
        [⟨.matchConfirmed, 1, occurredAt, .matchConfirmed 1 winner 3 1 5⟩] ∧
      (w'.userWins none).Perm (w.creditWins (winningUsers w 1 winner) (w.userWins none)) := by
  have hrow : ((World.withUsers signedIn).run duelAwaiting).row 1 =
      some ⟨1, some 1, .oneVsOne, .awaitingConfirmation, some 3, some 1, 0, 0, none, none⟩ := by
    decide
  have hrow' : (Request.outcome ⟨rival, .confirmResult 1⟩
      ((World.withUsers signedIn).run duelAwaiting)).world.row 1 =
      some ⟨1, some 1, .oneVsOne, .confirmed, some 3, some 1, 0, 5, some 5, some 5⟩ := by decide
  have hagrees := confirmation_agrees signedIn duelAwaiting rival 1
    ⟨1, some 1, .oneVsOne, .confirmed, some 3, some 1, 0, 5, some 5, some 5⟩
  dsimp only at hagrees ⊢
  generalize (World.withUsers signedIn).run duelAwaiting = w at hrow hrow' hagrees ⊢
  generalize (Request.outcome ⟨rival, .confirmResult 1⟩ w).world = w' at hrow' hagrees ⊢
  have hopen : ∀ r, w.row 1 = some r → r.status ≠ .confirmed := by
    intro r hr
    cases hrow.symm.trans hr
    decide
  obtain ⟨winner, scoreA, scoreB, confirmedAt, occurredAt, hjob, ⟨hA, hB, hC⟩, hwins, -⟩ :=
    hagrees hopen hrow' rfl
  cases hA
  cases hB
  cases hC
  exact ⟨winner, occurredAt, hjob, hwins .total 0 (fun _ hstart => nomatch hstart)⟩

end FoosballApi.Leaderboard
