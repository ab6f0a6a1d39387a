import FoosballApi.Leaderboard.AppRuns
import Mathlib.Data.List.MinMax

/-!
# Changes of the standings and their announcement

A request that changes the all-time standings should add a job that makes the worker delete the
cached lists. Confirmations and overrides do. The deletion of a match that counts and the renaming
of a winner change the standings without a job; every other request leaves them as they are.
-/

namespace FoosballApi.Leaderboard

open Calls Data Events Matches Matches.World Prog Users

/-- The request that led from one world to the other has added a job that invalidates the all-time
lists. -/
def AnnouncesChange (w w' : World) : Prop :=
  ∃ jobs, w'.leaderboardQueue = w.leaderboardQueue ++ jobs ∧
    ∃ job ∈ jobs, job.eventType = .leaderboardInvalidate ∧ InvalidatesTotal job

/-- The user has won a match that counts. -/
def HasWin (w : World) (userId : UserId) : Prop :=
  ∃ r ∈ w.countedMatches none, ∃ p ∈ w.winners r, p.userId = userId

/-- The match a route deletes. -/
def deletedMatch : Route → Option MatchId
  | .deleteMatch matchId | .adminDeleteMatch matchId => some matchId
  | _ => none

/-- An admin deletes a match that counts and has winners, or a winner gets another name. -/
def AppRequest.Silent (w : World) : AppRequest → Prop
  | .api request => request.user.isAdmin = true ∧ ∃ matchId ∈ deletedMatch request.route,
      ∃ r ∈ w.row matchId, r.Counts none ∧ w.winners r ≠ []
  | .upsertFromAzure azureOid email displayName =>
      ∃ old ∈ w.users.rows.find? (·.azureOid = azureOid),
        w.userFits { old with email := email, displayName := displayName } ∧
          old.displayName ≠ displayName ∧ HasWin w old.id
  | .updateDisplayName userId displayName =>
      ValidName (trim displayName) ∧ ∃ old ∈ w.users.get userId,
        old.displayName ≠ trim displayName ∧ HasWin w userId

variable {w w' : World} {matchId : MatchId}

/-- Without a new job nothing is announced. -/
theorem not_announcesChange (hqueue : w'.leaderboardQueue = w.leaderboardQueue) :
    ¬ AnnouncesChange w w' := by
  rintro ⟨jobs, hjobs, job, hjob, -⟩
  have hnone : jobs = [] := List.self_eq_append_right.mp (hqueue.symm.trans hjobs)
  rw [hnone] at hjob
  cases hjob

/-- The job the services add announces a change. -/
theorem announcesChange_invalidateJob (reason : InvalidateReason) (occurredAt : Date)
    (hqueue : w'.leaderboardQueue = w.leaderboardQueue ++ [invalidateJob reason occurredAt]) :
    AnnouncesChange w w' :=
  ⟨_, hqueue, _, List.mem_singleton_self _, rfl, invalidatesTotal_all reason occurredAt⟩

theorem sameStandings_refl (w : World) : SameStandings none w w := ⟨.refl _, .refl _⟩

/-! ## Writing a user -/

/-- A winner is a user. -/
theorem HasWin.isUser (hlinked : w.Linked) {userId : UserId} (h : HasWin w userId) :
    ∃ old, w.users.get userId = some old := by
  obtain ⟨r, -, p, hp, rfl⟩ := h
  exact Option.isSome_iff_exists.mp (hlinked p (mem_roster.mp (List.mem_filter.mp hp).1).1)

/-- A write of a user's row keeps the standings unless it gives a winner another name. -/
theorem sameStandings_put_iff (hlinked : w.Linked) (user : UserEntity) :
    SameStandings none w { w with users := w.users.put user } ↔
      ¬ ∃ old ∈ w.users.get user.id, old.displayName ≠ user.displayName ∧ HasWin w user.id := by
  let w' : World := { w with users := w.users.put user }
  have hwritten : w'.userKey user.id = some (user.id, user.displayName) := by
    show ((w.users.put user).get user.id).map _ = _
    rw [Table.get_put_self]
    rfl
  have hother : ∀ userId, userId ≠ user.id → w'.userKey userId = w.userKey userId := by
    intro userId hne
    show ((w.users.put user).get userId).map _ = _
    rw [Table.get_put_of_ne _ hne]
    rfl
  constructor
  · rintro ⟨hsame, -⟩ ⟨old, hold, hname, r, hr, p, hp, hid⟩
    have hkey : w.userKey p.userId = some (user.id, old.displayName) := by
      rw [userKey, hid, hold, Option.map_some, Table.key_of_get hold]
    -- The winner's old name is in the standings before the write, and not after it.
    have hbefore : (user.id, old.displayName) ∈ (w.countedMatches none).flatMap w.userWinRows :=
      List.mem_flatMap.mpr ⟨r, hr, List.mem_filterMap.mpr ⟨p, hp, hkey⟩⟩
    have hafter := (userWins_perm_iff.mp hsame).mem_iff.mpr hbefore
    obtain ⟨r', -, hrow⟩ := List.mem_flatMap.mp hafter
    obtain ⟨q, -, hq⟩ := List.mem_filterMap.mp hrow
    obtain ⟨found, hfound, hpair⟩ := Option.map_eq_some_iff.mp hq
    have hfoundId : found.id = q.userId := Table.key_of_get hfound
    have hqid : q.userId = user.id := hfoundId.symm.trans (congrArg Prod.fst hpair)
    have hwritten' : w'.userKey q.userId = some (user.id, user.displayName) := hqid ▸ hwritten
    have hnames := Option.some.inj (hq.symm.trans hwritten')
    exact hname (congrArg Prod.snd hnames)
  · intro hnone
    refine sameStandings_of_names rfl rfl fun r hr p hp => ?_
    by_cases hid : p.userId = user.id
    · have hwin : HasWin w user.id := ⟨r, hr, p, hp, hid⟩
      obtain ⟨old, hold⟩ := hwin.isUser hlinked
      have hname : old.displayName = user.displayName := by
        by_contra hname
        exact hnone ⟨old, hold, hname, hwin⟩
      rw [hid, hwritten, userKey, hold, Option.map_some, Table.key_of_get hold, hname]
    · exact hother _ hid

/-! ## Deleting a match -/

/-- Deleting a stored match keeps the standings unless it counts and has winners. -/
theorem sameStandings_deleteMatch_iff (hlinked : w.Linked) {mid : World} (hmid : SameTables w mid)
    {r : MatchRow} (hrow : w.row matchId = some r) :
    SameStandings none w (mid.deleteMatch matchId) ↔ ¬ (r.Counts none ∧ w.winners r ≠ []) := by
  let w' := mid.deleteMatch matchId
  have hothers : ∀ other, other ≠ matchId → w'.userPart none other = w.userPart none other ∧
      w'.pairPart none other = w.pairPart none other := by
    intro other hne
    have hview : w'.matchView other = w.matchView other := by
      rw [matchView_deleteMatch_of_ne hne, hmid.matchView]
    exact parts_of_view (congrArg MatchView.row hview) (congrArg MatchView.roster hview) hmid.users
  have hgone : w'.row matchId = none := congrArg MatchView.row (matchView_deleteMatch mid matchId)
  have hdeleted : w'.userPart none matchId = 0 ∧ w'.pairPart none matchId = 0 :=
    parts_of_not_counts fun r' hr' => by
      rw [hgone] at hr'
      cases hr'
  constructor
  · rintro hsame ⟨hcounts, hwinners⟩
    have hextra : w.userPart none matchId = w'.userPart none matchId + w.userPart none matchId := by
      rw [hdeleted.1, zero_add]
    refine not_sameStandings_of_part (fun other hne => (hothers other hne).1.symm) hextra ?_
      hsame.symm
    · rw [userPart_of_counts hrow hcounts]
      obtain ⟨p, hp⟩ := List.exists_mem_of_ne_nil _ hwinners
      have hstored := (mem_roster.mp (List.mem_filter.mp hp).1).1
      obtain ⟨user, huser⟩ := Option.isSome_iff_exists.mp (hlinked p hstored)
      have hmem : (user.id, user.displayName) ∈ w.userWinRows r :=
        List.mem_filterMap.mpr ⟨p, hp, by rw [userKey, huser]; rfl⟩
      exact fun hzero => List.ne_nil_of_mem hmem (Multiset.coe_eq_zero _ |>.mp hzero)
  · intro hnot
    refine sameStandings_of_parts fun other => ?_
    by_cases hne : other = matchId
    · subst hne
      have hnothing : w.userPart none other = 0 ∧ w.pairPart none other = 0 := by
        by_cases hcounts : r.Counts none
        · refine parts_of_no_winner fun r' hr' => ?_
          obtain rfl := Option.some.inj (hrow.symm.trans hr')
          exact not_not.mp fun hwinners => hnot ⟨hcounts, hwinners⟩
        · refine parts_of_not_counts fun r' hr' => ?_
          obtain rfl := Option.some.inj (hrow.symm.trans hr')
          exact hcounts
      rw [hdeleted.1, hdeleted.2, hnothing.1, hnothing.2]
      exact ⟨rfl, rfl⟩
    · exact hothers other hne

/-! ## The other requests -/

/-- The actions that concern no confirmed match. -/
def isOpenAction : Action → Bool
  | .confirm _ | .overrideResult _ | .delete _ => false
  | _ => true

/-- Such an action finds and leaves a match that is not confirmed. -/
theorem not_confirmed_of_transition {action : Action} {v v' : MatchView}
    (htrans : Transition action v v') (hopen : isOpenAction action = true) :
    (∀ r, v.row = some r → r.status ≠ .confirmed) ∧
      ∀ r, v'.row = some r → r.status ≠ .confirmed := by
  have hnot : ∀ {r : MatchRow}, ¬ r.status.Locked → r.status ≠ .confirmed :=
    fun hopen hconfirmed => hopen (.inr hconfirmed)
  cases htrans with
  | confirm | overrideResult | delete => cases hopen
  | create creator status =>
      exact ⟨nofun, fun _ hr => by cases hr; rw [status]; decide⟩
  | update creator editable =>
      exact ⟨fun _ hr => by cases hr; exact hnot editable,
        fun _ hr => by cases hr; exact hnot editable⟩
  | addPlayers creator editable =>
      refine ⟨fun _ hr => by cases hr; exact hnot editable, fun _ hr => ?_⟩
      cases hr
      dsimp only
      split
      · decide
      · exact hnot editable
  | submitResult creator editable =>
      exact ⟨fun _ hr => by cases hr; exact hnot editable, fun _ hr => by cases hr; nofun⟩
  | vote awaiting =>
      exact ⟨fun _ hr => by cases hr; rw [awaiting]; decide,
        fun _ hr => by cases hr; rw [awaiting]; decide⟩
  | cancel creator awaiting =>
      exact ⟨fun _ hr => by cases hr; rw [awaiting]; decide, fun _ hr => by cases hr; nofun⟩

/-- A request without an action on a confirmed match keeps the standings. -/
theorem sameStandings_of_effect {request : Request} {startDate : Option Date}
    (heffect : Effect request w w') (husers : w'.users = w.users)
    (hopen : ∀ matchId action, request.MayDo matchId action → isOpenAction action = true) :
    SameStandings startDate w w' := by
  have hview : ∀ matchId, w'.matchView matchId = w.matchView matchId →
      w'.userPart startDate matchId = w.userPart startDate matchId ∧
        w'.pairPart startDate matchId = w.pairPart startDate matchId := fun matchId h =>
    parts_of_view (congrArg MatchView.row h) (congrArg MatchView.roster h) husers
  refine sameStandings_of_parts fun matchId => ?_
  rcases heffect with ⟨hsame, -⟩ | ⟨changed, action, h⟩
  · exact hview matchId (hsame matchId)
  · by_cases hne : matchId = changed
    · subst hne
      obtain ⟨hbefore, hafter⟩ :=
        not_confirmed_of_transition h.transition (hopen matchId action h.mayDo)
      obtain ⟨huser, hpair⟩ : w.userPart startDate matchId = 0 ∧ w.pairPart startDate matchId = 0 :=
        parts_of_not_counts fun r hr hcounts => hbefore r hr hcounts.1
      obtain ⟨huser', hpair'⟩ :
          w'.userPart startDate matchId = 0 ∧ w'.pairPart startDate matchId = 0 :=
        parts_of_not_counts fun r hr hcounts => hafter r hr hcounts.1
      exact ⟨huser'.trans huser.symm, hpair'.trans hpair.symm⟩
    · exact hview matchId (h.others matchId hne)

/-- `confirmResult` keeps the standings or announces their change. -/
theorem confirm_announced (user : JwtPayload) (matchId : MatchId) (w : World) :
    SameStandings none w (Request.outcome ⟨user, .confirmResult matchId⟩ w).world ∨
      AnnouncesChange w (Request.outcome ⟨user, .confirmResult matchId⟩ w).world := by
  have hleaves := Request.leaves ⟨user, .confirmResult matchId⟩ w
  generalize (Request.outcome ⟨user, .confirmResult matchId⟩ w).world = w' at hleaves ⊢
  have hvoted := votedWorld_eq w matchId user.sub
  cases hleaves with
  | same => exact .inl (sameStandings_refl w)
  | vote =>
      rw [hvoted]
      exact .inl ⟨.of_eq (congrFun (userWins_congr rfl rfl rfl) none),
        .of_eq (congrFun (pairWins_congr rfl rfl rfl) none)⟩
  | confirm =>
      refine .inr (announcesChange_invalidateJob .matchConfirmed w.clock ?_)
      rw [confirmedWorld, saveMatch_eq, hvoted]
      rfl

/-- `adminOverrideResult` keeps the standings or announces their change. -/
theorem override_announced (user : JwtPayload) (matchId : MatchId) (dto : AdminOverrideResultDto)
    (w : World) :
    SameStandings none w (Request.outcome ⟨user, .adminOverrideResult matchId dto⟩ w).world ∨
      AnnouncesChange w (Request.outcome ⟨user, .adminOverrideResult matchId dto⟩ w).world := by
  have hleaves := Request.leaves ⟨user, .adminOverrideResult matchId dto⟩ w
  generalize (Request.outcome ⟨user, .adminOverrideResult matchId dto⟩ w).world = w' at hleaves ⊢
  cases hleaves with
  | same => exact .inl (sameStandings_refl w)
  | overrideResult =>
      refine .inr (announcesChange_invalidateJob .adminResultOverride w.clock ?_)
      rw [overriddenWorld]
      dsimp only
      rw [saveMatch_eq]
      rfl

/-- Deleting a stored match keeps the standings exactly when it is not silent, and announces
nothing. -/
theorem removal_announced (hlinked : w.Linked) {request : Request}
    (hdelete : deletedMatch request.route = some matchId) (hadmin : request.user.isAdmin = true)
    {r : MatchRow} {mid : World} (hrow : w.row matchId = some r) (hmid : SameTables w mid)
    (hqueue : mid.leaderboardQueue = w.leaderboardQueue) :
    ¬ AnnouncesChange w (mid.deleteMatch matchId) ∧
      (SameStandings none w (mid.deleteMatch matchId) ↔ ¬ (AppRequest.api request).Silent w) := by
  refine ⟨not_announcesChange hqueue, ?_⟩
  rw [sameStandings_deleteMatch_iff hlinked hmid hrow]
  refine not_congr ⟨fun h => ⟨hadmin, matchId, hdelete, r, hrow, h⟩, ?_⟩
  rintro ⟨-, id, hid, r', hrow', h⟩
  obtain rfl : matchId = id := Option.some.inj (hdelete.symm.trans hid)
  obtain rfl := Option.some.inj (hrow.symm.trans hrow')
  exact h

/-- Both deletions keep the standings exactly when they are not silent, and announce nothing. -/
theorem delete_announced (hlinked : w.Linked) {request : Request}
    (hdelete : deletedMatch request.route = some matchId) :
    ¬ AnnouncesChange w (request.outcome w).world ∧
      (SameStandings none w (request.outcome w).world ↔ ¬ (AppRequest.api request).Silent w) := by
  have hleaves := request.leaves w
  generalize (request.outcome w).world = w' at hleaves ⊢
  cases hleaves with
  | same refused =>
      have hnone : request.user.isAdmin = true → w.row matchId = none := by
        obtain ⟨user, route⟩ := request
        cases route with
        | deleteMatch | adminDeleteMatch =>
            cases hdelete
            exact refused
        | _ => cases hdelete
      refine ⟨not_announcesChange rfl, iff_of_true (sameStandings_refl _) ?_⟩
      rintro ⟨hadmin, id, hid, r, hrow, -⟩
      obtain rfl : matchId = id := Option.some.inj (hdelete.symm.trans hid)
      rw [hnone hadmin] at hrow
      cases hrow
  | delete admin row =>
      cases hdelete
      exact removal_announced hlinked rfl admin row (.refl w) rfl
  | @adminDelete user _ r admin row =>
      cases hdelete
      obtain ⟨hmid, -, hqueue⟩ := recordedWorld_frame w matchId r user.sub
      exact removal_announced hlinked rfl admin row hmid hqueue
  | _ => cases hdelete

/-- What each request of the API does: it changes nothing silently, or it is a deletion. -/
theorem api_announced (hw : w.Regular) (request : Request) :
    (¬ SameStandings none w (request.outcome w).world →
        AnnouncesChange w (request.outcome w).world) ↔
      ¬ (AppRequest.api request).Silent w := by
  cases hdelete : deletedMatch request.route with
  | some matchId =>
      obtain ⟨hquiet, hsame⟩ := delete_announced hw.linked hdelete
      rw [← hsame, imp_iff_not hquiet, not_not]
  | none =>
      refine iff_of_true (or_iff_not_imp_left.mp ?_) ?_
      · obtain ⟨user, route⟩ := request
        have husers := (Request.keepsUsers ⟨user, route⟩ w).users
        have heffect := Request.effect ⟨user, route⟩ hw.sound
        cases route with
        | confirmResult matchId => exact confirm_announced user matchId w
        | adminOverrideResult matchId dto => exact override_announced user matchId dto w
        | deleteMatch | adminDeleteMatch => cases hdelete
        | createMatch dto =>
            exact .inl (sameStandings_of_effect heffect husers fun _ _ h => by cases h; rfl)
        | getMatch | getConfirmationStatus | getMatchAuditLog =>
            exact .inl (sameStandings_of_effect heffect husers fun _ _ h => nomatch h)
        | updateMatch | addPlayers | submitResult | cancelConfirmation =>
            exact .inl (sameStandings_of_effect heffect husers fun _ _ h => by cases h.2; rfl)
      · rintro ⟨-, matchId, hid, -⟩
        rw [hdelete] at hid
        cases hid

/-- The next id of a user is not in use. -/
theorem get_nextUserId (w : World) : w.users.get w.nextUserId = none := by
  refine Table.get_eq_none.mpr fun user huser hid => ?_
  have hmem : user.id ≤ (w.users.rows.map (·.id)).foldr max 0 :=
    List.le_max_of_le' 0 (List.mem_map_of_mem huser) le_rfl
  rw [hid] at hmem
  exact absurd hmem (Nat.not_succ_le_self _)

/-- A login renames a winner, or it keeps the standings. -/
theorem upsert_announced (hlinked : w.Linked) (azureOid email displayName : String) :
    let request := AppRequest.upsertFromAzure azureOid email displayName
    ¬ AnnouncesChange w (request.after w) ∧
      (SameStandings none w (request.after w) ↔ ¬ request.Silent w) := by
  dsimp only
  rw [upsertFromAzure_after]
  cases hsave : w.saveUser (w.loginRow azureOid email displayName) with
  | none =>
      refine ⟨not_announcesChange rfl, iff_of_true (sameStandings_refl w) ?_⟩
      rintro ⟨old, hold, hfits, -⟩
      rw [loginRow, hold, saveUser, if_pos hfits] at hsave
      cases hsave
  | some saved =>
      obtain rfl := saveUser_eq_some hsave
      refine ⟨not_announcesChange rfl, (sameStandings_put_iff hlinked _).trans (not_congr ?_)⟩
      cases hfind : w.users.rows.find? (·.azureOid = azureOid) with
      | none =>
          have hfree := get_nextUserId w
          have hrow : w.loginRow azureOid email displayName =
              w.newUser azureOid email displayName := by simp only [loginRow, hfind]
          refine iff_of_false ?_ ?_
          · rintro ⟨old, hold, -⟩
            rw [hrow] at hold
            cases hfree.symm.trans hold
          · rintro ⟨old, hold, -⟩
            rw [hfind] at hold
            cases hold
      | some existing =>
          have hrow : w.loginRow azureOid email displayName =
              { existing with email := email, displayName := displayName } := by
            simp only [loginRow, hfind]
          have hget : w.users.get existing.id = some existing :=
            Table.get_eq_some.mpr ⟨List.mem_of_find?_eq_some hfind, rfl⟩
          rw [hrow] at hsave ⊢
          have hfits : w.userFits { existing with email := email, displayName := displayName } := by
            unfold saveUser at hsave
            split at hsave
            · assumption
            · cases hsave
          constructor
          · rintro ⟨old, hold, h⟩
            obtain rfl := Option.some.inj (hget.symm.trans hold)
            exact ⟨existing, hfind, hfits, h⟩
          · rintro ⟨old, hold, -, h⟩
            obtain rfl := Option.some.inj (hfind.symm.trans hold)
            exact ⟨existing, hget, h⟩

/-- A change of the display name renames a winner, or it keeps the standings. -/
theorem updateDisplayName_announced (hlinked : w.Linked) (userId : UserId) (displayName : String) :
    let request := AppRequest.updateDisplayName userId displayName
    ¬ AnnouncesChange w (request.after w) ∧
      (SameStandings none w (request.after w) ↔ ¬ request.Silent w) := by
  dsimp only
  rw [updateDisplayName_after]
  split
  · next hvalid =>
      unfold renameUser
      split
      · next user huser =>
          refine ⟨not_announcesChange rfl, (sameStandings_put_iff hlinked _).trans (not_congr ?_)⟩
          obtain rfl : user.id = userId := Table.key_of_get huser
          exact ⟨fun h => ⟨hvalid, h⟩, And.right⟩
      · next hnone =>
          refine ⟨not_announcesChange rfl, iff_of_true (sameStandings_refl w) ?_⟩
          rintro ⟨-, old, hold, -⟩
          cases hnone.symm.trans hold
  · next hinvalid =>
      exact ⟨not_announcesChange rfl, iff_of_true (sameStandings_refl w)
        fun h => hinvalid h.1⟩

/-! ## Every run -/

/-- In every state the two apps reach, a request that changes the all-time standings announces it
unless it deletes a match that counts and has winners, or renames a winner. -/
theorem standings_change_announced_iff (users : Table UserEntity.id) (inputs : List AppInput)
    (request : AppRequest) :
    let w := (World.withUsers users).appRun inputs
    (¬ SameStandings none w (request.after w) → AnnouncesChange w (request.after w)) ↔
      ¬ request.Silent w := by
  intro w
  have hw : w.Regular := regular_appRun users inputs
  cases request with
  | api request =>
      rw [api_after]
      exact api_announced hw request
  | upsertFromAzure azureOid email displayName =>
      obtain ⟨hquiet, hsame⟩ := upsert_announced hw.linked azureOid email displayName
      rw [← hsame, imp_iff_not hquiet, not_not]
  | updateDisplayName userId displayName =>
      obtain ⟨hquiet, hsame⟩ := updateDisplayName_announced hw.linked userId displayName
      rw [← hsame, imp_iff_not hquiet, not_not]

/-! ## Runs -/

/-- The duel that `mario` wins, from its creation to the second confirmation. -/
def duelWon : List AppInput :=
  [ .request (.api ⟨mario, .createMatch ⟨some .oneVsOne⟩⟩)
  , .request (.api ⟨mario, .addPlayers 1 bothTeams⟩)
  , .request (.api ⟨mario, .submitResult 1 ⟨3, 1⟩⟩)
  , .request (.api ⟨mario, .confirmResult 1⟩)
  , .request (.api ⟨rival, .confirmResult 1⟩) ]

/-- `admin` deletes the match: `mario` loses his win, and no job says so. -/
theorem not_standings_change_announced_deletion :
    ¬ ∀ (users : Table UserEntity.id) (inputs : List AppInput) (request : AppRequest),
      let w := (World.withUsers users).appRun inputs
      ¬ SameStandings none w (request.after w) → AnnouncesChange w (request.after w) := by
  intro h
  let w := (World.withUsers signedIn).appRun duelWon
  let w' := (AppRequest.api ⟨admin, .adminDeleteMatch 1⟩).after w
  have hbefore : w.userWins none = [⟨1, "mario", 1⟩] := by decide
  have hafter : w'.userWins none = [] := by decide
  have hqueue : w'.leaderboardQueue = w.leaderboardQueue := by decide
  refine not_announcesChange hqueue (h signedIn duelWon _ ?_)
  rintro ⟨hsame, -⟩
  have hperm : (w'.userWins none).Perm (w.userWins none) := hsame
  rw [hbefore, hafter] at hperm
  cases hperm.length_eq

end FoosballApi.Leaderboard
