import FoosballApi.Matches.RequestScope
import FoosballApi.Matches.StatusMachine

/-!
# Every match can be confirmed

No match gets stuck. Whatever its status, roster, scores and votes, a stored match that is not
confirmed can be brought to `confirmed` with any result by its creator and its players alone: the
creator cancels a confirmation in progress, fills the roster and submits the result, and the players
confirm it. There only have to be enough users to fill the roster.

The steps are proved one by one over the view of the match, and `Voting` is what holds between two
votes.
-/

namespace FoosballApi.Matches

open Calls Data Prog World

/-- A request of the creator about the match, or the vote of a player, neither an admin. -/
inductive ByParticipant (matchId : MatchId) (creator : UserId) (players : List UserId) :
    Input → Prop where
  | creator {route : Route} (about : route.target = some matchId) :
      ByParticipant matchId creator players (.request ⟨⟨creator, false⟩, route⟩)
  | player {userId : UserId} (player : userId ∈ players) :
      ByParticipant matchId creator players (.request ⟨⟨userId, false⟩, .confirmResult matchId⟩)

/-- A match is confirmed with a result, and whoever played in it still does. -/
structure ConfirmedWith (matchId : MatchId) (dto : SubmitResultDto) (w w' : World) : Prop where
  row : ∃ r, w'.row matchId = some r ∧ r.status = .confirmed ∧ r.scoreA = some dto.scoreA ∧
    r.scoreB = some dto.scoreB
  players : ∀ p ∈ w.roster matchId, p ∈ w'.roster matchId

variable {w w' : World} {matchId : MatchId} {userId : UserId} {r : MatchRow}

/-! ## What a participant's request leaves -/

/-- A step leaves a view of the match, and the users. -/
structure LeavesView (matchId : MatchId) (w : World) (view : Date → MatchView) (w' : World) :
    Prop where
  view : ∃ t, w'.matchView matchId = view t
  users : w'.users = w.users

/-- The creator of a match that awaits confirmation cancels. -/
theorem leavesView_cancel (user : JwtPayload) (hrow : w.row matchId = some r)
    (hcreator : r.createdBy = some user.sub) (hawait : r.status = .awaitingConfirmation) :
    LeavesView matchId w
      (fun t => ⟨some { r with status := .playing, updatedAt := t }, w.roster matchId, []⟩)
      (Input.after w (.request ⟨user, .cancelConfirmation matchId⟩)) := by
  obtain rfl := id_of_row hrow
  let saved : World := (w.deleteAllConfirmations r.id).saveMatch
    ⟨{ r with status := .playing }, some (w.roster r.id)⟩
  have hview := matchView_saveMatch (w := w.deleteAllConfirmations r.id)
    (m := ⟨{ r with status := .playing }, some (w.roster r.id)⟩) rfl hrow
  have hvotes : (w.deleteAllConfirmations r.id).votes r.id = [] :=
    congrArg MatchView.votes (matchView_deleteAllConfirmations w r.id)
  rw [hvotes] at hview
  refine Input.after_handler (P := LeavesView r.id w _) ⟨user, .cancelConfirmation r.id⟩ rfl ?_
  simp only [ConfirmationService.cancel, after_bind, after_perform, perform_noFaults, exec,
    World.findById, after_require, after_throwIf, not_not, not_notCreator, pure_eq, after_pure]
  refine ⟨fun hnone => ?_, fun m hm => ?_⟩
  · rw [hrow] at hnone
    cases hnone
  · rw [hrow] at hm
    cases hm
    refine ⟨fun hconfirmed => ?_, fun _ => ⟨fun hnot => absurd hawait hnot, fun _ =>
      ⟨fun hother => absurd hcreator hother, fun _ => ?_⟩⟩⟩
    · cases hawait.symm.trans hconfirmed
    · exact ⟨hview, users_saveMatch _⟩

/-- The creator of an editable match with a full roster submits a result. -/
theorem leavesView_submitResult (user : JwtPayload) (dto : SubmitResultDto)
    (hrow : w.row matchId = some r) (hcreator : r.createdBy = some user.sub)
    (hopen : ¬ r.status.Locked)
    (hfull : matchCapacity r.matchType ≤ (w.roster matchId).length) :
    LeavesView matchId w
      (fun t => ⟨some { r with
        scoreA := some dto.scoreA
        scoreB := some dto.scoreB
        status := .awaitingConfirmation
        updatedAt := t }, w.roster matchId, w.votes matchId⟩)
      (Input.after w (.request ⟨user, .submitResult matchId dto⟩)) := by
  obtain rfl := id_of_row hrow
  have hview := matchView_saveMatch (w := w) (m := ⟨{ r with
    scoreA := some dto.scoreA
    scoreB := some dto.scoreB
    status := .awaitingConfirmation }, some (w.roster r.id)⟩) rfl hrow
  refine Input.after_handler (P := LeavesView r.id w _) ⟨user, .submitResult r.id dto⟩ rfl ?_
  unfold MatchService.submitResult
  rw [after_bind]
  refine findById_after (fun hnone => ?_) fun r' hrow' => ?_
  · cases hnone.symm.trans hrow
  obtain rfl := Option.some.inj (hrow'.symm.trans hrow)
  simp only [MatchService.checkEditable, after_bind, after_throwIf, not_notCreator, after_perform,
    perform_noFaults, exec, Nat.not_lt, pure_eq, after_pure]
  refine ⟨fun hother => absurd hcreator hother, fun _ => ⟨fun hlocked => absurd hlocked hopen,
    fun _ => ⟨fun hshort => absurd hfull (Nat.not_le.mpr hshort), fun _ => ?_⟩⟩⟩
  exact ⟨hview, users_saveMatch _⟩

/-- The creator of an editable match adds users who do not play in it yet to free slots. -/
theorem leavesView_addPlayers (user : JwtPayload) {dto : AddPlayersDto}
    (hrow : w.row matchId = some r) (hcreator : r.createdBy = some user.sub)
    (hopen : ¬ r.status.Locked)
    (hroom : (w.roster matchId).length + dto.players.length ≤ matchCapacity r.matchType)
    (hfree : ¬ SlotRefused (w.roster matchId) dto)
    (hclash : ¬ dto.Clashes matchId [])
    (husers : ∀ p ∈ dto.players, (w.users.get p.userId).isSome)
    (hnew : ∀ p ∈ dto.players, p.userId ∉ (w.roster matchId).map (·.userId)) :
    LeavesView matchId w
      (fun t => ⟨some { r with
        status := if r.status = .draft then .playing else r.status
        updatedAt := t }, w.roster matchId ++ dto.players.map (·.toEntity matchId),
          w.votes matchId⟩)
      (Input.after w (.request ⟨user, .addPlayers matchId dto⟩)) := by
  obtain ⟨hslots, honce⟩ := not_or.mp hclash
  rw [List.nil_append] at hslots
  have hgo : ¬ dto.Refused r (w.roster matchId) := by
    intro hrefused
    rcases hrefused with hfull | htaken
    · omega
    · exact hfree htaken
  have hisSome := savePlayers_isSome (Option.isSome_of_mem hrow) husers hfree hslots
    (not_not.mp honce)
  refine Input.after_handler (P := LeavesView matchId w _) ⟨user, .addPlayers matchId dto⟩ rfl
    (addPlayers_cases hrow hcreator hopen (fun _ hrefused => absurd hrefused hgo)
      (fun _ hnone => ?_) fun _ saved hsave _ _ => ?_)
  · rw [hnone] at hisSome
    cases hisSome
  have hframe := savePlayers_frame hsave
  have hsaved : saved.row matchId = some r := by rw [hframe]; exact hrow
  have hvotes : saved.votes matchId = w.votes matchId := by rw [hframe]; rfl
  have hsame : saved.users = w.users := by rw [hframe]
  have hroster : saved.roster matchId =
      w.roster matchId ++ dto.players.map (·.toEntity matchId) := by
    rw [roster, Table.sel, rows_of_savePlayers hsave hnew, List.filter_append]
    congr 1
    refine List.filter_eq_self.mpr fun p hp => decide_eq_true ?_
    exact dto.matchId_rows matchId p hp
  obtain rfl := id_of_row hrow
  have hview := matchView_saveMatch (w := saved)
    (m := ⟨{ r with status := .playing }, some (w.roster r.id)⟩) rfl hsaved
  rw [hroster, hvotes] at hview
  have hsome : 0 < (saved.roster r.id).length := by
    have hsize := dto.size_min
    rw [hroster, List.length_append, List.length_map]
    omega
  show LeavesView r.id w _ (playingWorld w saved r.id r)
  unfold playingWorld
  by_cases hdraft : r.status = .draft
  · have hstart : r.status = .draft ∧ 0 < (saved.roster r.id).length := ⟨hdraft, hsome⟩
    rw [if_pos hstart]
    refine ⟨?_, (users_saveMatch _).trans hsame⟩
    simpa only [hdraft, ↓reduceIte] using hview
  · have hstarted : ¬ (r.status = .draft ∧ 0 < (saved.roster r.id).length) := fun h => hdraft h.1
    rw [if_neg hstarted]
    refine ⟨⟨r.updatedAt, ?_⟩, hsame⟩
    rw [Effect.matchView_of_row hsaved, hroster, hvotes]
    simp only [hdraft, ↓reduceIte]

/-! ## Voting -/

/-- The confirmation of a result, which `r` holds: the match is confirmed, or it awaits more votes
than those of `voted`. -/
inductive Voting (matchId : MatchId) (r : MatchRow) (roster : List MatchPlayerEntity)
    (voted : List UserId) (w : World) : Prop
  | confirmed {r' : MatchRow} (row : w.row matchId = some r') (status : r'.status = .confirmed)
      (scoreA : r'.scoreA = r.scoreA) (scoreB : r'.scoreB = r.scoreB)
      (players : w.roster matchId = roster)
  | awaiting (row : w.row matchId = some r) (players : w.roster matchId = roster)
      (voters : ∀ userId ∈ voted, userId ∈ (w.votes matchId).map (·.userId))
      (below : voted ≠ [] → (w.votes matchId).length < calculateQuorum roster.length)

/-- The vote of a player. -/
def voteOf (matchId : MatchId) (userId : UserId) : Input :=
  .request ⟨⟨userId, false⟩, .confirmResult matchId⟩

/-- The match after the vote that confirms it. -/
theorem view_confirmedWorld (userId : UserId) (hrow : w.row matchId = some r) :
    ∃ t, (w.confirmedWorld matchId userId r).matchView matchId =
      ⟨some { r.confirmedAtTime w.clock with updatedAt := t }, w.roster matchId,
        (w.votedWorld matchId userId).votes matchId⟩ := by
  obtain rfl := id_of_row hrow
  have hvoted : (w.votedWorld r.id userId).row r.id = some r := (row_votedWorld _ _ _ _).trans hrow
  obtain ⟨t, hview⟩ := matchView_saveMatch (m := ⟨r.confirmedAtTime w.clock, none⟩) rfl hvoted
  refine ⟨t, ?_⟩
  unfold confirmedWorld
  rw [(sameTables_enqueue _ _ _).matchView, (sameTables_enqueue _ _ _).matchView]
  refine hview.trans (MatchView.ext rfl ?_ rfl)
  exact roster_votedWorld _ _ _ _

/-- A vote is counted, or it confirms the match. -/
theorem Voting.vote {roster : List MatchPlayerEntity} {voted : List UserId}
    (h : Voting matchId r roster voted w) (hawait : r.status = .awaitingConfirmation)
    (hplayer : userId ∈ roster.map (·.userId)) :
    Voting matchId r roster (voted ++ [userId]) ((voteOf matchId userId).after w) := by
  have hleaves := Request.leaves ⟨⟨userId, false⟩, .confirmResult matchId⟩ w
  show Voting _ _ _ _ (Request.outcome ⟨⟨userId, false⟩, .confirmResult matchId⟩ w).world
  generalize (Request.outcome _ w).world = w' at hleaves ⊢
  cases h with
  | confirmed row status scoreA scoreB players =>
      -- A confirmed match takes no more votes.
      have hclosed : ∀ r₁, ¬ w.Confirmable matchId userId r₁ := by
        intro r₁ hconfirmable
        obtain rfl := Option.some.inj (row.symm.trans hconfirmable.row)
        cases status.symm.trans hconfirmable.awaiting
      cases hleaves with
      | same => exact .confirmed row status scoreA scoreB players
      | vote confirmable => exact absurd confirmable (hclosed _)
      | confirm confirmable => exact absurd confirmable (hclosed _)
  | awaiting row players voters below =>
      have hconfirmable : w.Confirmable matchId userId r := ⟨row, hawait, players ▸ hplayer⟩
      cases hleaves with
      | same refused => exact absurd hconfirmable (refused r)
      | vote confirmable below =>
          have hcast := votedWorld_cast w matchId hplayer
          refine .awaiting ((row_votedWorld _ _ _ _).trans row) ?_ (fun voter hvoter => ?_)
            fun _ => ?_
          · rw [roster_votedWorld, players]
          · rw [hcast.voters]
            rcases List.mem_append.mp hvoter with hold | hnew
            · exact .inl (voters voter hold)
            · exact .inr (List.mem_singleton.mp hnew)
          · rw [← players]
            exact Nat.lt_of_not_le below
      | @confirm _ _ r₁ confirmable =>
          obtain rfl : r₁ = r := Option.some.inj (confirmable.row.symm.trans row)
          obtain ⟨t, hview⟩ := view_confirmedWorld userId row
          exact .confirmed (congrArg MatchView.row hview) rfl rfl rfl
            ((congrArg MatchView.roster hview).trans players)

/-- The votes of players. -/
theorem Voting.votes {roster : List MatchPlayerEntity} {voted voters : List UserId}
    (h : Voting matchId r roster voted w) (hawait : r.status = .awaitingConfirmation)
    (hplayers : ∀ userId ∈ voters, userId ∈ roster.map (·.userId)) :
    Voting matchId r roster (voted ++ voters) (w.run (voters.map (voteOf matchId))) := by
  induction voters generalizing w voted with
  | nil => rwa [List.append_nil]
  | cons userId voters ih =>
      have hvoted := h.vote hawait (hplayers userId List.mem_cons_self)
      rw [← List.singleton_append, ← List.append_assoc]
      exact ih hvoted fun voter hvoter => hplayers voter (List.mem_cons_of_mem _ hvoter)

/-- Once all players have voted the match is confirmed. -/
theorem Voting.all {roster : List MatchPlayerEntity}
    (h : Voting matchId r roster (roster.map (·.userId)) w) (hsome : 0 < roster.length) :
    ∃ r', w.row matchId = some r' ∧ r'.status = .confirmed ∧ r'.scoreA = r.scoreA ∧
      r'.scoreB = r.scoreB := by
  cases h with
  | confirmed row status scoreA scoreB => exact ⟨_, row, status, scoreA, scoreB⟩
  | awaiting row players voters below =>
      have hnodup : (roster.map (·.userId)).Nodup := players ▸ roster_users_nodup w matchId
      have hne : roster.map (·.userId) ≠ [] := by
        refine List.ne_nil_of_length_pos ?_
        rwa [List.length_map]
      have hlength := (List.subperm_of_subset hnodup voters).length_le
      have hbelow := below hne
      simp only [List.length_map, calculateQuorum] at hlength hbelow
      omega

/-- Voting takes nobody off the roster. -/
theorem Voting.players {roster : List MatchPlayerEntity} {voted : List UserId}
    (h : Voting matchId r roster voted w) : w.roster matchId = roster := by
  cases h with
  | confirmed row status scoreA scoreB players => exact players
  | awaiting row players => exact players

/-! ## Free slots -/

/-- The slots of both teams. -/
def teamSlots : List (Team × Nat) :=
  [(.A, 1), (.A, 2), (.A, 3), (.A, 4), (.B, 1), (.B, 2), (.B, 3), (.B, 4)]

/-- The slots that no player of a roster has. -/
def freeSlots (roster : List MatchPlayerEntity) : List (Team × Nat) :=
  teamSlots.filter (· ∉ roster.map fun q => (q.team, q.slot))

/-- A roster takes no more slots than it has players. -/
theorem length_freeSlots (roster : List MatchPlayerEntity) :
    8 ≤ roster.length + (freeSlots roster).length := by
  let taken := roster.map fun q => (q.team, q.slot)
  have hnodup : (teamSlots.filter (· ∈ taken)).Nodup := List.Nodup.filter _ (by decide)
  have htaken : (teamSlots.filter (· ∈ taken)).length ≤ taken.length :=
    (List.subperm_of_subset hnodup fun slot hslot =>
      of_decide_eq_true (List.mem_filter.mp hslot).2).length_le
  have hsplit := List.length_eq_length_filter_add (l := teamSlots) (· ∈ taken)
  have height : teamSlots.length = 8 := rfl
  have hfree : freeSlots roster = teamSlots.filter fun slot => ! decide (slot ∈ taken) :=
    List.filter_congr fun slot _ => decide_not
  have hlength : taken.length = roster.length := List.length_map ..
  rw [hfree]
  omega

/-- Entries of a request for given users and slots. -/
theorem exists_players (users : List UserId) (slots : List (Team × Nat))
    (hlength : users.length = slots.length) (husers : ∀ userId ∈ users, 0 < userId)
    (hslots : ∀ slot ∈ slots, slot ∈ teamSlots) :
    ∃ ps : List PlayerDto, ps.map (·.userId) = users ∧
      ps.map (fun p => (p.team, p.slot)) = slots := by
  induction users generalizing slots with
  | nil =>
      obtain rfl := List.length_eq_zero_iff.mp hlength.symm
      exact ⟨[], rfl, rfl⟩
  | cons userId users ih =>
      cases slots with
      | nil => cases hlength
      | cons slot slots =>
          obtain ⟨ps, hps, hpss⟩ := ih slots (Nat.succ.inj hlength)
            (fun other hother => husers other (List.mem_cons_of_mem _ hother))
            fun other hother => hslots other (List.mem_cons_of_mem _ hother)
          have hbounds : ∀ s ∈ teamSlots, 1 ≤ s.2 ∧ s.2 ≤ 4 := by decide
          obtain ⟨hmin, hmax⟩ := hbounds slot (hslots slot List.mem_cons_self)
          refine ⟨⟨userId, slot.1, slot.2, none, husers userId List.mem_cons_self, hmin, hmax,
            fun text htext => absurd htext (Option.not_mem_none text)⟩ :: ps, ?_, ?_⟩
          · rw [List.map_cons, hps]
          · rw [List.map_cons, hpss]

/-! ## From any status to a confirmed result -/

/-- Requests of participants lead from one world to another. -/
def Leads (matchId : MatchId) (creator : UserId) (players : List UserId) (w w' : World) : Prop :=
  ∃ inputs : List Input, (∀ input ∈ inputs, ByParticipant matchId creator players input) ∧
    w.run inputs = w'

/-- Users who can be added to a match. -/
structure Newcomers (matchId : MatchId) (w : World) (newcomers : List UserId) : Prop where
  positive : ∀ userId ∈ newcomers, 0 < userId
  stored : ∀ userId ∈ newcomers, (w.users.get userId).isSome
  once : newcomers.Nodup
  new : ∀ userId ∈ newcomers, userId ∉ (w.roster matchId).map (·.userId)

section

variable {creator : UserId} {players newcomers : List UserId}

theorem Leads.refl (w : World) : Leads matchId creator players w w :=
  ⟨[], fun _ hinput => absurd hinput List.not_mem_nil, rfl⟩

theorem Leads.trans {w₁ w₂ w₃ : World} (h : Leads matchId creator players w₁ w₂)
    (h' : Leads matchId creator players w₂ w₃) : Leads matchId creator players w₁ w₃ := by
  obtain ⟨inputs, hinputs, rfl⟩ := h
  obtain ⟨more, hmore, rfl⟩ := h'
  refine ⟨inputs ++ more, fun input hinput => ?_, World.run_append ..⟩
  rcases List.mem_append.mp hinput with hfirst | hsecond
  · exact hinputs input hfirst
  · exact hmore input hsecond

/-- One request of the creator. -/
theorem Leads.byCreator {route : Route} (habout : route.target = some matchId) :
    Leads matchId creator players w (Input.after w (.request ⟨⟨creator, false⟩, route⟩)) := by
  refine ⟨[.request ⟨⟨creator, false⟩, route⟩], fun input hinput => ?_, rfl⟩
  rw [List.mem_singleton.mp hinput]
  exact .creator habout

/-- An editable match of the creator, with the players and the type of an earlier world. -/
structure Editable (matchId : MatchId) (creator : UserId) (r : MatchRow) (w w' : World) : Prop where
  row : ∃ r', w'.row matchId = some r' ∧ r'.createdBy = some creator ∧ ¬ r'.status.Locked ∧
    r'.matchType = r.matchType
  roster : w'.roster matchId = w.roster matchId
  users : w'.users = w.users

/-- A match that is not confirmed is editable, or becomes so by a cancellation. -/
theorem exists_editable (hrow : w.row matchId = some r) (hcreator : r.createdBy = some creator)
    (hopen : r.status ≠ .confirmed) :
    ∃ w', Leads matchId creator players w w' ∧ Editable matchId creator r w w' := by
  by_cases hawait : r.status = .awaitingConfirmation
  · have hleaves := leavesView_cancel ⟨creator, false⟩ hrow hcreator hawait
    obtain ⟨t, hview⟩ := hleaves.view
    have hlead : Leads matchId creator players w (Input.after w
        (.request ⟨⟨creator, false⟩, .cancelConfirmation matchId⟩)) := .byCreator rfl
    have hrow' := congrArg MatchView.row hview
    refine ⟨_, hlead, ⟨_, hrow', hcreator, ?_, rfl⟩, congrArg MatchView.roster hview,
      hleaves.users⟩
    show ¬ MatchStatus.playing.Locked
    decide
  · refine ⟨w, .refl w, ⟨r, hrow, hcreator, ?_, rfl⟩, rfl, rfl⟩
    intro hlocked
    rcases hlocked with hlocked | hlocked
    · exact hawait hlocked
    · exact hopen hlocked

/-- A request that fills the roster with newcomers. -/
theorem exists_filling (hnewcomers : Newcomers matchId w newcomers)
    (hshort : (w.roster matchId).length < matchCapacity r.matchType)
    (henough : matchCapacity r.matchType ≤ (w.roster matchId).length + newcomers.length) :
    ∃ dto : AddPlayersDto,
      (w.roster matchId).length + dto.players.length = matchCapacity r.matchType ∧
      ¬ SlotRefused (w.roster matchId) dto ∧ ¬ dto.Clashes matchId [] ∧
      ∀ p ∈ dto.players, p.userId ∈ newcomers := by
  obtain ⟨missing, hmissing⟩ : ∃ missing,
      (w.roster matchId).length + missing = matchCapacity r.matchType :=
    ⟨_, Nat.add_sub_of_le (Nat.le_of_lt hshort)⟩
  have hcapacity : matchCapacity r.matchType ≤ 8 := by cases r.matchType <;> decide
  have hfree := length_freeSlots (w.roster matchId)
  have husers : (newcomers.take missing).length = missing := by
    rw [List.length_take]
    omega
  have hslots : ((freeSlots (w.roster matchId)).take missing).length = missing := by
    rw [List.length_take]
    omega
  obtain ⟨ps, hps, hpss⟩ := exists_players (newcomers.take missing)
    ((freeSlots (w.roster matchId)).take missing) (husers.trans hslots.symm)
    (fun userId huser => hnewcomers.positive userId (List.mem_of_mem_take huser))
    fun slot hslot => (List.mem_filter.mp (List.mem_of_mem_take hslot)).1
  have hlength : ps.length = missing := by
    rw [← husers, ← hps, List.length_map]
  have hsome : 1 ≤ ps.length := by omega
  have hmost : ps.length ≤ 8 := by omega
  have hmem : ∀ p ∈ ps, (p.team, p.slot) ∈ freeSlots (w.roster matchId) := by
    intro p hp
    refine List.mem_of_mem_take (i := missing) ?_
    rw [← hpss]
    exact List.mem_map_of_mem hp
  have honce : (ps.map fun p => (p.team, p.slot)).Nodup := by
    rw [hpss]
    exact (List.Nodup.filter _ (by decide)).sublist (List.take_sublist _ _)
  refine ⟨⟨ps, hsome, hmost⟩, ?_, ?_, ?_, fun p hp => ?_⟩
  · show (w.roster matchId).length + ps.length = _
    omega
  · intro hrefused
    obtain ⟨p, hp, htaken⟩ := hrefused
    obtain ⟨q, hq, hsame⟩ := List.any_eq_true.mp htaken
    simp only [Bool.and_eq_true, decide_eq_true_eq] at hsame
    have hfree := of_decide_eq_true (List.mem_filter.mp (hmem p hp)).2
    refine hfree (List.mem_map.mpr ⟨q, hq, ?_⟩)
    rw [hsame.1, hsame.2]
  · intro hclash
    rcases hclash with hentries | htwice
    · obtain ⟨_, hrow, _, hrow', hother, -, hteam, hslot⟩ := hentries
      obtain ⟨p, hp, rfl⟩ := List.mem_map.mp hrow
      obtain ⟨q, hq, rfl⟩ := List.mem_map.mp hrow'
      refine hother (congrArg PlayerDto.userId (List.inj_on_of_nodup_map honce hp hq ?_))
      exact Prod.ext hteam hslot
    · refine htwice ?_
      rw [hps]
      exact hnewcomers.once.sublist (List.take_sublist _ _)
  · refine List.mem_of_mem_take (i := missing) ?_
    rw [← hps]
    exact List.mem_map_of_mem hp

/-- A match whose players are those of an earlier world and newcomers, and whose roster is full. -/
structure Filled (matchId : MatchId) (creator : UserId) (newcomers : List UserId) (w w' : World) :
    Prop where
  row : ∃ r', w'.row matchId = some r' ∧ r'.createdBy = some creator ∧ ¬ r'.status.Locked ∧
    matchCapacity r'.matchType ≤ (w'.roster matchId).length
  kept : ∀ p ∈ w.roster matchId, p ∈ w'.roster matchId
  players : ∀ p ∈ w'.roster matchId,
    p.userId ∈ (w.roster matchId).map (·.userId) ++ newcomers

/-- The roster of an editable match can be filled. -/
theorem exists_filled (hrow : w.row matchId = some r) (hcreator : r.createdBy = some creator)
    (hopen : ¬ r.status.Locked) (hnewcomers : Newcomers matchId w newcomers)
    (henough : matchCapacity r.matchType ≤ (w.roster matchId).length + newcomers.length) :
    ∃ w', Leads matchId creator players w w' ∧ Filled matchId creator newcomers w w' := by
  by_cases hfull : matchCapacity r.matchType ≤ (w.roster matchId).length
  · refine ⟨w, .refl w, ⟨r, hrow, hcreator, hopen, hfull⟩, fun _ hp => hp, fun p hp => ?_⟩
    exact List.mem_append_left _ (List.mem_map_of_mem hp)
  obtain ⟨dto, hsize, hfree, hclash, hmem⟩ :=
    exists_filling hnewcomers (Nat.lt_of_not_le hfull) henough
  have hleaves := leavesView_addPlayers ⟨creator, false⟩ hrow hcreator hopen hsize.le
    hfree hclash (fun p hp => hnewcomers.stored _ (hmem p hp))
    fun p hp => hnewcomers.new _ (hmem p hp)
  obtain ⟨t, hview⟩ := hleaves.view
  have hrow' := congrArg MatchView.row hview
  have hroster : (Input.after w (.request ⟨⟨creator, false⟩, .addPlayers matchId dto⟩)).roster
      matchId = w.roster matchId ++ dto.players.map (·.toEntity matchId) :=
    congrArg MatchView.roster hview
  have hlead : Leads matchId creator players w (Input.after w
      (.request ⟨⟨creator, false⟩, .addPlayers matchId dto⟩)) := .byCreator rfl
  refine ⟨_, hlead, ⟨_, hrow', hcreator, ?_, ?_⟩, fun p hp => ?_, fun p hp => ?_⟩
  · show ¬ (if r.status = .draft then MatchStatus.playing else r.status).Locked
    split
    · decide
    · exact hopen
  · rw [hroster, List.length_append, List.length_map]
    exact hsize.ge
  · rw [hroster]
    exact List.mem_append_left _ hp
  · rw [hroster] at hp
    rcases List.mem_append.mp hp with hold | hnew
    · exact List.mem_append_left _ (List.mem_map_of_mem hold)
    · obtain ⟨q, hq, rfl⟩ := List.mem_map.mp hnew
      exact List.mem_append_right _ (hmem q hq)

/-- A full match of the creator is confirmed with any result. -/
theorem exists_confirmed (dto : SubmitResultDto) (hrow : w.row matchId = some r)
    (hcreator : r.createdBy = some creator) (hopen : ¬ r.status.Locked)
    (hfull : matchCapacity r.matchType ≤ (w.roster matchId).length)
    (hplayers : ∀ p ∈ w.roster matchId, p.userId ∈ players) :
    ∃ w', Leads matchId creator players w w' ∧ ConfirmedWith matchId dto w w' := by
  let submitted : World := Input.after w (.request ⟨⟨creator, false⟩, .submitResult matchId dto⟩)
  obtain ⟨⟨t, hview⟩, -⟩ := leavesView_submitResult ⟨creator, false⟩ dto hrow hcreator
    hopen hfull
  let r₁ : MatchRow := { r with
    scoreA := some dto.scoreA
    scoreB := some dto.scoreB
    status := .awaitingConfirmation
    updatedAt := t }
  have hrow₁ : submitted.row matchId = some r₁ := congrArg MatchView.row hview
  have hroster₁ : submitted.roster matchId = w.roster matchId := congrArg MatchView.roster hview
  have hstart : Voting matchId r₁ (w.roster matchId) [] submitted :=
    .awaiting hrow₁ hroster₁ (fun _ huser => absurd huser List.not_mem_nil)
      fun hne => absurd rfl hne
  have hvoting := hstart.votes rfl
    fun userId (huser : userId ∈ (w.roster matchId).map (·.userId)) => huser
  have hsome : 0 < (w.roster matchId).length := by
    have hcapacity : 0 < matchCapacity r.matchType := by cases r.matchType <;> decide
    omega
  refine ⟨submitted.run (((w.roster matchId).map (·.userId)).map (voteOf matchId)),
    Leads.trans (.byCreator rfl) ⟨_, fun input hinput => ?_, rfl⟩, hvoting.all hsome, ?_⟩
  · obtain ⟨userId, huser, rfl⟩ := List.mem_map.mp hinput
    obtain ⟨p, hp, rfl⟩ := List.mem_map.mp huser
    exact .player (hplayers p hp)
  · intro p hp
    rw [hvoting.players]
    exact hp

/-- A stored match that is not confirmed can be confirmed with any result by its creator and its
players, once there are enough of them. -/
theorem exists_confirmed_of_stored (dto : SubmitResultDto) (hrow : w.row matchId = some r)
    (hcreator : r.createdBy = some creator) (hopen : r.status ≠ .confirmed)
    (hnewcomers : Newcomers matchId w newcomers)
    (henough : matchCapacity r.matchType ≤ (w.roster matchId).length + newcomers.length) :
    ∃ w', Leads matchId creator ((w.roster matchId).map (·.userId) ++ newcomers) w w' ∧
      ConfirmedWith matchId dto w w' := by
  obtain ⟨w₁, hlead₁, ⟨r₁, hrow₁, hcreator₁, hopen₁, htype₁⟩, hroster₁, husers₁⟩ :=
    exists_editable hrow hcreator hopen
  have hnewcomers₁ : Newcomers matchId w₁ newcomers := by
    refine ⟨hnewcomers.positive, ?_, hnewcomers.once, ?_⟩
    · rw [husers₁]
      exact hnewcomers.stored
    · rw [hroster₁]
      exact hnewcomers.new
  rw [← hroster₁, ← htype₁] at henough
  obtain ⟨w₂, hlead₂, ⟨r₂, hrow₂, hcreator₂, hopen₂, hfull₂⟩, hkept₂, hplayers₂⟩ :=
    exists_filled hrow₁ hcreator₁ hopen₁ hnewcomers₁ henough
  rw [hroster₁] at hkept₂ hplayers₂
  obtain ⟨w₃, hlead₃, hconfirmed, hkept₃⟩ :=
    exists_confirmed dto hrow₂ hcreator₂ hopen₂ hfull₂ hplayers₂
  exact ⟨w₃, hlead₁.trans (hlead₂.trans hlead₃), hconfirmed, fun p hp => hkept₃ p (hkept₂ p hp)⟩

end

/-! ## Every reachable store -/

/-- A transition keeps the creator of a match, and a new match has one. -/
theorem Transition.created {action : Action} {v v' : MatchView} (h : Transition action v v')
    (hcreated : ∀ r ∈ v.row, r.createdBy ≠ none) : ∀ r ∈ v'.row, r.createdBy ≠ none := by
  cases h with
  | create creator =>
      intro r hr
      cases hr
      rw [creator]
      exact Option.some_ne_none _
  | delete => exact fun r hr => absurd hr (Option.not_mem_none r)
  | _ =>
      have hold := hcreated _ rfl
      intro r hr
      cases hr
      exact hold

/-- A stored match has a creator. -/
theorem creator_of_reachable (users : Table Users.UserEntity.id) (inputs : List Input)
    (hrow : ((World.withUsers users).run inputs).row matchId = some r) :
    ∃ creator, r.createdBy = some creator := by
  have hsteps : (World.withUsers users).Steps (fun _ _ => True) inputs :=
    World.steps_of_forall (fun _ _ => trivial) _ inputs
  have hcreated := World.run_invariant (I := fun v => ∀ r ∈ v.row, r.createdBy ≠ none) users hsteps
    (fun r hr => absurd hr (Option.not_mem_none r))
    (fun _ _ _ _ _ _ _ _ htrans hbefore => htrans.created hbefore) matchId
  exact Option.ne_none_iff_exists'.mp (hcreated r hrow)

/-- From every store that requests, logins and the clock can lead to, every stored match that is not
confirmed can be confirmed with any result, by requests of its creator and its players alone, as
soon as there are enough users to fill its roster. -/
theorem always_confirmable (users : Table Users.UserEntity.id) (inputs : List Input)
    (matchId : MatchId) (r : MatchRow) (newcomers : List UserId) (dto : SubmitResultDto)
    (hrow : ((World.withUsers users).run inputs).row matchId = some r)
    (hopen : r.status ≠ .confirmed)
    (hnewcomers : Newcomers matchId ((World.withUsers users).run inputs) newcomers)
    (henough : matchCapacity r.matchType ≤
      (((World.withUsers users).run inputs).roster matchId).length + newcomers.length) :
    ∃ creator more, r.createdBy = some creator ∧
      (∀ input ∈ more, ByParticipant matchId creator
        ((((World.withUsers users).run inputs).roster matchId).map (·.userId) ++ newcomers) input) ∧
      ConfirmedWith matchId dto ((World.withUsers users).run inputs)
        ((World.withUsers users).run (inputs ++ more)) := by
  obtain ⟨creator, hcreator⟩ := creator_of_reachable users inputs hrow
  obtain ⟨w', ⟨more, hmore, rfl⟩, hconfirmed⟩ :=
    exists_confirmed_of_stored dto hrow hcreator hopen hnewcomers henough
  rw [← World.run_append] at hconfirmed
  exact ⟨creator, more, hcreator, hmore, hconfirmed⟩

/-- `mario` has confirmed the result of his match. -/
def duelContested : List Input := duel ++ [voteOf 1 1]

/-- The row of his match. -/
def duelContestedRow : MatchRow :=
  ⟨1, some 1, .oneVsOne, .awaitingConfirmation, some 3, some 1, 0, 0, none, none⟩

/-- Another result can still be confirmed: `mario` cancels the confirmation with his vote, submits
it, and he and `rival` vote for it. -/
theorem always_confirmable_duelContested :
    (((World.withUsers signedIn).run duelContested).votes 1).map (·.userId) = [1] ∧
      ∃ creator more, duelContestedRow.createdBy = some creator ∧
        (∀ input ∈ more, ByParticipant 1 creator [1, 2] input) ∧
        ConfirmedWith 1 ⟨10, 3⟩ ((World.withUsers signedIn).run duelContested)
          ((World.withUsers signedIn).run (duelContested ++ more)) := by
  refine ⟨by decide, always_confirmable signedIn duelContested 1 duelContestedRow [] ⟨10, 3⟩
    (by decide) (by decide) ⟨?_, ?_, List.nodup_nil, ?_⟩ (by decide)⟩
  · exact fun _ hnewcomer => absurd hnewcomer List.not_mem_nil
  · exact fun _ hnewcomer => absurd hnewcomer List.not_mem_nil
  · exact fun _ hnewcomer => absurd hnewcomer List.not_mem_nil

end FoosballApi.Matches
