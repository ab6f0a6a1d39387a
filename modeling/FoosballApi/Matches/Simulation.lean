import FoosballApi.Matches.Lifecycle
import FoosballApi.Matches.ServiceSpecs

/-!
# Requests follow the life of a match

A request that runs alone performs at most one transition of at most one match
(`Request.effect`), so a run of requests is, seen from one match, a run of the machine of
`Lifecycle.lean` (`Request.simulates`). `Sound` is what this needs of a world: ids are fresh and
nothing is stored about a match that is not.
-/

namespace FoosballApi.Matches

open Calls Data Prog World Users

/-- The actions a request can perform on a match. -/
def Request.MayDo (request : Request) (matchId : MatchId) (action : Action) : Prop :=
  let user := request.user
  match request.route with
  | .createMatch _ => action = .create user.sub
  | .updateMatch id _ => id = matchId ∧ action = .update user.sub
  | .addPlayers id dto => id = matchId ∧
      action = .addPlayers user.sub (dto.players.map (·.toEntity matchId))
  | .submitResult id _ => id = matchId ∧ action = .submitResult user.sub
  | .confirmResult id => id = matchId ∧ (action = .vote user.sub ∨ action = .confirm user.sub)
  | .cancelConfirmation id => id = matchId ∧ action = .cancel user.sub
  | .adminOverrideResult id _ => id = matchId ∧ action = .overrideResult user.sub ∧ user.isAdmin
  | .deleteMatch id | .adminDeleteMatch id =>
      id = matchId ∧ action = .delete user.sub ∧ user.isAdmin
  | .getMatch _ | .getConfirmationStatus _ | .getMatchAuditLog _ => False

/-- Players are added through one route, by the caller. -/
theorem Request.mayDo_addPlayers {request : Request} {matchId : MatchId} {userId : UserId}
    {ps : List MatchPlayerEntity} (h : request.MayDo matchId (.addPlayers userId ps)) :
    userId = request.user.sub ∧ ∃ dto, request.route = .addPlayers matchId dto ∧
      ps = dto.players.map (·.toEntity matchId) := by
  obtain ⟨user, route⟩ := request
  cases route with
  | addPlayers id dto =>
      obtain ⟨rfl, haction⟩ := h
      cases haction
      exact ⟨rfl, dto, rfl, rfl⟩
  | confirmResult id => rcases h with ⟨_, h | h⟩ <;> cases h
  | createMatch | getMatch | getConfirmationStatus | getMatchAuditLog => cases h
  | updateMatch | submitResult | cancelConfirmation => cases h.2
  | deleteMatch | adminDeleteMatch | adminOverrideResult => cases h.2.1

/-- A match is deleted through two routes, by an admin. -/
theorem Request.mayDo_delete {request : Request} {matchId : MatchId} {userId : UserId}
    (h : request.MayDo matchId (.delete userId)) :
    (request.route = .deleteMatch matchId ∨ request.route = .adminDeleteMatch matchId) ∧
      request.user.isAdmin = true := by
  obtain ⟨user, route⟩ := request
  cases route with
  | deleteMatch id =>
      obtain ⟨rfl, _, hadmin⟩ := h
      exact ⟨.inl rfl, hadmin⟩
  | adminDeleteMatch id =>
      obtain ⟨rfl, _, hadmin⟩ := h
      exact ⟨.inr rfl, hadmin⟩
  | confirmResult id => rcases h with ⟨_, h | h⟩ <;> cases h
  | createMatch | getMatch | getConfirmationStatus | getMatchAuditLog => cases h
  | updateMatch | submitResult | cancelConfirmation | addPlayers => cases h.2
  | adminOverrideResult => cases h.2.1

/-- Match ids that were not handed out are not stored, and nothing is stored about a match whose
row is not. -/
structure World.Sound (w : World) : Prop where
  fresh : ∀ matchId, w.nextMatchId ≤ matchId → w.row matchId = none
  absent : ∀ matchId, w.row matchId = none → w.matchView matchId = .absent

/-- One transition of one match, and nothing else. -/
structure Performs (request : Request) (w w' : World) (matchId : MatchId) (action : Action) :
    Prop where
  mayDo : request.MayDo matchId action
  transition : Transition action (w.matchView matchId) (w'.matchView matchId)
  others : ∀ other, other ≠ matchId → w'.matchView other = w.matchView other
  stored_or_new : w.row matchId = none → w.nextMatchId ≤ matchId
  issued : matchId < w'.nextMatchId
  next : w.nextMatchId ≤ w'.nextMatchId

/-- What a request does: nothing to any match, or one transition of one match. -/
def Effect (request : Request) (w w' : World) : Prop :=
  ((∀ matchId, w'.matchView matchId = w.matchView matchId) ∧ w'.nextMatchId = w.nextMatchId) ∨
    ∃ matchId action, Performs request w w' matchId action

namespace Effect

variable {request : Request} {w w' : World} {matchId : MatchId}

/-- A world that a request left as it was. -/
theorem of_eq (h : w' = w) : Effect request w w' := by
  subst h
  exact .inl ⟨fun _ => rfl, rfl⟩

theorem issued_of_row (hw : w.Sound) {r : MatchRow} (hrow : w.row matchId = some r) :
    matchId < w.nextMatchId := by
  refine Nat.lt_of_not_le fun hge => ?_
  rw [hw.fresh matchId hge] at hrow
  cases hrow

/-- The view of a stored match, written out. -/
theorem matchView_of_row {r : MatchRow} (hrow : w.row matchId = some r) :
    w.matchView matchId = ⟨some r, w.roster matchId, w.votes matchId⟩ := by
  rw [World.matchView, hrow]

/-- A transition of a stored match by statements that insert no match. -/
theorem of_transition (hw : w.Sound) {r : MatchRow} (action : Action)
    (hrow : w.row matchId = some r) (hdo : request.MayDo matchId action)
    (htrans : Transition action ⟨some r, w.roster matchId, w.votes matchId⟩ (w'.matchView matchId))
    (hothers : ∀ other, other ≠ matchId → w'.matchView other = w.matchView other)
    (hnext : w'.nextMatchId = w.nextMatchId) : Effect request w w' := by
  refine .inr ⟨matchId, action, hdo, ?_, hothers, fun hnone => ?_, ?_, hnext.ge⟩
  · rwa [matchView_of_row hrow]
  · rw [hrow] at hnone
    cases hnone
  · rw [hnext]
    exact issued_of_row hw hrow

/-- A transition that ends in `save` of the match, after statements that left a world `mid`. -/
theorem of_saved (hw : w.Sound) {r r₁ : MatchRow} (action : Action)
    (hrow : w.row matchId = some r) (hdo : request.MayDo matchId action) (mid : World)
    {m : MatchEntity} (hid : m.id = matchId) (hmid : mid.row matchId = some r₁)
    (hothers : ∀ other, other ≠ matchId → mid.matchView other = w.matchView other)
    (hsame : SameTables (mid.saveMatch m) w') (hnext : w'.nextMatchId = w.nextMatchId)
    (htrans : ∀ t, Transition action ⟨some r, w.roster matchId, w.votes matchId⟩
      ⟨some { m.toMatchRow with updatedAt := t }, mid.roster matchId, mid.votes matchId⟩) :
    Effect request w w' := by
  subst hid
  obtain ⟨t, hview⟩ := matchView_saveMatch rfl hmid
  refine of_transition hw action hrow hdo ?_ (fun other hne => ?_) hnext
  · rw [hsame.matchView, hview]
    exact htrans t
  · rw [hsame.matchView, ← hothers other hne]
    exact matchView_saveMatch_of_ne hne fun hnone => by simp [hnone] at hmid

end Effect

/-! ## The effect of each request -/

variable {w : World} {user : JwtPayload} {matchId : MatchId}

theorem nextMatchId_enqueue (w : World) (queue : Events.Queue) (job : Events.EventEnvelope) :
    (w.enqueue queue job).nextMatchId = w.nextMatchId := by
  cases queue <;> rfl

/-- Registering players adds players. -/
theorem addPlayers_effect (hw : w.Sound) {dto : AddPlayersDto} {r : MatchRow} {saved : World}
    (hrow : w.row matchId = some r) (hcreator : r.createdBy = some user.sub)
    (hopen : ¬ r.status.Locked)
    (hroom : (w.roster matchId).length + dto.players.length ≤ matchCapacity r.matchType)
    (htaken : ∀ p ∈ dto.players, slotTaken (w.roster matchId) p = false)
    (hsave : w.savePlayers (dto.players.map (·.toEntity matchId)) = some saved) :
    Effect ⟨user, .addPlayers matchId dto⟩ w (playingWorld w saved matchId r) := by
  have hids := dto.matchId_rows matchId
  have hne := dto.rows_ne_nil matchId
  have hreg := savePlayers_registered hsave hids
  have hsome : 0 < (saved.roster matchId).length := hreg.length_pos hne
  have hframe := savePlayers_frame hsave
  have hsaved : saved.row matchId = some r := by rw [hframe]; exact hrow
  have hvotes : saved.votes matchId = w.votes matchId := by rw [hframe]; rfl
  have hnext : saved.nextMatchId = w.nextMatchId := by rw [hframe]
  have hid : r.id = matchId := id_of_row hrow
  have hothers : ∀ other, other ≠ matchId → saved.matchView other = w.matchView other :=
    fun other hother => matchView_savePlayers_of_ne hsave hids hother
  have hfree : SlotsFree (w.roster matchId) (dto.players.map (·.toEntity matchId)) := by
    rintro _ hp q hq ⟨hteam, hslot⟩
    obtain ⟨p, hmem, rfl⟩ := List.mem_map.mp hp
    have hany := List.any_eq_false.mp (htaken p hmem) q hq
    simp [hteam, hslot] at hany
  have htrans : ∀ t, Transition (.addPlayers user.sub _)
      ⟨some r, w.roster matchId, w.votes matchId⟩ _ :=
    Transition.addPlayers hcreator hopen (by simpa using hroom) hne hfree hreg
  unfold playingWorld
  by_cases hdraft : r.status = .draft
  · rw [if_pos ⟨hdraft, hsome⟩]
    refine .of_saved hw (.addPlayers user.sub _) hrow ⟨rfl, rfl⟩ saved hid hsaved hothers (.refl _)
      ((nextMatchId_saveMatch _).trans hnext) fun t => ?_
    rw [hvotes]
    simpa only [hdraft, ↓reduceIte] using htrans t
  · rw [if_neg fun h => hdraft h.1]
    refine .of_transition hw (.addPlayers user.sub _) hrow ⟨rfl, rfl⟩ ?_ hothers hnext
    rw [Effect.matchView_of_row hsaved, hvotes]
    simpa only [hdraft, ↓reduceIte] using htrans r.updatedAt

/-- Inserting a draft creates a match. -/
theorem create_effect (hw : w.Sound) (dto : CreateMatchDto) :
    Effect ⟨user, .createMatch dto⟩ w
      (w.insertMatch (w.newMatch user.sub (dto.matchType.getD .twoVsTwo) .draft)) := by
  have habsent : w.matchView w.nextMatchId = .absent :=
    hw.absent _ (hw.fresh _ (Nat.le_refl _))
  have hview := matchView_insertMatch (w := w)
    (r := w.newMatch user.sub (dto.matchType.getD .twoVsTwo) .draft)
  refine .inr ⟨w.nextMatchId, .create user.sub, rfl, ?_, fun other hne => ?_,
    fun _ => Nat.le_refl _, Nat.lt_succ_self _, Nat.le_succ _⟩
  · rw [habsent]
    refine hview ▸ ?_
    show Transition (.create user.sub) .absent { w.matchView w.nextMatchId with row := _ }
    rw [habsent]
    exact .create rfl rfl rfl rfl rfl rfl
  · exact matchView_insertMatch_of_ne hne

/-- Deleting a stored match, after statements that touched no match. -/
theorem Effect.of_delete (hw : w.Sound) {request : Request} {r : MatchRow}
    (hrow : w.row matchId = some r) (hdo : request.MayDo matchId (.delete request.user.sub))
    {mid : World} (hmid : SameTables w mid) (hnext : mid.nextMatchId = w.nextMatchId) :
    Effect request w (mid.deleteMatch matchId) := by
  refine .of_transition hw (.delete _) hrow hdo ?_ (fun other hne => ?_) hnext
  · rw [matchView_deleteMatch]
    exact .delete
  · rw [matchView_deleteMatch_of_ne hne, hmid.matchView]

/-- The caller's vote: the votes of the match afterwards, and the rest of the world. -/
theorem votedWorld_cast (w : World) (matchId : MatchId) {userId : UserId}
    {roster : List MatchPlayerEntity} (hplayer : userId ∈ roster.map (·.userId)) :
    Cast userId roster (w.votes matchId) ((w.votedWorld matchId userId).votes matchId) := by
  unfold votedWorld voteWrites
  cases hget : w.confirmations.get (matchId, userId) with
  | some c =>
      refine .again (List.mem_map.mpr ⟨c, mem_votes.mpr ?_, ?_⟩)
      · exact ⟨Table.mem_of_get hget, congrArg Prod.fst (Table.key_of_get hget)⟩
      · exact congrArg Prod.snd (Table.key_of_get hget)
  | none =>
      have hvotes : (w.putConfirmation (w.newConfirmation matchId userId)).votes matchId =
          w.votes matchId ++ [w.newConfirmation matchId userId] := votes_putConfirmation hget
      simp only [List.foldl_cons, List.foldl_nil, Write.commit, hvotes]
      exact .first rfl hplayer (get_confirmation_eq_none.mp hget)

theorem votedWorld_others {userId : UserId} (other : MatchId) (hne : other ≠ matchId) :
    (w.votedWorld matchId userId).matchView other = w.matchView other := by
  unfold votedWorld voteWrites
  cases w.confirmations.get (matchId, userId) with
  | some c => rfl
  | none => exact matchView_putConfirmation_of_ne hne

/-- A vote confirms the match at the quorum and counts below it. -/
theorem confirm_effect (hw : w.Sound) {r : MatchRow} (hr : w.Confirmable matchId user.sub r) :
    (¬ w.QuorumReached matchId user.sub →
        Effect ⟨user, .confirmResult matchId⟩ w (w.votedWorld matchId user.sub)) ∧
      (w.QuorumReached matchId user.sub →
        Effect ⟨user, .confirmResult matchId⟩ w (w.confirmedWorld matchId user.sub r)) := by
  obtain ⟨hrow, hawait, hplayer⟩ := hr
  have hid : r.id = matchId := id_of_row hrow
  have hcast := votedWorld_cast w matchId hplayer
  have hrow' : (w.votedWorld matchId user.sub).row matchId = some r :=
    (row_votedWorld _ _ _ _).trans hrow
  have hnext : (w.votedWorld matchId user.sub).nextMatchId = w.nextMatchId := by
    rw [votedWorld_eq]
  constructor
  · intro hbelow
    refine .of_transition hw (.vote user.sub) hrow ⟨rfl, .inl rfl⟩ ?_ votedWorld_others hnext
    rw [Effect.matchView_of_row hrow', roster_votedWorld]
    exact .vote hawait hcast (Nat.lt_of_not_le hbelow)
  · intro hquorum
    unfold confirmedWorld
    refine .of_saved hw (.confirm user.sub) hrow ⟨rfl, .inr rfl⟩ _ hid hrow' votedWorld_others
      ((sameTables_enqueue _ _ _).trans (sameTables_enqueue _ _ _)) ?_ fun t => ?_
    · rw [nextMatchId_enqueue, nextMatchId_enqueue, nextMatchId_saveMatch, hnext]
    · rw [roster_votedWorld]
      exact .confirm hawait hcast hquorum _ t

/-- An override writes the scores of a confirmed match. -/
theorem overrideResult_effect (hw : w.Sound) {r : MatchRow} (hadmin : user.isAdmin = true)
    (hrow : w.row matchId = some r) (hconfirmed : r.status = .confirmed)
    (dto : AdminOverrideResultDto) :
    Effect ⟨user, .adminOverrideResult matchId dto⟩ w
      (w.overriddenWorld matchId r user.sub dto) := by
  have hid : r.id = matchId := id_of_row hrow
  have hmid : ∀ audit invalidate, SameTables w ((w.takeAuditId.enqueue .auditQueue audit).enqueue
      .leaderboardQueue invalidate) := fun audit invalidate =>
    ((sameTables_takeAuditId w).trans (sameTables_enqueue _ _ _)).trans (sameTables_enqueue _ _ _)
  unfold overriddenWorld
  refine .of_saved hw (.overrideResult user.sub) hrow ⟨rfl, rfl, hadmin⟩ _ hid
    (((hmid _ _).row matchId).trans hrow)
    (fun other _ => (hmid _ _).matchView other) (sameTables_appendAuditLog _ _) ?_ fun t => ?_
  · show ((_ : World).saveMatch _).nextMatchId = _
    rw [nextMatchId_saveMatch, nextMatchId_enqueue, nextMatchId_enqueue]; rfl
  · rw [(hmid _ _).roster, (hmid _ _).votes]
    exact .overrideResult hconfirmed _ _ t

/-! ## Every request -/

/-- A request that runs alone performs at most one transition of at most one match. -/
theorem Request.effect (request : Request) (hw : w.Sound) :
    Effect request w (request.outcome w).world := by
  have hleaves := request.leaves w
  generalize (request.outcome w).world = w' at hleaves ⊢
  cases hleaves with
  | same => exact .of_eq rfl
  | create => exact create_effect hw _
  | @update user matchId dto r row creator editable =>
      have hid : r.id = matchId := id_of_row row
      exact .of_saved hw (.update user.sub) row ⟨rfl, rfl⟩ w hid row (fun _ _ => rfl) (.refl _)
        (nextMatchId_saveMatch _) fun t => .update creator editable _ _ t
  | addPlayers row creator editable room free save =>
      exact addPlayers_effect hw row creator editable room free save
  | @submitResult user matchId dto r job row creator editable full =>
      have hid : r.id = matchId := id_of_row row
      refine .of_saved hw (.submitResult user.sub) row ⟨rfl, rfl⟩ w hid row (fun _ _ => rfl)
        (sameTables_enqueue _ _ _) ?_ fun t => ?_
      · rw [nextMatchId_enqueue, nextMatchId_saveMatch]
      · exact .submitResult creator editable full _ _ t
  | vote confirmable below => exact (confirm_effect hw confirmable).1 below
  | confirm confirmable quorum => exact (confirm_effect hw confirmable).2 quorum
  | @cancel user matchId r job row creator awaiting =>
      have hid : r.id = matchId := id_of_row row
      have hvotes : (w.deleteAllConfirmations matchId).votes matchId = [] :=
        congrArg MatchView.votes (matchView_deleteAllConfirmations w matchId)
      refine .of_saved hw (.cancel user.sub) row ⟨rfl, rfl⟩ (w.deleteAllConfirmations matchId) hid
        row (fun other => matchView_deleteAllConfirmations_of_ne) (sameTables_enqueue _ _ _) ?_
        fun t => ?_
      · rw [nextMatchId_enqueue, nextMatchId_saveMatch]
        rfl
      · rw [hvotes]
        exact .cancel creator awaiting t
  | overrideResult admin row confirmed => exact overrideResult_effect hw admin row confirmed _
  | @delete user matchId r admin row =>
      have hdo : Request.MayDo ⟨user, .deleteMatch matchId⟩ matchId (.delete user.sub) :=
        ⟨rfl, rfl, admin⟩
      exact .of_delete hw row hdo (.refl w) rfl
  | @adminDelete user matchId r admin row =>
      have hdo : Request.MayDo ⟨user, .adminDeleteMatch matchId⟩ matchId (.delete user.sub) :=
        ⟨rfl, rfl, admin⟩
      obtain ⟨hmid, hnext, -⟩ := recordedWorld_frame w matchId r user.sub
      exact .of_delete hw row hdo hmid hnext

/-! ## Runs -/

/-- A request keeps the world sound. -/
theorem Effect.sound {request : Request} {w' : World} (hw : w.Sound) (h : Effect request w w') :
    w'.Sound := by
  rcases h with ⟨hsame, hnext⟩ | ⟨changed, action, h⟩
  · constructor
    · intro id hid
      rw [← row_matchView, hsame]
      exact hw.fresh id (hnext ▸ hid)
    · intro id hid
      rw [← row_matchView, hsame] at hid
      rw [hsame]
      exact hw.absent id hid
  · constructor
    · intro id hid
      have hne : id ≠ changed := fun heq => Nat.not_le_of_lt h.issued (heq ▸ hid)
      rw [← row_matchView, h.others id hne]
      exact hw.fresh id (Nat.le_trans h.next hid)
    · intro id hid
      by_cases heq : id = changed
      · subst heq
        exact h.transition.absent hid
      · rw [← row_matchView, h.others id heq] at hid
        rw [h.others id heq]
        exact hw.absent id hid

/-- The empty store is sound. -/
theorem World.sound_withUsers (users : Table UserEntity.id) : (World.withUsers users).Sound :=
  ⟨fun _ _ => rfl, fun _ _ => rfl⟩

/-- Every step of a run keeps the world sound. -/
theorem Input.sound (hw : w.Sound) (input : Input) : (input.after w).Sound := by
  cases input with
  | request r => exact (r.effect hw).sound hw
  | signIn user => exact ⟨hw.fresh, hw.absent⟩
  | tick elapsed => exact ⟨hw.fresh, hw.absent⟩

/-- Ids are only ever handed out. -/
theorem Input.next_le (hw : w.Sound) (input : Input) :
    w.nextMatchId ≤ (input.after w).nextMatchId := by
  cases input with
  | signIn user => exact Nat.le_refl _
  | tick elapsed => exact Nat.le_refl _
  | request r =>
      rcases r.effect hw with ⟨_, hnext⟩ | ⟨_, _, h⟩
      · exact hnext.ge
      · exact h.next

/-- A step of a run is, for every match, a transition of the requested kind or nothing. -/
theorem Input.simulates (hw : w.Sound) (input : Input) (matchId : MatchId) :
    (input.after w).matchView matchId = w.matchView matchId ∨
      ∃ request action, input = .request request ∧ request.MayDo matchId action ∧
        Transition action (w.matchView matchId) ((input.after w).matchView matchId) := by
  cases input with
  | signIn user => exact .inl rfl
  | tick elapsed => exact .inl rfl
  | request r =>
      rcases r.effect hw with ⟨hsame, _⟩ | ⟨changed, action, h⟩
      · exact .inl (hsame matchId)
      · by_cases heq : matchId = changed
        · subst heq
          exact .inr ⟨r, action, rfl, h.mayDo, h.transition⟩
        · exact .inl (h.others matchId heq)

/-- What the empty match has and every transition keeps, every match has after every run. -/
theorem World.run_invariant {ok : World → Input → Prop} {I : MatchView → Prop}
    (users : Table UserEntity.id) {inputs : List Input}
    (hsteps : (World.withUsers users).Steps ok inputs) (hempty : I .absent)
    (hstep : ∀ w request matchId action, ok w (.request request) → w.Sound →
      request.MayDo matchId action → ∀ v', Transition action (w.matchView matchId) v' →
        I (w.matchView matchId) → I v') (matchId : MatchId) :
    I (((World.withUsers users).run inputs).matchView matchId) := by
  have hall : ((World.withUsers users).run inputs).Sound ∧
      ∀ id, I (((World.withUsers users).run inputs).matchView id) := by
    refine World.run_induction (P := fun w => w.Sound ∧ ∀ id, I (w.matchView id)) hsteps
      ⟨sound_withUsers users, fun _ => hempty⟩ ?_
    rintro w input hok ⟨hw, hinv⟩
    refine ⟨Input.sound hw input, fun id => ?_⟩
    rcases Input.simulates hw input id with hsame | ⟨request, action, rfl, hdo, htrans⟩
    · rw [hsame]
      exact hinv id
    · exact hstep w request id action hok hw hdo _ htrans (hinv id)
  exact hall.2 matchId

end FoosballApi.Matches
