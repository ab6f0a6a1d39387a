import FoosballApi.Matches.Invariant
import FoosballApi.Matches.MatchSteps

/-!
# A strict majority of the stored roster confirms

`confirm` computes its quorum from a player list it read before it took the lock. When that list
has the quorum of the players that are stored at the locked read, every confirming commit has the
votes of a strict majority of the stored roster, in every interleaving; an `addPlayers` that read an
old roster can write between the two reads.
-/

namespace FoosballApi.Matches

open Calls Data Trace Users World

variable {θ : Type}

/-- When a call confirms a match, the votes stored then are by players of the stored roster and more
than half of them. -/
def ConfirmsByMajority (h : History θ) (event : CallEvent θ) : Prop :=
  ∀ matchId, Confirms matchId h.world event.world →
    (∀ vote ∈ event.world.votes matchId,
      vote.userId ∈ (event.world.roster matchId).map (·.userId)) ∧
    (event.world.roster matchId).length / 2 + 1 ≤ (event.world.votes matchId).length

/-- Every vote is by a player of its match. -/
def World.VotesByPlayers (w : World) : Prop :=
  ∀ matchId, ∀ vote ∈ w.votes matchId, vote.userId ∈ (w.roster matchId).map (·.userId)

/-- When requests do not overlap, every vote is by a player. -/
theorem votesByPlayers_run (users : Table UserEntity.id) (inputs : List Input) :
    ((World.withUsers users).run inputs).VotesByPlayers := by
  intro matchId vote hvote
  cases hrow : ((World.withUsers users).run inputs).row matchId with
  | some r => exact (World.run_wellKept users inputs matchId r hrow).voters vote hvote
  | none =>
      have hsound := World.run_induction (P := World.Sound)
        (@steps_of_forall (fun _ _ => True) (fun _ _ => trivial) _ inputs)
        (sound_withUsers users) fun w input _ hw => Input.sound hw input
      have hnone := congrArg MatchView.votes (hsound.absent matchId hrow)
      rw [votes_matchView] at hnone
      rw [hnone] at hvote
      cases hvote

/-- A `FOR UPDATE` read finds as many players stored as give the quorum of the list its caller
read before. -/
def FindsQuorumRead [DecidableEq θ] (tid : θ) (h : History θ) : Call → Prop
  | .findMatchForUpdate matchId => ∀ e ∈ h.events, ∀ players ∈ playersRead tid matchId e,
      calculateQuorum players.length = calculateQuorum (h.world.roster matchId).length
  | _ => True

/-- The match that a call reads `FOR UPDATE`. -/
def Call.lockedMatch : Call → Option MatchId
  | .findMatchForUpdate matchId => some matchId
  | _ => none

instance [DecidableEq θ] (tid : θ) (h : History θ) (op : Call) :
    Decidable (FindsQuorumRead tid h op) :=
  decidable_of_iff (∀ matchId ∈ op.lockedMatch, ∀ e ∈ h.events,
      ∀ players ∈ playersRead tid matchId e,
        calculateQuorum players.length = calculateQuorum (h.world.roster matchId).length) <| by
    cases op <;> simp [Call.lockedMatch, FindsQuorumRead]

/-- What is known of every call: it is no part of a create, a deletion or an override, and a `FOR
UPDATE` read finds the quorum its caller read. -/
structure Attended [DecidableEq θ] (inputs : θ → Input) (h : History θ) (event : CallEvent θ) :
    Prop where
  does : (inputs event.tid).Does h event
  noCreate : ∀ user dto, inputs event.tid ≠ .request ⟨user, .createMatch dto⟩
  noDelete : ∀ user matchId, inputs event.tid ≠ .request ⟨user, .deleteMatch matchId⟩ ∧
    inputs event.tid ≠ .request ⟨user, .adminDeleteMatch matchId⟩
  noOverride : ∀ user matchId dto,
    inputs event.tid ≠ .request ⟨user, .adminOverrideResult matchId dto⟩
  quorum : ∀ matchId, event.op = .findMatchForUpdate matchId →
    (∃ value, event.result = .ok value) → FindsQuorumRead event.tid h event.op

/-- No player has left a match since any moment of the past, and every vote is by a player. -/
structure Rostered (h : History θ) : Prop where
  grows : ∀ h₁, Past h₁ h → ∀ matchId, ∀ p ∈ h₁.world.roster matchId,
    ∃ q ∈ h.world.roster matchId, q.userId = p.userId
  voters : h.world.VotesByPlayers

variable [DecidableEq θ] {inputs : θ → Input} {h : History θ} {event : CallEvent θ}
  {matchId : MatchId}

/-- No call takes a player out of a match. -/
theorem Attended.grows (hattended : Attended inputs h event) (matchId : MatchId)
    {p : MatchPlayerEntity} (hp : p ∈ h.world.roster matchId) :
    ∃ q ∈ event.world.roster matchId, q.userId = p.userId := by
  rcases hattended.does.touches matchId with hview | ⟨⟨user, route⟩, hinput, htouches⟩
  · have hsame : event.world.roster matchId = h.world.roster matchId :=
      congrArg MatchView.roster hview
    exact ⟨p, hsame ▸ hp, rfl⟩
  generalize hv : event.world.matchView matchId = v at htouches
  have hroster : event.world.roster matchId = v.roster := congrArg MatchView.roster hv
  rw [hroster]
  cases htouches with
  | same | deleteVotes | vote | confirm => exact ⟨p, hp, rfl⟩
  | @create dto hroute =>
      cases hroute
      exact absurd hinput (hattended.noCreate user dto)
  | save _ _ _ _ _ players => exact players.users p hp
  | savePlayers _ _ _ _ registered => exact registered.users_before p hp
  | overrideResult _ _ _ _ players => exact players.users p hp
  | delete hroute =>
      obtain ⟨hdelete, hadminDelete⟩ := hattended.noDelete user matchId
      rcases hroute with hroute | hroute <;> cases hroute
      · exact absurd hinput hdelete
      · exact absurd hinput hadminDelete

/-- A vote that is stored after a call was stored before it, or is by a player of a roster of the
past. -/
theorem Attended.voter (hattended : Attended inputs h event) {vote : MatchConfirmationEntity}
    (hvote : vote ∈ event.world.votes matchId) :
    vote ∈ h.world.votes matchId ∨
      ∃ h₁, Past h₁ h ∧ vote.userId ∈ (h₁.world.roster matchId).map (·.userId) := by
  rcases hattended.does.touches matchId with hview | ⟨⟨user, route⟩, hinput, htouches⟩
  · have hsame : event.world.votes matchId = h.world.votes matchId :=
      congrArg MatchView.votes hview
    exact .inl (hsame ▸ hvote)
  generalize hv : event.world.matchView matchId = v at htouches
  have hvotes : event.world.votes matchId = v.votes := congrArg MatchView.votes hv
  rw [hvotes] at hvote
  cases htouches with
  | same | save | savePlayers | overrideResult => exact .inl hvote
  | deleteVotes | delete => cases hvote
  | @create dto hroute =>
      cases hroute
      exact absurd hinput (hattended.noCreate user dto)
  | vote voting cast | confirm voting cast =>
      obtain ⟨h₁, h₂, rfl, hpast₁, hpast₂, _⟩ := voting.reads
      have hpast : Past h₁ h := ((past_snoc _ _).trans hpast₁).trans ((past_snoc _ _).trans hpast₂)
      exact (cast.mem hvote).imp_right fun hplayer => ⟨h₁, hpast, hplayer⟩

/-- One more call keeps the votes by players. -/
theorem Rostered.snoc (hrostered : Rostered h) (hattended : Attended inputs h event) :
    Rostered (h.snoc event) := by
  have hgrows : ∀ h₁, Past h₁ h → ∀ matchId, ∀ p ∈ h₁.world.roster matchId,
      ∃ q ∈ event.world.roster matchId, q.userId = p.userId := by
    intro h₁ hpast matchId p hp
    obtain ⟨q, hq, huser⟩ := hrostered.grows h₁ hpast matchId p hp
    obtain ⟨q', hq', huser'⟩ := hattended.grows matchId hq
    exact ⟨q', hq', huser'.trans huser⟩
  constructor
  · intro h₁ hpast matchId p hp
    rcases hpast.of_snoc with rfl | hpast
    · exact ⟨p, hp, rfl⟩
    · exact hgrows h₁ hpast matchId p hp
  · intro matchId vote hvote
    -- Whenever the voter was a player, they still are.
    have hpast : ∃ h₁, Past h₁ h ∧ vote.userId ∈ (h₁.world.roster matchId).map (·.userId) := by
      rcases hattended.voter hvote with hold | hpast
      · exact ⟨h, .refl h, hrostered.voters matchId vote hold⟩
      · exact hpast
    obtain ⟨h₁, hpast, hplayer⟩ := hpast
    obtain ⟨p, hp, huser⟩ := List.mem_map.mp hplayer
    obtain ⟨q, hq, huser'⟩ := hgrows h₁ hpast matchId p hp
    exact List.mem_map.mpr ⟨q, hq, huser'.trans huser⟩

omit [DecidableEq θ] in
/-- Before the first call nobody has left. -/
theorem rostered_nil {w : World} (hw : w.VotesByPlayers) : Rostered (θ := θ) ⟨w, []⟩ := by
  refine ⟨fun h₁ hpast matchId p hp => ?_, hw⟩
  obtain rfl := hpast.of_nil
  exact ⟨p, hp, rfl⟩

/-- A player list that is read is found in the trace. -/
theorem playersRead_event (tid : θ) (matchId : MatchId) (players : List MatchPlayerEntity)
    (w : World) : playersRead tid matchId ⟨tid, .findPlayers matchId, .ok players, w⟩ =
      some players := by
  simp [playersRead]

/-- A confirming commit has a majority of the stored roster. -/
theorem Attended.majority (hsteps : h.Steps (Attended inputs)) (hattended : Attended inputs h event)
    (hconfirms : Confirms matchId h.world event.world) :
    (event.world.roster matchId).length / 2 + 1 ≤ (event.world.votes matchId).length := by
  obtain ⟨request, r, players, _, voting, hquorum, _, hroster⟩ :=
    hattended.does.of_confirms hattended.noCreate hattended.noOverride hconfirms
  obtain ⟨h₁, h₂, _, hpast₁, hpast₂, hworld⟩ := voting.reads
  have hfinds := (hsteps.of_past hpast₂).quorum matchId rfl ⟨_, rfl⟩
  have hread := hfinds _ (hpast₁.2.subset List.mem_cons_self) players
    (playersRead_event event.tid matchId players h₁.world)
  rw [hroster, hworld]
  exact Nat.le_trans (Nat.le_of_eq hread.symm) hquorum

/-- In every interleaving in which each `FOR UPDATE` read finds the quorum its caller read before,
only a strict majority of the stored roster confirms a match. -/
theorem confirms_by_majority {inputs : θ → Input} {w : World} {c : Running θ}
    (hcreate : ∀ i user dto, inputs i ≠ .request ⟨user, .createMatch dto⟩)
    (hdelete : ∀ i user matchId, inputs i ≠ .request ⟨user, .deleteMatch matchId⟩ ∧
      inputs i ≠ .request ⟨user, .adminDeleteMatch matchId⟩)
    (hoverride : ∀ i user matchId dto,
      inputs i ≠ .request ⟨user, .adminOverrideResult matchId dto⟩)
    (hw : w.VotesByPlayers)
    (hreach : Reach system (fun tid h op fails => fails = false → FindsQuorumRead tid h op)
      (w.begin inputs) c) :
    c.trace.Steps ConfirmsByMajority := by
  have hattended : c.trace.Steps (Attended inputs) := fun later event earlier he => by
    refine ⟨steps_does hreach later event earlier he, hcreate event.tid, hdelete event.tid,
      hoverride event.tid, fun matchId hop hok => ?_⟩
    obtain ⟨value, hvalue⟩ := hok
    exact (hreach.made later event earlier he).allowed (by rw [hop]; rfl) hvalue rfl
  refine hattended.strengthen (rostered_nil ?_)
    (fun _ _ _ _ hrostered hevent => hrostered.snoc hevent) ?_
  · rw [hreach.init]
    exact hw
  · intro h event hsteps hrostered hevent matchId hconfirms
    exact ⟨(hrostered.snoc hevent).voters matchId, hevent.majority hsteps hconfirms⟩

/-! ## Runs -/

/-- Four users, and an empty one-on-one match of `mario`. -/
def emptyDuel : List Input :=
  [ .signIn ⟨4, "oid-004", "guest@foosball.test", "guest", false⟩
  , .request ⟨mario, .createMatch ⟨some .oneVsOne⟩⟩ ]

/-- Two more players, in the second slots of the teams. -/
def secondSlots : AddPlayersDto :=
  ⟨[playerDto 3 .A 1 (Nat.succ_pos 2), playerDto 4 .B 1 (Nat.succ_pos 3)], by decide, by decide⟩

/-- `mario` adds two players, twice, and submits the result; `mario` and `rival` confirm. -/
def addTwice : Fin 5 → Input
  | 0 => .request ⟨mario, .addPlayers 1 bothTeams⟩
  | 1 => .request ⟨mario, .addPlayers 1 secondSlots⟩
  | 2 => .request ⟨mario, .submitResult 1 ⟨3, 1⟩⟩
  | 3 => .request ⟨mario, .confirmResult 1⟩
  | 4 => .request ⟨rival, .confirmResult 1⟩

/-- The second addition comes after the first and is refused. -/
def fullRosterSchedule : List (Fin 5 × Bool) :=
  .replicate 5 (0, false) ++ .replicate 2 (1, false) ++ .replicate 5 (2, false) ++
    .replicate 2 (3, false) ++ .replicate 10 (4, false) ++ .replicate 9 (3, false)

/-- Both players of the run above confirm. -/
theorem confirms_by_majority_duel :
    ∃ c : Running (Fin 5), c.trace.world.status 1 = some .confirmed ∧
      c.trace.Steps ConfirmsByMajority := by
  obtain ⟨c, hreach, hstatus⟩ := Reach.exists_of_execute system
    (fun tid h op fails => fails = false → FindsQuorumRead tid h op)
    (((World.withUsers signedIn).run emptyDuel).begin addTwice) fullRosterSchedule
    (fun c => c.trace.world.status 1 = some .confirmed) (by decide)
  refine ⟨c, of_decide_eq_true hstatus, confirms_by_majority ?_ ?_ ?_
    (votesByPlayers_run signedIn emptyDuel) hreach⟩
  · exact fun i => match i with | 0 | 1 | 2 | 3 | 4 => nofun
  · exact fun i => match i with | 0 | 1 | 2 | 3 | 4 => fun _ _ => ⟨nofun, nofun⟩
  · exact fun i => match i with | 0 | 1 | 2 | 3 | 4 => nofun

/-- The second addition reads the empty roster and writes after `mario` and `rival` have read
theirs. -/
def staleAdditionSchedule : List (Fin 5 × Bool) :=
  .replicate 2 (1, false) ++ .replicate 5 (0, false) ++ .replicate 5 (2, false) ++
    .replicate 2 (3, false) ++ .replicate 2 (4, false) ++ .replicate 1 (1, false) ++
    .replicate 8 (3, false) ++ .replicate 9 (4, false)

/-- The last call of a run confirms match 1 with two votes for four players. -/
def ConfirmsByHalf (c : Running (Fin 5)) : Bool :=
  match c.trace.events with
  | last :: before :: _ => last.world.status 1 = some .confirmed ∧
      before.world.status 1 ≠ some .confirmed ∧ (last.world.roster 1).length = 4 ∧
      (last.world.votes 1).length = 2
  | _ => false

/-- Two of four players confirm a match. -/
theorem not_confirms_by_majority_stale :
    ¬ ∀ (inputs : Fin 5 → Input) (w : World) (c : Running (Fin 5)),
      (∀ i user dto, inputs i ≠ .request ⟨user, .createMatch dto⟩) →
      (∀ i user matchId, inputs i ≠ .request ⟨user, .deleteMatch matchId⟩ ∧
        inputs i ≠ .request ⟨user, .adminDeleteMatch matchId⟩) →
      (∀ i user matchId dto, inputs i ≠ .request ⟨user, .adminOverrideResult matchId dto⟩) →
      w.VotesByPlayers → Reach system (fun _ _ _ fails => fails = false) (w.begin inputs) c →
      c.trace.Steps ConfirmsByMajority := by
  intro h
  obtain ⟨c, hreach, hhalf⟩ := Reach.exists_of_execute system (fun _ _ _ fails => fails = false)
    (((World.withUsers signedIn).run emptyDuel).begin addTwice) staleAdditionSchedule
    ConfirmsByHalf (by decide)
  have hsteps := h addTwice _ c (fun i => match i with | 0 | 1 | 2 | 3 | 4 => nofun)
    (fun i => match i with | 0 | 1 | 2 | 3 | 4 => fun _ _ => ⟨nofun, nofun⟩)
    (fun i => match i with | 0 | 1 | 2 | 3 | 4 => nofun) (votesByPlayers_run signedIn emptyDuel)
    hreach
  unfold ConfirmsByHalf at hhalf
  split at hhalf
  · next last before rest hevents =>
      obtain ⟨hconfirmed, hbefore, hroster, hvotes⟩ := of_decide_eq_true hhalf
      obtain ⟨_, hmajority⟩ := hsteps [] last (before :: rest) hevents 1 ⟨hconfirmed, hbefore⟩
      rw [hroster, hvotes] at hmajority
      omega
  · cases hhalf

end FoosballApi.Matches
