import FoosballApi.Matches.Simulation

/-!
# The invariant of the match store

`WellKept` collects what holds of every stored match when requests do not overlap: which statuses
occur, how many players and votes go with them, and when scores and timestamps are set. It is
kept by every transition of the life of a match, so it holds in every world a run reaches.
-/

namespace FoosballApi.Matches

open Data World Users

/-- What holds of a stored match between two requests. -/
structure WellKept (r : MatchRow) (roster : List MatchPlayerEntity)
    (votes : List MatchConfirmationEntity) : Prop where
  status : r.status = .draft ∨ r.status = .playing ∨ r.status = .awaitingConfirmation ∨
    r.status = .confirmed
  draft : r.status = .draft ↔ roster = []
  roster_le : roster.length ≤ matchCapacity r.matchType
  roster_full : r.status.Locked → roster.length = matchCapacity r.matchType
  scores : r.status.Locked → r.scoreA.isSome ∧ r.scoreB.isSome
  voters : ∀ c ∈ votes, c.userId ∈ roster.map (·.userId)
  one_vote : (votes.map (·.userId)).Nodup
  no_votes : r.status = .draft ∨ r.status = .playing → votes = []
  below_quorum : r.status = .awaitingConfirmation → votes.length < calculateQuorum roster.length
  at_quorum : r.status = .confirmed → votes.length = calculateQuorum roster.length
  confirmedAt : r.confirmedAt.isSome ↔ r.status = .confirmed
  lockedAt : r.lockedAt = r.confirmedAt

/-- A stored match is well kept. -/
def MatchView.WellKept (v : MatchView) : Prop :=
  ∀ r, v.row = some r → Matches.WellKept r v.roster v.votes

theorem matchCapacity_pos (matchType : MatchType) : 0 < matchCapacity matchType := by
  cases matchType <;> decide

theorem calculateQuorum_pos (totalPlayers : Nat) : 0 < calculateQuorum totalPlayers :=
  Nat.succ_pos _

namespace WellKept

variable {r : MatchRow} {roster : List MatchPlayerEntity} {votes : List MatchConfirmationEntity}

/-- A match that is not locked has no votes and no timestamps. -/
theorem early (h : WellKept r roster votes) (hopen : ¬ r.status.Locked) :
    (r.status = .draft ∨ r.status = .playing) ∧ votes = [] ∧ r.confirmedAt = none := by
  have hearly : r.status = .draft ∨ r.status = .playing := by
    rcases h.status with hs | hs | hs | hs
    · exact .inl hs
    · exact .inr hs
    · exact absurd (.inl hs) hopen
    · exact absurd (.inr hs) hopen
  refine ⟨hearly, h.no_votes hearly, ?_⟩
  rw [← Option.not_isSome_iff_eq_none, h.confirmedAt]
  exact fun hs => hopen (.inr hs)

/-- A vote keeps the voters players of the match, each with one vote, and adds at most one. -/
theorem cast (h : WellKept r roster votes) {userId : UserId}
    {votes' : List MatchConfirmationEntity} (hcast : Cast userId roster votes votes') :
    (∀ c ∈ votes', c.userId ∈ roster.map (·.userId)) ∧ (votes'.map (·.userId)).Nodup ∧
      votes'.length ≤ votes.length + 1 := by
  cases hcast with
  | again => exact ⟨h.voters, h.one_vote, Nat.le_succ _⟩
  | first hvoter hplayer hnew =>
      subst hvoter
      refine ⟨fun c hc => ?_, ?_, by simp⟩
      · rcases List.mem_append.mp hc with hold | hnewest
        · exact h.voters c hold
        · rw [List.mem_singleton.mp hnewest]
          exact hplayer
      · rw [List.map_append, List.map_singleton]
        exact h.one_vote.append (List.nodup_singleton _)
          fun u hu hu' => hnew (List.mem_singleton.mp hu' ▸ hu)

/-- New scores in place of the old keep an open match well kept. -/
theorem update (h : WellKept r roster votes) (hopen : ¬ r.status.Locked)
    (scoreA scoreB : Option Score) (t : Date) :
    WellKept { r with scoreA := scoreA, scoreB := scoreB, updatedAt := t } roster votes :=
  { h with
    roster_full := fun hlocked => absurd hlocked hopen
    scores := fun hlocked => absurd hlocked hopen }

/-- Players added to an open match start it and leave it open. -/
theorem addPlayers (h : WellKept r roster votes) (hopen : ¬ r.status.Locked)
    {roster' ps : List MatchPlayerEntity} (hps : ps ≠ []) (hreg : Registered roster ps roster')
    (hsize : roster.length + ps.length ≤ matchCapacity r.matchType) (t : Date) :
    WellKept { r with
      status := if r.status = .draft then .playing else r.status
      updatedAt := t } roster' votes := by
  obtain ⟨hearly, hvotes, hnone⟩ := h.early hopen
  have hplaying : (if r.status = .draft then .playing else r.status) = MatchStatus.playing := by
    rcases hearly with hs | hs <;> simp [hs]
  have hroster : roster' ≠ [] := by
    obtain ⟨p, hp⟩ := List.exists_mem_of_ne_nil ps hps
    obtain ⟨q, hq, _⟩ := hreg.users_written p hp
    exact List.ne_nil_of_mem hq
  have hsize' := hreg.length_le
  have hlock := h.lockedAt
  constructor <;> simp_all [MatchStatus.Locked]
  omega

/-- Submitting the result of a full open match starts its confirmation without votes. -/
theorem submitResult (h : WellKept r roster votes) (hopen : ¬ r.status.Locked)
    (hfull : matchCapacity r.matchType ≤ roster.length) (scoreA scoreB : Score) (t : Date) :
    WellKept { r with
      scoreA := some scoreA
      scoreB := some scoreB
      status := .awaitingConfirmation
      updatedAt := t } roster votes := by
  obtain ⟨hearly, hvotes, hnone⟩ := h.early hopen
  have hsize : roster.length = matchCapacity r.matchType := le_antisymm h.roster_le hfull
  have hroster : roster ≠ [] := by
    have hpos := matchCapacity_pos r.matchType
    rintro rfl
    simp at hsize
    omega
  have hlock := h.lockedAt
  have hquorum := calculateQuorum_pos roster.length
  constructor <;> simp_all

/-- A vote below the quorum leaves the match awaiting confirmation. -/
theorem vote (h : WellKept r roster votes) (hawait : r.status = .awaitingConfirmation)
    {userId : UserId} {votes' : List MatchConfirmationEntity}
    (hcast : Cast userId roster votes votes')
    (hbelow : votes'.length < calculateQuorum roster.length) : WellKept r roster votes' := by
  obtain ⟨hvoters, hnodup, _⟩ := h.cast hcast
  exact { h with
    voters := hvoters
    one_vote := hnodup
    no_votes := fun hs => by simp [hawait] at hs
    below_quorum := fun _ => hbelow
    at_quorum := fun hs => by simp [hawait] at hs }

/-- The vote that reaches the quorum confirms the match with exactly that many votes. -/
theorem confirm (h : WellKept r roster votes) (hawait : r.status = .awaitingConfirmation)
    {userId : UserId} {votes' : List MatchConfirmationEntity}
    (hcast : Cast userId roster votes votes')
    (hquorum : calculateQuorum roster.length ≤ votes'.length) (confirmedAt t : Date) :
    WellKept { r with
      status := .confirmed
      confirmedAt := some confirmedAt
      lockedAt := some confirmedAt
      updatedAt := t } roster votes' := by
  obtain ⟨hvoters, hnodup, hlength⟩ := h.cast hcast
  have hbelow := h.below_quorum hawait
  have hfull := h.roster_full (.inl hawait)
  have hscores := h.scores (.inl hawait)
  have hdraft := h.draft
  have hexact : votes'.length = calculateQuorum roster.length := by omega
  constructor <;> simp_all

/-- Cancelling leaves the full roster and no vote. -/
theorem cancel (h : WellKept r roster votes) (hawait : r.status = .awaitingConfirmation)
    (t : Date) : WellKept { r with status := .playing, updatedAt := t } roster [] := by
  have hdraft := h.draft
  have hsize := h.roster_le
  have hnone := h.confirmedAt
  have hlock := h.lockedAt
  constructor <;> simp_all [MatchStatus.Locked]

/-- An override gives a confirmed match two scores. -/
theorem overrideResult (h : WellKept r roster votes) (scoreA scoreB : Score) (t : Date) :
    WellKept { r with scoreA := some scoreA, scoreB := some scoreB, updatedAt := t } roster
      votes :=
  { h with scores := fun _ => ⟨rfl, rfl⟩ }

end WellKept

/-- Every transition keeps a match well kept. -/
theorem Transition.wellKept {action : Action} {v v' : MatchView} (hv : v.WellKept)
    (h : Transition action v v') : v'.WellKept := by
  intro r' hr'
  cases h with
  | create hcreator hstatus hA hB hconfirmedAt hlockedAt =>
      cases hr'
      constructor <;> simp_all [MatchStatus.Locked]
  | update hcreator hopen scoreA scoreB t =>
      cases hr'
      exact (hv _ rfl).update hopen scoreA scoreB t
  | addPlayers hcreator hopen hsize hps hfree hreg t =>
      cases hr'
      exact (hv _ rfl).addPlayers hopen hps hreg hsize t
  | submitResult hcreator hopen hfull scoreA scoreB t =>
      cases hr'
      exact (hv _ rfl).submitResult hopen hfull scoreA scoreB t
  | vote hawait hcast hbelow =>
      cases hr'
      exact (hv _ rfl).vote hawait hcast hbelow
  | confirm hawait hcast hquorum confirmedAt t =>
      cases hr'
      exact (hv _ rfl).confirm hawait hcast hquorum confirmedAt t
  | cancel hcreator hawait t =>
      cases hr'
      exact (hv _ rfl).cancel hawait t
  | overrideResult hconfirmed scoreA scoreB t =>
      cases hr'
      exact (hv _ rfl).overrideResult scoreA scoreB t
  | delete => cases hr'

/-- Every match is well kept after every run of requests. -/
theorem World.run_wellKept (users : Table UserEntity.id) (inputs : List Input)
    (matchId : MatchId) : (((World.withUsers users).run inputs).matchView matchId).WellKept := by
  have hsteps : (World.withUsers users).Steps (fun _ _ => True) inputs :=
    steps_of_forall (fun _ _ => trivial) _ _
  refine World.run_invariant (I := MatchView.WellKept) users hsteps (fun r hr => nomatch hr) ?_
    matchId
  intro w request id action _ _ _ v' htrans hv
  exact htrans.wellKept hv

/-- The state of a stored match after any run of requests that do not overlap: the statuses, the
roster, the votes, the quorum and the timestamps agree. -/
theorem stored_match_invariant (users : Table UserEntity.id) (inputs : List Input)
    (matchId : MatchId) (r : MatchRow)
    (hrow : ((World.withUsers users).run inputs).row matchId = some r) :
    let roster := ((World.withUsers users).run inputs).roster matchId
    let votes := ((World.withUsers users).run inputs).votes matchId
    ((r.status = .draft ∨ r.status = .playing ∨ r.status = .awaitingConfirmation ∨
        r.status = .confirmed) ∧ (r.status = .draft ↔ roster = [])) ∧
    (roster.length ≤ matchCapacity r.matchType ∧
      (r.status = .awaitingConfirmation ∨ r.status = .confirmed →
        roster.length = matchCapacity r.matchType ∧ r.scoreA ≠ none ∧ r.scoreB ≠ none)) ∧
    ((∀ c ∈ votes, c.userId ∈ roster.map (·.userId)) ∧ (votes.map (·.userId)).Nodup ∧
      (r.status = .draft ∨ r.status = .playing → votes = [])) ∧
    ((r.status = .awaitingConfirmation → votes.length < roster.length / 2 + 1) ∧
      (r.status = .confirmed → votes.length = roster.length / 2 + 1)) ∧
    ((r.confirmedAt.isSome ↔ r.status = .confirmed) ∧ r.lockedAt = r.confirmedAt) := by
  have h := World.run_wellKept users inputs matchId r hrow
  refine ⟨⟨h.status, h.draft⟩, ⟨h.roster_le, fun hlocked => ?_⟩,
    ⟨h.voters, h.one_vote, h.no_votes⟩, ⟨h.below_quorum, h.at_quorum⟩, h.confirmedAt, h.lockedAt⟩
  obtain ⟨hA, hB⟩ := h.scores hlocked
  exact ⟨h.roster_full hlocked, Option.isSome_iff_ne_none.mp hA, Option.isSome_iff_ne_none.mp hB⟩

/-- The invariant of the confirmed one-on-one match. -/
theorem stored_match_invariant_duel :
    ∃ r, ((World.withUsers signedIn).run duelConfirmed).row 1 = some r ∧ r.status = .confirmed ∧
      (((World.withUsers signedIn).run duelConfirmed).votes 1).length =
        (((World.withUsers signedIn).run duelConfirmed).roster 1).length / 2 + 1 := by
  have hrow : ((World.withUsers signedIn).run duelConfirmed).row 1 =
      some ⟨1, some 1, .oneVsOne, .confirmed, some 3, some 1, 0, 5, some 5, some 5⟩ := by decide
  have h := stored_match_invariant signedIn duelConfirmed 1 _ hrow
  exact ⟨_, hrow, rfl, h.2.2.2.1.2 rfl⟩

end FoosballApi.Matches
