import FoosballApi.Matches.MatchSteps

/-!
# Votes are for the result they confirm

A step that changes the scores of a match, or takes it into confirmation, starts the confirmation
anew. When no save of a match finds votes stored for it, every vote that a confirming commit counts
was inserted after the last such step, in every interleaving; `cancel`, which deletes the votes in
one call and saves the match in the next, can find a vote between the two.
-/

namespace FoosballApi.Matches

open Calls Trace World

variable {θ : Type}

/-- The scores of a stored match. -/
def World.scores (w : World) (matchId : MatchId) : Option (Option Score × Option Score) :=
  (w.row matchId).map fun r => (r.scoreA, r.scoreB)

/-- A step changes the scores of a match or takes it into confirmation. -/
def Restarts (matchId : MatchId) (w w' : World) : Prop :=
  w'.scores matchId ≠ w.scores matchId ∨
    w'.status matchId = some .awaitingConfirmation ∧
      w.status matchId ≠ some .awaitingConfirmation

/-- When a call confirms a match, the votes stored then are the votes its caller counted, and each
was inserted after every step that restarted the confirmation. -/
def CountsFreshVotes (h : History θ) (event : CallEvent θ) : Prop :=
  ∀ matchId, Confirms matchId h.world event.world →
    (∃ h₃ : History θ, Past (h₃.snoc ⟨event.tid, .findTransactionConfirmations matchId,
      .ok (event.world.votes matchId), h₃.world⟩) h) ∧
    ∀ vote ∈ event.world.votes matchId, ∀ (h₀ : History θ) (restart : CallEvent θ),
      Past (h₀.snoc restart) h → Restarts matchId h₀.world restart.world →
      ∃ (h₁ : History θ) (insertion : CallEvent θ), Past (h₀.snoc restart) h₁ ∧
        Past (h₁.snoc insertion) (h.snoc event) ∧
        vote ∉ h₁.world.votes matchId ∧ vote ∈ insertion.world.votes matchId

/-- A save does not find votes stored for its match. -/
def FindsNoVotes (w : World) : Call → Prop
  | .save m => w.votes m.id = []
  | _ => True

instance (w : World) (op : Call) : Decidable (FindsNoVotes w op) :=
  decidable_of_iff (∀ m ∈ op.savedMatch, w.votes m.id = []) <| by
    cases op <;> simp [Call.savedMatch, FindsNoVotes]

variable {inputs : θ → Input} {h : History θ} {event : CallEvent θ} {matchId : MatchId}

/-- What is known of every call: it is neither part of a create nor of an override, and a save finds
no votes. -/
structure Orderly (inputs : θ → Input) (h : History θ) (event : CallEvent θ) : Prop where
  does : (inputs event.tid).Does h event
  noCreate : ∀ user dto, inputs event.tid ≠ .request ⟨user, .createMatch dto⟩
  noOverride : ∀ user matchId dto,
    inputs event.tid ≠ .request ⟨user, .adminOverrideResult matchId dto⟩
  unvoted : FindsNoVotes h.world event.op ∨ event.world = h.world

/-- A step that keeps the scores and does not leave the match awaiting confirmation, or keeps its
row, restarts nothing. -/
theorem not_restarts {w w' : World} (hrow : w'.row matchId = w.row matchId) :
    ¬ Restarts matchId w w' := by
  unfold Restarts World.scores World.status
  rw [hrow]
  simp

/-- A step that restarts the confirmation leaves no votes. -/
theorem Orderly.votes_of_restarts (horderly : Orderly inputs h event)
    (hrestarts : Restarts matchId h.world event.world) : event.world.votes matchId = [] := by
  obtain ⟨hdoes, hcreate, hoverride, hunvoted⟩ := horderly
  rcases hunvoted with hunvoted | hworld
  swap
  · exact absurd hrestarts (not_restarts (by rw [hworld]))
  rcases hdoes.touches matchId with hview | ⟨⟨user, route⟩, hinput, htouches⟩
  · exact absurd hrestarts (not_restarts (congrArg MatchView.row hview))
  generalize hv : event.world.matchView matchId = v at htouches
  have hrow : event.world.row matchId = v.row := congrArg MatchView.row hv
  have hvotes : event.world.votes matchId = v.votes := congrArg MatchView.votes hv
  cases htouches with
  | same | savePlayers | vote => exact absurd hrestarts (not_restarts hrow)
  | deleteVotes | delete => exact hvotes
  | @create dto hroute =>
      cases hroute
      exact absurd hinput (hcreate user dto)
  | @save h₀ r r' m roster op id =>
      rw [op] at hunvoted
      rw [hvotes]
      exact id ▸ hunvoted
  | confirm voting =>
      refine absurd hrestarts ?_
      unfold Restarts World.scores World.status
      rw [hrow, voting.row]
      simp [MatchRow.confirmedAtTime]
  | @overrideResult dto roster hroute =>
      cases hroute
      exact absurd hinput (hoverride user matchId dto)

/-- In every interleaving in which each save finds no votes stored for its match, the votes that
confirm a result were all cast for it. -/
theorem counted_votes_fresh [DecidableEq θ] {inputs : θ → Input} {w : World} {c : Running θ}
    (hcreate : ∀ i user dto, inputs i ≠ .request ⟨user, .createMatch dto⟩)
    (hoverride : ∀ i user matchId dto,
      inputs i ≠ .request ⟨user, .adminOverrideResult matchId dto⟩)
    (hreach : Reach system (fun _ h op fails => fails = false → FindsNoVotes h.world op)
      (w.begin inputs) c) :
    c.trace.Steps CountsFreshVotes := by
  have hguarded : c.trace.Steps (Guarded inputs fun _ h op => FindsNoVotes h.world op) :=
    steps_guarded hcreate hreach
  have horderly : c.trace.Steps (Orderly inputs) := hguarded.mono fun _ event hevent =>
    ⟨hevent.does, hevent.noCreate, hoverride event.tid, hevent.allowed⟩
  intro later event earlier he matchId hconfirms
  have hevent := horderly later event earlier he
  obtain ⟨_, _, _, h₃, _, _, hcounted, _⟩ :=
    hevent.does.of_confirms hevent.noCreate hevent.noOverride hconfirms
  refine ⟨⟨h₃, hcounted⟩, fun vote hvote h₀ restart hpast hrestarts => ?_⟩
  -- No vote was left by the restart, so this one was inserted after it.
  have hempty := ((horderly.past (past_of_events he)).of_past hpast).votes_of_restarts hrestarts
  refine Past.exists_step (P := fun w => vote ∈ w.votes matchId) hpast.snoc ?_ hvote
  rw [world_snoc, hempty]
  exact List.not_mem_nil

/-! ## Runs -/

/-- `mario` cancels and submits another result; `rival` and `mario` confirm. -/
def cancelAndResubmit : Fin 4 → Input
  | 0 => .request ⟨mario, .cancelConfirmation 1⟩
  | 1 => .request ⟨rival, .confirmResult 1⟩
  | 2 => .request ⟨mario, .submitResult 1 ⟨0, 5⟩⟩
  | 3 => .request ⟨mario, .confirmResult 1⟩

/-- `rival` reads the match and `mario` cancels it; the new result is submitted and both vote. -/
def freshVotesSchedule : List (Fin 4 × Bool) :=
  .replicate 1 (1, false) ++ .replicate 5 (0, false) ++ .replicate 5 (2, false) ++
    .replicate 9 (1, false) ++ .replicate 13 (3, false)

/-- The votes of the run above are for the result they confirm. -/
theorem counted_votes_fresh_duel :
    ∃ c : Running (Fin 4), c.trace.world.row 1 =
        some ⟨1, some 1, .oneVsOne, .confirmed, some 0, some 5, 0, 0, some 0, some 0⟩ ∧
      c.trace.Steps CountsFreshVotes := by
  obtain ⟨c, hreach, hrow⟩ := Reach.exists_of_execute system
    (fun _ h op fails => fails = false → FindsNoVotes h.world op)
    (((World.withUsers signedIn).run duel).begin cancelAndResubmit) freshVotesSchedule
    (fun c => c.trace.world.row 1 =
      some ⟨1, some 1, .oneVsOne, .confirmed, some 0, some 5, 0, 0, some 0, some 0⟩) (by decide)
  refine ⟨c, of_decide_eq_true hrow, counted_votes_fresh ?_ ?_ hreach⟩
  · exact fun i => match i with | 0 | 1 | 2 | 3 => nofun
  · exact fun i => match i with | 0 | 1 | 2 | 3 => nofun

/-- `rival` votes between the two writes of `cancel`, then the new result is submitted and `mario`
votes. -/
def strayVoteSchedule : List (Fin 4 × Bool) :=
  .replicate 2 (0, false) ++ .replicate 10 (1, false) ++ .replicate 1 (0, false) ++
    .replicate 3 (2, false) ++ .replicate 11 (3, false)

/-- The vote of `rival`. -/
def strayVote : MatchConfirmationEntity := ⟨1, 2, 0⟩

/-- The last call of a run confirms match 1, the twelfth call before took it into confirmation, and
`strayVote` was stored all the time between. -/
def CountsStrayVote (c : Running (Fin 4)) : Bool :=
  match c.trace.events.take 11, c.trace.events.drop 11 with
  | last :: previous :: newer, restart :: before :: _ =>
      last.world.status 1 = some .confirmed ∧ previous.world.status 1 ≠ some .confirmed ∧
      restart.world.status 1 = some .awaitingConfirmation ∧
      before.world.status 1 ≠ some .awaitingConfirmation ∧
      strayVote ∈ restart.world.votes 1 ∧ ∀ e ∈ last :: previous :: newer, strayVote ∈ e.world.votes 1
  | _, _ => false

/-- A vote for the cancelled result counts towards the new one. -/
theorem not_counted_votes_fresh_cancel :
    ¬ ∀ (inputs : Fin 4 → Input) (w : World) (c : Running (Fin 4)),
      (∀ i user dto, inputs i ≠ .request ⟨user, .createMatch dto⟩) →
      (∀ i user matchId dto, inputs i ≠ .request ⟨user, .adminOverrideResult matchId dto⟩) →
      Reach system (fun _ _ _ fails => fails = false) (w.begin inputs) c →
      c.trace.Steps CountsFreshVotes := by
  intro h
  obtain ⟨c, hreach, hstray⟩ := Reach.exists_of_execute system (fun _ _ _ fails => fails = false)
    (((World.withUsers signedIn).run duel).begin cancelAndResubmit) strayVoteSchedule
    CountsStrayVote (by decide)
  have hsteps := h cancelAndResubmit _ c (fun i => match i with | 0 | 1 | 2 | 3 => nofun)
    (fun i => match i with | 0 | 1 | 2 | 3 => nofun) hreach
  unfold CountsStrayVote at hstray
  split at hstray
  · next last previous newer restart before rest htake hdrop =>
      obtain ⟨hconfirmed, hprevious, hrestart, hbefore, hvote, hall⟩ := of_decide_eq_true hstray
      have hevents : c.trace.events = last :: previous :: newer ++ restart :: before :: rest := by
        rw [← htake, ← hdrop, List.take_append_drop]
      obtain ⟨_, hfresh⟩ := hsteps [] last _ hevents 1 ⟨hconfirmed, hprevious⟩
      obtain ⟨h₁, insertion, hpast₁, hpast₂, hnot, _⟩ := hfresh strayVote
        (hall last List.mem_cons_self) ⟨c.trace.init, before :: rest⟩ restart
        ⟨rfl, previous :: newer, rfl⟩ (.inr ⟨hrestart, hbefore⟩)
      exact hnot (Past.between (P := fun w => strayVote ∈ w.votes 1) rfl hall hvote hpast₁
        ((past_snoc _ _).trans hpast₂))
  · cases hstray

end FoosballApi.Matches
