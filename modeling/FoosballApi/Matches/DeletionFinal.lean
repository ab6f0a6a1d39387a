import FoosballApi.Matches.MatchSteps

/-!
# A deleted match stays deleted

The writers read a match, check it and save the entity they hold in memory; `save` inserts an entity
whose row is gone. When every save, and every commit of an override, still finds its match stored,
a match that was deleted leaves no row, player or vote in any later state of any interleaving; a
save after the deletion brings the match back.
-/

namespace FoosballApi.Matches

open Calls Trace World

variable {θ : Type}

/-- The match that a request overrides. -/
def Input.overridden : Input → Option MatchId
  | .request ⟨_, .adminOverrideResult matchId _⟩ => some matchId
  | _ => none

/-- A save finds its match stored, and so does the commit of an override. -/
def FindsStored (input : Input) (w : World) (op : Call) : Prop :=
  (∀ m ∈ op.savedMatch, w.row m.id ≠ none) ∧
    (op.commits = true → ∀ matchId ∈ input.overridden, w.row matchId ≠ none)

instance (input : Input) (w : World) (op : Call) : Decidable (FindsStored input w op) :=
  inferInstanceAs (Decidable (_ ∧ _))

variable {inputs : θ → Input} {h : History θ} {event : CallEvent θ} {matchId : MatchId}

/-- A match without a row, player or vote keeps having none. -/
theorem Guarded.absent
    (hguarded : Guarded inputs (fun tid h op => FindsStored (inputs tid) h.world op) h event)
    (habsent : h.world.matchView matchId = .absent) : event.world.matchView matchId = .absent := by
  obtain ⟨hdoes, hcreate, hstored⟩ := hguarded
  have hrow : h.world.row matchId = none := congrArg MatchView.row habsent
  rcases hstored with hstored | hworld
  swap
  · rw [hworld, habsent]
  rcases hdoes.touches matchId with hview | ⟨⟨user, route⟩, hinput, htouches⟩
  · rw [hview, habsent]
  generalize hv : event.world.matchView matchId = v at htouches
  cases htouches with
  | same => exact habsent
  | @create dto hroute =>
      cases hroute
      exact absurd hinput (hcreate user dto)
  | save op id =>
      rw [op] at hstored
      exact absurd (id ▸ hrow) (hstored.1 _ rfl)
  | savePlayers hroute op nonempty own registered stored => exact absurd hrow stored
  | deleteVotes =>
      have hroster : h.world.roster matchId = [] := congrArg MatchView.roster habsent
      rw [hrow, hroster]
      rfl
  | vote voting => cases hrow.symm.trans voting.row
  | confirm voting => cases hrow.symm.trans voting.row
  | @overrideResult dto roster hroute h₀ r past read confirmed players updatedAt op =>
      cases hroute
      rw [op, hinput] at hstored
      exact absurd hrow (hstored.2 rfl matchId rfl)
  | delete => rfl

/-- A call after which a match is no longer stored leaves no player and no vote of it. -/
theorem Guarded.absent_of_deleted {condition : θ → History θ → Call → Prop}
    (hguarded : Guarded inputs condition h event) (hstored : h.world.row matchId ≠ none)
    (hdeleted : event.world.row matchId = none) : event.world.matchView matchId = .absent := by
  rcases hguarded.does.touches matchId with hview | ⟨⟨user, route⟩, hinput, htouches⟩
  · exact absurd ((congrArg MatchView.row hview).symm.trans hdeleted) hstored
  generalize hv : event.world.matchView matchId = v at htouches
  have hrow : v.row = none := hv ▸ hdeleted
  cases htouches with
  | same | savePlayers | deleteVotes | vote => exact absurd hrow hstored
  | @create dto hroute =>
      cases hroute
      exact absurd hinput (hguarded.noCreate user dto)
  | save | confirm | overrideResult => cases hrow
  | delete => rfl

/-- In every interleaving in which each save, and each commit of an override, finds its match
stored, a match that was deleted once leaves no row, player or vote in any later state. -/
theorem deletion_is_final [DecidableEq θ] {inputs : θ → Input} {w : World} {c : Running θ}
    (hcreate : ∀ i user dto, inputs i ≠ .request ⟨user, .createMatch dto⟩)
    (hreach : Reach system
      (fun tid h op fails => fails = false → FindsStored (inputs tid) h.world op)
      (w.begin inputs) c)
    {h₀ h₁ : History θ} {matchId : MatchId} (hpast₀ : Past h₀ h₁) (hpast₁ : Past h₁ c.trace)
    (hstored : h₀.world.row matchId ≠ none) (hdeleted : h₁.world.row matchId = none) :
    c.trace.world.row matchId = none ∧ c.trace.world.roster matchId = [] ∧
      c.trace.world.votes matchId = [] := by
  have hsteps := steps_guarded hcreate hreach
  obtain ⟨h₂, deletion, -, hpast₂, hbefore, hafter⟩ :=
    hpast₀.exists_step (P := fun w => w.row matchId = none) hstored hdeleted
  have hpast := hpast₂.trans hpast₁
  have habsent : deletion.world.matchView matchId = .absent :=
    (hsteps.of_past hpast).absent_of_deleted hbefore hafter
  have hview := hsteps.since (I := fun h => h.world.matchView matchId = .absent) hpast habsent
    fun _ _ habsent hguarded => hguarded.absent habsent
  exact ⟨congrArg MatchView.row hview, congrArg MatchView.roster hview,
    congrArg MatchView.votes hview⟩

/-! ## Runs -/

/-- `mario` changes the scores of a match that `admin` deletes. -/
def updateAndDelete : Fin 2 → Input
  | 0 => .request ⟨mario, .updateMatch 1 ⟨some (some 3), none⟩⟩
  | 1 => .request ⟨admin, .deleteMatch 1⟩

/-- A one-on-one in play. -/
def duelPlaying : World := (World.withUsers signedIn).run (duel.take 2)

/-- The match stays deleted when `mario` has saved it before. -/
theorem deletion_is_final_duel :
    ∃ c : Running (Fin 2), c.trace.world.row 1 = none ∧ c.trace.world.roster 1 = [] ∧
      c.trace.world.votes 1 = [] := by
  obtain ⟨c, hreach, hdeleted⟩ := Reach.exists_of_execute system
    (fun tid h op fails => fails = false → FindsStored (updateAndDelete tid) h.world op)
    (duelPlaying.begin updateAndDelete)
    (.replicate 2 (0, false) ++ .replicate 2 (1, false) ++ [(0, false)])
    (fun c => (c.trace.before 1).world.row 1 = none) (by decide)
  exact ⟨c, deletion_is_final (fun i => match i with | 0 | 1 => nofun) hreach
    (past_init (c.trace.before 1)) (past_before c.trace 1)
    (by rw [world_nil, before, hreach.init]; decide) (of_decide_eq_true hdeleted)⟩

/-- `mario` reads the match, `admin` deletes it, and `mario` saves it again. -/
theorem not_deletion_is_final_update :
    ¬ ∀ (inputs : Fin 2 → Input) (w : World) (c : Running (Fin 2)),
      (∀ i user dto, inputs i ≠ .request ⟨user, .createMatch dto⟩) →
      Reach system (fun _ _ _ fails => fails = false) (w.begin inputs) c →
      ∀ (h₀ h₁ : History (Fin 2)) matchId, Past h₀ h₁ → Past h₁ c.trace →
        h₀.world.row matchId ≠ none → h₁.world.row matchId = none →
          c.trace.world.row matchId = none ∧ c.trace.world.roster matchId = [] ∧
            c.trace.world.votes matchId = [] := by
  intro h
  obtain ⟨c, hreach, hback⟩ := Reach.exists_of_execute system (fun _ _ _ fails => fails = false)
    (duelPlaying.begin updateAndDelete)
    (.replicate 1 (0, false) ++ .replicate 2 (1, false) ++ [(0, false)])
    (fun c => (c.trace.before 1).world.row 1 = none ∧ c.trace.world.row 1 ≠ none) (by decide)
  obtain ⟨hdeleted, hstored⟩ := of_decide_eq_true hback
  obtain ⟨hgone, -⟩ := h updateAndDelete _ c (fun i => match i with | 0 | 1 => nofun) hreach
    _ _ 1 (past_init (c.trace.before 1)) (past_before c.trace 1)
    (by rw [world_nil, before, hreach.init]; decide) hdeleted
  exact hstored hgone

end FoosballApi.Matches
