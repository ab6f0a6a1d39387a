import FoosballApi.Matches.MatchSteps

/-!
# A confirmed result is final

`update`, `addPlayers`, `submitResult` and `cancel` check the status on an unlocked read and write
later. When each of their writes still finds the match unconfirmed, a confirmed match keeps its
status, its stamps, its roster and its votes in every interleaving, and only an override changes
its scores; a write that finds the match confirmed breaks this.

The invariant is about the whole past: whenever a match was stored as confirmed, it is confirmed
with the same stamps wherever it is stored later (`Sealed`). An override that read the match long
ago then writes back the stamps that are stored.
-/

namespace FoosballApi.Matches

open Calls Trace World

variable {θ : Type}

/-- What must not change about a confirmed match's row. -/
def MatchRow.stamp (r : MatchRow) : MatchStatus × Option Date × Option Date :=
  (r.status, r.confirmedAt, r.lockedAt)

/-- A call keeps every confirmed match, unless it deletes it; only an override may change its
scores. -/
def KeepsResults (inputs : θ → Input) (h : History θ) (event : CallEvent θ) : Prop :=
  ∀ matchId r, h.world.row matchId = some r → r.status = .confirmed →
    (event.op = .delete matchId ∧ event.world.row matchId = none) ∨
    ∃ r', event.world.matchView matchId =
        ⟨some r', h.world.roster matchId, h.world.votes matchId⟩ ∧
      r'.stamp = r.stamp ∧
      ((r'.scoreA = r.scoreA ∧ r'.scoreB = r.scoreB) ∨
        ∃ user dto, inputs event.tid = .request ⟨user, .adminOverrideResult matchId dto⟩)

/-- A write of `update`, `addPlayers`, `submitResult` or `cancel` does not find its match confirmed,
nor, when it saves the match, deleted. -/
def FindsOpen (w : World) : Call → Prop
  | .save m => ∃ r ∈ w.row m.id, r.status ≠ .confirmed
  | .savePlayers ps => ∀ p ∈ ps, ∀ r ∈ w.row p.matchId, r.status ≠ .confirmed
  | .deleteAllConfirmations matchId => ∀ r ∈ w.row matchId, r.status ≠ .confirmed
  | _ => True

instance (w : World) (op : Call) : Decidable (FindsOpen w op) := by
  cases op
  case save m => exact inferInstanceAs (Decidable (∃ r ∈ w.row m.id, r.status ≠ .confirmed))
  case savePlayers ps =>
    exact inferInstanceAs (Decidable (∀ p ∈ ps, ∀ r ∈ w.row p.matchId, r.status ≠ .confirmed))
  case deleteAllConfirmations matchId =>
    exact inferInstanceAs (Decidable (∀ r ∈ w.row matchId, r.status ≠ .confirmed))
  all_goals exact isTrue trivial

/-- Wherever a match that was confirmed is stored later, it has the same stamp. -/
def Sealed (h : History θ) : Prop :=
  ∀ h₁ h₂, Past h₁ h₂ → Past h₂ h → ∀ matchId r₁ r₂, h₁.world.row matchId = some r₁ →
    r₁.status = .confirmed → h₂.world.row matchId = some r₂ → r₂.stamp = r₁.stamp

/-- The condition under which confirmed results are final: a call that goes through is not a
create, and its writes find their match open. -/
structure Cautious (inputs : θ → Input) (h : History θ) (event : CallEvent θ) : Prop where
  does : (inputs event.tid).Does h event
  noCreate : ∀ user dto, inputs event.tid ≠ .request ⟨user, .createMatch dto⟩
  opened : FindsOpen h.world event.op ∨ event.world = h.world

variable {inputs : θ → Input} {h : History θ} {event : CallEvent θ} {matchId : MatchId}

/-- Rows with the stamp of a confirmed row are confirmed. -/
theorem status_of_stamp {r r' : MatchRow} (hstamp : r'.stamp = r.stamp)
    (hconfirmed : r.status = .confirmed) : r'.status = .confirmed :=
  (congrArg Prod.fst hstamp).trans hconfirmed

/-- The view of a stored match, with its row written out. -/
theorem matchView_some {w : World} {r : MatchRow} (hrow : w.row matchId = some r) :
    w.matchView matchId = ⟨some r, w.roster matchId, w.votes matchId⟩ := by
  rw [World.matchView, hrow]

/-- What a cautious call does to a match, as far as a confirmed result goes. -/
inductive OnResult (inputs : θ → Input) (h : History θ) (event : CallEvent θ) (matchId : MatchId) :
    Prop
  | keep (row : event.world.row matchId = h.world.row matchId)
      (view : ∀ r, h.world.row matchId = some r → r.status = .confirmed →
        event.world.matchView matchId = h.world.matchView matchId)
  | opened {r : MatchRow} (row : h.world.row matchId = some r) (status : r.status ≠ .confirmed)
  | delete (op : event.op = .delete matchId) (row : event.world.row matchId = none)
  | overrideResult {user dto} (input : inputs event.tid =
        .request ⟨user, .adminOverrideResult matchId dto⟩)
      {h₀ : History θ} {r r' : MatchRow} {roster} (past : Past h₀ h)
      (read : h₀.world.row matchId = some r) (confirmed : r.status = .confirmed)
      (players : KeepsPlayers (h.world.matchView matchId) roster)
      (view : event.world.matchView matchId = ⟨some r', roster, h.world.votes matchId⟩)
      (stamp : r'.stamp = r.stamp)

/-- A call that leaves the view of a match. -/
theorem OnResult.of_eq (hview : event.world.matchView matchId = h.world.matchView matchId) :
    OnResult inputs h event matchId :=
  .keep (congrArg MatchView.row hview) fun _ _ _ => hview

/-- A call that leaves the row of a match which is not confirmed. -/
theorem OnResult.of_row (hrow : event.world.row matchId = h.world.row matchId)
    (hopen : ∀ r ∈ h.world.row matchId, r.status ≠ .confirmed) :
    OnResult inputs h event matchId :=
  .keep hrow fun r hr hconfirmed => absurd hconfirmed (hopen r hr)

/-- Every cautious call is one of these. -/
theorem Cautious.onResult (hcautious : Cautious inputs h event) (matchId : MatchId) :
    OnResult inputs h event matchId := by
  obtain ⟨hdoes, hcreate, hopen⟩ := hcautious
  rcases hopen with hopen | hworld
  swap
  · exact .of_eq (by rw [hworld])
  rcases hdoes.touches matchId with hview | ⟨⟨user, route⟩, hinput, htouches⟩
  · exact .of_eq hview
  · generalize hv : event.world.matchView matchId = v at htouches
    have hrow : event.world.row matchId = v.row := congrArg MatchView.row hv
    cases htouches with
    | same => exact .of_eq hv
    | @create dto hroute =>
        cases hroute
        exact absurd hinput (hcreate user dto)
    | save op id =>
        rw [op] at hopen
        obtain ⟨old, hold, hstatus⟩ := hopen
        exact .opened (id ▸ hold) hstatus
    | savePlayers hroute op nonempty own =>
        rw [op] at hopen
        obtain ⟨p, hp⟩ := List.exists_mem_of_ne_nil _ nonempty
        exact .of_row hrow fun r hr => hopen p hp r (own p hp ▸ hr)
    | deleteVotes hroute op =>
        rw [op] at hopen
        exact .of_row hrow hopen
    | vote voting => exact .opened voting.row (by rw [voting.awaiting]; decide)
    | confirm voting => exact .opened voting.row (by rw [voting.awaiting]; decide)
    | @overrideResult dto roster hroute h₀ r past read confirmed players updatedAt =>
        cases hroute
        exact .overrideResult hinput past read confirmed players hv rfl
    | delete hroute op => exact .delete op hrow

/-- A match that was confirmed has the same stamp after one more call. -/
theorem Sealed.stamp (hsealed : Sealed h) (hcautious : Cautious inputs h event) {h₁ : History θ}
    (hpast : Past h₁ h) {r₁ r₂ : MatchRow} (hrow₁ : h₁.world.row matchId = some r₁)
    (hconfirmed : r₁.status = .confirmed) (hrow₂ : event.world.row matchId = some r₂) :
    r₂.stamp = r₁.stamp := by
  have hstored : ∀ r, h.world.row matchId = some r → r.stamp = r₁.stamp := fun r hrow =>
    hsealed h₁ h hpast (.refl h) matchId r₁ r hrow₁ hconfirmed hrow
  cases hcautious.onResult matchId with
  | keep row => exact hstored r₂ (row ▸ hrow₂)
  | opened row status => exact absurd (status_of_stamp (hstored _ row) hconfirmed) status
  | delete op row => cases row.symm.trans hrow₂
  | @overrideResult user dto input h₀ r r' roster past read confirmed players view stamp =>
      have hrow' : event.world.row matchId = some r' := congrArg MatchView.row view
      obtain rfl := Option.some.inj (hrow'.symm.trans hrow₂)
      rw [stamp]
      -- The override wrote what it read; that read was before or after the confirmation.
      rcases past.total hpast with hle | hle
      · exact (hsealed h₀ h₁ hle hpast matchId r r₁ read confirmed hrow₁).symm
      · exact hsealed h₁ h₀ hle past matchId r₁ r hrow₁ hconfirmed read

/-- One more call keeps the stamps of the confirmed matches. -/
theorem Sealed.snoc (hsealed : Sealed h) (hcautious : Cautious inputs h event) :
    Sealed (h.snoc event) := by
  intro h₁ h₂ hle hpast matchId r₁ r₂ hrow₁ hconfirmed hrow₂
  rcases hpast.of_snoc with rfl | hpast
  · rcases hle.of_snoc with rfl | hle
    · obtain rfl := Option.some.inj (hrow₁.symm.trans hrow₂)
      rfl
    · exact hsealed.stamp hcautious hle hrow₁ hconfirmed hrow₂
  · exact hsealed h₁ h₂ hle hpast matchId r₁ r₂ hrow₁ hconfirmed hrow₂

/-- A call of a run with sealed results keeps every confirmed result. -/
theorem Sealed.keepsResults (hsealed : Sealed h) (hcautious : Cautious inputs h event) :
    KeepsResults inputs h event := by
  intro matchId r hrow hconfirmed
  cases hcautious.onResult matchId with
  | keep row view =>
      have hview := (view r hrow hconfirmed).trans (matchView_some hrow)
      exact .inr ⟨r, hview, rfl, .inl ⟨rfl, rfl⟩⟩
  | opened row status =>
      obtain rfl := Option.some.inj (hrow.symm.trans row)
      exact absurd hconfirmed status
  | delete op row => exact .inl ⟨op, row⟩
  | @overrideResult user dto input h₀ r₀ r' roster past read confirmed players view stamp =>
      have hroster : roster = h.world.roster matchId :=
        players.stored (by rw [row_matchView, hrow]; exact Option.some_ne_none r)
      have hrow' : event.world.row matchId = some r' := congrArg MatchView.row view
      refine .inr ⟨r', hroster ▸ view, ?_, .inr ⟨user, dto, input⟩⟩
      exact hsealed.stamp hcautious (.refl h) hrow hconfirmed hrow'

/-- Before the first call results are sealed. -/
theorem sealed_nil (w : World) : Sealed (θ := θ) ⟨w, []⟩ := by
  intro h₁ h₂ hle hpast matchId r₁ r₂ hrow₁ _ hrow₂
  obtain rfl := hpast.of_nil
  obtain rfl := hle.of_nil
  rw [Option.some.inj (hrow₁.symm.trans hrow₂)]

/-- In every interleaving in which the writes of `update`, `addPlayers`, `submitResult` and
`cancel` find their match open, a confirmed result is final. -/
theorem confirmed_result_final [DecidableEq θ] {inputs : θ → Input} {w : World}
    {c : Running θ} (hcreate : ∀ i user dto, inputs i ≠ .request ⟨user, .createMatch dto⟩)
    (hreach : Reach system (fun _ h op fails => fails = false → FindsOpen h.world op)
      (w.begin inputs) c) :
    c.trace.Steps (KeepsResults inputs) := by
  have hguarded : c.trace.Steps (Guarded inputs fun _ h op => FindsOpen h.world op) :=
    steps_guarded hcreate hreach
  have hcautious : c.trace.Steps (Cautious inputs) := hguarded.mono fun _ _ hevent =>
    ⟨hevent.does, hevent.noCreate, hevent.allowed⟩
  exact hcautious.strengthen (sealed_nil _) (fun _ _ _ _ hsealed hevent => hsealed.snoc hevent)
    fun _ _ _ hsealed hevent => hsealed.keepsResults hevent

/-! ## Runs -/

/-- `mario` and `rival` confirm at the same time, and `admin` overrides the result. -/
def bothConfirm : Fin 3 → Input
  | 0 => .request ⟨mario, .confirmResult 1⟩
  | 1 => .request ⟨rival, .confirmResult 1⟩
  | 2 => .request ⟨admin, .adminOverrideResult 1 ⟨2, 2, none, by simp⟩⟩

/-- `mario` passes the checks of `confirm`, `rival` votes, `mario` votes and confirms, and the
override follows. -/
def bothConfirmSchedule : List (Fin 3 × Bool) :=
  .replicate 3 (0, false) ++ .replicate 10 (1, false) ++ .replicate 13 (0, false) ++
    .replicate 12 (2, false)

/-- The result of the run above is kept all the time. -/
theorem confirmed_result_final_duel :
    ∃ c : Running (Fin 3), c.trace.world.row 1 =
        some ⟨1, some 1, .oneVsOne, .confirmed, some 2, some 2, 0, 0, some 0, some 0⟩ ∧
      c.trace.Steps (KeepsResults bothConfirm) := by
  obtain ⟨c, hreach, hrow⟩ := Reach.exists_of_execute system
    (fun _ h op fails => fails = false → FindsOpen h.world op)
    (((World.withUsers signedIn).run duel).begin bothConfirm) bothConfirmSchedule
    (fun c => c.trace.world.row 1 =
      some ⟨1, some 1, .oneVsOne, .confirmed, some 2, some 2, 0, 0, some 0, some 0⟩) (by decide)
  refine ⟨c, of_decide_eq_true hrow, confirmed_result_final (fun i => ?_) hreach⟩
  match i with
  | 0 | 1 | 2 => nofun

/-- `mario` cancels while `rival` confirms. -/
def cancelAndConfirm : Fin 2 → Input
  | 0 => .request ⟨mario, .cancelConfirmation 1⟩
  | 1 => .request ⟨rival, .confirmResult 1⟩

/-- The last call of a run removed the votes of match 1, which was confirmed before it. -/
def VotesLost (c : Running (Fin 2)) : Bool :=
  match c.trace.events with
  | last :: before :: _ => last.op ≠ .delete 1 ∧ (∃ r ∈ before.world.row 1, r.status = .confirmed) ∧
      before.world.votes 1 ≠ [] ∧ last.world.votes 1 = []
  | _ => false

/-- `mario` passes the checks of `cancel`, `rival` confirms the match, and `mario` deletes the
votes. -/
theorem not_confirmed_result_final_cancel :
    ¬ ∀ (inputs : Fin 2 → Input) (w : World) (c : Running (Fin 2)),
      (∀ i user dto, inputs i ≠ .request ⟨user, .createMatch dto⟩) →
      Reach system (fun _ _ _ fails => fails = false) (w.begin inputs) c →
      c.trace.Steps (KeepsResults inputs) := by
  intro h
  obtain ⟨c, hreach, hlost⟩ := Reach.exists_of_execute system (fun _ _ _ fails => fails = false)
    (((World.withUsers signedIn).run
      (duel ++ [.request ⟨mario, .confirmResult 1⟩])).begin cancelAndConfirm)
    ((0, false) :: .replicate 12 (1, false) ++ [(0, false)]) VotesLost (by decide)
  have hsteps := h cancelAndConfirm _ c (fun i => match i with | 0 | 1 => nofun) hreach
  unfold VotesLost at hlost
  split at hlost
  · next last before rest hevents =>
      obtain ⟨hop, ⟨r, hrow, hconfirmed⟩, hvotes, hnone⟩ := of_decide_eq_true hlost
      rcases hsteps [] last (before :: rest) hevents 1 r hrow hconfirmed with ⟨hdelete, _⟩ | hkept
      · exact hop hdelete
      · obtain ⟨r', hview, _⟩ := hkept
        have hsame : last.world.votes 1 = before.world.votes 1 := congrArg MatchView.votes hview
        exact hvotes (hsame.symm.trans hnone)
  · cases hlost

end FoosballApi.Matches
