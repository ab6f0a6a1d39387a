import FoosballApi.Matches.ConfirmationService
import FoosballApi.Matches.StoreLemmas

/-!
# The life of a match

An abstract machine over one match. Its states are the views of a match, its actions are what the
requests can do to it, and each transition states under which condition the action happens and
what it leaves. `Simulation.lean` shows that a request run alone is one transition, or none, of
every match; facts about whole runs are then facts about this machine.

The row's `updatedAt` is not determined: the database stamps it.
-/

namespace FoosballApi.Matches

open World

/-- What can happen to a match, and which user does it. -/
inductive Action where
  | create (userId : UserId)
  | update (userId : UserId)
  | addPlayers (userId : UserId) (ps : List MatchPlayerEntity)
  | submitResult (userId : UserId)
  | vote (userId : UserId)
  | confirm (userId : UserId)
  | cancel (userId : UserId)
  | overrideResult (userId : UserId)
  | delete (userId : UserId)

/-- The votes of a match before and after a player cast one; a second vote changes nothing. -/
inductive Cast (userId : UserId) (roster : List MatchPlayerEntity)
    (votes : List MatchConfirmationEntity) : List MatchConfirmationEntity → Prop where
  | again (voted : userId ∈ votes.map (·.userId)) : Cast userId roster votes votes
  | first {c : MatchConfirmationEntity} (voter : c.userId = userId)
      (player : userId ∈ roster.map (·.userId)) (new : userId ∉ votes.map (·.userId)) :
      Cast userId roster votes (votes ++ [c])

/-- A vote that is stored after a vote was cast is an old one or by the caster, a player. -/
theorem Cast.mem {userId : UserId} {roster : List MatchPlayerEntity}
    {votes votes' : List MatchConfirmationEntity} (hcast : Cast userId roster votes votes')
    {c : MatchConfirmationEntity} (hc : c ∈ votes') :
    c ∈ votes ∨ c.userId ∈ roster.map (·.userId) := by
  cases hcast with
  | again => exact .inl hc
  | first voter player =>
      rcases List.mem_append.mp hc with hold | hnew
      · exact .inl hold
      · rw [List.mem_singleton.mp hnew, voter]
        exact .inr player

/-- Casting a vote adds at most one. -/
theorem Cast.length_le {userId : UserId} {roster : List MatchPlayerEntity}
    {votes votes' : List MatchConfirmationEntity} (hcast : Cast userId roster votes votes') :
    votes'.length ≤ votes.length + 1 := by
  cases hcast with
  | again => omega
  | first => simp

/-- The caster has voted, whoever had voted still has, and nobody else has. -/
theorem Cast.voters {userId : UserId} {roster : List MatchPlayerEntity}
    {votes votes' : List MatchConfirmationEntity} (hcast : Cast userId roster votes votes')
    (voter : UserId) :
    voter ∈ votes'.map (·.userId) ↔ voter ∈ votes.map (·.userId) ∨ voter = userId := by
  cases hcast with
  | again voted =>
      constructor
      · exact .inl
      · rintro (hold | rfl)
        · exact hold
        · exact voted
  | first hvoter => simp [hvoter]

/-- No player of a roster has the slot of one of the players to be added. -/
def SlotsFree (roster ps : List MatchPlayerEntity) : Prop :=
  ∀ p ∈ ps, ∀ q ∈ roster, ¬ (q.team = p.team ∧ q.slot = p.slot)

/-- The transitions of a match. -/
inductive Transition : Action → MatchView → MatchView → Prop where
  | create {userId} {r : MatchRow} (creator : r.createdBy = some userId)
      (status : r.status = .draft) (scoreA : r.scoreA = none) (scoreB : r.scoreB = none)
      (confirmedAt : r.confirmedAt = none) (lockedAt : r.lockedAt = none) :
      Transition (.create userId) .absent ⟨some r, [], []⟩
  | update {userId} {r : MatchRow} {roster votes} (creator : r.createdBy = some userId)
      (editable : ¬ r.status.Locked) (scoreA scoreB : Option Score) (updatedAt : Date) :
      Transition (.update userId) ⟨some r, roster, votes⟩
        ⟨some { r with scoreA := scoreA, scoreB := scoreB, updatedAt := updatedAt }, roster, votes⟩
  | addPlayers {userId} {r : MatchRow} {roster roster' votes ps}
      (creator : r.createdBy = some userId) (editable : ¬ r.status.Locked)
      (size : roster.length + ps.length ≤ matchCapacity r.matchType) (nonempty : ps ≠ [])
      (free : SlotsFree roster ps) (registered : Registered roster ps roster')
      (updatedAt : Date) :
      Transition (.addPlayers userId ps) ⟨some r, roster, votes⟩
        ⟨some { r with
          status := if r.status = .draft then .playing else r.status
          updatedAt := updatedAt }, roster', votes⟩
  | submitResult {userId} {r : MatchRow} {roster votes} (creator : r.createdBy = some userId)
      (editable : ¬ r.status.Locked) (full : matchCapacity r.matchType ≤ roster.length)
      (scoreA scoreB : Score) (updatedAt : Date) :
      Transition (.submitResult userId) ⟨some r, roster, votes⟩
        ⟨some { r with
          scoreA := some scoreA
          scoreB := some scoreB
          status := .awaitingConfirmation
          updatedAt := updatedAt }, roster, votes⟩
  | vote {userId} {r : MatchRow} {roster votes votes'} (awaiting : r.status = .awaitingConfirmation)
      (cast : Cast userId roster votes votes')
      (below : votes'.length < calculateQuorum roster.length) :
      Transition (.vote userId) ⟨some r, roster, votes⟩ ⟨some r, roster, votes'⟩
  | confirm {userId} {r : MatchRow} {roster votes votes'}
      (awaiting : r.status = .awaitingConfirmation) (cast : Cast userId roster votes votes')
      (quorum : calculateQuorum roster.length ≤ votes'.length) (confirmedAt updatedAt : Date) :
      Transition (.confirm userId) ⟨some r, roster, votes⟩
        ⟨some { r with
          status := .confirmed
          confirmedAt := some confirmedAt
          lockedAt := some confirmedAt
          updatedAt := updatedAt }, roster, votes'⟩
  | cancel {userId} {r : MatchRow} {roster votes} (creator : r.createdBy = some userId)
      (awaiting : r.status = .awaitingConfirmation) (updatedAt : Date) :
      Transition (.cancel userId) ⟨some r, roster, votes⟩
        ⟨some { r with status := .playing, updatedAt := updatedAt }, roster, []⟩
  | overrideResult {userId} {r : MatchRow} {roster votes} (confirmed : r.status = .confirmed)
      (scoreA scoreB : Score) (updatedAt : Date) :
      Transition (.overrideResult userId) ⟨some r, roster, votes⟩
        ⟨some { r with
          scoreA := some scoreA
          scoreB := some scoreB
          updatedAt := updatedAt }, roster, votes⟩
  | delete {userId} {v : MatchView} : Transition (.delete userId) v .absent

/-- A transition that leaves no row leaves nothing. -/
theorem Transition.absent {action : Action} {v v' : MatchView} (h : Transition action v v')
    (hrow : v'.row = none) : v' = .absent := by
  cases h <;> first | rfl | cases hrow

/-- Only a deletion removes a stored match. -/
theorem Transition.eq_delete {action : Action} {v v' : MatchView} (h : Transition action v v')
    (hstored : v.row ≠ none) (hrow : v'.row = none) : ∃ userId, action = .delete userId := by
  cases h <;> first | exact ⟨_, rfl⟩ | cases hrow

end FoosballApi.Matches
