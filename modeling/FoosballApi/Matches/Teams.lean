import Mathlib.Order.Interval.Finset.Nat
import FoosballApi.Matches.Invariant

/-!
# The teams of a match

A submitted match has a full roster, but the checks of `addPlayers` bound the slots of a team by
four, not by the size of the team. The two teams are full and equal in every run whose accepted
`addPlayers` requests name slots of the match's own team size only; with a slot beyond it both
places of a one-on-one can go to one team.
-/

namespace FoosballApi.Matches

open Data World Users

/-- The players of a roster in one team. -/
def teamOf (roster : List MatchPlayerEntity) (team : Team) : List MatchPlayerEntity :=
  roster.filter (·.team = team)

/-- Every player is in one of the two teams. -/
theorem length_teamOf (roster : List MatchPlayerEntity) :
    (teamOf roster .A).length + (teamOf roster .B).length = roster.length := by
  have hsplit := List.length_eq_length_filter_add (l := roster) (·.team = .A)
  rw [hsplit, teamOf, teamOf]
  congr 2
  refine List.filter_congr fun p _ => ?_
  cases p.team <;> rfl

/-- Each team of a roster has `size` players, in the slots `1..size`. -/
def TwoFullTeams (size : Nat) (roster : List MatchPlayerEntity) : Prop :=
  ∀ team, (teamOf roster team).length = size ∧
    ∀ slot, (∃ p ∈ teamOf roster team, p.slot = slot) ↔ 1 ≤ slot ∧ slot ≤ size

/-- The slots of a roster are slots of teams of the given size, each taken once. -/
structure SlotsFit (size : Nat) (roster : List MatchPlayerEntity) : Prop where
  range : ∀ p ∈ roster, 1 ≤ p.slot ∧ p.slot ≤ size
  unique : SlotsUnique roster

namespace SlotsFit

variable {size : Nat} {roster : List MatchPlayerEntity}

/-- The players of one team are in different slots. -/
theorem nodup_slots (h : SlotsFit size roster) (hnodup : roster.Nodup) {matchId : MatchId}
    (hid : ∀ p ∈ roster, p.matchId = matchId) (team : Team) :
    ((teamOf roster team).map (·.slot)).Nodup := by
  refine (List.nodup_map_iff_inj_on (hnodup.filter _)).mpr fun p hp q hq hslot => ?_
  obtain ⟨hp, hteam⟩ := List.mem_filter.mp hp
  obtain ⟨hq, hteam'⟩ := List.mem_filter.mp hq
  refine h.unique p hp q hq ⟨(hid p hp).trans (hid q hq).symm, ?_, hslot⟩
  simp_all

/-- The slots of a team lie in its range. -/
theorem slots_subset (h : SlotsFit size roster) (team : Team) :
    ((teamOf roster team).map (·.slot)).toFinset ⊆ Finset.Icc 1 size := by
  intro slot hslot
  simp only [List.mem_toFinset, List.mem_map] at hslot
  obtain ⟨p, hp, rfl⟩ := hslot
  exact Finset.mem_Icc.mpr (h.range p (List.mem_of_mem_filter hp))

/-- A team has at most as many players as it has slots. -/
theorem length_le (h : SlotsFit size roster) {team : Team}
    (hslots : ((teamOf roster team).map (·.slot)).Nodup) : (teamOf roster team).length ≤ size := by
  have hcard := Finset.card_le_card (h.slots_subset team)
  rw [List.toFinset_card_of_nodup hslots, List.length_map, Nat.card_Icc] at hcard
  omega

/-- A team with as many players as slots occupies all of them. -/
theorem occupies (h : SlotsFit size roster) {team : Team}
    (hslots : ((teamOf roster team).map (·.slot)).Nodup)
    (hlength : (teamOf roster team).length = size) (slot : Nat) :
    (∃ p ∈ teamOf roster team, p.slot = slot) ↔ 1 ≤ slot ∧ slot ≤ size := by
  have heq : ((teamOf roster team).map (·.slot)).toFinset = Finset.Icc 1 size := by
    refine Finset.eq_of_subset_of_card_le (h.slots_subset team) ?_
    rw [List.toFinset_card_of_nodup hslots, List.length_map, Nat.card_Icc]
    omega
  rw [← Finset.mem_Icc, ← heq, List.mem_toFinset, List.mem_map]

/-- A roster of twice the team size whose slots fit consists of two full teams. -/
theorem twoFullTeams (h : SlotsFit size roster) (hnodup : roster.Nodup) {matchId : MatchId}
    (hid : ∀ p ∈ roster, p.matchId = matchId) (hlength : roster.length = 2 * size) :
    TwoFullTeams size roster := by
  have hA := h.length_le (h.nodup_slots hnodup hid .A)
  have hB := h.length_le (h.nodup_slots hnodup hid .B)
  have hboth := length_teamOf roster
  have hfull : ∀ team, (teamOf roster team).length = size := by
    intro team
    cases team <;> omega
  exact fun team => ⟨hfull team, h.occupies (h.nodup_slots hnodup hid team) (hfull team)⟩

/-- Players with fitting slots, registered into a roster that fits, fit. -/
theorem registered (h : SlotsFit size roster) {ps roster' : List MatchPlayerEntity}
    (hreg : Registered roster ps roster') (hps : ∀ p ∈ ps, 1 ≤ p.slot ∧ p.slot ≤ size) :
    SlotsFit size roster' where
  range := fun p hp => (hreg.of_mem p hp).elim (h.range p) (hps p)
  unique := hreg.slots h.unique

end SlotsFit

/-! ## Runs -/

/-- The slots of every player of an accepted `addPlayers` request are slots of the match's own team
size. -/
def NamesTeamSlots (w : World) : Input → Prop
  | .request ⟨user, .addPlayers matchId dto⟩ =>
      ∀ r, w.row matchId = some r → r.createdBy = some user.sub → ¬ r.status.Locked →
        (w.roster matchId).length + dto.players.length ≤ matchCapacity r.matchType →
        (∀ p ∈ dto.players, slotTaken (w.roster matchId) p = false) →
          ∀ p ∈ dto.players, p.slot ≤ matchCapacity r.matchType / 2
  | _ => True

/-- The slots of a stored match fit its team size. -/
def MatchView.SlotsFit (v : MatchView) : Prop :=
  ∀ r, v.row = some r → Matches.SlotsFit (matchCapacity r.matchType / 2) v.roster

/-- A transition keeps the slots fitting when the players it adds have fitting slots. -/
theorem Transition.slotsFit {action : Action} {v v' : MatchView} (h : Transition action v v')
    (hps : ∀ r userId ps, v.row = some r → action = .addPlayers userId ps →
      r.createdBy = some userId → ¬ r.status.Locked →
      v.roster.length + ps.length ≤ matchCapacity r.matchType → SlotsFree v.roster ps →
        ∀ p ∈ ps, 1 ≤ p.slot ∧ p.slot ≤ matchCapacity r.matchType / 2)
    (hv : v.SlotsFit) : v'.SlotsFit := by
  intro r' hr'
  cases h with
  | create =>
      exact ⟨by simp, by simp [SlotsUnique]⟩
  | addPlayers hcreator hopen hsize hne hfree hreg t =>
      cases hr'
      exact (hv _ rfl).registered hreg (hps _ _ _ rfl rfl hcreator hopen hsize hfree)
  | delete => cases hr'
  | update | submitResult | vote | confirm | cancel | overrideResult =>
      have hfit := hv _ rfl
      cases hr'
      exact hfit

/-- In a run whose accepted players all have slots of their match's team size, the slots of every
match fit. -/
theorem World.run_slotsFit (users : Table UserEntity.id) {inputs : List Input}
    (hsteps : (World.withUsers users).Steps NamesTeamSlots inputs) (matchId : MatchId) :
    (((World.withUsers users).run inputs).matchView matchId).SlotsFit := by
  refine World.run_invariant (I := MatchView.SlotsFit) users hsteps (fun r hr => nomatch hr) ?_
    matchId
  intro w ⟨user, route⟩ id action hok _ hdo v' htrans hv
  refine htrans.slotsFit (fun r userId ps hrow haction hcreator hopen hsize hfree => ?_) hv
  subst haction
  obtain ⟨rfl, dto, rfl, rfl⟩ := Request.mayDo_addPlayers hdo
  have htaken : ∀ p ∈ dto.players, slotTaken (w.roster id) p = false := by
    intro p hp
    refine List.any_eq_false.mpr fun q hq => ?_
    have hclash := hfree _ (List.mem_map_of_mem hp) q hq
    simpa using hclash
  have hlimit := hok r hrow hcreator hopen (by simpa using hsize) htaken
  intro q hq
  obtain ⟨p, hp, rfl⟩ := List.mem_map.mp hq
  exact ⟨p.slot_min, hlimit p hp⟩

/-- In a run whose accepted players all have slots of their match's team size, every match in
confirmation or confirmed has two full teams, each in the slots of its size. -/
theorem two_full_teams (users : Table UserEntity.id) (inputs : List Input)
    (hsteps : (World.withUsers users).Steps NamesTeamSlots inputs) (matchId : MatchId)
    (r : MatchRow) (hrow : ((World.withUsers users).run inputs).row matchId = some r)
    (hstatus : r.status = .awaitingConfirmation ∨ r.status = .confirmed) :
    TwoFullTeams (matchCapacity r.matchType / 2)
      (((World.withUsers users).run inputs).roster matchId) := by
  have hfit := World.run_slotsFit users hsteps matchId r hrow
  have hfull := (World.run_wellKept users inputs matchId r hrow).roster_full hstatus
  refine hfit.twoFullTeams (List.Nodup.of_map _ (roster_users_nodup _ _))
    (fun p hp => (mem_roster.mp hp).2) (hfull.trans ?_)
  cases r.matchType <;> rfl

/-- Every team has a first slot. -/
theorem teamSize_pos (matchType : MatchType) : 1 ≤ matchCapacity matchType / 2 := by
  cases matchType <;> decide

/-- The confirmed one-on-one match has one player on each side. -/
theorem two_full_teams_duel :
    TwoFullTeams 1 (((World.withUsers signedIn).run duelConfirmed).roster 1) := by
  have hrow : ((World.withUsers signedIn).run duelConfirmed).row 1 =
      some ⟨1, some 1, .oneVsOne, .confirmed, some 3, some 1, 0, 5, some 5, some 5⟩ := by decide
  refine two_full_teams signedIn duelConfirmed ⟨trivial, fun r _ _ _ _ _ p hp => ?_, trivial,
    trivial, trivial, trivial, trivial⟩ 1 _ hrow (.inr rfl)
  have hslot : p.slot = 1 := by
    rcases List.mem_pair.mp hp with rfl | rfl <;> rfl
  rw [hslot]
  exact teamSize_pos r.matchType

/-- Both players of a one-on-one in team A, in the slots 1 and 2. -/
def sameTeam : AddPlayersDto :=
  ⟨[playerDto 1 .A 0 Nat.one_pos, playerDto 2 .A 1 Nat.two_pos], by decide, by decide⟩

/-- A one-on-one with one team, submitted. -/
def lopsided : List Input :=
  [ .request ⟨mario, .createMatch ⟨some .oneVsOne⟩⟩
  , .request ⟨mario, .addPlayers 1 sameTeam⟩
  , .request ⟨mario, .submitResult 1 ⟨3, 1⟩⟩ ]

/-- A match can go to confirmation with both players of a one-on-one in team A. -/
theorem not_two_full_teams_lopsided :
    ¬ ∀ (users : Table UserEntity.id) (inputs : List Input) (matchId : MatchId) (r : MatchRow),
      ((World.withUsers users).run inputs).row matchId = some r →
      r.status = .awaitingConfirmation ∨ r.status = .confirmed →
        TwoFullTeams (matchCapacity r.matchType / 2)
          (((World.withUsers users).run inputs).roster matchId) := by
  intro h
  have hrow : ((World.withUsers signedIn).run lopsided).row 1 =
      some ⟨1, some 1, .oneVsOne, .awaitingConfirmation, some 3, some 1, 0, 0, none, none⟩ := by
    decide
  have hteam := (h signedIn lopsided 1 _ hrow (.inl rfl) .B).1
  have hempty : teamOf (((World.withUsers signedIn).run lopsided).roster 1) .B = [] := by decide
  rw [hempty] at hteam
  cases hteam

end FoosballApi.Matches
