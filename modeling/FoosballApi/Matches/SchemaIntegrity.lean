import FoosballApi.Matches.RowHistory

/-!
# The keys of the player and vote tables

`save(match)` on a match that is no longer stored inserts it with the players that were loaded with
it, and `confirm` inserts a vote for a match and a player that it read before. The store does not
check these inserts, so that they break no key is a property of the services: in every interleaving,
what they insert satisfies the foreign keys, the check constraint and the unique slot index of the
migrations. The runs are those of `system`, in which the locked section of a confirmation is one
step.
-/

namespace FoosballApi.Matches

open Calls Data Trace Users World

/-- The rows of `match_players` and `match_confirmations` satisfy the constraints of their tables. -/
structure World.Schema (w : World) : Prop where
  fk_mp_match : ∀ p ∈ w.players, (w.row p.matchId).isSome
  fk_mp_user : ∀ p ∈ w.players, (w.users.get p.userId).isSome
  chk_mp_slot : ∀ p ∈ w.players, 1 ≤ p.slot ∧ p.slot ≤ 4
  idx_mp_match_team_slot : ∀ p ∈ w.players, ∀ q ∈ w.players, sameSlot p q → p = q
  fk_mc_match : ∀ c ∈ w.confirmations, (w.row c.matchId).isSome
  fk_mc_user : ∀ c ∈ w.confirmations, (w.users.get c.userId).isSome

/-- The users of a world are users of another. -/
def UsersStay (w w' : World) : Prop := ∀ id, (w.users.get id).isSome → (w'.users.get id).isSome

/-- The matches of a world are stored in another. -/
def MatchesStay (w w' : World) : Prop := ∀ id, (w.row id).isSome → (w'.row id).isSome

theorem UsersStay.of_eq {w w' : World} (h : w'.users = w.users) : UsersStay w w' :=
  fun _ hid => by rwa [h]

theorem MatchesStay.of_eq {w w' : World} (h : w'.matchRows = w.matchRows) : MatchesStay w w' :=
  fun _ hid => by rwa [World.row, h]

theorem MatchesStay.saveMatch (w : World) (m : MatchEntity) : MatchesStay w (w.saveMatch m) := by
  intro id hid
  by_cases hmatch : id = m.id
  · subst hmatch
    obtain ⟨t, ht⟩ := row_saveMatch_self (w := w) m
    rw [ht]
    rfl
  · rwa [row_saveMatch_of_ne hmatch]

/-! ## Statements -/

namespace World.Schema

variable {w w' : World}

/-- A statement that inserts neither a player nor a vote, and deletes neither a user nor a match. -/
theorem frame (h : w.Schema) (husers : UsersStay w w') (hrows : MatchesStay w w')
    (hplayers : w'.players = w.players) (hvotes : ∀ c ∈ w'.confirmations, c ∈ w.confirmations) :
    w'.Schema where
  fk_mp_match p hp := hrows _ (h.fk_mp_match p (hplayers ▸ hp))
  fk_mp_user p hp := husers _ (h.fk_mp_user p (hplayers ▸ hp))
  chk_mp_slot p hp := h.chk_mp_slot p (hplayers ▸ hp)
  idx_mp_match_team_slot p hp q hq := h.idx_mp_match_team_slot p (hplayers ▸ hp) q (hplayers ▸ hq)
  fk_mc_match c hc := hrows _ (h.fk_mc_match c (hvotes c hc))
  fk_mc_user c hc := husers _ (h.fk_mc_user c (hvotes c hc))

/-- A statement that writes none of the tables. -/
theorem of_same (h : w.Schema) (husers : UsersStay w w') (hrows : w'.matchRows = w.matchRows)
    (hplayers : w'.players = w.players) (hvotes : w'.confirmations = w.confirmations) :
    w'.Schema :=
  h.frame husers (.of_eq hrows) hplayers fun _ hc => hvotes ▸ hc

/-- Players that can be inserted with a match: players of that match, users in different slots. -/
structure Loaded (w : World) (matchId : MatchId) (ps : List MatchPlayerEntity) : Prop where
  own : ∀ p ∈ ps, p.matchId = matchId
  user : ∀ p ∈ ps, (w.users.get p.userId).isSome
  slot : ∀ p ∈ ps, 1 ≤ p.slot ∧ p.slot ≤ 4
  different : SlotsUnique ps

/-- The roster of a match can be inserted with it later. -/
theorem loaded (h : w.Schema) (husers : UsersStay w w') (matchId : MatchId) :
    Loaded w' matchId (w.roster matchId) where
  own _ hp := (mem_roster.mp hp).2
  user p hp := husers _ (h.fk_mp_user p (mem_roster.mp hp).1)
  slot p hp := h.chk_mp_slot p (mem_roster.mp hp).1
  different p hp q hq :=
    h.idx_mp_match_team_slot p (mem_roster.mp hp).1 q (mem_roster.mp hq).1

/-- `save(match)`, also of a match that is not stored. -/
theorem saveMatch (h : w.Schema) {m : MatchEntity}
    (hloaded : w.row m.id = none → Loaded w m.id (m.players.getD [])) : (w.saveMatch m).Schema := by
  have husers : UsersStay w (w.saveMatch m) := .of_eq (users_saveMatch m)
  have hrows := MatchesStay.saveMatch w m
  have hvotes : ∀ c ∈ (w.saveMatch m).confirmations, c ∈ w.confirmations :=
    fun c hc => confirmations_saveMatch m ▸ hc
  cases hrow : w.row m.id with
  | some r => exact h.frame husers hrows (players_saveMatch hrow) hvotes
  | none =>
      have hloaded := hloaded hrow
      -- A player row is an old one, of another match, or one of the loaded.
      have hplayer : ∀ p ∈ (w.saveMatch m).players,
          (p ∈ w.players ∧ p.matchId ≠ m.id) ∨ p ∈ m.players.getD [] := by
        intro p hp
        rw [players_saveMatch_of_none hrow] at hp
        refine (Table.mem_of_mem_putAll hp).imp_left fun hold => ⟨hold, fun hid => ?_⟩
        have hstored := h.fk_mp_match p hold
        rw [hid, hrow] at hstored
        cases hstored
      have hstored : ((w.saveMatch m).row m.id).isSome := by
        rw [row_saveMatch_of_none hrow]
        rfl
      constructor
      · intro p hp
        rcases hplayer p hp with ⟨hold, -⟩ | hnew
        · exact hrows _ (h.fk_mp_match p hold)
        · rwa [hloaded.own p hnew]
      · intro p hp
        rcases hplayer p hp with ⟨hold, -⟩ | hnew
        · exact husers _ (h.fk_mp_user p hold)
        · exact husers _ (hloaded.user p hnew)
      · intro p hp
        rcases hplayer p hp with ⟨hold, -⟩ | hnew
        · exact h.chk_mp_slot p hold
        · exact hloaded.slot p hnew
      · intro p hp q hq hsame
        rcases hplayer p hp with ⟨hold, hne⟩ | hnew <;> rcases hplayer q hq with ⟨hold', hne'⟩ | hnew'
        · exact h.idx_mp_match_team_slot p hold q hold' hsame
        · exact absurd (hsame.1.trans (hloaded.own q hnew')) hne
        · exact absurd (hsame.1.symm.trans (hloaded.own p hnew)) hne'
        · exact hloaded.different p hnew q hnew' hsame
      · exact fun c hc => hrows _ (h.fk_mc_match c (hvotes c hc))
      · exact fun c hc => husers _ (h.fk_mc_user c (hvotes c hc))

/-- `save(players)` checks its rows. -/
theorem savePlayers (h : w.Schema) {ps : List MatchPlayerEntity}
    (hsaved : w.savePlayers ps = some w') : w'.Schema := by
  let P (table : Table MatchPlayerEntity.key) : Prop := ∀ p ∈ table,
    (w.row p.matchId).isSome ∧ (w.users.get p.userId).isSome ∧ (1 ≤ p.slot ∧ p.slot ≤ 4) ∧
      ∀ q ∈ table, sameSlot p q → p = q
  have hwrite : ∀ table, ∀ p ∈ ps, P table → w.playerFits table p → P (table.put p) := by
    intro table p _ htable hfits p' hp'
    obtain ⟨hrow, huser, hmin, hmax, hfree⟩ := hfits
    rcases Table.mem_put.mp hp' with rfl | ⟨hold, hkey⟩
    · refine ⟨hrow, huser, ⟨hmin, hmax⟩, fun q hq hsame => ?_⟩
      rcases Table.mem_put.mp hq with rfl | ⟨hq, hkey⟩
      · rfl
      · exact absurd ⟨hsame.1.symm, hsame.2.1.symm, hsame.2.2.symm⟩ (hfree q hq hkey)
    · obtain ⟨hrow', huser', hslot, hsingle⟩ := htable p' hold
      refine ⟨hrow', huser', hslot, fun q hq hsame => ?_⟩
      rcases Table.mem_put.mp hq with rfl | ⟨hq, -⟩
      · exact absurd hsame (hfree p' hold hkey)
      · exact hsingle q hq hsame
  have hplayers : P w'.players := (savePlayers_eq_some hsaved hwrite).2 fun p hp =>
    ⟨h.fk_mp_match p hp, h.fk_mp_user p hp, h.chk_mp_slot p hp, h.idx_mp_match_team_slot p hp⟩
  rw [savePlayers_frame hsaved]
  exact ⟨fun p hp => (hplayers p hp).1, fun p hp => (hplayers p hp).2.1,
    fun p hp => (hplayers p hp).2.2.1, fun p hp => (hplayers p hp).2.2.2, h.fk_mc_match,
    h.fk_mc_user⟩

/-- A vote of a user on a stored match. -/
theorem votedWorld (h : w.Schema) {matchId : MatchId} {userId : UserId}
    (hrow : (w.row matchId).isSome) (huser : (w.users.get userId).isSome) :
    (w.votedWorld matchId userId).Schema := by
  have hvote : ∀ c ∈ (w.votedWorld matchId userId).confirmations,
      c ∈ w.confirmations ∨ c.matchId = matchId ∧ c.userId = userId := by
    intro c hc
    unfold World.votedWorld voteWrites at hc
    cases hget : w.confirmations.get (matchId, userId) with
    | some vote =>
        rw [hget] at hc
        exact .inl hc
    | none =>
        rw [hget] at hc
        rcases Table.mem_put.mp hc with rfl | ⟨hc, -⟩
        · exact .inr ⟨rfl, rfl⟩
        · exact .inl hc
  have hframe := votedWorld_eq w matchId userId
  constructor
  · rw [hframe]
    exact h.fk_mp_match
  · rw [hframe]
    exact h.fk_mp_user
  · rw [hframe]
    exact h.chk_mp_slot
  · rw [hframe]
    exact h.idx_mp_match_team_slot
  · intro c hc
    rw [row_votedWorld]
    rcases hvote c hc with hold | ⟨rfl, -⟩
    · exact h.fk_mc_match c hold
    · exact hrow
  · intro c hc
    rw [hframe]
    rcases hvote c hc with hold | ⟨-, rfl⟩
    · exact h.fk_mc_user c hold
    · exact huser

/-- Deleting a match cascades to its players and votes. -/
theorem deleteMatch (h : w.Schema) (matchId : MatchId) : (w.deleteMatch matchId).Schema := by
  have hrow : ∀ id, id ≠ matchId → (w.row id).isSome →
      ((w.deleteMatch matchId).row id).isSome := by
    intro id hid hstored
    have hsame : (w.deleteMatch matchId).row id = w.row id :=
      congrArg MatchView.row (matchView_deleteMatch_of_ne hid)
    rwa [hsame]
  have hplayer : ∀ p ∈ (w.deleteMatch matchId).players, p ∈ w.players ∧ p.matchId ≠ matchId :=
    fun p hp => by simpa [World.deleteMatch] using hp
  have hvote : ∀ c ∈ (w.deleteMatch matchId).confirmations,
      c ∈ w.confirmations ∧ c.matchId ≠ matchId :=
    fun c hc => by simpa [World.deleteMatch] using hc
  exact ⟨fun p hp => hrow _ (hplayer p hp).2 (h.fk_mp_match p (hplayer p hp).1),
    fun p hp => h.fk_mp_user p (hplayer p hp).1, fun p hp => h.chk_mp_slot p (hplayer p hp).1,
    fun p hp q hq => h.idx_mp_match_team_slot p (hplayer p hp).1 q (hplayer q hq).1,
    fun c hc => hrow _ (hvote c hc).2 (h.fk_mc_match c (hvote c hc).1),
    fun c hc => h.fk_mc_user c (hvote c hc).1⟩

end World.Schema

/-! ## Calls -/

variable {θ : Type} {h : History θ} {event : CallEvent θ}

/-- All states so far satisfy the constraints, and their users are still stored. -/
def SchemaSoFar (h : History θ) : Prop :=
  ∀ h₀, Past h₀ h → h₀.world.Schema ∧ UsersStay h₀.world h.world

/-- A call of a request keeps the constraints, when all states before it satisfied them and their
users are still stored. -/
theorem Request.Does.schema {request : Request} (hdoes : request.Does h event)
    (hpast : SchemaSoFar h) (husers : UsersStay h.world event.world) : event.world.Schema := by
  have hnow := (hpast h (.refl h)).1
  -- A voter was in the roster that was read.
  have hvoter : ∀ {tid matchId r players}, request.Votes tid h matchId r players →
      (h.world.votedWorld matchId request.user.sub).Schema := by
    intro tid matchId r players hvotes
    obtain ⟨h₁, h₂, rfl, hread, hlocked, -⟩ := hvotes.reads
    obtain ⟨p, hp, huser⟩ := List.mem_map.mp hvotes.player
    obtain ⟨hschema, hkept⟩ := hpast h₁ (((past_snoc _ _).trans hread).trans
      ((past_snoc _ _).trans hlocked))
    refine hnow.votedWorld (by rw [hvotes.row]; rfl) (hkept _ ?_)
    rw [← huser]
    exact hschema.fk_mp_user p (mem_roster.mp hp).1
  cases hdoes with
  | silent same => exact hnow.of_same husers same.matchRows same.players same.confirmations
  | @create tid dto route r new =>
      refine hnow.frame husers (fun id hid => ?_) rfl fun c hc => hc
      show ((h.world.matchRows.put r).get id).isSome
      rw [Table.get_put]
      split
      · rfl
      · exact hid
  | @save tid id h₀ r r' past read saves m written =>
      refine hnow.saveMatch fun _ => ?_
      obtain ⟨hschema, hkept⟩ := hpast h₀ past
      have hid : m.id = id := by rw [written, saves.id, id_of_row read]
      have hplayers : m.players.getD [] = h₀.world.roster id := by rw [written]; rfl
      rw [hid, hplayers]
      exact hschema.loaded hkept id
  | savePlayers route past counted read creator editable room written accepted =>
      exact hnow.savePlayers accepted
  | deleteVotes =>
      refine hnow.frame husers (.of_eq rfl) rfl fun c hc => ?_
      exact (Table.mem_keep.mp hc).1
  | vote votes below => exact hvoter votes
  | @confirm tid id r players votes quorum h₃ counted confirmedAt =>
      refine (hvoter votes).saveMatch fun habsent => ?_
      have hid : r.id = id := id_of_row votes.row
      have hrow : (h.world.votedWorld id request.user.sub).row r.id = some r := by
        rw [row_votedWorld, hid]
        exact votes.row
      exact absurd (hrow.symm.trans habsent) (Option.some_ne_none r)
  | announce => exact hnow.of_same husers rfl rfl rfl
  | @overrideResult tid id dto route h₀ h₁ r reading read confirmed job payload announced m written
      entry data =>
      obtain ⟨hschema, hkept⟩ := hpast h₀ (((past_snoc _ _).trans reading.snoc).trans announced)
      have hid : m.id = id := by
        rw [written]
        exact (id_of_row read : r.id = id)
      have hplayers : m.players.getD [] = h₀.world.roster id := by rw [written]; rfl
      have hsaved : (h.world.saveMatch m).Schema := hnow.saveMatch fun _ => by
        rw [hid, hplayers]
        exact hschema.loaded hkept id
      exact hsaved.of_same (.of_eq rfl) rfl rfl rfl
  | recordDelete => exact hnow.of_same husers rfl rfl rfl
  | @delete tid id => exact hnow.deleteMatch id

/-- In every interleaving of any requests, with locked sections as one step and any failing calls,
from a store that satisfies them, every state satisfies the constraints of the player and vote
tables: each row belongs to a stored match and a stored user, slots are between 1 and 4, and no two
players of a match take one slot of a team; also after a save has inserted a deleted match again. -/
theorem schema_kept [DecidableEq θ] {inputs : θ → Input} {w : World}
    {allow : θ → History θ → Call → Bool → Prop} {c : Running θ} (hw : w.Schema)
    (hreach : Reach system allow (w.begin inputs) c) {h₀ : History θ} (hpast : Past h₀ c.trace) :
    h₀.world.Schema := by
  have hsteps : c.trace.Steps fun h e =>
      (inputs e.tid).Does h e ∧ UsersStay h.world e.world := fun later e earlier he =>
    ⟨steps_does hreach later e earlier he, (steps_grow hreach later e earlier he).users⟩
  have hinv : SchemaSoFar c.trace := by
    refine hsteps.induction ?_ ?_
    · intro h₁ hpast₁
      obtain rfl := hpast₁.of_nil
      rw [world_nil, hreach.init]
      exact ⟨hw, .of_eq rfl⟩
    · intro h e _ _ ih ⟨hdoes, husers⟩ h₁ hpast₁
      rcases hpast₁.of_snoc with rfl | hpast₁
      · refine ⟨?_, .of_eq rfl⟩
        cases hinput : inputs e.tid with
        | request request =>
            rw [hinput] at hdoes
            exact Request.Does.schema hdoes ih husers
        | signIn | tick =>
            rw [hinput] at hdoes
            exact (ih h (.refl h)).1.of_same husers (Silent.matchRows hdoes)
              (Silent.players hdoes) (Silent.confirmations hdoes)
      · exact ⟨(ih h₁ hpast₁).1, fun id hid => husers id ((ih h₁ hpast₁).2 id hid)⟩
  exact (hinv h₀ hpast).1

/-- A store with users only satisfies the constraints. -/
theorem World.schema_withUsers (users : Table UserEntity.id) : (World.withUsers users).Schema :=
  ⟨nofun, nofun, nofun, nofun, nofun, nofun⟩

/-- `mario` creates and fills a match and updates it, while `admin` deletes it. -/
def fillAndDelete : Fin 4 → Input
  | 0 => .request ⟨mario, .createMatch ⟨some .oneVsOne⟩⟩
  | 1 => .request ⟨mario, .addPlayers 1 bothTeams⟩
  | 2 => .request ⟨mario, .updateMatch 1 ⟨some (some 3), none⟩⟩
  | 3 => .request ⟨admin, .deleteMatch 1⟩

/-- The players that the update inserts again with the deleted match satisfy the constraints. -/
theorem schema_kept_resurrected :
    ∃ c : Running (Fin 4), (c.trace.before 1).world.row 1 = none ∧
      (c.trace.world.roster 1).length = 2 ∧ c.trace.world.Schema := by
  obtain ⟨c, hreach, hback⟩ := Reach.exists_of_execute system (fun _ _ _ _ => True)
    ((World.withUsers signedIn).begin fillAndDelete)
    ([(0, false)] ++ .replicate 5 (1, false) ++ [(2, false), (3, false), (3, false), (2, false)])
    (fun c => (c.trace.before 1).world.row 1 = none ∧ (c.trace.world.roster 1).length = 2)
    (by decide)
  obtain ⟨hdeleted, hplayers⟩ := of_decide_eq_true hback
  exact ⟨c, hdeleted, hplayers, schema_kept (World.schema_withUsers signedIn) hreach (.refl _)⟩

end FoosballApi.Matches
