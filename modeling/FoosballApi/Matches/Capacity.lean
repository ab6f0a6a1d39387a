import FoosballApi.Matches.MatchSteps

/-!
# Concurrent registration and the capacity of a match

`addPlayers` counts the players of a match, compares the sum with the capacity and saves later. When
each save finds no more players stored than its caller counted, a match never has more players than
its type admits, in every interleaving; a save of another call between the count and the save can
exceed it, up to the four slots of each team that the table's keys leave.
-/

namespace FoosballApi.Matches

open Calls Trace World

variable {θ : Type} [DecidableEq θ]

/-- A `savePlayers` finds at most as many players stored as its caller has counted. -/
def FindsCounted (tid : θ) (h : History θ) (op : Call) : Prop :=
  ∀ p ∈ op.savedPlayers, ∀ e ∈ h.events, ∀ players ∈ playersRead tid p.matchId e,
    (h.world.roster p.matchId).length ≤ players.length

instance (tid : θ) (h : History θ) (op : Call) : Decidable (FindsCounted tid h op) :=
  inferInstanceAs (Decidable (∀ _ ∈ _, ∀ _ ∈ _, ∀ _ ∈ _, _))

/-- A match keeps its type, and has at most as many players as the type admits. -/
structure Fits (matchId : MatchId) (matchType : MatchType) (h : History θ) : Prop where
  stored : h.world.row matchId ≠ none
  type : ∀ h₁, Past h₁ h → ∀ r, h₁.world.row matchId = some r → r.matchType = matchType
  capacity : (h.world.roster matchId).length ≤ matchCapacity matchType

variable {inputs : θ → Input} {h : History θ} {event : CallEvent θ} {matchId : MatchId}

omit [DecidableEq θ] in
/-- A request saves a match under the type it has read. -/
theorem Request.Saves.matchType {request : Request} {r r' : MatchRow}
    (hsaves : request.Saves matchId r r') : r'.matchType = r.matchType := by
  cases hsaves <;> rfl

/-- The players a caller has counted are among the calls of the trace. -/
theorem mem_playersRead {tid : θ} {h₁ : History θ}
    (hcounted : Past (h₁.snoc ⟨tid, .findPlayers matchId, .ok (h₁.world.roster matchId), h₁.world⟩)
      h) :
    ∃ e ∈ h.events, h₁.world.roster matchId ∈ playersRead tid matchId e := by
  refine ⟨_, hcounted.2.mem List.mem_cons_self, ?_⟩
  simp [playersRead]

/-- A call of `addPlayers` on a match keeps the match within its capacity. -/
theorem Fits.snoc {matchType : MatchType} (hfits : Fits matchId matchType h)
    (hinput : ∃ user dto, inputs event.tid = .request ⟨user, .addPlayers matchId dto⟩)
    (hguarded : Guarded inputs FindsCounted h event) :
    Fits matchId matchType (h.snoc event) := by
  obtain ⟨user, dto, hinput⟩ := hinput
  -- It is enough to know the row and the roster after the call.
  have hkeeps : ∀ r, event.world.row matchId = some r → r.matchType = matchType →
      (event.world.roster matchId).length ≤ matchCapacity matchType →
        Fits matchId matchType (h.snoc event) := by
    intro r hrow htype hcapacity
    refine ⟨by rw [world_snoc, hrow]; exact Option.some_ne_none r, fun h₁ hpast => ?_, hcapacity⟩
    rcases hpast.of_snoc with rfl | hpast
    · intro r' hrow'
      rwa [Option.some.inj (hrow'.symm.trans hrow)]
    · exact hfits.type h₁ hpast
  obtain ⟨r, hrow⟩ := Option.ne_none_iff_exists'.mp hfits.stored
  have htype := hfits.type h (.refl h) r hrow
  have hsame : event.world.matchView matchId = h.world.matchView matchId →
      Fits matchId matchType (h.snoc event) := fun hview =>
    hkeeps r ((congrArg MatchView.row hview).trans hrow) htype
      ((congrArg (·.roster.length) hview).trans_le hfits.capacity)
  obtain ⟨hdoes, -, hallowed⟩ := hguarded
  rcases hallowed with hallowed | hworld
  swap
  · exact hsame (by rw [hworld])
  rcases hdoes.touches matchId with hview | ⟨request, hrequest, htouches⟩
  · exact hsame hview
  obtain rfl : request = ⟨user, .addPlayers matchId dto⟩ := by
    rw [hinput] at hrequest
    exact (Input.request.inj hrequest).symm
  generalize hv : event.world.matchView matchId = v at htouches
  have hrow' : event.world.row matchId = v.row := congrArg MatchView.row hv
  have hroster : event.world.roster matchId = v.roster := congrArg MatchView.roster hv
  cases htouches with
  | same => exact hsame hv
  | create hroute | overrideResult hroute | deleteVotes hroute => cases hroute
  | vote voting | confirm voting => cases voting.route
  | delete hroute => rcases hroute with hroute | hroute <;> cases hroute
  | save op id past read saves players =>
      refine hkeeps _ hrow' ?_ ?_
      · exact saves.matchType.trans (hfits.type _ past _ read)
      · rw [hroster, players.stored hfits.stored]
        exact hfits.capacity
  | @savePlayers dto ps roster hroute op nonempty own registered stored h₀ h₁ r₀ past counted read
      room =>
      refine hkeeps r (hrow'.trans hrow) htype ?_
      obtain ⟨p, hp⟩ := List.exists_mem_of_ne_nil ps nonempty
      obtain ⟨e, he, hread⟩ := mem_playersRead counted
      have hfound : (h.world.roster matchId).length ≤ (h₁.world.roster matchId).length := by
        rw [op] at hallowed
        have hcount := hallowed p hp e he
        rw [own p hp] at hcount
        exact hcount _ hread
      have htype₀ : r₀.matchType = matchType :=
        hfits.type h₀ (past.trans ((past_snoc _ _).trans counted)) r₀ read
      rw [htype₀] at room
      have hsize := registered.length_le
      rw [hroster]
      show roster.length ≤ _
      omega

/-- In every interleaving of `addPlayers` calls on a match in which each save finds at most as many
players as its caller has counted, the match stays within its capacity. -/
theorem capacity_under_concurrency {inputs : θ → Input} {w : World} {c : Running θ}
    {matchId : MatchId} {r : MatchRow} (hrow : w.row matchId = some r)
    (hcapacity : (w.roster matchId).length ≤ matchCapacity r.matchType)
    (hinputs : ∀ i, ∃ user dto, inputs i = .request ⟨user, .addPlayers matchId dto⟩)
    (hreach : Reach system (fun tid h op fails => fails = false → FindsCounted tid h op)
      (w.begin inputs) c) :
    ∃ r', c.trace.world.row matchId = some r' ∧
      (c.trace.world.roster matchId).length ≤ matchCapacity r'.matchType := by
  have hcreate : ∀ i user dto, inputs i ≠ .request ⟨user, .createMatch dto⟩ := by
    intro i user dto hcreate
    obtain ⟨_, _, hinput⟩ := hinputs i
    cases hinput.symm.trans hcreate
  have hinit : Fits matchId r.matchType (⟨w, []⟩ : History θ) := by
    refine ⟨by rw [world_nil, hrow]; exact Option.some_ne_none r, fun h₁ hpast r' hrow' => ?_,
      hcapacity⟩
    rw [hpast.of_nil, world_nil, hrow] at hrow'
    rw [Option.some.inj hrow']
  have hfits := (steps_guarded hcreate hreach).since (past_begin hreach) hinit
    fun h e hfits hguarded => hfits.snoc (hinputs e.tid) hguarded
  obtain ⟨r', hrow'⟩ := Option.ne_none_iff_exists'.mp hfits.stored
  exact ⟨r', hrow', hfits.type _ (.refl _) r' hrow' ▸ hfits.capacity⟩

/-! ## Runs -/

/-- A one-on-one without players. -/
def duelCreated : World := (World.withUsers signedIn).run (duel.take 1)

theorem row_duelCreated :
    duelCreated.row 1 = some ((World.withUsers signedIn).newMatch 1 .oneVsOne .draft) := by
  decide

/-- Register one user. -/
def onePlayer (p : PlayerDto) : AddPlayersDto := ⟨[p], le_rfl, Nat.succ_le_succ (Nat.zero_le 7)⟩

/-- `mario` sends two registrations for match 1. -/
def registers (first second : AddPlayersDto) : Fin 2 → Input
  | 0 => .request ⟨mario, .addPlayers 1 first⟩
  | 1 => .request ⟨mario, .addPlayers 1 second⟩

theorem registers_eq (first second : AddPlayersDto) (i : Fin 2) :
    ∃ user dto, registers first second i = .request ⟨user, .addPlayers 1 dto⟩ :=
  match i with
  | 0 => ⟨mario, first, rfl⟩
  | 1 => ⟨mario, second, rfl⟩

/-- The second call reads the match first and counts the player of the first call. -/
theorem capacity_under_concurrency_duel :
    ∃ c : Running (Fin 2), (c.trace.world.roster 1).length = 2 ∧
      ∃ r, c.trace.world.row 1 = some r ∧
        (c.trace.world.roster 1).length ≤ matchCapacity r.matchType := by
  obtain ⟨c, hreach, hlength⟩ := Reach.exists_of_execute system
    (fun tid h op fails => fails = false → FindsCounted tid h op)
    (duelCreated.begin (registers (onePlayer (playerDto 1 .A 0 Nat.one_pos))
      (onePlayer (playerDto 2 .B 0 Nat.two_pos))))
    (.replicate 1 (1, false) ++ .replicate 5 (0, false) ++ .replicate 4 (1, false))
    (fun c => (c.trace.world.roster 1).length = 2) (by decide)
  refine ⟨c, of_decide_eq_true hlength, ?_⟩
  exact capacity_under_concurrency row_duelCreated (by decide) (registers_eq _ _) hreach

/-- Both calls count the players before either saves: a one-on-one gets three. -/
theorem not_capacity_under_concurrency_duel :
    ¬ ∀ (inputs : Fin 2 → Input) (w : World) (c : Running (Fin 2)) (matchId : MatchId)
        (r : MatchRow), w.row matchId = some r →
      (w.roster matchId).length ≤ matchCapacity r.matchType →
      (∀ i, ∃ user dto, inputs i = .request ⟨user, .addPlayers matchId dto⟩) →
      Reach system (fun _ _ _ fails => fails = false) (w.begin inputs) c →
        ∃ r', c.trace.world.row matchId = some r' ∧
          (c.trace.world.roster matchId).length ≤ matchCapacity r'.matchType := by
  intro h
  obtain ⟨c, hreach, hlength⟩ := Reach.exists_of_execute system (fun _ _ _ fails => fails = false)
    (duelCreated.begin (registers bothTeams (onePlayer (playerDto 3 .A 1 (Nat.succ_pos 2)))))
    (.replicate 2 (0, false) ++ .replicate 2 (1, false) ++ [(0, false), (1, false)])
    (fun c => (c.trace.world.roster 1).length = 3 ∧
      (c.trace.world.row 1).map (·.matchType) = some .oneVsOne) (by decide)
  obtain ⟨hthree, htype⟩ := of_decide_eq_true hlength
  obtain ⟨r, hrow, hcapacity⟩ := h _ _ c 1 _ row_duelCreated (by decide)
    (registers_eq _ _) hreach
  rw [hrow] at htype
  have htype : r.matchType = .oneVsOne := Option.some.inj htype
  rw [hthree, htype] at hcapacity
  exact absurd hcapacity (by decide)

end FoosballApi.Matches
