import Mathlib.Data.List.Induction
import FoosballApi.Leaderboard.LeaderboardService

/-!
# Reading the leaderboard through the cache

Calls of the leaderboard one after another against a database and a clock that stay as they are,
while any of the Redis commands may fail. A call is described by `World.serve`: the first call of a
scope and filter that reads and writes Redis fills their key, and its limit decides what every later
hit answers (`serve_filled`), whatever limit that one asks for.
-/

namespace FoosballApi.Leaderboard

open Calls Events Matches LeaderboardService Text

variable [TimeZone]

/-- A call of `getUserLeaderboard` or `getPairLeaderboard`, and which Redis commands fail in it. -/
structure LeaderboardCall where
  scope : Scope
  filter : TimeFilter
  limit : Nat
  limit_min : 1 ≤ limit
  limit_max : limit ≤ 100
  getFails : Bool
  setFails : Bool

namespace LeaderboardCall

/-- The method that is called. -/
def program (c : LeaderboardCall) : Api LeaderboardResult :=
  match c.scope with
  | .users => getUserLeaderboard c.filter c.limit
  | .pairs => getPairLeaderboard c.filter c.limit

/-- The oracle that fails the Redis commands of a call. -/
def faults (c : LeaderboardCall) (_ : List Call) : Call → Bool
  | .redisGet _ => c.getFails
  | .redisSet .. => c.setFails
  | _ => false

/-- What a call leaves behind. -/
def outcome (c : LeaderboardCall) (w : World) :
    Outcome Call Failure Session World LeaderboardResult :=
  c.program.eval system c.faults [] {} w

/-- The ranked list built from the repository query for the call's own arguments. -/
def direct (c : LeaderboardCall) (w : World) : Except Failure LeaderboardData :=
  ((ranked c.scope c.filter c.limit).eval system Prog.noFaults [] {} w).result

end LeaderboardCall

/-- The answers to calls made one after another. -/
def answers (w : World) : List LeaderboardCall → List (Except Failure LeaderboardResult)
  | [] => []
  | c :: rest => (c.outcome w).result :: answers (c.outcome w).world rest

/-- A call fills the key of a scope and filter if it finds it empty. -/
def LeaderboardCall.Fills (c : LeaderboardCall) (scope : Scope) (filter : TimeFilter) : Prop :=
  c.scope = scope ∧ c.filter = filter ∧ c.getFails = false ∧ c.setFails = false

instance (c : LeaderboardCall) (scope : Scope) (filter : TimeFilter) :
    Decidable (c.Fills scope filter) := inferInstanceAs (Decidable (_ ∧ _ ∧ _ ∧ _))

/-- The limit of the call that filled the key of a scope and filter. -/
def filledBy (past : List LeaderboardCall) (scope : Scope) (filter : TimeFilter) : Option Nat :=
  (past.find? (·.Fills scope filter)).map (·.limit)

end FoosballApi.Leaderboard

namespace FoosballApi.Matches.World

open Leaderboard LeaderboardService Events Text

variable [TimeZone]

/-- The object a call builds when it is not served from the cache. -/
def freshResult (w : World) (c : LeaderboardCall) : CachedResult :=
  ⟨c.filter, w.ranked c.scope c.filter c.limit, w.clock⟩

/-- The entry that a call leaves in the cache. -/
def freshEntry (w : World) (c : LeaderboardCall) : CacheEntry :=
  ⟨cacheKey c.scope c.filter, w.freshResult c, cacheTtl c.filter⟩

/-- What a call answers, and the world it leaves. -/
def serve (w : World) (c : LeaderboardCall) : LeaderboardResult × World :=
  if c.getFails then (⟨w.freshResult c, .bypass⟩, w)
  else
    match w.cache.get (cacheKey c.scope c.filter) with
    | some entry => (⟨entry.value, .hit⟩, w)
    | none =>
        (⟨w.freshResult c, .miss⟩, if c.setFails then w else w.setCache (w.freshEntry c))

end FoosballApi.Matches.World

namespace FoosballApi.Leaderboard

open Calls Events Matches LeaderboardService Text

section

variable [TimeZone] {c : LeaderboardCall} {calls : List Call} {s : Session} {w : World}
  {scope : Scope} {filter : TimeFilter} {limit : Nat} {past : List LeaderboardCall}

/-! ## One call -/

/-- The repository query under any oracle that fails Redis commands only. -/
theorem ranked_after {fails : List Call → Call → Bool}
    (hnow : ∀ calls, fails calls .now = false)
    (husers : ∀ calls start limit, fails calls (.queryUserWins start limit) = false)
    (hpairs : ∀ calls start limit, fails calls (.queryPairWins start limit) = false) :
    (ranked scope filter limit).after system fails calls s w fun out =>
      out.result = .ok (w.ranked scope filter limit) ∧ out.session = s ∧ out.world = w := by
  cases scope <;> cases filter <;>
    simp [ranked, LeaderboardRepository.getUserWins, LeaderboardRepository.getPairWins,
      LeaderboardRepository.getStartDate, World.ranked, windowStart, windowDays, hnow, husers,
      hpairs, system, exec]

/-- A call does what `World.serve` says. -/
theorem program_after (c : LeaderboardCall) :
    c.program.after system c.faults calls s w fun out =>
      out.result = .ok (w.serve c).1 ∧ out.world = (w.serve c).2 := by
  have hprogram : c.program = getLeaderboard c.scope c.filter c.limit := by
    unfold LeaderboardCall.program
    cases c.scope <;> rfl
  have hranked : ∀ calls, (ranked c.scope c.filter c.limit).after system c.faults calls s w
      fun out => out.result = .ok (w.ranked c.scope c.filter c.limit) ∧ out.session = s ∧
        out.world = w :=
    fun _ => ranked_after (fun _ => rfl) (fun _ _ _ => rfl) fun _ _ _ => rfl
  rw [hprogram, getLeaderboard]
  simp only [Prog.after_bind, Prog.after_perform]
  have hnow : system.perform (c.faults calls .now) .now s w = (.ok w.clock, s, w) := rfl
  rw [hnow]
  dsimp only
  rw [Prog.after_attempt, Prog.after_perform]
  unfold World.serve
  cases hget : c.getFails with
  | true =>
      have hred : system.perform (c.faults (.now :: calls) (.redisGet (cacheKey c.scope c.filter)))
          (.redisGet (cacheKey c.scope c.filter)) s w = (.error .unavailable, s, w) := by
        rw [LeaderboardCall.faults, hget]
        rfl
      rw [hred]
      dsimp only
      rw [Prog.after_bind]
      refine Prog.after_mono (hranked _) ?_
      rintro ⟨result, calls, session, world⟩ ⟨hresult, hsession, hworld⟩
      dsimp only at hresult hsession hworld
      subst hresult hsession hworld
      exact ⟨rfl, rfl⟩
  | false =>
      have hred : system.perform (c.faults (.now :: calls) (.redisGet (cacheKey c.scope c.filter)))
          (.redisGet (cacheKey c.scope c.filter)) s w =
            (.ok ((w.cache.get (cacheKey c.scope c.filter)).map (·.value)), s, w) := by
        rw [LeaderboardCall.faults, hget]
        rfl
      rw [hred]
      cases w.cache.get (cacheKey c.scope c.filter) with
      | some entry => exact ⟨rfl, rfl⟩
      | none =>
          dsimp only [Option.map_none]
          rw [Prog.after_bind]
          refine Prog.after_mono (hranked _) ?_
          rintro ⟨result, calls, session, world⟩ ⟨hresult, hsession, hworld⟩
          dsimp only at hresult hsession hworld
          subst hresult hsession hworld
          dsimp only
          rw [Prog.after_attempt_bind, Prog.after_perform, LeaderboardCall.faults]
          cases c.setFails <;> exact ⟨rfl, rfl⟩

/-! ## Many calls -/

/-- The world after some calls. -/
def served (w : World) (past : List LeaderboardCall) : World :=
  past.foldl (fun w c => (w.serve c).2) w

omit [TimeZone] in
theorem filledBy_concat (past : List LeaderboardCall) (c : LeaderboardCall) (scope : Scope)
    (filter : TimeFilter) :
    filledBy (past ++ [c]) scope filter =
      (filledBy past scope filter).or (if c.Fills scope filter then some c.limit else none) := by
  rw [filledBy, filledBy, List.find?_append, List.find?_singleton]
  cases past.find? (·.Fills scope filter) with
  | some d => rfl
  | none => by_cases hfills : c.Fills scope filter <;> simp [hfills]

/-- After some calls only the cache has changed, and a key holds the list that the call which filled
it found. -/
structure Filled (db : World) (past : List LeaderboardCall) (w : World) : Prop where
  same : w = { db with cache := w.cache }
  holds : ∀ scope filter, w.cache.get (cacheKey scope filter) =
    (filledBy past scope filter).map fun limit =>
      ⟨cacheKey scope filter, ⟨filter, db.ranked scope filter limit, db.clock⟩, cacheTtl filter⟩

variable {db : World}

theorem Filled.ranked_eq (h : Filled db past w) (scope : Scope) (filter : TimeFilter)
    (limit : Nat) : w.ranked scope filter limit = db.ranked scope filter limit := by
  rw [h.same]
  rfl

theorem Filled.freshResult_eq (h : Filled db past w) (c : LeaderboardCall) :
    w.freshResult c = db.freshResult c := by
  rw [h.same]
  rfl

omit [TimeZone] in
/-- Of the calls so far none has filled the key, or the key stays with the first that did. -/
theorem filledBy_concat_of_not_fills {c : LeaderboardCall}
    (h : c.Fills scope filter → filledBy past scope filter ≠ none) :
    filledBy (past ++ [c]) scope filter = filledBy past scope filter := by
  rw [filledBy_concat]
  by_cases hfills : c.Fills scope filter
  · obtain ⟨limit, hlimit⟩ := Option.ne_none_iff_exists'.mp (h hfills)
    rw [hlimit]
    rfl
  · rw [if_neg hfills, Option.or_none]

/-- One more call keeps the keys described. -/
theorem serve_filled (h : Filled db past w) (c : LeaderboardCall) :
    Filled db (past ++ [c]) (w.serve c).2 := by
  have hkeep : (∀ scope filter, c.Fills scope filter → filledBy past scope filter ≠ none) →
      Filled db (past ++ [c]) w := by
    intro hfills
    refine ⟨h.same, fun scope filter => ?_⟩
    rw [filledBy_concat_of_not_fills (hfills scope filter), h.holds]
  unfold World.serve
  cases hget : c.getFails with
  | true =>
      exact hkeep fun scope filter hfills => absurd (hget.symm.trans hfills.2.2.1) (by decide)
  | false =>
      have hholds := h.holds c.scope c.filter
      cases hentry : w.cache.get (cacheKey c.scope c.filter) with
      | some entry =>
          refine hkeep ?_
          rintro scope filter ⟨rfl, rfl, -⟩ hnone
          rw [hentry, hnone] at hholds
          cases hholds
      | none =>
          rw [hentry] at hholds
          have hnone : filledBy past c.scope c.filter = none :=
            Option.map_eq_none_iff.mp hholds.symm
          cases hset : c.setFails with
          | true =>
              exact hkeep fun scope filter hfills =>
                absurd (hset.symm.trans hfills.2.2.2) (by decide)
          | false =>
              refine ⟨?_, fun scope filter => ?_⟩
              · have hsame := h.same
                exact congrArg (fun v : World => v.setCache (w.freshEntry c)) hsame
              · change (w.cache.put (w.freshEntry c)).get (cacheKey scope filter) = _
                by_cases hkey : cacheKey scope filter = cacheKey c.scope c.filter
                · obtain ⟨rfl, rfl⟩ : scope = c.scope ∧ filter = c.filter := by
                    simpa [cacheKey] using hkey
                  rw [filledBy_concat, hnone, Option.none_or, if_pos ⟨rfl, rfl, hget, hset⟩]
                  refine (Data.Table.get_put_self w.cache (w.freshEntry c)).trans ?_
                  rw [World.freshEntry, h.freshResult_eq]
                  rfl
                · have hother : (w.cache.put (w.freshEntry c)).get (cacheKey scope filter) =
                      w.cache.get (cacheKey scope filter) := Data.Table.get_put_of_ne w.cache hkey
                  rw [hother, h.holds, filledBy_concat_of_not_fills]
                  rintro ⟨rfl, rfl, -⟩
                  exact absurd rfl hkey

theorem served_filled (hempty : ∀ scope filter, db.cache.get (cacheKey scope filter) = none)
    (past : List LeaderboardCall) : Filled db past (served db past) := by
  induction past using List.reverseRecOn with
  | nil => exact ⟨rfl, fun scope filter => hempty scope filter⟩
  | append_singleton past c ih =>
      rw [served, List.foldl_concat]
      exact serve_filled ih c

theorem outcome_result (c : LeaderboardCall) (w : World) :
    (c.outcome w).result = .ok (w.serve c).1 :=
  (program_after c).1

theorem outcome_world (c : LeaderboardCall) (w : World) : (c.outcome w).world = (w.serve c).2 :=
  (program_after c).2

theorem answers_concat (w : World) (past : List LeaderboardCall) (c : LeaderboardCall) :
    answers w (past ++ [c]) = answers w past ++ [.ok ((served w past).serve c).1] := by
  induction past generalizing w with
  | nil =>
      change [(c.outcome w).result] = _
      rw [outcome_result]
      rfl
  | cons d past ih =>
      rw [List.cons_append, answers, answers, ih, outcome_world]
      rfl

/-! ## What a hit answers -/

omit [TimeZone] in
theorem rankUsers_injective : Function.Injective rankUsers := by
  intro xs ys h
  have hentries : ∀ entries, (rankUsers entries).map (·.toUserWinEntry) = entries := by
    intro entries
    rw [rankUsers, List.map_map]
    exact List.zipIdx_map_fst 0 entries
  rw [← hentries xs, h, hentries]

omit [TimeZone] in
theorem rankPairs_injective : Function.Injective rankPairs := by
  intro xs ys h
  have hentries : ∀ entries, (rankPairs entries).map (fun r =>
      (⟨r.userA.userId, r.userA.displayName, r.userB.userId, r.userB.displayName, r.wins⟩ :
        PairWinEntry)) = entries := by
    intro entries
    rw [rankPairs, List.map_map]
    exact List.zipIdx_map_fst 0 entries
  rw [← hentries xs, h, hentries]

/-- Two limits give the same list exactly when they cut its rows at the same place. -/
theorem ranked_eq_iff {k l : Nat} :
    w.ranked scope filter k = w.ranked scope filter l ↔
      min k (w.rankedCount scope filter) = min l (w.rankedCount scope filter) := by
  cases scope with
  | users =>
      rw [World.ranked, World.ranked, World.rankedCount, LeaderboardData.users.injEq,
        rankUsers_injective.eq_iff, List.take_eq_take_iff]
  | pairs =>
      rw [World.ranked, World.ranked, World.rankedCount, LeaderboardData.pairs.injEq,
        rankPairs_injective.eq_iff, List.take_eq_take_iff]

/-- An earlier call filled the key of a call with a list that the limit of this one cuts at the same
place; a call that does not reach Redis needs no such thing. -/
def CutsAlike (db : World) (past : List LeaderboardCall) (c : LeaderboardCall) : Prop :=
  c.getFails = false → ∀ limit ∈ filledBy past c.scope c.filter,
    min limit (db.rankedCount c.scope c.filter) = min c.limit (db.rankedCount c.scope c.filter)

theorem direct_eq (c : LeaderboardCall) (w : World) :
    c.direct w = .ok (w.ranked c.scope c.filter c.limit) :=
  (ranked_after (fun _ => rfl) (fun _ _ _ => rfl) fun _ _ _ => rfl).1

/-- A call answers with its own list exactly when its key was filled alike. -/
theorem serve_data_iff (h : Filled db past w) (c : LeaderboardCall) :
    (w.serve c).1.data = db.ranked c.scope c.filter c.limit ↔ CutsAlike db past c := by
  have hfresh : (w.freshResult c).data = db.ranked c.scope c.filter c.limit :=
    h.ranked_eq c.scope c.filter c.limit
  have hholds := h.holds c.scope c.filter
  unfold World.serve CutsAlike
  cases hget : c.getFails with
  | true =>
      refine iff_of_true hfresh ?_
      rintro ⟨⟩
  | false =>
      cases hfilled : filledBy past c.scope c.filter with
      | none =>
          rw [hfilled, Option.map_none] at hholds
          rw [hholds]
          refine iff_of_true hfresh fun _ limit hlimit => ?_
          cases hlimit
      | some limit =>
          rw [hfilled, Option.map_some] at hholds
          rw [hholds]
          refine ranked_eq_iff.trans
            ⟨fun hcut _ limit' hlimit' => ?_, fun hcut => hcut rfl limit rfl⟩
          rwa [← Option.some.inj hlimit']

/-- The calls answer with their own lists exactly when no hit meets a list that was cut
elsewhere. -/
theorem cached_reads_direct (db : World) (hempty : db.cache = .empty _)
    (calls : List LeaderboardCall) :
    (answers db calls).map (Except.map (·.data)) = calls.map (·.direct db) ↔
      ∀ past c, past ++ [c] <+: calls → CutsAlike db past c := by
  induction calls using List.reverseRecOn with
  | nil =>
      refine iff_of_true rfl fun past c hprefix => ?_
      exact absurd (List.prefix_nil.mp hprefix) (List.append_ne_nil_of_right_ne_nil _ (by simp))
  | append_singleton calls c ih =>
      have hfilled : Filled db calls (served db calls) :=
        served_filled (fun _ _ => by rw [hempty]; rfl) calls
      have hone : (Except.ok ((served db calls).serve c).1 :
          Except Failure LeaderboardResult).map (·.data) = c.direct db ↔ CutsAlike db calls c := by
        rw [direct_eq, ← serve_data_iff hfilled c]
        exact ⟨Except.ok.inj, congrArg _⟩
      rw [answers_concat, List.map_append, List.map_append]
      constructor
      · intro hall past d hprefix
        obtain ⟨hbefore, hlast⟩ := List.append_inj' hall rfl
        rcases List.prefix_concat_iff.mp hprefix with heq | hprefix
        · obtain ⟨rfl, hd⟩ := List.append_inj' heq rfl
          obtain rfl := List.singleton_inj.mp hd
          exact hone.mp (List.singleton_inj.mp hlast)
        · exact ih.mp hbefore past d hprefix
      · intro hcuts
        have hbefore := ih.mpr fun past d hprefix =>
          hcuts past d (List.prefix_concat_iff.mpr (.inr hprefix))
        rw [hbefore]
        exact congrArg _ (congrArg (fun data => [data]) (hone.mpr (hcuts calls c List.prefix_rfl)))

end

/-! ## Two limits -/

/-- A confirmed match that a team of two has won. -/
def pairWon : World :=
  let mario : Users.UserEntity := ⟨1, "oid-001", "mario@foosball.test", "mario", false⟩
  let luigi : Users.UserEntity := ⟨2, "oid-002", "luigi@foosball.test", "luigi", false⟩
  { World.withUsers (((Data.Table.empty _).put mario).put luigi) with
    matchRows := (Data.Table.empty _).put
      ⟨1, some 1, .twoVsTwo, .confirmed, some 10, some 5, 0, 1, some 1, some 1⟩
    players := ((Data.Table.empty _).put ⟨1, 1, .A, 1, none⟩).put ⟨1, 2, .A, 2, none⟩
    clock := 2 }

/-- Requests for the all-time users, one after another, with working Redis commands. -/
def topAfterTop (first second : Fin 100) : List LeaderboardCall :=
  [⟨.users, .total, first + 1, Nat.le_add_left 1 _, first.isLt, false, false⟩,
    ⟨.users, .total, second + 1, Nat.le_add_left 1 _, second.isLt, false, false⟩]

open Utc in
/-- Two users in the cache are all there are. -/
theorem cached_reads_direct_pair :
    (answers pairWon (topAfterTop ⟨1, by decide⟩ ⟨2, by decide⟩)).map (Except.map (·.data)) =
        (topAfterTop ⟨1, by decide⟩ ⟨2, by decide⟩).map (·.direct pairWon) ∧
      ∀ past c, past ++ [c] <+: topAfterTop ⟨1, by decide⟩ ⟨2, by decide⟩ →
        CutsAlike pairWon past c := by
  have hdirect : (answers pairWon (topAfterTop ⟨1, by decide⟩ ⟨2, by decide⟩)).map
      (Except.map (·.data)) =
        (topAfterTop ⟨1, by decide⟩ ⟨2, by decide⟩).map (·.direct pairWon) := by
    decide
  exact ⟨hdirect, (cached_reads_direct pairWon rfl _).mp hdirect⟩

open Utc in
/-- A list of one user in the cache answers a request for two. -/
theorem not_cached_reads_direct :
    ¬ ∀ (db : World) (calls : List LeaderboardCall), db.cache = .empty _ →
      (answers db calls).map (Except.map (·.data)) = calls.map (·.direct db) := by
  intro h
  have hpair := h pairWon (topAfterTop ⟨0, by decide⟩ ⟨1, by decide⟩) rfl
  revert hpair
  decide

end FoosballApi.Leaderboard
