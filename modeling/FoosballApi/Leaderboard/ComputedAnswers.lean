import FoosballApi.Leaderboard.OffCache
import FoosballApi.Leaderboard.TextCache

/-!
# Answers were computed

Whatever interleaves with a read and whichever calls fail, its answer is a ranked list that some
read with the same scope and filter has asked the database for, at an earlier moment of the run; a
read that does not answer from the cache has asked itself, with its own limit. The cache holds such
lists only (`valid_cached`), since nobody else writes to it.
-/

namespace FoosballApi.Matches.World

open Events Leaderboard Text

/-- The ranked list of a scope since some instant. -/
def rankedSince (w : World) (scope : Scope) (startDate : Option Date) (limit : Nat) :
    LeaderboardData :=
  match scope with
  | .users => .users (rankUsers ((w.userWins startDate).take limit))
  | .pairs => .pairs (rankPairs ((w.pairWins startDate).take limit))

end FoosballApi.Matches.World

namespace FoosballApi.Leaderboard

open Calls Contract Data Events LeaderboardService Matches Matches.World Prog Text Trace Users
  Worker

section

variable [TimeZone] {θ : Type} {scope : Scope} {filter : TimeFilter} {limit : Nat}
  {h h' : History θ} {value : CachedResult}

/-- The result of a read: its clock was read, then the start of its window was computed, and then
the database was asked. -/
structure Computed (h : History θ) (scope : Scope) (filter : TimeFilter) (limit : Nat)
    (value : CachedResult) : Prop where
  named : value.filter = filter
  moments : ∃ h₀ h₁ h₂ : History θ, Past h₀ h₁ ∧ Past h₁ h₂ ∧ Past h₂ h ∧
    value.generatedAt = h₀.world.clock ∧
      value.data = h₂.world.rankedSince scope (windowStart h₁.world.clock filter) limit

theorem Computed.past (hcomputed : Computed h scope filter limit value) (hpast : Past h h') :
    Computed h' scope filter limit value := by
  obtain ⟨hnamed, h₀, h₁, h₂, h01, h12, h2, hclock, hdata⟩ := hcomputed
  exact ⟨hnamed, h₀, h₁, h₂, h01, h12, h2.trans hpast, hclock, hdata⟩

/-- Some read of the scope and the filter has computed the result. -/
def ComputedBy (clients : θ → CacheClient) (h : History θ) (scope : Scope) (filter : TimeFilter)
    (value : CachedResult) : Prop :=
  ∃ j limit, clients j = .read scope filter limit ∧ Computed h scope filter limit value

/-- What a call does to the cache. -/
inductive ChangesCache (clients : θ → CacheClient) (h : History θ) (e : CallEvent θ) : Prop where
  | keeps (same : e.world.cache = h.world.cache)
  | stores {scope : Scope} {filter : TimeFilter} {value : CachedResult} (ttl : Nat)
      (computed : ComputedBy clients h scope filter value)
      (stored : e.world.cache = h.world.cache.put ⟨cacheKey scope filter, value, ttl⟩)
  | deletes (keys : List CacheKey) (deleted : e.world.cache = h.world.cache.keep (·.key ∉ keys))

/-- The cache is empty at first, and computed results are stored. -/
def cacheContract (clients : θ → CacheClient) : Contract θ Call Call.Result Failure World where
  init w := w.cache = .empty _
  allow _ _ _ _ := True
  guar := ChangesCache clients

variable {clients : θ → CacheClient}

theorem ComputedBy.past (hcomputed : ComputedBy clients h scope filter value) (hpast : Past h h') :
    ComputedBy clients h' scope filter value := by
  obtain ⟨j, limit, hclient, hvalue⟩ := hcomputed
  exact ⟨j, limit, hclient, hvalue.past hpast⟩

/-- What is cached was computed. -/
theorem valid_cached (hv : (cacheContract clients).Valid h) {entry : CacheEntry}
    (hentry : h.world.cache.get (cacheKey scope filter) = some entry) :
    ComputedBy clients h scope filter entry.value := by
  refine hv.induction (I := fun h => ∀ scope filter entry,
    h.world.cache.get (cacheKey scope filter) = some entry →
      ComputedBy clients h scope filter entry.value) (fun w hempty scope filter entry hentry => ?_)
    (fun h e _ ih hchanges scope filter entry hentry => ?_) scope filter entry hentry
  · have hcache : w.cache = .empty _ := hempty
    have hentry : w.cache.get (cacheKey scope filter) = some entry := hentry
    rw [hcache] at hentry
    cases hentry
  · have hearlier : h.world.cache.get (cacheKey scope filter) = some entry →
        ComputedBy clients (h.snoc e) scope filter entry.value := fun hearlier =>
      (ih scope filter entry hearlier).past (past_snoc h e)
    rw [world_snoc] at hentry
    cases hchanges with
    | keeps same => exact hearlier (same ▸ hentry)
    | @stores scope' filter' value ttl computed stored =>
        rw [stored, Table.get_put] at hentry
        split at hentry
        · next hkey =>
            obtain ⟨rfl, rfl⟩ : scope = scope' ∧ filter = filter' := by simpa [cacheKey] using hkey
            cases hentry
            exact computed.past (past_snoc h e)
        · exact hearlier hentry
    | deletes keys deleted =>
        rw [deleted, Table.get_keep] at hentry
        exact hearlier (Option.filter_eq_some_iff.mp hentry).1

/-! ## Rules -/

variable {α : Type} {i : θ} {s : Session} {Q : Except Failure α → Session → History θ → Prop}

omit [TimeZone] in
/-- A call that does not reach the cache keeps it. -/
theorem cache_exec {op : Call} (hop : op.onCache = false) (s : Session) (w : World) :
    (exec op s w).2.2.cache = w.cache := by
  have hexec : exec op s w = _ := exec_withCache hop s w w.cache
  exact congrArg (fun out => out.2.2.cache) hexec

theorem changesCache_error {op : Call} {failure : Failure} :
    ChangesCache clients h ⟨i, op, .error failure, h.world⟩ := .keeps rfl

/-- A call that does not reach the cache, and what follows it. -/
theorem wp_offCache {op : Call} {next : op.Result → Api α} (hop : op.onCache = false)
    (hnext : ∀ h' value, Past h h' → (exec op s h'.world).1 = .ok value →
      wp unlocked (cacheContract clients) i (next value) (exec op s h'.world).2.1
        (h'.snoc ⟨i, op, .ok value, (exec op s h'.world).2.2⟩) Q)
    (hstop : ∀ failure s' h', Past h h' → Q (.error failure) s' h') :
    wp unlocked (cacheContract clients) i (await op >>= next) s h Q := by
  refine wp_perform_bind fun h' hmean _ fails _ => ?_
  rcases unlocked_perform_cases fails op s h'.world with hperform | hperform <;> rw [hperform]
  · refine ⟨.keeps (cache_exec hop s h'.world), ?_⟩
    cases hresult : (exec op s h'.world).1 with
    | ok value => exact hnext h' value hmean.past hresult
    | error failure => exact hstop failure _ _ hmean.past.snoc
  · exact ⟨changesCache_error, hstop _ _ _ hmean.past.snoc⟩

/-- The programs that do not reach the cache. -/
theorem safe_offCache {program : Api α} (hprogram : OffCache program) :
    Safe unlocked (cacheContract clients) i program s h := by
  refine safe_of_issues hprogram.issues fun op s h fails hop _ _ => ?_
  rcases unlocked_perform_cases fails op s h.world with hperform | hperform <;> rw [hperform]
  · exact .keeps (cache_exec hop s h.world)
  · exact changesCache_error

/-- A deletion of keys. -/
theorem safe_del (keys : List CacheKey) :
    Safe unlocked (cacheContract clients) i (await (.redisDel keys)) s h := by
  refine wp_perform fun h' _ _ fails _ => ⟨?_, trivial⟩
  rcases unlocked_perform_cases fails (.redisDel keys) s h'.world with hperform | hperform <;>
    rw [hperform]
  · exact .deletes keys rfl
  · exact changesCache_error

/-! ## Reads -/

/-- The start of the window is computed from a reading of the clock. -/
theorem getStartDate_wp : wp unlocked (cacheContract clients) i
    (LeaderboardRepository.getStartDate filter) s h fun result _ h' => Past h h' ∧
      ∀ start, result = .ok start → ∃ h₁, Past h h₁ ∧ Past h₁ h' ∧
        start = windowStart h₁.world.clock filter := by
  cases filter with
  | total =>
      refine ⟨.refl h, fun start hstart => ⟨h, .refl h, .refl h, ?_⟩⟩
      cases hstart
      rfl
  | week | month | year =>
      refine wp_offCache rfl (fun h₁ now hpast hnow => ⟨hpast.snoc, fun start hstart => ?_⟩)
        fun failure s' h' hpast => ⟨hpast, nofun⟩
      cases hnow
      cases hstart
      exact ⟨h₁, hpast, past_snoc h₁ _, rfl⟩

/-- A query for wins since the start of the window, and the list made of its rows. -/
theorem query_computed {op : Option Date → Call}
    {f : (start : Option Date) → (op start).Result → LeaderboardData}
    (hop : ∀ start, (op start).onCache = false) (hquery : ∀ start s w value,
      (exec (op start) s w).1 = .ok value → f start value = w.rankedSince scope start limit) :
    wp unlocked (cacheContract clients) i (LeaderboardRepository.getStartDate filter >>=
        fun start => await (op start) >>= fun value => Prog.pure (f start value)) s h
      fun result _ h' => Past h h' ∧ ∀ data, result = .ok data → ∃ h₁ h₂, Past h h₁ ∧
        Past h₁ h₂ ∧ Past h₂ h' ∧
          data = h₂.world.rankedSince scope (windowStart h₁.world.clock filter) limit := by
  refine wp_bind.mpr (wp_mono getStartDate_wp fun result s' h' hstart => ?_)
  obtain ⟨hpast, hstart⟩ := hstart
  cases result with
  | error failure => exact ⟨hpast, nofun⟩
  | ok start =>
      obtain ⟨h₁, hpast₁, hlater, rfl⟩ := hstart start rfl
      refine wp_offCache (hop _) (fun h₂ value hpast₂ hvalue => ?_)
        fun failure s₂ h₂ hpast₂ => ⟨hpast.trans hpast₂, nofun⟩
      refine ⟨(hpast.trans hpast₂).snoc, fun data hdata => ⟨h₁, h₂, hpast₁, hlater.trans hpast₂,
        past_snoc h₂ _, ?_⟩⟩
      cases hdata
      exact hquery _ _ _ _ hvalue

/-- The ranked list of a read, and the moments at which it was computed. -/
theorem ranked_computed : wp unlocked (cacheContract clients) i (ranked scope filter limit) s h
    fun result _ h' => Past h h' ∧ ∀ data, result = .ok data → ∃ h₁ h₂, Past h h₁ ∧ Past h₁ h₂ ∧
      Past h₂ h' ∧ data = h₂.world.rankedSince scope (windowStart h₁.world.clock filter) limit := by
  cases scope with
  | users =>
      unfold LeaderboardService.ranked LeaderboardRepository.getUserWins
      rw [Prog.bind_assoc]
      refine query_computed (fun _ => rfl) fun start s w value hvalue => ?_
      cases hvalue
      rfl
  | pairs =>
      unfold LeaderboardService.ranked LeaderboardRepository.getPairWins
      rw [Prog.bind_assoc]
      refine query_computed (fun _ => rfl) fun start s w value hvalue => ?_
      cases hvalue
      rfl

/-- A list that is asked for after the clock was read for its `generatedAt`. -/
theorem result_computed {h₀ : History θ} (hpast : Past h₀ h) :
    wp unlocked (cacheContract clients) i (ranked scope filter limit) s h fun result _ h' =>
      ∀ data, result = .ok data →
        Computed h' scope filter limit ⟨filter, data, h₀.world.clock⟩ := by
  refine wp_mono ranked_computed fun result s' h' hranked data hdata => ?_
  obtain ⟨h₁, h₂, h01, h12, h2, hdata⟩ := hranked.2 data hdata
  exact ⟨rfl, h₀, h₁, h₂, hpast.trans h01, h12, h2, rfl, hdata⟩

/-- What a read answers. -/
structure Answers (clients : θ → CacheClient) (h : History θ) (scope : Scope) (filter : TimeFilter)
    (limit : Nat) (result : LeaderboardResult) : Prop where
  computed : ComputedBy clients h scope filter result.toCachedResult
  fresh : result.cacheStatus ≠ .hit → Computed h scope filter limit result.toCachedResult

theorem Answers.past {result : LeaderboardResult}
    (hanswers : Answers clients h scope filter limit result) (hpast : Past h h') :
    Answers clients h' scope filter limit result :=
  ⟨hanswers.computed.past hpast, fun hstatus => (hanswers.fresh hstatus).past hpast⟩

/-- An answer that was computed by the read itself. -/
theorem answers_of_computed (hclient : clients i = .read scope filter limit)
    (hcomputed : Computed h scope filter limit value) (status : CacheStatus) :
    Answers clients h scope filter limit ⟨value, status⟩ :=
  ⟨⟨i, limit, hclient, hcomputed⟩, fun _ => hcomputed⟩

/-- A read answers from the cache, or computes its answer and stores it. -/
theorem getLeaderboard_wp (hclient : clients i = .read scope filter limit) :
    wp unlocked (cacheContract clients) i (getLeaderboard scope filter limit) s h
      fun result _ h' => ∀ value, result = .ok value →
        Answers clients h' scope filter limit value := by
  unfold getLeaderboard
  refine wp_offCache rfl (fun h₀ now _ hnow => ?_) fun _ _ _ _ => nofun
  obtain rfl : h₀.world.clock = now := Except.ok.inj hnow
  refine wp_attempt_bind.mpr (wp_perform fun h₁ hmean hv fails _ => ?_)
  have hpast : Past h₀ h₁ := (past_snoc h₀ _).trans hmean.past
  rcases unlocked_perform_cases fails (.redisGet (cacheKey scope filter)) _ h₁.world
    with hperform | hperform <;> rw [hperform] <;> refine ⟨.keeps rfl, ?_⟩
  · dsimp only [exec]
    cases hcached : h₁.world.cache.get (cacheKey scope filter) with
    | some entry =>
        intro value hvalue
        cases hvalue
        exact ⟨(valid_cached hv hcached).past (past_snoc h₁ _), absurd rfl⟩
    | none =>
        refine wp_bind.mpr (wp_mono (result_computed hpast.snoc) fun result s₂ h₂ hdata => ?_)
        cases result with
        | error failure => exact nofun
        | ok data =>
            have hcomputed := hdata data rfl
            refine wp_attempt_bind.mpr (wp_perform fun h₃ hmean₃ _ fails _ => ?_)
            have hcomputed₃ := hcomputed.past hmean₃.past
            refine ⟨?_, fun value hvalue => ?_⟩
            · rcases unlocked_perform_cases fails (.redisSet (cacheKey scope filter)
                ⟨filter, data, h₀.world.clock⟩ (cacheTtl filter)) s₂ h₃.world with hset | hset <;>
                rw [hset]
              · exact .stores (cacheTtl filter) ⟨i, limit, hclient, hcomputed₃⟩ rfl
              · exact changesCache_error
            · cases hvalue
              exact answers_of_computed hclient (hcomputed₃.past (past_snoc h₃ _)) .miss
  · refine wp_bind.mpr (wp_mono (result_computed hpast.snoc) fun result s₂ h₂ hdata => ?_)
    cases result with
    | error failure => exact nofun
    | ok data =>
        intro value hvalue
        cases hvalue
        exact answers_of_computed hclient (hdata data rfl) .bypass

/-! ## Every client -/

/-- What a client answers when it has ended. -/
def Answered (clients : θ → CacheClient) (i : θ)
    (result : Except Failure (Option LeaderboardResult)) (h : History θ) : Prop :=
  ∀ scope filter limit, clients i = .read scope filter limit → ∀ value, result = .ok value →
    ∃ answer, value = some answer ∧ Answers clients h scope filter limit answer

/-- A client that is no read has nothing to answer. -/
theorem answered_of_safe {program : Api (Option LeaderboardResult)}
    (hclient : ∀ scope filter limit, clients i ≠ .read scope filter limit)
    (hsafe : Safe unlocked (cacheContract clients) i program s h) :
    wp unlocked (cacheContract clients) i program s h
      fun result _ h' => Answered clients i result h' :=
  wp_mono hsafe fun _ _ _ _ scope filter limit hread => absurd hread (hclient scope filter limit)

theorem safe_none {program : Api Unit}
    (hprogram : Safe unlocked (cacheContract clients) i program s h) :
    Safe unlocked (cacheContract clients) i
      (program >>= fun _ => (return none : Api (Option LeaderboardResult))) s h :=
  safe_map hprogram

/-- A deletion of the keys of a list, if there are any. -/
theorem safe_delKeys (keys : List CacheKey) :
    Safe unlocked (cacheContract clients) i
      (if 0 < keys.length then await (.redisDel keys) else return ()) s h := by
  split
  · exact safe_del keys
  · exact trivial

theorem deliverLeaderboard_safe (queuePrefix : Option String) (position : Nat) :
    Safe unlocked (cacheContract clients) i (deliverLeaderboard queuePrefix position) s h := by
  refine wp_offCache rfl (fun h₁ job _ _ => ?_) fun _ _ _ _ => trivial
  refine safe_require fun job _ => safe_throwIf fun _ => ?_
  cases job.payload with
  | leaderboardInvalidate reason affectedFilters => exact safe_delKeys _
  | _ => exact trivial

theorem cacheClient_wp (clients : θ → CacheClient) (i : θ) (h : History θ) :
    wp unlocked (cacheContract clients) i (clients i).prog {} h
      fun result _ h' => Answered clients i result h' := by
  cases hclient : clients i with
  | read scope filter limit =>
      refine wp_bind.mpr (wp_mono (getLeaderboard_wp hclient) fun result s h' hanswers => ?_)
      cases result with
      | error failure => exact fun _ _ _ _ _ => nofun
      | ok answer =>
          intro scope' filter' limit' hread value hvalue
          obtain ⟨rfl, rfl, rfl⟩ := CacheClient.read.inj (hclient.symm.trans hread)
          exact ⟨answer, (Except.ok.inj hvalue).symm, hanswers answer rfl⟩
  | invalidate scopes =>
      refine answered_of_safe (by rw [hclient]; nofun) (safe_none ?_)
      exact safe_map (wp_attempt.mpr (safe_delKeys _))
  | delivery queuePrefix position =>
      exact answered_of_safe (by rw [hclient]; nofun)
        (safe_none (deliverLeaderboard_safe queuePrefix position))
  | app request =>
      exact answered_of_safe (by rw [hclient]; nofun) (safe_none (safe_offCache request.offCache))
  | expire keys => exact answered_of_safe (by rw [hclient]; nofun) (safe_none (safe_del keys))
  | tick elapsed =>
      exact answered_of_safe (by rw [hclient]; nofun)
        (safe_none (safe_offCache (offCache_perform rfl)))

variable [DecidableEq θ] {w : World}

/-- Over the cache of results every answer was computed. -/
theorem answers_computed (hempty : w.cache = .empty _)
    {c : Config θ Call Call.Result Failure Session World (Option LeaderboardResult)}
    (hreach : Reach unlocked anyCall (beginCached w clients) c) {result}
    (hresult : c.resultOf i = some result) : Answered clients i result c.trace := by
  refine Contract.result_post (C := cacheContract clients) hreach rfl hempty
    (fun j result s h e _ _ hanswered scope filter limit hread value hvalue => ?_)
    (fun j => cacheClient_wp clients j ⟨w, []⟩) hresult
  obtain ⟨answer, hanswer, hcomputed⟩ := hanswered scope filter limit hread value hvalue
  exact ⟨answer, hanswer, hcomputed.past (past_snoc h e)⟩

/-- Over the texts in Redis every answer is the JSON of a ranked list that some read with its scope
and filter has computed, and of its own list unless it says `HIT`. -/
theorem text_answers_computed (hempty : w.cache = .empty _)
    {c : Config θ TextCall TextCall.Result Failure Session TextWorld (Option Json)}
    (hreach : Reach textSystem anyCall (TextWorld.begin ⟨w, .empty _⟩ clients) c)
    (hread : clients i = .read scope filter limit) {answer : Option Json}
    (hresult : c.resultOf i = some (.ok answer)) :
    ∃ (h : History θ) (result : LeaderboardResult), c.trace.Refines cacheTexts Denotes h ∧
      answer = some result.json ∧ Answers clients h scope filter limit result := by
  obtain ⟨c', hreach', htrace, hanswers⟩ := text_cache_refines (.empty hempty)
    (hreach.mono mirrored_anyCall)
  obtain ⟨result, hresult', hwritten⟩ := hanswers i _ hresult
  cases hwritten with
  | @ok _ value hvalue =>
      obtain ⟨result, rfl, hcomputed⟩ :=
        answers_computed hempty hreach' hresult' scope filter limit hread value rfl
      exact ⟨c'.trace, result, htrace, hvalue, hcomputed⟩

end

open Utc in
/-- The second reader answers what the first has computed, beyond its own limit. -/
theorem text_answers_computed_reads :
    ∃ c, Reach textSystem anyCall
        (TextWorld.begin ⟨(withUsers signedIn).run duelConfirmed, .empty _⟩ twoReads) c ∧
      isHit (c.resultOf 1) = true ∧ ∀ answer, c.resultOf 1 = some (.ok answer) →
        ∃ (h : History (Fin 2)) (result : LeaderboardResult), answer = some result.json ∧
          Answers twoReads h .users .total 1 result := by
  obtain ⟨c, hreach, hhit⟩ := twoReads_run
  refine ⟨c, hreach, hhit, fun answer hanswer => ?_⟩
  obtain ⟨h, result, -, hjson, hanswers⟩ :=
    text_answers_computed cache_duelConfirmed hreach (i := 1) rfl hanswer
  exact ⟨h, result, hjson, hanswers⟩

end FoosballApi.Leaderboard
