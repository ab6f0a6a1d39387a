import FoosballApi.Leaderboard.BoardRuns

/-!
# Freshness of the cached leaderboard

Leaderboard reads, confirmations, overrides and deliveries of invalidation jobs, interleaved in any
order. An invalidation is `Due` from the commit of a confirmation, or from the moment an override
adds its job, until a delivery of that job has deleted the keys. As long as every list is stored,
and every override committed, in an `Orderly` way, the cached all-time lists are those of the
database or an invalidation is due (`current_or_due`); in a quiet run nothing is due.
-/

namespace FoosballApi.Leaderboard

open Calls Events LeaderboardService Matches Matches.World Prog Text Trace Worker

section

variable {θ : Type}

/-- The client that has stored what a key holds. -/
def storedBy (h : History θ) (key : CacheKey) : Option θ :=
  (h.events.find? (stores key)).map (·.tid)

variable [DecidableEq θ]

/-- An all-time list will still be deleted: a job is waiting, or a confirmation is about to add
one. -/
def Due (clients : θ → BoardClient) (h : History θ) : Prop :=
  (∃ position job, h.world.leaderboardQueue[position]? = some job ∧ InvalidatesTotal job ∧
    ¬ Processed clients position h) ∨
  ∃ i user matchId, clients i = .confirm user matchId ∧ OwesJob i h

variable [TimeZone]

/-- Every cached all-time list is what the query returns for the limit it was computed with. -/
def Current (clients : θ → BoardClient) (h : History θ) : Prop :=
  ∀ scope entry, h.world.cache.get (cacheKey scope .total) = some entry →
    ∃ i limit, storedBy h (cacheKey scope .total) = some i ∧ clients i = .read scope .total limit ∧
      entry.value.data = h.world.ranked scope .total limit

/-! ## The condition on the steps -/

/-- The all-time list of a reader is still what it was when the reader asked for it. -/
def Unmoved (i : θ) (scope : Scope) (limit : Nat) (h : History θ) : Prop :=
  ∀ event ∈ h.events, event.tid = i → asksWins event = true →
    event.world.ranked scope .total limit = h.world.ranked scope .total limit

/-- What an override saves leaves the cached all-time lists as they are. -/
def KeepsLists (clients : θ → BoardClient) (i : θ) (matchId : MatchId)
    (dto : AdminOverrideResultDto) (h : History θ) : Prop :=
  ∀ m w, ⟨i, .findById matchId, .ok (some m), w⟩ ∈ h.events →
    ∀ scope, h.world.cache.get (cacheKey scope .total) ≠ none →
      ∀ j limit, storedBy h (cacheKey scope .total) = some j →
        clients j = .read scope .total limit →
        (h.world.saveMatch (overridden m dto)).ranked scope .total limit =
          h.world.ranked scope .total limit

/-- A step at which no stale list is left behind: a reader stores an all-time list that has not
moved since its query, or while an invalidation is due; an override commits while an invalidation is
due, or leaves the cached lists as they are; and the jobs of a confirmation are added. -/
structure Orderly (clients : θ → BoardClient) (i : θ) (h : History θ) (op : Call)
    (fails : Bool) : Prop where
  store : fails = false → ∀ key value ttl, op = .redisSet key value ttl →
    ∀ scope limit, clients i = .read scope .total limit → Due clients h ∨ Unmoved i scope limit h
  commit : fails = false → op = .commitTransaction → ∀ user matchId dto,
    clients i = .override user matchId dto → Due clients h ∨ KeepsLists clients i matchId dto h
  announce : ∀ user matchId, clients i = .confirm user matchId → ∀ queue job,
    op = .add queue job → fails = false

/-- No client is in the middle of its program. -/
def Quiet (c : Running θ) : Prop :=
  ∀ event ∈ c.trace.events, (c.resultOf event.tid).isSome

/-- Every job of the leaderboard queue has been processed. -/
def AllProcessed (clients : θ → BoardClient) (c : Running θ) : Prop :=
  ∀ position < c.trace.world.leaderboardQueue.length, ∃ i response,
    clients i = .delivery position ∧ c.resultOf i = some (.ok response)

/-! ## One call -/

variable {clients : θ → BoardClient} {i : θ} {h h₀ : History θ} {event : CallEvent θ}
  {scope : Scope} {limit position : Nat} {w w' : World}

omit [DecidableEq θ] in
/-- The all-time lists are computed from the matches, their players and the users. -/
theorem ranked_total_congr (hrows : w'.matchRows = w.matchRows)
    (hplayers : w'.players = w.players) (husers : w'.users = w.users) :
    w'.ranked scope .total limit = w.ranked scope .total limit := by
  have husers' := userWins_congr hrows hplayers husers
  have hpairs := pairWins_congr hrows hplayers husers
  cases scope with
  | users =>
      show LeaderboardData.users (rankUsers ((w'.userWins none).take limit)) = _
      rw [husers']
      rfl
  | pairs =>
      show LeaderboardData.pairs (rankPairs ((w'.pairWins none).take limit)) = _
      rw [hpairs]
      rfl

omit [DecidableEq θ] [TimeZone] in
theorem storedBy_snoc {key : CacheKey} (hstores : stores key event = false) :
    storedBy (h.snoc event) key = storedBy h key := by
  rw [storedBy, events_snoc, List.find?_cons, hstores]
  rfl

omit [DecidableEq θ] in
/-- Entries that stay, over lists that stay, stay current. -/
theorem Current.snoc (hcurrent : Current clients h)
    (hcache : ∀ scope entry, event.world.cache.get (cacheKey scope .total) = some entry →
      h.world.cache.get (cacheKey scope .total) = some entry)
    (hstores : ∀ scope, stores (cacheKey scope .total) event = false)
    (hranked : ∀ scope i limit, h.world.cache.get (cacheKey scope .total) ≠ none →
      storedBy h (cacheKey scope .total) = some i → clients i = .read scope .total limit →
        event.world.ranked scope .total limit = h.world.ranked scope .total limit) :
    Current clients (h.snoc event) := by
  intro scope entry hentry
  have hbefore := hcache scope entry hentry
  obtain ⟨i, limit, hstored, hclient, hdata⟩ := hcurrent scope entry hbefore
  refine ⟨i, limit, (storedBy_snoc (hstores scope)).trans hstored, hclient, hdata.trans ?_⟩
  exact (hranked scope i limit (hbefore ▸ Option.some_ne_none entry) hstored hclient).symm

omit [DecidableEq θ] [TimeZone] in
theorem processed_snoc (hdeletes : deletes event = false) :
    Processed clients position (h.snoc event) ↔ Processed clients position h := by
  refine ⟨?_, Processed.snoc⟩
  rintro ⟨e, he, hclient, hkeys⟩
  rcases List.mem_cons.mp he with rfl | he
  · rw [hdeletes] at hkeys
    cases hkeys
  · exact ⟨e, he, hclient, hkeys⟩

omit [DecidableEq θ] in
/-- What is said of the calls of a run: they were made, and each does what its client may. -/
def BoardStep (clients : θ → BoardClient) (allow : θ → History θ → Call → Bool → Prop)
    (h : History θ) (event : CallEvent θ) : Prop :=
  Made unlocked allow h event ∧ (clients event.tid).Does h event

variable {allow : θ → History θ → Call → Bool → Prop}

omit [DecidableEq θ] in
/-- A job that was taken is at its position. -/
theorem job_of_processed (hsteps : h.Steps (BoardStep clients allow))
    (hprocessed : Processed clients position h) :
    ∃ job, h.world.leaderboardQueue[position]? = some job := by
  obtain ⟨e, he, hclient, hdeletes⟩ := hprocessed
  obtain ⟨h₀, hpast⟩ := past_of_mem he
  have hdoes := (hsteps.of_past hpast).2
  have hmade : h.Steps (Made unlocked allow) := hsteps.mono fun _ _ h => h.1
  cases hdoes with
  | quiet quiet => cases quiet.deletes.symm.trans hdeletes
  | announce | confirm | override | store => cases hdeletes
  | @invalidate tid position' kind h₁ job keys past taken deleted =>
      cases hclient.symm.trans kind
      have hpast₁ : Past h₁ h := past.trans ((past_snoc _ _).trans hpast)
      exact ⟨job, queued_of_past rfl hmade hpast₁
        (show (h₁.world.queued .leaderboardQueue)[position]? = some job from taken)⟩

/-- A call that deletes no keys leaves an invalidation due; a job that it adds is one. -/
theorem Due.snoc (hsteps : h.Steps (BoardStep clients allow)) (hmade : Made unlocked allow h event)
    (hdoes : (clients event.tid).Does h event) (hdeletes : deletes event = false)
    (hdue : Due clients h ∨ Announces event) : Due clients (h.snoc event) := by
  have hall : (h.snoc event).Steps (BoardStep clients allow) :=
    steps_snoc.mpr ⟨⟨hmade, hdoes⟩, hsteps⟩
  have hqueue : ∀ {position job}, h.world.leaderboardQueue[position]? = some job →
      event.world.leaderboardQueue[position]? = some job := fun {position job} hjob =>
    queued_of_past rfl (hall.mono fun _ _ h => h.1) (past_snoc h event)
      (show (h.world.queued .leaderboardQueue)[position]? = some job from hjob)
  by_cases hannounces : Announces event
  · -- The new job is the last of the queue, and no delivery can have had it.
    cases hdoes with
    | quiet quiet => exact absurd hannounces quiet.announces
    | confirm | override | store | invalidate =>
        obtain ⟨_, hjob, -⟩ := hannounces
        cases hjob
    | @announce tid job invalidates =>
        refine .inl ⟨h.world.leaderboardQueue.length, job, List.getElem?_concat_length,
          invalidates, ?_⟩
        rw [processed_snoc hdeletes]
        intro hprocessed
        obtain ⟨_, hjob⟩ := job_of_processed hsteps hprocessed
        rw [List.getElem?_length] at hjob
        cases hjob
  · rcases hdue.resolve_right hannounces with ⟨position, job, hjob, hinvalidates, hwaiting⟩ |
      ⟨i, user, matchId, hclient, howes⟩
    · refine .inl ⟨position, job, hqueue hjob, hinvalidates, ?_⟩
      rwa [processed_snoc hdeletes]
    · refine .inr ⟨i, user, matchId, hclient, ?_⟩
      by_cases htid : event.tid = i
      · exact (owesJob_snoc_self htid).mpr ⟨hannounces, .inr howes⟩
      · exact (owesJob_snoc_other htid).mpr howes

/-- Deleting the keys of a job leaves no all-time list, or the job was none that is due. -/
theorem current_or_due_invalidate {tid : θ} {keys : List CacheKey} {job : EventEnvelope}
    (hsteps : h.Steps (BoardStep clients allow)) (hclient : clients tid = .delivery position)
    (hpast : Past h₀ h) (htaken : h₀.world.leaderboardQueue[position]? = some job)
    (hkeys : InvalidatesTotal job → ∀ scope, cacheKey scope .total ∈ keys)
    (hinv : Current clients h ∨ Due clients h) :
    Current clients (h.snoc ⟨tid, .redisDel keys, .ok (), h.world.delCache keys⟩) ∨
      Due clients (h.snoc ⟨tid, .redisDel keys, .ok (), h.world.delCache keys⟩) := by
  have hget : ∀ key, (h.world.delCache keys).cache.get key =
      (h.world.cache.get key).filter fun entry => entry.key ∉ keys :=
    fun key => Data.Table.get_keep h.world.cache _ key
  by_cases hinvalidates : InvalidatesTotal job
  · refine .inl fun scope entry hentry => ?_
    rw [world_snoc, hget, Option.filter_eq_some_iff] at hentry
    obtain ⟨hentry, hkept⟩ := hentry
    have hkey : entry.key = cacheKey scope .total := (Data.Table.get_eq_some.mp hentry).2
    rw [hkey] at hkept
    exact absurd (hkeys hinvalidates scope) (of_decide_eq_true hkept)
  · rcases hinv with hcurrent | hdue
    · refine .inl (hcurrent.snoc (fun scope entry hentry => ?_) (fun _ => rfl) ?_)
      · rw [hget, Option.filter_eq_some_iff] at hentry
        exact hentry.1
      · exact fun _ _ _ _ _ _ => ranked_total_congr rfl rfl rfl
    · refine .inr ?_
      rcases hdue with ⟨position', job', hjob', hinvalidates', hwaiting⟩ |
        ⟨i, user, matchId, hconfirm, howes⟩
      · refine .inl ⟨position', job', hjob', hinvalidates', ?_⟩
        rintro ⟨e, he, hdelivery, hdeletes⟩
        rcases List.mem_cons.mp he with rfl | he
        · -- The job that was handled is at its position still, so it is not the one that waits.
          cases hclient.symm.trans hdelivery
          have hjob : (h.world.queued .leaderboardQueue)[position]? = some job :=
            queued_of_past rfl (hsteps.mono fun _ _ h => h.1) hpast
              (show (h₀.world.queued .leaderboardQueue)[position]? = some job from htaken)
          cases hjob'.symm.trans hjob
          exact hinvalidates hinvalidates'
        · exact hwaiting ⟨e, he, hdelivery, hdeletes⟩
      · refine .inr ⟨i, user, matchId, hconfirm, (owesJob_snoc_other ?_).mpr howes⟩
        rintro rfl
        cases hclient.symm.trans hconfirm

omit [DecidableEq θ] in
/-- Storing an all-time list that is the one of the database keeps the cache current. -/
theorem Current.store {tid : θ} {value : CachedResult} {ttl : Nat} {filter : TimeFilter}
    (hcurrent : Current clients h) (hclient : clients tid = .read scope filter limit)
    (hdata : filter = .total → value.data = h.world.ranked scope .total limit) :
    Current clients (h.snoc ⟨tid, .redisSet (cacheKey scope filter) value ttl, .ok (),
      h.world.setCache ⟨cacheKey scope filter, value, ttl⟩⟩) := by
  intro scope' entry hentry
  by_cases hkey : cacheKey scope' .total = cacheKey scope filter
  · obtain ⟨rfl, rfl⟩ : scope' = scope ∧ .total = filter := by
      simpa [cacheKey] using hkey
    have hself := (Data.Table.get_put_self h.world.cache ⟨cacheKey scope' .total, value, ttl⟩).symm
    cases hself.trans hentry
    refine ⟨tid, limit, ?_, hclient, (hdata rfl).trans (ranked_total_congr rfl rfl rfl).symm⟩
    simp [storedBy, stores]
  · have hstores : stores (cacheKey scope' .total) (⟨tid,
        .redisSet (cacheKey scope filter) value ttl, .ok (),
        h.world.setCache ⟨cacheKey scope filter, value, ttl⟩⟩ : CallEvent θ) = false :=
      decide_eq_false (Ne.symm hkey)
    have hother : (h.world.setCache ⟨cacheKey scope filter, value, ttl⟩).cache.get
        (cacheKey scope' .total) = h.world.cache.get (cacheKey scope' .total) :=
      Data.Table.get_put_of_ne h.world.cache hkey
    rw [world_snoc, hother] at hentry
    obtain ⟨i, limit', hstored, hreader, hdata'⟩ := hcurrent scope' entry hentry
    exact ⟨i, limit', (storedBy_snoc hstores).trans hstored, hreader,
      hdata'.trans (ranked_total_congr rfl rfl rfl).symm⟩

/-- Each orderly call keeps the cache current, or an invalidation due. -/
theorem current_or_due_snoc (hsteps : h.Steps (BoardStep clients (Orderly clients)))
    (hmade : Made unlocked (Orderly clients) h event) (hdoes : (clients event.tid).Does h event)
    (hinv : Current clients h ∨ Due clients h) :
    Current clients (h.snoc event) ∨ Due clients (h.snoc event) := by
  have hdue : deletes event = false → Due clients h ∨ Announces event →
      Current clients (h.snoc event) ∨ Due clients (h.snoc event) := fun hdeletes hdue =>
    .inr (Due.snoc hsteps hmade hdoes hdeletes hdue)
  cases hdoes with
  | quiet quiet =>
      rcases hinv with hcurrent | hinv
      · refine .inl (hcurrent.snoc (fun scope entry hentry => ?_) (fun _ => quiet.stores _) ?_)
        · rwa [quiet.same.cache] at hentry
        · intro _ _ _ _ _ _
          exact ranked_total_congr quiet.same.matchRows quiet.same.players quiet.same.users
      · exact hdue quiet.deletes (.inl hinv)
  | announce invalidates => exact hdue rfl (.inr ⟨_, List.mem_singleton_self _, invalidates⟩)
  | @confirm tid user matchId kind w cache queue changed =>
      refine .inr (.inr ⟨tid, user, matchId, kind, (owesJob_snoc_self rfl).mpr ⟨?_, .inl changed⟩⟩)
      rintro ⟨_, hjob, -⟩
      cases hjob
  | @override tid user matchId dto kind m w read entry' =>
      have horderly : Orderly clients tid h .commitTransaction false := hmade.allowed rfl rfl
      rcases horderly.commit rfl rfl user matchId dto kind with hbefore | hkeeps
      · exact hdue rfl (.inl hbefore)
      · rcases hinv with hcurrent | hinv
        · refine .inl (hcurrent.snoc (fun scope entry hentry => ?_) (fun _ => rfl) ?_)
          · have hcache : ((h.world.saveMatch (overridden m dto)).appendAuditLog entry').cache =
                h.world.cache := by
              rw [saveMatch_eq]
              rfl
            rwa [hcache] at hentry
          · intro scope i limit hcached hstored hreader
            exact (ranked_total_congr rfl rfl rfl).trans
              (hkeeps m w read scope hcached i limit hstored hreader)
        · exact hdue rfl (.inl hinv)
  | @store tid scope filter limit kind value ttl asked =>
      have horderly : Orderly clients tid h (.redisSet (cacheKey scope filter) value ttl) false :=
        hmade.allowed rfl rfl
      rcases hinv with hcurrent | hinv
      · by_cases htotal : filter = .total
        · subst htotal
          rcases horderly.store rfl _ _ _ rfl scope limit kind with hbefore | hunmoved
          · exact hdue rfl (.inl hbefore)
          · refine .inl (hcurrent.store kind fun _ => ?_)
            obtain ⟨e, he, htid, hasks, hdata⟩ := asked rfl
            exact hdata.trans (hunmoved e he htid hasks)
        · exact .inl (hcurrent.store kind fun h => absurd h htotal)
      · exact hdue rfl (.inl hinv)
  | @invalidate tid position kind h₁ job keys past taken deleted =>
      exact current_or_due_invalidate hsteps kind past taken deleted hinv

/-! ## Every run -/

omit [TimeZone] in
/-- Who owes a job has made a call. -/
theorem exists_of_owesJob (howes : OwesJob i h) : ∃ e ∈ h.events, e.tid = i := by
  obtain ⟨init, events⟩ := h
  induction events with
  | nil => cases howes
  | cons e earlier ih =>
      by_cases htid : e.tid = i
      · exact ⟨e, List.mem_cons_self, htid⟩
      · have howes' : OwesJob i (Trace.snoc ⟨init, earlier⟩ e) := howes
        obtain ⟨e', he', htid'⟩ := ih ((owesJob_snoc_other htid).mp howes')
        exact ⟨e', List.mem_cons_of_mem _ he', htid'⟩

variable {c : Running θ}

/-- The steps of an orderly run. -/
theorem boardSteps_of_reach
    (hreach : Reach unlocked (Orderly clients) (Config.start {} (fun i => (clients i).prog) w) c) :
    c.trace.Steps (BoardStep clients (Orderly clients)) ∧
      ∀ i result, c.resultOf i = some result → Ended clients i result c.trace := by
  have hadds : AddsJobs clients (Orderly clients) :=
    fun i user matchId hclient h queue job fails horderly =>
      horderly.announce user matchId hclient queue job rfl
  obtain ⟨hdoes, hended⟩ := boardRun hadds hreach
  refine ⟨fun later event earlier he => ?_, hended⟩
  exact ⟨hreach.made later event earlier he, hdoes later event earlier he⟩

/-- In an orderly run the all-time lists are current, or an invalidation is due. -/
theorem current_or_due (hempty : ∀ scope, w.cache.get (cacheKey scope .total) = none)
    (hreach : Reach unlocked (Orderly clients) (Config.start {} (fun i => (clients i).prog) w) c) :
    Current clients c.trace ∨ Due clients c.trace := by
  obtain ⟨hsteps, -⟩ := boardSteps_of_reach hreach
  have hinit : c.trace.init = w := hreach.init
  refine hsteps.induction (.inl fun scope entry hentry => ?_) fun h e _ hsteps hinv hstep =>
    current_or_due_snoc hsteps hstep.1 hstep.2 hinv
  rw [world_nil, hinit, hempty] at hentry
  cases hentry

/-- When every client has ended and every job was processed, nothing is due. -/
theorem not_due (hreach : Reach unlocked (Orderly clients)
    (Config.start {} (fun i => (clients i).prog) w) c) (hquiet : Quiet c)
    (hprocessed : AllProcessed clients c) : ¬ Due clients c.trace := by
  obtain ⟨hsteps, hended⟩ := boardSteps_of_reach hreach
  rintro (⟨position, job, hjob, hinvalidates, hwaiting⟩ | ⟨i, user, matchId, hclient, howes⟩)
  · obtain ⟨hlt, -⟩ := List.getElem?_eq_some_iff.mp hjob
    obtain ⟨i, response, hclient, hresult⟩ := hprocessed position hlt
    obtain ⟨h₀, job', hpast, htaken, hdone⟩ :=
      (hended i _ hresult).delivered position hclient response rfl
    have hjob' : (c.trace.world.queued .leaderboardQueue)[position]? = some job' :=
      queued_of_past rfl (hsteps.mono fun _ _ h => h.1) hpast
        (show (h₀.world.queued .leaderboardQueue)[position]? = some job' from htaken)
    cases hjob.symm.trans hjob'
    exact hwaiting (hdone hinvalidates)
  · obtain ⟨e, he, rfl⟩ := exists_of_owesJob howes
    obtain ⟨result, hresult⟩ := Option.isSome_iff_exists.mp (hquiet e he)
    exact (hended e.tid result hresult).paid user matchId hclient howes

/-- In an orderly run, whenever no request is in flight and every job was processed, every cached
all-time list is what the query returns on the database. -/
theorem cached_lists_current (hempty : ∀ scope, w.cache.get (cacheKey scope .total) = none)
    (hreach : Reach unlocked (Orderly clients) (Config.start {} (fun i => (clients i).prog) w) c)
    (hquiet : Quiet c) (hprocessed : AllProcessed clients c) : Current clients c.trace :=
  (current_or_due hempty hreach).resolve_right (not_due hreach hquiet hprocessed)

/-! ## Commits between a query and its list -/

/-- Nothing was committed since the reader asked for the wins. -/
def Uncommitted (i : θ) (h : History θ) : Prop :=
  ∀ (h₀ h₁ : History θ) event e, event.tid = i → asksWins event = true →
    Past (h₀.snoc event) h₁ → Past (h₁.snoc e) h → e.op ≠ .commitTransaction

/-- A step that is orderly by what was committed: a reader stores an all-time list if nothing was
committed since its query, or while an invalidation is due. -/
structure Committed (clients : θ → BoardClient) (i : θ) (h : History θ) (op : Call)
    (fails : Bool) : Prop where
  store : fails = false → ∀ key value ttl, op = .redisSet key value ttl →
    ∀ scope limit, clients i = .read scope .total limit → Due clients h ∨ Uncommitted i h
  commit : fails = false → op = .commitTransaction → ∀ user matchId dto,
    clients i = .override user matchId dto → Due clients h ∨ KeepsLists clients i matchId dto h
  announce : ∀ user matchId, clients i = .confirm user matchId → ∀ queue job,
    op = .add queue job → fails = false

omit [DecidableEq θ] in
/-- Only commits move the all-time lists. -/
theorem ranked_of_does (hdoes : (clients event.tid).Does h event)
    (hop : event.op ≠ .commitTransaction) :
    event.world.ranked scope .total limit = h.world.ranked scope .total limit := by
  cases hdoes with
  | quiet quiet =>
      exact ranked_total_congr quiet.same.matchRows quiet.same.players quiet.same.users
  | announce invalidates => exact ranked_total_congr rfl rfl rfl
  | confirm kind cache queue changed => exact absurd rfl hop
  | override kind read entry => exact absurd rfl hop
  | store kind asked => exact ranked_total_congr rfl rfl rfl
  | invalidate kind past taken deleted => exact ranked_total_congr rfl rfl rfl

omit [DecidableEq θ] in
/-- Without a commit the list of a reader has not moved. -/
theorem unmoved_of_uncommitted (hsteps : h.Steps (BoardStep clients allow))
    (huncommitted : Uncommitted i h) (scope : Scope) (limit : Nat) : Unmoved i scope limit h := by
  intro event hevent htid hasks
  obtain ⟨h₀, hpast⟩ := past_of_mem hevent
  by_contra hmoved
  obtain ⟨h₁, e, hpast₁, hpast₂, hsame, hdiffers⟩ := hpast.exists_step
    (P := fun w => event.world.ranked scope .total limit ≠ w.ranked scope .total limit)
    (fun hne => hne rfl) hmoved
  have hop := huncommitted h₀ h₁ event e htid hasks hpast₁ hpast₂
  exact hdiffers ((not_ne_iff.mp hsame).trans (ranked_of_does (hsteps.of_past hpast₂).2 hop).symm)

/-- If nothing is committed between the query of a reader and its list, or an invalidation is due
then, every cached all-time list is in the end what the query returns on the database. -/
theorem cached_lists_current_of_committed
    (hempty : ∀ scope, w.cache.get (cacheKey scope .total) = none)
    (hreach : Reach unlocked (Committed clients) (Config.start {} (fun i => (clients i).prog) w) c)
    (hquiet : Quiet c) (hprocessed : AllProcessed clients c) : Current clients c.trace := by
  have hadds : AddsJobs clients (Committed clients) :=
    fun i user matchId hclient h queue job fails hcommitted =>
      hcommitted.announce user matchId hclient queue job rfl
  refine cached_lists_current hempty (hreach.strengthen fun c i op fails hreach hcommitted => ?_)
    hquiet hprocessed
  have hsteps : c.trace.Steps (BoardStep clients (Committed clients)) :=
    fun later event earlier he =>
      ⟨hreach.made later event earlier he, (boardRun hadds hreach).1 later event earlier he⟩
  refine ⟨fun hok key value ttl hop scope limit hclient => ?_, hcommitted.commit,
    hcommitted.announce⟩
  exact (hcommitted.store hok key value ttl hop scope limit hclient).imp_right fun huncommitted =>
    unmoved_of_uncommitted hsteps huncommitted scope limit

end

/-! ## A reader and a confirmation -/

/-- The match of the duel, one vote short of its confirmation. -/
def duelVoted : World :=
  (World.withUsers signedIn).run (duel ++ [.request ⟨mario, .confirmResult 1⟩])

/-- A reader, the last vote, the delivery of its job, and another reader. -/
def readersAndVote : Fin 4 → BoardClient
  | 0 | 3 => .read .users .total 10
  | 1 => .confirm rival 1
  | 2 => .delivery 0

/-- A step at which no call fails and the list of a reader has not moved. -/
def inOrder [TimeZone] (i : Fin 4) (h : History (Fin 4)) (_ : Call) (fails : Bool) : Prop :=
  fails = false ∧ ∀ event ∈ h.events, event.tid = i → asksWins event = true →
    event.world.ranked .users .total 10 = h.world.ranked .users .total 10

instance [TimeZone] (i : Fin 4) (h : History (Fin 4)) (op : Call) (fails : Bool) :
    Decidable (inOrder i h op fails) := inferInstanceAs (Decidable (_ ∧ ∀ _ ∈ _, _))

theorem orderly_of_inOrder [TimeZone] (i : Fin 4) (h : History (Fin 4)) (op : Call) (fails : Bool)
    (hin : inOrder i h op fails) : Orderly readersAndVote i h op fails := by
  refine ⟨fun _ _ _ _ _ scope limit hclient => .inr ?_, fun _ _ user matchId dto hclient => ?_,
    fun _ _ _ _ _ _ => hin.1⟩
  · obtain ⟨rfl, rfl⟩ : scope = .users ∧ limit = 10 := by
      match i, hclient with
      | 0, hclient | 3, hclient =>
          obtain ⟨hscope, -, hlimit⟩ := BoardClient.read.inj hclient
          exact ⟨hscope.symm, hlimit.symm⟩
    exact hin.2
  · match i, hclient with
    | 0, hclient | 1, hclient | 2, hclient | 3, hclient => cases hclient

/-- The clients of a run have ended, and its one job was processed. -/
def settled (c : Running (Fin 4)) : Prop :=
  (∀ event ∈ c.trace.events, (c.resultOf event.tid).isSome = true) ∧
    c.trace.world.leaderboardQueue.length = 1 ∧ c.resultOf 2 = some (.ok .noContent)

instance (c : Running (Fin 4)) : Decidable (settled c) :=
  inferInstanceAs (Decidable ((∀ _ ∈ _, _) ∧ _ ∧ _))

theorem allProcessed_of_settled {c : Running (Fin 4)} (h : settled c) :
    AllProcessed readersAndVote c := by
  intro position hlt
  rw [h.2.1] at hlt
  obtain rfl : position = 0 := by omega
  exact ⟨2, .noContent, rfl, h.2.2⟩

theorem cache_duelVoted (scope : Scope) : duelVoted.cache.get (cacheKey scope .total) = none := by
  cases scope <;> decide

open Utc in
/-- The first reader stores an empty list, the job of the confirmation deletes it, and the second
reader stores the list with the winner. -/
theorem cached_lists_current_duel :
    ∃ c : Running (Fin 4), Current readersAndVote c.trace ∧
      (c.trace.world.cache.get (cacheKey .users .total)).map (·.value.data) =
        some (.users [⟨⟨1, "mario", 1⟩, 1⟩]) := by
  obtain ⟨c, hreach, hrun⟩ := Reach.exists_of_execute unlocked inOrder
    (Config.start {} (fun i => (readersAndVote i).prog) duelVoted)
    (.replicate 4 (0, false) ++ .replicate 16 (1, false) ++ .replicate 2 (2, false) ++
      .replicate 4 (3, false))
    (fun c => settled c ∧ (c.trace.world.cache.get (cacheKey .users .total)).map (·.value.data) =
      some (.users [⟨⟨1, "mario", 1⟩, 1⟩])) (by decide)
  obtain ⟨hsettled, hlist⟩ := of_decide_eq_true hrun
  exact ⟨c, cached_lists_current cache_duelVoted (hreach.mono orderly_of_inOrder) hsettled.1
    (allProcessed_of_settled hsettled), hlist⟩

open Utc in
/-- The reader queries before the confirmation and stores after the deletion, in a run that the row
locks admit. -/
theorem not_cached_lists_current_duel :
    ¬ ∀ (clients : Fin 4 → BoardClient) (w : World) (c : Running (Fin 4)),
      (∀ scope, w.cache.get (cacheKey scope .total) = none) →
      Reach unlocked (fun i h op fails => (rowLocks fun _ => true).Admits i h op fails ∧
        fails = false) (Config.start {} (fun i => (clients i).prog) w) c →
      Quiet c → AllProcessed clients c → Current clients c.trace := by
  intro h
  obtain ⟨c, hreach, hrun⟩ := Reach.exists_of_execute unlocked
    (fun i h op fails => (rowLocks fun _ => true).Admits i h op fails ∧ fails = false)
    (Config.start {} (fun i => (readersAndVote i).prog) duelVoted)
    (.replicate 3 (0, false) ++ .replicate 16 (1, false) ++ .replicate 2 (2, false) ++
      .replicate 1 (0, false))
    (fun c => settled c ∧ (c.trace.world.cache.get (cacheKey .users .total)).map (·.value.data) =
      some (.users []) ∧ storedBy c.trace (cacheKey .users .total) = some 0 ∧
        c.trace.world.ranked .users .total 10 = .users [⟨⟨1, "mario", 1⟩, 1⟩]) (by decide)
  obtain ⟨hsettled, hlist, hstored, hranked⟩ := of_decide_eq_true hrun
  obtain ⟨entry, hentry, hdata⟩ := Option.map_eq_some_iff.mp hlist
  obtain ⟨i, limit, hstored', hclient, hcurrent⟩ :=
    h readersAndVote duelVoted c cache_duelVoted hreach
    hsettled.1 (allProcessed_of_settled hsettled) .users entry hentry
  obtain rfl := Option.some.inj (hstored.symm.trans hstored')
  obtain rfl : 10 = limit := (BoardClient.read.inj hclient).2.2
  rw [hdata, hranked] at hcurrent
  revert hcurrent
  decide

end FoosballApi.Leaderboard
