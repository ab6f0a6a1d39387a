import FoosballApi.Calls.Refines
import FoosballApi.Leaderboard.CacheText
import FoosballApi.Leaderboard.OffCache

/-!
# The leaderboard over a cache of texts

What the service does with Redis, with its texts: a read gets a text, parses it and spreads what it
was parsed to into its answer, and a result is stored as a text. The cache of results of
`LeaderboardService` is what such a cache denotes: every interleaved run over the texts is a run
over the results, in which the same calls fail and the answers are the ones written in JSON
(`text_cache_refines`).
-/

namespace FoosballApi.Leaderboard

open Calls Data Events Matches Matches.World Prog Text Trace Users Worker

/-! ## The texts -/

/-- A text in Redis with its time to live in seconds. -/
structure TextEntry where
  key : String
  text : String
  ttl : Nat
  deriving DecidableEq, Repr

/-- The database and the queues, and Redis with its texts. -/
structure TextWorld where
  store : World
  texts : Table TextEntry.key

/-- The calls over a cache of texts. -/
inductive TextCall where
  | base (op : Call)
  | get (key : String)
  | set (key text : String) (ttl : Nat)
  | del (keys : List String)

/-- The result of a call. -/
@[reducible] def TextCall.Result : TextCall → Type
  | .base op => op.Result
  | .get _ => Option String
  | .set .. | .del _ => Unit

/-- The effect and result of each call. -/
def textExec : (op : TextCall) → Session → TextWorld →
    Except Failure op.Result × Session × TextWorld
  | .base op, s, w =>
      let (result, s', store) := exec op s w.store
      (result, s', { w with store := store })
  | .get key, s, w => (.ok ((w.texts.get key).map (·.text)), s, w)
  | .set key text ttl, s, w => (.ok (), s, { w with texts := w.texts.put ⟨key, text, ttl⟩ })
  | .del keys, s, w => (.ok (), s, { w with texts := w.texts.keep (·.key ∉ keys) })

/-- The calls over the texts; every command of Redis can fail. -/
def textSystem : System TextCall TextCall.Result Failure Session TextWorld where
  exec := textExec
  fault
    | .base op => system.fault op
    | _ => some .unavailable
  held _ := false
  waits _ := false
  enter _ _ _ h := .inl h

/-- A method over a cache of texts. -/
abbrev TextApi (α : Type) := Prog TextCall TextCall.Result Failure α

/-- Issue one call over a cache of texts. -/
abbrev awaitText (op : TextCall) : TextApi op.Result := Prog.perform op

/-- A program over the database and the queues alone. -/
def onStore {α : Type} : Api α → TextApi α
  | .pure value => .pure value
  | .throw error => .throw error
  | .call op next => .call (.base op) fun result => onStore (next result)

namespace TextService

/-- `cacheKey(scope, filter)`. -/
def cacheKey (scope : Scope) (filter : TimeFilter) : String :=
  "leaderboard:" ++ scope.text ++ ":" ++ filter.text

/-- `if (cached) { const parsed = JSON.parse(cached); … }`. The message of the error is not used. -/
def parsed (cached : Option String) : TextApi (Option Json) :=
  match cached.filter (· ≠ "") with
  | none => return none
  | some cached => some <$> Prog.require (Json.parse cached.toList) (.plain "SyntaxError")

/-- The first `try` block of `getUserLeaderboard` and `getPairLeaderboard`: the value of the cached
text, if there is one and it is not empty. -/
def cachedValue (key : String) : TextApi (Option Json) := do
  let cached ← awaitText (.get key)
  parsed cached

/-- The body of `getUserLeaderboard` and `getPairLeaderboard`. -/
def getLeaderboard [TimeZone] (scope : Scope) (filter : TimeFilter) (limit : Nat) :
    TextApi Json := do
  let key := cacheKey scope filter
  let generatedAt ← awaitText (.base .now)
  match ← Prog.attempt (cachedValue key) with
  | .ok (some parsed) => return withStatus parsed .hit
  | .error _ => do
      let data ← onStore (LeaderboardService.ranked scope filter limit)
      return LeaderboardResult.json ⟨⟨filter, data, generatedAt⟩, .bypass⟩
  | .ok none => do
      let data ← onStore (LeaderboardService.ranked scope filter limit)
      let result : CachedResult := ⟨filter, data, generatedAt⟩
      let _ ← Prog.attempt (awaitText (.set key result.text (LeaderboardService.cacheTtl filter)))
      return LeaderboardResult.json ⟨result, .miss⟩

/-- `if (keys.length > 0) { await this.redis.del(...keys); }`. -/
def delKeys (keys : List String) : TextApi Unit :=
  if 0 < keys.length then awaitText (.del keys) else return ()

/-- `invalidateCache(scopes)`. -/
def invalidateCache (scopes : Option (List Scope)) : TextApi Unit := do
  let targetScopes := scopes.getD [.users, .pairs]
  let _ ← Prog.attempt (delKeys (targetScopes.flatMap fun scope =>
    [TimeFilter.week, .month, .year, .total].map (cacheKey scope)))
  return ()

/-- The keys that the worker deletes. -/
def keysToDelete (queuePrefix : Option String) (affectedFilters : List TimeFilter) :
    List String :=
  [Scope.users, .pairs].flatMap fun scope =>
    affectedFilters.map fun filter =>
      queuePrefix.getD "leaderboard" ++ ":" ++ scope.text ++ ":" ++ filter.text

/-- `LeaderboardInvalidateProcessor.process(job)`. -/
def process (queuePrefix : Option String) (job : EventEnvelope) : TextApi Unit := do
  Prog.throwIf (job.version ≠ 1) (.plain s!"Unsupported event version: {job.version}")
  match job.payload with
  | .leaderboardInvalidate _ affectedFilters => delKeys (keysToDelete queuePrefix affectedFilters)
  | _ => Prog.throw (.plain "Cannot read properties of undefined (reading 'join')")

/-- A delivery of the job at a position of the leaderboard queue. -/
def deliverLeaderboard (queuePrefix : Option String) (position : Nat) : TextApi Unit := do
  let job ← awaitText (.base (.takeJob .leaderboardQueue position))
  let job ← Prog.require job .unavailable
  process queuePrefix job

end TextService

/-! ## The results -/

namespace LeaderboardService

/-- `invalidateCache(scopes)`. -/
def invalidateCache (scopes : Option (List Scope)) : Api Unit := do
  let targetScopes := scopes.getD [.users, .pairs]
  let keys := targetScopes.flatMap fun scope =>
    [TimeFilter.week, .month, .year, .total].map (cacheKey scope)
  let _ ← Prog.attempt (if 0 < keys.length then await (.redisDel keys) else return ())
  return ()

end LeaderboardService

/-- Who takes part in a run: reads, invalidations, the worker, the requests of the two apps, Redis
with its times to live, and the clock. -/
inductive CacheClient where
  | read (scope : Scope) (filter : TimeFilter) (limit : Nat)
  | invalidate (scopes : Option (List Scope))
  | delivery (queuePrefix : Option String) (position : Nat)
  | app (request : AppRequest)
  | expire (keys : List CacheKey)
  | tick (elapsed : Nat)

/-- The program of a client over the texts. -/
def CacheClient.textProg [TimeZone] : CacheClient → TextApi (Option Json)
  | .read scope filter limit => do return some (← TextService.getLeaderboard scope filter limit)
  | .invalidate scopes => do
      TextService.invalidateCache scopes
      return none
  | .delivery queuePrefix position => do
      TextService.deliverLeaderboard queuePrefix position
      return none
  | .app request => do
      onStore request.prog
      return none
  | .expire keys => do
      awaitText (.del (keys.map CacheKey.text))
      return none
  | .tick elapsed => do
      awaitText (.base (.tick elapsed))
      return none

/-- The program of a client over the results. -/
def CacheClient.prog [TimeZone] : CacheClient → Api (Option LeaderboardResult)
  | .read scope filter limit => do
      return some (← LeaderboardService.getLeaderboard scope filter limit)
  | .invalidate scopes => do
      LeaderboardService.invalidateCache scopes
      return none
  | .delivery queuePrefix position => do
      deliverLeaderboard queuePrefix position
      return none
  | .app request => do
      request.prog
      return none
  | .expire keys => do
      await (.redisDel keys)
      return none
  | .tick elapsed => do
      await (.tick elapsed)
      return none

/-! ## The refinement -/

/-- A call over the texts and the call over the results it stands for. -/
inductive Stands : TextCall → Call → Prop where
  | base {op : Call} (offCache : op.onCache = false) : Stands (.base op) op
  | get (key : CacheKey) : Stands (.get key.text) (.redisGet key)
  | set (key : CacheKey) (value : CachedResult) (ttl : Nat) :
      Stands (.set key.text value.text ttl) (.redisSet key value ttl)
  | del (keys : List CacheKey) : Stands (.del (keys.map CacheKey.text)) (.redisDel keys)

/-- Two results that stand for one another: a text for what it was written of. -/
def Agree : (op : TextCall) → (op' : Call) → op.Result → op'.Result → Prop
  | .base _, _, value, value' => HEq value value'
  | .get _, .redisGet _, cached, found => cached = found.map CachedResult.text
  | _, _, _, _ => True

/-- The calls over the texts and the results. -/
def cacheTexts : Translation TextCall Call TextCall.Result Call.Result where
  calls := Stands
  results := Agree

/-- What Redis holds for an entry of the cache. -/
def CacheEntry.written (entry : CacheEntry) : TextEntry :=
  ⟨entry.key.text, entry.value.text, entry.ttl⟩

/-- The same database and queues, and under the text of each key what was written of its result. -/
structure Denotes (w : TextWorld) (w' : World) : Prop where
  store : w' = w.store.withCache w'.cache
  texts : ∀ key : CacheKey, w.texts.get key.text = (w'.cache.get key).map CacheEntry.written

theorem Denotes.put {w : TextWorld} {w' : World} (h : Denotes w w') (entry : CacheEntry) :
    Denotes { w with texts := w.texts.put entry.written } (w'.setCache entry) where
  store := congrArg (World.setCache · entry) h.store
  texts key := by
    show (w.texts.put entry.written).get key.text = ((w'.cache.put entry).get key).map _
    have hwritten : entry.written.key = entry.key.text := rfl
    rw [Table.get_put, Table.get_put, hwritten]
    by_cases hkey : key = entry.key
    · subst hkey
      rw [if_pos rfl, if_pos rfl]
      rfl
    · rw [if_neg hkey, if_neg (mt (CacheKey.text_injective ·) hkey), h.texts]

theorem Denotes.del {w : TextWorld} {w' : World} (h : Denotes w w') (keys : List CacheKey) :
    Denotes { w with texts := w.texts.keep (·.key ∉ keys.map CacheKey.text) }
      (w'.delCache keys) where
  store := congrArg (World.delCache · keys) h.store
  texts key := by
    show (w.texts.keep _).get key.text = ((w'.cache.keep _).get key).map _
    rw [Table.get_keep, Table.get_keep, h.texts]
    cases hentry : w'.cache.get key with
    | none => rfl
    | some entry =>
        have hmem : entry.key.text ∈ keys.map CacheKey.text ↔ entry.key ∈ keys :=
          List.mem_map_of_injective CacheKey.text_injective
        by_cases hdeleted : entry.key ∈ keys <;>
          simp [CacheEntry.written, Option.filter, hdeleted, hmem]

/-- A cache of texts does what the cache of results does. -/
theorem textSystem_simulates : Simulates cacheTexts Denotes textSystem unlocked where
  fault h := by cases h <;> rfl
  waits h := by cases h <;> rfl
  held _ := rfl
  exec := by
    intro op op' session w w' hcalls hw
    cases hcalls with
    | base offCache =>
        have hexec := exec_withCache offCache session w.store w'.cache
        rw [← hw.store] at hexec
        show ExceptRel _ (exec op' session w.store).1 (exec op' session w').1 ∧ _
        rw [show unlocked.exec op' session w' = exec op' session w' from rfl, hexec]
        refine ⟨?_, rfl, rfl, hw.texts⟩
        cases (exec op' session w.store).1 with
        | ok value => exact .ok HEq.rfl
        | error failure => exact .error failure
    | get key =>
        refine ⟨.ok ?_, rfl, hw⟩
        show (w.texts.get key.text).map _ = ((w'.cache.get key).map _).map _
        rw [hw.texts]
        cases w'.cache.get key <;> rfl
    | set key value ttl => exact ⟨.ok trivial, rfl, hw.put ⟨key, value, ttl⟩⟩
    | del keys => exact ⟨.ok trivial, rfl, hw.del keys⟩

/-! ## The programs -/

/-- A program over the database and the queues alone does the same over the texts. -/
theorem onStore_refines {α : Type} {program : Api α} (h : OffCache program) :
    (onStore program).Refines cacheTexts Eq program := by
  obtain ⟨hissues⟩ := h
  induction program with
  | pure value => exact .pure rfl
  | throw failure => exact .throw failure
  | call op next ih =>
      refine .call (.base hissues.1) (fun a b hagree => ?_) fun failure => ih _ (hissues.2 _)
      obtain rfl : a = b := eq_of_heq hagree
      exact ih _ (hissues.2 _)

theorem ranked_offCache [TimeZone] (scope : Scope) (filter : TimeFilter) (limit : Nat) :
    OffCache (LeaderboardService.ranked scope filter limit) := by
  have hstart : OffCache (LeaderboardRepository.getStartDate filter) := by
    cases filter with
    | total => exact offCache_pure
    | week | month | year => exact offCache_await rfl fun _ => offCache_pure
  cases scope with
  | users => exact offCache_map (offCache_bind hstart fun _ => offCache_perform rfl)
  | pairs => exact offCache_map (offCache_bind hstart fun _ => offCache_perform rfl)

theorem parsed_text (value : CachedResult) :
    TextService.parsed (some value.text) = .pure (some (Plain.object value.members).toJson) := by
  have hnonempty : (some value.text).filter (· ≠ "") = some value.text := by
    simp [Option.filter, value.text_ne_empty]
  unfold TextService.parsed
  rw [hnonempty]
  dsimp only
  rw [value.parse_text]
  rfl

theorem cacheKey_text (scope : Scope) (filter : TimeFilter) :
    (LeaderboardService.cacheKey scope filter).text = TextService.cacheKey scope filter := by
  cases scope <;> cases filter <;> decide

/-- What a cached text was written of is what the cache of results answers. -/
theorem cachedValue_refines (key : CacheKey) :
    (TextService.cachedValue key.text).Refines cacheTexts
      (fun parsed found => parsed = found.map fun value => (Plain.object value.members).toJson)
      (await (.redisGet key)) := by
  refine .call (.get key) (fun cached found hcached => ?_) fun failure => .throw failure
  obtain rfl : cached = found.map CachedResult.text := hcached
  cases found with
  | none => exact .pure rfl
  | some value =>
      show Refines _ _ (TextService.parsed (some value.text)) _
      rw [parsed_text]
      exact .pure rfl

theorem getLeaderboard_refines [TimeZone] (scope : Scope) (filter : TimeFilter) (limit : Nat) :
    (TextService.getLeaderboard scope filter limit).Refines cacheTexts
      (fun answer result => answer = result.json)
      (LeaderboardService.getLeaderboard scope filter limit) := by
  have hranked := onStore_refines (ranked_offCache scope filter limit)
  refine Refines.perform_bind (.base rfl) fun generatedAt generatedAt' hnow => ?_
  obtain rfl : generatedAt = generatedAt' := eq_of_heq hnow
  rw [← cacheKey_text]
  refine Refines.bind (cachedValue_refines _).attempt fun cached found hcached => ?_
  cases hcached with
  | error failure =>
      refine hranked.bind fun data data' hdata => ?_
      subst hdata
      exact .pure rfl
  | @ok parsed found hparsed =>
      subst hparsed
      cases found with
      | some value => exact .pure rfl
      | none =>
          refine hranked.bind fun data data' hdata => ?_
          subst hdata
          exact Refines.bind (Refines.perform (Stands.set _ _ _)).attempt fun _ _ _ => .pure rfl

/-- The texts of the keys of some scopes and filters. -/
theorem keys_text (key : Scope → TimeFilter → CacheKey) (scopes : List Scope)
    (filters : List TimeFilter) :
    (scopes.flatMap fun scope => filters.map fun filter => key scope filter).map CacheKey.text =
      scopes.flatMap fun scope => filters.map fun filter => (key scope filter).text := by
  rw [List.map_flatMap]
  simp only [List.map_map, Function.comp_def]

/-- The deletion of some keys, if there are any. -/
theorem delKeys_refines {keys : List CacheKey} {texts : List String}
    (htexts : texts = keys.map CacheKey.text) :
    Refines cacheTexts (fun _ _ => True) (TextService.delKeys texts)
      (if 0 < keys.length then await (.redisDel keys) else .pure ()) := by
  rw [htexts, TextService.delKeys, List.length_map]
  split
  · exact .call (Stands.del keys) (fun _ _ _ => .pure trivial) fun failure => .throw failure
  · exact .pure trivial

theorem invalidateCache_refines (scopes : Option (List Scope)) :
    (TextService.invalidateCache scopes).Refines cacheTexts (fun _ _ => True)
      (LeaderboardService.invalidateCache scopes) := by
  refine Refines.bind (delKeys_refines ?_).attempt fun _ _ _ => .pure trivial
  rw [keys_text LeaderboardService.cacheKey]
  simp only [cacheKey_text]

theorem deliverLeaderboard_refines (queuePrefix : Option String) (position : Nat) :
    (TextService.deliverLeaderboard queuePrefix position).Refines cacheTexts (fun _ _ => True)
      (deliverLeaderboard queuePrefix position) := by
  refine Refines.perform_bind (.base rfl) fun job job' hjob => ?_
  obtain rfl : job = job' := eq_of_heq hjob
  cases job with
  | none => exact .throw _
  | some job =>
      show (TextService.process queuePrefix job).Refines _ _
        (LeaderboardInvalidateProcessor.process queuePrefix job)
      unfold TextService.process LeaderboardInvalidateProcessor.process
      refine Refines.throwIf_bind fun _ => ?_
      cases job.payload with
      | leaderboardInvalidate reason affectedFilters =>
          exact delKeys_refines (keys_text (CacheKey.mk (queuePrefix.getD "leaderboard")) _ _).symm
      | _ => exact .throw _

/-- What a client answers over the texts is what it answers over the results, written in JSON. -/
def Written (answer : Option Json) (result : Option LeaderboardResult) : Prop :=
  answer = result.map LeaderboardResult.json

theorem CacheClient.refines [TimeZone] (client : CacheClient) :
    client.textProg.Refines cacheTexts Written client.prog := by
  cases client with
  | read scope filter limit =>
      exact (getLeaderboard_refines scope filter limit).bind fun _ _ hjson =>
        .pure (congrArg some hjson)
  | invalidate scopes => exact (invalidateCache_refines scopes).bind fun _ _ _ => .pure rfl
  | delivery queuePrefix position =>
      exact (deliverLeaderboard_refines queuePrefix position).bind fun _ _ _ => .pure rfl
  | app request => exact (onStore_refines request.offCache).bind fun _ _ _ => .pure rfl
  | expire keys => exact Refines.perform_bind (Stands.del keys) fun _ _ _ => .pure rfl
  | tick elapsed => exact Refines.perform_bind (Stands.base rfl) fun _ _ _ => .pure rfl

/-! ## Runs -/

variable {θ : Type} [DecidableEq θ]

/-- Any call may be scheduled, and may fail. -/
def anyCall {ι : Type} {ρ : ι → Type} {σ : Type} (_ : θ) (_ : Trace θ ι ρ Failure σ) (_ : ι)
    (_ : Bool) : Prop := True

instance {ι : Type} {ρ : ι → Type} {σ : Type} (tid : θ) (h : Trace θ ι ρ Failure σ) (op : ι)
    (fails : Bool) : Decidable (anyCall tid h op fails) := .isTrue trivial

/-- The clients over the texts, at the start. -/
def TextWorld.begin [TimeZone] (w : TextWorld) (clients : θ → CacheClient) :
    Config θ TextCall TextCall.Result Failure Session TextWorld (Option Json) :=
  .start {} (fun i => (clients i).textProg) w

/-- The clients over the results, at the start. -/
def beginCached [TimeZone] (w : World) (clients : θ → CacheClient) :
    Config θ Call Call.Result Failure Session World (Option LeaderboardResult) :=
  .start {} (fun i => (clients i).prog) w

/-- The steps over the texts whose counterparts over the results are allowed. -/
def Mirrored (allow : θ → History θ → Call → Bool → Prop) (tid : θ)
    (h : Trace θ TextCall TextCall.Result Failure TextWorld) (op : TextCall) (fails : Bool) :
    Prop :=
  ∀ h' op', h.Refines cacheTexts Denotes h' → Stands op op' → allow tid h' op' fails

/-- Every interleaved run over a cache of texts is a run over the cache of results that it denotes,
in which the same calls are made and fail, and every answer is the JSON of the one made there. What
restricts the schedules over the texts, such as row locks, restricts those over the results. -/
theorem text_cache_refines [TimeZone] {clients : θ → CacheClient}
    {allow : θ → History θ → Call → Bool → Prop} {w : TextWorld} {w' : World}
    (hworld : Denotes w w')
    {c : Config θ TextCall TextCall.Result Failure Session TextWorld (Option Json)}
    (hreach : Reach textSystem (Mirrored allow) (w.begin clients) c) :
    ∃ c', Reach unlocked allow (beginCached w' clients) c' ∧
      c.trace.Refines cacheTexts Denotes c'.trace ∧
      ∀ i answer, c.resultOf i = some answer →
        ∃ result, c'.resultOf i = some result ∧ ExceptRel Written answer result := by
  obtain ⟨c', hreach', hrefines⟩ := hreach.refines textSystem_simulates hworld
    (fun i => (clients i).refines)
    fun _ _ _ _ _ _ hrefines hstands hmirrored => hmirrored _ _ hrefines hstands
  exact ⟨c', hreach', hrefines.trace, fun i answer hanswer => hrefines.result hanswer⟩

omit [DecidableEq θ] in
/-- Any call may mirror any call. -/
theorem mirrored_anyCall (tid : θ) (h : Trace θ TextCall TextCall.Result Failure TextWorld)
    (op : TextCall) (fails : Bool) (_ : anyCall tid h op fails) :
    Mirrored (fun i (h' : History θ) op' fails => anyCall i h' op' fails) tid h op fails :=
  fun _ _ _ _ => trivial

/-- Redis is empty, and so is the cache. -/
theorem Denotes.empty {w : World} (hempty : w.cache = .empty _) : Denotes ⟨w, .empty _⟩ w where
  store := rfl
  texts key := by
    rw [hempty]
    rfl

/-- Two reads of the same list, with different limits. -/
def twoReads : Fin 2 → CacheClient
  | 0 => .read .users .total 10
  | 1 => .read .users .total 1

/-- A client has answered from the cache. -/
def isHit : Option (Except Failure (Option Json)) → Bool
  | some (.ok (some answer)) =>
      match answer.field? "cacheStatus" with
      | some (.string text) => text = CacheStatus.hit.text
      | _ => false
  | _ => false

open Utc in
/-- The second reader parses the text that the first has stored. -/
theorem twoReads_run :
    ∃ c, Reach textSystem anyCall
        (TextWorld.begin ⟨(withUsers signedIn).run duelConfirmed, .empty _⟩ twoReads) c ∧
      isHit (c.resultOf 1) = true :=
  Reach.exists_of_execute textSystem anyCall _
    (.replicate 4 (0, false) ++ .replicate 2 (1, false)) (fun c => isHit (c.resultOf 1))
    (by decide +kernel)

theorem cache_duelConfirmed : ((withUsers signedIn).run duelConfirmed).cache = .empty _ := by
  decide +kernel

open Utc in
theorem text_cache_refines_reads :
    ∃ c c', Reach textSystem anyCall
        (TextWorld.begin ⟨(withUsers signedIn).run duelConfirmed, .empty _⟩ twoReads) c ∧
      Reach unlocked anyCall (beginCached ((withUsers signedIn).run duelConfirmed) twoReads) c' ∧
        isHit (c.resultOf 1) = true ∧
          ∀ answer, c.resultOf 1 = some (.ok answer) →
            ∃ result, c'.resultOf 1 = some (.ok result) ∧ Written answer result := by
  obtain ⟨c, hreach, hhit⟩ := twoReads_run
  obtain ⟨c', hreach', -, hanswers⟩ := text_cache_refines (.empty cache_duelConfirmed)
    (hreach.mono mirrored_anyCall)
  refine ⟨c, c', hreach, hreach', hhit, fun answer hanswer => ?_⟩
  obtain ⟨result, hresult, hwritten⟩ := hanswers 1 _ hanswer
  cases hwritten with
  | ok related => exact ⟨_, hresult, related⟩

end FoosballApi.Leaderboard
