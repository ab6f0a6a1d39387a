import FoosballApi.Leaderboard.LeaderboardService
import FoosballApi.Matches.Queues
import FoosballApi.Matches.RowLocks
import FoosballApi.Worker.Processors

/-!
# Runs of leaderboard clients

Leaderboard reads, confirmations, overrides and deliveries of invalidation jobs, interleaved in any
order, also one that no row lock admits: what each call of theirs does to the rows the leaderboard
is computed from, to the cache and to the leaderboard queue, and what holds when a client has ended.
-/

namespace FoosballApi.Leaderboard

open Calls Events LeaderboardService Matches Matches.World Prog Text Trace Worker

/-- Who takes part in a run. -/
inductive BoardClient where
  | read (scope : Scope) (filter : TimeFilter) (limit : Nat)
  | confirm (user : JwtPayload) (matchId : MatchId)
  | override (user : JwtPayload) (matchId : MatchId) (dto : AdminOverrideResultDto)
  | delivery (position : Nat)

/-- The program of a client; `QUEUE_PREFIX` is unset. -/
def BoardClient.prog [TimeZone] : BoardClient → Api Response
  | .read .users filter limit => do
      let _ ← getUserLeaderboard filter limit
      return .noContent
  | .read .pairs filter limit => do
      let _ ← getPairLeaderboard filter limit
      return .noContent
  | .confirm user matchId => Request.prog ⟨user, .confirmResult matchId⟩
  | .override user matchId dto => Request.prog ⟨user, .adminOverrideResult matchId dto⟩
  | .delivery position => do
      deliverLeaderboard none position
      return .noContent

variable {θ : Type}

/-! ## What is read off a run -/

/-- The call has stored a list under a key. -/
def stores (key : CacheKey) : CallEvent θ → Bool
  | ⟨_, .redisSet key' _ _, .ok (), _⟩ => key' = key
  | _ => false

/-- The call has deleted keys. -/
def deletes : CallEvent θ → Bool
  | ⟨_, .redisDel _, .ok (), _⟩ => true
  | _ => false

/-- The call has asked the database for wins. -/
def asksWins : CallEvent θ → Bool
  | ⟨_, .queryUserWins .., .ok _, _⟩ | ⟨_, .queryPairWins .., .ok _, _⟩ => true
  | _ => false

/-- The job makes the worker delete the all-time lists. -/
def InvalidatesTotal (job : EventEnvelope) : Prop :=
  job.version = 1 ∧ match job.payload with
    | .leaderboardInvalidate _ affectedFilters => .total ∈ affectedFilters
    | _ => False

/-- The services name all four filters. -/
theorem invalidatesTotal_all (reason : InvalidateReason) (occurredAt : Date) :
    InvalidatesTotal ⟨.leaderboardInvalidate, 1, occurredAt,
      .leaderboardInvalidate reason [.week, .month, .year, .total]⟩ := by
  refine ⟨rfl, ?_⟩
  show TimeFilter.total ∈ [TimeFilter.week, .month, .year, .total]
  decide

/-- The call has added a job that makes the worker delete the all-time lists. -/
def Announces (event : CallEvent θ) : Prop :=
  ∃ job, (.leaderboardQueue, job) ∈ jobsOfEvent event ∧ InvalidatesTotal job

/-- A client has changed the matches or their players and has added no job since. -/
def OwesJob [DecidableEq θ] (i : θ) (h : History θ) : Prop :=
  tally (fun w event owed => ¬ Announces event ∧
    (¬ (event.world.matchRows = w.matchRows ∧ event.world.players = w.players) ∨ owed)) False
    i h.init h.events

/-- The row an override saves, for the match it has read. -/
def overridden (m : MatchEntity) (dto : AdminOverrideResultDto) : MatchEntity :=
  { m with scoreA := some dto.scoreA, scoreB := some dto.scoreB }

/-! ## What the calls do -/

/-- Two worlds with the same leaderboard, cache and leaderboard queue. -/
structure SameBoard (w w' : World) : Prop where
  matchRows : w'.matchRows = w.matchRows
  players : w'.players = w.players
  users : w'.users = w.users
  cache : w'.cache = w.cache
  leaderboardQueue : w'.leaderboardQueue = w.leaderboardQueue

theorem SameBoard.refl (w : World) : SameBoard w w := ⟨rfl, rfl, rfl, rfl, rfl⟩

theorem SameBoard.trans {w w' w'' : World} (h : SameBoard w w') (h' : SameBoard w' w'') :
    SameBoard w w'' :=
  ⟨h'.matchRows.trans h.matchRows, h'.players.trans h.players, h'.users.trans h.users,
    h'.cache.trans h.cache, h'.leaderboardQueue.trans h.leaderboardQueue⟩

/-- A call that leaves the leaderboard, the cache and the leaderboard queue as they are. -/
structure QuietCall (h : History θ) (event : CallEvent θ) : Prop where
  same : SameBoard h.world event.world
  stores : ∀ key, stores key event = false
  deletes : deletes event = false
  announces : ¬ Announces event

/-- What a call of a client does. -/
inductive BoardClient.Does [TimeZone] (client : BoardClient) (h : History θ) : CallEvent θ → Prop
  | quiet {event} (quiet : QuietCall h event) : client.Does h event
  | announce {tid job} (invalidates : InvalidatesTotal job) :
      client.Does h ⟨tid, .add .leaderboardQueue job, .ok (), h.world.enqueue .leaderboardQueue job⟩
  | confirm {tid user matchId} (kind : client = .confirm user matchId) {w : World}
      (cache : w.cache = h.world.cache) (queue : w.leaderboardQueue = h.world.leaderboardQueue)
      (changed : ¬ (w.matchRows = h.world.matchRows ∧ w.players = h.world.players)) :
      client.Does h ⟨tid, .commitTransaction, .ok (), w⟩
  | override {tid user matchId dto} (kind : client = .override user matchId dto) {m : MatchEntity}
      {w : World} (read : ⟨tid, .findById matchId, .ok (some m), w⟩ ∈ h.events)
      (entry : AuditLogEntity) :
      client.Does h ⟨tid, .commitTransaction, .ok (),
        (h.world.saveMatch (overridden m dto)).appendAuditLog entry⟩
  | store {tid scope filter limit} (kind : client = .read scope filter limit) {value : CachedResult}
      {ttl : Nat} (asked : filter = .total → ∃ event ∈ h.events, event.tid = tid ∧
        asksWins event = true ∧ value.data = event.world.ranked scope .total limit) :
      client.Does h ⟨tid, .redisSet (cacheKey scope filter) value ttl, .ok (),
        h.world.setCache ⟨cacheKey scope filter, value, ttl⟩⟩
  | invalidate {tid position} (kind : client = .delivery position) {h₀ : History θ}
      {job : EventEnvelope} {keys : List CacheKey} (past : Past h₀ h)
      (taken : h₀.world.leaderboardQueue[position]? = some job)
      (deleted : InvalidatesTotal job → ∀ scope, cacheKey scope .total ∈ keys) :
      client.Does h ⟨tid, .redisDel keys, .ok (), h.world.delCache keys⟩

variable {clients : θ → BoardClient} {i : θ} {h h' : History θ} {event : CallEvent θ} {s : Session}
  {allow : θ → History θ → Call → Bool → Prop}

/-- Calls that leave the leaderboard, the cache and the leaderboard queue as they are; a save inside
a transaction is one of them. -/
def isQuiet (s : Session) : Call → Bool
  | .saveMatch _ => s.transaction.isSome
  | .save _ | .create .. | .delete _ | .savePlayers _ | .commitTransaction | .saveUser _
  | .insertUser .. | .renameUser .. | .redisSet .. | .redisDel _ | .add .leaderboardQueue _
  | .signIn _ => false
  | _ => true

theorem sameBoard_exec {op : Call} (hop : isQuiet s op = true) (w : World) :
    SameBoard w (exec op s w).2.2 := by
  cases op with
  | save | create | delete | savePlayers | commitTransaction | saveUser | insertUser | renameUser
  | redisSet | redisDel | signIn => cases hop
  | add queue job =>
      cases queue with
      | leaderboardQueue => cases hop
      | matchesQueue | auditQueue => exact ⟨rfl, rfl, rfl, rfl, rfl⟩
  | saveMatch m =>
      obtain ⟨changes, hchanges⟩ := Option.isSome_iff_exists.mp hop
      simp only [exec, Session.write, hchanges]
      exact .refl w
  | saveConfirmation | saveTransactionAuditLog =>
      simp only [exec, Session.write]
      split <;> exact ⟨rfl, rfl, rfl, rfl, rfl⟩
  | rollbackTransaction =>
      simp only [exec]
      split <;> exact .refl w
  | _ => exact ⟨rfl, rfl, rfl, rfl, rfl⟩

/-- A quiet call, carried out. -/
theorem quietCall_exec {op : Call} (hop : isQuiet s op = true) :
    QuietCall h ⟨i, op, (exec op s h.world).1, (exec op s h.world).2.2⟩ := by
  refine ⟨sameBoard_exec hop h.world, fun key => ?_, ?_, ?_⟩
  · cases op <;> first | rfl | cases hop
  · cases op <;> first | rfl | cases hop
  · rintro ⟨job, hjob, -⟩
    cases op with
    | add queue job =>
        cases queue with
        | leaderboardQueue => cases hop
        | matchesQueue | auditQueue => simp [jobsOfEvent, exec, Call.job] at hjob
    | _ =>
        unfold jobsOfEvent at hjob
        split at hjob <;> cases hjob

/-- A failed call. -/
theorem quietCall_error {op : Call} {failure : Failure} :
    QuietCall h ⟨i, op, .error failure, h.world⟩ := by
  refine ⟨.refl _, fun key => ?_, ?_, ?_⟩
  · cases op <;> rfl
  · cases op <;> rfl
  · rintro ⟨job, hjob, -⟩
    cases hjob

variable [DecidableEq θ]

theorem owesJob_snoc_self (htid : event.tid = i) : OwesJob i (h.snoc event) ↔
    ¬ Announces event ∧ (¬ (event.world.matchRows = h.world.matchRows ∧
      event.world.players = h.world.players) ∨ OwesJob i h) := by
  unfold OwesJob
  rw [events_snoc, tally, if_pos htid]
  exact Iff.rfl

theorem owesJob_snoc_other (htid : event.tid ≠ i) : OwesJob i (h.snoc event) ↔ OwesJob i h := by
  unfold OwesJob
  rw [events_snoc, tally, if_neg htid]
  exact Iff.rfl

/-- A quiet call leaves what is owed. -/
theorem QuietCall.owesJob (hquiet : QuietCall h event) :
    OwesJob i (h.snoc event) ↔ OwesJob i h := by
  by_cases htid : event.tid = i
  · rw [owesJob_snoc_self htid, and_iff_right hquiet.announces]
    exact or_iff_right (not_not_intro ⟨hquiet.same.matchRows, hquiet.same.players⟩)
  · exact owesJob_snoc_other htid

variable [TimeZone]

/-- The terms under which the clients run. -/
def boardContract (clients : θ → BoardClient) (allow : θ → History θ → Call → Bool → Prop) :
    Contract θ Call Call.Result Failure World where
  init _ := True
  allow := allow
  guar h event := (clients event.tid).Does h event

/-- The jobs of a confirmation are added. -/
def AddsJobs (clients : θ → BoardClient) (allow : θ → History θ → Call → Bool → Prop) : Prop :=
  ∀ i user matchId, clients i = .confirm user matchId → ∀ h queue job fails,
    allow i h (.add queue job) fails → fails = false

/-- What others do leaves what a client owes. -/
theorem owesJob_meanwhile (hmean : Meanwhile unlocked (boardContract clients allow) i s h h') :
    OwesJob i h' ↔ OwesJob i h :=
  hmean.induction (I := fun h' => OwesJob i h' ↔ OwesJob i h) Iff.rfl
    fun _ _ htid _ _ hsame => (owesJob_snoc_other htid).trans hsame

/-! ## Rules -/

variable {α : Type} {Q : Except Failure α → Session → History θ → Prop}

omit [DecidableEq θ] [TimeZone] in
/-- A call is carried out, or it fails and changes nothing. -/
theorem unlocked_perform_cases (fails : Bool) (op : Call) (s : Session) (w : World) :
    unlocked.perform fails op s w = exec op s w ∨
      unlocked.perform fails op s w = (.error .unavailable, s, w) :=
  perform_cases fails op s w

/-- A call and what follows it: the call does what the client may do, and may also fail. -/
theorem wp_board {op : Call} {next : op.Result → Api α}
    (hcall : ∀ h', Past h h' → (OwesJob i h' ↔ OwesJob i h) →
      (clients i).Does h' ⟨i, op, (exec op s h'.world).1, (exec op s h'.world).2.2⟩ ∧
      match (exec op s h'.world).1 with
      | .ok value => wp unlocked (boardContract clients allow) i (next value)
          (exec op s h'.world).2.1
          (h'.snoc ⟨i, op, (exec op s h'.world).1, (exec op s h'.world).2.2⟩) Q
      | .error failure => Q (.error failure) (exec op s h'.world).2.1
          (h'.snoc ⟨i, op, (exec op s h'.world).1, (exec op s h'.world).2.2⟩))
    (hfail : ∀ failure h', allow i h' op true → (OwesJob i h' ↔ OwesJob i h) →
      Q (.error failure) s (h'.snoc ⟨i, op, .error failure, h'.world⟩)) :
    wp unlocked (boardContract clients allow) i (await op >>= next) s h Q := by
  refine wp_perform_bind fun h' hmean _ fails hallow => ?_
  have howes := owesJob_meanwhile hmean
  obtain ⟨hdoes, hnext⟩ := hcall h' hmean.past howes
  have hrun : unlocked.perform fails op s h'.world = exec op s h'.world ∨
      fails = true ∧ unlocked.perform fails op s h'.world = (.error .unavailable, s, h'.world) := by
    cases fails with
    | false => exact .inl rfl
    | true => exact (perform_cases true op s h'.world).imp_right fun hperform => ⟨rfl, hperform⟩
  rcases hrun with hperform | ⟨rfl, hperform⟩
  · rw [hperform]
    refine ⟨hdoes, ?_⟩
    cases hresult : (exec op s h'.world).1 <;> rw [hresult] at hnext <;> exact hnext
  · rw [hperform]
    exact ⟨.quiet quietCall_error, hfail _ h' hallow howes⟩

/-- A quiet call and what follows it; what the client owes stays. -/
theorem wp_quietCall {op : Call} {next : op.Result → Api α} (hop : isQuiet s op = true)
    (hnext : ∀ h' value, Past h h' → (exec op s h'.world).1 = .ok value →
      (OwesJob i (h'.snoc ⟨i, op, .ok value, (exec op s h'.world).2.2⟩) ↔ OwesJob i h) →
      wp unlocked (boardContract clients allow) i (next value) (exec op s h'.world).2.1
        (h'.snoc ⟨i, op, .ok value, (exec op s h'.world).2.2⟩) Q)
    (hstop : ∀ failure s' h', (OwesJob i h' ↔ OwesJob i h) → Q (.error failure) s' h') :
    wp unlocked (boardContract clients allow) i (await op >>= next) s h Q := by
  refine wp_board (fun h' hpast howes => ?_) fun failure h' _ howes => ?_
  · have hquiet : QuietCall h' ⟨i, op, (exec op s h'.world).1, (exec op s h'.world).2.2⟩ :=
      quietCall_exec hop
    refine ⟨.quiet hquiet, ?_⟩
    have howes' := hquiet.owesJob.trans howes
    cases hresult : (exec op s h'.world).1 with
    | ok value =>
        rw [hresult] at howes'
        exact hnext h' value hpast hresult howes'
    | error failure =>
        rw [hresult] at howes'
        exact hstop failure _ _ howes'
  · exact hstop failure _ _ (quietCall_error.owesJob.trans howes)

/-- A quiet call at the end of a program. -/
theorem safe_quietCall {op : Call} (hop : isQuiet s op = true) :
    Safe unlocked (boardContract clients allow) i (await op) s h := by
  have hcall : Safe unlocked (boardContract clients allow) i (await op >>= Prog.pure) s h :=
    wp_quietCall hop (fun _ _ _ _ _ => trivial) fun _ _ _ _ => trivial
  rwa [Prog.bind_pure] at hcall

/-! ## Confirmations -/

omit [TimeZone] in
/-- The writes of a transaction concern neither users, nor cache, nor leaderboard queue. -/
theorem view_frame (s : Session) (w : World) : (s.view w).users = w.users ∧
    (s.view w).cache = w.cache ∧ (s.view w).leaderboardQueue = w.leaderboardQueue := by
  unfold Session.view
  induction s.transaction.getD [] generalizing w with
  | nil => exact ⟨rfl, rfl, rfl⟩
  | cons change changes ih =>
      rw [List.foldl_cons]
      obtain ⟨husers, hcache, hqueue⟩ := ih (change.commit w)
      rw [husers, hcache, hqueue]
      cases change with
      | saveMatch m =>
          rw [Write.commit, saveMatch_eq]
          exact ⟨rfl, rfl, rfl⟩
      | putConfirmation | appendAuditLog => exact ⟨rfl, rfl, rfl⟩

/-- The session is in a transaction and has written nothing but votes. -/
structure WritesVotes (s : Session) : Prop where
  inTransaction : s.transaction.isSome = true
  same : ∀ w, SameBoard w (s.view w)

variable {user : JwtPayload} {matchId : MatchId}

/-- A commit of a confirmation; a commit of votes alone leaves nothing owed. -/
theorem confirmCommit_wp {next : Unit → Api α} (hclient : clients i = .confirm user matchId)
    (howes : ¬ OwesJob i h)
    (hnext : ∀ h', (WritesVotes s → ¬ OwesJob i h') →
      wp unlocked (boardContract clients allow) i (next ()) {} h' Q)
    (hstop : ∀ failure s h', ¬ OwesJob i h' → Q (.error failure) s h') :
    wp unlocked (boardContract clients allow) i (await .commitTransaction >>= next) s h Q := by
  refine wp_board (fun h₁ _ howes₁ => ?_) fun failure h' _ hsame =>
    hstop failure _ _ (mt (quietCall_error.owesJob.trans hsame).mp howes)
  have howes₁ := mt howes₁.mp howes
  cases hopen : s.transaction with
  | none =>
      simp only [exec, hopen]
      exact ⟨.quiet quietCall_error, hstop _ _ _ (mt quietCall_error.owesJob.mp howes₁)⟩
  | some changes =>
      simp only [exec, hopen]
      obtain ⟨husers, hcache, hqueue⟩ := view_frame s h₁.world
      have hannounces : ¬ Announces (⟨i, .commitTransaction, .ok (), s.view h₁.world⟩ :
          CallEvent θ) := by
        rintro ⟨job, hjob, -⟩
        cases hjob
      have hquiet : (s.view h₁.world).matchRows = h₁.world.matchRows ∧
          (s.view h₁.world).players = h₁.world.players →
            QuietCall h₁ ⟨i, .commitTransaction, .ok (), s.view h₁.world⟩ :=
        fun hsame => ⟨⟨hsame.1, hsame.2, husers, hcache, hqueue⟩, fun _ => rfl, rfl, hannounces⟩
      refine ⟨?_, hnext _ fun hvotes => ?_⟩
      · by_cases hsame : (s.view h₁.world).matchRows = h₁.world.matchRows ∧
          (s.view h₁.world).players = h₁.world.players
        · exact .quiet (hquiet hsame)
        · exact .confirm hclient hcache hqueue hsame
      · have hsame := hvotes.same h₁.world
        exact mt (hquiet ⟨hsame.matchRows, hsame.players⟩).owesJob.mp howes₁

omit [DecidableEq θ] in
/-- A clock reading and what follows it. -/
theorem wp_clock {next : Date → Api α}
    (hnext : ∀ now h', wp unlocked (boardContract clients allow) i (next now) s h' Q) :
    wp unlocked (boardContract clients allow) i (await .now >>= next) s h Q := by
  refine wp_perform_bind fun h' _ _ fails _ => ?_
  have hnow : unlocked.perform fails .now s h'.world = (.ok h'.world.clock, s, h'.world) := by
    cases fails <;> rfl
  rw [hnow]
  exact ⟨.quiet (quietCall_exec rfl), hnext _ _⟩

/-- A job of a confirmation and what follows it; a job that invalidates pays what is owed. -/
theorem wp_addJob {queue : Queue} {job : EventEnvelope} {next : Unit → Api α}
    (hclient : clients i = .confirm user matchId) (hadds : AddsJobs clients allow)
    (hjob : queue = .leaderboardQueue → InvalidatesTotal job)
    (hnext : ∀ h', (queue = .leaderboardQueue → ¬ OwesJob i h') →
      wp unlocked (boardContract clients allow) i (next ()) s h' Q) :
    wp unlocked (boardContract clients allow) i (await (.add queue job) >>= next) s h Q := by
  refine wp_perform_bind fun h' _ _ fails hallow => ?_
  obtain rfl := hadds i user matchId hclient h' _ _ fails hallow
  refine ⟨?_, hnext _ ?_⟩
  · cases queue with
    | leaderboardQueue => exact .announce (hjob rfl)
    | matchesQueue | auditQueue => exact .quiet (quietCall_exec rfl)
  · rintro rfl howes
    refine ((owesJob_snoc_self rfl).mp howes).1 ⟨job, ?_, hjob rfl⟩
    exact List.mem_singleton_self _

/-- After its commit a confirmation adds the two jobs, and nothing is owed. -/
theorem confirmMatch_wp {m : MatchEntity} {next : Unit → Api α}
    (hclient : clients i = .confirm user matchId) (hadds : AddsJobs clients allow)
    (hopen : s.transaction.isSome = true) (howes : ¬ OwesJob i h)
    (hnext : ∀ s h', ¬ OwesJob i h' →
      wp unlocked (boardContract clients allow) i (next ()) s h' Q)
    (hstop : ∀ failure s h', ¬ OwesJob i h' → Q (.error failure) s h') :
    wp unlocked (boardContract clients allow) i
      (ConfirmationService.confirmMatch matchId m >>= next) s h Q := by
  unfold ConfirmationService.confirmMatch
  rw [Prog.bind_assoc]
  refine wp_quietCall rfl (fun h₁ now _ _ howes₁ => ?_) fun failure s' h' hsame =>
    hstop failure s' h' (mt hsame.mp howes)
  have howes₁ := mt howes₁.mp howes
  rw [Prog.bind_assoc]
  refine wp_quietCall hopen (fun h₂ _ _ _ howes₂ => ?_) fun failure s' h' hsame =>
    hstop failure s' h' (mt hsame.mp howes₁)
  have howes₂ := mt howes₂.mp howes₁
  rw [Prog.bind_assoc]
  refine confirmCommit_wp hclient howes₂ (fun h₃ _ => ?_) hstop
  -- From here on something may be owed; the calls that are left cannot fail.
  rw [Prog.bind_assoc]
  refine wp_clock fun occurredAt h₄ => ?_
  rw [Prog.bind_assoc]
  refine wp_addJob hclient hadds nofun fun h₅ _ => ?_
  rw [Prog.bind_assoc]
  refine wp_clock fun occurredAt h₆ => ?_
  exact wp_addJob hclient hadds (fun _ => invalidatesTotal_all _ _) fun h₇ hpaid =>
    hnext _ _ (hpaid rfl)

/-- The end of the locked section. -/
theorem settle_wp {m : MatchEntity} {players : List MatchPlayerEntity}
    {allConfirmations : List MatchConfirmationEntity}
    (hclient : clients i = .confirm user matchId) (hadds : AddsJobs clients allow)
    (hvotes : WritesVotes s) (howes : ¬ OwesJob i h) :
    wp unlocked (boardContract clients allow) i
      (ConfirmationService.settle matchId players m allConfirmations) s h
      fun _ _ h' => ¬ OwesJob i h' := by
  unfold ConfirmationService.settle
  split
  · refine confirmMatch_wp hclient hadds hvotes.inTransaction howes (fun s h' hpaid => hpaid) ?_
    exact fun _ _ _ hpaid => hpaid
  · exact confirmCommit_wp hclient howes (fun h' hpaid => hpaid hvotes) fun _ _ _ hpaid => hpaid

/-- The branch of `confirm` for a match that awaits confirmation. -/
theorem castVote_wp {m : MatchEntity} {players : List MatchPlayerEntity}
    (hclient : clients i = .confirm user matchId) (hadds : AddsJobs clients allow)
    (hvotes : WritesVotes s) (howes : ¬ OwesJob i h) :
    wp unlocked (boardContract clients allow) i
      (ConfirmationService.castVote matchId user.sub players m) s h
      fun _ _ h' => ¬ OwesJob i h' := by
  have hstop : ∀ {h₀ : History θ}, ¬ OwesJob i h₀ → ∀ (failure : Failure) (s' : Session) h',
      (OwesJob i h' ↔ OwesJob i h₀) → ¬ OwesJob i h' :=
    fun howes _ _ _ hsame => mt hsame.mp howes
  unfold ConfirmationService.castVote
  refine wp_quietCall rfl (fun h₁ existing _ _ howes₁ => ?_) (hstop howes)
  have howes₁ := mt howes₁.mp howes
  change wp _ _ _ _ s _ _
  have hsettle : ∀ {s₂ : Session} {h₂ : History θ}, WritesVotes s₂ → ¬ OwesJob i h₂ →
      wp unlocked (boardContract clients allow) i
        (await (.findTransactionConfirmations matchId) >>=
          ConfirmationService.settle matchId players m) s₂ h₂ fun _ _ h' => ¬ OwesJob i h' := by
    intro s₂ h₂ hvotes₂ howes₂
    refine wp_quietCall rfl (fun h₃ all _ _ howes₃ => ?_) (hstop howes₂)
    exact settle_wp hclient hadds hvotes₂ (mt howes₃.mp howes₂)
  cases existing with
  | some vote => exact hsettle hvotes howes₁
  | none =>
      unfold ConfirmationService.saveVote
      rw [Prog.bind_assoc]
      refine wp_quietCall rfl (fun h₂ vote _ _ howes₂ => ?_) (hstop howes₁)
      refine hsettle ?_ (mt howes₂.mp howes₁)
      obtain ⟨changes, hchanges⟩ := Option.isSome_iff_exists.mp hvotes.inTransaction
      simp only [exec, Session.write, hchanges]
      refine ⟨rfl, fun w => ?_⟩
      have hview := hvotes.same w
      rw [Session.view, hchanges] at hview
      rw [Session.view_some, List.foldl_append]
      exact hview.trans ⟨rfl, rfl, rfl, rfl, rfl⟩

/-- The `try` block of `confirm`. -/
theorem lockedSection_wp {players : List MatchPlayerEntity}
    (hclient : clients i = .confirm user matchId) (hadds : AddsJobs clients allow)
    (hvotes : WritesVotes s) (howes : ¬ OwesJob i h) :
    wp unlocked (boardContract clients allow) i
      (ConfirmationService.lockedSection matchId user.sub players) s h
      fun _ _ h' => ¬ OwesJob i h' := by
  unfold ConfirmationService.lockedSection
  refine wp_quietCall rfl (fun h₁ found _ _ howes₁ => ?_) fun _ _ _ hsame => mt hsame.mp howes
  have howes₁ := mt howes₁.mp howes
  split
  · unfold ConfirmationService.reportCurrent
    refine wp_quietCall rfl (fun h₂ _ _ _ howes₂ => ?_) fun _ _ _ hsame => mt hsame.mp howes₁
    have howes₂ := mt howes₂.mp howes₁
    exact wp_quietCall rfl (fun h₃ _ _ _ howes₃ => mt howes₃.mp howes₂)
      fun _ _ _ hsame => mt hsame.mp howes₂
  · exact castVote_wp hclient hadds ⟨hvotes.inTransaction, hvotes.same⟩ howes₁

/-- A confirmation that has ended owes nothing. -/
theorem confirm_wp (hclient : clients i = .confirm user matchId) (hadds : AddsJobs clients allow)
    (howes : ¬ OwesJob i h) :
    wp unlocked (boardContract clients allow) i (ConfirmationService.confirm matchId user.sub) {} h
      fun _ _ h' => ¬ OwesJob i h' := by
  unfold ConfirmationService.confirm
  refine wp_quietCall rfl (fun h₁ found _ _ howes₁ => ?_) fun _ _ _ hsame => mt hsame.mp howes
  have howes₁ := mt howes₁.mp howes
  refine wp_bind.mpr (wp_require.mpr ⟨fun _ => howes₁, fun m _ => ?_⟩)
  refine wp_bind.mpr (wp_throwIf.mpr ⟨fun _ => howes₁, fun _ => ?_⟩)
  refine wp_quietCall rfl (fun h₂ players _ _ howes₂ => ?_) fun _ _ _ hsame => mt hsame.mp howes₁
  have howes₂ := mt howes₂.mp howes₁
  refine wp_bind.mpr (wp_throwIf.mpr ⟨fun _ => howes₂, fun _ => ?_⟩)
  refine wp_quietCall rfl (fun h₃ _ _ _ howes₃ => ?_) fun _ _ _ hsame => mt hsame.mp howes₂
  have howes₃ := mt howes₃.mp howes₂
  refine wp_quietCall rfl (fun h₄ _ _ _ howes₄ => ?_) fun _ _ _ hsame => mt hsame.mp howes₃
  have howes₄ := mt howes₄.mp howes₃
  refine wp_catchFinally.mpr
    (wp_mono (lockedSection_wp hclient hadds ⟨rfl, SameBoard.refl⟩ howes₄) ?_)
  intro outcome s h₅ howes₅
  have hrelease : ∀ (handled : Except Failure ConfirmationStatusResult) s h', ¬ OwesJob i h' →
      wp unlocked (boardContract clients allow) i (await .release >>= fun _ => Prog.resume handled)
        s h' fun _ _ h' => ¬ OwesJob i h' := by
    intro handled s h' howes
    exact wp_quietCall rfl (fun h'' _ _ _ hsame => wp_resume.mpr (mt hsame.mp howes))
      fun _ _ _ hsame => mt hsame.mp howes
  cases outcome with
  | ok status => exact hrelease _ s h₅ howes₅
  | error failure =>
      exact wp_quietCall rfl (fun h₆ _ _ _ hsame => hrelease _ _ _ (mt hsame.mp howes₅))
        fun _ _ _ hsame => hrelease _ _ _ (mt hsame.mp howes₅)

/-! ## Overrides -/

/-- The `try` block of an override commits what it has saved. -/
theorem overrideTransaction_wp {m : MatchEntity} {dto : AdminOverrideResultDto}
    (hclient : clients i = .override user matchId dto)
    (hread : ∃ w, ⟨i, .findById matchId, .ok (some m), w⟩ ∈ h.events) {locked : Bool} :
    Safe unlocked (boardContract clients allow) i
      (AdminOverrideService.overrideTransaction matchId user.sub dto m) ⟨some [], locked⟩ h := by
  obtain ⟨w, hread⟩ := hread
  unfold AdminOverrideService.overrideTransaction
  refine wp_quietCall rfl (fun h₁ saved hpast₁ _ _ => ?_) fun _ _ _ _ => trivial
  refine wp_quietCall rfl (fun h₂ auditLog hpast₂ _ _ => ?_) fun _ _ _ _ => trivial
  refine wp_quietCall rfl (fun h₃ _ hpast₃ _ _ => ?_) fun _ _ _ _ => trivial
  refine wp_quietCall rfl (fun h₄ _ hpast₄ _ _ => ?_) fun _ _ _ _ => trivial
  refine wp_quietCall rfl (fun h₅ _ hpast₅ _ _ => ?_) fun _ _ _ _ => trivial
  refine wp_board (fun h₆ hpast₆ _ => ⟨.announce (invalidatesTotal_all _ _), ?_⟩)
    fun _ _ _ _ => trivial
  refine wp_board (fun h₇ hpast₇ _ => ?_) fun _ _ _ _ => trivial
  have hread₇ : ⟨i, .findById matchId, .ok (some m), w⟩ ∈ h₇.events := by
    have hpast := (past_snoc _ _).trans <| hpast₂.trans <| (past_snoc _ _).trans <|
      hpast₃.trans <| (past_snoc _ _).trans <| hpast₄.trans <| (past_snoc _ _).trans <|
      hpast₅.trans <| (past_snoc _ _).trans <| hpast₆.trans <| (past_snoc _ _).trans hpast₇
    exact hpast.2.subset (hpast₁.2.subset hread)
  refine ⟨.override hclient hread₇ _, ?_⟩
  exact wp_quietCall rfl (fun _ _ _ _ _ => trivial) fun _ _ _ _ => trivial

/-- Every call of an override does what it may. -/
theorem override_safe {dto : AdminOverrideResultDto} {isAdmin : Bool}
    (hclient : clients i = .override user matchId dto) :
    Safe unlocked (boardContract clients allow) i
      (AdminOverrideService.overrideResult matchId user.sub isAdmin dto) {} h := by
  unfold AdminOverrideService.overrideResult
  refine wp_bind.mpr (wp_throwIf.mpr ⟨fun _ => trivial, fun _ => ?_⟩)
  refine wp_quietCall rfl (fun h₁ found _ hfound _ => ?_) fun _ _ _ _ => trivial
  refine wp_bind.mpr (wp_require.mpr ⟨fun _ => trivial, fun m hm => ?_⟩)
  subst hm
  refine wp_bind.mpr (wp_throwIf.mpr ⟨fun _ => trivial, fun _ => ?_⟩)
  refine wp_quietCall rfl (fun h₂ _ hpast₂ _ _ => ?_) fun _ _ _ _ => trivial
  refine wp_quietCall rfl (fun h₃ _ hpast₃ _ _ => ?_) fun _ _ _ _ => trivial
  refine safe_catchFinally (overrideTransaction_wp hclient ?_) (fun _ _ _ => ?_) fun _ _ => ?_
  · have hread₂ := hpast₂.2.subset List.mem_cons_self
    have hread₃ := hpast₃.2.subset (List.mem_cons_of_mem _ hread₂)
    exact ⟨_, List.mem_cons_of_mem _ hread₃⟩
  · exact wp_quietCall rfl (fun _ _ _ _ _ => trivial) fun _ _ _ _ => trivial
  · exact safe_quietCall rfl

/-! ## Reads -/

/-- A query for wins: what it returns is computed from the world it leaves. -/
theorem askWins_wp {op : Call} {f : op.Result → LeaderboardData} {scope : Scope} {limit : Nat}
    (hop : isQuiet s op = true) (hworld : ∀ w, (exec op s w).2.2 = w)
    (hasks : ∀ value w, asksWins (⟨i, op, .ok value, w⟩ : CallEvent θ) = true)
    (hranked : ∀ w value, (exec op s w).1 = .ok value → f value = w.ranked scope .total limit) :
    wp unlocked (boardContract clients allow) i (await op >>= fun value => Prog.pure (f value)) s h
      fun result _ h' => ∀ data, result = .ok data →
        ∃ event ∈ h'.events, event.tid = i ∧ asksWins event = true ∧
          data = event.world.ranked scope .total limit := by
  refine wp_quietCall hop (fun h' value _ hvalue _ => ?_) fun _ _ _ _ => nofun
  rintro _ ⟨⟩
  refine ⟨_, List.mem_cons_self, rfl, hasks value _, ?_⟩
  rw [hranked h'.world value hvalue]
  exact congrArg (World.ranked · scope .total limit) (hworld h'.world).symm

/-- Every call of the repository is quiet. -/
theorem ranked_safe {scope : Scope} {filter : TimeFilter} {limit : Nat} :
    Safe unlocked (boardContract clients allow) i (ranked scope filter limit) s h := by
  have hquery : ∀ {α : Type} {op : Call} (f : op.Result → α) s h, isQuiet s op = true →
      Safe unlocked (boardContract clients allow) i (await op >>= fun value => Prog.pure (f value))
        s h :=
    fun _ _ _ hop => wp_quietCall hop (fun _ _ _ _ _ => trivial) fun _ _ _ _ => trivial
  have hstart : ∀ s h, Safe unlocked (boardContract clients allow) i
      (LeaderboardRepository.getStartDate filter) s h := by
    intro s h
    cases filter with
    | total => exact trivial
    | week | month | year => exact hquery _ s h rfl
  cases scope with
  | users =>
      refine wp_bind.mpr (wp_bind.mpr (wp_mono (hstart s h) fun result s' h' _ => ?_))
      cases result with
      | ok start =>
          exact wp_mono (safe_quietCall rfl) fun result _ _ _ => by cases result <;> trivial
      | error failure => exact trivial
  | pairs =>
      refine wp_bind.mpr (wp_bind.mpr (wp_mono (hstart s h) fun result s' h' _ => ?_))
      cases result with
      | ok start =>
          exact wp_mono (safe_quietCall rfl) fun result _ _ _ => by cases result <;> trivial
      | error failure => exact trivial

/-- The all-time list of a reader is the one of the world that its query read. -/
theorem ranked_wp {scope : Scope} {filter : TimeFilter} {limit : Nat} :
    wp unlocked (boardContract clients allow) i (ranked scope filter limit) s h
      fun result _ h' => ∀ data, result = .ok data → filter = .total →
        ∃ event ∈ h'.events, event.tid = i ∧ asksWins event = true ∧
          data = event.world.ranked scope .total limit := by
  by_cases htotal : filter = .total
  · subst htotal
    cases scope with
    | users =>
        exact wp_mono (askWins_wp rfl (fun _ => rfl) (fun _ _ => rfl) fun _ _ h => by cases h; rfl)
          fun _ _ _ h data hdata _ => h data hdata
    | pairs =>
        exact wp_mono (askWins_wp rfl (fun _ => rfl) (fun _ _ => rfl) fun _ _ h => by cases h; rfl)
          fun _ _ _ h data hdata _ => h data hdata
  · exact wp_mono ranked_safe fun _ _ _ _ _ _ hfilter => absurd hfilter htotal

/-- What a reader stores for all time is what its query has read. -/
theorem getLeaderboard_safe {scope : Scope} {filter : TimeFilter} {limit : Nat}
    (hclient : clients i = .read scope filter limit) :
    Safe unlocked (boardContract clients allow) i (getLeaderboard scope filter limit) s h := by
  unfold getLeaderboard
  refine wp_clock fun generatedAt h₁ => ?_
  refine wp_attempt_bind.mpr (wp_mono (safe_quietCall rfl) fun result s₂ h₂ _ => ?_)
  have hbypass : ∀ s h, Safe unlocked (boardContract clients allow) i
      (ranked scope filter limit >>= fun data => Prog.pure
        (⟨⟨filter, data, generatedAt⟩, .bypass⟩ : LeaderboardResult)) s h := by
    refine fun s h => wp_bind.mpr (wp_mono ranked_safe fun result _ _ _ => ?_)
    cases result <;> exact trivial
  match result with
  | .ok (some parsed) => exact trivial
  | .error failure => exact hbypass s₂ h₂
  | .ok none =>
      refine wp_bind.mpr (wp_mono ranked_wp fun result s₃ h₃ hasked => ?_)
      cases result with
      | error failure => exact trivial
      | ok data =>
          refine wp_attempt_bind.mpr (wp_perform fun h₄ hmean _ fails _ => ?_)
          refine ⟨?_, trivial⟩
          rcases unlocked_perform_cases fails (.redisSet (cacheKey scope filter)
            ⟨filter, data, generatedAt⟩ (cacheTtl filter)) s₃ h₄.world with hperform | hperform
          · rw [hperform]
            refine .store hclient fun htotal => ?_
            obtain ⟨event, hevent, htid, hasks, hdata⟩ := hasked data rfl htotal
            exact ⟨event, hmean.past.2.subset hevent, htid, hasks, hdata⟩
          · rw [hperform]
            exact .quiet quietCall_error

/-! ## Deliveries -/

/-- A delivery of the job at a position has deleted the keys. -/
def Processed (clients : θ → BoardClient) (position : Nat) (h : History θ) : Prop :=
  ∃ event ∈ h.events, clients event.tid = .delivery position ∧ deletes event = true

omit [DecidableEq θ] [TimeZone] in
/-- A job that invalidates names the keys of the all-time lists. -/
theorem mem_keysToDelete {affectedFilters : List TimeFilter} (htotal : .total ∈ affectedFilters)
    (scope : Scope) :
    cacheKey scope .total ∈ LeaderboardInvalidateProcessor.keysToDelete none affectedFilters := by
  refine List.mem_flatMap.mpr ⟨scope, ?_, List.mem_map.mpr ⟨.total, htotal, rfl⟩⟩
  cases scope <;> simp

omit [DecidableEq θ] in
/-- The processor deletes the keys of the job it was handed. -/
theorem process_wp {position : Nat} {h₀ : History θ} {job : EventEnvelope}
    (hclient : clients i = .delivery position) (hpast : Past h₀ h)
    (htaken : h₀.world.leaderboardQueue[position]? = some job) :
    wp unlocked (boardContract clients allow) i (LeaderboardInvalidateProcessor.process none job) s h
      fun result _ h' => ∀ value, result = .ok value → Past h₀ h' ∧
        (InvalidatesTotal job → Processed clients position h') := by
  unfold LeaderboardInvalidateProcessor.process
  refine wp_bind.mpr (wp_throwIf.mpr ⟨fun _ => nofun, fun hversion => ?_⟩)
  cases hpayload : job.payload with
  | leaderboardInvalidate reason affectedFilters =>
      have htotal : InvalidatesTotal job → .total ∈ affectedFilters := by
        rintro ⟨-, hmem⟩
        rwa [hpayload] at hmem
      dsimp only
      split
      · refine wp_perform fun h₁ hmean _ fails _ => ?_
        have hpast₁ := hpast.trans hmean.past
        rcases unlocked_perform_cases fails (.redisDel
          (LeaderboardInvalidateProcessor.keysToDelete none affectedFilters)) s h₁.world with
            hperform | hperform <;> rw [hperform]
        · refine ⟨.invalidate hclient hpast₁ htaken fun hinvalidates =>
            mem_keysToDelete (htotal hinvalidates), fun _ _ => ⟨hpast₁.snoc, fun _ => ?_⟩⟩
          exact ⟨_, List.mem_cons_self, hclient, rfl⟩
        · exact ⟨.quiet quietCall_error, fun _ => nofun⟩
      · next hempty =>
          refine fun _ _ => ⟨hpast, fun hinvalidates => absurd ?_ hempty⟩
          exact List.length_pos_of_mem (mem_keysToDelete (htotal hinvalidates) .users)
  | _ => exact fun _ => nofun

/-- A delivery that succeeds has processed a job that was at its position. -/
structure Delivered (clients : θ → BoardClient) (position : Nat) (h : History θ) : Prop where
  done : ∃ (h₀ : History θ) (job : EventEnvelope), Past h₀ h ∧
    h₀.world.leaderboardQueue[position]? = some job ∧
      (InvalidatesTotal job → Processed clients position h)

theorem deliverLeaderboard_wp {position : Nat} (hclient : clients i = .delivery position) :
    wp unlocked (boardContract clients allow) i (deliverLeaderboard none position) s h
      fun result _ h' => ∀ value, result = .ok value → Delivered clients position h' := by
  unfold deliverLeaderboard
  refine wp_quietCall rfl (fun h₁ found _ hfound _ => ?_) fun _ _ _ _ _ => nofun
  refine wp_bind.mpr (wp_require.mpr ⟨fun _ _ => nofun, fun job hjob => ?_⟩)
  subst hjob
  have htaken : h₁.world.leaderboardQueue[position]? = some job := Except.ok.inj hfound
  refine wp_mono (process_wp hclient ((past_snoc h₁ _)) htaken) fun _ _ _ hdone value hvalue => ?_
  obtain ⟨hpast, hprocessed⟩ := hdone value hvalue
  exact ⟨h₁, job, hpast, htaken, hprocessed⟩

/-! ## Every client -/

/-- What holds of a client that has ended. -/
structure Ended (clients : θ → BoardClient) (i : θ) (result : Except Failure Response)
    (h : History θ) : Prop where
  paid : ∀ user matchId, clients i = .confirm user matchId → ¬ OwesJob i h
  delivered : ∀ position, clients i = .delivery position → ∀ value, result = .ok value →
    Delivered clients position h

omit [DecidableEq θ] [TimeZone] in
theorem Processed.snoc {position : Nat} (hprocessed : Processed clients position h) :
    Processed clients position (h.snoc event) := by
  obtain ⟨e, he, hclient, hdeletes⟩ := hprocessed
  exact ⟨e, List.mem_cons_of_mem _ he, hclient, hdeletes⟩

omit [DecidableEq θ] [TimeZone] in
theorem Delivered.snoc {position : Nat} (hdelivered : Delivered clients position h) :
    Delivered clients position (h.snoc event) := by
  obtain ⟨h₀, job, hpast, htaken, hprocessed⟩ := hdelivered
  exact ⟨h₀, job, hpast.snoc, htaken, fun hinvalidates => (hprocessed hinvalidates).snoc⟩

omit [TimeZone] in
/-- What others do leaves a client that has ended as it is. -/
theorem Ended.other {result : Except Failure Response} (hended : Ended clients i result h)
    (htid : event.tid ≠ i) : Ended clients i result (h.snoc event) where
  paid user matchId hclient := mt (owesJob_snoc_other htid).mp (hended.paid user matchId hclient)
  delivered position hclient value hvalue := (hended.delivered position hclient value hvalue).snoc

omit [TimeZone] in
/-- A client that is neither a confirmation nor a delivery has nothing to show in the end. -/
theorem ended_of_other {result : Except Failure Response}
    (hconfirm : ∀ user matchId, clients i ≠ .confirm user matchId)
    (hdelivery : ∀ position, clients i ≠ .delivery position) : Ended clients i result h :=
  ⟨fun user matchId hclient => absurd hclient (hconfirm user matchId),
    fun position hclient => absurd hclient (hdelivery position)⟩

/-- Every call of a client does what it may, and a client that has ended owes nothing. -/
theorem boardClient_wp (hadds : AddsJobs clients allow) (i : θ) (w : World) :
    wp unlocked (boardContract clients allow) i (clients i).prog {} ⟨w, []⟩
      fun result _ h' => Ended clients i result h' := by
  cases hclient : clients i with
  | read scope filter limit =>
      have hended : ∀ {result h}, Ended clients i result h := fun {_ _} =>
        ended_of_other (fun _ _ h => by cases hclient.symm.trans h)
          fun _ h => by cases hclient.symm.trans h
      cases scope with
      | users | pairs =>
          refine wp_bind.mpr (wp_mono (getLeaderboard_safe hclient) fun result s h' _ => ?_)
          cases result <;> exact hended
  | confirm user matchId =>
      have hended : ∀ {result h}, ¬ OwesJob i h → Ended clients i result h := fun {_ _} howes =>
        ⟨fun _ _ _ => howes, fun _ h => by cases hclient.symm.trans h⟩
      refine wp_bind.mpr (wp_mono (confirm_wp hclient hadds id) fun result s h' howes => ?_)
      cases result <;> exact hended howes
  | override user matchId dto =>
      have hended : ∀ {result h}, Ended clients i result h := fun {_ _} =>
        ended_of_other (fun _ _ h => by cases hclient.symm.trans h)
          fun _ h => by cases hclient.symm.trans h
      refine wp_bind.mpr (wp_throwIf.mpr ⟨fun _ => hended, fun _ => ?_⟩)
      refine wp_bind.mpr (wp_mono (override_safe hclient) fun result s h' _ => ?_)
      cases result <;> exact hended
  | delivery position =>
      have hended : ∀ {result : Except Failure Response} {h}, (∀ value, result = .ok value →
          Delivered clients position h) → Ended clients i result h := by
        refine fun {_ _} hdelivered => ⟨fun _ _ h => (by cases hclient.symm.trans h), fun _ h => ?_⟩
        cases hclient.symm.trans h
        exact hdelivered
      refine wp_bind.mpr (wp_mono (deliverLeaderboard_wp hclient) fun result s h' hdelivered => ?_)
      cases result with
      | ok value => exact hended fun _ _ => hdelivered value rfl
      | error failure => exact hended fun _ => nofun

/-- What the calls of a run do, and what holds of the clients that have ended. -/
theorem boardRun {w : World} {c : Running θ} (hadds : AddsJobs clients allow)
    (hreach : Reach unlocked allow (Config.start {} (fun i => (clients i).prog) w) c) :
    (c.trace.Steps fun h event => (clients event.tid).Does h event) ∧
      ∀ i result, c.resultOf i = some result → Ended clients i result c.trace := by
  have hwp := fun i => boardClient_wp (w := w) hadds i
  refine ⟨?_, fun i result hresult => ?_⟩
  · exact (Contract.guaranteed (C := boardContract clients allow) hreach rfl trivial
      fun i => wp_mono (hwp i) fun _ _ _ _ => trivial).2
  · exact Contract.result_post (C := boardContract clients allow) hreach rfl trivial
      (fun _ _ _ _ _ htid _ hended => hended.other htid) hwp hresult

end FoosballApi.Leaderboard
