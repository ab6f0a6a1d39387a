import FoosballApi.Leaderboard.AppRuns
import FoosballApi.Matches.IdForms

/-!
# Calls that do not reach the cache

Only the leaderboard and the worker send commands to Redis. Every other call does the same whatever
the cache holds, and keeps it; the requests of the two apps make only such calls.
-/

namespace FoosballApi.Matches

open Calls Data Events Leaderboard Prog Users

/-! ## Calls that do not reach the cache -/

/-- The commands of Redis. -/
def Call.onCache : Call → Bool
  | .redisGet _ | .redisSet .. | .redisDel _ => true
  | _ => false

namespace World

variable {w : World} {cache : Table CacheEntry.key}

/-- The same database and queues over another cache. -/
def withCache (w : World) (cache : Table CacheEntry.key) : World := { w with cache := cache }

@[simp] theorem cache_withCache : (w.withCache cache).cache = cache := rfl

theorem saveMatch_withCache (m : MatchEntity) :
    (w.withCache cache).saveMatch m = (w.saveMatch m).withCache cache := by
  unfold saveMatch
  have hrow : (w.withCache cache).row m.id = w.row m.id := rfl
  rw [hrow]
  cases w.row m.id with
  | none => rfl
  | some r =>
      dsimp only
      split <;> rfl

theorem renameUser_withCache (id : UserId) (displayName : String) :
    (w.withCache cache).renameUser id displayName =
      (w.renameUser id displayName).withCache cache := by
  unfold renameUser
  have hget : (w.withCache cache).users.get id = w.users.get id := rfl
  rw [hget]
  cases w.users.get id <;> rfl

theorem saveUser_withCache (user : UserEntity) :
    (w.withCache cache).saveUser user = (w.saveUser user).map (·.withCache cache) := by
  have hfits : (w.withCache cache).userFits user ↔ w.userFits user := Iff.rfl
  unfold saveUser
  by_cases h : w.userFits user
  · rw [if_pos h, if_pos (hfits.mpr h)]
    rfl
  · rw [if_neg h, if_neg (mt hfits.mp h)]
    rfl

theorem savePlayers_withCache (ps : List MatchPlayerEntity) :
    (w.withCache cache).savePlayers ps = (w.savePlayers ps).map (·.withCache cache) := by
  have hinsert : (w.withCache cache).insertPlayer = w.insertPlayer := rfl
  have hupdate : (w.withCache cache).updatePlayer = w.updatePlayer := rfl
  have hplayers : (w.withCache cache).players = w.players := rfl
  unfold savePlayers
  rw [hinsert, hupdate, hplayers]
  cases (ps.filter fun p => (w.players.get p.key).isNone).foldlM w.insertPlayer w.players with
  | none => rfl
  | some inserted =>
      dsimp only [Option.bind_eq_bind, Option.bind_some]
      cases (ps.filter fun p => (w.players.get p.key).isSome).foldlM w.updatePlayer inserted <;> rfl

end World

theorem Write.commit_withCache (w : World) (cache : Table CacheEntry.key) (change : Write) :
    change.commit (w.withCache cache) = (change.commit w).withCache cache := by
  cases change with
  | saveMatch m => exact World.saveMatch_withCache m
  | putConfirmation c => rfl
  | appendAuditLog entry => rfl

theorem Session.view_withCache (s : Session) (w : World) (cache : Table CacheEntry.key) :
    s.view (w.withCache cache) = (s.view w).withCache cache := by
  unfold Session.view
  generalize s.transaction.getD [] = changes
  induction changes generalizing w with
  | nil => rfl
  | cons change changes ih =>
      rw [List.foldl_cons, List.foldl_cons, Write.commit_withCache, ih]

theorem Session.write_withCache (s : Session) (w : World) (cache : Table CacheEntry.key)
    (change : Write) : s.write (w.withCache cache) change =
      ((s.write w change).1, (s.write w change).2.withCache cache) := by
  unfold Session.write
  cases s.transaction with
  | none => exact congrArg (Prod.mk s) (Write.commit_withCache w cache change)
  | some changes => rfl

/-- A call that does not reach the cache does the same over another cache, and keeps it. -/
theorem exec_withCache {op : Call} (hop : op.onCache = false) (s : Session) (w : World)
    (cache : Table CacheEntry.key) : exec op s (w.withCache cache) =
      ((exec op s w).1, (exec op s w).2.1, (exec op s w).2.2.withCache cache) := by
  cases op with
  | redisGet | redisSet | redisDel => cases hop
  | save m =>
      simp only [exec, World.saveMatch_withCache]
      rfl
  | savePlayers players =>
      simp only [exec, World.savePlayers_withCache]
      cases w.savePlayers players <;> rfl
  | commitTransaction =>
      simp only [exec, Session.view_withCache]
      split <;> rfl
  | rollbackTransaction =>
      simp only [exec]
      split <;> rfl
  | findMatchForUpdate | findOneConfirmation | findTransactionConfirmations =>
      simp only [exec, Session.view_withCache]
      rfl
  | saveConfirmation matchId userId =>
      simp only [exec, Session.write_withCache]
      rfl
  | saveMatch m =>
      simp only [exec, Session.write_withCache, Session.view_withCache]
      rfl
  | saveTransactionAuditLog data =>
      have hid : (w.withCache cache).takeAuditId = w.takeAuditId.withCache cache := rfl
      simp only [exec, hid, Session.write_withCache]
      rfl
  | saveUser user =>
      simp only [exec, World.saveUser_withCache]
      cases w.saveUser user <;> rfl
  | insertUser azureOid email displayName =>
      have hnew : (w.withCache cache).newUser azureOid email displayName =
        w.newUser azureOid email displayName := rfl
      simp only [exec, hnew, World.saveUser_withCache]
      cases w.saveUser (w.newUser azureOid email displayName) <;> rfl
  | renameUser id displayName =>
      simp only [exec, World.renameUser_withCache]
  | add queue job => cases queue <;> rfl
  | _ => rfl

/-! ## The requests do not reach the cache -/

/-- No call of the program is a command of Redis. -/
structure OffCache {α : Type} (program : Api α) : Prop where
  issues : program.Issues fun op => op.onCache = false

section Services

variable {α β : Type} {matchId : MatchId} {userId : UserId}

theorem offCache_pure {value : α} : OffCache (.pure value) := ⟨trivial⟩

theorem offCache_throw {failure : Failure} : OffCache (.throw failure : Api α) := ⟨trivial⟩

theorem offCache_perform {op : Call} (hop : op.onCache = false) : OffCache (await op) :=
  ⟨issues_perform hop⟩

theorem offCache_bind {program : Api α} {next : α → Api β} (hprogram : OffCache program)
    (hnext : ∀ value, OffCache (next value)) : OffCache (program >>= next) :=
  ⟨issues_bind hprogram.issues fun value => (hnext value).issues⟩

/-- A program whose value is turned into another one. -/
theorem offCache_map {program : Api α} {f : α → β} (hprogram : OffCache program) :
    OffCache (program >>= fun value => return f value) :=
  offCache_bind hprogram fun _ => offCache_pure

theorem offCache_await {op : Call} {next : op.Result → Api α} (hop : op.onCache = false)
    (hnext : ∀ value, OffCache (next value)) : OffCache (await op >>= next) :=
  offCache_bind (offCache_perform hop) hnext

theorem offCache_guard {refused : Prop} [Decidable refused] {failure : Failure} :
    OffCache (Prog.throwIf refused failure) := ⟨issues_throwIf⟩

theorem offCache_throwIf {refused : Prop} [Decidable refused] {failure : Failure}
    {next : Unit → Api α} (hnext : OffCache (next ())) :
    OffCache (Prog.throwIf refused failure >>= next) :=
  offCache_bind offCache_guard fun _ => hnext

theorem offCache_require {found : Option β} {failure : Failure} {next : β → Api α}
    (hnext : ∀ value, OffCache (next value)) : OffCache (Prog.require found failure >>= next) :=
  offCache_bind ⟨issues_require⟩ hnext

theorem offCache_catchFinally {body : Api α} {handler : Failure → Api α} {finalizer : Api Unit}
    (hbody : OffCache body) (hhandler : ∀ failure, OffCache (handler failure))
    (hfinalizer : OffCache finalizer) : OffCache (Prog.catchFinally body handler finalizer) :=
  ⟨issues_catchFinally hbody.issues (fun failure => (hhandler failure).issues) hfinalizer.issues⟩

/-- The match is looked up, and must be stored. -/
theorem offCache_lookup {failure : Failure} {next : MatchEntity → Api α}
    (hnext : ∀ m, OffCache (next m)) :
    OffCache (await (.findById matchId) >>= fun found => Prog.require found failure >>= next) :=
  offCache_await rfl fun _ => offCache_require hnext

theorem findById_offCache : OffCache (MatchService.findById matchId) := by
  refine offCache_lookup fun m => ?_
  cases m.players with
  | some players => exact offCache_pure
  | none => exact offCache_await rfl fun _ => offCache_pure

/-- A method of `MatchService` that reads the match and checks that the caller may edit it. -/
theorem offCache_editable {notCreator locked : String} {next : MatchEntity → Api α}
    (hnext : ∀ m, OffCache (next m)) :
    OffCache (MatchService.findById matchId >>= fun m =>
      MatchService.checkEditable matchId m userId notCreator locked >>= fun _ => next m) :=
  offCache_bind findById_offCache fun m =>
    offCache_bind (offCache_bind offCache_guard fun _ => offCache_guard) fun _ => hnext m

theorem update_offCache (dto : UpdateMatchDto) :
    OffCache (MatchService.update matchId userId dto) :=
  offCache_editable fun _ => offCache_await rfl fun _ => offCache_await rfl fun _ => offCache_pure

theorem checkSlots_offCache (existing : List MatchPlayerEntity) (ps : List PlayerDto) :
    OffCache (MatchService.checkSlots matchId existing ps) := by
  induction ps with
  | nil => exact offCache_pure
  | cons p ps ih => exact offCache_throwIf ih

theorem addPlayers_offCache (dto : AddPlayersDto) :
    OffCache (MatchService.addPlayers matchId userId dto) := by
  refine offCache_editable fun m => offCache_await rfl fun existing => offCache_throwIf ?_
  refine offCache_bind (checkSlots_offCache existing dto.players) fun _ => ?_
  refine offCache_await rfl fun _ => offCache_await rfl fun allPlayers => ?_
  refine offCache_bind ?_ fun _ => offCache_pure
  unfold MatchService.startPlaying
  split
  · exact offCache_await rfl fun _ => offCache_pure
  · exact offCache_pure

theorem submitResult_offCache (dto : SubmitResultDto) :
    OffCache (MatchService.submitResult matchId userId dto) := by
  refine offCache_editable fun m => offCache_await rfl fun players => offCache_throwIf ?_
  refine offCache_await rfl fun _ => offCache_await rfl fun _ => ?_
  exact offCache_await rfl fun _ => offCache_pure

theorem lockedSection_offCache (players : List MatchPlayerEntity) :
    OffCache (ConfirmationService.lockedSection matchId userId players) := by
  refine offCache_await rfl fun found => ?_
  split
  · exact offCache_await rfl fun _ => offCache_await rfl fun _ => offCache_pure
  · refine offCache_await rfl fun existing => offCache_bind ?_ fun _ => ?_
    · cases existing with
      | some vote => exact offCache_pure
      | none => exact offCache_await rfl fun _ => offCache_pure
    · refine offCache_await rfl fun _ => ?_
      unfold ConfirmationService.settle
      split
      · refine offCache_bind ?_ fun _ => offCache_pure
        refine offCache_await rfl fun _ => offCache_await rfl fun _ => ?_
        refine offCache_await rfl fun _ => ?_
        exact offCache_await rfl fun _ => offCache_await rfl fun _ => offCache_await rfl fun _ =>
          offCache_perform rfl
      · exact offCache_await rfl fun _ => offCache_pure

theorem confirm_offCache : OffCache (ConfirmationService.confirm matchId userId) := by
  refine offCache_lookup fun m => offCache_throwIf (offCache_await rfl fun players => ?_)
  refine offCache_throwIf (offCache_await rfl fun _ => offCache_await rfl fun _ => ?_)
  exact offCache_catchFinally (lockedSection_offCache players)
    (fun _ => offCache_await rfl fun _ => offCache_throw) (offCache_perform rfl)

theorem cancel_offCache : OffCache (ConfirmationService.cancel matchId userId) := by
  refine offCache_lookup fun m => offCache_throwIf (offCache_throwIf (offCache_throwIf ?_))
  refine offCache_await rfl fun _ => offCache_await rfl fun _ => offCache_await rfl fun _ => ?_
  exact offCache_await rfl fun _ => offCache_await rfl fun _ => offCache_pure

theorem overrideResult_offCache (isAdmin : Bool) (dto : AdminOverrideResultDto) :
    OffCache (AdminOverrideService.overrideResult matchId userId isAdmin dto) := by
  refine offCache_throwIf (offCache_lookup fun m => offCache_throwIf ?_)
  refine offCache_await rfl fun _ => offCache_await rfl fun _ => ?_
  refine offCache_catchFinally ?_ (fun _ => offCache_await rfl fun _ => offCache_throw)
    (offCache_perform rfl)
  refine offCache_await rfl fun _ => offCache_await rfl fun _ => offCache_await rfl fun _ => ?_
  refine offCache_await rfl fun _ => offCache_await rfl fun _ => offCache_await rfl fun _ => ?_
  exact offCache_await rfl fun _ => offCache_await rfl fun _ => offCache_pure

theorem adminDelete_offCache (isAdmin : Bool) :
    OffCache (AdminOverrideService.deleteMatch matchId userId isAdmin) := by
  refine offCache_throwIf (offCache_lookup fun m => offCache_bind ?_ fun _ => offCache_perform rfl)
  unfold AdminOverrideService.recordDelete
  split
  · exact offCache_await rfl fun _ => offCache_pure
  · exact offCache_pure

theorem Request.offCache (request : Request) : OffCache request.prog := by
  obtain ⟨user, route⟩ := request
  cases route with
  | createMatch dto => exact offCache_map (offCache_await rfl fun _ => offCache_pure)
  | getMatch => exact offCache_map findById_offCache
  | updateMatch id dto => exact offCache_map (update_offCache dto)
  | deleteMatch =>
      refine offCache_throwIf (offCache_bind ?_ fun _ => offCache_pure)
      exact offCache_throwIf (offCache_lookup fun _ => offCache_perform rfl)
  | addPlayers id dto => exact offCache_map (addPlayers_offCache dto)
  | submitResult id dto => exact offCache_map (submitResult_offCache dto)
  | getConfirmationStatus =>
      refine offCache_map (offCache_lookup fun _ => offCache_throwIf ?_)
      exact offCache_await rfl fun _ => offCache_await rfl fun _ => offCache_pure
  | confirmResult => exact offCache_map confirm_offCache
  | cancelConfirmation => exact offCache_map cancel_offCache
  | adminOverrideResult id dto =>
      exact offCache_throwIf (offCache_map (overrideResult_offCache _ dto))
  | adminDeleteMatch =>
      exact offCache_throwIf (offCache_bind (adminDelete_offCache _) fun _ => offCache_pure)
  | getMatchAuditLog =>
      refine offCache_throwIf (offCache_map (offCache_throwIf ?_))
      exact offCache_lookup fun _ => offCache_perform rfl

end Services

end FoosballApi.Matches

namespace FoosballApi.Leaderboard

open Calls Matches Prog Users

theorem updateDisplayName_offCache (userId : UserId) (displayName : String) :
    OffCache (UserService.updateDisplayName userId displayName) :=
  offCache_throwIf (offCache_await rfl fun _ => offCache_await rfl fun _ => ⟨issues_require⟩)

/-- Only the leaderboard and the worker reach the cache. -/
theorem AppRequest.offCache (request : AppRequest) : OffCache request.prog := by
  cases request with
  | api request => exact offCache_map request.offCache
  | upsertFromAzure azureOid email displayName =>
      refine offCache_map (offCache_await rfl fun found => ?_)
      cases found with
      | some existing => exact offCache_perform rfl
      | none => exact offCache_perform rfl
  | updateDisplayName userId displayName =>
      exact offCache_map (updateDisplayName_offCache userId displayName)

end FoosballApi.Leaderboard
