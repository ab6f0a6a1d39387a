import FoosballApi.Leaderboard.BoardRuns
import FoosballApi.Leaderboard.Standings
import FoosballApi.Matches.Invariant
import FoosballApi.Users.UserService

/-!
# Runs of the two apps

The requests of the API and the two requests of the auth app that write users, each run alone. Seen
from the matches such a run is a run of `Requests.lean`, with a write of a user's row for each
request of the auth app, so that what holds in all runs of the API holds here as well. Beyond that,
every player is a user (`Linked`).
-/

namespace FoosballApi.Leaderboard

open Calls Data Events Matches Matches.World Prog Users

/-- A request of the API, a login or a change of a display name. -/
inductive AppRequest where
  | api (request : Request)
  | upsertFromAzure (azureOid email displayName : String)
  | updateDisplayName (userId : UserId) (displayName : String)

/-- The program of a request. -/
def AppRequest.prog : AppRequest → Api Unit
  | .api request => do
      let _ ← request.prog
      return ()
  | .upsertFromAzure azureOid email displayName => do
      let _ ← UserService.upsertFromAzure azureOid email displayName
      return ()
  | .updateDisplayName userId displayName => do
      let _ ← UserService.updateDisplayName userId displayName
      return ()

/-- The world after a request that ran alone, without failing calls. -/
def AppRequest.after (request : AppRequest) (w : World) : World :=
  (request.prog.eval system noFaults [] {} w).world

/-- One step of a run of the two apps. -/
inductive AppInput where
  | request (r : AppRequest)
  | tick (elapsed : Nat)

/-- The world after a step. -/
def AppInput.after (w : World) : AppInput → World
  | .request r => r.after w
  | .tick elapsed => { w with clock := w.clock + elapsed }

end FoosballApi.Leaderboard

namespace FoosballApi.Matches

open Calls Data Events Leaderboard Prog Users World

/-- The world after a run of the two apps. -/
def World.appRun (w : World) (inputs : List AppInput) : World := inputs.foldl AppInput.after w

variable {w w' : World} {matchId : MatchId}

/-! ## Every player is a user -/

/-- The foreign key from players to users. -/
def World.Linked (w : World) : Prop := ∀ p ∈ w.players, (w.users.get p.userId).isSome

/-- The users stay, and only users are registered. -/
structure KeepsUsers (w w' : World) : Prop where
  users : w'.users = w.users
  players : ∀ p ∈ w'.players, p ∈ w.players ∨ (w.users.get p.userId).isSome

namespace KeepsUsers

theorem of_eq (husers : w'.users = w.users) (hplayers : w'.players = w.players) :
    KeepsUsers w w' :=
  ⟨husers, fun _ hp => .inl (hplayers ▸ hp)⟩

theorem linked (h : KeepsUsers w w') (hlinked : w.Linked) : w'.Linked := by
  intro p hp
  rw [h.users]
  exact (h.players p hp).elim (hlinked p) id

end KeepsUsers

@[simp] theorem users_enqueue (w : World) (queue : Queue) (job : EventEnvelope) :
    (w.enqueue queue job).users = w.users := (sameTables_enqueue w queue job).users

@[simp] theorem players_enqueue (w : World) (queue : Queue) (job : EventEnvelope) :
    (w.enqueue queue job).players = w.players := (sameTables_enqueue w queue job).players

/-- Registering players, and the start of a draft, register users only. -/
theorem keepsUsers_playingWorld {saved : World} {r : MatchRow} {ps : List MatchPlayerEntity}
    (hrow : w.row matchId = some r) (hsave : w.savePlayers ps = some saved) :
    KeepsUsers w (playingWorld w saved matchId r) := by
  have husers : saved.users = w.users := by rw [savePlayers_frame hsave]
  refine ⟨?_, fun p hp => user_of_savePlayers hsave ?_⟩
  · unfold playingWorld
    split
    · exact (users_saveMatch _).trans husers
    · exact husers
  · rwa [players_playingWorld hrow hsave] at hp

/-- A confirmation changes no user and no player. -/
theorem keepsUsers_confirmedWorld {userId : UserId} {r : MatchRow}
    (hr : w.Confirmable matchId userId r) : KeepsUsers w (w.confirmedWorld matchId userId r) := by
  have hvoted := votedWorld_eq w matchId userId
  have hrow : (w.votedWorld matchId userId).row matchId = some r :=
    (row_votedWorld _ _ _ _).trans hr.row
  obtain rfl := id_of_row hr.row
  unfold confirmedWorld
  refine .of_eq ?_ ?_
  · rw [users_enqueue, users_enqueue, users_saveMatch, hvoted]
  · rw [players_enqueue, players_enqueue,
      players_saveMatch (m := ⟨r.confirmedAtTime w.clock, none⟩) hrow, hvoted]

/-- A request of the API changes no user and registers users only. -/
theorem Request.keepsUsers (request : Request) (w : World) :
    KeepsUsers w (request.outcome w).world := by
  have hleaves := request.leaves w
  generalize (request.outcome w).world = w' at hleaves ⊢
  cases hleaves with
  | same => exact .of_eq rfl rfl
  | create => exact .of_eq rfl rfl
  | update row =>
      obtain rfl := id_of_row row
      exact .of_eq (users_saveMatch _) (players_saveMatch row)
  | addPlayers row creator editable room free save => exact keepsUsers_playingWorld row save
  | submitResult row =>
      obtain rfl := id_of_row row
      exact .of_eq (by rw [users_enqueue, users_saveMatch])
        ((players_enqueue _ _ _).trans (players_saveMatch row))
  | @vote user matchId =>
      rw [votedWorld_eq]
      exact .of_eq rfl rfl
  | confirm confirmable => exact keepsUsers_confirmedWorld confirmable
  | cancel row =>
      obtain rfl := id_of_row row
      refine .of_eq (by rw [users_enqueue, users_saveMatch]; rfl) ?_
      exact (players_enqueue _ _ _).trans (players_saveMatch row)
  | overrideResult admin row =>
      obtain rfl := id_of_row row
      exact .of_eq (users_saveMatch _) (players_saveMatch row)
  | delete => exact ⟨rfl, fun p hp => .inl (Table.mem_keep.mp hp).1⟩
  | @adminDelete user matchId r =>
      obtain ⟨hrecorded, -⟩ := recordedWorld_frame w matchId r user.sub
      refine ⟨hrecorded.users, fun p hp => .inl ?_⟩
      exact hrecorded.players ▸ (Table.mem_keep.mp hp).1

/-- A user who is stored stays stored. -/
theorem isSome_get_put {users : Table UserEntity.id} {userId : UserId} (user : UserEntity)
    (h : (users.get userId).isSome) : ((users.put user).get userId).isSome := by
  rw [Table.get_put]
  split
  · rfl
  · exact h

/-- Every step of a run keeps players linked to users. -/
theorem Input.linked (hlinked : w.Linked) (input : Input) : (input.after w).Linked := by
  cases input with
  | request r => exact (r.keepsUsers w).linked hlinked
  | signIn user => exact fun p hp => isSome_get_put user (hlinked p hp)
  | tick elapsed => exact hlinked

/-- What the worlds of all runs have in common. -/
structure World.Regular (w : World) : Prop where
  sound : w.Sound
  linked : w.Linked
  wellKept : ∀ matchId, (w.matchView matchId).WellKept

/-- Every run of the API leaves a regular world. -/
theorem World.regular_run (users : Table UserEntity.id) (inputs : List Input) :
    ((World.withUsers users).run inputs).Regular := by
  have hsteps : (World.withUsers users).Steps (fun _ _ => True) inputs :=
    steps_of_forall (fun _ _ => trivial) _ _
  have hrun := World.run_induction (P := fun w => w.Sound ∧ w.Linked) hsteps
    ⟨sound_withUsers users, fun p hp => nomatch hp⟩
    fun w input _ h => ⟨Input.sound h.1 input, Input.linked h.2 input⟩
  exact ⟨hrun.1, hrun.2, run_wellKept users inputs⟩

/-! ## What the requests of the auth app do -/

/-- A request of the API run among those of both apps. -/
theorem api_after (request : Request) (w : World) :
    (AppRequest.api request).after w = (request.outcome w).world :=
  after_map_world (P := (· = (request.outcome w).world)).mpr rfl

/-- The user row a login writes. -/
def World.loginRow (w : World) (azureOid email displayName : String) : UserEntity :=
  match w.users.rows.find? (·.azureOid = azureOid) with
  | some user => { user with email := email, displayName := displayName }
  | none => w.newUser azureOid email displayName

/-- A login writes its row, unless it breaks a unique index. -/
theorem upsertFromAzure_after (azureOid email displayName : String) (w : World) :
    (AppRequest.upsertFromAzure azureOid email displayName).after w =
      (w.saveUser (w.loginRow azureOid email displayName)).getD w := by
  let user := w.loginRow azureOid email displayName
  have hspec : (UserService.upsertFromAzure azureOid email displayName).after system noFaults [] {}
      w fun out => out.world = (w.saveUser user).getD w := by
    simp only [UserService.upsertFromAzure, UserRepository.upsert, after_bind, after_perform,
      perform_noFaults, exec]
    cases hfind : w.users.rows.find? (·.azureOid = azureOid) with
    | some existing =>
        have huser : user = { existing with email := email, displayName := displayName } := by
          simp only [user, loginRow, hfind]
        simp only [after_perform, perform_noFaults, exec, huser]
        split <;> next hsave => rw [hsave]; rfl
    | none =>
        have huser : user = w.newUser azureOid email displayName := by
          simp only [user, loginRow, hfind]
        simp only [after_perform, perform_noFaults, exec, huser]
        split <;> next hsave => rw [hsave]; rfl
  exact after_map_world (P := (· = (w.saveUser user).getD w)).mpr hspec

/-- The length of a display name that is accepted. -/
def ValidName (displayName : String) : Prop :=
  1 ≤ utf16Length displayName ∧ utf16Length displayName ≤ 255

instance (displayName : String) : Decidable (ValidName displayName) :=
  inferInstanceAs (Decidable (_ ∧ _))

/-- A change of the display name stores the trimmed name, when its length is accepted. -/
theorem updateDisplayName_after (userId : UserId) (displayName : String) (w : World) :
    (AppRequest.updateDisplayName userId displayName).after w =
      if ValidName (trim displayName) then w.renameUser userId (trim displayName) else w := by
  have hspec : (UserService.updateDisplayName userId displayName).after system noFaults [] {} w
      fun out => out.world =
        if ValidName (trim displayName) then w.renameUser userId (trim displayName) else w := by
    simp only [UserService.updateDisplayName, UserRepository.updateDisplayName, after_bind,
      after_throwIf, after_perform, perform_noFaults, exec, after_require]
    refine ⟨fun hinvalid => ?_, fun hvalid => ?_⟩
    · rw [if_neg]
      rintro ⟨hmin, hmax⟩
      omega
    · rw [if_pos (show ValidName _ from ⟨by omega, by omega⟩)]
      exact ⟨fun _ => rfl, fun _ _ => rfl⟩
  exact after_map_world (P := (· = if ValidName (trim displayName) then
    w.renameUser userId (trim displayName) else w)).mpr hspec

/-! ## Runs -/

/-- A step of a run of both apps is a step of a run of the API, or leaves the world. -/
theorem appInput_after (input : AppInput) (w : World) :
    ∃ inputs : List Input, input.after w = w.run inputs := by
  cases input with
  | tick elapsed => exact ⟨[.tick elapsed], rfl⟩
  | request r =>
      cases r with
      | api request => exact ⟨[.request request], api_after request w⟩
      | upsertFromAzure azureOid email displayName =>
          rw [AppInput.after, upsertFromAzure_after]
          cases hsave : w.saveUser (w.loginRow azureOid email displayName) with
          | none => exact ⟨[], rfl⟩
          | some w' => exact ⟨[.signIn _], saveUser_eq_some hsave⟩
      | updateDisplayName userId displayName =>
          rw [AppInput.after, updateDisplayName_after, renameUser]
          split
          · split
            · exact ⟨[.signIn _], rfl⟩
            · exact ⟨[], rfl⟩
          · exact ⟨[], rfl⟩

/-- A run of both apps ends in a world that a run of the API reaches as well. -/
theorem World.appRun_eq (w : World) (inputs : List AppInput) :
    ∃ steps : List Input, w.appRun inputs = w.run steps := by
  induction inputs generalizing w with
  | nil => exact ⟨[], rfl⟩
  | cons input inputs ih =>
      obtain ⟨first, hfirst⟩ := appInput_after input w
      obtain ⟨rest, hrest⟩ := ih (input.after w)
      refine ⟨first ++ rest, ?_⟩
      rw [run_append, ← hfirst, ← hrest]
      rfl

/-- Every run of the two apps leaves a regular world. -/
theorem World.regular_appRun (users : Table UserEntity.id) (inputs : List AppInput) :
    ((World.withUsers users).appRun inputs).Regular := by
  obtain ⟨steps, hsteps⟩ := World.appRun_eq (World.withUsers users) inputs
  rw [hsteps]
  exact regular_run users steps

end FoosballApi.Matches
