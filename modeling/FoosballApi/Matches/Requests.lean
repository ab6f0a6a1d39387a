import FoosballApi.Matches.AdminOverrideService
import FoosballApi.Matches.ConfirmationService
import FoosballApi.Matches.MatchService

/-!
# Requests and runs of requests

The endpoints of `MatchesController` and `AdminController` that reach the match services, with
the guard of the admin routes, and the runs in which requests do not overlap: each request runs
alone, from the world the previous one left, and none of its calls fails.
-/

namespace FoosballApi.Matches

open Calls Data Users

/-- The part of `JwtPayload` the controllers read. -/
structure JwtPayload where
  sub : UserId
  isAdmin : Bool

/-- `RolesGuard` on a route that requires the role `'admin'`. -/
def rolesGuard (user : JwtPayload) : Api Unit :=
  Prog.throwIf (¬ user.isAdmin) .forbiddenAdminRequired

/-- The routes, under their operation ids. -/
inductive Route where
  | createMatch (dto : CreateMatchDto)
  | getMatch (matchId : MatchId)
  | updateMatch (matchId : MatchId) (dto : UpdateMatchDto)
  | deleteMatch (matchId : MatchId)
  | addPlayers (matchId : MatchId) (dto : AddPlayersDto)
  | submitResult (matchId : MatchId) (dto : SubmitResultDto)
  | getConfirmationStatus (matchId : MatchId)
  | confirmResult (matchId : MatchId)
  | cancelConfirmation (matchId : MatchId)
  | adminOverrideResult (matchId : MatchId) (dto : AdminOverrideResultDto)
  | adminDeleteMatch (matchId : MatchId)
  | getMatchAuditLog (matchId : MatchId)

/-- A request of an authenticated user. -/
structure Request where
  user : JwtPayload
  route : Route

/-- What a request answers when it does not fail. -/
inductive Response where
  | noContent
  | matchEntity (m : MatchEntity)
  | confirmationStatus (status : ConfirmationStatusResult)
  | overrideResult (result : AdminOverrideResult)
  | auditLog (data : List AuditLogEntity)
  deriving DecidableEq

/-- The handler of a request: its guards, then the service. -/
def Request.prog (request : Request) : Api Response :=
  let user := request.user
  match request.route with
  | .createMatch dto => do return .matchEntity (← MatchService.create user.sub dto)
  | .getMatch matchId => do return .matchEntity (← MatchService.findById matchId)
  | .updateMatch matchId dto => do
      return .matchEntity (← MatchService.update matchId user.sub dto)
  | .deleteMatch matchId => do
      rolesGuard user
      MatchService.delete matchId user.sub user.isAdmin
      return .noContent
  | .addPlayers matchId dto => do
      return .matchEntity (← MatchService.addPlayers matchId user.sub dto)
  | .submitResult matchId dto => do
      return .matchEntity (← MatchService.submitResult matchId user.sub dto)
  | .getConfirmationStatus matchId => do
      return .confirmationStatus (← ConfirmationService.getStatus matchId)
  | .confirmResult matchId => do
      return .confirmationStatus (← ConfirmationService.confirm matchId user.sub)
  | .cancelConfirmation matchId => do
      return .confirmationStatus (← ConfirmationService.cancel matchId user.sub)
  | .adminOverrideResult matchId dto => do
      rolesGuard user
      return .overrideResult
        (← AdminOverrideService.overrideResult matchId user.sub user.isAdmin dto)
  | .adminDeleteMatch matchId => do
      rolesGuard user
      AdminOverrideService.deleteMatch matchId user.sub user.isAdmin
      return .noContent
  | .getMatchAuditLog matchId => do
      rolesGuard user
      return .auditLog (← AdminOverrideService.getAuditLog matchId user.isAdmin)

/-! ## Runs of requests that do not overlap -/

/-- A request run alone, without failing calls. -/
def Request.outcome (request : Request) (w : World) : Outcome Call Failure Session World Response :=
  request.prog.eval system Prog.noFaults [] {} w

/-- One step of a run: a request, a login that writes a user row, or time passing. -/
inductive Input where
  | request (r : Request)
  | signIn (user : UserEntity)
  | tick (elapsed : Nat)

/-- The world after a step. -/
def Input.after (w : World) : Input → World
  | .request r => (r.outcome w).world
  | .signIn user => { w with users := w.users.put user }
  | .tick elapsed => { w with clock := w.clock + elapsed }

/-- The world after a run. -/
def World.run (w : World) (inputs : List Input) : World := inputs.foldl Input.after w

@[simp] theorem World.run_nil (w : World) : w.run [] = w := rfl

@[simp] theorem World.run_append (w : World) (inputs more : List Input) :
    w.run (inputs ++ more) = (w.run inputs).run more := List.foldl_append ..

@[simp] theorem World.run_cons (w : World) (input : Input) (inputs : List Input) :
    w.run (input :: inputs) = (input.after w).run inputs := rfl

/-- Every step of a run satisfies a condition on the world before it. -/
def World.Steps (ok : World → Input → Prop) : World → List Input → Prop
  | _, [] => True
  | w, input :: inputs => ok w input ∧ Steps ok (input.after w) inputs

/-- A condition that holds of every step. -/
theorem World.steps_of_forall {ok : World → Input → Prop} (hok : ∀ w input, ok w input) (w : World)
    (inputs : List Input) : w.Steps ok inputs := by
  induction inputs generalizing w with
  | nil => exact trivial
  | cons input inputs ih => exact ⟨hok w input, ih (input.after w)⟩

theorem World.steps_append {ok : World → Input → Prop} {w : World} {inputs more : List Input} :
    w.Steps ok (inputs ++ more) ↔ w.Steps ok inputs ∧ (w.run inputs).Steps ok more := by
  induction inputs generalizing w with
  | nil => simp [World.Steps]
  | cons input inputs ih =>
      rw [List.cons_append, World.Steps, World.Steps, ih, and_assoc, World.run_cons]

/-- What the first world has and every step that satisfies the condition keeps, the world after a
run of such steps has. -/
theorem World.run_induction {ok : World → Input → Prop} {P : World → Prop} {w : World}
    {inputs : List Input} (hsteps : w.Steps ok inputs) (hw : P w)
    (hstep : ∀ w input, ok w input → P w → P (input.after w)) : P (w.run inputs) := by
  induction inputs generalizing w with
  | nil => exact hw
  | cons input inputs ih => exact ih hsteps.2 (hstep w input hsteps.1 hw)

/-! ## A one-on-one match

The run later modules evaluate: `mario` creates a match against `rival`, submits the result, and
both confirm it; `admin` is an admin. -/

/-- Two players and an admin, signed in. -/
def signedIn : Table UserEntity.id :=
  (((Table.empty _).put ⟨1, "oid-001", "mario@foosball.test", "mario", false⟩).put
    ⟨2, "oid-002", "rival@foosball.test", "rival", false⟩).put
      ⟨3, "oid-003", "admin@foosball.test", "admin", true⟩

def mario : JwtPayload := ⟨1, false⟩
def rival : JwtPayload := ⟨2, false⟩
def admin : JwtPayload := ⟨3, true⟩

/-- Register a user in a slot of a team. -/
def playerDto (userId : UserId) (team : Team) (slot : Fin 4) (h : 0 < userId) : PlayerDto :=
  ⟨userId, team, slot + 1, none, h, by omega, by omega, by simp⟩

/-- `mario` and `rival` in the first slots of the teams. -/
def bothTeams : AddPlayersDto :=
  ⟨[playerDto 1 .A 0 Nat.one_pos, playerDto 2 .B 0 Nat.two_pos], by decide, by decide⟩

/-- The match is created, filled and its result submitted. -/
def duel : List Input :=
  [ .request ⟨mario, .createMatch ⟨some .oneVsOne⟩⟩
  , .request ⟨mario, .addPlayers 1 bothTeams⟩
  , .request ⟨mario, .submitResult 1 ⟨3, 1⟩⟩ ]

/-- Both players confirm the result. -/
def duelConfirmed : List Input :=
  duel ++ [.request ⟨mario, .confirmResult 1⟩, .tick 5, .request ⟨rival, .confirmResult 1⟩]

end FoosballApi.Matches
