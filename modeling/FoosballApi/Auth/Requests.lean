import FoosballApi.Auth.AuthService

/-!
# The requests of the auth app

A request is one of the four methods of `AuthService` that read or write tokens, with what the
client sends. The logins and the refresh return a token pair.
-/

namespace FoosballApi.Auth

open Calls Prog

/-- A request, with the values the client sends. -/
inductive Request where
  | handleCallback (code state : String)
  | handleMobileExchange (code state : String)
  | refresh (rawRefreshToken : String)
  | logout (rawRefreshToken : String)
  deriving DecidableEq, Repr

/-- The method that serves a request. -/
def Request.prog (lib : Libraries) : Request → Api (Option TokenPair)
  | .handleCallback code state => do
      let pair ← AuthService.handleCallback lib code state
      return some pair
  | .handleMobileExchange code state => do
      let pair ← AuthService.handleMobileExchange lib code state
      return some pair
  | .refresh rawRefreshToken => do
      let pair ← AuthService.refresh lib rawRefreshToken
      return some pair
  | .logout rawRefreshToken => do
      AuthService.logout lib rawRefreshToken
      return none

/-- The raw token that a request presents. -/
def Request.presented : Request → Option String
  | .refresh rawToken | .logout rawToken => some rawToken
  | .handleCallback .. | .handleMobileExchange .. => none

/-- A state of a run of requests whose calls interleave. -/
abbrev Serving (θ : Type) := Config θ Call Call.Result Matches.Failure Unit World (Option TokenPair)

/-- The configuration in which every request is about to start. -/
abbrev World.serve {θ : Type} (w : World) (lib : Libraries) (requests : θ → Request) : Serving θ :=
  Config.start () (fun i => (requests i).prog lib) w

/-! ## The calls of a login -/

/-- A call that neither looks up nor changes a stored token; an inserted one replaces nothing. -/
def Call.Issuing : Call → Prop
  | .findOne _ | .update .. => False
  | .save token => token.replacedBy = none
  | _ => True

variable {lib : Libraries}

/-- `issueTokenPair` reads no token and changes none. -/
theorem issueTokenPair_issuing (user : Users.UserEntity) :
    (TokenService.issueTokenPair lib user).Issues Call.Issuing := by
  refine issues_bind ?_ fun _ => trivial
  refine issues_bind (issues_perform trivial) fun rawToken => ?_
  refine issues_bind (issues_perform trivial) fun now => ?_
  exact issues_bind (issues_perform rfl) fun _ => trivial

theorem signIn_issuing (claims : IdTokenClaims) :
    (AuthService.signIn lib claims).Issues Call.Issuing := by
  refine issues_bind ?_ issueTokenPair_issuing
  refine issues_bind (issues_perform trivial) fun found => ?_
  cases found with
  | none => exact issues_perform trivial
  | some existing => exact issues_perform trivial

theorem exchangeCode_issuing (code state redirectUri : String) :
    (AzureAdService.exchangeCode code state redirectUri).Issues Call.Issuing :=
  issues_bind (issues_perform trivial) fun _ => issues_require

theorem handleCallback_issuing (code state : String) :
    (AuthService.handleCallback lib code state).Issues Call.Issuing :=
  issues_bind issues_throwIf fun _ =>
    issues_bind (exchangeCode_issuing code state _) signIn_issuing

theorem handleMobileExchange_issuing (code state : String) :
    (AuthService.handleMobileExchange lib code state).Issues Call.Issuing := by
  refine issues_bind issues_throwIf fun _ => ?_
  refine issues_bind (issues_attempt (exchangeCode_issuing code state _)) fun outcome => ?_
  cases outcome with
  | ok claims => exact signIn_issuing claims
  | error failure => trivial

end FoosballApi.Auth
