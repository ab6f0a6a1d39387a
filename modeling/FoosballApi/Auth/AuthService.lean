import FoosballApi.Auth.Tokens

/-!
# `RefreshTokenService`, `TokenService` and `AuthService`

Signing in, and issuing, rotating and invalidating refresh tokens. A login exchanges the code of
Azure AD, upserts the user and issues a token pair. A refresh validates the presented token, reads
its user, inserts the successor, marks the presented row as used, and issues a token pair of which
only the access token is returned.
-/

namespace FoosballApi.Auth

open Calls Users
open Matches (UserId Failure)

/-- `INVALID_REFRESH_TOKEN`. -/
def invalidRefreshToken : Failure :=
  .http ⟨401, "INVALID_REFRESH_TOKEN", "Refresh token is invalid, expired, or already used", []⟩

/-- `USER_NOT_FOUND`. -/
def userNotFound (id : UserId) : Failure :=
  .http ⟨404, "USER_NOT_FOUND", s!"User {id} not found", []⟩

/-- `INVALID_CALLBACK`. -/
def invalidCallback : Failure :=
  .http ⟨400, "INVALID_CALLBACK", "Missing or invalid authorization code", []⟩

/-- `MOBILE_EXCHANGE_FAILED`. -/
def mobileExchangeFailed : Failure :=
  .http ⟨401, "MOBILE_EXCHANGE_FAILED", "Azure AD rejected the authorization code", []⟩

/-- `TokenPair`. -/
structure TokenPair where
  accessToken : String
  refreshToken : String
  expiresIn : Nat
  deriving DecidableEq, Repr

/-- `refreshTtlMs`: 24 hours. -/
def refreshTtlMs : Nat := 24 * 60 * 60 * 1000

/-- `userService.findById(id)`. -/
def UserService.findById (id : UserId) : Api UserEntity := do
  let user ← await (.findUserById id)
  Prog.require user (userNotFound id)

/-- `userRepository.upsert(data)`. -/
def UserRepository.upsert (azureOid email displayName : String) : Api UserEntity := do
  match ← await (.findByAzureOid azureOid) with
  | some existing => await (.saveUser { existing with email := email, displayName := displayName })
  | none => await (.insertUser azureOid email displayName)

/-- `userService.upsertFromAzure(input)`. -/
def UserService.upsertFromAzure (azureOid email displayName : String) : Api UserEntity :=
  UserRepository.upsert azureOid email displayName

/-- `azureAdService.exchangeCode(code, state, redirectUri)`. -/
def AzureAdService.exchangeCode (code _state redirectUri : String) : Api IdTokenClaims := do
  let result ← await (.acquireTokenByCode code redirectUri)
  Prog.require result (.plain "MSAL returned null token result")

namespace IdTokenClaims

/-- `preferred_username ?? email`. -/
def address (claims : IdTokenClaims) : String :=
  (claims.preferredUsername.or claims.email).get claims.addressed

/-- `name ?? email`, where `email` is the address. -/
def displayName (claims : IdTokenClaims) : String := claims.name.getD claims.address

end IdTokenClaims

variable (lib : Libraries)

namespace RefreshTokenService

/-- `hashToken(rawToken)`. -/
def hashToken (rawToken : String) : String := lib.sha256 rawToken

/-- `issue(userId, ttlMs)`. -/
def issue (userId : UserId) (ttlMs : Nat) : Api String := do
  let rawToken ← await .randomBytes
  let now ← await .now
  let _ ← await (.save
    { userId := userId
      tokenHash := hashToken lib rawToken
      expiresAt := now + ttlMs
      usedAt := none
      replacedBy := none })
  return rawToken

/-- `validate(rawToken)`. -/
def validate (rawToken : String) : Api RefreshTokenEntity := do
  let token ← Prog.require (← await (.findOne (hashToken lib rawToken))) invalidRefreshToken
  Prog.throwIf (token.usedAt ≠ none) invalidRefreshToken
  let now ← await .now
  Prog.throwIf (token.expiresAt < now) invalidRefreshToken
  return token

/-- `rotate(oldToken, userId, ttlMs)`. -/
def rotate (oldToken : RefreshTokenEntity) (userId : UserId) (ttlMs : Nat) : Api String := do
  let rawToken ← await .randomBytes
  let now ← await .now
  let saved ← await (.save
    { userId := userId
      tokenHash := hashToken lib rawToken
      expiresAt := now + ttlMs
      usedAt := none
      replacedBy := none })
  let usedAt ← await .now
  await (.update (.id oldToken.id) { usedAt := usedAt, replacedBy := some saved.id })
  return rawToken

/-- `invalidate(rawToken)`. -/
def invalidate (rawToken : String) : Api Unit := do
  let usedAt ← await .now
  await (.update (.tokenHash (hashToken lib rawToken)) { usedAt := usedAt })

end RefreshTokenService

/-- `tokenService.issueTokenPair(user)`. -/
def TokenService.issueTokenPair (user : UserEntity) : Api TokenPair := do
  let payload : JwtPayload :=
    { sub := user.id, email := user.email, isAdmin := user.isAdmin, azureOid := user.azureOid }
  let accessToken := lib.sign payload
  let refreshToken ← RefreshTokenService.issue lib user.id refreshTtlMs
  return { accessToken := accessToken, refreshToken := refreshToken, expiresIn := 900 }

namespace AuthService

/-- What the two logins do with the claims of the user. -/
def signIn (claims : IdTokenClaims) : Api TokenPair := do
  let user ← UserService.upsertFromAzure claims.oid claims.address claims.displayName
  TokenService.issueTokenPair lib user

/-- `handleCallback(code, state)`. -/
def handleCallback (code state : String) : Api TokenPair := do
  Prog.throwIf (code = "" ∨ state = "") invalidCallback
  let claims ← AzureAdService.exchangeCode code state lib.webRedirectUri
  signIn lib claims

/-- `handleMobileExchange(code, state)`: a rejected exchange is reported as one. -/
def handleMobileExchange (code state : String) : Api TokenPair := do
  Prog.throwIf (code = "" ∨ state = "") invalidCallback
  match ← (AzureAdService.exchangeCode code state lib.mobileRedirectUri).attempt with
  | .ok claims => signIn lib claims
  | .error _ => .throw mobileExchangeFailed

/-- `refresh(rawRefreshToken)`. -/
def refresh (rawRefreshToken : String) : Api TokenPair := do
  let tokenEntity ← RefreshTokenService.validate lib rawRefreshToken
  let user ← UserService.findById tokenEntity.userId
  let newRawToken ← RefreshTokenService.rotate lib tokenEntity user.id refreshTtlMs
  let pair ← TokenService.issueTokenPair lib user
  return { accessToken := pair.accessToken, refreshToken := newRawToken, expiresIn := 900 }

/-- `logout(rawRefreshToken)`. -/
def logout (rawRefreshToken : String) : Api Unit :=
  RefreshTokenService.invalidate lib rawRefreshToken

end AuthService

end FoosballApi.Auth
