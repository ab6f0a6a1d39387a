import FoosballApi.Auth.UserUpserts
import FoosballApi.Auth.TokenChain
import FoosballApi.Calls.Returning
import FoosballApi.Text.JsonText

/-!
# What an access token says

Logins, refreshes and logouts beside SQL that sets `is_admin`, in any interleaving and with any
calls failing. A token pair that is returned names a user who was stored at some moment of the
request: the one that Azure AD named for the code, or the owner of the refresh token, which was
read unused. Its refresh token is stored for this user. `is_admin` is true in it only if the user
was an admin at the start or SQL had made the user one by then, so `RolesGuard` lets nobody else
through with it.

`Granted` is where `is_admin` may come from, and `Sourced` what every call of a run guarantees.
-/

namespace FoosballApi.Auth

open Calls Data Prog Trace Users RefreshTokenService
open Matches (UserId Failure)

/-! ## The guards -/

/-- `UNAUTHORIZED`. -/
def unauthorized : Failure :=
  .http ⟨401, "UNAUTHORIZED", "Missing or invalid Bearer token", []⟩

/-- `canActivate` of `JwtAuthGuard`: the claims it puts into the request, none on a public route.
`verify` is `jwtService.verify`, without a value where it throws. -/
def JwtAuthGuard.canActivate (verify : String → Option JwtPayload) (isPublic : Bool)
    (authHeader : Option String) : Except Failure (Option JwtPayload) :=
  if isPublic then .ok none
  else
    match authHeader with
    | none => .error unauthorized
    | some header =>
        if "Bearer ".toList.isPrefixOf header.toList then
          let token := String.ofList (header.toList.drop 7)
          match verify token with
          | some payload => .ok (some payload)
          | none => .error unauthorized
        else .error unauthorized

/-- `canActivate` of `RolesGuard`. -/
def RolesGuard.canActivate (requiredRoles : List String) (user : Option JwtPayload) :
    Except Failure Unit :=
  if requiredRoles = [] then .ok ()
  else
    match user with
    | none => .error .forbiddenAdminRequired
    | some user =>
        if "admin" ∈ requiredRoles ∧ ¬ user.isAdmin then .error .forbiddenAdminRequired else .ok ()

/-- The header that a client sends with an access token. -/
def bearer (accessToken : String) : String := "Bearer " ++ accessToken

/-- The claims that the guard puts into a request are those of the token after `Bearer `. -/
theorem verify_of_canActivate {verify : String → Option JwtPayload} {accessToken : String}
    {payload : JwtPayload} (hadmitted : JwtAuthGuard.canActivate verify false
      (some (bearer accessToken)) = .ok (some payload)) : verify accessToken = some payload := by
  have hprefix : "Bearer ".toList.isPrefixOf (bearer accessToken).toList = true := by
    simp [bearer, String.toList_append]
  have hrest : String.ofList ((bearer accessToken).toList.drop 7) = accessToken := by
    simp [bearer, String.toList_append]
  simp only [JwtAuthGuard.canActivate, Bool.false_eq_true, ↓reduceIte, hprefix, hrest] at hadmitted
  split at hadmitted
  · next verified hverified =>
      cases hadmitted
      exact hverified
  · cases hadmitted

/-- An admin route is open to admins. -/
theorem isAdmin_of_rolesGuard {payload : JwtPayload}
    (hok : RolesGuard.canActivate ["admin"] (some payload) = .ok ()) : payload.isAdmin = true := by
  by_contra hnot
  simp [RolesGuard.canActivate, hnot] at hok

/-! ## Clients -/

/-- A request, or SQL that sets `is_admin`. -/
inductive AuthClient where
  | request (r : Request)
  | setIsAdmin (id : UserId) (isAdmin : Bool)
  deriving DecidableEq, Repr

/-- The program of a client; the logins and the refresh return a token pair. -/
def AuthClient.prog (lib : Libraries) : AuthClient → Api (Option TokenPair)
  | .request r => r.prog lib
  | .setIsAdmin id isAdmin => do
      await (.setIsAdmin id isAdmin)
      return none

variable {θ : Type}

/-- The configuration in which every client is about to start. -/
abbrev World.connect (w : World) (lib : Libraries) (clients : θ → AuthClient) : Serving θ :=
  Config.start () (fun i => (clients i).prog lib) w

/-- A user was an admin in the initial world, or SQL has made the user one. -/
def Granted (id : UserId) (h : History θ) : Prop :=
  (∃ user ∈ h.init.users, user.id = id ∧ user.isAdmin = true) ∨
    ∃ i w, ⟨i, .setIsAdmin id true, .ok (), w⟩ ∈ h.events

/-- A user as it was stored at a moment of the past, by which its `is_admin` was granted. -/
def WasStored (user : UserEntity) (h : History θ) : Prop :=
  ∃ h₀, Past h₀ h ∧ user ∈ h₀.world.users ∧ (user.isAdmin = true → Granted user.id h₀)

/-- A row of a user has the token hash. -/
def World.HoldsFor (w : World) (userId : UserId) (tokenHash : String) : Prop :=
  ∃ row ∈ w.refreshTokens, row.userId = userId ∧ row.tokenHash = tokenHash

/-- The claims that `issueTokenPair` signs. -/
def claimsOf (user : UserEntity) : JwtPayload :=
  { sub := user.id, email := user.email, isAdmin := user.isAdmin, azureOid := user.azureOid }

/-- The request `i` has got the claims of an ID token for the code. -/
def Answered (i : θ) (code redirectUri : String) (claims : IdTokenClaims) (h : History θ) : Prop :=
  ∃ (h₀ : History θ) (w : World),
    Past (h₀.snoc ⟨i, .acquireTokenByCode code redirectUri, .ok (some claims), w⟩) h

/-- A request is answered for a user: the one Azure AD names for the code, or the owner of the
refresh token. -/
inductive Entitled (lib : Libraries) (i : θ) (user : UserEntity) (h : History θ) : Request → Prop
  | callback {code state : String} {claims : IdTokenClaims}
      (answered : Answered i code lib.webRedirectUri claims h)
      (azureOid : user.azureOid = claims.oid) (email : user.email = claims.address) :
      Entitled lib i user h (.handleCallback code state)
  | mobile {code state : String} {claims : IdTokenClaims}
      (answered : Answered i code lib.mobileRedirectUri claims h)
      (azureOid : user.azureOid = claims.oid) (email : user.email = claims.address) :
      Entitled lib i user h (.handleMobileExchange code state)
  | refresh {rawToken : String} {row : RefreshTokenEntity}
      (validated : Validated lib rawToken i row h) (owner : user.id = row.userId) :
      Entitled lib i user h (.refresh rawToken)

/-- A token pair whose access token was signed for a user. -/
structure SignedFor (lib : Libraries) (user : UserEntity) (pair : TokenPair) (h : History θ) :
    Prop where
  read : WasStored user h
  accessToken : pair.accessToken = lib.sign (claimsOf user)
  expiresIn : pair.expiresIn = 900

/-- Every returned pair was made for a user the request is answered for, and its refresh token is
stored for this user. The guards take its access token for the claims of such a user, and let only
somebody who was made an admin through to the admin routes. -/
structure TokensGenuine [DecidableEq θ] (lib : Libraries) (verify : String → Option JwtPayload)
    (clients : θ → AuthClient) (c : Serving θ) : Prop where
  pairs : ∀ i pair, c.resultOf i = some (.ok (some pair)) → ∃ request user,
    clients i = .request request ∧ Entitled lib i user c.trace request ∧
      SignedFor lib user pair c.trace ∧
        c.trace.world.HoldsFor user.id (hashToken lib pair.refreshToken)
  guards : ∀ i pair, c.resultOf i = some (.ok (some pair)) → ∀ payload,
    JwtAuthGuard.canActivate verify false (some (bearer pair.accessToken)) = .ok (some payload) →
    (∃ user, WasStored user c.trace ∧ payload = claimsOf user) ∧
      (RolesGuard.canActivate ["admin"] (some payload) = .ok () → Granted payload.sub c.trace)

/-! ## Where `is_admin` comes from -/

section

variable {id : UserId} {user : UserEntity} {h h' : History θ} {lib : Libraries}

theorem Granted.mono (hgranted : Granted id h) (hpast : Past h h') : Granted id h' := by
  rcases hgranted with ⟨user, huser, hadmin⟩ | ⟨i, w, hset⟩
  · exact .inl ⟨user, hpast.1 ▸ huser, hadmin⟩
  · exact .inr ⟨i, w, hpast.2.subset hset⟩

theorem WasStored.mono (hstored : WasStored user h) (hpast : Past h h') : WasStored user h' := by
  obtain ⟨h₀, hpast₀, huser⟩ := hstored
  exact ⟨h₀, hpast₀.trans hpast, huser⟩

theorem WasStored.granted (hstored : WasStored user h) (hadmin : user.isAdmin = true) :
    Granted user.id h := by
  obtain ⟨h₀, hpast, -, hgranted⟩ := hstored
  exact (hgranted hadmin).mono hpast

theorem Answered.mono {i : θ} {code redirectUri : String} {claims : IdTokenClaims}
    (hanswered : Answered i code redirectUri claims h) (hpast : Past h h') :
    Answered i code redirectUri claims h' := by
  obtain ⟨h₀, w, hanswer⟩ := hanswered
  exact ⟨h₀, w, hanswer.trans hpast⟩

/-- A call is carried out or changes nothing, and a row is saved as an admin only if the user was
granted this. -/
structure Sourced (lib : Libraries) (h : History θ) (event : CallEvent θ) : Prop where
  made : exec lib event.op () h.world = (event.result, (), event.world) ∨
    event.world = h.world
  saves : ∀ user, event.op = .saveUser user → user.isAdmin = true → Granted user.id h

/-- The terms under which the clients run. -/
def sourceTerms (lib : Libraries) : Contract θ Call Call.Result Failure World where
  init _ := True
  allow _ _ _ _ := True
  guar := Sourced lib

/-- The admins of a world were granted it. -/
def AdminsGranted (h : History θ) : Prop :=
  ∀ user ∈ h.world.users, user.isAdmin = true → Granted user.id h

/-- Every call keeps it that way. -/
theorem AdminsGranted.snoc {event : CallEvent θ} (hadmins : AdminsGranted h)
    (hsourced : Sourced lib h event) : AdminsGranted (h.snoc event) := by
  obtain ⟨i, op, result, w⟩ := event
  intro user huser hadmin
  have hlater := fun (hold : user ∈ h.world.users) =>
    (hadmins user hold hadmin).mono (past_snoc h ⟨i, op, result, w⟩)
  change user ∈ w.users at huser
  rcases hsourced.made with hexec | hkept
  · have hafter := usersAfter_exec lib op () h.world
    change exec lib op () h.world = (result, (), w) at hexec
    rw [hexec] at hafter
    cases hafter with
    | kept notSet users => exact hlater (users ▸ huser)
    | @saved saved save after =>
        obtain ⟨-, rfl⟩ := World.saveUser_eq_some after
        rcases Table.mem_put.mp huser with rfl | ⟨hold, -⟩
        · exact (hsourced.saves user save hadmin).mono (past_snoc h _)
        · exact hlater hold
    | inserted insert after =>
        obtain ⟨-, rfl⟩ := World.saveUser_eq_some after
        rcases Table.mem_put.mp huser with rfl | ⟨hold, -⟩
        · cases hadmin
        · exact hlater hold
    | @set id isAdmin set after =>
        subst set
        subst after
        obtain ⟨old, hold, heq⟩ :=
          (Table.mem_modify (fun user : UserEntity => { user with isAdmin := isAdmin })
            fun _ => rfl).mp huser
        split at heq
        · next hpicks =>
            obtain rfl := heq
            obtain rfl : isAdmin = true := hadmin
            obtain rfl : old.id = id := of_decide_eq_true hpicks
            cases hexec
            exact .inr ⟨i, _, List.mem_cons_self⟩
        · exact hlater (heq ▸ hold)
  · obtain rfl : w = h.world := hkept
    exact hlater huser

/-- The admins of every world of a run were granted it. -/
theorem adminsGranted_of_valid (hvalid : (sourceTerms lib).Valid h) : AdminsGranted h := by
  refine hvalid.induction (I := AdminsGranted) ?_ fun h₀ e _ hadmins hsourced => ?_
  · exact fun world _ user huser hadmin => .inl ⟨user, huser, rfl, hadmin⟩
  · exact hadmins.snoc hsourced

/-- A stored user is one that was stored. -/
theorem wasStored_of_valid (hvalid : (sourceTerms lib).Valid h) (huser : user ∈ h.world.users) :
    WasStored user h :=
  ⟨h, .refl h, huser, adminsGranted_of_valid hvalid user huser⟩

/-! ## Rows stay with their users -/

/-- No call takes a token from its user. -/
theorem holdsFor_of_after {op : Call} {w w' : World} {tokenHash : String}
    (hafter : TokensAfter op w w') (hholds : w.HoldsFor id tokenHash) :
    w'.HoldsFor id tokenHash := by
  obtain ⟨row, hrow, howner, hhash⟩ := hholds
  cases hafter with
  | kept tokens _ => exact ⟨row, tokens ▸ hrow, howner, hhash⟩
  | inserted _ insert =>
      exact ⟨row, (World.mem_insertToken insert).mpr (.inr hrow), howner, hhash⟩
  | updated _ after =>
      subst after
      refine ⟨_, World.mem_updateTokens.mpr ⟨row, hrow, rfl⟩, ?_⟩
      split
      · exact ⟨howner, hhash⟩
      · exact ⟨howner, hhash⟩

/-- A call of a run takes no token from its user. -/
theorem Sourced.holdsFor {event : CallEvent θ} (hsourced : Sourced lib h event)
    {tokenHash : String} (hholds : h.world.HoldsFor id tokenHash) :
    event.world.HoldsFor id tokenHash := by
  rcases hsourced.made with hexec | hkept
  · have hafter := tokensAfter_exec lib event.op () h.world
    rw [hexec] at hafter
    exact holdsFor_of_after hafter hholds
  · rwa [hkept]

/-- A token was stored for a user at a moment of the past. -/
def WasHeld (id : UserId) (tokenHash : String) (h : History θ) : Prop :=
  ∃ h₀, Past h₀ h ∧ h₀.world.HoldsFor id tokenHash

theorem WasHeld.mono {tokenHash : String} (hheld : WasHeld id tokenHash h) (hpast : Past h h') :
    WasHeld id tokenHash h' := by
  obtain ⟨h₀, hpast₀, hholds⟩ := hheld
  exact ⟨h₀, hpast₀.trans hpast, hholds⟩

/-- It still is. -/
theorem WasHeld.holdsFor {tokenHash : String} (hheld : WasHeld id tokenHash h)
    (hvalid : (sourceTerms lib).Valid h) : h.world.HoldsFor id tokenHash := by
  obtain ⟨h₀, hpast, hholds⟩ := hheld
  exact Steps.since (I := fun h => h.world.HoldsFor id tokenHash) hvalid.2 hpast hholds
    fun _ _ hholds hsourced => hsourced.holdsFor hholds

theorem SignedFor.mono {pair : TokenPair} (hsigned : SignedFor lib user pair h)
    (hpast : Past h h') : SignedFor lib user pair h' where
  read := hsigned.read.mono hpast
  accessToken := hsigned.accessToken
  expiresIn := hsigned.expiresIn

theorem Entitled.mono {i : θ} {request : Request} (hentitled : Entitled lib i user h request)
    (hpast : Past h h') : Entitled lib i user h' request := by
  cases hentitled with
  | callback answered azureOid email => exact .callback (answered.mono hpast) azureOid email
  | mobile answered azureOid email => exact .mobile (answered.mono hpast) azureOid email
  | refresh validated owner => exact .refresh (validated.mono hpast) owner

end

/-! ## The programs keep the terms -/

section

variable {lib : Libraries} {i : θ} {h : History θ} {α : Type} {P : α → History θ → Prop}

/-- A call keeps the terms unless it saves an admin who was not granted it. -/
theorem sourced_perform {op : Call} (fails : Bool)
    (hsave : ∀ user, op = .saveUser user → user.isAdmin = true → Granted user.id h) :
    Sourced lib h ⟨i, op, ((system lib).perform fails op () h.world).1,
      ((system lib).perform fails op () h.world).2.2⟩ := by
  refine ⟨?_, hsave⟩
  rcases perform_cases fails op h.world with hdone | ⟨failure, hfailed⟩
  · rw [hdone]
    exact .inl rfl
  · rw [hfailed]
    exact .inr rfl

/-- A call, with what follows it when it goes through. -/
theorem wp_sourced {op : Call} {next : op.Result → Api α}
    (hsave : ∀ user, op = .saveUser user → user.isAdmin = true → Granted user.id h)
    (hnext : ∀ h', Past h h' → (sourceTerms lib).Valid h' → ∀ value w',
      exec lib op () h'.world = (.ok value, (), w') →
      wp (system lib) (sourceTerms lib) i (next value) () (h'.snoc ⟨i, op, .ok value, w'⟩)
        (OnReturn P)) :
    wp (system lib) (sourceTerms lib) i (await op >>= next) () h (OnReturn P) := by
  refine wp_call_onReturn (fun h' hmean _ fails => ?_) ?_
  · exact sourced_perform fails fun user hop hadmin => (hsave user hop hadmin).mono hmean.past
  · intro h' hmean hvalid fails value _ w' hdone
    rcases perform_cases fails op h'.world with hexec | ⟨failure, hfailed⟩
    · exact hnext h' hmean.past hvalid value w' (hexec.symm.trans hdone)
    · rw [hfailed] at hdone
      cases hdone

/-- The insert of a token, with what follows it. -/
theorem wp_save {token : NewToken} {next : RefreshTokenEntity → Api α}
    (hnext : ∀ h', Past h h' → WasHeld token.userId token.tokenHash h' → ∀ saved,
      wp (system lib) (sourceTerms lib) i (next saved) () h' (OnReturn P)) :
    wp (system lib) (sourceTerms lib) i (await (.save token) >>= next) () h (OnReturn P) := by
  refine wp_sourced (fun _ hop => by cases hop) fun h₁ hpast _ saved w hexec => ?_
  refine hnext _ hpast.snoc ?_ saved
  simp only [exec] at hexec
  split at hexec
  · next w' hinsert =>
      cases hexec
      exact ⟨_, .refl _, _, (World.mem_insertToken hinsert).mpr (.inl rfl), rfl, rfl⟩
  · cases hexec

/-- `issue` returns a token that is stored for the user. -/
theorem issue_sourced (userId : UserId) (ttlMs : Nat) :
    wp (system lib) (sourceTerms lib) i (issue lib userId ttlMs) () h
      (OnReturn fun rawToken h' => WasHeld userId (hashToken lib rawToken) h') := by
  unfold issue
  refine wp_sourced (fun _ hop => by cases hop) fun h₁ _ _ rawToken w₁ _ => ?_
  refine wp_sourced (fun _ hop => by cases hop) fun h₂ _ _ now w₂ _ => ?_
  exact wp_save fun h₃ _ hheld _ => .ok hheld

/-- `issueTokenPair` of a user who was stored makes a pair for the user. -/
theorem issueTokenPair_sourced {user : UserEntity} (hstored : WasStored user h) :
    wp (system lib) (sourceTerms lib) i (TokenService.issueTokenPair lib user) () h
      (OnReturn fun pair h' => SignedFor lib user pair h' ∧
        WasHeld user.id (hashToken lib pair.refreshToken) h') := by
  refine wp_bind_onReturn (issue_sourced user.id refreshTtlMs) fun rawToken s h₁ hpast hheld => ?_
  exact .ok ⟨⟨hstored.mono hpast, rfl, rfl⟩, hheld⟩

/-- The save of a user with the id and `is_admin` of one who was stored. -/
theorem saveUser_sourced {user : UserEntity}
    (hadmin : user.isAdmin = true → Granted user.id h) :
    wp (system lib) (sourceTerms lib) i (await (.saveUser user)) () h
      (OnReturn fun saved h' => WasStored saved h' ∧ saved = user) := by
  rw [← Prog.bind_pure (await (.saveUser user))]
  refine wp_sourced (fun _ hop hsaved => ?_) fun h₁ hpast _ saved w hexec => ?_
  · cases hop
    exact hadmin hsaved
  · simp only [exec] at hexec
    split at hexec
    · next w' hsaved =>
        cases hexec
        obtain ⟨-, rfl⟩ := World.saveUser_eq_some hsaved
        refine .ok ⟨⟨_, .refl _, Table.mem_put.mpr (.inl rfl), fun hsaved => ?_⟩, rfl⟩
        exact (hadmin hsaved).mono hpast.snoc
    · cases hexec

/-- The insert of a new user, who is no admin. -/
theorem insertUser_sourced (azureOid email displayName : String) :
    wp (system lib) (sourceTerms lib) i (await (.insertUser azureOid email displayName)) () h
      (OnReturn fun user h' =>
        WasStored user h' ∧ user.azureOid = azureOid ∧ user.email = email) := by
  rw [← Prog.bind_pure (await (.insertUser azureOid email displayName))]
  refine wp_sourced (fun _ hop => by cases hop) fun h₁ _ _ user w hexec => ?_
  simp only [exec] at hexec
  split at hexec
  · next w' hinserted =>
      cases hexec
      obtain ⟨-, rfl⟩ := World.saveUser_eq_some hinserted
      refine .ok ⟨⟨_, .refl _, Table.mem_put.mpr (.inl rfl), fun hadmin => ?_⟩, rfl, rfl⟩
      cases hadmin
  · cases hexec

/-- An upsert returns a user who was stored, with the directory id and the email. -/
theorem upsert_sourced (azureOid email displayName : String) :
    wp (system lib) (sourceTerms lib) i (UserRepository.upsert azureOid email displayName) () h
      (OnReturn fun user h' =>
        WasStored user h' ∧ user.azureOid = azureOid ∧ user.email = email) := by
  unfold UserRepository.upsert
  refine wp_sourced (fun _ hop => by cases hop) fun h₁ _ hvalid found w hexec => ?_
  cases hexec
  cases hfound : h₁.world.findByAzureOid azureOid with
  | some existing =>
      have hread : WasStored existing h₁ := wasStored_of_valid hvalid (Table.mem_of_first hfound)
      refine wp_mono (saveUser_sourced fun hadmin => ?_) fun result s h₂ hsaved user hresult => ?_
      · exact (hread.granted hadmin).mono (past_snoc h₁ _)
      · obtain ⟨hstored, rfl⟩ := hsaved user hresult
        have hoid : existing.azureOid = azureOid := World.azureOid_of_findByAzureOid hfound
        exact ⟨hstored, hoid, rfl⟩
  | none => exact insertUser_sourced azureOid email displayName

/-- `exchangeCode` returns the claims it was answered. -/
theorem exchangeCode_sourced (code state redirectUri : String) :
    wp (system lib) (sourceTerms lib) i (AzureAdService.exchangeCode code state redirectUri) () h
      (OnReturn fun claims h' => Answered i code redirectUri claims h') := by
  unfold AzureAdService.exchangeCode
  refine wp_sourced (fun _ hop => by cases hop) fun h₁ _ _ answer w _ => ?_
  refine wp_require.mpr ⟨fun _ => .error _, fun claims hanswer => .ok ?_⟩
  subst hanswer
  exact ⟨h₁, w, .refl _⟩

/-- A pair was made for a user the request is answered for. -/
def MadeFor (lib : Libraries) (i : θ) (request : Request) (pair : TokenPair) (h : History θ) :
    Prop :=
  ∃ user, Entitled lib i user h request ∧ SignedFor lib user pair h ∧
    WasHeld user.id (hashToken lib pair.refreshToken) h

theorem MadeFor.mono {request : Request} {pair : TokenPair} {h' : History θ}
    (hmade : MadeFor lib i request pair h) (hpast : Past h h') :
    MadeFor lib i request pair h' := by
  obtain ⟨user, hentitled, hsigned, hheld⟩ := hmade
  exact ⟨user, hentitled.mono hpast, hsigned.mono hpast, hheld.mono hpast⟩

/-- `signIn` makes a pair for the user with the claims that were answered. -/
theorem signIn_sourced {request : Request} {code redirectUri : String} {claims : IdTokenClaims}
    (hanswered : Answered i code redirectUri claims h)
    (hentitled : ∀ h' user, Answered i code redirectUri claims h' → user.azureOid = claims.oid →
      user.email = claims.address → Entitled lib i user h' request) :
    wp (system lib) (sourceTerms lib) i (AuthService.signIn lib claims) () h
      (OnReturn fun pair h' => MadeFor lib i request pair h') := by
  unfold AuthService.signIn UserService.upsertFromAzure
  refine wp_bind_onReturn (upsert_sourced _ _ _) fun user s h₁ hpast₁ hupserted => ?_
  obtain ⟨hstored, hoid, hemail⟩ := hupserted
  refine wp_mono (wp_past (.refl h₁) (issueTokenPair_sourced hstored)) ?_
  intro result s h₂ hmade pair hresult
  obtain ⟨hpast₂, hreturned⟩ := hmade
  have hanswered₂ := hanswered.mono (hpast₁.trans hpast₂)
  exact ⟨user, hentitled h₂ user hanswered₂ hoid hemail, hreturned pair hresult⟩

/-- `handleCallback` makes a pair for the user Azure AD names. -/
theorem handleCallback_sourced (code state : String) :
    wp (system lib) (sourceTerms lib) i (AuthService.handleCallback lib code state) () h
      (OnReturn fun pair h' => MadeFor lib i (.handleCallback code state) pair h') := by
  unfold AuthService.handleCallback
  refine wp_throwIf_onReturn fun _ => ?_
  refine wp_bind_onReturn (exchangeCode_sourced code state _) fun claims s h₁ _ hanswered => ?_
  exact signIn_sourced hanswered fun h' user => .callback

/-- `handleMobileExchange` makes a pair for the user Azure AD names. -/
theorem handleMobileExchange_sourced (code state : String) :
    wp (system lib) (sourceTerms lib) i (AuthService.handleMobileExchange lib code state) () h
      (OnReturn fun pair h' => MadeFor lib i (.handleMobileExchange code state) pair h') := by
  unfold AuthService.handleMobileExchange
  refine wp_throwIf_onReturn fun _ => wp_attempt_bind.mpr ?_
  refine wp_mono (exchangeCode_sourced code state _) fun outcome s h₁ hexchanged => ?_
  cases outcome with
  | ok claims => exact signIn_sourced (hexchanged claims rfl) fun h' user => .mobile
  | error failure => exact .error mobileExchangeFailed

/-- `validate` returns the row it has read, unused. -/
theorem validate_sourced (rawToken : String) :
    wp (system lib) (sourceTerms lib) i (validate lib rawToken) () h
      (OnReturn fun row h' => Validated lib rawToken i row h') := by
  unfold validate
  refine wp_sourced (fun _ hop => by cases hop) fun h₁ _ _ found w hread => ?_
  cases hread
  refine wp_require_onReturn fun row hfound => ?_
  refine wp_throwIf_onReturn fun hunused => ?_
  refine wp_sourced (fun _ hop => by cases hop) fun h₂ hpast₂ _ now w _ => ?_
  refine wp_throwIf_onReturn fun _ => .ok ?_
  refine ⟨hfound, Decidable.not_not.mp hunused, ?_⟩
  rw [hfound] at hpast₂
  exact hpast₂.snoc

/-- `rotate` returns a token that is stored for the user. -/
theorem rotate_sourced (row : RefreshTokenEntity) (userId : UserId) (ttlMs : Nat) :
    wp (system lib) (sourceTerms lib) i (rotate lib row userId ttlMs) () h
      (OnReturn fun rawToken h' => WasHeld userId (hashToken lib rawToken) h') := by
  unfold rotate
  refine wp_sourced (fun _ hop => by cases hop) fun h₁ _ _ rawToken w₁ _ => ?_
  refine wp_sourced (fun _ hop => by cases hop) fun h₂ _ _ now w₂ _ => ?_
  refine wp_save fun h₃ _ hheld saved => ?_
  refine wp_sourced (fun _ hop => by cases hop) fun h₄ hpast₄ _ usedAt w₄ _ => ?_
  refine wp_sourced (fun _ hop => by cases hop) fun h₅ hpast₅ _ _ w₅ _ => .ok ?_
  have hpast : Past h₃ h₅ := (hpast₄.trans (past_snoc h₄ _)).trans hpast₅
  exact hheld.mono hpast.snoc

/-- `refresh` makes a pair for the owner of the token. -/
theorem refresh_sourced (rawToken : String) :
    wp (system lib) (sourceTerms lib) i (AuthService.refresh lib rawToken) () h
      (OnReturn fun pair h' => MadeFor lib i (.refresh rawToken) pair h') := by
  unfold AuthService.refresh
  refine wp_bind_onReturn (validate_sourced rawToken) fun row s h₁ _ hvalidated => ?_
  unfold UserService.findById
  rw [Prog.bind_assoc]
  refine wp_sourced (fun _ hop => by cases hop) fun h₂ hpast₂ hvalid₂ found w hread => ?_
  cases hread
  refine wp_require_onReturn fun user hfound => ?_
  obtain ⟨huser, howner⟩ := Table.get_eq_some.mp hfound
  have hstored : WasStored user h₂ := wasStored_of_valid hvalid₂ huser
  refine wp_bind_onReturn (rotate_sourced row _ _) fun newRawToken s h₃ hpast₃ hheld => ?_
  have hpast₂₃ : Past h₂ h₃ := (past_snoc h₂ _).trans hpast₃
  refine wp_bind_onReturn (issueTokenPair_sourced (hstored.mono hpast₂₃))
    fun pair s h₄ hpast₄ hpair => .ok ?_
  obtain ⟨hsigned, -⟩ := hpair
  have hvalidated₄ := hvalidated.mono (hpast₂.trans (hpast₂₃.trans hpast₄))
  exact ⟨user, .refresh hvalidated₄ howner, ⟨hsigned.read, hsigned.accessToken, rfl⟩,
    hheld.mono hpast₄⟩

/-- A request returns only pairs that were made for it. -/
theorem request_sourced (request : Request) :
    wp (system lib) (sourceTerms lib) i (request.prog lib) () h
      (OnReturn fun returned h' => ∀ pair, returned = some pair →
        MadeFor lib i request pair h') := by
  have hreturn : ∀ {program : Api TokenPair},
      wp (system lib) (sourceTerms lib) i program () h
        (OnReturn fun pair h' => MadeFor lib i request pair h') →
      wp (system lib) (sourceTerms lib) i (program >>= fun pair => Prog.pure (some pair)) () h
        (OnReturn fun returned h' => ∀ pair, returned = some pair →
          MadeFor lib i request pair h') := by
    intro program hprogram
    refine wp_bind_onReturn hprogram fun pair s h₁ _ hmade => .ok fun returned heq => ?_
    cases heq
    exact hmade
  cases request with
  | handleCallback code state => exact hreturn (handleCallback_sourced code state)
  | handleMobileExchange code state => exact hreturn (handleMobileExchange_sourced code state)
  | refresh rawToken => exact hreturn (refresh_sourced rawToken)
  | logout rawToken =>
      show wp _ _ _ (invalidate lib rawToken >>= fun _ => Prog.pure none) () h _
      unfold invalidate
      rw [Prog.bind_assoc]
      refine wp_sourced (fun _ hop => by cases hop) fun h₁ _ _ usedAt w₁ _ => ?_
      refine wp_sourced (fun _ hop => by cases hop) fun h₂ _ _ _ w₂ _ => .ok fun pair heq => ?_
      cases heq

/-- A client returns a pair only for a request, and one that was made for it. -/
def PairMade (lib : Libraries) (client : AuthClient) (i : θ) (returned : Option TokenPair)
    (h : History θ) : Prop :=
  ∀ pair, returned = some pair → ∃ request, client = .request request ∧ MadeFor lib i request pair h

theorem PairMade.mono {client : AuthClient} {returned : Option TokenPair} {h' : History θ}
    (hmade : PairMade lib client i returned h) (hpast : Past h h') :
    PairMade lib client i returned h' := by
  intro pair heq
  obtain ⟨request, hclient, hmade⟩ := hmade pair heq
  exact ⟨request, hclient, hmade.mono hpast⟩

theorem client_sourced (client : AuthClient) :
    wp (system lib) (sourceTerms lib) i (client.prog lib) () h
      (OnReturn (PairMade lib client i)) := by
  cases client with
  | request r =>
      refine wp_mono (request_sourced r) fun result s h' hmade returned hresult pair heq => ?_
      exact ⟨r, rfl, hmade returned hresult pair heq⟩
  | setIsAdmin id isAdmin =>
      refine wp_sourced (fun _ hop => by cases hop) fun h₁ _ _ _ w _ => .ok fun pair heq => ?_
      cases heq

end

/-! ## Every run -/

variable {lib : Libraries} {verify : String → Option JwtPayload} {clients : θ → AuthClient}
  {w : World}

/-- In every interleaving, with any calls failing, a returned token pair is genuine. `verify` takes
no access token for other claims than the signed ones. -/
theorem tokens_genuine [DecidableEq θ]
    (hverify : ∀ payload payload', verify (lib.sign payload) = some payload' → payload' = payload)
    {c : Serving θ} (hreach : Reach (system lib) (fun _ _ _ _ => True) (w.connect lib clients) c) :
    TokensGenuine lib verify clients c := by
  have hwp : ∀ i, wp (system lib) (sourceTerms lib) i ((clients i).prog lib) () ⟨w, []⟩
      (OnReturn (PairMade lib (clients i) i)) := fun i => client_sourced (clients i)
  have hstable : ∀ i (result : Except Failure (Option TokenPair)) (s : Unit) (h : History θ) e,
      e.tid ≠ i → Sourced lib h e → OnReturn (PairMade lib (clients i) i) result s h →
      OnReturn (PairMade lib (clients i) i) result s (h.snoc e) :=
    fun i result s h e _ _ hreturned => hreturned.snoc fun _ hmade => hmade.mono (past_snoc h e)
  have hvalid : (sourceTerms lib).Valid c.trace :=
    (Contract.sound (C := sourceTerms lib) hreach rfl trivial hstable hwp).1
  have hmade : ∀ i pair, c.resultOf i = some (.ok (some pair)) →
      ∃ request, clients i = .request request ∧ MadeFor lib i request pair c.trace :=
    fun i pair hresult => Contract.result_post (C := sourceTerms lib) hreach rfl trivial hstable
      hwp hresult (some pair) rfl pair rfl
  constructor
  · intro i pair hresult
    obtain ⟨request, hrequest, user, hentitled, hsigned, hheld⟩ := hmade i pair hresult
    exact ⟨request, user, hrequest, hentitled, hsigned, hheld.holdsFor hvalid⟩
  · intro i pair hresult payload hadmitted
    obtain ⟨request, -, user, -, hsigned, -⟩ := hmade i pair hresult
    obtain rfl : payload = claimsOf user := by
      refine hverify _ _ (verify_of_canActivate ?_)
      rw [← hsigned.accessToken]
      exact hadmitted
    exact ⟨⟨user, hsigned.read, rfl⟩, fun hroles =>
      hsigned.read.granted (isAdmin_of_rolesGuard hroles)⟩

/-! ## Runs -/

/-- The claims of a token as an object. -/
def JwtPayload.plain (payload : JwtPayload) : Text.Plain :=
  .object [("sub", .nat payload.sub), ("email", .string payload.email),
    ("is_admin", .bool payload.isAdmin), ("azure_oid", .string payload.azureOid)]

/-- The claims that a text of an object gives. -/
def decodeClaims (token : String) : Option JwtPayload := do
  let claims ← Text.Json.parse token.toList
  match claims.field? "sub", claims.field? "email", claims.field? "is_admin",
    claims.field? "azure_oid" with
  | some (.number false sub 0), some (.string email), some (.bool isAdmin),
    some (.string azureOid) => some ⟨sub, email, isAdmin, azureOid⟩
  | _, _, _, _ => none

/-- Libraries whose access tokens are the texts of their claims. -/
def textLibraries : Libraries :=
  { plainLibraries with sign := fun payload => .ofList payload.plain.render }

/-- The claims are read back from the text. -/
theorem decodeClaims_sign (payload : JwtPayload) :
    decodeClaims (textLibraries.sign payload) = some payload := by
  simp [decodeClaims, textLibraries, Text.Json.parse_render, JwtPayload.plain, Text.Plain.toJson,
    Text.Plain.toMembers, Text.Json.field?, Text.Json.member?]

/-- `mario` signs in, is made an admin, and refreshes the token. -/
def loginPromotionRefresh : Fin 3 → AuthClient
  | 0 => .request (.handleCallback "mario" "state")
  | 1 => .setIsAdmin 1 true
  | 2 => .request (.refresh "x")

/-- The refresh returns the claims of an admin, which the guards accept. -/
theorem tokens_genuine_promoted :
    ∃ c : Serving (Fin 3), c.resultOf 2 = some (.ok (some
        ⟨textLibraries.sign ⟨1, "mario@foosball.test", true, "mario"⟩, "xx", 900⟩)) ∧
      TokensGenuine textLibraries decodeClaims loginPromotionRefresh c := by
  obtain ⟨c, hreach, hresult⟩ := Reach.exists_of_execute (system textLibraries)
    (fun _ _ _ _ => True) (nobody.connect textLibraries loginPromotionRefresh)
    (.replicate 6 (0, false) ++ [(1, false)] ++ .replicate 11 (2, false))
    (fun c => c.resultOf 2 = some (.ok (some
      ⟨textLibraries.sign ⟨1, "mario@foosball.test", true, "mario"⟩, "xx", 900⟩))) (by decide)
  refine ⟨c, of_decide_eq_true hresult, tokens_genuine ?_ hreach⟩
  intro payload payload' hverified
  rw [decodeClaims_sign] at hverified
  exact (Option.some.inj hverified).symm

end FoosballApi.Auth
