import FoosballApi.Calls.Interleaving
import FoosballApi.Data.Table
import FoosballApi.Matches.Errors
import FoosballApi.Users.Entities
import Mathlib.Data.List.MinMax

/-!
# Refresh tokens and the calls of the auth services

The rows of `refresh_tokens`, the state the auth services share, and the calls they await, in the
way `Matches/Store.lean` and `Matches/Repository.lean` give them for the match services. There are
no transactions here: each statement is atomic, and no call waits for another.

`Libraries` are the functions the services take from `crypto`, `Date`, `JwtService` and the MSAL
client. The users are those of `Users/Entities.lean`; `is_admin` is also set by SQL that is not part
of the services.
-/

namespace FoosballApi.Auth

open Calls Data Users
open Matches (UserId Date Failure)

abbrev TokenId := Nat

/-- `RefreshTokenEntity`, a row of `refresh_tokens`. -/
structure RefreshTokenEntity where
  id : TokenId
  userId : UserId
  tokenHash : String
  expiresAt : Date
  usedAt : Option Date
  replacedBy : Option TokenId
  deriving DecidableEq, Repr

/-- The columns of a token that `repo.create` is given. -/
structure NewToken where
  userId : UserId
  tokenHash : String
  expiresAt : Date
  usedAt : Option Date
  replacedBy : Option TokenId
  deriving DecidableEq, Repr

/-- The rows `repo.update` is applied to. -/
inductive Criteria where
  | id (tokenId : TokenId)
  | tokenHash (hash : String)
  deriving DecidableEq, Repr

/-- A row meets the criteria. -/
def Criteria.picks : Criteria → RefreshTokenEntity → Bool
  | .id tokenId, row => row.id = tokenId
  | .tokenHash hash, row => row.tokenHash = hash

/-- The columns `repo.update` sets; a column that is left out keeps its value. -/
structure TokenChange where
  usedAt : Date
  replacedBy : Option TokenId := none
  deriving DecidableEq, Repr

/-- A row after an update. -/
def TokenChange.applied (change : TokenChange) (row : RefreshTokenEntity) : RefreshTokenEntity :=
  { row with usedAt := some change.usedAt, replacedBy := change.replacedBy.or row.replacedBy }

/-- `JwtPayload`, the claims of an access token. -/
structure JwtPayload where
  sub : UserId
  email : String
  isAdmin : Bool
  azureOid : String
  deriving DecidableEq, Repr

/-- The claims of an ID token that the services read. One of the two addresses is present. -/
structure IdTokenClaims where
  oid : String
  preferredUsername : Option String
  email : Option String
  name : Option String
  addressed : (preferredUsername.or email).isSome
  deriving DecidableEq

/-- `crypto.createHash('sha256')`, the outputs of `crypto.randomBytes` in the order in which they
are drawn, the time that passes before each reading of the clock, `jwtService.sign`, the answers of
`acquireTokenByCode` in the order in which they are asked for, and the configured redirect URIs. -/
structure Libraries where
  sha256 : String → String
  randomBytes : Nat → String
  elapsed : Nat → Nat
  sign : JwtPayload → String
  acquireTokenByCode : Nat → String → String → Except Failure (Option IdTokenClaims)
  webRedirectUri : String
  mobileRedirectUri : String

/-! ## The stored state -/

/-- The database, the random draws, exchanged codes and clock readings so far, and the last reading
of the clock. -/
structure World where
  users : Table UserEntity.id
  refreshTokens : Table RefreshTokenEntity.id
  nextTokenId : TokenId
  drawn : Nat
  exchanged : Nat
  readings : Nat
  clock : Date

namespace World

/-- The row with a token hash. -/
def findOne (w : World) (tokenHash : String) : Option RefreshTokenEntity :=
  w.refreshTokens.first (·.tokenHash = tokenHash)

/-- The row an insert produces. -/
def newRow (w : World) (token : NewToken) : RefreshTokenEntity :=
  { id := w.nextTokenId, userId := token.userId, tokenHash := token.tokenHash
    expiresAt := token.expiresAt, usedAt := token.usedAt, replacedBy := token.replacedBy }

/-- `INSERT` of a token, rejected when it breaks the primary key, the unique hash or the foreign key
of its user. -/
def insertToken (w : World) (token : NewToken) : Option World :=
  if w.refreshTokens.get w.nextTokenId = none ∧ w.findOne token.tokenHash = none ∧
      (w.users.get token.userId).isSome then
    some { w with
      refreshTokens := w.refreshTokens.put (w.newRow token)
      nextTokenId := w.nextTokenId + 1 }
  else none

/-- `UPDATE` of the rows that meet the criteria. -/
def updateTokens (w : World) (criteria : Criteria) (change : TokenChange) : World :=
  { w with refreshTokens := w.refreshTokens.modify criteria.picks change.applied fun _ => rfl }

/-- The next reading of the clock. -/
def now (w : World) (lib : Libraries) : Date := w.clock + lib.elapsed w.readings

/-- The row of a directory id. -/
def findByAzureOid (w : World) (azureOid : String) : Option UserEntity :=
  w.users.first (·.azureOid = azureOid)

/-- Another user has the email or the directory id of a row: the unique indexes forbid it. -/
def userFits (w : World) (user : UserEntity) : Prop :=
  ∀ other ∈ w.users.rows, other.id ≠ user.id →
    other.email ≠ user.email ∧ other.azureOid ≠ user.azureOid

instance (w : World) (user : UserEntity) : Decidable (w.userFits user) :=
  inferInstanceAs (Decidable (∀ _ ∈ _, _))

/-- `save(user)`: the columns of the row become those of the entity. -/
def saveUser (w : World) (user : UserEntity) : Option World :=
  if w.userFits user then some { w with users := w.users.put user } else none

/-- The next `users` id. Users are never deleted, so it is above all stored ids. -/
def nextUserId (w : World) : UserId := (w.users.rows.map (·.id)).foldr max 0 + 1

/-- The row that `save` inserts for a user who signs in for the first time. -/
def newUser (w : World) (azureOid email displayName : String) : UserEntity :=
  ⟨w.nextUserId, azureOid, email, displayName, false⟩

/-- `UPDATE users SET is_admin = isAdmin WHERE id = id`. -/
def setIsAdmin (w : World) (id : UserId) (isAdmin : Bool) : World :=
  let change (user : UserEntity) : UserEntity := { user with isAdmin := isAdmin }
  { w with users := w.users.modify (·.id = id) change fun _ => rfl }

/-! ### Lookups after a write -/

variable {w w' : World}

theorem tokenHash_of_findOne {tokenHash : String} {r : RefreshTokenEntity}
    (hr : w.findOne tokenHash = some r) : r.tokenHash = tokenHash := by
  unfold findOne at hr
  have hholds := Table.holds_of_first hr
  exact of_decide_eq_true hholds

/-- No row has a hash that is not found. -/
theorem tokenHash_ne_of_findOne {tokenHash : String} (hnone : w.findOne tokenHash = none)
    {r : RefreshTokenEntity} (hr : r ∈ w.refreshTokens) : r.tokenHash ≠ tokenHash :=
  of_decide_eq_false (Bool.eq_false_of_not_eq_true (List.find?_eq_none.mp hnone r hr))

theorem azureOid_of_findByAzureOid {azureOid : String} {user : UserEntity}
    (huser : w.findByAzureOid azureOid = some user) : user.azureOid = azureOid := by
  unfold findByAzureOid at huser
  have hholds := Table.holds_of_first huser
  exact of_decide_eq_true hholds

/-- The row of a hash after an update. -/
theorem findOne_updateTokens (criteria : Criteria) (change : TokenChange) (tokenHash : String) :
    (w.updateTokens criteria change).findOne tokenHash =
      (w.findOne tokenHash).map fun row =>
        if criteria.picks row then change.applied row else row :=
  Table.first_modify change.applied (fun _ => rfl) fun _ => rfl

/-- What an insert needs and does. -/
theorem insertToken_eq_some {token : NewToken} (h : w.insertToken token = some w') :
    w.refreshTokens.get w.nextTokenId = none ∧ w.findOne token.tokenHash = none ∧
      (w.users.get token.userId).isSome ∧ w' = { w with
        refreshTokens := w.refreshTokens.put (w.newRow token)
        nextTokenId := w.nextTokenId + 1 } := by
  unfold insertToken at h
  split at h
  · next hfits => exact ⟨hfits.1, hfits.2.1, hfits.2.2, (Option.some.inj h).symm⟩
  · cases h

/-- The rows after an insert. -/
theorem mem_insertToken {token : NewToken} (h : w.insertToken token = some w')
    {r : RefreshTokenEntity} :
    r ∈ w'.refreshTokens ↔ r = w.newRow token ∨ r ∈ w.refreshTokens := by
  obtain ⟨hnew, -, -, rfl⟩ := insertToken_eq_some h
  refine Table.mem_put.trans ⟨?_, ?_⟩
  · rintro (rfl | ⟨hr, -⟩)
    · exact .inl rfl
    · exact .inr hr
  · rintro (rfl | hr)
    · exact .inl rfl
    · exact .inr ⟨hr, Table.get_eq_none.mp hnew r hr⟩

/-- The rows after an update. -/
theorem mem_updateTokens {criteria : Criteria} {change : TokenChange} {r : RefreshTokenEntity} :
    r ∈ (w.updateTokens criteria change).refreshTokens ↔
      ∃ old ∈ w.refreshTokens, (if criteria.picks old then change.applied old else old) = r :=
  Table.mem_modify change.applied fun _ => rfl

/-- A row that fits is stored. -/
theorem saveUser_of_userFits {user : UserEntity} (hfits : w.userFits user) :
    w.saveUser user = some { w with users := w.users.put user } := if_pos hfits

/-- What a write of a user needs and does. -/
theorem saveUser_eq_some {user : UserEntity} (h : w.saveUser user = some w') :
    w.userFits user ∧ w' = { w with users := w.users.put user } := by
  unfold saveUser at h
  split at h
  · next hfits => exact ⟨hfits, (Option.some.inj h).symm⟩
  · cases h

/-- The next user id is above those of the stored users. -/
theorem lt_nextUserId {user : UserEntity} (huser : user ∈ w.users) : user.id < w.nextUserId :=
  Nat.lt_succ_of_le (List.le_max_of_le' 0 (List.mem_map_of_mem huser) le_rfl)

/-- The row of a hash after an insert. -/
theorem findOne_insertToken {token : NewToken} (hinsert : w.insertToken token = some w')
    (tokenHash : String) : w'.findOne tokenHash =
      (w.findOne tokenHash).or
        (if token.tokenHash = tokenHash then some (w.newRow token) else none) := by
  obtain ⟨hnew, -, -, rfl⟩ := insertToken_eq_some hinsert
  have hnewRow : w.refreshTokens.get (w.newRow token).id = none := hnew
  have hput := Table.first_put_of_get_none hnewRow (·.tokenHash = tokenHash)
  simp only [decide_eq_true_eq] at hput
  exact hput

end World

/-! ## The calls -/

/-- The awaited calls of the services, the two sources of values they read, and SQL run by hand. -/
inductive Call where
  -- `Repository<RefreshTokenEntity>`
  | findOne (tokenHash : String)
  | save (token : NewToken)
  | update (criteria : Criteria) (change : TokenChange)
  -- `Repository<UserEntity>`; `saveUser` writes a loaded entity, `insertUser` a created one
  | findUserById (id : UserId)
  | findByAzureOid (azureOid : String)
  | saveUser (user : UserEntity)
  | insertUser (azureOid email displayName : String)
  -- `ConfidentialClientApplication`
  | acquireTokenByCode (code redirectUri : String)
  -- `crypto` and `Date`
  | randomBytes
  | now
  -- SQL run by hand
  | setIsAdmin (id : UserId) (isAdmin : Bool)
  deriving DecidableEq

/-- The result of a call. -/
@[reducible] def Call.Result : Call → Type
  | .findOne _ => Option RefreshTokenEntity
  | .save _ => RefreshTokenEntity
  | .update .. => Unit
  | .findUserById _ | .findByAzureOid _ => Option UserEntity
  | .saveUser _ | .insertUser .. => UserEntity
  | .acquireTokenByCode .. => Option IdTokenClaims
  | .randomBytes => String
  | .now => Date
  | .setIsAdmin .. => Unit

variable (lib : Libraries)

/-- The effect and result of each call. -/
def exec : (op : Call) → Unit → World → Except Failure op.Result × Unit × World
  | .findOne tokenHash, _, w => (.ok (w.findOne tokenHash), (), w)
  | .save token, _, w =>
      match w.insertToken token with
      | some w' => (.ok (w.newRow token), (), w')
      | none => (.error .constraint, (), w)
  | .update criteria change, _, w => (.ok (), (), w.updateTokens criteria change)
  | .findUserById id, _, w => (.ok (w.users.get id), (), w)
  | .findByAzureOid azureOid, _, w => (.ok (w.findByAzureOid azureOid), (), w)
  | .saveUser user, _, w =>
      match w.saveUser user with
      | some w' => (.ok user, (), w')
      | none => (.error .constraint, (), w)
  | .insertUser azureOid email displayName, _, w =>
      let user := w.newUser azureOid email displayName
      match w.saveUser user with
      | some w' => (.ok user, (), w')
      | none => (.error .constraint, (), w)
  | .acquireTokenByCode code redirectUri, _, w =>
      (lib.acquireTokenByCode w.exchanged code redirectUri, (),
        { w with exchanged := w.exchanged + 1 })
  | .randomBytes, _, w => (.ok (lib.randomBytes w.drawn), (), { w with drawn := w.drawn + 1 })
  | .now, _, w =>
      (.ok (w.now lib), (), { w with clock := w.now lib, readings := w.readings + 1 })
  | .setIsAdmin id isAdmin, _, w => (.ok (), (), w.setIsAdmin id isAdmin)

section

variable {w w' : World} {user : UserEntity} {azureOid email displayName : String}

/-- A user who fits is saved. -/
theorem exec_saved (hsaved : w.saveUser user = some w') :
    exec lib (.saveUser user) () w = (.ok user, (), w') := by
  simp only [exec, hsaved]

/-- A constraint refuses to save a user. -/
theorem exec_not_saved (hrefused : w.saveUser user = none) :
    exec lib (.saveUser user) () w = (.error .constraint, (), w) := by
  simp only [exec, hrefused]

/-- A new user who fits is inserted. -/
theorem exec_inserted (hsaved : w.saveUser (w.newUser azureOid email displayName) = some w') :
    exec lib (.insertUser azureOid email displayName) () w =
      (.ok (w.newUser azureOid email displayName), (), w') := by
  simp only [exec, hsaved]

/-- A constraint refuses to insert a new user. -/
theorem exec_not_inserted
    (hrefused : w.saveUser (w.newUser azureOid email displayName) = none) :
    exec lib (.insertUser azureOid email displayName) () w = (.error .constraint, (), w) := by
  simp only [exec, hrefused]

end

/-- What a call may do to the tokens: nothing, the insert or the update it asks for. -/
inductive TokensAfter (op : Call) (w w' : World) : Prop
  | kept (tokens : w'.refreshTokens = w.refreshTokens) (nextId : w'.nextTokenId = w.nextTokenId)
  | inserted {token : NewToken} (save : op = .save token) (insert : w.insertToken token = some w')
  | updated {criteria : Criteria} {change : TokenChange} (update : op = .update criteria change)
      (after : w' = w.updateTokens criteria change)

/-- A call leaves the tokens alone, inserts one, or updates some. -/
theorem tokensAfter_exec (op : Call) (s : Unit) (w : World) :
    TokensAfter op w (exec lib op s w).2.2 := by
  cases op with
  | save token =>
      simp only [exec]
      split
      · next w' hinsert => exact .inserted rfl hinsert
      · exact .kept rfl rfl
  | update criteria change => exact .updated rfl rfl
  | saveUser | insertUser =>
      simp only [exec, World.saveUser]
      split
      · next hsaved => split at hsaved <;> cases hsaved; exact .kept rfl rfl
      · exact .kept rfl rfl
  | _ => exact .kept rfl rfl

/-- The calls of the services over the world. The database calls and the exchange can fail. -/
def system : System Call Call.Result Failure Unit World where
  exec := exec lib
  fault
    | .randomBytes | .now => none
    | _ => some .unavailable
  held _ := false
  waits _ := false
  enter _ _ _ h := .inl h

/-- A service method: a program of calls that returns `α` or throws. -/
abbrev Api (α : Type) := Prog Call Call.Result Failure α

/-- Issue one call. -/
abbrev await (op : Call) : Api op.Result := Prog.perform op

end FoosballApi.Auth
