import FoosballApi.Auth.RunsAlone
import FoosballApi.Auth.TokenChain
import Mathlib.Data.List.Count

/-!
# The tokens that clients hold

Requests served one after another, without failing calls. A client holds a token that was returned
to it and was neither refreshed nor logged out since; the acceptable rows should be those of the
held tokens. A refresh breaks this: `issueTokenPair` inserts a row whose raw token nobody gets. In
the runs in which no refresh presents an acceptable token, the rows and the held tokens agree, as
long as no two tokens of the run have one hash.
-/

namespace FoosballApi.Auth

open Calls Data Prog RefreshTokenService
open Matches (UserId Date Failure)

/-- A request that was served: the state before it, its result, and the state it left. -/
structure Served where
  request : Request
  before : World
  result : Except Failure (Option TokenPair)
  after : World

/-- Serve a request with no other request running and no call failing. -/
def World.handle (w : World) (lib : Libraries) (request : Request) : Served :=
  let out := (request.prog lib).eval (system lib) noFaults [] () w
  ⟨request, w, out.result, out.world⟩

/-- The runs that serve requests one after another, each under a condition on the state before it.
The log has the latest request first. -/
inductive Serves (lib : Libraries) (allow : World → Request → Prop) (w₀ : World) :
    List Served → World → Prop
  | start : Serves lib allow w₀ [] w₀
  | serve {log : List Served} {w : World} {request : Request} :
      Serves lib allow w₀ log w → allow w request →
      Serves lib allow w₀ (w.handle lib request :: log) (w.handle lib request).after

namespace Served

/-- The raw token that was returned to the client. -/
def returned (e : Served) : Option String :=
  match e.result with
  | .ok (some pair) => some pair.refreshToken
  | _ => none

/-- The raw token that was refreshed or logged out. -/
def consumed (e : Served) : Option String :=
  match e.request, e.result with
  | .refresh rawToken, .ok _ => some rawToken
  | .logout rawToken, .ok _ => some rawToken
  | _, _ => none

/-- The directory id of the user who has signed in. -/
def signedIn (e : Served) (lib : Libraries) : Option String :=
  match e.request, e.result with
  | .handleCallback code _, .ok _ => (e.before.answer lib code lib.webRedirectUri).map (·.oid)
  | .handleMobileExchange code _, .ok _ =>
      (e.before.answer lib code lib.mobileRedirectUri).map (·.oid)
  | _, _ => none

end Served

/-- The raw tokens that were returned to a client and neither refreshed nor logged out since. -/
def held : List Served → List String
  | [] => []
  | e :: earlier => e.returned.toList ++ (held earlier).filter (some · ≠ e.consumed)

/-- The raw tokens that were presented or returned. -/
def rawTokens (log : List Served) : Set String :=
  {rawToken | ∃ e ∈ log, e.request.presented = some rawToken ∨ e.returned = some rawToken}

/-- The number of logins of a user. -/
def logins (lib : Libraries) (log : List Served) (azureOid : String) : Nat :=
  log.countP fun e => e.signedIn lib = some azureOid

/-- The rows of a user that `validate` accepts at a moment. -/
def World.acceptableRows (w : World) (moment : Date) (userId : UserId) : List RefreshTokenEntity :=
  w.refreshTokens.sel fun row => row.Acceptable moment ∧ row.userId = userId

/-- The acceptable rows are those of the tokens that clients hold. -/
structure HeldExactly (lib : Libraries) (log : List Served) (w : World) : Prop where
  /-- A row is acceptable when its raw token is held and it is not expired. -/
  rows : ∀ row ∈ w.refreshTokens, ∀ moment, row.Acceptable moment ↔
    (∃ rawToken ∈ held log, hashToken lib rawToken = row.tokenHash) ∧ ¬ row.expiresAt < moment
  /-- Every held token has a row. -/
  stored : ∀ rawToken ∈ held log, ∃ row ∈ w.refreshTokens,
    row.tokenHash = hashToken lib rawToken
  /-- A refresh that returns leaves its user with as many acceptable rows as before. -/
  refreshes : ∀ e ∈ log, ∀ rawToken row, e.request = .refresh rawToken →
    (∃ pair, e.result = .ok pair) → e.before.findOne (hashToken lib rawToken) = some row →
    (e.after.acceptableRows (e.before.now lib) row.userId).length =
      (e.before.acceptableRows (e.before.now lib) row.userId).length
  /-- A user has at most as many acceptable rows as logins. -/
  atMostLogins : ∀ moment, ∀ user ∈ w.users,
    (w.acceptableRows moment user.id).length ≤ logins lib log user.azureOid

/-- No refresh presents a token that `validate` accepts. -/
def NoAcceptedRefresh (lib : Libraries) (w : World) (request : Request) : Prop :=
  ∀ rawToken, request = .refresh rawToken → ¬ w.Accepts lib rawToken (w.now lib)

/-! ## What a request does -/

/-- What a request does that does not refresh an acceptable token. -/
inductive Served.Effect (e : Served) (lib : Libraries) : Prop
  | failed (returned : e.returned = none) (consumed : e.consumed = none)
      (signedIn : e.signedIn lib = none) (same : SameTokens e.before e.after)
  | issued {user : Users.UserEntity} {w : World} (consumed : e.consumed = none)
      (signedIn : e.signedIn lib = some user.azureOid) (same : SameTokens e.before w)
      (stored : user ∈ w.users) (insert : w.issued lib user.id = some e.after)
      (returned : e.returned = some (lib.randomBytes w.drawn))
  | loggedOut {rawToken : String} {w : World} {usedAt : Date}
      (request : e.request = .logout rawToken) (returned : e.returned = none)
      (consumed : e.consumed = some rawToken) (signedIn : e.signedIn lib = none)
      (same : SameTokens e.before w)
      (update : e.after = w.updateTokens (.tokenHash (hashToken lib rawToken)) ⟨usedAt, none⟩)

variable {lib : Libraries} {w w' : World} {log : List Served} {e : Served}

/-- A login fails, or it inserts and returns a token. -/
theorem login_effect {request : Request} {login : Api TokenPair} {answer : Option IdTokenClaims}
    (hprog : request.prog lib = login >>= fun pair => Prog.pure (some pair))
    (hlogin : login.after (system lib) noFaults [] () w (SignedIn lib answer w))
    (hconsumed : ∀ result w', (Served.mk request w result w').consumed = none)
    (hfailed : ∀ failure w', (Served.mk request w (.error failure) w').signedIn lib = none)
    (hoid : ∀ pair w', (Served.mk request w (.ok pair) w').signedIn lib = answer.map (·.oid)) :
    (w.handle lib request).Effect lib := by
  show (request.prog lib).after (system lib) noFaults [] () w
    fun out => (Served.mk request w out.result out.world).Effect lib
  rw [hprog, after_bind]
  refine after_mono hlogin fun out hsigned => ?_
  obtain ⟨result, calls, _, w'⟩ := out
  cases hsigned with
  | @failed failure result same =>
      cases result
      exact .failed rfl (hconsumed _ _) (hfailed _ _) same
  | @issued claims user pair w₁ answered result same stored azureOid insert token =>
      cases result
      refine .issued (hconsumed _ _) ((hoid _ _).trans ?_) same stored insert (congrArg some token)
      rw [answered, Option.map_some, azureOid]

/-- What a request does when it does not refresh an acceptable token. -/
theorem handle_effect {request : Request} (hallow : NoAcceptedRefresh lib w request) :
    (w.handle lib request).Effect lib := by
  cases request with
  | handleCallback code state =>
      exact login_effect rfl (handleCallback_alone code state) (fun _ _ => rfl) (fun _ _ => rfl)
        fun _ _ => rfl
  | handleMobileExchange code state =>
      exact login_effect rfl (handleMobileExchange_alone code state) (fun _ _ => rfl)
        (fun _ _ => rfl) fun _ _ => rfl
  | refresh rawToken =>
      show (AuthService.refresh lib rawToken >>= _).after (system lib) noFaults [] () w
        fun out => (Served.mk _ w out.result out.world).Effect lib
      unfold AuthService.refresh
      rw [Prog.bind_assoc]
      have hread : noFaults [] (Call.findOne (hashToken lib rawToken)) = false := rfl
      obtain ⟨calls, w', hw', hafter⟩ := after_validate_rejected hread (hallow rawToken rfl)
      refine hafter.mpr (.failed rfl rfl rfl ?_)
      rcases hw' with rfl | rfl
      · exact .refl _
      · exact .of_kept rfl rfl
  | logout rawToken =>
      show (invalidate lib rawToken >>= _).after (system lib) noFaults [] () w
        fun out => (Served.mk _ w out.result out.world).Effect lib
      unfold invalidate
      rw [Prog.bind_assoc, after_now, after_done rfl rfl]
      have hsame : SameTokens w (w.reads lib) := .of_kept rfl rfl
      exact .loggedOut rfl rfl rfl rfl hsame rfl

/-! ## Every run -/

/-- The unused rows of a user. -/
def World.unusedRows (w : World) (userId : UserId) : List RefreshTokenEntity :=
  w.refreshTokens.sel fun row => row.usedAt = none ∧ row.userId = userId

/-- The insert of a token adds one to the unused rows of its user. -/
theorem length_unusedRows_issued {userId : UserId} (hinsert : w.issued lib userId = some w')
    (other : UserId) : (w'.unusedRows other).length =
      (w.unusedRows other).length + if userId = other then 1 else 0 := by
  obtain ⟨hnew, -, -, rfl⟩ := World.insertToken_eq_some hinsert
  have hnewRow : (w.draws.reads lib).refreshTokens.get
      ((w.draws.reads lib).newRow (w.freshToken lib userId)).id = none := hnew
  rw [World.unusedRows, Table.sel_put_of_get_none hnewRow, List.length_append]
  refine congrArg _ ?_
  by_cases huser : userId = other
  · simp [World.newRow, World.freshToken, huser]
  · simp [World.newRow, World.freshToken, huser]

/-- An update makes no row unused. -/
theorem length_unusedRows_update_le (criteria : Criteria) (change : TokenChange) (userId : UserId) :
    ((w.updateTokens criteria change).unusedRows userId).length ≤ (w.unusedRows userId).length := by
  refine Table.length_sel_modify_le change.applied (fun _ => rfl) fun row hunused => ?_
  have hnone := (of_decide_eq_true hunused).1
  cases hnone

/-- What holds after any number of requests none of which refreshes an acceptable token. -/
structure HeldInvariant (lib : Libraries) (log : List Served) (w : World) : Prop where
  unused : ∀ row ∈ w.refreshTokens, row.usedAt = none ↔
    ∃ rawToken ∈ held log, hashToken lib rawToken = row.tokenHash
  stored : ∀ rawToken ∈ held log, ∃ row ∈ w.refreshTokens, row.tokenHash = hashToken lib rawToken
  owned : ∀ row ∈ w.refreshTokens, ∃ user ∈ w.users, user.id = row.userId
  counted : ∀ user ∈ w.users, (w.unusedRows user.id).length ≤ logins lib log user.azureOid

/-- The tokens of a log, after a request. -/
theorem mem_held_cons {rawToken : String} :
    rawToken ∈ held (e :: log) ↔
      e.returned = some rawToken ∨ rawToken ∈ held log ∧ e.consumed ≠ some rawToken := by
  simp only [held, List.mem_append, Option.mem_toList, List.mem_filter, decide_eq_true_eq, ne_eq,
    eq_comm (a := some rawToken)]

theorem rawTokens_subset_cons : rawTokens log ⊆ rawTokens (e :: log) :=
  fun _ ⟨earlier, hearlier, htoken⟩ => ⟨earlier, List.mem_cons_of_mem e hearlier, htoken⟩

/-- A held token was returned. -/
theorem rawTokens_of_held {rawToken : String} (hheld : rawToken ∈ held log) :
    rawToken ∈ rawTokens log := by
  induction log with
  | nil => cases hheld
  | cons e log ih =>
      rcases mem_held_cons.mp hheld with hreturned | ⟨hearlier, -⟩
      · exact ⟨e, List.mem_cons_self, .inr hreturned⟩
      · exact rawTokens_subset_cons (ih hearlier)

theorem logins_cons (azureOid : String) : logins lib (e :: log) azureOid =
    logins lib log azureOid + if e.signedIn lib = some azureOid then 1 else 0 := by
  simp only [logins, List.countP_cons, decide_eq_true_eq]

namespace HeldInvariant

variable (hw : HeldInvariant lib log w)

include hw

/-- A user who was not stored has no rows. -/
theorem same (hsame : SameTokens w w') : HeldInvariant lib log w' := by
  have htokens := hsame.tokens
  refine ⟨by rw [htokens]; exact hw.unused, by rw [htokens]; exact hw.stored, ?_, ?_⟩
  · intro row hrow
    rw [htokens] at hrow
    obtain ⟨user, huser, hid⟩ := hw.owned row hrow
    obtain ⟨user', huser', hid', -⟩ := hsame.users user huser
    exact ⟨user', huser', hid'.trans hid⟩
  · intro user' huser'
    rw [World.unusedRows, htokens]
    by_cases hstored : ∃ user ∈ w.users, user.id = user'.id
    · obtain ⟨user, huser, hid⟩ := hstored
      obtain ⟨user'', huser'', hid'', hoid⟩ := hsame.users user huser
      obtain rfl := Table.eq_of_key huser'' huser' (hid''.trans hid)
      rw [hoid, hid'']
      exact hw.counted user huser
    · have hnone : w.unusedRows user'.id = [] := by
        refine Table.sel_eq_nil fun row hrow => decide_eq_false fun hboth => ?_
        obtain ⟨user, huser, hid⟩ := hw.owned row hrow
        exact hstored ⟨user, huser, hid.trans hboth.2⟩
      exact (congrArg List.length hnone).trans_le (Nat.zero_le _)

/-- A failed request changes nothing. -/
theorem failed (hreturned : e.returned = none) (hconsumed : e.consumed = none)
    (hsignedIn : e.signedIn lib = none) : HeldInvariant lib (e :: log) w := by
  have hheld : ∀ rawToken, rawToken ∈ held (e :: log) ↔ rawToken ∈ held log := by
    intro rawToken
    simp [mem_held_cons, hreturned, hconsumed]
  refine ⟨fun row hrow => ?_, fun rawToken hraw => ?_, hw.owned, fun user huser => ?_⟩
  · simp only [hheld]
    exact hw.unused row hrow
  · exact hw.stored rawToken ((hheld rawToken).mp hraw)
  · rw [logins_cons, hsignedIn]
    exact hw.counted user huser

/-- A login adds the row of the token it returns. -/
theorem issued {user : Users.UserEntity} (huser : user ∈ w.users)
    (hinsert : w.issued lib user.id = some w') (hconsumed : e.consumed = none)
    (hsignedIn : e.signedIn lib = some user.azureOid)
    (hreturned : e.returned = some (lib.randomBytes w.drawn)) :
    HeldInvariant lib (e :: log) w' := by
  have hmem := fun row => World.mem_insertToken hinsert (r := row)
  obtain ⟨hnewId, hnewHash, -, hw'⟩ := World.insertToken_eq_some hinsert
  have hheld : ∀ rawToken, rawToken ∈ held (e :: log) ↔
      rawToken = lib.randomBytes w.drawn ∨ rawToken ∈ held log := by
    intro rawToken
    simp [mem_held_cons, hreturned, hconsumed, eq_comm]
  subst hw'
  constructor
  · intro row hrow
    simp only [hheld]
    rcases (hmem row).mp hrow with rfl | hold
    · exact iff_of_true rfl ⟨_, .inl rfl, rfl⟩
    · refine (hw.unused row hold).trans ⟨?_, ?_⟩
      · rintro ⟨rawToken, hraw, hhash⟩
        exact ⟨rawToken, .inr hraw, hhash⟩
      · rintro ⟨rawToken, rfl | hraw, hhash⟩
        · exact absurd hhash.symm (World.tokenHash_ne_of_findOne hnewHash hold)
        · exact ⟨rawToken, hraw, hhash⟩
  · intro rawToken hraw
    rcases (hheld rawToken).mp hraw with rfl | hraw
    · exact ⟨_, (hmem _).mpr (.inl rfl), rfl⟩
    · obtain ⟨row, hrow, hhash⟩ := hw.stored rawToken hraw
      exact ⟨row, (hmem row).mpr (.inr hrow), hhash⟩
  · intro row hrow
    rcases (hmem row).mp hrow with rfl | hold
    · exact ⟨user, huser, rfl⟩
    · exact hw.owned row hold
  · intro user' huser'
    rw [length_unusedRows_issued hinsert, logins_cons, hsignedIn]
    refine Nat.add_le_add (hw.counted user' huser') ?_
    by_cases hid : user.id = user'.id
    · rw [Table.eq_of_key huser huser' hid, if_pos rfl, if_pos rfl]
    · rw [if_neg hid]
      exact Nat.zero_le _

/-- A logout marks the row of its token. -/
theorem loggedOut {rawToken : String} {usedAt : Date}
    (hhashes : ∀ rawToken' ∈ held log,
      hashToken lib rawToken' = hashToken lib rawToken → rawToken' = rawToken)
    (hreturned : e.returned = none) (hconsumed : e.consumed = some rawToken)
    (hsignedIn : e.signedIn lib = none) :
    HeldInvariant lib (e :: log)
      (w.updateTokens (.tokenHash (hashToken lib rawToken)) ⟨usedAt, none⟩) := by
  have hheld : ∀ rawToken', rawToken' ∈ held (e :: log) ↔
      rawToken' ∈ held log ∧ rawToken' ≠ rawToken := by
    intro rawToken'
    simp [mem_held_cons, hreturned, hconsumed, eq_comm]
  constructor
  · intro row hrow
    obtain ⟨old, hold, rfl⟩ := World.mem_updateTokens.mp hrow
    simp only [hheld]
    by_cases hhash : old.tokenHash = hashToken lib rawToken
    · rw [Criteria.picks, if_pos (decide_eq_true hhash)]
      refine iff_of_false (Option.some_ne_none _) ?_
      rintro ⟨rawToken', ⟨hraw, hne⟩, hhash'⟩
      exact hne (hhashes rawToken' hraw (hhash'.trans hhash))
    · rw [Criteria.picks, if_neg (by rwa [decide_eq_true_eq])]
      refine (hw.unused old hold).trans ⟨?_, ?_⟩
      · rintro ⟨rawToken', hraw, hhash'⟩
        refine ⟨rawToken', ⟨hraw, fun heq => hhash ?_⟩, hhash'⟩
        rw [← hhash', heq]
      · rintro ⟨rawToken', ⟨hraw, -⟩, hhash'⟩
        exact ⟨rawToken', hraw, hhash'⟩
  · intro rawToken' hraw
    obtain ⟨row, hrow, hhash⟩ := hw.stored rawToken' ((hheld rawToken').mp hraw).1
    refine ⟨_, World.mem_updateTokens.mpr ⟨row, hrow, rfl⟩, ?_⟩
    split
    · exact hhash
    · exact hhash
  · intro row hrow
    obtain ⟨old, hold, rfl⟩ := World.mem_updateTokens.mp hrow
    split
    · exact hw.owned old hold
    · exact hw.owned old hold
  · intro user huser
    rw [logins_cons, hsignedIn]
    exact (length_unusedRows_update_le _ _ _).trans (hw.counted user huser)

end HeldInvariant

/-- A request that does not refresh an acceptable token keeps the invariant. -/
theorem HeldInvariant.handle {request : Request}
    (hhashes : (rawTokens (w.handle lib request :: log)).InjOn (hashToken lib))
    (hw : HeldInvariant lib log w) (heffect : (w.handle lib request).Effect lib) :
    HeldInvariant lib (w.handle lib request :: log) (w.handle lib request).after := by
  cases heffect with
  | failed returned consumed signedIn same =>
      exact (hw.same same).failed returned consumed signedIn
  | issued consumed signedIn same stored insert returned =>
      exact (hw.same same).issued stored insert consumed signedIn returned
  | loggedOut presented returned consumed signedIn same update =>
      rw [update]
      refine (hw.same same).loggedOut (fun rawToken' hheld => hhashes ?_ ?_) returned consumed
        signedIn
      · exact rawTokens_subset_cons (rawTokens_of_held hheld)
      · exact ⟨_, List.mem_cons_self, .inl (congrArg Request.presented presented)⟩

/-- A refresh of a run was rejected. -/
theorem Served.Effect.not_refreshed (heffect : e.Effect lib) {rawToken : String}
    (hrequest : e.request = .refresh rawToken) {pair : Option TokenPair} :
    e.result ≠ .ok pair := by
  intro hresult
  have hconsumed : e.consumed = some rawToken := by
    unfold Served.consumed
    rw [hrequest, hresult]
  cases heffect with
  | failed _ consumed => cases consumed.symm.trans hconsumed
  | issued consumed => cases consumed.symm.trans hconsumed
  | loggedOut request => cases hrequest.symm.trans request

/-- In every run, from a store without tokens, in which no refresh presents an acceptable token and
no two tokens have one hash, the acceptable rows are those of the tokens that clients hold. -/
theorem served_held_exactly {w₀ : World} (hempty : w₀.refreshTokens = .empty _)
    (hhashes : (rawTokens log).InjOn (hashToken lib))
    (hserves : Serves lib (NoAcceptedRefresh lib) w₀ log w) : HeldExactly lib log w := by
  have hrun : HeldInvariant lib log w ∧ ∀ e ∈ log, e.Effect lib := by
    induction hserves with
    | start =>
        have hnone : ∀ row, row ∉ w₀.refreshTokens := by
          intro row hrow
          rw [hempty] at hrow
          cases hrow
        refine ⟨⟨fun row hrow => absurd hrow (hnone row), fun rawToken hraw => ?_,
          fun row hrow => absurd hrow (hnone row), fun user _ => ?_⟩, fun e he => ?_⟩
        · cases hraw
        · rw [World.unusedRows, hempty]
          exact Nat.zero_le _
        · cases he
    | serve _ hallow ih =>
        have heffect := handle_effect hallow
        have hearlier := ih (hhashes.mono rawTokens_subset_cons)
        refine ⟨hearlier.1.handle hhashes heffect, fun e he => ?_⟩
        rcases List.mem_cons.mp he with rfl | he
        · exact heffect
        · exact hearlier.2 e he
  obtain ⟨hw, heffects⟩ := hrun
  constructor
  · intro row hrow moment
    exact and_congr_left fun _ => hw.unused row hrow
  · exact hw.stored
  · intro e he rawToken row hrequest hreturns _
    obtain ⟨pair, hpair⟩ := hreturns
    exact absurd hpair ((heffects e he).not_refreshed hrequest)
  · intro moment user huser
    refine (Table.length_sel_le fun row _ hrow => ?_).trans (hw.counted user huser)
    have hacceptable := of_decide_eq_true hrow
    exact decide_eq_true ⟨hacceptable.1.1, hacceptable.2⟩

/-- `mario` signs in. -/
def marioLogin : Served := nobody.handle plainLibraries (.handleCallback "mario" "state")

/-- `mario` signs in and logs out. -/
theorem served_held_exactly_logout :
    marioLogin.result = .ok (some (pairFor "x")) ∧
      HeldExactly plainLibraries
        [marioLogin.after.handle plainLibraries (.logout "x"), marioLogin]
        (marioLogin.after.handle plainLibraries (.logout "x")).after := by
  have hlogin : Serves plainLibraries (NoAcceptedRefresh plainLibraries) nobody [marioLogin]
      marioLogin.after := .serve .start fun rawToken hrefresh => by cases hrefresh
  refine ⟨by decide, served_held_exactly rfl plainLibraries_sha256_injective.injOn
    (hlogin.serve fun rawToken hrefresh => ?_)⟩
  cases hrefresh

/-- A login and a refresh leave two acceptable rows, and the client holds one token. -/
theorem not_served_held_exactly_refresh :
    ¬ ∀ (lib : Libraries) (w₀ w : World) (log : List Served), lib.sha256.Injective →
      lib.randomBytes.Injective → w₀.refreshTokens = .empty _ →
      Serves lib (fun _ _ => True) w₀ log w → HeldExactly lib log w := by
  intro h
  have hexactly := h plainLibraries nobody _ _ plainLibraries_sha256_injective
    plainLibraries_randomBytes_injective rfl
    (.serve (.serve .start trivial) trivial :
      Serves plainLibraries (fun _ _ => True) nobody
        [marioLogin.after.handle plainLibraries (.refresh "x"), marioLogin] _)
  have hheld : held [marioLogin.after.handle plainLibraries (.refresh "x"), marioLogin] =
      ["xx"] := by decide
  have hrow : (⟨3, 1, "sha256:xxx", 50 + refreshTtlMs, none, none⟩ : RefreshTokenEntity) ∈
      (marioLogin.after.handle plainLibraries (.refresh "x")).after.refreshTokens.rows := by
    decide
  obtain ⟨rawToken, hraw, hhash⟩ := ((hexactly.rows _ hrow 50).mp (by decide)).1
  rw [hheld] at hraw
  cases List.mem_singleton.mp hraw
  revert hhash
  decide

end FoosballApi.Auth
