import FoosballApi.Auth.Requests

/-!
# Requests that run alone

What `validate` accepts, and one rule for each part of a request that runs with no other request:
how it goes on, or where it stops, under any choice of failing calls.
-/

namespace FoosballApi.Auth

open Calls Data Prog RefreshTokenService
open Matches (UserId Date Failure)

/-- `validate` accepts the row at a moment: it is unused and not expired. -/
def RefreshTokenEntity.Acceptable (row : RefreshTokenEntity) (moment : Date) : Prop :=
  row.usedAt = none ∧ ¬ row.expiresAt < moment

instance (row : RefreshTokenEntity) (moment : Date) : Decidable (row.Acceptable moment) :=
  inferInstanceAs (Decidable (_ ∧ _))

namespace World

/-- `validate` accepts the raw token at a moment. -/
def Accepts (w : World) (lib : Libraries) (rawToken : String) (moment : Date) : Prop :=
  ∃ row, w.findOne (hashToken lib rawToken) = some row ∧ row.Acceptable moment

/-- The state after a reading of the clock. -/
def reads (w : World) (lib : Libraries) : World :=
  { w with clock := w.now lib, readings := w.readings + 1 }

/-- The state after a random draw. -/
def draws (w : World) : World := { w with drawn := w.drawn + 1 }

/-- The row of the next random token. -/
def freshToken (w : World) (lib : Libraries) (userId : UserId) : NewToken :=
  { userId := userId
    tokenHash := hashToken lib (lib.randomBytes w.drawn)
    expiresAt := w.now lib + refreshTtlMs
    usedAt := none
    replacedBy := none }

/-- The state after the next random token was inserted for a user. -/
def issued (w : World) (lib : Libraries) (userId : UserId) : Option World :=
  (w.draws.reads lib).insertToken (w.freshToken lib userId)

/-- The state after `rotate` has marked a row as replaced. -/
def rotated (w : World) (lib : Libraries) (row : RefreshTokenEntity) (successor : TokenId) :
    World :=
  (w.reads lib).updateTokens (.id row.id) { usedAt := w.now lib, replacedBy := some successor }

end World

/-! ## Rules -/

variable {lib : Libraries} {fails : List Call → Call → Bool} {calls : List Call} {w w' : World}
  {α : Type} {Q : Outcome Call Failure Unit World α → Prop}

/-- A call that fails ends the program. -/
theorem after_failed {op : Call} {next : op.Result → Api α}
    (hfault : (system lib).fault op = some .unavailable) (hfails : fails calls op = true) :
    (await op >>= next).after (system lib) fails calls () w Q ↔
      Q ⟨.error .unavailable, op :: calls, (), w⟩ :=
  after_perform_error (by rw [hfails, System.perform_true hfault])

/-- A call that goes through is followed by the rest. -/
theorem after_done {op : Call} {next : op.Result → Api α} {value : op.Result}
    (hfails : fails calls op = false) (hexec : exec lib op () w = (.ok value, (), w')) :
    (await op >>= next).after (system lib) fails calls () w Q ↔
      (next value).after (system lib) fails (op :: calls) () w' Q :=
  after_perform_ok (by rw [hfails]; exact hexec)

/-- A call that a constraint refuses ends the program. -/
theorem after_refused {op : Call} {next : op.Result → Api α} {failure : Failure}
    (hfails : fails calls op = false) (hexec : exec lib op () w = (.error failure, (), w')) :
    (await op >>= next).after (system lib) fails calls () w Q ↔
      Q ⟨.error failure, op :: calls, (), w'⟩ :=
  after_perform_error (by rw [hfails]; exact hexec)

/-- A reading of the clock goes through. -/
theorem after_now {next : Date → Api α} :
    (await .now >>= next).after (system lib) fails calls () w Q ↔
      (next (w.now lib)).after (system lib) fails (.now :: calls) () (w.reads lib) Q :=
  after_perform_ok (System.perform_of_fault_none rfl _ () w)

/-- A random draw goes through. -/
theorem after_randomBytes {next : String → Api α} :
    (await .randomBytes >>= next).after (system lib) fails calls () w Q ↔
      (next (lib.randomBytes w.drawn)).after (system lib) fails (.randomBytes :: calls) () w.draws
        Q :=
  after_perform_ok (System.perform_of_fault_none rfl _ () w)

/-- A token that is accepted passes `validate`. -/
theorem after_validate {rawToken : String} {row : RefreshTokenEntity}
    {next : RefreshTokenEntity → Api α}
    (hread : fails calls (.findOne (hashToken lib rawToken)) = false)
    (hfound : w.findOne (hashToken lib rawToken) = some row)
    (haccepted : row.Acceptable (w.now lib)) :
    (validate lib rawToken >>= next).after (system lib) fails calls () w Q ↔
      (next row).after (system lib) fails (.now :: .findOne (hashToken lib rawToken) :: calls) ()
        (w.reads lib) Q := by
  unfold validate
  rw [Prog.bind_assoc, after_done hread rfl, hfound, Prog.bind_assoc, Prog.require_some,
    Prog.pure_bind_eq, Prog.bind_assoc,
    after_throwIf_of_not (Decidable.not_not.mpr haccepted.1), Prog.bind_assoc, after_now,
    Prog.bind_assoc, after_throwIf_of_not haccepted.2]
  rfl

/-- A token that is not accepted ends in `validate`, which has read the row and perhaps the
clock. -/
theorem after_validate_rejected {rawToken : String} {next : RefreshTokenEntity → Api α}
    (hread : fails calls (.findOne (hashToken lib rawToken)) = false)
    (hrejected : ¬ w.Accepts lib rawToken (w.now lib)) :
    ∃ calls' w', (w' = w ∨ w' = w.reads lib) ∧
      ((validate lib rawToken >>= next).after (system lib) fails calls () w Q ↔
        Q ⟨.error invalidRefreshToken, calls', (), w'⟩) := by
  unfold validate
  rw [Prog.bind_assoc, after_done hread rfl]
  cases hfound : w.findOne (hashToken lib rawToken) with
  | none => exact ⟨_, w, .inl rfl, Iff.rfl⟩
  | some row =>
      rw [Prog.bind_assoc, Prog.require_some, Prog.pure_bind_eq, Prog.bind_assoc]
      by_cases hused : row.usedAt = none
      · have hexpired : row.expiresAt < w.now lib :=
          not_not.mp fun hvalid => hrejected ⟨row, hfound, hused, hvalid⟩
        rw [after_throwIf_of_not (Decidable.not_not.mpr hused), Prog.bind_assoc, after_now,
          Prog.bind_assoc, after_throwIf_of hexpired]
        exact ⟨_, _, .inr rfl, Iff.rfl⟩
      · rw [after_throwIf_of hused]
        exact ⟨_, w, .inl rfl, Iff.rfl⟩

/-- An `issue` comes down to the insert of the next random token. -/
theorem after_issue {userId : UserId} {next : String → Api α} :
    (issue lib userId refreshTtlMs >>= next).after (system lib) fails calls () w Q ↔
      (await (.save (w.freshToken lib userId)) >>= fun _ => next (lib.randomBytes w.drawn)).after
        (system lib) fails (.now :: .randomBytes :: calls) () (w.draws.reads lib) Q := by
  unfold issue
  rw [Prog.bind_assoc, after_randomBytes, Prog.bind_assoc, after_now, Prog.bind_assoc]
  rfl

/-- A `rotate` comes down to the insert of the next random token and the update of the row. -/
theorem after_rotate {row : RefreshTokenEntity} {userId : UserId} {next : String → Api α} :
    (rotate lib row userId refreshTtlMs >>= next).after (system lib) fails calls () w Q ↔
      (do
        let saved ← await (.save (w.freshToken lib userId))
        let usedAt ← await .now
        await (.update (.id row.id) { usedAt := usedAt, replacedBy := some saved.id })
        next (lib.randomBytes w.drawn)).after
        (system lib) fails (.now :: .randomBytes :: calls) () (w.draws.reads lib) Q := by
  unfold rotate
  rw [Prog.bind_assoc, after_randomBytes, Prog.bind_assoc, after_now, Prog.bind_assoc]
  simp only [Prog.bind_assoc]
  rfl

/-- The insert of the next random token goes through, under the next id. -/
theorem exec_issued {userId : UserId} (hissued : w.issued lib userId = some w') :
    ∃ saved, saved.id = w.nextTokenId ∧
      exec lib (.save (w.freshToken lib userId)) () (w.draws.reads lib) = (.ok saved, (), w') := by
  unfold World.issued at hissued
  simp only [exec, hissued]
  exact ⟨_, rfl, rfl⟩

/-- A constraint refuses the insert of the next random token. -/
theorem exec_not_issued {userId : UserId} (hrefused : w.issued lib userId = none) :
    exec lib (.save (w.freshToken lib userId)) () (w.draws.reads lib) =
      (.error .constraint, (), w.draws.reads lib) := by
  unfold World.issued at hrefused
  simp only [exec, hrefused]

/-! ## Logins -/

namespace World

/-- No user is lost or gets another directory id. -/
def KeepsUsers (w w' : World) : Prop :=
  ∀ user ∈ w.users, ∃ user' ∈ w'.users, user'.id = user.id ∧ user'.azureOid = user.azureOid

theorem KeepsUsers.refl (w : World) : w.KeepsUsers w := fun user huser => ⟨user, huser, rfl, rfl⟩

theorem KeepsUsers.trans {w₁ w₂ w₃ : World} (h : w₁.KeepsUsers w₂) (h' : w₂.KeepsUsers w₃) :
    w₁.KeepsUsers w₃ := by
  intro user huser
  obtain ⟨user₂, huser₂, hid₂, hoid₂⟩ := h user huser
  obtain ⟨user₃, huser₃, hid₃, hoid₃⟩ := h' user₂ huser₂
  exact ⟨user₃, huser₃, hid₃.trans hid₂, hoid₃.trans hoid₂⟩

/-- A write of a user who has the directory id that is stored under the id, if there is one. -/
theorem keepsUsers_saveUser {user : Users.UserEntity} (hsaved : w.saveUser user = some w')
    (hoid : ∀ old ∈ w.users, old.id = user.id → user.azureOid = old.azureOid) :
    w.KeepsUsers w' := by
  obtain ⟨-, rfl⟩ := saveUser_eq_some hsaved
  intro old hold
  by_cases hid : old.id = user.id
  · exact ⟨user, Table.mem_put.mpr (.inl rfl), hid.symm, hoid old hold hid⟩
  · exact ⟨old, Table.mem_put.mpr (.inr ⟨hold, hid⟩), rfl, rfl⟩

end World

/-- The tokens are the same, and no user is lost or gets another directory id. -/
structure SameTokens (w w' : World) : Prop where
  tokens : w'.refreshTokens = w.refreshTokens
  users : w.KeepsUsers w'

theorem SameTokens.of_kept (htokens : w'.refreshTokens = w.refreshTokens)
    (husers : w'.users = w.users) : SameTokens w w' :=
  ⟨htokens, fun user huser => ⟨user, husers ▸ huser, rfl, rfl⟩⟩

theorem SameTokens.refl (w : World) : SameTokens w w := .of_kept rfl rfl

theorem SameTokens.trans {w₁ w₂ w₃ : World} (h : SameTokens w₁ w₂) (h' : SameTokens w₂ w₃) :
    SameTokens w₁ w₃ := ⟨h'.tokens.trans h.tokens, h.users.trans h'.users⟩

/-- A write of a user leaves the tokens alone, and the user is stored. -/
theorem sameTokens_saveUser {user : Users.UserEntity} (hsaved : w.saveUser user = some w')
    (hoid : ∀ old ∈ w.users, old.id = user.id → user.azureOid = old.azureOid) :
    SameTokens w w' ∧ user ∈ w'.users := by
  have hkeeps := World.keepsUsers_saveUser hsaved hoid
  obtain ⟨-, rfl⟩ := World.saveUser_eq_some hsaved
  exact ⟨⟨rfl, hkeeps⟩, Table.mem_put.mpr (.inl rfl)⟩

/-- The answer of Azure AD to a code; a rejected code has none. -/
def World.answer (w : World) (lib : Libraries) (code redirectUri : String) : Option IdTokenClaims :=
  match lib.acquireTokenByCode w.exchanged code redirectUri with
  | .ok claims => claims
  | .error _ => none

/-- How a login ends that runs alone: it throws, or it inserts the next random token for the user
with the directory id of the answer and returns it. -/
inductive SignedIn (lib : Libraries) (answer : Option IdTokenClaims) (w : World)
    (out : Outcome Call Failure Unit World TokenPair) : Prop
  | failed {failure : Failure} (result : out.result = .error failure)
      (same : SameTokens w out.world)
  | issued {claims : IdTokenClaims} {user : Users.UserEntity} {pair : TokenPair} {w₁ : World}
      (answered : answer = some claims) (result : out.result = .ok pair) (same : SameTokens w w₁)
      (stored : user ∈ w₁.users) (azureOid : user.azureOid = claims.oid)
      (insert : w₁.issued lib user.id = some out.world)
      (token : pair.refreshToken = lib.randomBytes w₁.drawn)

theorem SignedIn.of_same {answer : Option IdTokenClaims}
    {out : Outcome Call Failure Unit World TokenPair} (h : SignedIn lib answer w' out)
    (hsame : SameTokens w w') : SignedIn lib answer w out := by
  cases h with
  | failed result same => exact .failed result (hsame.trans same)
  | issued answered result same stored azureOid insert token =>
      exact .issued answered result (hsame.trans same) stored azureOid insert token

/-- `upsert` throws, or it stores a user with the directory id. -/
theorem after_upsert {azureOid email displayName : String} {next : Users.UserEntity → Api α}
    (hthrow : ∀ failure calls, Q ⟨.error failure, calls, (), w⟩)
    (hnext : ∀ user w₁ calls, SameTokens w w₁ → user ∈ w₁.users → user.azureOid = azureOid →
      (next user).after (system lib) noFaults calls () w₁ Q) :
    (UserRepository.upsert azureOid email displayName >>= next).after (system lib) noFaults calls ()
      w Q := by
  unfold UserRepository.upsert
  rw [Prog.bind_assoc, after_done rfl rfl]
  cases hfound : w.findByAzureOid azureOid with
  | none =>
      cases hsaved : w.saveUser (w.newUser azureOid email displayName) with
      | none =>
          rw [after_refused rfl (exec_not_inserted lib hsaved)]
          exact hthrow _ _
      | some w₁ =>
          rw [after_done rfl (exec_inserted lib hsaved)]
          obtain ⟨hsame, hstored⟩ := sameTokens_saveUser hsaved fun old hold hid =>
            absurd hid (Nat.ne_of_lt (World.lt_nextUserId hold))
          exact hnext _ w₁ _ hsame hstored rfl
  | some existing =>
      have hoid := World.azureOid_of_findByAzureOid hfound
      cases hsaved : w.saveUser { existing with email := email, displayName := displayName } with
      | none =>
          rw [after_refused rfl (exec_not_saved lib hsaved)]
          exact hthrow _ _
      | some w₁ =>
          rw [after_done rfl (exec_saved lib hsaved)]
          have hexisting : existing ∈ w.users := Table.mem_of_first hfound
          obtain ⟨hsame, hstored⟩ := sameTokens_saveUser hsaved fun old hold hid =>
            congrArg (·.azureOid) (Table.eq_of_key hexisting hold hid.symm)
          exact hnext _ w₁ _ hsame hstored hoid

/-- A login with the claims of a user throws, or it returns a token it has inserted. -/
theorem signIn_alone (claims : IdTokenClaims) :
    (AuthService.signIn lib claims).after (system lib) noFaults calls () w
      (SignedIn lib (some claims) w) := by
  unfold AuthService.signIn UserService.upsertFromAzure
  refine after_upsert (fun failure calls => .failed rfl (.refl w)) ?_
  intro user w₁ calls hsame hstored hoid
  unfold TokenService.issueTokenPair
  rw [after_issue]
  cases hissued : w₁.issued lib user.id with
  | none =>
      rw [after_refused rfl (exec_not_issued hissued)]
      exact .failed rfl (hsame.trans (.of_kept rfl rfl))
  | some w₂ =>
      obtain ⟨saved, -, hsave⟩ := exec_issued hissued
      rw [after_done rfl hsave]
      exact .issued rfl rfl hsame hstored hoid hissued rfl

/-- An exchange throws or returns the answer, and counts. -/
theorem exchangeCode_alone (code state redirectUri : String) :
    (AzureAdService.exchangeCode code state redirectUri).after (system lib) noFaults calls () w
      fun out => out.world = { w with exchanged := w.exchanged + 1 } ∧
        ∀ claims, out.result = .ok claims → w.answer lib code redirectUri = some claims := by
  unfold AzureAdService.exchangeCode World.answer
  cases hanswer : lib.acquireTokenByCode w.exchanged code redirectUri with
  | error failure =>
      have hexec : exec lib (.acquireTokenByCode code redirectUri) () w =
          (.error failure, (), { w with exchanged := w.exchanged + 1 }) := by
        simp only [exec, hanswer]
      rw [after_refused rfl hexec]
      exact ⟨rfl, fun claims hclaims => by cases hclaims⟩
  | ok found =>
      have hexec : exec lib (.acquireTokenByCode code redirectUri) () w =
          (.ok found, (), { w with exchanged := w.exchanged + 1 }) := by
        simp only [exec, hanswer]
      rw [after_done rfl hexec, after_require]
      refine ⟨fun _ => ⟨rfl, fun claims hclaims => by cases hclaims⟩, fun claims hfound => ?_⟩
      refine ⟨rfl, fun claims' hclaims' => ?_⟩
      cases hclaims'
      exact hfound

theorem handleCallback_alone (code state : String) :
    (AuthService.handleCallback lib code state).after (system lib) noFaults calls () w
      (SignedIn lib (w.answer lib code lib.webRedirectUri) w) := by
  unfold AuthService.handleCallback
  rw [after_bind, after_throwIf]
  refine ⟨fun _ => .failed rfl (.refl w), fun _ => ?_⟩
  rw [after_bind]
  refine after_mono (exchangeCode_alone code state _) fun out hout => ?_
  obtain ⟨result, calls, _, w'⟩ := out
  obtain ⟨rfl, hanswer⟩ := hout
  have hsame : SameTokens w { w with exchanged := w.exchanged + 1 } := .of_kept rfl rfl
  cases result with
  | error failure => exact .failed rfl hsame
  | ok claims =>
      rw [hanswer claims rfl]
      exact after_mono (signIn_alone claims) fun _ hsigned => hsigned.of_same hsame

theorem handleMobileExchange_alone (code state : String) :
    (AuthService.handleMobileExchange lib code state).after (system lib) noFaults calls () w
      (SignedIn lib (w.answer lib code lib.mobileRedirectUri) w) := by
  unfold AuthService.handleMobileExchange
  rw [after_bind, after_throwIf]
  refine ⟨fun _ => .failed rfl (.refl w), fun _ => ?_⟩
  refine after_attempt_bind.mpr (after_mono (exchangeCode_alone code state _) fun out hout => ?_)
  obtain ⟨result, calls, _, w'⟩ := out
  obtain ⟨rfl, hanswer⟩ := hout
  have hsame : SameTokens w { w with exchanged := w.exchanged + 1 } := .of_kept rfl rfl
  cases result with
  | error failure => exact .failed rfl hsame
  | ok claims =>
      rw [hanswer claims rfl]
      exact after_mono (signIn_alone claims) fun _ hsigned => hsigned.of_same hsame

end FoosballApi.Auth
