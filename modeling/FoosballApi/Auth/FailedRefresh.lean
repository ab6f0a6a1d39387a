import FoosballApi.Auth.RunsAlone
import FoosballApi.Auth.SingleUse

/-!
# A refresh that fails

A refresh writes three times without a transaction: `rotate` inserts a token and marks the presented
one, and `issueTokenPair` inserts another. When the second or the third write fails, the first is
not taken back. `failed_refresh_costless_iff` says exactly which failures leave something behind.
-/

namespace FoosballApi.Auth

open Calls Data Prog RefreshTokenService
open Matches (Failure)

/-- Which awaited calls of a refresh fail, after the read of `validate`. -/
structure RefreshFaults where
  userLookup : Bool
  rotateInsert : Bool
  rotateUpdate : Bool
  issueInsert : Bool
  deriving DecidableEq, Repr

/-- The insert of a token. -/
def Call.isSave : Call → Bool
  | .save _ => true
  | _ => false

/-- The calls that fail: the first insert of a refresh is that of `rotate`. -/
def RefreshFaults.fails (f : RefreshFaults) : List Call → Call → Bool
  | _, .findUserById _ => f.userLookup
  | calls, .save _ => if calls.any Call.isSave then f.issueInsert else f.rotateInsert
  | _, .update .. => f.rotateUpdate
  | _, _ => false

/-- The token is accepted at every moment at which it was, and every row that is acceptable at some
moment was there before. -/
structure Costless (lib : Libraries) (rawToken : String) (w w' : World) : Prop where
  accepted : ∀ moment, w.Accepts lib rawToken moment → w'.Accepts lib rawToken moment
  noneNew : ∀ row ∈ w'.refreshTokens, ∀ moment, row.Acceptable moment → row ∈ w.refreshTokens

/-- The token that is inserted after `earlier` others breaks no unique key of the stored tokens. -/
def World.KeysFree (w : World) (lib : Libraries) (earlier : Nat) : Prop :=
  w.refreshTokens.get (w.nextTokenId + earlier) = none ∧
    w.findOne (hashToken lib (lib.randomBytes (w.drawn + earlier))) = none

/-- The insert of `rotate` goes through, and the update or the insert after it does not: it fails,
or its token has a key that is stored or the hash of the token of `rotate`. -/
def RefreshFaults.HalfDone (f : RefreshFaults) (lib : Libraries) (w : World)
    (row : RefreshTokenEntity) : Prop :=
  f.userLookup = false ∧ f.rotateInsert = false ∧ (w.users.get row.userId).isSome ∧
    w.KeysFree lib 0 ∧
    (f.rotateUpdate = true ∨ f.issueInsert = true ∨ ¬ w.KeysFree lib 1 ∨
      hashToken lib (lib.randomBytes (w.drawn + 1)) = hashToken lib (lib.randomBytes w.drawn))

variable {lib : Libraries} {rawToken : String} {w w' : World} {row : RefreshTokenEntity}

/-- The tokens are as before. -/
theorem Costless.of_kept (htokens : w'.refreshTokens = w.refreshTokens) :
    Costless lib rawToken w w' := by
  refine ⟨fun moment haccepts => ?_, fun row hrow _ _ => htokens ▸ hrow⟩
  unfold World.Accepts World.findOne at haccepts ⊢
  rwa [htokens]

/-- A row that was inserted and has not been used is a new one. -/
theorem not_costless_of_new (hnew : row ∉ w.refreshTokens) (hrow : row ∈ w'.refreshTokens)
    (hunused : row.usedAt = none) : ¬ Costless lib rawToken w w' :=
  fun hcostless => hnew (hcostless.noneNew row hrow row.expiresAt ⟨hunused, Nat.lt_irrefl _⟩)

/-- A token whose row was marked is accepted no more. -/
theorem not_costless_of_used {marked : RefreshTokenEntity}
    (hfound : w.findOne (hashToken lib rawToken) = some row) (hunused : row.usedAt = none)
    (hmarked : w'.findOne (hashToken lib rawToken) = some marked) (hused : marked.usedAt ≠ none) :
    ¬ Costless lib rawToken w w' := by
  intro hcostless
  obtain ⟨row', hrow', hacceptable⟩ :=
    hcostless.accepted row.expiresAt ⟨row, hfound, hunused, Nat.lt_irrefl _⟩
  cases hmarked.symm.trans hrow'
  exact hused hacceptable.1

/-- The insert of the next token adds a row that was not there, and finds the rows that were. -/
theorem issued_eq_some (rawToken : String) {userId : Matches.UserId} {w₁ : World}
    (hissued : w.issued lib userId = some w₁) :
    (∀ r, w.findOne (hashToken lib rawToken) = some r →
      w₁.findOne (hashToken lib rawToken) = some r) ∧
    ∃ new ∈ w₁.refreshTokens, new ∉ w.refreshTokens ∧ new.usedAt = none := by
  obtain ⟨hnew, -⟩ := World.insertToken_eq_some hissued
  refine ⟨fun r hr => ?_, _, (World.mem_insertToken hissued).mpr (.inl rfl),
    fun hmem => Table.get_eq_none.mp hnew _ hmem rfl, rfl⟩
  have hkept : (w.draws.reads lib).findOne (hashToken lib rawToken) = some r := hr
  rw [World.findOne_insertToken hissued, hkept, Option.some_or]

/-- Which inserts of the next token go through. -/
theorem issued_isSome_iff (lib : Libraries) (w : World) (userId : Matches.UserId) :
    (w.issued lib userId).isSome ↔ w.KeysFree lib 0 ∧ (w.users.get userId).isSome := by
  unfold World.issued World.insertToken
  split
  · next hfits => exact iff_of_true rfl ⟨⟨hfits.1, hfits.2.1⟩, hfits.2.2⟩
  · next hfits =>
      refine iff_of_false Bool.false_ne_true fun hfree => hfits ?_
      exact ⟨hfree.1.1, hfree.1.2, hfree.2⟩

/-- Which inserts of a second token go through once `rotate` is done. -/
theorem issued_rotated_isSome_iff {userId : Matches.UserId} {w₁ : World}
    (hissued : w.issued lib userId = some w₁) (successor : TokenId) :
    ((w₁.rotated lib row successor).issued lib userId).isSome ↔ w.KeysFree lib 1 ∧
      hashToken lib (lib.randomBytes (w.drawn + 1)) ≠ hashToken lib (lib.randomBytes w.drawn) := by
  obtain ⟨-, -, hissuer, hw₁⟩ := World.insertToken_eq_some hissued
  let change : TokenChange := ⟨(w₁.reads lib).clock, some successor⟩
  -- The update of `rotate` changes no key, and its insert adds the two keys of its token.
  have hget : (w₁.rotated lib row successor).refreshTokens.get (w.nextTokenId + 1) = none ↔
      w.refreshTokens.get (w.nextTokenId + 1) = none := by
    have hmodify : (w₁.rotated lib row successor).refreshTokens.get (w.nextTokenId + 1) =
        (w₁.refreshTokens.get (w.nextTokenId + 1)).map fun old =>
          if (Criteria.id row.id).picks old then change.applied old else old :=
      Table.get_modify change.applied (fun _ => rfl) _
    have hput : w₁.refreshTokens.get (w.nextTokenId + 1) =
        w.refreshTokens.get (w.nextTokenId + 1) := by
      rw [hw₁]
      exact Table.get_put_of_ne _ (Nat.succ_ne_self _)
    rw [hmodify, Option.map_eq_none_iff, hput]
  have hfind : ∀ tokenHash, (w₁.rotated lib row successor).findOne tokenHash = none ↔
      w.findOne tokenHash = none ∧ hashToken lib (lib.randomBytes w.drawn) ≠ tokenHash := by
    intro tokenHash
    have hinsert := World.findOne_insertToken hissued tokenHash
    have hsame : (w.draws.reads lib).findOne tokenHash = w.findOne tokenHash := rfl
    rw [World.rotated, World.findOne_updateTokens, Option.map_eq_none_iff]
    change w₁.findOne tokenHash = none ↔ _
    rw [hinsert, hsame, Option.or_eq_none_iff]
    refine and_congr_right fun _ => ?_
    split
    · next heq => exact iff_of_false (Option.some_ne_none _) fun hne => hne heq
    · next hne => exact iff_of_true rfl hne
  have hnextId : (w₁.rotated lib row successor).nextTokenId = w.nextTokenId + 1 := by rw [hw₁]; rfl
  have hdrawn : (w₁.rotated lib row successor).drawn = w.drawn + 1 := by rw [hw₁]; rfl
  have husers : (w₁.rotated lib row successor).users = w.users := by rw [hw₁]; rfl
  have hstored : (w.users.get userId).isSome := hissuer
  rw [issued_isSome_iff, World.KeysFree, hnextId, hdrawn, husers, hstored, Nat.add_zero,
    Nat.add_zero, hget, hfind, World.KeysFree, ne_comm]
  simp only [and_true, and_assoc]

/-- Once the token of `rotate` is inserted, everything that follows must go through. -/
theorem late_costless_iff (f : RefreshFaults) {calls : List Call} {user : Users.UserEntity}
    {w₁ : World} {newRawToken : String} (hcalls : calls.any Call.isSave = true)
    (hfound : w.findOne (hashToken lib rawToken) = some row) (hunused : row.usedAt = none)
    (hissued : (w.reads lib).issued lib user.id = some w₁) :
    (do
      let usedAt ← await .now
      await (.update (.id row.id) { usedAt := usedAt, replacedBy := some w.nextTokenId })
      let pair ← TokenService.issueTokenPair lib user
      return { accessToken := pair.accessToken, refreshToken := newRawToken, expiresIn := 900 } :
        Api TokenPair).after (system lib) f.fails calls () w₁ (fun out =>
          (∃ failure, out.result = .error failure) → Costless lib rawToken w out.world) ↔
      f.rotateUpdate = false ∧ f.issueInsert = false ∧ w.KeysFree lib 1 ∧
        hashToken lib (lib.randomBytes (w.drawn + 1)) ≠ hashToken lib (lib.randomBytes w.drawn) := by
  obtain ⟨hstill, new, hnew, hnotBefore, hnewUnused⟩ := issued_eq_some rawToken hissued
  have hlaterSave : ∀ token, f.fails (.now :: .randomBytes ::
      .update (.id row.id) ⟨w₁.now lib, some w.nextTokenId⟩ :: .now :: calls) (.save token) =
        f.issueInsert := by
    intro token
    simp [RefreshFaults.fails, Call.isSave, hcalls]
  rw [after_now]
  cases hrotateUpdate : f.rotateUpdate with
  | true =>
      rw [after_failed rfl hrotateUpdate]
      refine iff_of_false (fun h => ?_) fun h => by cases h.1
      have hnotBefore : new ∉ w.refreshTokens := hnotBefore
      have hrow : new ∈ (w₁.reads lib).refreshTokens := hnew
      exact not_costless_of_new hnotBefore hrow hnewUnused (h ⟨_, rfl⟩)
  | false =>
  -- From here on the presented token is marked.
  have hlost : ¬ Costless lib rawToken w ((w₁.rotated lib row w.nextTokenId).draws.reads lib) := by
    have hstored : (w₁.reads lib).findOne (hashToken lib rawToken) = some row := hstill row hfound
    have hmarked : (w₁.rotated lib row w.nextTokenId).findOne (hashToken lib rawToken) =
        some (TokenChange.applied ⟨w₁.now lib, some w.nextTokenId⟩ row) := by
      rw [World.rotated, World.findOne_updateTokens, hstored, Option.map_some, Criteria.picks,
        decide_eq_true rfl, if_pos rfl]
    exact not_costless_of_used hfound hunused hmarked (Option.some_ne_none _)
  have hupdate : exec lib (.update (.id row.id) ⟨w₁.now lib, some w.nextTokenId⟩) ()
      (w₁.reads lib) = (.ok (), (), w₁.rotated lib row w.nextTokenId) := rfl
  unfold TokenService.issueTokenPair
  rw [after_done hrotateUpdate hupdate, Prog.bind_assoc, after_issue]
  cases hissueInsert : f.issueInsert with
  | true =>
      rw [after_failed rfl ((hlaterSave _).trans hissueInsert)]
      exact iff_of_false (fun h => hlost (h ⟨_, rfl⟩)) fun h => by cases h.2.1
  | false =>
  have hagain : ((w₁.rotated lib row w.nextTokenId).issued lib user.id).isSome ↔ _ :=
    issued_rotated_isSome_iff hissued w.nextTokenId
  cases hlast : (w₁.rotated lib row w.nextTokenId).issued lib user.id with
  | none =>
      rw [after_refused ((hlaterSave _).trans hissueInsert) (exec_not_issued hlast)]
      refine iff_of_false (fun h => hlost (h ⟨_, rfl⟩)) fun h => ?_
      rw [hlast] at hagain
      cases hagain.mpr h.2.2
  | some w₂ =>
      obtain ⟨_, -, hsave⟩ := exec_issued hlast
      rw [after_done ((hlaterSave _).trans hissueInsert) hsave]
      refine iff_of_true (fun hfailed => ?_) ⟨rfl, rfl, hagain.mp (by rw [hlast]; rfl)⟩
      obtain ⟨failure, hfailure⟩ := hfailed
      cases hfailure

/-- A refresh of an accepted token that throws costs the user nothing, unless it stops between the
insert of `rotate` and its end. -/
theorem failed_refresh_costless_iff (f : RefreshFaults)
    (hfound : w.findOne (hashToken lib rawToken) = some row)
    (haccepted : row.Acceptable (w.now lib)) :
    (AuthService.refresh lib rawToken).after (system lib) f.fails [] () w
      (fun out => (∃ failure, out.result = .error failure) → Costless lib rawToken w out.world) ↔
    ¬ f.HalfDone lib w row := by
  unfold AuthService.refresh UserService.findById
  rw [after_validate rfl hfound haccepted, Prog.bind_assoc]
  -- The cases follow the calls: up to the insert nothing is written.
  cases huserLookup : f.userLookup with
  | true =>
      rw [after_failed rfl huserLookup]
      exact iff_of_true (fun _ => .of_kept rfl) fun hhalf => by cases huserLookup.symm.trans hhalf.1
  | false =>
  rw [after_done huserLookup rfl]
  cases huser : (w.reads lib).users.get row.userId with
  | none =>
      refine iff_of_true (fun _ => .of_kept rfl) fun hhalf => ?_
      have hissuer : ((w.reads lib).users.get row.userId).isSome := hhalf.2.2.1
      rw [huser] at hissuer
      cases hissuer
  | some user =>
  have huserId : user.id = row.userId := Table.key_of_get huser
  rw [Prog.require_some, Prog.pure_bind_eq, after_rotate]
  cases hrotateInsert : f.rotateInsert with
  | true =>
      rw [after_failed rfl hrotateInsert]
      refine iff_of_true (fun _ => .of_kept rfl) fun hhalf => ?_
      cases hrotateInsert.symm.trans hhalf.2.1
  | false =>
  have hfits := issued_isSome_iff lib (w.reads lib) user.id
  cases hissued : (w.reads lib).issued lib user.id with
  | none =>
      rw [after_refused hrotateInsert (exec_not_issued hissued)]
      refine iff_of_true (fun _ => .of_kept rfl) fun hhalf => ?_
      rw [hissued, huserId] at hfits
      cases hfits.mpr ⟨hhalf.2.2.2.1, hhalf.2.2.1⟩
  | some w₁ =>
      obtain ⟨saved, hid, hsave⟩ := exec_issued hissued
      have hid : saved.id = w.nextTokenId := hid
      rw [hissued, huserId] at hfits
      obtain ⟨hfree, hissuer⟩ := hfits.mp rfl
      have hfree : w.KeysFree lib 0 := hfree
      have hissuer : (w.users.get row.userId).isSome := hissuer
      rw [after_done hrotateInsert hsave, hid]
      refine (late_costless_iff f rfl hfound haccepted.1 hissued).trans ?_
      unfold RefreshFaults.HalfDone
      simp only [huserLookup, hrotateInsert, hissuer, hfree, true_and, not_or, not_not,
        Bool.not_eq_true, ne_eq]

/-- The row of the token of `mario`. -/
def marioToken : RefreshTokenEntity := ⟨1, 1, "sha256:token", 100, none, none⟩

/-- A refresh whose user lookup fails leaves the token of `mario` accepted. -/
theorem failed_refresh_costless_iff_lookup :
    (AuthService.refresh plainLibraries "token").after (system plainLibraries)
      (RefreshFaults.fails ⟨true, false, false, false⟩) [] () oneToken fun out =>
        (∃ failure, out.result = .error failure) →
          Costless plainLibraries "token" oneToken out.world := by
  have hfound : oneToken.findOne (hashToken plainLibraries "token") = some marioToken := by decide
  exact (failed_refresh_costless_iff _ hfound (by decide)).mpr fun hhalf => by cases hhalf.1

/-- When the last insert fails, the presented token is marked and its successor is lost. -/
theorem not_failed_refresh_costless_issue :
    ¬ ∀ (lib : Libraries) (rawToken : String) (w : World) (f : RefreshFaults),
      w.Accepts lib rawToken (w.now lib) →
      (AuthService.refresh lib rawToken).after (system lib) f.fails [] () w fun out =>
        (∃ failure, out.result = .error failure) → Costless lib rawToken w out.world := by
  intro h
  have haccepts : oneToken.Accepts plainLibraries "token" 50 :=
    ⟨marioToken, by decide, by decide⟩
  have hmarked : ((AuthService.refresh plainLibraries "token").eval (system plainLibraries)
      (RefreshFaults.fails ⟨false, false, false, true⟩) [] () oneToken).world.findOne
        (hashToken plainLibraries "token") =
      some { marioToken with usedAt := some 50, replacedBy := some 2 } := by decide
  obtain ⟨row, hfound, hacceptable⟩ := (h plainLibraries "token" oneToken
    ⟨false, false, false, true⟩ haccepts ⟨.unavailable, by rfl⟩).accepted 50 haccepts
  cases hmarked.symm.trans hfound
  cases hacceptable.1

end FoosballApi.Auth
