import FoosballApi.Auth.AccessTokens
import FoosballApi.Auth.FailedRefresh
import FoosballApi.Auth.HeldTokens

/-!
# How long a refresh token works

Logins, refreshes and logouts of any users, in any interleaving and with any calls failing. The
refresh token of a returned pair works for 24 hours from a reading of the clock by its request, for
the user its access token names, until a refresh or a logout that presents it marks its row. Nothing
else ends it: no request that presents another token, and no failing call. The random tokens that
the run draws are taken to be different, and so are the hashes of all tokens of the run.

That it works is said of a refresh that runs alone in the state that is left. `Issued` is what a
request has done when it returns a pair, `Draws` what every call of a run guarantees about the
random tokens, and `Live` what holds of the row of the token from its insert on.
-/

namespace FoosballApi.Auth

open Calls Data Prog Trace Users RefreshTokenService
open Matches (UserId Date Failure)

/-! ## A refresh that runs alone -/

section

variable {lib : Libraries} {w w' : World} {rawToken : String} {row : RefreshTokenEntity}
  {user : UserEntity}

/-- A refresh of a token that is not accepted is rejected. -/
theorem refresh_alone_rejected (hrejected : ¬ w.Accepts lib rawToken (w.now lib)) :
    (w.handle lib (.refresh rawToken)).result = .error invalidRefreshToken := by
  show (AuthService.refresh lib rawToken >>= _).after (system lib) noFaults [] () w
    fun out => out.result = _
  unfold AuthService.refresh
  rw [Prog.bind_assoc]
  have hread : noFaults [] (Call.findOne (hashToken lib rawToken)) = false := rfl
  obtain ⟨calls, w', -, hafter⟩ := after_validate_rejected hread hrejected
  exact hafter.mpr rfl

/-- A refresh of an accepted token returns a pair for its user, if the next two random tokens break
no key. -/
theorem refresh_alone (hfound : w.findOne (hashToken lib rawToken) = some row)
    (hacceptable : row.Acceptable (w.now lib)) (huser : w.users.get row.userId = some user)
    (hfree : w.KeysFree lib 0) (hnext : w.KeysFree lib 1)
    (hnew : hashToken lib (lib.randomBytes (w.drawn + 1)) ≠
      hashToken lib (lib.randomBytes w.drawn)) :
    (w.handle lib (.refresh rawToken)).result =
      .ok (some ⟨lib.sign (claimsOf user), lib.randomBytes w.drawn, 900⟩) := by
  have hid : user.id = row.userId := Table.key_of_get huser
  have hread : (w.reads lib).users.get row.userId = some user := huser
  have hstored : (w.users.get user.id).isSome := by
    rw [hid, huser]
    rfl
  obtain ⟨w₁, hissued⟩ := Option.isSome_iff_exists.mp
    ((issued_isSome_iff lib (w.reads lib) user.id).mpr ⟨hfree, hstored⟩)
  obtain ⟨saved, hsaved, hsave⟩ := exec_issued hissued
  have hrotated : ((w₁.rotated lib row saved.id).issued lib user.id).isSome :=
    (issued_rotated_isSome_iff hissued saved.id).mpr ⟨hnext, hnew⟩
  obtain ⟨w₂, hagain⟩ := Option.isSome_iff_exists.mp hrotated
  obtain ⟨_, -, hsave'⟩ := exec_issued hagain
  have hupdate : exec lib (.update (.id row.id) ⟨w₁.now lib, some saved.id⟩) () (w₁.reads lib) =
      (.ok (), (), w₁.rotated lib row saved.id) := rfl
  show (AuthService.refresh lib rawToken >>= fun pair => Prog.pure (some pair)).after (system lib)
    noFaults [] () w fun out => out.result = _
  unfold AuthService.refresh UserService.findById
  rw [Prog.bind_assoc, after_validate rfl hfound hacceptable, Prog.bind_assoc, Prog.bind_assoc,
    after_done rfl rfl, hread, Prog.require_some, Prog.pure_bind_eq, Prog.bind_assoc, after_rotate,
    after_done rfl hsave, after_now, after_done rfl hupdate]
  unfold TokenService.issueTokenPair
  rw [Prog.bind_assoc, Prog.bind_assoc, after_issue, after_done rfl hsave']
  rfl

end

/-! ## Random tokens -/

/-- The hash is that of a random token that was drawn. -/
def World.HasDrawn (w : World) (lib : Libraries) (tokenHash : String) : Prop :=
  ∃ n < w.drawn, tokenHash = hashToken lib (lib.randomBytes n)

/-- All stored hashes are those of tokens that were drawn. -/
def World.Drawn (w : World) (lib : Libraries) : Prop :=
  ∀ row ∈ w.refreshTokens, w.HasDrawn lib row.tokenHash

section

variable {lib : Libraries} {w w' : World} {tokenHash : String}

theorem World.HasDrawn.mono (hdrawn : w.HasDrawn lib tokenHash) (hle : w.drawn ≤ w'.drawn) :
    w'.HasDrawn lib tokenHash := by
  obtain ⟨n, hn, hhash⟩ := hdrawn
  exact ⟨n, Nat.lt_of_lt_of_le hn hle, hhash⟩

/-- The tokens drawn so far and the next two have different hashes. -/
def World.DistinctDraws (w : World) (lib : Libraries) : Prop :=
  {n | n ≤ w.drawn + 1}.InjOn fun n => hashToken lib (lib.randomBytes n)

/-- The next two tokens break no key. -/
theorem World.Drawn.keysFree (hw : w.Drawn lib) (hchained : w.Chained)
    (hdistinct : w.DistinctDraws lib) {earlier : Nat} (hearlier : earlier ≤ 1) :
    w.KeysFree lib earlier := by
  refine ⟨Table.get_eq_none.mpr fun row hrow => ?_, ?_⟩
  · have hbelow : row.id < w.nextTokenId := hchained.below row hrow
    exact Nat.ne_of_lt (Nat.lt_of_lt_of_le hbelow (Nat.le_add_right _ _))
  · refine Option.eq_none_iff_forall_ne_some.mpr fun row hrow => ?_
    obtain ⟨n, hn, hhash⟩ := hw row (Table.mem_of_first hrow)
    have hdrawn : n ≤ w.drawn + 1 := by omega
    have hnext : w.drawn + earlier ≤ w.drawn + 1 := by omega
    have hsame : n = w.drawn + earlier :=
      hdistinct hdrawn hnext (hhash.symm.trans (World.tokenHash_of_findOne hrow))
    omega

/-- No call takes a draw back. -/
theorem drawn_exec (op : Call) (s : Unit) (w : World) : w.drawn ≤ (exec lib op s w).2.2.drawn := by
  cases op with
  | save token =>
      simp only [exec]
      split
      · next w' hinsert =>
          obtain ⟨-, -, -, rfl⟩ := World.insertToken_eq_some hinsert
          exact le_rfl
      · exact le_rfl
  | saveUser user =>
      simp only [exec]
      split
      · next w' hsaved =>
          obtain ⟨-, rfl⟩ := World.saveUser_eq_some hsaved
          exact le_rfl
      · exact le_rfl
  | insertUser azureOid email displayName =>
      simp only [exec]
      split
      · next w' hsaved =>
          obtain ⟨-, rfl⟩ := World.saveUser_eq_some hsaved
          exact le_rfl
      · exact le_rfl
  | randomBytes => exact Nat.le_succ _
  | _ => exact le_rfl

end

variable {θ : Type}

/-- What every call of a run guarantees about the random tokens. -/
structure Draws (lib : Libraries) (h : History θ) (event : CallEvent θ) : Prop where
  after : TokensAfter event.op h.world event.world
  drawn : h.world.drawn ≤ event.world.drawn
  saves : ∀ token, event.op = .save token → h.world.HasDrawn lib token.tokenHash

/-- The terms about the random tokens. -/
def drawTerms (lib : Libraries) : Contract θ Call Call.Result Failure World where
  init w := w.Drawn lib
  allow _ _ _ _ := True
  guar := Draws lib

/-- The columns of an unused token. -/
def unusedToken (lib : Libraries) (userId : UserId) (rawToken : String) (expiresAt : Date) :
    NewToken :=
  ⟨userId, hashToken lib rawToken, expiresAt, none, none⟩

/-- A request has read the clock and later inserted an unused token for a user, which expires 24
hours after the reading. -/
inductive Issued (lib : Libraries) (i : θ) (userId : UserId) (rawToken : String) (issuedAt : Date)
    (h : History θ) : Prop
  | intro {h₀ h₁ : History θ} {saved : RefreshTokenEntity} {w₀ w₁ : World}
      (read : Past (h₀.snoc ⟨i, .now, .ok issuedAt, w₀⟩) h₁)
      (save : Past (h₁.snoc ⟨i, .save (unusedToken lib userId rawToken (issuedAt + refreshTtlMs)),
        .ok saved, w₁⟩) h)

/-- A request has issued the refresh token of a pair for the user its access token names. -/
def PairIssued (lib : Libraries) (i : θ) (pair : TokenPair) (h : History θ) : Prop :=
  ∃ claims issuedAt, pair.accessToken = lib.sign claims ∧
    Issued lib i claims.sub pair.refreshToken issuedAt h

section

variable {lib : Libraries} {i : θ} {h h' : History θ} {userId : UserId} {rawToken : String}
  {issuedAt : Date} {pair : TokenPair} {α β : Type} {P : α → History θ → Prop}

theorem Issued.mono (hissued : Issued lib i userId rawToken issuedAt h) (hpast : Past h h') :
    Issued lib i userId rawToken issuedAt h' := by
  obtain ⟨read, save⟩ := hissued
  exact ⟨read, save.trans hpast⟩

theorem PairIssued.mono (hissued : PairIssued lib i pair h) (hpast : Past h h') :
    PairIssued lib i pair h' := by
  obtain ⟨claims, issuedAt, haccess, hissued⟩ := hissued
  exact ⟨claims, issuedAt, haccess, hissued.mono hpast⟩

/-- The draws of a past world are among the later ones. -/
theorem drawn_le_of_past (hvalid : (drawTerms lib).Valid h') (hpast : Past h h') :
    h.world.drawn ≤ h'.world.drawn :=
  Steps.related (R := fun w w' => w.drawn ≤ w'.drawn) (fun _ => le_rfl)
    (fun _ _ _ => Nat.le_trans) (hvalid.2.mono fun _ _ hdraws => hdraws.drawn) hpast

/-- All stored hashes are those of tokens that were drawn. -/
theorem drawn_of_valid (hvalid : (drawTerms lib).Valid h) : h.world.Drawn lib := by
  refine hvalid.induction (I := fun h => h.world.Drawn lib) (fun _ hinit => hinit) ?_
  intro h₀ e _ hdrawn hdraws row hrow
  cases hdraws.after with
  | kept tokens _ =>
      change row ∈ e.world.refreshTokens at hrow
      rw [tokens] at hrow
      exact (hdrawn row hrow).mono hdraws.drawn
  | @inserted token save insert =>
      rcases (World.mem_insertToken insert).mp hrow with rfl | hold
      · exact (hdraws.saves token save).mono hdraws.drawn
      · exact (hdrawn row hold).mono hdraws.drawn
  | @updated criteria change update after =>
      change row ∈ e.world.refreshTokens at hrow
      rw [after] at hrow
      obtain ⟨old, hold, rfl⟩ := World.mem_updateTokens.mp hrow
      have hhash : (if criteria.picks old then change.applied old else old).tokenHash =
          old.tokenHash := by
        split
        · rfl
        · rfl
      rw [hhash]
      exact (hdrawn old hold).mono hdraws.drawn

/-- A call, with what follows it when it goes through. -/
theorem wp_draws {op : Call} {next : op.Result → Api α}
    (hsave : ∀ token, op = .save token → h.world.HasDrawn lib token.tokenHash)
    (hnext : ∀ h', Past h h' → ∀ value w', exec lib op () h'.world = (.ok value, (), w') →
      (drawTerms lib).Valid (h'.snoc ⟨i, op, .ok value, w'⟩) →
      wp (system lib) (drawTerms lib) i (next value) () (h'.snoc ⟨i, op, .ok value, w'⟩)
        (OnReturn P)) :
    wp (system lib) (drawTerms lib) i (await op >>= next) () h (OnReturn P) := by
  have hguar : ∀ h', Past h h' → (drawTerms lib).Valid h' → ∀ fails, Draws lib h'
      ⟨i, op, ((system lib).perform fails op () h'.world).1,
        ((system lib).perform fails op () h'.world).2.2⟩ := by
    intro h' hpast hvalid fails
    refine ⟨tokensAfter_perform fails op () h'.world, ?_,
      fun token hop => (hsave token hop).mono (drawn_le_of_past hvalid hpast)⟩
    show h'.world.drawn ≤ ((system lib).perform fails op () h'.world).2.2.drawn
    rcases perform_cases fails op h'.world with hdone | ⟨failure, hfailed⟩
    · rw [hdone]
      exact drawn_exec op () h'.world
    · rw [hfailed]
  refine wp_call_onReturn (fun h' hmean hvalid fails => hguar h' hmean.past hvalid fails) ?_
  intro h' hmean hvalid fails value _ w' hdone
  have hdraws := hguar h' hmean.past hvalid fails
  rw [hdone] at hdraws
  refine hnext h' hmean.past value w' ?_ (Contract.valid_snoc.mpr ⟨hdraws, hvalid⟩)
  rcases perform_cases fails op h'.world with hexec | ⟨failure, hfailed⟩
  · exact hexec.symm.trans hdone
  · rw [hfailed] at hdone
    cases hdone

/-- A program that inserts no token, with what follows it. -/
theorem wp_noSave {program : Api β} {next : β → Api α}
    (hissues : program.Issues fun op => op.isSave = false)
    (hnext : ∀ value h', Past h h' →
      wp (system lib) (drawTerms lib) i (next value) () h' (OnReturn P)) :
    wp (system lib) (drawTerms lib) i (program >>= next) () h (OnReturn P) := by
  have hsafe : Safe (system lib) (drawTerms lib) i program () h := by
    refine safe_of_issues hissues fun op s h₁ fails hop _ _ =>
      ⟨tokensAfter_perform fails op s h₁.world, ?_, fun token hsave => ?_⟩
    · show h₁.world.drawn ≤ ((system lib).perform fails op s h₁.world).2.2.drawn
      rcases perform_cases fails op h₁.world with hdone | ⟨failure, hfailed⟩
      · rw [hdone]
        exact drawn_exec op () h₁.world
      · rw [hfailed]
    · obtain rfl : op = .save token := hsave
      cases hop
  refine wp_bind_onReturn (R := fun _ _ => True) (wp_mono hsafe fun _ _ _ _ _ _ => trivial) ?_
  exact fun value s h₁ hpast _ => hnext value h₁ hpast

/-- `issue` returns the token it has inserted. -/
theorem issue_draws (userId : UserId) :
    wp (system lib) (drawTerms lib) i (issue lib userId refreshTtlMs) () h
      (OnReturn fun rawToken h' => ∃ issuedAt, Issued lib i userId rawToken issuedAt h') := by
  unfold issue
  refine wp_draws (fun _ hop => by cases hop) fun h₁ _ rawToken w₁ hdraw _ => ?_
  cases hdraw
  refine wp_draws (fun _ hop => by cases hop) fun h₂ hpast₂ now w₂ _ hvalid₂ => ?_
  refine wp_draws (fun token hop => ?_) fun h₃ hpast₃ saved w₃ _ _ => .ok ?_
  · cases hop
    have hdrawn := drawn_le_of_past hvalid₂ hpast₂.snoc
    exact ⟨_, Nat.lt_of_lt_of_le (Nat.lt_succ_self _) hdrawn, rfl⟩
  · exact ⟨now, hpast₃, .refl _⟩

/-- `rotate` returns the token it has inserted. -/
theorem rotate_draws (row : RefreshTokenEntity) (userId : UserId) :
    wp (system lib) (drawTerms lib) i (rotate lib row userId refreshTtlMs) () h
      (OnReturn fun rawToken h' => ∃ issuedAt, Issued lib i userId rawToken issuedAt h') := by
  unfold rotate
  refine wp_draws (fun _ hop => by cases hop) fun h₁ _ rawToken w₁ hdraw _ => ?_
  cases hdraw
  refine wp_draws (fun _ hop => by cases hop) fun h₂ hpast₂ now w₂ _ hvalid₂ => ?_
  refine wp_draws (fun token hop => ?_) fun h₃ hpast₃ saved w₃ _ _ => ?_
  · cases hop
    have hdrawn := drawn_le_of_past hvalid₂ hpast₂.snoc
    exact ⟨_, Nat.lt_of_lt_of_le (Nat.lt_succ_self _) hdrawn, rfl⟩
  refine wp_draws (fun _ hop => by cases hop) fun h₄ hpast₄ usedAt w₄ _ _ => ?_
  refine wp_draws (fun _ hop => by cases hop) fun h₅ hpast₅ _ w₅ _ _ => .ok ?_
  exact ⟨now, hpast₃, hpast₄.trans ((past_snoc _ _).trans hpast₅.snoc)⟩

/-- `issueTokenPair` issues the token of the pair it returns. -/
theorem issueTokenPair_draws (user : UserEntity) :
    wp (system lib) (drawTerms lib) i (TokenService.issueTokenPair lib user) () h
      (OnReturn fun pair h' => pair.accessToken = lib.sign (claimsOf user) ∧
        PairIssued lib i pair h') := by
  refine wp_bind_onReturn (issue_draws user.id) fun rawToken s h₁ _ hissued => .ok ⟨rfl, ?_⟩
  obtain ⟨issuedAt, hissued⟩ := hissued
  exact ⟨claimsOf user, issuedAt, rfl, hissued⟩

/-- `signIn` issues the token of the pair it returns. -/
theorem signIn_draws (claims : IdTokenClaims) :
    wp (system lib) (drawTerms lib) i (AuthService.signIn lib claims) () h
      (OnReturn fun pair h' => PairIssued lib i pair h') := by
  unfold AuthService.signIn UserService.upsertFromAzure UserRepository.upsert
  refine wp_noSave (issues_bind (issues_perform rfl) fun found => ?_) fun user h₁ _ => ?_
  · cases found with
    | none => exact issues_perform rfl
    | some existing => exact issues_perform rfl
  · exact wp_mono (issueTokenPair_draws user) fun result s h₂ hmade pair hresult =>
      (hmade pair hresult).2

/-- `exchangeCode` inserts no token. -/
theorem exchangeCode_noSave (code state redirectUri : String) :
    (AzureAdService.exchangeCode code state redirectUri).Issues fun op => op.isSave = false :=
  issues_bind (issues_perform rfl) fun _ => issues_require

/-- `validate` inserts no token. -/
theorem validate_noSave (rawToken : String) :
    (validate lib rawToken).Issues fun op => op.isSave = false := by
  refine issues_bind (issues_perform rfl) fun found => ?_
  refine issues_bind issues_require fun row => ?_
  refine issues_bind issues_throwIf fun _ => ?_
  refine issues_bind (issues_perform rfl) fun now => ?_
  exact issues_bind issues_throwIf fun _ => trivial

/-- `refresh` issues the token of the pair it returns. -/
theorem refresh_draws (rawToken : String) :
    wp (system lib) (drawTerms lib) i (AuthService.refresh lib rawToken) () h
      (OnReturn fun pair h' => PairIssued lib i pair h') := by
  unfold AuthService.refresh
  refine wp_noSave (validate_noSave rawToken) fun row h₁ _ => ?_
  refine wp_noSave (issues_bind (issues_perform rfl) fun _ => issues_require) fun user h₂ _ => ?_
  refine wp_bind_onReturn (rotate_draws row user.id) fun newRawToken s h₃ _ hrotated => ?_
  refine wp_bind_onReturn (issueTokenPair_draws user) fun pair s h₄ hpast₄ hmade => .ok ?_
  obtain ⟨issuedAt, hissued⟩ := hrotated
  exact ⟨claimsOf user, issuedAt, hmade.1, hissued.mono hpast₄⟩

/-- A request has issued the tokens of the pairs it returns. -/
theorem request_draws (request : Request) :
    wp (system lib) (drawTerms lib) i (request.prog lib) () h
      (OnReturn fun returned h' => ∀ pair, returned = some pair → PairIssued lib i pair h') := by
  have hreturn : ∀ {program : Api TokenPair},
      wp (system lib) (drawTerms lib) i program () h
        (OnReturn fun pair h' => PairIssued lib i pair h') →
      wp (system lib) (drawTerms lib) i (program >>= fun pair => Prog.pure (some pair)) () h
        (OnReturn fun returned h' => ∀ pair, returned = some pair → PairIssued lib i pair h') := by
    intro program hprogram
    refine wp_bind_onReturn hprogram fun pair s h₁ _ hissued => .ok fun returned heq => ?_
    cases heq
    exact hissued
  cases request with
  | handleCallback code state =>
      refine hreturn (wp_throwIf_onReturn fun _ => ?_)
      exact wp_noSave (exchangeCode_noSave code state _) fun claims h₁ _ => signIn_draws claims
  | handleMobileExchange code state =>
      refine hreturn (wp_throwIf_onReturn fun _ => ?_)
      refine wp_noSave (issues_attempt (exchangeCode_noSave code state _)) fun outcome h₁ _ => ?_
      cases outcome with
      | ok claims => exact signIn_draws claims
      | error failure => exact .error mobileExchangeFailed
  | refresh rawToken => exact hreturn (refresh_draws rawToken)
  | logout rawToken =>
      refine wp_noSave (issues_bind (issues_perform rfl) fun _ => issues_perform rfl)
        fun _ h₁ _ => .ok fun pair heq => ?_
      cases heq

end

/-! ## The row of a token -/

section

variable {lib : Libraries} {w w' : World} {tokenHash : String} {row : RefreshTokenEntity}

/-- The row of a hash after a call: as it was, or marked by an update. -/
inductive RowAfter (op : Call) (w' : World) (tokenHash : String) (row : RefreshTokenEntity) : Prop
  | kept (found : w'.findOne tokenHash = some row)
  | marked {criteria : Criteria} {change : TokenChange} (update : op = .update criteria change)
      (picks : criteria.picks row = true) (found : w'.findOne tokenHash = some (change.applied row))

/-- Only an update changes the row of a hash. -/
theorem rowAfter_of_after {op : Call} (hafter : TokensAfter op w w')
    (hfound : w.findOne tokenHash = some row) : RowAfter op w' tokenHash row := by
  cases hafter with
  | kept tokens _ =>
      refine .kept ?_
      rw [World.findOne, tokens]
      exact hfound
  | inserted _ insert =>
      refine .kept ?_
      rw [World.findOne_insertToken insert, hfound, Option.some_or]
  | @updated criteria change update after =>
      have hlater : w'.findOne tokenHash =
          some (if criteria.picks row then change.applied row else row) := by
        rw [after, World.findOne_updateTokens, hfound, Option.map_some]
      cases hpicks : criteria.picks row with
      | true =>
          rw [hpicks] at hlater
          exact .marked update hpicks hlater
      | false =>
          rw [hpicks] at hlater
          exact .kept hlater

/-- Users stay stored. -/
theorem isSome_user_exec (op : Call) (s : Unit) {id : UserId} (hstored : (w.users.get id).isSome) :
    ((exec lib op s w).2.2.users.get id).isSome := by
  have hput : ∀ user : UserEntity, ((w.users.put user).get id).isSome := by
    intro user
    rw [Table.get_put]
    split
    · rfl
    · exact hstored
  cases usersAfter_exec lib op s w with
  | kept _ users => rwa [users]
  | saved _ after =>
      obtain ⟨-, hw'⟩ := World.saveUser_eq_some after
      rw [hw']
      exact hput _
  | inserted _ after =>
      obtain ⟨-, hw'⟩ := World.saveUser_eq_some after
      rw [hw']
      exact hput _
  | @set userId isAdmin _ after =>
      have hmodify : (w.setIsAdmin userId isAdmin).users.get id = (w.users.get id).map _ :=
        Table.get_modify (fun user : UserEntity => { user with isAdmin := isAdmin })
          (fun _ => rfl) id
      rw [after, hmodify, Option.isSome_map]
      exact hstored

end

variable [DecidableEq θ] {lib : Libraries} {requests : θ → Request} {rawToken : String}
  {userId : UserId} {expiresAt : Date} {h : History θ} {event : CallEvent θ}

/-- A call that was made in a run of requests. -/
structure MadeIn (lib : Libraries) (requests : θ → Request) (h : History θ) (event : CallEvent θ) :
    Prop where
  valid : (chainTerms lib requests).Valid h
  keeps : Keeps lib requests h event
  made : Made (system lib) (fun _ _ _ _ => True) h event

/-- The row of a token is that of its user, expires at its time and is unused until a refresh or a
logout marks it. -/
def Live (lib : Libraries) (requests : θ → Request) (rawToken : String) (userId : UserId)
    (expiresAt : Date) (h : History θ) : Prop :=
  ∃ row, h.world.findOne (hashToken lib rawToken) = some row ∧ row.userId = userId ∧
    row.expiresAt = expiresAt ∧ (row.usedAt ≠ none → Consumed lib requests rawToken h)

omit [DecidableEq θ] in
/-- A stored token that is consumed stays consumed. -/
theorem Consumed.snoc {row : RefreshTokenEntity} (hconsumed : Consumed lib requests rawToken h)
    (hfound : h.world.findOne (hashToken lib rawToken) = some row) (event : CallEvent θ) :
    Consumed lib requests rawToken (h.snoc event) := by
  cases hconsumed with
  | refreshed request update => exact .refreshed request update.snoc
  | loggedOut request stored update =>
      refine .loggedOut request (fun hnone => ?_) update.snoc
      cases hfound.symm.trans (stored hnone)

/-- No request presents another token with the hash of this one. -/
def Unmistaken (lib : Libraries) (requests : θ → Request) (rawToken : String) : Prop :=
  ∀ i presented, (requests i).presented = some presented →
    hashToken lib rawToken = hashToken lib presented → rawToken = presented

/-- An update that picks the row of a token is that of a refresh or a logout of this token. -/
theorem consumed_of_update {i : θ} {criteria : Criteria} {change : TokenChange} {w : World}
    {row : RefreshTokenEntity} (hunmistaken : Unmistaken lib requests rawToken)
    (hvalid : (chainTerms lib requests).Valid h)
    (hmarks : Marks lib h (requests i) criteria change) (hpicks : criteria.picks row = true)
    (hfound : h.world.findOne (hashToken lib rawToken) = some row) :
    Consumed lib requests rawToken (h.snoc ⟨i, .update criteria change, .ok (), w⟩) := by
  have hhash : row.tokenHash = hashToken lib rawToken := World.tokenHash_of_findOne hfound
  generalize hrequest : requests i = request at hmarks
  cases hmarks with
  | @logout presented usedAt =>
      have hpicked : row.tokenHash = hashToken lib presented := of_decide_eq_true hpicks
      obtain rfl : rawToken = presented := hunmistaken i presented
        (congrArg Request.presented hrequest) (hhash.symm.trans hpicked)
      refine .loggedOut hrequest (fun hnone => ?_) (.refl _)
      cases hfound.symm.trans hnone
  | @refresh presented usedAt h₀ read next found past =>
      have hpicked : row.id = read.id := of_decide_eq_true hpicks
      obtain ⟨read', hread', hid, -⟩ := ages_since hvalid past read found
      obtain rfl : row = read' := Table.eq_of_key (Table.mem_of_first hfound)
        (Table.mem_of_first hread') (hpicked.trans hid.symm)
      obtain rfl : rawToken = presented := hunmistaken i presented
        (congrArg Request.presented hrequest)
        (hhash.symm.trans (World.tokenHash_of_findOne hread'))
      exact .refreshed hrequest (.refl _)

/-- Every call of a run keeps it that way. -/
theorem Live.snoc (hunmistaken : Unmistaken lib requests rawToken)
    (hlive : Live lib requests rawToken userId expiresAt h) (hmade : MadeIn lib requests h event) :
    Live lib requests rawToken userId expiresAt (h.snoc event) := by
  obtain ⟨row, hfound, howner, hexpires, hused⟩ := hlive
  obtain ⟨i, op, result, w⟩ := event
  obtain ⟨hvalid, hkeeps, fails, _, _, -, hperform⟩ := hmade
  rcases perform_cases fails op h.world with hdone | ⟨failure, hfailed⟩
  · have hexec : exec lib op () h.world = (result, (), w) := hdone.symm.trans hperform
    have hafter := tokensAfter_exec lib op () h.world
    rw [hexec] at hafter
    cases rowAfter_of_after hafter hfound with
    | kept found =>
        exact ⟨row, found, howner, hexpires, fun hrow => (hused hrow).snoc hfound _⟩
    | @marked criteria change update picks found =>
        subst update
        cases hexec
        refine ⟨_, found, howner, hexpires, fun _ => ?_⟩
        exact consumed_of_update hunmistaken hvalid (hkeeps.marks criteria change rfl) picks hfound
  · have hkept : h.world = w := congrArg (·.2.2) (hfailed.symm.trans hperform)
    refine ⟨row, ?_, howner, hexpires, fun hrow => (hused hrow).snoc hfound _⟩
    show w.findOne _ = _
    rw [← hkept]
    exact hfound

omit [DecidableEq θ] in
/-- An insert that went through has found its user, and the row of its token is live. -/
theorem live_of_saved (requests : θ → Request) {i : θ} {saved : RefreshTokenEntity} {w : World}
    (hmade : Made (system lib) (fun _ _ _ _ => True) h
      ⟨i, .save (unusedToken lib userId rawToken expiresAt), .ok saved, w⟩) :
    (h.world.users.get userId).isSome ∧ Live lib requests rawToken userId expiresAt
      (h.snoc ⟨i, .save (unusedToken lib userId rawToken expiresAt), .ok saved, w⟩) := by
  obtain ⟨fails, _, _, -, hperform⟩ := hmade
  let token : NewToken := unusedToken lib userId rawToken expiresAt
  have hexec : exec lib (.save token) () h.world = (.ok saved, (), w) := by
    rcases perform_cases fails (.save token) h.world with hdone | ⟨failure, hfailed⟩
    · exact hdone.symm.trans hperform
    · cases hfailed.symm.trans hperform
  simp only [exec] at hexec
  split at hexec
  · next w' hinsert =>
      cases hexec
      obtain ⟨-, hnone, hstored, -⟩ := World.insertToken_eq_some hinsert
      have hfound : w.findOne token.tokenHash = some (h.world.newRow token) := by
        rw [World.findOne_insertToken hinsert, hnone, Option.none_or, if_pos rfl]
      exact ⟨hstored, _, hfound, rfl, rfl, fun hused => (hused rfl).elim⟩
  · cases hexec

omit [DecidableEq θ] in
/-- The users of a past world are still stored. -/
theorem isSome_user_of_past (hmade : h.Steps (Made (system lib) fun _ _ _ _ => True))
    {h₀ : History θ} (hpast : Past h₀ h) (hstored : (h₀.world.users.get userId).isSome) :
    (h.world.users.get userId).isSome := by
  refine Steps.since (I := fun h => (h.world.users.get userId).isSome) hmade hpast hstored ?_
  intro h₁ e hstored hmade
  obtain ⟨fails, _, _, -, hperform⟩ := hmade
  have hworld : ((system lib).perform fails e.op () h₁.world).2.2 = e.world :=
    congrArg (·.2.2) hperform
  show (e.world.users.get userId).isSome
  rw [← hworld]
  rcases perform_cases fails e.op h₁.world with hdone | ⟨failure, hfailed⟩
  · rw [hdone]
    exact isSome_user_exec e.op () hstored
  · rw [hfailed]
    exact hstored

/-! ## Every run -/

/-- A request has read the clock. -/
def ReadClock (i : θ) (moment : Date) (h : History θ) : Prop :=
  ∃ (h₀ : History θ) (w : World), Past (h₀.snoc ⟨i, .now, .ok moment, w⟩) h

/-- A refresh with the token that runs alone returns a pair for the user, until a refresh or a
logout has marked the token or it is expired. -/
structure WorksUntil (lib : Libraries) (requests : θ → Request) (rawToken : String)
    (userId : UserId) (expiresAt : Date) (h : History θ) : Prop where
  works : ¬ Consumed lib requests rawToken h → ¬ expiresAt < h.world.now lib →
    ∃ user ∈ h.world.users, user.id = userId ∧
      (h.world.handle lib (.refresh rawToken)).result =
        .ok (some ⟨lib.sign (claimsOf user), lib.randomBytes h.world.drawn, 900⟩)
  rejected : Consumed lib requests rawToken h ∨ expiresAt < h.world.now lib →
    (h.world.handle lib (.refresh rawToken)).result = .error invalidRefreshToken

/-- A live row makes its token work. -/
theorem Live.worksUntil (hdistinct : h.world.DistinctDraws lib)
    (hlive : Live lib requests rawToken userId expiresAt h)
    (hvalid : (chainTerms lib requests).Valid h)
    (hmade : h.Steps (Made (system lib) fun _ _ _ _ => True)) (hdrawn : h.world.Drawn lib)
    (hstored : (h.world.users.get userId).isSome) :
    WorksUntil lib requests rawToken userId expiresAt h := by
  obtain ⟨row, hfound, rfl, rfl, hused⟩ := hlive
  constructor
  · intro hconsumed hexpired
    obtain ⟨user, huser⟩ := Option.isSome_iff_exists.mp hstored
    have hunused : row.usedAt = none := not_not.mp fun hrow => hconsumed (hused hrow)
    have hfree := hdrawn.keysFree (chained_of_valid hvalid) hdistinct zero_le_one
    have hnext := hdrawn.keysFree (chained_of_valid hvalid) hdistinct le_rfl
    have hnew : hashToken lib (lib.randomBytes (h.world.drawn + 1)) ≠
        hashToken lib (lib.randomBytes h.world.drawn) :=
      fun hsame => Nat.succ_ne_self _ (hdistinct (Nat.le_refl _) (Nat.le_succ _) hsame)
    exact ⟨user, Table.mem_of_get huser, Table.key_of_get huser,
      refresh_alone hfound ⟨hunused, hexpired⟩ huser hfree hnext hnew⟩
  · intro hended
    refine refresh_alone_rejected fun haccepts => ?_
    obtain ⟨row', hfound', hacceptable⟩ := haccepts
    obtain rfl : row = row' := Option.some.inj (hfound.symm.trans hfound')
    rcases hended with hconsumed | hexpired
    · exact hconsumed.used hvalid hmade hfound hacceptable.1
    · exact hacceptable.2 hexpired

/-- The raw tokens of a run: those that a request presents, those that were returned, and those
that were drawn or are the next two to be drawn. -/
def rawTokensOf (lib : Libraries) (requests : θ → Request) (c : Serving θ) : Set String :=
  {rawToken | (∃ i, (requests i).presented = some rawToken) ∨
    (∃ i pair, c.resultOf i = some (.ok (some pair)) ∧ rawToken = pair.refreshToken) ∨
    ∃ n ≤ c.trace.world.drawn + 1, rawToken = lib.randomBytes n}

/-- In every interleaving in which no two tokens have one hash, with any calls failing, the refresh
token of a returned pair works for the user its access token names, for 24 hours from a reading of
the clock by its request, until a refresh or a logout that presents it marks it. -/
theorem refresh_tokens_last {w : World} (hw : w.Chained) (hdrawn : w.Drawn lib) {c : Serving θ}
    (hreach : Reach (system lib) (fun _ _ _ _ => True) (w.serve lib requests) c)
    (hhashes : (rawTokensOf lib requests c).InjOn (hashToken lib))
    (hdraws : {n | n ≤ c.trace.world.drawn + 1}.InjOn lib.randomBytes) {i : θ} {pair : TokenPair}
    (hresult : c.resultOf i = some (.ok (some pair))) :
    ∃ claims issuedAt, pair.accessToken = lib.sign claims ∧ ReadClock i issuedAt c.trace ∧
      WorksUntil lib requests pair.refreshToken claims.sub (issuedAt + refreshTtlMs) c.trace := by
  have hdistinct : c.trace.world.DistinctDraws lib :=
    hhashes.comp hdraws fun n hn => .inr (.inr ⟨n, hn, rfl⟩)
  have hunmistaken : Unmistaken lib requests pair.refreshToken :=
    fun j presented hpresented hhash => hhashes (.inr (.inl ⟨i, pair, hresult, rfl⟩)) (.inl ⟨j, hpresented⟩) hhash
  have hvalid : (chainTerms lib requests).Valid c.trace :=
    Contract.guaranteed (C := chainTerms lib requests) hreach rfl hw fun i => request_safe rfl
  have hwp : ∀ i, wp (system lib) (drawTerms lib) i ((requests i).prog lib) () ⟨w, []⟩
      (OnReturn fun returned h => ∀ pair, returned = some pair → PairIssued lib i pair h) :=
    fun i => request_draws (requests i)
  have hstable : ∀ i (result : Except Failure (Option TokenPair)) (s : Unit) (h : History θ) e,
      e.tid ≠ i → Draws lib h e →
      OnReturn (fun returned h => ∀ pair, returned = some pair → PairIssued lib i pair h) result s
        h →
      OnReturn (fun returned h => ∀ pair, returned = some pair → PairIssued lib i pair h) result s
        (h.snoc e) :=
    fun i result s h e _ _ hreturned => hreturned.snoc fun _ hissued pair heq =>
      (hissued pair heq).mono (past_snoc h e)
  have hdrawn' : c.trace.world.Drawn lib := drawn_of_valid
    (Contract.sound (C := drawTerms lib) hreach rfl hdrawn hstable hwp).1
  obtain ⟨claims, issuedAt, haccess, hissued⟩ :=
    Contract.result_post (C := drawTerms lib) hreach rfl hdrawn hstable hwp hresult (some pair) rfl
      pair rfl
  obtain @⟨h₀, h₁, saved, w₀, w₁, read, save⟩ := hissued
  have hsteps : c.trace.Steps (MadeIn lib requests) := fun later event earlier he =>
    ⟨hvalid.past (past_of_events he), hvalid.2 later event earlier he,
      hreach.made later event earlier he⟩
  have hsaved := live_of_saved requests (hreach.made.of_past save)
  have hpast : Past h₁ c.trace := (past_snoc _ _).trans save
  have hstored := isSome_user_of_past hreach.made hpast hsaved.1
  have hlive : Live lib requests pair.refreshToken claims.sub (issuedAt + refreshTtlMs) c.trace :=
    Steps.since (I := Live lib requests pair.refreshToken claims.sub (issuedAt + refreshTtlMs))
      hsteps save hsaved.2 fun h e hlive hmade => hlive.snoc hunmistaken hmade
  exact ⟨claims, issuedAt, haccess, ⟨h₀, w₀, read.trans hpast⟩,
    hlive.worksUntil hdistinct hvalid hreach.made hdrawn' hstored⟩

/-- `mario` signs in beside two refreshes; the token of the login works until one of them has
marked it. -/
theorem refresh_tokens_last_login :
    ∃ c : Serving (Fin 3), c.resultOf 0 = some (.ok (some (pairFor "x"))) ∧
      ∃ claims issuedAt, (pairFor "x").accessToken = plainLibraries.sign claims ∧
        ReadClock 0 issuedAt c.trace ∧
          WorksUntil plainLibraries loginThenRefreshes "x" claims.sub (issuedAt + refreshTtlMs)
            c.trace := by
  obtain ⟨c, hreach, hresult⟩ := Reach.exists_of_execute (system plainLibraries)
    (fun _ _ _ _ => True) (nobody.serve plainLibraries loginThenRefreshes)
    (.replicate 6 (0, false) ++ .replicate 3 (1, false))
    (fun c => c.resultOf 0 = some (.ok (some (pairFor "x")))) (by decide)
  have hnone : ∀ row, row ∉ nobody.refreshTokens := fun row hrow => by cases hrow
  have hchained : nobody.Chained := ⟨fun row hrow => absurd hrow (hnone row),
    fun row hrow => absurd hrow (hnone row)⟩
  exact ⟨c, of_decide_eq_true hresult, refresh_tokens_last hchained
    (fun row hrow => absurd hrow (hnone row)) hreach plainLibraries_sha256_injective.injOn
    plainLibraries_randomBytes_injective.injOn (of_decide_eq_true hresult)⟩

end FoosballApi.Auth
