import FoosballApi.Auth.SingleUse
import FoosballApi.Auth.Requests
import FoosballApi.Data.Links

/-!
# Used tokens stay used

Logins, refreshes and logouts of any users, in any interleaving. No statement clears `used_at`, and
`rotate` makes a row point to one that was inserted after it for the same user, so the rows of
`refresh_tokens` form chains that end. A refresh that reads the row of its token after a refresh or
a logout has marked it is rejected at once.

`World.Chained` is the invariant of the rows, `Marks` what a request may update, and `Keeps` what
every call of a run guarantees.
-/

namespace FoosballApi.Auth

open Calls Data Prog Trace RefreshTokenService Relation
open Matches (Date Failure)

variable {θ : Type}

/-- A refresh or a logout of the token has marked its row. A logout of a token that is not stored
marks no row. -/
inductive Consumed (lib : Libraries) (requests : θ → Request) (rawToken : String) (h : History θ) :
    Prop
  | refreshed {j : θ} {h₀ : History θ} {criteria : Criteria} {change : TokenChange} {w : World}
      (request : requests j = .refresh rawToken)
      (update : Past (h₀.snoc ⟨j, .update criteria change, .ok (), w⟩) h)
  | loggedOut {j : θ} {h₀ : History θ} {criteria : Criteria} {change : TokenChange} {w : World}
      (request : requests j = .logout rawToken)
      (stored : h₀.world.findOne (hashToken lib rawToken) = none →
        h.world.findOne (hashToken lib rawToken) = none)
      (update : Past (h₀.snoc ⟨j, .update criteria change, .ok (), w⟩) h)

/-- The row that replaces another. -/
def World.Replaces (w : World) : RefreshTokenEntity → RefreshTokenEntity → Prop :=
  w.refreshTokens.Succeeds (·.replacedBy)

/-- What holds of the tokens in every state of a run. -/
structure UsedStay [DecidableEq θ] (lib : Libraries) (requests : θ → Request) (c : Serving θ) :
    Prop where
  /-- A used row is used in every later state. -/
  used : ∀ h₀ h₁, Past h₀ h₁ → Past h₁ c.trace → ∀ r ∈ h₀.world.refreshTokens, r.usedAt ≠ none →
    ∃ r' ∈ h₁.world.refreshTokens, r'.id = r.id ∧ r'.usedAt ≠ none
  /-- A row is replaced by a later one of the same user. -/
  replaced : ∀ r ∈ c.trace.world.refreshTokens, ∀ s, r.replacedBy = some s →
    ∃ next ∈ c.trace.world.refreshTokens, next.id = s ∧ r.id < s ∧ next.userId = r.userId
  /-- The rows that replace a row, one after another, are later ones of the same user. -/
  chain : ∀ r ∈ c.trace.world.refreshTokens, ∀ next, TransGen c.trace.world.Replaces r next →
    r.id < next.id ∧ next.userId = r.userId
  /-- The chain of every row ends. -/
  ends : ∀ r ∈ c.trace.world.refreshTokens, ∃ last ∈ c.trace.world.refreshTokens,
    ReflTransGen c.trace.world.Replaces r last ∧ last.replacedBy = none
  /-- A refresh that reads the row of a consumed token throws, and the read is its only call. -/
  rejected : ∀ i rawToken, requests i = .refresh rawToken → ∀ h found w,
    Past (h.snoc ⟨i, .findOne (hashToken lib rawToken), .ok found, w⟩) c.trace →
    Consumed lib requests rawToken h →
    c.resultOf i = some (.error invalidRefreshToken) ∧
      c.trace.madeBy i = [⟨i, .findOne (hashToken lib rawToken), .ok found, w⟩]

/-! ## The rows -/

namespace World

variable {w w' : World}

/-- The ids of the rows are below the next one, and the rows that replace others form chains. -/
structure Chained (w : World) : Prop where
  below : ∀ r ∈ w.refreshTokens, r.id < w.nextTokenId
  links : w.refreshTokens.Ascending (·.replacedBy) (·.userId)

/-- Every row is still there later on, for the same user, and used if it was. -/
def Persists (w w' : World) : Prop :=
  ∀ r ∈ w.refreshTokens, ∃ r' ∈ w'.refreshTokens,
    r'.id = r.id ∧ r'.userId = r.userId ∧ (r.usedAt ≠ none → r'.usedAt ≠ none)

theorem Persists.refl (w : World) : w.Persists w := fun r hr => ⟨r, hr, rfl, rfl, id⟩

theorem Persists.trans {w₁ w₂ w₃ : World} (h : w₁.Persists w₂) (h' : w₂.Persists w₃) :
    w₁.Persists w₃ := by
  intro r hr
  obtain ⟨r₂, hr₂, hid₂, huser₂, hused₂⟩ := h r hr
  obtain ⟨r₃, hr₃, hid₃, huser₃, hused₃⟩ := h' r₂ hr₂
  exact ⟨r₃, hr₃, hid₃.trans hid₂, huser₃.trans huser₂, hused₃ ∘ hused₂⟩

/-- No call loses a row or makes it unused. -/
theorem persists_of_after {op : Call} (hafter : TokensAfter op w w') : w.Persists w' := by
  intro r hr
  cases hafter with
  | kept tokens _ => exact ⟨r, by rwa [tokens], rfl, rfl, id⟩
  | inserted _ insert => exact ⟨r, (mem_insertToken insert).mpr (.inr hr), rfl, rfl, id⟩
  | updated _ after =>
      subst after
      refine ⟨_, mem_updateTokens.mpr ⟨r, hr, rfl⟩, ?_⟩
      split
      · exact ⟨rfl, rfl, fun _ => Option.some_ne_none _⟩
      · exact ⟨rfl, rfl, id⟩

/-- An update that makes rows point to a row points to a later one of the same user. -/
def Admits (w : World) (criteria : Criteria) (change : TokenChange) : Prop :=
  ∀ s, change.replacedBy = some s → ∀ r ∈ w.refreshTokens, criteria.picks r →
    ∃ next ∈ w.refreshTokens, next.id = s ∧ r.id < next.id ∧ next.userId = r.userId

/-- Inserts and such updates keep the chains. -/
theorem Chained.after {op : Call} (hw : w.Chained) (hafter : TokensAfter op w w')
    (hsave : ∀ token, op = .save token → token.replacedBy = none)
    (hadmits : ∀ criteria change, op = .update criteria change → w.Admits criteria change) :
    w'.Chained := by
  cases hafter with
  | kept tokens nextId =>
      exact ⟨by rw [tokens, nextId]; exact hw.below, by rw [tokens]; exact hw.links⟩
  | inserted save insert =>
      have hmem := fun r => mem_insertToken insert (r := r)
      obtain ⟨hnew, -, -, rfl⟩ := insertToken_eq_some insert
      refine ⟨fun r hr => ?_, hw.links.put hnew (hsave _ save)⟩
      rcases (hmem r).mp hr with rfl | hr
      · exact Nat.lt_succ_self _
      · exact Nat.lt_succ_of_lt (hw.below r hr)
  | @updated criteria change update after =>
      subst after
      refine ⟨fun r hr => ?_, hw.links.modify change.applied (fun _ => rfl) (fun _ => rfl)
        fun r hr hpicks s hs => ?_⟩
      · obtain ⟨old, hold, rfl⟩ := mem_updateTokens.mp hr
        split
        · exact hw.below old hold
        · exact hw.below old hold
      · rcases Option.or_eq_some_iff.mp hs with hchange | ⟨-, hkept⟩
        · exact .inr (hadmits _ _ update s hchange r hr hpicks)
        · exact .inl hkept

end World

/-! ## What a run guarantees -/

variable [DecidableEq θ] {lib : Libraries} {requests : θ → Request} {i : θ} {h h' : History θ}

/-- The updates of a request: a logout marks the row of its token, a refresh makes a row that it has
found for its token point to a stored, later row of the same user. -/
inductive Marks (lib : Libraries) (h : History θ) : Request → Criteria → TokenChange → Prop
  | logout {rawToken : String} {usedAt : Date} :
      Marks lib h (.logout rawToken) (.tokenHash (hashToken lib rawToken)) ⟨usedAt, none⟩
  | refresh {rawToken : String} {usedAt : Date} {h₀ : History θ}
      {r next : RefreshTokenEntity} (found : h₀.world.findOne (hashToken lib rawToken) = some r)
      (past : Past h₀ h) (stored : next ∈ h.world.refreshTokens) (later : r.id < next.id)
      (owner : next.userId = r.userId) :
      Marks lib h (.refresh rawToken) (.id r.id) ⟨usedAt, some next.id⟩

/-- What every call of a run guarantees. -/
structure Keeps (lib : Libraries) (requests : θ → Request) (h : History θ) (event : CallEvent θ) :
    Prop where
  after : TokensAfter event.op h.world event.world
  saves : ∀ token, event.op = .save token → token.replacedBy = none
  marks : ∀ criteria change, event.op = .update criteria change →
    Marks lib h (requests event.tid) criteria change
  first : ∀ tokenHash, event.op = .findOne tokenHash → h.madeBy event.tid = []

/-- The terms of a run: the rows form chains at the start. -/
def chainTerms (lib : Libraries) (requests : θ → Request) :
    Contract θ Call Call.Result Failure World where
  init := World.Chained
  allow _ _ _ _ := True
  guar := Keeps lib requests

variable (hvalid : (chainTerms lib requests).Valid h)

include hvalid

/-- The rows of a past world are still there. -/
theorem persists_of_past {h₀ : History θ} (hpast : Past h₀ h) : h₀.world.Persists h.world :=
  Steps.related World.Persists.refl (fun _ _ _ => World.Persists.trans)
    (hvalid.2.mono fun _ _ hkeeps => World.persists_of_after hkeeps.after) hpast

/-- The row of a hash in a past world is still the row of that hash. -/
theorem ages_since {tokenHash : String} {h₀ : History θ} (hpast : Past h₀ h) :
    h₀.world.Ages tokenHash h.world :=
  Steps.related World.Ages.refl (fun _ _ _ => World.Ages.trans)
    (hvalid.2.mono fun _ _ hkeeps => World.ages_of_after hkeeps.after) hpast

/-- A request makes rows point to later ones of the same user. -/
theorem Marks.admits {request : Request} {criteria : Criteria} {change : TokenChange}
    (hmarks : Marks lib h request criteria change) : h.world.Admits criteria change := by
  intro s hs r hr hpicks
  cases hmarks with
  | logout => cases hs
  | @refresh _ _ h₀ r₀ next found past stored later owner =>
      -- The row that was found is still stored, so it is the one that the update picks.
      obtain ⟨r', hr', hid, huser, -⟩ := persists_of_past hvalid past r₀ (Table.mem_of_first found)
      have hsame : r = r' := Table.eq_of_key hr hr' ((of_decide_eq_true hpicks).trans hid.symm)
      cases hs
      refine ⟨next, stored, rfl, ?_, ?_⟩
      · rw [hsame, hid]
        exact later
      · rw [hsame, huser, owner]

omit hvalid in
/-- The rows always form chains. -/
theorem chained_of_valid (hvalid : (chainTerms lib requests).Valid h) : h.world.Chained := by
  refine hvalid.induction (I := fun h => h.world.Chained) ?_ fun h₀ e hvalid₀ hchained hkeeps => ?_
  · exact fun _ hinit => hinit
  · exact hchained.after hkeeps.after hkeeps.saves fun criteria change hop =>
      (hkeeps.marks criteria change hop).admits hvalid₀

omit hvalid

/-! ## The requests keep the terms -/

/-- Failed or not, a call does to the tokens what its kind allows. -/
theorem tokensAfter_perform (fails : Bool) (op : Call) (s : Unit) (w : World) :
    TokensAfter op w ((system lib).perform fails op s w).2.2 := by
  rcases perform_cases fails op w with hperform | ⟨failure, hperform⟩
  · rw [hperform]
    exact tokensAfter_exec lib op s w
  · rw [hperform]
    exact .kept rfl rfl

/-- A call that reads no token and changes none keeps the terms. -/
theorem issuing_keeps {op : Call} (hop : op.Issuing) (s : Unit) (h : History θ) (fails : Bool) :
    Keeps lib requests h ⟨i, op, ((system lib).perform fails op s h.world).1,
      ((system lib).perform fails op s h.world).2.2⟩ := by
  refine ⟨tokensAfter_perform fails op s h.world, fun token hsave => ?_,
    fun criteria change hupdate => ?_, fun tokenHash hfind => ?_⟩
  · cases hsave
    exact hop
  · cases hupdate
    exact hop.elim
  · cases hfind
    exact hop.elim

/-- A program of such calls keeps the terms. -/
theorem safe_of_issuing {α : Type} {program : Api α} (hprogram : program.Issues Call.Issuing) :
    Safe (system lib) (chainTerms lib requests) i program () h :=
  safe_of_issues hprogram fun _ s h' fails hop _ _ => issuing_keeps hop s h' fails

/-- A call that keeps the terms, with what follows it when it goes through. -/
theorem safe_call {α : Type} {op : Call} {next : op.Result → Api α}
    (hkeeps : ∀ h', Past h h' → h'.madeBy i = h.madeBy i → (chainTerms lib requests).Valid h' →
      ∀ fails, Keeps lib requests h' ⟨i, op, ((system lib).perform fails op () h'.world).1,
        ((system lib).perform fails op () h'.world).2.2⟩)
    (hnext : ∀ h' value w', Past h h' → (chainTerms lib requests).Valid h' →
      exec lib op () h'.world = (.ok value, (), w') →
      Safe (system lib) (chainTerms lib requests) i (next value) ()
        (h'.snoc ⟨i, op, .ok value, w'⟩)) :
    Safe (system lib) (chainTerms lib requests) i (await op >>= next) () h := by
  refine wp_perform_bind fun h' hmean hvalid fails _ => ?_
  refine ⟨hkeeps h' hmean.past hmean.madeBy hvalid fails, ?_⟩
  rcases perform_cases fails op h'.world with hperform | ⟨failure, hperform⟩ <;> rw [hperform]
  · rcases hexec : exec lib op () h'.world with ⟨result, s', w'⟩
    cases result with
    | ok value => exact hnext h' value w' hmean.past hvalid hexec
    | error failure => trivial
  · trivial

/-- A call that reads no token and changes none, with what follows it. -/
theorem safe_issuing {α : Type} {op : Call} {next : op.Result → Api α} (hop : op.Issuing)
    (hnext : ∀ h' value w', Past h h' → (chainTerms lib requests).Valid h' →
      exec lib op () h'.world = (.ok value, (), w') →
      Safe (system lib) (chainTerms lib requests) i (next value) ()
        (h'.snoc ⟨i, op, .ok value, w'⟩)) :
    Safe (system lib) (chainTerms lib requests) i (await op >>= next) () h :=
  safe_call (fun h' _ _ _ fails => issuing_keeps hop () h' fails) hnext

/-- A lookup that is the first call of a request keeps the terms. -/
theorem findOne_keeps {tokenHash : String} (hfirst : h.madeBy i = []) (fails : Bool) :
    Keeps lib requests h
      ⟨i, .findOne tokenHash, ((system lib).perform fails (.findOne tokenHash) () h.world).1,
        ((system lib).perform fails (.findOne tokenHash) () h.world).2.2⟩ := by
  refine ⟨tokensAfter_perform fails _ _ _, fun token hsave => ?_,
    fun criteria change hupdate => ?_, fun _ _ => hfirst⟩
  · cases hsave
  · cases hupdate

/-- An update that a request may make keeps the terms. -/
theorem update_keeps {criteria : Criteria} {change : TokenChange}
    (hmarks : Marks lib h (requests i) criteria change) (fails : Bool) :
    Keeps lib requests h
      ⟨i, .update criteria change,
        ((system lib).perform fails (.update criteria change) () h.world).1,
        ((system lib).perform fails (.update criteria change) () h.world).2.2⟩ := by
  refine ⟨tokensAfter_perform fails _ _ _, fun token hsave => ?_,
    fun criteria change hupdate => ?_, fun tokenHash hfind => ?_⟩
  · cases hsave
  · cases hupdate
    exact hmarks
  · cases hfind

/-- `rotate` makes the row that was found point to the row it has inserted. -/
theorem rotate_safe {α : Type} {rawToken : String} {ttlMs : Nat} {h₀ : History θ}
    {r : RefreshTokenEntity} {next : String → Api α} (hrequest : requests i = .refresh rawToken)
    (hfound : h₀.world.findOne (hashToken lib rawToken) = some r) (hpast : Past h₀ h)
    (hnext : ∀ newRawToken, (next newRawToken).Issues Call.Issuing) :
    Safe (system lib) (chainTerms lib requests) i (rotate lib r r.userId ttlMs >>= next) () h := by
  unfold rotate
  rw [Prog.bind_assoc]
  refine safe_issuing trivial fun h₁ newRawToken w₁ hpast₁ _ _ => ?_
  rw [Prog.bind_assoc]
  refine safe_issuing trivial fun h₂ now w₂ hpast₂ _ _ => ?_
  rw [Prog.bind_assoc]
  refine safe_issuing rfl fun h₃ saved w₃ hpast₃ hvalid₃ hsave => ?_
  -- The new row is a later one than the row that was found, and is stored for its user.
  have hpast₀₃ : Past h₀ h₃ :=
    hpast.trans (hpast₁.trans ((past_snoc _ _).trans (hpast₂.trans ((past_snoc _ _).trans hpast₃))))
  obtain ⟨r', hr', hid, -, -⟩ := persists_of_past hvalid₃ hpast₀₃ r (Table.mem_of_first hfound)
  have hlater : r.id < h₃.world.nextTokenId := hid ▸ (chained_of_valid hvalid₃).below r' hr'
  obtain ⟨hsaved, hstored⟩ : saved = h₃.world.newRow ⟨r.userId, hashToken lib newRawToken,
      now + ttlMs, none, none⟩ ∧ saved ∈ w₃.refreshTokens := by
    simp only [exec] at hsave
    split at hsave
    · next hinsert =>
        cases hsave
        exact ⟨rfl, (World.mem_insertToken hinsert).mpr (.inl rfl)⟩
    · cases hsave
  rw [Prog.bind_assoc]
  refine safe_issuing trivial fun h₄ usedAt w₄ hpast₄ _ _ => ?_
  rw [Prog.bind_assoc]
  refine safe_call (fun h₅ hpast₅ _ hvalid₅ fails => ?_) fun h₅ _ w₅ _ _ _ => ?_
  · have hpast₃₅ := hpast₄.trans ((past_snoc _ _).trans hpast₅)
    obtain ⟨saved', hstored', hid', huser', -⟩ := persists_of_past hvalid₅ hpast₃₅ saved hstored
    refine update_keeps ?_ fails
    rw [hrequest, ← hid']
    refine .refresh hfound (hpast₀₃.trans ((past_snoc _ _).trans hpast₃₅)) hstored' ?_ ?_
    · rw [hid', hsaved]
      exact hlater
    · rw [huser', hsaved]
      rfl
  · exact safe_of_issuing (hnext newRawToken)

/-- A refresh keeps the terms. -/
theorem refresh_safe {rawToken : String} (hrequest : requests i = .refresh rawToken)
    (hstart : h.madeBy i = []) :
    Safe (system lib) (chainTerms lib requests) i (AuthService.refresh lib rawToken) () h := by
  unfold AuthService.refresh validate
  rw [Prog.bind_assoc]
  refine safe_call (fun h₀ _ hmade _ fails => findOne_keeps (hmade.trans hstart) fails)
    fun h₀ found w₀ _ _ hread => ?_
  cases hread
  rw [Prog.bind_assoc]
  refine safe_require fun r hfound => ?_
  rw [Prog.bind_assoc]
  refine safe_throwIf fun _ => ?_
  rw [Prog.bind_assoc]
  refine safe_issuing trivial fun h₁ now w₁ hpast₁ _ _ => ?_
  rw [Prog.bind_assoc]
  refine safe_throwIf fun _ => ?_
  rw [Prog.pure_eq, Prog.pure_bind_eq]
  unfold UserService.findById
  rw [Prog.bind_assoc]
  refine safe_issuing trivial fun h₂ user w₂ hpast₂ _ huser => ?_
  cases huser
  refine safe_require fun user huser => ?_
  rw [Table.key_of_get huser]
  refine rotate_safe hrequest hfound ?_ fun newRawToken => ?_
  · exact (past_snoc _ _).trans (hpast₁.trans ((past_snoc _ _).trans (hpast₂.trans (past_snoc _ _))))
  · exact issues_bind (issueTokenPair_issuing user) fun _ => trivial

/-- Every request keeps the terms. -/
theorem request_safe (hstart : h.madeBy i = []) :
    Safe (system lib) (chainTerms lib requests) i ((requests i).prog lib) () h := by
  cases hrequest : requests i with
  | handleCallback code state =>
      exact safe_of_issuing (issues_bind (handleCallback_issuing code state) fun _ => trivial)
  | handleMobileExchange code state =>
      exact safe_of_issuing (issues_bind (handleMobileExchange_issuing code state) fun _ => trivial)
  | refresh rawToken => exact safe_map (refresh_safe hrequest hstart)
  | logout rawToken =>
      show Safe _ _ _ (invalidate lib rawToken >>= fun _ => _) _ _
      unfold invalidate
      rw [Prog.bind_assoc]
      refine safe_issuing trivial fun h₁ usedAt w₁ _ _ _ => ?_
      refine safe_call (fun h₂ _ _ _ fails => update_keeps ?_ fails) fun _ _ _ _ _ _ => trivial
      rw [hrequest]
      exact .logout

/-! ## Every run -/

/-- The row of a hash that an update has picked is used. -/
theorem used_since_update {tokenHash : String} (hvalid : (chainTerms lib requests).Valid h)
    (hmade : h.Steps (Made (system lib) fun _ _ _ _ => True)) {j : θ} {h₀ : History θ}
    {criteria : Criteria} {change : TokenChange} {w : World} {r r' : RefreshTokenEntity}
    (hupdate : Past (h₀.snoc ⟨j, .update criteria change, .ok (), w⟩) h)
    (hr : h₀.world.findOne tokenHash = some r) (hpicks : criteria.picks r = true)
    (hr' : h.world.findOne tokenHash = some r') : r'.usedAt ≠ none := by
  obtain ⟨fails, _, _, _, hperform⟩ := hmade.of_past hupdate
  have hworld : w = h₀.world.updateTokens criteria change := by
    rcases perform_cases fails (.update criteria change) h₀.world with hexec | ⟨_, hexec⟩
    · have hsame := congrArg (·.2.2) (hperform.symm.trans hexec)
      exact hsame
    · cases hperform.symm.trans hexec
  have hused : w.findOne tokenHash = some (change.applied r) := by
    rw [hworld, World.findOne_updateTokens, hr, Option.map_some, if_pos hpicks]
  obtain ⟨r'', hr'', -, hstays, -⟩ := ages_since hvalid hupdate _ hused
  cases hr'.symm.trans hr''
  exact hstays (Option.some_ne_none _)

/-- The row of a token that a refresh or a logout has marked is used, if there is one. -/
theorem Consumed.used {rawToken : String} (hvalid : (chainTerms lib requests).Valid h)
    (hmade : h.Steps (Made (system lib) fun _ _ _ _ => True))
    (hconsumed : Consumed lib requests rawToken h) {r : RefreshTokenEntity}
    (hr : h.world.findOne (hashToken lib rawToken) = some r) : r.usedAt ≠ none := by
  cases hconsumed with
  | @refreshed j h₀ criteria change w request update =>
      have hmarks := (hvalid.2.of_past update).marks criteria change rfl
      rw [request] at hmarks
      cases hmarks with
      | @refresh _ _ h₁ r₁ next found past =>
          -- The row that the refresh has found is the one it marks.
          have hvalid₀ := hvalid.past ((past_snoc _ _).trans update)
          obtain ⟨r₀, hr₀, hid, -⟩ := ages_since hvalid₀ past r₁ found
          exact used_since_update hvalid hmade update hr₀ (decide_eq_true hid) hr
  | @loggedOut j h₀ criteria change w request stored update =>
      have hmarks := (hvalid.2.of_past update).marks criteria change rfl
      rw [request] at hmarks
      cases hmarks with
      | logout =>
          cases hrow : h₀.world.findOne (hashToken lib rawToken) with
          | none => cases hr.symm.trans (stored hrow)
          | some r₀ =>
              have hpicks := decide_eq_true (World.tokenHash_of_findOne hrow)
              exact used_since_update hvalid hmade update hrow hpicks hr

/-- A refresh that reads no row, or a used one, throws. -/
theorem refresh_rejects (lib : Libraries) (rawToken : String) {found : Option RefreshTokenEntity}
    (hfound : ∀ r, found = some r → r.usedAt ≠ none) :
    ∃ rest, (Request.refresh rawToken).prog lib = .call (.findOne (hashToken lib rawToken)) rest ∧
      rest (.ok found) = .throw invalidRefreshToken := by
  refine ⟨_, rfl, ?_⟩
  cases found with
  | none => rfl
  | some r =>
      have hthrow : (throwIf (r.usedAt ≠ none) invalidRefreshToken : Api Unit) =
          .throw invalidRefreshToken := if_pos (hfound r rfl)
      show (((throwIf (r.usedAt ≠ none) invalidRefreshToken : Api Unit) >>= _) >>= _) >>= _ = _
      rw [hthrow]
      rfl

/-- In every run of logins, refreshes and logouts, failing calls included, used rows stay used,
the rows that replace one another form ascending chains of one user, and no refresh gets past the
read of a token that a refresh or a logout has marked. -/
theorem used_tokens_stay_used {w : World} (hw : w.Chained) {c : Serving θ}
    (hreach : Reach (system lib) (fun _ _ _ _ => True) (w.serve lib requests) c) :
    UsedStay lib requests c := by
  have hvalid : (chainTerms lib requests).Valid c.trace :=
    Contract.guaranteed (C := chainTerms lib requests) hreach rfl hw fun i => request_safe rfl
  have hchained := chained_of_valid hvalid
  constructor
  · intro h₀ h₁ hpast hpast₁ r hr hused
    obtain ⟨r', hr', hid, -, hstays⟩ := persists_of_past (hvalid.past hpast₁) hpast r hr
    exact ⟨r', hr', hid, hstays hused⟩
  · intro r hr s hs
    obtain ⟨next, hnext, hid, hlt, huser⟩ := hchained.links r hr s hs
    exact ⟨next, hnext, hid, hid ▸ hlt, huser⟩
  · intro r hr next hlinks
    exact (hchained.links.transGen hr hlinks).2
  · intro r hr
    exact hchained.links.exists_last hr
  · intro i rawToken hrequest h found w₁ hread hconsumed
    have hpast : Past h c.trace := (past_snoc _ _).trans hread
    have hmade := hreach.made.past hpast
    have hfirst : h.madeBy i = [] := (hvalid.2.of_past hread).first _ rfl
    have hworld : found = h.world.findOne (hashToken lib rawToken) := by
      obtain ⟨fails, _, _, _, hperform⟩ := hreach.made.of_past hread
      rcases perform_cases fails (.findOne (hashToken lib rawToken)) h.world with hexec | ⟨_, hexec⟩
      · cases hperform.symm.trans hexec
        rfl
      · cases hperform.symm.trans hexec
    obtain ⟨rest, hprog, hthrow⟩ := refresh_rejects lib rawToken
      fun r hr => hconsumed.used (hvalid.past hpast) hmade (hworld.symm.trans hr)
    -- The read was the first call of the refresh, so nothing is left of it.
    obtain ⟨-, newer, hnewer⟩ := hread
    have hmadeBy : c.trace.madeBy i = newer.filter (·.tid = i) ++
        [⟨i, .findOne (hashToken lib rawToken), .ok found, w₁⟩] := by
      rw [madeBy, ← hnewer, List.filter_append, events_snoc, List.filter_cons_of_pos (by simp)]
      rw [madeBy] at hfirst
      rw [hfirst]
    have hleaves := hreach.leaves i
    rw [hmadeBy, hrequest, hprog] at hleaves
    have hleft := hleaves.first
    rw [hthrow] at hleft
    obtain ⟨hnone, hthrown⟩ := hleft.of_throw
    refine ⟨?_, ?_⟩
    · unfold Config.resultOf
      rw [hthrown]
    · rw [hmadeBy, hnone, List.nil_append]

/-- A store in which nobody has signed in yet. -/
def nobody : World where
  users := .empty _
  refreshTokens := .empty _
  nextTokenId := 1
  drawn := 0
  exchanged := 0
  readings := 0
  clock := 50

/-- A login, whose token is the first one drawn, and two refreshes with this token. -/
def loginThenRefreshes : Fin 3 → Request
  | 0 => .handleCallback "mario" "state"
  | _ => .refresh "x"

/-- The login and the first refresh run to their ends, then the second refresh reads the token. -/
def loginThenRefreshesSchedule : List (Fin 3 × Bool) :=
  .replicate 6 (0, false) ++ .replicate 11 (1, false) ++ [(2, false)]

/-- The second refresh is rejected. -/
theorem used_tokens_stay_used_login :
    ∃ c : Serving (Fin 3), c.resultOf 1 = some (.ok (some (pairFor "xx"))) ∧
      c.resultOf 2 = some (.error invalidRefreshToken) ∧
      UsedStay plainLibraries loginThenRefreshes c := by
  obtain ⟨c, hreach, hresults⟩ := Reach.exists_of_execute (system plainLibraries)
    (fun _ _ _ _ => True) (nobody.serve plainLibraries loginThenRefreshes)
    loginThenRefreshesSchedule
    (fun c => c.resultOf 1 = some (.ok (some (pairFor "xx"))) ∧
      c.resultOf 2 = some (.error invalidRefreshToken)) (by decide)
  have hnobody : nobody.Chained := by
    constructor
    · intro r hr
      cases hr
    · intro r hr
      cases hr
  obtain ⟨hfirst, hsecond⟩ := of_decide_eq_true hresults
  exact ⟨c, hfirst, hsecond, used_tokens_stay_used hnobody hreach⟩

end FoosballApi.Auth
