import FoosballApi.Auth.AuthService
import FoosballApi.Calls.RelyGuarantee

/-!
# A refresh token is used once

Refreshes and logouts that present one raw token, in any interleaving. `validate` reads the row of
the token and `rotate` marks it later, without looking again, so two refreshes can both be between
the two statements. In the runs in which every rotation finds the row not yet replaced, at most one
refresh returns a pair; no refresh does whose read follows a logout.

A row that is found by a hash stays the row of that hash, and is never unused or unreplaced again:
`World.Ages` says so of two states. `Rotated` is what a refresh has done when it returns.
-/

namespace FoosballApi.Auth

open Calls Data Prog Trace RefreshTokenService
open Matches (Date Failure)

variable {θ : Type}

/-- The past of an interleaved run of the services. -/
abbrev History (θ : Type) := Trace θ Call Call.Result Failure World

/-- A call of an interleaved run of the services. -/
abbrev CallEvent (θ : Type) := Event θ Call Call.Result Failure World

/-- What a caller does with the token it presents. -/
inductive Operation where
  | refresh
  | logout
  deriving DecidableEq

/-- The method a caller calls; only a refresh returns a token pair. -/
def Operation.prog (lib : Libraries) (rawToken : String) : Operation → Api (Option TokenPair)
  | .refresh => do
      let pair ← AuthService.refresh lib rawToken
      return some pair
  | .logout => do
      AuthService.logout lib rawToken
      return none

/-- A state of a run of operations on one token. -/
abbrev Running (θ : Type) := Config θ Call Call.Result Failure Unit World (Option TokenPair)

/-- The configuration in which every operation is about to start. -/
abbrev World.begin (w : World) (lib : Libraries) (rawToken : String) (operations : θ → Operation) :
    Running θ :=
  Config.start () (fun i => (operations i).prog lib rawToken) w

/-- The update of a rotation finds the row that was validated not yet replaced. -/
def FindsUnreplaced (h : History θ) : Call → Prop
  | .update (.id tokenId) _ =>
      ∀ row ∈ h.world.refreshTokens.get tokenId, row.replacedBy = none
  | _ => True

instance (h : History θ) (op : Call) : Decidable (FindsUnreplaced h op) := by
  cases op with
  | update criteria change =>
      cases criteria <;> unfold FindsUnreplaced <;> infer_instance
  | _ => exact .isTrue trivial

/-- A logout of the token has completed. -/
def LoggedOut (lib : Libraries) (rawToken : String) (operations : θ → Operation) (h : History θ) :
    Prop :=
  ∃ j usedAt w, operations j = .logout ∧
    ⟨j, .update (.tokenHash (hashToken lib rawToken)) ⟨usedAt, none⟩, .ok (), w⟩ ∈ h.events

/-- At most one refresh has returned a token pair, and none whose validating read was still to come
when a logout had completed. -/
structure SingleUse (lib : Libraries) (rawToken : String) (operations : θ → Operation)
    [DecidableEq θ] (c : Running θ) : Prop where
  once : ∀ i j pair pair', c.resultOf i = some (.ok (some pair)) →
    c.resultOf j = some (.ok (some pair')) → i = j
  notAfterLogout : ∀ i h, Past h c.trace → LoggedOut lib rawToken operations h →
    (∀ e ∈ h.events, e.tid = i → e.op ≠ .findOne (hashToken lib rawToken)) →
    ∀ pair, c.resultOf i ≠ some (.ok (some pair))

/-! ## The row of a token -/

/-- The row of a hash is the same one later on, and stays used and replaced. -/
def World.Ages (tokenHash : String) (w w' : World) : Prop :=
  ∀ r, w.findOne tokenHash = some r → ∃ r', w'.findOne tokenHash = some r' ∧ r'.id = r.id ∧
    (r.usedAt ≠ none → r'.usedAt ≠ none) ∧ (r.replacedBy ≠ none → r'.replacedBy ≠ none)

namespace World

variable {w w' : World} {tokenHash : String}

theorem Ages.refl (w : World) : w.Ages tokenHash w := fun r hr => ⟨r, hr, rfl, id, id⟩

theorem Ages.trans {w₁ w₂ w₃ : World} (h : w₁.Ages tokenHash w₂) (h' : w₂.Ages tokenHash w₃) :
    w₁.Ages tokenHash w₃ := by
  intro r hr
  obtain ⟨r₂, hr₂, hid₂, hused₂, hreplaced₂⟩ := h r hr
  obtain ⟨r₃, hr₃, hid₃, hused₃, hreplaced₃⟩ := h' r₂ hr₂
  exact ⟨r₃, hr₃, hid₃.trans hid₂, hused₃ ∘ hused₂, hreplaced₃ ∘ hreplaced₂⟩

/-- An update ages the rows. -/
theorem ages_updateTokens (criteria : Criteria) (change : TokenChange) :
    w.Ages tokenHash (w.updateTokens criteria change) := by
  intro r hr
  refine ⟨_, by rw [findOne_updateTokens, hr, Option.map_some], ?_⟩
  split
  · refine ⟨rfl, fun _ => nofun, fun hreplaced => ?_⟩
    intro hnone
    exact hreplaced (Option.or_eq_none_iff.mp hnone).2
  · exact ⟨rfl, id, id⟩

/-- Whatever a call does to the tokens, their rows age. -/
theorem ages_of_after {op : Call} (hafter : TokensAfter op w w') : w.Ages tokenHash w' := by
  cases hafter with
  | kept tokens _ =>
      intro r hr
      exact ⟨r, by rw [findOne, tokens]; exact hr, rfl, id, id⟩
  | inserted _ insert =>
      intro r hr
      exact ⟨r, by rw [findOne_insertToken insert, hr, Option.some_or], rfl, id, id⟩
  | updated _ after =>
      rw [after]
      exact ages_updateTokens _ _

end World

/-! ## What a refresh has done -/

variable {lib : Libraries} {rawToken : String} {i : θ} {h h' : History θ} {r : RefreshTokenEntity}

/-- A row of the token was stored at some moment of the past. -/
def Found (lib : Libraries) (rawToken : String) (h : History θ) : Prop :=
  ∃ h₀, Past h₀ h ∧ h₀.world.findOne (hashToken lib rawToken) ≠ none

/-- A call has read the row of the token as `r`, unused. -/
inductive Validated (lib : Libraries) (rawToken : String) (i : θ) (r : RefreshTokenEntity)
    (h : History θ) : Prop
  | intro {h₀ : History θ} (found : h₀.world.findOne (hashToken lib rawToken) = some r)
      (unused : r.usedAt = none)
      (read : Past (h₀.snoc ⟨i, .findOne (hashToken lib rawToken), .ok (some r), h₀.world⟩) h)

/-- A call has validated the token and then marked its row as replaced. -/
inductive Rotated (lib : Libraries) (rawToken : String) (i : θ) (h : History θ) : Prop
  | intro {h₀ : History θ} {r : RefreshTokenEntity} {change : TokenChange} {w : World}
      (validated : Validated lib rawToken i r h₀) (replaces : change.replacedBy ≠ none)
      (update : Past (h₀.snoc ⟨i, .update (.id r.id) change, .ok (), w⟩) h)

theorem Validated.mono (hvalidated : Validated lib rawToken i r h) (hpast : Past h h') :
    Validated lib rawToken i r h' := by
  obtain ⟨found, unused, read⟩ := hvalidated
  exact ⟨found, unused, read.trans hpast⟩

theorem Validated.found (hvalidated : Validated lib rawToken i r h) : Found lib rawToken h := by
  obtain ⟨found, unused, read⟩ := hvalidated
  exact ⟨_, (past_snoc _ _).trans read, by rw [found]; nofun⟩

theorem Rotated.mono (hrotated : Rotated lib rawToken i h) (hpast : Past h h') :
    Rotated lib rawToken i h' := by
  obtain ⟨validated, replaces, update⟩ := hrotated
  exact ⟨validated, replaces, update.trans hpast⟩

theorem Rotated.found (hrotated : Rotated lib rawToken i h) : Found lib rawToken h := by
  obtain ⟨validated, replaces, update⟩ := hrotated
  exact (validated.mono ((past_snoc _ _).trans update)).found

/-- The terms under which the operations run: an update of a rotation that goes through finds its
row unreplaced, and a row is inserted only after the token was found. -/
def contract (lib : Libraries) (rawToken : String) :
    Contract θ Call Call.Result Failure World where
  init _ := True
  allow _ h op fails := fails = false → FindsUnreplaced h op
  guar h event := ∀ token, event.op = .save token → Found lib rawToken h

/-- A call is carried out, or it fails and changes nothing. -/
theorem perform_cases (fails : Bool) (op : Call) (w : World) :
    (system lib).perform fails op () w = exec lib op () w ∨
      ∃ failure, (system lib).perform fails op () w = (.error failure, (), w) := by
  rcases (system lib).perform_cases fails op () w with hdone | ⟨failure, -, hfails⟩
  · exact .inl hdone
  · exact .inr ⟨failure, hfails⟩

variable {α β : Type} {P : α → History θ → Prop}

/-- What holds when a program returns. -/
def Returns (P : α → History θ → Prop) (result : Except Failure α) (_ : Unit) (h : History θ) :
    Prop :=
  ∀ value, result = .ok value → P value h

/-- A call, with what follows it when it goes through. -/
theorem wp_call {op : Call} {next : op.Result → Api α}
    (hsave : ∀ token, op = .save token → Found lib rawToken h)
    (hnext : ∀ h', Past h h' → ∀ value w', exec lib op () h'.world = (.ok value, (), w') →
      wp (system lib) (contract lib rawToken) i (next value) () (h'.snoc ⟨i, op, .ok value, w'⟩)
        (Returns P)) :
    wp (system lib) (contract lib rawToken) i (await op >>= next) () h (Returns P) := by
  refine wp_perform_bind fun h' hmean _ fails _ => ?_
  have hguar : ∀ result w', (contract lib rawToken).guar h' ⟨i, op, result, w'⟩ := by
    intro result w' token hop
    obtain ⟨h₀, hpast, hfound⟩ := hsave token hop
    exact ⟨h₀, hpast.trans hmean.past, hfound⟩
  rcases perform_cases fails op h'.world with hperform | ⟨failure, hperform⟩ <;> rw [hperform]
  · refine ⟨hguar _ _, ?_⟩
    rcases hexec : exec lib op () h'.world with ⟨result, s', w'⟩
    cases result with
    | ok value => exact hnext h' hmean.past value w' hexec
    | error failure => exact fun _ hresult => nomatch hresult
  · exact ⟨hguar _ _, fun _ hresult => nomatch hresult⟩

/-- A call whose outcome does not matter, with what follows it. -/
theorem wp_then {op : Call} {next : op.Result → Api α}
    (hsave : ∀ token, op = .save token → Found lib rawToken h)
    (hnext : ∀ value h', Past h h' →
      wp (system lib) (contract lib rawToken) i (next value) () h' (Returns P)) :
    wp (system lib) (contract lib rawToken) i (await op >>= next) () h (Returns P) :=
  wp_call hsave fun _ hpast value _ _ => hnext value _ hpast.snoc

/-- A program, with what follows it when it returns. -/
theorem wp_seq {program : Api β} {next : β → Api α} {R : β → History θ → Prop}
    (hprogram : wp (system lib) (contract lib rawToken) i program () h (Returns R))
    (hnext : ∀ value h', R value h' →
      wp (system lib) (contract lib rawToken) i (next value) () h' (Returns P)) :
    wp (system lib) (contract lib rawToken) i (program >>= next) () h (Returns P) := by
  refine wp_bind.mpr (wp_mono hprogram fun result _ h' hreturns => ?_)
  cases result with
  | ok value => exact hnext value h' (hreturns value rfl)
  | error failure => exact fun _ hresult => nomatch hresult

/-- `validate` returns the row it has read, unused. -/
theorem validate_wp : wp (system lib) (contract lib rawToken) i (validate lib rawToken) () h
    (Returns fun r h' => Validated lib rawToken i r h') := by
  unfold validate
  refine wp_call nofun fun h₀ _ found w hread => ?_
  cases hread
  refine wp_bind.mpr (wp_require.mpr ⟨fun _ _ => nofun, fun r hfound => ?_⟩)
  refine wp_bind.mpr (wp_throwIf.mpr ⟨fun _ _ => nofun, fun hunused => ?_⟩)
  have hvalidated : Validated lib rawToken i r (h₀.snoc ⟨i, .findOne (hashToken lib rawToken),
      .ok (h₀.world.findOne (hashToken lib rawToken)), h₀.world⟩) := by
    rw [hfound]
    exact ⟨hfound, Decidable.not_not.mp hunused, .refl _⟩
  refine wp_call nofun fun h₁ hpast₁ now w _ => ?_
  refine wp_bind.mpr (wp_throwIf.mpr ⟨fun _ _ => nofun, fun _ => ?_⟩)
  intro value hvalue
  cases hvalue
  exact hvalidated.mono hpast₁.snoc

/-- `rotate` of a validated token marks its row. -/
theorem rotate_wp {userId : Matches.UserId} {ttlMs : Nat}
    (hvalidated : Validated lib rawToken i r h) :
    wp (system lib) (contract lib rawToken) i (rotate lib r userId ttlMs) () h
      (Returns fun _ h' => Rotated lib rawToken i h') := by
  unfold rotate
  refine wp_then nofun fun newRawToken h₁ hpast₁ => ?_
  refine wp_then nofun fun now h₂ hpast₂ => ?_
  have hvalidated₂ := hvalidated.mono (hpast₁.trans hpast₂)
  refine wp_then (fun _ _ => hvalidated₂.found) fun saved h₃ hpast₃ => ?_
  refine wp_then nofun fun usedAt h₄ hpast₄ => ?_
  have hvalidated₄ := hvalidated₂.mono (hpast₃.trans hpast₄)
  refine wp_call nofun fun h₅ hpast₅ _ w₅ _ => ?_
  intro _ _
  exact ⟨hvalidated₄.mono hpast₅, Option.some_ne_none saved.id, .refl _⟩

/-- `issue` comes after the rotation. -/
theorem issue_wp {userId : Matches.UserId} {ttlMs : Nat} (hrotated : Rotated lib rawToken i h) :
    wp (system lib) (contract lib rawToken) i (issue lib userId ttlMs) () h
      (Returns fun _ h' => Rotated lib rawToken i h') := by
  unfold issue
  refine wp_then nofun fun newRawToken h₁ hpast₁ => ?_
  refine wp_then nofun fun now h₂ hpast₂ => ?_
  have hrotated₂ := hrotated.mono (hpast₁.trans hpast₂)
  refine wp_then (fun _ _ => hrotated₂.found) fun _ h₃ hpast₃ => ?_
  intro _ _
  exact hrotated₂.mono hpast₃

/-- A refresh that returns has rotated the token. -/
theorem refresh_wp :
    wp (system lib) (contract lib rawToken) i (AuthService.refresh lib rawToken) () h
      (Returns fun _ h' => Rotated lib rawToken i h') := by
  unfold AuthService.refresh
  refine wp_seq validate_wp fun r h₁ hvalidated => ?_
  unfold UserService.findById
  rw [Prog.bind_assoc]
  refine wp_then nofun fun found h₂ hpast₂ => ?_
  refine wp_bind.mpr (wp_require.mpr ⟨fun _ _ => nofun, fun user _ => ?_⟩)
  refine wp_seq (rotate_wp (hvalidated.mono hpast₂)) fun newRawToken h₃ hrotated => ?_
  unfold TokenService.issueTokenPair
  rw [Prog.bind_assoc]
  refine wp_seq (issue_wp hrotated) fun _ h₄ hrotated₄ => ?_
  intro _ _
  exact hrotated₄

/-- An operation that returns a token pair has rotated the token. -/
theorem operation_wp (operation : Operation) :
    wp (system lib) (contract lib rawToken) i (operation.prog lib rawToken) () h
      (Returns fun returned h' => ∀ pair, returned = some pair → Rotated lib rawToken i h') := by
  cases operation with
  | refresh =>
      refine wp_seq refresh_wp fun pair h₁ hrotated => ?_
      intro _ _ _ _
      exact hrotated
  | logout =>
      unfold Operation.prog AuthService.logout invalidate
      rw [Prog.bind_assoc]
      refine wp_then nofun fun usedAt h₁ _ => ?_
      refine wp_then nofun fun _ h₂ _ => ?_
      intro _ hreturned pair hpair
      cases hreturned
      cases hpair

/-! ## Every run -/

/-- What is known of every call of a run. -/
structure Known (lib : Libraries) (rawToken : String) (h : History θ) (event : CallEvent θ) :
    Prop where
  ages : h.world.Ages (hashToken lib rawToken) event.world
  saves : ∀ token, event.op = .save token → Found lib rawToken h
  absent : (∀ token, event.op ≠ .save token) → h.world.findOne (hashToken lib rawToken) = none →
    event.world.findOne (hashToken lib rawToken) = none
  update : ∀ {i criteria change w}, event = ⟨i, .update criteria change, .ok (), w⟩ →
    FindsUnreplaced h event.op ∧ w = h.world.updateTokens criteria change

/-- Only an insert brings a row for a hash. -/
theorem absent_exec {tokenHash : String} {op : Call} {w : World} (hsave : ∀ token, op ≠ .save token)
    (hnone : w.findOne tokenHash = none) : (exec lib op () w).2.2.findOne tokenHash = none := by
  cases tokensAfter_exec lib op () w with
  | kept tokens _ => rwa [World.findOne, tokens]
  | inserted save _ => exact absurd save (hsave _)
  | updated _ after => rw [after, World.findOne_updateTokens, hnone, Option.map_none]

/-- A call that was made under the terms is known. -/
theorem known_of_made {event : CallEvent θ}
    (hmade : Made (system lib) (contract lib rawToken).allow h event)
    (hguar : (contract lib rawToken).guar h event) : Known lib rawToken h event := by
  obtain ⟨i, op, result, w⟩ := event
  obtain ⟨fails, _, _, hallow, hperform⟩ := id hmade
  rcases perform_cases fails op h.world with hexec | ⟨failure, hexec⟩
  · have hworld : w = (exec lib op () h.world).2.2 := congrArg (·.2.2) (hperform.symm.trans hexec)
    subst hworld
    refine ⟨World.ages_of_after (tokensAfter_exec lib op () h.world), hguar, absent_exec, ?_⟩
    intro i criteria change w hevent
    cases hevent
    exact ⟨hmade.allowed rfl rfl rfl, rfl⟩
  · have hsame : w = h.world := congrArg (·.2.2) (hperform.symm.trans hexec)
    subst hsame
    refine ⟨.refl _, hguar, fun _ => id, ?_⟩
    intro i criteria change w hevent
    cases hevent
    cases hperform.symm.trans hexec

/-- The row of a hash in a past world ages up to the last one. -/
theorem ages_of_past (hsteps : h.Steps (Known lib rawToken)) {h₀ : History θ} (hpast : Past h₀ h) :
    h₀.world.Ages (hashToken lib rawToken) h.world :=
  Steps.related World.Ages.refl (fun _ _ _ => World.Ages.trans) (hsteps.mono fun _ _ hk => hk.ages)
    hpast

/-- A token that was not stored at the start was never stored. -/
def StaysAbsent (lib : Libraries) (rawToken : String) (h : History θ) : Prop :=
  h.init.findOne (hashToken lib rawToken) = none →
    ∀ h₀, Past h₀ h → h₀.world.findOne (hashToken lib rawToken) = none

theorem staysAbsent (hsteps : h.Steps (Known lib rawToken)) : StaysAbsent lib rawToken h := by
  refine hsteps.induction ?_ fun h₁ e _ _ hstays hknown => ?_
  · intro hinit h₀ hpast
    rw [hpast.of_nil]
    exact hinit
  · intro hinit h₀ hpast
    rcases hpast.of_snoc with rfl | hpast
    · refine hknown.absent (fun token hop => ?_) (hstays hinit h₁ (.refl h₁))
      obtain ⟨h₂, hpast₂, hfound⟩ := hknown.saves token hop
      exact hfound (hstays hinit h₂ hpast₂)
    · exact hstays hinit h₀ hpast

/-- The update of a rotation finds the row of the token unreplaced and leaves it replaced. -/
theorem Rotated.update (hsteps : h.Steps (Known lib rawToken))
    (hrotated : Rotated lib rawToken i h) :
    ∃ (h₀ : History θ) (event : CallEvent θ), event.tid = i ∧ Past (h₀.snoc event) h ∧
      (∃ r, h₀.world.findOne (hashToken lib rawToken) = some r ∧ r.replacedBy = none) ∧
      ∃ r, event.world.findOne (hashToken lib rawToken) = some r ∧ r.replacedBy ≠ none := by
  obtain @⟨h₀, r, change, w, ⟨found, unused, read⟩, replaces, update⟩ := hrotated
  have hpast₀ : Past h₀ h := (past_snoc _ _).trans update
  obtain ⟨hunreplaced, hworld⟩ := (hsteps.of_past update).update rfl
  obtain ⟨r₀, hr₀, hid, -, -⟩ :=
    ages_of_past (hsteps.past hpast₀) ((past_snoc _ _).trans read) r found
  have hget : h₀.world.refreshTokens.get r.id = some r₀ :=
    Table.get_eq_some.mpr ⟨Table.mem_of_first hr₀, hid⟩
  have hnone : r₀.replacedBy = none := hunreplaced r₀ hget
  refine ⟨h₀, _, rfl, update, ⟨r₀, hr₀, hnone⟩, change.applied r₀, ?_, ?_⟩
  · show w.findOne _ = _
    rw [hworld, World.findOne_updateTokens, hr₀, Option.map_some, Criteria.picks, hid,
      decide_eq_true rfl, if_pos rfl]
  · intro happlied
    exact replaces (Option.or_eq_none_iff.mp happlied).1

/-- Only one operation has rotated the token. -/
theorem Rotated.unique (hsteps : h.Steps (Known lib rawToken)) {j : θ}
    (hi : Rotated lib rawToken i h) (hj : Rotated lib rawToken j h) : i = j := by
  -- A row that one update left replaced is not found unreplaced by a later one.
  have hlater : ∀ {h₀ h₁ : History θ} {e : CallEvent θ}, Past (h₀.snoc e) h₁ → Past h₁ h →
      (∃ r, e.world.findOne (hashToken lib rawToken) = some r ∧ r.replacedBy ≠ none) →
      (∃ r, h₁.world.findOne (hashToken lib rawToken) = some r ∧ r.replacedBy = none) → False := by
    rintro h₀ h₁ e hpast hpast₁ ⟨r, hr, hreplaced⟩ ⟨r₁, hr₁, hnone⟩
    obtain ⟨r', hr', -, -, hstays⟩ := ages_of_past (hsteps.past hpast₁) hpast r hr
    cases hr₁.symm.trans hr'
    exact hstays hreplaced hnone
  obtain ⟨h₀, e, rfl, hupdate₀, hbefore₀, hafter₀⟩ := hi.update hsteps
  obtain ⟨h₁, e', rfl, hupdate₁, hbefore₁, hafter₁⟩ := hj.update hsteps
  have hpast₀ := (past_snoc h₀ e).trans hupdate₀
  have hpast₁ := (past_snoc h₁ e').trans hupdate₁
  rcases hupdate₀.total hupdate₁ with hpast | hpast
  · rcases hpast.of_snoc with heq | hpast
    · have hevent : e = e' := (List.cons.inj (congrArg Trace.events heq)).1
      rw [hevent]
    · exact (hlater hpast hpast₁ hafter₀ hbefore₁).elim
  · rcases hpast.of_snoc with heq | hpast
    · have hevent : e' = e := (List.cons.inj (congrArg Trace.events heq)).1
      rw [hevent]
    · exact (hlater hpast hpast₀ hafter₁ hbefore₀).elim

/-- No operation has rotated the token that reads it after a logout. -/
theorem Rotated.not_after_logout {operations : θ → Operation}
    (hsteps : h.Steps (Known lib rawToken)) {h₁ : History θ} (hpast : Past h₁ h)
    (hlogout : LoggedOut lib rawToken operations h₁)
    (hread : ∀ e ∈ h₁.events, e.tid = i → e.op ≠ .findOne (hashToken lib rawToken)) :
    ¬ Rotated lib rawToken i h := by
  rintro @⟨h₂, r, change, w, @⟨h₃, found, unused, read⟩, replaces, update⟩
  obtain ⟨j, usedAt, w', -, hevent⟩ := hlogout
  obtain ⟨h₀, hpast₀⟩ := past_of_mem hevent
  -- The read of the rotation comes after everything in `h₁`.
  have hread₃ := read.trans ((past_snoc _ _).trans update)
  have hpast₃ : Past h₁ h₃ := by
    rcases hpast.total hread₃ with hpast₁ | hpast₁
    · rcases hpast₁.of_snoc with rfl | hpast₁
      · exact absurd rfl (hread _ List.mem_cons_self rfl)
      · exact hpast₁
    · exact absurd rfl (hread _ (hpast₁.2.subset List.mem_cons_self) rfl)
  have hsteps₃ := hsteps.past ((past_snoc _ _).trans hread₃)
  have hpast₀₃ := hpast₀.trans hpast₃
  obtain ⟨_, hworld⟩ := (hsteps₃.of_past hpast₀₃).update rfl
  cases hrow : h₀.world.findOne (hashToken lib rawToken) with
  | none =>
      -- The token is not stored when it is logged out, so it never was.
      have hinit : h₃.init.findOne (hashToken lib rawToken) = none := by
        have hpast₀' := (past_snoc h₀ _).trans hpast₀₃
        refine Option.eq_none_iff_forall_ne_some.mpr fun r₀ hr₀ => ?_
        have hages := ages_of_past (hsteps₃.past hpast₀') (past_init h₀)
        rw [hpast₀'.1] at hages
        obtain ⟨r', hr', -⟩ := hages r₀ hr₀
        cases hrow.symm.trans hr'
      rw [staysAbsent hsteps₃ hinit h₃ (.refl h₃)] at found
      cases found
  | some r₀ =>
      have hused : w'.findOne (hashToken lib rawToken) =
          some (TokenChange.applied ⟨usedAt, none⟩ r₀) := by
        rw [hworld, World.findOne_updateTokens, hrow, Option.map_some, Criteria.picks,
          World.tokenHash_of_findOne hrow, decide_eq_true rfl, if_pos rfl]
      obtain ⟨r', hr', -, hstays, -⟩ := ages_of_past hsteps₃ hpast₀₃ _ hused
      cases found.symm.trans hr'
      exact hstays nofun unused

variable [DecidableEq θ]

/-- In every run in which each rotation finds the row of the token not yet replaced, the token is
used once. -/
theorem refresh_token_single_use {operations : θ → Operation} {w : World} {c : Running θ}
    (hreach : Reach (system lib) (fun _ h op fails => fails = false → FindsUnreplaced h op)
      (w.begin lib rawToken operations) c) : SingleUse lib rawToken operations c := by
  have hwp : ∀ i, wp (system lib) (contract lib rawToken) i ((operations i).prog lib rawToken) ()
      ⟨w, []⟩ (Returns fun returned h => ∀ pair, returned = some pair → Rotated lib rawToken i h) :=
    fun i => operation_wp (operations i)
  have hvalid := (Contract.sound (C := contract lib rawToken) hreach rfl trivial
    (fun i r s h e _ _ hreturns value hvalue pair hpair =>
      (hreturns value hvalue pair hpair).mono (past_snoc h e)) hwp).1
  have hsteps : c.trace.Steps (Known lib rawToken) := fun later event earlier he =>
    known_of_made (hreach.made later event earlier he) (hvalid.2 later event earlier he)
  have hrotated : ∀ i pair, c.resultOf i = some (.ok (some pair)) →
      Rotated lib rawToken i c.trace := fun i pair hresult =>
    Contract.result_post (C := contract lib rawToken) hreach rfl trivial
      (fun i r s h e _ _ hreturns value hvalue pair hpair =>
        (hreturns value hvalue pair hpair).mono (past_snoc h e)) hwp hresult _ rfl pair rfl
  constructor
  · intro i j pair pair' hi hj
    exact (hrotated i pair hi).unique hsteps (hrotated j pair' hj)
  · intro i h hpast hlogout hread pair hresult
    exact Rotated.not_after_logout hsteps hpast hlogout hread (hrotated i pair hresult)

/-! ## Runs -/

/-- Libraries under which different tokens have different hashes. -/
def plainLibraries : Libraries where
  sha256 rawToken := "sha256:" ++ rawToken
  randomBytes n := String.ofList (List.replicate (n + 1) 'x')
  elapsed _ := 0
  sign payload := payload.email
  acquireTokenByCode _ code _ :=
    .ok (some ⟨code, some (code ++ "@foosball.test"), none, some code, rfl⟩)
  webRedirectUri := "http://localhost:3001/connect"
  mobileRedirectUri := "foosball://auth/callback"

theorem plainLibraries_sha256_injective : plainLibraries.sha256.Injective :=
  fun _ _ heq => (String.append_right_inj "sha256:").mp heq

theorem plainLibraries_randomBytes_injective : plainLibraries.randomBytes.Injective := by
  intro m n heq
  have hlength := congrArg String.length heq
  simpa [plainLibraries] using hlength

/-- `mario` has one refresh token, `token`, that expires at time 100. -/
def oneToken : World where
  users := (Table.empty _).put ⟨1, "oid-001", "mario@foosball.test", "mario", false⟩
  refreshTokens := (Table.empty _).put ⟨1, 1, "sha256:token", 100, none, none⟩
  nextTokenId := 2
  drawn := 0
  exchanged := 0
  readings := 0
  clock := 50

/-- Two refreshes and a logout. -/
def twoRefreshes : Fin 3 → Operation
  | 0 | 1 => .refresh
  | 2 => .logout

/-- One refresh ends before the other reads the token; the logout comes last. -/
def refreshSchedule : List (Fin 3 × Bool) :=
  .replicate 11 (0, false) ++ [(1, false)] ++ .replicate 2 (2, false)

/-- The pair that `mario` gets for a fresh token. -/
def pairFor (refreshToken : String) : TokenPair := ⟨"mario@foosball.test", refreshToken, 900⟩

/-- The first of the two refreshes returns a pair. -/
theorem refresh_token_single_use_plain :
    ∃ c : Running (Fin 3), c.resultOf 0 = some (.ok (some (pairFor "x"))) ∧
      SingleUse plainLibraries "token" twoRefreshes c := by
  obtain ⟨c, hreach, hpair⟩ := Reach.exists_of_execute (system plainLibraries)
    (fun _ h op fails => fails = false → FindsUnreplaced h op)
    (oneToken.begin plainLibraries "token" twoRefreshes) refreshSchedule
    (fun c => c.resultOf 0 = some (.ok (some (pairFor "x")))) (by decide)
  exact ⟨c, of_decide_eq_true hpair, refresh_token_single_use hreach⟩

/-- Both refreshes validate the token before either rotates it. -/
def doubleRefreshSchedule : List (Fin 3 × Bool) :=
  .replicate 2 (0, false) ++ .replicate 2 (1, false) ++ .replicate 9 (0, false) ++
    .replicate 9 (1, false)

/-- Two refreshes with one token return a pair each. -/
theorem not_refresh_token_single_use_double :
    ¬ ∀ (lib : Libraries) (rawToken : String) (operations : Fin 3 → Operation) (w : World)
      (c : Running (Fin 3)), lib.sha256.Injective → lib.randomBytes.Injective →
      Reach (system lib) (fun _ _ _ fails => fails = false) (w.begin lib rawToken operations) c →
      SingleUse lib rawToken operations c := by
  intro h
  obtain ⟨c, hreach, hpairs⟩ := Reach.exists_of_execute (system plainLibraries)
    (fun _ _ _ fails => fails = false) (oneToken.begin plainLibraries "token" twoRefreshes)
    doubleRefreshSchedule
    (fun c => c.resultOf 0 = some (.ok (some (pairFor "x"))) ∧
      c.resultOf 1 = some (.ok (some (pairFor "xxx")))) (by decide)
  obtain ⟨hfirst, hsecond⟩ := of_decide_eq_true hpairs
  have hsingle := h plainLibraries "token" twoRefreshes oneToken c plainLibraries_sha256_injective
    plainLibraries_randomBytes_injective hreach
  cases hsingle.once 0 1 _ _ hfirst hsecond

end FoosballApi.Auth
