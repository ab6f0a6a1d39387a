import FoosballApi.Matches.DeletionFinal
import FoosballApi.Matches.Invariant
import FoosballApi.Matches.Queues

/-!
# The rows of a match over an interleaved run

Interleaved requests overwrite one another's changes, but each of them writes a whole row that it
has made from a row it has read. So whatever every such write keeps holds of every row that was ever
stored: a row is consistent in itself, and all rows of one match agree on its creator, its type and
the time it was created. The runs are those of `system`, in which the locked section of a
confirmation is one step.
-/

namespace FoosballApi.Matches

open Calls Data Trace Users World

variable {θ : Type} {request : Request} {h : History θ} {event : CallEvent θ} {matchId : MatchId}

/-! ## What no call takes back -/

/-- Ids that were given out, users, audit rows and time stay. -/
structure World.Grows (w w' : World) : Prop where
  nextMatchId : w.nextMatchId ≤ w'.nextMatchId
  users : ∀ id, (w.users.get id).isSome → (w'.users.get id).isSome
  auditLogs : w.auditLogs <+: w'.auditLogs
  clock : w.clock ≤ w'.clock

namespace World.Grows

variable {w w' w'' : World}

theorem refl (w : World) : w.Grows w := ⟨le_refl _, fun _ => id, List.prefix_refl _, le_refl _⟩

theorem trans (h : w.Grows w') (h' : w'.Grows w'') : w.Grows w'' :=
  ⟨h.nextMatchId.trans h'.nextMatchId, fun id hid => h'.users id (h.users id hid),
    h.auditLogs.trans h'.auditLogs, h.clock.trans h'.clock⟩

/-- A statement that writes none of these. -/
theorem of_eq (hnext : w'.nextMatchId = w.nextMatchId) (husers : w'.users = w.users)
    (hlogs : w'.auditLogs = w.auditLogs) (hclock : w'.clock = w.clock) : w.Grows w' :=
  ⟨hnext.ge, fun _ hid => husers ▸ hid, hlogs ▸ List.prefix_refl _, hclock.ge⟩

/-- A statement that writes a user's row. -/
theorem putUser (user : UserEntity) : w.Grows { w with users := w.users.put user } := by
  refine ⟨le_refl _, fun id hid => ?_, List.prefix_refl _, le_refl _⟩
  show ((w.users.put user).get id).isSome
  rw [Table.get_put]
  split
  · rfl
  · exact hid

/-- The commit of a transaction. -/
theorem commit (changes : List Write) (w : World) : w.Grows (changes.foldl Write.commit w) := by
  induction changes generalizing w with
  | nil => exact .refl w
  | cons change changes ih =>
      refine .trans ?_ (ih (change.commit w))
      cases change with
      | saveMatch m =>
          exact .of_eq (nextMatchId_saveMatch m) (users_saveMatch m) (auditLogs_saveMatch m)
            (clock_saveMatch m)
      | putConfirmation c => exact .of_eq rfl rfl rfl rfl
      | appendAuditLog entry =>
          exact ⟨le_refl _, fun _ => id, List.prefix_append _ _, le_refl _⟩

/-- A write of a session. -/
theorem write (s : Session) (w : World) (change : Write) : w.Grows (s.write w change).2 := by
  unfold Session.write
  split
  · exact .refl w
  · exact .commit [change] w

end World.Grows

/-- No call takes back any of these. -/
theorem grows_exec (op : Call) (s : Session) (w : World) : w.Grows (exec op s w).2.2 := by
  cases op with
  | create => exact ⟨Nat.le_succ _, fun _ => id, List.prefix_refl _, le_refl _⟩
  | save m => exact .commit [.saveMatch m] w
  | savePlayers players =>
      simp only [exec]
      split
      · next w' hsaved =>
          rw [savePlayers_frame hsaved]
          exact .of_eq rfl rfl rfl rfl
      · exact .refl w
  | saveAuditLog data => exact ⟨le_refl _, fun _ => id, List.prefix_append _ _, le_refl _⟩
  | saveUser | insertUser =>
      simp only [exec]
      split
      · next w' hsaved =>
          rw [saveUser_eq_some hsaved]
          exact .putUser _
      · exact .refl w
  | renameUser id displayName =>
      show w.Grows (w.renameUser id displayName)
      unfold renameUser
      split
      · exact .putUser _
      · exact .refl w
  | signIn user => exact .putUser user
  | tick elapsed => exact ⟨le_refl _, fun _ => id, List.prefix_refl _, Nat.le_add_right _ _⟩
  | commitTransaction =>
      simp only [exec]
      split
      · exact .commit _ w
      · exact .refl w
  | rollbackTransaction =>
      simp only [exec]
      split <;> exact .refl w
  | saveConfirmation | saveMatch => exact .write s w _
  | saveTransactionAuditLog data =>
      have hid : w.Grows w.takeAuditId := .of_eq rfl rfl rfl rfl
      exact hid.trans (.write s w.takeAuditId (.appendAuditLog (w.newAuditLog data)))
  | add queue job => cases queue <;> exact .of_eq rfl rfl rfl rfl
  | _ => exact .of_eq rfl rfl rfl rfl

/-- No call of a run takes back any of these. -/
theorem steps_grow [DecidableEq θ] {inputs : θ → Input} {w : World}
    {allow : θ → History θ → Call → Bool → Prop} {c : Running θ}
    (hreach : Reach system allow (w.begin inputs) c) :
    c.trace.Steps fun h e => h.world.Grows e.world := by
  refine hreach.made.mono fun h e hmade => ?_
  rcases exec_of_made rfl hmade with ⟨s, s', hexec⟩ | ⟨-, hworld⟩
  · have hworld : e.world = (exec e.op s h.world).2.2 := (congrArg (·.2.2) hexec).symm
    rw [hworld]
    exact grows_exec e.op s h.world
  · rw [hworld]
    exact .refl h.world

/-! ## Where rows come from -/

/-- The rows that a request makes from a row `r` of a match. -/
inductive Request.Writes (request : Request) (matchId : MatchId) (r : MatchRow) : MatchRow → Prop
  | keep : request.Writes matchId r r
  | save {r' : MatchRow} (saves : request.Saves matchId r r') (updatedAt : Date) :
      request.Writes matchId r { r' with updatedAt := updatedAt }
  | confirm (awaiting : r.status = .awaitingConfirmation) (confirmedAt updatedAt : Date) :
      request.Writes matchId r { r.confirmedAtTime confirmedAt with updatedAt := updatedAt }
  | overrideResult (confirmed : r.status = .confirmed) (dto : AdminOverrideResultDto)
      (updatedAt : Date) :
      request.Writes matchId r
        { r with scoreA := some dto.scoreA, scoreB := some dto.scoreB, updatedAt := updatedAt }

/-- A row that is stored after a call of a request was made from a row stored before, or the call
has created the match. -/
inductive Request.Origin (request : Request) (h : History θ) (event : CallEvent θ)
    (matchId : MatchId) (r' : MatchRow) : Prop
  | written {h₀ : History θ} {r : MatchRow} (past : Past h₀ h)
      (read : h₀.world.row matchId = some r) (writes : request.Writes matchId r r')
  | created {dto : CreateMatchDto} (route : request.route = .createMatch dto)
      (next : matchId = h.world.nextMatchId)
      (issued : event.world.nextMatchId = h.world.nextMatchId + 1)
      (new : r' = h.world.newMatch request.user.sub (dto.matchType.getD .twoVsTwo) .draft)

/-- The row that `save(match)` leaves of a match. -/
theorem row_saveMatch_cases {w : World} {m : MatchEntity} {r' : MatchRow}
    (hrow : (w.saveMatch m).row matchId = some r') :
    (m.id = matchId ∧ ∃ t, r' = { m.toMatchRow with updatedAt := t }) ∨
      w.row matchId = some r' := by
  by_cases hid : matchId = m.id
  · subst hid
    obtain ⟨t, ht⟩ := row_saveMatch_self (w := w) m
    exact .inl ⟨rfl, t, Option.some.inj (hrow.symm.trans ht)⟩
  · exact .inr ((row_saveMatch_of_ne hid).symm.trans hrow)

/-- Every row after a call of a request has an origin. -/
theorem Request.Does.origin (hdoes : request.Does h event) {r' : MatchRow}
    (hrow : event.world.row matchId = some r') : request.Origin h event matchId r' := by
  -- A call that leaves the row as it is.
  have hkeep : h.world.row matchId = some r' → request.Origin h event matchId r' :=
    fun hstored => .written (.refl h) hstored .keep
  cases hdoes with
  | silent same => exact hkeep ((congrArg MatchView.row (same.matchView matchId)).symm.trans hrow)
  | @create tid dto route r new =>
      by_cases hid : matchId = r.id
      · subst hid
        have hstored : (h.world.insertMatch r).row r.id = some r :=
          congrArg MatchView.row matchView_insertMatch
        obtain rfl := Option.some.inj (hrow.symm.trans hstored)
        exact .created route (by rw [new]; rfl) rfl new
      · exact hkeep ((congrArg MatchView.row (matchView_insertMatch_of_ne hid)).symm.trans hrow)
  | @save tid id h₀ r _ past read saves m written =>
      rcases row_saveMatch_cases hrow with ⟨hid, t, rfl⟩ | hstored
      · have hmatch : id = matchId := by rw [← hid, written, saves.id, id_of_row read]
        subst hmatch written
        exact .written past read (.save saves t)
      · exact hkeep hstored
  | @savePlayers tid id dto route h₀ h₁ r past counted read creator editable room ps written w'
      accepted =>
      have hsame : w'.row matchId = h.world.row matchId := by rw [savePlayers_frame accepted]; rfl
      exact hkeep (hsame.symm.trans hrow)
  | deleteVotes route past read awaiting => exact hkeep hrow
  | @vote tid id r players votes below => exact hkeep ((row_votedWorld _ _ _ _).symm.trans hrow)
  | @confirm tid id r players votes quorum h₃ counted confirmedAt =>
      rcases row_saveMatch_cases hrow with ⟨hid, t, rfl⟩ | hstored
      · have hmatch : r.id = matchId := hid
        obtain rfl := hmatch.symm.trans (id_of_row votes.row)
        exact .written (.refl h) votes.row (.confirm votes.awaiting confirmedAt t)
      · exact hkeep ((row_votedWorld _ _ _ _).symm.trans hstored)
  | announce route version payload =>
      exact hkeep (((sameTables_enqueue _ _ _).row matchId).symm.trans hrow)
  | @overrideResult tid id dto route h₀ h₁ r reading read confirmed job payload announced m written
      entry data =>
      have hsaved := ((sameTables_appendAuditLog _ entry).row matchId).symm.trans hrow
      rcases row_saveMatch_cases hsaved with ⟨hid, t, rfl⟩ | hstored
      · have hmatch : id = matchId := by
          rw [← hid, written]
          exact (id_of_row read).symm
        have hpast := ((past_snoc _ _).trans reading.snoc).trans announced
        subst hmatch written
        exact .written hpast read (.overrideResult confirmed dto t)
      · exact hkeep hstored
  | @recordDelete tid id route data action =>
      have hsame := (sameTables_takeAuditId h.world).trans
        (sameTables_appendAuditLog _ (h.world.newAuditLog data))
      exact hkeep ((hsame.row matchId).symm.trans hrow)
  | @delete tid id route admin =>
      by_cases hid : matchId = id
      · subst hid
        have habsent : (h.world.deleteMatch matchId).row matchId = none :=
          congrArg MatchView.row (matchView_deleteMatch h.world matchId)
        cases habsent.symm.trans hrow
      · exact hkeep ((congrArg MatchView.row (matchView_deleteMatch_of_ne hid)).symm.trans hrow)

/-- Every row after a call of an input was stored before, or it has an origin. -/
theorem Input.Does.origin {input : Input} (hdoes : input.Does h event) {r' : MatchRow}
    (hrow : event.world.row matchId = some r') :
    h.world.row matchId = some r' ∨
      ∃ r, input = .request r ∧ r.Origin h event matchId r' := by
  cases input with
  | request r => exact .inr ⟨r, rfl, Request.Does.origin hdoes hrow⟩
  | signIn user =>
      exact .inl ((congrArg MatchView.row (Silent.matchView hdoes matchId)).symm.trans hrow)
  | tick elapsed =>
      exact .inl ((congrArg MatchView.row (Silent.matchView hdoes matchId)).symm.trans hrow)

/-! ## What every row has -/

/-- All rows that were stored so far satisfy a condition. -/
def RowsSatisfy (P : MatchRow → Prop) (h : History θ) : Prop :=
  ∀ h₀, Past h₀ h → ∀ matchId r, h₀.world.row matchId = some r → P r

/-- A property of the rows of all matches that a created row has and every write keeps, every row has
that was stored at any moment of a run. -/
theorem rows_induction [DecidableEq θ] {P : MatchRow → Prop} {inputs : θ → Input} {w : World}
    {allow : θ → History θ → Call → Bool → Prop} {c : Running θ}
    (hreach : Reach system allow (w.begin inputs) c)
    (hinit : ∀ matchId r, w.row matchId = some r → P r)
    (hcreate : ∀ w userId matchType, P (World.newMatch w userId matchType .draft))
    (hwrites : ∀ (request : Request) matchId r r', request.Writes matchId r r' → P r → P r') :
    RowsSatisfy P c.trace := by
  refine (steps_does hreach).induction ?_ ?_
  · intro h₁ hpast₁ id r' hrow'
    obtain rfl := hpast₁.of_nil
    rw [world_nil, hreach.init] at hrow'
    exact hinit id r' hrow'
  · intro h e _ _ ih hdoes h₁ hpast₁ id r' hrow'
    rcases hpast₁.of_snoc with rfl | hpast₁
    · rcases hdoes.origin hrow' with hstored | ⟨request, -, horigin⟩
      · exact ih h (.refl h) id r' hstored
      · cases horigin with
        | written past read writes => exact hwrites _ _ _ _ writes (ih _ past id _ read)
        | created route next issued new =>
            rw [new]
            exact hcreate _ _ _
    · exact ih h₁ hpast₁ id r' hrow'

/-- The columns of a row agree with its status. -/
structure MatchRow.Consistent (r : MatchRow) : Prop where
  status : r.status ≠ .cancelled
  scores : r.status.Locked → r.scoreA.isSome ∧ r.scoreB.isSome
  confirmedAt : r.confirmedAt.isSome ↔ r.status = .confirmed
  lockedAt : r.lockedAt = r.confirmedAt

/-- Every write of a request keeps a row consistent. -/
theorem Request.Writes.consistent {r r' : MatchRow} (hwrites : request.Writes matchId r r')
    (hr : r.Consistent) : r'.Consistent := by
  -- A row that is not locked was not confirmed.
  have hopen : ¬ r.status.Locked → r.confirmedAt = none := fun hstatus => by
    rw [← Option.not_isSome_iff_eq_none, hr.confirmedAt]
    exact fun hconfirmed => hstatus (.inr hconfirmed)
  have hlocked := hr.lockedAt
  cases hwrites with
  | keep => exact hr
  | save saves t =>
      cases saves with
      | update route creator editable =>
          exact ⟨hr.status, fun hstatus => absurd hstatus editable, hr.confirmedAt, hlocked⟩
      | startPlaying route creator draft =>
          have hnone := hopen (by simp [draft, MatchStatus.Locked])
          constructor <;> simp_all [MatchStatus.Locked]
      | submitResult route creator editable =>
          have hnone := hopen editable
          constructor <;> simp_all
      | cancel route creator awaiting =>
          have hnone : r.confirmedAt = none := by
            rw [← Option.not_isSome_iff_eq_none, hr.confirmedAt, awaiting]
            exact MatchStatus.awaitingConfirmation_ne_confirmed
          constructor <;> simp_all [MatchStatus.Locked]
  | confirm awaiting confirmedAt t =>
      have hscores := hr.scores (.inl awaiting)
      constructor <;> simp_all [MatchRow.confirmedAtTime]
  | overrideResult confirmed dto t =>
      exact ⟨hr.status, fun _ => ⟨rfl, rfl⟩, hr.confirmedAt, hlocked⟩

/-- Rows stay consistent. -/
theorem rowsSatisfy_consistent [DecidableEq θ] {inputs : θ → Input} {w : World}
    {allow : θ → History θ → Call → Bool → Prop} {c : Running θ}
    (hinit : ∀ matchId r, w.row matchId = some r → r.Consistent)
    (hreach : Reach system allow (w.begin inputs) c) :
    RowsSatisfy MatchRow.Consistent c.trace := by
  refine rows_induction hreach hinit (fun w userId matchType => ?_)
    fun _ _ _ _ hwrites => hwrites.consistent
  constructor <;> simp [World.newMatch, MatchStatus.Locked]

/-- In every interleaving of any requests, with locked sections as one step and any failing calls,
from rows that are consistent, every row that is ever stored is: it is not `cancelled`, it has both
scores once it awaits confirmation, and its time of confirmation, with the lock, exactly when it is
confirmed. -/
theorem rows_consistent [DecidableEq θ] {inputs : θ → Input} {w : World}
    {allow : θ → History θ → Call → Bool → Prop} {c : Running θ}
    (hinit : ∀ matchId r, w.row matchId = some r → r.Consistent)
    (hreach : Reach system allow (w.begin inputs) c) {h₀ : History θ} (hpast : Past h₀ c.trace)
    {matchId : MatchId} {r : MatchRow} (hrow : h₀.world.row matchId = some r) : r.Consistent :=
  rowsSatisfy_consistent hinit hreach h₀ hpast matchId r hrow

/-- A match that is well kept has a consistent row. -/
theorem WellKept.consistent {r : MatchRow} {roster : List MatchPlayerEntity}
    {votes : List MatchConfirmationEntity} (h : WellKept r roster votes) : r.Consistent := by
  refine ⟨fun hcancelled => ?_, h.scores, h.confirmedAt, h.lockedAt⟩
  rcases h.status with hs | hs | hs | hs <;> cases hcancelled.symm.trans hs

/-- The row that `mario` saves after `admin` has deleted the match is consistent. -/
theorem rows_consistent_resurrected :
    ∃ c : Running (Fin 2), (c.trace.before 1).world.row 1 = none ∧
      ∃ r, c.trace.world.row 1 = some r ∧ r.Consistent := by
  obtain ⟨c, hreach, hback⟩ := Reach.exists_of_execute system (fun _ _ _ _ => True)
    (duelPlaying.begin updateAndDelete)
    (.replicate 1 (0, false) ++ .replicate 2 (1, false) ++ [(0, false)])
    (fun c => (c.trace.before 1).world.row 1 = none ∧ (c.trace.world.row 1).isSome) (by decide)
  obtain ⟨hdeleted, hstored⟩ := of_decide_eq_true hback
  obtain ⟨r, hrow⟩ := Option.isSome_iff_exists.mp hstored
  refine ⟨c, hdeleted, r, hrow, rows_consistent (fun matchId r hr => ?_) hreach (.refl _) hrow⟩
  exact (World.run_wellKept signedIn (duel.take 2) matchId r hr).consistent

/-! ## What the rows of one match share -/

/-- The rows are of one match: they have one creator, one type and one time of creation. -/
structure MatchRow.SameMatch (r s : MatchRow) : Prop where
  createdBy : s.createdBy = r.createdBy
  matchType : s.matchType = r.matchType
  createdAt : s.createdAt = r.createdAt

namespace MatchRow.SameMatch

variable {r s t : MatchRow}

theorem refl (r : MatchRow) : r.SameMatch r := ⟨rfl, rfl, rfl⟩

theorem symm (h : r.SameMatch s) : s.SameMatch r :=
  ⟨h.createdBy.symm, h.matchType.symm, h.createdAt.symm⟩

theorem trans (h : r.SameMatch s) (h' : s.SameMatch t) : r.SameMatch t :=
  ⟨h'.createdBy.trans h.createdBy, h'.matchType.trans h.matchType,
    h'.createdAt.trans h.createdAt⟩

end MatchRow.SameMatch

/-- A request makes a row of the same match. -/
theorem Request.Writes.sameMatch {r r' : MatchRow} (hwrites : request.Writes matchId r r') :
    r.SameMatch r' := by
  cases hwrites with
  | save saves => cases saves <;> exact ⟨rfl, rfl, rfl⟩
  | keep | confirm | overrideResult => exact ⟨rfl, rfl, rfl⟩

/-- The ids of all matches stored so far have been given out, and the rows stored under one id are of
one match. -/
structure OneMatchPerId (h : History θ) : Prop where
  issued : ∀ h₀, Past h₀ h → ∀ id r, h₀.world.row id = some r → id < h.world.nextMatchId
  same : ∀ h₀ h₁, Past h₀ h → Past h₁ h → ∀ id r s, h₀.world.row id = some r →
    h₁.world.row id = some s → r.SameMatch s

/-- A call keeps each id to one match. -/
theorem OneMatchPerId.snoc {input : Input} (hone : OneMatchPerId h) (hdoes : input.Does h event)
    (hnext : h.world.nextMatchId ≤ event.world.nextMatchId) : OneMatchPerId (h.snoc event) := by
  -- A row after the call is of the match its id stood for, or it has a new id.
  have hrow : ∀ id s, event.world.row id = some s → id < event.world.nextMatchId ∧
      ∀ h₀, Past h₀ h → ∀ r, h₀.world.row id = some r → r.SameMatch s := by
    intro id s hs
    rcases hdoes.origin hs with hstored | ⟨request, -, horigin⟩
    · exact ⟨(hone.issued h (.refl h) id s hstored).trans_le hnext,
        fun h₀ hpast r hr => hone.same h₀ h hpast (.refl h) id r s hr hstored⟩
    · cases horigin with
      | written past read writes =>
          exact ⟨(hone.issued _ past id _ read).trans_le hnext, fun h₀ hpast r hr =>
            (hone.same h₀ _ hpast past id r _ hr read).trans writes.sameMatch⟩
      | created route next issued new =>
          refine ⟨next ▸ issued ▸ Nat.lt_succ_self _, fun h₀ hpast r hr => ?_⟩
          exact absurd next (hone.issued h₀ hpast id r hr).ne
  constructor
  · intro h₀ hpast id r hr
    rcases hpast.of_snoc with rfl | hpast
    · exact (hrow id r hr).1
    · exact (hone.issued h₀ hpast id r hr).trans_le hnext
  · intro h₀ h₁ hpast₀ hpast₁ id r s hr hs
    rcases hpast₀.of_snoc with rfl | hpast₀ <;> rcases hpast₁.of_snoc with rfl | hpast₁
    · obtain rfl := Option.some.inj (hr.symm.trans hs)
      exact .refl r
    · exact ((hrow id r hr).2 h₁ hpast₁ s hs).symm
    · exact (hrow id s hs).2 h₀ hpast₀ r hr
    · exact hone.same h₀ h₁ hpast₀ hpast₁ id r s hr hs

/-- Every state of a run keeps each id to one match. -/
theorem oneMatchPerId_of_past [DecidableEq θ] {inputs : θ → Input} {w : World}
    {allow : θ → History θ → Call → Bool → Prop} {c : Running θ} (hw : w.Sound)
    (hreach : Reach system allow (w.begin inputs) c) {h : History θ} (hpast : Past h c.trace) :
    OneMatchPerId h := by
  have hsteps : h.Steps fun h e =>
      (inputs e.tid).Does h e ∧ h.world.nextMatchId ≤ e.world.nextMatchId :=
    fun later e earlier he => ⟨(steps_does hreach).past hpast later e earlier he,
      ((steps_grow hreach).past hpast later e earlier he).nextMatchId⟩
  refine hsteps.induction ⟨?_, ?_⟩ fun h e _ _ hone hstep => hone.snoc hstep.1 hstep.2
  · intro h₀ hpast₀ id r hr
    obtain rfl := hpast₀.of_nil
    rw [world_nil, hpast.1, hreach.init] at hr ⊢
    exact Effect.issued_of_row hw hr
  · intro h₀ h₁ hpast₀ hpast₁ id r s hr hs
    obtain rfl := hpast₀.of_nil
    obtain rfl := hpast₁.of_nil
    obtain rfl := Option.some.inj (hr.symm.trans hs)
    exact .refl r

/-- In every interleaving of any requests, with locked sections as one step and any failing calls, an
id stands for one match: at any two moments at which a match is stored under an id, `AUTO_INCREMENT`
has given the id out, and the match has the same creator, type and time of creation, also when it
was deleted in between. -/
theorem matches_keep_identity [DecidableEq θ] {inputs : θ → Input} {w : World}
    {allow : θ → History θ → Call → Bool → Prop} {c : Running θ} (hw : w.Sound)
    (hreach : Reach system allow (w.begin inputs) c) {h₀ h₁ : History θ}
    (hpast₀ : Past h₀ c.trace) (hpast₁ : Past h₁ c.trace) {matchId : MatchId} {r s : MatchRow}
    (hr : h₀.world.row matchId = some r) (hs : h₁.world.row matchId = some s) :
    (matchId < h₀.world.nextMatchId ∧ matchId < h₁.world.nextMatchId) ∧
      s.createdBy = r.createdBy ∧ s.matchType = r.matchType ∧ s.createdAt = r.createdAt := by
  have hissued₀ := (oneMatchPerId_of_past hw hreach hpast₀).issued h₀ (.refl _) matchId r hr
  have hissued₁ := (oneMatchPerId_of_past hw hreach hpast₁).issued h₁ (.refl _) matchId s hs
  have hsame := (oneMatchPerId_of_past hw hreach (.refl _)).same h₀ h₁ hpast₀ hpast₁ matchId r s
    hr hs
  exact ⟨⟨hissued₀, hissued₁⟩, hsame.createdBy, hsame.matchType, hsame.createdAt⟩

/-- A run of requests from the empty store leaves a sound world. -/
theorem World.sound_run (users : Table UserEntity.id) (inputs : List Input) :
    ((World.withUsers users).run inputs).Sound :=
  World.run_induction (World.steps_of_forall (fun _ _ => trivial) _ _)
    (World.sound_withUsers users) fun _ input _ hw => Input.sound hw input

/-- The match that `mario` saves after `admin` has deleted it is `mario`'s one-on-one. -/
theorem matches_keep_identity_resurrected :
    ∃ c : Running (Fin 2), (c.trace.before 1).world.row 1 = none ∧
      ∃ r, c.trace.world.row 1 = some r ∧ 1 < c.trace.world.nextMatchId ∧
        r.createdBy = some 1 ∧ r.matchType = .oneVsOne := by
  obtain ⟨c, hreach, hback⟩ := Reach.exists_of_execute system (fun _ _ _ _ => True)
    (duelPlaying.begin updateAndDelete)
    (.replicate 1 (0, false) ++ .replicate 2 (1, false) ++ [(0, false)])
    (fun c => (c.trace.before 1).world.row 1 = none ∧ (c.trace.world.row 1).isSome) (by decide)
  obtain ⟨hdeleted, hstored⟩ := of_decide_eq_true hback
  obtain ⟨r, hrow⟩ := Option.isSome_iff_exists.mp hstored
  have hfirst : duelPlaying.row 1 =
      some ⟨1, some 1, .oneVsOne, .playing, none, none, 0, 0, none, none⟩ := by decide
  have hsame := matches_keep_identity (World.sound_run signedIn (duel.take 2)) hreach
    (past_begin hreach) (.refl _) hfirst hrow
  exact ⟨c, hdeleted, r, hrow, hsame.1.2, hsame.2.1, hsame.2.2.1⟩

end FoosballApi.Matches
