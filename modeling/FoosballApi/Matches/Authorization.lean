import FoosballApi.Matches.RowHistory

/-!
# Who may change a match

Requests check the creator, the roster or the role on what they read, and write later, when other
requests may have changed the match. As the creator of a match never changes, and a vote is written
under the caller's own id, the checks still hold of the match that is written to: in every
interleaving a match is changed by its creator, by a vote of one of its players, or by an admin.
The runs are those of `system`, in which the locked section of a confirmation is one step. That a
vote confirms only at the quorum rests on it: the votes are counted before the row is saved.

`Request.Checked` adds to `Request.Does` the checks that precede some of the calls.
-/

namespace FoosballApi.Matches

open Calls Prog Trace World

variable {θ : Type} {request : Request} {h : History θ} {event : CallEvent θ} {matchId : MatchId}

/-- The routes that change a match for its creator. -/
def Route.ForCreator (matchId : MatchId) : Route → Prop
  | .updateMatch id _ | .addPlayers id _ | .submitResult id _ | .cancelConfirmation id =>
      id = matchId
  | _ => False

/-- The routes that change a match for an admin. -/
def Route.ForAdmin (matchId : MatchId) : Route → Prop
  | .deleteMatch id | .adminDeleteMatch id | .adminOverrideResult id _ => id = matchId
  | _ => False

/-- The routes behind the admin guard. -/
def Route.guarded : Route → Bool
  | .deleteMatch _ | .adminDeleteMatch _ | .adminOverrideResult .. | .getMatchAuditLog _ => true
  | _ => false

/-- The match was read as a row that satisfies a condition. -/
def ReadAs (h : History θ) (matchId : MatchId) (condition : MatchRow → Prop) : Prop :=
  ∃ (h₀ : History θ) (r : MatchRow), Past h₀ h ∧ h₀.world.row matchId = some r ∧ condition r

/-- The checks that a request has made before a call. -/
structure Request.Checked (request : Request) (h : History θ) (op : Call) : Prop where
  admin : request.route.guarded = true → request.user.isAdmin = true
  cancel : ∀ id, request.route = .cancelConfirmation id → op = .deleteAllConfirmations id →
    ReadAs h id fun r => r.createdBy = some request.user.sub
  delete : ∀ id data, request.route = .adminDeleteMatch id → op = .saveAuditLog data →
    ReadAs h id fun r => r.status = .confirmed ∧
      data = AdminOverrideService.deleteAuditData ⟨r, none⟩ id request.user.sub

/-! ## Every call was checked -/

section Calls

variable {α : Type} {C : Contract θ Call Call.Result Failure World} {tid : θ} {s : Session}

/-- The contract admits the calls that a request has checked. -/
def AdmitsChecked (C : Contract θ Call Call.Result Failure World) (tid : θ) (request : Request) :
    Prop :=
  ∀ h event, event.tid = tid → request.Checked h event.op → C.guar h event

/-- A checked call, with what follows it when it goes through. -/
theorem checked_call {op : Call} {next : op.Result → Api α} (hadmits : AdmitsChecked C tid request)
    (hchecked : ∀ h', Past h h' → request.Checked h' op)
    (hnext : ∀ h' value, Past h h' → (exec op s h'.world).1 = .ok value →
      Safe system C tid (next value) (exec op s h'.world).2.1
        (h'.snoc ⟨tid, op, .ok value, (exec op s h'.world).2.2⟩)) :
    Safe system C tid (await op >>= next) s h := by
  refine wp_perform_bind fun h' hmean _ fails _ => ?_
  have hpast := hmean.past
  refine ⟨hadmits _ _ rfl (hchecked h' hpast), ?_⟩
  rcases perform_cases fails op s h'.world with hperform | hperform <;> rw [hperform]
  · cases hresult : (exec op s h'.world).1 with
    | ok value => exact hnext h' value hpast hresult
    | error failure => exact trivial
  · exact trivial

/-- A program whose calls need no check but that of the guard. -/
theorem checked_all {program : Api α} (hadmits : AdmitsChecked C tid request)
    (hchecked : ∀ (h : History θ) op, request.Checked h op) :
    Safe system C tid program s h :=
  safe_of_issues (issues_of_forall (fun _ => (trivial : True)) program)
    fun op _ h _ _ _ _ => hadmits h _ rfl (hchecked h op)

/-- The calls of a route that needs no check but that of the guard. -/
theorem checked_of_route {op : Call}
    (hadmin : request.route.guarded = true → request.user.isAdmin = true)
    (hcancel : ∀ id, request.route ≠ .cancelConfirmation id)
    (hdelete : ∀ id, request.route ≠ .adminDeleteMatch id) : request.Checked h op :=
  ⟨hadmin, fun id hroute => absurd hroute (hcancel id),
    fun id _ hroute => absurd hroute (hdelete id)⟩

/-- `cancel` deletes the votes after the creator check. -/
theorem cancel_checked (hadmits : AdmitsChecked C tid request)
    (hroute : request.route = .cancelConfirmation matchId) :
    Safe system C tid (ConfirmationService.cancel matchId request.user.sub) s h := by
  have hopen : request.route.guarded = true → request.user.isAdmin = true := by
    rw [hroute]
    exact nofun
  have hdelete : ∀ (h : History θ) (op : Call) id data, request.route = .adminDeleteMatch id →
      op = .saveAuditLog data → ReadAs h id fun r => r.status = .confirmed ∧
        data = AdminOverrideService.deleteAuditData ⟨r, none⟩ id request.user.sub := by
    intro h op id data hadmin
    cases hroute.symm.trans hadmin
  have hother : ∀ (h : History θ) op, (∀ id, op ≠ .deleteAllConfirmations id) →
      request.Checked h op := fun h op hop =>
    ⟨hopen, fun id _ heq => absurd heq (hop id), hdelete h op⟩
  unfold ConfirmationService.cancel
  refine checked_call hadmits (fun h' _ => hother h' _ fun _ => Call.noConfusion) fun h₀ m _ hm => ?_
  obtain rfl : h₀.world.findById matchId = m := Except.ok.inj hm
  refine safe_require fun m hm => ?_
  obtain ⟨r, hrow, rfl⟩ := Option.map_eq_some_iff.mp hm
  refine safe_throwIf fun _ => ?_
  refine safe_throwIf fun _ => ?_
  refine safe_throwIf fun hcreator => ?_
  refine checked_call hadmits (fun h' hpast => ⟨hopen, fun id hcancel _ => ?_, hdelete h' _⟩)
    fun _ _ _ _ => ?_
  · obtain rfl : matchId = id := Route.cancelConfirmation.inj (hroute.symm.trans hcancel)
    exact ⟨h₀, r, (past_snoc _ _).trans hpast, hrow, not_notCreator.mp hcreator⟩
  refine checked_call hadmits (fun h' _ => hother h' _ fun _ => Call.noConfusion) fun _ _ _ _ => ?_
  refine checked_call hadmits (fun h' _ => hother h' _ fun _ => Call.noConfusion) fun _ _ _ _ => ?_
  refine checked_call hadmits (fun h' _ => hother h' _ fun _ => Call.noConfusion) fun _ _ _ _ => ?_
  exact checked_call hadmits (fun h' _ => hother h' _ fun _ => Call.noConfusion)
    fun _ _ _ _ => trivial

/-- `AdminOverrideService.deleteMatch` records the row it has read as confirmed. -/
theorem deleteMatch_checked (hadmits : AdmitsChecked C tid request)
    (hroute : request.route = .adminDeleteMatch matchId) (hadmin : request.user.isAdmin = true) :
    Safe system C tid
      (AdminOverrideService.deleteMatch matchId request.user.sub request.user.isAdmin) s h := by
  have hcancel : ∀ (h : History θ) (op : Call) id, request.route = .cancelConfirmation id →
      op = .deleteAllConfirmations id →
        ReadAs h id fun r => r.createdBy = some request.user.sub := by
    intro h op id hcancel
    cases hroute.symm.trans hcancel
  have hother : ∀ (h : History θ) op, (∀ data, op ≠ .saveAuditLog data) → request.Checked h op :=
    fun h op hop => ⟨fun _ => hadmin, hcancel h op, fun id data _ heq => absurd heq (hop data)⟩
  unfold AdminOverrideService.deleteMatch
  refine safe_throwIf fun _ => ?_
  refine checked_call hadmits (fun h' _ => hother h' _ fun _ => Call.noConfusion) fun h₀ m _ hm => ?_
  obtain rfl : h₀.world.findById matchId = m := Except.ok.inj hm
  refine safe_require fun m hm => ?_
  obtain ⟨r, hrow, rfl⟩ := Option.map_eq_some_iff.mp hm
  have hdelete : ∀ s' h', Safe system C tid (await (.delete matchId)) s' h' := fun s' h' =>
    safe_last (checked_call hadmits (fun h' _ => hother h' _ fun _ => Call.noConfusion)
      fun _ _ _ _ => trivial)
  unfold AdminOverrideService.recordDelete
  split
  · next hconfirmed =>
      rw [Prog.bind_assoc]
      refine checked_call hadmits (fun h' hpast => ⟨fun _ => hadmin, hcancel h' _,
        fun id data hid hdata => ?_⟩) fun _ _ _ _ => hdelete _ _
      obtain rfl : matchId = id := Route.adminDeleteMatch.inj (hroute.symm.trans hid)
      exact ⟨h₀, r, (past_snoc _ _).trans hpast, hrow, hconfirmed,
        (Call.saveAuditLog.inj hdata).symm⟩
  · exact hdelete _ _

/-- Every call of a request was checked. -/
theorem Request.safe_checked (hadmits : AdmitsChecked C tid request) :
    Safe system C tid request.prog {} h := by
  obtain ⟨user, route⟩ := request
  cases route with
  | cancelConfirmation id => exact safe_map (cancel_checked hadmits rfl)
  | adminDeleteMatch id =>
      exact safe_throwIf fun hrole =>
        safe_map (deleteMatch_checked hadmits rfl (Decidable.not_not.mp hrole))
  | deleteMatch | adminOverrideResult | getMatchAuditLog =>
      refine safe_throwIf fun hrole => checked_all hadmits fun _ _ => ?_
      exact checked_of_route (fun _ => Decidable.not_not.mp hrole) (fun _ => Route.noConfusion)
        fun _ => Route.noConfusion
  | createMatch | getMatch | updateMatch | addPlayers | submitResult | getConfirmationStatus
  | confirmResult =>
      refine checked_all hadmits fun _ _ => ?_
      exact checked_of_route Bool.noConfusion (fun _ => Route.noConfusion)
        fun _ => Route.noConfusion

end Calls

/-- Every call of a request in a run was checked. -/
theorem steps_checked [DecidableEq θ] {inputs : θ → Input} {w : World}
    {allow : θ → History θ → Call → Bool → Prop} {c : Running θ}
    (hreach : Reach system allow (w.begin inputs) c) :
    c.trace.Steps fun h e => ∀ request, inputs e.tid = .request request →
      request.Checked h e.op :=
  steps_of_requests (P := fun request h e => request.Checked h e.op) hreach
    fun _ _ _ _ => Request.safe_checked

/-! ## Changes of a match -/

/-- Every row of the match that was stored so far names the user as its creator, and there was
one. -/
structure CreatedBy (h : History θ) (matchId : MatchId) (userId : UserId) : Prop where
  stored : ReadAs h matchId fun _ => True
  always : ∀ h₀, Past h₀ h → ∀ r, h₀.world.row matchId = some r → r.createdBy = some userId

/-- The changes that a request may make to a match. -/
inductive Request.MayChange (request : Request) (h : History θ) (matchId : MatchId)
    (v v' : MatchView) : Prop
  | create {dto : CreateMatchDto} (route : request.route = .createMatch dto) (new : v.row = none)
      {r : MatchRow} (row : v' = { v with row := some r })
      (creator : r.createdBy = some request.user.sub)
  | creator (route : request.route.ForCreator matchId)
      (creator : CreatedBy h matchId request.user.sub)
  | vote (route : request.route = .confirmResult matchId) {h₀ : History θ} (past : Past h₀ h)
      (cast : Cast request.user.sub (h₀.world.roster matchId) v.votes v'.votes)
      (roster : v'.roster = v.roster)
      (row : v'.row = v.row ∨ ∃ r confirmedAt updatedAt, v.row = some r ∧
        r.status = .awaitingConfirmation ∧
        calculateQuorum (h₀.world.roster matchId).length ≤ v'.votes.length ∧
        v'.row = some { r.confirmedAtTime confirmedAt with updatedAt := updatedAt })
  | admin (route : request.route.ForAdmin matchId) (admin : request.user.isAdmin = true)

/-- A row that names its creator makes the user the creator of the match. -/
theorem ReadAs.createdBy {userId : UserId} (hone : OneMatchPerId h)
    (hread : ReadAs h matchId fun r => r.createdBy = some userId) :
    CreatedBy h matchId userId := by
  obtain ⟨h₀, r, hpast, hrow, hcreator⟩ := hread
  refine ⟨⟨h₀, r, hpast, hrow, trivial⟩, fun h₁ hpast₁ s hs => ?_⟩
  exact (hone.same h₀ h₁ hpast hpast₁ matchId r s hrow hs).createdBy.trans hcreator

/-- Who saves a match has read it as its creator, on a route for creators. -/
theorem Request.Saves.forCreator {r r' : MatchRow} (hsaves : request.Saves matchId r r') :
    request.route.ForCreator matchId ∧ r.createdBy = some request.user.sub := by
  cases hsaves with
  | update route creator | startPlaying route creator | submitResult route creator
  | cancel route creator =>
      rw [route]
      exact ⟨rfl, creator⟩

/-- What a call of a request changes of a match, the request may change. -/
theorem Request.Does.mayChange (hdoes : request.Does h event)
    (hchecked : request.Checked h event.op) (hone : OneMatchPerId h)
    (hchanged : event.world.matchView matchId ≠ h.world.matchView matchId) :
    request.MayChange h matchId (h.world.matchView matchId) (event.world.matchView matchId) := by
  cases hdoes with
  | silent same => exact absurd (same.matchView matchId) hchanged
  | @create tid dto route r new =>
      by_cases hid : matchId = r.id
      · subst hid
        refine .create route ?_ matchView_insertMatch (by rw [new]; rfl)
        -- The id was never given out before.
        have hnext : r.id = h.world.nextMatchId := by rw [new]; rfl
        cases hrow : h.world.row r.id with
        | none => exact hrow
        | some s => exact absurd hnext (hone.issued h (.refl h) r.id s hrow).ne
      · exact absurd (matchView_insertMatch_of_ne hid) hchanged
  | @save tid id h₀ r r' past read saves m written =>
      obtain ⟨hroute, hcreator⟩ := saves.forCreator
      have howner := ReadAs.createdBy hone ⟨h₀, r, past, read, hcreator⟩
      have hid : m.id = id := by rw [written, saves.id, id_of_row read]
      by_cases hmatch : matchId = id
      · subst hmatch
        exact .creator hroute howner
      · refine absurd (matchView_saveMatch_of_ne (hid ▸ hmatch) fun _ => ?_) hchanged
        exact roster_own hid (by rw [written])
  | @savePlayers tid id dto route h₀ h₁ r past counted read creator editable room ps written w'
      accepted =>
      by_cases hmatch : matchId = id
      · subst hmatch
        refine .creator (by rw [route]; rfl) (ReadAs.createdBy hone ⟨h₀, r, ?_, read, creator⟩)
        exact (past.trans (past_snoc _ _)).trans counted
      · have hown : ∀ p ∈ ps, p.matchId = id := written ▸ dto.matchId_rows id
        exact absurd (matchView_savePlayers_of_ne accepted hown hmatch) hchanged
  | @deleteVotes tid id route h₀ r past read awaiting =>
      by_cases hmatch : matchId = id
      · subst hmatch
        exact .creator (by rw [route]; rfl) (ReadAs.createdBy hone (hchecked.cancel _ route rfl))
      · exact absurd (matchView_deleteAllConfirmations_of_ne hmatch) hchanged
  | @vote tid id r players votes below =>
      by_cases hmatch : matchId = id
      · subst hmatch
        obtain ⟨h₁, h₂, rfl, hread, hlocked, -⟩ := votes.reads
        have hpast := ((past_snoc _ _).trans hread).trans ((past_snoc _ _).trans hlocked)
        refine .vote votes.route hpast (votedWorld_cast _ _ votes.player) ?_ (.inl ?_)
        · exact roster_votedWorld _ _ _ _
        · exact row_votedWorld _ _ _ _
      · exact absurd (votedWorld_others matchId hmatch) hchanged
  | @confirm tid id r players votes quorum h₃ counted confirmedAt =>
      have hid : r.id = id := id_of_row votes.row
      have hrow : (h.world.votedWorld id request.user.sub).row r.id = some r := by
        rw [row_votedWorld, hid]
        exact votes.row
      by_cases hmatch : matchId = id
      · subst hmatch
        obtain ⟨h₁, h₂, rfl, hread, hlocked, -⟩ := votes.reads
        have hpast := ((past_snoc _ _).trans hread).trans ((past_snoc _ _).trans hlocked)
        obtain ⟨t, hview⟩ := matchView_saveMatch (m := ⟨r.confirmedAtTime confirmedAt, none⟩) hid
          (hid ▸ hrow)
        rw [hview, roster_votedWorld]
        exact .vote votes.route hpast (votedWorld_cast _ _ votes.player) rfl
          (.inr ⟨r, confirmedAt, t, votes.row, votes.awaiting, quorum, rfl⟩)
      · refine absurd ?_ hchanged
        rw [matchView_saveMatch_of_ne (hid ▸ hmatch) fun hnone => ?_,
          votedWorld_others matchId hmatch]
        exact absurd (hrow.symm.trans hnone) (Option.some_ne_none r)
  | announce => exact absurd ((sameTables_enqueue _ _ _).matchView matchId) hchanged
  | @overrideResult tid id dto route h₀ h₁ r reading read confirmed job payload announced m written
      entry data =>
      have hid : m.id = id := by
        rw [written]
        exact (id_of_row read : r.id = id)
      have hsame := (sameTables_appendAuditLog (h.world.saveMatch m) entry).matchView matchId
      by_cases hmatch : matchId = id
      · subst hmatch
        exact .admin (by rw [route]; rfl) (hchecked.admin (by rw [route]; rfl))
      · refine absurd (hsame.trans (matchView_saveMatch_of_ne (hid ▸ hmatch) fun _ => ?_)) hchanged
        exact roster_own hid (by rw [written])
  | @recordDelete tid id route data action =>
      refine absurd (SameTables.matchView ?_ matchId) hchanged
      exact (sameTables_takeAuditId h.world).trans
        (sameTables_appendAuditLog _ (h.world.newAuditLog data))
  | @delete tid id route admin =>
      by_cases hmatch : matchId = id
      · subst hmatch
        refine .admin ?_ admin
        rcases route with route | route <;> rw [route] <;> exact rfl
      · exact absurd (matchView_deleteMatch_of_ne hmatch) hchanged

/-- In every interleaving of any requests, with locked sections as one step and any failing calls,
every call that changes a match belongs to a request that may change it: it creates the match for
its caller, its caller is the creator that all rows of the match name, it adds the caller's own vote
and at most confirms the match with it, or its caller is an admin. -/
theorem changes_authorized [DecidableEq θ] {inputs : θ → Input} {w : World}
    {allow : θ → History θ → Call → Bool → Prop} {c : Running θ} (hw : w.Sound)
    (hreach : Reach system allow (w.begin inputs) c) :
    c.trace.Steps fun h e => ∀ matchId,
      e.world.matchView matchId ≠ h.world.matchView matchId →
        ∃ request, inputs e.tid = .request request ∧
          request.MayChange h matchId (h.world.matchView matchId)
            (e.world.matchView matchId) := by
  intro later e earlier he matchId hchanged
  have hdoes : (inputs e.tid).Does ⟨c.trace.init, earlier⟩ e :=
    steps_does hreach later e earlier he
  have hchecked := steps_checked hreach later e earlier he
  have hone := oneMatchPerId_of_past hw hreach (past_of_events he)
  cases hinput : inputs e.tid with
  | request request =>
      rw [hinput] at hdoes
      exact ⟨request, rfl, Request.Does.mayChange hdoes (hchecked request hinput) hone hchanged⟩
  | signIn | tick =>
      rw [hinput] at hdoes
      exact absurd (Silent.matchView hdoes matchId) hchanged

/-- `mario`, who saves the match after `admin` has deleted it, is its creator. -/
theorem changes_authorized_resurrected :
    ∃ (h : History (Fin 2)) (e : CallEvent (Fin 2)),
      e.world.matchView 1 ≠ h.world.matchView 1 ∧
        ∃ request, updateAndDelete e.tid = .request request ∧
          request.MayChange h 1 (h.world.matchView 1) (e.world.matchView 1) := by
  obtain ⟨c, hreach, hback⟩ := Reach.exists_of_execute system (fun _ _ _ _ => True)
    (duelPlaying.begin updateAndDelete)
    (.replicate 1 (0, false) ++ .replicate 2 (1, false) ++ [(0, false)])
    (fun c => (c.trace.before 1).world.row 1 = none ∧ (c.trace.world.row 1).isSome) (by decide)
  obtain ⟨hdeleted, hstored⟩ := of_decide_eq_true hback
  obtain ⟨h, e, -, hpast, hnone, hsome⟩ := (past_before c.trace 1).exists_step
    (P := fun w => (w.row 1).isSome) (by simp [hdeleted]) hstored
  have hchanged : e.world.matchView 1 ≠ h.world.matchView 1 := fun heq =>
    hnone (congrArg (·.row.isSome) heq ▸ hsome)
  have hsteps := changes_authorized (World.sound_run signedIn (duel.take 2)) hreach
  exact ⟨h, e, hchanged, hsteps.of_past hpast 1 hchanged⟩

/-! ## Rows of the audit log -/

/-- The audit row that a call of a request adds: an override records the scores that the match was
read with and those that it has after the call, a deletion the row that was read as confirmed. -/
inductive Request.Records (request : Request) (h : History θ) (event : CallEvent θ)
    (data : AuditLogData) : Prop
  | overrideResult {matchId : MatchId} {dto : AdminOverrideResultDto}
      (route : request.route = .adminOverrideResult matchId dto)
      (read : ReadAs h matchId fun r => r.status = .confirmed ∧
        data = overrideData request matchId dto r)
      (written : ∃ r', event.world.row matchId = some r' ∧ r'.scoreA = some dto.scoreA ∧
        r'.scoreB = some dto.scoreB)
  | delete {matchId : MatchId} (route : request.route = .adminDeleteMatch matchId)
      (read : ReadAs h matchId fun r => r.status = .confirmed ∧
        data = AdminOverrideService.deleteAuditData ⟨r, none⟩ matchId request.user.sub)

/-- What a call of a request does to the audit log. -/
theorem Request.Does.records (hdoes : request.Does h event)
    (hchecked : request.Checked h event.op) :
    event.world.auditLogs = h.world.auditLogs ∨
      ∃ entry, event.world.auditLogs = h.world.auditLogs ++ [entry] ∧
        request.user.isAdmin = true ∧ request.Records h event entry.toAuditLogData := by
  cases hdoes with
  | silent same => exact .inl same.auditLogs
  | create | deleteVotes => exact .inl rfl
  | save => exact .inl (auditLogs_saveMatch _)
  | savePlayers route past counted read creator editable room written accepted =>
      refine .inl ?_
      show (_ : World).auditLogs = _
      rw [savePlayers_frame accepted]
  | @vote tid id =>
      refine .inl ?_
      show (h.world.votedWorld id request.user.sub).auditLogs = _
      rw [votedWorld_eq]
  | @confirm tid id =>
      refine .inl ((auditLogs_saveMatch _).trans ?_)
      rw [votedWorld_eq]
  | announce => exact .inl rfl
  | delete => exact .inl rfl
  | @overrideResult tid id dto route h₀ h₁ r reading read confirmed job payload announced m written
      entry data =>
      have hid : m.id = id := by
        rw [written]
        exact (id_of_row read : r.id = id)
      have hpast := ((past_snoc _ _).trans reading.snoc).trans announced
      refine .inr ⟨entry, ?_, hchecked.admin (by rw [route]; rfl),
        .overrideResult route ⟨h₀, r, hpast, read, confirmed, data⟩ ?_⟩
      · show (h.world.saveMatch m).auditLogs ++ [entry] = _
        rw [auditLogs_saveMatch]
      · obtain ⟨t, hrow⟩ := row_saveMatch_self (w := h.world) m
        rw [hid] at hrow
        refine ⟨_, hrow, ?_⟩
        rw [written]
        exact ⟨rfl, rfl⟩
  | @recordDelete tid id route data action =>
      exact .inr ⟨h.world.newAuditLog data, rfl, hchecked.admin (by rw [route]; rfl),
        .delete route (hchecked.delete id data route rfl)⟩

/-- In every interleaving of any requests, with locked sections as one step and any failing calls,
the audit log only grows, and each row that is added names the admin whose call adds it and records
what that admin does: the scores before and after the override that is stored with it, or the
confirmed match that is about to be deleted. -/
theorem audit_trail_authentic [DecidableEq θ] {inputs : θ → Input} {w : World}
    {allow : θ → History θ → Call → Bool → Prop} {c : Running θ}
    (hreach : Reach system allow (w.begin inputs) c) :
    c.trace.Steps fun h e => e.world.auditLogs = h.world.auditLogs ∨
      ∃ request entry, inputs e.tid = .request request ∧
        e.world.auditLogs = h.world.auditLogs ++ [entry] ∧ request.user.isAdmin = true ∧
          entry.actorId = some request.user.sub ∧
            request.Records h e entry.toAuditLogData := by
  intro later e earlier he
  have hdoes : (inputs e.tid).Does ⟨c.trace.init, earlier⟩ e :=
    steps_does hreach later e earlier he
  have hchecked := steps_checked hreach later e earlier he
  cases hinput : inputs e.tid with
  | request request =>
      rw [hinput] at hdoes
      rcases Request.Does.records hdoes (hchecked request hinput) with hsame | hadded
      · exact .inl hsame
      · obtain ⟨entry, hlogs, hadmin, hrecords⟩ := hadded
        refine .inr ⟨request, entry, rfl, hlogs, hadmin, ?_, hrecords⟩
        cases hrecords with
        | overrideResult route read written =>
            obtain ⟨_, r, -, -, -, hdata⟩ := read
            rw [hdata]
            rfl
        | delete route read =>
            obtain ⟨_, r, -, -, -, hdata⟩ := read
            rw [hdata]
            rfl
  | signIn | tick =>
      rw [hinput] at hdoes
      exact .inl (Silent.auditLogs hdoes)

/-- `admin` overrides the result of the match, and `mario` asks for its deletion. -/
def overrideAndDelete : Fin 2 → Input
  | 0 => .request ⟨admin, .adminOverrideResult 1 ⟨2, 2, none, no_reason_length⟩⟩
  | 1 => .request ⟨mario, .adminDeleteMatch 1⟩

/-- The override of the confirmed match adds a row that names `admin`. -/
theorem audit_trail_authentic_override :
    ∃ (h : History (Fin 2)) (e : CallEvent (Fin 2)) (entry : AuditLogEntity),
      e.world.auditLogs = h.world.auditLogs ++ [entry] ∧
        ∃ request, overrideAndDelete e.tid = .request request ∧ request.user.isAdmin = true ∧
          entry.actorId = some request.user.sub := by
  obtain ⟨c, hreach, hlogs⟩ := Reach.exists_of_execute system (fun _ _ _ _ => True)
    (((World.withUsers signedIn).run duelConfirmed).begin overrideAndDelete)
    (.replicate 12 (0, false)) (fun c => c.trace.world.auditLogs ≠ []) (by decide)
  obtain ⟨h, e, -, hpast, hbefore, hafter⟩ := (past_begin hreach).exists_step
    (P := fun w => w.auditLogs ≠ []) (by rw [world_nil]; decide) (of_decide_eq_true hlogs)
  rcases (audit_trail_authentic hreach).of_past hpast with hsame | ⟨request, entry, hadded⟩
  · exact absurd (hsame ▸ hafter) hbefore
  · obtain ⟨hinput, hlogs, hadmin, hactor, -⟩ := hadded
    exact ⟨h, e, entry, hlogs, request, hinput, hadmin, hactor⟩

end FoosballApi.Matches
