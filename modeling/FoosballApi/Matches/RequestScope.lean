import FoosballApi.Matches.Isolation
import FoosballApi.Matches.Queues
import FoosballApi.Matches.Requests

/-!
# Each request is about one match

Every request but `createMatch` makes calls about one match only, and apart from the ids of audit
rows it answers as that match is (`Request.similar`). So in two worlds that agree on the match it
answers alike, adds the same jobs and leaves them in agreement (`Request.outcome_agree`), and to
another match it makes no difference (`Request.outcome_frame`).
-/

namespace FoosballApi.Matches

open Calls Data Events Prog Prog.Similar

variable {matchId : MatchId} {userId : UserId} {w w' : World}

/-- The match a request is about. -/
def Route.target : Route → Option MatchId
  | .createMatch _ => none
  | .getMatch matchId | .updateMatch matchId _ | .deleteMatch matchId | .addPlayers matchId _
  | .submitResult matchId _ | .getConfirmationStatus matchId | .confirmResult matchId
  | .cancelConfirmation matchId | .adminOverrideResult matchId _ | .adminDeleteMatch matchId
  | .getMatchAuditLog matchId => some matchId

/-- A response with the ids of audit rows blanked. -/
def Response.withoutIds : Response → Response
  | .overrideResult result =>
      .overrideResult { result with auditLog := result.auditLog.withoutId }
  | .auditLog data => .auditLog (data.map AuditLogEntity.withoutId)
  | response => response

/-- A program makes the same calls about the match and ends the same. -/
abbrev Scoped {α : Type} (matchId : MatchId) (program : Api α) : Prop :=
  program.Similar (aboutMatch matchId) (fun a b => b = a) program

/-- A single call. -/
theorem await_similar (op : Call) (hop : op.About matchId)
    {post : op.Result → op.Result → Prop} (hpost : ∀ a b, op.Alike matchId a b → post a b) :
    (await op).Similar (aboutMatch matchId) post (await op) :=
  (Similar.perform (L := aboutMatch matchId) hop).mono hpost

/-! ## `MatchService` -/

/-- A loaded match. -/
theorem findById_scoped :
    (MatchService.findById matchId).Similar (aboutMatch matchId)
      (fun m m' => m' = m ∧ m.Of matchId) (MatchService.findById matchId) := by
  refine perform_bind rfl fun _ found hfound => ?_
  obtain ⟨rfl, hown⟩ := hfound
  refine require_bind fun m hm => ?_
  have hm := hown m hm
  split
  · exact .pure ⟨rfl, hm⟩
  · refine perform_bind rfl fun _ players hplayers => ?_
    obtain ⟨rfl, hplayers⟩ := hplayers
    exact .pure ⟨rfl, hm.1, hplayers⟩

/-- The checks before a write to an own match. -/
theorem editable_scoped {α : Type} {notCreator locked : String} {next : MatchEntity → Api α}
    (hnext : ∀ m, m.Of matchId → Scoped matchId (next m)) :
    Scoped matchId (do
      let m ← MatchService.findById matchId
      MatchService.checkEditable matchId m userId notCreator locked
      next m) := by
  refine findById_scoped.bind fun _ m hm => ?_
  obtain ⟨rfl, hown⟩ := hm
  have hchecks : (MatchService.checkEditable matchId m userId notCreator locked).Similar
      (aboutMatch matchId) (fun _ _ => True)
      (MatchService.checkEditable matchId m userId notCreator locked) :=
    throwIf_bind fun _ => throwIf
  exact hchecks.bind fun _ _ _ => hnext m hown

theorem update_scoped (dto : UpdateMatchDto) :
    Scoped matchId (MatchService.update matchId userId dto) := by
  refine editable_scoped fun m hm => ?_
  refine perform_bind ⟨hm.1, hm.2⟩ fun _ saved hsaved => ?_
  obtain rfl := hsaved
  refine perform_bind rfl fun _ players hplayers => ?_
  obtain ⟨rfl, -⟩ := hplayers
  exact .pure rfl

theorem delete_scoped (isAdmin : Bool) :
    Scoped matchId (MatchService.delete matchId userId isAdmin) := by
  refine throwIf_bind fun _ => perform_bind rfl fun _ found hfound => ?_
  obtain ⟨rfl, -⟩ := hfound
  exact require_bind fun _ _ => await_similar (.delete matchId) rfl fun _ _ h => h

theorem checkSlots_scoped (existing : List MatchPlayerEntity) (ps : List PlayerDto) :
    Scoped matchId (MatchService.checkSlots matchId existing ps) := by
  induction ps with
  | nil => exact .pure rfl
  | cons p ps ih => exact throwIf_bind fun _ => ih

theorem startPlaying_scoped {m : MatchEntity} (hm : m.Of matchId)
    (allPlayers : List MatchPlayerEntity) :
    Scoped matchId (MatchService.startPlaying m allPlayers) := by
  unfold MatchService.startPlaying
  split
  · refine perform_bind ⟨hm.1, hm.2⟩ fun _ saved hsaved => ?_
    obtain rfl := hsaved
    exact .pure rfl
  · exact .pure rfl

theorem addPlayers_scoped (dto : AddPlayersDto) :
    Scoped matchId (MatchService.addPlayers matchId userId dto) := by
  refine editable_scoped fun m hm => ?_
  refine perform_bind rfl fun _ existing hexisting => ?_
  obtain ⟨rfl, -⟩ := hexisting
  refine throwIf_bind fun _ => (checkSlots_scoped _ dto.players).bind fun _ _ _ => ?_
  refine perform_bind (dto.matchId_rows matchId) fun _ saved hsaved => ?_
  obtain rfl := hsaved
  refine perform_bind rfl fun _ allPlayers hplayers => ?_
  obtain ⟨rfl, -⟩ := hplayers
  refine (startPlaying_scoped hm allPlayers).bind fun _ started hstarted => ?_
  obtain rfl := hstarted
  exact .pure rfl

theorem submitResult_scoped (dto : SubmitResultDto) :
    Scoped matchId (MatchService.submitResult matchId userId dto) := by
  refine editable_scoped fun m hm => ?_
  refine perform_bind rfl fun _ players hplayers => ?_
  obtain ⟨rfl, -⟩ := hplayers
  refine throwIf_bind fun _ => perform_bind ⟨hm.1, hm.2⟩ fun _ saved hsaved => ?_
  obtain rfl := hsaved
  refine perform_bind trivial fun _ occurredAt hnow => ?_
  obtain rfl := hnow
  refine perform_bind (fun id hid => (Option.some.inj hid).symm) fun _ _ hadded => ?_
  exact .pure rfl

/-! ## `ConfirmationService` -/

theorem getStatus_scoped : Scoped matchId (ConfirmationService.getStatus matchId) := by
  refine perform_bind rfl fun _ found hfound => ?_
  obtain ⟨rfl, -⟩ := hfound
  refine require_bind fun _ _ => throwIf_bind fun _ => perform_bind rfl fun _ players hplayers => ?_
  obtain ⟨rfl, -⟩ := hplayers
  refine perform_bind rfl fun _ votes hvotes => ?_
  obtain rfl := hvotes
  exact .pure rfl

theorem reportCurrent_scoped (players : List MatchPlayerEntity) :
    Scoped matchId (ConfirmationService.reportCurrent matchId players) := by
  refine perform_bind trivial fun _ _ _ => perform_bind rfl fun _ votes hvotes => ?_
  obtain rfl := hvotes
  exact .pure rfl

theorem saveVote_scoped (existing : Option MatchConfirmationEntity) :
    Scoped matchId (ConfirmationService.saveVote matchId userId existing) := by
  cases existing with
  | some c => exact .pure rfl
  | none => exact perform_bind rfl fun _ _ _ => .pure rfl

theorem confirmMatch_scoped {m : MatchEntity} (hm : m.Of matchId) :
    Scoped matchId (ConfirmationService.confirmMatch matchId m) := by
  refine perform_bind trivial fun _ confirmedAt hnow => ?_
  obtain rfl := hnow
  refine perform_bind ⟨hm.1, hm.2⟩ fun _ _ _ => perform_bind trivial fun _ _ _ =>
    perform_bind trivial fun _ occurredAt hnow => ?_
  obtain rfl := hnow
  refine perform_bind (fun id hid => (Option.some.inj hid).symm) fun _ _ _ =>
    perform_bind trivial fun _ occurredAt hnow => ?_
  obtain rfl := hnow
  refine await_similar (.add ..) (fun id hid => ?_) fun _ _ h => h
  cases hid

theorem settle_scoped {m : MatchEntity} (hm : m.Of matchId) (players : List MatchPlayerEntity)
    (votes : List MatchConfirmationEntity) :
    Scoped matchId (ConfirmationService.settle matchId players m votes) := by
  unfold ConfirmationService.settle
  split
  · exact (confirmMatch_scoped hm).bind fun _ _ _ => .pure rfl
  · exact perform_bind trivial fun _ _ _ => .pure rfl

theorem castVote_scoped {m : MatchEntity} (hm : m.Of matchId) (players : List MatchPlayerEntity) :
    Scoped matchId (ConfirmationService.castVote matchId userId players m) := by
  refine perform_bind rfl fun _ existing hexisting => ?_
  obtain rfl := hexisting
  refine (saveVote_scoped existing).bind fun _ _ _ => perform_bind rfl fun _ votes hvotes => ?_
  obtain rfl := hvotes
  exact settle_scoped hm players votes

theorem lockedSection_scoped (players : List MatchPlayerEntity) :
    Scoped matchId (ConfirmationService.lockedSection matchId userId players) := by
  refine perform_bind rfl fun _ found hfound => ?_
  obtain ⟨rfl, hown⟩ := hfound
  split
  · exact reportCurrent_scoped players
  · next m hm => exact castVote_scoped (hown m (Option.mem_filter_iff.mp hm).1) players

theorem confirm_scoped : Scoped matchId (ConfirmationService.confirm matchId userId) := by
  refine perform_bind rfl fun _ found hfound => ?_
  obtain ⟨rfl, -⟩ := hfound
  refine require_bind fun _ _ => throwIf_bind fun _ => perform_bind rfl fun _ players hplayers => ?_
  obtain ⟨rfl, -⟩ := hplayers
  refine throwIf_bind fun _ => perform_bind trivial fun _ _ _ => perform_bind trivial fun _ _ _ =>
    catchFinally (lockedSection_scoped _) (fun _ => ?_) ?_
  · exact perform_bind trivial fun _ _ _ => .throw _
  · exact await_similar .release trivial fun _ _ _ => trivial

theorem cancel_scoped : Scoped matchId (ConfirmationService.cancel matchId userId) := by
  refine perform_bind rfl fun _ found hfound => ?_
  obtain ⟨rfl, hown⟩ := hfound
  refine require_bind fun m hm => throwIf_bind fun _ => throwIf_bind fun _ => throwIf_bind fun _ =>
    perform_bind rfl fun _ _ _ => perform_bind ⟨(hown m hm).1, (hown m hm).2⟩ fun _ _ _ =>
      perform_bind trivial fun _ occurredAt hnow => ?_
  obtain rfl := hnow
  refine perform_bind (fun id hid => (Option.some.inj hid).symm) fun _ _ _ =>
    perform_bind rfl fun _ players hplayers => ?_
  obtain ⟨rfl, -⟩ := hplayers
  exact .pure rfl

/-! ## `AdminOverrideService` -/

/-- An override's results differ in the id of the audit row at most. -/
theorem overrideResult_scoped (isAdmin : Bool) (dto : AdminOverrideResultDto) :
    (AdminOverrideService.overrideResult matchId userId isAdmin dto).Similar (aboutMatch matchId)
      (fun a b => b.matchEntity = a.matchEntity ∧ b.auditLog.withoutId = a.auditLog.withoutId)
      (AdminOverrideService.overrideResult matchId userId isAdmin dto) := by
  refine throwIf_bind fun _ => perform_bind rfl fun _ found hfound => ?_
  obtain ⟨rfl, hown⟩ := hfound
  refine require_bind fun m hm => throwIf_bind fun _ => perform_bind trivial fun _ _ _ =>
    perform_bind trivial fun _ _ _ => catchFinally ?_ (fun _ => ?_) ?_
  · refine perform_bind ⟨(hown m hm).1, (hown m hm).2⟩ fun _ saved hsaved => ?_
    obtain rfl := hsaved
    refine perform_bind rfl fun entry entry' hentry => perform_bind trivial fun _ now hnow => ?_
    obtain rfl := hnow
    refine perform_bind (fun id hid => (Option.some.inj hid).symm) fun _ _ _ =>
      perform_bind trivial fun _ now hnow => ?_
    obtain rfl := hnow
    refine perform_bind (fun id hid => ?_) fun _ _ _ => perform_bind trivial fun _ _ _ =>
      perform_bind rfl fun _ players hplayers => ?_
    · cases hid
    obtain ⟨rfl, -⟩ := hplayers
    exact .pure ⟨rfl, hentry⟩
  · exact perform_bind trivial fun _ _ _ => .throw _
  · exact await_similar .release trivial fun _ _ _ => trivial

theorem deleteMatch_scoped (isAdmin : Bool) :
    Scoped matchId (AdminOverrideService.deleteMatch matchId userId isAdmin) := by
  refine throwIf_bind fun _ => perform_bind rfl fun _ found hfound => ?_
  obtain ⟨rfl, -⟩ := hfound
  refine require_bind fun m _ => ?_
  have hrecord : Scoped matchId (AdminOverrideService.recordDelete m matchId userId) := by
    unfold AdminOverrideService.recordDelete
    split
    · exact perform_bind rfl fun _ _ _ => .pure rfl
    · exact .pure rfl
  exact hrecord.bind fun _ _ _ => await_similar (.delete matchId) rfl fun _ _ h => h

/-- The rows that are read differ in their ids at most. -/
theorem getAuditLog_scoped (isAdmin : Bool) :
    (AdminOverrideService.getAuditLog matchId isAdmin).Similar (aboutMatch matchId)
      (fun a b => b.map AuditLogEntity.withoutId = a.map AuditLogEntity.withoutId)
      (AdminOverrideService.getAuditLog matchId isAdmin) := by
  refine throwIf_bind fun _ => perform_bind rfl fun _ found hfound => ?_
  obtain ⟨rfl, -⟩ := hfound
  exact require_bind fun _ _ =>
    await_similar (.findAuditLogs .matchEntity matchId) rfl fun _ _ h => h

/-! ## The requests -/

/-- A handler that answers with what a service returns. -/
theorem answers_similar {α : Type} {program : Api α} (h : Scoped matchId program)
    (f : α → Response) :
    (program >>= fun value => Prog.pure (f value)).Similar (aboutMatch matchId)
      (fun a b => a.withoutIds = b.withoutIds) (program >>= fun value => Prog.pure (f value)) :=
  h.bind fun _ _ hvalue => .pure (by rw [hvalue])

/-- A request about the match answers as the match is, but for the ids of audit rows. -/
theorem Request.similar {r : Request} (htarget : r.route.target = some matchId) :
    r.prog.Similar (aboutMatch matchId) (fun a b => a.withoutIds = b.withoutIds) r.prog := by
  obtain ⟨user, route⟩ := r
  cases route with
  | createMatch dto => cases htarget
  | getMatch id =>
      cases htarget
      exact answers_similar (findById_scoped.mono fun _ _ h => h.1) Response.matchEntity
  | updateMatch id dto =>
      cases htarget
      exact answers_similar (update_scoped dto) Response.matchEntity
  | deleteMatch id =>
      cases htarget
      exact throwIf_bind fun _ => (delete_scoped _).bind fun _ _ _ => .pure rfl
  | addPlayers id dto =>
      cases htarget
      exact answers_similar (addPlayers_scoped dto) Response.matchEntity
  | submitResult id dto =>
      cases htarget
      exact answers_similar (submitResult_scoped dto) Response.matchEntity
  | getConfirmationStatus id =>
      cases htarget
      exact answers_similar getStatus_scoped Response.confirmationStatus
  | confirmResult id =>
      cases htarget
      exact answers_similar confirm_scoped Response.confirmationStatus
  | cancelConfirmation id =>
      cases htarget
      exact answers_similar cancel_scoped Response.confirmationStatus
  | adminOverrideResult id dto =>
      cases htarget
      refine throwIf_bind fun _ => (overrideResult_scoped _ dto).bind fun _ _ h => .pure ?_
      rw [Response.withoutIds, Response.withoutIds, h.1, h.2]
  | adminDeleteMatch id =>
      cases htarget
      exact throwIf_bind fun _ => (deleteMatch_scoped _).bind fun _ _ _ => .pure rfl
  | getMatchAuditLog id =>
      cases htarget
      refine throwIf_bind fun _ => (getAuditLog_scoped _).bind fun _ _ h => .pure ?_
      rw [Response.withoutIds, Response.withoutIds, h]

/-! ## Running a request -/

variable {r : Request}

/-- A program about a match, run in two worlds that agree on it with the same calls failing, ends
alike, makes the same calls and leaves them in agreement. -/
theorem similar_agree {α : Type} {post : α → α → Prop} {program : Api α}
    {fails : List Call → Call → Bool}
    (hprogram : program.Similar (aboutMatch matchId) post program) (h : AgreeOn matchId w w') :
    let out := program.eval system fails [] {} w
    let out' := program.eval system fails [] {} w'
    ExceptRel post out.result out'.result ∧ out.calls = out'.calls ∧
      AgreeOn matchId out.world out'.world := by
  have hstart : SessionsAgree matchId {} {} := ⟨rfl, .none⟩
  have hpair : let out := program.eval system fails [] {} w
      let out' := program.eval system fails [] {} w'
      ExceptRel post out.result out'.result ∧ out.calls = out'.calls ∧
        SessionsAgree matchId out.session out'.session ∧ AgreeOn matchId out.world out'.world :=
    hprogram.eval (S := system)
      (R := fun s w s' w' => SessionsAgree matchId s s' ∧ AgreeOn matchId w w')
      (fun op hop s w s' w' hR => exec_agree hop hR.1 hR.2) ⟨hstart, h⟩
  obtain ⟨hresult, hcalls, -, hworld⟩ := hpair
  exact ⟨hresult, hcalls, hworld⟩

/-- A program about a match makes no difference to another match, and makes calls about its own
match only. -/
theorem similar_frame {α : Type} {post : α → α → Prop} {program : Api α}
    {fails : List Call → Call → Bool}
    (hprogram : program.Similar (aboutMatch matchId) post program) {other : MatchId}
    (hne : other ≠ matchId) (w : World) :
    AgreeOn other w (program.eval system fails [] {} w).world ∧
      ∀ op ∈ (program.eval system fails [] {} w).calls, op.About matchId := by
  have hstart : SessionsAgree matchId {} {} := ⟨rfl, .none⟩
  -- One call keeps the session of this match and whatever the other match shows.
  have hstep : ∀ op, op.About matchId → ∀ s w', SessionsAgree matchId s s ∧ AgreeOn other w w' →
      (∀ value, (exec op s w').1 = .ok value → op.Alike matchId value value) ∧
        SessionsAgree matchId (exec op s w').2.1 (exec op s w').2.1 ∧
          AgreeOn other w (exec op s w').2.2 := by
    rintro op hop s w' ⟨hs, hother⟩
    obtain ⟨hresult, hsession, -⟩ := exec_agree hop hs (.refl matchId w')
    refine ⟨fun value hvalue => ?_, hsession, hother.trans (exec_frame hne hop hs)⟩
    rw [hvalue] at hresult
    cases hresult with
    | ok related => exact related
  have hkeeps : program.after system fails [] {} w fun out =>
      (SessionsAgree matchId out.session out.session ∧ AgreeOn other w out.world) ∧
        ∀ op ∈ out.calls, op.About matchId :=
    hprogram.keeps (S := system)
      (I := fun s w' => SessionsAgree matchId s s ∧ AgreeOn other w w')
      hstep (List.forall_mem_nil _) ⟨hstart, .refl other w⟩
  exact ⟨hkeeps.1.2, hkeeps.2⟩

/-- In two worlds that agree on its match, a request answers alike, makes the same calls and leaves
them in agreement. -/
theorem Request.outcome_agree (htarget : r.route.target = some matchId)
    (h : AgreeOn matchId w w') :
    (r.outcome w).result.map Response.withoutIds = (r.outcome w').result.map Response.withoutIds ∧
      (r.outcome w).calls = (r.outcome w').calls ∧
        AgreeOn matchId (r.outcome w).world (r.outcome w').world := by
  obtain ⟨hresult, hcalls, hworld⟩ := similar_agree (Request.similar htarget) h
  exact ⟨hresult.eq_of_map, hcalls, hworld⟩

/-- A request makes no difference to another match, and makes calls about its own match only. -/
theorem Request.outcome_frame (htarget : r.route.target = some matchId) {other : MatchId}
    (hne : other ≠ matchId) (w : World) :
    AgreeOn other w (r.outcome w).world ∧ ∀ op ∈ (r.outcome w).calls, op.About matchId :=
  similar_frame (Request.similar htarget) hne w

/-- The jobs a request adds. -/
def Request.jobs (r : Request) (w : World) : List (Queue × EventEnvelope) :=
  (r.outcome w).calls.reverse.flatMap Call.job

/-- A program appends its jobs to their queues. -/
theorem queued_eval {α : Type} (program : Api α) {calls : List Call} {s : Session} {queue : Queue}
    {base : List EventEnvelope}
    (hbase : w.queued queue = base ++ jobsOf queue (calls.reverse.flatMap Call.job)) :
    program.after system noFaults calls s w fun out =>
      out.world.queued queue = base ++ jobsOf queue (out.calls.reverse.flatMap Call.job) := by
  induction program generalizing calls s w with
  | pure | throw => exact hbase
  | call op next ih =>
      refine ih _ ?_
      show (exec op s w).2.2.queued queue = _
      rw [queued_exec, hbase, List.append_assoc, ← jobsOf_append]
      simp

/-- A request appends its jobs to their queues. -/
theorem Request.queued_outcome (r : Request) (w : World) (queue : Queue) :
    (r.outcome w).world.queued queue = w.queued queue ++ jobsOf queue (r.jobs w) := by
  have hbase : w.queued queue = w.queued queue ++ jobsOf queue (([] : List Call).reverse.flatMap
      Call.job) := (List.append_nil _).symm
  exact queued_eval r.prog hbase

end FoosballApi.Matches
