import FoosballApi.Matches.AuditTrail
import FoosballApi.Matches.Queues
import FoosballApi.Worker.Processors

/-!
# Audit rows of overrides and of the worker

`overrideResult` writes its audit row in its transaction, and before the commit adds a job from
which the worker writes a row again, whether the transaction commits or not. In every run of
overrides and deliveries the rows of a match are as many as its commits and its deliveries
together, so once every job has been delivered each override has its one row exactly when no job
was added at all.
-/

namespace FoosballApi.Worker

open Calls Events Matches Prog Trace Matches.World

/-- Who takes part in a run: an override, or a delivery of the job at a position of the audit
queue. -/
inductive Client where
  | override (user : JwtPayload) (matchId : MatchId) (dto : AdminOverrideResultDto)
  | delivery (position : Nat)

/-- The program of a client. -/
def Client.prog : Client → Api Response
  | .override user matchId dto => Request.prog ⟨user, .adminOverrideResult matchId dto⟩
  | .delivery position => do
      deliverAudit position
      return .noContent

/-- The client is an override of the match. -/
def Client.overrides (matchId : MatchId) : Client → Bool
  | .override _ id _ => id = matchId
  | .delivery _ => false

/-- The audit data of an override of the match. -/
def isOverrideOf (matchId : MatchId) (data : AuditLogData) : Bool :=
  data.action = .resultOverride ∧ data.entityId = matchId

/-- The `result_override` rows of a match. -/
def overrideRows (matchId : MatchId) (w : World) : List AuditLogEntity :=
  w.auditLogs.filter fun entry => isOverrideOf matchId entry.toAuditLogData

variable {θ : Type}

/-- The call has committed a transaction. -/
def isCommit : CallEvent θ → Bool
  | ⟨_, .commitTransaction, .ok (), _⟩ => true
  | _ => false

/-- The audit data that a call has inserted outside a transaction. -/
def insertedData : CallEvent θ → Option AuditLogData
  | ⟨_, .saveAuditLog data, .ok _, _⟩ => some data
  | _ => none

/-- The commits of the overrides of a match. -/
def commitsOf (clients : θ → Client) (matchId : MatchId) (h : History θ) : List (CallEvent θ) :=
  h.events.filter fun e => (clients e.tid).overrides matchId && isCommit e

/-- The `result_override` rows of a match that deliveries have inserted. -/
def deliveredTo (clients : θ → Client) (matchId : MatchId) (h : History θ) : List (CallEvent θ) :=
  h.events.filter fun e =>
    match clients e.tid with
    | .override .. => false
    | .delivery _ => (insertedData e).any (isOverrideOf matchId)

/-- The row has the actor, the reason and the new scores of the call that made the commit, and the
old scores that this call has read. -/
def RecordedBy (clients : θ → Client) (h : History θ) (row : AuditLogEntity)
    (commit : CallEvent θ) :
    Prop :=
  ∃ user matchId dto r roster w, clients commit.tid = .override user matchId dto ∧
    ⟨commit.tid, .findById matchId, .ok (some ⟨r, roster⟩), w⟩ ∈ h.events ∧
    row.toAuditLogData = overrideData ⟨user, .adminOverrideResult matchId dto⟩ matchId dto r

/-- The `result_override` rows of a match are those of its committed overrides, one each. -/
def OneRowPerOverride (clients : θ → Client) (matchId : MatchId) (h : History θ) : Prop :=
  ∃ commits, commits.Perm (commitsOf clients matchId h) ∧
    List.Forall₂ (RecordedBy clients h) (overrideRows matchId h.world) commits

/-- The call has added a job for an override of the match. -/
def Announces (matchId : MatchId) (event : CallEvent θ) : Prop :=
  ∃ job data, (.auditQueue, job) ∈ jobsOfEvent event ∧ job.payload = .auditLog data ∧
    isOverrideOf matchId data = true

/-- Every job of the audit queue has been delivered. -/
def Drained [DecidableEq θ] (clients : θ → Client) (c : Running θ) : Prop :=
  ∀ position < c.trace.world.auditQueue.length, ∃ i response,
    clients i = .delivery position ∧ c.resultOf i = some (.ok response)

/-! ## What the calls do -/

/-- What a call of a delivery does. -/
inductive Delivers (position : Nat) (h : History θ) : CallEvent θ → Prop
  | quiet {event} (same : event.world.auditLogs = h.world.auditLogs)
      (uninserted : insertedData event = none) : Delivers position h event
  | insert {tid h₀ job data} (past : Past h₀ h)
      (taken : h₀.world.auditQueue[position]? = some job) (payload : job.payload = .auditLog data) :
      Delivers position h ⟨tid, .saveAuditLog data, .ok (h.world.newAuditLog data),
        h.world.takeAuditId.appendAuditLog (h.world.newAuditLog data)⟩

/-- What a call of a client does. -/
def Client.Does (client : Client) (h : History θ) (event : CallEvent θ) : Prop :=
  match client with
  | .override user matchId dto => Request.Does ⟨user, .adminOverrideResult matchId dto⟩ h event
  | .delivery position => Delivers position h event

/-- A delivery has inserted the audit data of the job at its position. -/
inductive Delivered (i : θ) (position : Nat) (h : History θ) : Prop
  | intro {event : CallEvent θ} {h₀ job data} (tid : event.tid = i) (made : event ∈ h.events)
      (inserted : insertedData event = some data) (past : Past h₀ h)
      (taken : h₀.world.auditQueue[position]? = some job) (payload : job.payload = .auditLog data)

variable {clients : θ → Client} {matchId : MatchId} {i : θ} {position : Nat} {h h' : History θ}
  {event : CallEvent θ} {allow : θ → History θ → Call → Bool → Prop}

theorem Delivered.snoc (hdelivered : Delivered i position h) :
    Delivered i position (h.snoc event) := by
  obtain ⟨tid, made, inserted, past, taken, payload⟩ := hdelivered
  exact ⟨tid, List.mem_cons_of_mem _ made, inserted, past.snoc, taken, payload⟩

/-- The terms under which the clients run. -/
def contract (clients : θ → Client) (allow : θ → History θ → Call → Bool → Prop) :
    Contract θ Call Call.Result Failure World where
  init _ := True
  allow := allow
  guar h event := (clients event.tid).Does h event

/-- A call of a delivery keeps the terms. -/
theorem guar_of_delivers (hclient : clients event.tid = .delivery position)
    (hdelivers : Delivers position h event) : (contract clients allow).guar h event := by
  show (clients event.tid).Does h event
  rwa [hclient]

/-- The processor inserts the data of the job it was handed. -/
theorem process_wp {h₀ : History θ} {job : EventEnvelope} {s : Session}
    (hclient : clients i = .delivery position) (hpast : Past h₀ h)
    (htaken : h₀.world.auditQueue[position]? = some job) :
    wp system (contract clients allow) i (AuditLogProcessor.process job) s h fun result _ h' =>
      ∀ value, result = .ok value → Delivered i position h' := by
  unfold AuditLogProcessor.process
  refine wp_bind.mpr (wp_throwIf.mpr ⟨fun _ => nofun, fun _ => ?_⟩)
  cases hpayload : job.payload with
  | auditLog data =>
      refine wp_perform_bind fun h₁ hmean _ fails _ => ?_
      have hpast₁ := hpast.trans hmean.past
      rcases perform_cases fails (.saveAuditLog data) s h₁.world with hperform | hperform <;>
        rw [hperform]
      · refine ⟨guar_of_delivers hclient (.insert hpast₁ htaken hpayload), fun _ _ => ?_⟩
        exact ⟨rfl, List.mem_cons_self, rfl, hpast₁.snoc, htaken, hpayload⟩
      · exact ⟨guar_of_delivers hclient (.quiet rfl rfl), fun _ => nofun⟩
  | _ => exact fun _ => nofun

/-- A delivery that succeeds has inserted the data of its job. -/
theorem deliverAudit_wp (hclient : clients i = .delivery position) :
    wp system (contract clients allow) i (deliverAudit position) {} h fun result _ h' =>
      ∀ value, result = .ok value → Delivered i position h' := by
  unfold deliverAudit
  refine wp_perform_bind fun h₁ _ _ fails _ => ?_
  rcases perform_cases fails (.takeJob .auditQueue position) {} h₁.world with hperform | hperform <;>
    rw [hperform]
  · refine ⟨guar_of_delivers hclient (.quiet rfl rfl), ?_⟩
    refine wp_bind.mpr (wp_require.mpr ⟨fun _ _ => nofun, fun job hjob => ?_⟩)
    exact process_wp hclient (past_snoc _ _) hjob
  · exact ⟨guar_of_delivers hclient (.quiet rfl rfl), fun _ => nofun⟩

/-- Every call of a client does what the client may do. -/
theorem client_wp (clients : θ → Client) (allow : θ → History θ → Call → Bool → Prop) (i : θ) :
    wp system (contract clients allow) i (clients i).prog {} h fun result _ h' =>
      ∀ position, clients i = .delivery position → ∀ value, result = .ok value →
        Delivered i position h' := by
  cases hclient : clients i with
  | override user matchId dto =>
      have hadmits : Admits (contract clients allow) i
          ⟨user, .adminOverrideResult matchId dto⟩ := by
        rintro h event rfl _ hdoes
        show (clients event.tid).Does h event
        rwa [hclient]
      refine wp_mono (Request.safe hadmits) fun _ _ _ _ position hdelivery => ?_
      cases hdelivery
  | delivery position =>
      refine wp_bind.mpr (wp_mono (deliverAudit_wp hclient) fun result s h' hdelivered => ?_)
      cases result with
      | ok value =>
          rintro _ ⟨⟩ _ _
          exact hdelivered value rfl
      | error failure => exact fun _ _ _ hresult => nomatch hresult

/-! ## Counting rows -/

theorem overrideRows_append {w w' : World} {entry : AuditLogEntity}
    (hlogs : w'.auditLogs = w.auditLogs ++ [entry]) :
    (overrideRows matchId w').length = (overrideRows matchId w).length +
      (isOverrideOf matchId entry.toAuditLogData).toNat := by
  rw [overrideRows, hlogs, List.filter_append, List.length_append, overrideRows]
  cases hrow : isOverrideOf matchId entry.toAuditLogData <;> simp [hrow]

theorem overrideRows_of_eq {w w' : World} (hlogs : w'.auditLogs = w.auditLogs) :
    overrideRows matchId w' = overrideRows matchId w := by
  rw [overrideRows, hlogs, overrideRows]

theorem isCommit_iff : isCommit event = true ↔
    ∃ tid w, event = ⟨tid, .commitTransaction, .ok (), w⟩ := by
  constructor
  · intro hcommit
    unfold isCommit at hcommit
    split at hcommit
    · next tid w => exact ⟨tid, w, rfl⟩
    · cases hcommit
  · rintro ⟨tid, w, rfl⟩
    rfl

/-- A call of an override adds a row exactly when it commits. -/
theorem rows_of_override {user : JwtPayload} {id : MatchId} {dto : AdminOverrideResultDto}
    (hdoes : Request.Does ⟨user, .adminOverrideResult id dto⟩ h event) :
    (overrideRows matchId event.world).length =
      (overrideRows matchId h.world).length + (decide (id = matchId) && isCommit event).toNat := by
  have hkept : ∀ e : CallEvent θ, e.world.auditLogs = h.world.auditLogs → isCommit e = false →
      (overrideRows matchId e.world).length =
        (overrideRows matchId h.world).length + (decide (id = matchId) && isCommit e).toNat := by
    intro e hlogs hcommit
    rw [overrideRows_of_eq hlogs, hcommit, Bool.and_false]
    rfl
  cases hdoes with
  | silent same uncommitted =>
      refine hkept event same.auditLogs (Bool.eq_false_iff.mpr fun hcommit => ?_)
      obtain ⟨tid, w, rfl⟩ := isCommit_iff.mp hcommit
      exact uncommitted rfl () rfl
  | announce => exact hkept _ (auditLogs_enqueue _ _ _) rfl
  | @overrideResult tid id' dto' hroute h₀ h₁ r past read confirmed job payload announced m written
      entry data =>
      cases hroute
      have hlogs : ((h.world.saveMatch m).appendAuditLog entry).auditLogs =
          h.world.auditLogs ++ [entry] := by
        show (h.world.saveMatch m).auditLogs ++ [entry] = _
        rw [auditLogs_saveMatch]
      have hrow : isOverrideOf matchId entry.toAuditLogData = decide (id = matchId) := by
        rw [data]
        exact decide_eq_decide.mpr (and_iff_right rfl)
      rw [overrideRows_append hlogs, hrow, isCommit, Bool.and_true]
  | save _ _ saves => exact nomatch saves
  | create route | savePlayers route | deleteVotes route | recordDelete route => exact nomatch route
  | vote votes | confirm votes => exact nomatch votes.route
  | delete route => exact nomatch route

/-- A call of a delivery adds a row exactly when it inserts the data of an override. -/
theorem rows_of_delivery (hdelivers : Delivers position h event) :
    (overrideRows matchId event.world).length = (overrideRows matchId h.world).length +
      ((insertedData event).any (isOverrideOf matchId)).toNat := by
  cases hdelivers with
  | quiet same uninserted =>
      rw [overrideRows_of_eq same, uninserted]
      rfl
  | @insert tid h₀ job data =>
      have hlogs : (h.world.takeAuditId.appendAuditLog (h.world.newAuditLog data)).auditLogs =
          h.world.auditLogs ++ [h.world.newAuditLog data] := rfl
      exact overrideRows_append hlogs

/-- The rows of a match are those at the start, its commits and its deliveries. -/
def Counted (clients : θ → Client) (matchId : MatchId) (h : History θ) : Prop :=
  (overrideRows matchId h.world).length = (overrideRows matchId h.init).length +
    (commitsOf clients matchId h).length + (deliveredTo clients matchId h).length

/-- Every call counts. -/
theorem Counted.snoc (hcounted : Counted clients matchId h)
    (hdoes : (clients event.tid).Does h event) : Counted clients matchId (h.snoc event) := by
  have hfilter : ∀ (p : CallEvent θ → Bool), ((h.snoc event).events.filter p).length =
      (h.events.filter p).length + (p event).toNat := by
    intro p
    rw [events_snoc, List.filter_cons]
    cases hp : p event <;> simp
  unfold Counted commitsOf deliveredTo at *
  rw [hfilter, hfilter, world_snoc, init_snoc]
  cases hclient : clients event.tid with
  | override user id dto =>
      rw [hclient] at hdoes
      rw [rows_of_override hdoes, Client.overrides, Bool.toNat_false]
      omega
  | delivery position =>
      rw [hclient] at hdoes
      rw [rows_of_delivery hdoes, Client.overrides, Bool.false_and, Bool.toNat_false]
      show _ = _ + (_ + 0) + (_ + ((insertedData event).any (isOverrideOf matchId)).toNat)
      omega

theorem mem_deliveredTo : event ∈ deliveredTo clients matchId h ↔ event ∈ h.events ∧
    ∃ position data, clients event.tid = .delivery position ∧ insertedData event = some data ∧
      isOverrideOf matchId data = true := by
  rw [deliveredTo, List.mem_filter]
  refine and_congr_right fun _ => ?_
  cases clients event.tid with
  | override => exact ⟨(nomatch ·), fun ⟨_, _, hclient, _⟩ => nomatch hclient⟩
  | delivery position =>
      rw [Option.any_eq_true]
      exact ⟨fun ⟨data, hdata⟩ => ⟨position, data, rfl, hdata⟩,
        fun ⟨_, data, _, hdata⟩ => ⟨data, hdata⟩⟩

/-! ## Every run -/

/-- What each call of a run does. -/
theorem steps_of_reach [DecidableEq θ] {w : World} {c : Running θ}
    (hreach : Reach system allow (Config.start {} (fun i => (clients i).prog) w) c) :
    c.trace.Steps fun h event => (clients event.tid).Does h event :=
  (Contract.guaranteed (C := contract clients allow) hreach rfl trivial fun i =>
    wp_mono (client_wp clients allow i) fun _ _ _ _ => trivial).2

/-- The rows of a match in a run. -/
theorem counted_of_steps (hsteps : h.Steps fun h event => (clients event.tid).Does h event) :
    Counted clients matchId h :=
  hsteps.induction (by simp [Counted, commitsOf, deliveredTo]) fun _ _ _ _ => Counted.snoc

/-- A job in the audit queue was added, when there was none at the start. -/
theorem exists_announcement (hmade : h.Steps (Made system allow)) (hqueue : h.init.auditQueue = [])
    {job : EventEnvelope} {data : AuditLogData} (hjob : job ∈ h.world.auditQueue)
    (hpayload : job.payload = .auditLog data) (hdata : isOverrideOf matchId data = true) :
    ∃ e ∈ h.events, Announces matchId e := by
  have hholds : h.world.auditQueue = h.init.auditQueue ++ jobsOf .auditQueue (jobsAdded h) :=
    holds_of_made rfl hmade .auditQueue
  rw [hholds, hqueue, List.nil_append, mem_jobsOf, mem_jobsAdded] at hjob
  obtain ⟨e, he, hadded⟩ := hjob
  exact ⟨e, he, job, data, hadded, hpayload, hdata⟩

/-- A job that was added is in the audit queue. -/
theorem exists_position (hmade : h.Steps (Made system allow)) {e : CallEvent θ} (he : e ∈ h.events)
    {job : EventEnvelope} (hadded : (.auditQueue, job) ∈ jobsOfEvent e) :
    ∃ position : Nat, h.world.auditQueue[position]? = some job := by
  have hholds : h.world.auditQueue = h.init.auditQueue ++ jobsOf .auditQueue (jobsAdded h) :=
    holds_of_made rfl hmade .auditQueue
  have hjob : job ∈ h.world.auditQueue := by
    rw [hholds]
    exact List.mem_append_right _ (mem_jobsOf.mpr (mem_jobsAdded.mpr ⟨e, he, hadded⟩))
  exact List.mem_iff_getElem?.mp hjob

/-- Without an announcement no override of the match commits. -/
theorem commitsOf_eq_nil (hsteps : h.Steps fun h event => (clients event.tid).Does h event)
    (hsilent : ∀ e ∈ h.events, ¬ Announces matchId e) : commitsOf clients matchId h = [] := by
  refine List.filter_eq_nil_iff.mpr fun e he hcommit => ?_
  obtain ⟨h₀, hpast⟩ := past_of_mem he
  have hdoes := hsteps.of_past hpast
  obtain ⟨hoverrides, hcommit⟩ := Bool.and_eq_true_iff.mp hcommit
  obtain ⟨tid, w, rfl⟩ := isCommit_iff.mp hcommit
  cases hclient : clients tid with
  | delivery position =>
      rw [hclient] at hoverrides
      cases hoverrides
  | override user id dto =>
      rw [hclient] at hoverrides hdoes
      have hid : id = matchId := of_decide_eq_true hoverrides
      subst hid
      cases hdoes with
      | silent same uncommitted => exact uncommitted rfl () rfl
      | vote votes => exact nomatch votes.route
      | confirm votes => exact nomatch votes.route
      | @overrideResult _ _ _ hroute h₁ h₂ r past read confirmed job payload announced =>
          cases hroute
          have hadd := announced.trans ((past_snoc _ _).trans hpast)
          refine hsilent _ (hadd.2.subset List.mem_cons_self)
            ⟨job, _, List.mem_cons_self, payload, ?_⟩
          exact decide_eq_true ⟨rfl, rfl⟩

/-- Without an announcement no row of the match is delivered. -/
theorem deliveredTo_eq_nil (hmade : h.Steps (Made system allow))
    (hsteps : h.Steps fun h event => (clients event.tid).Does h event)
    (hqueue : h.init.auditQueue = []) (hsilent : ∀ e ∈ h.events, ¬ Announces matchId e) :
    deliveredTo clients matchId h = [] := by
  refine List.eq_nil_iff_forall_not_mem.mpr fun e hdelivered => ?_
  obtain ⟨he, position, data, hclient, hinserted, hdata⟩ := mem_deliveredTo.mp hdelivered
  obtain ⟨h₀, hpast⟩ := past_of_mem he
  have hdoes : Delivers position h₀ e := by
    have hdoes := hsteps.of_past hpast
    rwa [hclient] at hdoes
  cases hdoes with
  | quiet same uninserted => cases hinserted.symm.trans uninserted
  | @insert tid h₁ job data' past taken payload =>
      cases hinserted
      have hpast₁ := past.trans ((past_snoc _ _).trans hpast)
      have hqueue₁ : h₁.init.auditQueue = [] := by rw [hpast₁.1, hqueue]
      obtain ⟨e', he', hannounces⟩ := exists_announcement (hmade.past hpast₁) hqueue₁
        (List.mem_of_getElem? taken) payload hdata
      exact hsilent e' (hpast₁.2.subset he') hannounces

variable [DecidableEq θ]

/-- In a drained run every announced row has been delivered. -/
theorem exists_delivered {w : World} {c : Running θ}
    (hreach : Reach system allow (Config.start {} (fun i => (clients i).prog) w) c)
    (hdrained : Drained clients c) {e : CallEvent θ} (he : e ∈ c.trace.events)
    (hannounces : Announces matchId e) : ∃ e', e' ∈ deliveredTo clients matchId c.trace := by
  obtain ⟨job, data, hadded, hpayload, hdata⟩ := hannounces
  obtain ⟨position, hjob⟩ := exists_position hreach.made he hadded
  obtain ⟨hlt, -⟩ := List.getElem?_eq_some_iff.mp hjob
  obtain ⟨i, response, hclient, hresult⟩ := hdrained position hlt
  have hdelivered : Delivered i position c.trace :=
    Contract.result_post (C := contract clients allow) hreach rfl trivial
      (fun _ _ _ _ _ _ _ hpost position hclient value hvalue =>
        (hpost position hclient value hvalue).snoc)
      (client_wp clients allow) hresult position hclient response rfl
  obtain @⟨e', h₀, job', data', rfl, hmade', hinserted, hpast, htaken, hpayload'⟩ := hdelivered
  have htaken' : (h₀.world.queued .auditQueue)[position]? = some job' := htaken
  have hsame : c.trace.world.auditQueue[position]? = some job' :=
    queued_of_past rfl hreach.made hpast htaken'
  cases hjob.symm.trans hsame
  cases hpayload.symm.trans hpayload'
  exact ⟨e', mem_deliveredTo.mpr ⟨hmade', position, data, hclient, hinserted, hdata⟩⟩

/-- Once the audit queue is drained, the match has one row for each of its committed overrides
exactly when no override has added a job for it. -/
theorem one_audit_row_per_override_iff {w : World} {c : Running θ}
    (hrows : overrideRows matchId w = []) (hqueue : w.auditQueue = [])
    (hreach : Reach system allow (Config.start {} (fun i => (clients i).prog) w) c)
    (hdrained : Drained clients c) :
    OneRowPerOverride clients matchId c.trace ↔
      ∀ e ∈ c.trace.events, ¬ Announces matchId e := by
  have hsteps := steps_of_reach hreach
  have hcounted : Counted clients matchId c.trace := counted_of_steps hsteps
  have hinit : c.trace.init = w := hreach.init
  rw [Counted, hinit, hrows, List.length_nil, Nat.zero_add] at hcounted
  constructor
  · rintro ⟨commits, hperm, hrecorded⟩ e he hannounces
    have hlength := hrecorded.length_eq.trans hperm.length_eq
    obtain ⟨e', he'⟩ := exists_delivered hreach hdrained he hannounces
    have hpos := List.length_pos_of_mem he'
    omega
  · intro hsilent
    have hcommits := commitsOf_eq_nil hsteps hsilent
    rw [hcommits, deliveredTo_eq_nil hreach.made hsteps (hinit ▸ hqueue) hsilent] at hcounted
    have hnone : overrideRows matchId c.trace.world = [] := List.eq_nil_of_length_eq_zero hcounted
    refine ⟨[], ?_, ?_⟩
    · rw [hcommits]
    · rw [hnone]
      exact .nil

/-! ## Runs -/

/-- The admin overrides the result of the confirmed one-on-one match, and the first job of the
audit queue is delivered. -/
def overrideAndDelivery : Fin 2 → Client
  | 0 => .override admin 1 ⟨2, 2, some "Wrong score", by decide⟩
  | 1 => .delivery 0

/-- The insert of the audit row fails and the override is rolled back. -/
def rolledBackSchedule : List (Fin 2 × Bool) :=
  .replicate 4 (0, false) ++ (0, true) :: .replicate 2 (0, false)

/-- A rolled back override has no row. -/
theorem one_audit_row_per_override_iff_duel :
    ∃ c : Running (Fin 2), c.resultOf 0 = some (.error .auditLogWriteFailed) ∧
      OneRowPerOverride overrideAndDelivery 1 c.trace := by
  obtain ⟨c, hreach, hrun⟩ := Reach.exists_of_execute system (fun _ _ _ _ => True)
    (Config.start {} (fun i => (overrideAndDelivery i).prog)
      ((World.withUsers signedIn).run duelConfirmed)) rolledBackSchedule
    (fun c => c.resultOf 0 = some (.error .auditLogWriteFailed) ∧
      c.trace.world.auditQueue.length = 0 ∧ c.trace.events.all fun e => (jobsOfEvent e).isEmpty)
    (by decide)
  obtain ⟨hresult, hqueue, hjobs⟩ := of_decide_eq_true hrun
  refine ⟨c, hresult, (one_audit_row_per_override_iff (by decide) ?_ hreach ?_).mpr ?_⟩
  · exact List.eq_nil_of_length_eq_zero (by decide)
  · intro position hlt
    omega
  · rintro e he ⟨job, data, hadded, -⟩
    rw [List.isEmpty_iff.mp (List.all_eq_true.mp hjobs e he)] at hadded
    cases hadded

/-- The override is committed and its job is delivered. -/
def deliveredSchedule : List (Fin 2 × Bool) :=
  .replicate 12 (0, false) ++ .replicate 2 (1, false)

/-- One committed override leaves two rows. -/
theorem not_one_audit_row_per_override_delivered :
    ¬ ∀ (clients : Fin 2 → Client) (matchId : MatchId) (w : World) (c : Running (Fin 2)),
      overrideRows matchId w = [] → w.auditQueue = [] →
      Reach system (fun _ _ _ fails => fails = false)
        (Config.start {} (fun i => (clients i).prog) w) c →
      Drained clients c → OneRowPerOverride clients matchId c.trace := by
  intro h
  obtain ⟨c, hreach, hrun⟩ := Reach.exists_of_execute system (fun _ _ _ fails => fails = false)
    (Config.start {} (fun i => (overrideAndDelivery i).prog)
      ((World.withUsers signedIn).run duelConfirmed)) deliveredSchedule
    (fun c => c.resultOf 1 = some (.ok .noContent) ∧ c.trace.world.auditQueue.length = 1 ∧
      (overrideRows 1 c.trace.world).length = 2 ∧
      (commitsOf overrideAndDelivery 1 c.trace).length = 1) (by decide)
  obtain ⟨hdelivered, hqueue, hrows, hcommits⟩ := of_decide_eq_true hrun
  have hdrained : Drained overrideAndDelivery c := by
    intro position hlt
    obtain rfl : position = 0 := by omega
    exact ⟨1, .noContent, rfl, hdelivered⟩
  have hnone := List.eq_nil_of_length_eq_zero (by decide :
    ((World.withUsers signedIn).run duelConfirmed).auditQueue.length = 0)
  obtain ⟨commits, hperm, hrecorded⟩ :=
    h overrideAndDelivery 1 _ c (by decide) hnone hreach hdrained
  have hlength := hrecorded.length_eq.trans hperm.length_eq
  omega

end FoosballApi.Worker
