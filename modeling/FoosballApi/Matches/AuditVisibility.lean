import FoosballApi.Matches.AuditTrail

/-!
# What an admin sees of the audit trail

`getAuditLog` reads `audit_logs`, whose rows refer to a match by a number without a foreign key and
are never deleted; but it first looks the match up and throws when it is not stored. Along a run
the rows are inserted in the order of their ids and of the time, so the answer for a stored match is
complete, sorted, and continues every earlier answer.
-/

namespace FoosballApi.Matches

open Calls Data Prog World Users Events

/-! ## The order of the audit rows -/

/-- What a step does to the audit table: it inserts at most one row, under the next id and with the
current time. -/
structure World.Logs (w w' : World) : Prop where
  clock : w.clock ≤ w'.clock
  rows : (w'.auditLogs = w.auditLogs ∧ w'.nextAuditId = w.nextAuditId) ∨
    ∃ data, w'.auditLogs = w.auditLogs ++ [w.newAuditLog data] ∧
      w'.nextAuditId = w.nextAuditId + 1

/-- The audit rows are stored in the order of the time, and each has an id of its own. -/
structure World.LogOrdered (w : World) : Prop where
  sorted : w.auditLogs.Pairwise fun a b => a.createdAt ≤ b.createdAt
  past : ∀ entry ∈ w.auditLogs, entry.createdAt ≤ w.clock
  distinct : (w.auditLogs.map (·.id)).Nodup
  issued : ∀ entry ∈ w.auditLogs, entry.id < w.nextAuditId

variable {w w' : World} {matchId : MatchId}

/-- A step that does not reach the audit table. -/
theorem World.Logs.of_same (hclock : w'.clock = w.clock) (hlogs : w'.auditLogs = w.auditLogs)
    (hnext : w'.nextAuditId = w.nextAuditId) : w.Logs w' :=
  ⟨hclock.ge, .inl ⟨hlogs, hnext⟩⟩

/-- A step keeps the audit rows ordered. -/
theorem World.Logs.ordered (h : w.Logs w') (hw : w.LogOrdered) : w'.LogOrdered := by
  have hclock := h.clock
  rcases h.rows with ⟨hlogs, hnext⟩ | ⟨data, hlogs, hnext⟩
  · refine ⟨hlogs ▸ hw.sorted, ?_, hlogs ▸ hw.distinct, ?_⟩
    · intro entry hentry
      exact (hw.past entry (hlogs ▸ hentry)).trans hclock
    · intro entry hentry
      rw [hnext]
      exact hw.issued entry (hlogs ▸ hentry)
  · have hcases : ∀ entry ∈ w'.auditLogs, entry ∈ w.auditLogs ∨ entry = w.newAuditLog data := by
      intro entry hentry
      rw [hlogs] at hentry
      simpa using hentry
    constructor
    · rw [hlogs]
      refine List.pairwise_append.mpr ⟨hw.sorted, List.pairwise_singleton _ _, ?_⟩
      intro entry hentry added hadded
      rw [List.mem_singleton.mp hadded]
      exact hw.past entry hentry
    · intro entry hentry
      rcases hcases entry hentry with hold | rfl
      · exact (hw.past entry hold).trans hclock
      · exact hclock
    · rw [hlogs, List.map_append, List.map_singleton]
      refine hw.distinct.append (List.nodup_singleton _) ?_
      intro id hid hadded
      obtain ⟨entry, hentry, rfl⟩ := List.mem_map.mp hid
      have hid : entry.id = w.nextAuditId := List.mem_singleton.mp hadded
      have hissued := hw.issued entry hentry
      omega
    · intro entry hentry
      rcases hcases entry hentry with hold | rfl
      · have hissued := hw.issued entry hold
        omega
      · show w.nextAuditId < w'.nextAuditId
        omega

@[simp] theorem World.nextAuditId_saveMatch (w : World) (m : MatchEntity) :
    (w.saveMatch m).nextAuditId = w.nextAuditId := by rw [saveMatch_eq]

@[simp] theorem World.nextAuditId_enqueue (w : World) (queue : Queue) (job : EventEnvelope) :
    (w.enqueue queue job).nextAuditId = w.nextAuditId := by
  cases queue <;> rfl

@[simp] theorem World.clock_votedWorld (w : World) (matchId : MatchId) (userId : UserId) :
    (w.votedWorld matchId userId).clock = w.clock := by rw [votedWorld_eq]

@[simp] theorem World.nextAuditId_votedWorld (w : World) (matchId : MatchId) (userId : UserId) :
    (w.votedWorld matchId userId).nextAuditId = w.nextAuditId := by rw [votedWorld_eq]

/-- Every request inserts at most one audit row. -/
theorem Request.logs (request : Request) (w : World) : w.Logs (request.outcome w).world := by
  have hleaves := request.leaves w
  generalize (request.outcome w).world = w' at hleaves
  cases hleaves with
  | same | create => exact .of_same rfl rfl rfl
  | update => exact .of_same (by simp) (by simp) (by simp)
  | @addPlayers user matchId dto r saved row creator editable room free save =>
      have hsaved := savePlayers_frame save
      unfold playingWorld
      split
      · refine .of_same ?_ ?_ ?_
        · rw [clock_saveMatch, hsaved]
        · rw [auditLogs_saveMatch, hsaved]
        · rw [nextAuditId_saveMatch, hsaved]
      · refine .of_same ?_ ?_ ?_ <;> rw [hsaved]
  | submitResult => exact .of_same (by simp) (by simp) (by simp)
  | vote => exact .of_same (by simp) (by simp) (by simp)
  | confirm =>
      refine .of_same ?_ ?_ ?_ <;> simp [confirmedWorld]
  | cancel =>
      refine .of_same ?_ ?_ ?_ <;> simp [World.deleteAllConfirmations]
  | @overrideResult user matchId dto r =>
      have hlogs := auditLogs_overriddenWorld w matchId r user.sub dto
      refine ⟨?_, .inr ⟨_, hlogs, ?_⟩⟩
      · simp [overriddenWorld, appendAuditLog, takeAuditId]
      · simp [overriddenWorld, appendAuditLog, takeAuditId]
  | delete => exact .of_same rfl rfl rfl
  | @adminDelete user matchId r =>
      unfold recordedWorld
      split
      · exact ⟨Nat.le_refl _, .inr ⟨_, rfl, rfl⟩⟩
      · exact .of_same rfl rfl rfl

/-- Every step of a run inserts at most one audit row. -/
theorem Input.logs (w : World) (input : Input) : w.Logs (input.after w) := by
  cases input with
  | request r => exact r.logs w
  | signIn user => exact .of_same rfl rfl rfl
  | tick elapsed => exact ⟨Nat.le_add_right _ _, .inl ⟨rfl, rfl⟩⟩

/-- A run keeps the audit rows ordered. -/
theorem World.run_logOrdered (hw : w.LogOrdered) (inputs : List Input) :
    (w.run inputs).LogOrdered := by
  induction inputs generalizing w with
  | nil => exact hw
  | cons input inputs ih => exact ih ((Input.logs w input).ordered hw)

/-- Without audit rows there is nothing to order. -/
theorem World.logOrdered_withUsers (users : Table UserEntity.id) :
    (World.withUsers users).LogOrdered :=
  ⟨.nil, fun _ => nofun, .nil, fun _ => nofun⟩

/-- Sorting ordered rows by their time changes nothing. -/
theorem World.LogOrdered.findAuditLogs (hw : w.LogOrdered) (entityType : EntityType)
    (entityId : MatchId) : w.findAuditLogs entityType entityId =
      w.auditLogs.filter fun entry => entry.entityType = entityType ∧ entry.entityId = entityId := by
  refine List.mergeSort_of_pairwise ?_
  have hsorted := hw.sorted.filter fun entry =>
    decide (entry.entityType = entityType ∧ entry.entityId = entityId)
  exact hsorted.imp fun hle => decide_eq_true hle

/-! ## The answer of `getAuditLog` -/

/-- What `GET /admin/matches/:matchId/audit` answers. -/
def World.auditAnswer (w : World) (user : JwtPayload) (matchId : MatchId) :
    Except Failure Response :=
  (Request.outcome ⟨user, .getMatchAuditLog matchId⟩ w).result

/-- After a run the user is shown exactly the audit rows of the match that were stored at any time
of the run, each once and oldest first, as a continuation of what was shown at any time before. -/
def TrailShown (w : World) (inputs : List Input) (user : JwtPayload) (matchId : MatchId) : Prop :=
  ∃ rows, (w.run inputs).auditAnswer user matchId = .ok (.auditLog rows) ∧
    (∀ entry, entry ∈ rows ↔ entry.entityType = .matchEntity ∧ entry.entityId = matchId ∧
      ∃ before, before <+: inputs ∧ entry ∈ (w.run before).auditLogs) ∧
    (rows.map (·.id)).Nodup ∧ rows.Pairwise (fun a b => a.createdAt ≤ b.createdAt) ∧
    ∀ before earlier, before <+: inputs →
      (w.run before).auditAnswer user matchId = .ok (.auditLog earlier) → earlier <+: rows

variable {user : JwtPayload}

/-- An admin is shown the rows of a stored match. -/
theorem auditAnswer_of_stored (hadmin : user.isAdmin = true) (hstored : (w.row matchId).isSome) :
    w.auditAnswer user matchId = .ok (.auditLog (w.findAuditLogs .matchEntity matchId)) := by
  obtain ⟨r, hrow⟩ := Option.isSome_iff_exists.mp hstored
  have hspec : (Request.prog ⟨user, .getMatchAuditLog matchId⟩).after system noFaults [] {} w
      fun out => out.result = .ok (.auditLog (w.findAuditLogs .matchEntity matchId)) := by
    simp [Request.prog, rolesGuard, AdminOverrideService.getAuditLog, hadmin, exec,
      World.findById, hrow]
  exact hspec

/-- Nobody is shown rows of a match that is not stored. -/
theorem auditAnswer_of_missing (hrow : w.row matchId = none) (rows : List AuditLogEntity) :
    w.auditAnswer user matchId ≠ .ok (.auditLog rows) := by
  have hspec : (Request.prog ⟨user, .getMatchAuditLog matchId⟩).after system noFaults [] {} w
      fun out => out.result ≠ .ok (.auditLog rows) := by
    refine rolesGuard_after (by simp) ?_
    simp [AdminOverrideService.getAuditLog, exec, World.findById, hrow]
  exact hspec

/-- The answer for a match is a part of the audit table. -/
theorem auditAnswer_eq (hadmin : user.isAdmin = true) {rows : List AuditLogEntity}
    (h : w.auditAnswer user matchId = .ok (.auditLog rows)) :
    rows = w.findAuditLogs .matchEntity matchId := by
  cases hrow : w.row matchId with
  | none => exact absurd h (auditAnswer_of_missing hrow rows)
  | some r =>
      rw [auditAnswer_of_stored hadmin (hrow ▸ rfl)] at h
      cases h
      rfl

/-- After every run an admin is shown the trail of a match, complete and in order, exactly when the
match is stored. -/
theorem trail_shown_iff_stored (users : Table UserEntity.id) (inputs : List Input)
    (user : JwtPayload) (matchId : MatchId) (hadmin : user.isAdmin = true) :
    TrailShown (World.withUsers users) inputs user matchId ↔
      (((World.withUsers users).run inputs).row matchId).isSome := by
  have hordered : ∀ before, ((World.withUsers users).run before).LogOrdered :=
    run_logOrdered (logOrdered_withUsers users)
  have hgrows : ∀ before, before <+: inputs →
      ((World.withUsers users).run before).auditLogs <+:
        ((World.withUsers users).run inputs).auditLogs := by
    rintro before ⟨later, rfl⟩
    rw [World.run_append]
    exact auditLogs_prefix_run _ later
  constructor
  · rintro ⟨rows, hanswer, -⟩
    rw [Option.isSome_iff_ne_none]
    exact fun hrow => auditAnswer_of_missing hrow rows hanswer
  · intro hstored
    refine ⟨_, auditAnswer_of_stored hadmin hstored, ?_⟩
    rw [(hordered inputs).findAuditLogs]
    refine ⟨fun entry => ?_, ?_, (hordered inputs).sorted.filter _, ?_⟩
    · simp only [List.mem_filter, decide_eq_true_eq]
      constructor
      · rintro ⟨hmem, htype, hid⟩
        exact ⟨htype, hid, inputs, List.prefix_refl _, hmem⟩
      · rintro ⟨htype, hid, before, hbefore, hmem⟩
        exact ⟨(hgrows before hbefore).mem hmem, htype, hid⟩
    · exact (hordered inputs).distinct.sublist (List.filter_sublist.map _)
    · intro before earlier hbefore hanswer
      rw [auditAnswer_eq hadmin hanswer, (hordered before).findAuditLogs]
      exact (hgrows before hbefore).filter _

/-- The confirmed match, with its result overridden. -/
def duelOverridden : List Input :=
  duelConfirmed ++ [.request ⟨admin, .adminOverrideResult 1 ⟨2, 2, none, no_reason_length⟩⟩]

/-- The override is shown while the match is stored. -/
theorem trail_shown_duelOverridden :
    TrailShown (World.withUsers signedIn) duelOverridden admin 1 :=
  (trail_shown_iff_stored signedIn duelOverridden admin 1 rfl).mpr (by decide)

/-- The rows of a deleted match are not shown. -/
theorem not_trail_shown_deleted :
    ¬ ∀ (users : Table UserEntity.id) (inputs : List Input) (user : JwtPayload) (matchId : MatchId),
      user.isAdmin = true → TrailShown (World.withUsers users) inputs user matchId := by
  intro h
  obtain ⟨rows, hanswer, -⟩ :=
    h signedIn (duelOverridden ++ [.request ⟨admin, .adminDeleteMatch 1⟩]) admin 1 rfl
  have hmissing : ((World.withUsers signedIn).run
      (duelOverridden ++ [.request ⟨admin, .adminDeleteMatch 1⟩])).auditAnswer admin 1 =
        .error (.matchNotFound 1) := by decide
  cases hmissing.symm.trans hanswer

end FoosballApi.Matches
