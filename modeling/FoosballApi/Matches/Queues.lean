import FoosballApi.Matches.CallEffects
import FoosballApi.Matches.StoreLemmas

/-!
# The jobs of a run

Every queue holds the jobs it held at the start and those the calls of the run have added to it, in
order. This holds for any system of calls with the effects of `exec`, whatever its lock excludes.
-/

namespace FoosballApi.Matches

open Calls Events Trace World

/-- The job a call adds. -/
def Call.job : Call → List (Queue × EventEnvelope)
  | .add queue job => [(queue, job)]
  | _ => []

/-- The jobs among `jobs` that go to a queue. -/
def jobsOf (queue : Queue) (jobs : List (Queue × EventEnvelope)) : List EventEnvelope :=
  (jobs.filter (·.1 = queue)).map (·.2)

theorem jobsOf_append (queue : Queue) (jobs more : List (Queue × EventEnvelope)) :
    jobsOf queue (jobs ++ more) = jobsOf queue jobs ++ jobsOf queue more := by
  simp [jobsOf]

variable {θ : Type} {h : History θ} {event : CallEvent θ}

/-- The job that a call which went through has added. -/
def jobsOfEvent (event : CallEvent θ) : List (Queue × EventEnvelope) :=
  match event.result with
  | .ok _ => event.op.job
  | .error _ => []

/-- All jobs that were added, oldest first. -/
def jobsAdded (h : History θ) : List (Queue × EventEnvelope) :=
  h.events.reverse.flatMap jobsOfEvent

theorem jobsAdded_snoc : jobsAdded (h.snoc event) = jobsAdded h ++ jobsOfEvent event := by
  simp [jobsAdded]

/-- The writes of a transaction add no job. -/
theorem queued_commit (changes : List Write) (w : World) (queue : Queue) :
    (changes.foldl Write.commit w).queued queue = w.queued queue := by
  induction changes generalizing w with
  | nil => rfl
  | cons change changes ih =>
      rw [List.foldl_cons, ih]
      cases change with
      | saveMatch m =>
          rw [Write.commit, saveMatch_eq]
          cases queue <;> rfl
      | putConfirmation | appendAuditLog => cases queue <;> rfl

theorem queued_write (s : Session) (w : World) (change : Write) (queue : Queue) :
    (s.write w change).2.queued queue = w.queued queue := by
  unfold Session.write
  split
  · rfl
  · exact queued_commit [change] w queue

/-- A call appends its job to the job's queue. -/
theorem queued_exec (op : Call) (s : Session) (w : World) (queue : Queue) :
    (exec op s w).2.2.queued queue = w.queued queue ++ jobsOf queue op.job := by
  have hnone : ∀ w' : World, w'.queued queue = w.queued queue →
      w'.queued queue = w.queued queue ++ jobsOf queue [] := fun w' hw' => by
    rw [hw']
    exact (List.append_nil _).symm
  cases op with
  | add queue' job =>
      cases queue' <;> cases queue <;>
        simp [exec, Call.job, jobsOf, World.enqueue, World.queued]
  | save m =>
      refine hnone _ ?_
      show (w.saveMatch m).queued queue = _
      rw [saveMatch_eq]
      cases queue <;> rfl
  | savePlayers players =>
      simp only [exec]
      split
      · next w' hsaved =>
          refine hnone _ ?_
          rw [savePlayers_frame hsaved]
          cases queue <;> rfl
      · exact hnone _ rfl
  | saveUser | insertUser =>
      simp only [exec]
      split
      · next w' hsaved =>
          refine hnone _ ?_
          rw [saveUser_eq_some hsaved]
          cases queue <;> rfl
      · exact hnone _ rfl
  | renameUser id displayName =>
      refine hnone _ ?_
      rw [exec, renameUser_frame]
      cases queue <;> rfl
  | commitTransaction =>
      simp only [exec]
      split
      · exact hnone _ (queued_commit _ _ _)
      · exact hnone _ rfl
  | rollbackTransaction =>
      simp only [exec]
      split <;> exact hnone _ rfl
  | saveConfirmation matchId userId => exact hnone _ (queued_write s w _ queue)
  | saveMatch m => exact hnone _ (queued_write s w _ queue)
  | saveTransactionAuditLog data =>
      refine hnone _ ((queued_write s w.takeAuditId _ queue).trans ?_)
      cases queue <;> rfl
  | _ => exact hnone _ (by cases queue <;> rfl)

/-- A call that adds a job goes through when it is carried out. -/
theorem job_of_error {op : Call} {s : Session} {w : World} {failure : Failure}
    (herror : (exec op s w).1 = .error failure) : op.job = [] := by
  cases op with
  | add => cases herror
  | _ => rfl

/-- A call that was made was carried out, or it failed and changed nothing. -/
theorem exec_of_made {S : System Call Call.Result Failure Session World} (hS : S.exec = exec)
    {allow : θ → History θ → Call → Bool → Prop} (hmade : Made S allow h event) :
    (∃ s s', exec event.op s h.world = (event.result, s', event.world)) ∨
      (∃ failure, event.result = .error failure) ∧ event.world = h.world := by
  obtain ⟨fails, s, s', _, hperform⟩ := hmade
  rcases S.perform_cases fails event.op s h.world with hdone | ⟨failure, -, hfails⟩
  · rw [hdone, hS] at hperform
    exact .inl ⟨s, s', hperform⟩
  · rw [hfails] at hperform
    exact .inr ⟨⟨failure, (congrArg (·.1) hperform).symm⟩, (congrArg (·.2.2) hperform).symm⟩

/-- A queue holds its first jobs and those that were added to it. -/
def Holds (queue : Queue) (h : History θ) : Prop :=
  h.world.queued queue = h.init.queued queue ++ jobsOf queue (jobsAdded h)

/-- The queues of a run hold the jobs that were added. -/
theorem holds_of_made {S : System Call Call.Result Failure Session World} (hS : S.exec = exec)
    {allow : θ → History θ → Call → Bool → Prop} (hmade : h.Steps (Made S allow))
    (queue : Queue) : Holds queue h := by
  refine hmade.induction (List.append_nil _).symm fun h e _ _ hholds hmade => ?_
  have hadds : e.world.queued queue = h.world.queued queue ++ jobsOf queue (jobsOfEvent e) := by
    rcases exec_of_made hS hmade with ⟨s, s', hexec⟩ | ⟨⟨failure, hfailure⟩, hworld⟩
    · have hworld : e.world = (exec e.op s h.world).2.2 := (congrArg (·.2.2) hexec).symm
      rw [hworld, queued_exec, jobsOfEvent]
      split
      · rfl
      · next failure hfailure =>
          rw [job_of_error ((congrArg (·.1) hexec).trans hfailure)]
    · rw [hworld, jobsOfEvent, hfailure]
      exact (List.append_nil _).symm
  rw [Holds, world_snoc, hadds, hholds, jobsAdded_snoc, jobsOf_append, List.append_assoc, init_snoc]

theorem mem_jobsOf {queue : Queue} {job : EventEnvelope} {jobs : List (Queue × EventEnvelope)} :
    job ∈ jobsOf queue jobs ↔ (queue, job) ∈ jobs := by
  simp [jobsOf]

theorem mem_jobsAdded {queue : Queue} {job : EventEnvelope} :
    (queue, job) ∈ jobsAdded h ↔ ∃ e ∈ h.events, (queue, job) ∈ jobsOfEvent e := by
  simp [jobsAdded]

/-- A job keeps its position in its queue. -/
theorem queued_of_past {S : System Call Call.Result Failure Session World} (hS : S.exec = exec)
    {allow : θ → History θ → Call → Bool → Prop} (hmade : h.Steps (Made S allow)) {h₀ : History θ}
    (hpast : Past h₀ h) {queue : Queue} {position : Nat} {job : EventEnvelope}
    (hjob : (h₀.world.queued queue)[position]? = some job) :
    (h.world.queued queue)[position]? = some job := by
  have hholds := holds_of_made hS hmade queue
  have hholds₀ := holds_of_made hS (hmade.past hpast) queue
  obtain ⟨hinit, later, hlater⟩ := hpast
  have hadded : jobsAdded h = jobsAdded h₀ ++ later.reverse.flatMap jobsOfEvent := by
    simp [jobsAdded, ← hlater]
  rw [Holds, hinit] at hholds₀
  rw [hholds, hadded, jobsOf_append, ← List.append_assoc, ← hholds₀]
  obtain ⟨hlt, _⟩ := List.getElem?_eq_some_iff.mp hjob
  rw [List.getElem?_append_left hlt, hjob]

end FoosballApi.Matches
