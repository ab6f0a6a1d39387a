import FoosballApi.Calls.Throwing
import FoosballApi.Matches.Authorization
import FoosballApi.Matches.RequestScope

/-!
# What the errors of a run tell

A client acts on the error it gets. `Request.Reason` gives the reason behind each error of the
services: a row, a roster or a status that the request has seen, in the state its error names. A
request that is refused has written nothing. An override that answers `AUDIT_LOG_WRITE_FAILED` has
changed no match and no audit row, whatever failed. Any other error was raised by one of the
request's own calls.

The requests run in any interleaving, with any failing calls, and which calls wait for the row lock
is left open: what a request has seen may have changed when the error arrives.
-/

namespace FoosballApi.Matches

open Calls Events Prog Trace World

variable {θ : Type} {request : Request} {tid : θ} {h h' : History θ} {failure : Failure}
  {matchId : MatchId}

/-- The row of the match satisfied `condition` when the request made one of its calls. -/
def SawRow (h : History θ) (tid : θ) (matchId : MatchId) (condition : MatchRow → Prop) : Prop :=
  h.Saw tid fun w => ∃ r, w.row matchId = some r ∧ condition r

theorem SawRow.past {condition : MatchRow → Prop} (hsaw : SawRow h tid matchId condition)
    (hpast : Past h h') : SawRow h' tid matchId condition := Saw.past hsaw hpast

theorem SawRow.mono {condition condition' : MatchRow → Prop}
    (hsaw : SawRow h tid matchId condition) (hle : ∀ r, condition r → condition' r) :
    SawRow h tid matchId condition' := by
  obtain ⟨h₀, event, htid, hpast, r, hrow, hcondition⟩ := hsaw
  exact ⟨h₀, event, htid, hpast, r, hrow, hle r hcondition⟩

/-- Why the services refuse a request, for each of their errors. -/
inductive Request.Reason (request : Request) (tid : θ) (h : History θ) : Failure → Prop
  | notAdmin (guarded : request.route.guarded = true) (user : request.user.isAdmin = false) :
      request.Reason tid h .forbiddenAdminRequired
  | notFound {matchId : MatchId} (target : request.route.target = some matchId)
      (seen : h.Saw tid fun w => w.row matchId = none) :
      request.Reason tid h (.matchNotFound matchId)
  | notCreator {matchId : MatchId} (target : request.route.target = some matchId)
      (seen : SawRow h tid matchId fun r => r.createdBy ≠ some request.user.sub)
      (message : String) :
      request.Reason tid h (.forbiddenNotCreator message)
  | locked {matchId : MatchId} (target : request.route.target = some matchId)
      {status : MatchStatus} (seen : SawRow h tid matchId fun r => r.status = status)
      (locked : status.Locked) (message : String) :
      request.Reason tid h (.matchLocked message matchId status)
  | capacityExceeded {matchId : MatchId} {dto : AddPlayersDto}
      (route : request.route = .addPlayers matchId dto) {matchType : MatchType} {current : Nat}
      (type : SawRow h tid matchId fun r => r.matchType = matchType)
      (seen : h.Saw tid fun w => (w.roster matchId).length = current)
      (exceeded : matchCapacity matchType < current + dto.players.length) :
      request.Reason tid h (.capacityExceeded matchType (matchCapacity matchType) current)
  | slotConflict {matchId : MatchId} {dto : AddPlayersDto}
      (route : request.route = .addPlayers matchId dto) {p : PlayerDto} (listed : p ∈ dto.players)
      (seen : h.Saw tid fun w => ∃ q ∈ w.roster matchId, q.team = p.team ∧ q.slot = p.slot) :
      request.Reason tid h (.slotConflict matchId p.team p.slot)
  | insufficientPlayers {matchId : MatchId} {dto : SubmitResultDto}
      (route : request.route = .submitResult matchId dto) {matchType : MatchType} {registered : Nat}
      (type : SawRow h tid matchId fun r => r.matchType = matchType)
      (seen : h.Saw tid fun w => (w.roster matchId).length = registered)
      (missing : registered < matchCapacity matchType) :
      request.Reason tid h (.insufficientPlayers matchType (matchCapacity matchType) registered)
  | notAwaiting {matchId : MatchId} (target : request.route.target = some matchId)
      {status : MatchStatus} (seen : SawRow h tid matchId fun r => r.status = status)
      (other : status ≠ .awaitingConfirmation) :
      request.Reason tid h (.matchNotAwaitingConfirmation status)
  | notAPlayer {matchId : MatchId} (route : request.route = .confirmResult matchId)
      (seen : h.Saw tid fun w => request.user.sub ∉ (w.roster matchId).map (·.userId)) :
      request.Reason tid h .notAPlayer
  | alreadyConfirmed {matchId : MatchId} (route : request.route = .cancelConfirmation matchId)
      (seen : SawRow h tid matchId fun r => r.status = .confirmed) :
      request.Reason tid h (.matchAlreadyConfirmed matchId .confirmed)
  | notConfirmed {matchId : MatchId} {dto : AdminOverrideResultDto}
      (route : request.route = .adminOverrideResult matchId dto) {status : MatchStatus}
      (seen : SawRow h tid matchId fun r => r.status = status) (other : status ≠ .confirmed) :
      request.Reason tid h (.matchNotConfirmed status)

/-- A call that changes no table a match or its audit rows are stored in. -/
structure KeepsRecords (w w' : World) : Prop extends SameTables w w' where
  auditLogs : w'.auditLogs = w.auditLogs

theorem KeepsRecords.refl (w : World) : KeepsRecords w w := ⟨.refl w, rfl⟩

/-- What stands behind an error of the services. -/
inductive Request.Justified (request : Request) (tid : θ) (h : History θ) : Failure → Prop
  /-- The request was refused, and none of its calls has changed anything. -/
  | refused {failure : Failure} (refused : request.Reason tid h failure)
      (unchanged : h.Keeps tid fun w w' => w' = w) : request.Justified tid h failure
  /-- A call of an override failed, and none of its calls has changed a record. -/
  | rolledBack {matchId : MatchId} {dto : AdminOverrideResultDto}
      (route : request.route = .adminOverrideResult matchId dto)
      (admin : request.user.isAdmin = true) {failure : Failure} (raised : h.Raised tid failure)
      (unchanged : h.Keeps tid KeepsRecords) : request.Justified tid h .auditLogWriteFailed

/-- An error is justified, or one of the request's own calls has raised it. -/
def Request.Explained (request : Request) (tid : θ) (h : History θ) (failure : Failure) : Prop :=
  h.Raised tid failure ∨ request.Justified tid h failure

/-! ## What happens later -/

/-- A reason stays one. -/
theorem Request.Reason.past (hrefused : request.Reason tid h failure) (hpast : Past h h') :
    request.Reason tid h' failure := by
  cases hrefused with
  | notAdmin guarded user => exact .notAdmin guarded user
  | notFound target seen => exact .notFound target (seen.past hpast)
  | notCreator target seen message => exact .notCreator target (seen.past hpast) message
  | locked target seen locked message => exact .locked target (seen.past hpast) locked message
  | capacityExceeded route type seen exceeded =>
      exact .capacityExceeded route (type.past hpast) (seen.past hpast) exceeded
  | slotConflict route listed seen => exact .slotConflict route listed (seen.past hpast)
  | insufficientPlayers route type seen missing =>
      exact .insufficientPlayers route (type.past hpast) (seen.past hpast) missing
  | notAwaiting target seen other => exact .notAwaiting target (seen.past hpast) other
  | notAPlayer route seen => exact .notAPlayer route (seen.past hpast)
  | alreadyConfirmed route seen => exact .alreadyConfirmed route (seen.past hpast)
  | notConfirmed route seen other => exact .notConfirmed route (seen.past hpast) other

/-- An error stays explained while the request writes nothing more. -/
theorem Request.Explained.later (hexplained : request.Explained tid h failure) (hpast : Past h h')
    (hkeeps : ∀ R : World → World → Prop, (∀ w, R w w) → h.Keeps tid R → h'.Keeps tid R) :
    request.Explained tid h' failure := by
  rcases hexplained with hraised | hjustified
  · exact .inl (hraised.past hpast)
  · cases hjustified with
    | refused hrefused unchanged =>
        exact .inr (.refused (hrefused.past hpast) (hkeeps _ (fun _ => rfl) unchanged))
    | rolledBack route admin raised unchanged =>
        exact .inr (.rolledBack route admin (raised.past hpast)
          (hkeeps _ KeepsRecords.refl unchanged))

/-! ## Rules -/

/-- Whichever calls wait, a call is carried out or fails as those of `system`. -/
theorem perform_eq_system {S : System Call Call.Result Failure Session World}
    (hexec : S.exec = exec) (hfault : S.fault = system.fault) (fails : Bool) (op : Call)
    (s : Session) (w : World) :
    S.perform fails op s w = system.perform fails op s w := by
  unfold System.perform
  rw [hexec, hfault]
  rfl

/-- No statement raises an error of the services. -/
theorem exec_error_not_http {op : Call} {s : Session} {w : World} {exception : HttpException} :
    (exec op s w).1 ≠ .error (.http exception) := by
  cases op with
  | savePlayers | saveUser | insertUser | commitTransaction | rollbackTransaction =>
      simp only [exec]
      split <;> simp
  | _ => simp [exec]

section Rules

variable {S : System Call Call.Result Failure Session World}
  {allow : θ → History θ → Call → Bool → Prop} {α : Type} {s : Session}

/-- Calls do and raise what they do in `system`; which of them wait is left open. -/
abbrev PerformsAs (S : System Call Call.Result Failure Session World) : Prop :=
  ∀ fails op s w, S.perform fails op s w = system.perform fails op s w

/-- Whatever the program throws is explained. -/
abbrev Explains (S : System Call Call.Result Failure Session World)
    (allow : θ → History θ → Call → Bool → Prop) (request : Request) (tid : θ) (program : Api α)
    (s : Session) (h : History θ) : Prop :=
  wp S (.free allow) tid program s h (OnThrow fun failure _ h => request.Explained tid h failure)

/-- After the last guard of a method only its calls can raise something. -/
theorem relays_explained {program : Api α} (hrelays : program.Relays) :
    Explains S allow request tid program s h :=
  wp_mono (wp_relays hrelays) fun _ _ _ hthrown failure heq => .inl (hthrown failure heq)

/-- A refusal before the first write. -/
theorem explained_of_refused (hkeeps : h.Keeps tid fun w w' => w' = w)
    (hrefused : request.Reason tid h failure) : request.Explained tid h failure :=
  .inr (.refused hrefused hkeeps)

/-- A read, with what follows it when it goes through: the request has seen the world. -/
theorem read_explained {op : Call} {f : World → op.Result} {next : op.Result → Api α}
    (hS : PerformsAs S) (hop : ∀ w, exec op s w = (.ok (f w), s, w))
    (hkeeps : h.Keeps tid fun w w' => w' = w)
    (hnext : ∀ h' w, Past h h' → h'.Keeps tid (fun w w' => w' = w) →
      (∀ P : World → Prop, P w → h'.Saw tid P) →
        Explains S allow request tid (next (f w)) s h') :
    Explains S allow request tid (await op >>= next) s h := by
  refine wp_perform_bind fun h' hmean _ fails _ => ⟨trivial, ?_⟩
  rw [hS]
  rcases perform_cases fails op s h'.world with hperform | hperform <;> rw [hperform]
  · rw [hop]
    exact hnext _ h'.world (hmean.past.trans (past_snoc _ _))
      ((hmean.keeps hkeeps).snoc fun _ => rfl) fun P hworld => saw_snoc rfl hworld
  · exact .error (.inl raised_snoc)

/-- Any other call, when nothing more is refused. -/
theorem call_explained {op : Call} {next : op.Result → Api α}
    (hnext : ∀ value s' h', Explains S allow request tid (next value) s' h') :
    Explains S allow request tid (await op >>= next) s h := by
  refine wp_perform_bind fun h' _ _ fails _ => ⟨trivial, ?_⟩
  rcases hperform : S.perform fails op s h'.world with ⟨result, s', w'⟩
  cases result with
  | ok value => exact hnext value s' _
  | error failure => exact .error (.inl raised_snoc)

/-! ## The services -/

/-- The lookup of a match hands on the row that was read, or refuses what it did not find. -/
theorem lookup_explained {next : MatchEntity → Api α} (hS : PerformsAs S)
    (htarget : request.route.target = some matchId) (hkeeps : h.Keeps tid fun w w' => w' = w)
    (hnext : ∀ r players h', h'.Keeps tid (fun w w' => w' = w) →
      SawRow h' tid matchId (· = r) →
        Explains S allow request tid (next ⟨r, some players⟩) s h') :
    Explains S allow request tid
      (await (.findById matchId) >>= fun found =>
        Prog.require found (.matchNotFound matchId) >>= next) s h := by
  refine read_explained hS (fun _ => rfl) hkeeps fun h w _ hkeeps hsaw => ?_
  refine wp_require_onThrow (fun hnone => ?_) fun m hm => ?_
  · exact explained_of_refused hkeeps (.notFound htarget (hsaw _ (Option.map_eq_none_iff.mp hnone)))
  · obtain ⟨r, hrow, rfl⟩ := Option.map_eq_some_iff.mp hm
    exact hnext r _ h hkeeps (hsaw _ ⟨r, hrow, rfl⟩)

/-- `findById` hands on a row that was read. -/
theorem findById_explained {next : MatchEntity → Api α} (hS : PerformsAs S)
    (htarget : request.route.target = some matchId) (hkeeps : h.Keeps tid fun w w' => w' = w)
    (hnext : ∀ r players h', h'.Keeps tid (fun w w' => w' = w) →
      SawRow h' tid matchId (· = r) →
        Explains S allow request tid (next ⟨r, some players⟩) s h') :
    Explains S allow request tid (MatchService.findById matchId >>= next) s h := by
  unfold MatchService.findById
  simp only [Prog.bind_assoc]
  exact lookup_explained hS htarget hkeeps fun r players h hkeeps hrow =>
    hnext r players h hkeeps hrow

/-- The checks of an editing method refuse another user and a locked match. -/
theorem checkEditable_explained {next : Unit → Api α} {r : MatchRow}
    {players : Option (List MatchPlayerEntity)} {notCreator locked : String}
    (htarget : request.route.target = some matchId) (hkeeps : h.Keeps tid fun w w' => w' = w)
    (hrow : SawRow h tid matchId (· = r))
    (hnext : Explains S allow request tid (next ()) s h) :
    Explains S allow request tid (MatchService.checkEditable matchId ⟨r, players⟩ request.user.sub
      notCreator locked >>= next) s h := by
  unfold MatchService.checkEditable
  rw [Prog.bind_assoc]
  refine wp_throwIf_onThrow (fun hcreator => ?_) fun _ => ?_
  · exact explained_of_refused hkeeps
      (.notCreator htarget (hrow.mono fun _ heq => heq ▸ hcreator) _)
  refine wp_throwIf_onThrow (fun hlocked => ?_) fun _ => hnext
  exact explained_of_refused hkeeps
    (.locked htarget (hrow.mono fun _ heq => congrArg MatchRow.status heq) hlocked _)

/-- The role of an admin route is checked by its guard and by the service. -/
theorem admin_explained {next : Unit → Api α} (hguarded : request.route.guarded = true)
    (hkeeps : h.Keeps tid fun w w' => w' = w)
    (hnext : request.user.isAdmin = true → Explains S allow request tid (next ()) s h) :
    Explains S allow request tid
      (Prog.throwIf (¬ request.user.isAdmin) .forbiddenAdminRequired >>= next) s h := by
  refine wp_throwIf_onThrow (fun hrole => ?_) fun hrole => hnext (Decidable.not_not.mp hrole)
  exact explained_of_refused hkeeps (.notAdmin hguarded (Bool.eq_false_iff.mpr hrole))

/-- A status that a vote or a cancellation does not accept. -/
theorem awaiting_explained {next : Unit → Api α} {r : MatchRow}
    (htarget : request.route.target = some matchId) (hkeeps : h.Keeps tid fun w w' => w' = w)
    (hrow : SawRow h tid matchId (· = r))
    (hnext : Explains S allow request tid (next ()) s h) :
    Explains S allow request tid (Prog.throwIf (r.status ≠ .awaitingConfirmation)
      (.matchNotAwaitingConfirmation r.status) >>= next) s h := by
  refine wp_throwIf_onThrow (fun hother => ?_) fun _ => hnext
  exact explained_of_refused hkeeps
    (.notAwaiting htarget (hrow.mono fun _ heq => congrArg MatchRow.status heq) hother)

theorem update_explained {dto : UpdateMatchDto} (hS : PerformsAs S)
    (htarget : request.route.target = some matchId) (hkeeps : h.Keeps tid fun w w' => w' = w) :
    Explains S allow request tid (MatchService.update matchId request.user.sub dto) s h := by
  unfold MatchService.update
  refine findById_explained hS htarget hkeeps fun r players h hkeeps hrow => ?_
  refine checkEditable_explained htarget hkeeps hrow (relays_explained ?_)
  exact relays_bind (relays_perform _) fun _ => relays_bind (relays_perform _) fun _ => trivial

/-- The loop of `addPlayers` refuses a player whose slot it has seen taken. -/
theorem checkSlots_explained {dto : AddPlayersDto} {existingPlayers : List MatchPlayerEntity}
    {ps : List PlayerDto} {next : Unit → Api α} (hroute : request.route = .addPlayers matchId dto)
    (hkeeps : h.Keeps tid fun w w' => w' = w)
    (hseen : ∀ P : World → Prop, (∀ w, w.roster matchId = existingPlayers → P w) → h.Saw tid P)
    (hps : ∀ p ∈ ps, p ∈ dto.players) (hnext : Explains S allow request tid (next ()) s h) :
    Explains S allow request tid (MatchService.checkSlots matchId existingPlayers ps >>= next) s h
    := by
  induction ps with
  | nil => exact hnext
  | cons p rest ih =>
      unfold MatchService.checkSlots
      rw [Prog.bind_assoc]
      refine wp_throwIf_onThrow (fun htaken => ?_) fun _ =>
        ih fun q hq => hps q (List.mem_cons_of_mem p hq)
      obtain ⟨q, hq, hsame⟩ := List.any_eq_true.mp htaken
      refine explained_of_refused hkeeps (.slotConflict hroute (hps p List.mem_cons_self) ?_)
      exact hseen _ fun w hw => ⟨q, hw ▸ hq, by simpa using hsame⟩

theorem startPlaying_relays (m : MatchEntity) (allPlayers : List MatchPlayerEntity) :
    (MatchService.startPlaying m allPlayers).Relays := by
  unfold MatchService.startPlaying
  split
  · exact relays_bind (relays_perform _) fun _ => trivial
  · trivial

theorem addPlayers_explained {dto : AddPlayersDto} (hS : PerformsAs S)
    (hroute : request.route = .addPlayers matchId dto) (hkeeps : h.Keeps tid fun w w' => w' = w) :
    Explains S allow request tid (MatchService.addPlayers matchId request.user.sub dto) s h := by
  have htarget : request.route.target = some matchId := by rw [hroute]; rfl
  unfold MatchService.addPlayers
  refine findById_explained hS htarget hkeeps fun r players h hkeeps hrow => ?_
  refine checkEditable_explained htarget hkeeps hrow ?_
  refine read_explained hS (fun _ => rfl) hkeeps fun h' w hpast hkeeps hsaw => ?_
  have hrow := hrow.past hpast
  refine wp_throwIf_onThrow (fun hexceeded => ?_) fun _ => ?_
  · exact explained_of_refused hkeeps (.capacityExceeded hroute
      (hrow.mono fun _ heq => congrArg MatchRow.matchType heq) (hsaw _ rfl) hexceeded)
  refine checkSlots_explained hroute hkeeps (fun P hP => hsaw P (hP w rfl)) (fun _ hp => hp)
    (relays_explained ?_)
  refine relays_bind (relays_perform _) fun _ => relays_bind (relays_perform _) fun allPlayers => ?_
  exact relays_bind (startPlaying_relays _ _) fun _ => trivial

theorem submitResult_explained {dto : SubmitResultDto} (hS : PerformsAs S)
    (hroute : request.route = .submitResult matchId dto)
    (hkeeps : h.Keeps tid fun w w' => w' = w) :
    Explains S allow request tid (MatchService.submitResult matchId request.user.sub dto) s h := by
  have htarget : request.route.target = some matchId := by rw [hroute]; rfl
  unfold MatchService.submitResult
  refine findById_explained hS htarget hkeeps fun r players h hkeeps hrow => ?_
  refine checkEditable_explained htarget hkeeps hrow ?_
  refine read_explained hS (fun _ => rfl) hkeeps fun h' w hpast hkeeps hsaw => ?_
  have hrow := hrow.past hpast
  refine wp_throwIf_onThrow (fun hmissing => ?_) fun _ => relays_explained ?_
  · exact explained_of_refused hkeeps (.insufficientPlayers hroute
      (hrow.mono fun _ heq => congrArg MatchRow.matchType heq) (hsaw _ rfl) hmissing)
  refine relays_bind (relays_perform _) fun _ => relays_bind (relays_perform _) fun _ => ?_
  exact relays_bind (relays_perform _) fun _ => trivial

theorem getStatus_explained (hS : PerformsAs S) (htarget : request.route.target = some matchId)
    (hkeeps : h.Keeps tid fun w w' => w' = w) :
    Explains S allow request tid (ConfirmationService.getStatus matchId) s h := by
  unfold ConfirmationService.getStatus
  refine lookup_explained hS htarget hkeeps fun r players h hkeeps hrow => ?_
  refine awaiting_explained htarget hkeeps hrow (relays_explained ?_)
  exact relays_bind (relays_perform _) fun _ => relays_bind (relays_perform _) fun _ => trivial

theorem cancel_explained (hS : PerformsAs S)
    (hroute : request.route = .cancelConfirmation matchId)
    (hkeeps : h.Keeps tid fun w w' => w' = w) :
    Explains S allow request tid (ConfirmationService.cancel matchId request.user.sub) s h := by
  have htarget : request.route.target = some matchId := by rw [hroute]; rfl
  unfold ConfirmationService.cancel
  refine lookup_explained hS htarget hkeeps fun r players h hkeeps hrow => ?_
  refine wp_throwIf_onThrow (fun hconfirmed => ?_) fun _ => ?_
  · have hconfirmed : r.status = .confirmed := hconfirmed
    rw [hconfirmed]
    exact explained_of_refused hkeeps
      (.alreadyConfirmed hroute (hrow.mono fun _ heq => heq ▸ hconfirmed))
  refine awaiting_explained htarget hkeeps hrow ?_
  refine wp_throwIf_onThrow (fun hcreator => ?_) fun _ => relays_explained ?_
  · exact explained_of_refused hkeeps
      (.notCreator htarget (hrow.mono fun _ heq => heq ▸ hcreator) _)
  refine relays_bind (relays_perform _) fun _ => relays_bind (relays_perform _) fun _ => ?_
  refine relays_bind (relays_perform _) fun _ => relays_bind (relays_perform _) fun _ => ?_
  exact relays_bind (relays_perform _) fun _ => trivial

theorem confirmMatch_relays (matchId : MatchId) (m : MatchEntity) :
    (ConfirmationService.confirmMatch matchId m).Relays := by
  refine relays_bind (relays_perform _) fun _ => relays_bind (relays_perform _) fun _ => ?_
  refine relays_bind (relays_perform _) fun _ => relays_bind (relays_perform _) fun _ => ?_
  refine relays_bind (relays_perform _) fun _ => relays_bind (relays_perform _) fun _ => ?_
  exact relays_perform _

/-- Nothing is refused once the transaction of `confirm` is open. -/
theorem lockedSection_relays (matchId : MatchId) (userId : UserId)
    (players : List MatchPlayerEntity) :
    (ConfirmationService.lockedSection matchId userId players).Relays := by
  refine relays_bind (relays_perform _) fun found => ?_
  split
  · exact relays_bind (relays_perform _) fun _ => relays_bind (relays_perform _) fun _ => trivial
  · refine relays_bind (relays_perform _) fun existing => relays_bind ?_ fun _ => ?_
    · cases existing with
      | some vote => trivial
      | none => exact relays_bind (relays_perform _) fun _ => trivial
    refine relays_bind (relays_perform _) fun allConfirmations => ?_
    unfold ConfirmationService.settle
    split
    · exact relays_bind (confirmMatch_relays _ _) fun _ => trivial
    · exact relays_bind (relays_perform _) fun _ => trivial

/-- The `finally` block releases the query runner, which changes nothing. -/
theorem release_explained (hS : PerformsAs S) :
    wp S (.free allow) tid (await .release) s h fun result s' h' =>
      OnThrow (fun failure _ h => request.Explained tid h failure) result s' h' ∧
        ∀ failure, request.Explained tid h failure → request.Explained tid h' failure := by
  refine wp_perform fun h' hmean _ fails _ => ⟨trivial, ?_⟩
  have hlater : ∀ result : Except Failure Call.release.Result, ∀ failure,
      request.Explained tid h failure →
        request.Explained tid (h'.snoc ⟨tid, .release, result, h'.world⟩) failure := by
    intro result failure hexplained
    refine hexplained.later (hmean.past.trans (past_snoc _ _)) fun R hrefl hkeeps => ?_
    exact (hmean.keeps hkeeps).snoc fun _ => hrefl _
  rw [hS]
  rcases perform_cases fails .release s h'.world with hperform | hperform <;> rw [hperform]
  · exact ⟨.ok _, hlater _⟩
  · exact ⟨.error (.inl raised_snoc), hlater _⟩

theorem confirm_explained (hS : PerformsAs S) (hroute : request.route = .confirmResult matchId)
    (hkeeps : h.Keeps tid fun w w' => w' = w) :
    Explains S allow request tid (ConfirmationService.confirm matchId request.user.sub) s h := by
  have htarget : request.route.target = some matchId := by rw [hroute]; rfl
  unfold ConfirmationService.confirm
  refine lookup_explained hS htarget hkeeps fun r players h hkeeps hrow => ?_
  refine awaiting_explained htarget hkeeps hrow ?_
  refine read_explained hS (fun _ => rfl) hkeeps fun h' w _ hkeeps hsaw => ?_
  refine wp_throwIf_onThrow (fun houtsider => ?_) fun _ => ?_
  · exact explained_of_refused hkeeps (.notAPlayer hroute (hsaw _ houtsider))
  refine call_explained fun _ _ _ => call_explained fun _ s h => ?_
  refine wp_catchFinally_onThrow (wp_relays (lockedSection_relays _ _ _)) ?_
    fun _ _ => release_explained hS
  -- The `catch` block throws what it has caught, unless the rollback fails.
  intro failure s h hraised
  refine wp_perform_bind fun h' hmean _ fails _ => ⟨trivial, ?_⟩
  rcases S.perform fails .rollbackTransaction s h'.world with ⟨result, s', w'⟩
  cases result with
  | ok value => exact .error (.inl (hraised.past (hmean.past.trans (past_snoc _ _))))
  | error failure => exact .error (.inl raised_snoc)

/-! ## The override -/

/-- A call has failed, and as long as the transaction is open no record has changed. -/
def Undone (tid : θ) (failure : Failure) (s : Session) (h : History θ) : Prop :=
  h.Raised tid failure ∧ (s.transaction.isSome = true → h.Keeps tid KeepsRecords)

/-- A call that is buffered by the open transaction, or concerns no record. -/
theorem buffered_call {op : Call} {next : op.Result → Api α} (hS : PerformsAs S)
    (hkeeps : h.Keeps tid KeepsRecords)
    (hbuffers : ∀ w, (exec op s w).2.1.transaction.isSome = true ∧
      KeepsRecords w (exec op s w).2.2)
    (hnext : ∀ value s' h', s'.transaction.isSome = true → h'.Keeps tid KeepsRecords →
      wp S (.free allow) tid (next value) s' h' (OnThrow (Undone tid))) :
    wp S (.free allow) tid (await op >>= next) s h (OnThrow (Undone tid)) := by
  refine wp_perform_bind fun h' hmean _ fails _ => ⟨trivial, ?_⟩
  have hkeeps := hmean.keeps hkeeps
  rw [hS]
  rcases perform_cases fails op s h'.world with hperform | hperform <;> rw [hperform]
  · obtain ⟨hopen', hrecords⟩ := hbuffers h'.world
    cases hresult : (exec op s h'.world).1 with
    | ok value => exact hnext value _ _ hopen' (hkeeps.snoc fun _ => hrecords)
    | error failure => exact .error ⟨raised_snoc, fun _ => hkeeps.snoc fun _ => hrecords⟩
  · exact .error ⟨raised_snoc, fun _ => hkeeps.snoc fun _ => .refl _⟩

/-- The commit takes effect and closes the transaction, or it fails and changes nothing. -/
theorem commit_undone {next : Unit → Api α} (hS : PerformsAs S) (hkeeps : h.Keeps tid KeepsRecords)
    (hnext : ∀ h', wp S (.free allow) tid (next ()) {} h' (OnThrow (Undone tid))) :
    wp S (.free allow) tid (await .commitTransaction >>= next) s h (OnThrow (Undone tid)) := by
  refine wp_perform_bind fun h' hmean _ fails _ => ⟨trivial, ?_⟩
  have hkeeps := hmean.keeps hkeeps
  rw [hS]
  rcases perform_cases fails .commitTransaction s h'.world with hperform | hperform <;>
    rw [hperform]
  · cases htransaction : s.transaction with
    | some changes =>
        simp only [exec, htransaction]
        exact hnext _
    | none =>
        simp only [exec, htransaction]
        exact .error ⟨raised_snoc, fun _ => hkeeps.snoc fun _ => .refl _⟩
  · exact .error ⟨raised_snoc, fun _ => hkeeps.snoc fun _ => .refl _⟩

/-- Adding a job changes no record. -/
theorem keepsRecords_add (queue : Queue) (job : EventEnvelope) (s : Session) (w : World) :
    KeepsRecords w (exec (.add queue job) s w).2.2 := by
  cases queue <;> exact ⟨⟨rfl, rfl, rfl, rfl⟩, rfl⟩

/-- Until its commit, the transaction of an override has changed no record. -/
theorem overrideTransaction_undone {actorId : UserId} {dto : AdminOverrideResultDto}
    {m : MatchEntity} (hS : PerformsAs S) (hopen : s.transaction.isSome = true)
    (hkeeps : h.Keeps tid KeepsRecords) :
    wp S (.free allow) tid (AdminOverrideService.overrideTransaction matchId actorId dto m) s h
      (OnThrow (Undone tid)) := by
  have hsave : ∀ {s : Session} {w : World} {m : MatchEntity}, s.transaction.isSome = true →
      (exec (.saveMatch m) s w).2.1.transaction.isSome = true ∧
        KeepsRecords w (exec (.saveMatch m) s w).2.2 := by
    intro s w m hopen
    obtain ⟨changes, hchanges⟩ := Option.isSome_iff_exists.mp hopen
    simp only [exec, Session.write, hchanges]
    exact ⟨rfl, .refl w⟩
  have haudit : ∀ {s : Session} {w : World} {data : AuditLogData}, s.transaction.isSome = true →
      (exec (.saveTransactionAuditLog data) s w).2.1.transaction.isSome = true ∧
        KeepsRecords w (exec (.saveTransactionAuditLog data) s w).2.2 := by
    intro s w data hopen
    obtain ⟨changes, hchanges⟩ := Option.isSome_iff_exists.mp hopen
    simp only [exec, Session.write, hchanges]
    exact ⟨rfl, ⟨rfl, rfl, rfl, rfl⟩, rfl⟩
  unfold AdminOverrideService.overrideTransaction
  refine buffered_call hS hkeeps (fun _ => hsave hopen) fun _ s h hopen hkeeps => ?_
  refine buffered_call hS hkeeps (fun _ => haudit hopen) fun _ s h hopen hkeeps => ?_
  refine buffered_call hS hkeeps (fun w => ⟨hopen, .refl w⟩) fun _ s h hopen hkeeps => ?_
  refine buffered_call hS hkeeps (fun w => ⟨hopen, keepsRecords_add _ _ _ w⟩)
    fun _ s h hopen hkeeps => ?_
  refine buffered_call hS hkeeps (fun w => ⟨hopen, .refl w⟩) fun _ s h hopen hkeeps => ?_
  refine buffered_call hS hkeeps (fun w => ⟨hopen, keepsRecords_add _ _ _ w⟩)
    fun _ s h hopen hkeeps => ?_
  refine commit_undone hS hkeeps fun h => ?_
  -- After the commit the session has no transaction left to roll back.
  refine wp_perform_bind fun h' _ _ fails _ => ⟨trivial, ?_⟩
  rw [hS]
  rcases perform_cases fails (.findPlayers matchId) {} h'.world with hperform | hperform <;>
    rw [hperform]
  · exact .ok _
  · exact .error ⟨raised_snoc, fun hopen => (Bool.false_ne_true hopen).elim⟩

/-- An override answers `AUDIT_LOG_WRITE_FAILED` when it has rolled back an open transaction. -/
theorem overrideResult_explained {dto : AdminOverrideResultDto} (hS : PerformsAs S)
    (hroute : request.route = .adminOverrideResult matchId dto)
    (hadmin : request.user.isAdmin = true) (hkeeps : h.Keeps tid fun w w' => w' = w) :
    Explains S allow request tid (AdminOverrideService.overrideResult matchId request.user.sub
      request.user.isAdmin dto) s h := by
  have htarget : request.route.target = some matchId := by rw [hroute]; rfl
  have hrecords : ∀ {h : History θ}, h.Keeps tid (fun w w' => w' = w) → h.Keeps tid KeepsRecords :=
    fun hkeeps => hkeeps.mono fun w w' heq => heq ▸ .refl w
  have hguarded : request.route.guarded = true := by rw [hroute]; rfl
  unfold AdminOverrideService.overrideResult
  refine admin_explained hguarded hkeeps fun _ => ?_
  refine lookup_explained hS htarget hkeeps fun r players h hkeeps hrow => ?_
  refine wp_throwIf_onThrow (fun hother => ?_) fun _ => ?_
  · exact explained_of_refused hkeeps
      (.notConfirmed hroute (hrow.mono fun _ heq => congrArg MatchRow.status heq) hother)
  refine read_explained hS (fun _ => rfl) hkeeps fun h _ _ hkeeps _ => ?_
  refine wp_perform_bind fun h' hmean _ fails _ => ⟨trivial, ?_⟩
  have hkeeps := hmean.keeps hkeeps
  rw [hS]
  rcases perform_cases fails .startTransaction s h'.world with hperform | hperform <;> rw [hperform]
  · refine wp_catchFinally_onThrow
      (overrideTransaction_undone hS rfl (hrecords (hkeeps.snoc fun _ => rfl))) ?_
      fun _ _ => release_explained hS
    intro failure s h hundone
    obtain ⟨hraised, hkeeps⟩ := hundone
    refine wp_perform_bind fun h' hmean _ fails _ => ⟨trivial, ?_⟩
    rw [hS]
    rcases perform_cases fails .rollbackTransaction s h'.world with hperform | hperform <;>
      rw [hperform]
    · cases htransaction : s.transaction with
      | some changes =>
          simp only [exec, htransaction]
          refine .error (.inr (.rolledBack hroute hadmin
            (hraised.past (hmean.past.trans (past_snoc _ _))) ?_))
          exact (hmean.keeps (hkeeps (by rw [htransaction]; rfl))).snoc fun _ => .refl _
      | none =>
          simp only [exec, htransaction]
          exact .error (.inl raised_snoc)
    · exact .error (.inl raised_snoc)
  · exact .error (.inl raised_snoc)

theorem recordDelete_relays (m : MatchEntity) (matchId : MatchId) (actorId : UserId) :
    (AdminOverrideService.recordDelete m matchId actorId).Relays := by
  unfold AdminOverrideService.recordDelete
  split
  · exact relays_bind (relays_perform _) fun _ => trivial
  · trivial

/-! ## Every request -/

/-- Whatever a request ends in is explained. -/
theorem Request.prog_explained (hS : PerformsAs S) (hkeeps : h.Keeps tid fun w w' => w' = w) :
    Explains S allow request tid request.prog s h := by
  obtain ⟨user, route⟩ := request
  cases route with
  | createMatch dto =>
      exact relays_explained (relays_bind (relays_bind (relays_perform _) fun _ => trivial)
        fun _ => trivial)
  | getMatch id => exact findById_explained hS rfl hkeeps fun _ _ _ _ _ => .ok _
  | updateMatch id dto => exact wp_map_onThrow (update_explained hS rfl hkeeps)
  | deleteMatch id =>
      refine admin_explained rfl hkeeps fun _ => wp_map_onThrow ?_
      refine admin_explained rfl hkeeps fun _ => ?_
      exact lookup_explained hS rfl hkeeps fun _ _ _ _ _ => relays_explained (relays_perform _)
  | addPlayers id dto => exact wp_map_onThrow (addPlayers_explained hS rfl hkeeps)
  | submitResult id dto => exact wp_map_onThrow (submitResult_explained hS rfl hkeeps)
  | getConfirmationStatus id => exact wp_map_onThrow (getStatus_explained hS rfl hkeeps)
  | confirmResult id => exact wp_map_onThrow (confirm_explained hS rfl hkeeps)
  | cancelConfirmation id => exact wp_map_onThrow (cancel_explained hS rfl hkeeps)
  | adminOverrideResult id dto =>
      exact admin_explained rfl hkeeps fun hadmin =>
        wp_map_onThrow (overrideResult_explained hS rfl hadmin hkeeps)
  | adminDeleteMatch id =>
      refine admin_explained rfl hkeeps fun _ => wp_map_onThrow ?_
      refine admin_explained rfl hkeeps fun _ => ?_
      exact lookup_explained hS rfl hkeeps fun _ _ _ _ _ =>
        relays_explained (relays_bind (recordDelete_relays _ _ _) fun _ => relays_perform _)
  | getMatchAuditLog id =>
      refine admin_explained rfl hkeeps fun _ => wp_map_onThrow ?_
      refine admin_explained rfl hkeeps fun _ => ?_
      exact lookup_explained hS rfl hkeeps fun _ _ _ _ _ => relays_explained (relays_perform _)

end Rules

/-! ## Every run -/

/-- A call of a run raises no error of the services. -/
theorem raised_not_http {S : System Call Call.Result Failure Session World} (hS : PerformsAs S)
    {allow : θ → History θ → Call → Bool → Prop} (hmade : h.Steps (Made S allow))
    {exception : HttpException} : ¬ h.Raised tid (.http exception) := by
  intro hraised
  obtain ⟨event, hmem, -, hresult⟩ := hraised
  obtain ⟨h₀, hpast⟩ := past_of_mem hmem
  obtain ⟨fails, s, s', -, hperform⟩ := hmade.of_past hpast
  rw [hS, hresult] at hperform
  rcases perform_cases fails event.op s h₀.world with hdone | hdone <;> rw [hdone] at hperform
  · exact exec_error_not_http (congrArg Prod.fst hperform)
  · cases hperform

/-- A justified error is one of the services. -/
theorem Request.Justified.http (hjustified : request.Justified tid h failure) :
    ∃ exception, failure = .http exception := by
  cases hjustified with
  | refused hrefused => cases hrefused <;> exact ⟨_, rfl⟩
  | rolledBack => exact ⟨_, rfl⟩

/-- In every interleaving of any requests, whichever calls wait for the row lock and whichever fail,
an error of the services tells the truth: it names what its request has seen, and the request has
changed nothing; or it is the `AUDIT_LOG_WRITE_FAILED` of an override that has changed no record.
Any other error was raised by one of the request's own calls. -/
theorem errors_truthful [DecidableEq θ] {S : System Call Call.Result Failure Session World}
    {inputs : θ → Input} {w : World} {allow : θ → History θ → Call → Bool → Prop} {c : Running θ}
    (hexec : S.exec = exec) (hfault : S.fault = system.fault) (hlocks : S.held = Session.locked)
    (hreach : Reach S allow (w.begin inputs) c) {i : θ} {request : Request}
    (hrequest : inputs i = .request request) {failure : Failure}
    (hresult : c.resultOf i = some (.error failure)) :
    (∃ exception, failure = .http exception) ∧ request.Justified i c.trace failure ∨
      (∀ exception, failure ≠ .http exception) ∧ c.trace.Raised i failure := by
  have hS : PerformsAs S := perform_eq_system hexec hfault
  have hheld : S.held {} = false := by rw [hlocks]
  have hexplained := Reach.thrown (E := fun i failure h =>
      ∀ request, inputs i = .request request → request.Explained i h failure) hreach hheld
    (fun j failure h e hne hexplained request hinput =>
      (hexplained request hinput).later (past_snoc _ _) fun R _ hkeeps =>
        hkeeps.snoc fun htid => absurd htid hne)
    (fun j => ?_) hresult request hrequest
  · rcases hexplained with hraised | hjustified
    · refine .inr ⟨fun exception heq => ?_, hraised⟩
      exact raised_not_http hS hreach.made (heq ▸ hraised)
    · exact .inl ⟨hjustified.http, hjustified⟩
  · cases hinput : inputs j with
    | request request =>
        refine wp_mono (request.prog_explained hS (keeps_nil _ _ _)) fun _ _ _ hthrown => ?_
        intro failure heq other hother
        cases hother
        exact hthrown failure heq
    | signIn user => exact wp_free fun _ _ _ _ _ _ hother => by cases hother
    | tick elapsed => exact wp_free fun _ _ _ _ _ _ hother => by cases hother

/-- `mario` cancels the confirmation phase of the duel in which `rival` votes. -/
def cancelAndVote : Fin 2 → Input
  | 0 => .request ⟨mario, .cancelConfirmation 1⟩
  | 1 => .request ⟨rival, .confirmResult 1⟩

/-- The vote comes after the cancellation has reopened the match, and is told so. -/
theorem errors_truthful_duel :
    ∃ c : Running (Fin 2),
      c.resultOf 1 = some (.error (.matchNotAwaitingConfirmation .playing)) ∧
        Request.Justified ⟨rival, .confirmResult 1⟩ 1 c.trace
          (.matchNotAwaitingConfirmation .playing) := by
  obtain ⟨c, hreach, htest⟩ := Reach.exists_of_execute system (fun _ _ _ _ => True)
    (((World.withUsers signedIn).run duel).begin cancelAndVote)
    (.replicate 3 (0, false) ++ [(1, false)])
    (fun c => c.resultOf 1 = some (.error (.matchNotAwaitingConfirmation .playing))) (by decide)
  have hresult := of_decide_eq_true htest
  refine ⟨c, hresult, ?_⟩
  rcases errors_truthful rfl rfl rfl hreach rfl hresult with ⟨-, hjustified⟩ | ⟨hplain, -⟩
  · exact hjustified
  · exact absurd rfl (hplain _)

end FoosballApi.Matches
