import FoosballApi.Calls.RelyGuarantee
import FoosballApi.Matches.Requests
import FoosballApi.Matches.ServiceSpecs

/-!
# What the calls of an interleaved request do

When requests interleave, a request acts on what it read earlier. `Request.Does` says what one of
its calls can do to the world, given the whole past of the run: which row, read at which earlier
moment, a write goes back to, and which checks were passed then. `Request.safe` shows that every
call of every request is one of these; properties of interleaved runs follow from it by induction
along the trace, without looking inside the services again.
-/

namespace FoosballApi.Matches

open Calls Events Prog Trace World

/-- The past of a run of requests. -/
abbrev History (θ : Type) := Trace θ Call Call.Result Failure World

/-- A state of a run of requests. -/
abbrev Running (θ : Type) := Config θ Call Call.Result Failure Session World Response

/-- One call of a run of requests. -/
abbrev CallEvent (θ : Type) := Event θ Call Call.Result Failure World

/-- The players that a call of `tid` read of a match. -/
def playersRead [DecidableEq θ] (tid : θ) (matchId : MatchId) :
    CallEvent θ → Option (List MatchPlayerEntity)
  | ⟨caller, .findPlayers id, .ok players, _⟩ =>
      if caller = tid ∧ id = matchId then some players else none
  | _ => none

/-- Two worlds with the same matches, players, votes, audit rows and audit jobs. -/
structure Silent (w w' : World) : Prop where
  matchRows : w'.matchRows = w.matchRows
  players : w'.players = w.players
  confirmations : w'.confirmations = w.confirmations
  auditLogs : w'.auditLogs = w.auditLogs
  auditQueue : w'.auditQueue = w.auditQueue

theorem Silent.refl (w : World) : Silent w w := ⟨rfl, rfl, rfl, rfl, rfl⟩

/-- A silent call keeps every match. -/
theorem Silent.matchView {w w' : World} (h : Silent w w') (matchId : MatchId) :
    w'.matchView matchId = w.matchView matchId := by
  rw [World.matchView, row, roster, votes, h.matchRows, h.players, h.confirmations]
  rfl

/-- The row a request saves over a match it has read as `r`, and the checks it made on `r`. -/
inductive Request.Saves (request : Request) (matchId : MatchId) (r : MatchRow) : MatchRow → Prop
  | update {dto : UpdateMatchDto} (route : request.route = .updateMatch matchId dto)
      (creator : r.createdBy = some request.user.sub) (editable : ¬ r.status.Locked) :
      request.Saves matchId r
        { r with scoreA := dto.scoreA.getD r.scoreA, scoreB := dto.scoreB.getD r.scoreB }
  | startPlaying {dto : AddPlayersDto} (route : request.route = .addPlayers matchId dto)
      (creator : r.createdBy = some request.user.sub) (draft : r.status = .draft) :
      request.Saves matchId r { r with status := .playing }
  | submitResult {dto : SubmitResultDto} (route : request.route = .submitResult matchId dto)
      (creator : r.createdBy = some request.user.sub) (editable : ¬ r.status.Locked) :
      request.Saves matchId r
        { r with
          scoreA := some dto.scoreA
          scoreB := some dto.scoreB
          status := .awaitingConfirmation }
  | cancel (route : request.route = .cancelConfirmation matchId)
      (creator : r.createdBy = some request.user.sub)
      (awaiting : r.status = .awaitingConfirmation) :
      request.Saves matchId r { r with status := .playing }

/-- A request is at the commit of the locked section of `confirm`: it has read the roster as
`players`, and then, under the lock, the match as `r`. -/
structure Request.Votes {θ : Type} (request : Request) (tid : θ) (h : History θ)
    (matchId : MatchId) (r : MatchRow) (players : List MatchPlayerEntity) : Prop where
  route : request.route = .confirmResult matchId
  reads : ∃ h₁ h₂ : History θ,
    players = h₁.world.roster matchId ∧
    Past (h₁.snoc ⟨tid, .findPlayers matchId, .ok players, h₁.world⟩) h₂ ∧
    Past (h₂.snoc ⟨tid, .findMatchForUpdate matchId, .ok (some ⟨r, none⟩), h₂.world⟩) h ∧
    h.world = h₂.world
  player : IsPlayer (players.map (·.userId)) request.user.sub
  row : h.world.row matchId = some r
  awaiting : r.status = .awaitingConfirmation

/-- The data of the audit row and of the audit job of an override. -/
def overrideData (request : Request) (matchId : MatchId) (dto : AdminOverrideResultDto)
    (r : MatchRow) : AuditLogData :=
  AdminOverrideService.overrideAuditData ⟨r, none⟩ matchId request.user.sub dto

/-- What a call of a request does, after the history `h`. -/
inductive Request.Does {θ : Type} (request : Request) (h : History θ) : CallEvent θ → Prop
  | silent {event} (same : Silent h.world event.world)
      (uncommitted : event.op = .commitTransaction → ∀ value, event.result ≠ .ok value) :
      request.Does h event
  | create {tid dto} (route : request.route = .createMatch dto) {r : MatchRow}
      (new : r = h.world.newMatch request.user.sub (dto.matchType.getD .twoVsTwo) .draft) :
      request.Does h ⟨tid, .create request.user.sub (dto.matchType.getD .twoVsTwo) .draft,
        .ok ⟨r, none⟩, h.world.insertMatch r⟩
  | save {tid matchId} {h₀ : History θ} {r r' : MatchRow} (past : Past h₀ h)
      (read : h₀.world.row matchId = some r) (saves : request.Saves matchId r r')
      {m : MatchEntity} (written : m = ⟨r', some (h₀.world.roster matchId)⟩) :
      request.Does h ⟨tid, .save m, .ok (savedEntity (h.world.saveMatch m) m),
        h.world.saveMatch m⟩
  | savePlayers {tid matchId dto} (route : request.route = .addPlayers matchId dto)
      {h₀ h₁ : History θ} {r : MatchRow} (past : Past h₀ h₁)
      (counted : Past (h₁.snoc ⟨tid, .findPlayers matchId, .ok (h₁.world.roster matchId),
        h₁.world⟩) h)
      (read : h₀.world.row matchId = some r) (creator : r.createdBy = some request.user.sub)
      (editable : ¬ r.status.Locked)
      (room : (h₁.world.roster matchId).length + dto.players.length ≤ matchCapacity r.matchType)
      {ps : List MatchPlayerEntity} (written : ps = dto.players.map (·.toEntity matchId))
      {w' : World} (accepted : h.world.savePlayers ps = some w') :
      request.Does h ⟨tid, .savePlayers ps, .ok ps, w'⟩
  | deleteVotes {tid matchId} (route : request.route = .cancelConfirmation matchId)
      {h₀ : History θ} {r : MatchRow} (past : Past h₀ h) (read : h₀.world.row matchId = some r)
      (awaiting : r.status = .awaitingConfirmation) :
      request.Does h ⟨tid, .deleteAllConfirmations matchId, .ok (),
        h.world.deleteAllConfirmations matchId⟩
  | vote {tid matchId} {r : MatchRow} {players} (votes : request.Votes tid h matchId r players)
      (below : ((h.world.votedWorld matchId request.user.sub).votes matchId).length <
        calculateQuorum players.length) :
      request.Does h ⟨tid, .commitTransaction, .ok (),
        h.world.votedWorld matchId request.user.sub⟩
  | confirm {tid matchId} {r : MatchRow} {players} (votes : request.Votes tid h matchId r players)
      (quorum : calculateQuorum players.length ≤
        ((h.world.votedWorld matchId request.user.sub).votes matchId).length)
      {h₃ : History θ} (counted : Past (h₃.snoc ⟨tid, .findTransactionConfirmations matchId,
        .ok ((h.world.votedWorld matchId request.user.sub).votes matchId), h₃.world⟩) h)
      (confirmedAt : Date) :
      request.Does h ⟨tid, .commitTransaction, .ok (),
        (h.world.votedWorld matchId request.user.sub).saveMatch
          ⟨r.confirmedAtTime confirmedAt, none⟩⟩
  | announce {tid matchId dto} (route : request.route = .adminOverrideResult matchId dto)
      {r : MatchRow} {job : EventEnvelope} (version : job.version = 1)
      (payload : job.payload = .auditLog (overrideData request matchId dto r)) :
      request.Does h ⟨tid, .add .auditQueue job, .ok (), h.world.enqueue .auditQueue job⟩
  | overrideResult {tid matchId dto} (route : request.route = .adminOverrideResult matchId dto)
      {h₀ h₁ : History θ} {r : MatchRow} (reading : Past (h₀.snoc ⟨tid, .findById matchId,
        .ok (h₀.world.findById matchId), h₀.world⟩) h₁)
      (read : h₀.world.row matchId = some r) (confirmed : r.status = .confirmed)
      {job : EventEnvelope} (payload : job.payload = .auditLog (overrideData request matchId dto r))
      (announced : Past (h₁.snoc ⟨tid, .add .auditQueue job, .ok (),
        h₁.world.enqueue .auditQueue job⟩) h)
      {m : MatchEntity}
      (written : m = ⟨{ r with scoreA := some dto.scoreA, scoreB := some dto.scoreB },
        some (h₀.world.roster matchId)⟩)
      {entry : AuditLogEntity} (data : entry.toAuditLogData = overrideData request matchId dto r) :
      request.Does h ⟨tid, .commitTransaction, .ok (),
        (h.world.saveMatch m).appendAuditLog entry⟩
  | recordDelete {tid matchId} (route : request.route = .adminDeleteMatch matchId)
      {data : AuditLogData} (action : data.action = .matchDelete) :
      request.Does h ⟨tid, .saveAuditLog data, .ok (h.world.newAuditLog data),
        h.world.takeAuditId.appendAuditLog (h.world.newAuditLog data)⟩
  | delete {tid matchId} (route : request.route = .deleteMatch matchId ∨
        request.route = .adminDeleteMatch matchId) (admin : request.user.isAdmin = true) :
      request.Does h ⟨tid, .delete matchId, .ok (), h.world.deleteMatch matchId⟩

/-! ## Rules -/

variable {θ α β : Type} {C : Contract θ Call Call.Result Failure World} {tid : θ}
  {request : Request} {s : Session} {h : History θ} {matchId : MatchId}

/-- The contract admits whatever the calls of a request do. -/
def Admits (C : Contract θ Call Call.Result Failure World) (tid : θ) (request : Request) : Prop :=
  ∀ h event, event.tid = tid → C.Valid h → request.Does h event → C.guar h event

/-- A call is carried out, or it fails and changes nothing. -/
theorem perform_cases (fails : Bool) (op : Call) (s : Session) (w : World) :
    system.perform fails op s w = exec op s w ∨
      system.perform fails op s w = (.error .unavailable, s, w) := by
  rcases system.perform_cases fails op s w with hdone | ⟨failure, hfault, hfails⟩
  · exact .inl hdone
  · have hunavailable : failure = .unavailable := by cases op <;> cases hfault <;> rfl
    rw [hunavailable] at hfails
    exact .inr hfails

/-- A call of a request, with what follows it when it goes through. -/
theorem safe_call {op : Call} {next : op.Result → Api α} (hadmits : Admits C tid request)
    (hdoes : ∀ h', Past h h' → (s.locked = true → h' = h) →
      request.Does h' ⟨tid, op, (exec op s h'.world).1, (exec op s h'.world).2.2⟩ ∧
        ∀ value, (exec op s h'.world).1 = .ok value →
          Safe system C tid (next value) (exec op s h'.world).2.1
            (h'.snoc ⟨tid, op, .ok value, (exec op s h'.world).2.2⟩)) :
    Safe system C tid (await op >>= next) s h := by
  refine wp_perform_bind fun h' hmean hv fails _ => ?_
  obtain ⟨hdo, hnext⟩ := hdoes h' hmean.past fun hlocked => hmean.eq hlocked fun _ => rfl
  rcases perform_cases fails op s h'.world with hperform | hperform
  · rw [hperform]
    refine ⟨hadmits _ _ rfl hv hdo, ?_⟩
    cases hresult : (exec op s h'.world).1 with
    | ok value => exact hnext value hresult
    | error failure => exact trivial
  · rw [hperform]
    exact ⟨hadmits _ _ rfl hv (.silent (.refl _) fun _ _ => nofun), trivial⟩

/-- The call that ends a transaction. -/
def Call.commits : Call → Bool
  | .commitTransaction => true
  | _ => false

/-- The match that a `save` writes. -/
def Call.savedMatch : Call → Option MatchEntity
  | .save m => some m
  | _ => none

/-- The players that a `savePlayers` writes. -/
def Call.savedPlayers : Call → List MatchPlayerEntity
  | .savePlayers ps => ps
  | _ => []

theorem not_commits {op : Call} {P : Prop} (hcommit : op.commits = false)
    (hop : op = .commitTransaction) : P := by
  rw [hop] at hcommit
  cases hcommit

/-- A call that leaves the world as it is. -/
theorem safe_read {op : Call} {f : World → op.Result} {g : World → Session}
    {next : op.Result → Api α} (hadmits : Admits C tid request)
    (hop : ∀ w, exec op s w = (.ok (f w), g w, w)) (hcommit : op.commits = false)
    (hnext : ∀ h', Past h h' → (s.locked = true → h' = h) →
      Safe system C tid (next (f h'.world)) (g h'.world)
        (h'.snoc ⟨tid, op, .ok (f h'.world), h'.world⟩)) :
    Safe system C tid (await op >>= next) s h := by
  refine safe_call hadmits fun h' hpast hlocked => ?_
  rw [hop]
  refine ⟨.silent (.refl _) (not_commits hcommit), fun value hvalue => ?_⟩
  cases hvalue
  exact hnext h' hpast hlocked

/-- A call that touches neither a match nor the audit trail. -/
theorem safe_silent {op : Call} {next : op.Result → Api α} (hadmits : Admits C tid request)
    (hop : ∀ w, Silent w (exec op s w).2.2) (hcommit : op.commits = false)
    (hnext : ∀ value s' h', Safe system C tid (next value) s' h') :
    Safe system C tid (await op >>= next) s h :=
  safe_call hadmits fun _ _ _ =>
    ⟨.silent (hop _) (not_commits hcommit), fun _ _ => hnext _ _ _⟩

/-- The last call of a program. -/
theorem safe_last {op : Call} (hcall : Safe system C tid (await op >>= Prog.pure) s h) :
    Safe system C tid (await op) s h := by
  rwa [bind_pure] at hcall

/-! ## `MatchService` -/

/-- `findById` hands on the row and the roster of the moment it read them. -/
theorem findById_safe {next : MatchEntity → Api α} (hadmits : Admits C tid request)
    (hnext : ∀ h₀ r h', Past h₀ h' → h₀.world.row matchId = some r →
      Safe system C tid (next ⟨r, some (h₀.world.roster matchId)⟩) s h') :
    Safe system C tid (MatchService.findById matchId >>= next) s h := by
  unfold MatchService.findById
  rw [Prog.bind_assoc]
  refine safe_read hadmits (fun _ => rfl) rfl fun h₀ _ _ => ?_
  rw [Prog.bind_assoc]
  refine safe_require fun m hm => ?_
  obtain ⟨r, hrow, rfl⟩ := Option.map_eq_some_iff.mp hm
  exact hnext h₀ r _ (past_snoc _ _) hrow

/-- The common start of `update`, `addPlayers` and `submitResult`. -/
theorem editable_safe {notCreator locked : String} {next : MatchEntity → Api α}
    (hadmits : Admits C tid request)
    (hnext : ∀ h₀ r h', Past h₀ h' → h₀.world.row matchId = some r →
      r.createdBy = some request.user.sub → ¬ r.status.Locked →
      Safe system C tid (next ⟨r, some (h₀.world.roster matchId)⟩) s h') :
    Safe system C tid (do
      let m ← MatchService.findById matchId
      MatchService.checkEditable matchId m request.user.sub notCreator locked
      next m) s h := by
  refine findById_safe hadmits fun h₀ r h' hpast hrow => ?_
  unfold MatchService.checkEditable
  rw [Prog.bind_assoc]
  refine safe_throwIf fun hcreator => ?_
  refine safe_throwIf fun hopen => ?_
  exact hnext h₀ r h' hpast hrow (not_notCreator.mp hcreator) hopen

/-- A `save` of a match that was read earlier. -/
theorem save_safe {next : MatchEntity → Api α} {h₀ : History θ} {r r' : MatchRow}
    (hadmits : Admits C tid request) (hpast : Past h₀ h) (hrow : h₀.world.row matchId = some r)
    (hsaves : request.Saves matchId r r')
    (hnext : ∀ m h', Safe system C tid (next m) s h') :
    Safe system C tid (await (.save ⟨r', some (h₀.world.roster matchId)⟩) >>= next) s h := by
  refine safe_call hadmits fun h' hpast' _ => ⟨?_, fun _ _ => hnext _ _⟩
  exact .save (hpast.trans hpast') hrow hsaves rfl

theorem update_safe {dto : UpdateMatchDto} (hadmits : Admits C tid request)
    (hroute : request.route = .updateMatch matchId dto) :
    Safe system C tid (MatchService.update matchId request.user.sub dto) s h := by
  refine editable_safe hadmits fun h₀ r h hpast hrow hcreator hopen => ?_
  refine save_safe hadmits hpast hrow (.update hroute hcreator hopen) fun _ _ => ?_
  exact safe_read hadmits (fun _ => rfl) rfl fun _ _ _ => trivial

theorem delete_safe {isAdmin : Bool} (hadmits : Admits C tid request)
    (hroute : request.route = .deleteMatch matchId) (hadmin : isAdmin = request.user.isAdmin) :
    Safe system C tid (MatchService.delete matchId request.user.sub isAdmin) s h := by
  refine safe_throwIf fun hrole => ?_
  refine safe_read hadmits (fun _ => rfl) rfl fun _ _ _ => ?_
  refine safe_require fun _ _ => safe_last ?_
  refine safe_call hadmits fun h' _ _ => ⟨?_, fun _ _ => trivial⟩
  exact .delete (.inl hroute) (hadmin ▸ Decidable.not_not.mp hrole)

/-- The slot loop of `addPlayers` makes no call. -/
theorem checkSlots_safe {existing : List MatchPlayerEntity} {ps : List PlayerDto}
    {next : Unit → Api α} (hnext : Safe system C tid (next ()) s h) :
    Safe system C tid (MatchService.checkSlots matchId existing ps >>= next) s h := by
  induction ps with
  | nil => exact hnext
  | cons p ps ih =>
      unfold MatchService.checkSlots
      rw [Prog.bind_assoc]
      exact safe_throwIf fun _ => ih

theorem startPlaying_safe {h₀ : History θ} {r : MatchRow} {dto : AddPlayersDto}
    {allPlayers : List MatchPlayerEntity} {next : MatchEntity → Api α}
    (hadmits : Admits C tid request) (hroute : request.route = .addPlayers matchId dto)
    (hpast : Past h₀ h) (hrow : h₀.world.row matchId = some r)
    (hcreator : r.createdBy = some request.user.sub)
    (hnext : ∀ m h', Safe system C tid (next m) s h') :
    Safe system C tid
      (MatchService.startPlaying ⟨r, some (h₀.world.roster matchId)⟩ allPlayers >>= next) s h := by
  unfold MatchService.startPlaying
  split
  · next hstart =>
      rw [Prog.bind_assoc]
      exact save_safe hadmits hpast hrow (.startPlaying hroute hcreator hstart.1) fun _ _ =>
        hnext _ _
  · exact hnext _ _

theorem addPlayers_safe {dto : AddPlayersDto} (hadmits : Admits C tid request)
    (hroute : request.route = .addPlayers matchId dto) :
    Safe system C tid (MatchService.addPlayers matchId request.user.sub dto) s h := by
  refine editable_safe hadmits fun h₀ r h hpast hrow hcreator hopen => ?_
  refine safe_read hadmits (fun _ => rfl) rfl fun h₁ hpast₁ _ => ?_
  refine safe_throwIf fun hroom => ?_
  refine checkSlots_safe ?_
  refine safe_call hadmits fun h₂ hpast₂ _ => ?_
  have hpast₁ := hpast.trans hpast₁
  rw [exec]
  cases hsaved : h₂.world.savePlayers (dto.players.map (·.toEntity matchId)) with
  | none => exact ⟨.silent (.refl _) (not_commits rfl), fun _ hresult => by cases hresult⟩
  | some w' =>
      refine ⟨.savePlayers hroute hpast₁ hpast₂ hrow hcreator hopen (Nat.le_of_not_lt hroom) rfl
        hsaved, fun _ _ => ?_⟩
      refine safe_read hadmits (fun _ => rfl) rfl fun h₃ hpast₃ _ => ?_
      have hpast₃ := (past_snoc _ _).trans hpast₃
      refine startPlaying_safe hadmits hroute ?_ hrow hcreator fun _ _ => trivial
      exact ((hpast₁.snoc.trans hpast₂).trans hpast₃).snoc

theorem submitResult_safe {dto : SubmitResultDto} (hadmits : Admits C tid request)
    (hroute : request.route = .submitResult matchId dto) :
    Safe system C tid (MatchService.submitResult matchId request.user.sub dto) s h := by
  refine editable_safe hadmits fun h₀ r h hpast hrow hcreator hopen => ?_
  refine safe_read hadmits (fun _ => rfl) rfl fun h₁ hpast₁ _ => ?_
  refine safe_throwIf fun _ => ?_
  refine save_safe hadmits (hpast.trans hpast₁).snoc hrow
    (.submitResult hroute hcreator hopen) fun _ _ => ?_
  refine safe_read hadmits (fun _ => rfl) rfl fun _ _ _ => ?_
  exact safe_silent hadmits (fun _ => ⟨rfl, rfl, rfl, rfl, rfl⟩) rfl fun _ _ _ => trivial

/-! ## `ConfirmationService` -/

/-- A call that changes nothing keeps a request at the end of its locked section. -/
theorem Request.Votes.snoc {r : MatchRow} {players : List MatchPlayerEntity}
    (hvotes : request.Votes tid h matchId r players) {caller : θ} {op : Call}
    {result : Except Failure op.Result} :
    request.Votes tid (h.snoc ⟨caller, op, result, h.world⟩) matchId r players := by
  obtain ⟨hroute, ⟨h₁, h₂, hplayers, hpast₁, hpast₂, hsame⟩, hplayer, hrow, hawait⟩ := hvotes
  exact ⟨hroute, ⟨h₁, h₂, hplayers, hpast₁, hpast₂.snoc, hsame⟩, hplayer, hrow,
    hawait⟩

/-- The branch that only reports ends the transaction and reads. -/
theorem reportCurrent_safe {players : List MatchPlayerEntity} {changes : List Write}
    {locked : Bool} (hadmits : Admits C tid request) :
    Safe system C tid (ConfirmationService.reportCurrent matchId players) ⟨some changes, locked⟩
      h := by
  refine safe_read hadmits (fun _ => rfl) rfl fun _ _ _ => ?_
  exact safe_read hadmits (fun _ => rfl) rfl fun _ _ _ => trivial

/-- At the quorum the transaction's vote and the confirmed match are committed together. -/
theorem confirmMatch_safe {r : MatchRow} {players : List MatchPlayerEntity}
    {next : Unit → Api α} {h₃ : History θ} (hadmits : Admits C tid request)
    (hvotes : request.Votes tid h matchId r players)
    (hquorum : calculateQuorum players.length ≤
      ((h.world.votedWorld matchId request.user.sub).votes matchId).length)
    (hcounted : Past (h₃.snoc ⟨tid, .findTransactionConfirmations matchId,
      .ok ((h.world.votedWorld matchId request.user.sub).votes matchId), h₃.world⟩) h)
    (hnext : ∀ s' h', Safe system C tid (next ()) s' h') :
    Safe system C tid (ConfirmationService.confirmMatch matchId ⟨r, none⟩ >>= next)
      ⟨some (h.world.voteWrites matchId request.user.sub), true⟩ h := by
  unfold ConfirmationService.confirmMatch
  rw [Prog.bind_assoc]
  refine safe_read hadmits (fun _ => rfl) rfl fun h₁ _ hlocked => ?_
  obtain rfl := hlocked rfl
  rw [Prog.bind_assoc]
  refine safe_read hadmits (fun _ => rfl) rfl fun h₂ _ hlocked => ?_
  obtain rfl := hlocked rfl
  rw [Prog.bind_assoc]
  refine safe_call hadmits fun h₃ _ hlocked => ?_
  obtain rfl := hlocked rfl
  constructor
  · show request.Does _ ⟨tid, .commitTransaction, .ok (), (_ ++ [Write.saveMatch _]).foldl
      Write.commit h₁.world⟩
    rw [List.foldl_append]
    exact .confirm hvotes.snoc.snoc hquorum hcounted.snoc.snoc h₁.world.clock
  · intro _ _
    rw [Prog.bind_assoc]
    refine safe_silent hadmits (fun _ => .refl _) rfl fun _ _ _ => ?_
    rw [Prog.bind_assoc]
    refine safe_silent hadmits (fun _ => ⟨rfl, rfl, rfl, rfl, rfl⟩) rfl fun _ _ _ => ?_
    rw [Prog.bind_assoc]
    refine safe_silent hadmits (fun _ => .refl _) rfl fun _ _ _ => ?_
    exact safe_silent hadmits (fun _ => ⟨rfl, rfl, rfl, rfl, rfl⟩) rfl fun _ _ _ => hnext _ _

/-- The end of the locked section commits the caller's vote. -/
theorem settle_safe {r : MatchRow} {players : List MatchPlayerEntity}
    {h₃ : History θ} (hadmits : Admits C tid request)
    (hvotes : request.Votes tid h matchId r players)
    (hcounted : Past (h₃.snoc ⟨tid, .findTransactionConfirmations matchId,
      .ok ((h.world.votedWorld matchId request.user.sub).votes matchId), h₃.world⟩) h) :
    Safe system C tid (ConfirmationService.settle matchId players ⟨r, none⟩
        ((h.world.votedWorld matchId request.user.sub).votes matchId))
      ⟨some (h.world.voteWrites matchId request.user.sub), true⟩ h := by
  unfold ConfirmationService.settle
  split
  · next hquorum => exact confirmMatch_safe hadmits hvotes hquorum hcounted fun _ _ => trivial
  · next hbelow =>
      refine safe_call hadmits fun h₁ _ hlocked => ?_
      obtain rfl := hlocked rfl
      exact ⟨.vote hvotes (Nat.lt_of_not_le hbelow), fun _ _ => trivial⟩

/-- The `if (!existing)` block leaves the caller's vote in the transaction. -/
theorem saveVote_safe {r : MatchRow} {players : List MatchPlayerEntity} {next : Unit → Api α}
    (hadmits : Admits C tid request) (hvotes : request.Votes tid h matchId r players)
    (hnext : ∀ h', request.Votes tid h' matchId r players →
      Safe system C tid (next ()) ⟨some (h'.world.voteWrites matchId request.user.sub), true⟩ h') :
    Safe system C tid (ConfirmationService.saveVote matchId request.user.sub
      (h.world.confirmations.get (matchId, request.user.sub)) >>= next) ⟨some [], true⟩ h := by
  unfold ConfirmationService.saveVote
  cases hget : h.world.confirmations.get (matchId, request.user.sub) with
  | some c =>
      have hwrites : h.world.voteWrites matchId request.user.sub = [] := by
        rw [voteWrites, hget]
      exact hwrites ▸ hnext h hvotes
  | none =>
      have hwrites : h.world.voteWrites matchId request.user.sub =
          [.putConfirmation (h.world.newConfirmation matchId request.user.sub)] := by
        rw [voteWrites, hget]
      rw [Prog.bind_assoc]
      refine safe_read hadmits (fun _ => rfl) rfl fun h₁ _ hlocked => ?_
      obtain rfl := hlocked rfl
      show Safe system C tid (next ()) ⟨some [.putConfirmation _], true⟩ _
      exact hwrites ▸ hnext _ hvotes.snoc

/-- The branch of `confirm` for a match that awaits confirmation. -/
theorem castVote_safe {r : MatchRow} {players : List MatchPlayerEntity}
    (hadmits : Admits C tid request) (hvotes : request.Votes tid h matchId r players) :
    Safe system C tid (ConfirmationService.castVote matchId request.user.sub players ⟨r, none⟩)
      ⟨some [], true⟩ h := by
  unfold ConfirmationService.castVote
  refine safe_read hadmits (fun _ => rfl) rfl fun h₁ _ hlocked => ?_
  obtain rfl := hlocked rfl
  refine saveVote_safe hadmits hvotes.snoc fun h₂ hvotes₂ => ?_
  refine safe_read hadmits (fun _ => rfl) rfl fun h₃ _ hlocked => ?_
  obtain rfl := hlocked rfl
  exact settle_safe hadmits hvotes₂.snoc (.refl _)

/-- The `try` block of `confirm`, for a player of the roster that was read before it. -/
theorem lockedSection_safe {h₁ : History θ} (hadmits : Admits C tid request)
    (hroute : request.route = .confirmResult matchId)
    (hread : Past (h₁.snoc ⟨tid, .findPlayers matchId, .ok (h₁.world.roster matchId), h₁.world⟩) h)
    (hplayer : IsPlayer ((h₁.world.roster matchId).map (·.userId)) request.user.sub) :
    Safe system C tid (ConfirmationService.lockedSection matchId request.user.sub
      (h₁.world.roster matchId)) ⟨some [], false⟩ h := by
  unfold ConfirmationService.lockedSection
  refine safe_read hadmits (fun _ => rfl) rfl fun h₂ hpast _ => ?_
  have hview : (⟨some [], false⟩ : Session).view h₂.world = h₂.world := rfl
  rw [hview]
  cases hrow : h₂.world.row matchId with
  | none => exact reportCurrent_safe hadmits
  | some r =>
      rw [Option.map_some, Option.filter_some]
      by_cases hawait : r.status = .awaitingConfirmation
      · rw [if_pos (by simpa using hawait)]
        exact castVote_safe hadmits ⟨hroute, ⟨h₁, h₂, rfl, hread.trans hpast, .refl _, rfl⟩,
          hplayer, hrow, hawait⟩
      · rw [if_neg (by simpa using hawait)]
        exact reportCurrent_safe hadmits

/-- The `catch` block of `confirm` and `overrideResult` rolls back. -/
theorem rollback_safe {failure : Failure} (hadmits : Admits C tid request) :
    Safe system C tid (await .rollbackTransaction >>= fun _ => (Prog.throw failure : Api α)) s h :=
  safe_silent hadmits
    (fun w => by cases hs : s.transaction <;> simp only [exec, hs] <;> exact .refl _) rfl
    fun _ _ _ => trivial

/-- The `finally` block releases the query runner. -/
theorem release_safe (hadmits : Admits C tid request) :
    Safe system C tid (await .release) s h :=
  safe_last (safe_silent hadmits (fun _ => .refl _) rfl fun _ _ _ => trivial)

theorem confirm_safe (hadmits : Admits C tid request)
    (hroute : request.route = .confirmResult matchId) :
    Safe system C tid (ConfirmationService.confirm matchId request.user.sub) {} h := by
  unfold ConfirmationService.confirm
  refine safe_read hadmits (fun _ => rfl) rfl fun h₀ _ _ => ?_
  refine safe_require fun m _ => ?_
  refine safe_throwIf fun _ => ?_
  refine safe_read hadmits (fun _ => rfl) rfl fun h₁ _ _ => ?_
  refine safe_throwIf fun hplayer => ?_
  refine safe_read hadmits (fun _ => rfl) rfl fun h₂ hpast₂ _ => ?_
  refine safe_read hadmits (fun _ => rfl) rfl fun h₃ hpast₃ _ => ?_
  refine safe_catchFinally (lockedSection_safe hadmits hroute ?_ (Decidable.not_not.mp hplayer))
    (fun _ _ _ => rollback_safe hadmits) fun _ _ => release_safe hadmits
  have hpast₃ := (past_snoc _ _).trans hpast₃
  exact (hpast₂.trans hpast₃).snoc

theorem cancel_safe (hadmits : Admits C tid request)
    (hroute : request.route = .cancelConfirmation matchId) :
    Safe system C tid (ConfirmationService.cancel matchId request.user.sub) s h := by
  unfold ConfirmationService.cancel
  refine safe_read hadmits (fun _ => rfl) rfl fun h₀ _ _ => ?_
  refine safe_require fun m hm => ?_
  obtain ⟨r, hrow, rfl⟩ := Option.map_eq_some_iff.mp hm
  refine safe_throwIf fun _ => ?_
  refine safe_throwIf fun hawait => ?_
  refine safe_throwIf fun hcreator => ?_
  have hawait : r.status = .awaitingConfirmation := Decidable.not_not.mp hawait
  refine safe_call hadmits fun h₁ hpast _ => ?_
  have hpast := (past_snoc _ _).trans hpast
  refine ⟨.deleteVotes hroute hpast hrow hawait, fun _ _ => ?_⟩
  refine save_safe hadmits hpast.snoc hrow
    (.cancel hroute (not_notCreator.mp hcreator) hawait) fun _ _ => ?_
  refine safe_read hadmits (fun _ => rfl) rfl fun _ _ _ => ?_
  refine safe_silent hadmits (fun _ => ⟨rfl, rfl, rfl, rfl, rfl⟩) rfl fun _ _ _ => ?_
  exact safe_read hadmits (fun _ => rfl) rfl fun _ _ _ => trivial

theorem getStatus_safe (hadmits : Admits C tid request) :
    Safe system C tid (ConfirmationService.getStatus matchId) s h := by
  unfold ConfirmationService.getStatus
  refine safe_read hadmits (fun _ => rfl) rfl fun _ _ _ => ?_
  refine safe_require fun _ _ => safe_throwIf fun _ => ?_
  refine safe_read hadmits (fun _ => rfl) rfl fun _ _ _ => ?_
  exact safe_read hadmits (fun _ => rfl) rfl fun _ _ _ => trivial

/-! ## `AdminOverrideService` -/

/-- The `try` block of `overrideResult`, for a match that was read as confirmed. -/
theorem overrideTransaction_safe {dto : AdminOverrideResultDto} {h₀ : History θ} {r : MatchRow}
    (hadmits : Admits C tid request) (hroute : request.route = .adminOverrideResult matchId dto)
    (hpast : Past (h₀.snoc ⟨tid, .findById matchId, .ok (h₀.world.findById matchId), h₀.world⟩) h)
    (hrow : h₀.world.row matchId = some r) (hconfirmed : r.status = .confirmed) :
    Safe system C tid (AdminOverrideService.overrideTransaction matchId request.user.sub dto
      ⟨r, some (h₀.world.roster matchId)⟩) ⟨some [], false⟩ h := by
  unfold AdminOverrideService.overrideTransaction
  refine safe_read hadmits (fun _ => rfl) rfl fun h₁ hpast₁ _ => ?_
  have hpast₁ := hpast.trans hpast₁
  refine safe_call hadmits fun h₂ hpast₂ _ =>
    ⟨.silent ⟨rfl, rfl, rfl, rfl, rfl⟩ (not_commits rfl), fun entry _ => ?_⟩
  have hpast₂ := hpast₁.trans ((past_snoc _ _).trans hpast₂)
  refine safe_read hadmits (fun _ => rfl) rfl fun h₃ hpast₃ _ => ?_
  have hpast₃ := hpast₂.trans ((past_snoc _ _).trans hpast₃)
  refine safe_call hadmits fun h₄ hpast₄ _ => ⟨.announce hroute rfl rfl, fun _ _ => ?_⟩
  have hpast₄ := hpast₃.trans ((past_snoc _ _).trans hpast₄)
  refine safe_read hadmits (fun _ => rfl) rfl fun h₅ hpast₅ _ => ?_
  refine safe_call hadmits fun h₆ hpast₆ _ =>
    ⟨.silent ⟨rfl, rfl, rfl, rfl, rfl⟩ (not_commits rfl), fun _ _ => ?_⟩
  have hpast₆ := hpast₅.trans ((past_snoc _ _).trans hpast₆)
  refine safe_call hadmits fun h₇ hpast₇ _ => ?_
  have hpast₇ := hpast₆.trans ((past_snoc _ _).trans hpast₇)
  refine ⟨.overrideResult hroute hpast₄ hrow hconfirmed rfl hpast₇ rfl rfl, fun _ _ => ?_⟩
  exact safe_read hadmits (fun _ => rfl) rfl fun _ _ _ => trivial

theorem overrideResult_safe {isAdmin : Bool} {dto : AdminOverrideResultDto}
    (hadmits : Admits C tid request) (hroute : request.route = .adminOverrideResult matchId dto) :
    Safe system C tid
      (AdminOverrideService.overrideResult matchId request.user.sub isAdmin dto) {} h := by
  unfold AdminOverrideService.overrideResult
  refine safe_throwIf fun _ => ?_
  refine safe_read hadmits (fun _ => rfl) rfl fun h₀ _ _ => ?_
  refine safe_require fun m hm => ?_
  obtain ⟨r, hrow, rfl⟩ := Option.map_eq_some_iff.mp hm
  refine safe_throwIf fun hconfirmed => ?_
  refine safe_read hadmits (fun _ => rfl) rfl fun h₁ hpast₁ _ => ?_
  refine safe_read hadmits (fun _ => rfl) rfl fun h₂ hpast₂ _ => ?_
  have hpast₂ := (past_snoc _ _).trans hpast₂
  refine safe_catchFinally ?_ (fun _ _ _ => rollback_safe hadmits) fun _ _ => release_safe hadmits
  refine overrideTransaction_safe hadmits hroute ?_ hrow (Decidable.not_not.mp hconfirmed)
  exact (hpast₁.trans hpast₂).snoc

theorem deleteMatch_safe {isAdmin : Bool} (hadmits : Admits C tid request)
    (hroute : request.route = .adminDeleteMatch matchId) (hadmin : isAdmin = request.user.isAdmin) :
    Safe system C tid (AdminOverrideService.deleteMatch matchId request.user.sub isAdmin) s h := by
  unfold AdminOverrideService.deleteMatch
  refine safe_throwIf fun hrole => ?_
  have hrole : request.user.isAdmin = true := hadmin ▸ Decidable.not_not.mp hrole
  refine safe_read hadmits (fun _ => rfl) rfl fun _ _ _ => ?_
  refine safe_require fun m _ => ?_
  have hdelete : ∀ s' h', Safe system C tid (await (.delete matchId)) s' h' := fun s' h' =>
    safe_last (safe_call hadmits fun _ _ _ => ⟨.delete (.inr hroute) hrole, fun _ _ => trivial⟩)
  unfold AdminOverrideService.recordDelete
  split
  · rw [Prog.bind_assoc]
    exact safe_call hadmits fun _ _ _ => ⟨.recordDelete hroute rfl, fun _ _ => hdelete _ _⟩
  · exact hdelete _ _

theorem getAuditLog_safe {isAdmin : Bool} (hadmits : Admits C tid request) :
    Safe system C tid (AdminOverrideService.getAuditLog matchId isAdmin) s h := by
  unfold AdminOverrideService.getAuditLog
  refine safe_throwIf fun _ => ?_
  refine safe_read hadmits (fun _ => rfl) rfl fun _ _ _ => ?_
  refine safe_require fun _ _ => safe_last ?_
  exact safe_read hadmits (fun _ => rfl) rfl fun _ _ _ => trivial

/-! ## Every request -/

/-- Every call of a request does what the request may do. -/
theorem Request.safe (hadmits : Admits C tid request) :
    Safe system C tid request.prog {} h := by
  obtain ⟨user, route⟩ := request
  cases route with
  | createMatch dto =>
      refine safe_map (safe_call hadmits fun _ _ _ => ⟨.create rfl rfl, fun _ _ => trivial⟩)
  | getMatch matchId =>
      exact findById_safe hadmits fun _ _ _ _ _ => trivial
  | updateMatch matchId dto => exact safe_map (update_safe hadmits rfl)
  | deleteMatch matchId =>
      exact safe_throwIf fun _ => safe_map (delete_safe hadmits rfl rfl)
  | addPlayers matchId dto => exact safe_map (addPlayers_safe hadmits rfl)
  | submitResult matchId dto => exact safe_map (submitResult_safe hadmits rfl)
  | getConfirmationStatus matchId => exact safe_map (getStatus_safe hadmits)
  | confirmResult matchId => exact safe_map (confirm_safe hadmits rfl)
  | cancelConfirmation matchId => exact safe_map (cancel_safe hadmits rfl)
  | adminOverrideResult matchId dto =>
      exact safe_throwIf fun _ => safe_map (overrideResult_safe hadmits rfl)
  | adminDeleteMatch matchId =>
      exact safe_throwIf fun _ => safe_map (deleteMatch_safe hadmits rfl rfl)
  | getMatchAuditLog matchId =>
      exact safe_throwIf fun _ => safe_map (getAuditLog_safe hadmits)

/-! ## Runs of interleaved inputs -/

/-- The program of an input: the handler of a request, a login or the passing of time. -/
def Input.prog : Input → Api Response
  | .request r => r.prog
  | .signIn user => do
      await (.signIn user)
      return .noContent
  | .tick elapsed => do
      await (.tick elapsed)
      return .noContent

/-- What a call of an input does. -/
def Input.Does {θ : Type} (input : Input) (h : History θ) (event : CallEvent θ) : Prop :=
  match input with
  | .request r => r.Does h event
  | .signIn _ | .tick _ => Silent h.world event.world

/-- Every call of an input does what the input may do. -/
theorem Input.safe {input : Input}
    (hadmits : ∀ h event, event.tid = tid → C.Valid h → input.Does h event → C.guar h event) :
    Safe system C tid input.prog {} h := by
  -- A login and a tick are one silent call.
  have hsilent : ∀ op : Call, (∀ w, Silent w (exec op {} w).2.2) →
      (∀ h event, event.tid = tid → C.Valid h → Silent h.world event.world → C.guar h event) →
      Safe system C tid (await op >>= fun _ => Prog.pure Response.noContent) {} h := by
    intro op hop hguar
    refine wp_perform_bind fun h' _ hv fails _ => ?_
    rcases perform_cases fails op {} h'.world with hperform | hperform <;> rw [hperform]
    · refine ⟨hguar _ _ rfl hv (hop _), ?_⟩
      cases (exec op {} h'.world).1 <;> exact trivial
    · exact ⟨hguar _ _ rfl hv (.refl _), trivial⟩
  cases input with
  | request r => exact r.safe hadmits
  | signIn user => exact hsilent (.signIn user) (fun _ => ⟨rfl, rfl, rfl, rfl, rfl⟩) hadmits
  | tick elapsed => exact hsilent (.tick elapsed) (fun _ => ⟨rfl, rfl, rfl, rfl, rfl⟩) hadmits

/-- The configuration in which every input is about to start. -/
abbrev World.begin (w : World) (inputs : θ → Input) : Running θ :=
  Config.start {} (fun i => (inputs i).prog) w

/-- Every call of every run of interleaved inputs does what its input may do. -/
theorem steps_does [DecidableEq θ] {inputs : θ → Input} {w : World}
    {allow : θ → History θ → Call → Bool → Prop} {c : Running θ}
    (hreach : Reach system allow (w.begin inputs) c) :
    c.trace.Steps fun h event => (inputs event.tid).Does h event := by
  let C : Contract θ Call Call.Result Failure World :=
    ⟨fun _ => True, allow, fun h event => (inputs event.tid).Does h event⟩
  have hvalid : C.Valid c.trace := by
    refine C.guaranteed hreach rfl trivial fun i => Input.safe ?_
    rintro h event rfl _ hdoes
    exact hdoes
  exact hvalid.2

/-- What the programs of all inputs guarantee of each of their calls holds in every run of
interleaved inputs. -/
theorem steps_of_inputs [DecidableEq θ] {P : Input → History θ → CallEvent θ → Prop}
    {inputs : θ → Input} {w : World} {allow : θ → History θ → Call → Bool → Prop} {c : Running θ}
    (hreach : Reach system allow (w.begin inputs) c)
    (hsafe : ∀ (C : Contract θ Call Call.Result Failure World) tid (input : Input) h,
      (∀ h event, event.tid = tid → P input h event → C.guar h event) →
        Safe system C tid input.prog {} h) :
    c.trace.Steps fun h event => P (inputs event.tid) h event := by
  let C : Contract θ Call Call.Result Failure World :=
    ⟨fun _ => True, allow, fun h event => P (inputs event.tid) h event⟩
  have hvalid : C.Valid c.trace := by
    refine C.guaranteed hreach rfl trivial fun i => hsafe C i (inputs i) _ ?_
    rintro h event rfl hP
    exact hP
  exact hvalid.2

/-- What the programs of all requests guarantee of each of their calls holds in every run of
interleaved inputs. -/
theorem steps_of_requests [DecidableEq θ] {P : Request → History θ → CallEvent θ → Prop}
    {inputs : θ → Input} {w : World} {allow : θ → History θ → Call → Bool → Prop} {c : Running θ}
    (hreach : Reach system allow (w.begin inputs) c)
    (hsafe : ∀ (C : Contract θ Call Call.Result Failure World) tid (request : Request) h,
      (∀ h event, event.tid = tid → P request h event → C.guar h event) →
        Safe system C tid request.prog {} h) :
    c.trace.Steps fun h event => ∀ request, inputs event.tid = .request request →
      P request h event := by
  refine steps_of_inputs (P := fun input h event => ∀ request, input = .request request →
    P request h event) hreach fun C tid input h hadmits => ?_
  cases input with
  | request request =>
      refine hsafe C tid request h fun h event htid hP => hadmits h event htid fun _ hrequest => ?_
      obtain rfl := Input.request.inj hrequest
      exact hP
  | signIn | tick =>
      exact safe_of_issues (issues_of_forall (fun _ => (trivial : True)) _)
        fun _ _ _ _ _ _ _ => hadmits _ _ rfl fun _ => Input.noConfusion

end FoosballApi.Matches
