import FoosballApi.Calls.Similar
import FoosballApi.Matches.StoreLemmas
import FoosballApi.Matches.Repository

/-!
# Calls about one match

Two worlds agree on a match when they have the same row, roster and votes of it, the same users and
time, and the same audit rows of it apart from their ids, which all matches share. A call about the
match answers alike in two such worlds and leaves them in agreement (`exec_agree`); a call about
another match leaves a world that agrees with the one before (`exec_frame`).
-/

namespace FoosballApi.Matches

open Calls Data World

/-- An audit row with its id blanked. -/
def AuditLogEntity.withoutId (entry : AuditLogEntity) : AuditLogEntity := { entry with id := 0 }

/-- The audit rows of a match, with their ids blanked. -/
def World.auditRows (w : World) (matchId : MatchId) : List AuditLogEntity :=
  (w.auditLogs.filter (·.entityId = matchId)).map AuditLogEntity.withoutId

/-- Two worlds cannot be told apart by the match, but for the ids of audit rows. -/
structure AgreeOn (matchId : MatchId) (w w' : World) : Prop where
  view : w'.matchView matchId = w.matchView matchId
  users : w'.users = w.users
  clock : w'.clock = w.clock
  auditRows : w'.auditRows matchId = w.auditRows matchId

/-- The match a payload names. -/
def Payload.subject : Events.Payload → Option MatchId
  | .matchConfirmed matchId .. | .matchCancelled matchId _ | .matchResultSubmitted matchId .. =>
      some matchId
  | .auditLog data => some data.entityId
  | .leaderboardInvalidate .. => none

/-- An entity of the match, with players of the match. -/
def MatchEntity.Of (matchId : MatchId) (m : MatchEntity) : Prop :=
  m.id = matchId ∧ ∀ p ∈ m.players.getD [], p.matchId = matchId

variable {matchId : MatchId} {w w' w'' : World}

namespace AgreeOn

theorem refl (matchId : MatchId) (w : World) : AgreeOn matchId w w := ⟨rfl, rfl, rfl, rfl⟩

theorem symm (h : AgreeOn matchId w w') : AgreeOn matchId w' w :=
  ⟨h.view.symm, h.users.symm, h.clock.symm, h.auditRows.symm⟩

theorem trans (h : AgreeOn matchId w w') (h' : AgreeOn matchId w' w'') : AgreeOn matchId w w'' :=
  ⟨h'.view.trans h.view, h'.users.trans h.users, h'.clock.trans h.clock,
    h'.auditRows.trans h.auditRows⟩

theorem row (h : AgreeOn matchId w w') : w'.row matchId = w.row matchId :=
  congrArg MatchView.row h.view

theorem roster (h : AgreeOn matchId w w') : w'.roster matchId = w.roster matchId :=
  congrArg MatchView.roster h.view

theorem votes (h : AgreeOn matchId w w') : w'.votes matchId = w.votes matchId :=
  congrArg MatchView.votes h.view

end AgreeOn

/-! ## Statements in two worlds that agree -/

theorem saveMatch_agree (h : AgreeOn matchId w w') {m : MatchEntity} (hm : m.Of matchId) :
    AgreeOn matchId (w.saveMatch m) (w'.saveMatch m) := by
  obtain ⟨rfl, hown⟩ := hm
  refine ⟨MatchView.ext ?_ ?_ ?_, ?_, ?_, ?_⟩
  · show (w'.saveMatch m).row m.id = (w.saveMatch m).row m.id
    cases hrow : w.row m.id with
    | none => rw [row_saveMatch_of_none hrow, row_saveMatch_of_none (h.row.trans hrow)]
    | some r =>
        have hrow' : w'.row m.id = some r := h.row.trans hrow
        unfold saveMatch
        rw [hrow, hrow']
        by_cases hsame : r = m.toMatchRow
        · simp only [hsame, ↓reduceIte, hrow, hrow']
        · simp only [hsame, ↓reduceIte, World.row, savedAt, h.clock]
          exact (Table.get_put_self w'.matchRows
            { m.toMatchRow with updatedAt := w.savedAt r m }).trans
              (Table.get_put_self w.matchRows
                { m.toMatchRow with updatedAt := w.savedAt r m }).symm
  · show (w'.saveMatch m).players.sel _ = (w.saveMatch m).players.sel _
    cases hrow : w.row m.id with
    | none =>
        rw [players_saveMatch_of_none hrow, players_saveMatch_of_none (h.row.trans hrow)]
        refine Table.sel_putAll_congr h.roster fun p hp other hkey => decide_eq_true ?_
        exact (Prod.mk.inj hkey).1.trans (hown p hp)
    | some r =>
        rw [players_saveMatch hrow, players_saveMatch (h.row.trans hrow)]
        exact h.roster
  · exact (votes_saveMatch m m.id).trans (h.votes.trans (votes_saveMatch m m.id).symm)
  · rw [users_saveMatch, users_saveMatch, h.users]
  · rw [clock_saveMatch, clock_saveMatch, h.clock]
  · rw [World.auditRows, auditLogs_saveMatch, World.auditRows, auditLogs_saveMatch]
    exact h.auditRows

theorem putConfirmation_agree (h : AgreeOn matchId w w') {c : MatchConfirmationEntity}
    (hc : c.matchId = matchId) :
    AgreeOn matchId (w.putConfirmation c) (w'.putConfirmation c) := by
  refine ⟨MatchView.ext h.row h.roster ?_, h.users, h.clock, h.auditRows⟩
  refine Table.sel_put_congr h.votes fun other hkey => decide_eq_true ?_
  exact (Prod.mk.inj hkey).1.trans hc

theorem auditRows_appendAuditLog (w : World) (entry : AuditLogEntity) :
    (w.appendAuditLog entry).auditRows matchId =
      w.auditRows matchId ++ if entry.entityId = matchId then [entry.withoutId] else [] := by
  rw [World.auditRows, appendAuditLog, List.filter_append, List.map_append]
  by_cases hid : entry.entityId = matchId <;> simp [World.auditRows, hid]

theorem appendAuditLog_agree (h : AgreeOn matchId w w') {entry entry' : AuditLogEntity}
    (hentry : entry'.withoutId = entry.withoutId) :
    AgreeOn matchId (w.appendAuditLog entry) (w'.appendAuditLog entry') := by
  have hid : entry'.entityId = entry.entityId := congrArg (·.entityId) hentry
  refine ⟨h.view, h.users, h.clock, ?_⟩
  rw [auditRows_appendAuditLog, auditRows_appendAuditLog, h.auditRows, hentry, hid]

theorem deleteMatch_agree (h : AgreeOn matchId w w') :
    AgreeOn matchId (w.deleteMatch matchId) (w'.deleteMatch matchId) :=
  ⟨(matchView_deleteMatch w' matchId).trans (matchView_deleteMatch w matchId).symm, h.users,
    h.clock, h.auditRows⟩

theorem deleteAllConfirmations_agree (h : AgreeOn matchId w w') :
    AgreeOn matchId (w.deleteAllConfirmations matchId) (w'.deleteAllConfirmations matchId) := by
  refine ⟨?_, h.users, h.clock, h.auditRows⟩
  rw [matchView_deleteAllConfirmations, matchView_deleteAllConfirmations, h.view]

/-! ## `save(players)` -/

/-- A table that holds the same players of a match. -/
abbrev SameRoster (matchId : MatchId) (t t' : Table MatchPlayerEntity.key) : Prop :=
  t'.sel (·.matchId = matchId) = t.sel (·.matchId = matchId)

theorem playerFits_agree (h : AgreeOn matchId w w') {t t' : Table MatchPlayerEntity.key}
    (ht : SameRoster matchId t t') {p : MatchPlayerEntity} (hp : p.matchId = matchId) :
    w'.playerFits t' p ↔ w.playerFits t p := by
  have hfree : ∀ {a b : Table MatchPlayerEntity.key}, SameRoster matchId a b →
      (∀ q ∈ a.rows, q.key ≠ p.key → ¬ sameSlot q p) →
        ∀ q ∈ b.rows, q.key ≠ p.key → ¬ sameSlot q p := by
    intro a b hab hfree q hq hkey hslot
    -- Only a player of the same match can have the slot.
    have hmem : q ∈ b.sel (·.matchId = matchId) :=
      List.mem_filter.mpr ⟨hq, decide_eq_true (hslot.1.trans hp)⟩
    rw [hab] at hmem
    exact hfree q (List.mem_filter.mp hmem).1 hkey hslot
  unfold playerFits
  rw [hp, h.row, h.users]
  exact ⟨fun ⟨hrow, huser, hmin, hmax, hslots⟩ => ⟨hrow, huser, hmin, hmax, hfree ht.symm hslots⟩,
    fun ⟨hrow, huser, hmin, hmax, hslots⟩ => ⟨hrow, huser, hmin, hmax, hfree ht hslots⟩⟩

/-- Writing a player of the match keeps the players of the match the same. -/
theorem put_sameRoster {t t' : Table MatchPlayerEntity.key} (ht : SameRoster matchId t t')
    {p : MatchPlayerEntity} (hp : p.matchId = matchId) :
    SameRoster matchId (t.put p) (t'.put p) :=
  Table.sel_put_congr ht fun _ hkey => decide_eq_true ((Prod.mk.inj hkey).1.trans hp)

theorem get_sameRoster {t t' : Table MatchPlayerEntity.key} (ht : SameRoster matchId t t')
    {p : MatchPlayerEntity} (hp : p.matchId = matchId) : t'.get p.key = t.get p.key :=
  Table.get_congr ht fun _ hkey => decide_eq_true ((Prod.mk.inj hkey).1.trans hp)

theorem insertPlayer_agree (h : AgreeOn matchId w w') {t t' : Table MatchPlayerEntity.key}
    (ht : SameRoster matchId t t') {p : MatchPlayerEntity} (hp : p.matchId = matchId) :
    Option.Rel (SameRoster matchId) (w.insertPlayer t p) (w'.insertPlayer t' p) := by
  have hguard : (t'.get p.key = none ∧ w'.playerFits t' p) ↔
      (t.get p.key = none ∧ w.playerFits t p) := by
    rw [get_sameRoster ht hp, playerFits_agree h ht hp]
  unfold insertPlayer
  by_cases hfits : t.get p.key = none ∧ w.playerFits t p
  · rw [if_pos hfits, if_pos (hguard.mpr hfits)]
    exact .some (put_sameRoster ht hp)
  · rw [if_neg hfits, if_neg fun hfits' => hfits (hguard.mp hfits')]
    exact .none

theorem updatePlayer_agree (h : AgreeOn matchId w w') {t t' : Table MatchPlayerEntity.key}
    (ht : SameRoster matchId t t') {p : MatchPlayerEntity} (hp : p.matchId = matchId) :
    Option.Rel (SameRoster matchId) (w.updatePlayer t p) (w'.updatePlayer t' p) := by
  have hguard := playerFits_agree h ht hp
  unfold updatePlayer
  by_cases hfits : w.playerFits t p
  · rw [if_pos hfits, if_pos (hguard.mpr hfits)]
    exact .some (put_sameRoster ht hp)
  · rw [if_neg hfits, if_neg fun hfits' => hfits (hguard.mp hfits')]
    exact .none

/-- Two steps that go alike, one after another. -/
theorem rel_bind {σ σ' : Type} {R : σ → σ → Prop} {Q : σ' → σ' → Prop} {x x' : Option σ}
    {f f' : σ → Option σ'} (hx : Option.Rel R x x')
    (hf : ∀ s s', R s s' → Option.Rel Q (f s) (f' s')) : Option.Rel Q (x.bind f) (x'.bind f') := by
  cases hx with
  | none => exact .none
  | some h => exact hf _ _ h

/-- Two sequences of writes that go alike one by one go alike. -/
theorem foldlM_rel {σ α : Type} {R : σ → σ → Prop} {f f' : σ → α → Option σ} {items : List α}
    (hf : ∀ item ∈ items, ∀ s s', R s s' → Option.Rel R (f s item) (f' s' item)) {s s' : σ}
    (hs : R s s') : Option.Rel R (items.foldlM f s) (items.foldlM f' s') := by
  induction items generalizing s s' with
  | nil => exact .some hs
  | cons item items ih =>
      rw [List.foldlM_cons, List.foldlM_cons]
      refine rel_bind (hf item List.mem_cons_self s s' hs) fun _ _ hmid => ?_
      exact ih (fun next hnext => hf next (List.mem_cons_of_mem _ hnext)) hmid

theorem savePlayers_agree (h : AgreeOn matchId w w') {ps : List MatchPlayerEntity}
    (hps : ∀ p ∈ ps, p.matchId = matchId) :
    Option.Rel (AgreeOn matchId) (w.savePlayers ps) (w'.savePlayers ps) := by
  have hget : ∀ p ∈ ps, w'.players.get p.key = w.players.get p.key := fun p hp =>
    get_sameRoster h.roster (hps p hp)
  have hnew : ps.filter (fun p => (w'.players.get p.key).isNone) =
      ps.filter fun p => (w.players.get p.key).isNone :=
    List.filter_congr fun p hp => by rw [hget p hp]
  have hold : ps.filter (fun p => (w'.players.get p.key).isSome) =
      ps.filter fun p => (w.players.get p.key).isSome :=
    List.filter_congr fun p hp => by rw [hget p hp]
  unfold savePlayers
  rw [hnew, hold]
  refine rel_bind (R := SameRoster matchId) (foldlM_rel (fun p hp t t' ht => ?_) h.roster)
    fun t t' ht => rel_bind (R := SameRoster matchId) (foldlM_rel (fun p hp t t' ht => ?_) ht)
      fun t t' ht => .some ⟨MatchView.ext h.row ht h.votes, h.users, h.clock, h.auditRows⟩
  · exact insertPlayer_agree h ht (hps p (List.mem_of_mem_filter hp))
  · exact updatePlayer_agree h ht (hps p (List.mem_of_mem_filter hp))

/-! ## The calls -/

/-- A call is about a match. -/
def Call.About (matchId : MatchId) : Call → Prop
  | .findById id | .delete id | .findPlayers id | .findConfirmations id
  | .deleteAllConfirmations id | .findMatchForUpdate id | .findOneConfirmation id _
  | .saveConfirmation id _ | .findTransactionConfirmations id => id = matchId
  | .save m | .saveMatch m => m.Of matchId
  | .savePlayers players => ∀ p ∈ players, p.matchId = matchId
  | .saveAuditLog data | .saveTransactionAuditLog data => data.entityId = matchId
  | .findAuditLogs _ id => id = matchId
  | .add _ job => ∀ id ∈ Payload.subject job.payload, id = matchId
  | .connect | .startTransaction | .commitTransaction | .rollbackTransaction | .release | .now =>
      True
  | _ => False

/-- Two results of a call are the same but for the ids of audit rows; a loaded match or player is of
the match that was asked for. -/
def Call.Alike (matchId : MatchId) : (op : Call) → op.Result → op.Result → Prop
  | .findById _, found, found' => found' = found ∧ ∀ m ∈ found, m.Of matchId
  | .findMatchForUpdate _, found, found' => found' = found ∧ ∀ m ∈ found, m.Of matchId
  | .findPlayers _, players, players' => players' = players ∧ ∀ p ∈ players, p.matchId = matchId
  | .saveAuditLog _, entry, entry' => entry'.withoutId = entry.withoutId
  | .saveTransactionAuditLog _, entry, entry' => entry'.withoutId = entry.withoutId
  | .findAuditLogs .., entries, entries' =>
      entries'.map AuditLogEntity.withoutId = entries.map AuditLogEntity.withoutId
  | _, value, value' => value' = value

/-- The calls about a match. -/
def aboutMatch (matchId : MatchId) : Likeness Call Call.Result where
  may := Call.About matchId
  alike := Call.Alike matchId

/-- Two writes are the same write to the match but for the ids of audit rows. -/
inductive Write.Alike (matchId : MatchId) : Write → Write → Prop where
  | saveMatch {m : MatchEntity} (own : m.Of matchId) :
      Write.Alike matchId (.saveMatch m) (.saveMatch m)
  | putConfirmation {c : MatchConfirmationEntity} (own : c.matchId = matchId) :
      Write.Alike matchId (.putConfirmation c) (.putConfirmation c)
  | appendAuditLog {entry entry' : AuditLogEntity} (own : entry.entityId = matchId)
      (same : entry'.withoutId = entry.withoutId) :
      Write.Alike matchId (.appendAuditLog entry) (.appendAuditLog entry')

/-- Two sessions hold the same lock and the same writes to the match. -/
structure SessionsAgree (matchId : MatchId) (s s' : Session) : Prop where
  locked : s'.locked = s.locked
  transaction : Option.Rel (List.Forall₂ (Write.Alike matchId)) s.transaction s'.transaction

variable {s s' : Session}

theorem commit_agree {change change' : Write} (hchange : Write.Alike matchId change change')
    (h : AgreeOn matchId w w') : AgreeOn matchId (change.commit w) (change'.commit w') := by
  cases hchange with
  | saveMatch own => exact saveMatch_agree h own
  | putConfirmation own => exact putConfirmation_agree h own
  | appendAuditLog own same => exact appendAuditLog_agree h same

theorem foldl_commit_agree {changes changes' : List Write}
    (hchanges : List.Forall₂ (Write.Alike matchId) changes changes') (h : AgreeOn matchId w w') :
    AgreeOn matchId (changes.foldl Write.commit w) (changes'.foldl Write.commit w') := by
  induction hchanges generalizing w w' with
  | nil => exact h
  | cons hchange _ ih => exact ih (commit_agree hchange h)

/-- What the transactions see agrees. -/
theorem view_agree (hs : SessionsAgree matchId s s') (h : AgreeOn matchId w w') :
    AgreeOn matchId (s.view w) (s'.view w') := by
  obtain ⟨transaction, locked⟩ := s
  obtain ⟨transaction', locked'⟩ := s'
  obtain ⟨-, hchanges | _⟩ := hs
  · exact foldl_commit_agree hchanges h
  · exact h

/-- A buffered write keeps the sessions and the worlds in agreement. -/
theorem write_agree {change change' : Write} (hchange : Write.Alike matchId change change')
    (hs : SessionsAgree matchId s s') (h : AgreeOn matchId w w') :
    SessionsAgree matchId (s.write w change).1 (s'.write w' change').1 ∧
      AgreeOn matchId (s.write w change).2 (s'.write w' change').2 := by
  obtain ⟨transaction, locked⟩ := s
  obtain ⟨transaction', locked'⟩ := s'
  obtain ⟨rfl, htransaction⟩ := hs
  rcases htransaction with hchanges | _
  · exact ⟨⟨rfl, .some (List.rel_append hchanges (.cons hchange .nil))⟩, h⟩
  · exact ⟨⟨rfl, .none⟩, commit_agree hchange h⟩

/-- The audit rows that are read are those of the match, with other ids at most. -/
theorem findAuditLogs_agree (h : AgreeOn matchId w w') (entityType : EntityType) :
    (w'.findAuditLogs entityType matchId).map AuditLogEntity.withoutId =
      (w.findAuditLogs entityType matchId).map AuditLogEntity.withoutId := by
  have hrows : ∀ w : World, (w.findAuditLogs entityType matchId).map AuditLogEntity.withoutId =
      (w.auditRows matchId).mergeSort fun a b => a.createdAt ≤ b.createdAt := by
    intro w
    have hmap := List.map_mergeSort (f := AuditLogEntity.withoutId)
      (l := w.auditLogs.filter fun a => a.entityType = entityType ∧ a.entityId = matchId)
      (r := fun a b => decide (a.createdAt ≤ b.createdAt))
      (s := fun a b => decide (a.createdAt ≤ b.createdAt)) fun _ _ _ _ => rfl
    rw [World.findAuditLogs, hmap, World.auditRows]
    congr 3
    funext entry
    have htype : entry.entityType = entityType := by
      cases entry.entityType
      cases entityType
      rfl
    rw [htype]
    simp only [true_and]
  rw [hrows, hrows, h.auditRows]

theorem enqueue_agree (h : AgreeOn matchId w w') (queue : Events.Queue)
    (job : Events.EventEnvelope) :
    AgreeOn matchId (w.enqueue queue job) (w'.enqueue queue job) := by
  cases queue <;> exact ⟨h.view, h.users, h.clock, h.auditRows⟩

/-- A saved entity shows the stored row. -/
theorem savedEntity_agree (h : AgreeOn matchId w w') {m : MatchEntity} (hm : m.Of matchId) :
    savedEntity w' m = savedEntity w m := by
  obtain ⟨rfl, -⟩ := hm
  rw [savedEntity, savedEntity, h.row]

/-- A loaded match is the one that was asked for, with its players. -/
theorem findById_of {m : MatchEntity} (hm : w.findById matchId = some m) : m.Of matchId := by
  obtain ⟨r, hrow, rfl⟩ := Option.map_eq_some_iff.mp hm
  exact ⟨id_of_row hrow, fun p hp => (mem_roster.mp hp).2⟩

/-- A call about the match, made in two worlds that agree on it, answers alike and leaves them in
agreement. -/
theorem exec_agree {op : Call} (hop : op.About matchId) (hs : SessionsAgree matchId s s')
    (h : AgreeOn matchId w w') :
    ExceptRel (op.Alike matchId) (exec op s w).1 (exec op s' w').1 ∧
      SessionsAgree matchId (exec op s w).2.1 (exec op s' w').2.1 ∧
        AgreeOn matchId (exec op s w).2.2 (exec op s' w').2.2 := by
  have hview := view_agree hs h
  cases op with
  | findById id =>
      obtain rfl : id = matchId := hop
      refine ⟨.ok ⟨?_, fun m hm => findById_of hm⟩, hs, h⟩
      show w'.findById id = w.findById id
      rw [World.findById, World.findById, h.row, h.roster]
  | save m =>
      have hsaved := saveMatch_agree h hop
      exact ⟨.ok (savedEntity_agree hsaved hop), hs, hsaved⟩
  | delete id =>
      obtain rfl : id = matchId := hop
      exact ⟨.ok rfl, hs, deleteMatch_agree h⟩
  | findPlayers id =>
      obtain rfl : id = matchId := hop
      exact ⟨.ok ⟨h.roster, fun p hp => (mem_roster.mp hp).2⟩, hs, h⟩
  | savePlayers players =>
      have hsaved := savePlayers_agree h hop
      simp only [exec]
      revert hsaved
      generalize w.savePlayers players = saved
      generalize w'.savePlayers players = saved'
      rintro (hsaved | _)
      · exact ⟨.ok rfl, hs, hsaved⟩
      · exact ⟨.error _, hs, h⟩
  | findConfirmations id =>
      obtain rfl : id = matchId := hop
      exact ⟨.ok h.votes, hs, h⟩
  | deleteAllConfirmations id =>
      obtain rfl : id = matchId := hop
      exact ⟨.ok rfl, hs, deleteAllConfirmations_agree h⟩
  | saveAuditLog data =>
      have hentry : (w'.newAuditLog data).withoutId = (w.newAuditLog data).withoutId := by
        rw [newAuditLog, newAuditLog, h.clock]
        rfl
      have htaken : AgreeOn matchId w.takeAuditId w'.takeAuditId :=
        ⟨h.view, h.users, h.clock, h.auditRows⟩
      exact ⟨.ok hentry, hs, appendAuditLog_agree htaken hentry⟩
  | findAuditLogs entityType id =>
      obtain rfl : id = matchId := hop
      exact ⟨.ok (findAuditLogs_agree h entityType), hs, h⟩
  | connect => exact ⟨.ok rfl, hs, h⟩
  | startTransaction => exact ⟨.ok rfl, ⟨hs.locked, .some .nil⟩, h⟩
  | commitTransaction =>
      obtain ⟨transaction, locked⟩ := s
      obtain ⟨transaction', locked'⟩ := s'
      obtain ⟨rfl, hchanges | _⟩ := hs
      · exact ⟨.ok rfl, ⟨rfl, .none⟩, hview⟩
      · exact ⟨.error _, ⟨rfl, .none⟩, h⟩
  | rollbackTransaction =>
      obtain ⟨transaction, locked⟩ := s
      obtain ⟨transaction', locked'⟩ := s'
      obtain ⟨rfl, hchanges | _⟩ := hs
      · exact ⟨.ok rfl, ⟨rfl, .none⟩, h⟩
      · exact ⟨.error _, ⟨rfl, .none⟩, h⟩
  | release => exact ⟨.ok rfl, ⟨rfl, .none⟩, h⟩
  | findMatchForUpdate id =>
      obtain rfl : id = matchId := hop
      refine ⟨.ok ⟨congrArg (Option.map fun r => MatchEntity.mk r none) hview.row, ?_⟩,
        ⟨rfl, hs.transaction⟩, h⟩
      intro m hm
      obtain ⟨r, hrow, rfl⟩ := Option.map_eq_some_iff.mp hm
      refine ⟨id_of_row hrow, fun p hp => ?_⟩
      cases hp
  | findOneConfirmation id userId =>
      obtain rfl : id = matchId := hop
      refine ⟨.ok (Table.get_congr hview.votes fun c hkey => decide_eq_true ?_), hs, h⟩
      exact (Prod.mk.inj hkey).1
  | saveConfirmation id userId =>
      obtain rfl : id = matchId := hop
      have hnew : w'.newConfirmation id userId = w.newConfirmation id userId := by
        rw [newConfirmation, newConfirmation, h.clock]
      simp only [exec, hnew]
      exact ⟨.ok rfl, write_agree (.putConfirmation rfl) hs h⟩
  | findTransactionConfirmations id =>
      obtain rfl : id = matchId := hop
      exact ⟨.ok hview.votes, hs, h⟩
  | saveMatch m =>
      obtain ⟨hs', h'⟩ := write_agree (.saveMatch hop) hs h
      exact ⟨.ok (savedEntity_agree (view_agree hs' h') hop), hs', h'⟩
  | saveTransactionAuditLog data =>
      have hentry : (w'.newAuditLog data).withoutId = (w.newAuditLog data).withoutId := by
        rw [newAuditLog, newAuditLog, h.clock]
        rfl
      have htaken : AgreeOn matchId w.takeAuditId w'.takeAuditId :=
        ⟨h.view, h.users, h.clock, h.auditRows⟩
      exact ⟨.ok hentry, write_agree (.appendAuditLog hop hentry) hs htaken⟩
  | add queue job => exact ⟨.ok rfl, hs, enqueue_agree h queue job⟩
  | now => exact ⟨.ok h.clock, hs, h⟩
  | create | getMany | findByAzureOid | findUserById | saveUser | insertUser | renameUser
  | queryUserWins | queryPairWins | redisGet | redisSet | redisDel | takeJob | signIn | tick =>
      exact hop.elim

/-! ## Another match -/

variable {other : MatchId}

theorem AgreeOn.of_auditLogs (hview : w'.matchView matchId = w.matchView matchId)
    (husers : w'.users = w.users) (hclock : w'.clock = w.clock)
    (haudit : w'.auditLogs = w.auditLogs) : AgreeOn matchId w w' := by
  refine ⟨hview, husers, hclock, ?_⟩
  rw [World.auditRows, haudit, World.auditRows]

theorem saveMatch_frame (hne : other ≠ matchId) {m : MatchEntity} (hm : m.Of matchId) :
    AgreeOn other w (w.saveMatch m) := by
  obtain ⟨rfl, hown⟩ := hm
  exact .of_auditLogs (matchView_saveMatch_of_ne hne fun _ => hown) (users_saveMatch m)
    (clock_saveMatch m) (auditLogs_saveMatch m)

theorem commit_frame (hne : other ≠ matchId) {change change' : Write}
    (hchange : Write.Alike matchId change change') : AgreeOn other w (change.commit w) := by
  cases hchange with
  | saveMatch own => exact saveMatch_frame hne own
  | putConfirmation own =>
      exact .of_auditLogs (matchView_putConfirmation_of_ne (own ▸ hne)) rfl rfl rfl
  | @appendAuditLog entry _ own same =>
      have hother : ¬ entry.entityId = other := fun h => hne (h.symm.trans own)
      refine ⟨rfl, rfl, rfl, ?_⟩
      rw [Write.commit, auditRows_appendAuditLog, if_neg hother, List.append_nil]

theorem foldl_commit_frame (hne : other ≠ matchId) {changes changes' : List Write}
    (hchanges : List.Forall₂ (Write.Alike matchId) changes changes') :
    AgreeOn other w (changes.foldl Write.commit w) := by
  induction hchanges generalizing w with
  | nil => exact .refl other w
  | cons hchange _ ih => exact (commit_frame hne hchange).trans ih

theorem write_frame (hne : other ≠ matchId) {change change' : Write}
    (hchange : Write.Alike matchId change change') : AgreeOn other w (s.write w change).2 := by
  obtain ⟨transaction, locked⟩ := s
  cases transaction with
  | some changes => exact .refl other w
  | none => exact commit_frame hne hchange

/-- A call about another match leaves a world that cannot be told apart by this one. -/
theorem exec_frame (hne : other ≠ matchId) {op : Call} (hop : op.About matchId)
    (hs : SessionsAgree matchId s s) : AgreeOn other w (exec op s w).2.2 := by
  cases op with
  | save m => exact saveMatch_frame hne hop
  | delete id =>
      obtain rfl : id = matchId := hop
      exact .of_auditLogs (matchView_deleteMatch_of_ne hne) rfl rfl rfl
  | savePlayers players =>
      simp only [exec]
      split
      · next w' hsaved =>
          have hview := matchView_savePlayers_of_ne hsaved hop hne
          rw [savePlayers_frame hsaved] at hview ⊢
          exact .of_auditLogs hview rfl rfl rfl
      · exact .refl other w
  | deleteAllConfirmations id =>
      obtain rfl : id = matchId := hop
      exact .of_auditLogs (matchView_deleteAllConfirmations_of_ne hne) rfl rfl rfl
  | saveAuditLog data =>
      have hother : AgreeOn other w w.takeAuditId := .of_auditLogs rfl rfl rfl rfl
      have hentry : Write.Alike matchId (.appendAuditLog (w.newAuditLog data))
          (.appendAuditLog (w.newAuditLog data)) := .appendAuditLog hop rfl
      exact hother.trans (commit_frame hne hentry)
  | commitTransaction =>
      obtain ⟨transaction, locked⟩ := s
      obtain ⟨-, hchanges | _⟩ := hs
      · exact foldl_commit_frame hne hchanges
      · exact .refl other w
  | rollbackTransaction =>
      obtain ⟨transaction, locked⟩ := s
      obtain ⟨-, _ | _⟩ := hs
      · exact .refl other w
      · exact .refl other w
  | saveConfirmation id userId =>
      obtain rfl : id = matchId := hop
      exact write_frame hne (.putConfirmation (c := w.newConfirmation id userId) rfl)
  | saveMatch m => exact write_frame hne (.saveMatch hop)
  | saveTransactionAuditLog data =>
      have hother : AgreeOn other w w.takeAuditId := .of_auditLogs rfl rfl rfl rfl
      have hentry : Write.Alike matchId (.appendAuditLog (w.newAuditLog data))
          (.appendAuditLog (w.newAuditLog data)) := .appendAuditLog hop rfl
      exact hother.trans (write_frame hne hentry)
  | add queue job =>
      cases queue <;> exact .of_auditLogs rfl rfl rfl rfl
  | findById | findPlayers | findConfirmations | findAuditLogs | connect | startTransaction
  | release | findMatchForUpdate | findOneConfirmation | findTransactionConfirmations | now =>
      exact .refl other w
  | create | getMany | findByAzureOid | findUserById | saveUser | insertUser | renameUser
  | queryUserWins | queryPairWins | redisGet | redisSet | redisDel | takeJob | signIn | tick =>
      exact hop.elim

end FoosballApi.Matches
