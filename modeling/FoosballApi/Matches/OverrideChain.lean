import FoosballApi.Matches.MatchSteps

/-!
# The history of overrides is a chain

`overrideResult` takes the scores it records as `beforeData` from an unlocked read and commits them
later. When each commit finds the scores its caller has read, the audit rows of a match, in commit
order, lead from the scores at the start of the run to the stored ones, in every interleaving; a
commit of another admin between the read and the commit breaks the link.
-/

namespace FoosballApi.Matches

open Calls Trace World

/-- The scores of a row, as they are recorded in an audit row. -/
def MatchRow.snapshot (r : MatchRow) : Snapshot := .scores r.scoreA r.scoreB

/-- Each audit row starts from the scores the one before it left; together they lead from `first` to
`last`. -/
def Chain (first : Snapshot) : List AuditLogEntity → Snapshot → Prop
  | [], last => first = last
  | entry :: rest, last => entry.beforeData = first ∧ Chain entry.afterData rest last

/-- A chain goes on with a row that starts from its end. -/
theorem Chain.snoc {first last : Snapshot} {entries : List AuditLogEntity} {entry : AuditLogEntity}
    (hchain : Chain first entries last) (hbefore : entry.beforeData = last) :
    Chain first (entries ++ [entry]) entry.afterData := by
  induction entries generalizing first with
  | nil => exact ⟨hbefore.trans hchain.symm, rfl⟩
  | cons head rest ih => exact ⟨hchain.1, ih hchain.2⟩

variable {θ : Type} [DecidableEq θ]

/-- The scores that a call of `tid` read of a match. -/
def scoresRead (tid : θ) (matchId : MatchId) : CallEvent θ → Option Snapshot
  | ⟨caller, .findById id, .ok (some m), _⟩ =>
      if caller = tid ∧ id = matchId then some m.snapshot else none
  | _ => none

/-- The commit of an override finds the scores that its caller has read. -/
def FindsScoresRead (matchId : MatchId) (tid : θ) (h : History θ) (op : Call) : Prop :=
  op.commits = true → ∀ e ∈ h.events, ∀ scores ∈ scoresRead tid matchId e,
    (h.world.row matchId).map (·.snapshot) = some scores

instance (matchId : MatchId) (tid : θ) (h : History θ) (op : Call) :
    Decidable (FindsScoresRead matchId tid h op) :=
  inferInstanceAs (Decidable (_ → _))

/-- The audit rows of the run are overrides of the match and a chain from the first scores to the
stored ones, and the match never had other scores than these. -/
structure Chained (matchId : MatchId) (w : World) (first : Snapshot) (h : History θ)
    (entries : List AuditLogEntity) (r : MatchRow) : Prop where
  logs : h.world.auditLogs = w.auditLogs ++ entries
  row : h.world.row matchId = some r
  chain : Chain first entries r.snapshot
  overrides : ∀ entry ∈ entries, entry.action = .resultOverride ∧ entry.entityId = matchId
  history : ∀ h₁, Past h₁ h → ∃ r₁, h₁.world.row matchId = some r₁ ∧
    r₁.snapshot ∈ first :: entries.map (·.afterData)

variable {inputs : θ → Input} {h : History θ} {event : CallEvent θ} {matchId : MatchId}

/-- The scores a caller has read are among the calls of the trace. -/
theorem mem_scoresRead {tid : θ} {h₀ : History θ} {r : MatchRow}
    (hread : Past (h₀.snoc ⟨tid, .findById matchId, .ok (h₀.world.findById matchId), h₀.world⟩) h)
    (hrow : h₀.world.row matchId = some r) :
    ∃ e ∈ h.events, r.snapshot ∈ scoresRead tid matchId e := by
  refine ⟨_, hread.2.mem List.mem_cons_self, ?_⟩
  rw [World.findById, hrow]
  simp [scoresRead, MatchRow.snapshot]

omit [DecidableEq θ] in
/-- A call that keeps the match and the audit log keeps the chain. -/
theorem Chained.of_same {w : World} {first : Snapshot} {entries : List AuditLogEntity}
    {r : MatchRow}
    (hchained : Chained matchId w first h entries r)
    (hrow : event.world.row matchId = h.world.row matchId)
    (hlogs : event.world.auditLogs = h.world.auditLogs) :
    Chained matchId w first (h.snoc event) entries r := by
  refine ⟨hlogs.trans hchained.logs, hrow.trans hchained.row, hchained.chain, hchained.overrides,
    fun h₁ hpast => ?_⟩
  rcases hpast.of_snoc with rfl | hpast
  · have hnow := hchained.history h (.refl h)
    rwa [← hrow] at hnow
  · exact hchained.history h₁ hpast

/-- A commit that finds the scores its caller has read goes on with the chain. -/
theorem Chained.override {w : World} {first : Snapshot} {entries : List AuditLogEntity}
    {r r₀ : MatchRow} (hchained : Chained matchId w first h entries r) {tid : θ}
    (hfinds : FindsScoresRead matchId tid h .commitTransaction) {h₀ : History θ}
    (hread : Past (h₀.snoc ⟨tid, .findById matchId, .ok (h₀.world.findById matchId), h₀.world⟩) h)
    (hrow₀ : h₀.world.row matchId = some r₀) {request : Request} {dto : AdminOverrideResultDto}
    {m : MatchEntity}
    (hm : m = ⟨{ r₀ with scoreA := some dto.scoreA, scoreB := some dto.scoreB },
      some (h₀.world.roster matchId)⟩)
    {entry : AuditLogEntity} (hdata : entry.toAuditLogData = overrideData request matchId dto r₀) :
    ∃ r', Chained matchId w first (h.snoc ⟨tid, .commitTransaction, .ok (),
      (h.world.saveMatch m).appendAuditLog entry⟩) (entries ++ [entry]) r' := by
  obtain ⟨e, he, hscores⟩ := mem_scoresRead hread hrow₀
  have hfound := hfinds rfl e he _ hscores
  rw [hchained.row] at hfound
  have hsame : r.snapshot = r₀.snapshot := Option.some.inj hfound
  have hbefore : entry.beforeData = r.snapshot :=
    (congrArg AuditLogData.beforeData hdata).trans hsame.symm
  have hafter : entry.afterData = .scores (some dto.scoreA) (some dto.scoreB) :=
    congrArg AuditLogData.afterData hdata
  have hid : m.id = matchId := by
    rw [hm]
    exact (id_of_row hrow₀ : r₀.id = matchId)
  obtain ⟨t, hsaved⟩ := row_saveMatch_self (w := h.world) m
  rw [hid] at hsaved
  have hlast : MatchRow.snapshot { m.toMatchRow with updatedAt := t } = entry.afterData := by
    rw [hafter, hm]
    rfl
  refine ⟨{ m.toMatchRow with updatedAt := t }, ?_, hsaved, ?_, ?_, fun h₁ hpast => ?_⟩
  · show (h.world.saveMatch m).auditLogs ++ [entry] = _
    rw [auditLogs_saveMatch, hchained.logs, List.append_assoc]
  · rw [hlast]
    exact hchained.chain.snoc hbefore
  · intro old hold
    rcases List.mem_append.mp hold with hold | hnew
    · exact hchained.overrides old hold
    · rw [List.mem_singleton.mp hnew]
      exact ⟨congrArg AuditLogData.action hdata, congrArg AuditLogData.entityId hdata⟩
  · rw [List.map_append, ← List.cons_append]
    rcases hpast.of_snoc with rfl | hpast
    · exact ⟨_, hsaved, List.mem_append_right _ (by rw [hlast]; exact List.mem_cons_self)⟩
    · obtain ⟨r₁, hrow₁, hmem⟩ := hchained.history h₁ hpast
      exact ⟨r₁, hrow₁, List.mem_append_left _ hmem⟩

/-- A call of `overrideResult` on the match keeps the chain, which a commit makes longer. -/
theorem Chained.step {w : World} {first : Snapshot} {entries : List AuditLogEntity} {r : MatchRow}
    (hchained : Chained matchId w first h entries r)
    (hinput : ∃ user dto, inputs event.tid = .request ⟨user, .adminOverrideResult matchId dto⟩)
    (hguarded : Guarded inputs (FindsScoresRead matchId) h event) :
    ∃ entries' r', Chained matchId w first (h.snoc event) entries' r' := by
  obtain ⟨user, dto, hinput⟩ := hinput
  obtain ⟨hdoes, -, hallowed⟩ := hguarded
  rcases hallowed with hallowed | hworld
  swap
  · exact ⟨entries, r, hchained.of_same (by rw [hworld]) (by rw [hworld])⟩
  rw [hinput] at hdoes
  change Request.Does _ h event at hdoes
  cases hdoes with
  | silent same =>
      have hview := same.matchView matchId
      exact ⟨entries, r, hchained.of_same (congrArg MatchView.row hview) same.auditLogs⟩
  | create hroute | savePlayers hroute | deleteVotes hroute | recordDelete hroute => cases hroute
  | save past read saves =>
      cases saves with
      | update hroute | startPlaying hroute | submitResult hroute | cancel hroute => cases hroute
  | vote voting | confirm voting => cases voting.route
  | delete hroute => rcases hroute with hroute | hroute <;> cases hroute
  | announce => exact ⟨entries, r, hchained.of_same rfl rfl⟩
  | @overrideResult tid id dto' hroute h₀ h₁ r₀ reading read confirmed job payload announced m
      written entry data =>
      cases hroute
      exact ⟨_, hchained.override hallowed (reading.trans ((past_snoc _ _).trans announced)) read
        written data⟩

/-- In every interleaving of overrides of a match in which each commit finds the scores its caller
has read, the audit rows that the run adds are a chain from the first scores to the stored ones, and
every scores the match ever had are among them. -/
theorem override_history_is_chain {inputs : θ → Input} {w : World} {c : Running θ}
    {matchId : MatchId} {r : MatchRow} (hrow : w.row matchId = some r)
    (hinputs : ∀ i, ∃ user dto, inputs i = .request ⟨user, .adminOverrideResult matchId dto⟩)
    (hreach : Reach system (fun tid h op fails => fails = false → FindsScoresRead matchId tid h op)
      (w.begin inputs) c) :
    ∃ entries r', c.trace.world.auditLogs = w.auditLogs ++ entries ∧
      (∀ entry ∈ entries, entry.action = .resultOverride ∧ entry.entityId = matchId) ∧
      c.trace.world.row matchId = some r' ∧ Chain r.snapshot entries r'.snapshot ∧
      ∀ h₁, Past h₁ c.trace → ∃ r₁, h₁.world.row matchId = some r₁ ∧
        r₁.snapshot ∈ r.snapshot :: entries.map (·.afterData) := by
  have hcreate : ∀ i user dto, inputs i ≠ .request ⟨user, .createMatch dto⟩ := by
    intro i user dto hcreate
    obtain ⟨_, _, hinput⟩ := hinputs i
    cases hinput.symm.trans hcreate
  have hinit : Chained matchId w r.snapshot (⟨w, []⟩ : History θ) [] r := by
    refine ⟨(List.append_nil _).symm, hrow, rfl, fun entry hentry => absurd hentry List.not_mem_nil,
      fun h₁ hpast => ⟨r, ?_, List.mem_cons_self⟩⟩
    rw [hpast.of_nil]
    exact hrow
  have hsteps : c.trace.Steps (Guarded inputs (FindsScoresRead matchId)) :=
    steps_guarded hcreate hreach
  obtain ⟨entries, r', hchained⟩ := hsteps.since
    (I := fun h => ∃ entries r', Chained matchId w r.snapshot h entries r') (past_begin hreach)
    ⟨[], r, hinit⟩ fun h e ⟨_, _, hchained⟩ hguarded => hchained.step (hinputs e.tid) hguarded
  exact ⟨entries, r', hchained.logs, hchained.overrides, hchained.row, hchained.chain,
    hchained.history⟩

/-! ## Runs -/

theorem length_no_reason : ∀ text ∈ (none : Option String), text.length ≤ 1000 :=
  fun text htext => absurd htext (Option.not_mem_none text)

/-- New scores without a reason. -/
def newScores (scoreA scoreB : Score) : AdminOverrideResultDto :=
  ⟨scoreA, scoreB, none, length_no_reason⟩

/-- The admin overrides the result of match 1 twice. -/
def overrideTwice : Fin 2 → Input
  | 0 => .request ⟨admin, .adminOverrideResult 1 (newScores 2 2)⟩
  | 1 => .request ⟨admin, .adminOverrideResult 1 (newScores 0 5)⟩

theorem overrideTwice_eq (i : Fin 2) :
    ∃ user dto, overrideTwice i = .request ⟨user, .adminOverrideResult 1 dto⟩ :=
  match i with
  | 0 => ⟨_, _, rfl⟩
  | 1 => ⟨_, _, rfl⟩

/-- The one-on-one, confirmed. -/
def duelWon : World := (World.withUsers signedIn).run duelConfirmed

theorem row_duelWon : duelWon.row 1 =
    some ⟨1, some 1, .oneVsOne, .confirmed, some 3, some 1, 0, 5, some 5, some 5⟩ := by
  decide

/-- The second override reads the match after the first has committed. -/
theorem override_history_is_chain_duel :
    ∃ c : Running (Fin 2), (c.trace.world.auditLogs.map (·.afterData)) =
        [.scores (some 2) (some 2), .scores (some 0) (some 5)] ∧
      ∃ entries r', c.trace.world.auditLogs = duelWon.auditLogs ++ entries ∧
        c.trace.world.row 1 = some r' ∧
          Chain (.scores (some 3) (some 1)) entries r'.snapshot := by
  obtain ⟨c, hreach, hlogs⟩ := Reach.exists_of_execute system
    (fun tid h op fails => fails = false → FindsScoresRead 1 tid h op)
    (duelWon.begin overrideTwice) (.replicate 12 (0, false) ++ .replicate 12 (1, false))
    (fun c => (c.trace.world.auditLogs.map (·.afterData)) =
        [.scores (some 2) (some 2), .scores (some 0) (some 5)]) (by decide)
  obtain ⟨entries, r', hentries, -, hrow, hchain, -⟩ :=
    override_history_is_chain row_duelWon overrideTwice_eq hreach
  exact ⟨c, of_decide_eq_true hlogs, entries, r', hentries, hrow, hchain⟩

/-- Both overrides read the match before either commits: both audit rows start from `3:1`. -/
theorem not_override_history_is_chain_duel :
    ¬ ∀ (inputs : Fin 2 → Input) (w : World) (c : Running (Fin 2)) (matchId : MatchId)
        (r : MatchRow), w.row matchId = some r → r.status = .confirmed →
      (∀ i, ∃ user dto, inputs i = .request ⟨user, .adminOverrideResult matchId dto⟩) →
      Reach system (fun _ _ _ fails => fails = false) (w.begin inputs) c →
        ∃ entries r', c.trace.world.auditLogs = w.auditLogs ++ entries ∧
          c.trace.world.row matchId = some r' ∧ Chain r.snapshot entries r'.snapshot := by
  intro h
  obtain ⟨c, hreach, hlogs⟩ := Reach.exists_of_execute system (fun _ _ _ fails => fails = false)
    (duelWon.begin overrideTwice)
    (.replicate 1 (0, false) ++ .replicate 12 (1, false) ++ .replicate 11 (0, false))
    (fun c => c.trace.world.auditLogs.map (fun entry => (entry.beforeData, entry.afterData)) =
        [(.scores (some 3) (some 1), .scores (some 0) (some 5)),
          (.scores (some 3) (some 1), .scores (some 2) (some 2))]) (by decide)
  have hlogs := of_decide_eq_true hlogs
  obtain ⟨entries, r', hentries, hrow, hchain⟩ :=
    h _ _ c 1 _ row_duelWon rfl overrideTwice_eq hreach
  have hnone : duelWon.auditLogs = [] := by decide
  rw [hnone, List.nil_append] at hentries
  rw [hentries] at hlogs
  obtain ⟨one, rest, rfl, hone, hrest⟩ := List.map_eq_cons_iff.mp hlogs
  obtain ⟨two, _, rfl, htwo, -⟩ := List.map_eq_cons_iff.mp hrest
  have hlink : two.beforeData = one.afterData := hchain.2.1
  rw [(Prod.mk.inj htwo).1, (Prod.mk.inj hone).2] at hlink
  revert hlink
  decide

end FoosballApi.Matches
