import FoosballApi.Matches.RequestScope
import FoosballApi.Matches.RowHistory
import FoosballApi.Matches.RowLocks

/-!
# Interleaved requests about other matches

However requests interleave, and whichever of their calls fail, a stored match goes through what it
would go through if the requests about other matches had never been made: those that concern it make
the same calls in the same order, answer the same and leave the same row, players and votes, but for
the ids of audit rows. Requests about other matches may hold locks meanwhile: what one request has
locked is read off its own calls, so that the run without the others is one under the same locks.
-/

namespace FoosballApi.Matches

open Calls Data Prog Trace World

/-- The inputs that a match may notice: the requests about it, logins and the clock. -/
def Input.concerns (matchId : MatchId) : Input → Bool
  | .request r => r.route.target = some matchId
  | .signIn _ | .tick _ => true

/-- The one call of an input that is about no match, with equal results. -/
def onlyCall (may : Call → Prop) : Likeness Call Call.Result where
  may := may
  alike _ result result' := result' = result

/-- The creation of a match. -/
def Call.creates : Call → Prop
  | .create .. => True
  | _ => False

/-- The calls of an input, and which of their results are alike. -/
def Input.likeness : Input → Likeness Call Call.Result
  | .request r =>
      match r.route.target with
      | some matchId => aboutMatch matchId
      | none => onlyCall Call.creates
  | .signIn user => onlyCall (· = .signIn user)
  | .tick elapsed => onlyCall (· = .tick elapsed)

/-- The sessions in which an input goes on alike. -/
def Input.sessions : Input → Session → Session → Prop
  | .request r =>
      match r.route.target with
      | some matchId => SessionsAgree matchId
      | none => fun s s' => s' = s
  | .signIn _ | .tick _ => fun s s' => s' = s

/-- Two worlds that agree on a match whose id was given out. -/
structure AgreeOnStored (matchId : MatchId) (w w' : World) : Prop where
  agree : AgreeOn matchId w w'
  issued : matchId < w.nextMatchId

variable {matchId : MatchId} {w w' : World}

theorem AgreeOnStored.step (h : AgreeOnStored matchId w w') {op : Call} {s : Session} {w'' : World}
    (hagree : AgreeOn matchId (exec op s w).2.2 w'') :
    AgreeOnStored matchId (exec op s w).2.2 w'' :=
  ⟨hagree, h.issued.trans_le (grows_exec op s w).nextMatchId⟩

/-- Every input goes on alike in sessions that agree. -/
theorem Input.similar (input : Input) :
    input.prog.Similar input.likeness (fun a b => a.withoutIds = b.withoutIds) input.prog := by
  cases input with
  | request r =>
      cases htarget : r.route.target with
      | some id =>
          have hlikeness : (Input.request r).likeness = aboutMatch id := by
            rw [Input.likeness, htarget]
          rw [hlikeness]
          exact Request.similar htarget
      | none =>
          have hlikeness : (Input.request r).likeness = onlyCall Call.creates := by
            rw [Input.likeness, htarget]
          rw [hlikeness]
          obtain ⟨user, route⟩ := r
          cases route with
          | createMatch dto =>
              let create : Call := .create user.sub (dto.matchType.getD .twoVsTwo) .draft
              have hcreates : (onlyCall Call.creates).may create := trivial
              refine .call hcreates (fun m m' hm => ?_) fun failure => .throw failure
              obtain rfl : m' = m := hm
              exact .pure rfl
          | _ => cases htarget
  | signIn user =>
      exact Similar.perform_bind (L := onlyCall (· = .signIn user)) rfl fun _ _ _ => .pure rfl
  | tick elapsed =>
      exact Similar.perform_bind (L := onlyCall (· = .tick elapsed)) rfl fun _ _ _ => .pure rfl

/-! ## What the match may notice -/

/-- A call of an input that concerns the match, in two worlds that agree on it. -/
theorem Input.exec_agree {input : Input} {op : Call} {s s' : Session}
    (hconcerns : input.concerns matchId = true) (hop : input.likeness.may op)
    (hs : input.sessions s s') (h : AgreeOnStored matchId w w') :
    ExceptRel (input.likeness.alike op) (exec op s w).1 (exec op s' w').1 ∧
      input.sessions (exec op s w).2.1 (exec op s' w').2.1 ∧
        AgreeOnStored matchId (exec op s w).2.2 (exec op s' w').2.2 := by
  cases input with
  | request r =>
      have htarget : r.route.target = some matchId := of_decide_eq_true hconcerns
      rw [Input.likeness, htarget] at hop ⊢
      rw [Input.sessions, htarget] at hs ⊢
      obtain ⟨hresult, hsession, hworld⟩ := Matches.exec_agree hop hs h.agree
      exact ⟨hresult, hsession, h.step hworld⟩
  | signIn user =>
      obtain rfl : op = .signIn user := hop
      obtain rfl : s' = s := hs
      refine ⟨.ok rfl, rfl, h.step ⟨h.agree.view, ?_, h.agree.clock, h.agree.auditRows⟩⟩
      show w'.users.put user = w.users.put user
      rw [h.agree.users]
  | tick elapsed =>
      obtain rfl : op = .tick elapsed := hop
      obtain rfl : s' = s := hs
      refine ⟨.ok rfl, rfl, h.step ⟨h.agree.view, h.agree.users, ?_, h.agree.auditRows⟩⟩
      show w'.clock + elapsed = w.clock + elapsed
      rw [h.agree.clock]

/-- The calls of an input keep it alike to itself. -/
theorem Input.exec_self {input : Input} {op : Call} {s : Session} (hop : input.likeness.may op)
    (hs : input.sessions s s) (w : World) :
    ExceptRel (input.likeness.alike op) (exec op s w).1 (exec op s w).1 ∧
      input.sessions (exec op s w).2.1 (exec op s w).2.1 := by
  cases input with
  | request r =>
      cases htarget : r.route.target with
      | some id =>
          rw [Input.likeness, htarget] at hop ⊢
          rw [Input.sessions, htarget] at hs ⊢
          obtain ⟨hresult, hsession, -⟩ := Matches.exec_agree hop hs (.refl id w)
          exact ⟨hresult, hsession⟩
      | none =>
          rw [Input.likeness, htarget] at hop ⊢
          rw [Input.sessions, htarget]
          cases op with
          | create createdBy matchType status => exact ⟨.ok rfl, rfl⟩
          | _ => exact hop.elim
  | signIn user =>
      obtain rfl : op = .signIn user := hop
      exact ⟨.ok rfl, rfl⟩
  | tick elapsed =>
      obtain rfl : op = .tick elapsed := hop
      exact ⟨.ok rfl, rfl⟩

/-- A call of an input that does not concern the match. -/
theorem Input.exec_frame {input : Input} {op : Call} {s : Session}
    (hconcerns : input.concerns matchId = false) (hop : input.likeness.may op)
    (hs : input.sessions s s) (h : AgreeOnStored matchId w w') :
    AgreeOnStored matchId (exec op s w).2.2 w' := by
  cases input with
  | signIn user => cases hconcerns
  | tick elapsed => cases hconcerns
  | request r =>
      cases htarget : r.route.target with
      | some id =>
          have hne : matchId ≠ id := by
            rintro rfl
            exact absurd htarget (of_decide_eq_false hconcerns)
          rw [Input.likeness, htarget] at hop
          rw [Input.sessions, htarget] at hs
          exact h.step ((Matches.exec_frame hne hop hs).symm.trans h.agree)
      | none =>
          rw [Input.likeness, htarget] at hop
          cases op with
          | create createdBy matchType status =>
              have hne : matchId ≠ w.nextMatchId := h.issued.ne
              have hview : (w.insertMatch (w.newMatch createdBy matchType status)).matchView
                  matchId = w.matchView matchId := matchView_insertMatch_of_ne hne
              exact h.step ((AgreeOn.of_auditLogs hview rfl rfl rfl).symm.trans h.agree)
          | _ => exact hop.elim

/-- The inputs that concern a match cannot tell whether the others are there. -/
theorem inputs_separate {θ : Type} (inputs : θ → Input) (matchId : MatchId) :
    Separates unlocked (fun i => (inputs i).concerns matchId) (fun i => (inputs i).likeness)
      (fun i => (inputs i).sessions) (AgreeOnStored matchId) where
  held _ := rfl
  ownCall hown hmay hs hw := Input.exec_agree hown hmay hs hw
  otherCall hother hmay hs hw :=
    have ⟨hresult, hsession⟩ := Input.exec_self hmay hs _
    ⟨hresult, hsession, Input.exec_frame hother hmay hs hw⟩

/-- Beside a run in which nothing happens the inputs go on alike to themselves. -/
theorem inputs_alike {θ : Type} (inputs : θ → Input) (world : World) :
    Separates unlocked (fun _ => false) (fun i => (inputs i).likeness)
      (fun i => (inputs i).sessions) fun _ w' => w' = world where
  held _ := rfl
  ownCall hown := Bool.noConfusion hown
  otherCall _ hmay hs hw :=
    have ⟨hresult, hsession⟩ := Input.exec_self hmay hs _
    ⟨hresult, hsession, hw⟩

/-! ## Runs -/

theorem Input.sessions_start (input : Input) : input.sessions {} {} := by
  cases input with
  | request r =>
      cases htarget : r.route.target with
      | some id =>
          rw [Input.sessions, htarget]
          exact ⟨rfl, .none⟩
      | none =>
          rw [Input.sessions, htarget]
  | signIn | tick => rfl

/-- In every run the programs of the inputs go on alike to themselves. -/
theorem thread_alike {θ : Type} [DecidableEq θ] {inputs : θ → Input} {w : World}
    {allow : θ → History θ → Call → Bool → Prop} {c : Running θ}
    (hreach : Reach unlocked allow (w.begin inputs) c) (i : θ) :
    (c.threads i).Alike (inputs i).likeness (fun a b => a.withoutIds = b.withoutIds)
      (inputs i).sessions (c.threads i) := by
  have hnone : ∀ (i : θ) (h h' : History θ) (op : Call) (fails : Bool), false = true →
      List.Forall₂ (Event.Alike fun i => (inputs i).likeness) (h.events.filter fun _ => false)
        h'.events → allow i h op fails → allow i h' op fails :=
    fun _ _ _ _ _ hown => Bool.noConfusion hown
  obtain ⟨c', -, hprojects⟩ := hreach.projects (inputs_alike inputs w) rfl
    (fun i => (inputs i).sessions_start) rfl (fun i => (inputs i).similar) hnone
  exact hprojects.others i rfl

/-- In every interleaved run under locks, on rows or on whatever calls may lock, a stored match goes
through what it goes through in the run of the inputs that concern it, under the same locks: these
make the same calls in the same order and answer the same, and the match ends up the same. -/
theorem match_isolated {θ κ μ : Type} [DecidableEq θ] {M : Monitor Call Call.Result Failure μ}
    (L : Locks M κ) (hblind : M.Blind) {inputs : θ → Input} {w : World} {c : Running θ}
    (hreach : Reach unlocked L.Admits (w.begin inputs) c) (hissued : matchId < w.nextMatchId) :
    ∃ c', Reach unlocked (fun i h op fails => (inputs i).concerns matchId = true ∧
        L.Admits i h op fails) (w.begin inputs) c' ∧
      AgreeOn matchId c.trace.world c'.trace.world ∧
      List.Forall₂ (Event.Alike fun i => (inputs i).likeness)
        (c.trace.events.filter fun e => (inputs e.tid).concerns matchId) c'.trace.events ∧
      ∀ i, (inputs i).concerns matchId = true → ∀ result, c.resultOf i = some result →
        ∃ result', c'.resultOf i = some result' ∧
          result.map Response.withoutIds = result'.map Response.withoutIds := by
  let own : θ → Bool := fun i => (inputs i).concerns matchId
  obtain ⟨c', hreach', hprojects⟩ := hreach.projects (inputs_separate inputs matchId) rfl
    (fun i => (inputs i).sessions_start) ⟨.refl matchId w, hissued⟩ (fun i => (inputs i).similar)
    fun _ _ _ _ _ _ halike hadmits => L.admits_of_alike hblind own halike hadmits
  refine ⟨c', hreach', hprojects.world.agree, hprojects.calls, fun i hi result hresult => ?_⟩
  obtain ⟨result', hresult', hrel⟩ := hprojects.result hi hresult
  exact ⟨result', hresult', hrel.eq_of_map⟩

/-- `mario` and `rival` have played two matches against each other. -/
def twoDuels : World :=
  (World.withUsers signedIn).run (duel ++
    [ .request ⟨mario, .createMatch ⟨some .oneVsOne⟩⟩
    , .request ⟨mario, .addPlayers 2 bothTeams⟩
    , .request ⟨mario, .submitResult 2 ⟨0, 2⟩⟩ ])

/-- `rival` confirms the first result and `mario` the second. -/
def confirmBoth : Fin 2 → Input
  | 0 => .request ⟨rival, .confirmResult 1⟩
  | 1 => .request ⟨mario, .confirmResult 2⟩

/-- While `mario` holds the row of the second match, `rival` locks the row of the first, votes and
has an answer. The ten calls of `rival` make a run. -/
theorem match_isolated_confirmBoth :
    ∃ c c' : Running (Fin 2),
      Reach unlocked (rowLocks fun _ => true).Admits (twoDuels.begin confirmBoth) c ∧
        (rowLocks fun _ => true).Holds c.trace 1 2 ∧ (c.resultOf 0).isSome ∧
          (c.trace.world.votes 1).length = 1 ∧
      Reach unlocked (fun i h op fails => (confirmBoth i).concerns 1 = true ∧
          (rowLocks fun _ => true).Admits i h op fails) (twoDuels.begin confirmBoth) c' ∧
        c'.trace.events.length = 10 ∧ AgreeOn 1 c.trace.world c'.trace.world := by
  obtain ⟨c, hreach, hrun⟩ := Reach.exists_of_execute unlocked (rowLocks fun _ => true).Admits
    (twoDuels.begin confirmBoth) (.replicate 5 (1, false) ++ .replicate 10 (0, false))
    (fun c => (lockMonitor.after .idle (c.trace.madeBy 1)).Holds 2 ∧ (c.resultOf 0).isSome ∧
      (c.trace.world.votes 1).length = 1 ∧
        (c.trace.events.filter fun e => (confirmBoth e.tid).concerns 1).length = 10) (by decide)
  obtain ⟨hholds, hended, hvotes, hown⟩ := of_decide_eq_true hrun
  have hissued : 1 < twoDuels.nextMatchId := by decide
  obtain ⟨c', hreach', hagree, hsame, -⟩ :=
    match_isolated (rowLocks fun _ => true) lockMonitor_blind hreach hissued
  exact ⟨c, c', hreach, hholds, hended, hvotes, hreach', hsame.length_eq.symm.trans hown, hagree⟩

end FoosballApi.Matches
