import FoosballApi.Matches.Registration
import FoosballApi.Matches.Simulation

/-!
# The documented status machine

The documentation draws a match from `draft` over `playing` and `awaiting_confirmation` to
`confirmed`, with a way back to `playing`, and calls `cancelled` terminal. `update`, `addPlayers`
and `submitResult` refuse two statuses instead of admitting some, so three paths leave the drawing:
a result for a full draft, a result for a cancelled match, and an edit of a cancelled match.
`GuardsSuffice` says that a step takes none of them; a run conforms to the documentation exactly
when all its steps do.
-/

namespace FoosballApi.Matches

open Calls Data Prog World Users

/-- The documented changes of a status. -/
inductive MatchStatus.Next : MatchStatus → MatchStatus → Prop where
  | start : Next .draft .playing
  | submit : Next .playing .awaitingConfirmation
  | confirm : Next .awaitingConfirmation .confirmed
  | cancel : Next .awaitingConfirmation .playing

/-- An admin deletes the match. -/
def Input.Deletes (matchId : MatchId) : Input → Prop
  | .request ⟨user, .deleteMatch id⟩ | .request ⟨user, .adminDeleteMatch id⟩ =>
      id = matchId ∧ user.isAdmin = true
  | _ => False

/-- What a cancelled match keeps. -/
def MatchRow.SameResult (r r' : MatchRow) : Prop :=
  r'.status = r.status ∧ r'.scoreA = r.scoreA ∧ r'.scoreB = r.scoreB

/-- A step changes the status as documented, and leaves a cancelled match alone unless it deletes
it. -/
structure Conforms (matchId : MatchId) (w : World) (input : Input) : Prop where
  status : ∀ r r', w.row matchId = some r → (input.after w).row matchId = some r' →
    r'.status = r.status ∨ r.status.Next r'.status
  cancelled : ∀ r, w.row matchId = some r → r.status = .cancelled → ¬ input.Deletes matchId →
    ∃ r', (input.after w).row matchId = some r' ∧ r.SameResult r' ∧
      (input.after w).roster matchId = w.roster matchId ∧
      (input.after w).votes matchId = w.votes matchId

/-- A step does not rely on a guard that the code lacks: the creator submits no result for a full
draft or a full cancelled match, adds no players to a cancelled match, and changes none of its
scores. -/
def GuardsSuffice (matchId : MatchId) (w : World) : Input → Prop
  | .request ⟨user, .submitResult id _⟩ => id = matchId →
      ∀ r ∈ w.row id, r.createdBy = some user.sub →
        matchCapacity r.matchType ≤ (w.roster id).length → r.status ≠ .draft ∧ r.status ≠ .cancelled
  | .request ⟨user, .addPlayers id dto⟩ => id = matchId →
      ∀ r ∈ w.row id, r.createdBy = some user.sub → r.status = .cancelled →
        dto.Refused r (w.roster id) ∨ w.savePlayers (dto.players.map (·.toEntity id)) = none
  | .request ⟨user, .updateMatch id dto⟩ => id = matchId →
      ∀ r ∈ w.row id, r.createdBy = some user.sub → r.status = .cancelled →
        dto.scoreA.getD r.scoreA = r.scoreA ∧ dto.scoreB.getD r.scoreB = r.scoreB
  | _ => True

variable {w : World} {matchId : MatchId} {user : JwtPayload} {r : MatchRow}

theorem not_locked_of_cancelled (hcancelled : r.status = .cancelled) : ¬ r.status.Locked := by
  rw [hcancelled]
  decide

/-! ## What the creator's requests leave -/

/-- What a service leaves is what its request leaves. -/
theorem Input.after_handler {α : Type} {P : World → Prop} (request : Request) {program : Api α}
    {f : α → Response} (hprog : request.prog = program >>= fun value => Prog.pure (f value))
    (h : program.after system noFaults [] {} w fun out => P out.world) :
    P (Input.after w (.request request)) := by
  show P (request.prog.eval system noFaults [] {} w).world
  rw [hprog]
  exact (after_map_world (P := P)).mpr h

/-- The creator's update of an open match saves the scores. -/
theorem row_update (dto : UpdateMatchDto) (hrow : w.row matchId = some r)
    (hcreator : r.createdBy = some user.sub) (hopen : ¬ r.status.Locked) :
    ∃ t, (Input.after w (.request ⟨user, .updateMatch matchId dto⟩)).row matchId = some
      { r with
        scoreA := dto.scoreA.getD r.scoreA
        scoreB := dto.scoreB.getD r.scoreB
        updatedAt := t } := by
  obtain rfl := id_of_row hrow
  have hspec : (MatchService.update r.id user.sub dto).after system noFaults [] {} w fun out =>
      out.world = w.saveMatch
        ⟨{ r with scoreA := dto.scoreA.getD r.scoreA, scoreB := dto.scoreB.getD r.scoreB },
          some (w.roster r.id)⟩ := by
    unfold MatchService.update
    rw [after_bind]
    refine findById_after (fun hnone => ?_) fun r' hrow' => ?_
    · cases hnone.symm.trans hrow
    obtain rfl := Option.some.inj (hrow'.symm.trans hrow)
    simp only [MatchService.checkEditable, after_bind, after_throwIf, not_notCreator, after_perform,
      perform_noFaults, exec, pure_eq, after_pure]
    exact ⟨fun hother => absurd hcreator hother, fun _ =>
      ⟨fun hlocked => absurd hlocked hopen, fun _ => trivial⟩⟩
  have hworld := Input.after_handler (P := (· = _)) ⟨user, .updateMatch r.id dto⟩ rfl hspec
  obtain ⟨t, hsaved⟩ := row_saveMatch (w := w)
    (m := ⟨{ r with scoreA := dto.scoreA.getD r.scoreA, scoreB := dto.scoreB.getD r.scoreB },
      some (w.roster r.id)⟩) hrow
  exact ⟨t, (congrArg (·.row r.id) hworld).trans hsaved⟩

/-- The creator's submission for a full open match starts the confirmation. -/
theorem status_submitResult (dto : SubmitResultDto) (hrow : w.row matchId = some r)
    (hcreator : r.createdBy = some user.sub) (hopen : ¬ r.status.Locked)
    (hfull : matchCapacity r.matchType ≤ (w.roster matchId).length) :
    ∃ r', (Input.after w (.request ⟨user, .submitResult matchId dto⟩)).row matchId = some r' ∧
      r'.status = .awaitingConfirmation := by
  obtain rfl := id_of_row hrow
  let saved : MatchEntity := ⟨{ r with
    scoreA := some dto.scoreA
    scoreB := some dto.scoreB
    status := .awaitingConfirmation }, some (w.roster r.id)⟩
  have hspec : (MatchService.submitResult r.id user.sub dto).after system noFaults [] {} w fun out =>
      out.world.row r.id = (w.saveMatch saved).row r.id := by
    unfold MatchService.submitResult
    rw [after_bind]
    refine findById_after (fun hnone => ?_) fun r' hrow' => ?_
    · cases hnone.symm.trans hrow
    obtain rfl := Option.some.inj (hrow'.symm.trans hrow)
    simp only [MatchService.checkEditable, after_bind, after_throwIf, not_notCreator, after_perform,
      perform_noFaults, exec, Nat.not_lt, pure_eq, after_pure]
    exact ⟨fun hother => absurd hcreator hother, fun _ => ⟨fun hlocked => absurd hlocked hopen,
      fun _ => ⟨fun hshort => absurd hfull (Nat.not_le.mpr hshort), fun _ => rfl⟩⟩⟩
  have hworld := Input.after_handler (P := fun w' => w'.row r.id = (w.saveMatch saved).row r.id)
    ⟨user, .submitResult r.id dto⟩ rfl hspec
  obtain ⟨t, hsaved⟩ := row_saveMatch (w := w) (m := saved) hrow
  exact ⟨_, hworld.trans hsaved, rfl⟩

/-- A request that saves its players changes the roster. -/
theorem roster_ne_of_savePlayers {dto : AddPlayersDto} {saved : World}
    (hfree : ¬ SlotRefused (w.roster matchId) dto)
    (hsave : w.savePlayers (dto.players.map (·.toEntity matchId)) = some saved) :
    saved.roster matchId ≠ w.roster matchId := by
  obtain ⟨p, hp, hmem⟩ := stored_of_savePlayers hsave
  intro hsame
  rw [hsame] at hmem
  exact hfree (slotRefused_of_mem hp hmem rfl rfl)

/-- The creator's players for a cancelled match are saved when no check refuses them. -/
theorem roster_addPlayers {dto : AddPlayersDto} (hrow : w.row matchId = some r)
    (hcreator : r.createdBy = some user.sub) (hcancelled : r.status = .cancelled)
    (hgo : ¬ dto.Refused r (w.roster matchId)) {saved : World}
    (hsave : w.savePlayers (dto.players.map (·.toEntity matchId)) = some saved) :
    (Input.after w (.request ⟨user, .addPlayers matchId dto⟩)).roster matchId ≠
      w.roster matchId := by
  have hspec : (MatchService.addPlayers matchId user.sub dto).after system noFaults [] {} w
      fun out => out.world = saved := by
    refine addPlayers_cases hrow hcreator (not_locked_of_cancelled hcancelled)
      (fun _ hrefused => absurd hrefused hgo) (fun _ hnone => ?_) fun _ saved' hsave' _ _ => ?_
    · cases hnone.symm.trans hsave
    · obtain rfl := Option.some.inj (hsave'.symm.trans hsave)
      exact if_neg fun hdraft => by simp [hcancelled] at hdraft
  have hworld := Input.after_handler (P := (· = saved)) ⟨user, .addPlayers matchId dto⟩ rfl hspec
  intro hsame
  refine roster_ne_of_savePlayers (fun hslot => hgo (.inr hslot)) hsave ?_
  exact (congrArg (·.roster matchId) hworld).symm.trans hsame

/-- Players that a check or a key refuses leave everything as it was. -/
theorem after_addPlayers_refused {dto : AddPlayersDto} (hrow : w.row matchId = some r)
    (hcreator : r.createdBy = some user.sub) (hopen : ¬ r.status.Locked)
    (hrefused : dto.Refused r (w.roster matchId) ∨
      w.savePlayers (dto.players.map (·.toEntity matchId)) = none) :
    Input.after w (.request ⟨user, .addPlayers matchId dto⟩) = w := by
  refine Input.after_handler (P := (· = w)) ⟨user, .addPlayers matchId dto⟩ rfl
    (addPlayers_cases hrow hcreator hopen (fun _ _ _ => rfl) (fun _ _ _ => rfl) ?_)
  intro hgo saved hsave _ _
  rcases hrefused with hcheck | hnone
  · exact absurd hcheck hgo
  · cases hnone.symm.trans hsave

/-! ## Steps -/

/-- A step that leaves the match conforms. -/
theorem Conforms.of_same {input : Input}
    (hsame : (input.after w).matchView matchId = w.matchView matchId) :
    Conforms matchId w input := by
  have hrow : (input.after w).row matchId = w.row matchId := congrArg MatchView.row hsame
  constructor
  · intro r r' hr hr'
    rw [hrow, hr] at hr'
    cases hr'
    exact .inl rfl
  · intro r hr _ _
    exact ⟨r, hrow.trans hr, ⟨rfl, rfl, rfl⟩, congrArg MatchView.roster hsame,
      congrArg MatchView.votes hsame⟩

/-- A step that finds another status than `cancelled` and changes it as documented conforms. -/
theorem Conforms.of_status {input : Input} {r' : MatchRow} (hrow : w.row matchId = some r)
    (hopen : r.status ≠ .cancelled) (hrow' : (input.after w).row matchId = some r')
    (hnext : r'.status = r.status ∨ r.status.Next r'.status) : Conforms matchId w input := by
  constructor
  · intro r₁ r₁' hr hr'
    rw [hrow] at hr
    rw [hrow'] at hr'
    cases hr
    cases hr'
    exact hnext
  · intro r₁ hr hcancelled _
    rw [hrow] at hr
    cases hr
    exact absurd hcancelled hopen

/-- A conforming step takes none of the unguarded paths. -/
theorem Conforms.guards {input : Input} (h : Conforms matchId w input) :
    GuardsSuffice matchId w input := by
  cases input with
  | signIn user => exact trivial
  | tick elapsed => exact trivial
  | request request =>
      obtain ⟨user, route⟩ := request
      cases route with
      | submitResult id dto =>
          rintro rfl r hrow hcreator hfull
          have hleft : ∀ status, r.status = status → ¬ status.Locked →
              status = .awaitingConfirmation ∨ status.Next .awaitingConfirmation := by
            rintro _ rfl hopen
            obtain ⟨r', hrow', hstatus⟩ := status_submitResult dto hrow hcreator hopen hfull
            rcases h.status r r' hrow hrow' with hsame | hnext
            · exact .inl (hsame.symm.trans hstatus)
            · exact .inr (hstatus ▸ hnext)
          constructor
          · intro hdraft
            rcases hleft _ hdraft (by decide) with hsame | hnext
            · cases hsame
            · cases hnext
          · intro hcancelled
            rcases hleft _ hcancelled (by decide) with hsame | hnext
            · cases hsame
            · cases hnext
      | addPlayers id dto =>
          rintro rfl r hrow hcreator hcancelled
          by_contra hboth
          rw [not_or] at hboth
          obtain ⟨saved, hsave⟩ := Option.ne_none_iff_exists'.mp hboth.2
          obtain ⟨r', -, -, hroster, -⟩ := h.cancelled r hrow hcancelled fun hdeletes => hdeletes
          exact roster_addPlayers hrow hcreator hcancelled hboth.1 hsave hroster
      | updateMatch id dto =>
          rintro rfl r hrow hcreator hcancelled
          obtain ⟨t, hrow'⟩ := row_update dto hrow hcreator (not_locked_of_cancelled hcancelled)
          obtain ⟨r', hr', ⟨-, hA, hB⟩, -⟩ := h.cancelled r hrow hcancelled fun hdeletes => hdeletes
          rw [hrow'] at hr'
          cases hr'
          exact ⟨hA, hB⟩
      | _ => exact trivial

/-- An update by the creator that leaves the roster and the votes conforms when it changes no score
of a cancelled match. -/
theorem Conforms.of_update {dto : UpdateMatchDto} (hrow : w.row matchId = some r)
    (hcreator : r.createdBy = some user.sub) (hopen : ¬ r.status.Locked)
    (hguards : GuardsSuffice matchId w (.request ⟨user, .updateMatch matchId dto⟩))
    (hroster : (Input.after w (.request ⟨user, .updateMatch matchId dto⟩)).roster matchId =
      w.roster matchId)
    (hvotes : (Input.after w (.request ⟨user, .updateMatch matchId dto⟩)).votes matchId =
      w.votes matchId) : Conforms matchId w (.request ⟨user, .updateMatch matchId dto⟩) := by
  obtain ⟨t, hsaved⟩ := row_update dto hrow hcreator hopen
  constructor
  · intro r₁ r' hr hr'
    rw [hrow] at hr
    rw [hsaved] at hr'
    cases hr
    cases hr'
    exact .inl rfl
  · intro r₁ hr hcancelled _
    rw [hrow] at hr
    cases hr
    obtain ⟨hA, hB⟩ := hguards rfl r hrow hcreator hcancelled
    exact ⟨_, hsaved, ⟨rfl, hA, hB⟩, hroster, hvotes⟩

/-- A deletion of the match conforms. -/
theorem Conforms.of_deletes {input : Input} (hdeletes : input.Deletes matchId)
    (hgone : (input.after w).row matchId = none) : Conforms matchId w input := by
  constructor
  · intro r r' _ hr'
    rw [hgone] at hr'
    cases hr'
  · exact fun _ _ _ hnot => absurd hdeletes hnot

/-- A step that takes none of the unguarded paths conforms. -/
theorem GuardsSuffice.conforms (hw : w.Sound) {input : Input}
    (h : GuardsSuffice matchId w input) : Conforms matchId w input := by
  rcases Input.simulates hw input matchId with hsame | ⟨⟨user, route⟩, action, rfl, hdo, htrans⟩
  · exact .of_same hsame
  generalize hbefore : w.matchView matchId = v at htrans
  generalize hafter : (Input.after w (.request ⟨user, route⟩)).matchView matchId = v' at htrans
  have hrow : w.row matchId = v.row := congrArg MatchView.row hbefore
  have hrow' : (Input.after w (.request ⟨user, route⟩)).row matchId = v'.row :=
    congrArg MatchView.row hafter
  -- The route tells the transition.
  cases route with
  | createMatch dto =>
      cases hdo
      cases htrans
      constructor
      · intro r r' hr
        cases hrow.symm.trans hr
      · intro r hr
        cases hrow.symm.trans hr
  | updateMatch id dto =>
      obtain ⟨rfl, rfl⟩ := hdo
      cases htrans with
      | update creator editable =>
          refine .of_update hrow creator editable h ?_ ?_
          · exact (congrArg MatchView.roster hafter).trans (congrArg MatchView.roster hbefore).symm
          · exact (congrArg MatchView.votes hafter).trans (congrArg MatchView.votes hbefore).symm
  | addPlayers id dto =>
      obtain ⟨rfl, rfl⟩ := hdo
      cases htrans with
      | @addPlayers _ r roster roster' votes _ creator editable size nonempty free registered =>
          by_cases hcancelled : r.status = .cancelled
          · exact .of_same (by rw [after_addPlayers_refused hrow creator editable
              (h rfl r hrow creator hcancelled)])
          refine .of_status hrow hcancelled hrow' ?_
          by_cases hdraft : r.status = .draft
          · simp only [hdraft]
            exact .inr .start
          · exact .inl (if_neg hdraft)
  | submitResult id dto =>
      obtain ⟨rfl, rfl⟩ := hdo
      cases htrans with
      | @submitResult _ r roster votes creator editable full =>
          have hroster : w.roster id = roster := congrArg MatchView.roster hbefore
          obtain ⟨hdraft, hopen⟩ := h rfl r hrow creator (hroster ▸ full)
          have hplaying : r.status = .playing := by
            cases hstatus : r.status with
            | playing => rfl
            | draft => exact absurd hstatus hdraft
            | cancelled => exact absurd hstatus hopen
            | awaitingConfirmation => exact absurd (.inl hstatus) editable
            | confirmed => exact absurd (.inr hstatus) editable
          exact .of_status hrow hopen hrow' (.inr (hplaying ▸ .submit))
  | confirmResult id =>
      obtain ⟨rfl, rfl | rfl⟩ := hdo
      · cases htrans with
        | vote awaiting => exact .of_status hrow (by simp [awaiting]) hrow' (.inl rfl)
      · cases htrans with
        | confirm awaiting =>
            exact .of_status hrow (by simp [awaiting]) hrow' (.inr (awaiting ▸ .confirm))
  | cancelConfirmation id =>
      obtain ⟨rfl, rfl⟩ := hdo
      cases htrans with
      | cancel creator awaiting =>
          exact .of_status hrow (by simp [awaiting]) hrow' (.inr (awaiting ▸ .cancel))
  | adminOverrideResult id dto =>
      obtain ⟨rfl, rfl, hadmin⟩ := hdo
      cases htrans with
      | overrideResult confirmed =>
          exact .of_status hrow (by simp [confirmed]) hrow' (.inl rfl)
  | deleteMatch id | adminDeleteMatch id =>
      obtain ⟨rfl, rfl, hadmin⟩ := hdo
      cases htrans
      exact .of_deletes ⟨rfl, hadmin⟩ hrow'
  | getMatch | getConfirmationStatus | getMatchAuditLog => exact hdo.elim

/-- In a run from any stored matches, every step follows the documented machine and leaves cancelled
matches alone exactly when no step takes an unguarded path. -/
theorem run_conforms_iff (w : World) (hw : w.Sound) (inputs : List Input) (matchId : MatchId) :
    w.Steps (Conforms matchId) inputs ↔ w.Steps (GuardsSuffice matchId) inputs := by
  induction inputs generalizing w with
  | nil => exact Iff.rfl
  | cons input inputs ih =>
      exact and_congr ⟨Conforms.guards, GuardsSuffice.conforms hw⟩ (ih _ (Input.sound hw input))

/-- A run keeps the world sound. -/
theorem World.run_sound (hw : w.Sound) (inputs : List Input) : (w.run inputs).Sound := by
  induction inputs generalizing w with
  | nil => exact hw
  | cons input inputs ih => exact ih (Input.sound hw input)

/-- The database with another row for a match. -/
def World.putRow (w : World) (r : MatchRow) : World := { w with matchRows := w.matchRows.put r }

/-- A stored row may be replaced by any other with its id. -/
theorem World.Sound.putRow (hw : w.Sound) {r' : MatchRow} (hrow : w.row r'.id = some r) :
    (w.putRow r').Sound := by
  have hother : ∀ id, id ≠ r'.id → (w.putRow r').row id = w.row id :=
    fun id hne => Table.get_put_of_ne w.matchRows hne
  constructor
  · intro id hid
    have hne : id ≠ r'.id := by
      rintro rfl
      rw [hw.fresh r'.id hid] at hrow
      cases hrow
    exact (hother id hne).trans (hw.fresh id hid)
  · intro id hnone
    have hne : id ≠ r'.id := by
      rintro rfl
      have hput : (w.putRow r').row r'.id = some r' := Table.get_put_self w.matchRows r'
      cases hput.symm.trans hnone
    have hview := hw.absent id ((hother id hne).symm.trans hnone)
    have hroster : w.roster id = [] := congrArg MatchView.roster hview
    have hvotes : w.votes id = [] := congrArg MatchView.votes hview
    exact MatchView.ext hnone hroster hvotes

/-- The filled match, with the status `cancelled`. -/
def cancelledDuel : World :=
  ((World.withUsers signedIn).run (duel.take 2)).putRow { newDuelRow with status := .cancelled }

theorem sound_cancelledDuel : cancelledDuel.Sound := by
  have hfilled : ((World.withUsers signedIn).run (duel.take 2)).Sound :=
    World.run_sound (sound_withUsers signedIn) (duel.take 2)
  exact hfilled.putRow (r := { newDuelRow with status := .playing }) (by decide)

/-- The opponent's submission is refused, and an admin deletes the cancelled match. -/
def cancelledThenDeleted : List Input :=
  [.request ⟨rival, .submitResult 1 ⟨0, 3⟩⟩, .request ⟨admin, .adminDeleteMatch 1⟩]

/-- A cancelled match that nobody may submit a result for but its creator. -/
theorem run_conforms_cancelledDuel : cancelledDuel.Steps (Conforms 1) cancelledThenDeleted :=
  (run_conforms_iff cancelledDuel sound_cancelledDuel cancelledThenDeleted 1).mpr
    ⟨by unfold GuardsSuffice; decide, trivial, trivial⟩

/-- The creator's submission takes a cancelled match out of its terminal status. -/
theorem not_run_conforms_submitted :
    ¬ ∀ (w : World) (inputs : List Input) (matchId : MatchId), w.Sound →
      w.Steps (Conforms matchId) inputs := by
  intro h
  obtain ⟨hconforms, -⟩ :=
    h cancelledDuel [.request ⟨mario, .submitResult 1 ⟨3, 1⟩⟩] 1 sound_cancelledDuel
  have hrow : cancelledDuel.row 1 = some { newDuelRow with status := .cancelled } := by decide
  obtain ⟨r', hrow', ⟨hstatus, -⟩, -⟩ := hconforms.cancelled _ hrow rfl nofun
  have hsubmitted : ((Input.after cancelledDuel (.request ⟨mario, .submitResult 1 ⟨3, 1⟩⟩)).row 1).map
      (·.status) = some .awaitingConfirmation := by decide
  rw [hrow', Option.map_some, hstatus] at hsubmitted
  cases hsubmitted

end FoosballApi.Matches
