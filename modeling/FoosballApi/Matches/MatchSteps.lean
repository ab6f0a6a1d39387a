import FoosballApi.Matches.CallEffects
import FoosballApi.Matches.Simulation

/-!
# What a call of an interleaved request does to one match

The counterpart of `Lifecycle.lean` for requests that interleave. `Request.Touches` lists the views
of a match a single call can leave, with the earlier reads it goes back to; unlike a transition of
the sequential machine, a write is not tied to the state it finds. `Request.Does.touches` connects
it to the calls of the services, so the properties of interleaved runs are facts about it.
-/

namespace FoosballApi.Matches

open Calls Data Trace World

variable {θ : Type} {request : Request} {h : History θ} {event : CallEvent θ} {matchId : MatchId}

/-- A roster that keeps the players of another one, and is the same where the match is stored. -/
structure KeepsPlayers (v : MatchView) (roster : List MatchPlayerEntity) : Prop where
  stored : v.row ≠ none → roster = v.roster
  users : ∀ p ∈ v.roster, ∃ q ∈ roster, q.userId = p.userId

/-- The views a call of a request can leave of a match. -/
inductive Request.Touches (request : Request) (h : History θ) (event : CallEvent θ)
    (matchId : MatchId) : MatchView → Prop
  | same : request.Touches h event matchId (h.world.matchView matchId)
  | create {dto} (route : request.route = .createMatch dto) {v} : request.Touches h event matchId v
  | save {h₀ : History θ} {r r' : MatchRow} {m : MatchEntity} {roster}
      (op : event.op = .save m) (id : m.id = matchId) (past : Past h₀ h)
      (read : h₀.world.row matchId = some r) (saves : request.Saves matchId r r')
      (players : KeepsPlayers (h.world.matchView matchId) roster) (updatedAt : Date) :
      request.Touches h event matchId
        ⟨some { r' with updatedAt := updatedAt }, roster, h.world.votes matchId⟩
  | savePlayers {dto ps roster} (route : request.route = .addPlayers matchId dto)
      (op : event.op = .savePlayers ps) (nonempty : ps ≠ []) (own : ∀ p ∈ ps, p.matchId = matchId)
      (registered : Registered (h.world.roster matchId) ps roster)
      (stored : h.world.row matchId ≠ none)
      {h₀ h₁ : History θ} {r : MatchRow} (past : Past h₀ h₁)
      (counted : Past (h₁.snoc ⟨event.tid, .findPlayers matchId, .ok (h₁.world.roster matchId),
        h₁.world⟩) h)
      (read : h₀.world.row matchId = some r)
      (room : (h₁.world.roster matchId).length + ps.length ≤ matchCapacity r.matchType) :
      request.Touches h event matchId ⟨h.world.row matchId, roster, h.world.votes matchId⟩
  | deleteVotes (route : request.route = .cancelConfirmation matchId)
      (op : event.op = .deleteAllConfirmations matchId) :
      request.Touches h event matchId ⟨h.world.row matchId, h.world.roster matchId, []⟩
  | vote {r players votes} (voting : request.Votes event.tid h matchId r players)
      (cast : Cast request.user.sub players (h.world.votes matchId) votes)
      (below : votes.length < calculateQuorum players.length) :
      request.Touches h event matchId ⟨h.world.row matchId, h.world.roster matchId, votes⟩
  | confirm {r players votes} (voting : request.Votes event.tid h matchId r players)
      (cast : Cast request.user.sub players (h.world.votes matchId) votes)
      (quorum : calculateQuorum players.length ≤ votes.length) {h₃ : History θ}
      (counted : Past (h₃.snoc ⟨event.tid, .findTransactionConfirmations matchId, .ok votes,
        h₃.world⟩) h) (confirmedAt updatedAt : Date) :
      request.Touches h event matchId
        ⟨some { r.confirmedAtTime confirmedAt with updatedAt := updatedAt },
          h.world.roster matchId, votes⟩
  | overrideResult {dto roster} (route : request.route = .adminOverrideResult matchId dto)
      {h₀ : History θ} {r : MatchRow} (past : Past h₀ h)
      (read : h₀.world.row matchId = some r) (confirmed : r.status = .confirmed)
      (players : KeepsPlayers (h.world.matchView matchId) roster) (updatedAt : Date)
      (op : event.op = .commitTransaction) :
      request.Touches h event matchId
        ⟨some { r with
          scoreA := some dto.scoreA
          scoreB := some dto.scoreB
          updatedAt := updatedAt }, roster, h.world.votes matchId⟩
  | delete (route :
        request.route = .deleteMatch matchId ∨ request.route = .adminDeleteMatch matchId)
      (op : event.op = .delete matchId) : request.Touches h event matchId .absent

namespace Request.Touches

/-- A call that leaves the view of the match. -/
theorem of_eq {v : MatchView} (hview : v = h.world.matchView matchId) :
    request.Touches h event matchId v := hview ▸ .same

end Request.Touches

/-- A saved row keeps the match's id. -/
theorem Request.Saves.id {r r' : MatchRow} (hsaves : request.Saves matchId r r') :
    r'.id = r.id := by
  cases hsaves <;> rfl

/-- The roster that `save(match)` leaves of its own match. -/
theorem keepsPlayers_saveMatch (w : World) (m : MatchEntity) :
    KeepsPlayers (w.matchView m.id) ((w.saveMatch m).roster m.id) := by
  refine ⟨fun hstored => ?_, fun p hp => roster_saveMatch_users m hp⟩
  obtain ⟨r, hrow⟩ := Option.ne_none_iff_exists'.mp hstored
  rw [roster, players_saveMatch hrow]
  rfl

/-- The view `save(match)` leaves of its own match. -/
theorem matchView_saveMatch_self (w : World) (m : MatchEntity) :
    ∃ t, (w.saveMatch m).matchView m.id = ⟨some { m.toMatchRow with updatedAt := t },
      (w.saveMatch m).roster m.id, w.votes m.id⟩ := by
  obtain ⟨t, hrow⟩ := row_saveMatch_self (w := w) m
  exact ⟨t, MatchView.ext hrow rfl (votes_saveMatch m m.id)⟩

/-- The players loaded with a match are its own. -/
theorem roster_own {w : World} {m : MatchEntity} (hid : m.id = matchId)
    (hloaded : m.players = some (w.roster matchId)) :
    ∀ p ∈ m.players.getD [], p.matchId = m.id := by
  rw [hloaded, hid]
  exact fun p hp => (mem_roster.mp hp).2

/-- The caller's vote changes the votes of the match only. -/
theorem votedWorld_view (w : World) (matchId : MatchId) (userId : UserId) :
    (w.votedWorld matchId userId).matchView matchId =
      ⟨w.row matchId, w.roster matchId, (w.votedWorld matchId userId).votes matchId⟩ := by
  rw [World.matchView, votedWorld_eq]
  rfl

/-- Every call of a request touches a match in one of these ways. -/
theorem Request.Does.touches (hdoes : request.Does h event) (matchId : MatchId) :
    request.Touches h event matchId (event.world.matchView matchId) := by
  cases hdoes with
  | silent same => exact .of_eq (same.matchView matchId)
  | create route new => exact .create route
  | @save tid id h₀ r r' past read saves m written =>
      have hid : m.id = id := by rw [written, saves.id, id_of_row read]
      by_cases hmatch : matchId = id
      · subst hmatch
        obtain ⟨t, hview⟩ := matchView_saveMatch_self h.world m
        have hplayers := keepsPlayers_saveMatch h.world m
        rw [hid] at hview hplayers
        rw [hview, written]
        subst written
        exact .save rfl hid past read saves hplayers t
      · refine .of_eq (matchView_saveMatch_of_ne (hid ▸ hmatch) fun _ => ?_)
        exact roster_own hid (by rw [written])
  | @savePlayers tid id dto route h₀ h₁ r past counted read creator editable room ps written w'
      accepted =>
      have hown : ∀ p ∈ ps, p.matchId = id := written ▸ dto.matchId_rows id
      by_cases hmatch : matchId = id
      · subst hmatch
        have hnonempty : ps ≠ [] := written ▸ dto.rows_ne_nil matchId
        obtain ⟨p, hp⟩ := List.exists_mem_of_ne_nil ps hnonempty
        have hstored := hown p hp ▸ row_of_savePlayers accepted hp
        have hframe := savePlayers_frame accepted
        have hview : w'.matchView matchId =
            ⟨h.world.row matchId, w'.roster matchId, h.world.votes matchId⟩ := by rw [hframe]; rfl
        rw [hview]
        exact .savePlayers route rfl hnonempty hown (savePlayers_registered accepted hown)
          hstored past counted read (by rw [written, List.length_map]; exact room)
      · exact .of_eq (matchView_savePlayers_of_ne accepted hown hmatch)
  | @deleteVotes tid id route h₀ r past read awaiting =>
      by_cases hmatch : matchId = id
      · subst hmatch
        rw [matchView_deleteAllConfirmations]
        exact .deleteVotes route rfl
      · exact .of_eq (matchView_deleteAllConfirmations_of_ne hmatch)
  | @vote tid id r players votes below =>
      by_cases hmatch : matchId = id
      · subst hmatch
        rw [votedWorld_view]
        exact .vote votes (votedWorld_cast _ _ votes.player) below
      · exact .of_eq (votedWorld_others matchId hmatch)
  | @confirm tid id r players votes quorum h₃ counted confirmedAt =>
      have hid : r.id = id := id_of_row votes.row
      have hrow : (h.world.votedWorld id request.user.sub).row r.id = some r := by
        rw [row_votedWorld, hid]
        exact votes.row
      by_cases hmatch : matchId = id
      · subst hmatch
        obtain ⟨t, hview⟩ := matchView_saveMatch (m := ⟨r.confirmedAtTime confirmedAt, none⟩) hid
          (hid ▸ hrow)
        rw [hview, roster_votedWorld]
        exact .confirm votes (votedWorld_cast _ _ votes.player) quorum counted confirmedAt t
      · refine .of_eq ?_
        rw [matchView_saveMatch_of_ne (hid ▸ hmatch) fun hnone => ?_,
          votedWorld_others matchId hmatch]
        exact absurd (hrow.symm.trans hnone) (Option.some_ne_none r)
  | announce route version payload => exact .of_eq ((sameTables_enqueue _ _ _).matchView matchId)
  | @overrideResult tid id dto route h₀ h₁ r reading read confirmed job payload announced m written
      entry data =>
      have hid : m.id = id := by
        rw [written]
        exact (id_of_row read : r.id = id)
      have hsame := (sameTables_appendAuditLog (h.world.saveMatch m) entry).matchView matchId
      rw [hsame]
      by_cases hmatch : matchId = id
      · subst hmatch
        obtain ⟨t, hview⟩ := matchView_saveMatch_self h.world m
        have hplayers := keepsPlayers_saveMatch h.world m
        rw [hid] at hview hplayers
        rw [hview]
        subst written
        have hpast := ((past_snoc _ _).trans reading.snoc).trans announced
        exact .overrideResult route hpast read confirmed hplayers t rfl
      · refine .of_eq (matchView_saveMatch_of_ne (hid ▸ hmatch) fun _ => ?_)
        exact roster_own hid (by rw [written])
  | recordDelete route action =>
      refine .of_eq (SameTables.matchView ?_ matchId)
      exact (sameTables_takeAuditId h.world).trans (sameTables_appendAuditLog _ _)
  | @delete tid id route admin =>
      by_cases hmatch : matchId = id
      · subst hmatch
        rw [matchView_deleteMatch]
        exact .delete route rfl
      · exact .of_eq (matchView_deleteMatch_of_ne hmatch)

/-- Every call of an input leaves a match as it is or touches it as its request may. -/
theorem Input.Does.touches {input : Input} (hdoes : input.Does h event) (matchId : MatchId) :
    event.world.matchView matchId = h.world.matchView matchId ∨
      ∃ r, input = .request r ∧ r.Touches h event matchId (event.world.matchView matchId) := by
  cases input with
  | request r => exact .inr ⟨r, rfl, Request.Does.touches hdoes matchId⟩
  | signIn user => exact .inl (Silent.matchView hdoes matchId)
  | tick elapsed => exact .inl (Silent.matchView hdoes matchId)

/-- A failed call leaves the world as it is. -/
theorem world_perform_true (op : Call) (s : Session) (w : World) :
    (system.perform true op s w).2.2 = w := by
  cases op <;> rfl

/-- A call that was made satisfied the condition for calls that go through, or it changed
nothing. -/
theorem made_cases {allow : θ → History θ → Call → Bool → Prop}
    (hmade : Made system allow h event) :
    allow event.tid h event.op false ∨ event.world = h.world := by
  obtain ⟨fails, s, s', hallow, hperform⟩ := hmade
  cases fails with
  | false => exact .inl hallow
  | true =>
      have hworld := congrArg (fun out => out.2.2) hperform
      exact .inr (hworld.symm.trans (world_perform_true event.op s h.world))

/-- A call of a run without creates, in which every call that goes through meets a condition on its
caller and the past. -/
structure Guarded (inputs : θ → Input) (condition : θ → History θ → Call → Prop) (h : History θ)
    (event : CallEvent θ) : Prop where
  does : (inputs event.tid).Does h event
  noCreate : ∀ user dto, inputs event.tid ≠ .request ⟨user, .createMatch dto⟩
  allowed : condition event.tid h event.op ∨ event.world = h.world

/-- Every call of such a run is one. -/
theorem steps_guarded [DecidableEq θ] {inputs : θ → Input} {w : World}
    {condition : θ → History θ → Call → Prop} {c : Running θ}
    (hcreate : ∀ i user dto, inputs i ≠ .request ⟨user, .createMatch dto⟩)
    (hreach : Reach system (fun tid h op fails => fails = false → condition tid h op)
      (w.begin inputs) c) :
    c.trace.Steps (Guarded inputs condition) := fun later event earlier he => by
  have hallowed := made_cases (hreach.made later event earlier he)
  refine ⟨steps_does hreach later event earlier he, hcreate event.tid, ?_⟩
  exact hallowed.imp_left fun hallow => hallow rfl

/-- The start of a run is in the past of every state it reaches. -/
theorem past_begin [DecidableEq θ] {inputs : θ → Input} {w : World}
    {allow : θ → History θ → Call → Bool → Prop} {c : Running θ}
    (hreach : Reach system allow (w.begin inputs) c) : Past ⟨w, []⟩ c.trace :=
  ⟨hreach.init.symm, List.nil_suffix⟩

/-! ## Confirming steps -/

/-- The status of a stored match. -/
def World.status (w : World) (matchId : MatchId) : Option MatchStatus :=
  (w.row matchId).map (·.status)

/-- A step confirms a match. -/
def Confirms (matchId : MatchId) (w w' : World) : Prop :=
  w'.status matchId = some .confirmed ∧ w.status matchId ≠ some .confirmed

/-- A step that keeps the row confirms nothing. -/
theorem not_confirms {w w' : World} (hrow : w'.row matchId = w.row matchId) :
    ¬ Confirms matchId w w' := by
  unfold Confirms World.status
  rw [hrow]
  exact fun h => h.2 h.1

/-- The row that a request saves is not confirmed. -/
theorem Request.Saves.not_confirmed {request : Request} {r r' : MatchRow}
    (hsaves : request.Saves matchId r r') : r'.status ≠ .confirmed := by
  cases hsaves with
  | update route creator editable => exact fun hstatus => editable (.inr hstatus)
  | startPlaying | submitResult | cancel => nofun

/-- A call that confirms a match, and neither creates nor overrides one, is a commit of
`confirm`. -/
theorem Input.Does.of_confirms {input : Input} (hdoes : input.Does h event)
    (hcreate : ∀ user dto, input ≠ .request ⟨user, .createMatch dto⟩)
    (hoverride : ∀ user matchId dto, input ≠ .request ⟨user, .adminOverrideResult matchId dto⟩)
    (hconfirms : Confirms matchId h.world event.world) :
    ∃ (request : Request) (r : MatchRow) (players : List MatchPlayerEntity) (h₃ : History θ),
      request.Votes event.tid h matchId r players ∧
      calculateQuorum players.length ≤ (event.world.votes matchId).length ∧
      Past (h₃.snoc ⟨event.tid, .findTransactionConfirmations matchId,
        .ok (event.world.votes matchId), h₃.world⟩) h ∧
      event.world.roster matchId = h.world.roster matchId := by
  rcases hdoes.touches matchId with hview | ⟨⟨user, route⟩, hinput, htouches⟩
  · exact absurd hconfirms (not_confirms (congrArg MatchView.row hview))
  generalize hv : event.world.matchView matchId = v at htouches
  have hrow : event.world.row matchId = v.row := congrArg MatchView.row hv
  cases htouches with
  | same | savePlayers | vote | deleteVotes => exact absurd hconfirms (not_confirms hrow)
  | @create dto hroute =>
      cases hroute
      exact absurd hinput (hcreate user dto)
  | @save h₀ r r' m roster op id past read saves =>
      have hstatus : some r'.status = some .confirmed := by
        simpa only [World.status, hrow, Option.map_some] using hconfirms.1
      exact absurd (Option.some.inj hstatus) saves.not_confirmed
  | @confirm r players votes voting cast quorum h₃ counted =>
      have hvotes : event.world.votes matchId = votes := congrArg MatchView.votes hv
      exact ⟨_, r, players, h₃, voting, hvotes ▸ quorum, hvotes ▸ counted,
        congrArg MatchView.roster hv⟩
  | @overrideResult dto roster hroute =>
      cases hroute
      exact absurd hinput (hoverride user matchId dto)
  | delete =>
      have hstatus := hconfirms.1
      rw [World.status, hrow] at hstatus
      cases hstatus

end FoosballApi.Matches
