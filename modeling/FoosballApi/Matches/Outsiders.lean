import FoosballApi.Matches.RequestScope
import FoosballApi.Matches.ServiceSpecs

/-!
# Outsiders cannot influence a match

A user who is neither the creator nor a player of a match, and no admin, leaves the world as it was
with every request about the match (`Request.outsider_outcome`). A request about another match makes
no difference to this one. So a run and the run without the user's requests, step by step, agree on
the match, and everybody else gets the same answers about it
(`outsider_without_influence`).

Audit rows are compared without their ids: the ids are drawn from one counter for all matches, and
by playing elsewhere an outsider can change which of them is next.
-/

namespace FoosballApi.Matches

open Calls Events

/-- A user has no part in a match: neither its creator nor one of its players. -/
structure Outsider (w : World) (matchId : MatchId) (user : UserId) : Prop where
  notCreator : ∀ r ∈ w.row matchId, r.createdBy ≠ some user
  notPlayer : ∀ p ∈ w.roster matchId, p.userId ≠ user

theorem outsider_iff {w : World} {matchId : MatchId} {user : UserId} :
    ((∀ r ∈ w.row matchId, r.createdBy ≠ some user) ∧
      ∀ p ∈ w.roster matchId, p.userId ≠ user) ↔ Outsider w matchId user :=
  ⟨fun h => ⟨h.1, h.2⟩, fun h => ⟨h.notCreator, h.notPlayer⟩⟩

instance (w : World) (matchId : MatchId) (user : UserId) : Decidable (Outsider w matchId user) :=
  decidable_of_iff _ outsider_iff

/-- A step is a request of the user. -/
def Input.madeBy (user : UserId) : Input → Bool
  | .request r => r.user.sub = user
  | .signIn _ | .tick _ => false

/-- A run without the requests of a user. -/
def without (user : UserId) (inputs : List Input) : List Input :=
  inputs.filter fun input => !input.madeBy user

/-- When the step is a request of the user, the user is an outsider of the match and no admin. -/
def ByOutsider (matchId : MatchId) (user : UserId) (w : World) (input : Input) : Prop :=
  ∀ r, input = .request r → r.user.sub = user →
    r.user.isAdmin = false ∧ Outsider w matchId user

/-- The answer of a step to somebody else's request about the match, with the ids of audit rows
blanked. -/
def Input.answersAbout (matchId : MatchId) (user : UserId) (w : World) :
    Input → List (Except Failure Response)
  | .request r =>
      if r.route.target = some matchId ∧ r.user.sub ≠ user then
        [(r.outcome w).result.map Response.withoutIds]
      else []
  | .signIn _ | .tick _ => []

/-- The jobs a step adds as a request about the match. -/
def Input.jobsAbout (matchId : MatchId) (w : World) : Input → List (Queue × EventEnvelope)
  | .request r => if r.route.target = some matchId then r.jobs w else []
  | .signIn _ | .tick _ => []

/-- What the steps of a run show, in order. -/
def World.observed {α : Type} (observe : World → Input → List α) : World → List Input → List α
  | _, [] => []
  | w, input :: inputs => observe w input ++ observed observe (input.after w) inputs

/-- The jobs of a queue that name a match. -/
def World.jobsNaming (w : World) (matchId : MatchId) (queue : Queue) : List EventEnvelope :=
  (w.queued queue).filter fun job => Payload.subject job.payload = some matchId

variable {matchId : MatchId} {user : UserId} {w w' : World} {r : Request} {input : Input}
  {inputs : List Input}

/-! ## The requests of an outsider -/

/-- A request of an outsider about the match changes nothing. -/
theorem Request.outsider_outcome (htarget : r.route.target = some matchId)
    (hadmin : r.user.isAdmin = false) (houtside : Outsider w matchId r.user.sub) :
    (r.outcome w).world = w := by
  have hleaves := r.leaves w
  generalize (r.outcome w).world = w' at hleaves ⊢
  cases hleaves with
  | same => rfl
  | create => cases htarget
  | update row creator | addPlayers row creator | submitResult row creator | cancel row creator =>
      cases htarget
      exact absurd creator (houtside.notCreator _ row)
  | vote confirmable | confirm confirmable =>
      cases htarget
      obtain ⟨p, hp, huser⟩ := List.mem_map.mp confirmable.player
      exact absurd huser (houtside.notPlayer p hp)
  | overrideResult admin | delete admin | adminDelete admin => cases hadmin.symm.trans admin

/-- The requests other than `createMatch` are about a match. -/
theorem Route.target_of_ne (hcreate : ∀ dto, r.route ≠ .createMatch dto) :
    ∃ target, r.route.target = some target := by
  obtain ⟨user, route⟩ := r
  cases route with
  | createMatch dto => exact absurd rfl (hcreate dto)
  | _ => exact ⟨_, rfl⟩

/-- A request that changes nothing adds no jobs. -/
theorem Request.jobs_of_world (hworld : (r.outcome w).world = w) : r.jobs w = [] := by
  refine List.eq_nil_iff_forall_not_mem.mpr fun ⟨queue, job⟩ hjob => ?_
  have hqueue := r.queued_outcome w queue
  rw [hworld] at hqueue
  have hnone : jobsOf queue (r.jobs w) = [] := List.self_eq_append_right.mp hqueue
  have hmem : job ∈ jobsOf queue (r.jobs w) := mem_jobsOf.mpr hjob
  rw [hnone] at hmem
  cases hmem

/-- The jobs a request adds name the match the request is about, if any. -/
theorem Request.target_of_job {queue : Queue} {job : EventEnvelope}
    (hjob : (queue, job) ∈ r.jobs w) (hnames : Payload.subject job.payload = some matchId) :
    r.route.target = some matchId := by
  obtain ⟨op, hop, hadds⟩ := List.mem_flatMap.mp hjob
  rw [List.mem_reverse] at hop
  cases htarget : r.route.target with
  | some target =>
      have habout : op.About target :=
        (Request.outcome_frame htarget (Nat.succ_ne_self target) w).2 op hop
      cases op with
      | add queue' job' =>
          cases List.mem_singleton.mp hadds
          rw [habout matchId hnames]
      | _ => cases hadds
  | none =>
      -- `createMatch` makes a single call, which adds no job.
      obtain ⟨actor, route⟩ := r
      cases route with
      | createMatch dto =>
          cases List.mem_singleton.mp hop
          cases hadds
      | _ => cases htarget

/-! ## One step -/

/-- A step that is kept, in two worlds that agree on the match: the worlds agree after it, and it
shows the same. -/
theorem Input.kept_agree (user : UserId)
    (hcreate : ∀ actor dto, input ≠ .request ⟨actor, .createMatch dto⟩)
    (h : AgreeOn matchId w w') :
    AgreeOn matchId (input.after w) (input.after w') ∧
      input.answersAbout matchId user w' = input.answersAbout matchId user w ∧
        input.jobsAbout matchId w' = input.jobsAbout matchId w := by
  cases input with
  | signIn row =>
      refine ⟨⟨h.view, ?_, h.clock, h.auditRows⟩, rfl, rfl⟩
      show w'.users.put row = w.users.put row
      rw [h.users]
  | tick elapsed =>
      refine ⟨⟨h.view, h.users, ?_, h.auditRows⟩, rfl, rfl⟩
      show w'.clock + elapsed = w.clock + elapsed
      rw [h.clock]
  | request r =>
      obtain ⟨target, htarget⟩ := Route.target_of_ne (r := r) fun dto hroute =>
        hcreate r.user dto (by rw [← hroute])
      by_cases hsame : target = matchId
      · subst hsame
        obtain ⟨hanswer, hcalls, hworld⟩ := Request.outcome_agree htarget h
        refine ⟨hworld, ?_, ?_⟩
        · rw [answersAbout, answersAbout, hanswer]
        · rw [jobsAbout, jobsAbout, Request.jobs, Request.jobs, hcalls]
      · have hother : ¬ r.route.target = some matchId := fun hmatch =>
          hsame (Option.some.inj (htarget.symm.trans hmatch))
        refine ⟨?_, ?_, ?_⟩
        · have hframe := fun v => (Request.outcome_frame htarget (Ne.symm hsame) v).1
          exact ((hframe w).symm.trans h).trans (hframe w')
        · rw [answersAbout, answersAbout, if_neg fun hboth => hother hboth.1,
            if_neg fun hboth => hother hboth.1]
        · rw [jobsAbout, jobsAbout, if_neg hother, if_neg hother]

/-- A step that is removed makes no difference to the match and shows nothing. -/
theorem Input.removed_agree (hcreate : ∀ actor dto, input ≠ .request ⟨actor, .createMatch dto⟩)
    (houtside : ByOutsider matchId user w input) (hmade : input.madeBy user = true) :
    AgreeOn matchId w (input.after w) ∧ input.answersAbout matchId user w = [] ∧
      input.jobsAbout matchId w = [] := by
  cases input with
  | signIn | tick => cases hmade
  | request r =>
      have hmine : r.user.sub = user := of_decide_eq_true hmade
      obtain ⟨target, htarget⟩ := Route.target_of_ne (r := r) fun dto hroute =>
        hcreate r.user dto (by rw [← hroute])
      obtain ⟨hadmin, houtside⟩ := houtside r rfl hmine
      have hanswers : answersAbout matchId user w (.request r) = [] :=
        if_neg fun hboth => hboth.2 hmine
      by_cases hsame : target = matchId
      · subst hsame
        have hworld := Request.outsider_outcome htarget hadmin (hmine ▸ houtside)
        refine ⟨?_, hanswers, ?_⟩
        · rw [after, hworld]
          exact .refl target w
        · rw [jobsAbout, if_pos htarget, Request.jobs_of_world hworld]
      · have hother : ¬ r.route.target = some matchId := fun hmatch =>
          hsame (Option.some.inj (htarget.symm.trans hmatch))
        exact ⟨(Request.outcome_frame htarget (Ne.symm hsame) w).1, hanswers, if_neg hother⟩

/-! ## Runs -/

/-- A run, and the run without the requests of an outsider from a world that agrees on the match,
end in worlds that agree on it and show the same. -/
theorem run_without_agree
    (hcreate : ∀ actor dto, Input.request ⟨actor, .createMatch dto⟩ ∉ inputs)
    (houtside : w.Steps (ByOutsider matchId user) inputs) (h : AgreeOn matchId w w') :
    AgreeOn matchId (w.run inputs) (w'.run (without user inputs)) ∧
      w'.observed (Input.answersAbout matchId user) (without user inputs) =
        w.observed (Input.answersAbout matchId user) inputs ∧
      w'.observed (Input.jobsAbout matchId) (without user inputs) =
        w.observed (Input.jobsAbout matchId) inputs := by
  induction inputs generalizing w w' with
  | nil => exact ⟨h, rfl, rfl⟩
  | cons input inputs ih =>
      have hfirst : ∀ actor dto, input ≠ .request ⟨actor, .createMatch dto⟩ :=
        fun actor dto heq => hcreate actor dto (heq ▸ List.mem_cons_self)
      have hrest : ∀ actor dto, Input.request ⟨actor, .createMatch dto⟩ ∉ inputs :=
        fun actor dto hmem => hcreate actor dto (List.mem_cons_of_mem _ hmem)
      cases hmade : input.madeBy user with
      | true =>
          have hwithout : without user (input :: inputs) = without user inputs :=
            List.filter_cons_of_neg (by simp [hmade])
          obtain ⟨hstep, hanswers, hjobs⟩ := Input.removed_agree hfirst houtside.1 hmade
          rw [hwithout, World.observed, World.observed, hanswers, hjobs]
          exact ih hrest houtside.2 (hstep.symm.trans h)
      | false =>
          have hwithout : without user (input :: inputs) = input :: without user inputs :=
            List.filter_cons_of_pos (by simp [hmade])
          obtain ⟨hstep, hanswers, hjobs⟩ := Input.kept_agree user hfirst h
          obtain ⟨hworld, hanswers', hjobs'⟩ := ih hrest houtside.2 hstep
          rw [hwithout, World.observed, World.observed, World.observed, World.observed, hanswers,
            hjobs, hanswers', hjobs']
          exact ⟨hworld, rfl, rfl⟩

/-- The jobs that name the match are those the requests about it have added. -/
theorem jobsNaming_run (queue : Queue) :
    (w.run inputs).jobsNaming matchId queue = w.jobsNaming matchId queue ++
      (jobsOf queue (w.observed (Input.jobsAbout matchId) inputs)).filter
        fun job => Payload.subject job.payload = some matchId := by
  have hstep : ∀ (w : World) (input : Input), (input.after w).jobsNaming matchId queue =
      w.jobsNaming matchId queue ++ (jobsOf queue (input.jobsAbout matchId w)).filter
        fun job => Payload.subject job.payload = some matchId := by
    intro w input
    cases input with
    | signIn row => cases queue <;> exact (List.append_nil _).symm
    | tick elapsed => cases queue <;> exact (List.append_nil _).symm
    | request r =>
        rw [World.jobsNaming, Input.after, r.queued_outcome, List.filter_append, World.jobsNaming,
          Input.jobsAbout]
        split
        · rfl
        · next hother =>
            congr 1
            refine List.filter_eq_nil_iff.mpr fun job hjob hnames => hother ?_
            exact r.target_of_job (mem_jobsOf.mp hjob) (of_decide_eq_true hnames)
  induction inputs generalizing w with
  | nil => exact (List.append_nil _).symm
  | cons input inputs ih =>
      rw [World.run_cons, ih, hstep, World.observed, jobsOf_append, List.filter_append,
        List.append_assoc]

/-- When the requests of a user, who is an outsider of the match and no admin, are left out of a
run, the match ends with the same row, players, votes and audit rows, the same jobs name it, the requests
about it add the same jobs, and everybody else gets the same answers about it. -/
theorem outsider_without_influence {matchId : MatchId} {user : UserId} {w : World}
    {inputs : List Input}
    (hcreate : ∀ actor dto, Input.request ⟨actor, .createMatch dto⟩ ∉ inputs)
    (houtside : w.Steps (ByOutsider matchId user) inputs) :
    let reduced := without user inputs
    ((w.run reduced).row matchId = (w.run inputs).row matchId ∧
      (w.run reduced).roster matchId = (w.run inputs).roster matchId ∧
      (w.run reduced).votes matchId = (w.run inputs).votes matchId ∧
      (w.run reduced).auditRows matchId = (w.run inputs).auditRows matchId) ∧
    (∀ queue, (w.run reduced).jobsNaming matchId queue = (w.run inputs).jobsNaming matchId queue) ∧
    w.observed (Input.jobsAbout matchId) reduced = w.observed (Input.jobsAbout matchId) inputs ∧
    w.observed (Input.answersAbout matchId user) reduced =
      w.observed (Input.answersAbout matchId user) inputs := by
  obtain ⟨hworld, hanswers, hjobs⟩ := run_without_agree hcreate houtside (.refl matchId w)
  refine ⟨⟨hworld.row, hworld.roster, hworld.votes, hworld.auditRows⟩, fun queue => ?_, hjobs,
    hanswers⟩
  rw [jobsNaming_run, jobsNaming_run, hjobs]

/-! ## A run of three users -/

theorem admin_sub_pos : 0 < admin.sub := Nat.succ_pos 2

/-- Seats for `rival` and `admin` in another match. -/
def otherTeams : AddPlayersDto :=
  ⟨[playerDto 2 .A 0 Nat.two_pos, playerDto admin.sub .B 0 admin_sub_pos],
    Nat.succ_le_succ (Nat.zero_le 1), Nat.succ_le_succ (Nat.succ_le_succ (Nat.zero_le 6))⟩

/-- The duel waits for the vote of `mario`; `rival` and `admin` have confirmed a match of their
own. -/
def twoMatches : World :=
  (World.withUsers signedIn).run (duel ++
    [ .request ⟨rival, .confirmResult 1⟩
    , .request ⟨rival, .createMatch ⟨some .oneVsOne⟩⟩
    , .request ⟨rival, .addPlayers 2 otherTeams⟩
    , .request ⟨rival, .submitResult 2 ⟨2, 0⟩⟩
    , .request ⟨rival, .confirmResult 2⟩
    , .request ⟨admin, .confirmResult 2⟩ ])

/-- An override to a result of nil to one. -/
def nilToOne : AdminOverrideResultDto := ⟨0, 1, none, no_reason_length⟩

/-- `mario` confirms the duel, and `admin` overrides both results. -/
def bothOverridden : List Input :=
  [ .request ⟨mario, .confirmResult 1⟩
  , .request ⟨admin, .adminOverrideResult 1 nilToOne⟩
  , .request ⟨admin, .adminOverrideResult 2 nilToOne⟩ ]

theorem row_twoMatches : twoMatches.row 2 =
    some ⟨2, some 2, .oneVsOne, .confirmed, some 2, some 0, 0, 0, some 0, some 0⟩ := by decide

theorem bothOverridden_noCreate (actor : JwtPayload) (dto : CreateMatchDto) :
    Input.request ⟨actor, .createMatch dto⟩ ∉ bothOverridden := by
  simp [bothOverridden]

/-- `mario`'s vote in the duel makes no difference to the other match. -/
theorem outsider_without_influence_twoMatches :
    twoMatches.Steps (ByOutsider 2 1) bothOverridden ∧
      (twoMatches.run (without 1 bothOverridden)).row 2 =
        (twoMatches.run bothOverridden).row 2 := by
  have houtside : twoMatches.Steps (ByOutsider 2 1) bothOverridden := by
    refine ⟨?_, ?_, ?_, trivial⟩
    · rintro r hr -
      cases hr
      exact ⟨rfl, by decide⟩
    · rintro r hr hmine
      cases hr
      cases hmine
    · rintro r hr hmine
      cases hr
      cases hmine
  exact ⟨houtside, (outsider_without_influence bothOverridden_noCreate houtside).1.1⟩

/-- The ids of the audit rows are not the same: without `mario`'s vote the duel is not overridden,
and the override of the other match is the first to draw an id. -/
theorem not_audit_rows_without_influence :
    ¬ ∀ (matchId : MatchId) (user : UserId) (w : World) (inputs : List Input) (r : MatchRow),
      w.row matchId = some r →
      (∀ actor dto, Input.request ⟨actor, .createMatch dto⟩ ∉ inputs) →
      (∀ request, Input.request request ∈ inputs → request.user.sub = user →
        request.user.isAdmin = false) →
      (∀ earlier ∈ inputs.inits, Outsider (w.run earlier) matchId user) →
      (w.run (without user inputs)).auditLogs.filter (·.entityId = matchId) =
        (w.run inputs).auditLogs.filter (·.entityId = matchId) := by
  intro hsame
  have hadmin : ∀ request, Input.request request ∈ bothOverridden → request.user.sub = 1 →
      request.user.isAdmin = false := by
    intro request hrequest huser
    simp only [bothOverridden, List.mem_cons, List.not_mem_nil, or_false, Input.request.injEq]
      at hrequest
    rcases hrequest with rfl | rfl | rfl
    · rfl
    · cases huser
    · cases huser
  have hrows := hsame 2 1 twoMatches bothOverridden _ row_twoMatches bothOverridden_noCreate hadmin
    (by decide)
  have hids : ((twoMatches.run (without 1 bothOverridden)).auditLogs.filter
      (·.entityId = 2)).map (·.id) = [1] := by decide
  rw [hrows] at hids
  revert hids
  decide

end FoosballApi.Matches
