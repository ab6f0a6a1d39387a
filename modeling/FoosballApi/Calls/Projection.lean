import FoosballApi.Calls.RelyGuarantee
import FoosballApi.Calls.Similar

/-!
# Projecting a run to some of its programs

Some programs of a run are `own`, the others run beside them. If the calls of the others leave a
world that the own programs cannot tell apart, and the calls of the own programs answer alike in two
such worlds, then the run without the others is a run too (`Reach.projects`): in it the own programs
make the same calls in the same order, with the same calls failing, and end alike. Its steps meet
every condition that follows from the one of the run as far as the own calls tell.
-/

namespace FoosballApi.Calls

variable {θ ι : Type} {ρ : ι → Type} {ε τ σ α : Type}

/-- The own programs cannot tell apart two worlds that are related: their calls answer alike in
both, and the calls of the others keep them related to a world that they have not touched. -/
structure Separates (S : System ι ρ ε τ σ) (own : θ → Bool) (L : θ → Likeness ι ρ)
    (sessions : θ → τ → τ → Prop) (worlds : σ → σ → Prop) : Prop where
  held : ∀ {i s s'}, sessions i s s' → S.held s' = S.held s
  ownCall : ∀ {i op s s' w w'}, own i = true → (L i).may op → sessions i s s' → worlds w w' →
    ExceptRel ((L i).alike op) (S.exec op s w).1 (S.exec op s' w').1 ∧
      sessions i (S.exec op s w).2.1 (S.exec op s' w').2.1 ∧
        worlds (S.exec op s w).2.2 (S.exec op s' w').2.2
  otherCall : ∀ {i op s w w'}, own i = false → (L i).may op → sessions i s s → worlds w w' →
    ExceptRel ((L i).alike op) (S.exec op s w).1 (S.exec op s w).1 ∧
      sessions i (S.exec op s w).2.1 (S.exec op s w).2.1 ∧ worlds (S.exec op s w).2.2 w'

/-- Two calls of one caller with results that are alike. -/
inductive Event.Alike (L : θ → Likeness ι ρ) : Event θ ι ρ ε σ → Event θ ι ρ ε σ → Prop where
  | intro {tid : θ} {op : ι} {result result' : Except ε (ρ op)} {w w' : σ}
      (results : ExceptRel ((L tid).alike op) result result') :
      Event.Alike L ⟨tid, op, result, w⟩ ⟨tid, op, result', w'⟩

/-- Two states of a program in which it goes on alike. -/
structure Thread.Alike (L : Likeness ι ρ) (post : α → α → Prop) (sessions : τ → τ → Prop)
    (t t' : Thread ι ρ ε τ α) : Prop where
  session : sessions t.session t'.session
  prog : t.prog.Similar L post t'.prog

/-- A state of a run, and the state without the programs of others. -/
structure Config.Projects (own : θ → Bool) (L : θ → Likeness ι ρ) (post : α → α → Prop)
    (sessions : θ → τ → τ → Prop) (worlds : σ → σ → Prop) (c c' : Config θ ι ρ ε τ σ α) :
    Prop where
  world : worlds c.trace.world c'.trace.world
  calls : List.Forall₂ (Event.Alike L) (c.trace.events.filter fun e => own e.tid) c'.trace.events
  lock : c'.lock = c.lock.filter own
  owns : ∀ i, own i = true → (c.threads i).Alike (L i) post (sessions i) (c'.threads i)
  others : ∀ i, own i = false → (c.threads i).Alike (L i) post (sessions i) (c.threads i)

variable {S : System ι ρ ε τ σ} {own : θ → Bool} {L : θ → Likeness ι ρ} {post : α → α → Prop}
  {sessions : θ → τ → τ → Prop} {worlds : σ → σ → Prop} {c c' : Config θ ι ρ ε τ σ α}

/-- An own program that has ended has ended alike. -/
theorem Config.Projects.result (h : c.Projects own L post sessions worlds c') {i : θ}
    (hown : own i = true) {result : Except ε α} (hresult : c.resultOf i = some result) :
    ∃ result', c'.resultOf i = some result' ∧ ExceptRel post result result' := by
  have hprog := (h.owns i hown).prog
  unfold Config.resultOf at hresult ⊢
  generalize (c.threads i).prog = prog at hprog hresult
  generalize (c'.threads i).prog = prog' at hprog ⊢
  cases hprog with
  | pure related =>
      cases hresult
      exact ⟨_, rfl, .ok related⟩
  | throw error =>
      cases hresult
      exact ⟨_, rfl, .error error⟩
  | call => cases hresult

/-- What a program does next, whether its call fails or not. -/
theorem Prog.Similar.next {likeness : Likeness ι ρ} {op : ι} {rest : Except ε (ρ op) → Prog ι ρ ε α}
    {prog' : Prog ι ρ ε α} (h : (Prog.call op rest).Similar likeness post prog') :
    likeness.may op ∧ ∃ rest', prog' = .call op rest' ∧
      ∀ result result', ExceptRel (likeness.alike op) result result' →
        (rest result).Similar likeness post (rest' result') := by
  cases h with
  | @call _ _ rest' may value error =>
      refine ⟨may, rest', rfl, fun result result' hresult => ?_⟩
      cases hresult with
      | ok related => exact value _ _ related
      | error e => exact error e

namespace Separates

/-- An own call fails in both worlds, or is carried out in both. -/
theorem ownPerform (h : Separates S own L sessions worlds) {i : θ} {op : ι} {s s' : τ} {w w' : σ}
    (hown : own i = true) (hmay : (L i).may op) (hs : sessions i s s') (hw : worlds w w')
    (fails : Bool) :
    ExceptRel ((L i).alike op) (S.perform fails op s w).1 (S.perform fails op s' w').1 ∧
      sessions i (S.perform fails op s w).2.1 (S.perform fails op s' w').2.1 ∧
        worlds (S.perform fails op s w).2.2 (S.perform fails op s' w').2.2 :=
  Prog.Similar.perform_rel (R := fun s w s' w' => sessions i s s' ∧ worlds w w') ⟨hs, hw⟩
    (h.ownCall hown hmay hs hw) fails

/-- A call of another program fails, or is carried out. -/
theorem otherPerform (h : Separates S own L sessions worlds) {i : θ} {op : ι} {s : τ} {w w' : σ}
    (hother : own i = false) (hmay : (L i).may op) (hs : sessions i s s) (hw : worlds w w')
    (fails : Bool) :
    ExceptRel ((L i).alike op) (S.perform fails op s w).1 (S.perform fails op s w).1 ∧
      sessions i (S.perform fails op s w).2.1 (S.perform fails op s w).2.1 ∧
        worlds (S.perform fails op s w).2.2 w' := by
  rcases System.perform_cases (S := S) fails op s w with hdone | ⟨error, -, hfails⟩
  · rw [hdone]
    exact h.otherCall hother hmay hs hw
  · rw [hfails]
    exact ⟨.error error, hs, hw⟩

end Separates

variable [DecidableEq θ] {allow : θ → Trace θ ι ρ ε σ → ι → Bool → Prop}

/-- A program inside its exclusive section holds the lock. -/
theorem Reach.holder {session : τ} {progs : θ → Prog ι ρ ε α} {world : σ}
    (hreach : Reach S allow (Config.start session progs world) c)
    (hheld : S.held session = false) (i : θ) (hi : S.held (c.threads i).session = true) :
    c.lock = some i := by
  let C : Contract θ ι ρ ε σ := ⟨fun _ => True, allow, fun _ _ => True⟩
  have hsafe : ∀ i, wp S C i (progs i) session ⟨world, []⟩ fun _ _ _ => True := fun i =>
    safe_of_issues (Prog.issues_of_forall (fun _ => trivial) (progs i)) fun _ _ _ _ _ _ _ => trivial
  exact (C.sound hreach hheld trivial (fun _ _ _ _ _ _ _ h => h) hsafe).2.1 i hi

/-- The lock after a step, seen by the own programs. -/
theorem filter_lock (own : θ → Bool) (held : Bool) (tid : θ) (lock : Option θ)
    (hown : own tid = true) :
    (if held then some tid else if lock = some tid then none else lock).filter own =
      if held then some tid else if lock.filter own = some tid then none else lock.filter own := by
  cases held with
  | true => simp [Option.filter, hown]
  | false =>
      cases lock with
      | none => simp
      | some holder =>
          by_cases hholder : holder = tid
          · simp [hholder, Option.filter, hown]
          · by_cases hown' : own holder = true <;> simp [Option.filter, hholder, hown']

/-- A step of an own program is a step of the projected run. -/
theorem Config.Projects.ownStep (h : c.Projects own L post sessions worlds c')
    (hsep : Separates S own L sessions worlds) {tid : θ} (fails : Bool) {op : ι}
    {rest : Except ε (ρ op) → Prog ι ρ ε α} (hown : own tid = true)
    (hprog : (c.threads tid).prog = .call op rest) :
    ∃ rest', (c'.threads tid).prog = .call op rest' ∧
      (c.advance S tid fails op rest).Projects own L post sessions worlds
        (c'.advance S tid fails op rest') := by
  have halike := h.owns tid hown
  have hsimilar := halike.prog
  rw [hprog] at hsimilar
  obtain ⟨hmay, rest', hprog', hrest⟩ := hsimilar.next
  obtain ⟨hresult, hsession, hworld⟩ :=
    hsep.ownPerform hown hmay halike.session h.world fails
  refine ⟨rest', hprog', hworld, ?_, ?_, fun i hi => ?_, fun i hi => ?_⟩
  · show List.Forall₂ _ ((_ :: c.trace.events).filter _) _
    rw [List.filter_cons_of_pos (by exact hown)]
    exact .cons (.intro hresult) h.calls
  · show (if _ then _ else _) = Option.filter own (if _ then _ else _)
    rw [filter_lock own _ tid _ hown, h.lock, hsep.held hsession]
  · by_cases htid : i = tid
    · subst htid
      simp only [Config.advance, Function.update_self]
      exact ⟨hsession, hrest _ _ hresult⟩
    · simp only [Config.advance, Function.update_of_ne htid]
      exact h.owns i hi
  · have htid : i ≠ tid := fun heq => by simp [heq, hown] at hi
    simp only [Config.advance, Function.update_of_ne htid]
    exact h.others i hi

/-- A step of another program is none of the projected run. -/
theorem Config.Projects.otherStep (h : c.Projects own L post sessions worlds c')
    (hsep : Separates S own L sessions worlds) {tid : θ} (fails : Bool) {op : ι}
    {rest : Except ε (ρ op) → Prog ι ρ ε α} (hother : own tid = false)
    (hprog : (c.threads tid).prog = .call op rest)
    (hfree : S.held (S.perform fails op (c.threads tid).session c.trace.world).2.1 = true →
      c.lock.filter own = none) :
    (c.advance S tid fails op rest).Projects own L post sessions worlds c' := by
  have halike := h.others tid hother
  have hsimilar := halike.prog
  rw [hprog] at hsimilar
  obtain ⟨hmay, rest', hsame, hrest⟩ := hsimilar.next
  obtain rfl : rest = rest' := by cases hsame; rfl
  obtain ⟨hresult, hsession, hworld⟩ :=
    hsep.otherPerform hother hmay halike.session h.world fails
  refine ⟨hworld, ?_, ?_, fun i hi => ?_, fun i hi => ?_⟩
  · show List.Forall₂ _ ((_ :: c.trace.events).filter _) _
    rw [List.filter_cons_of_neg (by simp [hother])]
    exact h.calls
  · show c'.lock = Option.filter own (if _ then _ else _)
    rw [h.lock]
    split
    · next hheld => rw [hfree hheld]; simp [Option.filter, hother]
    · split
      · next hlock => rw [hlock]; simp [Option.filter, hother]
      · rfl
  · have htid : i ≠ tid := fun heq => by simp [heq, hother] at hi
    simp only [Config.advance, Function.update_of_ne htid]
    exact h.owns i hi
  · by_cases htid : i = tid
    · subst htid
      simp only [Config.advance, Function.update_self]
      exact ⟨hsession, hrest _ _ hresult⟩
    · simp only [Config.advance, Function.update_of_ne htid]
      exact h.others i hi

/-- The own programs of every run make a run. A condition on the own calls holds there if it follows
from the one in the run, as far as the own calls tell. -/
theorem Reach.projects (hsep : Separates S own L sessions worlds) {session : τ}
    {progs : θ → Prog ι ρ ε α} {world world' : σ} (hheld : S.held session = false)
    (hsessions : ∀ i, sessions i session session) (hworld : worlds world world')
    (hprogs : ∀ i, (progs i).Similar (L i) post (progs i))
    (hreach : Reach S allow (Config.start session progs world) c)
    {allow' : θ → Trace θ ι ρ ε σ → ι → Bool → Prop}
    (hallow : ∀ i h h' op fails, own i = true →
      List.Forall₂ (Event.Alike L) (h.events.filter fun e => own e.tid) h'.events →
        allow i h op fails → allow' i h' op fails) :
    ∃ c', Reach S (fun i h op fails => own i = true ∧ allow' i h op fails)
        (Config.start session progs world') c' ∧ c.Projects own L post sessions worlds c' := by
  induction hreach with
  | start =>
      exact ⟨_, .start, hworld, .nil, rfl, fun i _ => ⟨hsessions i, hprogs i⟩,
        fun i _ => ⟨hsessions i, hprogs i⟩⟩
  | @step c tid fails op rest hbefore hmay hprog hstep ih =>
      obtain ⟨c', hreach', hprojects⟩ := ih
      cases hown : own tid with
      | true =>
          obtain ⟨rest', hprog', hnext⟩ := hprojects.ownStep hsep fails hown hprog
          have hstep' := hallow _ _ _ _ _ hown hprojects.calls hstep
          refine ⟨_, .step hreach' ?_ hprog' ⟨hown, hstep'⟩, hnext⟩
          unfold Config.MayIssue at hmay ⊢
          rw [hprojects.lock]
          rcases hmay with hnone | hself | hwaits
          · exact .inl (by rw [hnone]; rfl)
          · exact .inr (.inl (by rw [hself]; simp [Option.filter, hown]))
          · exact .inr (.inr hwaits)
      | false =>
          refine ⟨c', hreach', hprojects.otherStep hsep fails hown hprog fun hentered => ?_⟩
          -- Whoever is inside its section after the call holds the lock, or has just taken it.
          have hlock : c.lock = none ∨ c.lock = some tid := by
            rcases S.perform_enter hentered with hinside | hwaits
            · exact .inr (hbefore.holder hheld tid hinside)
            · rcases hmay with hnone | hself | hnot
              · exact .inl hnone
              · exact .inr hself
              · rw [hnot] at hwaits
                cases hwaits
          rcases hlock with hnone | hself
          · rw [hnone]
            rfl
          · rw [hself]
            simp [Option.filter, hown]

end FoosballApi.Calls
