import FoosballApi.Auth.RunsAlone
import FoosballApi.Auth.SingleUse

/-!
# Upserts beside changes of `is_admin`

Any number of `upsert` calls and of SQL statements that set `is_admin`, in any interleaving. An
`upsert` looks a user up and then writes all columns of the row it has read, or inserts a row, so
two first logins of one user can both insert, and a write can undo a change of `is_admin` that came
after the lookup. In the runs in which every write finds `is_admin` as it was read and every insert
finds no row for the user, all upserts succeed and `is_admin` is what it was last set to.

`Upserting` is what every call of such a run guarantees; `World.Keyed` is kept by it.
-/

namespace FoosballApi.Auth

open Calls Data Prog Trace Users
open Matches (UserId Failure)

variable {θ : Type}

/-- What runs beside one another: the upsert of a login, and SQL that sets `is_admin`. -/
inductive UserWrite where
  | upsert (azureOid email displayName : String)
  | setIsAdmin (id : UserId) (isAdmin : Bool)
  deriving DecidableEq, Repr

/-- The program of a write; an upsert returns the user. -/
def UserWrite.prog : UserWrite → Api (Option UserEntity)
  | .upsert azureOid email displayName => do
      let user ← UserRepository.upsert azureOid email displayName
      return some user
  | .setIsAdmin id isAdmin => do
      await (.setIsAdmin id isAdmin)
      return none

/-- A state of a run of such writes. -/
abbrev Writing (θ : Type) := Config θ Call Call.Result Failure Unit World (Option UserEntity)

/-- The configuration in which every write is about to start. -/
abbrev World.write (w : World) (writes : θ → UserWrite) : Writing θ :=
  Config.start () (fun i => (writes i).prog) w

/-- `is_admin` of the row with an id, and false when there is none. -/
def World.isAdminOf (w : World) (id : UserId) : Bool :=
  ((w.users.get id).map (·.isAdmin)).getD false

/-- `is_admin` after a call: a change of the row with the id sets it if the row is stored, every
other call should leave it as it was. -/
def Call.isAdminAfter (op : Call) (w : World) (id : UserId) (before : Bool) : Bool :=
  match op with
  | .setIsAdmin changed isAdmin =>
      if changed = id ∧ (w.users.get id).isSome then isAdmin else before
  | _ => before

/-- The value that the last change has set `is_admin` to; without a change it is the one of the
initial world. -/
def lastIsAdmin (id : UserId) (init : World) : List (CallEvent θ) → Bool
  | [] => init.isAdminOf id
  | event :: earlier =>
      event.op.isAdminAfter (world ⟨init, earlier⟩) id (lastIsAdmin id init earlier)

/-- A write finds `is_admin` as it was read, and an insert finds no row for the user. -/
def FindsAsRead (h : History θ) : Call → Prop
  | .saveUser user => ∀ row ∈ h.world.users.get user.id, row.isAdmin = user.isAdmin
  | .insertUser azureOid _ _ => h.world.findByAzureOid azureOid = none
  | _ => True

instance (h : History θ) : (op : Call) → Decidable (FindsAsRead h op)
  | .saveUser user =>
      inferInstanceAs (Decidable (∀ row ∈ h.world.users.get user.id, row.isAdmin = user.isAdmin))
  | .insertUser azureOid _ _ => inferInstanceAs (Decidable (h.world.findByAzureOid azureOid = none))
  | .findOne _ | .save _ | .update .. | .findUserById _ | .findByAzureOid _
  | .acquireTokenByCode .. | .randomBytes | .now | .setIsAdmin .. => .isTrue trivial

/-- An email belongs to one directory id, in the rows and in the upserts, and the rows have
different directory ids. -/
structure World.Keyed (w : World) (owner : String → String) : Prop where
  azureOid : ∀ user ∈ w.users, ∀ other ∈ w.users, user.azureOid = other.azureOid → user = other
  email : ∀ user ∈ w.users, owner user.email = user.azureOid

/-- Every upsert uses an email of its directory id. -/
def OwnEmails (owner : String → String) (writes : θ → UserWrite) : Prop :=
  ∀ i azureOid email displayName, writes i = .upsert azureOid email displayName →
    owner email = azureOid

/-- The upserts succeed, with one row for each directory id, and `is_admin` is only changed
directly. -/
structure UpsertsAtomic [DecidableEq θ] (writes : θ → UserWrite) (c : Writing θ) : Prop where
  succeeds : ∀ i azureOid email displayName, writes i = .upsert azureOid email displayName →
    ∀ failure, c.resultOf i ≠ some (.error failure)
  oneRow : ∀ i azureOid email displayName, writes i = .upsert azureOid email displayName →
    c.resultOf i ≠ none → ∃! user, user ∈ c.trace.world.users ∧ user.azureOid = azureOid
  isAdmin : ∀ user ∈ c.trace.world.users,
    user.isAdmin = lastIsAdmin user.id c.trace.init c.trace.events

/-! ## What a call does to the users -/

/-- What a call may do to the users. -/
inductive UsersAfter (op : Call) (w w' : World) : Prop
  | kept (notSet : ∀ id isAdmin, op ≠ .setIsAdmin id isAdmin) (users : w'.users = w.users)
  | saved {user : UserEntity} (save : op = .saveUser user) (after : w.saveUser user = some w')
  | inserted {azureOid email displayName : String}
      (insert : op = .insertUser azureOid email displayName)
      (after : w.saveUser (w.newUser azureOid email displayName) = some w')
  | set {id : UserId} {isAdmin : Bool} (set : op = .setIsAdmin id isAdmin)
      (after : w' = w.setIsAdmin id isAdmin)

variable {lib : Libraries} {w w' : World} {owner : String → String}

/-- A call leaves the users alone, writes or inserts one, or sets `is_admin`. -/
theorem usersAfter_exec (lib : Libraries) (op : Call) (s : Unit) (w : World) :
    UsersAfter op w (exec lib op s w).2.2 := by
  cases op with
  | saveUser user =>
      simp only [exec]
      split
      · next w' hsaved => exact .saved rfl hsaved
      · exact .kept (fun _ _ hop => by cases hop) rfl
  | insertUser azureOid email displayName =>
      simp only [exec]
      split
      · next w' hsaved => exact .inserted rfl hsaved
      · exact .kept (fun _ _ hop => by cases hop) rfl
  | setIsAdmin id isAdmin => exact .set rfl rfl
  | save token =>
      simp only [exec]
      split
      · next w' hinsert =>
          obtain ⟨-, -, -, rfl⟩ := World.insertToken_eq_some hinsert
          exact .kept (fun _ _ hop => by cases hop) rfl
      · exact .kept (fun _ _ hop => by cases hop) rfl
  | _ => exact .kept (fun _ _ hop => by cases hop) rfl

namespace World

/-- A row of its own directory id and with an email of it may be written. -/
theorem Keyed.put (hw : w.Keyed owner) {user : UserEntity}
    (hoid : ∀ other ∈ w.users, other.azureOid = user.azureOid → other.id = user.id)
    (hemail : owner user.email = user.azureOid) :
    Keyed { w with users := w.users.put user } owner := by
  constructor
  · intro first hfirst second hsecond heq
    rcases Table.mem_put.mp hfirst with rfl | ⟨hold, hne⟩ <;>
      rcases Table.mem_put.mp hsecond with rfl | ⟨hold', hne'⟩
    · rfl
    · exact absurd (hoid second hold' heq.symm) hne'
    · exact absurd (hoid first hold heq) hne
    · exact hw.azureOid first hold second hold' heq
  · intro other hother
    rcases Table.mem_put.mp hother with rfl | ⟨hother, -⟩
    · exact hemail
    · exact hw.email other hother

/-- Such a row also breaks no unique key. -/
theorem Keyed.userFits (hw : w.Keyed owner) {user : UserEntity}
    (hoid : ∀ other ∈ w.users, other.azureOid = user.azureOid → other.id = user.id)
    (hemail : owner user.email = user.azureOid) : w.userFits user := by
  intro other hother hne
  refine ⟨fun hsame => hne (hoid other hother ?_), fun hsame => hne (hoid other hother hsame)⟩
  rw [← hw.email other hother, hsame, hemail]

/-- The row that is stored under a directory id is the only one with it. -/
theorem Keyed.same_id (hw : w.Keyed owner) {old user : UserEntity} (hold : old ∈ w.users)
    (hid : old.id = user.id) (hoid : old.azureOid = user.azureOid) :
    ∀ other ∈ w.users, other.azureOid = user.azureOid → other.id = user.id := by
  intro other hother hsame
  rw [hw.azureOid other hother old hold (hsame.trans hoid.symm), hid]

/-- No row has a directory id that is not found. -/
theorem azureOid_ne_of_findByAzureOid {azureOid : String} (hnone : w.findByAzureOid azureOid = none)
    {user : UserEntity} (huser : user ∈ w.users) : user.azureOid ≠ azureOid :=
  of_decide_eq_false (Bool.eq_false_of_not_eq_true (List.find?_eq_none.mp hnone user huser))

/-- A change of `is_admin` changes nothing else of a row. -/
theorem mem_setIsAdmin {id : UserId} {isAdmin : Bool} {user : UserEntity}
    (huser : user ∈ (w.setIsAdmin id isAdmin).users) :
    ∃ old ∈ w.users, old.id = user.id ∧ old.azureOid = user.azureOid ∧ old.email = user.email := by
  let change (user : UserEntity) : UserEntity := { user with isAdmin := isAdmin }
  obtain ⟨old, hold, heq⟩ := (Table.mem_modify change fun _ => rfl).mp huser
  refine ⟨old, hold, ?_⟩
  subst heq
  split
  · exact ⟨rfl, rfl, rfl⟩
  · exact ⟨rfl, rfl, rfl⟩

/-- A change of `is_admin` loses no user. -/
theorem keepsUsers_setIsAdmin (w : World) (id : UserId) (isAdmin : Bool) :
    w.KeepsUsers (w.setIsAdmin id isAdmin) := by
  let change (user : UserEntity) : UserEntity := { user with isAdmin := isAdmin }
  intro user huser
  refine ⟨_, (Table.mem_modify change fun _ => rfl).mpr ⟨user, huser, rfl⟩, ?_⟩
  split
  · exact ⟨rfl, rfl⟩
  · exact ⟨rfl, rfl⟩

/-- A change of `is_admin` keeps the keys. -/
theorem Keyed.setIsAdmin (hw : w.Keyed owner) (id : UserId) (isAdmin : Bool) :
    (w.setIsAdmin id isAdmin).Keyed owner := by
  constructor
  · intro first hfirst second hsecond heq
    obtain ⟨old, hold, hid, hoid, -⟩ := mem_setIsAdmin hfirst
    obtain ⟨old', hold', hid', hoid', -⟩ := mem_setIsAdmin hsecond
    have hsame := hw.azureOid old hold old' hold' (hoid.trans (heq.trans hoid'.symm))
    exact Table.eq_of_key hfirst hsecond (by rw [← hid, ← hid', hsame])
  · intro user huser
    obtain ⟨old, hold, -, hoid, hemail⟩ := mem_setIsAdmin huser
    rw [← hemail, ← hoid]
    exact hw.email old hold

/-- `is_admin` after a row is written. -/
theorem isAdminOf_put (w : World) (user : UserEntity) (id : UserId) :
    isAdminOf { w with users := w.users.put user } id =
      if id = user.id then user.isAdmin else w.isAdminOf id := by
  simp only [isAdminOf, Table.get_put]
  split
  · rfl
  · rfl

/-- `is_admin` after it is set. -/
theorem isAdminOf_setIsAdmin (w : World) (changed : UserId) (isAdmin : Bool) (id : UserId) :
    (w.setIsAdmin changed isAdmin).isAdminOf id =
      if changed = id ∧ (w.users.get id).isSome then isAdmin else w.isAdminOf id := by
  let change (user : UserEntity) : UserEntity := { user with isAdmin := isAdmin }
  have hget : (w.setIsAdmin changed isAdmin).users.get id = (w.users.get id).map fun row =>
      if decide (row.id = changed) then change row else row :=
    Table.get_modify change (fun _ => rfl) id
  unfold isAdminOf
  rw [hget]
  cases hrow : w.users.get id with
  | none => simp
  | some row =>
      have hid : row.id = id := Table.key_of_get hrow
      by_cases hchanged : changed = id
      · simp [hchanged, hid, change]
      · simp [hchanged, hid, Ne.symm hchanged]

/-- `is_admin` of a stored row. -/
theorem isAdminOf_of_mem {user : UserEntity} (huser : user ∈ w.users) :
    w.isAdminOf user.id = user.isAdmin := by
  rw [isAdminOf, Table.get_eq_some.mpr ⟨huser, rfl⟩]
  rfl

end World

/-! ## What a run guarantees -/

/-- What every call of a run guarantees. -/
structure Upserting (owner : String → String) (h : History θ) (event : CallEvent θ) : Prop where
  after : UsersAfter event.op h.world event.world
  saves : ∀ user, event.op = .saveUser user → owner user.email = user.azureOid ∧
    ∃ old ∈ h.world.users, old.id = user.id ∧ old.azureOid = user.azureOid ∧
      old.isAdmin = user.isAdmin
  inserts : ∀ azureOid email displayName, event.op = .insertUser azureOid email displayName →
    owner email = azureOid ∧ h.world.findByAzureOid azureOid = none

/-- The terms of a run: nothing fails, and every write finds the row as it was read. -/
def upsertTerms (owner : String → String) : Contract θ Call Call.Result Failure World where
  init w := w.Keyed owner
  allow _ h op fails := fails = false ∧ FindsAsRead h op
  guar := Upserting owner

variable {h h' : History θ} {event : CallEvent θ} {i : θ}

/-- A call keeps the keys. -/
theorem Upserting.keyed (hupserting : Upserting owner h event) (hw : h.world.Keyed owner) :
    event.world.Keyed owner := by
  cases hupserting.after with
  | kept _ users => exact ⟨by rw [users]; exact hw.azureOid, by rw [users]; exact hw.email⟩
  | saved save after =>
      obtain ⟨hemail, old, hold, hid, hoid, -⟩ := hupserting.saves _ save
      obtain ⟨-, hworld⟩ := World.saveUser_eq_some after
      rw [hworld]
      exact hw.put (hw.same_id hold hid hoid) hemail
  | inserted insert after =>
      obtain ⟨hemail, hnone⟩ := hupserting.inserts _ _ _ insert
      obtain ⟨-, hworld⟩ := World.saveUser_eq_some after
      rw [hworld]
      refine hw.put (fun other hother hsame => ?_) hemail
      exact absurd hsame (World.azureOid_ne_of_findByAzureOid hnone hother)
  | set _ after =>
      rw [after]
      exact hw.setIsAdmin _ _

/-- A call loses no user. -/
theorem Upserting.keepsUsers (hupserting : Upserting owner h event) :
    h.world.KeepsUsers event.world := by
  cases hupserting.after with
  | kept _ users => exact fun user huser => ⟨user, users ▸ huser, rfl, rfl⟩
  | saved save after =>
      obtain ⟨-, old, hold, hid, hoid, -⟩ := hupserting.saves _ save
      refine World.keepsUsers_saveUser after fun other hother hsame => ?_
      rw [Table.eq_of_key hother hold (hsame.trans hid.symm), hoid]
  | inserted _ after =>
      exact World.keepsUsers_saveUser after fun other hother hsame =>
        absurd hsame (Nat.ne_of_lt (World.lt_nextUserId hother))
  | set _ after =>
      rw [after]
      exact World.keepsUsers_setIsAdmin _ _ _

/-- Only a change of `is_admin` changes it. -/
theorem Upserting.isAdmin (hupserting : Upserting owner h event) (id : UserId) :
    event.world.isAdminOf id = event.op.isAdminAfter h.world id (h.world.isAdminOf id) := by
  have hother : (∀ changed isAdmin, event.op ≠ .setIsAdmin changed isAdmin) →
      event.op.isAdminAfter h.world id (h.world.isAdminOf id) = h.world.isAdminOf id := by
    intro hnot
    unfold Call.isAdminAfter
    split
    · next hop => exact absurd hop (hnot _ _)
    · rfl
  cases hupserting.after with
  | kept notSet users =>
      rw [hother notSet, World.isAdminOf, users, World.isAdminOf]
  | @saved user save after =>
      rw [hother fun _ _ hop => by cases save.symm.trans hop]
      obtain ⟨-, old, hold, hid, -, hadmin⟩ := hupserting.saves _ save
      obtain ⟨-, hworld⟩ := World.saveUser_eq_some after
      rw [hworld, World.isAdminOf_put]
      split
      · next heq => rw [heq, ← hid, World.isAdminOf_of_mem hold, hadmin]
      · rfl
  | inserted insert after =>
      rw [hother fun _ _ hop => by cases insert.symm.trans hop]
      obtain ⟨-, hworld⟩ := World.saveUser_eq_some after
      rw [hworld, World.isAdminOf_put]
      split
      · next heq =>
          have hnone : h.world.users.get id = none := by
            refine Table.get_eq_none.mpr fun old hold => ?_
            rw [heq]
            exact Nat.ne_of_lt (World.lt_nextUserId hold)
          rw [World.isAdminOf, hnone]
          rfl
      · rfl
  | set set after =>
      rw [after, set, World.isAdminOf_setIsAdmin]
      rfl

/-- The keys hold after every call. -/
theorem keyed_of_valid (hvalid : (upsertTerms owner).Valid h) : h.world.Keyed owner := by
  refine hvalid.induction (I := fun h => h.world.Keyed owner) ?_ fun h₀ e _ hkeyed hupserting => ?_
  · exact fun _ hinit => hinit
  · rw [world_snoc]
    exact hupserting.keyed hkeyed

/-- `is_admin` is what it was last set to. -/
theorem isAdminOf_of_valid (hvalid : (upsertTerms owner).Valid h) (id : UserId) :
    h.world.isAdminOf id = lastIsAdmin id h.init h.events := by
  refine hvalid.induction (I := fun h => h.world.isAdminOf id = lastIsAdmin id h.init h.events)
    ?_ fun h₀ e _ hlast hupserting => ?_
  · exact fun _ _ => rfl
  · rw [world_snoc, init_snoc, events_snoc, lastIsAdmin, ← hlast]
    exact hupserting.isAdmin id

/-- What others do loses no user. -/
theorem keepsUsers_of_meanwhile
    (hmean : Meanwhile (system lib) (upsertTerms owner) i () h h') :
    h.world.KeepsUsers h'.world := by
  refine hmean.induction (I := fun h' => h.world.KeepsUsers h'.world) (.refl _) ?_
  intro h₁ e _ _ hupserting hkeeps
  rw [world_snoc]
  exact hkeeps.trans hupserting.keepsUsers

/-- A write that does not find what was read is refused or changes `is_admin`. -/
theorem breaks_of_not_findsAsRead {op : Call} (hnot : ¬ FindsAsRead h op) :
    (exec lib op () h.world).1 = .error .constraint ∨ ∃ id,
      (exec lib op () h.world).2.2.isAdminOf id ≠
        op.isAdminAfter h.world id (h.world.isAdminOf id) := by
  cases op with
  | saveUser user =>
      simp only [FindsAsRead, not_forall, Option.mem_def] at hnot
      obtain ⟨row, hrow, hadmin⟩ := hnot
      by_cases hfits : h.world.userFits user
      · refine .inr ⟨user.id, fun hkept => hadmin ?_⟩
        have hold : h.world.isAdminOf user.id = row.isAdmin := by
          rw [World.isAdminOf, hrow]
          rfl
        simp only [exec, World.saveUser_of_userFits hfits, World.isAdminOf_put,
          Call.isAdminAfter, hold] at hkept
        exact hkept.symm
      · refine .inl ?_
        simp only [exec, World.saveUser, if_neg hfits]
  | insertUser azureOid email displayName =>
      obtain ⟨row, hfound⟩ := Option.ne_none_iff_exists'.mp hnot
      have hrow : row ∈ h.world.users := Table.mem_of_first hfound
      have hnotFits : ¬ h.world.userFits (h.world.newUser azureOid email displayName) := by
        intro hfits
        exact (hfits row hrow (Nat.ne_of_lt (World.lt_nextUserId hrow))).2
          (World.azureOid_of_findByAzureOid hfound)
      refine .inl ?_
      simp only [exec, World.saveUser, if_neg hnotFits]
  | _ => exact absurd trivial hnot

/-! ## The programs keep the terms -/

/-- An upsert has succeeded, and the user is stored. -/
def Upserted {α : Type} (azureOid : String) (result : Except Failure α) (h : History θ) : Prop :=
  (∀ failure, result ≠ .error failure) ∧ ∃ user ∈ h.world.users, user.azureOid = azureOid

/-- A user that is stored stays stored. -/
theorem Upserted.snoc {α : Type} {azureOid : String} {result : Except Failure α}
    (hupserted : Upserted azureOid result h) (hupserting : Upserting owner h event) :
    Upserted azureOid result (h.snoc event) := by
  obtain ⟨hsucceeds, user, huser, hoid⟩ := hupserted
  obtain ⟨user', huser', -, hoid'⟩ := hupserting.keepsUsers user huser
  exact ⟨hsucceeds, user', huser', hoid'.trans hoid⟩

/-- A call that writes no row itself keeps the terms. -/
theorem upserting_exec (lib : Libraries) {op : Call} (hsave : ∀ user, op ≠ .saveUser user)
    (hinsert : ∀ azureOid email displayName, op ≠ .insertUser azureOid email displayName) :
    Upserting owner h ⟨i, op, (exec lib op () h.world).1, (exec lib op () h.world).2.2⟩ := by
  constructor
  · exact usersAfter_exec lib op () h.world
  · intro user hop
    exact absurd hop (hsave user)
  · intro azureOid email displayName hop
    exact absurd hop (hinsert azureOid email displayName)

/-- The save of a user who was read keeps the terms and succeeds. -/
theorem save_wp {user : UserEntity} (hstored : ∃ old ∈ h.world.users, old.id = user.id ∧
    old.azureOid = user.azureOid) (hemail : owner user.email = user.azureOid) :
    wp (system lib) (upsertTerms owner) i (await (.saveUser user)) () h
      fun result _ h => Upserted user.azureOid result h := by
  refine wp_perform fun h₁ hmean hvalid fails hallow => ?_
  obtain ⟨first, hfirst, hfirstId, hfirstOid⟩ := hstored
  obtain ⟨old, hold, hid, hoid⟩ := keepsUsers_of_meanwhile hmean first hfirst
  have hadmin : old.isAdmin = user.isAdmin :=
    hallow.2 old (Table.get_eq_some.mpr ⟨hold, hid.trans hfirstId⟩)
  have hkeyed := keyed_of_valid hvalid
  have hfits := hkeyed.userFits
    (hkeyed.same_id hold (hid.trans hfirstId) (hoid.trans hfirstOid)) hemail
  have hexec : (system lib).exec (.saveUser user) () h₁.world = _ :=
    exec_saved lib (World.saveUser_of_userFits hfits)
  rw [hallow.1, System.perform_false]
  constructor
  · refine ⟨usersAfter_exec lib _ () _, fun saved hop => ?_, fun _ _ _ hop => ?_⟩
    · cases hop
      exact ⟨hemail, old, hold, hid.trans hfirstId, hoid.trans hfirstOid, hadmin⟩
    · cases hop
  · rw [hexec]
    refine ⟨fun _ hfailed => ?_, user, Table.mem_put.mpr (.inl rfl), rfl⟩
    cases hfailed

/-- The insert of a user who was not found keeps the terms and succeeds. -/
theorem insert_wp {azureOid email displayName : String} (howner : owner email = azureOid) :
    wp (system lib) (upsertTerms owner) i (await (.insertUser azureOid email displayName)) () h
      fun result _ h => Upserted azureOid result h := by
  refine wp_perform fun h₁ _ hvalid fails hallow => ?_
  have hnew : ∀ other ∈ h₁.world.users, other.azureOid = azureOid →
      other.id = (h₁.world.newUser azureOid email displayName).id := by
    intro other hother hsame
    exact absurd hsame (World.azureOid_ne_of_findByAzureOid hallow.2 hother)
  have hfits : h₁.world.userFits (h₁.world.newUser azureOid email displayName) :=
    (keyed_of_valid hvalid).userFits hnew howner
  have hexec : (system lib).exec (.insertUser azureOid email displayName) () h₁.world = _ :=
    exec_inserted lib (World.saveUser_of_userFits hfits)
  rw [hallow.1, System.perform_false]
  constructor
  · refine ⟨usersAfter_exec lib _ () _, fun _ hop => ?_, fun _ _ _ hop => ?_⟩
    · cases hop
    · cases hop
      exact ⟨howner, hallow.2⟩
  · rw [hexec]
    refine ⟨fun _ hfailed => ?_, _, Table.mem_put.mpr (.inl rfl), rfl⟩
    cases hfailed

/-- An upsert keeps the terms and succeeds. -/
theorem upsert_wp {azureOid email displayName : String} (howner : owner email = azureOid) :
    wp (system lib) (upsertTerms owner) i (UserRepository.upsert azureOid email displayName) () h
      fun result _ h => Upserted azureOid result h := by
  refine wp_perform_bind fun h₁ _ _ fails hallow => ?_
  rw [hallow.1, System.perform_false]
  refine ⟨upserting_exec lib (fun _ hop => by cases hop) (fun _ _ _ hop => by cases hop), ?_⟩
  simp only [system, exec]
  cases hfound : h₁.world.findByAzureOid azureOid with
  | some existing =>
      have hexisting : existing ∈ h₁.world.users := Table.mem_of_first hfound
      have hread : existing.azureOid = azureOid := World.azureOid_of_findByAzureOid hfound
      subst hread
      exact save_wp ⟨existing, hexisting, rfl, rfl⟩ howner
  | none => exact insert_wp howner

/-- What a write has done when it ends. -/
def UserWrite.Done (write : UserWrite) (result : Except Failure (Option UserEntity))
    (h : History θ) : Prop :=
  ∀ azureOid email displayName, write = .upsert azureOid email displayName →
    Upserted azureOid result h

/-- Every write keeps the terms, and an upsert succeeds. -/
theorem write_wp {write : UserWrite}
    (howner : ∀ azureOid email displayName, write = .upsert azureOid email displayName →
      owner email = azureOid) :
    wp (system lib) (upsertTerms owner) i write.prog () h
      fun result _ h => write.Done result h := by
  cases write with
  | upsert azureOid email displayName =>
      refine wp_bind.mpr (wp_mono (upsert_wp (howner _ _ _ rfl)) fun result _ h' hupserted => ?_)
      obtain ⟨hsucceeds, hstored⟩ := hupserted
      cases result with
      | error failure => exact absurd rfl (hsucceeds failure)
      | ok user =>
          intro _ _ _ hwrite
          cases hwrite
          refine ⟨fun _ hfailed => ?_, hstored⟩
          cases hfailed
  | setIsAdmin id isAdmin =>
      refine wp_perform_bind fun h₁ _ _ fails hallow => ?_
      rw [hallow.1, System.perform_false]
      refine ⟨upserting_exec lib (fun _ hop => by cases hop) (fun _ _ _ hop => by cases hop), ?_⟩
      intro _ _ _ hwrite
      cases hwrite

/-- In every run in which nothing fails, every write finds `is_admin` as it was read and every
insert finds no row for its user, the upserts succeed with one row each, and only direct changes
change `is_admin`. -/
theorem upserts_atomic [DecidableEq θ] {writes : θ → UserWrite} (hw : w.Keyed owner)
    (howner : OwnEmails owner writes) {c : Writing θ}
    (hreach : Reach (system lib) (fun _ h op fails => fails = false ∧ FindsAsRead h op)
      (w.write writes) c) : UpsertsAtomic writes c := by
  have hwp : ∀ i, wp (system lib) (upsertTerms owner) i (writes i).prog () ⟨w, []⟩
      fun result _ h => (writes i).Done result h := fun i => write_wp (howner i)
  have hdone : ∀ i (result : Except Failure (Option UserEntity)) (s : Unit) (h : History θ) e,
      e.tid ≠ i → (upsertTerms owner).guar h e → (writes i).Done result h →
      (writes i).Done result (h.snoc e) := by
    intro i result _ h e _ hupserting hdone azureOid email displayName hwrite
    exact (hdone azureOid email displayName hwrite).snoc hupserting
  have hvalid : (upsertTerms owner).Valid c.trace :=
    (Contract.sound (C := upsertTerms owner) hreach rfl hw hdone hwp).1
  have hpost : ∀ {i result}, c.resultOf i = some result → (writes i).Done result c.trace :=
    fun hresult => Contract.result_post (C := upsertTerms owner) hreach rfl hw hdone hwp hresult
  constructor
  · intro i azureOid email displayName hwrite failure hresult
    exact (hpost hresult azureOid email displayName hwrite).1 failure rfl
  · intro i azureOid email displayName hwrite hresult
    obtain ⟨result, hresult⟩ := Option.ne_none_iff_exists'.mp hresult
    obtain ⟨-, user, huser, hoid⟩ := hpost hresult azureOid email displayName hwrite
    refine ⟨user, ⟨huser, hoid⟩, fun other hother => ?_⟩
    exact (keyed_of_valid hvalid).azureOid other hother.1 user huser (hother.2.trans hoid.symm)
  · intro user huser
    rw [← World.isAdminOf_of_mem huser]
    exact isAdminOf_of_valid hvalid user.id

/-! ## Runs -/

/-- The directory ids of two emails. -/
def playerOid (email : String) : String :=
  if email = "mario@foosball.test" then "oid-001" else "oid-002"

/-- `mario` signs in and becomes an admin, and `luigi` signs in for the first time. -/
def loginsAndPromotion : Fin 3 → UserWrite
  | 0 => .upsert "oid-001" "mario@foosball.test" "Mario"
  | 1 => .setIsAdmin 1 true
  | 2 => .upsert "oid-002" "luigi@foosball.test" "Luigi"

theorem oneToken_keyed : oneToken.Keyed playerOid := by
  have hmario : ∀ user ∈ oneToken.users,
      user = ⟨1, "oid-001", "mario@foosball.test", "mario", false⟩ :=
    fun user huser => List.mem_singleton.mp huser
  constructor
  · intro user huser other hother _
    rw [hmario user huser, hmario other hother]
  · intro user huser
    rw [hmario user huser]
    decide

theorem loginsAndPromotion_ownEmails : OwnEmails playerOid loginsAndPromotion := by
  intro i azureOid email displayName hwrite
  unfold loginsAndPromotion at hwrite
  split at hwrite
  · cases hwrite
    decide
  · cases hwrite
  · cases hwrite
    decide

/-- `mario` signs in once the promotion is done. -/
theorem upserts_atomic_promoted :
    ∃ c : Writing (Fin 3),
      c.resultOf 0 =
        some (.ok (some ⟨1, "oid-001", "mario@foosball.test", "Mario", true⟩)) ∧
      UpsertsAtomic loginsAndPromotion c := by
  obtain ⟨c, hreach, hmario⟩ := Reach.exists_of_execute (system plainLibraries)
    (fun _ h op fails => fails = false ∧ FindsAsRead h op) (oneToken.write loginsAndPromotion)
    [(2, false), (1, false), (0, false), (2, false), (0, false)]
    (fun c => c.resultOf 0 =
      some (.ok (some ⟨1, "oid-001", "mario@foosball.test", "Mario", true⟩))) (by decide)
  exact ⟨c, of_decide_eq_true hmario,
    upserts_atomic oneToken_keyed loginsAndPromotion_ownEmails hreach⟩

/-- A promotion between the two calls of a login is undone. -/
theorem not_upserts_atomic_promotion :
    ¬ ∀ (lib : Libraries) (owner : String → String) (writes : Fin 3 → UserWrite) (w : World)
      (c : Writing (Fin 3)), w.Keyed owner → OwnEmails owner writes →
      Reach (system lib) (fun _ _ _ fails => fails = false) (w.write writes) c →
      UpsertsAtomic writes c := by
  intro h
  obtain ⟨c, hreach, hadmin⟩ := Reach.exists_of_execute (system plainLibraries)
    (fun _ _ _ fails => fails = false) (oneToken.write loginsAndPromotion)
    [(0, false), (1, false), (0, false)]
    (fun c => (⟨1, "oid-001", "mario@foosball.test", "Mario", false⟩ : UserEntity) ∈
      c.trace.world.users.rows ∧ lastIsAdmin 1 c.trace.init c.trace.events = true) (by decide)
  obtain ⟨hrow, hlast⟩ := of_decide_eq_true hadmin
  have hatomic := h plainLibraries playerOid loginsAndPromotion oneToken c oneToken_keyed
    loginsAndPromotion_ownEmails hreach
  have hfalse := (hatomic.isAdmin _ hrow).trans hlast
  cases hfalse

end FoosballApi.Auth
