import Mathlib.Data.Set.Finite.Basic
import FoosballApi.Matches.CursorZone

/-!
# Walking through the listed matches

A walk starts without a cursor and follows `nextCursor` until it is null; between two of its
requests the stored rows change in any way that keeps the `created_at` of an id. The requests of a
walk are a walk of `Data/Keyset.lean` over the rows its filters admit (`walk_eq`).
-/

namespace FoosballApi.Matches

open Calls

variable (codec : CursorCodec) (params : ListParams) (worlds : Nat → World)

/-- The answer to one page request. -/
def pageRequest (cursor : Option String) (w : World) : Option PaginatedMatches :=
  ((MatchRepository.findPaginated codec { params with cursor := cursor }).eval system
    Prog.noFaults [] {} w).result.toOption

/-- The `n`th page of a walk; `worlds n` is the state its query reads. -/
def walk : Nat → Option PaginatedMatches
  | 0 => pageRequest codec params none (worlds 0)
  | n + 1 => (walk n).bind fun page => page.nextCursor.bind fun cursor =>
      pageRequest codec params (some cursor) (worlds (n + 1))

/-- The rows of the first `n` pages of a walk. -/
def walked : Nat → List MatchEntity
  | 0 => []
  | n + 1 => walked n ++ ((walk codec params worlds n).map (·.data)).getD []

/-- A row comes after another one in the order of the listing. -/
def ListedAfter (m r : MatchRow) : Prop :=
  r.createdAt < m.createdAt ∨ r.createdAt = m.createdAt ∧ r.id < m.id

/-- A row is stored and satisfies the filters. -/
def World.Lists (w : World) (params : ListParams) (r : MatchRow) : Prop :=
  w.row r.id = some r ∧ params.Admits r

/-- What a walk through changing rows returns. -/
structure CompleteWalk : Prop where
  /-- No row is returned twice. -/
  nodup : ∀ n, ((walked codec params worlds n).map (·.id)).Nodup
  /-- The rows are in strictly decreasing order, within and across pages. -/
  ordered : ∀ n, (walked codec params worlds n).Pairwise fun m m' =>
    ListedAfter m.toMatchRow m'.toMatchRow
  /-- A finished walk has returned every row that matched from its first to its last request. -/
  complete : ∀ n page, walk codec params worlds n = some page → page.nextCursor = none →
    ∀ id, (∀ m ≤ n, ∃ r, r.id = id ∧ (worlds m).Lists params r) →
      ((walked codec params worlds (n + 1)).map (·.id)).count id = 1
  /-- The cursor is null exactly when no further matching row existed at the query. -/
  last_iff : ∀ n page, walk codec params worlds n = some page →
    (page.nextCursor = none ↔ ¬ ∃ r, (worlds n).Lists params r ∧
      ∀ m ∈ walked codec params worlds (n + 1), ListedAfter m.toMatchRow r)
  /-- Over finitely many rows the walk ends. -/
  ends : {id | ∃ n, ((worlds n).row id).isSome}.Finite →
    ∃ n page, walk codec params worlds n = some page ∧ page.nextCursor = none

variable {codec params worlds}

theorem listKey_lt_iff {m n : MatchEntity} :
    listKey m < listKey n ↔ ListedAfter m.toMatchRow n.toMatchRow := listKey_lt

/-- The rows that the requests of a walk choose from. -/
def listedAt (params : ListParams) (worlds : Nat → World) (n : Nat) : List MatchEntity :=
  (worlds n).listed params

theorem listedAt_keys_nodup (n : Nat) : ((listedAt params worlds n).map listKey).Nodup :=
  listed_keys_nodup (worlds n) params

theorem pageRequest_eq (cursor : Option CursorData) (w : World) :
    pageRequest codec params (cursor.map codec.encode) w =
      some (paginated codec params.limit
        (Data.Keyset.page listKey params.limit (w.listed params) (cursor.map (·.key)))) := by
  have hpage : ((MatchRepository.findPaginated codec
      { params with cursor := cursor.map codec.encode }).eval system Prog.noFaults [] {} w).result =
      .ok (paginated codec params.limit
        (Data.Keyset.page listKey params.limit (w.listed params) (cursor.map (·.key)))) :=
    (findPaginated_after (decodeCursor_encode codec cursor)).2
  rw [pageRequest, hpage]
  rfl

/-- The requests of a walk read one keyset page after the other. -/
theorem walk_eq (n : Nat) :
    walk codec params worlds n =
      (Data.Keyset.pageAt listKey params.limit (listedAt params worlds) n).map
        (paginated codec params.limit) := by
  induction n with
  | zero => exact pageRequest_eq none (worlds 0)
  | succ n ih =>
      rw [walk, ih, Data.Keyset.pageAt_succ]
      cases Data.Keyset.pageAt listKey params.limit (listedAt params worlds) n with
      | none => rfl
      | some p =>
          simp only [Option.map_some, Option.bind_some, next_eq]
          change ((lastRow p).map codec.encode).bind _ = _
          cases lastRow p with
          | none => rfl
          | some last => exact pageRequest_eq (some last) (worlds (n + 1))

theorem walked_eq (n : Nat) :
    walked codec params worlds n =
      Data.Keyset.returned listKey params.limit (listedAt params worlds) n := by
  induction n with
  | zero => rfl
  | succ n ih =>
      rw [walked, Data.Keyset.returned, ih, walk_eq, Option.map_map]
      rfl

/-- The last page is the one without more rows. -/
theorem nextCursor_eq_none {p : Data.Keyset.Page MatchEntity} {n : Nat}
    (hlimit : 1 ≤ params.limit)
    (h : Data.Keyset.pageAt listKey params.limit (listedAt params worlds) n = some p) :
    (paginated codec params.limit p).nextCursor = none ↔ p.hasMore = false := by
  obtain ⟨bound, -, rfl⟩ := Option.map_eq_some_iff.mp h
  generalize hp : Data.Keyset.page listKey params.limit (listedAt params worlds n) bound = p
  rw [paginated, Option.map_eq_none_iff, lastRow]
  cases hmore : p.hasMore with
  | false => simp
  | true =>
      subst hp
      have hlength := Data.Keyset.length_data hmore
      simp only [if_true, Option.map_eq_none_iff, List.getLast?_eq_none_iff, Bool.true_eq_false,
        iff_false]
      intro hnil
      rw [hnil, List.length_nil] at hlength
      omega

theorem mem_listedAt {m : MatchEntity} {n : Nat} :
    m ∈ listedAt params worlds n ↔ m.players = none ∧ (worlds n).Lists params m.toMatchRow :=
  mem_listed

/-- What a walk has returned was stored when its page was read. -/
theorem lists_of_walked {m : MatchEntity} {n : Nat} (h : m ∈ walked codec params worlds n) :
    ∃ k, (worlds k).Lists params m.toMatchRow := by
  rw [walked_eq] at h
  obtain ⟨k, hk⟩ := Data.Keyset.exists_row_of_returned h
  exact ⟨k, (mem_listedAt.mp hk).2⟩

/-- A walk that has stopped has ended with a page without a cursor. -/
theorem exists_last_page {n : Nat} (h : walk codec params worlds n = none) :
    ∃ m page, walk codec params worlds m = some page ∧ page.nextCursor = none := by
  induction n with
  | zero =>
      rw [walk, show pageRequest codec params none (worlds 0) = _ from
        pageRequest_eq none (worlds 0)] at h
      cases h
  | succ n ih =>
      cases hpage : walk codec params worlds n with
      | none => exact ih hpage
      | some page =>
          refine ⟨n, page, hpage, ?_⟩
          rw [walk, hpage, Option.bind_some] at h
          cases hcursor : page.nextCursor with
          | none => rfl
          | some cursor =>
              have hlast : (Data.Keyset.pageAt listKey params.limit (listedAt params worlds) n).map
                  (paginated codec params.limit) = some page := (walk_eq n).symm.trans hpage
              obtain ⟨p, -, rfl⟩ := Option.map_eq_some_iff.mp hlast
              obtain ⟨last, -, rfl⟩ := Option.map_eq_some_iff.mp hcursor
              rw [hcursor, Option.bind_some, show pageRequest codec params (some (codec.encode last))
                (worlds (n + 1)) = _ from pageRequest_eq (some last) (worlds (n + 1))] at h
              cases h

/-- Two stored rows with one id have one `created_at`. -/
def KeepsTimes (worlds : Nat → World) : Prop :=
  ∀ m n r s, (worlds m).row r.id = some r → (worlds n).row s.id = some s → r.id = s.id →
    r.createdAt = s.createdAt

/-- A walk through changing rows returns each row that is there throughout, once and in order. -/
theorem cursor_walk (codec : CursorCodec) (params : ListParams) (worlds : Nat → World)
    (hlimit : 1 ≤ params.limit) (htimes : KeepsTimes worlds) :
    CompleteWalk codec params worlds := by
  have hids : ∀ n, ((walked codec params worlds n).map (·.id)).Nodup := by
    intro n
    refine List.pairwise_map.mpr ?_
    have hordered : (walked codec params worlds n).Pairwise (listKey · < listKey ·) := by
      rw [walked_eq]
      exact Data.Keyset.returned_pairwise listedAt_keys_nodup n
    refine hordered.imp_of_mem fun {a b} ha hb hlt hid => ?_
    obtain ⟨i, hi, -⟩ := lists_of_walked ha
    obtain ⟨j, hj, -⟩ := lists_of_walked hb
    have htime := htimes i j a.toMatchRow b.toMatchRow hi hj hid
    exact hlt.ne (by rw [listKey, listKey, htime, hid])
  refine ⟨hids, fun n => ?_, ?_, ?_, fun hfinite => ?_⟩
  · rw [walked_eq]
    exact (Data.Keyset.returned_pairwise listedAt_keys_nodup n).imp listKey_lt_iff.mp
  · intro n page hpage hnull id hthere
    obtain ⟨p, hp, rfl⟩ := Option.map_eq_some_iff.mp ((walk_eq n).symm.trans hpage)
    have hlast := (nextCursor_eq_none hlimit hp).mp hnull
    -- The key of a row that stays is that of its first request.
    obtain ⟨first, rfl, hfirst⟩ := hthere 0 (Nat.zero_le n)
    have hpresent : ∀ m ≤ n, ∃ row ∈ listedAt params worlds m,
        listKey row = listKey ⟨first, none⟩ := by
      intro m hm
      obtain ⟨r, hid, hr⟩ := hthere m hm
      refine ⟨⟨r, none⟩, mem_listedAt.mpr ⟨rfl, hr⟩, ?_⟩
      have htime := htimes m 0 r first hr.1 hfirst.1 hid
      rw [listKey, listKey]
      dsimp only
      rw [htime, hid]
    obtain ⟨a, ha, hkey⟩ := Data.Keyset.exists_returned listedAt_keys_nodup hp hlast hpresent
    rw [← walked_eq] at ha
    have hid : a.id = first.id := congrArg (fun k => (ofLex (OrderDual.ofDual k)).2) hkey
    exact List.count_eq_one_of_mem (hids (n + 1)) (hid ▸ List.mem_map_of_mem ha)
  · intro n page hpage
    obtain ⟨p, hp, rfl⟩ := Option.map_eq_some_iff.mp ((walk_eq n).symm.trans hpage)
    rw [nextCursor_eq_none hlimit hp, Data.Keyset.hasMore_eq_false_iff listedAt_keys_nodup hp,
      walked_eq]
    refine not_congr ⟨?_, ?_⟩
    · rintro ⟨row, hrow, hafter⟩
      exact ⟨row.toMatchRow, (mem_listedAt.mp hrow).2, fun m hm => listKey_lt_iff.mp (hafter m hm)⟩
    · rintro ⟨r, hr, hafter⟩
      exact ⟨⟨r, none⟩, mem_listedAt.mpr ⟨rfl, hr⟩, fun m hm => listKey_lt_iff.mpr (hafter m hm)⟩
  · -- The time of an id is fixed, so there are as many keys as ids.
    let keys := {k | ∃ n, ∃ row ∈ listedAt params worlds n, listKey row = k}
    have hkeys : keys.Finite := by
      refine Set.Finite.of_finite_image (f := fun k => (ofLex (OrderDual.ofDual k)).2)
        (hfinite.subset ?_) ?_
      · rintro _ ⟨_, ⟨n, row, hrow, rfl⟩, rfl⟩
        exact ⟨n, Option.isSome_iff_exists.mpr ⟨_, (mem_listedAt.mp hrow).2.1⟩⟩
      · rintro _ ⟨m, a, ha, rfl⟩ _ ⟨n, b, hb, rfl⟩ hid
        have htime := htimes m n a.toMatchRow b.toMatchRow (mem_listedAt.mp ha).2.1
          (mem_listedAt.mp hb).2.1 hid
        rw [listKey, listKey, htime, show a.id = b.id from hid]
    have hrows : ∀ n, ∀ row ∈ listedAt params worlds n, listKey row ∈ hkeys.toFinset :=
      fun n row hrow => hkeys.mem_toFinset.mpr ⟨n, row, hrow, rfl⟩
    obtain ⟨n, hn⟩ := Data.Keyset.exists_pageAt_eq_none listedAt_keys_nodup hlimit hrows
    refine exists_last_page (n := n) ?_
    rw [walk_eq, hn, Option.map_none]

/-! ## Two rows of one time -/

/-- Two matches created at one time. -/
def tiedRows : World :=
  let first := (World.withUsers (.empty _)).newMatch 1 .oneVsOne .draft
  { World.withUsers (.empty _) with
    matchRows := ((Data.Table.empty _).put first).put { first with id := 2 } }

/-- The base64 texts of a process in UTC. -/
def utcCodec : CursorCodec := TextCursor.textCodec (TextCursor.readsClock_clockLiteral 0)

/-- A page size of one splits the two rows. -/
theorem cursor_walk_tie :
    CompleteWalk utcCodec ⟨none, none, none, none, 1⟩ fun _ => tiedRows := by
  refine cursor_walk utcCodec ⟨none, none, none, none, 1⟩ (fun _ => tiedRows) le_rfl ?_
  intro _ _ r s hr hs hid
  rw [World.row, hid] at hr
  rw [Option.some.inj (hr.symm.trans hs)]

example : (walked utcCodec ⟨none, none, none, none, 1⟩ (fun _ => tiedRows) 2).map (·.id) = [2, 1] :=
  by decide

end FoosballApi.Matches
