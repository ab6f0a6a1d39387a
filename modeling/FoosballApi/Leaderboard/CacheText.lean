import FoosballApi.Leaderboard.Entities
import FoosballApi.Text.IsoTime
import FoosballApi.Text.JsonText

/-!
# The texts in the cache

Redis holds texts under texts: a key is `leaderboard:<scope>:<filter>`, a value the
`JSON.stringify` of a result. Different keys have different texts, and a stored text is parsed to
the members of the result it was written of.
-/

namespace FoosballApi.Events

/-- The text of a filter. -/
def TimeFilter.text : TimeFilter → String
  | .week => "week"
  | .month => "month"
  | .year => "year"
  | .total => "total"

end FoosballApi.Events

namespace FoosballApi.Leaderboard

open Events Matches Text

/-! ## Keys -/

/-- The text of a scope. -/
def Scope.text : Scope → String
  | .users => "users"
  | .pairs => "pairs"

/-- `${prefix}:${scope}:${filter}`. -/
def CacheKey.text (key : CacheKey) : String :=
  key.keyPrefix ++ ":" ++ key.scope.text ++ ":" ++ key.filter.text

/-- A text is split at its first colon in one way only. -/
theorem split_colon_inj {first first' last last' : List Char} (hfirst : ':' ∉ first)
    (hfirst' : ':' ∉ first') (h : first ++ ':' :: last = first' ++ ':' :: last') :
    first = first' ∧ last = last' := by
  induction first generalizing first' with
  | nil =>
      cases first' with
      | nil => exact ⟨rfl, (List.cons.inj h).2⟩
      | cons c rest => exact absurd ((List.cons.inj h).1 ▸ List.mem_cons_self) hfirst'
  | cons c rest ih =>
      cases first' with
      | nil => exact absurd ((List.cons.inj h).1 ▸ List.mem_cons_self) hfirst
      | cons c' rest' =>
          obtain ⟨rfl, hrest⟩ := List.cons.inj h
          obtain ⟨rfl, rfl⟩ := ih (fun hmem => hfirst (.tail _ hmem))
            (fun hmem => hfirst' (.tail _ hmem)) hrest
          exact ⟨rfl, rfl⟩

/-- A text is split at its last colon in one way only. -/
theorem append_colon_inj {first first' last last' : List Char} (hlast : ':' ∉ last)
    (hlast' : ':' ∉ last') (h : first ++ ':' :: last = first' ++ ':' :: last') :
    first = first' ∧ last = last' := by
  have hreverse : last.reverse ++ ':' :: first.reverse =
      last'.reverse ++ ':' :: first'.reverse := by
    simpa using congrArg List.reverse h
  obtain ⟨hlasts, hfirsts⟩ := split_colon_inj (by simpa) (by simpa) hreverse
  exact ⟨List.reverse_inj.mp hfirsts, List.reverse_inj.mp hlasts⟩

/-- Different keys have different texts, whatever their prefix. -/
theorem CacheKey.text_injective : Function.Injective CacheKey.text := by
  intro ⟨keyPrefix, scope, filter⟩ ⟨keyPrefix', scope', filter'⟩ h
  have hfilter : ∀ filter : TimeFilter, ':' ∉ filter.text.toList := by
    intro filter
    cases filter <;> decide
  have hscope : ∀ scope : Scope, ':' ∉ scope.text.toList := by
    intro scope
    cases scope <;> decide
  have hchars : (keyPrefix.toList ++ ':' :: scope.text.toList) ++ ':' :: filter.text.toList =
      (keyPrefix'.toList ++ ':' :: scope'.text.toList) ++ ':' :: filter'.text.toList := by
    simpa [CacheKey.text] using congrArg String.toList h
  obtain ⟨hfirst, hfilters⟩ := append_colon_inj (hfilter filter) (hfilter filter') hchars
  obtain ⟨hprefixes, hscopes⟩ := append_colon_inj (hscope scope) (hscope scope') hfirst
  have hprefixes : keyPrefix = keyPrefix' := String.toList_inj.mp hprefixes
  have hscopes : scope = scope' := by
    cases scope <;> cases scope' <;> first | rfl | exact absurd hscopes (by decide)
  have hfilters : filter = filter' := by
    cases filter <;> cases filter' <;> first | rfl | exact absurd hfilters (by decide)
  rw [hprefixes, hscopes, hfilters]

/-! ## Values -/

/-- `{ rank, ...entry }`. -/
def RankedUser.plain (row : RankedUser) : Plain :=
  .object [("rank", .nat row.rank), ("userId", .nat row.userId),
    ("displayName", .string row.displayName), ("wins", .nat row.wins)]

/-- `{ userId, displayName }`. -/
def PlayerName.plain (player : PlayerName) : Plain :=
  .object [("userId", .nat player.userId), ("displayName", .string player.displayName)]

/-- `{ rank, userA, userB, wins }`. -/
def RankedPair.plain (row : RankedPair) : Plain :=
  .object [("rank", .nat row.rank), ("userA", row.userA.plain), ("userB", row.userB.plain),
    ("wins", .nat row.wins)]

/-- The rows of a result. -/
def LeaderboardData.plain : LeaderboardData → Plain
  | .users data => .array (data.map RankedUser.plain)
  | .pairs data => .array (data.map RankedPair.plain)

/-- `new Date(ms).toISOString()`. -/
def isoText (date : Date) : String := (DateTime.ofMs date).toISOString

/-- The members of `{ filter, data, generatedAt }`. -/
def CachedResult.members (result : CachedResult) : List (String × Plain) :=
  [("filter", .string result.filter.text), ("data", result.data.plain),
    ("generatedAt", .string (isoText result.generatedAt))]

/-- `JSON.stringify(result)`. -/
def CachedResult.text (result : CachedResult) : String :=
  .ofList (Plain.object result.members).render

/-- The text of a cache status. -/
def CacheStatus.text : CacheStatus → String
  | .hit => "HIT"
  | .miss => "MISS"
  | .bypass => "BYPASS"

/-- `{ ...value }`: an object has its members, an array and a string have their elements under their
positions, and any other value has none. -/
def spread : Json → List (String × Json)
  | .object members => members
  | .array items => items.zipIdx.map fun (item, i) => (toString i, item)
  | .string text => (text.toList.flatMap utf16).zipIdx.map fun (unit, i) =>
      (toString i, .string (.ofList (ofUtf16 [unit])))
  | _ => []

/-- `{ ...members, name: value }`: a member of that name keeps its place. -/
def setMember (members : List (String × Json)) (name : String) (value : Json) :
    List (String × Json) :=
  if members.any (·.1 = name) then
    members.map fun m => if m.1 = name then (name, value) else m
  else
    members ++ [(name, value)]

/-- `{ ...value, cacheStatus }`. -/
def withStatus (value : Json) (status : CacheStatus) : Json :=
  .object (setMember (spread value) "cacheStatus" (.string status.text))

/-- The answer that a result stands for. -/
def LeaderboardResult.json (result : LeaderboardResult) : Json :=
  withStatus (Plain.object result.members).toJson result.cacheStatus

/-- A stored text is read back as the result it was written of. -/
theorem CachedResult.parse_text (result : CachedResult) :
    Json.parse result.text.toList = some (Plain.object result.members).toJson := by
  rw [CachedResult.text, String.toList_ofList, Json.parse_render]

/-- A stored text is not empty. -/
theorem CachedResult.text_ne_empty (result : CachedResult) : result.text ≠ "" := by
  intro hempty
  have hread := result.parse_text
  rw [hempty] at hread
  cases hread

end FoosballApi.Leaderboard
