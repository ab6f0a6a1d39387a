import FoosballApi.Matches.Repository

/-!
# Users of the auth app

`UserRepository` and `UserService`: the upsert of a login, and the change of a display name. The
string operations follow JavaScript: `trim` removes its white space and line terminators, and
`length` counts UTF-16 code units.
-/

namespace FoosballApi.Users

open Calls Matches

/-- The characters that `trim` removes. -/
def isJsSpace (c : Char) : Bool :=
  c.toNat ∈ [0x9, 0xA, 0xB, 0xC, 0xD, 0x20, 0xA0, 0x1680, 0x2000, 0x2001, 0x2002, 0x2003, 0x2004,
    0x2005, 0x2006, 0x2007, 0x2008, 0x2009, 0x200A, 0x2028, 0x2029, 0x202F, 0x205F, 0x3000, 0xFEFF]

/-- `text.trim()`. -/
def trim (text : String) : String :=
  .ofList ((text.toList.dropWhile isJsSpace).reverse.dropWhile isJsSpace).reverse

/-- `text.length`. -/
def utf16Length (text : String) : Nat :=
  text.toList.foldl (fun length c => length + if c.toNat < 0x10000 then 1 else 2) 0

/-- `VALIDATION_ERROR` for a display name. -/
def invalidDisplayName : Failure :=
  .http ⟨422, "VALIDATION_ERROR", "displayName must be between 1 and 255 characters", []⟩

namespace UserRepository

/-- `upsert(data)`. -/
def upsert (azureOid email displayName : String) : Api UserEntity := do
  match ← await (.findByAzureOid azureOid) with
  | some existing => await (.saveUser { existing with email := email, displayName := displayName })
  | none => await (.insertUser azureOid email displayName)

/-- `updateDisplayName(id, displayName)`. -/
def updateDisplayName (id : UserId) (displayName : String) : Api UserEntity := do
  await (.renameUser id displayName)
  let updated ← await (.findUserById id)
  Prog.require updated (.plain s!"User {id} not found after update")

end UserRepository

namespace UserService

/-- `upsertFromAzure(input)`. -/
def upsertFromAzure (azureOid email displayName : String) : Api UserEntity :=
  UserRepository.upsert azureOid email displayName

/-- `updateDisplayName(id, displayName)`. -/
def updateDisplayName (id : UserId) (displayName : String) : Api UserEntity := do
  let trimmed := trim displayName
  Prog.throwIf (utf16Length trimmed < 1 ∨ 255 < utf16Length trimmed) invalidDisplayName
  UserRepository.updateDisplayName id trimmed

end UserService

end FoosballApi.Users
