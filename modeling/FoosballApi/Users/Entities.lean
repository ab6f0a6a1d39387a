import FoosballApi.Matches.Entities

/-!
# Users

The rows of `users`, as far as other parts of the program read them.
-/

namespace FoosballApi.Users

open Matches

/-- `UserEntity`, a row of `users`. -/
structure UserEntity where
  id : UserId
  azureOid : String
  email : String
  displayName : String
  isAdmin : Bool
  deriving DecidableEq, Repr

end FoosballApi.Users
