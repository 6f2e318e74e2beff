import CryptolEdit.Text

/-!
Why a session could not be started or a command not be made.
-/

namespace CryptolEdit

/-- What went wrong. -/
inductive Failure where
  /-- The document was never saved, so there is nothing to load. -/
  | noFile
  /-- The interpreter could not be started. -/
  | startFailed (program reason : Text)
  /-- The interpreter did not list its backends. -/
  | queryFailed (program reason : Text)
  /-- The interpreter lists no backend of this name. -/
  | unknownBackend (name : Text)
deriving DecidableEq, Repr

namespace Failure

/-- What the user is told. -/
def message : Failure → Text
  | noFile => "buffer is not associated with a file; save it first".toList
  | startFailed program reason =>
    "failed to start `".toList ++ program ++ "`: ".toList ++ reason
  | queryFailed program reason =>
    "failed to query backends from `".toList ++ program ++ "`: ".toList ++ reason
  | unknownBackend name => "unknown compiler backend: ".toList ++ name

/-- What the operating system said, where it was asked. -/
def reason? : Failure → Option Text
  | startFailed _ reason | queryFailed _ reason => some reason
  | noFile | unknownBackend _ => none

/-- Whether the user can mend it without a change of settings. -/
def isUserCorrectable : Failure → Bool
  | noFile | unknownBackend _ => true
  | startFailed .. | queryFailed .. => false

end Failure

end CryptolEdit
