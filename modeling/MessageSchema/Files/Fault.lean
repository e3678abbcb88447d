/-!
Why an operation on files fails.
-/

namespace MessageSchema.Files

set_option autoImplicit false

inductive Fault where
  | notFound
  | occupied
  | notDirectory
  | isDirectory
  /-- A path, or a name in it, has more octets than a disk can take. -/
  | tooLong
  /-- A path holds the null character, which no name can hold. -/
  | nullInPath
  /-- The bytes of a file are not the encoding of a text. -/
  | notText
  /-- The system refuses for a reason that is not on the disk, such as a missing permission. -/
  | refused (reason : String) (code : Nat)
  deriving DecidableEq

def Fault.message : Fault → String
  | notFound => "No such file or directory (os error 2)"
  | occupied => "File exists (os error 17)"
  | notDirectory => "Not a directory (os error 20)"
  | isDirectory => "Is a directory (os error 21)"
  | tooLong => "File name too long (os error 36)"
  | nullInPath => "file name contained an unexpected NUL byte"
  | notText => "stream did not contain valid UTF-8"
  | refused reason code => reason ++ " (os error " ++ toString code ++ ")"

end MessageSchema.Files
