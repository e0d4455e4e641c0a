import Stash.Foundation.CText

/-! What the client sends to authenticate. -/
namespace Stash.Client
open Foundation.CText

/-- Text from the terminal: the prompts return one line without its end. -/
structure Typed where
  text : Bytes
  no_nul : (0 : UInt8) ∉ text
  no_newline : (10 : UInt8) ∉ text

inductive AuthChoice where
  | signup
  | login
  deriving DecidableEq, Repr

def AuthChoice.keyword : AuthChoice → Bytes
  | .signup => ascii "SIGNUP"
  | .login => ascii "LOGIN"

/-- The text that `authenticate` prints for a choice. -/
def credentials (choice : AuthChoice) (username password : Bytes) : Bytes :=
  choice.keyword ++ ascii " " ++ username ++ ascii " " ++ password ++ ascii "\n"

/-- The command buffer of `authenticate`, as it is sent. -/
def authLine (choice : AuthChoice) (username password : Bytes) : Bytes :=
  snprintf 512 (credentials choice username password)

end Stash.Client
