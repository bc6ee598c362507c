import StackIR.Linkage
import StackIR.Script.Decode
import StackIR.Script.Lower
import StackIR.Toml.Document

/-!
# Compiling scripts

From the bytes of a script file to a linked procedure: the bytes are a text, the text is a TOML
document, the document describes a script, the script is lowered, and the procedure is linked.
-/

namespace StackIR.Script

/-- Why the text of a script cannot be had. -/
inductive ReadError where
  /-- The file cannot be read, for a reason that the system gives with a number. -/
  | system (reason : String) (code : Nat)
  /-- The file is not a text. -/
  | notUtf8
deriving Repr, DecidableEq

def ReadError.message : ReadError → String
  | .system reason code => reason ++ " (os error " ++ code.repr ++ ")"
  | .notUtf8 => "stream did not contain valid UTF-8"

/-- There is no such file. -/
def ReadError.missing : ReadError :=
  .system "No such file or directory" 2

/-- Why a script has no linked procedure. -/
inductive Error where
  | unreadable (error : ReadError)
  /-- The text is not a TOML document. -/
  | notToml
  /-- The document does not describe a script. -/
  | malformed (error : SchemaError)
  | lowering (error : LowerError)
  | linking (error : LinkError)
deriving Repr, DecidableEq

/-- The error as it is reported. What is wrong with an invalid script is left to
`SchemaError.message`. -/
def Error.message : Error → String
  | .unreadable error => "failed to read script: " ++ error.message
  | .notToml | .malformed _ => "invalid script"
  | .lowering error => error.message
  | .linking error => error.message

/-- The script that a text describes. -/
def parse (text : String) : Except Error Script :=
  match Toml.parse? text with
  | none => .error .notToml
  | some entries => (ofEntries entries).mapError .malformed

/-- The script in the contents of a file, unless they could not be read. -/
def load (contents : Except ReadError ByteArray) : Except Error Script :=
  match contents with
  | .error error => .error (.unreadable error)
  | .ok bytes =>
    match String.fromUTF8? bytes with
    | none => .error (.unreadable .notUtf8)
    | some text => parse text

/-- The procedure in the contents of a file, not linked yet. -/
def assemble (contents : Except ReadError ByteArray) : Except Error Procedure := do
  (← load contents).lower.mapError .lowering

/-- The linked procedure in the contents of a file. -/
def compile (contents : Except ReadError ByteArray) : Except Error LinkedProcedure := do
  (← assemble contents).link.mapError .linking

end StackIR.Script
