import StackIR.CommandLine

/-!
# The program

Reads the file that the arguments name and prints the answer.
-/

namespace StackIR

/-- The contents of a file, or why they cannot be had. -/
def readContents (path : String) : IO (Except Script.ReadError ByteArray) := do
  try
    return .ok (← IO.FS.readBinFile path)
  catch
    | .noFileOrDirectory .. => return .error .missing
    | .permissionDenied _ code _ => return .error (.system "Permission denied" code.toNat)
    | .inappropriateType _ code _ => return .error (.system "Is a directory" code.toNat)
    | e => throw e

end StackIR

open StackIR in
def main (args : List String) : IO UInt32 := do
  let request? := CommandLine.request? args
  let contents ←
    match request? with
    | some (.dump path _) => readContents path
    | _ => pure (.error .missing)
  let outcome := CommandLine.answer request? contents
  IO.print outcome.stdout
  IO.eprint outcome.stderr
  return outcome.exitCode.toUInt32
