import StackIR.Dump
import StackIR.Script.Compile

/-!
# The command line

The program takes the path of a script and prints the dump of its procedure, linked unless the flag
`--unresolved` is given. What it answers is a function of its arguments and of the file's contents.
-/

namespace StackIR.CommandLine

/-- What the arguments ask for. -/
inductive Request where
  | help
  | version
  | dump (path : String) (isLinked : Bool)
deriving Repr, DecidableEq

/-- What the arguments seen so far have settled. -/
structure Seen where
  path? : Option String := none
  isUnresolved : Bool := false
deriving Repr, DecidableEq

/-- Takes an argument as the path, if there is none yet. -/
def Seen.takePath (s : Seen) (arg : String) : Option Seen :=
  match s.path? with
  | none => some { s with path? := some arg }
  | some _ => none

/-- What is asked for once all arguments are seen: a dump, if there is a path that is not empty. -/
def Seen.request? (s : Seen) : Option Request :=
  match s.path? with
  | none | some "" => none
  | some path => some (.dump path (!s.isUnresolved))

/-- Reads arguments behind the end of the flags. -/
def readPaths (s : Seen) : List String → Option Request
  | [] => s.request?
  | arg :: args => do readPaths (← s.takePath arg) args

/-- Whether an argument is a flag. A lone dash is none. -/
def isFlag (arg : String) : Bool :=
  arg.startsWith "-" && arg ≠ "-"

/-- Reads the arguments from the left, or refuses them. A request for help or for the version
counts at once, unless an empty path came before it. -/
def readArguments (s : Seen) : List String → Option Request
  | [] => s.request?
  | arg :: args =>
    if arg = "--" then readPaths s args
    else if arg = "--unresolved" then
      if s.isUnresolved then none else readArguments { s with isUnresolved := true } args
    else if arg = "--version" || arg.startsWith "-V" then
      if s.path? = some "" then none else some .version
    else if arg = "--help" || arg.startsWith "-h" then
      if s.path? = some "" then none else some .help
    else if isFlag arg then none
    else do readArguments (← s.takePath arg) args

/-- What the arguments ask for, if they are in order. -/
def request? (args : List String) : Option Request :=
  readArguments {} args

structure Outcome where
  exitCode : UInt8
  stdout : String := ""
  stderr : String := ""
deriving Repr, DecidableEq

def versionText : String := "bitvm_ir 0.1.0\n"

def usageText : String := "Usage: bitvm-ir [OPTIONS] <INPUT>\n"

def helpText : String :=
  usageText ++ "\n" ++
    "Arguments:\n" ++
    "  <INPUT>  The procedure script\n\n" ++
    "Options:\n" ++
    "      --unresolved  Print the procedure as emitted, without resolving it\n" ++
    "  -h, --help        Print help\n" ++
    "  -V, --version     Print version\n"

/-- What is printed of an error. A failure to read the file is followed by its cause. -/
def errorText (e : Script.Error) : String :=
  "Error: " ++ e.message ++
    match e with
    | .unreadable cause => "\n\nCaused by:\n    " ++ cause.message ++ "\n"
    | .notToml | .malformed _ => ""
    | .lowering _ | .linking _ => "\n"

/-- The dump of the procedure in the contents of a file. -/
def dump (contents : Except Script.ReadError ByteArray) (isLinked : Bool) :
    Except Script.Error String := do
  let p ← Script.assemble contents
  let dump? ←
    if isLinked then LinkedProcedure.dump <$> p.link.mapError .linking else pure p.dump
  match dump? with
  | some text => return text
  | none => throw (.linking .danglingOperand)

/-- The answer to the arguments, given what is in the file they name. -/
def answer (request? : Option Request) (contents : Except Script.ReadError ByteArray) : Outcome :=
  match request? with
  | none => { exitCode := 2, stderr := usageText }
  | some .help => { exitCode := 0, stdout := helpText }
  | some .version => { exitCode := 0, stdout := versionText }
  | some (.dump _ isLinked) =>
    match dump contents isLinked with
    | .ok text => { exitCode := 0, stdout := text }
    | .error e => { exitCode := 1, stderr := errorText e }

end StackIR.CommandLine
