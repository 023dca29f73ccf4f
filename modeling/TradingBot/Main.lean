import TradingBot.CommandLine.Session

/-!
# The program

Reads the files that the arguments call for, runs the session in real time, and prints what it logs.
-/

namespace TradingBot.CommandLine

/-- Adds what lies under a path, if anything does. -/
def addEntry (files : FileTree) (path : String) : IO FileTree := do
  try
    return files.insert path (.file (← IO.FS.readBinFile path).data.toList)
  catch
    | .inappropriateType _ _ _ => return files.insert path .directory
    | _ => return files

/-- Prints the part of a text that has not been printed. -/
def printFrom (printed : Nat) (text : String) : IO Unit := do
  let out ← IO.getStdout
  out.putStr (String.ofList (text.toList.drop printed))
  out.flush

def finish (printed : Nat) (o : Outcome) : IO UInt32 := do
  printFrom printed o.output
  (← IO.getStderr).putStr o.errors
  return o.code.toUInt32

/-- Lets the session go on as time goes by, until it has ended. -/
partial def live (printed : Nat) (s : Session) : IO UInt32 := do
  let s := { s with engine := s.engine.settle }
  match s.end? with
  | some o => finish printed o
  | none =>
    printFrom printed s.output
    let e := s.engine
    IO.sleep (e.wake - e.now).toUInt32
    live s.output.length { s with engine := { e with now := max e.now e.wake } }

end TradingBot.CommandLine

open TradingBot TradingBot.CommandLine in
def main (args : List String) : IO UInt32 := do
  let directory ← IO.getEnv directoryVariable
  let env : Environment := Dict.ofList (directory.toList.map fun d => (directoryVariable, d))
  let files ← addEntry {} variablesFile
  let paths :=
    match parse args env files with
    | .options o => o.directory :: (Config.Directory.mk o.directory files).paths
    | _ => []
  let files ← paths.foldlM addEntry files
  match begin args env files { reach := .down } { seconds := 0, nanos := 0 } with
  | .ended o => finish 0 o
  | .session s => live 0 s
