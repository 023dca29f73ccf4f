import TradingBot.Dict

/-!
# Trees of files

**The type** (`FileTree`). Files and directories by their paths from a root, with slashes between
names. A directory is also there if something lies in it.

**Finding** (`FileTree.find`). A path is followed name by name. What it passes through must be
directories.
-/

namespace TradingBot

inductive ReadFailure where
  | missing
  /-- The path passes through a file. -/
  | notDirectory
  | isDirectory
  | notText
deriving DecidableEq, Repr

namespace ReadFailure

def text : ReadFailure → String
  | missing => "No such file or directory (os error 2)"
  | notDirectory => "Not a directory (os error 20)"
  | isDirectory => "Is a directory (os error 21)"
  | notText => "stream did not contain valid UTF-8"

end ReadFailure

inductive Entry where
  | file (bytes : List UInt8)
  | directory

structure FileTree where
  entries : Dict Entry := {}

namespace FileTree

/-- What lies under a path that is written in the shortest way. -/
def entry? (t : FileTree) (path : String) : Option Entry :=
  match t.entries.get? path with
  | some e => some e
  | none => if t.entries.keys.any (·.startsWith (path ++ "/")) then some .directory else none

/-- Where a name leads from `here`, which is given as the names passed in reverse. -/
def enter (here : List String) (name : String) : List String :=
  if name = "" ∨ name = "." then here
  else if name = ".." then
    match here with
    | [] | ".." :: _ => ".." :: here
    | [""] => here
    | _ :: above => above
  else name :: here

/-- Where a path begins: at the root of all, or here. -/
def origin (path : String) : List String := if path.startsWith "/" then [""] else []

/-- The path of names passed in reverse. -/
def pathTo (here : List String) : String := "/".intercalate here.reverse

/-- A path without detours. -/
def shortest (path : String) : String := pathTo ((path.splitOn "/").foldl enter (origin path))

def insert (t : FileTree) (path : String) (e : Entry) : FileTree :=
  { entries := t.entries.insert (shortest path) e }

/-- What lies where names passed in reverse lead to. -/
def here? (t : FileTree) (here : List String) : Except ReadFailure Entry :=
  if here = [] then .ok .directory
  else
    match t.entry? (pathTo here) with
    | some e => .ok e
    | none => .error .missing

/-- Follows names; each but the last must lead to a directory. -/
def follow (t : FileTree) (here : List String) : List String → Except ReadFailure Entry
  | [] => t.here? here
  | name :: names =>
    match t.here? here with
    | .error failure => .error failure
    | .ok (.file _) => .error .notDirectory
    | .ok .directory => follow t (enter here name) names

def find (t : FileTree) (path : String) : Except ReadFailure Entry :=
  if path = "" then .error .missing else t.follow (origin path) (path.splitOn "/")

def text (t : FileTree) (path : String) : Except ReadFailure String :=
  match t.find path with
  | .error failure => .error failure
  | .ok .directory => .error .isDirectory
  | .ok (.file bytes) =>
    match String.fromUTF8? ⟨bytes.toArray⟩ with
    | some s => .ok s
    | none => .error .notText

end FileTree

end TradingBot
