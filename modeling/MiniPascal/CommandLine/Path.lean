/-!
# Paths

A path is a root and the names below it. Empty names and the name of the current directory are left
out when a path is read, and the name of the parent directory is kept.
-/

namespace MiniPascal.CommandLine

/-- A path. The root is empty for a relative path. -/
structure Path where
  root : String := ""
  names : List String := []
deriving Repr, DecidableEq, Inhabited

namespace Path

/-- The root of a path text: two slashes at the start are a root of their own, and any other number
of them is one slash. -/
def rootOf (s : String) : String :=
  match (s.toList.takeWhile (· == '/')).length with
  | 0 => ""
  | 2 => "//"
  | _ => "/"

/-- Splits a text at its slashes. -/
def splitSlashes : List Char → List (List Char)
  | [] => [[]]
  | c :: rest =>
    if c = '/' then [] :: splitSlashes rest
    else
      match splitSlashes rest with
      | [] => [[c]]
      | first :: others => (c :: first) :: others

/-- The path a text stands for. -/
def ofText (s : String) : Path :=
  let names := (splitSlashes s.toList).map String.ofList
  { root := rootOf s, names := names.filter fun n => n != "" && n != "." }

/-- The path as a text. -/
def text (p : Path) : String :=
  let joined := p.root ++ "/".intercalate p.names
  if joined = "" then "." else joined

/-- The path with an ending added to its last name. -/
def addEnding (p : Path) (ending : String) : Path :=
  match p.names.getLast? with
  | none => p
  | some last => { p with names := p.names.dropLast ++ [last ++ ending] }

end Path

end MiniPascal.CommandLine
