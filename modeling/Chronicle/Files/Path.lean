/-!
# Paths

A path is a list of names, absolute if it begins at a root.  Names that stand for the place itself
are dropped when a path is read; names that lead upwards are kept.
-/

namespace Chronicle.Files

structure Path where
  root : String
  names : List String
  deriving DecidableEq, Repr, Inhabited

namespace Path

/-- One slash at the beginning is the root, and so are three or more; two are a root of their
own. -/
def rootOf (text : String) : String :=
  match (text.toList.takeWhile (· == '/')).length with
  | 0 => ""
  | 2 => "//"
  | _ => "/"

def ofText (text : String) : Path :=
  ⟨rootOf text, (text.splitOn "/").filter fun n => n != "" && n != "."⟩

def text (p : Path) : String :=
  if p.root.isEmpty && p.names.isEmpty then "."
  else p.root ++ String.intercalate "/" p.names

def child (p : Path) (name : String) : Path := { p with names := p.names ++ [name] }

def isAbsolute (p : Path) : Bool := !p.root.isEmpty

/-- What leads upwards. -/
def upwards : String := ".."

end Path

end Chronicle.Files
