import Chronicle.Filter.Basic
import Chronicle.Query.Builder
import Chronicle.Settings.Basic
import Chronicle.Yaml.Node.Meaning
import Chronicle.Yaml.Printer

/-!
# Filters as text

Filters are kept in YAML files.

* `Filter.ofYaml`, `Filter.toYaml`: one filter;
* `Filter.load`: the filter of a file;
* `Filter.loadAll`: the filters of a directory by their names.
-/

namespace Chronicle

open Chronicle.Files

/-- Nothing: null, false, zero, or an empty text or collection. -/
def Value.isNothing : Value → Bool
  | .scalar .null | .scalar (.bool false) | .list [] | .object [] => true
  | .scalar (.int i) => i == 0
  | .scalar (.float x) => x.isZero
  | .scalar (.text s) => s.isEmpty
  | _ => false

namespace Filter

/-- A text that says nothing is the empty filter. -/
def ofYaml (content : String) : Except Failure Filter := do
  let v ← Yaml.valueOfText content
  let filter ← ofRecord (if v.isNothing then .object [] else v)
  Record.Checked.orFail filter

def toYaml (f : Filter) : Except Failure String := Yaml.textOfValue f.toRecord

def load (files : Tree) (p : Path) : Except Failure Filter := do
  ofYaml (← files.read p)

/-- What the names of the files with filters end in. -/
def fileSuffix : String := ".yaml"

/-- The filters of a directory in the order of the file names.  Of filters of one name the last one
counts, in the place of the first one. -/
def loadAll (files : Tree) (dir : Path) : Except Failure (List (String × Filter)) := do
  let names := (files.list dir).filter fun n => fileSuffix.toList.isSuffixOf n.toList
  let sorted := names.mergeSort fun a b => decide (a ≤ b)
  let filters ← sorted.mapM fun n => load files (dir.child n)
  return filters.foldl (fun fs f => EnvFile.assign f.name f fs) []

end Filter

end Chronicle
