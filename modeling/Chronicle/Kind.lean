import Chronicle.Failure
import Chronicle.Schema

/-!
# Kinds of journaled entities

A kind ties a live table to the table with the payloads of its journal.
-/

namespace Chronicle

inductive Kind
  | workPackage
  | project
  deriving DecidableEq, Repr, Inhabited

namespace Kind

def all : List Kind := [workPackage, project]

theorem mem_all (k : Kind) : k ∈ all := by cases k <;> decide

def name : Kind → String
  | workPackage => "work_package"
  | project => "project"

/-- The table of current attributes. -/
def table : Kind → Table
  | workPackage => Schema.workPackages
  | project => Schema.projects

/-- The table of journaled attributes. -/
def journal : Kind → Table
  | workPackage => Schema.workPackageJournals
  | project => Schema.projectJournals

/-- Whether filters can be matched against the history of this kind. -/
def supportsFilters : Kind → Bool
  | workPackage => true
  | project => false

/-- The names of the journaled attributes, in the order of their columns. -/
def payload (k : Kind) : List String := k.journal.columnNames.filter (· != "id")

/-- The attributes that do not come from the payload. -/
def specialAttributes : List String := ["id", "created_at", "updated_at"]

def hasAttribute (k : Kind) (a : String) : Bool :=
  specialAttributes.contains a || k.payload.contains a

theorem hasAttribute_iff (k : Kind) (a : String) :
    k.hasAttribute a = true ↔ a ∈ specialAttributes ∨ a ∈ k.payload := by
  simp [hasAttribute]

def ofName (name : String) : Except Failure Kind :=
  match all.find? (·.name == name) with
  | some k => .ok k
  | none => .error (.unknownKind name)

theorem ofName_name (k : Kind) : ofName k.name = .ok k := by cases k <;> rfl

/-- The kind with a given live table. -/
def ofTable? (table : String) : Option Kind := all.find? (·.table.name == table)

theorem ofTable?_table (k : Kind) : ofTable? k.table.name = some k := by cases k <;> decide

/-- The table that all kinds share for the entries of their journals. -/
def journalsName : String := Schema.journals.name

/-- The name under which the live table is joined to a query on the journal. -/
def journablesAlias : String := "journables"

end Kind

end Chronicle
