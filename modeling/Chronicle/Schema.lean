/-!
# Tables

The tables of the store and the types of their columns.  Every kind of entity has a live table with
its current attributes and a journal table with one payload row per entry; the table of journals
says which entity, version and time a payload row belongs to.
-/

namespace Chronicle

/-- What a column is declared to hold. -/
inductive ColumnType
  | integer
  | text
  | boolean
  | instant
  deriving DecidableEq, Repr, Inhabited

structure Column where
  name : String
  type : ColumnType
  nullable : Bool := false
  deriving DecidableEq, Repr, Inhabited

structure Table where
  name : String
  columns : List Column
  deriving DecidableEq, Repr, Inhabited

namespace Table

def columnNames (t : Table) : List String := t.columns.map (·.name)

def column? (t : Table) (name : String) : Option Column := t.columns.find? (·.name == name)

theorem column?_name {t : Table} {name : String} {c : Column} (h : t.column? name = some c) :
    c.name = name := by
  simpa using List.find?_some h

theorem column?_mem {t : Table} {name : String} {c : Column} (h : t.column? name = some c) :
    c ∈ t.columns := List.mem_of_find?_eq_some h

end Table

namespace Schema

def idColumn : Column := ⟨"id", .integer, false⟩

def projects : Table := ⟨"projects", [
  idColumn,
  ⟨"name", .text, false⟩,
  ⟨"identifier", .text, false⟩,
  ⟨"description", .text, true⟩,
  ⟨"active", .boolean, false⟩,
  ⟨"created_at", .instant, false⟩,
  ⟨"updated_at", .instant, false⟩]⟩

def workPackages : Table := ⟨"work_packages", [
  idColumn,
  ⟨"subject", .text, false⟩,
  ⟨"description", .text, true⟩,
  ⟨"status", .text, false⟩,
  ⟨"priority", .text, false⟩,
  ⟨"project_id", .integer, true⟩,
  ⟨"created_at", .instant, false⟩,
  ⟨"updated_at", .instant, false⟩]⟩

def projectJournals : Table := ⟨"project_journals", [
  idColumn,
  ⟨"name", .text, false⟩,
  ⟨"identifier", .text, false⟩,
  ⟨"description", .text, true⟩,
  ⟨"active", .boolean, false⟩]⟩

def workPackageJournals : Table := ⟨"work_package_journals", [
  idColumn,
  ⟨"subject", .text, false⟩,
  ⟨"description", .text, true⟩,
  ⟨"status", .text, false⟩,
  ⟨"priority", .text, false⟩,
  ⟨"project_id", .integer, true⟩]⟩

def journals : Table := ⟨"journals", [
  idColumn,
  ⟨"entity_type", .text, false⟩,
  ⟨"entity_id", .integer, false⟩,
  ⟨"version", .integer, false⟩,
  ⟨"data_id", .integer, false⟩,
  ⟨"recorded_at", .instant, false⟩]⟩

def tables : List Table := [projects, workPackages, projectJournals, workPackageJournals, journals]

def table? (name : String) : Option Table := tables.find? (·.name == name)

theorem table?_name {name : String} {t : Table} (h : table? name = some t) : t.name = name := by
  simpa using List.find?_some h

end Schema

end Chronicle
