import Chronicle.Files.Tree
import Chronicle.Record.Reading
import Chronicle.Settings.EnvFile
import Chronicle.Text.Case

/-!
# Settings

Where the store and the filters are, and what is logged.

* `Settings.read`: from the environment and a file of variables;
* `Settings.level`: the least level of the messages that are logged;
* `Settings.storePath`, `Settings.url`: the place of the store.
-/

namespace Chronicle

open Chronicle.Files Chronicle.Record Chronicle.Text

structure Settings where
  debug : Bool := false
  databaseUrl : Option String := none
  dataDir : String := "data"
  filtersDir : String := "filters"
  logLevel : String := "INFO"
  deriving DecidableEq, Repr, Inhabited

namespace Settings

def fieldNames : List String := ["debug", "database_url", "data_dir", "filters_dir", "log_level"]

/-- The file with variables, next to the environment. -/
def envFileName : String := ".env"

def toRecord (s : Settings) : Value :=
  .object [("debug", .bool s.debug), ("database_url", s.databaseUrl.elim .null .text),
    ("data_dir", .text s.dataDir), ("filters_dir", .text s.filtersDir),
    ("log_level", .text s.logLevel)]

/-! ## Reading -/

/-- The names of variables are alike in all cases; the last one of a name counts. -/
def byLowerName {α : Type} (given : List (String × α)) : List (String × α) :=
  given.foldl (fun vs (n, v) => EnvFile.assign (String.ofList (lower n.toList)) v vs) []

/-- What is given: the environment before the file. -/
def given (environment : List (String × String)) (file : List (String × Option String)) :
    List (String × Value) :=
  let fromFile := (byLowerName file).filterMap fun (n, v) => v.map fun v => (n, v)
  (byLowerName environment ++ fromFile).map fun (n, v) => (n, .text v)

/-- Names of the file that are no settings, if they are given anything. -/
def unknownNames (file : List (String × Option String)) : List String :=
  (byLowerName file).filterMap fun (n, v) =>
    if (v.getD "").isEmpty || fieldNames.contains n then none else some n

def ofVariables (environment : List (String × String)) (file : List (String × Option String)) :
    Checked Settings := do
  let fs := given environment file
  let unknown : Checked Unit :=
    match unknownNames file with
    | [] => .ok ()
    | names => .error (names.map fun n => ⟨[.field n], "extra_forbidden", none⟩)
  let ((debug, url, dataDir, filtersDir, level), _) ←
    Checked.both
      (Checked.both (optional fs "debug" false truth)
        (Checked.both (optional fs "database_url" none (nullable text))
          (Checked.both (optional fs "data_dir" "data" text)
            (Checked.both (optional fs "filters_dir" "filters" text)
              (optional fs "log_level" "INFO" text)))))
      unknown
  return ⟨debug, url, dataDir, filtersDir, level⟩

def read (environment : List (String × String)) (files : Tree) : Checked Settings :=
  let file := match files.read (Path.ofText envFileName) with
    | .ok content => EnvFile.read environment content
    | .error _ => []
  ofVariables environment file

/-! ## Logging -/

/-- The levels by all their names, each with the one under which it is reported. -/
def levels : List (String × String) :=
  [("CRITICAL", "CRITICAL"), ("FATAL", "CRITICAL"), ("ERROR", "ERROR"), ("WARN", "WARNING"),
    ("WARNING", "WARNING"), ("INFO", "INFO"), ("DEBUG", "DEBUG"), ("NOTSET", "NOTSET")]

/-- The level to log at: the one asked for or else the one set, and all when debugging. -/
def level (s : Settings) (asked : Option String) : Except Failure String :=
  let name := match asked with
    | some l => if l.isEmpty then s.logLevel else l
    | none => s.logLevel
  let name := if s.debug then "DEBUG" else String.ofList (upper name.toList)
  match levels.lookup name with
  | some l => .ok l
  | none => .error .unknownLevel

theorem level_of_debug {s : Settings} (h : s.debug = true) (asked : Option String) :
    s.level asked = .ok "DEBUG" := by
  have known : levels.lookup "DEBUG" = some "DEBUG" := by decide
  simp [level, h, known]

/-! ## The place of the store -/

def storeName : String := "timetravel.db"

/-- The file of the store, which a chosen path overrides, and the tree with the directory for it. -/
def storePath (s : Settings) (chosen : Option Path) (t : Tree) : Except Failure (Path × Tree) :=
  match chosen with
  | some p => .ok (p, t)
  | none =>
    let dir := Path.ofText s.dataDir
    (t.makeDirectory dir).map fun t => (dir.child storeName, t)

/-- The beginning of addresses of one kind of server, in short and in full. -/
def shortScheme : String := "postgres://"
def fullScheme : String := "postgresql://"

def withFullScheme (url : String) : String :=
  if shortScheme.isPrefixOf url then
    fullScheme ++ String.ofList (url.toList.drop shortScheme.length)
  else url

/-- The address of the store: the one set, unless a path has been chosen, or else its file. -/
def url (s : Settings) (chosen : Option Path) (t : Tree) : Except Failure (String × Tree) :=
  match s.databaseUrl, chosen with
  | some u, none =>
    if u.isEmpty then fileUrl else .ok (withFullScheme u, t)
  | _, _ => fileUrl
where
  fileUrl : Except Failure (String × Tree) :=
    (s.storePath chosen t).map fun (p, t) => ("sqlite:///" ++ p.text, t)

/-- Whether an address is one of a server. -/
def isServerUrl (url : String) : Bool := "postgresql".isPrefixOf url

end Settings

end Chronicle
