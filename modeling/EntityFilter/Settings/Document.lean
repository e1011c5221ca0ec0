import EntityFilter.Settings
import EntityFilter.Toml.Reader

/-!
# Settings as a document

Settings are written as a TOML document with the keys `ensure_ignore_case` and `dialect`,
both optional and no others.

* `Settings.ofDocument?`: the settings of a document.
-/

namespace EntityFilter

/-- The dialect of a name. -/
def Dialect.ofName? (s : String) : Option Dialect :=
  if s = "standard" then some .standard
  else if s = "sql_server" then some .sqlServer
  else none

/-- The name of a dialect. -/
def Dialect.name : Dialect → String
  | .standard => "standard"
  | .sqlServer => "sql_server"

theorem Dialect.ofName?_name (d : Dialect) : ofName? d.name = some d := by
  cases d <;> decide

/-- A dialect as a value: its name, or its name as the only key of a table, with nothing in
it. -/
def Dialect.ofNode? : Toml.Node → Option Dialect
  | .text s => ofName? s
  | .table _ [(s, .table _ [])] => ofName? s
  | .table _ [(s, .emptyArray)] => ofName? s
  | _ => none

namespace Settings

/-- Takes over one entry of a document. -/
def withEntry? (s : Settings) : String × Toml.Node → Option Settings
  | ("ensure_ignore_case", .bool b) => some ⟨b, s.dialect⟩
  | ("dialect", v) => (Dialect.ofNode? v).map fun d => ⟨s.ignoreCase, d⟩
  | _ => none

/-- **The settings of a document**; none if it is malformed or says anything else. -/
def ofDocument? (text : String) : Option Settings :=
  (Toml.parse? text).bind fun entries => entries.foldlM withEntry? standard

end Settings

end EntityFilter
