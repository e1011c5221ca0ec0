import EntityFilter.Dialect
import EntityFilter.Text.Case

/-!
# Settings of a compilation

* `Settings.caseText`: texts are compared in upper case where case is ignored.
-/

namespace EntityFilter

/-- How filters are compiled. -/
structure Settings where
  ignoreCase : Bool
  dialect : Dialect
  deriving DecidableEq, Inhabited

namespace Settings

/-- The settings that hold when nothing is said. -/
def standard : Settings := ⟨false, .standard⟩

/-- A text as it is compared. -/
def caseText (s : Settings) (t : String) : String :=
  if s.ignoreCase then Text.upper t else t

end Settings

end EntityFilter
