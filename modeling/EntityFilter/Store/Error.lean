import EntityFilter.Query.Text

/-!
# Why a selection fails

A selection fails where the data do not fit the entity model, or where a predicate reads a
source that has no row.
-/

namespace EntityFilter

/-- Why a selection fails. -/
inductive StoreError
  /-- A relation leads to a record that is not stored. -/
  | unknownRecord (entity : String) (id : Int)
  /-- A source is read that is not bound to a row. -/
  | unboundSource (s : SourceId)
  /-- An attribute holds something else than its kind says. -/
  | notJoinable (entity name : String)
  /-- A sub-query contains itself. -/
  | circularSubquery (s : SubqueryId)
  deriving DecidableEq

/-- The wording of an error. -/
def StoreError.message : StoreError → String
  | unknownRecord e id => s!"record {id} of entity '{e}' does not exist"
  | unboundSource s =>
    s!"predicate reads source {sourceName s} which is not bound in its scope"
  | notJoinable e name => s!"attribute '{name}' of entity '{e}' cannot be joined"
  | circularSubquery s => s!"sub-query {s} contains itself"

end EntityFilter
