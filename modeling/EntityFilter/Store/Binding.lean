import EntityFilter.Like
import EntityFilter.Model
import EntityFilter.Store
import EntityFilter.Store.Error
import EntityFilter.Text.Case
import EntityFilter.Truth
import EntityFilter.Value.Comparison

/-!
# Rows of sources

During a selection every source is bound to one of the things that it ranges over.

* `Binding.children`: what an attribute of a bound source reaches.
* `Expr.valueIn`: the value that an expression reads from a bound source.
* `Query.candidates`: what a source can be bound to, given the sources before it.
-/

namespace EntityFilter

/-- What a source is bound to. -/
inductive Binding
  | row (entity : String) (id : Int) (record : Record)
  | element (v : Value)
  | entry (key : String) (v : Value)
  /-- Nothing: the row of a left join that reaches nothing. -/
  | missing

/-- The bindings of sources. -/
abbrev Env := SourceId → Option Binding

namespace Env

/-- The bindings before any source is bound. -/
def empty : Env := fun _ => none

/-- Binds one more source. -/
def set (env : Env) (s : SourceId) (b : Binding) : Env :=
  fun t => if t = s then some b else env t

@[simp] theorem set_self (env : Env) (s : SourceId) (b : Binding) : env.set s b s = some b := by
  simp [set]

theorem set_of_ne {env : Env} {s t : SourceId} {b : Binding} (h : t ≠ s) :
    env.set s b t = env t := by
  simp [set, h]

end Env

namespace Store

variable (st : Store)

/-- The records of an entity, in ascending order. -/
def rows (entity : String) : List Binding :=
  (st.table entity).entries.map fun (id, record) => .row entity id record

/-- The record of an entity that an identifier leads to. -/
def row (entity : String) (id : Int) : Except StoreError Binding :=
  match st.record? entity id with
  | some record => .ok (.row entity id record)
  | none => .error (.unknownRecord entity id)

end Store

/-- **What an attribute of a bound source reaches**, in order. -/
def Binding.children (st : Store) (parent : Binding) (relation : Attribute) :
    Except StoreError (List Binding) :=
  match parent with
  | .missing => .ok []
  | .row e _ record =>
    match relation.kind, record.find? relation.name with
    | .basic _, _ => .error (.notJoinable e relation.name)
    | _, none => .ok []
    | .reference target, some (.reference id) => id.toList.mapM (st.row target)
    | .collection target, some (.collection ids) => ids.mapM (st.row target)
    | .elements _, some (.elements vs) => .ok (vs.map .element)
    | .map _, some (.map m) => .ok (m.entries.map fun (key, v) => .entry key v)
    | _, _ => .error (.notJoinable e relation.name)
  | _ => .error (.notJoinable "<element>" relation.name)

/-- The value of an attribute of a record. A record's identifier stands under the primary key,
and a reference is the identifier that it leads to. -/
def Model.attributeValue (m : Model) (e : String) (id : Int) (record : Record) (name : String) :
    Value :=
  if name = (m.entity e).primaryKey then .int id
  else
    match record.find? name with
    | some (.scalar v) => v
    | some (.reference (some target)) => .int target
    | _ => .null

/-- **The value that an expression reads from a bound source**, NULL where there is none. -/
def Expr.valueIn (m : Model) : Expr → Binding → Value
  | column _ name, .row e id record => m.attributeValue e id record name
  | element _, .row _ id _ => .int id
  | element _, .element v => v
  | mapKey _, .entry key _ => .text key
  | mapValue _, .entry _ v => v
  | upper e, b =>
    match e.valueIn m b with
    | .null => .null
    | v => .text (Text.upper v.asText)
  | _, _ => .null

/-- The value of an expression under bindings. -/
def Expr.read (m : Model) (env : Env) (e : Expr) : Except StoreError Value :=
  match env e.source with
  | some b => .ok (e.valueIn m b)
  | none => .error (.unboundSource e.source)

/-- A left join that reaches nothing keeps its row. -/
def JoinKind.complete (kind : JoinKind) (bs : List Binding) : List Binding :=
  match kind, bs with
  | .left, [] => [.missing]
  | _, bs => bs

/-- **What a source can be bound to**, given the sources before it. -/
def Query.candidates (q : Query) (st : Store) (env : Env) (s : SourceId) :
    Except StoreError (List Binding) :=
  match (q.source? s).map Source.kind with
  | none => .ok []
  | some (.root e) => .ok (st.rows e)
  | some (.join parent relation kind) =>
    match env parent with
    | none => .error (.unboundSource parent)
    | some b => (b.children st relation).map kind.complete

end EntityFilter
