import EntityFilter.Compile.Clause
import EntityFilter.Settings
import EntityFilter.Text.Numeral
import EntityFilter.Wildcard

/-!
# From clauses to predicates

Each operator has a test on the expression that it reads. A negation that goes through a
relation is no test on one row: it asks that no related row be found (`Lowered.noneRelated`).

* `Settings.demandTest`: the test that related rows are looked for with.
* `Clause.lower`: what a clause asks for.
-/

namespace EntityFilter

/-- What a related row must not satisfy. -/
inductive Demand
  | equal (v : Value)
  | isIn (vs : List Value)
  deriving DecidableEq

/-- What a clause asks for. -/
inductive Lowered
  /-- A test on the row at hand. -/
  | inPlace (p : Predicate)
  /-- That no related row satisfies a demand. -/
  | noneRelated (d : Demand)

namespace Settings

variable (s : Settings)

/-- An expression as it is compared. -/
def caseExpr (e : Expr) : Expr :=
  if s.ignoreCase then .upper e else e

/-- The test for a text that may have wildcards. -/
def textTest (e : Expr) (t : String) : Predicate :=
  if Wildcard.isPattern t then
    .likePattern (s.caseExpr e) (s.caseText (Wildcard.toLike s.dialect t))
  else .equal (s.caseExpr e) (.text (s.caseText (Wildcard.literal t)))

/-- The negated test for a text that may have wildcards. -/
def notTextTest (e : Expr) (t : String) : Predicate :=
  if Wildcard.isPattern t then
    .notLikePattern (s.caseExpr e) (s.caseText (Wildcard.toLike s.dialect t))
  else .notEqual (s.caseExpr e) (.text (s.caseText (Wildcard.literal t)))

/-- The test for a value: NULL is told apart from all values, the empty text is not told
apart from NULL, and a numeral stands for itself. -/
def equalTest (e : Expr) : Value → Predicate
  | .null => .isNull e
  | .text t =>
    if Text.isNumeral t then .equal e (.text t)
    else if t = "" then .or [.isNull e, .equal e (.text "")]
    else s.textTest e t
  | v => .equal e v

/-- The negated test for a value that is neither NULL nor the empty text. -/
def notEqualTest (e : Expr) : Value → Predicate
  | .text t =>
    if Text.isNumeral t then .notEqual (s.caseExpr e) (.text (s.caseText t))
    else s.notTextTest e t
  | v => .notEqual e v

/-- The test for a list of values; of a list with texts only the texts count. -/
def isInTest (e : Expr) (vs : List Value) : Predicate :=
  let texts := vs.filterMap Value.text?
  if texts.isEmpty then .isIn e vs
  else .isIn (s.caseExpr e) (texts.map fun t => .text (s.caseText t))

/-- **The test that related rows are looked for with.** -/
def demandTest (e : Expr) : Demand → Predicate
  | .equal (.text t) =>
    if Text.isNumeral t then .equal (s.caseExpr e) (.text (s.caseText t))
    else s.textTest e t
  | .equal v => .equal e v
  | .isIn vs => s.isInTest e vs

/-- The test for the key of a map; none outside of maps. -/
def keyTest (r : Reading) (key : Option String) : List Predicate :=
  match r.key, key with
  | some e, some k => [.equal (s.caseExpr e) (.text (s.caseText k))]
  | _, _ => []

/-- A test in place, on the entry of the map key if there is one. -/
def withKey (r : Reading) (key : Option String) (p : Predicate) : Predicate :=
  match s.keyTest r key with
  | [] => p
  | tests => .and (tests ++ [p])

end Settings

namespace Clause

variable (c : Clause) (s : Settings) (replace : String → String) (r : Reading)

/-- What a clause with the operator of inequality asks for. -/
def lowerNotEqual : Lowered :=
  let inPlace p := Lowered.inPlace (s.withKey r c.selector.mapKey p)
  if c.value = .null then inPlace (.isNotNull r.value)
  else if c.value = .text "" then
    inPlace (.and [.isNotNull r.value, .notEqual r.value (.text "")])
  else if c.selector.isSimple then
    inPlace (.or [.isNull r.value, s.notEqualTest r.value c.value])
  else .noneRelated (.equal c.value)

/-- What a clause with the operator of exclusion asks for. -/
def lowerNotIn : Lowered :=
  if c.selector.isSimple then
    .inPlace (s.withKey r c.selector.mapKey
      (.or [.isNull r.value, .not (s.isInTest r.value c.values)]))
  else .noneRelated (.isIn c.values)

/-- What a clause with an order relation asks for: the argument is compared as written, after
replacements. -/
def lowerOrder (test : OrderTest) : Lowered :=
  .inPlace (s.withKey r c.selector.mapKey (.order r.value test (.text (replace c.raw))))

/-- **What a clause asks for.** -/
def lower : Lowered :=
  match c.operator with
  | .equal => .inPlace (s.withKey r c.selector.mapKey (s.equalTest r.value c.value))
  | .notEqual => c.lowerNotEqual s r
  | .greaterThan => c.lowerOrder s replace r .greater
  | .greaterThanOrEqual => c.lowerOrder s replace r .greaterOrEqual
  | .lessThan => c.lowerOrder s replace r .less
  | .lessThanOrEqual => c.lowerOrder s replace r .lessOrEqual
  | .isIn => .inPlace (s.withKey r c.selector.mapKey (s.isInTest r.value c.values))
  | .isNotIn => c.lowerNotIn s r

end Clause

end EntityFilter
