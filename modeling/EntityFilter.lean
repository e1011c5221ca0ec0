import EntityFilter.Ascending
import EntityFilter.Compile
import EntityFilter.Compile.Clause
import EntityFilter.Compile.Lowering
import EntityFilter.Compile.Route
import EntityFilter.Dialect
import EntityFilter.Field
import EntityFilter.Filter
import EntityFilter.Filter.Error
import EntityFilter.Like
import EntityFilter.Model
import EntityFilter.Placeholder
import EntityFilter.Predicate
import EntityFilter.Proofs.Compile.Agreement
import EntityFilter.Proofs.Compile.Anchored
import EntityFilter.Proofs.Compile.Answers
import EntityFilter.Proofs.Compile.Building
import EntityFilter.Proofs.Compile.Checks
import EntityFilter.Proofs.Compile.Columns
import EntityFilter.Proofs.Compile.Complement
import EntityFilter.Proofs.Compile.Confinement
import EntityFilter.Proofs.Compile.Declared
import EntityFilter.Proofs.Compile.Dialects
import EntityFilter.Proofs.Compile.Discarding
import EntityFilter.Proofs.Compile.Dropping
import EntityFilter.Proofs.Compile.Elements
import EntityFilter.Proofs.Compile.Entries
import EntityFilter.Proofs.Compile.Failures
import EntityFilter.Proofs.Compile.IgnoringCase
import EntityFilter.Proofs.Compile.Joins
import EntityFilter.Proofs.Compile.Lasting
import EntityFilter.Proofs.Compile.Letters
import EntityFilter.Proofs.Compile.Lowered
import EntityFilter.Proofs.Compile.Meaning
import EntityFilter.Proofs.Compile.Membership
import EntityFilter.Proofs.Compile.Moving
import EntityFilter.Proofs.Compile.Navigation
import EntityFilter.Proofs.Compile.Orders
import EntityFilter.Proofs.Compile.Outcomes
import EntityFilter.Proofs.Compile.Places
import EntityFilter.Proofs.Compile.Recased
import EntityFilter.Proofs.Compile.Refusals
import EntityFilter.Proofs.Compile.Renumbered
import EntityFilter.Proofs.Compile.Reordering
import EntityFilter.Proofs.Compile.Reports
import EntityFilter.Proofs.Compile.RootJoins
import EntityFilter.Proofs.Compile.Scoping
import EntityFilter.Proofs.Compile.Sharing
import EntityFilter.Proofs.Compile.Siblings
import EntityFilter.Proofs.Compile.Steps
import EntityFilter.Proofs.Compile.Successive
import EntityFilter.Proofs.Compile.Texts
import EntityFilter.Proofs.Compile.Trails
import EntityFilter.Proofs.Compile.Values
import EntityFilter.Proofs.Compile.Widening
import EntityFilter.Proofs.Like.Elements
import EntityFilter.Proofs.Predicate.Literals
import EntityFilter.Proofs.Predicate.Value
import EntityFilter.Proofs.Query.Arena
import EntityFilter.Proofs.Query.Flags
import EntityFilter.Proofs.Query.Forest
import EntityFilter.Proofs.Query.Growth
import EntityFilter.Proofs.Query.Literals
import EntityFilter.Proofs.Query.Renumbering
import EntityFilter.Proofs.Schema.Selectors
import EntityFilter.Proofs.Store.Assignment
import EntityFilter.Proofs.Store.Contents
import EntityFilter.Proofs.Store.Evaluation
import EntityFilter.Proofs.Store.Reach
import EntityFilter.Proofs.Store.Selection
import EntityFilter.Proofs.Store.Shape
import EntityFilter.Proofs.Store.Ways
import EntityFilter.Proofs.Text.Grammar
import EntityFilter.Proofs.Text.Literals
import EntityFilter.Proofs.Text.Names
import EntityFilter.Proofs.Text.Numeral
import EntityFilter.Proofs.Text.Placeholders
import EntityFilter.Proofs.Text.Upper
import EntityFilter.Proofs.Wildcard.Brackets
import EntityFilter.Proofs.Wildcard.Language
import EntityFilter.Proofs.Wildcard.Upper
import EntityFilter.Query
import EntityFilter.Query.Text
import EntityFilter.Schema
import EntityFilter.Schema.Registration
import EntityFilter.Schema.Selector
import EntityFilter.Settings
import EntityFilter.Settings.Document
import EntityFilter.Store
import EntityFilter.Store.Binding
import EntityFilter.Store.Error
import EntityFilter.Store.Select
import EntityFilter.Text.Case
import EntityFilter.Text.CaseTable
import EntityFilter.Text.Dotted
import EntityFilter.Text.Numeral
import EntityFilter.Text.Quoted
import EntityFilter.Toml.Reader
import EntityFilter.Toml.Table
import EntityFilter.Truth
import EntityFilter.Value
import EntityFilter.Value.Comparison
import EntityFilter.Wildcard
