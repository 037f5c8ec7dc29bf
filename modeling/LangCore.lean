import LangCore.Json.Text
import LangCore.Source.Codec
import LangCore.Typename.Release
import LangCore.Tree.Release
import LangCore.Tree.Edits
import LangCore.Dump.Steps
import LangCore.Walk.Trace
import LangCore.Walk.Inventory
import LangCore.Inspect.Tree
import LangCore.Heap.Typing
import LangCore.Heap.Equality
import LangCore.Heap.Render
import LangCore.Proofs.Lexeme
import LangCore.Proofs.Decimal.Rank
import LangCore.Proofs.Decimal.Interval
import LangCore.Proofs.Decimal.Shortest
import LangCore.Proofs.Decimal.Text
import LangCore.Proofs.Typename.Shape
import LangCore.Proofs.Typename.Nodes
import LangCore.Proofs.Typename.Reading
import LangCore.Proofs.Typename.Names
import LangCore.Proofs.Typename.Congruence
import LangCore.Proofs.Typename.Labels
import LangCore.Proofs.Typename.Leaves
import LangCore.Proofs.Typename.Instances
import LangCore.Proofs.Typename.Conformance
import LangCore.Proofs.Heap.Log
import LangCore.Proofs.Heap.Order
import LangCore.Proofs.Heap.Bounds
import LangCore.Proofs.Heap.LastChain
import LangCore.Proofs.Heap.Growth
import LangCore.Proofs.Heap.Sameness
import LangCore.Proofs.Heap.Contents
import LangCore.Proofs.Heap.Coexisting
import LangCore.Proofs.Walk.Every
import LangCore.Proofs.Walk.Places
import LangCore.Proofs.Walk.Occurrences
import LangCore.Proofs.Walk.Inventories
import LangCore.Proofs.Dump.Bare
import LangCore.Proofs.Dump.Text
import LangCore.Proofs.Dump.Vocabulary
import LangCore.Proofs.Dump.Scan
import LangCore.Proofs.Dump.Atoms
import LangCore.Proofs.Dump.Words
import LangCore.Proofs.Dump.Lookahead
import LangCore.Proofs.Dump.Reading
import LangCore.Proofs.Dump.ReadBack
import LangCore.Proofs.Dump.ReadExpr
import LangCore.Proofs.Dump.ReadStmt
import LangCore.Proofs.Dump.Unambiguous
import LangCore.Proofs.Dump.Runs
import LangCore.Proofs.Dump.Lexemes
import LangCore.Proofs.Dump.Levels
import LangCore.Proofs.Dump.Indentation
import LangCore.Proofs.Dump.Brackets
import LangCore.Proofs.Text.Escapes
import LangCore.Proofs.Tree.Spans
import LangCore.Proofs.Release
import LangCore.Proofs.Source.Codec
