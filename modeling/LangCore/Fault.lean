import LangCore.Source.Span

/-!
# Faults

What may go wrong while trees are built and printed. A position past the source
limit is reported to whoever reads the source; an empty type name, a line
indented past every text and a failed step are mistakes of the program that
holds the trees, and work in progress can be abandoned and taken up again after
them.
-/

namespace LangCore

inductive Fault
  | position (cause : SpanError)
  | emptyName
  | indentTooWide
  | childFailed
  deriving DecidableEq

namespace Fault

def message : Fault → String
  | .position cause => cause.message
  | .emptyName => "basic typename requires a non-empty name"
  | .indentTooWide => "capacity overflow"
  | .childFailed => "child failed"

/-- Whether abandoned work may be taken up again after the fault. -/
def recoverable : Fault → Bool
  | .position _ => false
  | .emptyName | .indentTooWide | .childFailed => true

end Fault
end LangCore
