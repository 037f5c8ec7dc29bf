/-!
# Source spans

A span is the range of bytes that a lexeme covers in its source text. Offsets
are 32-bit words, so a source text is limited to 4 GiB and a wider offset is
refused rather than narrowed.
-/

namespace LangCore

/-- A byte range of a source text. The ends are independent: the start may lie past the stop. -/
structure Span where
  start : UInt32
  stop : UInt32
  deriving DecidableEq

/-- A byte offset past the limit of source texts. -/
inductive SpanError
  | startTooLarge (offset : Nat)
  | endTooLarge (offset : Nat)
  deriving DecidableEq

def SpanError.message : SpanError → String
  | .startTooLarge offset => "span start " ++ toString offset ++ " is past the 4 GiB source limit"
  | .endTooLarge offset => "span end " ++ toString offset ++ " is past the 4 GiB source limit"

namespace Span

/-- The span of everything that comes from no source text. -/
def dummy : Span := ⟨0, 0⟩

/-- Narrows a range of offsets. The start is examined first. -/
def ofRange (start stop : Nat) : Except SpanError Span :=
  if start < UInt32.size then
    if stop < UInt32.size then .ok ⟨.ofNat start, .ofNat stop⟩
    else .error (.endTooLarge stop)
  else .error (.startTooLarge start)

/-- The smallest span that reaches from the earlier start to the later stop. -/
def merge (a b : Span) : Span :=
  ⟨min a.start b.start, max a.stop b.stop⟩

@[simp] theorem merge_start (a b : Span) : (a.merge b).start = min a.start b.start := rfl

@[simp] theorem merge_stop (a b : Span) : (a.merge b).stop = max a.stop b.stop := rfl

/-- All spans merged into one, the dummy span when there are none. -/
def mergeAll : List Span → Span
  | [] => dummy
  | first :: rest => rest.foldl merge first

@[simp] theorem mergeAll_nil : mergeAll [] = dummy := rfl

@[simp] theorem mergeAll_singleton (s : Span) : mergeAll [s] = s := rfl

def text (s : Span) : String :=
  toString s.start.toNat ++ ".." ++ toString s.stop.toNat

end Span
end LangCore
