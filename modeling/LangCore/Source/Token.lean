import LangCore.Source.Span
import LangCore.Text.Quoted

/-!
# Tokens

A token is a lexeme together with its place in the source text. Nothing else is
known of it: whether it is a name, a keyword or an operator follows from where
it stands in a tree.
-/

namespace LangCore

/-- A lexeme and its place. Lines count from one; tokens without a source are on line zero. -/
structure Token where
  lexeme : String
  span : Span
  line : UInt32
  deriving DecidableEq

namespace Token

/-- A token that comes from no source text. -/
def synthetic (lexeme : String) : Token :=
  ⟨lexeme, .dummy, 0⟩

/-- The token of an omitted optional part. -/
def absent : Token := synthetic ""

instance : Inhabited Token := ⟨absent⟩

/-- The token of the lexeme at a range of offsets. -/
def ofRange (lexeme : String) (start stop : Nat) (line : UInt32) : Except SpanError Token := do
  let span ← Span.ofRange start stop
  return ⟨lexeme, span, line⟩

def isEmpty (t : Token) : Bool :=
  t.lexeme.isEmpty

@[simp] theorem isEmpty_absent : absent.isEmpty = true := rfl

/-- The quoted lexeme and its place. -/
def inspect (t : Token) : String :=
  Text.quoted t.lexeme ++ " @ " ++ toString t.line.toNat ++ ":" ++ t.span.text

end Token
end LangCore
