import LangCore.Text.Quoted

/-!
# Inspection forms

The one-line text that shows everything a value holds: plain words, variants
with their content in parentheses, records with named fields and lists. The text
is appended to what is already there, so that every character is written once.
-/

namespace LangCore

inductive Inspection
  | word (text : String)
  | variant (name : String) (content : Inspection)
  | record (name : String) (fields : List (String × Inspection))
  | list (items : List Inspection)

namespace Inspection

def quoted (s : String) : Inspection :=
  word (Text.quoted s)

def option : Option Inspection → Inspection
  | some content => variant "Some" content
  | none => word "None"

mutual

def write : Inspection → String → String
  | word text, out => out ++ text
  | variant name content, out => write content (out ++ name ++ "(") ++ ")"
  | record name fields, out => writeFields fields " " (out ++ name ++ " \x7b") ++ " \x7d"
  | list items, out => writeItems items "" (out ++ "[") ++ "]"

/-- Appends fields, the first after `separator` and the others after a comma. -/
def writeFields : List (String × Inspection) → String → String → String
  | [], _, out => out
  | (name, content) :: rest, separator, out =>
    writeFields rest ", " (write content (out ++ separator ++ name ++ ": "))

/-- Appends items, the first after `separator` and the others after a comma. -/
def writeItems : List Inspection → String → String → String
  | [], _, out => out
  | content :: rest, separator, out =>
    writeItems rest ", " (write content (out ++ separator))

end

def text (form : Inspection) : String :=
  form.write ""

end Inspection

end LangCore
