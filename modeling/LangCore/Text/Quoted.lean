import LangCore.Text.Unprintable
import LangCore.Text.Extending

/-!
# Quoted text

A quoted text stands between double quotes. Quotes, backslashes and the common
controls have two-character escapes, and every other character that cannot be
read on its own is written by its code point in lower case hexadecimal. Single
quotes are left as they are.
-/

namespace LangCore.Text

/-- A code point between braces, as `\u` escapes write it. -/
def codePointEscape (c : Char) : List Char :=
  '\\' :: 'u' :: '\x7b' :: Nat.toDigits 16 c.toNat ++ ['\x7d']

/-- The characters that stand for one character of a quoted text. -/
def quoteChar (c : Char) : List Char :=
  if c = '"' then ['\\', '"']
  else if c = '\\' then ['\\', '\\']
  else if c = '\n' then ['\\', 'n']
  else if c = '\r' then ['\\', 'r']
  else if c = '\t' then ['\\', 't']
  else if c = '\x00' then ['\\', '0']
  else if isUnprintable c || isExtending c then codePointEscape c
  else [c]

def quoteChars (s : List Char) : List Char :=
  s.flatMap quoteChar

@[simp] theorem quoteChars_nil : quoteChars [] = [] := rfl

@[simp] theorem quoteChars_cons (c : Char) (s : List Char) :
    quoteChars (c :: s) = quoteChar c ++ quoteChars s := by
  simp [quoteChars]

@[simp] theorem quoteChars_append (s t : List Char) :
    quoteChars (s ++ t) = quoteChars s ++ quoteChars t := by
  simp [quoteChars]

def quoted (s : String) : String :=
  String.ofList ('"' :: quoteChars s.toList ++ ['"'])

@[simp] theorem toList_quoted (s : String) :
    (quoted s).toList = '"' :: quoteChars s.toList ++ ['"'] := by
  simp [quoted]

end LangCore.Text
