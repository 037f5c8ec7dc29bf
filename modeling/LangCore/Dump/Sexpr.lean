/-!
# Indented s-expressions

The document that a tree is printed as. An atom is written as it is, a form
between parentheses on the line it starts on, and a node opens a second
parenthesis after its header and has each child on a line of its own, one level
deeper. Indentation is the only thing that depends on width and depth. A node
whose lines would be indented further than any text is long cannot be written,
not even without children.
-/

namespace LangCore

inductive Sexpr
  | atom (text : String)
  | form (parts : List Sexpr)
  | node (header children : List Sexpr)

namespace Sexpr

/-- Whether a text can hold the blanks before a line: no text has 2 ^ 63 bytes. -/
def indentable (width depth : Nat) : Bool :=
  decide (depth * width < UInt64.size / 2)

/-- The blanks before a line at some depth. -/
def indentation (width depth : Nat) : String :=
  "".pushn ' ' (depth * width)

theorem toList_pushn (s : String) (c : Char) (n : Nat) :
    (s.pushn c n).toList = s.toList ++ List.replicate n c := by
  induction n with
  | zero => simp [String.pushn, Nat.repeat]
  | succ n ih =>
    rw [List.replicate_succ', ← List.append_assoc, ← ih]
    simp [String.pushn, Nat.repeat]

@[simp] theorem toList_indentation (width depth : Nat) :
    (indentation width depth).toList = List.replicate (depth * width) ' ' := by
  simp [indentation, toList_pushn]

mutual

/-- The text of a document whose first line stands at the given depth. -/
def text (width depth : Nat) : Sexpr → String
  | atom s => s
  | form parts => "(" ++ " ".intercalate (texts width depth parts) ++ ")"
  | node header children =>
    "(" ++ " ".intercalate (texts width depth header) ++ " (" ++
      String.join ((texts width (depth + 1) children).map
        fun s => "\n" ++ indentation width (depth + 1) ++ s) ++ "))"

def texts (width depth : Nat) : List Sexpr → List String
  | [] => []
  | s :: rest => s.text width depth :: texts width depth rest

end

mutual

/-- Whether the lines of every node in a document can be indented. -/
def fits (width depth : Nat) : Sexpr → Bool
  | atom _ => true
  | form parts => fitsAll width depth parts
  | node header children =>
    fitsAll width depth header && indentable width (depth + 1) && fitsAll width (depth + 1) children

def fitsAll (width depth : Nat) : List Sexpr → Bool
  | [] => true
  | s :: rest => s.fits width depth && fitsAll width depth rest

end

@[simp] theorem fitsAll_eq_all (width depth : Nat) (ss : List Sexpr) :
    fitsAll width depth ss = ss.all (fits width depth) := by
  induction ss with
  | nil => rfl
  | cons s ss ih => simp [fitsAll, ih]

@[simp] theorem fits_atom (width depth : Nat) (s : String) :
    (atom s).fits width depth = true := rfl

theorem fits_form (width depth : Nat) (parts : List Sexpr) :
    (form parts).fits width depth = parts.all (fits width depth) := by
  simp [fits]

theorem fits_node (width depth : Nat) (header children : List Sexpr) :
    (node header children).fits width depth =
      (header.all (fits width depth) && indentable width (depth + 1) &&
        children.all (fits width (depth + 1))) := by
  simp [fits]

@[simp] theorem texts_eq_map (width depth : Nat) (ss : List Sexpr) :
    texts width depth ss = ss.map (text width depth) := by
  induction ss with
  | nil => rfl
  | cons s ss ih => simp [texts, ih]

@[simp] theorem text_atom (width depth : Nat) (s : String) :
    (atom s).text width depth = s := rfl

theorem text_form (width depth : Nat) (parts : List Sexpr) :
    (form parts).text width depth =
      "(" ++ " ".intercalate (parts.map (text width depth)) ++ ")" := by
  simp [text]

theorem text_node (width depth : Nat) (header children : List Sexpr) :
    (node header children).text width depth =
      "(" ++ " ".intercalate (header.map (text width depth)) ++ " (" ++
        String.join (children.map fun s =>
          "\n" ++ indentation width (depth + 1) ++ s.text width (depth + 1)) ++ "))" := by
  simp [text, Function.comp_def]

end Sexpr
end LangCore
