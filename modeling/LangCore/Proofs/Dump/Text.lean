import Mathlib
import LangCore.Dump.Sexpr

/-!
# Texts of documents as characters

The characters of a form are those of its parts with blanks between them, in
parentheses. Behind the header of a node every child starts on a line of its own.
-/

namespace LangCore.Sexpr

@[induction_eliminator]
theorem induction {motive : Sexpr → Prop} (atom : ∀ s, motive (atom s))
    (form : ∀ parts, (∀ s ∈ parts, motive s) → motive (form parts))
    (node : ∀ header children, (∀ s ∈ header, motive s) → (∀ s ∈ children, motive s) →
      motive (node header children)) (s : Sexpr) : motive s :=
  @Sexpr.rec motive (fun ss => ∀ s ∈ ss, motive s) atom form node
    (fun _ h => absurd h List.not_mem_nil)
    (fun _ _ hhead htail => List.forall_mem_cons.2 ⟨hhead, htail⟩) s

/-- The characters of a document whose first line stands at the given depth. -/
def chars (width depth : ℕ) (s : Sexpr) : List Char :=
  (s.text width depth).toList

def spaced (width depth : ℕ) (ss : List Sexpr) : List Char :=
  [' '].intercalate (ss.map (chars width depth))

def lineBreak (width depth : ℕ) : List Char :=
  '\n' :: List.replicate (depth * width) ' '

/-- The characters of documents on lines of their own. -/
def lines (width depth : ℕ) (ss : List Sexpr) : List Char :=
  ss.flatMap fun s => lineBreak width depth ++ s.chars width depth

@[simp] theorem chars_atom (width depth : ℕ) (s : String) :
    (atom s).chars width depth = s.toList := rfl

theorem toList_intercalate_texts (width depth : ℕ) (ss : List Sexpr) :
    (" ".intercalate (ss.map (text width depth))).toList = spaced width depth ss := by
  rw [String.toList_intercalate, List.map_map]
  rfl

@[simp] theorem chars_form (width depth : ℕ) (parts : List Sexpr) :
    (form parts).chars width depth = '(' :: spaced width depth parts ++ [')'] := by
  rw [chars, text_form, String.toList_append, String.toList_append, toList_intercalate_texts]
  rfl

@[simp] theorem chars_node (width depth : ℕ) (header children : List Sexpr) :
    (node header children).chars width depth =
      '(' :: spaced width depth header ++ ' ' :: '(' :: lines width (depth + 1) children ++
        [')', ')'] := by
  have hlines : (String.join (children.map fun s => "\n" ++ indentation width (depth + 1) ++
      s.text width (depth + 1))).toList = lines width (depth + 1) children := by
    simp [lines, lineBreak, chars, List.flatMap_map]
  rw [chars, text_node]
  simp only [String.toList_append, hlines, toList_intercalate_texts]
  simp

@[simp] theorem spaced_nil (width depth : ℕ) : spaced width depth [] = [] := rfl

@[simp] theorem spaced_cons (width depth : ℕ) (s : Sexpr) (ss : List Sexpr) :
    spaced width depth (s :: ss) =
      s.chars width depth ++ ss.flatMap fun t => ' ' :: t.chars width depth := by
  induction ss generalizing s with
  | nil => simp [spaced]
  | cons t ss ih =>
    have htail := ih t
    rw [spaced, List.map_cons] at htail
    rw [spaced, List.map_cons, List.map_cons, List.intercalate_cons_cons, htail]
    simp

@[simp] theorem lines_nil (width depth : ℕ) : lines width depth [] = [] := rfl

@[simp] theorem lines_cons (width depth : ℕ) (s : Sexpr) (ss : List Sexpr) :
    lines width depth (s :: ss) =
      lineBreak width depth ++ s.chars width depth ++ lines width depth ss := by
  simp [lines]

end LangCore.Sexpr
