import Mathlib
import LangCore.Dump.Tree
import LangCore.Walk.Inventory
import LangCore.Proofs.Walk.Every

/-!
# Atoms of printed trees

What an item is written as holds the words of the item itself and whatever the
items below it are written as. A property of all atoms is therefore known from
the words of each item.
-/

namespace LangCore

namespace Sexpr

mutual

/-- The atoms of a document, in the order they are written. -/
def atoms : Sexpr → List String
  | atom s => [s]
  | form parts => atomsAll parts
  | node header children => atomsAll header ++ atomsAll children

def atomsAll : List Sexpr → List String
  | [] => []
  | s :: rest => s.atoms ++ atomsAll rest

end

@[simp] theorem atomsAll_eq_flatMap (ss : List Sexpr) : atomsAll ss = ss.flatMap atoms := by
  induction ss with
  | nil => rfl
  | cons s ss ih => simp [atomsAll, ih]

@[simp] theorem atoms_atom (s : String) : (atom s).atoms = [s] := rfl

@[simp] theorem atoms_form (parts : List Sexpr) : (form parts).atoms = parts.flatMap atoms := by
  simp [atoms]

@[simp] theorem atoms_node (header children : List Sexpr) :
    (node header children).atoms = header.flatMap atoms ++ children.flatMap atoms := by
  simp [atoms]

end Sexpr

def TypedName.names (entries : List TypedName) : List String :=
  entries.map fun entry => entry.name.lexeme

/-- The words that an expression writes apart from those of its parts. -/
def Expr.words : Expr → List String
  | .assign _ oper _ | .binary _ oper _ | .logical _ oper _ | .unary oper _ => [oper.lexeme]
  | .block _ => ["Expr::Block"]
  | .boolean _ value => [if value then "true" else "false"]
  | .call _ _ _ | .unit _ => []
  | .field _ name => [".", name.lexeme]
  | .float _ value => [value.exactText]
  | .forIn _ name _ _ => ["Expr::For", name.lexeme]
  | .ifElse _ _ _ _ => ["Expr::If"]
  | .integer _ value => [toString value.toInt]
  | .string _ value => ["\"" ++ value ++ "\""]
  | .switch _ _ _ => ["Expr::Switch"]
  | .symbol name => [name.lexeme]
  | .whileDo _ _ _ => ["Expr::While"]

def Pattern.words : Pattern → List String
  | .value _ => []
  | .wildcard _ => ["_"]

def FunctionDecl.words (f : FunctionDecl) : List String :=
  "Stmt::Function" :: f.name.lexeme :: TypedName.names f.params

def Stmt.words : Stmt → List String
  | .breakLoop _ => ["Stmt::Break"]
  | .continueLoop _ => ["Stmt::Continue"]
  | .enumDecl name variants => "Stmt::Enum" :: name.lexeme :: TypedName.names variants
  | .expression _ => ["Stmt::Expression"]
  | .functionDecl _ => []
  | .implDecl _ _ _ => ["Stmt::Impl"]
  | .returnValue _ _ => ["Stmt::Return"]
  | .structDecl name fields => "Stmt::Struct" :: name.lexeme :: TypedName.names fields
  | .traitDecl name _ => ["Stmt::Trait", name.lexeme]
  | .binding keyword name _ _ => ["Stmt::Variable", keyword.lexeme, name.lexeme]

namespace Item

def sexprs : Item → List Sexpr
  | stmt s => [s.sexpr]
  | expr e => [e.sexpr]
  | pattern p => [p.sexpr]
  | block b => b.sexprs
  | function f => [f.sexpr]
  | typename t => [.atom t.name]

/-- The words that an item writes apart from those of the items below it. -/
def words : Item → List String
  | stmt s => s.words
  | expr e => e.words
  | pattern p => p.words
  | block _ => []
  | function f => f.words
  | typename t => [t.name]

def atoms (item : Item) : List String :=
  item.sexprs.flatMap Sexpr.atoms

@[simp] theorem atoms_stmt (s : Stmt) : (stmt s).atoms = s.sexpr.atoms := by
  simp [atoms, sexprs]

@[simp] theorem atoms_expr (e : Expr) : (expr e).atoms = e.sexpr.atoms := by
  simp [atoms, sexprs]

@[simp] theorem atoms_pattern (p : Pattern) : (pattern p).atoms = p.sexpr.atoms := by
  simp [atoms, sexprs]

@[simp] theorem atoms_block (b : Block) : (block b).atoms = b.sexprs.flatMap Sexpr.atoms := rfl

@[simp] theorem atoms_function (f : FunctionDecl) : (function f).atoms = f.sexpr.atoms := by
  simp [atoms, sexprs]

@[simp] theorem atoms_typename (t : Typename) : (typename t).atoms = [t.name] := rfl

variable {a : String}

theorem mem_atoms_typedNames {entries : List TypedName}
    (h : a ∈ (entries.map TypedName.sexpr).flatMap Sexpr.atoms) :
    a ∈ TypedName.names entries ∨ a ∈ (entries.map TypedName.item).flatMap atoms := by
  rw [List.flatMap_map, List.mem_flatMap] at h ⊢
  obtain ⟨entry, hentry, ha⟩ := h
  simp only [TypedName.sexpr, Sexpr.atoms_form, List.flatMap_cons, List.flatMap_nil,
    Sexpr.atoms_atom, List.mem_append, List.mem_singleton, List.not_mem_nil, or_false] at ha
  rcases ha with rfl | rfl
  · exact Or.inl (List.mem_map_of_mem hentry)
  · exact Or.inr ⟨entry, hentry, List.mem_singleton_self _⟩

theorem mem_atoms_switchCase {c : SwitchCase} (h : a ∈ c.sexpr.atoms) :
    a ∈ c.items.flatMap atoms := by
  obtain ⟨pattern, predicate, body⟩ := c
  simp only [SwitchCase.sexpr, Sexpr.atoms_node, List.flatMap_cons, List.flatMap_nil,
    List.append_nil, List.append_assoc] at h
  simpa [SwitchCase.items] using h

theorem mem_atoms_of_expr {e : Expr} (h : a ∈ e.sexpr.atoms) :
    a ∈ e.words ∨ a ∈ e.items.flatMap atoms := by
  cases e with
  | switch keyword value cases =>
    simp only [Expr.sexpr, Sexpr.atoms_node, SwitchCase.sexprs_eq_map, List.flatMap_cons,
      List.flatMap_nil, List.append_nil, Sexpr.atoms_atom, List.mem_append, List.flatMap_map,
      List.mem_flatMap] at h
    rcases h with (h | h) | ⟨c, hc, h⟩
    · exact Or.inl h
    · simp [Expr.items, h]
    · obtain ⟨i, hi, ha⟩ := List.mem_flatMap.1 (mem_atoms_switchCase h)
      refine Or.inr (List.mem_flatMap.2 ⟨i, ?_, ha⟩)
      exact List.mem_cons_of_mem _ (List.mem_flatMap.2 ⟨c, hc, hi⟩)
  | _ =>
    simp [Expr.sexpr, Expr.words, Expr.items, List.flatMap_map] at h ⊢ <;> tauto

theorem mem_atoms_of_pattern {p : Pattern} (h : a ∈ p.sexpr.atoms) :
    a ∈ p.words ∨ a ∈ p.items.flatMap atoms := by
  cases p <;> simpa [Pattern.sexpr, Pattern.words, Pattern.items] using h

theorem mem_atoms_of_block {b : Block} (h : a ∈ b.sexprs.flatMap Sexpr.atoms) :
    a ∈ b.items.flatMap atoms := by
  obtain ⟨brace, stmts, result⟩ := b
  simpa [Block.sexprs, Block.items, List.flatMap_map] using h

theorem mem_atoms_of_function {f : FunctionDecl} (h : a ∈ f.sexpr.atoms) :
    a ∈ f.words ∨ a ∈ f.items.flatMap atoms := by
  obtain ⟨name, params, result, body⟩ := f
  have hparams := @mem_atoms_typedNames a params
  simp only [FunctionDecl.sexpr, Sexpr.atoms_node, Sexpr.atoms_form, Sexpr.atoms_atom,
    List.flatMap_cons, List.flatMap_nil, List.append_nil, List.mem_append] at h
  simp only [FunctionDecl.words, FunctionDecl.items, List.flatMap_append, List.flatMap_cons,
    List.flatMap_nil, List.append_nil, List.mem_append, List.mem_cons, atoms_typename,
    atoms_block]
  simp only [List.mem_singleton] at h ⊢
  tauto

theorem mem_atoms_of_stmt {s : Stmt} (h : a ∈ s.sexpr.atoms) :
    a ∈ s.words ∨ a ∈ s.items.flatMap atoms := by
  cases s with
  | enumDecl name entries | structDecl name entries =>
    have hentries := @mem_atoms_typedNames a entries
    simp only [Stmt.sexpr, Sexpr.atoms_node, Sexpr.atoms_atom, List.flatMap_cons,
      List.flatMap_nil, List.append_nil, List.mem_append, List.mem_singleton] at h
    simp only [Stmt.words, Stmt.items, List.mem_cons]
    tauto
  | implDecl typename trait? methods =>
    cases trait? <;>
    · simp [Stmt.sexpr, Stmt.words, Stmt.items, List.flatMap_map] at h ⊢
      tauto
  | binding keyword name typename? initializer =>
    cases typename? <;>
    · simp [Stmt.sexpr, Stmt.words, Stmt.items] at h ⊢
      tauto
  | _ =>
    simp [Stmt.sexpr, Stmt.words, Stmt.items, List.flatMap_map] at h ⊢
    tauto

theorem mem_atoms_cases {item : Item} (h : a ∈ item.atoms) :
    a ∈ item.words ∨ a ∈ item.children.flatMap atoms := by
  cases item with
  | stmt s => exact mem_atoms_of_stmt (by simpa using h)
  | expr e => exact mem_atoms_of_expr (by simpa using h)
  | pattern p => exact mem_atoms_of_pattern (by simpa using h)
  | block b => exact Or.inr (mem_atoms_of_block h)
  | function f => exact mem_atoms_of_function (by simpa using h)
  | typename t => exact Or.inl h

/-- The items that are written piece by piece. A typename is written by its name, without its
parts. -/
def printed (item : Item) : List Item :=
  item.walk fun i => (Inventory.typename? i).isNone

theorem printed_typename (t : Typename) : (typename t).printed = [typename t] :=
  walk_of_not_enter rfl

theorem printed_of_not_typename {item : Item} (h : Inventory.typename? item = none) :
    item.printed = item :: item.children.flatMap printed := by
  rw [printed, walk_eq, h]
  rfl

/-- Every atom is a word of the item or of one that is written below it. -/
theorem exists_mem_words {item : Item} (h : a ∈ item.atoms) :
    ∃ i ∈ item.printed, a ∈ i.words := by
  induction item using induction_children with
  | node item ih =>
    cases hitem : Inventory.typename? item with
    | some t =>
      cases item with
      | typename t => exact ⟨typename t, by rw [printed_typename]; exact List.mem_cons_self, h⟩
      | _ => cases hitem
    | none =>
      rw [printed_of_not_typename hitem]
      rcases mem_atoms_cases h with hword | hbelow
      · exact ⟨item, List.mem_cons_self, hword⟩
      · obtain ⟨c, hc, ha⟩ := List.mem_flatMap.1 hbelow
        obtain ⟨i, hi, hword⟩ := ih c hc ha
        exact ⟨i, List.mem_cons_of_mem _ (List.mem_flatMap.2 ⟨c, hc, hi⟩), hword⟩

end Item
end LangCore
