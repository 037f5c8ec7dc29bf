import Mathlib
import LangCore.Proofs.Dump.Levels
import LangCore.Proofs.Dump.Lexemes

/-!
# Indentation

Width and depth of a printer show in nothing but the blanks that its lines start
with. A text in which no lexeme breaks a line has line breaks only where the
printer puts them, and if no line goes on with a blank of its own, the blanks
behind a line break tell how deep the line stands. The text at any width and
depth is then the text at width one and depth zero with these blanks counted
anew.
-/

namespace LangCore

/-- The text with `(depth + k) * width` blanks for the `k` blanks behind every line break. -/
def reindent (width depth : ℕ) (text : List Char) : List Char :=
  match text with
  | [] => []
  | c :: rest =>
    if c = '\n' then
      '\n' :: List.replicate ((depth + (rest.takeWhile (· == ' ')).length) * width) ' ' ++
        reindent width depth (rest.dropWhile (· == ' '))
    else c :: reindent width depth rest
termination_by text.length
decreasing_by
  · exact Nat.lt_succ_of_le (List.length_dropWhile_le _ _)
  · exact Nat.lt_succ_self _

variable {width depth : ℕ}

theorem reindent_cons {c : Char} (h : c ≠ '\n') (rest : List Char) :
    reindent width depth (c :: rest) = c :: reindent width depth rest := by
  rw [reindent, if_neg h]

theorem reindent_append_of_not_mem {s : List Char} (h : '\n' ∉ s) (rest : List Char) :
    reindent width depth (s ++ rest) = s ++ reindent width depth rest := by
  induction s with
  | nil => rfl
  | cons c s ih =>
    rw [List.mem_cons, not_or] at h
    rw [List.cons_append, reindent_cons (Ne.symm h.1), ih h.2, List.cons_append]

theorem reindent_lineBreak (k : ℕ) {rest : List Char} (h : rest.head? ≠ some ' ') :
    reindent width depth (Sexpr.lineBreak 1 k ++ rest) =
      Sexpr.lineBreak width (depth + k) ++ reindent width depth rest := by
  have hblanks : ∀ c ∈ List.replicate (k * 1) ' ', (c == ' ') = true := by
    intro c hc
    rw [List.eq_of_mem_replicate hc]
    rfl
  have hstop : ∀ c ∈ rest.head?, (c == ' ') = false := by
    rintro c hc
    rw [beq_eq_false_iff_ne]
    rintro rfl
    exact h hc
  rw [Sexpr.lineBreak, List.cons_append, reindent, if_pos rfl,
    takeWhile_append_of_stop hblanks hstop, dropWhile_append_of_stop hblanks hstop,
    List.length_replicate, Nat.mul_one]
  rfl

namespace Sexpr

/-- Whether the text of a document starts with something else than a blank. -/
def isClear : Sexpr → Bool
  | atom s => s.toList.head? != some ' '
  | form _ | node _ _ => true

@[simp] theorem isClear_form (parts : List Sexpr) : (form parts).isClear = true := rfl

@[simp] theorem isClear_node (header children : List Sexpr) :
    (node header children).isClear = true := rfl

mutual

/-- Whether every document that stands on a line of its own starts with something else than a
blank. -/
def isTidy : Sexpr → Bool
  | atom _ => true
  | form parts => isTidyAll parts
  | node header children => isTidyAll header && children.all isClear && isTidyAll children

def isTidyAll : List Sexpr → Bool
  | [] => true
  | s :: rest => s.isTidy && isTidyAll rest

end

/-- A document that may stand on a line of its own. -/
def IsLine (s : Sexpr) : Prop :=
  s.isClear = true ∧ s.isTidy = true

@[simp] theorem isTidyAll_eq_all (ss : List Sexpr) : isTidyAll ss = ss.all isTidy := by
  induction ss with
  | nil => rfl
  | cons s ss ih => simp [isTidyAll, ih]

@[simp] theorem isTidy_atom (s : String) : (atom s).isTidy = true := rfl

@[simp] theorem isTidy_form_iff {parts : List Sexpr} :
    (form parts).isTidy = true ↔ ∀ s ∈ parts, s.isTidy = true := by
  simp [isTidy]

@[simp] theorem isTidy_node_iff {header children : List Sexpr} :
    (node header children).isTidy = true ↔
      (∀ s ∈ header, s.isTidy = true) ∧ ∀ s ∈ children, s.IsLine := by
  simp [isTidy, IsLine, forall_and, and_assoc]

theorem head?_chars_append_ne {s : Sexpr} (h : s.isClear = true) {rest : List Char}
    (hrest : rest.head? ≠ some ' ') : (s.chars width depth ++ rest).head? ≠ some ' ' := by
  cases s with
  | atom s =>
    rw [chars_atom]
    cases hs : s.toList with
    | nil => exact hrest
    | cons c cs => simpa [isClear, hs] using h
  | form parts => simp
  | node header children => simp

/-- The text at width one and depth `k` is taken to the text at the width, `k` levels below the
depth, in front of whatever follows it. -/
def Reindents (width depth : ℕ) (s : Sexpr) : Prop :=
  ∀ k rest, reindent width depth (s.chars 1 k ++ rest) =
    s.chars width (depth + k) ++ reindent width depth rest

theorem reindent_spaced {ss : List Sexpr} (h : ∀ s ∈ ss, s.Reindents width depth) (k : ℕ)
    (rest : List Char) : reindent width depth (spaced 1 k ss ++ rest) =
      spaced width (depth + k) ss ++ reindent width depth rest := by
  have htail (ss : List Sexpr) (h : ∀ s ∈ ss, s.Reindents width depth) :
      reindent width depth ((ss.flatMap fun s => ' ' :: s.chars 1 k) ++ rest) =
        (ss.flatMap fun s => ' ' :: s.chars width (depth + k)) ++ reindent width depth rest := by
    induction ss with
    | nil => rfl
    | cons s ss ih =>
      obtain ⟨hs, hss⟩ := List.forall_mem_cons.1 h
      simp only [List.flatMap_cons, List.cons_append, List.append_assoc]
      rw [reindent_cons (by decide), hs, ih hss]
  cases ss with
  | nil => rfl
  | cons s ss =>
    obtain ⟨hs, hss⟩ := List.forall_mem_cons.1 h
    rw [spaced_cons, spaced_cons, List.append_assoc, hs, htail ss hss, List.append_assoc]

theorem reindent_lines {ss : List Sexpr} (h : ∀ s ∈ ss, s.Reindents width depth)
    (hclear : ∀ s ∈ ss, s.isClear = true) (k : ℕ) {rest : List Char}
    (hrest : rest.head? ≠ some ' ') : reindent width depth (lines 1 k ss ++ rest) =
      lines width (depth + k) ss ++ reindent width depth rest := by
  induction ss with
  | nil => rfl
  | cons s ss ih =>
    obtain ⟨hs, hss⟩ := List.forall_mem_cons.1 h
    obtain ⟨hsclear, hssclear⟩ := List.forall_mem_cons.1 hclear
    have hnext : (lines 1 k ss ++ rest).head? ≠ some ' ' := by
      cases ss with
      | nil => exact hrest
      | cons t ss => simp [lineBreak]
    simp only [lines_cons, List.append_assoc]
    rw [reindent_lineBreak k (head?_chars_append_ne hsclear hnext), hs, ih hss hssclear]

theorem reindents_of_isTidy {s : Sexpr} (hatoms : ∀ a ∈ s.atoms, '\n' ∉ a.toList)
    (htidy : s.isTidy = true) : s.Reindents width depth := by
  have hbelow {ss : List Sexpr} (hatoms : ∀ a ∈ ss.flatMap atoms, '\n' ∉ a.toList) :
      ∀ s ∈ ss, ∀ a ∈ s.atoms, '\n' ∉ a.toList :=
    fun s hs a ha => hatoms a (List.mem_flatMap.2 ⟨s, hs, ha⟩)
  induction s with
  | atom a =>
    intro k rest
    exact reindent_append_of_not_mem (hatoms a (List.mem_singleton_self a)) rest
  | form parts ih =>
    intro k rest
    rw [atoms_form] at hatoms
    have hparts : ∀ s ∈ parts, s.Reindents width depth :=
      fun s hs => ih s hs (hbelow hatoms s hs) (isTidy_form_iff.1 htidy s hs)
    simp only [chars_form, List.cons_append, List.append_assoc, List.nil_append]
    rw [reindent_cons (by decide), reindent_spaced hparts, reindent_cons (by decide)]
  | node header children ihHeader ihChildren =>
    intro k rest
    rw [atoms_node, List.forall_mem_append] at hatoms
    obtain ⟨htidyHeader, htidyChildren⟩ := isTidy_node_iff.1 htidy
    have hheader : ∀ s ∈ header, s.Reindents width depth :=
      fun s hs => ihHeader s hs (hbelow hatoms.1 s hs) (htidyHeader s hs)
    have hchildren : ∀ s ∈ children, s.Reindents width depth :=
      fun s hs => ihChildren s hs (hbelow hatoms.2 s hs) (htidyChildren s hs).2
    have hclear : ∀ s ∈ children, s.isClear = true := fun s hs => (htidyChildren s hs).1
    have hclose : (')' :: ')' :: rest).head? ≠ some ' ' := by simp
    simp only [chars_node, List.cons_append, List.append_assoc, List.nil_append]
    rw [reindent_cons (by decide), reindent_spaced hheader, reindent_cons (by decide),
      reindent_cons (by decide), reindent_lines hchildren hclear _ hclose,
      reindent_cons (by decide), reindent_cons (by decide)]
    rfl

end Sexpr

namespace Item

/-- Whether what an item is written with, apart from the items below it, breaks no line and, if
the item is a symbol, does not start with a blank. -/
def staysInLine : Item → Bool
  | expr (.symbol name) =>
    !name.lexeme.toList.contains '\n' && name.lexeme.toList.head? != some ' '
  | item => item.lexemes.all fun s => !s.toList.contains '\n'

theorem not_mem_of_staysInLine {item : Item} (h : item.staysInLine = true) :
    ∀ s ∈ item.lexemes, '\n' ∉ s.toList := by
  have hall : item.lexemes.all (fun s => !s.toList.contains '\n') = true := by
    unfold staysInLine at h
    split at h
    · simpa [lexemes, Expr.lexemes] using (Bool.and_eq_true_iff.1 h).1
    · exact h
  simpa using hall

end Item

theorem IsWord.head?_ne {s : String} (h : IsWord s) {c : Char} (hc : isWordChar c = false) :
    s.toList.head? ≠ some c := by
  intro hhead
  exact ne_of_accepted (List.all_eq_true.1 h c (List.mem_of_head? hhead)) hc rfl

theorem Expr.isClear_sexpr {e : Expr} (h : (Item.expr e).staysInLine = true) :
    e.sexpr.isClear = true := by
  have hword {s : String} (hs : IsWord s) : (Sexpr.atom s).isClear = true := by
    simpa [Sexpr.isClear] using hs.head?_ne (c := ' ') rfl
  cases e with
  | boolean token value => cases value <;> rfl
  | float token value => exact hword (isWord_exactText value)
  | integer token value => exact hword (isWord_toString_int _)
  | string token value => simp [Expr.sexpr, Sexpr.isClear]
  | symbol name => exact (Bool.and_eq_true_iff.1 h).2
  | _ => simp [Expr.sexpr]

theorem FunctionDecl.isClear_sexpr (f : FunctionDecl) : f.sexpr.isClear = true := by
  cases f
  rfl

theorem Stmt.isClear_sexpr (s : Stmt) : s.sexpr.isClear = true := by
  cases s with
  | functionDecl f => exact f.isClear_sexpr
  | _ => rfl

theorem TypedName.isLine_sexpr (entry : TypedName) : entry.sexpr.IsLine :=
  ⟨rfl, rfl⟩

namespace Item

/-- Whether what an item is written as may stand on a line of its own. A typename never does. -/
def Orderly (item : Item) : Prop :=
  Inventory.typename? item = none → ∀ s ∈ item.sexprs, s.IsLine

@[simp] theorem orderly_expr_iff {e : Expr} : (expr e).Orderly ↔ e.sexpr.IsLine := by
  simp [Orderly, Inventory.typename?, sexprs]

@[simp] theorem orderly_stmt_iff {s : Stmt} : (stmt s).Orderly ↔ s.sexpr.IsLine := by
  simp [Orderly, Inventory.typename?, sexprs]

@[simp] theorem orderly_pattern_iff {p : Pattern} : (pattern p).Orderly ↔ p.sexpr.IsLine := by
  simp [Orderly, Inventory.typename?, sexprs]

@[simp] theorem orderly_block_iff {b : Block} :
    (block b).Orderly ↔ ∀ s ∈ b.sexprs, s.IsLine := by
  simp [Orderly, Inventory.typename?, sexprs]

@[simp] theorem orderly_function_iff {f : FunctionDecl} :
    (function f).Orderly ↔ f.sexpr.IsLine := by
  simp [Orderly, Inventory.typename?, sexprs]

end Item

theorem Pattern.isLine_sexpr {p : Pattern} (h : ∀ c ∈ p.items, c.Orderly) : p.sexpr.IsLine := by
  cases p with
  | value e => exact Item.orderly_expr_iff.1 (List.forall_mem_singleton.1 h)
  | wildcard token => exact ⟨rfl, rfl⟩

theorem Block.isLine_of_mem_sexprs {b : Block} (h : ∀ c ∈ b.items, c.Orderly) :
    ∀ s ∈ b.sexprs, s.IsLine := by
  obtain ⟨brace, stmts, result⟩ := b
  obtain ⟨hstmts, hresult⟩ := List.forall_mem_append.1 h
  rw [List.forall_mem_map] at hstmts
  rw [Block.sexprs, Stmt.sexprs_eq_map]
  refine List.forall_mem_append.2 ⟨List.forall_mem_map.2 fun s hs => ?_, ?_⟩
  · exact Item.orderly_stmt_iff.1 (hstmts s hs)
  · exact List.forall_mem_singleton.2
      (Item.orderly_expr_iff.1 (List.forall_mem_singleton.1 hresult))

theorem SwitchCase.isLine_sexpr {c : SwitchCase} (h : ∀ i ∈ c.items, i.Orderly) :
    c.sexpr.IsLine := by
  obtain ⟨pattern, predicate, body⟩ := c
  simp only [SwitchCase.items, List.forall_mem_cons, Item.orderly_pattern_iff,
    Item.orderly_expr_iff] at h
  obtain ⟨hpattern, hpredicate, hbody, -⟩ := h
  refine ⟨rfl, Sexpr.isTidy_node_iff.2 ⟨?_, List.forall_mem_singleton.2 hbody⟩⟩
  exact List.forall_mem_cons.2 ⟨hpattern.2, List.forall_mem_singleton.2 hpredicate.2⟩

theorem FunctionDecl.isTidy_sexpr {f : FunctionDecl} (h : ∀ c ∈ f.items, c.Orderly) :
    f.sexpr.isTidy = true := by
  obtain ⟨name, params, result, body⟩ := f
  have hbody : (Item.block body).Orderly := h _ (by simp [FunctionDecl.items])
  have hparams : ∀ entry ∈ params, entry.sexpr.isTidy = true :=
    fun entry _ => entry.isLine_sexpr.2
  simpa [FunctionDecl.sexpr] using And.intro hparams (Item.orderly_block_iff.1 hbody)

theorem Expr.isTidy_sexpr {e : Expr} (h : ∀ c ∈ e.items, c.Orderly) : e.sexpr.isTidy = true := by
  cases e with
  | boolean | float | integer | string | symbol | unit => rfl
  | field object name | unary oper object =>
    have hobject := Item.orderly_expr_iff.1 (List.forall_mem_singleton.1 h)
    simp [Expr.sexpr, hobject.2]
  | assign left oper right | binary left oper right | logical left oper right =>
    simp only [Expr.items, List.forall_mem_cons, Item.orderly_expr_iff] at h
    obtain ⟨hleft, hright, -⟩ := h
    simp [Expr.sexpr, hleft.2, hright.2]
  | call callee paren arguments =>
    obtain ⟨hcallee, harguments⟩ := List.forall_mem_cons.1 h
    rw [List.forall_mem_map] at harguments
    have hparts : ∀ a ∈ arguments, a.sexpr.isTidy = true :=
      fun a ha => (Item.orderly_expr_iff.1 (harguments a ha)).2
    simpa [Expr.sexpr, (Item.orderly_expr_iff.1 hcallee).2] using hparts
  | block body =>
    have hbody := Item.orderly_block_iff.1 (List.forall_mem_singleton.1 h)
    simpa [Expr.sexpr] using hbody
  | forIn keyword name object body | whileDo keyword object body =>
    simp only [Expr.items, List.forall_mem_cons, Item.orderly_expr_iff,
      Item.orderly_block_iff] at h
    obtain ⟨hobject, hbody, -⟩ := h
    simpa [Expr.sexpr, hobject.2] using hbody
  | ifElse keyword condition thenBody elseBody =>
    simp only [Expr.items, List.forall_mem_cons, Item.orderly_expr_iff] at h
    obtain ⟨hcondition, hthen, helse, -⟩ := h
    simp [Expr.sexpr, hcondition.2, hthen, helse]
  | switch keyword value cases =>
    obtain ⟨hvalue, hcases⟩ := List.forall_mem_cons.1 h
    have hlines : ∀ c ∈ cases, c.sexpr.IsLine :=
      fun c hc => c.isLine_sexpr fun i hi => hcases i (List.mem_flatMap.2 ⟨c, hc, hi⟩)
    simpa [Expr.sexpr, (Item.orderly_expr_iff.1 hvalue).2] using hlines

theorem Stmt.isTidy_sexpr {s : Stmt} (h : ∀ c ∈ s.items, c.Orderly) : s.sexpr.isTidy = true := by
  cases s with
  | breakLoop | continueLoop => rfl
  | enumDecl name entries | structDecl name entries =>
    have hentries : ∀ entry ∈ entries, entry.sexpr.IsLine := fun entry _ => entry.isLine_sexpr
    simpa [Stmt.sexpr] using hentries
  | expression value | returnValue keyword value =>
    have hvalue := Item.orderly_expr_iff.1 (List.forall_mem_singleton.1 h)
    simp [Stmt.sexpr, hvalue.2]
  | functionDecl f => exact (Item.orderly_function_iff.1 (List.forall_mem_singleton.1 h)).2
  | implDecl typename trait? methods =>
    have hmethods : ∀ f ∈ methods, f.sexpr.IsLine :=
      fun f hf => Item.orderly_function_iff.1 (h _ (by simp [Stmt.items, hf]))
    simpa [Stmt.sexpr] using hmethods
  | traitDecl name methods =>
    have hmethods : ∀ f ∈ methods, f.sexpr.IsLine :=
      fun f hf => Item.orderly_function_iff.1 (h _ (List.mem_map_of_mem hf))
    simpa [Stmt.sexpr] using hmethods
  | binding keyword name typename? initializer =>
    have hinitializer : (Item.expr initializer).Orderly := h _ (by simp [Stmt.items])
    simp [Stmt.sexpr, or_imp, forall_and, (Item.orderly_expr_iff.1 hinitializer).2]

namespace Item

theorem orderly_of_printed {item : Item} (h : ∀ i ∈ item.printed, i.staysInLine = true) :
    item.Orderly := by
  induction item using induction_children with
  | node item ih =>
    intro hitem
    rw [printed_of_not_typename hitem, List.forall_mem_cons] at h
    obtain ⟨hself, hbelow⟩ := h
    have hparts : ∀ c ∈ item.children, c.Orderly :=
      fun c hc => ih c hc fun i hi => hbelow i (List.mem_flatMap.2 ⟨c, hc, hi⟩)
    cases item with
    | stmt s => exact List.forall_mem_singleton.2 ⟨s.isClear_sexpr, s.isTidy_sexpr hparts⟩
    | expr e =>
      exact List.forall_mem_singleton.2 ⟨e.isClear_sexpr hself, e.isTidy_sexpr hparts⟩
    | pattern p => exact List.forall_mem_singleton.2 (p.isLine_sexpr hparts)
    | block b => exact b.isLine_of_mem_sexprs hparts
    | function f => exact List.forall_mem_singleton.2 ⟨f.isClear_sexpr, f.isTidy_sexpr hparts⟩
    | typename t => cases hitem

end Item

theorem Sexpr.Reindents.text_eq {s : Sexpr} (h : s.Reindents width depth) :
    s.text width depth = String.ofList (reindent width depth (s.text 1 0).toList) := by
  have hchars := h 0 []
  rw [List.append_nil, Nat.add_zero, reindent, List.append_nil] at hchars
  rw [← String.toList_inj, String.toList_ofList]
  exact hchars.symm

theorem Tree.reindents {tree : Tree} (h : ∀ i ∈ tree.item.printed, i.staysInLine = true) :
    tree.sexpr.Reindents width depth := by
  have hbreaks : ∀ a ∈ tree.item.atoms, '\n' ∉ a.toList :=
    Item.not_mem_of_mem_atoms rfl (by decide) fun i hi => Item.not_mem_of_staysInLine (h i hi)
  have horderly := Item.orderly_of_printed h
  cases tree with
  | stmt s =>
    exact Sexpr.reindents_of_isTidy (by simpa [Tree.item, Tree.sexpr] using hbreaks)
      (Item.orderly_stmt_iff.1 horderly).2
  | expr e =>
    exact Sexpr.reindents_of_isTidy (by simpa [Tree.item, Tree.sexpr] using hbreaks)
      (Item.orderly_expr_iff.1 horderly).2
  | pattern p =>
    exact Sexpr.reindents_of_isTidy (by simpa [Tree.item, Tree.sexpr] using hbreaks)
      (Item.orderly_pattern_iff.1 horderly).2

/-- The text of a tree at any width and depth is its text at width one and depth zero with
`(depth + k) * width` blanks for the `k` blanks behind each line break, and nothing else is
changed. It is printed unless the deepest lines cannot be indented. -/
theorem Printer.print_eq_reindent {tree : Tree}
    (h : ∀ i ∈ tree.item.printed, i.staysInLine = true) :
    ∃ text : String,
      ((Printer.ofWidth 1).print tree.sexpr).1 =
        (if Sexpr.Reaches 1 0 tree.sexpr.levels then .ok text else .error .indentTooWide) ∧
      ∀ width depth : ℕ, ((⟨width, depth⟩ : Printer).print tree.sexpr).1 =
        if Sexpr.Reaches width depth tree.sexpr.levels then
          .ok (String.ofList (reindent width depth text.toList))
        else .error .indentTooWide := by
  refine ⟨tree.sexpr.text 1 0, ?_, fun width depth => ?_⟩
  · rw [Printer.print_eq]
    simp only [Sexpr.fits_iff_reaches]
    rfl
  · rw [Printer.print_eq, ← (Tree.reindents h).text_eq]
    simp only [Sexpr.fits_iff_reaches]

/-- A block in the header of a conditional, and one in a branch. -/
theorem Printer.print_eq_reindent_block_in_header :
    let x := Expr.symbol (.synthetic "x")
    let block := Expr.block ⟨.absent, [.expression x], x⟩
    let tree := Tree.expr (.ifElse .absent block block (.string .absent " "))
    let text := "(Expr::If (Expr::Block (\n (Stmt::Expression x)\n x)) (\n" ++
      " (Expr::Block (\n  (Stmt::Expression x)\n  x))\n \" \"))"
    (∀ i ∈ tree.item.printed, i.staysInLine = true) ∧
      ((Printer.ofWidth 1).print tree.sexpr).1 = .ok text ∧
      ((⟨2, 3⟩ : Printer).print tree.sexpr).1 =
        .ok (String.ofList (reindent 2 3 text.toList)) := by
  intro x block tree text
  have h : ∀ i ∈ tree.item.printed, i.staysInLine = true := by decide +kernel
  have hprint : ((Printer.ofWidth 1).print tree.sexpr).1 = .ok text := by decide +kernel
  obtain ⟨printed, hflat, hall⟩ := Printer.print_eq_reindent h
  rw [if_pos (by decide), hprint] at hflat
  obtain rfl := Except.ok.inj hflat
  exact ⟨h, hprint, (hall 2 3).trans (if_pos (by decide))⟩

end LangCore
