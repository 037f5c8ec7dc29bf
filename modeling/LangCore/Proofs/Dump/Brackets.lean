import Mathlib
import LangCore.Proofs.Dump.Levels
import LangCore.Proofs.Dump.Lexemes

/-!
# Brackets in dumps

A text is bracketed if no prefix of it closes more parentheses than it opens and
the whole closes all that it opens. Canonical names are bracketed if no name or
qualifier in them has a parenthesis of its own, and so are documents whose atoms
are. What is in parentheses is one group: up to its end something in it is open.
-/

namespace LangCore

/-- No prefix closes more than it opens, and the whole closes everything. -/
structure Bracketed (s : List Char) : Prop where
  count_le : ∀ t, t <+: s → t.count ')' ≤ t.count '('
  count_eq : s.count '(' = s.count ')'

/-- The text starts with a parenthesis, and nothing but the whole closes all that it opens. -/
structure OneGroup (s : List Char) : Prop where
  head?_eq : s.head? = some '('
  eq_of_count_eq : ∀ t, t <+: s → t ≠ [] → t.count '(' = t.count ')' → t = s

theorem prefix_enclosed_cases {s t : List Char} (h : t <+: '(' :: s ++ [')']) :
    t = [] ∨ (∃ u, u <+: s ∧ t = '(' :: u) ∨ t = '(' :: s ++ [')'] := by
  rcases List.prefix_concat_iff.1 h with rfl | h
  · exact .inr (.inr rfl)
  · rcases List.prefix_cons_iff.1 h with rfl | ⟨u, rfl, hu⟩
    · exact .inl rfl
    · exact .inr (.inl ⟨u, hu, rfl⟩)

theorem bracketed_of_not_mem {s : List Char} (hopen : '(' ∉ s) (hclose : ')' ∉ s) :
    Bracketed s where
  count_le := by
    intro t ht
    rw [List.count_eq_zero.2 fun h => hclose (ht.subset h)]
    exact Nat.zero_le _
  count_eq := by rw [List.count_eq_zero.2 hopen, List.count_eq_zero.2 hclose]

theorem bracketed_nil : Bracketed [] :=
  bracketed_of_not_mem List.not_mem_nil List.not_mem_nil

theorem Bracketed.append {s t : List Char} (hs : Bracketed s) (ht : Bracketed t) :
    Bracketed (s ++ t) where
  count_le := by
    intro u hu
    rcases List.prefix_or_prefix_of_prefix hu (List.prefix_append s t) with hu | ⟨v, rfl⟩
    · exact hs.count_le u hu
    · rw [List.prefix_append_right_inj] at hu
      rw [List.count_append, List.count_append, hs.count_eq]
      exact Nat.add_le_add_left (ht.count_le v hu) _
  count_eq := by rw [List.count_append, List.count_append, hs.count_eq, ht.count_eq]

theorem Bracketed.enclosed {s : List Char} (h : Bracketed s) : Bracketed ('(' :: s ++ [')']) where
  count_le := by
    intro t ht
    rcases prefix_enclosed_cases ht with rfl | ⟨u, hu, rfl⟩ | rfl
    · exact le_rfl
    · have := h.count_le u hu
      simp
      omega
    · simp [h.count_eq]
  count_eq := by simp [h.count_eq]

/-- Between the ends the first parenthesis is open. -/
theorem Bracketed.oneGroup {s : List Char} (h : Bracketed s) : OneGroup ('(' :: s ++ [')']) where
  head?_eq := rfl
  eq_of_count_eq := by
    intro t ht hne hcount
    rcases prefix_enclosed_cases ht with rfl | ⟨u, hu, rfl⟩ | rfl
    · exact absurd rfl hne
    · have := h.count_le u hu
      simp at hcount
      omega
    · rfl

theorem bracketed_flatten {ss : List (List Char)} (h : ∀ s ∈ ss, Bracketed s) :
    Bracketed ss.flatten := by
  induction ss with
  | nil => exact bracketed_nil
  | cons s ss ih =>
    obtain ⟨hs, hss⟩ := List.forall_mem_cons.1 h
    exact hs.append (ih hss)

theorem bracketed_intercalate {separator : List Char} (hseparator : Bracketed separator)
    {ss : List (List Char)} (h : ∀ s ∈ ss, Bracketed s) :
    Bracketed (separator.intercalate ss) := by
  induction ss with
  | nil => exact bracketed_nil
  | cons s ss ih =>
    obtain ⟨hs, hss⟩ := List.forall_mem_cons.1 h
    cases ss with
    | nil => simpa using hs
    | cons t ss =>
      rw [List.intercalate_cons_cons]
      exact (hs.append hseparator).append (ih hss)

def isBracketless (s : String) : Bool :=
  !s.toList.contains '(' && !s.toList.contains ')'

theorem isBracketless_iff {s : String} :
    isBracketless s = true ↔ '(' ∉ s.toList ∧ ')' ∉ s.toList := by
  simp [isBracketless]

theorem bracketed_of_isBracketless {s : String} (h : isBracketless s = true) :
    Bracketed s.toList :=
  bracketed_of_not_mem (isBracketless_iff.1 h).1 (isBracketless_iff.1 h).2

namespace TypeShape

/-- The name of a basic shape, or the qualifiers of a reference. -/
def lexemes : TypeShape → List String
  | basic name => [name]
  | reference permission region _ => [permission, region]
  | parametric _ _ | tuple _ | function _ _ | optional _ => []

/-- No name or qualifier in the shape has a parenthesis. -/
def Bracketless (t : TypeShape) : Prop :=
  t.Every fun u => u.lexemes.all isBracketless = true

instance (t : TypeShape) : Decidable t.Bracketless :=
  inferInstanceAs (Decidable (t.Every _))

theorem Bracketless.self {t : TypeShape} (h : t.Bracketless) :
    ∀ s ∈ t.lexemes, Bracketed s.toList :=
  fun s hs => bracketed_of_isBracketless (List.all_eq_true.1 (every_iff.1 h).1 s hs)

theorem bracketed_commaSeparated {ts : List TypeShape} (h : ∀ t ∈ ts, Bracketed t.chars) :
    Bracketed (commaSeparated (ts.map chars)) :=
  bracketed_intercalate (bracketed_of_not_mem (by decide) (by decide)) (List.forall_mem_map.2 h)

theorem bracketed_enclose {t : TypeShape} (h : Bracketed t.chars) :
    Bracketed (t.enclose t.chars) := by
  unfold enclose
  split
  · exact h.enclosed
  · exact h

theorem bracketed_qualifierChars {qualifier : String} (h : Bracketed qualifier.toList) :
    Bracketed (qualifierChars qualifier) := by
  unfold qualifierChars
  split
  · exact bracketed_nil
  · exact h.append (bracketed_of_not_mem (by decide) (by decide))

/-- What a canonical name opens it closes, a group in front of a suffix as well as a tuple. -/
theorem bracketed_chars {t : TypeShape} (h : t.Bracketless) : Bracketed t.chars := by
  have hmark {c : Char} (hopen : c ≠ '(') (hclose : c ≠ ')') : Bracketed [c] :=
    bracketed_of_not_mem (by simpa using hopen.symm) (by simpa using hclose.symm)
  induction t with
  | basic name => exact h.self name List.mem_cons_self
  | parametric constructor params ihc ihp =>
    have hconstructor := bracketed_enclose (ihc (Every.of_mem_children h List.mem_cons_self))
    have hparams := bracketed_commaSeparated
      fun p hp => ihp p hp (Every.of_mem_children h (List.mem_cons_of_mem _ hp))
    rw [chars_parametric]
    simpa using hconstructor.append
      (((hmark (c := '<') (by decide) (by decide)).append hparams).append
        (hmark (c := '>') (by decide) (by decide)))
  | tuple elements ih =>
    rw [chars_tuple]
    exact (bracketed_commaSeparated fun e he => ih e he (Every.of_mem_children h he)).enclosed
  | function result args ihr iha =>
    have hargs := bracketed_commaSeparated
      fun a ha => iha a ha (Every.of_mem_children h (List.mem_append_left _ ha))
    have hresult := ihr (Every.of_mem_children h (List.mem_append_right _ List.mem_cons_self))
    have hname : Bracketed ['f', 'n'] := bracketed_of_not_mem (by decide) (by decide)
    rw [chars_function]
    simpa using (hname.append hargs.enclosed).append
      ((hmark (c := ' ') (by decide) (by decide)).append hresult)
  | reference permission region referent ih =>
    have hpermission := bracketed_qualifierChars (h.self permission List.mem_cons_self)
    have hregion := bracketed_qualifierChars
      (h.self region (List.mem_cons_of_mem _ List.mem_cons_self))
    have hreferent := ih (Every.of_mem_children h List.mem_cons_self)
    rw [chars]
    simpa using ((hmark (c := '&') (by decide) (by decide)).append hregion).append
      (hpermission.append hreferent)
  | optional wrapped ih =>
    rw [chars]
    exact (bracketed_enclose (ih (Every.of_mem_children h List.mem_cons_self))).append
      (hmark (by decide) (by decide))

end TypeShape

namespace Sexpr

variable {width depth : ℕ}

theorem bracketed_spaced {ss : List Sexpr} (h : ∀ s ∈ ss, Bracketed (s.chars width depth)) :
    Bracketed (spaced width depth ss) :=
  bracketed_intercalate (bracketed_of_not_mem (by decide) (by decide)) (List.forall_mem_map.2 h)

theorem bracketed_lineBreak : Bracketed (lineBreak width depth) :=
  bracketed_of_not_mem (by simp [lineBreak]) (by simp [lineBreak])

theorem bracketed_lines {ss : List Sexpr} (h : ∀ s ∈ ss, Bracketed (s.chars width depth)) :
    Bracketed (lines width depth ss) := by
  rw [lines, List.flatMap_def]
  exact bracketed_flatten (List.forall_mem_map.2 fun s hs => bracketed_lineBreak.append (h s hs))

theorem bracketed_node (width depth : ℕ) {header children : List Sexpr}
    (hheader : ∀ s ∈ header, Bracketed (s.chars width depth))
    (hchildren : ∀ s ∈ children, Bracketed (s.chars width (depth + 1))) :
    ∃ s, Bracketed s ∧ (node header children).chars width depth = '(' :: s ++ [')'] := by
  have hblank : Bracketed [' '] := bracketed_of_not_mem (by decide) (by decide)
  refine ⟨_, (bracketed_spaced hheader).append (hblank.append (bracketed_lines hchildren).enclosed),
    ?_⟩
  simp

theorem bracketed_chars {s : Sexpr} (h : ∀ a ∈ s.atoms, Bracketed a.toList) :
    Bracketed (s.chars width depth) := by
  induction s generalizing depth with
  | atom a => exact h a List.mem_cons_self
  | form parts ih =>
    rw [atoms_form, List.forall_mem_flatMap] at h
    rw [chars_form]
    exact (bracketed_spaced fun s hs => ih s hs (h s hs)).enclosed
  | node header children ihHeader ihChildren =>
    rw [atoms_node, List.forall_mem_append, List.forall_mem_flatMap, List.forall_mem_flatMap] at h
    obtain ⟨s, hs, heq⟩ := bracketed_node width depth
      (fun s hs => ihHeader s hs (h.1 s hs)) fun s hs => ihChildren s hs (h.2 s hs)
    rw [heq]
    exact hs.enclosed

theorem exists_enclosed (width depth : ℕ) {s : Sexpr} (h : ∀ a ∈ s.atoms, Bracketed a.toList)
    (hatom : ∀ a, s ≠ atom a) :
    ∃ t, Bracketed t ∧ s.chars width depth = '(' :: t ++ [')'] := by
  cases s with
  | atom a => exact absurd rfl (hatom a)
  | form parts =>
    rw [atoms_form, List.forall_mem_flatMap] at h
    exact ⟨_, bracketed_spaced fun s hs => bracketed_chars (h s hs), chars_form width depth parts⟩
  | node header children =>
    rw [atoms_node, List.forall_mem_append, List.forall_mem_flatMap, List.forall_mem_flatMap] at h
    exact bracketed_node width depth (fun s hs => bracketed_chars (h.1 s hs))
      fun s hs => bracketed_chars (h.2 s hs)

end Sexpr

namespace Item

/-- No lexeme that an item is written with, apart from those of the items below it, has a
parenthesis. A typename is written with the lexemes of its structure. -/
def Bracketless : Item → Prop
  | typename t => t.Built ∧ t.shape.Bracketless
  | item => item.lexemes.all isBracketless = true

theorem lexemes_of_bracketless {item : Item} (hitem : Inventory.typename? item = none)
    (h : item.Bracketless) : ∀ s ∈ item.lexemes, '(' ∉ s.toList ∧ ')' ∉ s.toList := by
  have hall : item.lexemes.all isBracketless = true := by
    cases item with
    | typename t => cases hitem
    | _ => exact h
  exact fun s hs => isBracketless_iff.1 (List.all_eq_true.1 hall s hs)

theorem bracketed_of_mem_words {item : Item} (h : item.Bracketless) :
    ∀ a ∈ item.words, Bracketed a.toList := by
  intro a ha
  cases hitem : Inventory.typename? item with
  | none =>
    have hlexemes := lexemes_of_bracketless hitem h
    exact bracketed_of_not_mem
      (not_mem_of_mem_words rfl (by decide) (fun s hs => (hlexemes s hs).1) a ha)
      (not_mem_of_mem_words rfl (by decide) (fun s hs => (hlexemes s hs).2) a ha)
  | some t =>
    cases item with
    | typename t =>
      obtain rfl := List.mem_singleton.1 ha
      rw [h.1.toList_name]
      exact TypeShape.bracketed_chars h.2
    | _ => cases hitem

theorem bracketed_of_mem_atoms {item : Item} (h : ∀ i ∈ item.printed, i.Bracketless) :
    ∀ a ∈ item.atoms, Bracketed a.toList := by
  intro a ha
  obtain ⟨i, hi, hmem⟩ := exists_mem_words ha
  exact bracketed_of_mem_words (h i hi) a hmem

theorem forall_mem_printed_iff {p : Item → Prop} {item : Item}
    (h : Inventory.typename? item = none) :
    (∀ i ∈ item.printed, p i) ↔ p item ∧ ∀ c ∈ item.children, ∀ i ∈ c.printed, p i := by
  rw [printed_of_not_typename h, List.forall_mem_cons, List.forall_mem_flatMap]

end Item

theorem Expr.not_mem_of_sexpr_eq_atom {e : Expr} (h : (Item.expr e).Bracketless) {a : String}
    (ha : e.sexpr = .atom a) : '(' ∉ a.toList := by
  have hword : a ∈ e.words := by
    cases e <;> simp_all [Expr.sexpr, Expr.words]
  have hlexemes : ∀ s ∈ (Item.expr e).lexemes, '(' ∉ s.toList :=
    fun s hs => (Item.lexemes_of_bracketless rfl h s hs).1
  exact Item.not_mem_of_mem_words rfl (by decide) hlexemes a hword

theorem Stmt.sexpr_ne_atom (s : Stmt) (a : String) : s.sexpr ≠ .atom a := by
  cases s with
  | functionDecl f => cases f; simp [Stmt.sexpr, FunctionDecl.sexpr]
  | _ => simp [Stmt.sexpr]

namespace Tree

variable {tree : Tree}

theorem bracketed_of_mem_atoms (h : ∀ i ∈ tree.item.printed, i.Bracketless) :
    ∀ a ∈ tree.sexpr.atoms, Bracketed a.toList := by
  have hatoms := Item.bracketed_of_mem_atoms h
  cases tree <;> simpa [Tree.item, Tree.sexpr] using hatoms

theorem not_mem_of_sexpr_eq_atom (h : ∀ i ∈ tree.item.printed, i.Bracketless) {a : String}
    (ha : tree.sexpr = .atom a) : '(' ∉ a.toList := by
  cases tree with
  | stmt s => exact absurd ha (s.sexpr_ne_atom a)
  | expr e => exact e.not_mem_of_sexpr_eq_atom ((Item.forall_mem_printed_iff rfl).1 h).1 ha
  | pattern p =>
    cases p with
    | value e =>
      have hvalue := List.forall_mem_singleton.1 ((Item.forall_mem_printed_iff rfl).1 h).2
      exact e.not_mem_of_sexpr_eq_atom ((Item.forall_mem_printed_iff rfl).1 hvalue).1 ha
    | wildcard token =>
      obtain rfl := Sexpr.atom.inj ha
      decide

variable {width depth : ℕ}

theorem bracketed_text (h : ∀ i ∈ tree.item.printed, i.Bracketless) :
    Bracketed (tree.sexpr.text width depth).toList :=
  Sexpr.bracketed_chars (bracketed_of_mem_atoms h)

/-- A statement is one group, and so is everything else whose text starts with a parenthesis. -/
theorem oneGroup_text (h : ∀ i ∈ tree.item.printed, i.Bracketless)
    (hopen : (∃ s, tree = .stmt s) ∨ (tree.sexpr.text width depth).toList.head? = some '(') :
    OneGroup (tree.sexpr.text width depth).toList := by
  have hatom : ∀ a, tree.sexpr ≠ .atom a := by
    intro a ha
    rcases hopen with ⟨s, rfl⟩ | hhead
    · exact s.sexpr_ne_atom a ha
    · rw [ha] at hhead
      exact not_mem_of_sexpr_eq_atom h ha (List.mem_of_head? hhead)
  obtain ⟨t, ht, heq⟩ := Sexpr.exists_enclosed width depth (bracketed_of_mem_atoms h) hatom
  rw [Sexpr.chars] at heq
  rw [heq]
  exact ht.oneGroup

end Tree

theorem bracketed_programText {stmts : List Stmt}
    (h : ∀ s ∈ stmts, ∀ i ∈ (Item.stmt s).printed, i.Bracketless) (width depth : ℕ) :
    Bracketed (String.join (stmts.map fun s => s.sexpr.text width depth ++ "\n")).toList := by
  have hline : Bracketed ['\n'] := bracketed_of_not_mem (by decide) (by decide)
  have hstmts : ∀ s ∈ stmts, Bracketed ((s.sexpr.text width depth).toList ++ ['\n']) :=
    fun s hs => (@Tree.bracketed_text (.stmt s) width depth (h s hs)).append hline
  have hlist := bracketed_flatten (List.forall_mem_map.2 hstmts)
  simpa [List.flatMap_def, Function.comp_def] using hlist

/-- What is printed closes what it opens and nothing else. A statement is one group: its first
parenthesis is closed by its end, as is that of an expression or pattern that starts with one. -/
theorem Printer.print_bracketed (p : Printer) :
    (∀ tree : Tree, (∀ i ∈ tree.item.printed, i.Bracketless) → ∃ text : String,
      (p.print tree.sexpr).1 =
        (if Sexpr.Reaches p.width p.depth tree.sexpr.levels then .ok text
          else .error .indentTooWide) ∧
      Bracketed text.toList ∧
      ((∃ s, tree = .stmt s) ∨ text.toList.head? = some '(' → OneGroup text.toList)) ∧
    ∀ stmts : List Stmt, (∀ s ∈ stmts, ∀ i ∈ (Item.stmt s).printed, i.Bracketless) →
      ∃ text : String,
        p.printProgram stmts =
          (if ∀ s ∈ stmts, Sexpr.Reaches p.width p.depth s.sexpr.levels then .ok text
            else .error .indentTooWide) ∧
        Bracketed text.toList := by
  constructor
  · intro tree h
    refine ⟨tree.sexpr.text p.width p.depth, ?_, Tree.bracketed_text h, Tree.oneGroup_text h⟩
    rw [print_eq]
    simp only [Sexpr.fits_iff_reaches]
  · intro stmts h
    refine ⟨_, ?_, bracketed_programText h p.width p.depth⟩
    rw [printProgram_eq]
    simp only [List.all_eq_true, Sexpr.fits_iff_reaches]

/-- A binding whose annotation has a group in front of a suffix and a tuple inside of it, with a
call in the header of a loop. -/
theorem Printer.print_bracketed_optional_of_function :
    let t := Typename.basic ⟨"T", .absent⟩
    let annotation := ((t.functionOf [.tupleOf [t] .absent]).optionalOf)
    let f := Expr.symbol (.synthetic "f")
    let loop := Expr.whileDo .absent (.call f .absent [f]) ⟨.absent, [], f⟩
    let s := Stmt.binding (.synthetic "let") (.synthetic "f") (some annotation) loop
    let text := "(Stmt::Variable let f (fn((T)) T)? (Expr::While (() f f) (\n    f)))"
    (∀ i ∈ (Item.stmt s).printed, i.Bracketless) ∧
      ((⟨2, 1⟩ : Printer).print s.sexpr).1 = .ok text ∧
      Bracketed text.toList ∧ OneGroup text.toList ∧
      (⟨2, 1⟩ : Printer).printProgram [s, s] = .ok (text ++ "\n" ++ text ++ "\n") ∧
      Bracketed (text ++ "\n" ++ text ++ "\n").toList := by
  intro t annotation f loop s text
  have ht : t.Built := @Typename.Built.named "T" .absent t rfl
  have htuple : (Typename.tupleOf [t] .absent).Built := .tupleOf (List.forall_mem_singleton.2 ht)
  have hoptional : ∀ i ∈ (Item.typename annotation).printed, i.Bracketless := by
    rw [Item.printed_typename]
    refine List.forall_mem_singleton.2 ⟨.optionalOf (.functionOf ht ?_), by decide⟩
    exact List.forall_mem_singleton.2 htuple
  have hf : ∀ i ∈ (Item.expr f).printed, i.Bracketless :=
    (Item.forall_mem_printed_iff rfl).2 ⟨rfl, fun c hc => absurd hc List.not_mem_nil⟩
  have hcall : ∀ i ∈ (Item.expr (.call f .absent [f])).printed, i.Bracketless :=
    (Item.forall_mem_printed_iff rfl).2
      ⟨rfl, List.forall_mem_cons.2 ⟨hf, List.forall_mem_singleton.2 hf⟩⟩
  have hbody : ∀ i ∈ (Item.block ⟨.absent, [], f⟩).printed, i.Bracketless :=
    (Item.forall_mem_printed_iff rfl).2 ⟨rfl, List.forall_mem_singleton.2 hf⟩
  have hloop : ∀ i ∈ (Item.expr loop).printed, i.Bracketless :=
    (Item.forall_mem_printed_iff rfl).2
      ⟨rfl, List.forall_mem_cons.2 ⟨hcall, List.forall_mem_singleton.2 hbody⟩⟩
  have h : ∀ i ∈ (Item.stmt s).printed, i.Bracketless :=
    (Item.forall_mem_printed_iff rfl).2
      ⟨rfl, List.forall_mem_cons.2 ⟨hoptional, List.forall_mem_singleton.2 hloop⟩⟩
  have hprint : ((⟨2, 1⟩ : Printer).print s.sexpr).1 = .ok text := by decide +kernel
  have hprogram : (⟨2, 1⟩ : Printer).printProgram [s, s] =
      .ok (text ++ "\n" ++ text ++ "\n") := by
    decide +kernel
  obtain ⟨htree, hstmts⟩ := Printer.print_bracketed ⟨2, 1⟩
  obtain ⟨printed, heq, hbracketed, hgroup⟩ := htree (.stmt s) h
  rw [if_pos (by decide +kernel)] at heq
  obtain rfl := Except.ok.inj (hprint.symm.trans heq)
  obtain ⟨lines, hlines, hbracketedLines⟩ :=
    hstmts [s, s] (List.forall_mem_cons.2 ⟨h, List.forall_mem_singleton.2 h⟩)
  rw [if_pos (by decide +kernel)] at hlines
  obtain rfl := Except.ok.inj (hprogram.symm.trans hlines)
  exact ⟨h, hprint, hbracketed, hgroup (.inl ⟨s, rfl⟩), hprogram, hbracketedLines⟩

end LangCore
