import Mathlib
import LangCore.Proofs.Dump.ReadStmt
import LangCore.Proofs.Typename.Names

/-!
# Dumps are unambiguous

Two trees of one family that keep to a vocabulary print to the same text at a
width and depth exactly when they are the same apart from source positions and
tokens that are never printed.
-/

namespace LangCore

variable {v : Vocabulary}

theorem Sexpr.eq_of_text_eq {α : Type} {read : List Char → Option (α × List Char)} {s t : Sexpr}
    {x y : α} {width depth : ℕ} (hs : read (s.chars width depth ++ []) = some (x, []))
    (ht : read (t.chars width depth ++ []) = some (y, []))
    (h : s.text width depth = t.text width depth) : x = y := by
  have hchars : s.chars width depth = t.chars width depth := congrArg String.toList h
  rw [hchars, ht] at hs
  exact (Prod.mk.inj (Option.some.inj hs)).1.symm

/-- The text of a program whose statements fit. -/
def programText (width depth : ℕ) (stmts : List Stmt) : String :=
  String.join (stmts.map fun s => s.sexpr.text width depth ++ "\n")

theorem readProgram_programText {stmts : List Stmt} (h : ∀ s ∈ stmts, v.Allows (.stmt s))
    (width depth : ℕ) :
    v.readProgram (programText width depth stmts).toList = some (stmts.map Stmt.bare) := by
  induction stmts with
  | nil => exact Vocabulary.readProgram.eq_1 v
  | cons s stmts ih =>
    obtain ⟨hs, hstmts⟩ := List.forall_mem_cons.1 h
    have htext : (programText width depth (s :: stmts)).toList =
        s.sexpr.chars width depth ++ '\n' :: (programText width depth stmts).toList := by
      simp [programText, Sexpr.chars]
    have hne : (programText width depth (s :: stmts)).toList ≠ [] := by
      rw [htext]
      simp
    rw [Vocabulary.readProgram.eq_2 _ _ hne, htext, hs.readsBack width depth]
    simp [ih hstmts]

theorem map_bare_eq_of_programText_eq {a b : List Stmt} (ha : ∀ s ∈ a, v.Allows (.stmt s))
    (hb : ∀ s ∈ b, v.Allows (.stmt s)) {width depth : ℕ}
    (h : programText width depth a = programText width depth b) :
    a.map Stmt.bare = b.map Stmt.bare := by
  have hread := readProgram_programText ha width depth
  rw [h, readProgram_programText hb width depth] at hread
  exact (Option.some.inj hread).symm

theorem sexprs_eq_of_map_bare_eq {a b : List Stmt} (h : a.map Stmt.bare = b.map Stmt.bare) :
    a.map Stmt.sexpr = b.map Stmt.sexpr := by
  have hsexpr (stmts : List Stmt) :
      stmts.map Stmt.sexpr = (stmts.map Stmt.bare).map Stmt.sexpr := by
    simp [Stmt.sexpr_bare, Function.comp_def]
  rw [hsexpr a, h, ← hsexpr b]

namespace Printer

theorem text_of_print {p : Printer} {s : Sexpr} {text : String}
    (h : (p.print s).1 = .ok text) : s.text p.width p.depth = text := by
  rw [print_eq] at h
  split at h
  · exact Except.ok.inj h
  · cases h

/-- Two documents that read back print to one text exactly when what they are read as is equal,
provided that this determines the document. -/
theorem print_ok_iff {α : Type} {read : List Char → Option (α × List Char)} {p : Printer}
    {s t : Sexpr} {x y : α} {text : String} (h : (p.print s).1 = .ok text)
    (hs : read (s.chars p.width p.depth ++ []) = some (x, []))
    (ht : read (t.chars p.width p.depth ++ []) = some (y, [])) (hdoc : x = y → s = t) :
    (p.print t).1 = .ok text ↔ x = y := by
  constructor
  · intro h'
    exact Sexpr.eq_of_text_eq hs ht ((text_of_print h).trans (text_of_print h').symm)
  · intro heq
    rw [← hdoc heq, h]

theorem programText_of_print {p : Printer} {stmts : List Stmt} {text : String}
    (h : p.printProgram stmts = .ok text) : programText p.width p.depth stmts = text := by
  rw [printProgram_eq] at h
  split at h
  · exact Except.ok.inj h
  · cases h

theorem printProgram_congr {a b : List Stmt} (h : a.map Stmt.sexpr = b.map Stmt.sexpr)
    (p : Printer) : p.printProgram a = p.printProgram b := by
  have hfits (stmts : List Stmt) : (stmts.all fun s => s.sexpr.fits p.width p.depth) =
      (stmts.map Stmt.sexpr).all (Sexpr.fits p.width p.depth) := by
    rw [List.all_map]
    rfl
  have htext (stmts : List Stmt) : (stmts.map fun s => s.sexpr.text p.width p.depth ++ "\n") =
      (stmts.map Stmt.sexpr).map fun s => s.text p.width p.depth ++ "\n" := by
    rw [List.map_map]
    rfl
  rw [printProgram_eq, printProgram_eq, hfits, hfits, htext, htext, h]

/-- What a tree is printed as, at a width and depth, tells all of the tree apart from source
positions and tokens that are never printed. -/
theorem print_unambiguous (v : Vocabulary) (p : Printer) :
    (∀ a b : Expr, v.Allows (.expr a) → v.Allows (.expr b) → ∀ text,
      (p.print a.sexpr).1 = .ok text → ((p.print b.sexpr).1 = .ok text ↔ a.bare = b.bare)) ∧
    (∀ a b : Stmt, v.Allows (.stmt a) → v.Allows (.stmt b) → ∀ text,
      (p.print a.sexpr).1 = .ok text → ((p.print b.sexpr).1 = .ok text ↔ a.bare = b.bare)) ∧
    (∀ a b : Pattern, v.Allows (.pattern a) → v.Allows (.pattern b) → ∀ text,
      (p.print a.sexpr).1 = .ok text → ((p.print b.sexpr).1 = .ok text ↔ a.bare = b.bare)) ∧
    (∀ a b : List Stmt, (∀ s ∈ a, v.Allows (.stmt s)) → (∀ s ∈ b, v.Allows (.stmt s)) → ∀ text,
      p.printProgram a = .ok text →
        (p.printProgram b = .ok text ↔ a.map Stmt.bare = b.map Stmt.bare)) := by
  refine ⟨?_, ?_, ?_, ?_⟩
  · intro a b ha hb text h
    refine print_ok_iff h (ha.readsBack _ _ [] stops_nil) (hb.readsBack _ _ [] stops_nil) ?_
    intro heq
    rw [← a.sexpr_bare, heq, b.sexpr_bare]
  · intro a b ha hb text h
    refine print_ok_iff h (ha.readsBack _ _ []) (hb.readsBack _ _ []) ?_
    intro heq
    rw [← a.sexpr_bare, heq, b.sexpr_bare]
  · intro a b ha hb text h
    refine print_ok_iff h (ha.readsBack _ _ [] stops_nil) (hb.readsBack _ _ [] stops_nil) ?_
    intro heq
    rw [← a.sexpr_bare, heq, b.sexpr_bare]
  · intro a b ha hb text h
    constructor
    · intro h'
      exact map_bare_eq_of_programText_eq ha hb
        ((programText_of_print h).trans (programText_of_print h').symm)
    · intro heq
      rw [← printProgram_congr (sexprs_eq_of_map_bare_eq heq) p, h]

end Printer

/-- One operator of each set and one permission. -/
def Vocabulary.small : Vocabulary where
  isAssignment s := s == "="
  isBinary s := s == "+"
  isLogical s := s == "and"
  isPermission s := s == "mut"
  assignment_ne_binary := by
    intro s h
    rw [beq_iff_eq.1 h]
    rfl
  assignment_ne_logical := by
    intro s h
    rw [beq_iff_eq.1 h]
    rfl
  binary_ne_logical := by
    intro s h
    rw [beq_iff_eq.1 h]
    rfl

theorem Vocabulary.allowsTypename_toTypename (v : Vocabulary) {t : TypeShape} (hlex : t.Lexical)
    (hpermissions : t.Every fun u => u.permissionIn v.isPermission = true)
    (hnames : t.Every fun u => u.nameOutside v.isPermission = true) :
    v.allowsTypename t.toTypename := by
  rw [allowsTypename, TypeShape.shape_toTypename]
  exact ⟨TypeShape.built_toTypename hlex, hlex, hpermissions, hnames⟩

/-- A call is told from its callee, an annotated binding from a plain one, a symbol from a wildcard
and a program from its first statement. -/
theorem Printer.print_tells_annotation :
    let v := Vocabulary.small
    let p := Printer.ofWidth 2
    let y := Expr.symbol (.synthetic "y")
    let call := Expr.call y (.synthetic "(") [y]
    let typename := (TypeShape.reference "mut" "" (.basic "T")).toTypename
    let annotated := Stmt.binding (.synthetic "let") (.synthetic "x") (some typename) y
    let plain := Stmt.binding (.synthetic "let") (.synthetic "x") none y
    (v.Allows (.expr call) ∧ v.Allows (.expr y) ∧ (p.print call.sexpr).1 = .ok "(() y y)" ∧
      ((p.print y.sexpr).1 = .ok "(() y y)" ↔ call.bare = y.bare)) ∧
    (v.Allows (.stmt annotated) ∧ v.Allows (.stmt plain) ∧
      (p.print annotated.sexpr).1 = .ok "(Stmt::Variable let x &mut T y)" ∧
      ((p.print plain.sexpr).1 = .ok "(Stmt::Variable let x &mut T y)" ↔
        annotated.bare = plain.bare)) ∧
    (v.Allows (.pattern (.value y)) ∧ v.Allows (.pattern (.wildcard .absent)) ∧
      (p.print (Pattern.value y).sexpr).1 = .ok "y" ∧
      ((p.print (Pattern.wildcard .absent).sexpr).1 = .ok "y" ↔
        (Pattern.value y).bare = (Pattern.wildcard .absent).bare)) ∧
    ((∀ s ∈ [plain, annotated], v.Allows (.stmt s)) ∧ (∀ s ∈ [plain], v.Allows (.stmt s)) ∧
      p.printProgram [plain, annotated] =
        .ok "(Stmt::Variable let x y)\n(Stmt::Variable let x &mut T y)\n" ∧
      (p.printProgram [plain] =
        .ok "(Stmt::Variable let x y)\n(Stmt::Variable let x &mut T y)\n" ↔
        [plain, annotated].map Stmt.bare = [plain].map Stmt.bare)) := by
  intro v p y call typename annotated plain
  have hy : v.Allows (.expr y) :=
    Vocabulary.allows_iff.2 ⟨rfl, fun c hc => absurd hc List.not_mem_nil⟩
  have hreferent : v.Allows (.typename (TypeShape.basic "T").toTypename) :=
    Vocabulary.allows_iff.2 ⟨v.allowsTypename_toTypename (by decide) (by decide) (by decide),
      fun c hc => absurd hc List.not_mem_nil⟩
  have hreference : v.Allows (.typename typename) :=
    Vocabulary.allows_iff.2 ⟨v.allowsTypename_toTypename (by decide) (by decide) (by decide),
      List.forall_mem_singleton.2 hreferent⟩
  have hcall : v.Allows (.expr call) :=
    Vocabulary.allows_iff.2 ⟨rfl, List.forall_mem_cons.2 ⟨hy, List.forall_mem_singleton.2 hy⟩⟩
  have hplain : v.Allows (.stmt plain) :=
    Vocabulary.allows_iff.2 ⟨rfl, List.forall_mem_singleton.2 hy⟩
  have hannotated : v.Allows (.stmt annotated) :=
    Vocabulary.allows_iff.2
      ⟨rfl, List.forall_mem_cons.2 ⟨hreference, List.forall_mem_singleton.2 hy⟩⟩
  have hvalue : v.Allows (.pattern (.value y)) :=
    Vocabulary.allows_iff.2 ⟨trivial, List.forall_mem_singleton.2 hy⟩
  have hwildcard : v.Allows (.pattern (.wildcard .absent)) :=
    Vocabulary.allows_iff.2 ⟨trivial, fun c hc => absurd hc List.not_mem_nil⟩
  have hlong : ∀ s ∈ [plain, annotated], v.Allows (.stmt s) :=
    List.forall_mem_cons.2 ⟨hplain, List.forall_mem_singleton.2 hannotated⟩
  have hshort : ∀ s ∈ [plain], v.Allows (.stmt s) := List.forall_mem_singleton.2 hplain
  have hcallText : (p.print call.sexpr).1 = .ok "(() y y)" := by decide +kernel
  have hannotatedText : (p.print annotated.sexpr).1 = .ok "(Stmt::Variable let x &mut T y)" := by
    decide +kernel
  have hvalueText : (p.print (Pattern.value y).sexpr).1 = .ok "y" := by decide +kernel
  have hlongText : p.printProgram [plain, annotated] =
      .ok "(Stmt::Variable let x y)\n(Stmt::Variable let x &mut T y)\n" := by
    decide +kernel
  obtain ⟨hexprs, hstmts, hpatterns, hprograms⟩ := print_unambiguous v p
  exact ⟨⟨hcall, hy, hcallText, hexprs call y hcall hy _ hcallText⟩,
    ⟨hannotated, hplain, hannotatedText,
      hstmts annotated plain hannotated hplain _ hannotatedText⟩,
    ⟨hvalue, hwildcard, hvalueText, hpatterns _ _ hvalue hwildcard _ hvalueText⟩,
    ⟨hlong, hshort, hlongText, hprograms _ _ hlong hshort _ hlongText⟩⟩

end LangCore
