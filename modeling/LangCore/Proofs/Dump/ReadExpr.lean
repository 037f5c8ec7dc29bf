import Mathlib
import LangCore.Proofs.Dump.ReadBack

/-!
# Expressions read back

One statement for each kind of expression: it reads back when its parts do.
-/

namespace LangCore

variable {v : Vocabulary}

theorem readExpr_form {word : String} (h : IsWord word) (hne : word ≠ "") {rest : List Char}
    (hrest : Stops rest) :
    v.readExpr ('(' :: (word.toList ++ rest)) = v.readForm word (rest.drop 1) := by
  have hclose (s : List Char) : word.toList ++ rest ≠ ')' :: s := h.append_ne hne rfl rest s
  have hopen (s : List Char) : word.toList ++ rest ≠ '(' :: s := h.append_ne hne rfl rest s
  rw [Vocabulary.readExpr.eq_4 _ _ hclose hopen, h.nextWord_append hrest, h.pastWord_append hrest]

theorem readExpr_word {word : String} (h : IsWord word) (hne : word ≠ "") {rest : List Char}
    (hrest : Stops rest) : v.readExpr (word.toList ++ rest) = some (.ofWord word, rest) := by
  have hquote (s : List Char) : word.toList ++ rest ≠ '"' :: s := h.append_ne hne rfl rest s
  have hopen (s : List Char) : word.toList ++ rest ≠ '(' :: s := h.append_ne hne rfl rest s
  rw [Vocabulary.readExpr.eq_5 _ _ hquote (fun s => hopen _) (fun s => hopen _) hopen,
    h.nextWord_append hrest, h.pastWord_append hrest]

namespace Vocabulary.ReadsBack

theorem unit (token : Token) : v.ReadsBack (.expr (.unit token)) := by
  intro width depth rest _
  simp [Expr.sexpr, Expr.bare, readExpr.eq_2]

theorem string {token : Token} {value : String} (h : '"' ∉ value.toList) :
    v.ReadsBack (.expr (.string token value)) := by
  intro width depth rest _
  have hword : ∀ c ∈ value.toList, (c != '"') = true := by
    intro c hc
    rw [bne_iff_ne]
    rintro rfl
    exact h hc
  have hstop : ∀ c ∈ ('"' :: rest).head?, (c != '"') = false := by
    rintro c ⟨⟩
    rfl
  have htext : (Expr.string token value).sexpr.chars width depth ++ rest =
      '"' :: (value.toList ++ '"' :: rest) := by
    simp [Expr.sexpr]
  rw [htext, readExpr.eq_1, takeWhile_append_of_stop hword hstop,
    dropWhile_append_of_stop hword hstop, String.ofList_toList]
  rfl

theorem word {e : Expr} {w : String} (hsexpr : e.sexpr = .atom w) (hword : IsWord w) (hne : w ≠ "")
    (hbare : Expr.ofWord w = e.bare) : v.ReadsBack (.expr e) := by
  intro width depth rest hrest
  rw [hsexpr, Sexpr.chars_atom, readExpr_word hword hne hrest, hbare]

theorem boolean (token : Token) (value : Bool) : v.ReadsBack (.expr (.boolean token value)) := by
  cases value with
  | false => exact word rfl rfl (by decide) (Expr.ofWord_boolean false)
  | true => exact word rfl rfl (by decide) (Expr.ofWord_boolean true)

theorem integer (token : Token) (value : Int64) : v.ReadsBack (.expr (.integer token value)) := by
  refine word rfl (isWord_toString_int _) (fun hempty => ?_) (Expr.ofWord_integer value)
  exact DecimalStyle.toString_int_ne_empty value.toInt (by rw [hempty]; rfl)

theorem float {token : Token} {value : Binary64} (h : value.isFinite = true) :
    v.ReadsBack (.expr (.float token value)) := by
  refine word rfl (isWord_exactText _) (fun hempty => ?_) (Expr.ofWord_float h)
  obtain ⟨c, hc, -⟩ := Binary64.head?_exactText h
  rw [hempty] at hc
  cases hc

theorem symbol {name : Token} (h : isSymbolName name.lexeme = true) :
    v.ReadsBack (.expr (.symbol name)) := by
  have hname := isIdentifier_of_isSymbolName h
  exact word rfl (isWord_of_isIdentifier hname) (ne_empty_of_isIdentifier hname)
    (Expr.ofWord_symbol h)

end Vocabulary.ReadsBack

theorem ne_of_isOperator_forms {w : String} (h : isOperator w = true) :
    w ≠ "." ∧ w ≠ "Expr::Block" ∧ w ≠ "Expr::For" ∧ w ≠ "Expr::If" ∧ w ≠ "Expr::Switch" ∧
      w ≠ "Expr::While" := by
  refine ⟨?_, ?_, ?_, ?_, ?_, ?_⟩ <;> exact ne_of_accepted h (by decide)

theorem readForm_unary {w : String} (h : isOperator w = true) {s rest : List Char} {operand : Expr}
    (hoperand : v.readExpr s = some (operand, ')' :: rest)) :
    v.readForm w s = some (.unary (.synthetic w) operand, rest) := by
  rw [Vocabulary.readForm.eq_def]
  simp [ne_of_isOperator_forms h, hoperand]

theorem readForm_binary {w : String} (h : isOperator w = true) {s s' rest : List Char}
    {left right : Expr} (hleft : v.readExpr s = some (left, ' ' :: s'))
    (hright : v.readExpr s' = some (right, ')' :: rest)) :
    v.readForm w s = some (v.binaryForm w left right, rest) := by
  rw [Vocabulary.readForm.eq_def]
  simp [ne_of_isOperator_forms h, hleft, hright]

namespace Vocabulary.ReadsBack

theorem unary {oper : Token} {operand : Expr} (hoper : isOperator oper.lexeme = true)
    (hoperand : v.ReadsBack (.expr operand)) : v.ReadsBack (.expr (.unary oper operand)) := by
  intro width depth rest _
  have htext : (Expr.unary oper operand).sexpr.chars width depth ++ rest =
      '(' :: (oper.lexeme.toList ++
        ' ' :: (operand.sexpr.chars width depth ++ ')' :: rest)) := by
    simp [Expr.sexpr]
  rw [htext, readExpr_form (isWord_of_isOperator hoper) (ne_of_accepted hoper (by decide))
    (stops_blank _)]
  exact readForm_unary hoper (hoperand width depth _ (stops_close _))

/-- Forms with two operands, whatever set their operator is of. -/
theorem binaryForm {oper : Token} {e left right : Expr}
    (hsexpr : e.sexpr = .form [.atom oper.lexeme, left.sexpr, right.sexpr])
    (hbare : v.binaryForm oper.lexeme left.bare right.bare = e.bare)
    (hoper : isOperator oper.lexeme = true) (hleft : v.ReadsBack (.expr left))
    (hright : v.ReadsBack (.expr right)) : v.ReadsBack (.expr e) := by
  intro width depth rest _
  have htext : e.sexpr.chars width depth ++ rest =
      '(' :: (oper.lexeme.toList ++ ' ' :: (left.sexpr.chars width depth ++
        ' ' :: (right.sexpr.chars width depth ++ ')' :: rest))) := by
    simp [hsexpr]
  rw [htext, readExpr_form (isWord_of_isOperator hoper) (ne_of_accepted hoper (by decide))
    (stops_blank _), ← hbare]
  exact readForm_binary hoper (hleft width depth _ (stops_blank _))
    (hright width depth _ (stops_close _))

theorem assign {target value : Expr} {oper : Token} (hoper : isOperator oper.lexeme = true)
    (hset : v.isAssignment oper.lexeme = true) (htarget : v.ReadsBack (.expr target))
    (hvalue : v.ReadsBack (.expr value)) : v.ReadsBack (.expr (.assign target oper value)) := by
  refine binaryForm rfl ?_ hoper htarget hvalue
  rw [Vocabulary.binaryForm, if_pos hset]
  rfl

theorem binary {left right : Expr} {oper : Token} (hoper : isOperator oper.lexeme = true)
    (hset : v.isBinary oper.lexeme = true) (hleft : v.ReadsBack (.expr left))
    (hright : v.ReadsBack (.expr right)) : v.ReadsBack (.expr (.binary left oper right)) := by
  have hassignment : v.isAssignment oper.lexeme ≠ true := by
    intro h
    rw [v.assignment_ne_binary _ h] at hset
    cases hset
  refine binaryForm rfl ?_ hoper hleft hright
  rw [Vocabulary.binaryForm, if_neg hassignment, if_pos hset]
  rfl

theorem logical {left right : Expr} {oper : Token} (hoper : isOperator oper.lexeme = true)
    (hset : v.isLogical oper.lexeme = true) (hleft : v.ReadsBack (.expr left))
    (hright : v.ReadsBack (.expr right)) : v.ReadsBack (.expr (.logical left oper right)) := by
  have hassignment : v.isAssignment oper.lexeme ≠ true := by
    intro h
    rw [v.assignment_ne_logical _ h] at hset
    cases hset
  have hbinary : v.isBinary oper.lexeme ≠ true := by
    intro h
    rw [v.binary_ne_logical _ h] at hset
    cases hset
  refine binaryForm rfl ?_ hoper hleft hright
  rw [Vocabulary.binaryForm, if_neg hassignment, if_neg hbinary]
  rfl

end Vocabulary.ReadsBack

theorem stops_flatMap_blank (width depth : ℕ) (ss : List Sexpr) (rest : List Char) :
    Stops (ss.flatMap (fun s => ' ' :: s.chars width depth) ++ ')' :: rest) := by
  cases ss with
  | nil => exact stops_close rest
  | cons => exact stops_blank _

theorem readArguments_flatMap {arguments : List Expr}
    (h : ∀ e ∈ arguments, v.ReadsBack (.expr e)) (width depth : ℕ) (rest : List Char) :
    v.readArguments ((arguments.map Expr.sexpr).flatMap (fun s => ' ' :: s.chars width depth) ++
      ')' :: rest) = some (arguments.map Expr.bare, rest) := by
  induction arguments with
  | nil =>
    rw [List.map_nil, List.flatMap_nil, List.nil_append, Vocabulary.readArguments.eq_2]
    · rfl
    · rintro s ⟨⟩
  | cons e arguments ih =>
    obtain ⟨he, harguments⟩ := List.forall_mem_cons.1 h
    rw [List.map_cons, List.flatMap_cons, List.cons_append, List.cons_append, List.append_assoc,
      Vocabulary.readArguments.eq_1, he width depth _ (stops_flatMap_blank width depth _ rest)]
    simp [ih harguments]

namespace Vocabulary.ReadsBack

theorem call {callee : Expr} {paren : Token} {arguments : List Expr}
    (hcallee : v.ReadsBack (.expr callee)) (h : ∀ e ∈ arguments, v.ReadsBack (.expr e)) :
    v.ReadsBack (.expr (.call callee paren arguments)) := by
  intro width depth rest _
  have harguments := readArguments_flatMap h width depth rest
  have htext : (Expr.call callee paren arguments).sexpr.chars width depth ++ rest =
      '(' :: '(' :: ')' :: ' ' :: (callee.sexpr.chars width depth ++
        ((arguments.map Expr.sexpr).flatMap (fun s => ' ' :: s.chars width depth) ++
          ')' :: rest)) := by
    simp [Expr.sexpr]
  rw [htext, readExpr.eq_3, List.drop_succ_cons, List.drop_succ_cons, List.drop_zero,
    hcallee width depth _ (stops_flatMap_blank width depth _ rest)]
  simp [harguments, Expr.bare]

theorem field {object : Expr} {name : Token} (hobject : v.ReadsBack (.expr object))
    (hname : isIdentifier name.lexeme = true) : v.ReadsBack (.expr (.field object name)) := by
  intro width depth rest _
  have hword := isWord_of_isIdentifier hname
  have htext : (Expr.field object name).sexpr.chars width depth ++ rest =
      '(' :: (".".toList ++ ' ' :: (object.sexpr.chars width depth ++
        ' ' :: (name.lexeme.toList ++ ')' :: rest))) := by
    simp [Expr.sexpr]
  rw [htext, readExpr_form (rfl : IsWord ".") (by decide) (stops_blank _), readForm.eq_def]
  simp [hobject width depth _ (stops_blank _), hword.nextWord_append (stops_close _),
    hword.pastWord_append (stops_close _), Expr.bare, Token.bare]

theorem block {body : Block} (hbody : v.ReadsBack (.block body)) :
    v.ReadsBack (.expr (.block body)) := by
  intro width depth rest _
  have htext : (Expr.block body).sexpr.chars width depth ++ rest =
      '(' :: ("Expr::Block".toList ++ ' ' :: '(' ::
        (Sexpr.lines width (depth + 1) body.sexprs ++ ')' :: ')' :: rest)) := by
    simp [Expr.sexpr]
  rw [htext, readExpr_form (rfl : IsWord "Expr::Block") (by decide) (stops_blank _),
    readForm.eq_def]
  simp [hbody width (depth + 1) (')' :: rest), Expr.bare]

theorem whileDo {keyword : Token} {condition : Expr} {body : Block}
    (hcondition : v.ReadsBack (.expr condition)) (hbody : v.ReadsBack (.block body)) :
    v.ReadsBack (.expr (.whileDo keyword condition body)) := by
  intro width depth rest _
  have htext : (Expr.whileDo keyword condition body).sexpr.chars width depth ++ rest =
      '(' :: ("Expr::While".toList ++ ' ' :: (condition.sexpr.chars width depth ++ ' ' :: '(' ::
        (Sexpr.lines width (depth + 1) body.sexprs ++ ')' :: ')' :: rest))) := by
    simp [Expr.sexpr]
  rw [htext, readExpr_form (rfl : IsWord "Expr::While") (by decide) (stops_blank _),
    readForm.eq_def]
  simp [hcondition width depth _ (stops_blank _), hbody width (depth + 1) (')' :: rest), Expr.bare]

theorem forIn {keyword name : Token} {object : Expr} {body : Block}
    (hname : isIdentifier name.lexeme = true) (hobject : v.ReadsBack (.expr object))
    (hbody : v.ReadsBack (.block body)) :
    v.ReadsBack (.expr (.forIn keyword name object body)) := by
  intro width depth rest _
  have hword := isWord_of_isIdentifier hname
  have htext : (Expr.forIn keyword name object body).sexpr.chars width depth ++ rest =
      '(' :: ("Expr::For".toList ++ ' ' :: '(' :: (name.lexeme.toList ++
        ' ' :: (object.sexpr.chars width depth ++ ')' :: ' ' :: '(' ::
          (Sexpr.lines width (depth + 1) body.sexprs ++ ')' :: ')' :: rest)))) := by
    simp [Expr.sexpr]
  rw [htext, readExpr_form (rfl : IsWord "Expr::For") (by decide) (stops_blank _), readForm.eq_def]
  simp [hword.nextWord_append (stops_blank _), hword.pastWord_append (stops_blank _),
    hobject width depth _ (stops_close _), hbody width (depth + 1) (')' :: rest), Expr.bare,
    Token.bare]

theorem ifElse {keyword : Token} {condition thenBody elseBody : Expr}
    (hthenAllowed : v.allowsExpr thenBody = true) (helseAllowed : v.allowsExpr elseBody = true)
    (hcondition : v.ReadsBack (.expr condition)) (hthen : v.ReadsBack (.expr thenBody))
    (helse : v.ReadsBack (.expr elseBody)) :
    v.ReadsBack (.expr (.ifElse keyword condition thenBody elseBody)) := by
  intro width depth rest _
  have htext : (Expr.ifElse keyword condition thenBody elseBody).sexpr.chars width depth ++ rest =
      '(' :: ("Expr::If".toList ++ ' ' :: (condition.sexpr.chars width depth ++ ' ' :: '(' ::
        (Sexpr.lineBreak width (depth + 1) ++ (thenBody.sexpr.chars width (depth + 1) ++
          (Sexpr.lineBreak width (depth + 1) ++ (elseBody.sexpr.chars width (depth + 1) ++
            ')' :: ')' :: rest)))))) := by
    simp [Expr.sexpr]
  rw [htext, readExpr_form (rfl : IsWord "Expr::If") (by decide) (stops_blank _),
    readForm.eq_def]
  have hgap := isGap_lineBreak width (depth + 1)
  simp [hcondition width depth _ (stops_blank _),
    (Expr.opening hthenAllowed width (depth + 1)).skipBlanks_append hgap,
    (Expr.opening helseAllowed width (depth + 1)).skipBlanks_append hgap,
    hthen width (depth + 1) _ (stops_lineBreak width (depth + 1) _),
    helse width (depth + 1) _ (stops_close _), Expr.bare]

end Vocabulary.ReadsBack

namespace Vocabulary.ReadsBack

theorem value {e : Expr} (hallowed : v.allowsExpr e = true) (he : v.ReadsBack (.expr e)) :
    v.ReadsBack (.pattern (.value e)) := by
  intro width depth rest hrest
  have hne := (Expr.opening hallowed width depth).nextWord_append_ne hrest
  rw [Pattern.sexpr, readPattern.eq_def, if_neg hne, he width depth rest hrest]
  rfl

theorem wildcard (token : Token) : v.ReadsBack (.pattern (.wildcard token)) := by
  intro width depth rest hrest
  have hword : IsWord "_" := rfl
  rw [Pattern.sexpr, Sexpr.chars_atom, readPattern.eq_def, hword.nextWord_append hrest,
    hword.pastWord_append hrest, if_pos rfl]
  rfl

end Vocabulary.ReadsBack

def Vocabulary.CaseReadsBack (v : Vocabulary) (c : SwitchCase) : Prop :=
  v.ReadsBack (.pattern c.pattern) ∧ v.ReadsBack (.expr c.predicate) ∧
    v.ReadsBack (.expr c.body) ∧ v.allowsExpr c.body = true

theorem readCases_lines {cases : List SwitchCase} (h : ∀ c ∈ cases, v.CaseReadsBack c)
    (width depth : ℕ) (rest : List Char) :
    v.readCases (Sexpr.lines width depth (cases.map SwitchCase.sexpr) ++ ')' :: rest) =
      some (cases.map SwitchCase.bare, ')' :: rest) := by
  induction cases with
  | nil =>
    rw [List.map_nil, Sexpr.lines_nil, List.nil_append, Vocabulary.readCases.eq_def,
      skipBlanks_close]
    rfl
  | cons c cases ih =>
    obtain ⟨hc, hcases⟩ := List.forall_mem_cons.1 h
    obtain ⟨pattern, predicate, body⟩ := c
    obtain ⟨hpattern, hpredicate, hbody, hallowed⟩ := hc
    have htext : Sexpr.lines width depth
        ((SwitchCase.mk pattern predicate body :: cases).map SwitchCase.sexpr) ++ ')' :: rest =
        Sexpr.lineBreak width depth ++ '(' :: (pattern.sexpr.chars width depth ++ ' ' ::
          (predicate.sexpr.chars width depth ++ ' ' :: '(' :: (Sexpr.lineBreak width (depth + 1) ++
            (body.sexpr.chars width (depth + 1) ++ ')' :: ')' ::
              (Sexpr.lines width depth (cases.map SwitchCase.sexpr) ++ ')' :: rest))))) := by
      simp [SwitchCase.sexpr]
    have hgap := isGap_lineBreak width (depth + 1)
    rw [htext, Vocabulary.readCases.eq_def, (isGap_lineBreak width depth).skipBlanks_open]
    simp [hpattern width depth _ (stops_blank _), hpredicate width depth _ (stops_blank _),
      (Expr.opening hallowed width (depth + 1)).skipBlanks_append hgap,
      hbody width (depth + 1) _ (stops_close _), ih hcases, SwitchCase.bare]

namespace Vocabulary.ReadsBack

theorem switch {keyword : Token} {value : Expr} {cases : List SwitchCase}
    (hvalue : v.ReadsBack (.expr value)) (hcases : ∀ c ∈ cases, v.CaseReadsBack c) :
    v.ReadsBack (.expr (.switch keyword value cases)) := by
  intro width depth rest _
  have hread := readCases_lines hcases width (depth + 1) (')' :: rest)
  have htext : (Expr.switch keyword value cases).sexpr.chars width depth ++ rest =
      '(' :: ("Expr::Switch".toList ++ ' ' :: (value.sexpr.chars width depth ++ ' ' :: '(' ::
        (Sexpr.lines width (depth + 1) (cases.map SwitchCase.sexpr) ++ ')' :: ')' :: rest))) := by
    simp [Expr.sexpr]
  rw [htext, readExpr_form (rfl : IsWord "Expr::Switch") (by decide) (stops_blank _),
    readForm.eq_def]
  simp [hvalue width depth _ (stops_blank _), hread, Expr.bare]

end Vocabulary.ReadsBack

end LangCore
