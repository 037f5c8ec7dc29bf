import Mathlib
import LangCore.Proofs.Dump.ReadExpr

/-!
# Statements read back

One statement for each kind of statement, and from all kinds together that every
item that keeps to a vocabulary reads back.
-/

namespace LangCore

variable {v : Vocabulary}

theorem startsStmt_form {word : String} (hword : IsWord word)
    (hfront : ['S', 't', 'm', 't', ':', ':'].isPrefixOf word.toList = true) (width depth : ℕ)
    (parts : List Sexpr) (rest : List Char) :
    startsStmt ((Sexpr.form (.atom word :: parts)).chars width depth ++ rest) = true := by
  simp only [Sexpr.chars_form, Sexpr.spaced_cons, Sexpr.chars_atom, List.cons_append,
    List.append_assoc, List.nil_append, startsStmt]
  rwa [hword.nextWord_append (stops_flatMap_blank width depth parts rest)]

theorem startsStmt_node {word : String} (hword : IsWord word)
    (hfront : ['S', 't', 'm', 't', ':', ':'].isPrefixOf word.toList = true) (width depth : ℕ)
    (header children : List Sexpr) (rest : List Char) :
    startsStmt ((Sexpr.node (.atom word :: header) children).chars width depth ++ rest) = true := by
  simp only [Sexpr.chars_node, Sexpr.spaced_cons, Sexpr.chars_atom, List.cons_append,
    List.append_assoc, startsStmt]
  rwa [hword.nextWord_append]
  cases header with
  | nil => exact stops_blank _
  | cons => exact stops_blank _

theorem Stmt.startsStmt_append (s : Stmt) (width depth : ℕ) (rest : List Char) :
    startsStmt (s.sexpr.chars width depth ++ rest) = true := by
  cases s with
  | breakLoop => exact startsStmt_form (rfl : IsWord "Stmt::Break") rfl width depth _ rest
  | continueLoop => exact startsStmt_form (rfl : IsWord "Stmt::Continue") rfl width depth _ rest
  | enumDecl => exact startsStmt_node (rfl : IsWord "Stmt::Enum") rfl width depth _ _ rest
  | expression => exact startsStmt_form (rfl : IsWord "Stmt::Expression") rfl width depth _ rest
  | functionDecl decl =>
    obtain ⟨name, params, result, body⟩ := decl
    exact startsStmt_node (rfl : IsWord "Stmt::Function") rfl width depth _ _ rest
  | implDecl => exact startsStmt_node (rfl : IsWord "Stmt::Impl") rfl width depth _ _ rest
  | returnValue => exact startsStmt_form (rfl : IsWord "Stmt::Return") rfl width depth _ rest
  | structDecl => exact startsStmt_node (rfl : IsWord "Stmt::Struct") rfl width depth _ _ rest
  | traitDecl => exact startsStmt_node (rfl : IsWord "Stmt::Trait") rfl width depth _ _ rest
  | binding => exact startsStmt_form (rfl : IsWord "Stmt::Variable") rfl width depth _ rest

theorem exists_cons_of_startsStmt {s : List Char} (h : startsStmt s = true) :
    ∃ cs, s = '(' :: cs := by
  unfold startsStmt at h
  split at h
  · exact ⟨_, rfl⟩
  · cases h

theorem readBlock_cons {s : Stmt} (hs : v.ReadsBack (.stmt s)) {rest rest' : List Char}
    {body : Block} (h : v.readBlock rest = some (body, rest')) (width depth : ℕ) :
    v.readBlock (Sexpr.lineBreak width depth ++ (s.sexpr.chars width depth ++ rest)) =
      some (⟨.absent, s.bare :: body.stmts, body.result⟩, rest') := by
  have hstarts := s.startsStmt_append width depth rest
  obtain ⟨cs, hcs⟩ := exists_cons_of_startsStmt hstarts
  have hskip : skipBlanks (Sexpr.lineBreak width depth ++ (s.sexpr.chars width depth ++ rest)) =
      s.sexpr.chars width depth ++ rest := by
    rw [hcs]
    exact (isGap_lineBreak width depth).skipBlanks_open cs
  rw [Vocabulary.readBlock.eq_def, hskip, if_pos hstarts, hs width depth rest]
  simp [h]

theorem readBlock_result {e : Expr} (hallowed : v.allowsExpr e = true)
    (he : v.ReadsBack (.expr e)) (width depth : ℕ) {rest : List Char} (hrest : Stops rest) :
    v.readBlock (Sexpr.lineBreak width depth ++ (e.sexpr.chars width depth ++ rest)) =
      some (⟨.absent, [], e.bare⟩, rest) := by
  have hopening := Expr.opening hallowed width depth
  rw [Vocabulary.readBlock.eq_def, hopening.skipBlanks_append (isGap_lineBreak width depth),
    hopening.startsStmt_append, if_neg Bool.false_ne_true, he width depth rest hrest]
  rfl

namespace Vocabulary.ReadsBack

theorem lines {b : Block} (hstmts : ∀ s ∈ b.stmts, v.ReadsBack (.stmt s))
    (hallowed : v.allowsExpr b.result = true) (hresult : v.ReadsBack (.expr b.result)) :
    v.ReadsBack (.block b) := by
  obtain ⟨brace, stmts, result⟩ := b
  intro width depth rest
  induction stmts with
  | nil =>
    simpa [Block.sexprs, Block.bare] using
      readBlock_result hallowed hresult width depth (stops_close rest)
  | cons s stmts ih =>
    obtain ⟨hs, hstmts⟩ := List.forall_mem_cons.1 hstmts
    have htail := ih hstmts hallowed hresult
    simp only [Block.sexprs, Block.bare, Stmt.sexprs_eq_map, Stmt.bares_eq_map, List.map_cons,
      List.cons_append, Sexpr.lines_cons, List.append_assoc] at htail ⊢
    exact readBlock_cons hs htail width depth

end Vocabulary.ReadsBack

namespace Vocabulary.ReadsBack

theorem functionDecl {f : FunctionDecl} (hname : isIdentifier f.name.lexeme = true)
    (hparams : v.EntriesReadBack f.params) (hresult : v.ReadsBack (.typename f.result))
    (hbody : v.ReadsBack (.block f.body)) : v.ReadsBack (.function f) := by
  obtain ⟨name, params, result, body⟩ := f
  intro width depth rest
  have hword : IsWord "Stmt::Function" := rfl
  have hnameWord := isWord_of_isIdentifier hname
  have htext : (FunctionDecl.mk name params result body).sexpr.chars width depth ++ rest =
      '(' :: ("Stmt::Function".toList ++ ' ' :: (name.lexeme.toList ++ ' ' :: '(' ::
        (Sexpr.spaced width depth (params.map TypedName.sexpr) ++ ')' :: ' ' ::
          (result.name.toList ++ ' ' :: '(' :: (Sexpr.lines width (depth + 1) body.sexprs ++
            ')' :: ')' :: rest))))) := by
    simp [FunctionDecl.sexpr]
  rw [htext, readFunction.eq_def]
  simp only [List.drop_succ_cons, List.drop_zero]
  rw [hword.pastWord_append (stops_blank _)]
  simp only [List.drop_succ_cons, List.drop_zero]
  rw [hnameWord.pastWord_append (stops_blank _), hnameWord.nextWord_append (stops_blank _)]
  simp only [List.drop_succ_cons, List.drop_zero]
  rw [readTypedNames_spaced hparams width depth]
  simp [hresult _ (ends_blank _), hbody width (depth + 1) (')' :: rest), FunctionDecl.bare,
    Token.bare]

end Vocabulary.ReadsBack

theorem exists_cons_function (f : FunctionDecl) (width depth : ℕ) :
    ∃ cs, f.sexpr.chars width depth = '(' :: cs := by
  obtain ⟨name, params, result, body⟩ := f
  rw [FunctionDecl.sexpr, Sexpr.chars_node]
  exact ⟨_, rfl⟩

theorem readMethods_lines {methods : List FunctionDecl}
    (h : ∀ f ∈ methods, v.ReadsBack (.function f)) (width depth : ℕ) (rest : List Char) :
    v.readMethods (Sexpr.lines width depth (methods.map FunctionDecl.sexpr) ++ ')' :: rest) =
      some (methods.map FunctionDecl.bare, ')' :: rest) := by
  induction methods with
  | nil =>
    rw [List.map_nil, Sexpr.lines_nil, List.nil_append, Vocabulary.readMethods.eq_def,
      skipBlanks_close]
    rfl
  | cons f methods ih =>
    obtain ⟨hf, hmethods⟩ := List.forall_mem_cons.1 h
    obtain ⟨cs, hcs⟩ := exists_cons_function f width depth
    have hread := hf width depth
      (Sexpr.lines width depth (methods.map FunctionDecl.sexpr) ++ ')' :: rest)
    rw [hcs, List.cons_append] at hread
    rw [List.map_cons, Sexpr.lines_cons, List.append_assoc, List.append_assoc, hcs,
      List.cons_append, Vocabulary.readMethods.eq_def,
      (isGap_lineBreak width depth).skipBlanks_open]
    simp [hread, ih hmethods]

theorem readStmt_form {word : String} (h : IsWord word) (hne : word ≠ "Stmt::Function")
    {rest : List Char} (hrest : Stops rest) :
    v.readStmt ('(' :: (word.toList ++ rest)) = v.readStmtForm word (rest.drop 1) := by
  rw [Vocabulary.readStmt.eq_def]
  simp only [List.drop_succ_cons, List.drop_zero]
  rw [h.nextWord_append hrest, h.pastWord_append hrest, if_neg hne]

namespace Vocabulary.ReadsBack

theorem function {f : FunctionDecl} (h : v.ReadsBack (.function f)) :
    v.ReadsBack (.stmt (.functionDecl f)) := by
  intro width depth rest
  have hword : IsWord "Stmt::Function" := rfl
  have hread := h width depth rest
  have hnext : nextWord ((f.sexpr.chars width depth ++ rest).drop 1) = "Stmt::Function" := by
    obtain ⟨name, params, result, body⟩ := f
    have htext : ((FunctionDecl.mk name params result body).sexpr.chars width depth ++
        rest).drop 1 = "Stmt::Function".toList ++ ' ' :: (name.lexeme.toList ++ ' ' :: '(' ::
          (Sexpr.spaced width depth (params.map TypedName.sexpr) ++ ')' :: ' ' ::
            (result.name.toList ++ ' ' :: '(' :: (Sexpr.lines width (depth + 1) body.sexprs ++
              ')' :: ')' :: rest)))) := by
      simp [FunctionDecl.sexpr]
    rw [htext, hword.nextWord_append (stops_blank _)]
  rw [Stmt.sexpr, readStmt.eq_def]
  simp only
  rw [hnext, if_pos rfl, hread]
  rfl

theorem keywordStmt {s : Stmt} {word : String} (hsexpr : s.sexpr = .form [.atom word])
    (hword : IsWord word) (hne : word ≠ "Stmt::Function")
    (hform : ∀ rest, v.readStmtForm word rest = some (s.bare, rest)) : v.ReadsBack (.stmt s) := by
  intro width depth rest
  have htext : s.sexpr.chars width depth ++ rest = '(' :: (word.toList ++ ')' :: rest) := by
    simp [hsexpr]
  rw [htext, readStmt_form hword hne (stops_close _)]
  exact hform rest

theorem breakLoop (keyword : Token) : v.ReadsBack (.stmt (.breakLoop keyword)) := by
  refine keywordStmt rfl (rfl : IsWord "Stmt::Break") (by decide) fun rest => ?_
  rw [readStmtForm.eq_def, if_pos rfl]
  rfl

theorem continueLoop (keyword : Token) : v.ReadsBack (.stmt (.continueLoop keyword)) := by
  refine keywordStmt rfl (rfl : IsWord "Stmt::Continue") (by decide) fun rest => ?_
  rw [readStmtForm.eq_def, if_neg (by decide), if_pos rfl]
  rfl

theorem operandStmt {s : Stmt} {word : String} {e : Expr}
    (hsexpr : s.sexpr = .form [.atom word, e.sexpr]) (hword : IsWord word)
    (hne : word ≠ "Stmt::Function") (he : v.ReadsBack (.expr e))
    (hform : ∀ {t rest}, v.readExpr t = some (e.bare, ')' :: rest) →
      v.readStmtForm word t = some (s.bare, rest)) : v.ReadsBack (.stmt s) := by
  intro width depth rest
  have htext : s.sexpr.chars width depth ++ rest =
      '(' :: (word.toList ++ ' ' :: (e.sexpr.chars width depth ++ ')' :: rest)) := by
    simp [hsexpr]
  rw [htext, readStmt_form hword hne (stops_blank _)]
  exact hform (he width depth _ (stops_close rest))

theorem expression {e : Expr} (he : v.ReadsBack (.expr e)) :
    v.ReadsBack (.stmt (.expression e)) := by
  refine operandStmt rfl (rfl : IsWord "Stmt::Expression") (by decide) he fun h => ?_
  rw [readStmtForm.eq_def]
  simp [h, Stmt.bare]

theorem returnValue {keyword : Token} {e : Expr} (he : v.ReadsBack (.expr e)) :
    v.ReadsBack (.stmt (.returnValue keyword e)) := by
  refine operandStmt rfl (rfl : IsWord "Stmt::Return") (by decide) he fun h => ?_
  rw [readStmtForm.eq_def]
  simp [h, Stmt.bare]

/-- A statement that is its keyword and a name, with lines below them that `read` takes. -/
theorem namedStmt {α : Type} {read : List Char → Option (α × List Char)} {s : Stmt} {word : String}
    {name : Token} {below : List Sexpr} {x : α}
    (hsexpr : s.sexpr = .node [.atom word, .atom name.lexeme] below) (hword : IsWord word)
    (hne : word ≠ "Stmt::Function") (hname : isIdentifier name.lexeme = true)
    (hread : ∀ width depth rest,
      read (Sexpr.lines width depth below ++ ')' :: rest) = some (x, ')' :: rest))
    (hform : ∀ {t rest}, nextWord t = name.lexeme →
      read ((pastWord t).drop 2) = some (x, ')' :: ')' :: rest) →
      v.readStmtForm word t = some (s.bare, rest)) : v.ReadsBack (.stmt s) := by
  intro width depth rest
  have hnameWord := isWord_of_isIdentifier hname
  have htext : s.sexpr.chars width depth ++ rest =
      '(' :: (word.toList ++ ' ' :: (name.lexeme.toList ++ ' ' :: '(' ::
        (Sexpr.lines width (depth + 1) below ++ ')' :: ')' :: rest))) := by
    simp [hsexpr]
  rw [htext, readStmt_form hword hne (stops_blank _)]
  refine hform (hnameWord.nextWord_append (stops_blank _)) ?_
  rw [List.drop_one, List.tail_cons, hnameWord.pastWord_append (stops_blank _)]
  exact hread width (depth + 1) (')' :: rest)

theorem enumDecl {name : Token} {variants : List TypedName}
    (hname : isIdentifier name.lexeme = true) (h : v.EntriesReadBack variants) :
    v.ReadsBack (.stmt (.enumDecl name variants)) := by
  refine namedStmt rfl (rfl : IsWord "Stmt::Enum") (by decide) hname (readTypedNames_lines h) ?_
  intro t rest hnext hread
  rw [readStmtForm.eq_def]
  simp [hnext, hread, Stmt.bare, Token.bare]

theorem structDecl {name : Token} {fields : List TypedName}
    (hname : isIdentifier name.lexeme = true) (h : v.EntriesReadBack fields) :
    v.ReadsBack (.stmt (.structDecl name fields)) := by
  refine namedStmt rfl (rfl : IsWord "Stmt::Struct") (by decide) hname (readTypedNames_lines h) ?_
  intro t rest hnext hread
  rw [readStmtForm.eq_def]
  simp [hnext, hread, Stmt.bare, Token.bare]

theorem traitDecl {name : Token} {methods : List FunctionDecl}
    (hname : isIdentifier name.lexeme = true) (h : ∀ f ∈ methods, v.ReadsBack (.function f)) :
    v.ReadsBack (.stmt (.traitDecl name methods)) := by
  refine namedStmt (by simp [Stmt.sexpr]) (rfl : IsWord "Stmt::Trait") (by decide) hname
    (readMethods_lines h) ?_
  intro t rest hnext hread
  rw [readStmtForm.eq_def]
  simp [hnext, hread, Stmt.bare, Token.bare]

end Vocabulary.ReadsBack

theorem readStmt_binding {keyword name : Token} (hkeyword : isIdentifier keyword.lexeme = true)
    (hname : isIdentifier name.lexeme = true) {s s' rest : List Char}
    {typename? : Option Typename} {initializer : Expr}
    (htypename : v.readOptionalTypename s = some (typename?, s'))
    (hinitializer : v.readExpr s' = some (initializer, ')' :: rest)) :
    v.readStmt ('(' :: ("Stmt::Variable".toList ++ ' ' :: (keyword.lexeme.toList ++
      ' ' :: (name.lexeme.toList ++ ' ' :: s)))) =
      some (.binding keyword.bare name.bare typename? initializer, rest) := by
  have hkeywordWord := isWord_of_isIdentifier hkeyword
  have hnameWord := isWord_of_isIdentifier hname
  rw [readStmt_form (rfl : IsWord "Stmt::Variable") (by decide) (stops_blank _),
    Vocabulary.readStmtForm.eq_def]
  simp [hkeywordWord.nextWord_append (stops_blank _),
    hkeywordWord.pastWord_append (stops_blank _), hnameWord.nextWord_append (stops_blank _),
    hnameWord.pastWord_append (stops_blank _), htypename, hinitializer, Token.bare]

theorem readStmt_impl {s s' s'' rest : List Char} {typename : Typename} {trait? : Option Typename}
    {methods : List FunctionDecl} (htypename : v.readTypename s = some (typename, ' ' :: s'))
    (htrait : v.readOptionalTypename s' = some (trait?, '(' :: s''))
    (hmethods : v.readMethods s'' = some (methods, ')' :: ')' :: rest)) :
    v.readStmt ('(' :: ("Stmt::Impl".toList ++ ' ' :: s)) =
      some (.implDecl typename trait? methods, rest) := by
  rw [readStmt_form (rfl : IsWord "Stmt::Impl") (by decide) (stops_blank _),
    Vocabulary.readStmtForm.eq_def]
  simp [htypename, htrait, hmethods]

namespace Vocabulary.ReadsBack

/-- The blank behind an annotation tells it from the initializer. -/
theorem binding {keyword name : Token} {typename? : Option Typename} {initializer : Expr}
    (hkeyword : isIdentifier keyword.lexeme = true) (hname : isIdentifier name.lexeme = true)
    (htypename : ∀ t ∈ typename?, v.allowsTypename t)
    (hcompact : ∀ width depth, Compact (initializer.sexpr.chars width depth))
    (hinitializer : v.ReadsBack (.expr initializer)) :
    v.ReadsBack (.stmt (.binding keyword name typename? initializer)) := by
  intro width depth rest
  have hread := hinitializer width depth _ (stops_close rest)
  cases typename? with
  | none =>
    have hnone := @readOptionalTypename_none v _ (hcompact width depth) rest
    have htext : (Stmt.binding keyword name none initializer).sexpr.chars width depth ++ rest =
        '(' :: ("Stmt::Variable".toList ++ ' ' :: (keyword.lexeme.toList ++
          ' ' :: (name.lexeme.toList ++
            ' ' :: (initializer.sexpr.chars width depth ++ ')' :: rest)))) := by
      simp [Stmt.sexpr]
    rw [htext]
    exact readStmt_binding hkeyword hname hnone hread
  | some t =>
    have hsome := readOptionalTypename_some (htypename t rfl)
      (initializer.sexpr.chars width depth ++ ')' :: rest)
    have htext : (Stmt.binding keyword name (some t) initializer).sexpr.chars width depth ++ rest =
        '(' :: ("Stmt::Variable".toList ++ ' ' :: (keyword.lexeme.toList ++ ' ' ::
          (name.lexeme.toList ++ ' ' :: (t.name.toList ++ ' ' ::
            (initializer.sexpr.chars width depth ++ ')' :: rest))))) := by
      simp [Stmt.sexpr]
    rw [htext]
    exact readStmt_binding hkeyword hname hsome hread

/-- The blank behind a trait tells it from the methods. -/
theorem implDecl {typename : Typename} {trait? : Option Typename} {methods : List FunctionDecl}
    (htypename : v.allowsTypename typename) (htrait : ∀ t ∈ trait?, v.allowsTypename t)
    (hpaired : ∀ f ∈ methods, ∀ width depth, Paired (f.sexpr.chars width depth))
    (hmethods : ∀ f ∈ methods, v.ReadsBack (.function f)) :
    v.ReadsBack (.stmt (.implDecl typename trait? methods)) := by
  intro width depth rest
  have hread := readMethods_lines hmethods width (depth + 1) (')' :: rest)
  have hstmt : (Stmt.implDecl typename trait? methods).bare =
      .implDecl typename.bare (trait?.map Typename.bare) (methods.map FunctionDecl.bare) := by
    simp [Stmt.bare]
  rw [hstmt]
  cases trait? with
  | none =>
    have hlines : Paired (Sexpr.lines width (depth + 1) (methods.map FunctionDecl.sexpr)) := by
      refine Sexpr.paired_lines fun s hs => ?_
      obtain ⟨f, hf, rfl⟩ := List.mem_map.1 hs
      exact hpaired f hf width (depth + 1)
    have hnone := @readOptionalTypename_none v _ hlines.compact_enclosed rest
    have htext : (Stmt.implDecl typename none methods).sexpr.chars width depth ++ rest =
        '(' :: ("Stmt::Impl".toList ++ ' ' :: (typename.name.toList ++ ' ' :: '(' ::
          (Sexpr.lines width (depth + 1) (methods.map FunctionDecl.sexpr) ++
            ')' :: ')' :: rest))) := by
      simp [Stmt.sexpr]
    simp only [List.cons_append, List.append_assoc, List.nil_append] at hnone
    rw [htext]
    exact readStmt_impl (readsBack_typename htypename _ (ends_blank _)) hnone hread
  | some t =>
    have hsome := readOptionalTypename_some (htrait t rfl)
      ('(' :: (Sexpr.lines width (depth + 1) (methods.map FunctionDecl.sexpr) ++
        ')' :: ')' :: rest))
    have htext : (Stmt.implDecl typename (some t) methods).sexpr.chars width depth ++ rest =
        '(' :: ("Stmt::Impl".toList ++ ' ' :: (typename.name.toList ++ ' ' ::
          (t.name.toList ++ ' ' :: '(' :: (Sexpr.lines width (depth + 1)
            (methods.map FunctionDecl.sexpr) ++ ')' :: ')' :: rest)))) := by
      simp [Stmt.sexpr]
    rw [htext]
    exact readStmt_impl (readsBack_typename htypename _ (ends_blank _)) hsome hread

end Vocabulary.ReadsBack

namespace Vocabulary.Allows

theorem entriesReadBack {entries : List TypedName} (hnames : allowsNames entries = true)
    (h : ∀ c ∈ entries.map TypedName.item, v.ReadsBack c) : v.EntriesReadBack entries :=
  fun entry hentry =>
    ⟨List.all_eq_true.1 hnames entry hentry, h entry.item (List.mem_map_of_mem hentry)⟩

theorem readsBack_expr {e : Expr} (h : v.Allows (.expr e))
    (hbelow : ∀ c ∈ e.items, v.ReadsBack c) : v.ReadsBack (.expr e) := by
  have hself : v.allowsExpr e = true := h.self
  cases e with
  | boolean token value => exact .boolean token value
  | float token value => exact .float hself
  | integer token value => exact .integer token value
  | string token value =>
    exact .string (by simpa [allowsExpr] using hself)
  | symbol name => exact .symbol hself
  | unit token => exact .unit token
  | unary oper operand => exact .unary hself (hbelow _ List.mem_cons_self)
  | field object name => exact .field (hbelow _ List.mem_cons_self) hself
  | assign target oper value =>
    have hoper := Bool.and_eq_true_iff.1 hself
    exact .assign hoper.1 hoper.2 (hbelow _ (by simp [Expr.items]))
      (hbelow _ (by simp [Expr.items]))
  | binary left oper right =>
    have hoper := Bool.and_eq_true_iff.1 hself
    exact .binary hoper.1 hoper.2 (hbelow _ (by simp [Expr.items]))
      (hbelow _ (by simp [Expr.items]))
  | logical left oper right =>
    have hoper := Bool.and_eq_true_iff.1 hself
    exact .logical hoper.1 hoper.2 (hbelow _ (by simp [Expr.items]))
      (hbelow _ (by simp [Expr.items]))
  | call callee paren arguments =>
    refine .call (hbelow _ List.mem_cons_self) fun e he => hbelow _ ?_
    exact List.mem_cons_of_mem _ (List.mem_map_of_mem he)
  | block body => exact .block (hbelow _ List.mem_cons_self)
  | ifElse keyword condition thenBody elseBody =>
    have hthen : Item.expr thenBody ∈
        (Item.expr (.ifElse keyword condition thenBody elseBody)).children := by
      simp [Item.children, Expr.items]
    have helse : Item.expr elseBody ∈
        (Item.expr (.ifElse keyword condition thenBody elseBody)).children := by
      simp [Item.children, Expr.items]
    exact .ifElse (h.of_mem_children hthen).self (h.of_mem_children helse).self
      (hbelow _ List.mem_cons_self) (hbelow _ hthen) (hbelow _ helse)
  | forIn keyword name object body =>
    exact .forIn hself (hbelow _ (by simp [Expr.items])) (hbelow _ (by simp [Expr.items]))
  | whileDo keyword condition body =>
    exact .whileDo (hbelow _ (by simp [Expr.items])) (hbelow _ (by simp [Expr.items]))
  | switch keyword value cases =>
    refine .switch (hbelow _ List.mem_cons_self) fun c hc => ?_
    have hitem : ∀ i ∈ c.items, i ∈ (Item.expr (.switch keyword value cases)).children :=
      fun i hi => List.mem_cons_of_mem _ (List.mem_flatMap.2 ⟨c, hc, hi⟩)
    have hbody := hitem (.expr c.body) (by simp [SwitchCase.items])
    exact ⟨hbelow _ (hitem _ (by simp [SwitchCase.items])),
      hbelow _ (hitem _ (by simp [SwitchCase.items])), hbelow _ hbody,
      (h.of_mem_children hbody).self⟩

theorem readsBack_stmt {s : Stmt} (h : v.Allows (.stmt s))
    (hbelow : ∀ c ∈ s.items, v.ReadsBack c) : v.ReadsBack (.stmt s) := by
  have hself : allowsStmt s = true := h.self
  cases s with
  | breakLoop keyword => exact .breakLoop keyword
  | continueLoop keyword => exact .continueLoop keyword
  | expression e => exact .expression (hbelow _ List.mem_cons_self)
  | functionDecl f => exact .function (hbelow _ List.mem_cons_self)
  | returnValue keyword e => exact .returnValue (hbelow _ List.mem_cons_self)
  | enumDecl name variants =>
    have hnames := Bool.and_eq_true_iff.1 hself
    exact .enumDecl hnames.1 (entriesReadBack hnames.2 hbelow)
  | structDecl name fields =>
    have hnames := Bool.and_eq_true_iff.1 hself
    exact .structDecl hnames.1 (entriesReadBack hnames.2 hbelow)
  | traitDecl name methods =>
    exact .traitDecl hself fun f hf => hbelow _ (List.mem_map_of_mem hf)
  | binding keyword name typename? initializer =>
    have hnames := Bool.and_eq_true_iff.1 hself
    have hinitializer : Item.expr initializer ∈
        (Item.stmt (.binding keyword name typename? initializer)).children := by
      simp [Item.children, Stmt.items]
    refine .binding hnames.1 hnames.2 (fun t ht => ?_) (h.of_mem_children hinitializer).compact
      (hbelow _ hinitializer)
    exact (h.of_mem_children (c := .typename t)
      (by simpa [Item.children, Stmt.items] using ht)).self
  | implDecl typename trait? methods =>
    have hmethod : ∀ f ∈ methods, Item.function f ∈
        (Item.stmt (.implDecl typename trait? methods)).children := by
      intro f hf
      simp [Item.children, Stmt.items, hf]
    refine .implDecl ?_ (fun t ht => ?_) (fun f hf => ?_) fun f hf => hbelow _ (hmethod f hf)
    · exact (h.of_mem_children (c := .typename typename) (by simp [Item.children, Stmt.items])).self
    · exact (h.of_mem_children (c := .typename t)
        (by simp [Item.children, Stmt.items, Option.mem_def.1 ht])).self
    · exact (h.of_mem_children (hmethod f hf)).paired (List.mem_singleton_self _)

/-- Every item that keeps to a vocabulary reads back. -/
theorem readsBack {item : Item} (h : v.Allows item) : v.ReadsBack item := by
  induction item using Item.induction_children with
  | node item ih =>
    have hbelow : ∀ c ∈ item.children, v.ReadsBack c := fun c hc => ih c hc (h.of_mem_children hc)
    cases item with
    | stmt s => exact h.readsBack_stmt hbelow
    | expr e => exact h.readsBack_expr hbelow
    | pattern p =>
      cases p with
      | value e =>
        have hitem : Item.expr e ∈ (Item.pattern (.value e)).children := List.mem_cons_self
        exact .value (h.of_mem_children hitem).self (hbelow _ hitem)
      | wildcard token => exact .wildcard token
    | block b =>
      have hresult : Item.expr b.result ∈ (Item.block b).children := by
        simp [Item.children, Block.items]
      refine .lines (fun s hs => hbelow _ ?_) (h.of_mem_children hresult).self (hbelow _ hresult)
      exact List.mem_append_left _ (List.mem_map_of_mem hs)
    | function f =>
      have hnames := Bool.and_eq_true_iff.1 (h.self : allowsFunction f = true)
      refine .functionDecl hnames.1 (entriesReadBack hnames.2 fun c hc => hbelow _ ?_) ?_ ?_
      · exact List.mem_append_left _ hc
      · exact hbelow _ (by simp [Item.children, FunctionDecl.items])
      · exact hbelow _ (by simp [Item.children, FunctionDecl.items])
    | typename t => exact readsBack_typename h.self

end Vocabulary.Allows

end LangCore
