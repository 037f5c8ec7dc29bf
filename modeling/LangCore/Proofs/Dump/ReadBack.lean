import Mathlib
import LangCore.Proofs.Dump.Bare
import LangCore.Proofs.Dump.Reading

/-!
# Pieces of dumps read back

Whatever stands behind the text of an item, the reader of its kind is to take
exactly that text and to return what is bare of the item. Blanks, words and
typenames are taken off a text one after the other, and how an expression starts
keeps it apart from a statement and from a wildcard.
-/

namespace LangCore

/-- Whether the reader of its kind takes exactly the text of an item. -/
def Vocabulary.ReadsBack (v : Vocabulary) : Item → Prop
  | .stmt s => ∀ width depth rest,
    v.readStmt (s.sexpr.chars width depth ++ rest) = some (s.bare, rest)
  | .expr e => ∀ width depth rest, Stops rest →
    v.readExpr (e.sexpr.chars width depth ++ rest) = some (e.bare, rest)
  | .pattern p => ∀ width depth rest, Stops rest →
    v.readPattern (p.sexpr.chars width depth ++ rest) = some (p.bare, rest)
  | .block b => ∀ width depth rest,
    v.readBlock (Sexpr.lines width depth b.sexprs ++ ')' :: rest) = some (b.bare, ')' :: rest)
  | .function f => ∀ width depth rest,
    v.readFunction (f.sexpr.chars width depth ++ rest) = some (f.bare, rest)
  | .typename t => ∀ rest, TypeShape.Ends rest →
    v.readTypename (t.name.toList ++ rest) = some (t.bare, rest)

variable {v : Vocabulary}

/-- Characters between two documents. -/
def IsGap (gap : List Char) : Prop :=
  ∀ c ∈ gap, c = ' ' ∨ c = '\n'

theorem isGap_nil : IsGap [] := by
  rintro c ⟨⟩

theorem isGap_blank : IsGap [' '] :=
  List.forall_mem_singleton.2 (Or.inl rfl)

theorem isGap_lineBreak (width depth : ℕ) : IsGap (Sexpr.lineBreak width depth) :=
  List.forall_mem_cons.2
    ⟨Or.inr rfl, fun _ hc => Or.inl (List.eq_of_mem_replicate hc)⟩

theorem stops_lineBreak (width depth : ℕ) (rest : List Char) :
    Stops (Sexpr.lineBreak width depth ++ rest) :=
  stops_newline _

theorem IsGap.skipBlanks_append {gap rest : List Char} (hgap : IsGap gap)
    (hrest : ∀ c ∈ rest.head?, c ≠ ' ' ∧ c ≠ '\n') : skipBlanks (gap ++ rest) = rest := by
  refine dropWhile_append_of_stop (fun c hc => ?_) fun c hc => ?_
  · simpa using hgap c hc
  · simpa using hrest c hc

theorem IsGap.skipBlanks_open {gap : List Char} (hgap : IsGap gap) (rest : List Char) :
    skipBlanks (gap ++ '(' :: rest) = '(' :: rest :=
  hgap.skipBlanks_append (by rintro c ⟨⟩; decide)

theorem IsGap.skipBlanks_close {gap : List Char} (hgap : IsGap gap) (rest : List Char) :
    skipBlanks (gap ++ ')' :: rest) = ')' :: rest :=
  hgap.skipBlanks_append (by rintro c ⟨⟩; decide)

theorem skipBlanks_close (rest : List Char) : skipBlanks (')' :: rest) = ')' :: rest :=
  isGap_nil.skipBlanks_close rest

theorem nextWord_separator {c : Char} (h : isWordChar c = false) (rest : List Char) :
    nextWord (c :: rest) = "" := by
  simp [nextWord, h]

/-- How the text of an expression can start. -/
inductive Opening : List Char → Prop
  | word {w : String} : IsWord w → w ≠ "" → w ≠ "_" → Opening w.toList
  | quote (s : List Char) : Opening ('"' :: s)
  | unit : Opening ['(', ')']
  | call (s : List Char) : Opening ('(' :: '(' :: s)
  | form {w : String} (s : List Char) : IsWord w →
    ['S', 't', 'm', 't', ':', ':'].isPrefixOf w.toList = false →
    Opening ('(' :: (w.toList ++ ' ' :: s))

namespace Opening

variable {s : List Char}

theorem head?_append (h : Opening s) (rest : List Char) :
    ∀ c ∈ (s ++ rest).head?, c ≠ ' ' ∧ c ≠ '\n' := by
  cases h with
  | word hword hne =>
    intro c hc
    obtain ⟨cs, hcs⟩ := List.head?_eq_some_iff.1 hc
    constructor
    · rintro rfl
      exact hword.append_ne hne rfl rest cs hcs
    · rintro rfl
      exact hword.append_ne hne rfl rest cs hcs
  | quote | unit | call | form =>
    rintro c ⟨⟩
    decide

theorem skipBlanks_append (h : Opening s) {gap : List Char} (hgap : IsGap gap)
    (rest : List Char) : skipBlanks (gap ++ (s ++ rest)) = s ++ rest :=
  hgap.skipBlanks_append (h.head?_append rest)

theorem startsStmt_append (h : Opening s) (rest : List Char) : startsStmt (s ++ rest) = false := by
  cases h with
  | word hword hne =>
    rw [startsStmt]
    exact hword.append_ne hne rfl rest
  | quote => rfl
  | unit =>
    have hclose : nextWord (')' :: rest) = "" := nextWord_separator rfl rest
    simp [startsStmt, hclose]
  | call => rfl
  | form s hword hfront =>
    simp only [List.cons_append, List.append_assoc, startsStmt]
    rw [hword.nextWord_append (stops_blank _)]
    exact hfront

theorem nextWord_append_ne (h : Opening s) {rest : List Char} (hrest : Stops rest) :
    nextWord (s ++ rest) ≠ "_" := by
  cases h with
  | word hword hne hwild => rwa [hword.nextWord_append hrest]
  | quote | unit | call | form =>
    rw [List.cons_append, nextWord_separator rfl]
    decide

theorem of_form {word : String} (hword : IsWord word)
    (hfront : ['S', 't', 'm', 't', ':', ':'].isPrefixOf word.toList = false) (width depth : ℕ)
    (s : Sexpr) (ss : List Sexpr) :
    Opening ((Sexpr.form (.atom word :: s :: ss)).chars width depth) := by
  have hopening := form (Sexpr.spaced width depth (s :: ss) ++ [')']) hword hfront
  simpa using hopening

theorem of_node {word : String} (hword : IsWord word)
    (hfront : ['S', 't', 'm', 't', ':', ':'].isPrefixOf word.toList = false) (width depth : ℕ)
    (header children : List Sexpr) :
    Opening ((Sexpr.node (.atom word :: header) children).chars width depth) := by
  cases header with
  | nil =>
    have hopening := form ('(' :: Sexpr.lines width (depth + 1) children ++ [')', ')']) hword hfront
    simpa using hopening
  | cons s header =>
    have hopening := form (Sexpr.spaced width depth (s :: header) ++
      ' ' :: '(' :: Sexpr.lines width (depth + 1) children ++ [')', ')']) hword hfront
    simpa using hopening

end Opening

theorem not_isPrefixOf_operator {w : String} (h : isOperator w = true) :
    ['S', 't', 'm', 't', ':', ':'].isPrefixOf w.toList = false := by
  rw [← Bool.not_eq_true, List.isPrefixOf_iff_prefix]
  intro hfront
  have hcolon := isOperatorChar_of_mem h (hfront.subset (List.mem_of_getLast? rfl))
  exact absurd hcolon (by decide)

theorem ne_empty_of_isIdentifier {w : String} (h : isIdentifier w = true) : w ≠ "" :=
  ne_of_accepted h (by decide)

theorem opening_of_isOperator {w : String} (h : isOperator w = true) (width depth : ℕ) (s : Sexpr)
    (ss : List Sexpr) : Opening ((Sexpr.form (.atom w :: s :: ss)).chars width depth) :=
  .of_form (isWord_of_isOperator h) (not_isPrefixOf_operator h) width depth s ss

theorem opening_number {w : String} (hword : IsWord w) (hne : w.toList ≠ [])
    (h : isIdentifier w = false) : Opening w.toList := by
  refine .word hword (fun hempty => hne (by rw [hempty]; rfl)) ?_
  exact (ne_of_accepted (p := isIdentifier) (by decide) h).symm

theorem Expr.opening {e : Expr} (h : v.allowsExpr e = true) (width depth : ℕ) :
    Opening (e.sexpr.chars width depth) := by
  cases e with
  | assign | binary | logical =>
    exact opening_of_isOperator (Bool.and_eq_true_iff.1 h).1 width depth _ _
  | unary => exact opening_of_isOperator h width depth _ _
  | boolean token value =>
    cases value with
    | false => exact Opening.word (w := "false") rfl (by decide) (by decide)
    | true => exact Opening.word (w := "true") rfl (by decide) (by decide)
  | integer =>
    exact opening_number (isWord_toString_int _) (DecimalStyle.toString_int_ne_empty _)
      (not_isIdentifier_toString_int _)
  | float token value =>
    obtain ⟨c, hc, -⟩ := Binary64.head?_exactText h
    have hne : value.exactText.toList ≠ [] := by
      intro hnil
      rw [hnil] at hc
      cases hc
    exact opening_number (isWord_exactText _) hne (not_isIdentifier_exactText h)
  | symbol name =>
    have hname := isIdentifier_of_isSymbolName h
    have hwild : name.lexeme ≠ "_" := bne_iff_ne.1 (Bool.and_eq_true_iff.1 h).2
    exact .word (isWord_of_isIdentifier hname) (ne_empty_of_isIdentifier hname) hwild
  | string token value =>
    have hopening := Opening.quote (value.toList ++ ['"'])
    simpa [Expr.sexpr] using hopening
  | unit => simpa [Expr.sexpr] using Opening.unit
  | call callee paren arguments =>
    have hopening := Opening.call (')' :: ' ' :: Sexpr.spaced width depth
      (callee.sexpr :: Expr.sexprs arguments) ++ [')'])
    simpa [Expr.sexpr] using hopening
  | field => exact .of_form (rfl : IsWord ".") rfl width depth _ _
  | block => exact .of_node (rfl : IsWord "Expr::Block") rfl width depth _ _
  | forIn => exact .of_node (rfl : IsWord "Expr::For") rfl width depth _ _
  | ifElse => exact .of_node (rfl : IsWord "Expr::If") rfl width depth _ _
  | switch => exact .of_node (rfl : IsWord "Expr::Switch") rfl width depth _ _
  | whileDo => exact .of_node (rfl : IsWord "Expr::While") rfl width depth _ _

theorem ends_blank (rest : List Char) : TypeShape.Ends (' ' :: rest) :=
  TypeShape.ends_cons (by decide) rest

theorem ends_close (rest : List Char) : TypeShape.Ends (')' :: rest) :=
  TypeShape.ends_cons (by decide) rest

theorem readsBack_typename {t : Typename} (h : v.allowsTypename t) :
    v.ReadsBack (.typename t) := by
  obtain ⟨hbuilt, hlex, hpermissions, hnames⟩ := h
  intro rest hends
  have hread := (TypeShape.readsBack_and_operand (r := ⟨v.isPermission⟩) hlex hpermissions).1 rest
    hends (Or.inr hnames)
  have hname : String.ofList t.shape.chars = t.name := by
    rw [← hbuilt.toList_name, String.ofList_toList]
  rw [Vocabulary.readTypename, hbuilt.toList_name, hread]
  simp [Typename.bare, TypeShape.chars_collapse, hname]

theorem readOptionalTypename_some {t : Typename} (h : v.allowsTypename t) (rest : List Char) :
    v.readOptionalTypename (t.name.toList ++ ' ' :: rest) = some (some t.bare, rest) := by
  have hblank := (Typename.paired_name h.1 h.2.1).blankAhead_append rest
  rw [Vocabulary.readOptionalTypename, if_pos hblank, readsBack_typename h _ (ends_blank rest)]
  rfl

theorem readOptionalTypename_none {s : List Char} (h : Compact s) (rest : List Char) :
    v.readOptionalTypename (s ++ ')' :: rest) = some (none, s ++ ')' :: rest) := by
  rw [Vocabulary.readOptionalTypename, h.blankAhead_append, if_neg Bool.false_ne_true]

theorem readTypedNames_close {gap : List Char} (hgap : IsGap gap) (rest : List Char) :
    v.readTypedNames (gap ++ ')' :: rest) = some ([], ')' :: rest) := by
  rw [Vocabulary.readTypedNames, hgap.skipBlanks_close]
  rfl

theorem readTypedNames_cons {entry : TypedName} (hname : isIdentifier entry.name.lexeme = true)
    (htypename : v.ReadsBack entry.item) {gap : List Char} (hgap : IsGap gap)
    {rest rest' : List Char} {entries : List TypedName}
    (h : v.readTypedNames rest = some (entries, rest')) (width depth : ℕ) :
    v.readTypedNames (gap ++ (entry.sexpr.chars width depth ++ rest)) =
      some (entry.bare :: entries, rest') := by
  have hword := isWord_of_isIdentifier hname
  have htext : entry.sexpr.chars width depth ++ rest =
      '(' :: (entry.name.lexeme.toList ++ ' ' :: (entry.typename.name.toList ++ ')' :: rest)) := by
    simp [TypedName.sexpr]
  rw [htext, Vocabulary.readTypedNames, hgap.skipBlanks_open]
  simp only
  rw [hword.nextWord_append (stops_blank _), hword.pastWord_append (stops_blank _),
    List.drop_one, List.tail_cons, htypename _ (ends_close rest)]
  simp [h, TypedName.bare, Token.bare]

def Vocabulary.EntriesReadBack (v : Vocabulary) (entries : List TypedName) : Prop :=
  ∀ entry ∈ entries, isIdentifier entry.name.lexeme = true ∧ v.ReadsBack entry.item

theorem readTypedNames_lines {entries : List TypedName} (h : v.EntriesReadBack entries)
    (width depth : ℕ) (rest : List Char) :
    v.readTypedNames (Sexpr.lines width depth (entries.map TypedName.sexpr) ++ ')' :: rest) =
      some (entries.map TypedName.bare, ')' :: rest) := by
  induction entries with
  | nil => exact readTypedNames_close isGap_nil rest
  | cons entry entries ih =>
    obtain ⟨hentry, hentries⟩ := List.forall_mem_cons.1 h
    rw [List.map_cons, Sexpr.lines_cons, List.append_assoc, List.append_assoc]
    exact readTypedNames_cons hentry.1 hentry.2 (isGap_lineBreak width depth) (ih hentries) _ _

theorem readTypedNames_spaced {entries : List TypedName} (h : v.EntriesReadBack entries)
    (width depth : ℕ) (rest : List Char) :
    v.readTypedNames (Sexpr.spaced width depth (entries.map TypedName.sexpr) ++ ')' :: rest) =
      some (entries.map TypedName.bare, ')' :: rest) := by
  have htail (entries : List TypedName) (h : v.EntriesReadBack entries) :
      v.readTypedNames ((entries.map TypedName.sexpr).flatMap
        (fun s => ' ' :: s.chars width depth) ++ ')' :: rest) =
      some (entries.map TypedName.bare, ')' :: rest) := by
    induction entries with
    | nil => exact readTypedNames_close isGap_nil rest
    | cons entry entries ih =>
      obtain ⟨hentry, hentries⟩ := List.forall_mem_cons.1 h
      rw [List.map_cons, List.flatMap_cons, List.append_assoc]
      exact readTypedNames_cons hentry.1 hentry.2 isGap_blank (ih hentries) _ _
  cases entries with
  | nil => exact readTypedNames_close isGap_nil rest
  | cons entry entries =>
    obtain ⟨hentry, hentries⟩ := List.forall_mem_cons.1 h
    rw [List.map_cons, Sexpr.spaced_cons, List.append_assoc]
    exact readTypedNames_cons hentry.1 hentry.2 isGap_nil (htail entries hentries) _ _

end LangCore
