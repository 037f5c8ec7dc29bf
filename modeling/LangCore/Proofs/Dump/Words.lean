import Mathlib
import LangCore.Proofs.Decimal.Text
import LangCore.Proofs.Dump.Atoms
import LangCore.Proofs.Dump.Scan
import LangCore.Proofs.Dump.Vocabulary

/-!
# Words of printed trees

Names, operators, numbers and the names of forms are words: they have neither
blanks nor parentheses nor quotes in them, so a word ends where the first such
character follows it. A literal or symbol is known from the word it is written
as.
-/

namespace LangCore

/-- Characters that end a word. -/
def separators : List Char := [' ', '\n', '(', ')', '"']

def isWordChar (c : Char) : Bool :=
  !separators.contains c

def nextWord (s : List Char) : String :=
  String.ofList (s.takeWhile isWordChar)

def pastWord (s : List Char) : List Char :=
  s.dropWhile isWordChar

/-- Nothing continues a word or a typename here. -/
def Stops (rest : List Char) : Prop :=
  ∀ c ∈ rest.head?, c ∈ [' ', '\n', ')']

/-- A text without separators. -/
def IsWord (s : String) : Prop :=
  s.toList.all isWordChar = true

theorem stops_blank (rest : List Char) : Stops (' ' :: rest) := by
  rintro c ⟨⟩
  decide

theorem stops_newline (rest : List Char) : Stops ('\n' :: rest) := by
  rintro c ⟨⟩
  decide

theorem stops_close (rest : List Char) : Stops (')' :: rest) := by
  rintro c ⟨⟩
  decide

theorem stops_nil : Stops [] := by
  rintro c ⟨⟩

theorem Stops.not_isWordChar {rest : List Char} (h : Stops rest) :
    ∀ c ∈ rest.head?, isWordChar c = false := by
  intro c hc
  have hmem := h c hc
  simp only [List.mem_cons, List.not_mem_nil, or_false] at hmem
  rcases hmem with rfl | rfl | rfl <;> rfl

theorem IsWord.nextWord_append {s : String} (h : IsWord s) {rest : List Char} (hrest : Stops rest) :
    nextWord (s.toList ++ rest) = s := by
  rw [nextWord, takeWhile_append_of_stop (List.all_eq_true.1 h) hrest.not_isWordChar,
    String.ofList_toList]

theorem IsWord.pastWord_append {s : String} (h : IsWord s) {rest : List Char} (hrest : Stops rest) :
    pastWord (s.toList ++ rest) = rest :=
  dropWhile_append_of_stop (List.all_eq_true.1 h) hrest.not_isWordChar

theorem IsWord.compact {s : String} (h : IsWord s) : Compact s.toList := by
  refine compact_of_isPlain (List.all_eq_true.2 fun c hc => ?_)
  have hword := List.all_eq_true.1 h c hc
  simp only [isPlain, Bool.and_eq_true, bne_iff_ne]
  exact ⟨⟨⟨ne_of_accepted hword rfl, ne_of_accepted hword rfl⟩, ne_of_accepted hword rfl⟩,
    ne_of_accepted hword rfl⟩

theorem IsWord.append_ne {s : String} (h : IsWord s) (hne : s ≠ "") {c : Char}
    (hc : isWordChar c = false) (rest rest' : List Char) : s.toList ++ rest ≠ c :: rest' := by
  obtain ⟨d, cs, hcons⟩ : ∃ d cs, s.toList = d :: cs :=
    List.exists_cons_of_ne_nil fun hnil => hne (String.toList_eq_nil_iff.1 hnil)
  have hd : isWordChar d = true := by
    apply List.all_eq_true.1 h
    rw [hcons]
    exact List.mem_cons_self
  rw [hcons]
  intro heq
  exact ne_of_accepted hd hc (List.cons.inj heq).1

theorem isWord_of_forall {p : Char → Bool} {s : String} (h : ∀ c ∈ s.toList, p c = true)
    (hp : separators.all (fun c => !p c) = true) : IsWord s := by
  refine List.all_eq_true.2 fun c hc => ?_
  rw [isWordChar, Bool.not_eq_true', List.contains_eq_mem, decide_eq_false_iff_not]
  intro hmem
  have hrefused := List.all_eq_true.1 hp c hmem
  rw [h c hc] at hrefused
  exact absurd hrefused (by decide)

theorem isWord_of_isIdentifier {s : String} (h : isIdentifier s = true) : IsWord s := by
  obtain ⟨-, -, -, -, hall⟩ := exists_cons_of_isIdentifier h
  exact isWord_of_forall hall (by decide)

theorem isOperatorChar_of_mem {s : String} (h : isOperator s = true) {c : Char}
    (hc : c ∈ s.toList) : isOperatorChar c = true := by
  simp only [isOperator, Bool.and_eq_true, List.all_eq_true] at h
  exact h.2 c hc

theorem isWord_of_isOperator {s : String} (h : isOperator s = true) : IsWord s :=
  isWord_of_forall (fun _ hc => isOperatorChar_of_mem h hc) (by decide)

theorem isWord_toString_int (n : ℤ) : IsWord (toString n) := by
  refine isWord_of_forall (p := fun c => c.isDigit || c == '-') (fun c hc => ?_) (by decide)
  simpa using DecimalStyle.mem_toString_int hc

theorem isWord_exactText (x : Binary64) : IsWord x.exactText := by
  cases h : x.isFinite with
  | true =>
    refine isWord_of_forall (p := fun c => c.isDigit || ['-', '.', 'e'].contains c)
      (fun c hc => ?_) (by decide)
    simpa using Binary64.mem_exactText h hc
  | false =>
    have hmem := Binary64.exactText_of_not_isFinite h
    simp only [List.mem_cons, List.not_mem_nil, or_false] at hmem
    rcases hmem with heq | heq | heq <;> rw [heq] <;> rfl

theorem not_isDigit_of_isIdentifierStart {c : Char} (h : isIdentifierStart c = true) :
    c.isDigit = false := by
  rw [← Bool.not_eq_true]
  intro hdigit
  simp only [isIdentifierStart, Char.isAlpha, Char.isUpper, Char.isLower, Bool.or_eq_true,
    Bool.and_eq_true, decide_eq_true_eq, beq_iff_eq, UInt32.le_iff_toNat_le] at h
  simp only [Char.isDigit, Bool.and_eq_true, decide_eq_true_eq, UInt32.le_iff_toNat_le] at hdigit
  rcases h with (h | h) | rfl
  · simp at h hdigit
    omega
  · simp at h hdigit
    omega
  · exact absurd hdigit (by decide)

theorem not_isIdentifier_of_head? {s : String}
    (h : ∃ c ∈ s.toList.head?, c.isDigit = true ∨ c = '-') : isIdentifier s = false := by
  rw [← Bool.not_eq_true]
  intro hname
  obtain ⟨c, rest, hs, hstart, -⟩ := exists_cons_of_isIdentifier hname
  obtain ⟨d, hd, hdigit⟩ := h
  rw [hs] at hd
  cases hd
  rcases hdigit with hdigit | rfl
  · exact absurd hdigit (by rw [not_isDigit_of_isIdentifierStart hstart]; exact Bool.false_ne_true)
  · exact absurd hstart (by decide)

theorem not_isIdentifier_toString_int (n : ℤ) : isIdentifier (toString n) = false := by
  obtain ⟨c, rest, hs⟩ := List.exists_cons_of_ne_nil (DecimalStyle.toString_int_ne_empty n)
  refine not_isIdentifier_of_head? ⟨c, by rw [hs]; rfl, ?_⟩
  exact DecimalStyle.mem_toString_int (by rw [hs]; exact List.mem_cons_self)

theorem not_isIdentifier_exactText {x : Binary64} (h : x.isFinite = true) :
    isIdentifier x.exactText = false :=
  not_isIdentifier_of_head? (Binary64.head?_exactText h)

/-- A point or an exponent. -/
def isMark (c : Char) : Bool :=
  c == '.' || c == 'e'

theorem not_any_isMark_toString_int (n : ℤ) : (toString n).toList.any isMark = false := by
  rw [List.any_eq_false]
  intro c hc hmark
  rcases DecimalStyle.mem_toString_int hc with hdigit | rfl
  · simp only [isMark, Bool.or_eq_true, beq_iff_eq] at hmark
    rcases hmark with rfl | rfl <;> exact absurd hdigit (by decide)
  · exact absurd hmark (by decide)

theorem any_isMark_exactText {x : Binary64} (h : x.isFinite = true) :
    x.exactText.toList.any isMark = true := by
  rw [List.any_eq_true]
  rcases Binary64.exists_mark_exactText h with hmem | hmem
  · exact ⟨'.', hmem, rfl⟩
  · exact ⟨'e', hmem, rfl⟩

instance : Nonempty Binary64 := ⟨⟨0⟩⟩

/-- The finite number that a word is the text of. -/
noncomputable def readNumber (w : String) : Binary64 :=
  Function.invFunOn Binary64.exactText {x | x.isFinite = true} w

theorem readNumber_exactText {x : Binary64} (h : x.isFinite = true) :
    readNumber x.exactText = x := by
  have hinj : Set.InjOn Binary64.exactText {x | x.isFinite = true} :=
    fun x hx y hy => Binary64.exactText_injective hx hy
  exact hinj.leftInvOn_invFunOn h

namespace Expr

/-- The literal or symbol that is written as a word. -/
noncomputable def ofWord (w : String) : Expr :=
  if w = "true" then boolean .absent true
  else if w = "false" then boolean .absent false
  else if isIdentifier w then symbol (.synthetic w)
  else if w.toList.any isMark then float .absent (readNumber w)
  else integer .absent (Int64.ofInt (w.toInt?.getD 0))

theorem ofWord_boolean (b : Bool) :
    ofWord (if b then "true" else "false") = boolean .absent b := by
  cases b <;> simp [ofWord]

theorem ofWord_symbol {name : String} (h : isSymbolName name = true) :
    ofWord name = symbol (.synthetic name) := by
  simp only [isSymbolName, Bool.and_eq_true, bne_iff_ne] at h
  rw [ofWord, if_neg h.1.1.2, if_neg h.1.2, if_pos h.1.1.1]

theorem ofWord_of_not_isIdentifier {w : String} (h : isIdentifier w = false) :
    ofWord w = if w.toList.any isMark then float .absent (readNumber w)
      else integer .absent (Int64.ofInt (w.toInt?.getD 0)) := by
  have htrue : w ≠ "true" := (ne_of_accepted (p := isIdentifier) (by decide) h).symm
  have hfalse : w ≠ "false" := (ne_of_accepted (p := isIdentifier) (by decide) h).symm
  rw [ofWord, if_neg htrue, if_neg hfalse, h, if_neg Bool.false_ne_true]

theorem ofWord_float {x : Binary64} (h : x.isFinite = true) :
    ofWord x.exactText = float .absent x := by
  rw [ofWord_of_not_isIdentifier (not_isIdentifier_exactText h), any_isMark_exactText h,
    if_pos rfl, readNumber_exactText h]

theorem ofWord_integer (n : Int64) : ofWord (toString n.toInt) = integer .absent n := by
  rw [ofWord_of_not_isIdentifier (not_isIdentifier_toString_int _),
    not_any_isMark_toString_int, if_neg Bool.false_ne_true, Int.toString_eq_repr,
    Int.toInt?_repr, Option.getD_some, Int64.ofInt_toInt]

end Expr

end LangCore
