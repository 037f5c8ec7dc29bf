import Mathlib
import LangCore.Proofs.Dump.Text
import LangCore.Proofs.Typename.Shape

/-!
# Looking ahead for a blank

An optional typename in the middle of a form shows only by the blank behind it.
A scan looks for such a blank at the level where it starts, passing over what is
in parentheses and in quotes. Texts whose parentheses and quotes are paired do
not disturb it.
-/

namespace LangCore

/-- Whether a blank follows at the level of the start before a parenthesis closes that level. -/
def blankAhead (depth : ℕ) (quoted : Bool) : List Char → Bool
  | [] => false
  | c :: s =>
    if quoted then blankAhead depth (c != '"') s
    else if c = '"' then blankAhead depth true s
    else if c = '(' then blankAhead (depth + 1) false s
    else if c = ')' then
      match depth with
      | 0 => false
      | depth + 1 => blankAhead depth false s
    else if c = ' ' ∧ depth = 0 then true
    else blankAhead depth false s

/-- A scan passes over the text or finds a blank in it. -/
def Paired (s : List Char) : Prop :=
  ∀ depth rest, blankAhead depth false (s ++ rest) = blankAhead depth false rest ∨
    depth = 0 ∧ blankAhead depth false (s ++ rest) = true

/-- A scan passes over the text. -/
def Compact (s : List Char) : Prop :=
  ∀ depth rest, blankAhead depth false (s ++ rest) = blankAhead depth false rest

@[simp] theorem blankAhead_close (rest : List Char) : blankAhead 0 false (')' :: rest) = false :=
  rfl

@[simp] theorem blankAhead_blank (rest : List Char) : blankAhead 0 false (' ' :: rest) = true :=
  rfl

/-- A blank behind a text is found, or an earlier one is. -/
theorem Paired.blankAhead_append {s : List Char} (h : Paired s) (rest : List Char) :
    blankAhead 0 false (s ++ ' ' :: rest) = true := by
  rcases h 0 (' ' :: rest) with heq | ⟨-, hfound⟩
  · exact heq
  · exact hfound

theorem Compact.blankAhead_append {s : List Char} (h : Compact s) (rest : List Char) :
    blankAhead 0 false (s ++ ')' :: rest) = false :=
  h 0 (')' :: rest)

theorem Compact.paired {s : List Char} (h : Compact s) : Paired s :=
  fun depth rest => Or.inl (h depth rest)

theorem compact_nil : Compact [] := fun _ _ => rfl

theorem paired_nil : Paired [] := compact_nil.paired

theorem Compact.append {s t : List Char} (hs : Compact s) (ht : Compact t) : Compact (s ++ t) := by
  intro depth rest
  rw [List.append_assoc, hs, ht]

theorem Paired.append {s t : List Char} (hs : Paired s) (ht : Paired t) : Paired (s ++ t) := by
  intro depth rest
  rw [List.append_assoc]
  rcases hs depth (t ++ rest) with heq | ⟨hdepth, hfound⟩
  · rw [heq]
    exact ht depth rest
  · exact Or.inr ⟨hdepth, hfound⟩

theorem Paired.compact_enclosed {s : List Char} (h : Paired s) : Compact ('(' :: s ++ [')']) := by
  intro depth rest
  have hopen : blankAhead depth false ('(' :: s ++ [')'] ++ rest) =
      blankAhead (depth + 1) false (s ++ ')' :: rest) := by
    simp [blankAhead]
  rw [hopen]
  rcases h (depth + 1) (')' :: rest) with heq | ⟨hdepth, -⟩
  · rw [heq]
    simp [blankAhead]
  · cases hdepth

/-- A character that a scan passes over at any level. -/
def isPlain (c : Char) : Bool :=
  c != '"' && c != '(' && c != ')' && c != ' '

theorem compact_of_isPlain {s : List Char} (h : s.all isPlain = true) : Compact s := by
  intro depth rest
  induction s with
  | nil => rfl
  | cons c s ih =>
    rw [List.all_cons, Bool.and_eq_true] at h
    obtain ⟨hc, hs⟩ := h
    simp only [isPlain, Bool.and_eq_true, bne_iff_ne] at hc
    simp [blankAhead, hc, ih hs]

theorem paired_blanks (n : ℕ) : Paired (List.replicate n ' ') := by
  induction n with
  | zero => exact paired_nil
  | succ n ih =>
    refine Paired.append (s := [' ']) ?_ ih
    intro depth rest
    cases depth with
    | zero => exact Or.inr ⟨rfl, rfl⟩
    | succ depth => exact Or.inl rfl

theorem compact_quoted {s : List Char} (h : '"' ∉ s) : Compact ('"' :: s ++ ['"']) := by
  intro depth rest
  have hopen : blankAhead depth false ('"' :: s ++ ['"'] ++ rest) =
      blankAhead depth true (s ++ '"' :: rest) := by
    simp [blankAhead]
  rw [hopen]
  clear hopen
  induction s with
  | nil => rfl
  | cons c s ih =>
    obtain ⟨hc, hs⟩ := not_or.1 (List.mem_cons.not.1 h)
    have hbne : (c != '"') = true := bne_iff_ne.2 (Ne.symm hc)
    simpa [blankAhead, hbne] using ih hs

theorem paired_intercalate {separator : List Char} (hseparator : Paired separator)
    {texts : List (List Char)} (h : ∀ s ∈ texts, Paired s) :
    Paired (separator.intercalate texts) := by
  induction texts with
  | nil => exact paired_nil
  | cons s texts ih =>
    obtain ⟨hs, htexts⟩ := List.forall_mem_cons.1 h
    cases texts with
    | nil => simpa using hs
    | cons t texts =>
      rw [List.intercalate_cons_cons]
      exact (hs.append hseparator).append (ih htexts)

theorem isPlain_of_isIdentifierChar {c : Char} (h : isIdentifierChar c = true) :
    isPlain c = true := by
  simp only [isPlain, Bool.and_eq_true, bne_iff_ne]
  exact ⟨⟨⟨ne_of_accepted h rfl, ne_of_accepted h rfl⟩, ne_of_accepted h rfl⟩,
    ne_of_accepted h rfl⟩

theorem compact_of_isIdentifier {s : String} (h : isIdentifier s = true) : Compact s.toList := by
  obtain ⟨-, -, -, -, hall⟩ := exists_cons_of_isIdentifier h
  exact compact_of_isPlain
    (List.all_eq_true.2 fun c hc => isPlain_of_isIdentifierChar (hall c hc))

theorem compact_of_isRegion {s : String} (h : isRegion s = true) : Compact s.toList := by
  obtain ⟨name, hname, hs⟩ := exists_of_isRegion h
  rw [hs]
  exact (compact_of_isPlain (s := ['\'']) rfl).append (compact_of_isIdentifier hname)

namespace TypeShape

theorem paired_commaSeparated {ts : List TypeShape} (h : ∀ t ∈ ts, Paired t.chars) :
    Paired (commaSeparated (ts.map chars)) := by
  have hcomma : Paired [',', ' '] :=
    (compact_of_isPlain (s := [',']) rfl).paired.append (paired_blanks 1)
  refine paired_intercalate hcomma fun s hs => ?_
  obtain ⟨t, ht, rfl⟩ := List.mem_map.1 hs
  exact h t ht

theorem paired_enclose {t : TypeShape} (h : Paired t.chars) : Paired (t.enclose t.chars) := by
  unfold enclose
  split
  · exact h.compact_enclosed.paired
  · exact h

theorem paired_qualifierChars {qualifier : String} (h : Paired qualifier.toList) :
    Paired (qualifierChars qualifier) := by
  unfold qualifierChars
  split
  · exact paired_nil
  · exact h.append (paired_blanks 1)

theorem paired_chars {t : TypeShape} (h : t.Lexical) : Paired t.chars := by
  induction t with
  | basic name => exact (compact_of_isIdentifier (lexical_iff.1 h).1).paired
  | parametric constructor params ihc ihp =>
    have hparams := paired_commaSeparated
      fun p hp => ihp p hp (h.of_mem_children (List.mem_cons_of_mem _ hp))
    have hopen : Paired ['<'] := (compact_of_isPlain rfl).paired
    have hclose : Paired ['>'] := (compact_of_isPlain rfl).paired
    rw [chars_parametric]
    simpa using (paired_enclose (ihc (h.of_mem_children List.mem_cons_self))).append
      ((hopen.append hparams).append hclose)
  | tuple elements ih =>
    rw [chars_tuple]
    exact (paired_commaSeparated
      fun e he => ih e he (h.of_mem_children he)).compact_enclosed.paired
  | function result args ihr iha =>
    have hargs := paired_commaSeparated
      fun a ha => iha a ha (h.of_mem_children (List.mem_append_left _ ha))
    have hname : Paired ['f', 'n'] := (compact_of_isPlain rfl).paired
    have hresult := ihr (h.of_mem_children (List.mem_append_right _ List.mem_cons_self))
    rw [chars_function]
    simpa using (hname.append hargs.compact_enclosed.paired).append
      ((paired_blanks 1).append hresult)
  | reference permission region referent ih =>
    have hqualifiers := (lexical_iff.1 h).1
    simp only [lexicalAt, Bool.and_eq_true, Bool.or_eq_true] at hqualifiers
    have hpaired {s : String} (hs : s.isEmpty = true ∨ Compact s.toList) : Paired s.toList := by
      rcases hs with hempty | hcompact
      · rw [String.isEmpty_iff.1 hempty]
        exact paired_nil
      · exact hcompact.paired
    have hpermission := paired_qualifierChars
      (hpaired (hqualifiers.1.imp_right compact_of_isIdentifier))
    have hregion := paired_qualifierChars (hpaired (hqualifiers.2.imp_right compact_of_isRegion))
    have hmark : Paired ['&'] := (compact_of_isPlain rfl).paired
    rw [chars]
    simpa using (hmark.append hregion).append
      (hpermission.append (ih (h.of_mem_children List.mem_cons_self)))
  | optional wrapped ih =>
    have hmark : Paired ['?'] := (compact_of_isPlain rfl).paired
    rw [chars]
    exact (paired_enclose (ih (h.of_mem_children List.mem_cons_self))).append hmark

end TypeShape

theorem Typename.paired_name {t : Typename} (h : t.Built) (hlex : t.shape.Lexical) :
    Paired t.name.toList := by
  rw [h.toList_name]
  exact TypeShape.paired_chars hlex

namespace Sexpr

theorem paired_spaced {width depth : ℕ} {ss : List Sexpr}
    (h : ∀ s ∈ ss, Paired (s.chars width depth)) : Paired (spaced width depth ss) := by
  refine paired_intercalate (paired_blanks 1) fun t ht => ?_
  obtain ⟨s, hs, rfl⟩ := List.mem_map.1 ht
  exact h s hs

theorem paired_lineBreak (width depth : ℕ) : Paired (lineBreak width depth) :=
  (compact_of_isPlain (s := ['\n']) rfl).paired.append (paired_blanks _)

theorem paired_lines {width depth : ℕ} {ss : List Sexpr}
    (h : ∀ s ∈ ss, Paired (s.chars width depth)) : Paired (lines width depth ss) := by
  induction ss with
  | nil => exact paired_nil
  | cons s ss ih =>
    obtain ⟨hs, hss⟩ := List.forall_mem_cons.1 h
    rw [lines_cons]
    exact ((paired_lineBreak width depth).append hs).append (ih hss)

end Sexpr
end LangCore
