import Mathlib
import LangCore.Json.Text
import LangCore.Proofs.Decimal.Text
import LangCore.Text.Quoted

/-!
# Escapes are read back

Quoted texts and JSON strings write a character as itself or as an escape behind
a backslash. One reader undoes both codes and refuses a quote, so a string is
known from its text up to the quote that ends it, whatever follows. A number is
known from its decimal text up to the first character that is no digit.
-/

namespace LangCore.Text

def hexValue (c : Char) : ℕ :=
  if c.isDigit then c.toNat - '0'.toNat else 10 + (c.toNat - 'a'.toNat)

/-- The number that hexadecimal digits stand for, the first of them counting most. -/
def ofHexDigits (s : List Char) : ℕ :=
  s.foldl (fun n c => 16 * n + hexValue c) 0

theorem hexValue_digitChar : ∀ d < 16, hexValue (Nat.digitChar d) = d := by
  decide

theorem ofHexDigits_concat (s : List Char) (c : Char) :
    ofHexDigits (s ++ [c]) = 16 * ofHexDigits s + hexValue c := by
  rw [ofHexDigits, List.foldl_append]
  rfl

theorem toDigits_sixteen (n : ℕ) :
    Nat.toDigits 16 n =
      (if n < 16 then [] else Nat.toDigits 16 (n / 16)) ++ [Nat.digitChar (n % 16)] := by
  split
  · rename_i h
    rw [Nat.toDigits_of_lt_base h, Nat.mod_eq_of_lt h]
    rfl
  · rename_i h
    rw [Nat.toDigits_of_base_le (by decide) (not_lt.1 h)]

theorem ofHexDigits_toDigits (n : ℕ) : ofHexDigits (Nat.toDigits 16 n) = n := by
  induction n using Nat.strongRecOn with
  | ind n ih =>
    have hlast := hexValue_digitChar (n % 16) (Nat.mod_lt n (by decide))
    rw [toDigits_sixteen, ofHexDigits_concat, hlast]
    split
    · rw [ofHexDigits, List.foldl_nil]
      omega
    · rw [ih (n / 16) (by omega)]
      omega

theorem ne_brace_of_mem_toDigits (n : ℕ) : ∀ c ∈ Nat.toDigits 16 n, c ≠ '\x7d' := by
  induction n using Nat.strongRecOn with
  | ind n ih =>
    rw [toDigits_sixteen]
    split
    · simp
    · simpa [or_imp, forall_and] using ih (n / 16) (by omega)

/-- What a character behind a backslash stands for. -/
def shortEscape : Char → Char
  | 'n' => '\n'
  | 'r' => '\r'
  | 't' => '\t'
  | 'b' => '\x08'
  | 'f' => '\x0c'
  | '0' => '\x00'
  | c => c

/-- The first character that is written in a text and the rest of the text, unless a quote ends
it here. A code point stands in braces or has four digits. -/
def unescape : List Char → Option (Char × List Char)
  | [] | '"' :: _ => none
  | '\\' :: 'u' :: '\x7b' :: s =>
    some (.ofNat (ofHexDigits (s.takeWhile (· != '\x7d'))), (s.dropWhile (· != '\x7d')).tail)
  | '\\' :: 'u' :: s => some (.ofNat (ofHexDigits (s.take 4)), s.drop 4)
  | '\\' :: c :: s => some (shortEscape c, s)
  | c :: s => some (c, s)

theorem unescape_cons {c : Char} (hquote : c ≠ '"') (hbackslash : c ≠ '\\') (s : List Char) :
    unescape (c :: s) = some (c, s) := by
  unfold unescape
  split <;> simp_all

theorem unescape_codePointEscape (c : Char) (rest : List Char) :
    unescape (codePointEscape c ++ rest) = some (c, rest) := by
  have hdigits : ∀ d ∈ Nat.toDigits 16 c.toNat, (d != '\x7d') = true := fun d hd =>
    bne_iff_ne.2 (ne_brace_of_mem_toDigits c.toNat d hd)
  have hbrace : ∀ d ∈ ('\x7d' :: rest).head?, (d != '\x7d') = false := by
    simp
  have htext : codePointEscape c ++ rest =
      '\\' :: 'u' :: '\x7b' :: (Nat.toDigits 16 c.toNat ++ '\x7d' :: rest) := by
    simp [codePointEscape]
  rw [htext, unescape, takeWhile_append_of_stop hdigits hbrace,
    dropWhile_append_of_stop hdigits hbrace, ofHexDigits_toDigits, Char.ofNat_toNat]
  rfl

theorem unescape_controlEscape {c : Char} (h : c.toNat < 32) (rest : List Char) :
    unescape (Json.controlEscape c ++ rest) = some (c, rest) := by
  have hhigh := hexValue_digitChar (c.toNat / 16) (by omega)
  have hlow := hexValue_digitChar (c.toNat % 16) (by omega)
  have hcode : ofHexDigits ['0', '0', Nat.digitChar (c.toNat / 16), Nat.digitChar (c.toNat % 16)] =
      c.toNat := by
    have hzero : hexValue '0' = 0 := rfl
    simp only [ofHexDigits, List.foldl_cons, List.foldl_nil, hhigh, hlow, hzero]
    omega
  have hread : unescape (Json.controlEscape c ++ rest) = some (.ofNat (ofHexDigits
      ['0', '0', Nat.digitChar (c.toNat / 16), Nat.digitChar (c.toNat % 16)]), rest) := rfl
  rw [hread, hcode, Char.ofNat_toNat]

theorem unescape_quoteChar (c : Char) (rest : List Char) :
    unescape (quoteChar c ++ rest) = some (c, rest) := by
  unfold quoteChar
  split_ifs with hquote hbackslash hnewline hreturn htab hnul hcode
  · rw [hquote]; rfl
  · rw [hbackslash]; rfl
  · rw [hnewline]; rfl
  · rw [hreturn]; rfl
  · rw [htab]; rfl
  · rw [hnul]; rfl
  · exact unescape_codePointEscape c rest
  · exact unescape_cons hquote hbackslash rest

theorem unescape_stringChar (c : Char) (rest : List Char) :
    unescape (Json.stringChar c ++ rest) = some (c, rest) := by
  unfold Json.stringChar
  split_ifs with hquote hbackslash hnewline hreturn htab hbackspace hfeed hcontrol
  · rw [hquote]; rfl
  · rw [hbackslash]; rfl
  · rw [hnewline]; rfl
  · rw [hreturn]; rfl
  · rw [htab]; rfl
  · rw [hbackspace]; rfl
  · rw [hfeed]; rfl
  · exact unescape_controlEscape hcontrol rest
  · exact unescape_cons hquote hbackslash rest

/-- Two strings in a code that the reader undoes, each with a quote behind it, agree only if they
are the same string and the same follows. -/
theorem eq_of_flatMap_append_eq {encode : Char → List Char}
    (hread : ∀ c rest, unescape (encode c ++ rest) = some (c, rest)) {s t x y : List Char}
    (h : s.flatMap encode ++ '"' :: x = t.flatMap encode ++ '"' :: y) : s = t ∧ x = y := by
  induction s generalizing t with
  | nil =>
    cases t with
    | nil => simpa using h
    | cons d t =>
      have hnone := congrArg unescape h
      rw [List.flatMap_cons, List.append_assoc, hread] at hnone
      cases hnone
  | cons c s ih =>
    have hfirst := congrArg unescape h
    rw [List.flatMap_cons, List.append_assoc, hread] at hfirst
    cases t with
    | nil => cases hfirst
    | cons d t =>
      rw [List.flatMap_cons, List.append_assoc, hread, Option.some.injEq, Prod.mk.injEq] at hfirst
      obtain ⟨rfl, hrest⟩ := hfirst
      obtain ⟨rfl, hxy⟩ := ih hrest
      exact ⟨rfl, hxy⟩

theorem eq_of_quoted_append_eq {s t : String} {x y : List Char}
    (h : (quoted s).toList ++ x = (quoted t).toList ++ y) : s = t ∧ x = y := by
  simp only [toList_quoted, List.cons_append, List.append_assoc, List.nil_append,
    List.cons.injEq, true_and] at h
  obtain ⟨hst, hxy⟩ := eq_of_flatMap_append_eq unescape_quoteChar h
  exact ⟨String.toList_injective hst, hxy⟩

theorem eq_of_stringText_append_eq {s t : String} {x y : List Char}
    (h : (Json.stringText s).toList ++ x = (Json.stringText t).toList ++ y) : s = t ∧ x = y := by
  simp only [Json.toList_stringText, List.cons_append, List.append_assoc, List.nil_append,
    List.cons.injEq, true_and] at h
  obtain ⟨hst, hxy⟩ := eq_of_flatMap_append_eq unescape_stringChar h
  exact ⟨String.toList_injective hst, hxy⟩

/-- Two numbers in front of something else than a digit agree only if they are the same number
and the same follows. -/
theorem eq_of_decimal_append_eq {m n : ℕ} {x y : List Char}
    (hx : ∀ c ∈ x.head?, c.isDigit = false) (hy : ∀ c ∈ y.head?, c.isDigit = false)
    (h : (toString m).toList ++ x = (toString n).toList ++ y) : m = n ∧ x = y := by
  have hdigits (k : ℕ) : ∀ c ∈ (toString k).toList, c.isDigit = true := by
    rw [Nat.toString_eq_repr, Nat.toList_repr]
    exact DecimalStyle.allDigits_toDigits k
  have hword := congrArg (List.takeWhile Char.isDigit) h
  rw [takeWhile_append_of_stop (hdigits m) hx, takeWhile_append_of_stop (hdigits n) hy] at hword
  have hmn : m = n := Nat.repr_inj.1 (String.toList_injective hword)
  subst hmn
  exact ⟨rfl, List.append_cancel_left h⟩

end LangCore.Text
