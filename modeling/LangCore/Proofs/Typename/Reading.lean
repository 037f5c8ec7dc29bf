import Mathlib
import LangCore.Proofs.Typename.Shape

/-!
# Reading names back

A canonical name is read from left to right: a head, then the suffixes that
attach to it. The parentheses around a function or a reference in front of a
suffix look like a tuple of one element there, so reading returns the shape with
such tuples dissolved. A blank in the middle of a reference is behind a
qualifier; whether a word in front of a blank is a qualifier or the whole
referent is settled by the caller's set of permission words.
-/

namespace LangCore
namespace TypeShape

/-- The element of a tuple that may be no more than parentheses around it. -/
def ungroup : TypeShape → TypeShape
  | tuple [t] => if t.isOpen then t else tuple [t]
  | t => t

mutual

/-- Dissolves every tuple in front of a suffix whose one element is a function or reference. -/
def collapse : TypeShape → TypeShape
  | basic name => basic name
  | parametric constructor params => parametric constructor.collapse.ungroup (collapseAll params)
  | tuple elements => tuple (collapseAll elements)
  | function result args => function result.collapse (collapseAll args)
  | reference permission region referent => reference permission region referent.collapse
  | optional wrapped => optional wrapped.collapse.ungroup

def collapseAll : List TypeShape → List TypeShape
  | [] => []
  | t :: rest => t.collapse :: collapseAll rest

end

@[simp] theorem collapseAll_eq_map (ts : List TypeShape) : collapseAll ts = ts.map collapse := by
  induction ts with
  | nil => rfl
  | cons t ts ih => simp [collapseAll, ih]

@[simp] theorem isOpen_collapse (t : TypeShape) : t.collapse.isOpen = t.isOpen := by
  cases t <;> simp [collapse, isOpen]

/-- What stands in front of a suffix, as reading finds it. -/
def grouped (t : TypeShape) : TypeShape :=
  if t.isOpen then tuple [t] else t

theorem grouped_closed {t : TypeShape} (h : t.isOpen = false) : t.grouped = t := by
  rw [grouped, h, if_neg Bool.false_ne_true]

@[simp] theorem grouped_parametric (constructor : TypeShape) (params : List TypeShape) :
    (parametric constructor params).grouped = parametric constructor params := rfl

@[simp] theorem grouped_tuple (elements : List TypeShape) :
    (tuple elements).grouped = tuple elements := rfl

@[simp] theorem grouped_optional (wrapped : TypeShape) :
    (optional wrapped).grouped = optional wrapped := rfl

theorem ungroup_of_isOpen {t : TypeShape} (h : t.isOpen = true) : t.ungroup = t := by
  cases t with
  | function | reference => rfl
  | _ => exact absurd h Bool.false_ne_true

@[simp] theorem ungroup_grouped (t : TypeShape) : t.grouped.ungroup = t.ungroup := by
  unfold grouped
  split
  · rename_i h
    rw [ungroup_of_isOpen h, ungroup, if_pos h]
  · rfl

theorem enclose_chars_ungroup (t : TypeShape) :
    t.ungroup.enclose t.ungroup.chars = t.enclose t.chars := by
  unfold ungroup
  split
  · rename_i u
    split
    · rename_i h
      simp [enclose, h, chars, commaSeparated]
    · rfl
  · rfl

/-- Dissolved groups leave no trace in the name. -/
theorem chars_collapse (t : TypeShape) : t.collapse.chars = t.chars := by
  induction t with
  | basic name => rfl
  | parametric constructor params ihc ihp =>
    have hp : (params.map collapse).map chars = params.map chars := by
      rw [List.map_map]
      exact List.map_congr_left ihp
    rw [collapse, collapseAll_eq_map, chars_parametric, chars_parametric, hp,
      enclose_chars_ungroup, enclose, isOpen_collapse, ihc]
    rfl
  | tuple elements ih =>
    have he : (elements.map collapse).map chars = elements.map chars := by
      rw [List.map_map]
      exact List.map_congr_left ih
    rw [collapse, collapseAll_eq_map, chars_tuple, chars_tuple, he]
  | function result args ihr iha =>
    have ha : (args.map collapse).map chars = args.map chars := by
      rw [List.map_map]
      exact List.map_congr_left iha
    rw [collapse, collapseAll_eq_map, chars_function, chars_function, ha, ihr]
  | reference permission region referent ih => simp [collapse, chars, ih]
  | optional wrapped ih =>
    rw [collapse, chars, chars, enclose_chars_ungroup, enclose, isOpen_collapse, ih]
    rfl

/-- A region and the blank behind it. -/
def readRegion (s : List Char) : String × List Char :=
  match s with
  | '\'' :: rest =>
    (String.ofList ('\'' :: rest.takeWhile isIdentifierChar),
      (rest.dropWhile isIdentifierChar).drop 1)
  | _ => ("", s)

/-- A permission word and the blank behind it. -/
def readPermission (isWord : String → Bool) (s : List Char) : String × List Char :=
  let word := String.ofList (s.takeWhile isIdentifierChar)
  match s.dropWhile isIdentifierChar with
  | ' ' :: rest => if isWord word then (word, rest) else ("", s)
  | _ => ("", s)

/-- A reader of names, told which words in front of a blank are permissions. -/
structure NameReader where
  isPermission : String → Bool

namespace NameReader

mutual

/-- The shape at the start of a text and the rest of the text. -/
def readType (r : NameReader) (s : List Char) : Option (TypeShape × List Char) :=
  match s with
  | '&' :: s => do
    let (region, s) := readRegion s
    let (permission, s) := readPermission r.isPermission s
    let (referent, s) ← r |>.readType s
    some (reference permission region referent, s)
  | '(' :: s => do
    let (elements, s) ← r |>.readTypes ')' s
    r |>.readSuffixes (tuple elements) s
  | 'f' :: 'n' :: '(' :: s => do
    let (args, s) ← r |>.readTypes ')' s
    let (result, s) ← r |>.readType (s.drop 1)
    some (function result args, s)
  | s =>
    let word := s.takeWhile isIdentifierChar
    if word.isEmpty then none
    else r |>.readSuffixes (basic (String.ofList word)) (s.dropWhile isIdentifierChar)
partial_fixpoint

def readTypes (r : NameReader) (close : Char) (s : List Char) :
    Option (List TypeShape × List Char) :=
  match s with
  | [] => none
  | c :: rest =>
    if c = close then some ([], rest)
    else do
      let (t, s) ← r |>.readType (c :: rest)
      match s with
      | ',' :: ' ' :: s => do
        let (ts, s) ← r |>.readTypes close s
        some (t :: ts, s)
      | c :: s => if c = close then some ([t], s) else none
      | [] => none
partial_fixpoint

/-- The shape that begins with a given one and goes on with the suffixes in front of a text. -/
def readSuffixes (r : NameReader) (t : TypeShape) (s : List Char) :
    Option (TypeShape × List Char) :=
  match s with
  | '?' :: s => r |>.readSuffixes (optional t.ungroup) s
  | '<' :: s => do
    let (params, s) ← r |>.readTypes '>' s
    r |>.readSuffixes (parametric t.ungroup params) s
  | s => some (t, s)
partial_fixpoint

end

end NameReader

/-- Every permission is one of the given words. -/
def permissionIn (isWord : String → Bool) : TypeShape → Bool
  | reference permission _ _ => permission.isEmpty || isWord permission
  | _ => true

def nameOutside (isWord : String → Bool) : TypeShape → Bool
  | basic name => !isWord name
  | _ => true

/-- A name ends here, or a suffix follows it. -/
def Follows (rest : List Char) : Prop :=
  ∀ c ∈ rest.head?, c ∈ ['?', '<', ',', '>', ')', ' ']

/-- A name ends here. -/
def Ends (rest : List Char) : Prop :=
  ∀ c ∈ rest.head?, c ∈ [',', '>', ')', ' ']

theorem Ends.follows {rest : List Char} (h : Ends rest) : Follows rest := by
  intro c hc
  have := h c hc
  simp only [List.mem_cons, List.not_mem_nil] at this ⊢
  tauto

theorem follows_cons {c : Char} (h : c ∈ ['?', '<', ',', '>', ')', ' ']) (rest : List Char) :
    Follows (c :: rest) := by
  rintro d ⟨⟩
  exact h

theorem ends_cons {c : Char} (h : c ∈ [',', '>', ')', ' ']) (rest : List Char) :
    Ends (c :: rest) := by
  rintro d ⟨⟩
  exact h

theorem Follows.not_identifier {rest : List Char} (h : Follows rest) :
    ∀ c ∈ rest.head?, isIdentifierChar c = false := by
  intro c hc
  have hmem := h c hc
  simp only [List.mem_cons, List.not_mem_nil, or_false] at hmem
  rcases hmem with rfl | rfl | rfl | rfl | rfl | rfl <;> decide

theorem Follows.ne_paren {rest : List Char} (h : Follows rest) : rest.head? ≠ some '(' := by
  intro hc
  exact absurd (h '(' hc) (by decide)

variable {isWord : String → Bool}

theorem exists_cons_of_lexical {t : TypeShape} (h : t.Lexical) :
    ∃ c rest, t.chars = c :: rest ∧ (c = '(' ∨ c = '&' ∨ isIdentifierStart c = true) := by
  induction t with
  | basic name =>
    obtain ⟨c, rest, hs, hc, -⟩ := exists_cons_of_isIdentifier (every_iff.1 h).1
    exact ⟨c, rest, hs, Or.inr (Or.inr hc)⟩
  | parametric constructor params ih =>
    obtain ⟨c, rest, hs, hc⟩ := ih (h.of_mem_children List.mem_cons_self)
    rw [chars_parametric, enclose]
    split
    · exact ⟨'(', _, rfl, Or.inl rfl⟩
    · exact ⟨c, _, by rw [hs]; rfl, hc⟩
  | tuple elements => exact ⟨'(', _, chars_tuple elements, Or.inl rfl⟩
  | function result args =>
    exact ⟨'f', _, chars_function result args, Or.inr (Or.inr rfl)⟩
  | reference permission region referent =>
    exact ⟨'&', _, by rw [chars]; rfl, Or.inr (Or.inl rfl)⟩
  | optional wrapped ih =>
    obtain ⟨c, rest, hs, hc⟩ := ih (h.of_mem_children List.mem_cons_self)
    rw [chars, enclose]
    split
    · exact ⟨'(', _, rfl, Or.inl rfl⟩
    · exact ⟨c, _, by rw [hs]; rfl, hc⟩

theorem head?_chars_append {t : TypeShape} (h : t.Lexical) (rest : List Char) :
    (t.chars ++ rest).head? ≠ some '\'' := by
  obtain ⟨c, s, hs, hc⟩ := exists_cons_of_lexical h
  rw [hs]
  rintro ⟨⟩
  exact absurd hc (by decide)

theorem readRegion_absent {s : List Char} (h : s.head? ≠ some '\'') :
    readRegion s = ("", s) := by
  unfold readRegion
  split
  · exact absurd rfl h
  · rfl

theorem readRegion_region {region : String} (h : isRegion region = true) (rest : List Char) :
    readRegion (region.toList ++ ' ' :: rest) = (region, rest) := by
  obtain ⟨name, hname, hs⟩ := exists_of_isRegion h
  obtain ⟨-, -, -, -, hall⟩ := exists_cons_of_isIdentifier hname
  have hstop : ∀ c ∈ (' ' :: rest).head?, isIdentifierChar c = false :=
    (follows_cons (by decide) rest).not_identifier
  rw [hs, List.cons_append, readRegion, takeWhile_append_of_stop hall hstop,
    dropWhile_append_of_stop hall hstop, ← hs]
  simp

theorem readPermission_word {permission : String} (h : isIdentifier permission = true)
    (hword : isWord permission = true) (rest : List Char) :
    readPermission isWord (permission.toList ++ ' ' :: rest) = (permission, rest) := by
  obtain ⟨-, -, -, -, hall⟩ := exists_cons_of_isIdentifier h
  have hstop : ∀ c ∈ (' ' :: rest).head?, isIdentifierChar c = false :=
    (follows_cons (by decide) rest).not_identifier
  simp [readPermission, takeWhile_append_of_stop hall hstop, dropWhile_append_of_stop hall hstop,
    hword]

/-- No word at the start of a name is taken for a permission: either no blank follows the name, or
no basic name in it is a permission word. -/
theorem readPermission_chars {t : TypeShape} (h : t.Lexical) {rest : List Char}
    (hfollows : Follows rest)
    (hblank : rest.head? ≠ some ' ' ∨ t.Every fun u => u.nameOutside isWord = true) :
    readPermission isWord (t.chars ++ rest) = ("", t.chars ++ rest) := by
  induction t generalizing rest with
  | basic name =>
    obtain ⟨-, -, -, -, hall⟩ := exists_cons_of_isIdentifier (every_iff.1 h).1
    rw [chars, readPermission, takeWhile_append_of_stop hall hfollows.not_identifier,
      dropWhile_append_of_stop hall hfollows.not_identifier]
    split
    · have hname : isWord name = false := by
        rcases hblank with hblank | hblank
        · exact absurd rfl hblank
        · simpa [nameOutside] using (every_iff.1 hblank).1
      simp [hname]
    · rfl
  | parametric constructor params ih =>
    have hc : constructor ∈ (parametric constructor params).children := List.mem_cons_self
    rw [chars_parametric, enclose]
    split
    · rfl
    · simp only [List.append_assoc, List.cons_append]
      exact ih (h.of_mem_children hc) (follows_cons (by decide) _) (Or.inl (by simp))
  | tuple elements => rw [chars_tuple]; rfl
  | function result args => rw [chars_function]; rfl
  | reference permission region referent => rw [chars]; rfl
  | optional wrapped ih =>
    have hc : wrapped ∈ (optional wrapped).children := List.mem_cons_self
    rw [chars, enclose]
    split
    · rfl
    · simp only [List.append_assoc, List.cons_append]
      exact ih (h.of_mem_children hc) (follows_cons (by decide) _) (Or.inl (by simp))

theorem readQualifiers_chars {permission region : String} {t : TypeShape}
    (hlex : (reference permission region t).Lexical)
    (hword : permission.isEmpty = true ∨ isWord permission = true) {rest : List Char}
    (hfollows : Follows rest)
    (hblank : rest.head? ≠ some ' ' ∨ t.Every fun u => u.nameOutside isWord = true) :
    readRegion (qualifierChars region ++ (qualifierChars permission ++ (t.chars ++ rest))) =
        (region, qualifierChars permission ++ (t.chars ++ rest)) ∧
      readPermission isWord (qualifierChars permission ++ (t.chars ++ rest)) =
        (permission, t.chars ++ rest) := by
  have ht : t.Lexical := hlex.of_mem_children List.mem_cons_self
  have hqualifiers := (every_iff.1 hlex).1
  simp only [lexicalAt, Bool.and_eq_true, Bool.or_eq_true] at hqualifiers
  obtain ⟨hpermission, hregion⟩ := hqualifiers
  constructor
  · rcases Bool.eq_false_or_eq_true region.isEmpty with hempty | hempty
    · have hhead : (qualifierChars permission ++ (t.chars ++ rest)).head? ≠ some '\'' := by
        unfold qualifierChars
        split
        · exact head?_chars_append ht rest
        · rename_i hnonempty
          obtain ⟨c, s, hs, hc, -⟩ :=
            exists_cons_of_isIdentifier (hpermission.resolve_left hnonempty)
          rw [hs]
          rintro ⟨⟩
          exact absurd hc (by decide)
      rw [String.isEmpty_iff.1 hempty]
      exact readRegion_absent hhead
    · have h := hregion.resolve_left (by rw [hempty]; exact Bool.false_ne_true)
      have hread := readRegion_region h (qualifierChars permission ++ (t.chars ++ rest))
      simpa [qualifierChars, hempty] using hread
  · rcases Bool.eq_false_or_eq_true permission.isEmpty with hempty | hempty
    · rw [String.isEmpty_iff.1 hempty]
      exact readPermission_chars ht hfollows hblank
    · have hne : permission.isEmpty ≠ true := by rw [hempty]; exact Bool.false_ne_true
      have hread := readPermission_word (hpermission.resolve_left hne)
        (hword.resolve_left hne) (t.chars ++ rest)
      simpa [qualifierChars, hempty] using hread

/-- Reading takes exactly the name off the text, if the name ends there. -/
def ReadsBack (r : NameReader) (t : TypeShape) : Prop :=
  ∀ rest, Ends rest →
    (rest.head? ≠ some ' ' ∨ t.Every fun u => u.nameOutside r.isPermission = true) →
    r.readType (t.chars ++ rest) = some (t.collapse, rest)

/-- Reading takes the name in front of a suffix and goes on with the suffixes. -/
def OperandReadsBack (r : NameReader) (t : TypeShape) : Prop :=
  ∀ rest, Follows rest →
    r.readType (t.enclose t.chars ++ rest) = r.readSuffixes t.collapse.grouped rest

variable {r : NameReader}

theorem readSuffixes_of_ends {t : TypeShape} {rest : List Char} (h : Ends rest) :
    r.readSuffixes t rest = some (t, rest) := by
  rw [NameReader.readSuffixes.eq_def]
  split
  · exact absurd (h '?' rfl) (by decide)
  · exact absurd (h '<' rfl) (by decide)
  · rfl

theorem OperandReadsBack.readsBack {t : TypeShape} (h : OperandReadsBack r t)
    (ht : t.isOpen = false) : ReadsBack r t := by
  intro rest hends _
  have hread := h rest hends.follows
  rw [enclose_closed ht, grouped_closed ((isOpen_collapse t).trans ht)] at hread
  exact hread.trans (readSuffixes_of_ends hends)

theorem readTypes_last {c close : Char} {s rest : List Char} {t : TypeShape}
    (hc : c ≠ close) (hclose : close ≠ ',')
    (h : r.readType (c :: s) = some (t, close :: rest)) :
    r.readTypes close (c :: s) = some ([t], rest) := by
  rw [NameReader.readTypes.eq_def]
  simp only [if_neg hc, h, Option.bind_eq_bind, Option.bind_some]
  split
  · rename_i heq
    exact absurd (List.cons.inj heq).1 hclose
  · rename_i heq
    obtain ⟨rfl, rfl⟩ := List.cons.inj heq
    rw [if_pos rfl]
  · rename_i heq
    cases heq

theorem readTypes_cons {c close : Char} {s rest rest' : List Char} {t : TypeShape}
    {ts : List TypeShape} (hc : c ≠ close)
    (h : r.readType (c :: s) = some (t, ',' :: ' ' :: rest))
    (hrest : r.readTypes close rest = some (ts, rest')) :
    r.readTypes close (c :: s) = some (t :: ts, rest') := by
  rw [NameReader.readTypes.eq_def]
  simp [if_neg hc, h, hrest]

theorem readTypes_commaSeparated {ts : List TypeShape} {close : Char} (rest : List Char)
    (hclose : close = ')' ∨ close = '>') (hlex : ∀ t ∈ ts, t.Lexical)
    (hread : ∀ t ∈ ts, ReadsBack r t) :
    r.readTypes close (commaSeparated (ts.map chars) ++ close :: rest) =
      some (ts.map collapse, rest) := by
  induction ts with
  | nil =>
    rw [NameReader.readTypes.eq_def]
    simp [commaSeparated]
  | cons t ts ih =>
    obtain ⟨c, s, hs, hc⟩ := exists_cons_of_lexical (hlex t List.mem_cons_self)
    have hne : c ≠ close := by
      rintro rfl
      rcases hclose with rfl | rfl <;> exact absurd hc (by decide)
    have hstep : ∀ rest, Ends rest → rest.head? ≠ some ' ' →
        r.readType (c :: (s ++ rest)) = some (t.collapse, rest) := by
      intro rest hends hblank
      have h := hread t List.mem_cons_self rest hends (Or.inl hblank)
      rwa [hs] at h
    cases ts with
    | nil =>
      have hend : Ends (close :: rest) :=
        ends_cons (by rcases hclose with rfl | rfl <;> decide) rest
      have hblank : (close :: rest).head? ≠ some ' ' := by
        rcases hclose with rfl | rfl <;> simp
      have hcomma : close ≠ ',' := by
        rcases hclose with rfl | rfl <;> decide
      simp only [commaSeparated, List.map_cons, List.map_nil, List.intercalate_singleton, hs,
        List.cons_append]
      exact readTypes_last hne hcomma (hstep _ hend hblank)
    | cons u us =>
      have htail := ih (fun t ht => hlex t (List.mem_cons_of_mem _ ht))
        fun t ht => hread t (List.mem_cons_of_mem _ ht)
      simp only [commaSeparated, List.map_cons, List.intercalate_cons_cons, hs, List.cons_append,
        List.append_assoc, List.nil_append] at htail ⊢
      exact readTypes_cons hne (hstep _ (ends_cons (by decide) _) (by simp)) htail

/-- Parentheses around a function or a reference are read as a tuple. -/
theorem ReadsBack.operand {t : TypeShape} (h : ReadsBack r t) (hlex : t.Lexical)
    (ht : t.isOpen = true) : OperandReadsBack r t := by
  intro rest _
  have hread := readTypes_commaSeparated rest (Or.inl rfl)
    (List.forall_mem_singleton.2 hlex) (List.forall_mem_singleton.2 h)
  simp only [commaSeparated, List.map_cons, List.map_nil, List.intercalate_singleton] at hread
  rw [enclose, if_pos ht, grouped, isOpen_collapse, if_pos ht]
  simp only [List.cons_append, List.append_assoc, List.nil_append]
  rw [NameReader.readType.eq_2, hread]
  rfl

theorem readType_name {name : String} (h : isIdentifier name = true) {rest : List Char}
    (hfollows : Follows rest) :
    r.readType (name.toList ++ rest) = r.readSuffixes (basic name) rest := by
  obtain ⟨c, s, hs, hc, hall⟩ := exists_cons_of_isIdentifier h
  have hword : (name.toList ++ rest).takeWhile isIdentifierChar = name.toList :=
    takeWhile_append_of_stop hall hfollows.not_identifier
  have hrest : (name.toList ++ rest).dropWhile isIdentifierChar = rest :=
    dropWhile_append_of_stop hall hfollows.not_identifier
  rw [NameReader.readType.eq_def]
  split
  · rename_i heq
    rw [hs, List.cons_append] at heq
    exact absurd (List.cons.inj heq).1 (ne_of_accepted hc rfl)
  · rename_i heq
    rw [hs, List.cons_append] at heq
    exact absurd (List.cons.inj heq).1 (ne_of_accepted hc rfl)
  · rename_i heq
    rw [heq] at hrest
    exact absurd (congrArg List.head? hrest.symm) hfollows.ne_paren
  · have hne : name.toList.isEmpty = false := by rw [hs]; rfl
    simp [hword, hrest, hne]

theorem operandReadsBack_parametric {constructor : TypeShape} {params : List TypeShape}
    (hconstructor : OperandReadsBack r constructor) (hlex : ∀ p ∈ params, p.Lexical)
    (hparams : ∀ p ∈ params, ReadsBack r p) :
    OperandReadsBack r (parametric constructor params) := by
  intro rest _
  have hread := readTypes_commaSeparated rest (Or.inr rfl) hlex hparams
  have hsuffix := hconstructor ('<' :: (commaSeparated (params.map chars) ++ '>' :: rest))
    (follows_cons (by decide) _)
  rw [NameReader.readSuffixes, hread] at hsuffix
  rw [enclose_closed rfl, chars_parametric]
  simpa [collapse] using hsuffix

theorem operandReadsBack_tuple {elements : List TypeShape} (hlex : ∀ e ∈ elements, e.Lexical)
    (helements : ∀ e ∈ elements, ReadsBack r e) : OperandReadsBack r (tuple elements) := by
  intro rest _
  have hread := readTypes_commaSeparated rest (Or.inl rfl) hlex helements
  rw [enclose_closed rfl, chars_tuple]
  simp only [List.cons_append, List.append_assoc, List.nil_append]
  rw [NameReader.readType.eq_2, hread]
  simp [collapse]

theorem operandReadsBack_optional {wrapped : TypeShape} (hwrapped : OperandReadsBack r wrapped) :
    OperandReadsBack r (optional wrapped) := by
  intro rest _
  have hsuffix := hwrapped ('?' :: rest) (follows_cons (by decide) rest)
  rw [NameReader.readSuffixes] at hsuffix
  rw [enclose_closed rfl, chars]
  simpa [collapse] using hsuffix

theorem readsBack_function {result : TypeShape} {args : List TypeShape}
    (hresult : ReadsBack r result) (hlex : ∀ a ∈ args, a.Lexical)
    (hargs : ∀ a ∈ args, ReadsBack r a) : ReadsBack r (function result args) := by
  intro rest hends hblank
  have hchildren : result ∈ (function result args).children :=
    List.mem_append_right _ List.mem_cons_self
  have hread := readTypes_commaSeparated (' ' :: (result.chars ++ rest)) (Or.inl rfl) hlex hargs
  have hlast := hresult rest hends (hblank.imp_right fun h => h.of_mem_children hchildren)
  rw [chars_function]
  simp only [List.cons_append, List.append_assoc]
  rw [NameReader.readType.eq_3, hread]
  simp [hlast, collapse]

theorem readsBack_reference {permission region : String} {referent : TypeShape}
    (hlex : (reference permission region referent).Lexical)
    (hword : permission.isEmpty = true ∨ r.isPermission permission = true)
    (hreferent : ReadsBack r referent) :
    ReadsBack r (reference permission region referent) := by
  intro rest hends hblank
  have hblank' := hblank.imp_right fun h => h.of_mem_children List.mem_cons_self
  obtain ⟨hregion, hpermission⟩ := readQualifiers_chars hlex hword hends.follows hblank'
  rw [chars]
  simp only [List.cons_append, List.append_assoc]
  rw [NameReader.readType.eq_1, hregion]
  simp [hpermission, hreferent rest hends hblank', collapse]

/-- Every shape reads back, also in front of a suffix. -/
theorem readsBack_and_operand {t : TypeShape} (hlex : t.Lexical)
    (hwords : t.Every fun u => u.permissionIn r.isPermission = true) :
    ReadsBack r t ∧ OperandReadsBack r t := by
  induction t using induction_children with
  | node t ih =>
    have hlexical : ∀ c ∈ t.children, c.Lexical := fun c hc => hlex.of_mem_children hc
    have hparts : ∀ c ∈ t.children, ReadsBack r c ∧ OperandReadsBack r c :=
      fun c hc => ih c hc (hlexical c hc) (hwords.of_mem_children hc)
    have hclosed (ht : t.isOpen = false) (h : OperandReadsBack r t) :
        ReadsBack r t ∧ OperandReadsBack r t := ⟨h.readsBack ht, h⟩
    have hopen (ht : t.isOpen = true) (h : ReadsBack r t) :
        ReadsBack r t ∧ OperandReadsBack r t := ⟨h, h.operand hlex ht⟩
    cases t with
    | basic name => exact hclosed rfl fun _ => readType_name (every_iff.1 hlex).1
    | parametric constructor params =>
      obtain ⟨hconstructor, hparams⟩ := List.forall_mem_cons.1 hparts
      have hlexparams := (List.forall_mem_cons.1 hlexical).2
      exact hclosed rfl
        (operandReadsBack_parametric hconstructor.2 hlexparams fun p hp => (hparams p hp).1)
    | tuple elements =>
      exact hclosed rfl (operandReadsBack_tuple hlexical fun e he => (hparts e he).1)
    | function result args =>
      obtain ⟨hargs, hresult⟩ := List.forall_mem_append.1 hparts
      have hlexargs := (List.forall_mem_append.1 hlexical).1
      exact hopen rfl (readsBack_function (hresult result List.mem_cons_self).1 hlexargs
        fun a ha => (hargs a ha).1)
    | reference permission region referent =>
      have hword : permission.isEmpty = true ∨ r.isPermission permission = true := by
        simpa [permissionIn] using (every_iff.1 hwords).1
      exact hopen rfl (readsBack_reference hlex hword (hparts referent List.mem_cons_self).1)
    | optional wrapped =>
      exact hclosed rfl (operandReadsBack_optional (hparts wrapped List.mem_cons_self).2)

end TypeShape
end LangCore
