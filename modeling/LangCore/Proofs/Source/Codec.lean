import Mathlib
import LangCore.Proofs.Text.Escapes
import LangCore.Source.Codec

/-!
# Tokens are known from their texts

Neither the text that a token is inspected as nor its JSON text is shared with
another token: the lexeme ends at its closing quote, whatever quotes, escapes and
numbers it has in it, and each number ends where the next separator stands. What
can be read as a token is exactly a record of its fields.
-/

namespace LangCore

open Text

theorem Span.text_injective {s t : Span} (h : s.text.toList = t.text.toList) : s = t := by
  obtain ⟨start, stop⟩ := s
  obtain ⟨start', stop'⟩ := t
  simp only [Span.text, String.toList_append, List.append_assoc] at h
  obtain ⟨hstart, hdots⟩ := eq_of_decimal_append_eq (by simp) (by simp) h
  have hstop := Nat.repr_inj.1 (String.toList_injective (List.append_cancel_left hdots))
  rw [UInt32.toNat_inj.1 hstart, UInt32.toNat_inj.1 hstop]

theorem Token.inspect_injective {t u : Token} (h : t.inspect = u.inspect) : t = u := by
  obtain ⟨lexeme, span, line⟩ := t
  obtain ⟨lexeme', span', line'⟩ := u
  have hchars := congrArg String.toList h
  simp only [Token.inspect, String.toList_append, List.append_assoc] at hchars
  obtain ⟨rfl, hplace⟩ := eq_of_quoted_append_eq hchars
  obtain ⟨hline, hspan⟩ :=
    eq_of_decimal_append_eq (by simp) (by simp) (List.append_cancel_left hplace)
  rw [UInt32.toNat_inj.1 hline, Span.text_injective (List.append_cancel_left hspan)]

theorem Json.text_ofNat (n : ℕ) : (Json.ofNat n).text = toString n := rfl

theorem Span.text_toJson (s : Span) :
    s.toJson.text = "\x7b\"start\":" ++ toString s.start.toNat ++
      (",\"end\":" ++ toString s.stop.toNat ++ "\x7d") := by
  have hstart : Json.stringText "start" = "\"start\"" := rfl
  have hstop : Json.stringText "end" = "\"end\"" := rfl
  rw [Span.toJson, Json.text]
  simp only [Json.entryTexts, Json.text_ofNat, hstart, hstop, String.intercalate_cons_cons,
    String.intercalate_singleton]
  refine String.toList_injective ?_
  simp

theorem Token.text_toJson (t : Token) :
    t.toJson.text = "\x7b\"lexeme\":" ++ Json.stringText t.lexeme ++
      (",\"span\":" ++ t.span.toJson.text ++
        (",\"line\":" ++ toString t.line.toNat ++ "\x7d")) := by
  have hlexeme : Json.stringText "lexeme" = "\"lexeme\"" := rfl
  have hspan : Json.stringText "span" = "\"span\"" := rfl
  have hline : Json.stringText "line" = "\"line\"" := rfl
  rw [Token.toJson, Json.text]
  simp only [Json.entryTexts, Json.text, Json.text_ofNat, hlexeme, hspan, hline,
    String.intercalate_cons_cons, String.intercalate_singleton]
  refine String.toList_injective ?_
  simp

theorem Span.eq_of_text_toJson_append_eq {s t : Span} {x y : List Char}
    (h : s.toJson.text.toList ++ x = t.toJson.text.toList ++ y) : s = t ∧ x = y := by
  obtain ⟨start, stop⟩ := s
  obtain ⟨start', stop'⟩ := t
  simp only [Span.text_toJson, String.toList_append, List.append_assoc] at h
  obtain ⟨hstart, hend⟩ :=
    eq_of_decimal_append_eq (by simp) (by simp) (List.append_cancel_left h)
  obtain ⟨hstop, hrest⟩ :=
    eq_of_decimal_append_eq (by simp) (by simp) (List.append_cancel_left hend)
  rw [UInt32.toNat_inj.1 hstart, UInt32.toNat_inj.1 hstop]
  exact ⟨rfl, List.append_cancel_left hrest⟩

theorem Token.text_toJson_injective {t u : Token} (h : t.toJson.text = u.toJson.text) :
    t = u := by
  obtain ⟨lexeme, span, line⟩ := t
  obtain ⟨lexeme', span', line'⟩ := u
  have hchars := congrArg String.toList h
  simp only [Token.text_toJson, String.toList_append, List.append_assoc] at hchars
  obtain ⟨rfl, hplace⟩ := eq_of_stringText_append_eq (List.append_cancel_left hchars)
  obtain ⟨rfl, hrest⟩ := Span.eq_of_text_toJson_append_eq (List.append_cancel_left hplace)
  obtain ⟨hline, -⟩ :=
    eq_of_decimal_append_eq (by simp) (by simp) (List.append_cancel_left hrest)
  rw [UInt32.toNat_inj.1 hline]

namespace Json

/-- An object with every field among its entries and no other entry of the field's name, or an
array of exactly the fields in order. -/
inductive Record (fields : List (String × Json)) : Json → Prop
  | object {entries} : (∀ f ∈ fields, f ∈ entries ∧ (entries.map Prod.fst).count f.1 = 1) →
      Record fields (.object entries)
  | array : Record fields (.array (fields.map Prod.snd))

theorem Record.eq_of_array {fields : List (String × Json)} {items : List Json}
    (h : (Json.array items).Record fields) : items = fields.map Prod.snd := by
  cases h
  rfl

/-- A number without a point that fits a 32-bit word. -/
def IsWord (json : Json) (w : UInt32) : Prop :=
  ∃ n : ℤ, json = .number n 0 ∧ 0 ≤ n ∧ n ≤ 4294967295 ∧ w.toNat = n

theorem string?_eq_some_iff {json : Json} {s : String} :
    json.string? = some s ↔ json = .string s := by
  cases json <;> simp [string?]

theorem word?_eq_some_iff {json : Json} {w : UInt32} : json.word? = some w ↔ json.IsWord w := by
  constructor
  · intro h
    unfold word? at h
    split at h
    · rename_i n
      split at h
      · rename_i hn
        obtain rfl := Option.some.inj h
        have hsize : n < 4294967296 := hn.2
        refine ⟨n, rfl, hn.1, by omega, ?_⟩
        rw [UInt32.toNat_ofNat_of_lt' (by omega), Int.toNat_of_nonneg hn.1]
      · cases h
    · cases h
  · rintro ⟨n, rfl, -, -, hw⟩
    rw [← hw]
    exact word?_ofNat w

theorem soleValue?_eq_some_iff {entries : List (String × Json)} {name : String} {value : Json} :
    soleValue? entries name = some value ↔
      (name, value) ∈ entries ∧ (entries.map Prod.fst).count name = 1 := by
  have hcount : (entries.map Prod.fst).count name =
      (entries.filter fun entry => entry.1 == name).length := by
    rw [List.count, List.countP_map, List.countP_eq_length_filter]
    rfl
  have hmem : (name, value) ∈ entries ↔
      (name, value) ∈ entries.filter fun entry => entry.1 == name := by
    simp
  have hname : ∀ e ∈ entries.filter fun entry => entry.1 == name, e.1 = name := by
    simp
  rw [hcount, hmem, soleValue?]
  generalize (entries.filter fun entry => entry.1 == name) = named at hname ⊢
  rcases named with _ | ⟨⟨found, json⟩, _ | ⟨e, rest⟩⟩
  · simp
  · obtain rfl : found = name := hname _ List.mem_cons_self
    simp [eq_comm]
  · simp

theorem mapM_soleValue?_eq_some_iff {entries fields : List (String × Json)} :
    (fields.map Prod.fst).mapM (soleValue? entries) = some (fields.map Prod.snd) ↔
      ∀ f ∈ fields, f ∈ entries ∧ (entries.map Prod.fst).count f.1 = 1 := by
  induction fields with
  | nil => simp
  | cons f fields ih =>
    rw [List.forall_mem_cons, ← ih, ← soleValue?_eq_some_iff]
    simp [Option.bind_eq_some_iff]

theorem fields?_eq_some_iff {json : Json} {fields : List (String × Json)} :
    json.fields? (fields.map Prod.fst) = some (fields.map Prod.snd) ↔ json.Record fields := by
  constructor
  · intro h
    cases json with
    | object entries => exact .object (mapM_soleValue?_eq_some_iff.1 h)
    | array items =>
      simp only [fields?, Option.ite_none_right_eq_some, Option.some.injEq] at h
      rw [h.2]
      exact .array
    | null | bool | number | string => cases h
  · rintro (h | _)
    · exact mapM_soleValue?_eq_some_iff.2 h
    · simp [fields?]

end Json

/-- The JSON value is a record of the two offsets. -/
def Span.HeldBy (s : Span) (json : Json) : Prop :=
  ∃ start stop, json.Record [("start", start), ("end", stop)] ∧
    start.IsWord s.start ∧ stop.IsWord s.stop

/-- The JSON value is a record of the lexeme, the span and the line. -/
def Token.HeldBy (t : Token) (json : Json) : Prop :=
  ∃ span line, json.Record [("lexeme", .string t.lexeme), ("span", span), ("line", line)] ∧
    t.span.HeldBy span ∧ line.IsWord t.line

theorem Span.ofJson?_eq_some_iff {json : Json} {s : Span} :
    Span.ofJson? json = some s ↔ s.HeldBy json := by
  constructor
  · intro h
    unfold Span.ofJson? at h
    split at h
    · rename_i start stop hfields
      simp only [Option.bind_eq_bind, Option.pure_def, Option.bind_eq_some_iff,
        Option.some.injEq] at h
      obtain ⟨first, hstart, last, hstop, rfl⟩ := h
      exact ⟨start, stop, Json.fields?_eq_some_iff.1 hfields, Json.word?_eq_some_iff.1 hstart,
        Json.word?_eq_some_iff.1 hstop⟩
    · cases h
  · rintro ⟨start, stop, hrecord, hstart, hstop⟩
    have hfields : json.fields? Span.fieldNames = some [start, stop] :=
      Json.fields?_eq_some_iff.2 hrecord
    simp [Span.ofJson?, hfields, Json.word?_eq_some_iff.2 hstart, Json.word?_eq_some_iff.2 hstop]

theorem Token.ofJson?_eq_some_iff {json : Json} {t : Token} :
    Token.ofJson? json = some t ↔ t.HeldBy json := by
  constructor
  · intro h
    unfold Token.ofJson? at h
    split at h
    · rename_i lexeme span line hfields
      simp only [Option.bind_eq_bind, Option.pure_def, Option.bind_eq_some_iff,
        Option.some.injEq] at h
      obtain ⟨text, hlexeme, place, hspan, number, hline, rfl⟩ := h
      obtain rfl := Json.string?_eq_some_iff.1 hlexeme
      exact ⟨span, line, Json.fields?_eq_some_iff.1 hfields, Span.ofJson?_eq_some_iff.1 hspan,
        Json.word?_eq_some_iff.1 hline⟩
    · cases h
  · rintro ⟨span, line, hrecord, hspan, hline⟩
    have hfields : json.fields? Token.fieldNames = some [.string t.lexeme, span, line] :=
      Json.fields?_eq_some_iff.2 hrecord
    simp [Token.ofJson?, hfields, Span.ofJson?_eq_some_iff.2 hspan,
      Json.word?_eq_some_iff.2 hline]

namespace Token

/-- A token is known from the text it is inspected as and from its JSON text, it and its span are
read from the JSON they are written as, and a token is read exactly from the records that hold
its fields. -/
theorem texts_lossless_and_json_accepted_iff :
    (∀ t u : Token, t.inspect = u.inspect → t = u) ∧
    (∀ t u : Token, t.toJson.text = u.toJson.text → t = u) ∧
    (∀ t : Token, Token.ofJson? t.toJson = some t) ∧
    (∀ s : Span, Span.ofJson? s.toJson = some s) ∧
    (∀ (json : Json) (t : Token), Token.ofJson? json = some t ↔ t.HeldBy json) ∧
    ∀ json : Json, (∀ t : Token, ¬ t.HeldBy json) → Token.ofJson? json = none := by
  refine ⟨fun _ _ => inspect_injective, fun _ _ => text_toJson_injective, ofJson?_toJson,
    Span.ofJson?_toJson, fun _ _ => ofJson?_eq_some_iff, fun json hrefused => ?_⟩
  rw [Option.eq_none_iff_forall_ne_some]
  exact fun t ht => hrefused t (ofJson?_eq_some_iff.1 ht)

/-- A line break and its escape are told apart, and so is a lexeme that goes on like the place of
a token. A span may be an array inside an object, an offset may not exceed 32 bits and no field
may occur twice. -/
theorem texts_lossless_and_json_accepted_iff_escapes :
    (synthetic "\n").inspect ≠ (synthetic "\\n").inspect ∧
    (synthetic "a\" @ 0:0..0").toJson.text ≠ (synthetic "a").toJson.text ∧
    Token.ofJson? (.object [("line", .number 7 0), ("kind", .null),
      ("span", .array [.number 3 0, .number 4294967295 0]), ("lexeme", .string "\n")]) =
        some ⟨"\n", ⟨3, 4294967295⟩, 7⟩ ∧
    Token.ofJson? (.array [.string "a", .array [.number 3 0, .number 4294967296 0],
      .number 7 0]) = none ∧
    Token.ofJson? (.object [("lexeme", .string "a"), ("span", Span.dummy.toJson),
      ("line", .number 1 0), ("line", .number 2 0)]) = none := by
  obtain ⟨hinspect, hjson, -, -, haccept, hrefuse⟩ := texts_lossless_and_json_accepted_iff
  refine ⟨fun h => ?_, fun h => ?_, ?_, ?_, ?_⟩
  · exact absurd (hinspect _ _ h) (by decide)
  · exact absurd (hjson _ _ h) (by decide)
  · have hspan : Span.HeldBy ⟨3, 4294967295⟩ (.array [.number 3 0, .number 4294967295 0]) :=
      ⟨_, _, .array, ⟨3, rfl, by decide⟩, ⟨4294967295, rfl, by decide⟩⟩
    exact (haccept _ _).2 ⟨_, _, .object (by simp), hspan, 7, rfl, by decide⟩
  · refine hrefuse _ ?_
    rintro t ⟨span, line, hrecord, hspan, -⟩
    obtain ⟨-, rfl, -⟩ := by simpa using hrecord.eq_of_array
    obtain ⟨start, stop, hoffsets, -, n, hn, -, hle, -⟩ := hspan
    obtain ⟨-, rfl⟩ := by simpa using hoffsets.eq_of_array
    obtain ⟨rfl, -⟩ := Json.number.inj hn
    exact absurd hle (by decide)
  · refine hrefuse _ ?_
    rintro t ⟨span, line, hrecord, -, -⟩
    cases hrecord with
    | object hfields => simp at hfields

end Token
end LangCore
