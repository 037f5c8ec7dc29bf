import Mathlib
import LangCore.Proofs.Typename.Congruence

/-!
# Conformance by name

An array type takes a typename apart level by level, and names are compared at
the innermost type alone. All the same the typenames that a type conforms to are
known by their names: a name that puts `Array<` and `>` around the name of another
typename belongs to an array of a typename of that name, and to nothing else.
-/

namespace LangCore

/-- A name inside so many array types. -/
def nestedName (n : ℕ) (name : String) : String :=
  String.join (List.replicate n "Array<") ++ name ++ String.join (List.replicate n ">")

@[simp] theorem nestedName_zero (name : String) : nestedName 0 name = name := by
  simp [nestedName]

theorem nestedName_succ (n : ℕ) (name : String) :
    nestedName (n + 1) name = "Array<" ++ nestedName n name ++ ">" := by
  have hclose : String.join (List.replicate (n + 1) ">") =
      String.join (List.replicate n ">") ++ ">" := by
    rw [List.replicate_succ', String.join_append, String.join_cons, String.join_nil,
      String.append_empty]
  rw [nestedName, nestedName, List.replicate_succ, String.join_cons, hclose]
  simp only [String.append_assoc]

theorem ValueType.name_arrays (n : ℕ) (leaf : ValueType) :
    (arrays n leaf).name = nestedName n leaf.name := by
  induction n with
  | zero => rw [arrays_zero, nestedName_zero]
  | succ n ih => rw [arrays_succ, name, ih, nestedName_succ]

namespace TypeShape

def arrayOf (t : TypeShape) : TypeShape :=
  parametric (basic "Array") [t]

def arrays : ℕ → TypeShape → TypeShape
  | 0, t => t
  | n + 1, t => (arrays n t).arrayOf

theorem chars_arrayOf (t : TypeShape) :
    t.arrayOf.chars = "Array<".toList ++ t.chars ++ ">".toList := by
  rw [arrayOf, chars_parametric, enclose_closed rfl, chars]
  simp [commaSeparated]

theorem chars_arrays {t : TypeShape} {name : String} (h : name.toList = t.chars) (n : ℕ) :
    (arrays n t).chars = (nestedName n name).toList := by
  induction n with
  | zero => rw [arrays, nestedName_zero, h]
  | succ n ih =>
    rw [arrays, chars_arrayOf, ih, nestedName_succ, String.toList_append, String.toList_append]

theorem Lexical.arrayOf {t : TypeShape} (h : t.Lexical) : t.arrayOf.Lexical := by
  have harray : (basic "Array").Lexical := by decide
  exact lexical_iff.2 ⟨rfl, List.forall_mem_cons.2 ⟨harray, List.forall_mem_singleton.2 h⟩⟩

theorem Lexical.arrays {t : TypeShape} (h : t.Lexical) (n : ℕ) : (arrays n t).Lexical := by
  induction n with
  | zero => exact h
  | succ n ih => exact ih.arrayOf

theorem arrayParam?_arrayOf (t : TypeShape) : t.arrayOf.arrayParam? = some t := by
  rw [arrayOf, arrayParam?, chars, if_pos rfl]

theorem exists_of_arrayParam? {t param : TypeShape} (h : t.arrayParam? = some param) :
    ∃ constructor, t = parametric constructor [param] ∧ constructor.chars = "Array".toList := by
  unfold arrayParam? at h
  split at h
  · split at h
    · rename_i harray
      cases h
      exact ⟨_, rfl, harray⟩
    · cases h
  · cases h

theorem Lexical.of_arrayParam? {t param : TypeShape} (ht : t.Lexical)
    (h : t.arrayParam? = some param) : param.Lexical := by
  obtain ⟨constructor, rfl, -⟩ := exists_of_arrayParam? h
  exact ht.of_mem_children (List.mem_cons_of_mem _ List.mem_cons_self)

theorem chars_of_arrayParam? {t param : TypeShape} (h : t.arrayParam? = some param) :
    t.chars = param.arrayOf.chars := by
  obtain ⟨constructor, rfl, harray⟩ := exists_of_arrayParam? h
  have henclose := (enclose_chars_eq_iff _ (by decide) (by decide)).2 harray
  rw [arrayOf, chars_parametric, chars_parametric, henclose]
  rfl

theorem chars_eq_chars_arrayOf_iff {t u : TypeShape} (ht : t.Lexical) (hu : u.Lexical) :
    t.chars = u.arrayOf.chars ↔ ∃ param, t.arrayParam? = some param ∧ param.chars = u.chars := by
  constructor
  · intro h
    have hcollapse := (chars_injective_collapse ht hu.arrayOf).1 h
    have hparam : t.arrayParam?.map collapse = some u.collapse := by
      rw [← arrayParam?_collapse, hcollapse, arrayParam?_collapse, arrayParam?_arrayOf]
      rfl
    obtain ⟨param, hparam, heq⟩ := Option.map_eq_some_iff.1 hparam
    exact ⟨param, hparam, by rw [← chars_collapse, heq, chars_collapse]⟩
  · rintro ⟨param, hparam, heq⟩
    rw [chars_of_arrayParam? hparam, chars_arrayOf, chars_arrayOf, heq]

end TypeShape

namespace ValueType

theorem isIdentifier_name {leaf : ValueType} (h : leaf.element? = none) :
    isIdentifier leaf.name = true := by
  cases leaf with
  | array element => cases h
  | _ => decide

theorem fits_iff_of_element? {leaf : ValueType} (h : leaf.element? = none) (t : TypeShape) :
    leaf.fits t = true ↔ leaf = .dynamic ∨ t.chars = leaf.name.toList := by
  cases leaf with
  | dynamic => simp [fits]
  | array element => cases h
  | _ =>
    simp only [fits, beq_iff_eq, reduceCtorEq, false_or]
    exact eq_comm

theorem fits_array_iff {element : ValueType} {t : TypeShape} :
    (array element).fits t = true ↔
      ∃ param, t.arrayParam? = some param ∧ element.fits param = true := by
  rw [fits]
  cases t.arrayParam? <;> simp

/-- An array type fits the shapes that have the name of such an array, if the innermost type fits
the innermost shape. -/
theorem fits_arrays_iff {t : TypeShape} (ht : t.Lexical) {leaf : ValueType}
    (hleaf : leaf.element? = none) (n : ℕ) :
    (arrays n leaf).fits t = true ↔
      ∃ u : TypeShape, u.Lexical ∧ t.chars = (TypeShape.arrays n u).chars ∧
        (leaf = .dynamic ∨ u.chars = leaf.name.toList) := by
  induction n generalizing t with
  | zero =>
    rw [arrays_zero, fits_iff_of_element? hleaf]
    constructor
    · intro h
      exact ⟨t, ht, rfl, h⟩
    · rintro ⟨u, -, hchars, h⟩
      rwa [hchars]
  | succ n ih =>
    have hlevel {u : TypeShape} (hu : u.Lexical) :
        t.chars = (TypeShape.arrays (n + 1) u).chars ↔
          ∃ param, t.arrayParam? = some param ∧ param.chars = (TypeShape.arrays n u).chars :=
      TypeShape.chars_eq_chars_arrayOf_iff ht (hu.arrays n)
    rw [arrays_succ, fits_array_iff]
    constructor
    · rintro ⟨param, hparam, hfits⟩
      obtain ⟨u, hu, hchars, hname⟩ := (ih (ht.of_arrayParam? hparam)).1 hfits
      exact ⟨u, hu, (hlevel hu).2 ⟨param, hparam, hchars⟩, hname⟩
    · rintro ⟨u, hu, hchars, hname⟩
      obtain ⟨param, hparam, heq⟩ := (hlevel hu).1 hchars
      exact ⟨param, hparam, (ih (ht.of_arrayParam? hparam)).2 ⟨u, hu, heq, hname⟩⟩

end ValueType

namespace Typename

theorem name_eq_nestedName_iff {t u : Typename} (ht : t.Built) (hu : u.Built) (n : ℕ) :
    t.name = nestedName n u.name ↔ t.shape.chars = (TypeShape.arrays n u.shape).chars := by
  rw [TypeShape.chars_arrays hu.toList_name, ← ht.toList_name, String.toList_inj]

/-- A type of arrays, so many levels deep, conforms to a typename exactly if the name of it puts as
many array types around the name of a typename, which is the name of the innermost type unless that
is the dynamic one. So types without the dynamic one conform by their own names. -/
theorem conformsTo_arrays_iff_name {t : Typename} (ht : t.Built) (hlt : t.shape.Lexical)
    {leaf : ValueType} (hleaf : leaf.element? = none) (n : ℕ) :
    ((ValueType.arrays n leaf).conformsTo t = true ↔
        ∃ u : Typename, u.Built ∧ u.shape.Lexical ∧ t.name = nestedName n u.name ∧
          (leaf = .dynamic ∨ u.name = leaf.name)) ∧
      (leaf ≠ .dynamic → ((ValueType.arrays n leaf).conformsTo t = true ↔
        (ValueType.arrays n leaf).name = t.name)) := by
  have hiff : (ValueType.arrays n leaf).conformsTo t = true ↔
      ∃ u : Typename, u.Built ∧ u.shape.Lexical ∧ t.name = nestedName n u.name ∧
        (leaf = .dynamic ∨ u.name = leaf.name) := by
    rw [ValueType.conformsTo_eq_fits _ ht, ValueType.fits_arrays_iff hlt hleaf]
    constructor
    · rintro ⟨u, hu, hchars, hname⟩
      have hbuilt := TypeShape.built_toTypename hu
      have hshape := u.shape_toTypename
      refine ⟨u.toTypename, hbuilt, by rwa [hshape], ?_, hname.imp_right fun h => ?_⟩
      · rwa [name_eq_nestedName_iff ht hbuilt, hshape]
      · rwa [← String.toList_inj, hbuilt.toList_name, hshape]
    · rintro ⟨u, hu, hlu, hname, h⟩
      refine ⟨u.shape, hlu, (name_eq_nestedName_iff ht hu n).1 hname, h.imp_right fun h => ?_⟩
      rw [← hu.toList_name, h]
  refine ⟨hiff, fun hne => ?_⟩
  rw [hiff, ValueType.name_arrays]
  constructor
  · rintro ⟨u, -, -, hname, h⟩
    rw [hname, h.resolve_left hne]
  · intro h
    have hlex := TypeShape.lexical_basic (ValueType.isIdentifier_name hleaf)
    exact ⟨(TypeShape.basic leaf.name).toTypename, TypeShape.built_toTypename hlex,
      by rwa [TypeShape.shape_toTypename], h.symm, .inr rfl⟩

/-- Two levels of arrays around an optional function, and around integers. -/
theorem conformsTo_arrays_iff_name_optional_of_function :
    let function := (TypeShape.function (.basic "T") []).optional
    let t := (TypeShape.arrays 2 function).toTypename
    let u := (TypeShape.arrays 2 (.basic "Int")).toTypename
    t.Built ∧ t.shape.Lexical ∧ u.Built ∧ u.shape.Lexical ∧
      ValueType.dynamic.element? = none ∧ ValueType.int.element? = none ∧
      t.name = "Array<Array<(fn() T)?>>" ∧
      (ValueType.arrays 2 .dynamic).conformsTo t = true ∧
      (ValueType.arrays 2 .int).conformsTo u = true ∧
      (ValueType.arrays 2 .int).conformsTo t = false := by
  intro function t u
  have ht : t.Built := TypeShape.built_toTypename (by decide)
  have hlt : t.shape.Lexical := by decide
  have hu : u.Built := TypeShape.built_toTypename (by decide)
  have hlu : u.shape.Lexical := by decide
  have hdynamic : ValueType.dynamic.element? = none := rfl
  have hint : ValueType.int.element? = none := rfl
  have hname : t.name = "Array<Array<(fn() T)?>>" := by decide
  refine ⟨ht, hlt, hu, hlu, hdynamic, hint, hname, ?_, ?_, ?_⟩
  · refine (conformsTo_arrays_iff_name ht hlt hdynamic 2).1.2 ⟨function.toTypename, ?_⟩
    exact ⟨TypeShape.built_toTypename (by decide), by decide, by decide, .inl rfl⟩
  · exact ((conformsTo_arrays_iff_name hu hlu hint 2).2 (by decide)).2 (by decide)
  · rw [← Bool.not_eq_true, (conformsTo_arrays_iff_name ht hlt hint 2).2 (by decide), hname]
    decide

end Typename
end LangCore
