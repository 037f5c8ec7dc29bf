import Mathlib
import LangCore.Heap.ValueType
import LangCore.Proofs.Typename.Names
import LangCore.Proofs.Typename.Nodes

/-!
# Equal typenames are interchangeable

Equality looks at names, while instantiation and conformance work on the
structure behind them. Both are followed on shapes, where they turn out to
depend on the dissolved form alone: a group in front of a suffix stays one when
its element is instantiated, and it stands in nothing that an array type could
conform to.
-/

namespace LangCore
namespace TypeShape

mutual

/-- The shape with `replacement` for every basic shape named `param`. -/
def substitute (t : TypeShape) (param : String) (replacement : TypeShape) : TypeShape :=
  match t with
  | basic name => if name = param then replacement else basic name
  | parametric constructor params =>
    parametric (constructor.substitute param replacement) (substituteAll params param replacement)
  | tuple elements => tuple (substituteAll elements param replacement)
  | function result args =>
    function (result.substitute param replacement) (substituteAll args param replacement)
  | reference permission region referent =>
    reference permission region (referent.substitute param replacement)
  | optional wrapped => optional (wrapped.substitute param replacement)

def substituteAll (ts : List TypeShape) (param : String) (replacement : TypeShape) :
    List TypeShape :=
  match ts with
  | [] => []
  | t :: rest => t.substitute param replacement :: substituteAll rest param replacement

end

variable {param : String} {replacement : TypeShape}

@[simp] theorem substituteAll_eq_map (ts : List TypeShape) :
    substituteAll ts param replacement = ts.map (substitute · param replacement) := by
  induction ts with
  | nil => rfl
  | cons t ts ih => simp [substituteAll, ih]

theorem isOpen_substitute {t : TypeShape} (h : t.isOpen = true) :
    (t.substitute param replacement).isOpen = true := by
  cases t with
  | function | reference => rw [substitute]; rfl
  | _ => exact absurd h Bool.false_ne_true

theorem collapse_collapse (t : TypeShape) : t.collapse.collapse = t.collapse := by
  have hmap (ts : List TypeShape) (ih : ∀ u ∈ ts, u.collapse.collapse = u.collapse) :
      (ts.map collapse).map collapse = ts.map collapse := by
    rw [List.map_map]
    exact List.map_congr_left ih
  have hungroup {u : TypeShape} (ih : u.collapse.collapse = u.collapse) :
      u.collapse.ungroup.collapse.ungroup = u.collapse.ungroup := by
    rw [← collapse_ungroup, ih, ungroup_ungroup]
  induction t with
  | basic name => rfl
  | parametric constructor params ihc ihp => simp [collapse, hungroup ihc, hmap params ihp]
  | tuple elements ih => simp [collapse, hmap elements ih]
  | function result args ihr iha => simp [collapse, ihr, hmap args iha]
  | reference permission region referent ih => simp [collapse, ih]
  | optional wrapped ih => simp [collapse, hungroup ih]

theorem ungroup_collapse_substitute (t : TypeShape) :
    (t.ungroup.substitute param replacement).collapse.ungroup =
      (t.substitute param replacement).collapse.ungroup := by
  cases t with
  | tuple elements =>
    match elements with
    | [u] =>
      by_cases hu : u.isOpen = true
      · have hopen : (u.substitute param replacement).collapse.isOpen = true := by
          rw [isOpen_collapse]
          exact isOpen_substitute hu
        have hgroup : ((tuple [u]).substitute param replacement).collapse =
            tuple [(u.substitute param replacement).collapse] := by
          simp [substitute, collapse]
        rw [ungroup, if_pos hu, hgroup, ungroup_of_isOpen hopen, ungroup, if_pos hopen]
      · rw [ungroup, if_neg hu]
    | [] | _ :: _ :: _ => rfl
  | _ => rfl

/-- The dissolved form of an instance depends on dissolved forms alone. -/
theorem collapse_substitute (t : TypeShape) :
    (t.substitute param replacement).collapse =
      (t.collapse.substitute param replacement.collapse).collapse := by
  have hmap (ts : List TypeShape) (ih : ∀ u ∈ ts, (u.substitute param replacement).collapse =
      (u.collapse.substitute param replacement.collapse).collapse) :
      (ts.map (substitute · param replacement)).map collapse =
        ((ts.map collapse).map (substitute · param replacement.collapse)).map collapse := by
    simp only [List.map_map]
    exact List.map_congr_left ih
  induction t with
  | basic name =>
    rw [collapse, substitute, substitute]
    split
    · exact (collapse_collapse replacement).symm
    · rfl
  | parametric constructor params ihc ihp =>
    simp only [collapse, substitute, substituteAll_eq_map, collapseAll_eq_map]
    rw [ungroup_collapse_substitute, ihc, hmap params ihp]
  | tuple elements ih =>
    simp only [collapse, substitute, substituteAll_eq_map, collapseAll_eq_map]
    rw [hmap elements ih]
  | function result args ihr iha =>
    simp only [collapse, substitute, substituteAll_eq_map, collapseAll_eq_map]
    rw [ihr, hmap args iha]
  | reference permission region referent ih => simp only [collapse, substitute, ih]
  | optional wrapped ih =>
    simp only [collapse, substitute]
    rw [ungroup_collapse_substitute, ih]

/-- The parameter of a shape that applies `Array` to exactly one. -/
def arrayParam? : TypeShape → Option TypeShape
  | parametric constructor [param] =>
    if constructor.chars = "Array".toList then some param else none
  | _ => none

theorem enclose_chars_eq_iff (t : TypeShape) {text : List Char} (h : '(' ∉ text)
    (hfirst : text.head? ≠ some '&') : t.enclose t.chars = text ↔ t.chars = text := by
  unfold enclose
  split
  · rename_i hopen
    refine iff_of_false ?_ ?_
    · rintro rfl
      exact h List.mem_cons_self
    · rintro rfl
      cases t with
      | function result args => exact h (by simp [chars])
      | reference permission region referent => exact hfirst (by simp [chars])
      | _ => exact absurd hopen Bool.false_ne_true
  · rfl

theorem arrayParam?_collapse (t : TypeShape) :
    t.collapse.arrayParam? = t.arrayParam?.map collapse := by
  cases t with
  | parametric constructor params =>
    match params with
    | [param] =>
      have harray : constructor.collapse.ungroup.chars = "Array".toList ↔
          constructor.chars = "Array".toList := by
        rw [← enclose_chars_eq_iff _ (by decide) (by decide), enclose_chars_ungroup,
          enclose_chars_eq_iff _ (by decide) (by decide), chars_collapse]
      simp only [collapse, collapseAll, arrayParam?, harray]
      split <;> rfl
    | [] | _ :: _ :: _ => simp [collapse, collapseAll, arrayParam?]
  | _ => simp [collapse, arrayParam?]

end TypeShape

namespace ValueType

/-- Whether a value of the type may stand where a typename of the shape is expected. -/
def fits : ValueType → TypeShape → Bool
  | dynamic, _ => true
  | array element, t =>
    match t.arrayParam? with
    | some param => element.fits param
    | none => false
  | type, t => type.name.toList == t.chars

theorem fits_collapse (type : ValueType) (t : TypeShape) : type.fits t.collapse = type.fits t := by
  induction type generalizing t with
  | array element ih =>
    rw [fits, fits, TypeShape.arrayParam?_collapse]
    cases t.arrayParam? with
    | none => rfl
    | some param => exact ih param
  | _ => simp [fits, TypeShape.chars_collapse]

end ValueType

namespace Typename

/-- An instance has the instance of the shape. -/
theorem Built.shape_substitute {t : Typename} (h : t.Built) (param : String)
    (replacement : Typename) :
    (t.substitute param replacement).shape = t.shape.substitute param replacement.shape := by
  have hmap (ts : List Typename) (ih : ∀ u ∈ ts, (u.substitute param replacement).shape =
      u.shape.substitute param replacement.shape) :
      (ts.map (Typename.substitute · param replacement)).map shape =
        (ts.map shape).map (TypeShape.substitute · param replacement.shape) := by
    simp only [List.map_map]
    exact List.map_congr_left ih
  induction h with
  | @named name location t h =>
    obtain rfl := eq_basic_of_named h
    rw [Typename.substitute, shape, TypeShape.substitute]
    split <;> rfl
  | @parametricOf constructor params _ _ ihc ihp =>
    rw [shape_parametricOf, TypeShape.substitute, Typename.parametricOf, Typename.substitute]
    simp [ihc, hmap params ihp]
  | @tupleOf elements paren _ ih =>
    rw [shape_tupleOf, TypeShape.substitute, Typename.tupleOf, Typename.substitute]
    simp [hmap elements ih]
  | @functionOf result args _ _ ihr iha =>
    rw [shape_functionOf, TypeShape.substitute, Typename.functionOf, Typename.substitute]
    simp [ihr, hmap args iha]
  | referenceTo _ ih =>
    rw [shape_referenceTo, TypeShape.substitute, Typename.referenceTo, Typename.substitute]
    simp [ih]
  | optionalOf _ ih =>
    rw [shape_optionalOf, TypeShape.substitute, Typename.optionalOf, Typename.substitute]
    simp [ih]

theorem beq_of_collapse_shape_eq {t u : Typename} (ht : t.Built) (hu : u.Built)
    (h : t.shape.collapse = u.shape.collapse) : (t == u) = true := by
  rw [beq_eq, beq_iff_eq, name_eq_iff_chars ht hu, ← TypeShape.chars_collapse, h,
    TypeShape.chars_collapse]

/-- Lexically well-formed typenames that are equal have one dissolved form. -/
theorem collapse_shape_eq_of_beq {t u : Typename} (ht : t.Built) (hu : u.Built)
    (hlt : t.shape.Lexical) (hlu : u.shape.Lexical) (h : (t == u) = true) :
    t.shape.collapse = u.shape.collapse := by
  rw [beq_eq, beq_iff_eq, name_eq_iff_chars ht hu] at h
  exact (TypeShape.chars_injective_collapse hlt hlu).1 h

theorem Built.of_arrayParam? {t param : Typename} (h : t.Built)
    (hparam : ValueType.arrayParam? t = some param) : param.Built := by
  unfold ValueType.arrayParam? at hparam
  split at hparam
  · split at hparam
    · obtain rfl := Option.some.inj hparam
      exact h.of_mem_children (List.mem_cons_of_mem _ List.mem_cons_self)
    · cases hparam
  · cases hparam

theorem map_shape_arrayParam? {t : Typename} (h : t.Built) :
    (ValueType.arrayParam? t).map shape = t.shape.arrayParam? := by
  cases t with
  | parametric label constructor params =>
    have hname : constructor.name.toList = constructor.shape.chars :=
      (h.of_mem_children List.mem_cons_self).toList_name
    have harray : constructor.name = "Array" ↔ constructor.shape.chars = "Array".toList := by
      rw [← hname, String.toList_inj]
    match params with
    | [param] =>
      simp only [ValueType.arrayParam?, shape, shapes, TypeShape.arrayParam?, harray]
      split <;> rfl
    | [] | _ :: _ :: _ => simp [ValueType.arrayParam?, shape, shapes, TypeShape.arrayParam?]
  | _ => rfl

end Typename

theorem ValueType.conformsTo_eq_fits (type : ValueType) {t : Typename} (h : t.Built) :
    type.conformsTo t = type.fits t.shape := by
  have hbeq (a b : String) : (a.toList == b.toList) = (a == b) := by
    rw [Bool.eq_iff_iff, beq_iff_eq, beq_iff_eq, String.toList_inj]
  induction type generalizing t with
  | dynamic => rfl
  | array element ih =>
    rw [conformsTo, fits, ← Typename.map_shape_arrayParam? h]
    cases hparam : arrayParam? t with
    | none => rfl
    | some param => exact ih (h.of_arrayParam? hparam)
  | _ => simp only [conformsTo, fits, ← h.toList_name, hbeq]

namespace Typename

/-- Equal typenames have equal instances and the same values conform to them. -/
theorem substitute_beq_and_conformsTo_eq {t u r s : Typename}
    (ht : t.Built) (hu : u.Built) (hr : r.Built) (hs : s.Built)
    (hlt : t.shape.Lexical) (hlu : u.shape.Lexical)
    (hlr : r.shape.Lexical) (hls : s.shape.Lexical)
    (htu : (t == u) = true) (hrs : (r == s) = true) (param : String) (type : ValueType) :
    (t.substitute param r == u.substitute param s) = true ∧
      type.conformsTo t = type.conformsTo u := by
  have hshape : t.shape.collapse = u.shape.collapse := collapse_shape_eq_of_beq ht hu hlt hlu htu
  have hreplacement : r.shape.collapse = s.shape.collapse :=
    collapse_shape_eq_of_beq hr hs hlr hls hrs
  constructor
  · apply beq_of_collapse_shape_eq (ht.substitute hr param) (hu.substitute hs param)
    rw [ht.shape_substitute, hu.shape_substitute, TypeShape.collapse_substitute, hshape,
      hreplacement, ← TypeShape.collapse_substitute]
  · calc type.conformsTo t = type.fits t.shape.collapse := by
          rw [type.conformsTo_eq_fits ht, type.fits_collapse]
      _ = type.fits u.shape.collapse := by rw [hshape]
      _ = type.conformsTo u := by rw [type.fits_collapse, type.conformsTo_eq_fits hu]

/-- Arrays of an optional function that returns the parameter, instantiated with an optional
reference: in both, one of the two typenames has a group where the other has none. -/
theorem substitute_beq_of_group_in_front_of_suffix :
    let function := TypeShape.function (.basic "T") []
    let reference := TypeShape.reference "mut" "'a" (.basic "U")
    let t := (TypeShape.parametric (.basic "Array") [.optional function]).toTypename
    let u := (TypeShape.parametric (.basic "Array") [.optional (.tuple [function])]).toTypename
    let r := (TypeShape.optional reference).toTypename
    let s := (TypeShape.optional (.tuple [reference])).toTypename
    t.Built ∧ u.Built ∧ r.Built ∧ s.Built ∧
      t.shape.Lexical ∧ u.shape.Lexical ∧ r.shape.Lexical ∧ s.shape.Lexical ∧
      (t == u) = true ∧ (r == s) = true ∧
      (t.substitute "T" r == u.substitute "T" s) = true ∧
      (ValueType.array .dynamic).conformsTo t = (ValueType.array .dynamic).conformsTo u := by
  intro function reference t u r s
  have ht : t.Built := TypeShape.built_toTypename (by decide)
  have hu : u.Built := TypeShape.built_toTypename (by decide)
  have hr : r.Built := TypeShape.built_toTypename (by decide)
  have hs : s.Built := TypeShape.built_toTypename (by decide)
  have hlt : t.shape.Lexical := by decide
  have hlu : u.shape.Lexical := by decide
  have hlr : r.shape.Lexical := by decide
  have hls : s.shape.Lexical := by decide
  have htu : (t == u) = true := by decide
  have hrs : (r == s) = true := by decide
  exact ⟨ht, hu, hr, hs, hlt, hlu, hlr, hls, htu, hrs,
    substitute_beq_and_conformsTo_eq ht hu hr hs hlt hlu hlr hls htu hrs "T" (.array .dynamic)⟩

end Typename
end LangCore
