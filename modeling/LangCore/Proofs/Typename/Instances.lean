import Mathlib
import LangCore.Proofs.Typename.Congruence
import LangCore.Proofs.Typename.Leaves

/-!
# Instances differ

Names are flat texts, so what a replacement changes at one place might be made up
for at another one. It never is: read back, the name of an instance shows the
replacement at every leaf of the given name, and in front of a suffix no more than
a group around it can be missing. So an instance is the typename itself exactly
where no leaf is replaced, or each by a typename of its own name.
-/

namespace LangCore
namespace TypeShape

theorem exists_of_isOpen_ungroup_tuple {elements : List TypeShape}
    (h : (tuple elements).ungroup.isOpen = true) :
    ∃ t, elements = [t] ∧ (tuple elements).ungroup = t := by
  unfold ungroup at h ⊢
  split at h
  · split at h
    · rename_i heq hopen
      cases heq
      exact ⟨_, rfl, by simp [hopen]⟩
    · exact absurd h Bool.false_ne_true
  · exact absurd h Bool.false_ne_true

theorem ungroup_tuple_injective {elements elements' : List TypeShape}
    (h : (tuple elements).ungroup = (tuple elements').ungroup) : elements = elements' := by
  cases hopen : (tuple elements).ungroup.isOpen with
  | true =>
    obtain ⟨t, rfl, ht⟩ := exists_of_isOpen_ungroup_tuple hopen
    rw [h] at hopen
    obtain ⟨u, rfl, hu⟩ := exists_of_isOpen_ungroup_tuple hopen
    rw [← ht, h, hu]
  | false =>
    have hopen' : (tuple elements').ungroup.isOpen = false := by rw [← h, hopen]
    rw [ungroup_of_closed hopen, ungroup_of_closed hopen'] at h
    exact tuple.inj h

theorem eq_basic_of_ungroup_collapse {t : TypeShape} {name : String}
    (h : t.collapse.ungroup = basic name) : t = basic name := by
  have hclosed : t.collapse.ungroup.isOpen = false := by rw [h]; rfl
  rw [ungroup_of_closed hclosed] at h
  cases t with
  | basic name' => exact h
  | _ => simp [collapse] at h

variable {param : String} {replacement : TypeShape}

/-- An instance that reads like its shape in front of a suffix has parts that do. -/
theorem ungroup_collapse_children {t : TypeShape}
    (h : (t.substitute param replacement).collapse.ungroup = t.collapse.ungroup) :
    ∀ c ∈ t.children,
      (c.substitute param replacement).collapse.ungroup = c.collapse.ungroup := by
  have hmap {ts : List TypeShape} (hts : (ts.map (substitute · param replacement)).map collapse =
      ts.map collapse) :
      ∀ c ∈ ts, (c.substitute param replacement).collapse.ungroup = c.collapse.ungroup := by
    rw [List.map_map] at hts
    intro c hc
    exact congrArg ungroup (List.map_inj_left.1 hts c hc)
  cases t with
  | basic name => exact fun c hc => absurd hc List.not_mem_nil
  | parametric constructor params =>
    simp only [substitute, collapse, substituteAll_eq_map, collapseAll_eq_map] at h
    obtain ⟨hconstructor, hparams⟩ := parametric.inj h
    exact List.forall_mem_cons.2 ⟨hconstructor, hmap hparams⟩
  | tuple elements =>
    simp only [substitute, collapse, substituteAll_eq_map, collapseAll_eq_map] at h
    exact hmap (ungroup_tuple_injective h)
  | function result args =>
    simp only [substitute, collapse, substituteAll_eq_map, collapseAll_eq_map] at h
    obtain ⟨hresult, hargs⟩ := function.inj h
    exact List.forall_mem_append.2
      ⟨hmap hargs, List.forall_mem_singleton.2 (congrArg ungroup hresult)⟩
  | reference permission region referent =>
    simp only [substitute, collapse] at h
    exact List.forall_mem_singleton.2 (congrArg ungroup (reference.inj h).2.2)
  | optional wrapped =>
    simp only [substitute, collapse] at h
    exact List.forall_mem_singleton.2 (optional.inj h)

/-- A leaf that is replaced by another shape is seen to be, in front of a suffix as elsewhere. -/
theorem ungroup_collapse_substitute_ne {t : TypeShape} (hleaf : basic param ∈ t.nodes)
    (hreplacement : replacement ≠ basic param) :
    (t.substitute param replacement).collapse.ungroup ≠ t.collapse.ungroup := by
  intro h
  induction t using induction_children with
  | node t ih =>
    rw [nodes_eq, List.mem_cons, List.mem_flatMap] at hleaf
    rcases hleaf with rfl | ⟨c, hc, hleaf⟩
    · rw [substitute, if_pos rfl] at h
      exact hreplacement (eq_basic_of_ungroup_collapse h)
    · exact ih c hc hleaf (ungroup_collapse_children h c hc)

theorem substitute_eq_mapChildren {t : TypeShape} (h : t ≠ basic param) :
    t.substitute param replacement = t.mapChildren (substitute · param replacement) := by
  cases t with
  | basic name =>
    have hname : name ≠ param := fun heq => h (by rw [heq])
    rw [substitute, if_neg hname, mapChildren]
  | _ => simp [substitute, mapChildren]

theorem substitute_basic_self (t : TypeShape) : t.substitute param (basic param) = t := by
  induction t using induction_children with
  | node t ih =>
    by_cases h : t = basic param
    · rw [h, substitute, if_pos rfl]
    · rw [substitute_eq_mapChildren h, mapChildren_eq_self_iff]
      exact ih

theorem Lexical.substitute {t : TypeShape} (h : t.Lexical) (hreplacement : replacement.Lexical) :
    (t.substitute param replacement).Lexical := by
  induction t using induction_children with
  | node t ih =>
    by_cases hbasic : t = basic param
    · rwa [hbasic, TypeShape.substitute, if_pos rfl]
    · rw [substitute_eq_mapChildren hbasic, lexical_iff, lexicalAt_mapChildren,
        children_mapChildren, List.forall_mem_map]
      exact ⟨(lexical_iff.1 h).1, fun c hc => ih c hc (h.of_mem_children hc)⟩

end TypeShape

namespace Typename

theorem basic_mem_nodes_shape_iff {t : Typename} {name : String} :
    .basic name ∈ t.shape.nodes ↔ ∃ leaf ∈ t.leaves, leaf.name = name := by
  rw [nodes_shape, List.mem_map]
  constructor
  · rintro ⟨u, hu, hshape⟩
    cases u with
    | basic label =>
      exact ⟨basic label, List.mem_filter.2 ⟨hu, rfl⟩, TypeShape.basic.inj hshape⟩
    | _ => cases hshape
  · rintro ⟨leaf, hleaf, hname⟩
    obtain ⟨hmem, hkind⟩ := List.mem_filter.1 hleaf
    obtain ⟨label, rfl⟩ : ∃ label, leaf = basic label :=
      ⟨_, eq_basic_of_kind (by simpa using hkind)⟩
    exact ⟨_, hmem, congrArg TypeShape.basic hname⟩

theorem name_eq_iff_shape_eq_basic {t : Typename} (ht : t.Built) (hlt : t.shape.Lexical)
    {name : String} (hname : isIdentifier name = true) :
    t.name = name ↔ t.shape = .basic name := by
  rw [← String.toList_inj, ht.toList_name]
  constructor
  · intro h
    have hcollapse := (TypeShape.chars_injective_collapse hlt (TypeShape.lexical_basic hname)).1 h
    exact TypeShape.eq_basic_of_ungroup_collapse (congrArg TypeShape.ungroup hcollapse)
  · intro h
    rw [h, TypeShape.chars]

/-- An instance differs from the typename exactly if the typename has a leaf of the given name and
the replacement has another name. -/
theorem substitute_beq_eq_false_iff {t replacement : Typename} (ht : t.Built)
    (hreplacement : replacement.Built) (hlt : t.shape.Lexical)
    (hlr : replacement.shape.Lexical) (param : String) :
    (t.substitute param replacement == t) = false ↔
      (∃ leaf ∈ t.leaves, leaf.name = param) ∧ replacement.name ≠ param := by
  have hbuilt : (t.substitute param replacement).Built := ht.substitute hreplacement param
  have hshape := ht.shape_substitute param replacement
  by_cases hleaf : ∃ leaf ∈ t.leaves, leaf.name = param
  · have hmem := basic_mem_nodes_shape_iff.2 hleaf
    have hparam : isIdentifier param = true := hlt _ hmem
    rw [and_iff_right hleaf, Ne, name_eq_iff_shape_eq_basic hreplacement hlr hparam,
      ← Bool.not_eq_true, not_iff_not]
    constructor
    · intro hbeq
      by_contra hne
      have hlex : (t.substitute param replacement).shape.Lexical := by
        rw [hshape]
        exact hlt.substitute hlr
      have hcollapse := collapse_shape_eq_of_beq hbuilt ht hlex hlt hbeq
      rw [hshape] at hcollapse
      exact TypeShape.ungroup_collapse_substitute_ne hmem hne
        (congrArg TypeShape.ungroup hcollapse)
    · intro hbasic
      apply beq_of_collapse_shape_eq hbuilt ht
      rw [hshape, hbasic, TypeShape.substitute_basic_self]
  · have hself : t.substitute param replacement = t :=
      ht.substitute_eq_self fun leaf hmem hname => hleaf ⟨leaf, hmem, hname⟩
    rw [hself, beq_eq]
    simp [hleaf]

/-- A group around the parameter in front of a suffix, and a function in its place, which the same
group stands around. -/
theorem substitute_beq_eq_false_in_group :
    let t := (TypeShape.optional (.tuple [.basic "T"])).toTypename
    let function := (TypeShape.function (.basic "T") []).toTypename
    t.Built ∧ function.Built ∧ t.shape.Lexical ∧ function.shape.Lexical ∧
      (∃ leaf ∈ t.leaves, leaf.name = "T") ∧ function.name ≠ "T" ∧
      (t.substitute "T" function == t) = false := by
  intro t function
  have ht : t.Built := TypeShape.built_toTypename (by decide)
  have hfunction : function.Built := TypeShape.built_toTypename (by decide)
  have hlt : t.shape.Lexical := by decide
  have hlf : function.shape.Lexical := by decide
  have hleaf : ∃ leaf ∈ t.leaves, leaf.name = "T" := by decide +kernel
  have hname : function.name ≠ "T" := by decide
  exact ⟨ht, hfunction, hlt, hlf, hleaf, hname,
    (substitute_beq_eq_false_iff ht hfunction hlt hlf "T").2 ⟨hleaf, hname⟩⟩

end Typename
end LangCore
