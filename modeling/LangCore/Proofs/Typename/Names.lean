import Mathlib
import LangCore.Proofs.Typename.Reading

/-!
# What names tell apart

Typenames are compared by name. Two of them are equal exactly when their shapes
agree once groups in front of suffixes are dissolved, so a name belongs to one
shape alone if no function or reference stands in front of a suffix in it.
-/

namespace LangCore
namespace TypeShape

theorem chars_injective_collapse {t u : TypeShape} (ht : t.Lexical) (hu : u.Lexical) :
    t.chars = u.chars ↔ t.collapse = u.collapse := by
  constructor
  · intro h
    have hwords (v : TypeShape) : v.Every fun w => w.permissionIn (fun _ => true) = true := by
      intro w _
      cases w <;> simp [permissionIn]
    have hend : Ends [] := by rintro c ⟨⟩
    have hread {v : TypeShape} (hv : v.Lexical) :
        (NameReader.mk fun _ => true).readType v.chars = some (v.collapse, []) := by
      simpa using (readsBack_and_operand (r := ⟨_⟩) hv (hwords v)).1 [] hend (Or.inl (by simp))
    have heq := (hread ht).symm.trans ((congrArg _ h).trans (hread hu))
    exact (Prod.mk.inj (Option.some.inj heq)).1
  · intro h
    rw [← chars_collapse t, h, chars_collapse]

/-- Whether a suffix of this node follows a function or a reference, bare or as the only element
of a tuple. -/
def groupsAt : TypeShape → Bool
  | parametric constructor _ => constructor.ungroup.isOpen
  | optional wrapped => wrapped.ungroup.isOpen
  | _ => false

/-- The other way to write a shape in front of a suffix. -/
def regroup (t : TypeShape) : TypeShape :=
  if t.isOpen then tuple [t] else t.ungroup

theorem ungroup_of_closed {t : TypeShape} (h : t.ungroup.isOpen = false) : t.ungroup = t := by
  unfold ungroup at h ⊢
  split
  · rename_i u
    split
    · rename_i hu
      simp [hu] at h
    · rfl
  · rfl

theorem collapse_ungroup (t : TypeShape) : t.collapse.ungroup = t.ungroup.collapse := by
  cases t with
  | tuple elements =>
    match elements with
    | [] => rfl
    | [u] =>
      simp only [collapse, collapseAll, ungroup, isOpen_collapse]
      split <;> simp [collapse]
    | _ :: _ :: _ => simp [collapse, ungroup]
  | _ => simp [collapse, ungroup]

theorem regroup_ne {t : TypeShape} (h : t.ungroup.isOpen = true) : t.regroup ≠ t := by
  unfold regroup
  split
  · intro heq
    have hsize := congrArg sizeOf heq
    simp only [tuple.sizeOf_spec, List.cons.sizeOf_spec, List.nil.sizeOf_spec] at hsize
    omega
  · rename_i hclosed
    intro heq
    rw [heq] at h
    exact hclosed h

theorem ungroup_regroup {t : TypeShape} (h : t.ungroup.isOpen = true) :
    t.regroup.ungroup = t.ungroup := by
  unfold regroup
  split
  · rename_i hopen
    rw [ungroup_of_isOpen hopen, ungroup, if_pos hopen]
  · exact ungroup_of_isOpen h

theorem Lexical.regroup {t : TypeShape} (h : t.Lexical) : t.regroup.Lexical := by
  unfold TypeShape.regroup
  split
  · exact lexical_iff.2 ⟨rfl, List.forall_mem_singleton.2 h⟩
  · unfold ungroup
    split
    · split
      · exact h.of_mem_children List.mem_cons_self
      · exact h
    · exact h

theorem ungroup_ungroup (t : TypeShape) : t.ungroup.ungroup = t.ungroup := by
  rcases Bool.eq_false_or_eq_true t.ungroup.isOpen with h | h
  · exact ungroup_of_isOpen h
  · rw [ungroup_of_closed h, ungroup_of_closed h]

theorem collapse_mapChildren {f : TypeShape → TypeShape} {t : TypeShape}
    (h : ∀ c ∈ t.children, (f c).collapse = c.collapse) :
    (t.mapChildren f).collapse = t.collapse := by
  have hall : ∀ ts : List TypeShape, (∀ c ∈ ts, c ∈ t.children) →
      (ts.map f).map collapse = ts.map collapse := by
    intro ts hts
    rw [List.map_map]
    exact List.map_congr_left fun c hc => h c (hts c hc)
  cases t with
  | basic name => rfl
  | parametric constructor params =>
    simp only [mapChildren, collapse, collapseAll_eq_map]
    rw [h constructor List.mem_cons_self, hall params fun c hc => List.mem_cons_of_mem _ hc]
  | tuple elements =>
    simp only [mapChildren, collapse, collapseAll_eq_map]
    rw [hall elements fun c hc => hc]
  | function result args =>
    simp only [mapChildren, collapse, collapseAll_eq_map]
    rw [h result (by simp [children]), hall args fun c hc => by simp [children, hc]]
  | reference permission region referent =>
    rw [mapChildren, collapse, collapse, h referent List.mem_cons_self]
  | optional wrapped =>
    rw [mapChildren, collapse, collapse, h wrapped List.mem_cons_self]

theorem collapse_eq_mapChildren {t : TypeShape} (h : t.groupsAt = false) :
    t.collapse = t.mapChildren collapse := by
  cases t with
  | parametric constructor params =>
    rw [collapse, collapse_ungroup, ungroup_of_closed h, collapseAll_eq_map, mapChildren]
  | optional wrapped => rw [collapse, collapse_ungroup, ungroup_of_closed h, mapChildren]
  | _ => simp [collapse, mapChildren]

theorem groupsAt_collapse (t : TypeShape) : t.collapse.groupsAt = t.groupsAt := by
  cases t <;> simp [collapse, groupsAt, collapse_ungroup, ungroup_ungroup]

theorem collapse_eq_self {t : TypeShape} (h : t.Every fun v => v.groupsAt = false) :
    t.collapse = t := by
  induction t using induction_children with
  | node t ih =>
    obtain ⟨hat, hchildren⟩ := every_iff.1 h
    rw [collapse_eq_mapChildren hat, mapChildren_eq_self_iff]
    exact fun c hc => ih c hc (hchildren c hc)

/-- A dissolved form without groups is that of no other shape. -/
theorem every_of_every_collapse {t : TypeShape}
    (h : t.collapse.Every fun v => v.groupsAt = false) :
    t.Every fun v => v.groupsAt = false := by
  induction t using induction_children with
  | node t ih =>
    obtain ⟨hat, hchildren⟩ := every_iff.1 h
    rw [groupsAt_collapse] at hat
    rw [collapse_eq_mapChildren hat, children_mapChildren] at hchildren
    exact every_iff.2 ⟨hat, fun c hc => ih c hc (hchildren _ (List.mem_map_of_mem hc))⟩

theorem eq_of_collapse_eq {t u : TypeShape} (h : t.Every fun v => v.groupsAt = false)
    (heq : u.collapse = t.collapse) : u = t := by
  have ht : t.collapse = t := collapse_eq_self h
  have hu : u.collapse = u := by
    apply collapse_eq_self
    apply every_of_every_collapse
    rwa [heq, ht]
  rw [← hu, heq, ht]

theorem exists_ne_of_groupsAt {t : TypeShape} (hlex : t.Lexical) (hat : t.groupsAt = true) :
    ∃ u : TypeShape, u.Lexical ∧ u.collapse = t.collapse ∧ u ≠ t := by
  cases t with
  | parametric constructor params =>
    refine ⟨parametric constructor.regroup params, ?_, ?_, ?_⟩
    · refine lexical_iff.2 ⟨rfl, List.forall_mem_cons.2 ⟨?_, fun p hp => ?_⟩⟩
      · exact (hlex.of_mem_children List.mem_cons_self).regroup
      · exact hlex.of_mem_children (List.mem_cons_of_mem _ hp)
    · rw [collapse, collapse, collapse_ungroup, ungroup_regroup hat, collapse_ungroup]
    · intro heq
      injection heq with hc
      exact regroup_ne hat hc
  | optional wrapped =>
    refine ⟨optional wrapped.regroup, ?_, ?_, ?_⟩
    · refine lexical_iff.2 ⟨rfl, List.forall_mem_singleton.2 ?_⟩
      exact (hlex.of_mem_children List.mem_cons_self).regroup
    · rw [collapse, collapse, collapse_ungroup, ungroup_regroup hat, collapse_ungroup]
    · intro heq
      injection heq with hw
      exact regroup_ne hat hw
  | _ => exact absurd hat Bool.false_ne_true

/-- Another shape for a part of a node gives another shape for the node. -/
theorem exists_ne_of_mem_children {t c u : TypeShape} (hlex : t.Lexical) (hc : c ∈ t.children)
    (hu : u.Lexical) (hcollapse : u.collapse = c.collapse) (hne : u ≠ c) :
    ∃ w : TypeShape, w.Lexical ∧ w.collapse = t.collapse ∧ w ≠ t := by
  classical
  let f : TypeShape → TypeShape := fun d => if d = c then u else d
  refine ⟨t.mapChildren f, ?_, ?_, ?_⟩
  · refine lexical_iff.2 ⟨?_, ?_⟩
    · rw [lexicalAt_mapChildren]
      exact (lexical_iff.1 hlex).1
    · rw [children_mapChildren]
      intro d hd
      obtain ⟨e, he, rfl⟩ := List.mem_map.1 hd
      by_cases hec : e = c
      · simpa [f, hec] using hu
      · simpa [f, hec] using hlex.of_mem_children he
  · apply collapse_mapChildren
    intro e _
    by_cases hec : e = c
    · simp [f, hec, hcollapse]
    · simp [f, hec]
  · intro heq
    have hfixed := mapChildren_eq_self_iff.1 heq c hc
    exact hne (by simpa [f] using hfixed)

/-- A shape with a group in front of a suffix shares its dissolved form with another shape. -/
theorem exists_ne_of_groups {t : TypeShape} (hlex : t.Lexical)
    (h : ¬ t.Every fun u => u.groupsAt = false) :
    ∃ u : TypeShape, u.Lexical ∧ u.collapse = t.collapse ∧ u ≠ t := by
  induction t using induction_children with
  | node t ih =>
    by_cases hat : t.groupsAt = true
    · exact exists_ne_of_groupsAt hlex hat
    · obtain ⟨c, hc, hgroups⟩ : ∃ c ∈ t.children, ¬ c.Every fun u => u.groupsAt = false := by
        by_contra hnone
        push Not at hnone
        exact h (every_iff.2 ⟨Bool.eq_false_iff.2 hat, hnone⟩)
      obtain ⟨u, hu, hcollapse, hne⟩ := ih c hc (hlex.of_mem_children hc) hgroups
      exact exists_ne_of_mem_children hlex hc hu hcollapse hne

mutual

/-- A typename of the shape. Its tokens come from no source. -/
def toTypename : TypeShape → Typename
  | basic name => .basic ⟨name, .synthetic name⟩
  | parametric constructor params => constructor.toTypename.parametricOf (toTypenames params)
  | tuple elements => .tupleOf (toTypenames elements) (.synthetic "(")
  | function result args => result.toTypename.functionOf (toTypenames args)
  | reference permission region referent =>
    .referenceTo (.synthetic permission) (.synthetic region) referent.toTypename
  | optional wrapped => wrapped.toTypename.optionalOf

def toTypenames : List TypeShape → List Typename
  | [] => []
  | t :: rest => t.toTypename :: toTypenames rest

end

@[simp] theorem toTypenames_eq_map (ts : List TypeShape) :
    toTypenames ts = ts.map toTypename := by
  induction ts with
  | nil => rfl
  | cons t ts ih => simp [toTypenames, ih]

@[simp] theorem shape_toTypename (t : TypeShape) : t.toTypename.shape = t := by
  have hmap (ts : List TypeShape) (h : ∀ u ∈ ts, u.toTypename.shape = u) :
      (ts.map toTypename).map Typename.shape = ts := by
    rw [List.map_map]
    exact (List.map_congr_left h).trans (List.map_id ts)
  induction t with
  | basic name => rfl
  | parametric constructor params ihc ihp => simp [toTypename, ihc, hmap params ihp]
  | tuple elements ih => simp [toTypename, hmap elements ih]
  | function result args ihr iha => simp [toTypename, ihr, hmap args iha]
  | reference permission region referent ih => simp [toTypename, ih, Token.synthetic]
  | optional wrapped ih => simp [toTypename, ih]

theorem built_toTypename {t : TypeShape} (h : t.Lexical) : t.toTypename.Built := by
  have hmap (ts : List TypeShape) (h : ∀ u ∈ ts, u.toTypename.Built) :
      ∀ a ∈ ts.map toTypename, a.Built := by
    intro a ha
    obtain ⟨u, hu, rfl⟩ := List.mem_map.1 ha
    exact h u hu
  induction t with
  | basic name =>
    obtain ⟨c, rest, hs, -⟩ := exists_cons_of_isIdentifier (lexical_iff.1 h).1
    have hne : name.isEmpty = false := by
      rw [← Bool.not_eq_true, String.isEmpty_iff]
      rintro rfl
      cases hs
    have hnamed : Typename.named name (.synthetic name) = .ok (basic name).toTypename := by
      rw [Typename.named, hne]
      rfl
    exact .named hnamed
  | parametric constructor params ihc ihp =>
    rw [toTypename, toTypenames_eq_map]
    refine .parametricOf (ihc (h.of_mem_children List.mem_cons_self)) (hmap params ?_)
    exact fun p hp => ihp p hp (h.of_mem_children (List.mem_cons_of_mem _ hp))
  | tuple elements ih =>
    rw [toTypename, toTypenames_eq_map]
    exact .tupleOf (hmap elements fun e he => ih e he (h.of_mem_children he))
  | function result args ihr iha =>
    rw [toTypename, toTypenames_eq_map]
    refine .functionOf (ihr (h.of_mem_children (by simp [children]))) (hmap args ?_)
    exact fun a ha => iha a ha (h.of_mem_children (by simp [children, ha]))
  | reference permission region referent ih =>
    exact .referenceTo (ih (h.of_mem_children List.mem_cons_self))
  | optional wrapped ih => exact .optionalOf (ih (h.of_mem_children List.mem_cons_self))

end TypeShape

namespace Typename

theorem name_eq_iff_chars {a b : Typename} (ha : a.Built) (hb : b.Built) :
    a.name = b.name ↔ a.shape.chars = b.shape.chars := by
  rw [← ha.toList_name, ← hb.toList_name]
  exact String.toList_inj.symm

/-- Equality of typenames is equality of structure up to groups in front of suffixes. -/
theorem beq_iff_collapse_shape_eq {a b : Typename} (ha : a.Built) (hb : b.Built)
    (hla : a.shape.Lexical) (hlb : b.shape.Lexical) :
    (a == b) = true ↔ a.shape.collapse = b.shape.collapse := by
  rw [beq_eq, beq_iff_eq, name_eq_iff_chars ha hb]
  exact TypeShape.chars_injective_collapse hla hlb

/-- A map of an optional function, with and without a group around the function. -/
theorem beq_of_group_in_front_of_suffix :
    let function := TypeShape.function (.basic "int") [.reference "mut" "'a" (.basic "T")]
    let bare := (TypeShape.parametric (.basic "Map") [.optional function]).toTypename
    let grouped := (TypeShape.parametric (.basic "Map") [.optional (.tuple [function])]).toTypename
    bare.Built ∧ grouped.Built ∧ bare.shape.Lexical ∧ grouped.shape.Lexical ∧
      (bare == grouped) = true := by
  intro function bare grouped
  have hbare : bare.Built := TypeShape.built_toTypename (by decide)
  have hgrouped : grouped.Built := TypeShape.built_toTypename (by decide)
  have hlexBare : bare.shape.Lexical := by decide
  have hlexGrouped : grouped.shape.Lexical := by decide
  exact ⟨hbare, hgrouped, hlexBare, hlexGrouped,
    (beq_iff_collapse_shape_eq hbare hgrouped hlexBare hlexGrouped).2 rfl⟩

/-- A name belongs to one structure alone exactly when no function or reference, bare or as the
only element of a tuple, stands in front of a suffix in it. -/
theorem name_determines_shape_iff {a : Typename} (ha : a.Built) (hla : a.shape.Lexical) :
    (∀ b : Typename, b.Built → b.shape.Lexical → b.name = a.name → b.shape = a.shape) ↔
      a.shape.Every fun u => u.groupsAt = false := by
  constructor
  · intro h
    by_contra hgroups
    obtain ⟨u, hu, hcollapse, hne⟩ := TypeShape.exists_ne_of_groups hla hgroups
    have hbuilt := TypeShape.built_toTypename hu
    have hchars : u.toTypename.shape.chars = a.shape.chars := by
      rw [TypeShape.shape_toTypename]
      exact (TypeShape.chars_injective_collapse hu hla).2 hcollapse
    have hshape := h u.toTypename hbuilt (by rwa [TypeShape.shape_toTypename])
      ((name_eq_iff_chars hbuilt ha).2 hchars)
    rw [TypeShape.shape_toTypename] at hshape
    exact hne hshape
  · intro hgroups b hb hlb hname
    apply TypeShape.eq_of_collapse_eq hgroups
    exact (TypeShape.chars_injective_collapse hlb hla).1 ((name_eq_iff_chars hb ha).1 hname)

/-- A tuple of one function is told apart where no suffix follows it. -/
theorem shape_eq_of_name_eq_tuple_of_function :
    let group := (TypeShape.tuple [.function (.basic "int") []]).toTypename
    group.Built ∧ group.shape.Lexical ∧
      ∀ b : Typename, b.Built → b.shape.Lexical → b.name = group.name →
        b.shape = group.shape := by
  intro group
  have hgroup : group.Built := TypeShape.built_toTypename (by decide)
  have hlex : group.shape.Lexical := by decide
  exact ⟨hgroup, hlex, (name_determines_shape_iff hgroup hlex).2 (by decide)⟩

/-- An optional function and an optional tuple of that function have different structures and one
name. -/
theorem exists_name_eq_shape_ne :
    ∃ a b : Typename, a.Built ∧ b.Built ∧ a.shape.Lexical ∧ b.shape.Lexical ∧
      a.name = b.name ∧ a.shape ≠ b.shape := by
  refine ⟨(TypeShape.optional (.function (.basic "int") [])).toTypename,
    (TypeShape.optional (.tuple [.function (.basic "int") []])).toTypename,
    TypeShape.built_toTypename (by decide), TypeShape.built_toTypename (by decide), by decide,
    by decide, by decide, ?_⟩
  simp

end Typename
end LangCore
