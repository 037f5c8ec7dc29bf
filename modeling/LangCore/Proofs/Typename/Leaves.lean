import Mathlib
import LangCore.Proofs.Typename.Names
import LangCore.Proofs.Typename.Nodes

/-!
# Leaves of typenames

The leaves of a typename are the basic typenames in it. Substitution puts a
replacement for some leaves and computes anew what stands above them, so a
typename that the building functions made is kept as it is where no leaf is
replaced, and what two substitutions do is known from what they do to a leaf.
-/

namespace LangCore.Typename

/-- The basic typenames in a typename, in the order of its nodes. -/
def leaves (t : Typename) : List Typename :=
  t.nodes.filter fun u => u.kind = .basic

@[simp] theorem leaves_basic (label : Label) : (basic label).leaves = [basic label] := by
  rw [leaves, nodes_eq]
  rfl

theorem leaves_of_kind_ne {t : Typename} (h : t.kind ≠ .basic) :
    t.leaves = t.children.flatMap leaves := by
  rw [leaves, nodes_eq, List.filter_cons_of_neg (by simpa using h), List.filter_flatMap]
  rfl

variable {param : String} {replacement : Typename}

theorem substitute_of_name_eq {label : Label} (h : label.name = param) :
    (basic label).substitute param replacement = replacement := by
  rw [substitute, if_pos h]

theorem substitute_of_name_ne {label : Label} (h : label.name ≠ param) :
    (basic label).substitute param replacement = basic label := by
  rw [substitute, if_neg h]

/-- The leaves of an instance: those of the replacement stand where leaves of the given name
stood. -/
theorem leaves_substitute (t : Typename) :
    (t.substitute param replacement).leaves =
      t.leaves.flatMap fun leaf => if leaf.name = param then replacement.leaves else [leaf] := by
  induction t using induction_children with
  | node t ih =>
    by_cases hkind : t.kind = .basic
    · obtain ⟨label, rfl⟩ : ∃ label, t = basic label := ⟨_, eq_basic_of_kind hkind⟩
      have hname : (basic label).name = label.name := rfl
      rw [leaves_basic, List.flatMap_singleton, hname]
      split
      · rename_i h
        rw [substitute_of_name_eq h]
      · rename_i h
        rw [substitute_of_name_ne h, leaves_basic]
    · have hrebuilt : (t.rebuild (substitute · param replacement)).kind ≠ .basic := by
        rwa [kind_rebuild]
      rw [substitute_eq_rebuild hkind, leaves_of_kind_ne hrebuilt, children_rebuild,
        leaves_of_kind_ne hkind, List.flatMap_map, List.flatMap_assoc]
      exact List.flatMap_congr ih

/-- Where no leaf has the given name nothing is replaced, and every label is computed as it is. -/
theorem Built.substitute_eq_self {t : Typename} (h : t.Built)
    (hleaves : ∀ leaf ∈ t.leaves, leaf.name ≠ param) : t.substitute param replacement = t := by
  induction t using induction_children with
  | node t ih =>
    by_cases hkind : t.kind = .basic
    · obtain ⟨label, rfl⟩ : ∃ label, t = basic label := ⟨_, eq_basic_of_kind hkind⟩
      exact substitute_of_name_ne (hleaves (basic label) (by simp))
    · have hparts : ∀ c ∈ t.children, c.substitute param replacement = id c := by
        intro c hc
        refine ih c hc (h.of_mem_children hc) fun leaf hleaf => hleaves leaf ?_
        rw [leaves_of_kind_ne hkind]
        exact List.mem_flatMap.2 ⟨c, hc, hleaf⟩
      rw [substitute_eq_rebuild hkind, rebuild_congr hparts, h.rebuild_id]

theorem name_ne_of_mem_leaves_substitute {t : Typename}
    (hreplacement : ∀ leaf ∈ replacement.leaves, leaf.name ≠ param) :
    ∀ leaf ∈ (t.substitute param replacement).leaves, leaf.name ≠ param := by
  intro leaf hleaf
  rw [leaves_substitute, List.mem_flatMap] at hleaf
  obtain ⟨origin, -, hleaf⟩ := hleaf
  split at hleaf
  · exact hreplacement leaf hleaf
  · rename_i hne
    rwa [List.mem_singleton.1 hleaf]

/-- A substitution replaces the leaves of the given name, each by all leaves of the replacement,
and keeps the others. Without such a leaf it changes nothing, and so does a second substitution for
the same name behind one whose replacement has no leaf of that name. -/
theorem substitute_acts_on_leaves {t replacement : Typename} (ht : t.Built)
    (hreplacement : replacement.Built) (param : String) :
    (t.substitute param replacement).leaves =
      t.leaves.flatMap (fun leaf => if leaf.name = param then replacement.leaves else [leaf]) ∧
    ((∀ leaf ∈ t.leaves, leaf.name ≠ param) → t.substitute param replacement = t) ∧
    ((∀ leaf ∈ replacement.leaves, leaf.name ≠ param) →
      (∀ leaf ∈ (t.substitute param replacement).leaves, leaf.name ≠ param) ∧
      ∀ other, (t.substitute param replacement).substitute param other =
        t.substitute param replacement) := by
  refine ⟨leaves_substitute t, ht.substitute_eq_self, fun h => ?_⟩
  have hleaves := name_ne_of_mem_leaves_substitute (t := t) h
  exact ⟨hleaves, fun other => (ht.substitute hreplacement param).substitute_eq_self hleaves⟩

/-- In a function to maps the parameter is replaced at both of its leaves by the two leaves of a box
of lists; a name that no leaf has is replaced nowhere. -/
theorem substitute_acts_on_leaves_of_function :
    let map := TypeShape.parametric (.basic "Map") [.basic "T", .basic "int"]
    let t := (TypeShape.function map [.basic "T"]).toTypename
    let box := (TypeShape.parametric (.basic "Box") [.basic "V"]).toTypename
    t.Built ∧ box.Built ∧ (∀ leaf ∈ t.leaves, leaf.name ≠ "U") ∧
      (∀ leaf ∈ box.leaves, leaf.name ≠ "T") ∧
      (t.substitute "T" box).leaves.map name = ["Box", "V", "Map", "Box", "V", "int"] ∧
      t.substitute "U" box = t ∧
      (∀ leaf ∈ (t.substitute "T" box).leaves, leaf.name ≠ "T") ∧
      ∀ other, (t.substitute "T" box).substitute "T" other = t.substitute "T" box := by
  intro map t box
  have ht : t.Built := TypeShape.built_toTypename (by decide)
  have hbox : box.Built := TypeShape.built_toTypename (by decide)
  have habsent : ∀ leaf ∈ t.leaves, leaf.name ≠ "U" := by decide +kernel
  have hother : ∀ leaf ∈ box.leaves, leaf.name ≠ "T" := by decide +kernel
  obtain ⟨hreplaced, -, hagain⟩ := substitute_acts_on_leaves ht hbox "T"
  have hnames : (t.substitute "T" box).leaves.map name =
      ["Box", "V", "Map", "Box", "V", "int"] := by
    rw [hreplaced]
    decide +kernel
  exact ⟨ht, hbox, habsent, hother, hnames,
    (substitute_acts_on_leaves ht hbox "U").2.1 habsent, hagain hother⟩

/-- Two substitutions can change places if the later one is carried out in the replacement of the
earlier one, too, and its own replacement has no leaf that the earlier one replaces. -/
theorem substitute_substitute {p q : String} {b : Typename} (hpq : p ≠ q) (hb : b.Built)
    (hleaves : ∀ leaf ∈ b.leaves, leaf.name ≠ p) (t a : Typename) :
    (t.substitute p a).substitute q b =
      (t.substitute q b).substitute p (a.substitute q b) := by
  induction t using induction_children with
  | node t ih =>
    by_cases hkind : t.kind = .basic
    · obtain ⟨label, rfl⟩ : ∃ label, t = basic label := ⟨_, eq_basic_of_kind hkind⟩
      by_cases hp : label.name = p
      · have hq : label.name ≠ q := by rwa [hp]
        rw [substitute_of_name_eq hp, substitute_of_name_ne hq, substitute_of_name_eq hp]
      · rw [substitute_of_name_ne hp]
        by_cases hq : label.name = q
        · rw [substitute_of_name_eq hq, hb.substitute_eq_self hleaves]
        · rw [substitute_of_name_ne hq, substitute_of_name_ne hp]
    · have htwice (p q : String) (a b : Typename) : (t.substitute p a).substitute q b =
          t.rebuild fun c => (c.substitute p a).substitute q b := by
        rw [substitute_eq_rebuild hkind, substitute_eq_rebuild (by rwa [kind_rebuild]),
          rebuild_rebuild]
        rfl
      rw [htwice, htwice]
      exact rebuild_congr ih

/-- A map with optional values, in which a function takes the place of the one parameter, and a
reference that of the other one, in the map and in the function. -/
theorem substitute_substitute_function_reference :
    let map := TypeShape.parametric (.basic "Map") [.basic "U", .optional (.basic "T")]
    let t := map.toTypename
    let a := (TypeShape.function (.basic "U") []).toTypename
    let b := (TypeShape.reference "mut" "" (.basic "int")).toTypename
    "T" ≠ "U" ∧ b.Built ∧ (∀ leaf ∈ b.leaves, leaf.name ≠ "T") ∧
      (t.substitute "T" a).substitute "U" b =
        (t.substitute "U" b).substitute "T" (a.substitute "U" b) ∧
      ((t.substitute "T" a).substitute "U" b).name = "Map<&mut int, (fn() &mut int)?>" := by
  intro map t a b
  have hb : b.Built := TypeShape.built_toTypename (by decide)
  have hleaves : ∀ leaf ∈ b.leaves, leaf.name ≠ "T" := by decide +kernel
  exact ⟨by decide, hb, hleaves, substitute_substitute (by decide) hb hleaves t a, by decide⟩

end LangCore.Typename
