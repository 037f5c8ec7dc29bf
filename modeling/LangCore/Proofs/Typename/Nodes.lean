import Mathlib
import LangCore.Proofs.Typename.Shape

/-!
# Nodes of typenames

The nodes of a typename are itself and everything that it is made of. Some
rewriting leaves a node as it is but for its direct parts, so that the node is
built anew from them: what such a rewriting does to a whole typename is known
from what it does to a basic typename and from how a node is rebuilt.
-/

namespace LangCore.Typename

theorem induction_children {motive : Typename → Prop}
    (node : ∀ t, (∀ c ∈ t.children, motive c) → motive t) (t : Typename) : motive t :=
  node t fun c _ => induction_children node c
termination_by sizeOf t
decreasing_by exact sizeOf_lt_of_mem_children ‹_›

/-- The typename and all that it is made of, every typename in front of its parts. -/
def nodes (t : Typename) : List Typename :=
  t :: t.children.attach.flatMap fun c => c.1.nodes
termination_by sizeOf t
decreasing_by exact sizeOf_lt_of_mem_children c.2

theorem nodes_eq (t : Typename) : t.nodes = t :: t.children.flatMap nodes := by
  rw [nodes]
  simp

theorem nodes_subset {t u : Typename} (h : u ∈ t.nodes) : u.nodes ⊆ t.nodes := by
  induction t using induction_children with
  | node t ih =>
    rw [nodes_eq t, List.mem_cons, List.mem_flatMap] at h
    rcases h with rfl | ⟨c, hc, hu⟩
    · exact List.Subset.refl _
    · intro v hv
      rw [nodes_eq t]
      exact List.mem_cons_of_mem _ (List.mem_flatMap.2 ⟨c, hc, ih c hc hu hv⟩)

theorem children_shape (t : Typename) : t.shape.children = t.children.map shape := by
  cases t <;> simp [shape, TypeShape.children, children]

theorem nodes_shape (t : Typename) : t.shape.nodes = t.nodes.map shape := by
  induction t using induction_children with
  | node t ih =>
    rw [TypeShape.nodes_eq, nodes_eq, children_shape, List.map_cons, List.flatMap_map,
      List.map_flatMap]
    exact congrArg _ (List.flatMap_congr ih)

theorem Built.of_mem_children {t c : Typename} (h : t.Built) (hc : c ∈ t.children) : c.Built := by
  cases h with
  | named h =>
    obtain rfl := eq_basic_of_named h
    exact absurd hc List.not_mem_nil
  | parametricOf hconstructor hparams =>
    rcases List.mem_cons.1 hc with rfl | hc
    · exact hconstructor
    · exact hparams c hc
  | tupleOf helements => exact helements c hc
  | functionOf hresult hargs =>
    rcases List.mem_append.1 hc with hc | hc
    · exact hargs c hc
    · rwa [List.mem_singleton.1 hc]
  | referenceTo hreferent => rwa [List.mem_singleton.1 hc]
  | optionalOf hwrapped => rwa [List.mem_singleton.1 hc]

theorem Built.of_mem_nodes {t u : Typename} (h : t.Built) (hu : u ∈ t.nodes) : u.Built := by
  induction t using induction_children with
  | node t ih =>
    rw [nodes_eq, List.mem_cons, List.mem_flatMap] at hu
    rcases hu with rfl | ⟨c, hc, hu⟩
    · exact h
    · exact ih c hc (h.of_mem_children hc) hu

/-- The node built anew from its parts, each of them replaced. A basic typename has no parts, and
a tuple keeps its parenthesis. -/
def rebuild (f : Typename → Typename) : Typename → Typename
  | basic label => basic label
  | parametric _ constructor params => parametricOf (f constructor) (params.map f)
  | tuple label elements => tupleOf (elements.map f) label.location
  | function _ result args => functionOf (f result) (args.map f)
  | reference _ permission region referent => referenceTo permission region (f referent)
  | optional _ wrapped => optionalOf (f wrapped)

variable {f g : Typename → Typename}

@[simp] theorem kind_rebuild (t : Typename) : (t.rebuild f).kind = t.kind := by
  cases t <;> rfl

@[simp] theorem children_rebuild (t : Typename) : (t.rebuild f).children = t.children.map f := by
  cases t <;> simp [rebuild, children, parametricOf, tupleOf, functionOf, referenceTo, optionalOf]

theorem rebuild_congr {t : Typename} (h : ∀ c ∈ t.children, f c = g c) :
    t.rebuild f = t.rebuild g := by
  cases t with
  | basic label => rfl
  | parametric label constructor params =>
    obtain ⟨hconstructor, hparams⟩ := List.forall_mem_cons.1 h
    rw [rebuild, rebuild, hconstructor, List.map_congr_left hparams]
  | tuple label elements =>
    have helements : elements.map f = elements.map g := List.map_congr_left h
    rw [rebuild, rebuild, helements]
  | function label result args =>
    obtain ⟨hargs, hresult⟩ := List.forall_mem_append.1 h
    rw [rebuild, rebuild, List.forall_mem_singleton.1 hresult, List.map_congr_left hargs]
  | reference label permission region referent =>
    rw [rebuild, rebuild, List.forall_mem_singleton.1 h]
  | optional label wrapped => rw [rebuild, rebuild, List.forall_mem_singleton.1 h]

theorem rebuild_rebuild (t : Typename) : (t.rebuild f).rebuild g = t.rebuild (g ∘ f) := by
  cases t <;> simp [rebuild, parametricOf, tupleOf, functionOf, referenceTo, optionalOf]

/-- A typename that the building functions made has the labels that it would get again. -/
theorem Built.rebuild_id {t : Typename} (h : t.Built) : t.rebuild id = t := by
  cases h with
  | named h =>
    obtain rfl := eq_basic_of_named h
    rfl
  | parametricOf => rw [Typename.parametricOf, rebuild, List.map_id]; rfl
  | tupleOf => rw [Typename.tupleOf, rebuild, List.map_id]; rfl
  | functionOf => rw [Typename.functionOf, rebuild, List.map_id]; rfl
  | referenceTo => rfl
  | optionalOf => rfl

/-- Above the basic typenames, substitution rebuilds every node. -/
theorem substitute_eq_rebuild {t : Typename} (h : t.kind ≠ .basic) (param : String)
    (replacement : Typename) :
    t.substitute param replacement = t.rebuild (substitute · param replacement) := by
  cases t with
  | basic label => exact absurd rfl h
  | _ => simp [substitute, rebuild]

theorem eq_basic_of_kind {t : Typename} (h : t.kind = .basic) : t = basic t.label := by
  cases t with
  | basic label => rfl
  | _ => cases h

end LangCore.Typename
