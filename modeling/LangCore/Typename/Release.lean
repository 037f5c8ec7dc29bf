import LangCore.Typename.Basic
import LangCore.WorkList

/-!
# Releasing typenames

Taking a node apart moves its parts onto a work list and leaves a basic typename
behind.
-/

namespace LangCore.Typename

/-- The parts that move out of a node, in the order in which they are moved. -/
def detached : Typename → List Typename
  | basic _ => []
  | parametric _ constructor params => constructor :: params
  | tuple _ elements => elements
  | function _ result args => result :: args
  | reference _ _ _ referent => [referent]
  | optional _ wrapped => [wrapped]

def emptied (t : Typename) : Typename :=
  basic t.label

/-- The same parts as the children, though a result is moved before the arguments. -/
theorem detached_perm_children (t : Typename) : t.detached.Perm t.children := by
  cases t with
  | function _ result args => exact (List.perm_append_singleton result args).symm
  | _ => exact List.Perm.refl _

theorem pendingSize_detached_lt (t : Typename) : pendingSize t.detached < sizeOf t := by
  cases t with
  | basic label =>
    rw [detached, pendingSize_nil, basic.sizeOf_spec]
    omega
  | parametric _ _ ts | tuple _ ts | function _ _ ts =>
    have := pendingSize_lt_sizeOf ts
    simp only [detached, pendingSize_cons, parametric.sizeOf_spec, tuple.sizeOf_spec,
      function.sizeOf_spec]
    omega
  | reference | optional =>
    simp only [detached, pendingSize_cons, pendingSize_nil, reference.sizeOf_spec,
      optional.sizeOf_spec]
    omega

/-- The nodes of a typename in the order of their release. -/
def release (t : Typename) : List Typename :=
  releaseAll detached pendingSize_detached_lt [t]

end LangCore.Typename
