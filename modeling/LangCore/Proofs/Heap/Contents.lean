import Mathlib
import LangCore.Proofs.Heap.Sameness

/-!
# Contents of values

A value unfolds to a tree of what it holds, which does not mention handles.
Equality of two values in a heap of earlier handles is equality of these trees,
wherever the objects are kept, for all values from which no NaN and no handle to
nothing can be reached.
-/

namespace LangCore

/-- What a value holds: a primitive, the text of a string, or the contents of the values of an
array. -/
inductive Content
  | nil
  | bool (b : Bool)
  | int (n : Int64)
  | float (x : Binary64)
  | string (data : String)
  | array (items : List Content)

namespace Content

mutual

def same : Content → Content → Bool
  | nil, nil => true
  | bool a, bool b => a == b
  | int a, int b => a == b
  | float a, float b => a.equal b
  | string a, string b => a == b
  | array cs, array ds => sameAll cs ds
  | _, _ => false

def sameAll : List Content → List Content → Bool
  | [], [] => true
  | c :: cs, d :: ds => c.same d && sameAll cs ds
  | _, _ => false

end

theorem sameAll_iff {cs ds : List Content} :
    sameAll cs ds = true ↔ List.Forall₂ (fun c d => c.same d = true) cs ds := by
  induction cs generalizing ds with
  | nil => cases ds <;> simp [sameAll]
  | cons c cs ih => cases ds <;> simp [sameAll, ih]

end Content

theorem exists_forall₂ {α β : Type*} {R : α → β → Prop} {as : List α}
    (h : ∀ a ∈ as, ∃ b, R a b) : ∃ bs, List.Forall₂ R as bs := by
  induction as with
  | nil => exact ⟨[], .nil⟩
  | cons a as ih =>
    obtain ⟨b, hb⟩ := h a List.mem_cons_self
    obtain ⟨bs, hbs⟩ := ih fun a ha => h a (List.mem_cons_of_mem _ ha)
    exact ⟨b :: bs, .cons hb hbs⟩

theorem eq_of_forall₂ {α β : Type*} {R : α → β → Prop} {as : List α} {bs cs : List β}
    (h : ∀ a ∈ as, ∀ b c, R a b → R a c → b = c) (hbs : List.Forall₂ R as bs)
    (hcs : List.Forall₂ R as cs) : bs = cs := by
  induction hbs generalizing cs with
  | nil => exact (List.forall₂_nil_left_iff.1 hcs).symm
  | @cons a b as bs hhead htail ih =>
    cases hcs with
    | @cons _ c _ cs hhead' htail' =>
      rw [h a List.mem_cons_self b c hhead hhead',
        ih (fun a ha => h a (List.mem_cons_of_mem _ ha)) htail']

theorem forall₂_iff_of_forall₂ {α β : Type*} {R : α → β → Prop} {S : α → α → Prop}
    {T : β → β → Prop} {as as' : List α} {bs bs' : List β} (hbs : List.Forall₂ R as bs)
    (hbs' : List.Forall₂ R as' bs')
    (h : ∀ a ∈ as, ∀ a' ∈ as', ∀ b b', R a b → R a' b' → (S a a' ↔ T b b')) :
    List.Forall₂ S as as' ↔ List.Forall₂ T bs bs' := by
  induction hbs generalizing as' bs' with
  | nil => cases hbs' <;> simp
  | @cons a b as bs hhead htail ih =>
    cases hbs' with
    | nil => simp
    | @cons a' b' as' bs' hhead' htail' =>
      rw [List.forall₂_cons, List.forall₂_cons,
        h a List.mem_cons_self a' List.mem_cons_self b b' hhead hhead',
        ih htail' fun x hx x' hx' =>
          h x (List.mem_cons_of_mem _ hx) x' (List.mem_cons_of_mem _ hx')]

namespace Heap

/-- The contents that a value unfolds to; a handle to nothing has none. -/
inductive Unfolds (heap : Heap) : Value → Content → Prop
  | nil : Unfolds heap .nil .nil
  | bool (b : Bool) : Unfolds heap (.bool b) (.bool b)
  | int (n : Int64) : Unfolds heap (.int n) (.int n)
  | float (x : Binary64) : Unfolds heap (.float x) (.float x)
  | string {id : Handle} {data : String} (h : heap.get? id = some (.string data)) :
      Unfolds heap (.object id) (.string data)
  | array {id : Handle} {values : List Value} {items : List Content}
      (h : heap.get? id = some (.array values))
      (hitems : List.Forall₂ (Unfolds heap) values items) :
      Unfolds heap (.object id) (.array items)

/-- Whether a value is in the object that another one refers to. -/
def HasElement (heap : Heap) (v u : Value) : Prop :=
  ∃ o, heap.resolve? v = some o ∧ u ∈ o.values

/-- Whether neither a NaN nor a handle to nothing can be reached from a value. -/
def Clean (heap : Heap) (v : Value) : Prop :=
  ∀ u, Relation.ReflTransGen heap.HasElement v u → ¬ heap.Incomparable u

variable {heap : Heap}

theorem Clean.self {v : Value} (h : heap.Clean v) : ¬ heap.Incomparable v :=
  h v .refl

theorem hasElement_iff {id : Handle} {o : Object} (hid : heap.get? id = some o) {v : Value} :
    heap.HasElement (.object id) v ↔ v ∈ o.values := by
  simp [HasElement, resolve?, Value.handle?, hid]

theorem clean_primitive {v : Value} (hv : v.handle? = none) (h : ¬ heap.Incomparable v) :
    heap.Clean v := by
  intro u hu
  rcases hu.cases_head with rfl | ⟨_, ⟨o, ho, -⟩, -⟩
  · exact h
  · rw [resolve?, hv] at ho
    cases ho

theorem clean_object_iff {id : Handle} {o : Object} (hid : heap.get? id = some o) :
    heap.Clean (.object id) ↔ ∀ v ∈ o.values, heap.Clean v := by
  constructor
  · intro h v hv u hu
    exact h u (.head ((hasElement_iff hid).2 hv) hu)
  · intro h u hu
    rcases hu.cases_head with rfl | ⟨v, hv, hrest⟩
    · simp [Incomparable, hid]
    · exact h v ((hasElement_iff hid).1 hv) u hrest

theorem unfolds_string_iff {id : Handle} {data : String} {c : Content}
    (hid : heap.get? id = some (.string data)) :
    heap.Unfolds (.object id) c ↔ c = .string data := by
  constructor
  · intro hc
    cases hc with
    | string hdata =>
      cases hid.symm.trans hdata
      rfl
    | array hvalues _ => cases hid.symm.trans hvalues
  · rintro rfl
    exact .string hid

theorem unfolds_array_iff {id : Handle} {values : List Value} {c : Content}
    (hid : heap.get? id = some (.array values)) :
    heap.Unfolds (.object id) c ↔
      ∃ items, c = .array items ∧ List.Forall₂ heap.Unfolds values items := by
  constructor
  · intro hc
    cases hc with
    | string hdata => cases hid.symm.trans hdata
    | array hvalues hitems =>
      cases hid.symm.trans hvalues
      exact ⟨_, rfl, hitems⟩
  · rintro ⟨items, rfl, hitems⟩
    exact .array hid hitems

theorem Acyclic.exists_unfolds (h : heap.Acyclic) {v : Value} (hv : heap.Clean v) :
    ∃ c, heap.Unfolds v c := by
  induction v using h.value_induction with
  | primitive v hprimitive =>
    cases v with
    | nil => exact ⟨_, .nil⟩
    | bool b => exact ⟨_, .bool b⟩
    | int n => exact ⟨_, .int n⟩
    | float x => exact ⟨_, .float x⟩
    | object id => cases hprimitive
  | nothing id hid => exact absurd hid hv.self
  | live id o hid ih =>
    cases o with
    | string data => exact ⟨_, .string hid⟩
    | array values =>
      obtain ⟨items, hitems⟩ :=
        exists_forall₂ fun u hu => ih u hu ((clean_object_iff hid).1 hv u hu)
      exact ⟨_, .array hid hitems⟩

theorem Acyclic.unfolds_unique (h : heap.Acyclic) {v : Value} {c d : Content}
    (hc : heap.Unfolds v c) (hd : heap.Unfolds v d) : c = d := by
  induction v using h.value_induction generalizing c d with
  | primitive v hprimitive =>
    cases hc with
    | string _ => cases hprimitive
    | array _ _ => cases hprimitive
    | _ =>
      cases hd
      rfl
  | nothing id hid =>
    cases hc with
    | string hdata => cases hid.symm.trans hdata
    | array hvalues _ => cases hid.symm.trans hvalues
  | live id o hid ih =>
    cases o with
    | string data => rw [(unfolds_string_iff hid).1 hc, (unfolds_string_iff hid).1 hd]
    | array values =>
      obtain ⟨items, rfl, hitems⟩ := (unfolds_array_iff hid).1 hc
      obtain ⟨items', rfl, hitems'⟩ := (unfolds_array_iff hid).1 hd
      rw [eq_of_forall₂ (fun u hu _ _ => ih u hu) hitems hitems']

/-- Where no NaN and no handle to nothing can be reached, it does not matter that the same handles
are taken for equal at once. -/
theorem Acyclic.valuesEqual_object_iff_agree (h : heap.Acyclic) {a b : Handle} {l r : Object}
    (hclean : heap.Clean (.object a)) (ha : heap.get? a = some l) (hb : heap.get? b = some r) :
    heap.valuesEqual (.object a) (.object b) = true ↔
      l.Agree (fun v w => heap.valuesEqual v w = true) r := by
  rw [h.valuesEqual_object_iff ha hb]
  constructor
  · rintro (rfl | hagree)
    · cases ha.symm.trans hb
      exact Object.agree_self_iff.2 fun v hv =>
        (h.valuesEqual_self_iff v).2 ((clean_object_iff ha).1 hclean v hv).self
    · exact hagree
  · exact .inr

theorem Acyclic.valuesEqual_iff_content_same (h : heap.Acyclic) {v w : Value} {c d : Content}
    (hv : heap.Clean v) (hw : heap.Clean w) (hc : heap.Unfolds v c) (hd : heap.Unfolds w d) :
    heap.valuesEqual v w = true ↔ c.same d = true := by
  induction v using h.value_induction generalizing w c d with
  | primitive v hprimitive =>
    rw [valuesEqual_primitive hprimitive]
    cases hc with
    | string _ => cases hprimitive
    | array _ _ => cases hprimitive
    | _ => cases hd <;> simp [Value.same, Content.same]
  | nothing id hid => exact absurd hid hv.self
  | live a l ha ih =>
    cases l with
    | string data =>
      obtain rfl := (unfolds_string_iff ha).1 hc
      cases hd with
      | string hb => simp [h.valuesEqual_object_iff_agree hv ha hb, Content.same]
      | array hb _ => simp [h.valuesEqual_object_iff_agree hv ha hb, Content.same]
      | _ =>
        rw [valuesEqual_of_resolve?]
        · simp [Content.same]
        · rfl
    | array values =>
      obtain ⟨items, rfl, hitems⟩ := (unfolds_array_iff ha).1 hc
      cases hd with
      | string hb => simp [h.valuesEqual_object_iff_agree hv ha hb, Content.same]
      | array hb hitems' =>
        rw [h.valuesEqual_object_iff_agree hv ha hb, Object.agree_array_array, Content.same,
          Content.sameAll_iff]
        exact forall₂_iff_of_forall₂ hitems hitems' fun u hu u' hu' c d hc hd =>
          ih u hu ((clean_object_iff ha).1 hv u hu) ((clean_object_iff hb).1 hw u' hu') hc hd
      | _ =>
        rw [valuesEqual_of_resolve?]
        · simp [Content.same]
        · rfl

/-- In a run that stores only its own handles, values from which no NaN and no swept handle can be
reached unfold to one tree each, and they are equal if these trees are, in whatever heap and slots
they are kept. All values together are compared by a symmetric and transitive relation, in which
only a NaN and a swept handle differ from themselves. -/
theorem run_valuesEqual_iff_content_same {ops : List HeapOp} (h : StoresOwn ops) :
    let heap := (empty.run ops).2
    (∀ id ∈ (empty.run ops).1,
        heap.get? id = none ↔ id ∈ (empty.run (beforeLastSweep ops)).1) ∧
      (∀ v, heap.Clean v → ∃! c, heap.Unfolds v c) ∧
      (∀ v w c d, heap.Clean v → heap.Clean w → heap.Unfolds v c → heap.Unfolds w d →
        (heap.valuesEqual v w = true ↔ c.same d = true) ∧
          ∀ ops', StoresOwn ops' → let heap' := (empty.run ops').2
            ∀ v' w', heap'.Clean v' → heap'.Clean w' → heap'.Unfolds v' c → heap'.Unfolds w' d →
              heap'.valuesEqual v' w' = heap.valuesEqual v w) ∧
      (∀ v w, heap.valuesEqual v w = heap.valuesEqual w v) ∧
      (∀ u v w, heap.valuesEqual u v = true → heap.valuesEqual v w = true →
        heap.valuesEqual u w = true) ∧
      ∀ v, heap.valuesEqual v v = false ↔ heap.Incomparable v := by
  intro heap
  have hacyclic : heap.Acyclic := acyclic_run h
  refine ⟨fun id hid => get?_eq_none_iff_mem_beforeLastSweep hid, ?_, ?_,
    hacyclic.valuesEqual_comm, fun u v w => hacyclic.valuesEqual_trans,
    hacyclic.valuesEqual_self_eq_false_iff⟩
  · intro v hv
    obtain ⟨c, hc⟩ := hacyclic.exists_unfolds hv
    exact ⟨c, hc, fun d hd => hacyclic.unfolds_unique hd hc⟩
  · intro v w c d hv hw hc hd
    have hiff := hacyclic.valuesEqual_iff_content_same hv hw hc hd
    refine ⟨hiff, ?_⟩
    intro ops' h' heap' v' w' hv' hw' hc' hd'
    have hacyclic' : heap'.Acyclic := acyclic_run h'
    have hiff' := hacyclic'.valuesEqual_iff_content_same hv' hw' hc' hd'
    exact Bool.eq_iff_iff.2 (hiff'.trans hiff.symm)

/-- Two arrays of the same contents in different slots. -/
theorem run_valuesEqual_iff_content_same_copies :
    let ops : List HeapOp :=
      [.string "a", .array [.object ⟨0⟩, .nil], .string "a", .array [.object ⟨2⟩, .nil]]
    StoresOwn ops ∧ (empty.run ops).2.valuesEqual (.object ⟨1⟩) (.object ⟨3⟩) = true := by
  intro ops
  have hown : StoresOwn ops := by decide
  have hshows := shows_run ops
  have hcopy : ∀ inner outer : Handle, (empty.run ops).2.get? inner = some (.string "a") →
      (empty.run ops).2.get? outer = some (.array [.object inner, .nil]) →
      (empty.run ops).2.Clean (.object outer) ∧
        (empty.run ops).2.Unfolds (.object outer) (.array [.string "a", .nil]) := by
    intro inner outer hinner houter
    refine ⟨(clean_object_iff houter).2 ?_,
      .array houter (.cons (.string hinner) (.cons .nil .nil))⟩
    intro v hv
    rcases List.mem_pair.1 hv with rfl | rfl
    · exact (clean_object_iff hinner).2 (by simp)
    · exact clean_primitive rfl (by simp [Incomparable])
  obtain ⟨hleft, hc⟩ := hcopy ⟨0⟩ ⟨1⟩ (hshows.get? ⟨0⟩) (hshows.get? ⟨1⟩)
  obtain ⟨hright, hd⟩ := hcopy ⟨2⟩ ⟨3⟩ (hshows.get? ⟨2⟩) (hshows.get? ⟨3⟩)
  obtain ⟨-, -, hequal, -⟩ := run_valuesEqual_iff_content_same hown
  exact ⟨hown, (hequal _ _ _ _ hleft hright hc hd).1.2 (by decide)⟩

end Heap
end LangCore
