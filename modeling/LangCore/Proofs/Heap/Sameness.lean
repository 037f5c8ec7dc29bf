import Mathlib
import LangCore.Proofs.Heap.Bounds

/-!
# Laws of equality

In a heap of earlier handles equality of values is symmetric and transitive. A
value differs from itself only if it is a NaN or a handle to nothing. An array is
the same as itself whatever it holds, although comparing it value by value would
tell it from itself where it holds such a value: there, and only there, does
equality of handles depart from comparing what they refer to. Equal values have
the same type.
-/

namespace LangCore

theorem Binary64.equal_trans {x y z : Binary64} (hxy : x.equal y = true)
    (hyz : y.equal z = true) : x.equal z = true := by
  simp only [equal, Bool.and_eq_true, Bool.or_eq_true, Bool.not_eq_true', beq_iff_eq] at hxy hyz ⊢
  obtain ⟨⟨hx, -⟩, rfl | ⟨hxzero, hyzero⟩⟩ := hxy
  · exact hyz
  · obtain ⟨⟨-, hz⟩, rfl | ⟨-, hzzero⟩⟩ := hyz
    · exact ⟨⟨hx, hz⟩, .inr ⟨hxzero, hyzero⟩⟩
    · exact ⟨⟨hx, hz⟩, .inr ⟨hxzero, hzzero⟩⟩

namespace Value

theorem eq_or_float_of_same {v w : Value} (h : v.same w = true) :
    v = w ∨ ∃ x y, v = .float x ∧ w = .float y ∧ x.equal y = true := by
  cases v <;> cases w <;> simp_all [same]

theorem handle?_eq_none_of_same {v w : Value} (h : v.same w = true) (hv : v.handle? = none) :
    w.handle? = none := by
  rcases eq_or_float_of_same h with rfl | ⟨x, y, rfl, rfl, -⟩
  · exact hv
  · rfl

theorem same_trans {u v w : Value} (huv : u.same v = true) (hvw : v.same w = true) :
    u.same w = true := by
  rcases eq_or_float_of_same huv with rfl | ⟨x, y, rfl, rfl, hxy⟩
  · exact hvw
  · rcases eq_or_float_of_same hvw with rfl | ⟨_, z, hy, rfl, hyz⟩
    · exact huv
    · cases hy
      exact Binary64.equal_trans hxy hyz

end Value

namespace Object

variable {equal : Value → Value → Prop}

theorem Agree.symm_of_mem {l r : Object} (h : ∀ v ∈ l.values, ∀ w, equal v w → equal w v)
    (hagree : l.Agree equal r) : r.Agree equal l := by
  cases hagree with
  | string data => exact .string data
  | array hvalues =>
    have hboth := (List.forall₂_and_left _ _).2 ⟨h, hvalues⟩
    exact .array (hboth.imp fun v w hvw => hvw.1 w hvw.2).flip

theorem Agree.trans_of_mem {l m r : Object}
    (h : ∀ u ∈ l.values, ∀ v w, equal u v → equal v w → equal u w)
    (hlm : l.Agree equal m) (hmr : m.Agree equal r) : l.Agree equal r := by
  cases hlm with
  | string data => exact hmr
  | @array us vs huv =>
    cases hmr with
    | @array _ ws hvw =>
      refine .array ?_
      induction huv generalizing ws with
      | nil => exact hvw
      | @cons u v us vs hhead htail ih =>
        cases hvw with
        | @cons _ w _ ws hhead' htail' =>
          exact .cons (h u List.mem_cons_self v w hhead hhead')
            (ih (fun u hu => h u (List.mem_cons_of_mem _ hu)) htail')

theorem agree_self_iff {o : Object} : o.Agree equal o ↔ ∀ v ∈ o.values, equal v v := by
  cases o with
  | string data => simp
  | array values => rw [agree_array_array, List.forall₂_same, values_array]

end Object

namespace Heap

variable {heap : Heap}

theorem exists_object_of_valuesEqual {a : Handle} {w : Value}
    (h : heap.valuesEqual (.object a) w = true) : ∃ b r, w = .object b ∧ heap.get? b = some r := by
  cases hw : heap.resolve? w with
  | none =>
    rw [valuesEqual_of_resolve? hw] at h
    cases h
  | some r =>
    obtain ⟨b, rfl, hb⟩ := exists_object_of_resolve? hw
    exact ⟨b, r, rfl, hb⟩

theorem Acyclic.valuesEqual_symm (h : heap.Acyclic) {v w : Value}
    (hvw : heap.valuesEqual v w = true) : heap.valuesEqual w v = true := by
  induction v using h.value_induction generalizing w with
  | primitive v hv =>
    rw [valuesEqual_primitive hv] at hvw
    rw [valuesEqual_primitive (Value.handle?_eq_none_of_same hvw hv), Value.same_comm]
    exact hvw
  | nothing id hid =>
    rw [valuesEqual_nothing hid] at hvw
    cases hvw
  | live a l ha ih =>
    obtain ⟨b, r, rfl, hb⟩ := exists_object_of_valuesEqual hvw
    rw [h.valuesEqual_object_iff ha hb] at hvw
    rw [h.valuesEqual_object_iff hb ha]
    rcases hvw with rfl | hagree
    · exact .inl rfl
    · exact .inr (hagree.symm_of_mem fun v hv w hvw => ih v hv hvw)

theorem Acyclic.valuesEqual_comm (h : heap.Acyclic) (v w : Value) :
    heap.valuesEqual v w = heap.valuesEqual w v :=
  Bool.eq_iff_iff.2 ⟨h.valuesEqual_symm, h.valuesEqual_symm⟩

theorem Acyclic.valuesEqual_trans (h : heap.Acyclic) {u v w : Value}
    (huv : heap.valuesEqual u v = true) (hvw : heap.valuesEqual v w = true) :
    heap.valuesEqual u w = true := by
  induction u using h.value_induction generalizing v w with
  | primitive u hu =>
    rw [valuesEqual_primitive hu] at huv ⊢
    rw [valuesEqual_primitive (Value.handle?_eq_none_of_same huv hu)] at hvw
    exact Value.same_trans huv hvw
  | nothing id hid =>
    rw [valuesEqual_nothing hid] at huv
    cases huv
  | live a l ha ih =>
    obtain ⟨b, m, rfl, hb⟩ := exists_object_of_valuesEqual huv
    obtain ⟨c, r, rfl, hc⟩ := exists_object_of_valuesEqual hvw
    rcases (h.valuesEqual_object_iff ha hb).1 huv with rfl | hlm
    · exact hvw
    rcases (h.valuesEqual_object_iff hb hc).1 hvw with rfl | hmr
    · exact huv
    exact (h.valuesEqual_object_iff ha hc).2
      (.inr (hlm.trans_of_mem (fun u hu v w huv hvw => ih u hu huv hvw) hmr))

/-- Whether a value is a NaN or a handle to nothing. -/
def Incomparable (heap : Heap) : Value → Prop
  | .float x => x.isNaN = true
  | .object id => heap.get? id = none
  | _ => False

/-- Only a NaN and a handle to nothing differ from themselves. -/
theorem Acyclic.valuesEqual_self_eq_false_iff (h : heap.Acyclic) (v : Value) :
    heap.valuesEqual v v = false ↔ heap.Incomparable v := by
  cases v with
  | object id =>
    cases hid : heap.get? id with
    | none => simp [valuesEqual_nothing hid, Incomparable, hid]
    | some o =>
      have hself := (h.valuesEqual_object_iff hid hid).2 (.inl rfl)
      simp [hself, Incomparable, hid]
  | float x =>
    rw [valuesEqual_primitive rfl]
    simp [Value.same, Binary64.equal_self, Incomparable]
  | _ =>
    rw [valuesEqual_primitive rfl]
    simp [Value.same, Incomparable]

theorem Acyclic.valuesEqual_self_iff (h : heap.Acyclic) (v : Value) :
    heap.valuesEqual v v = true ↔ ¬ heap.Incomparable v := by
  rw [← h.valuesEqual_self_eq_false_iff, Bool.not_eq_false]

/-- Whether two handles refer to objects of the same contents: to the same string, or to arrays
whose values are equal one by one. -/
def SameContents (heap : Heap) (a b : Handle) : Prop :=
  ∃ l r, heap.get? a = some l ∧ heap.get? b = some r ∧
    l.Agree (fun v w => heap.valuesEqual v w = true) r

theorem Acyclic.objectsEqual_iff (h : heap.Acyclic) {a b : Handle} :
    heap.objectsEqual a b = true ↔
      (a = b ∧ (heap.get? a).isSome) ∨ heap.SameContents a b := by
  rw [objectsEqual]
  cases ha : heap.get? a with
  | none => simp [valuesEqual_nothing ha, SameContents, ha]
  | some l =>
    cases hb : heap.get? b with
    | none =>
      have hne : a ≠ b := by
        rintro rfl
        rw [ha] at hb
        cases hb
      simp [valuesEqual_of_resolve? (w := .object b) hb, SameContents, hb, hne]
    | some r => simp [h.valuesEqual_object_iff ha hb, SameContents, ha, hb]

/-- A handle has the same contents as itself unless it refers to nothing, or to an array with a NaN
or a handle to nothing in it. -/
theorem Acyclic.sameContents_self_iff (h : heap.Acyclic) {id : Handle} :
    heap.SameContents id id ↔
      ∃ o, heap.get? id = some o ∧ ∀ v ∈ o.values, ¬ heap.Incomparable v := by
  constructor
  · rintro ⟨l, r, hl, hr, hagree⟩
    obtain rfl : l = r := Option.some_inj.1 (hl.symm.trans hr)
    exact ⟨l, hl, fun v hv => (h.valuesEqual_self_iff v).1 (Object.agree_self_iff.1 hagree v hv)⟩
  · rintro ⟨o, ho, hvalues⟩
    exact ⟨o, o, ho, ho,
      Object.agree_self_iff.2 fun v hv => (h.valuesEqual_self_iff v).2 (hvalues v hv)⟩

/-- Equality of handles says that their objects have the same contents, except that an array with a
NaN or a handle to nothing in it is equal to itself. -/
theorem objectsEqual_iff_sameContents_iff {ops : List HeapOp} (h : StoresOwn ops) (a b : Handle) :
    let heap := (empty.run ops).2
    ((heap.objectsEqual a b = true ↔ heap.SameContents a b) ↔
      ¬ (a = b ∧ ∃ values, heap.get? a = some (.array values) ∧
        ∃ v ∈ values, heap.Incomparable v)) := by
  intro heap
  have hacyclic : heap.Acyclic := acyclic_run h
  rw [hacyclic.objectsEqual_iff]
  by_cases hab : a = b
  · subst hab
    rw [hacyclic.sameContents_self_iff]
    cases ha : heap.get? a with
    | none => simp
    | some o => cases o <;> simp
  · simp [hab]

/-- An array of a string: its handle is equal to itself, and its contents are. -/
theorem objectsEqual_iff_sameContents_array_of_string :
    let ops : List HeapOp := [.string "a", .array [.object ⟨0⟩]]
    let heap := (empty.run ops).2
    StoresOwn ops ∧ heap.objectsEqual ⟨1⟩ ⟨1⟩ = true ∧ heap.SameContents ⟨1⟩ ⟨1⟩ := by
  intro ops heap
  have hown : StoresOwn ops := by decide
  have hequal : heap.objectsEqual ⟨1⟩ ⟨1⟩ = true := by decide
  refine ⟨hown, hequal, ((objectsEqual_iff_sameContents_iff hown ⟨1⟩ ⟨1⟩).2 ?_).1 hequal⟩
  rintro ⟨-, values, hvalues, v, hv, hincomparable⟩
  cases hvalues
  rw [List.mem_singleton.1 hv] at hincomparable
  cases hincomparable

/-- An array of a NaN is equal to itself, while its contents are not. -/
theorem objectsEqual_array_of_nan :
    let ops : List HeapOp := [.array [.float ⟨0x7ff8000000000000⟩]]
    let heap := (empty.run ops).2
    StoresOwn ops ∧ ⟨0⟩ ∈ (empty.run ops).1 ∧ heap.objectsEqual ⟨0⟩ ⟨0⟩ = true ∧
      ¬ heap.SameContents ⟨0⟩ ⟨0⟩ := by
  intro ops heap
  refine ⟨by decide, by decide, by decide, ?_⟩
  rintro ⟨l, r, hl, hr, hagree⟩
  cases hl
  cases hr
  cases hagree with
  | array hvalues =>
    cases hvalues with
    | cons hnan _ => exact absurd hnan (by decide)

/-- Equal values have the same type: of equal arrays the last values are equal, too. -/
theorem Acyclic.typeOf_eq_of_valuesEqual (h : heap.Acyclic) {v w : Value}
    (hvw : heap.valuesEqual v w = true) : heap.typeOf v = heap.typeOf w := by
  induction v using h.value_induction generalizing w with
  | primitive v hv =>
    rw [valuesEqual_primitive hv] at hvw
    rcases Value.eq_or_float_of_same hvw with rfl | ⟨x, y, rfl, rfl, -⟩ <;> rfl
  | nothing id hid =>
    rw [valuesEqual_nothing hid] at hvw
    cases hvw
  | live a l ha ih =>
    obtain ⟨b, r, rfl, hb⟩ := exists_object_of_valuesEqual hvw
    rcases (h.valuesEqual_object_iff ha hb).1 hvw with rfl | hagree
    · rfl
    cases hagree with
    | string data => rw [typeOf_string ha, typeOf_string hb]
    | @array vs ws hvalues =>
      have htypes : List.Forall₂ (fun v w => heap.typeOf v = heap.typeOf w) vs ws :=
        ((List.forall₂_and_left _ _).2 ⟨ih, hvalues⟩).imp fun v w hvw => hvw.1 hvw.2
      have hmap : vs.map heap.typeOf = ws.map heap.typeOf := by
        rw [← List.forall₂_eq_eq_eq, List.forall₂_map_left_iff, List.forall₂_map_right_iff]
        exact htypes
      rw [h.typeOf_array ha, h.typeOf_array hb, ← List.getLast?_map, hmap, List.getLast?_map]

/-- In a run that stores only its own handles, equal values have the same type, and so they may
stand where the same typenames are expected. -/
theorem run_typeOf_eq_of_valuesEqual {ops : List HeapOp} (h : StoresOwn ops) {v w : Value}
    (hvw : (empty.run ops).2.valuesEqual v w = true) :
    let heap := (empty.run ops).2
    heap.typeOf v = heap.typeOf w ∧
      ∀ t, (heap.typeOf v).conformsTo t = (heap.typeOf w).conformsTo t := by
  intro heap
  have htype : heap.typeOf v = heap.typeOf w := (acyclic_run h).typeOf_eq_of_valuesEqual hvw
  exact ⟨htype, fun t => by rw [htype]⟩

/-- Two arrays with zeros of different signs and with strings in different slots. -/
theorem run_typeOf_eq_of_valuesEqual_zeros :
    let ops : List HeapOp :=
      [.string "a", .string "a", .array [.float ⟨0⟩, .object ⟨0⟩],
        .array [.float ⟨0x8000000000000000⟩, .object ⟨1⟩]]
    let heap := (empty.run ops).2
    StoresOwn ops ∧ heap.valuesEqual (.object ⟨2⟩) (.object ⟨3⟩) = true ∧
      heap.typeOf (.object ⟨2⟩) = heap.typeOf (.object ⟨3⟩) ∧
      ∀ t, (heap.typeOf (.object ⟨2⟩)).conformsTo t = (heap.typeOf (.object ⟨3⟩)).conformsTo t := by
  intro ops heap
  have hown : StoresOwn ops := by decide
  have hequal : heap.valuesEqual (.object ⟨2⟩) (.object ⟨3⟩) = true := by decide
  exact ⟨hown, hequal, run_typeOf_eq_of_valuesEqual hown hequal⟩

end Heap
end LangCore
