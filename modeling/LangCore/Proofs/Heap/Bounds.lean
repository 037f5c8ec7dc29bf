import Mathlib
import LangCore.Proofs.Heap.Order

/-!
# Bounds that suffice

Where all handles refer to earlier slots, a bound larger than the depth of a value
is enough to find its type and to compare it, and every such bound gives the same
answer. So types and equality have equations that mention no bound.
-/

namespace LangCore

/-- Whether two objects hold the same, the values in them by the given relation. -/
inductive Object.Agree (equal : Value → Value → Prop) : Object → Object → Prop
  | string (data : String) : Agree equal (.string data) (.string data)
  | array {vs ws : List Value} (values : List.Forall₂ equal vs ws) :
      Agree equal (.array vs) (.array ws)

namespace Object

variable {equal : Value → Value → Prop}

@[simp] theorem agree_string_string {a b : String} :
    (string a).Agree equal (.string b) ↔ a = b := by
  constructor
  · rintro ⟨⟩
    rfl
  · rintro rfl
    exact .string a

@[simp] theorem agree_array_array {vs ws : List Value} :
    (array vs).Agree equal (.array ws) ↔ List.Forall₂ equal vs ws := by
  constructor
  · rintro ⟨⟩
    assumption
  · exact .array

@[simp] theorem not_agree_string_array {a : String} {ws : List Value} :
    ¬ (string a).Agree equal (.array ws) := by
  rintro ⟨⟩

@[simp] theorem not_agree_array_string {vs : List Value} {b : String} :
    ¬ (array vs).Agree equal (.string b) := by
  rintro ⟨⟩

end Object

namespace Heap

variable {heap : Heap}

theorem Acyclic.exists_typeWithin (h : heap.Acyclic) (v : Value) :
    ∃ type, heap.typeWithin (heap.depth v + 1) v = some type := by
  induction v using h.value_induction with
  | primitive v hv =>
    cases v with
    | object id => cases hv
    | _ => exact ⟨_, rfl⟩
  | nothing id hid => exact ⟨.dynamic, by simp [typeWithin, hid]⟩
  | live id o hid ih =>
    cases o with
    | string data => exact ⟨.string, by simp [typeWithin, hid]⟩
    | array values =>
      cases hlast : values.getLast? with
      | none => exact ⟨.array .dynamic, by simp [typeWithin, hid, hlast]⟩
      | some last =>
        have hmem := List.mem_of_getLast? hlast
        obtain ⟨element, helement⟩ := ih last hmem
        have hdepth := typeWithin_mono helement (h.depth_lt hid hmem)
        exact ⟨.array element, by simp [typeWithin, hid, hlast, hdepth]⟩

theorem Acyclic.typeWithin_eq (h : heap.Acyclic) {fuel : ℕ} {v : Value}
    (hfuel : heap.depth v < fuel) : heap.typeWithin fuel v = some (heap.typeOf v) := by
  obtain ⟨type, htype⟩ := h.exists_typeWithin v
  have hbound : heap.depth v + 1 ≤ heap.typeFuel := Nat.succ_le_succ (heap.depth_le v)
  have hdefault : heap.typeOf v = type := by
    rw [typeOf, typeWithin_mono htype hbound]
    rfl
  rw [hdefault, typeWithin_mono htype hfuel]

theorem typeOf_nothing {id : Handle} (hid : heap.get? id = none) :
    heap.typeOf (.object id) = .dynamic := by
  simp [typeOf, typeFuel, typeWithin, hid]

theorem typeOf_string {id : Handle} {data : String} (hid : heap.get? id = some (.string data)) :
    heap.typeOf (.object id) = .string := by
  simp [typeOf, typeFuel, typeWithin, hid]

theorem Acyclic.typeOf_array (h : heap.Acyclic) {id : Handle} {values : List Value}
    (hid : heap.get? id = some (.array values)) :
    heap.typeOf (.object id) = .array ((values.getLast?.map heap.typeOf).getD .dynamic) := by
  have hfuel := Nat.lt_succ_of_le (heap.depth_le (.object id))
  rw [← Option.some_inj, ← h.typeWithin_eq hfuel]
  cases hlast : values.getLast? with
  | none => simp [typeWithin, hid, hlast]
  | some last =>
    have hlt := h.depth_lt hid (List.mem_of_getLast? hlast)
    simp [typeWithin, hid, hlast, h.typeWithin_eq (hlt.trans_le (heap.depth_le _))]

theorem allEqual_eq_some {equal : Value → Value → Option Bool} {f : Value → Value → Bool}
    {vs ws : List Value} (h : ∀ v ∈ vs, ∀ w, equal v w = some (f v w))
    (hlength : vs.length = ws.length) :
    ∃ b, allEqual equal vs ws = some b ∧
      (b = true ↔ List.Forall₂ (fun v w => f v w = true) vs ws) := by
  induction vs generalizing ws with
  | nil =>
    obtain rfl := List.length_eq_zero_iff.1 hlength.symm
    exact ⟨true, rfl, by simp⟩
  | cons v vs ih =>
    cases ws with
    | nil => cases hlength
    | cons w ws =>
      obtain ⟨b, hb, hagree⟩ := ih (fun v hv => h v (List.mem_cons_of_mem _ hv))
        (Nat.succ_inj.1 hlength)
      have hhead := h v List.mem_cons_self w
      cases hf : f v w with
      | true => exact ⟨b, by rw [allEqual, hhead, hf]; exact hb, by simp [hf, hagree]⟩
      | false => exact ⟨false, by rw [allEqual, hhead, hf], by simp [hf]⟩

theorem contentsEqual_eq_some {equal : Value → Value → Option Bool} {f : Value → Value → Bool}
    {l : Object} (h : ∀ v ∈ l.values, ∀ w, equal v w = some (f v w)) (r : Object) :
    ∃ b, contentsEqual equal l r = some b ∧
      (b = true ↔ l.Agree (fun v w => f v w = true) r) := by
  cases l with
  | string a =>
    cases r with
    | string b => exact ⟨a == b, rfl, by simp⟩
    | array ws => exact ⟨false, rfl, by simp⟩
  | array vs =>
    cases r with
    | string b => exact ⟨false, rfl, by simp⟩
    | array ws =>
      rw [Object.agree_array_array, contentsEqual]
      split
      · rename_i hlength
        exact allEqual_eq_some h hlength
      · rename_i hlength
        refine ⟨false, rfl, ?_⟩
        simp only [Bool.false_eq_true, false_iff]
        exact fun hall => hlength hall.length_eq

theorem equalWithin_primitive {v : Value} (hv : v.handle? = none) (fuel : ℕ) (w : Value) :
    heap.equalWithin (fuel + 1) v w = some (v.same w) := by
  cases v with
  | object id => cases hv
  | _ => rfl

theorem equalWithin_nothing {id : Handle} (hid : heap.get? id = none) (fuel : ℕ) (w : Value) :
    heap.equalWithin (fuel + 1) (.object id) w = some false := by
  cases w with
  | object other => simp [equalWithin, hid]
  | _ => rfl

theorem equalWithin_of_resolve? {w : Value} (hw : heap.resolve? w = none) (a : Handle)
    (fuel : ℕ) : heap.equalWithin (fuel + 1) (.object a) w = some false := by
  cases w with
  | object b =>
    have hb : heap.get? b = none := hw
    cases ha : heap.get? a <;> simp [equalWithin, ha, hb]
  | _ => rfl

theorem exists_object_of_resolve? {w : Value} {r : Object} (hw : heap.resolve? w = some r) :
    ∃ b, w = .object b ∧ heap.get? b = some r := by
  cases w with
  | object b => exact ⟨b, rfl, hw⟩
  | _ => cases hw

theorem valuesEqual_of_equalWithin {v w : Value} {b : Bool}
    (h : ∀ fuel, heap.equalWithin (fuel + 1) v w = some b) : heap.valuesEqual v w = b := by
  rw [valuesEqual, equalFuel, h]
  rfl

theorem valuesEqual_primitive {v : Value} (hv : v.handle? = none) (w : Value) :
    heap.valuesEqual v w = v.same w :=
  valuesEqual_of_equalWithin fun fuel => equalWithin_primitive hv fuel w

theorem valuesEqual_nothing {id : Handle} (hid : heap.get? id = none) (w : Value) :
    heap.valuesEqual (.object id) w = false :=
  valuesEqual_of_equalWithin fun fuel => equalWithin_nothing hid fuel w

theorem valuesEqual_of_resolve? {w : Value} (hw : heap.resolve? w = none) (a : Handle) :
    heap.valuesEqual (.object a) w = false :=
  valuesEqual_of_equalWithin fun fuel => equalWithin_of_resolve? hw a fuel

/-- Comparing two objects, once the values in them can be compared. -/
theorem equalWithin_object_eq_some {a b : Handle} {l r : Object} {fuel : ℕ}
    (ha : heap.get? a = some l) (hb : heap.get? b = some r)
    (hinner : ∀ v ∈ l.values, ∀ w, heap.equalWithin fuel v w = some (heap.valuesEqual v w)) :
    ∃ c, heap.equalWithin (fuel + 1) (.object a) (.object b) = some c ∧
      (c = true ↔ a = b ∨ l.Agree (fun v w => heap.valuesEqual v w = true) r) := by
  have hstep : heap.equalWithin (fuel + 1) (.object a) (.object b) =
      if a = b then some true else contentsEqual (heap.equalWithin fuel) l r := by
    simp [equalWithin, ha, hb]
  rw [hstep]
  split
  · rename_i hab
    exact ⟨true, rfl, by simp [hab]⟩
  · rename_i hab
    obtain ⟨c, hc, hagree⟩ := contentsEqual_eq_some hinner r
    exact ⟨c, hc, by simp [hab, hagree]⟩

theorem depth_lt_equalFuel (heap : Heap) (v : Value) : heap.depth v < heap.equalFuel := by
  have hdepth := heap.depth_le v
  have hsquare := Nat.le_mul_self heap.slots.size
  rw [equalFuel]
  omega

theorem Acyclic.equalWithin_eq (h : heap.Acyclic) {fuel : ℕ} {v : Value}
    (hfuel : heap.depth v < fuel) (w : Value) :
    heap.equalWithin fuel v w = some (heap.valuesEqual v w) := by
  obtain ⟨fuel, rfl⟩ := Nat.exists_eq_succ_of_ne_zero (Nat.ne_zero_of_lt hfuel)
  induction v using h.value_induction generalizing fuel w with
  | primitive v hv => rw [equalWithin_primitive hv, valuesEqual_primitive hv]
  | nothing id hid => rw [equalWithin_nothing hid, valuesEqual_nothing hid]
  | live a l ha ih =>
    cases hw : heap.resolve? w with
    | none => rw [equalWithin_of_resolve? hw, valuesEqual_of_resolve? hw]
    | some r =>
      obtain ⟨b, rfl, hb⟩ := exists_object_of_resolve? hw
      have hcompare : ∀ fuel, heap.depth (.object a) < fuel + 1 →
          ∃ c, heap.equalWithin (fuel + 1) (.object a) (.object b) = some c ∧
            (c = true ↔ a = b ∨ l.Agree (fun v w => heap.valuesEqual v w = true) r) := by
        intro fuel hfuel
        refine equalWithin_object_eq_some ha hb fun v hv w => ?_
        have hlt := (h.depth_lt ha hv).trans_le (Nat.le_of_lt_succ hfuel)
        obtain ⟨fuel, rfl⟩ := Nat.exists_eq_succ_of_ne_zero (Nat.ne_zero_of_lt hlt)
        exact ih v hv w fuel hlt
      obtain ⟨c, hc, hciff⟩ := hcompare fuel hfuel
      obtain ⟨d, hd, hdiff⟩ := hcompare _ (heap.depth_lt_equalFuel (.object a))
      have hdefault : heap.valuesEqual (.object a) (.object b) = d := by
        rw [valuesEqual, equalFuel, hd]
        rfl
      rw [hc, hdefault, Bool.eq_iff_iff.2 (hciff.trans hdiff.symm)]

/-- Handles are equal if they are the same and refer to something, or if their objects hold the
same. -/
theorem Acyclic.valuesEqual_object_iff (h : heap.Acyclic) {a b : Handle} {l r : Object}
    (ha : heap.get? a = some l) (hb : heap.get? b = some r) :
    heap.valuesEqual (.object a) (.object b) = true ↔
      a = b ∨ l.Agree (fun v w => heap.valuesEqual v w = true) r := by
  have hinner : ∀ v ∈ l.values, ∀ w,
      heap.equalWithin (heap.depth (.object a)) v w = some (heap.valuesEqual v w) :=
    fun v hv w => h.equalWithin_eq (h.depth_lt ha hv) w
  obtain ⟨c, hc, hiff⟩ := equalWithin_object_eq_some ha hb hinner
  rw [h.equalWithin_eq (Nat.lt_succ_self _)] at hc
  rw [Option.some_inj.1 hc, hiff]

/-- One more than the number of slots is enough for every value. -/
theorem Acyclic.bounded (h : heap.Acyclic) {fuel : ℕ} (hfuel : heap.slots.size + 1 ≤ fuel)
    (v w : Value) :
    heap.typeWithin fuel v = some (heap.typeOf v) ∧
      heap.equalWithin fuel v w = some (heap.valuesEqual v w) := by
  have hdepth : heap.depth v < fuel := (Nat.lt_succ_of_le (heap.depth_le v)).trans_le hfuel
  exact ⟨h.typeWithin_eq hdepth, h.equalWithin_eq hdepth w⟩

end Heap
end LangCore
