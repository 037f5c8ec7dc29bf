import Mathlib
import LangCore.Proofs.Heap.Bounds

/-!
# Values of a growing heap

An allocation fills a new slot and leaves the others as they are. In a heap of
earlier handles all that can be reached from a value of the heap is in the heap,
so what is seen of the value stays the same while the heap grows, whatever the
later objects hold. A handle to nothing keeps referring to nothing.
-/

namespace LangCore.Heap

/-- Whether a heap has all slots of an earlier one, with the same in them. -/
structure Extends (later heap : Heap) : Prop where
  size_le : heap.slots.size ≤ later.slots.size
  get?_eq : ∀ id : Handle, id.index < heap.slots.size → later.get? id = heap.get? id

theorem Extends.refl (heap : Heap) : heap.Extends heap := ⟨le_rfl, fun _ _ => rfl⟩

theorem Extends.trans {last later heap : Heap} (h : last.Extends later)
    (h' : later.Extends heap) : last.Extends heap := by
  refine ⟨h'.size_le.trans h.size_le, fun id hid => ?_⟩
  rw [h.get?_eq id (hid.trans_le h'.size_le), h'.get?_eq id hid]

theorem extends_alloc (heap : Heap) (o : Object) : (heap.alloc o).2.Extends heap := by
  refine ⟨?_, fun id hid => ?_⟩
  · rw [alloc, Array.size_push]
    exact Nat.le_succ _
  · rw [get?_alloc, if_neg hid.ne]

theorem extends_step (heap : Heap) {op : HeapOp} (h : op ≠ .sweep) :
    (heap.step op).2.Extends heap := by
  cases ho : op.object? with
  | some o =>
    rw [step_of_object? ho]
    exact heap.extends_alloc o
  | none =>
    cases op with
    | sweep => exact absurd rfl h
    | _ => cases ho

/-- A run without sweeps keeps what the slots hold. -/
theorem extends_run (heap : Heap) {ops : List HeapOp} (h : .sweep ∉ ops) :
    (heap.run ops).2.Extends heap := by
  induction ops generalizing heap with
  | nil => exact .refl heap
  | cons op ops ih =>
    rw [List.mem_cons, not_or] at h
    exact (ih (heap.step op).2 h.2).trans (heap.extends_step (Ne.symm h.1))

/-- Whether a value refers to a slot of the heap, if it refers to anything. -/
def Knows (heap : Heap) (v : Value) : Prop :=
  ∀ id ∈ v.handle?, id.index < heap.slots.size

variable {heap later : Heap}

theorem knows_object_iff {id : Handle} : heap.Knows (.object id) ↔ id.index < heap.slots.size := by
  simp [Knows, Value.handle?]

theorem Acyclic.knows_of_mem (h : heap.Acyclic) {id : Handle} {o : Object}
    (hid : heap.get? id = some o) {v : Value} (hv : v ∈ o.values) : heap.Knows v := by
  have hsize := heap.depth_le (.object id)
  rw [depth_object hid] at hsize
  cases v with
  | object inner =>
    have hinner := h id o hid inner (Object.mem_handles.2 hv)
    rw [knows_object_iff]
    omega
  | _ =>
    intro id hid
    cases hid

theorem Extends.typeWithin_eq (hlater : later.Extends heap) (h : heap.Acyclic) {v : Value}
    (hv : heap.Knows v) (fuel : ℕ) : later.typeWithin fuel v = heap.typeWithin fuel v := by
  induction fuel generalizing v with
  | zero => rfl
  | succ fuel ih =>
    cases v with
    | object id =>
      have hget := hlater.get?_eq id (knows_object_iff.1 hv)
      cases hid : heap.get? id with
      | none => simp [typeWithin, hget, hid]
      | some o =>
        cases o with
        | string data => simp [typeWithin, hget, hid]
        | array values =>
          cases hlast : values.getLast? with
          | none => simp [typeWithin, hget, hid, hlast]
          | some last =>
            have hinner := ih (h.knows_of_mem hid (List.mem_of_getLast? hlast))
            simp [typeWithin, hget, hid, hlast, hinner]
    | _ => rfl

theorem allEqual_congr {equal equal' : Value → Value → Option Bool} {vs ws : List Value}
    (h : ∀ v ∈ vs, ∀ w ∈ ws, equal v w = equal' v w) :
    allEqual equal vs ws = allEqual equal' vs ws := by
  induction vs generalizing ws with
  | nil => rfl
  | cons v vs ih =>
    cases ws with
    | nil => rfl
    | cons w ws =>
      have htail := ih fun v hv w hw =>
        h v (List.mem_cons_of_mem _ hv) w (List.mem_cons_of_mem _ hw)
      rw [allEqual, allEqual, h v List.mem_cons_self w List.mem_cons_self, htail]

theorem contentsEqual_congr {equal equal' : Value → Value → Option Bool} {l r : Object}
    (h : ∀ v ∈ l.values, ∀ w ∈ r.values, equal v w = equal' v w) :
    contentsEqual equal l r = contentsEqual equal' l r := by
  cases l with
  | string a => cases r <;> rfl
  | array vs =>
    cases r with
    | string b => rfl
    | array ws =>
      have hvalues : allEqual equal vs ws = allEqual equal' vs ws := allEqual_congr h
      rw [contentsEqual, contentsEqual, hvalues]

theorem Extends.equalWithin_eq (hlater : later.Extends heap) (h : heap.Acyclic) {v w : Value}
    (hv : heap.Knows v) (hw : heap.Knows w) (fuel : ℕ) :
    later.equalWithin fuel v w = heap.equalWithin fuel v w := by
  induction fuel generalizing v w with
  | zero => rfl
  | succ fuel ih =>
    cases v with
    | object a =>
      cases w with
      | object b =>
        have ha := hlater.get?_eq a (knows_object_iff.1 hv)
        have hb := hlater.get?_eq b (knows_object_iff.1 hw)
        rw [equalWithin, equalWithin, ha, hb]
        cases hl : heap.get? a with
        | none => rfl
        | some l =>
          cases hr : heap.get? b with
          | none => rfl
          | some r =>
            have hinner : contentsEqual (later.equalWithin fuel) l r =
                contentsEqual (heap.equalWithin fuel) l r :=
              contentsEqual_congr fun v hv w hw => ih (h.knows_of_mem hl hv) (h.knows_of_mem hr hw)
            simp only [hinner]
      | _ => rfl
    | _ => rfl

theorem Extends.resolve?_eq (hlater : later.Extends heap) {v : Value} (hv : heap.Knows v) :
    later.resolve? v = heap.resolve? v := by
  cases v with
  | object id => exact hlater.get?_eq id (knows_object_iff.1 hv)
  | _ => rfl

theorem Extends.render_eq (hlater : later.Extends heap) {v : Value} (hv : heap.Knows v) :
    later.render v = heap.render v := by
  cases v with
  | object id => rw [render, render, hlater.get?_eq id (knows_object_iff.1 hv)]
  | _ => rfl

/-- The bounds of the later heap are not below those of the earlier one, which suffice. -/
theorem Extends.typeOf_eq (hlater : later.Extends heap) (h : heap.Acyclic) {v : Value}
    (hv : heap.Knows v) : later.typeOf v = heap.typeOf v := by
  have hfuel : heap.depth v < later.typeFuel :=
    Nat.lt_succ_of_le ((heap.depth_le v).trans hlater.size_le)
  rw [typeOf, hlater.typeWithin_eq h hv, h.typeWithin_eq hfuel]
  rfl

theorem Extends.valuesEqual_eq (hlater : later.Extends heap) (h : heap.Acyclic) {v w : Value}
    (hv : heap.Knows v) (hw : heap.Knows w) : later.valuesEqual v w = heap.valuesEqual v w := by
  have hle : heap.equalFuel ≤ later.equalFuel :=
    Nat.add_le_add_right (Nat.mul_le_mul hlater.size_le hlater.size_le) 2
  have hfuel : heap.depth v < later.equalFuel := (heap.depth_lt_equalFuel v).trans_le hle
  rw [valuesEqual, hlater.equalWithin_eq h hv hw, h.equalWithin_eq hfuel]
  rfl

theorem knows_of_mem_run {ops : List HeapOp} {v : Value}
    (hv : ∀ id ∈ v.handle?, id ∈ (empty.run ops).1) : (empty.run ops).2.Knows v := by
  intro id hid
  rw [(shows_run ops).size]
  exact mem_handles_run_iff.1 (hv id hid)

/-- After a run that stores only its own handles, any further operations but sweeps, whatever they
store, leave each value of the run with its object, its type, its text and the values of the run
that it is equal to. -/
theorem run_observations_kept {ops later : List HeapOp} (h : StoresOwn ops)
    (hlater : .sweep ∉ later) {v w : Value} (hv : ∀ id ∈ v.handle?, id ∈ (empty.run ops).1)
    (hw : ∀ id ∈ w.handle?, id ∈ (empty.run ops).1) :
    let before := (empty.run ops).2
    let after := (empty.run (ops ++ later)).2
    after.resolve? v = before.resolve? v ∧ after.typeOf v = before.typeOf v ∧
      after.render v = before.render v ∧ after.valuesEqual v w = before.valuesEqual v w := by
  intro before after
  have hacyclic : before.Acyclic := acyclic_run h
  have hafter : after = (before.run later).2 := by simp only [after, before, run_append]
  have hextends : after.Extends before := by
    rw [hafter]
    exact before.extends_run hlater
  have hknown : before.Knows v := knows_of_mem_run hv
  exact ⟨hextends.resolve?_eq hknown, hextends.typeOf_eq hacyclic hknown,
    hextends.render_eq hknown, hextends.valuesEqual_eq hacyclic hknown (knows_of_mem_run hw)⟩

/-- An array of a swept string and of one that is still there, behind which an array of itself is
allocated. -/
theorem run_observations_kept_before_own_handle :
    let ops : List HeapOp := [.string "a", .sweep, .string "b", .array [.object ⟨0⟩, .object ⟨1⟩]]
    let later : List HeapOp := [.alloc (.string "a"), .array [.object ⟨4⟩]]
    let after := (empty.run (ops ++ later)).2
    StoresOwn ops ∧ .sweep ∉ later ∧ ⟨2⟩ ∈ (empty.run ops).1 ∧ ⟨0⟩ ∈ (empty.run ops).1 ∧
      after.typeOf (.object ⟨2⟩) = .array .string ∧ after.render (.object ⟨0⟩) = "" ∧
      after.valuesEqual (.object ⟨2⟩) (.object ⟨0⟩) = false := by
  intro ops later after
  have hown : StoresOwn ops := by decide
  have hlater : .sweep ∉ later := by simp [later]
  have houter : ⟨2⟩ ∈ (empty.run ops).1 := mem_handles_run_iff.2 (by decide)
  have hswept : ⟨0⟩ ∈ (empty.run ops).1 := mem_handles_run_iff.2 (by decide)
  have hhandle (id : Handle) (hid : id ∈ (empty.run ops).1) :
      ∀ other ∈ (Value.object id).handle?, other ∈ (empty.run ops).1 := by
    rintro other ⟨⟩
    exact hid
  obtain ⟨-, htype, -, hequal⟩ :=
    run_observations_kept hown hlater (hhandle ⟨2⟩ houter) (hhandle ⟨0⟩ hswept)
  obtain ⟨-, -, hrender, -⟩ :=
    run_observations_kept hown hlater (hhandle ⟨0⟩ hswept) (hhandle ⟨0⟩ hswept)
  have hshows := shows_run ops
  have harray : (empty.run ops).2.get? ⟨2⟩ = some (.array [.object ⟨0⟩, .object ⟨1⟩]) :=
    hshows.get? ⟨2⟩
  have hstring : (empty.run ops).2.get? ⟨1⟩ = some (.string "b") := hshows.get? ⟨1⟩
  have hnothing : (empty.run ops).2.get? ⟨0⟩ = none := hshows.get? ⟨0⟩
  refine ⟨hown, hlater, houter, hswept, htype.trans ?_, hrender.trans ?_, hequal.trans ?_⟩
  · rw [(acyclic_run hown).typeOf_array harray]
    simp [typeOf_string hstring]
  · simp [render, hnothing]
  · exact valuesEqual_of_resolve? (w := .object ⟨0⟩) hnothing ⟨2⟩

end LangCore.Heap
