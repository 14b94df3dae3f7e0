import Quill.Machine
import Quill.Eval.Element
import Quill.Proofs.Heap.Tables

/-!
# Storing under a key

A key is read as a position by arrays and as a text by objects, and every key will do for that. What
a write finds under its key, a read finds too; so a read gives back what was written under any key
that is read the same way, and under all others what it gave before, the nulls that fill a gap being
what was read there all along.
-/

set_option autoImplicit false

namespace Quill

/-! ## Keys -/

/-- The position that a key is read as is its index, if that is not negative. -/
theorem Value.toPosition?_eq (key : Value) :
    key.toPosition? = if 0 ≤ key.toIndex then some key.toIndex.toNat else none := by
  unfold Value.toPosition?
  cases key.toIndex with
  | ofNat i => rfl
  | negSucc i => rfl

namespace Heap

/-! ## Arrays that grow -/

theorem size_setGrowing (items : Array Value) (i : Nat) (value : Value) :
    (setGrowing items i value).size = max items.size (i + 1) := by
  unfold setGrowing
  split
  · rw [Array.size_setIfInBounds]
    omega
  · simp only [Array.size_push, Array.size_append, Array.size_replicate]
    omega

/-- What an array that was made to grow holds: the value, what it held before, and nulls between. -/
theorem getElem?_setGrowing (items : Array Value) (i j : Nat) (value : Value) :
    (setGrowing items i value)[j]? =
      if j = i then some value
      else if j < items.size then items[j]?
      else if j < i then some .null else none := by
  unfold setGrowing
  split
  · next hi =>
    by_cases hj : j = i
    · subst hj
      simp [hi]
    · rw [Array.getElem?_setIfInBounds_ne (Ne.symm hj), if_neg hj]
      split
      · rfl
      · rw [if_neg (by omega)]
        exact Array.getElem?_eq_none (by omega)
  · next hi =>
    have hsize : (items ++ Array.replicate (i - items.size) Value.null).size = i := by
      rw [Array.size_append, Array.size_replicate]
      omega
    rw [Array.getElem?_push, hsize]
    by_cases hj : j = i
    · rw [if_pos hj, if_pos hj]
    · rw [if_neg hj, if_neg hj, Array.getElem?_append]
      by_cases hold : j < items.size
      · rw [if_pos hold, if_pos hold]
      · rw [if_neg hold, if_neg hold, Array.getElem?_replicate]
        by_cases hgap : j < i
        · rw [if_pos hgap, if_pos (by omega)]
        · rw [if_neg hgap, if_neg (by omega)]

/-! ## What a store does -/

/-- An array got a value at a position, and nothing else changed but for the nulls between. -/
structure ElementStored (h h' : Heap) (a : ArrayRef) (i : Nat) (value : Value) : Prop where
  size : (h'.array a).size = max (h.array a).size (i + 1)
  value : (h'.array a)[i]? = some value
  gap : ∀ j, (h.array a).size ≤ j → j < i → (h'.array a)[j]? = some .null
  others : ∀ j, j < (h.array a).size → j ≠ i → (h'.array a)[j]? = (h.array a)[j]?
  elsewhere : ∀ b, b ≠ a → h'.array b = h.array b
  tables : h' = { h with arrays := h'.arrays } ∧ h'.arrays.size = h.arrays.size

/-- An object got a value under a key, which comes last if it is new, and nothing else changed. -/
structure EntryStored (h h' : Heap) (o : ObjectRef) (key : String) (value : Value) : Prop where
  value : (h'.object o).get? key = some value
  others : ∀ k, k ≠ key → (h'.object o).get? k = (h.object o).get? k
  order : (h'.object o).keys =
    if key ∈ (h.object o).keys then (h.object o).keys else (h.object o).keys ++ [key]
  elsewhere : ∀ p, p ≠ o → h'.object p = h.object p
  tables : h' = { h with objects := h'.objects } ∧ h'.objects.size = h.objects.size

variable {h : Heap}

theorem elementStored_store {a : ArrayRef} (ha : a.index < h.arrays.size) (i : Nat)
    (value : Value) : ElementStored h (h.store value (.element a i)) a i value := by
  have hself : (h.store value (.element a i)).array a = setGrowing (h.array a) i value :=
    array_modifyArray_self ha _
  constructor
  case size => rw [hself, size_setGrowing]
  case value => rw [hself, getElem?_setGrowing, if_pos rfl]
  case gap =>
    intro j hold hgap
    rw [hself, getElem?_setGrowing, if_neg (Nat.ne_of_lt hgap), if_neg (Nat.not_lt.mpr hold),
      if_pos hgap]
  case others =>
    intro j hold hj
    rw [hself, getElem?_setGrowing, if_neg hj, if_pos hold]
  case elsewhere => exact fun b hb => array_modifyArray_ne hb _
  case tables => exact ⟨rfl, Array.size_modify⟩

theorem entryStored_store {o : ObjectRef} (ho : o.index < h.objects.size) (key : String)
    (value : Value) : EntryStored h (h.store value (.entry o key)) o key value := by
  have hself : (h.store value (.entry o key)).object o = (h.object o).set key value :=
    object_modifyObject_self ho _
  constructor
  case value => rw [hself, Dict.get?_set, if_pos rfl]
  case others =>
    intro k hk
    rw [hself, Dict.get?_set, if_neg hk]
  case order => rw [hself, Dict.keys_set]
  case elsewhere => exact fun p hp => object_modifyObject_ne hp _
  case tables => exact ⟨rfl, Array.size_modify⟩

/-! ## Reading what was stored -/

theorem readIndex_array (h : Heap) (a : ArrayRef) (key : Value) :
    h.readIndex (.array a) key =
      if 0 ≤ key.toIndex then ((h.array a)[key.toIndex.toNat]?).getD .null else .null := by
  rw [readIndex, Value.toPosition?_eq]
  split <;> rfl

/-- A key is read as the stored position or it is not: then it finds the value, or what it found
before. -/
theorem ElementStored.readIndex {h' : Heap} {a : ArrayRef} {i : Nat} {value : Value}
    (hstored : ElementStored h h' a i value) (key : Value) :
    h'.readIndex (.array a) key =
      if key.toIndex = i then value else h.readIndex (.array a) key := by
  rw [readIndex_array, readIndex_array]
  split
  · next hpos =>
    split
    · next hkey =>
      rw [hkey, Int.toNat_natCast, hstored.value]
      rfl
    · next hkey =>
      have hne : key.toIndex.toNat ≠ i := by omega
      by_cases hold : key.toIndex.toNat < (h.array a).size
      · rw [hstored.others _ hold hne]
      · -- Where nothing was before there is null now, or still nothing.
        rw [Array.getElem?_eq_none (Nat.le_of_not_lt hold)]
        by_cases hgap : key.toIndex.toNat < i
        · rw [hstored.gap _ (Nat.le_of_not_lt hold) hgap]
          rfl
        · rw [Array.getElem?_eq_none (by rw [hstored.size]; omega)]
  · next hneg => rw [if_neg (by omega)]

theorem EntryStored.readIndex {h' : Heap} {o : ObjectRef} {text : String} {value : Value}
    (hstored : EntryStored h h' o text value) (key : Value) :
    h'.readIndex (.object o) key =
      if key.toText = text then value else h.readIndex (.object o) key := by
  show ((h'.object o).get? key.toText).getD .null = _
  split
  · next hkey =>
    rw [hkey, hstored.value]
    rfl
  · next hkey =>
    rw [hstored.others _ hkey]
    rfl

/-! ## Slots -/

theorem indexSlot_array (h : Heap) (a : ArrayRef) (key : Value) :
    h.indexSlot (.array a) key =
      if 0 ≤ key.toIndex ∧ key.toIndex - (h.array a).size ≤ 65536 then
        .ok (.element a key.toIndex.toNat)
      else .error (.indexOutOfBounds key.toIndex (h.array a).size) := by
  have hbound : maxArrayGap = 65536 := rfl
  simp only [indexSlot, Value.toPosition?_eq]
  by_cases hpos : 0 ≤ key.toIndex
  · rw [if_pos hpos]
    dsimp only
    by_cases hgap : key.toIndex.toNat - (h.array a).size ≤ maxArrayGap
    · rw [if_pos hgap, if_pos ⟨hpos, by omega⟩]
    · rw [if_neg hgap, if_neg (fun hboth => hgap (by omega))]
  · rw [if_neg hpos, if_neg (fun hboth => hpos hboth.1)]

end Heap

/-! ## Stores of a run -/

/-- A store under a key. An array takes it if the index that the key is read as is not negative and
at most 65536 behind the end, and fails with that index and the length otherwise; an object takes
every key; no other value takes any. A store that fails changes nothing. Behind one that does not, a
key that is read the same way finds the value, and every other key what it found before. -/
theorem store_under_key (m : Machine) (line : Nat) (container key value : Value)
    (hin : container.InHeap m.heap) :
    match container with
    | .array a =>
      if 0 ≤ key.toIndex ∧ key.toIndex - (m.heap.array a).size ≤ 65536 then
        ∃ heap, Run.store line (·.indexSlot container key) value m = .ok () { m with heap } ∧
          m.heap.ElementStored heap a key.toIndex.toNat value ∧
          ∀ key' : Value, heap.readIndex container key' =
            if key'.toIndex = key.toIndex then value else m.heap.readIndex container key'
      else
        Run.store line (·.indexSlot container key) value m =
          .error (.failure ⟨line, .indexOutOfBounds key.toIndex (m.heap.array a).size⟩) m
    | .object o =>
      ∃ heap, Run.store line (·.indexSlot container key) value m = .ok () { m with heap } ∧
        m.heap.EntryStored heap o key.toText value ∧
        ∀ key' : Value, heap.readIndex container key' =
          if key'.toText = key.toText then value else m.heap.readIndex container key'
    | _ =>
      Run.store line (·.indexSlot container key) value m =
        .error (.failure ⟨line, .invalidAssignmentTarget⟩) m := by
  cases container with
  | array a =>
    have hslot := m.heap.indexSlot_array a key
    dsimp only
    split
    · next hfits =>
      rw [if_pos hfits] at hslot
      have hstored := Heap.elementStored_store hin key.toIndex.toNat value
      refine ⟨_, ?_, hstored, fun key' => ?_⟩
      · simp only [Run.store, hslot]
      · rw [hstored.readIndex key', Int.toNat_of_nonneg hfits.1]
    · next hmisses =>
      rw [if_neg hmisses] at hslot
      simp only [Run.store, hslot]
  | object o =>
    have hstored := Heap.entryStored_store hin key.toText value
    exact ⟨_, rfl, hstored, hstored.readIndex⟩
  | null | bool _ | number _ | string _ | function _ | native _ => rfl

/-- A machine with an array of two elements. -/
def pairMachine : Machine :=
  { heap := { arrays := #[#[.null, .bool true]] },
    globals := ⟨⟨0⟩, []⟩, scope := ⟨⟨0⟩, []⟩ }

/-- With two elements, the text `65538` is the last position that a store reaches. -/
theorem store_under_key_at_bound :
    (Value.array ⟨0⟩).InHeap pairMachine.heap ∧
    (∃ heap, Run.store 1 (·.indexSlot (.array ⟨0⟩) (.string "65538")) .null pairMachine =
        .ok () { pairMachine with heap } ∧
      pairMachine.heap.ElementStored heap ⟨0⟩ 65538 .null) ∧
    Run.store 1 (·.indexSlot (.array ⟨0⟩) (.string "65539")) .null pairMachine =
      .error (.failure ⟨1, .indexOutOfBounds 65539 2⟩) pairMachine := by
  have hlast : (Value.string "65538").toIndex = 65538 := by decide +kernel
  have hbehind : (Value.string "65539").toIndex = 65539 := by decide +kernel
  have hsize : (pairMachine.heap.array ⟨0⟩).size = 2 := rfl
  have hin : (Value.array ⟨0⟩).InHeap pairMachine.heap := Nat.zero_lt_one
  -- The keys are read once, above.
  generalize Value.string "65538" = last at hlast ⊢
  generalize Value.string "65539" = behind at hbehind ⊢
  refine ⟨hin, ?_, ?_⟩
  · have hstore := store_under_key pairMachine 1 _ last .null hin
    dsimp only at hstore
    rw [hlast, hsize, if_pos (by decide)] at hstore
    obtain ⟨heap, hok, hstored, -⟩ := hstore
    exact ⟨heap, hok, hstored⟩
  · have hstore := store_under_key pairMachine 1 _ behind .null hin
    dsimp only at hstore
    rw [hbehind, hsize, if_neg (by decide)] at hstore
    exact hstore

end Quill
