import Quill.Host
import Quill.Proofs.Method.NewArrays
import Quill.Proofs.Number.Positions

/-!
# Cutting arrays and strings

A slice of an array holds the elements at the positions between two bounds, which are counted from
the end when negative; a substring holds the characters between two bounds that may come in either
order. In both a bound outside is moved to the nearer end. So cutting at one bound gives two parts
that together are the whole, and nothing is ever read outside of it, also when all is computed in
sixty-four bits.
-/

set_option autoImplicit false

namespace Quill

/-! ## Between two positions -/

section Between

variable {α : Type}

/-- The elements at the positions from `lo` on and before `hi`, in their order. -/
def between (lo hi : Int) (xs : List α) : List α :=
  (xs.zipIdx.filter fun p => lo ≤ p.2 && p.2 < hi).map (·.1)

/-- An integer moved to the nearer end of a length if it lies outside. -/
def clamped (length : Nat) (i : Int) : Int := max 0 (min length i)

/-- A bound counted from the end of a length if it is negative. -/
def counted (length : Nat) (i : Int) : Int := if i < 0 then length + i else i

/-- For the induction the positions begin anywhere. -/
theorem filter_zipIdx (lo hi : Int) (xs : List α) : ∀ k : Nat,
    ((xs.zipIdx k).filter fun p => lo ≤ p.2 && p.2 < hi).map (·.1) =
      (xs.take (hi - k).toNat).drop (lo - k).toNat := by
  induction xs with
  | nil => simp
  | cons x xs ih =>
    intro k
    rw [List.zipIdx_cons, List.filter_cons]
    by_cases hhi : (k : Int) < hi
    · have htake : (hi - k).toNat = (hi - (k + 1 : Nat)).toNat + 1 := by omega
      rw [htake, List.take_succ_cons]
      by_cases hlo : lo ≤ k
      · have hdrop : (lo - k).toNat = 0 := by omega
        have hdrop' : (lo - (k + 1 : Nat)).toNat = 0 := by omega
        rw [if_pos (by simp [hlo, hhi]), List.map_cons, ih, hdrop, hdrop', List.drop_zero,
          List.drop_zero]
      · have hdrop : (lo - k).toNat = (lo - (k + 1 : Nat)).toNat + 1 := by omega
        rw [if_neg (by simp [hlo]), ih, hdrop, List.drop_succ_cons]
    · have htake : (hi - k).toNat = 0 := by omega
      have htake' : (hi - (k + 1 : Nat)).toNat = 0 := by omega
      rw [if_neg (by simp [hhi]), ih, htake, htake', List.take_zero, List.take_zero, List.drop_nil,
        List.drop_nil]

theorem between_eq (lo hi : Int) (xs : List α) :
    between lo hi xs = (xs.take hi.toNat).drop lo.toNat := by
  have h := filter_zipIdx lo hi xs 0
  rw [Int.natCast_zero, Int.sub_zero, Int.sub_zero] at h
  exact h

/-- Up to a position and from it on. -/
theorem between_append (k : Int) (xs : List α) :
    between 0 k xs ++ between k xs.length xs = xs := by
  rw [between_eq, between_eq, Int.toNat_natCast, List.take_length]
  exact List.take_append_drop k.toNat xs

theorem clamped_bounds (length : Nat) (i : Int) :
    0 ≤ clamped length i ∧ clamped length i ≤ length := by
  unfold clamped
  omega

theorem clamped_length (length : Nat) : clamped length length = length := by
  unfold clamped
  omega

theorem clamped_natCast {length i : Nat} (hi : i ≤ length) : clamped length i = i := by
  unfold clamped
  omega

theorem counted_natCast (length i : Nat) : counted length i = i := by
  unfold counted
  omega

end Between

/-! ## Slices and substrings -/

theorem sliceBound_eq (length : Nat) (i : Int) :
    sliceBound length i = (clamped length (counted length i)).toNat := by
  unfold sliceBound clamped counted
  split <;> omega

theorem toList_sliceOf (items : Array Value) (start stop : Int) :
    (sliceOf items start stop).toList =
      between (clamped items.size (counted items.size start))
        (clamped items.size (counted items.size stop)) items.toList := by
  rw [sliceOf, between_eq, sliceBound_eq, sliceBound_eq, Array.toList_extract,
    List.extract_eq_take_drop, List.drop_take]

theorem charsBetween_eq (cs : List Char) (start stop : Int) :
    charsBetween cs start stop =
      between (min (clamped cs.length start) (clamped cs.length stop))
        (max (clamped cs.length start) (clamped cs.length stop)) cs := by
  have hclamp : ∀ i, clampTo cs.length i = (clamped cs.length i).toNat := fun i => by
    unfold clampTo clamped
    omega
  have hmin : (min (clamped cs.length start) (clamped cs.length stop)).toNat =
      min (clamped cs.length start).toNat (clamped cs.length stop).toNat := by omega
  have hmax : (max (clamped cs.length start) (clamped cs.length stop)).toNat =
      max (clamped cs.length start).toNat (clamped cs.length stop).toNat := by omega
  rw [charsBetween, between_eq, hclamp, hclamp, hmin, hmax, List.drop_take]

theorem charsBetween_comm (cs : List Char) (start stop : Int) :
    charsBetween cs start stop = charsBetween cs stop start := by
  rw [charsBetween_eq, charsBetween_eq, Int.min_comm, Int.max_comm]

/-- From a position on, so many characters or all that there are. -/
theorem charsBetween_add (cs : List Char) (i n : Nat) :
    charsBetween cs i (i + n : Nat) = (cs.drop i).take n := by
  rw [charsBetween, clampTo, clampTo, Int.toNat_natCast, Int.toNat_natCast]
  by_cases hi : i ≤ cs.length
  · have hcount : max (min i cs.length) (min (i + n) cs.length) -
        min (min i cs.length) (min (i + n) cs.length) = min n (cs.drop i).length := by
      rw [List.length_drop]
      omega
    have hstart : min (min i cs.length) (min (i + n) cs.length) = i := by omega
    rw [hcount, hstart, ← List.take_eq_take_min]
  · -- Behind the end there is nothing to take.
    have hstart : min (min i cs.length) (min (i + n) cs.length) = cs.length := by omega
    rw [hstart, List.drop_length, List.drop_eq_nil_of_le (Nat.le_of_not_le hi), List.take_nil,
      List.take_nil]

/-! ## In sixty-four bits

The bounds once more, as they are computed in sixty-four bits. A sum that does not fit, a range that
is not inside of what is read, bounds out of order: each is checked where it could arise. -/

namespace Cutting

/-- What must not happen when something is cut. -/
inductive Breach
  /-- The result of an operation does not fit into sixty-four bits. -/
  | overflow
  /-- A length is negative, or a range lies outside of what is read. -/
  | outOfBounds
deriving DecidableEq, Repr

/-- An integer that has to fit into sixty-four bits. -/
def fit (i : Int) : Except Breach Int :=
  if Int64.minValue.toInt ≤ i ∧ i ≤ Int64.maxValue.toInt then .ok i else .error .overflow

/-- The end of a cut: the length if there is no bound for it. -/
def stopOr (length : Int) (read : Int → Except Breach Int) : Value → Except Breach Int
  | .null => .ok length
  | v => read v.toIndex

/-- A bound of a slice. -/
def bound (length i : Int) : Except Breach Int := do
  if i < 0 then return max 0 (← fit (length + i)) else return min i length

/-- The elements in a range. -/
def range (lo hi : Int) (items : List Value) : Except Breach (List Value) :=
  if 0 ≤ lo ∧ lo ≤ hi ∧ hi ≤ items.length then .ok ((items.take hi.toNat).drop lo.toNat)
  else .error .outOfBounds

/-- The elements of a slice. -/
def slice (items : List Value) (first second : Value) : Except Breach (List Value) := do
  let length ← fit items.length
  let lo ← bound length first.toIndex
  let hi ← stopOr length (bound length) second
  if lo < hi then range lo hi items else return []

/-- A bound of a substring. -/
def clamp (length i : Int) : Except Breach Int :=
  if 0 ≤ length then .ok (max 0 (min i length)) else .error .outOfBounds

/-- The characters of a substring. -/
def substring (cs : List Char) (first second : Value) : Except Breach (List Char) := do
  let length ← fit cs.length
  let start ← clamp length first.toIndex
  let stop ← stopOr length (clamp length) second
  let count ← fit (max start stop - min start stop)
  return (cs.drop (min start stop).toNat).take count.toNat

variable {length : Nat}

theorem fit_eq {i : Int} (hlow : Int64.minValue.toInt ≤ i) (hhigh : i ≤ Int64.maxValue.toInt) :
    fit i = .ok i := if_pos ⟨hlow, hhigh⟩

theorem fit_natCast {n : Nat} (hn : n ≤ Int64.maxValue.toInt) : fit n = .ok (n : Int) :=
  fit_eq (Int.le_trans (by decide) (Int.natCast_nonneg n)) hn

/-- A negative index is at least the least integer, and a length is not negative: their sum fits. -/
theorem bound_eq (hlength : length ≤ Int64.maxValue.toInt) {i : Int}
    (hi : Int64.minValue.toInt ≤ i) : bound length i = .ok (clamped length (counted length i)) := by
  unfold bound counted clamped
  split
  · next hneg =>
    rw [fit_eq (by omega) (by omega)]
    show Except.ok _ = Except.ok _
    congr 1
    omega
  · show Except.ok _ = Except.ok _
    congr 1
    omega

theorem clamp_eq (length : Nat) (i : Int) : clamp length i = .ok (clamped length i) := by
  rw [clamp, if_pos (Int.natCast_nonneg length), clamped, Int.min_comm]

theorem stopOr_eq {read : Int → Except Breach Int} (bounded : Int → Int)
    (hread : ∀ v : Value, read v.toIndex = .ok (bounded v.toIndex))
    (hlength : bounded length = length) (v : Value) :
    stopOr length read v = .ok (bounded (boundOr length v)) := by
  cases v with
  | null => rw [stopOr, boundOr, hlength]
  | _ => exact hread _

/-- Slices are cut without a breach from everything whose length fits. -/
theorem slice_eq {items : List Value} (hlength : items.length ≤ Int64.maxValue.toInt)
    (first second : Value) :
    slice items first second =
      .ok (between (clamped items.length (counted items.length first.toIndex))
        (clamped items.length (counted items.length (boundOr items.length second))) items) := by
  have hbound (v : Value) := bound_eq hlength v.toIndex_bounds.1
  have hstop : stopOr items.length (bound items.length) second =
      .ok (clamped items.length (counted items.length (boundOr items.length second))) :=
    stopOr_eq (fun i => clamped items.length (counted items.length i)) hbound
      (by rw [counted_natCast, clamped_length]) second
  rw [slice, fit_natCast hlength]
  show (do
    let lo ← bound items.length first.toIndex
    let hi ← stopOr items.length (bound items.length) second
    if lo < hi then range lo hi items else return []) = _
  rw [hbound, hstop, between_eq]
  have hlo := clamped_bounds items.length (counted items.length first.toIndex)
  have hhi := clamped_bounds items.length (counted items.length (boundOr items.length second))
  generalize clamped items.length (counted items.length first.toIndex) = lo at hlo ⊢
  generalize clamped items.length (counted items.length (boundOr items.length second)) = hi
    at hhi ⊢
  show (if lo < hi then range lo hi items else .ok []) = _
  split
  · next hlt => exact if_pos ⟨hlo.1, Int.le_of_lt hlt, hhi.2⟩
  · next hle =>
    have hempty : (items.take hi.toNat).drop lo.toNat = [] :=
      List.drop_eq_nil_of_le ((List.length_take_le _ _).trans (by omega))
    rw [hempty]

/-- So are substrings. -/
theorem substring_eq {cs : List Char} (hlength : cs.length ≤ Int64.maxValue.toInt)
    (first second : Value) :
    substring cs first second =
      .ok (charsBetween cs first.toIndex (boundOr cs.length second)) := by
  have hclamp (v : Value) := clamp_eq cs.length v.toIndex
  have hstop : stopOr cs.length (clamp cs.length) second =
      .ok (clamped cs.length (boundOr cs.length second)) :=
    stopOr_eq (clamped cs.length) hclamp (clamped_length cs.length) second
  rw [substring, fit_natCast hlength]
  show (do
    let start ← clamp cs.length first.toIndex
    let stop ← stopOr cs.length (clamp cs.length) second
    let count ← fit (max start stop - min start stop)
    return (cs.drop (min start stop).toNat).take count.toNat) = _
  rw [hclamp, hstop, charsBetween_eq, between_eq]
  have hstart := clamped_bounds cs.length first.toIndex
  have hend := clamped_bounds cs.length (boundOr cs.length second)
  generalize clamped cs.length first.toIndex = start at hstart ⊢
  generalize clamped cs.length (boundOr cs.length second) = stop at hend ⊢
  have hmin : Int64.minValue.toInt ≤ 0 := by decide
  have hcount : fit (max start stop - min start stop) = .ok _ := fit_eq (by omega) (by omega)
  have hwidth : (max start stop - min start stop).toNat =
      (max start stop).toNat - (min start stop).toNat := by omega
  show (do
    let count ← fit (max start stop - min start stop)
    return (cs.drop (min start stop).toNat).take count.toNat) = _
  rw [hcount, List.drop_take, ← hwidth]
  rfl

end Cutting

/-! ## The laws -/

theorem slice_makes (r : Eval) (a : ArrayRef) (args : List Value) (m : Machine) :
    (ArrayMethod.slice.call r a args).Makes m
      (between
        (clamped (m.heap.array a).size (counted (m.heap.array a).size (argument args 0).toIndex))
        (clamped (m.heap.array a).size
          (counted (m.heap.array a).size (boundOr (m.heap.array a).size (argument args 1))))
        (m.heap.array a).toList) := by
  rw [← toList_sliceOf]
  exact .of_eq rfl (Run.makes_allocArray m _)

/-- The bounds of a slice from the start, and of one to the end. -/
theorem slice_parts {k : Value} (hk : k ≠ .null) (items : Array Value) :
    clamped items.size (counted items.size (Value.ofNat 0).toIndex) = 0 ∧
      clamped items.size (counted items.size (boundOr items.size k)) =
        clamped items.size (counted items.size k.toIndex) ∧
      clamped items.size (counted items.size (boundOr items.size .null)) = items.toList.length := by
  have hzero : (Value.ofNat 0).toIndex = (0 : Nat) := (Value.names_ofNat (by decide)).2
  refine ⟨?_, ?_, ?_⟩
  · rw [hzero, counted_natCast]
    exact clamped_natCast (Nat.zero_le _)
  · rw [boundOr_eq hk]
  · rw [boundOr, counted_natCast, clamped_length, Array.length_toList]

theorem slice_append_slice (r : Eval) {m : Machine} {a : ArrayRef}
    (ha : (Value.array a).InHeap m.heap) {k : Value} (hk : k ≠ .null) :
    ∃ front m₁ back m₂, ArrayMethod.slice.call r a [.ofNat 0, k] m = .ok (.array front) m₁ ∧
      ArrayMethod.slice.call r a [k] m₁ = .ok (.array back) m₂ ∧
      m₂.heap.array front ++ m₂.heap.array back = m.heap.array a := by
  obtain ⟨front, m₁, hfront, hgain₁⟩ := slice_makes r a [.ofNat 0, k] m
  obtain ⟨back, m₂, hback, hgain₂⟩ := slice_makes r a [k] m₁
  refine ⟨front, m₁, back, m₂, hfront, hback, ?_⟩
  obtain ⟨hstart, hcut, hend⟩ := slice_parts hk (m.heap.array a)
  have hitems₁ := hgain₁.kept hgain₂
  have hitems₂ := hgain₂.elements
  rw [hgain₁.others a ha] at hitems₂
  rw [argument_zero, argument_succ, argument_zero, hstart, hcut] at hitems₁
  rw [argument_zero, argument_succ, argument_nil, hend] at hitems₂
  rw [← Array.toList_inj, Array.toList_append, hitems₁, hitems₂]
  exact between_append _ _

theorem substring_value (s : String) (args : List Value) :
    StringMethod.substring.value s args =
      .ofChars (charsBetween s.toList (argument args 0).toIndex
        (boundOr s.toList.length (argument args 1))) :=
  rfl

theorem substring_append_substring (s : String) {k : Value} (hk : k ≠ .null) :
    (StringMethod.substring.value s [.ofNat 0, k]).add (StringMethod.substring.value s [k]) =
      .string s := by
  have hzero : (Value.ofNat 0).toIndex = (0 : Nat) := (Value.names_ofNat (by decide)).2
  have hfront : charsBetween s.toList (Value.ofNat 0).toIndex (boundOr s.toList.length k) =
      between 0 (clamped s.toList.length k.toIndex) s.toList := by
    rw [hzero, boundOr_eq hk, charsBetween_eq, clamped_natCast (Nat.zero_le _), Int.natCast_zero,
      Int.min_eq_left (clamped_bounds _ _).1, Int.max_eq_right (clamped_bounds _ _).1]
  have hback : charsBetween s.toList k.toIndex (boundOr s.toList.length .null) =
      between (clamped s.toList.length k.toIndex) s.toList.length s.toList := by
    rw [boundOr, charsBetween_eq, clamped_length, Int.min_eq_left (clamped_bounds _ _).2,
      Int.max_eq_right (clamped_bounds _ _).2]
  show Value.string (String.ofList (charsBetween s.toList (Value.ofNat 0).toIndex
    (boundOr s.toList.length k)) ++ String.ofList (charsBetween s.toList k.toIndex
      (boundOr s.toList.length .null))) = .string s
  rw [hfront, hback, ← String.ofList_append, between_append, String.ofList_toList]

theorem readIndex_eq_substring (h : Heap) {s : String} {p : Nat} (hp : p < s.length)
    {key next : Value} (hkey : key.Names p) (hnext : next.Names (p + 1)) :
    h.readIndex (.string s) key = StringMethod.substring.value s [key, next] := by
  have hlength : p < s.toList.length := by rwa [String.length_toList]
  have hposition : key.toPosition? = some p := by
    rw [Value.toPosition?, hkey.2]
  have hread : h.readIndex (.string s) key = .ofChars [s.toList[p]] := by
    rw [Heap.readIndex, hposition, Option.bind_some, List.getElem?_eq_getElem hlength]
  have hcut : charsBetween s.toList key.toIndex (boundOr s.toList.length next) =
      [s.toList[p]] := by
    rw [boundOr_eq hnext.1, hkey.2, hnext.2, charsBetween_add, List.drop_eq_getElem_cons hlength,
      List.take_succ_cons, List.take_zero]
  rw [hread, substring_value]
  exact (congrArg Value.ofChars hcut).symm

/-- Slices and substrings, for arguments of any kind. A slice is a new array of the elements between
two bounds that are counted from the end when negative and moved inside, a second one that is null or
missing being the end; the array is as it was, and nothing overflows or is read outside of it. A
substring lies between two bounds that are moved inside and put in order. What is cut at one bound,
not null, is the whole when put together, and a character at a position is the substring from there
to the next position. -/
theorem slice_and_substring (r : Eval) {m : Machine} {a : ArrayRef}
    (ha : (Value.array a).InHeap m.heap) (s : String) :
    (∀ args : List Value,
      let items := (m.heap.array a).toList
      let lo := clamped items.length (counted items.length (argument args 0).toIndex)
      let hi := clamped items.length (counted items.length (boundOr items.length (argument args 1)))
      (ArrayMethod.slice.call r a args).Makes m (between lo hi items) ∧
        (items.length ≤ Int64.maxValue.toInt →
          Cutting.slice items (argument args 0) (argument args 1) = .ok (between lo hi items))) ∧
    (∀ k : Value, k ≠ .null →
      ∃ front m₁ back m₂, ArrayMethod.slice.call r a [.ofNat 0, k] m = .ok (.array front) m₁ ∧
        ArrayMethod.slice.call r a [k] m₁ = .ok (.array back) m₂ ∧
        m₂.heap.array front ++ m₂.heap.array back = m.heap.array a) ∧
    (∀ args : List Value,
      let cs := s.toList
      let i := clamped cs.length (argument args 0).toIndex
      let j := clamped cs.length (boundOr cs.length (argument args 1))
      StringMethod.substring.value s args = .ofChars (between (min i j) (max i j) cs) ∧
        (cs.length ≤ Int64.maxValue.toInt →
          Cutting.substring cs (argument args 0) (argument args 1) =
            .ok (between (min i j) (max i j) cs))) ∧
    (∀ i j : Value, i ≠ .null → j ≠ .null →
      StringMethod.substring.value s [i, j] = StringMethod.substring.value s [j, i]) ∧
    (∀ k : Value, k ≠ .null →
      (StringMethod.substring.value s [.ofNat 0, k]).add (StringMethod.substring.value s [k]) =
        .string s) ∧
    (∀ p < s.length, ∀ key next : Value, key.Names p → next.Names (p + 1) →
      m.heap.readIndex (.string s) key = StringMethod.substring.value s [key, next]) := by
  refine ⟨fun args => ⟨slice_makes r a args m, fun hlength => Cutting.slice_eq hlength _ _⟩,
    fun k hk => slice_append_slice r ha hk, fun args => ⟨?_, fun hlength => ?_⟩,
    fun i j hi hj => ?_, fun k hk => substring_append_substring s hk,
    fun p hp key next => readIndex_eq_substring m.heap hp⟩
  · rw [substring_value, charsBetween_eq]
  · rw [Cutting.substring_eq hlength, charsBetween_eq]
  · have hi' : boundOr s.toList.length i = i.toIndex := boundOr_eq hi _
    have hj' : boundOr s.toList.length j = j.toIndex := boundOr_eq hj _
    show Value.ofChars (charsBetween s.toList i.toIndex (boundOr s.toList.length j)) =
      Value.ofChars (charsBetween s.toList j.toIndex (boundOr s.toList.length i))
    rw [hi', hj', charsBetween_comm]

/-- A machine with an array of three elements. -/
def tripleMachine : Machine :=
  { heap := { arrays := #[#[.null, .bool true, .bool false]] },
    globals := ⟨⟨0⟩, []⟩, scope := ⟨⟨0⟩, []⟩ }

/-- From the last element but one to the end; and the second of three characters. -/
theorem slice_and_substring_from_end :
    (Value.array ⟨0⟩).InHeap tripleMachine.heap ∧
    (ArrayMethod.slice.call (evaluator smallHost 1) ⟨0⟩ [.number (Number.ofInt (-2))]).Makes
      tripleMachine [.bool true, .bool false] ∧
    tripleMachine.heap.readIndex (.string "aéb") (.ofNat 1) =
      StringMethod.substring.value "aéb" [.ofNat 1, .ofNat 2] := by
  have hin : (Value.array ⟨0⟩).InHeap tripleMachine.heap := Nat.zero_lt_one
  have hindex : (Value.number (Number.ofInt (-2))).toIndex = -2 := by decide +kernel
  obtain ⟨hslice, -, -, -, -, hread⟩ :=
    slice_and_substring (evaluator smallHost 1) hin "aéb"
  refine ⟨hin, ?_, ?_⟩
  · generalize Value.number (Number.ofInt (-2)) = last at hindex ⊢
    have hmakes := (hslice [last]).1
    rw [argument_zero, hindex] at hmakes
    exact hmakes
  · exact hread 1 (by decide) _ _ (Value.names_ofNat (by decide)) (Value.names_ofNat (by decide))

end Quill
