import Quill.Equality
import Quill.Proofs.Dict

/-!
# Equality is bisimilarity

Two values are *bisimilar* over a heap if some relation holds between them that survives every look
inside: related values are of one kind, related leaves are the same, and related containers hold
related parts at the same places. The relation may go round in circles with the containers, so this
says what equality of cyclic data should mean without saying how to compute it.

The comparison itself cuts a circle when it meets a pair that is under comparison further up its own
path, and forgets the pair when it comes back. Three facts make it right.

* It ends. The pairs on a path are different pairs of containers that exist, so a path is no longer
  than `pairCount` (`equalWithin?_ne_none`).
* It finds no difference between bisimilar values (`equalWithin?_ne_false`).
* It misses none. Here cutting has to be defended: the difference sought might lie behind the cut.
  If values differ, they differ at some finite depth. Follow a *least* deep difference. Then the
  pairs on the path differ less deep with every step down, so none of them is met again, and the
  path ends at the difference (`equalWithin?_ne_true`).
-/

set_option autoImplicit false

namespace Quill

namespace Pairing

/-- The first container. -/
def left : Pairing → Value
  | arrays a _ => .array a
  | objects a _ => .object a

/-- The second container. -/
def right : Pairing → Value
  | arrays _ b => .array b
  | objects _ b => .object b

/-- A pair tells the two values that made it. -/
theorem of?_eq_some {a b : Value} {pair : Pairing} (hpair : of? a b = some pair) :
    a = pair.left ∧ b = pair.right := by
  cases a <;> cases b <;> simp only [of?, Option.some.injEq, reduceCtorEq] at hpair
  · subst hpair
    exact ⟨rfl, rfl⟩
  · subst hpair
    exact ⟨rfl, rfl⟩

theorem left_eq_right {pair : Pairing} (hdiag : pair.isDiagonal = true) :
    pair.left = pair.right := by
  cases pair with
  | arrays a b => rw [left, right, eq_of_beq hdiag]
  | objects a b => rw [left, right, eq_of_beq hdiag]

end Pairing

theorem Number.same_iff {a b : Number} :
    a.same b = true ↔ a.bits = b.bits ∨ a.isNaN ∧ b.isNaN := by
  obtain ⟨x⟩ := a
  obtain ⟨y⟩ := b
  simp [Number.same]

theorem Number.same_trans {a b c : Number} (hab : a.bits = b.bits ∨ a.isNaN ∧ b.isNaN)
    (hbc : b.bits = c.bits ∨ b.isNaN ∧ c.isNaN) : a.bits = c.bits ∨ a.isNaN ∧ c.isNaN := by
  obtain ⟨x⟩ := a
  obtain ⟨y⟩ := b
  obtain ⟨z⟩ := c
  rcases hab with rfl | ⟨ha, hb⟩
  · exact hbc
  · rcases hbc with rfl | ⟨-, hc⟩
    · exact .inr ⟨ha, hb⟩
    · exact .inr ⟨ha, hc⟩

namespace Heap

/-! ## Bisimilarity -/

/-- One look at two values: they are of one kind, leaves are the same, and containers hold parts
related by `R` at the same places. -/
def Matches (h : Heap) (R : Value → Value → Prop) : Value → Value → Prop
  | .null, .null => True
  | .bool x, .bool y => x = y
  | .number x, .number y => x.bits = y.bits ∨ x.isNaN ∧ y.isNaN
  | .string x, .string y => x = y
  | .function x, .function y => x = y
  | .native x, .native y => x.id = y.id
  | .array x, .array y =>
    (h.array x).size = (h.array y).size ∧
      ∀ (i : Nat) (v w : Value), (h.array x)[i]? = some v → (h.array y)[i]? = some w → R v w
  | .object x, .object y =>
    (∀ key, key ∈ (h.object x).keys ↔ key ∈ (h.object y).keys) ∧
      ∀ (key : String) (v w : Value),
        (h.object x).get? key = some v → (h.object y).get? key = some w → R v w
  | _, _ => False

/-- A relation that every look inside preserves. -/
def IsBisimulation (h : Heap) (R : Value → Value → Prop) : Prop := ∀ a b, R a b → h.Matches R a b

/-- Some bisimulation relates the values. -/
def Bisimilar (h : Heap) (a b : Value) : Prop := ∃ R, h.IsBisimulation R ∧ R a b

variable {h : Heap}

/-! ## A look through the parts

The comparison sees two containers as a list of parts. A look succeeds exactly when every part has
something related beside it. -/

theorem matches_leaf {R : Value → Value → Prop} {a b : Value} (hpair : Pairing.of? a b = none) :
    h.Matches R a b ↔ a.sameLeaf b = true := by
  cases a <;> cases b <;> simp_all [Pairing.of?, Matches, Value.sameLeaf, Number.same_iff]

/-- Arrays of one length hold related elements exactly when their elements are related in pairs. -/
theorem parts_arrays_iff {R : Value → Value → Prop} {x y : ArrayRef} :
    (∀ part ∈ h.parts (.arrays x y), ∃ v w, part = some (v, w) ∧ R v w) ↔
      h.Matches R (.array x) (.array y) := by
  unfold parts Matches
  by_cases hlen : (h.array x).size = (h.array y).size
  · simp only [Array.length_toList, hlen, if_true, true_and, List.mem_map]
    constructor
    · intro hparts i v w hv hw
      have hmem : (v, w) ∈ (h.array x).toList.zip (h.array y).toList := by
        rw [List.mem_iff_getElem?]
        exact ⟨i, List.getElem?_zip_eq_some.mpr ⟨by simpa using hv, by simpa using hw⟩⟩
      obtain ⟨v', w', heq, hR⟩ := hparts _ ⟨(v, w), hmem, rfl⟩
      cases heq
      exact hR
    · rintro helems _ ⟨⟨v, w⟩, hmem, rfl⟩
      obtain ⟨i, hi⟩ := List.mem_iff_getElem?.mp hmem
      obtain ⟨hv, hw⟩ := List.getElem?_zip_eq_some.mp hi
      exact ⟨v, w, rfl, helems i v w (by simpa using hv) (by simpa using hw)⟩
  · simp [hlen]

/-- Objects of one size whose entries have something related beside them have the same keys. -/
theorem parts_objects_iff {R : Value → Value → Prop} {x y : ObjectRef} :
    (∀ part ∈ h.parts (.objects x y), ∃ v w, part = some (v, w) ∧ R v w) ↔
      h.Matches R (.object x) (.object y) := by
  dsimp only [parts, Matches]
  generalize h.object x = d
  generalize h.object y = e
  rw [← Dict.beside_iff]
  by_cases hsize : d.size = e.size
  · simp only [hsize, if_true, true_and]
    constructor
    · intro hparts key v hv
      obtain ⟨v', w, heq, hR⟩ :=
        hparts _ (List.mem_map.mpr ⟨(key, v), Dict.get?_eq_some_iff.mp hv, rfl⟩)
      obtain ⟨w', hw', hpair⟩ := Option.map_eq_some_iff.mp heq
      cases hpair
      exact ⟨w, hw', hR⟩
    · intro hfound part hpart
      obtain ⟨⟨key, v⟩, hmem, rfl⟩ := List.mem_map.mp hpart
      obtain ⟨w, hw, hR⟩ := hfound key v (Dict.get?_eq_some_iff.mpr hmem)
      exact ⟨v, w, by simp [hw], hR⟩
  · simp [hsize]

/-- A look at two containers is a look at their parts. -/
theorem matches_parts {R : Value → Value → Prop} {a b : Value} {pair : Pairing}
    (hpair : Pairing.of? a b = some pair) :
    h.Matches R a b ↔ ∀ part ∈ h.parts pair, ∃ v w, part = some (v, w) ∧ R v w := by
  cases a <;> cases b <;> simp only [Pairing.of?, Option.some.injEq, reduceCtorEq] at hpair
  · subst hpair
    exact parts_objects_iff.symm
  · subst hpair
    exact parts_arrays_iff.symm

/-- A look that succeeds does so under any wider relation. -/
theorem Matches.mono {R S : Value → Value → Prop} (hRS : ∀ v w, R v w → S v w) {a b : Value}
    (hmatch : h.Matches R a b) : h.Matches S a b := by
  cases hpair : Pairing.of? a b with
  | none => exact (matches_leaf hpair).mpr ((matches_leaf hpair).mp hmatch)
  | some pair =>
    refine (matches_parts hpair).mpr fun part hpart => ?_
    obtain ⟨v, w, heq, hR⟩ := (matches_parts hpair).mp hmatch part hpart
    exact ⟨v, w, heq, hRS v w hR⟩

/-! ## An equivalence -/

theorem isBisimulation_eq : h.IsBisimulation fun a b => a = b := by
  rintro a _ rfl
  cases a with
  | number n => exact .inl rfl
  | array x =>
    refine ⟨rfl, fun i v w hv hw => ?_⟩
    rw [hv, Option.some.injEq] at hw
    exact hw
  | object x =>
    refine ⟨fun key => Iff.rfl, fun key v w hv hw => ?_⟩
    rw [hv, Option.some.injEq] at hw
    exact hw
  | null => exact trivial
  | bool | string | function | native => rfl

theorem IsBisimulation.swap {R : Value → Value → Prop} (hR : h.IsBisimulation R) :
    h.IsBisimulation fun a b => R b a := by
  intro a b hba
  have hmatch := hR b a hba
  cases a <;> cases b <;> simp only [Matches] at hmatch ⊢
  case bool.bool | string.string | function.function | native.native => exact hmatch.symm
  case number.number => exact hmatch.imp Eq.symm And.symm
  case array.array =>
    exact ⟨hmatch.1.symm, fun i v w hv hw => hmatch.2 i w v hw hv⟩
  case object.object =>
    exact ⟨fun key => (hmatch.1 key).symm, fun key v w hv hw => hmatch.2 key w v hw hv⟩

theorem IsBisimulation.comp {R S : Value → Value → Prop} (hR : h.IsBisimulation R)
    (hS : h.IsBisimulation S) : h.IsBisimulation fun a c => ∃ b, R a b ∧ S b c := by
  rintro a c ⟨b, hab, hbc⟩
  have hl := hR a b hab
  have hr := hS b c hbc
  cases a <;> cases b <;> simp only [Matches] at hl <;> cases c <;> simp only [Matches] at hr ⊢
  case bool.bool.bool | string.string.string | function.function.function |
    native.native.native => exact hl.trans hr
  case number.number.number => exact Number.same_trans hl hr
  case array.array.array x y z =>
    refine ⟨hl.1.trans hr.1, fun i v u hv hu => ?_⟩
    have hi : i < (h.array y).size := hl.1 ▸ (Array.getElem?_eq_some_iff.mp hv).1
    have hw := Array.getElem?_eq_getElem hi
    exact ⟨_, hl.2 i v _ hv hw, hr.2 i _ u hw hu⟩
  case object.object.object x y z =>
    refine ⟨fun key => (hl.1 key).trans (hr.1 key), fun key v u hv hu => ?_⟩
    have hkey : key ∈ (h.object y).keys := (hl.1 key).mp (Dict.mem_keys_iff.mpr ⟨v, hv⟩)
    obtain ⟨w, hw⟩ := Dict.mem_keys_iff.mp hkey
    exact ⟨w, hl.2 key v w hv hw, hr.2 key w u hw hu⟩

theorem Bisimilar.refl (a : Value) : h.Bisimilar a a := ⟨_, isBisimulation_eq, rfl⟩

theorem Bisimilar.symm {a b : Value} (hab : h.Bisimilar a b) : h.Bisimilar b a := by
  obtain ⟨R, hR, hab⟩ := hab
  exact ⟨_, hR.swap, hab⟩

theorem Bisimilar.trans {a b c : Value} (hab : h.Bisimilar a b) (hbc : h.Bisimilar b c) :
    h.Bisimilar a c := by
  obtain ⟨R, hR, hab⟩ := hab
  obtain ⟨S, hS, hbc⟩ := hbc
  exact ⟨_, hR.comp hS, b, hab, hbc⟩

theorem bisimilar_equivalence : Equivalence h.Bisimilar where
  refl := .refl
  symm := .symm
  trans := .trans

/-- Bisimilarity is itself a bisimulation, the widest one. -/
theorem isBisimulation_bisimilar : h.IsBisimulation h.Bisimilar := by
  rintro a b ⟨R, hR, hab⟩
  exact (hR a b hab).mono fun v w hvw => ⟨R, hR, hvw⟩

/-! ## Agreement to a depth -/

/-- The values agree as far as `n` looks inside can tell. -/
def Agree (h : Heap) : Nat → Value → Value → Prop
  | 0, _, _ => True
  | n + 1, a, b => h.Matches (h.Agree n) a b

theorem agree_of_bisimilar {a b : Value} (hab : h.Bisimilar a b) : ∀ n, h.Agree n a b := by
  intro n
  induction n generalizing a b with
  | zero => trivial
  | succ n ih => exact (isBisimulation_bisimilar a b hab).mono fun v w hvw => ih hvw

theorem agree_refl (n : Nat) (a : Value) : h.Agree n a a := agree_of_bisimilar (.refl a) n

theorem agree_of_succ {n : Nat} {a b : Value} (hab : h.Agree (n + 1) a b) : h.Agree n a b := by
  induction n generalizing a b with
  | zero => trivial
  | succ n ih => exact Matches.mono (fun v w hvw => ih hvw) hab

/-- Values that no number of looks can tell apart are bisimilar. -/
theorem bisimilar_of_agree {a b : Value} (hab : ∀ n, h.Agree n a b) : h.Bisimilar a b := by
  refine ⟨fun v w => ∀ n, h.Agree n v w, ?_, hab⟩
  intro v w hvw
  -- The parts of a pair do not depend on how far one looks, so those of one look serve for all.
  have hlook : ∀ n, h.Matches (h.Agree n) v w := fun n => hvw (n + 1)
  cases hpair : Pairing.of? v w with
  | none => exact (matches_leaf hpair).mpr ((matches_leaf hpair).mp (hlook 0))
  | some pair =>
    refine (matches_parts hpair).mpr fun part hpart => ?_
    obtain ⟨v₀, w₀, rfl, -⟩ := (matches_parts hpair).mp (hlook 0) _ hpart
    refine ⟨v₀, w₀, rfl, fun n => ?_⟩
    obtain ⟨v₁, w₁, heq, hn⟩ := (matches_parts hpair).mp (hlook n) _ hpart
    cases heq
    exact hn

/-! ## The comparison

`comparePart` is what the comparison does with one part of two containers. -/

/-- Compares one part, below a pair that is under comparison. -/
def comparePart (h : Heap) (depth : Nat) (seen : List Pairing) :
    Option (Value × Value) → Option Bool
  | none => some false
  | some (v, w) => h.equalWithin? depth seen v w

theorem equalWithin?_leaf {depth : Nat} {seen : List Pairing} {a b : Value}
    (hpair : Pairing.of? a b = none) :
    h.equalWithin? depth seen a b = some (a.sameLeaf b) := by
  rw [equalWithin?.eq_def, hpair]

theorem equalWithin?_met {depth : Nat} {seen : List Pairing} {a b : Value} {pair : Pairing}
    (hpair : Pairing.of? a b = some pair) (hmet : (pair.isDiagonal || seen.contains pair) = true) :
    h.equalWithin? depth seen a b = some true := by
  rw [equalWithin?.eq_def, hpair]
  exact if_pos hmet

theorem equalWithin?_zero {seen : List Pairing} {a b : Value} {pair : Pairing}
    (hpair : Pairing.of? a b = some pair)
    (hnew : ¬(pair.isDiagonal || seen.contains pair) = true) :
    h.equalWithin? 0 seen a b = none := by
  rw [equalWithin?.eq_def, hpair]
  exact if_neg hnew

theorem equalWithin?_succ {depth : Nat} {seen : List Pairing} {a b : Value} {pair : Pairing}
    (hpair : Pairing.of? a b = some pair)
    (hnew : ¬(pair.isDiagonal || seen.contains pair) = true) :
    h.equalWithin? (depth + 1) seen a b =
      (h.parts pair).allM (h.comparePart depth (pair :: seen)) := by
  rw [equalWithin?.eq_def, hpair]
  refine (if_neg hnew).trans ?_
  congr 1

theorem allM_eq_some_true {α : Type} {p : α → Option Bool} {xs : List α}
    (hall : xs.allM p = some true) : ∀ x ∈ xs, p x = some true := by
  induction xs with
  | nil => simp
  | cons x rest ih =>
    rw [List.allM_cons] at hall
    cases hx : p x with
    | none => simp [hx] at hall
    | some answer =>
      cases answer with
      | false => simp [hx] at hall
      | true =>
        rw [hx] at hall
        exact List.forall_mem_cons.mpr ⟨hx, ih hall⟩

/-- If not all parts are equal, the first that is not is the reason. -/
theorem allM_ne_some_true {α : Type} {p : α → Option Bool} {xs : List α} {answer : Option Bool}
    (hall : xs.allM p = answer) (hne : answer ≠ some true) : ∃ x ∈ xs, p x = answer := by
  induction xs with
  | nil => exact absurd hall.symm hne
  | cons x rest ih =>
    rw [List.allM_cons] at hall
    cases hx : p x with
    | none => exact ⟨x, List.mem_cons_self, by rw [hx, ← hall, hx]; rfl⟩
    | some verdict =>
      rw [hx] at hall
      cases verdict with
      | false => exact ⟨x, List.mem_cons_self, by rw [hx, ← hall]; rfl⟩
      | true =>
        obtain ⟨y, hy, hyp⟩ := ih hall
        exact ⟨y, List.mem_cons_of_mem x hy, hyp⟩

/-! ## It ends -/

/-- Both containers exist. -/
def Allocated (h : Heap) : Pairing → Prop
  | .arrays a b => a.index < h.arrays.size ∧ b.index < h.arrays.size
  | .objects a b => a.index < h.objects.size ∧ b.index < h.objects.size

/-- All pairs of containers that exist. -/
def allPairings (h : Heap) : List Pairing :=
  ((List.range h.arrays.size).flatMap fun i =>
    (List.range h.arrays.size).map fun j => .arrays ⟨i⟩ ⟨j⟩) ++
  (List.range h.objects.size).flatMap fun i =>
    (List.range h.objects.size).map fun j => .objects ⟨i⟩ ⟨j⟩

theorem length_allPairings (h : Heap) : h.allPairings.length = h.pairCount := by
  simp [allPairings, pairCount, List.length_flatMap, List.map_const']

theorem mem_allPairings {pair : Pairing} (halloc : h.Allocated pair) : pair ∈ h.allPairings := by
  rw [allPairings, List.mem_append]
  cases pair with
  | arrays a b =>
    refine .inl (List.mem_flatMap.mpr ⟨a.index, List.mem_range.mpr halloc.1, ?_⟩)
    exact List.mem_map.mpr ⟨b.index, List.mem_range.mpr halloc.2, rfl⟩
  | objects a b =>
    refine .inr (List.mem_flatMap.mpr ⟨a.index, List.mem_range.mpr halloc.1, ?_⟩)
    exact List.mem_map.mpr ⟨b.index, List.mem_range.mpr halloc.2, rfl⟩

theorem lt_of_mem_array {a : ArrayRef} {v : Value} (hv : v ∈ (h.array a).toList) :
    a.index < h.arrays.size := by
  apply Classical.byContradiction
  intro hnot
  simp [array, Array.getD, hnot] at hv

theorem lt_of_mem_object {o : ObjectRef} {entry : String × Value}
    (hentry : entry ∈ (h.object o).entries) : o.index < h.objects.size := by
  apply Classical.byContradiction
  intro hnot
  simp [object, Array.getD, hnot, Dict.empty] at hentry

/-- Only containers that exist have parts beside each other. -/
theorem allocated_of_part {pair : Pairing} {v w : Value} (hpart : some (v, w) ∈ h.parts pair) :
    h.Allocated pair := by
  cases pair with
  | arrays a b =>
    dsimp only [parts] at hpart
    split at hpart
    · obtain ⟨⟨v', w'⟩, hmem, -⟩ := List.mem_map.mp hpart
      have hzip := List.of_mem_zip hmem
      exact ⟨lt_of_mem_array hzip.1, lt_of_mem_array hzip.2⟩
    · simp at hpart
  | objects a b =>
    dsimp only [parts] at hpart
    split at hpart
    · obtain ⟨⟨key, v'⟩, hmem, hw⟩ := List.mem_map.mp hpart
      obtain ⟨w', hw', -⟩ := Option.map_eq_some_iff.mp hw
      exact ⟨lt_of_mem_object hmem, lt_of_mem_object (Dict.get?_eq_some_iff.mp hw')⟩
    · simp at hpart

/-- A path of different pairs that exist is no longer than there are such pairs, so a comparison
that may go one level deeper than that never gives up. -/
theorem equalWithin?_ne_none {depth : Nat} {seen : List Pairing} {a b : Value}
    (hnodup : seen.Nodup) (halloc : ∀ pair ∈ seen, h.Allocated pair)
    (hdepth : h.pairCount < seen.length + depth) : h.equalWithin? depth seen a b ≠ none := by
  induction depth generalizing seen a b with
  | zero =>
    -- The path would be longer than the list of all pairs that it is a part of.
    have hle := hnodup.length_le_of_subset fun pair hpair => mem_allPairings (halloc pair hpair)
    rw [length_allPairings] at hle
    omega
  | succ depth ih =>
    cases hpair : Pairing.of? a b with
    | none => simp [equalWithin?_leaf hpair]
    | some pair =>
      by_cases hmet : (pair.isDiagonal || seen.contains pair) = true
      · simp [equalWithin?_met hpair hmet]
      · intro hnone
        rw [equalWithin?_succ hpair hmet] at hnone
        obtain ⟨part, hpart, hgiveUp⟩ := allM_ne_some_true hnone (by simp)
        cases part with
        | none => cases hgiveUp
        | some vw =>
          obtain ⟨v, w⟩ := vw
          have hnew : pair ∉ seen := by simp_all
          refine ih (List.nodup_cons.mpr ⟨hnew, hnodup⟩) ?_ ?_ hgiveUp
          · exact List.forall_mem_cons.mpr ⟨allocated_of_part hpart, halloc⟩
          · rw [List.length_cons]
            omega

/-! ## It finds no difference between bisimilar values -/

theorem equalWithin?_ne_false {depth : Nat} {seen : List Pairing} {a b : Value}
    (hab : h.Bisimilar a b) : h.equalWithin? depth seen a b ≠ some false := by
  induction depth generalizing seen a b with
  | zero =>
    cases hpair : Pairing.of? a b with
    | none =>
      have hsame := (matches_leaf hpair).mp (isBisimulation_bisimilar a b hab)
      simp [equalWithin?_leaf hpair, hsame]
    | some pair =>
      by_cases hmet : (pair.isDiagonal || seen.contains pair) = true
      · simp [equalWithin?_met hpair hmet]
      · simp [equalWithin?_zero hpair hmet]
  | succ depth ih =>
    cases hpair : Pairing.of? a b with
    | none =>
      have hsame := (matches_leaf hpair).mp (isBisimulation_bisimilar a b hab)
      simp [equalWithin?_leaf hpair, hsame]
    | some pair =>
      by_cases hmet : (pair.isDiagonal || seen.contains pair) = true
      · simp [equalWithin?_met hpair hmet]
      · -- Some part was found different, but the parts of bisimilar containers are bisimilar.
        intro hfalse
        rw [equalWithin?_succ hpair hmet] at hfalse
        obtain ⟨part, hpart, hdiffer⟩ := allM_ne_some_true hfalse (by simp)
        obtain ⟨v, w, rfl, hvw⟩ :=
          (matches_parts hpair).mp (isBisimulation_bisimilar a b hab) part hpart
        exact ih hvw hdiffer

/-! ## It misses none -/

/-- A pair that is under comparison further up cannot hide a difference that lies less deep than
those of the pairs above: the least deep difference is reached on a path without a repeated pair. -/
theorem equalWithin?_ne_true {n depth : Nat} {seen : List Pairing} {a b : Value}
    (hdiffer : ¬h.Agree n a b) (hseen : ∀ pair ∈ seen, h.Agree n pair.left pair.right) :
    h.equalWithin? depth seen a b ≠ some true := by
  induction n generalizing depth seen a b with
  | zero => exact absurd trivial hdiffer
  | succ n ih =>
    have hseen' : ∀ pair ∈ seen, h.Agree n pair.left pair.right :=
      fun pair hpair => agree_of_succ (hseen pair hpair)
    by_cases hless : h.Agree n a b
    · -- The least deep difference of `a` and `b` is exactly one look further.
      cases hpair : Pairing.of? a b with
      | none =>
        intro htrue
        rw [equalWithin?_leaf hpair, Option.some.injEq] at htrue
        exact hdiffer ((matches_leaf hpair).mpr htrue)
      | some pair =>
        have hnew : ¬(pair.isDiagonal || seen.contains pair) = true := by
          rw [Bool.or_eq_true, List.contains_iff_mem]
          obtain ⟨rfl, rfl⟩ := Pairing.of?_eq_some hpair
          rintro (hdiag | hmem)
          · exact hdiffer (Pairing.left_eq_right hdiag ▸ agree_refl _ _)
          · exact hdiffer (hseen pair hmem)
        cases depth with
        | zero => simp [equalWithin?_zero hpair hnew]
        | succ depth =>
          intro htrue
          rw [equalWithin?_succ hpair hnew] at htrue
          refine hdiffer ((matches_parts hpair).mpr fun part hpart => ?_)
          have hequal := allM_eq_some_true htrue part hpart
          cases part with
          | none => cases hequal
          | some vw =>
            obtain ⟨v, w⟩ := vw
            refine ⟨v, w, rfl, Classical.byContradiction fun hvw => ?_⟩
            obtain ⟨rfl, rfl⟩ := Pairing.of?_eq_some hpair
            exact ih hvw (List.forall_mem_cons.mpr ⟨hless, hseen'⟩) hequal
    · exact ih hless hseen'

/-! ## The answer -/

/-- With depth to spare, the comparison answers, and the answer is right. -/
theorem equalWithin?_decides {depth : Nat} (hdepth : h.pairCount < depth) (a b : Value) :
    ∃ answer, h.equalWithin? depth [] a b = some answer ∧ (answer = true ↔ h.Bisimilar a b) := by
  have hends : h.equalWithin? depth [] a b ≠ none :=
    equalWithin?_ne_none List.nodup_nil (by simp) (by simpa using hdepth)
  obtain ⟨answer, hrun⟩ := Option.ne_none_iff_exists'.mp hends
  refine ⟨answer, hrun, ⟨fun htrue => ?_, fun hab => ?_⟩⟩
  · subst htrue
    refine bisimilar_of_agree fun n => Classical.byContradiction fun hdiffer => ?_
    exact equalWithin?_ne_true hdiffer (by simp) hrun
  · cases answer with
    | true => rfl
    | false => exact absurd hrun (equalWithin?_ne_false hab)

theorem equal_eq_true_iff {a b : Value} : h.equal a b = true ↔ h.Bisimilar a b := by
  obtain ⟨answer, hrun, hdecides⟩ := equalWithin?_decides (Nat.lt_succ_self h.pairCount) a b
  rw [equal, hrun]
  exact hdecides

/-- Comparison to any depth above the number of pairs of containers comes to an answer, always the
same; the answer is yes for bisimilar values and no for all others, so equality is an equivalence on
every heap. -/
theorem equal_iff_bisimilar (h : Heap) :
    (∀ a b depth, h.pairCount < depth → h.equalWithin? depth [] a b = some (h.equal a b)) ∧
    (∀ a b, h.equal a b = true ↔ h.Bisimilar a b) ∧
    Equivalence fun a b => h.equal a b = true := by
  refine ⟨fun a b depth hdepth => ?_, fun a b => equal_eq_true_iff, ?_⟩
  · obtain ⟨answer, hrun, hdecides⟩ := equalWithin?_decides hdepth a b
    rw [hrun, Option.some.injEq, Bool.eq_iff_iff]
    exact hdecides.trans equal_eq_true_iff.symm
  · simp only [equal_eq_true_iff]
    exact bisimilar_equivalence

/-- Two arrays that hold themselves are equal, a third that also holds null is not. -/
example :
    let h : Heap := { arrays := #[#[.array ⟨0⟩], #[.array ⟨1⟩], #[.array ⟨2⟩, .null]] }
    h.equal (.array ⟨0⟩) (.array ⟨1⟩) = true ∧ h.equal (.array ⟨0⟩) (.array ⟨2⟩) = false := by
  decide

end Heap

end Quill
