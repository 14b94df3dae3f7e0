import Quill.Proofs.Bisimilarity
import Quill.Proofs.Dict
import Quill.Proofs.Run.Delivers
import Quill.Session

/-!
# Objects after settings

An object holds a dictionary, made by one setting after another. Its order tells how it came about,
but equality does not look at the order: objects are equal if under each key the same value was set
last, in whichever order the keys came up, at any depth of a comparison and below whatever pairs
(`equalWithin?_of_same_last`).
-/

set_option autoImplicit false

namespace Quill

namespace Heap

variable {h : Heap}

/-- A value is equal to itself, however deep it is looked into. -/
theorem equalWithin?_self (depth : Nat) (seen : List Pairing) (v : Value) :
    h.equalWithin? depth seen v v = some true := by
  cases hpair : Pairing.of? v v with
  | none =>
    have hsame := (matches_leaf hpair).mp (isBisimulation_eq (h := h) v v rfl)
    rw [equalWithin?_leaf hpair, hsame]
  | some pair =>
    have hdiagonal : pair.isDiagonal = true := by
      cases v <;> simp only [Pairing.of?, Option.some.injEq, reduceCtorEq] at hpair
      · rw [← hpair]
        exact beq_self_eq_true _
      · rw [← hpair]
        exact beq_self_eq_true _
    exact equalWithin?_met hpair (by rw [hdiagonal, Bool.true_or])

theorem allM_of_forall {α : Type} {p : α → Option Bool} {xs : List α}
    (hall : ∀ x ∈ xs, p x = some true) : xs.allM p = some true := by
  apply Classical.byContradiction
  intro hne
  obtain ⟨x, hx, hanswer⟩ := allM_ne_some_true rfl hne
  exact hne (hanswer.symm.trans (hall x hx))

/-- Objects with the same value under each key are equal, below whatever pairs. -/
theorem equalWithin?_of_get?_eq {x y : ObjectRef}
    (hget : ∀ key, (h.object x).get? key = (h.object y).get? key) (depth : Nat)
    (seen : List Pairing) :
    h.equalWithin? (depth + 1) seen (.object x) (.object y) = some true := by
  by_cases hmet : (Pairing.isDiagonal (.objects x y) || seen.contains (.objects x y)) = true
  · exact equalWithin?_met rfl hmet
  · have hmatch : h.Matches (fun v w => v = w) (.object x) (.object y) := by
      refine ⟨fun key => ?_, fun key v w hv hw => ?_⟩
      · rw [Dict.mem_keys_iff, Dict.mem_keys_iff, hget]
      · rw [hget, hw, Option.some.injEq] at hv
        exact hv.symm
    rw [equalWithin?_succ rfl hmet]
    refine allM_of_forall fun part hpart => ?_
    obtain ⟨v, w, rfl, rfl⟩ := parts_objects_iff.mpr hmatch part hpart
    exact equalWithin?_self depth _ v

end Heap

/-- The entries of an object literal are set one after the other. -/
theorem evalEntries_settings {r : Eval} {m m' : Machine} {entries : List (String × Expr)}
    {done d : Dict Value} (h : evalEntries r done entries m = .ok d m') :
    ∃ settings : List (String × Value), settings.map Prod.fst = entries.map Prod.fst ∧
      d = settings.foldl (fun d (key, value) => d.set key value) done := by
  induction entries generalizing done m with
  | nil =>
    cases h
    exact ⟨[], rfl, rfl⟩
  | cons entry rest ih =>
    obtain ⟨value, m₁, -, hrest⟩ := Run.of_bind_eq_ok h
    obtain ⟨settings, hkeys, hd⟩ := ih hrest
    exact ⟨(entry.1, value) :: settings, by simp [hkeys], hd⟩

/-- A list of keys and a table of values, filled by one setting after another, are a map in the
order of first insertion, and the dictionary that is filled in the same way shows the same. Which
values were set last decides whether two of them are the same, and so whether two objects are equal;
object literals fill their dictionaries in this way. -/
theorem objects_after_settings :
    (∀ settings : List (String × Value),
      let parts := SplitDict.ofList settings
      let dict := Dict.ofList settings
      parts.Records settings ∧ dict.keys = parts.keys ∧ (∀ key, dict.get? key = parts.get? key) ∧
        dict.values = parts.values ∧ dict.entries = parts.entries ∧ dict.size = parts.size) ∧
    (∀ settings others : List (String × Value),
      (∀ key, settings.reverse.lookup key = others.reverse.lookup key) →
      (∀ equal : Value → Value → Bool, (∀ v, equal v v = true) →
        SplitDict.sameEntries equal (.ofList settings) (.ofList others) = true ∧
          SplitDict.sameEntries equal (.ofList others) (.ofList settings) = true) ∧
      ∀ (h : Heap) (x y : ObjectRef),
        h.object x = .ofList settings → h.object y = .ofList others →
        ∀ (depth : Nat) (seen : List Pairing),
          h.equalWithin? (depth + 1) seen (.object x) (.object y) = some true ∧
            h.equalWithin? (depth + 1) seen (.object y) (.object x) = some true) ∧
    (∀ (r : Eval) (m m' : Machine) (entries : List (String × Expr)) (d : Dict Value),
      evalEntries r .empty entries m = .ok d m' →
        ∃ settings : List (String × Value),
          settings.map Prod.fst = entries.map Prod.fst ∧ d = .ofList settings) := by
  refine ⟨fun settings => ?_, ?_, fun r m m' entries d hrun => evalEntries_settings hrun⟩
  · have hstands := SplitDict.stands_ofList settings
    exact ⟨SplitDict.records_ofList settings, hstands.keys_eq.symm,
      fun key => (hstands.get?_eq key).symm, hstands.values_eq.symm, hstands.entries_eq.symm,
      hstands.size_eq.symm⟩
  · intro settings others hlast
    refine ⟨fun equal hequal => ⟨SplitDict.sameEntries_of_same_last hlast hequal,
      SplitDict.sameEntries_of_same_last (fun key => (hlast key).symm) hequal⟩, ?_⟩
    intro h x y hx hy depth seen
    have hget : ∀ key, (h.object x).get? key = (h.object y).get? key := fun key => by
      rw [hx, hy, Dict.get?_ofList, Dict.get?_ofList, hlast]
    exact ⟨Heap.equalWithin?_of_get?_eq hget depth seen,
      Heap.equalWithin?_of_get?_eq (fun key => (hget key).symm) depth seen⟩

/-- A key that is set, and set again when another key has come. -/
def setTwice : List (String × Value) := [("b", .bool true), ("a", .null), ("b", .bool false)]

/-- The same values at the end, with the keys in another order. -/
def setOnce : List (String × Value) := [("a", .null), ("b", .bool false)]

theorem setTwice_last (key : String) :
    setTwice.reverse.lookup key = setOnce.reverse.lookup key := by
  simp only [setTwice, setOnce, List.reverse_cons, List.reverse_nil, List.nil_append,
    List.cons_append, List.lookup_cons]
  cases key == "b" <;> cases key == "a" <;> rfl

theorem objects_after_setTwice :
    let h : Heap := { objects := #[Dict.ofList setTwice, Dict.ofList setOnce] }
    let literal : List (String × Expr) := [("b", .bool true .start), ("b", .null .start)]
    ((∀ key, setTwice.reverse.lookup key = setOnce.reverse.lookup key) ∧
      (∀ v : Value, decide (v = v) = true) ∧
      SplitDict.sameEntries (fun v w : Value => decide (v = w)) (.ofList setTwice)
        (.ofList setOnce) = true ∧
      h.object ⟨0⟩ = .ofList setTwice ∧ h.object ⟨1⟩ = .ofList setOnce ∧
      h.equalWithin? 1 [] (.object ⟨0⟩) (.object ⟨1⟩) = some true) ∧
    evalEntries (evaluator smallHost 1) .empty literal .new = .ok (.ofList [("b", .null)]) .new ∧
      ∃ settings : List (String × Value), settings.map Prod.fst = literal.map Prod.fst ∧
        Dict.ofList [("b", .null)] = .ofList settings := by
  intro h literal
  have hequal : ∀ v : Value, decide (v = v) = true := fun v => decide_eq_true rfl
  have hsame := objects_after_settings.2.1 setTwice setOnce setTwice_last
  have hobjects := hsame.2 h ⟨0⟩ ⟨1⟩ rfl rfl 0 []
  have hrun : evalEntries (evaluator smallHost 1) .empty literal .new =
      .ok (.ofList [("b", .null)]) .new := rfl
  exact ⟨⟨setTwice_last, hequal, (hsame.1 _ hequal).1, rfl, rfl, hobjects.1⟩, hrun,
    objects_after_settings.2.2 _ _ _ _ _ hrun⟩

end Quill
