import Mathlib.Data.List.Infix
import Mathlib.Data.List.Induction
import Quill.Text.Search

/-!
# Occurrences

Where a text stands in another, and the parts that are left when it is cut out at its first
occurrence, at the first one behind that, and so on. The search finds the first occurrence, and the
parts that it cuts a text into are these. Between lists of any kind, so that it can be said of the
bytes of a text too.
-/

set_option autoImplicit false

namespace Quill.Text

section Lists

variable {α : Type} {pattern xs : List α} {i j : Nat}

/-- The pattern stands at a position: what is from there on begins with it. -/
def OccursAt (pattern xs : List α) (i : Nat) : Prop := pattern <+: xs.drop i

/-- The pattern stands at a position and at none before. -/
def FirstAt (pattern xs : List α) (i : Nat) : Prop :=
  OccursAt pattern xs i ∧ ∀ j < i, ¬OccursAt pattern xs j

theorem FirstAt.unique (hi : FirstAt pattern xs i) (hj : FirstAt pattern xs j) : i = j := by
  rcases Nat.lt_trichotomy i j with hlt | heq | hlt
  · exact absurd hi.1 (hj.2 i hlt)
  · exact heq
  · exact absurd hj.1 (hi.2 j hlt)

/-- Where a pattern stands at all, it stands at some first position. -/
theorem exists_firstAt (h : OccursAt pattern xs i) : ∃ j, FirstAt pattern xs j := by
  induction i using Nat.strong_induction_on with
  | _ i ih =>
    by_cases hbefore : ∃ j < i, OccursAt pattern xs j
    · obtain ⟨j, hj, hoccurs⟩ := hbefore
      exact ih j hj hoccurs
    · exact ⟨i, h, fun j hj hoccurs => hbefore ⟨j, hj, hoccurs⟩⟩

/-- Behind the end a pattern stands only if it stands at the end too. -/
theorem FirstAt.le_length (h : FirstAt pattern xs i) : i ≤ xs.length := by
  by_contra hlt
  have hoccurs : pattern <+: xs.drop i := h.1
  rw [List.drop_eq_nil_of_le (Nat.le_of_not_le hlt), ← List.drop_length] at hoccurs
  exact h.2 xs.length (Nat.lt_of_not_le hlt) hoccurs

theorem infix_iff_exists_occursAt : pattern <:+: xs ↔ ∃ i, OccursAt pattern xs i := by
  constructor
  · rintro ⟨front, back, rfl⟩
    refine ⟨front.length, back, ?_⟩
    rw [List.append_assoc, List.drop_left]
  · rintro ⟨i, hi⟩
    exact hi.isInfix.trans (List.drop_suffix i xs).isInfix

theorem OccursAt.length_le (h : OccursAt pattern xs i) (hne : pattern ≠ []) :
    i + pattern.length ≤ xs.length := by
  have hle : pattern.length ≤ (xs.drop i).length := List.IsPrefix.length_le h
  have hpos := List.length_pos_of_ne_nil hne
  rw [List.length_drop] at hle
  omega

/-- What stands in the front stands in the whole. -/
theorem OccursAt.append_right (h : OccursAt pattern xs i) (hi : i ≤ xs.length) (more : List α) :
    OccursAt pattern (xs ++ more) i := by
  rw [OccursAt, List.drop_append_of_le_length hi]
  exact h.trans (List.prefix_append _ _)

/-- In front of the first occurrence the pattern does not stand. -/
theorem FirstAt.not_infix {part rest : List α} (hne : pattern ≠ [])
    (h : FirstAt pattern (part ++ pattern ++ rest) part.length) : ¬pattern <:+: part := by
  rw [infix_iff_exists_occursAt]
  rintro ⟨j, hj⟩
  have hlength := hj.length_le hne
  have hpos := List.length_pos_of_ne_nil hne
  rw [List.append_assoc] at h
  exact h.2 j (by omega) (hj.append_right (by omega) _)

/-! ## Cutting -/

/-- A list is cut into parts: at the first occurrence of the separator, and what is behind it in the
same way, until there is none. -/
inductive Cuts (sep : List α) : List α → List (List α) → Prop
  | last {xs : List α} : ¬sep <:+: xs → Cuts sep xs [xs]
  | next {part rest : List α} {parts : List (List α)} :
      FirstAt sep (part ++ sep ++ rest) part.length → Cuts sep rest parts →
      Cuts sep (part ++ sep ++ rest) (part :: parts)

namespace Cuts

variable {sep : List α} {parts others : List (List α)}

theorem ne_nil (h : Cuts sep xs parts) : parts ≠ [] := by
  cases h <;> exact List.cons_ne_nil _ _

/-- The parts with the separator between them are the list. -/
theorem intercalate_eq (h : Cuts sep xs parts) : sep.intercalate parts = xs := by
  induction h with
  | last _ => simp
  | next _ hrest ih =>
    rw [List.intercalate_cons_of_ne_nil hrest.ne_nil, ih]

/-- No part has the separator in it. -/
theorem not_infix (hne : sep ≠ []) (h : Cuts sep xs parts) : ∀ part ∈ parts, ¬sep <:+: part := by
  induction h with
  | last hfree => exact fun part hpart => List.mem_singleton.mp hpart ▸ hfree
  | next hfirst _ ih =>
    exact List.forall_mem_cons.mpr ⟨hfirst.not_infix hne, ih⟩

/-- There is one way to cut a list. -/
theorem unique (h : Cuts sep xs parts) (h' : Cuts sep xs others) : parts = others := by
  induction h generalizing others with
  | last hfree =>
    cases h' with
    | last _ => rfl
    | next _ _ => exact absurd ⟨_, _, rfl⟩ hfree
  | @next part rest parts hfirst _ ih =>
    generalize hxs : part ++ sep ++ rest = xs at h'
    cases h' with
    | last hfree => exact absurd ⟨_, _, hxs⟩ hfree
    | @next part' rest' parts' hfirst' hrest' =>
      rw [← hxs] at hfirst'
      have hlength := hfirst.unique hfirst'
      rw [List.append_assoc, List.append_assoc] at hxs
      obtain ⟨rfl, hbehind⟩ := List.append_inj hxs hlength
      rw [ih (List.append_cancel_left hbehind ▸ hrest')]

end Cuts

end Lists

/-! ## The search -/

variable {needle cs : List Char} {i : Nat}

/-- The search finds the first occurrence, and nothing only where there is none. -/
theorem find?_spec (needle cs : List Char) :
    match find? needle cs with
    | some i => FirstAt needle cs i
    | none => ∀ i, ¬OccursAt needle cs i := by
  induction cs with
  | nil =>
    rw [find?]
    by_cases hempty : needle.isEmpty = true
    · rw [if_pos hempty, List.isEmpty_iff.mp hempty]
      exact ⟨List.nil_prefix, fun j hj => absurd hj (Nat.not_lt_zero j)⟩
    · rw [if_neg hempty]
      intro i hi
      rw [OccursAt, List.drop_nil, List.prefix_nil] at hi
      exact hempty (List.isEmpty_iff.mpr hi)
  | cons c cs ih =>
    rw [find?]
    by_cases hprefix : needle.isPrefixOf (c :: cs) = true
    · rw [if_pos hprefix]
      exact ⟨List.isPrefixOf_iff_prefix.mp hprefix, fun j hj => absurd hj (Nat.not_lt_zero j)⟩
    · -- It does not stand in the front, so all its positions are those of the rest, moved by one.
      rw [if_neg hprefix]
      have hfront : ¬OccursAt needle (c :: cs) 0 := fun h =>
        hprefix (List.isPrefixOf_iff_prefix.mpr h)
      cases hfind : find? needle cs with
      | none =>
        rw [hfind] at ih
        intro i hi
        cases i with
        | zero => exact hfront hi
        | succ i => exact ih i hi
      | some i =>
        rw [hfind] at ih
        refine ⟨ih.1, fun j hj hoccurs => ?_⟩
        cases j with
        | zero => exact hfront hoccurs
        | succ j => exact ih.2 j (Nat.lt_of_succ_lt_succ hj) hoccurs

theorem find?_eq_some_iff : find? needle cs = some i ↔ FirstAt needle cs i := by
  have hspec := find?_spec needle cs
  cases hfind : find? needle cs with
  | none =>
    rw [hfind] at hspec
    exact ⟨fun h => (by cases h), fun h => absurd h.1 (hspec i)⟩
  | some j =>
    rw [hfind] at hspec
    rw [Option.some.injEq]
    exact ⟨fun h => h ▸ hspec, fun h => hspec.unique h⟩

theorem find?_eq_none_iff : find? needle cs = none ↔ ¬needle <:+: cs := by
  rw [infix_iff_exists_occursAt, not_exists]
  have hspec := find?_spec needle cs
  cases hfind : find? needle cs with
  | none =>
    rw [hfind] at hspec
    exact ⟨fun _ => hspec, fun _ => rfl⟩
  | some j =>
    rw [hfind] at hspec
    exact ⟨fun h => (by cases h), fun h => absurd hspec.1 (h j)⟩

/-! ## The parts -/

variable {sep : Char} {seps : List Char}

/-- A character in front of which the separator does not stand belongs to the first part. -/
theorem Cuts.consFirst {c : Char} {parts : List (List Char)}
    (hfront : ¬sep :: seps <+: c :: cs) (h : Cuts (sep :: seps) cs parts) :
    Cuts (sep :: seps) (c :: cs) (consFirst c parts) := by
  cases h with
  | last hfree =>
    refine .last fun hin => ?_
    rcases List.infix_cons_iff.mp hin with hprefix | hinfix
    · exact hfront hprefix
    · exact hfree hinfix
  | @next part rest parts hfirst hrest =>
    have hfirst' : FirstAt (sep :: seps) (c :: part ++ (sep :: seps) ++ rest) (part.length + 1) := by
      refine ⟨hfirst.1, fun j hj hoccurs => ?_⟩
      cases j with
      | zero => exact hfront hoccurs
      | succ j => exact hfirst.2 j (Nat.lt_of_succ_lt_succ hj) hoccurs
    exact .next hfirst' hrest

/-- A text is cut at the first occurrence, at the first one behind that, and so on. -/
theorem cuts_cut (sep : Char) (seps cs : List Char) :
    Cuts (sep :: seps) cs (cut sep seps cs) := by
  induction cs using cut.induct sep seps with
  | case1 =>
    rw [cut]
    exact .last fun hin => List.cons_ne_nil _ _ (List.infix_nil.mp hin)
  | case2 c cs hprefix ih =>
    obtain ⟨rest, hrest⟩ := List.isPrefixOf_iff_prefix.mp hprefix
    rw [List.cons_append] at hrest
    obtain ⟨rfl, rfl⟩ := List.cons.inj hrest
    rw [List.drop_left] at ih
    rw [cut, if_pos hprefix, List.drop_left]
    have hfirst : FirstAt (sep :: seps) ([] ++ (sep :: seps) ++ rest) 0 :=
      ⟨List.prefix_append _ _, fun j hj => absurd hj (Nat.not_lt_zero j)⟩
    exact .next hfirst ih
  | case3 c cs hprefix ih =>
    rw [cut, if_neg hprefix]
    exact ih.consFirst fun h => hprefix (List.isPrefixOf_iff_prefix.mpr h)

end Quill.Text
