import Mathlib.Data.List.DropRight
import Quill.Method.OfArray
import Quill.Proofs.Method.NewArrays
import Quill.Proofs.Text.Occurrence

/-!
# Splitting strings and joining their parts

A string is split at the occurrences of a separator, and the parts that are empty at the end are
left out. So the joined parts are the string but for the separators that stood between the parts left
out: splitting `"a,,"` at `","` and joining again gives `"a"`. Replacing leaves out nothing.
-/

set_option autoImplicit false

namespace Quill

namespace Text

/-! ## Parts that are left out -/

/-- What is left out at the end are empty parts, and the last part that stays is not empty. -/
theorem rdropWhile_isEmpty (parts : List (List Char)) :
    (∃ n, parts = parts.rdropWhile List.isEmpty ++ List.replicate n []) ∧
      ∀ part ∈ (parts.rdropWhile List.isEmpty).getLast?, part ≠ [] := by
  induction parts using List.reverseRecOn with
  | nil => exact ⟨⟨0, rfl⟩, fun part hpart => by cases hpart⟩
  | append_singleton parts part ih =>
    rw [List.rdropWhile_concat]
    by_cases hempty : part.isEmpty = true
    · obtain ⟨⟨n, hn⟩, hlast⟩ := ih
      rw [if_pos hempty, List.isEmpty_iff.mp hempty]
      refine ⟨⟨n + 1, ?_⟩, hlast⟩
      rw [List.replicate_succ', ← List.append_assoc, ← hn]
    · rw [if_neg hempty, List.getLast?_concat]
      refine ⟨⟨0, (List.append_nil _).symm⟩, fun last hlast => ?_⟩
      rw [← Option.some.inj hlast]
      exact fun hnil => hempty (List.isEmpty_iff.mpr hnil)

variable {sep : Char} {seps cs : List Char}

/-- The parts of a split are those between the occurrences, without the empty ones at the end. -/
theorem cut_eq_split (sep : Char) (seps cs : List Char) :
    ∃ n, cut sep seps cs = split (sep :: seps) cs ++ List.replicate n [] ∧
      (cs ≠ [] → ∀ part ∈ (split (sep :: seps) cs).getLast?, part ≠ []) := by
  by_cases hcs : cs = []
  · subst hcs
    exact ⟨0, by rw [cut]; rfl, fun hne => absurd rfl hne⟩
  have hempty : ¬cs.isEmpty = true := fun h => hcs (List.isEmpty_iff.mp h)
  by_cases hnone : (find? (sep :: seps) cs).isNone = true
  · -- Without an occurrence the text is the only part in both.
    have hfree := find?_eq_none_iff.mp (Option.isNone_iff_eq_none.mp hnone)
    have hsplit : split (sep :: seps) cs = [cs] := by
      rw [split, if_neg hempty]
      exact if_pos hnone
    rw [hsplit, (cuts_cut sep seps cs).unique (.last hfree)]
    refine ⟨0, rfl, fun _ part hpart => ?_⟩
    rw [← Option.some.inj hpart]
    exact hcs
  · have hsplit : split (sep :: seps) cs = (cut sep seps cs).rdropWhile List.isEmpty := by
      rw [split, if_neg hempty]
      exact if_neg hnone
    obtain ⟨⟨n, hn⟩, hlast⟩ := rdropWhile_isEmpty (cut sep seps cs)
    rw [hsplit]
    exact ⟨n, hn, fun _ => hlast⟩

end Text

/-! ## Joining -/

variable {s sep : String}

/-- Empty parts at the end are so many more separators, but one less where there is no other part. -/
theorem intercalate_append_replicate (sep : String) (parts : List String) (n : Nat) :
    ∃ k, sep.intercalate (parts ++ List.replicate n "") =
      sep.intercalate parts ++ String.join (List.replicate k sep) := by
  induction n with
  | zero => exact ⟨0, by rw [List.replicate_zero, List.append_nil]; exact String.append_empty.symm⟩
  | succ n ih =>
    rw [List.replicate_succ', ← List.append_assoc]
    by_cases hnil : parts ++ List.replicate n "" = []
    · rw [hnil, (List.append_eq_nil_iff.mp hnil).1]
      exact ⟨0, by simp⟩
    · obtain ⟨k, hk⟩ := ih
      rw [String.intercalate_append_of_ne_nil hnil (List.cons_ne_nil _ _), hk]
      refine ⟨k + 1, ?_⟩
      rw [List.replicate_succ', String.join_append, String.intercalate_singleton,
        String.append_empty, String.append_assoc]
      simp

/-! ## The methods -/

/-- The parts that a split delivers. -/
def splitParts (s sep : String) : List String :=
  (Text.split sep.toList s.toList).map String.ofList

theorem map_toList_splitParts (s sep : String) :
    (splitParts s sep).map String.toList = Text.split sep.toList s.toList := by
  rw [splitParts, List.map_map]
  exact List.map_id'' (fun cs => String.toList_ofList) _

theorem split_makes (s sep : String) (m : Machine) :
    (StringMethod.split.call s [.string sep]).Makes m ((splitParts s sep).map .string) := by
  rw [splitParts, List.map_map]
  exact Run.makes_allocArray m ((Text.split sep.toList s.toList).map .ofChars).toArray

theorem join_string (r : Eval) {m : Machine} {a : ArrayRef} {parts : List String}
    (h : (m.heap.array a).toList = parts.map .string) (sep : String) :
    ArrayMethod.join.call r a [.string sep] m = .ok (.string (sep.intercalate parts)) m := by
  have htexts : (m.heap.array a).toList.map Value.toText = parts := by
    rw [h, List.map_map]
    exact List.map_id'' (fun part => rfl) parts
  calc
    ArrayMethod.join.call r a [.string sep] m
      = .ok (.string (sep.intercalate ((m.heap.array a).toList.map Value.toText))) m := rfl
    _ = .ok (.string (sep.intercalate parts)) m := by rw [htexts]

/-- Every occurrence of a text that is not empty is replaced. -/
theorem replace_value (hsep : sep ≠ "") {cuts : List String}
    (h : Text.Cuts sep.toList s.toList (cuts.map String.toList)) (replacement : String) :
    StringMethod.replace.value s [.string sep, .string replacement] =
      .string (replacement.intercalate cuts) := by
  obtain ⟨c, more, hlist⟩ := List.exists_cons_of_ne_nil (mt String.toList_eq_nil_iff.mp hsep)
  have hcuts : Text.cut c more s.toList = cuts.map String.toList := by
    rw [hlist] at h
    exact (Text.cuts_cut c more s.toList).unique h
  have hreplace : Text.replace sep.toList replacement.toList s.toList =
      (replacement.intercalate cuts).toList := by
    rw [hlist, Text.replace, Text.join, hcuts, String.toList_intercalate]
  show Value.string (String.ofList (Text.replace sep.toList replacement.toList s.toList)) = _
  rw [hreplace, String.ofList_toList]

theorem intercalate_chars (cs : List Char) :
    "".intercalate (cs.map fun c => String.ofList [c]) = String.ofList cs := by
  induction cs with
  | nil => rfl
  | cons c cs ih =>
    cases cs with
    | nil => exact String.intercalate_singleton
    | cons d cs =>
      rw [List.map_cons] at ih
      rw [List.map_cons, List.map_cons, String.intercalate_cons_cons, ih, String.append_empty,
        ← String.ofList_append]
      rfl

/-- The empty separator cuts between all characters. -/
theorem splitParts_empty (s : String) :
    "".intercalate (splitParts s "") = s ∧ (s ≠ "" → ∀ part ∈ splitParts s "", part.length = 1) := by
  by_cases hs : s = ""
  · subst hs
    exact ⟨rfl, fun hne => absurd rfl hne⟩
  have hempty : ¬s.toList.isEmpty = true := fun h =>
    hs (String.toList_eq_nil_iff.mp (List.isEmpty_iff.mp h))
  have hparts : splitParts s "" = s.toList.map fun c => String.ofList [c] := by
    have hsplit : Text.split [] s.toList = s.toList.map ([·]) := if_neg hempty
    rw [splitParts, String.toList_empty, hsplit, List.map_map]
    rfl
  rw [hparts]
  refine ⟨by rw [intercalate_chars, String.ofList_toList], fun _ part hpart => ?_⟩
  obtain ⟨c, -, rfl⟩ := List.mem_map.mp hpart
  exact String.length_ofList

/-- The parts between the occurrences of a separator are those of the split and empty ones behind
them. -/
theorem exists_cuts_eq_splitParts (hsep : sep ≠ "") (s : String) :
    ∃ cuts n, Text.Cuts sep.toList s.toList (cuts.map String.toList) ∧
      cuts = splitParts s sep ++ List.replicate n "" ∧
      (s ≠ "" → ∀ part ∈ (splitParts s sep).getLast?, part ≠ "") := by
  obtain ⟨c, more, hlist⟩ := List.exists_cons_of_ne_nil (mt String.toList_eq_nil_iff.mp hsep)
  obtain ⟨n, hcut, hlast⟩ := Text.cut_eq_split c more s.toList
  rw [← hlist] at hcut hlast
  refine ⟨splitParts s sep ++ List.replicate n "", n, ?_, rfl, fun hs part hpart => ?_⟩
  · have hcuts : (splitParts s sep ++ List.replicate n "").map String.toList =
        Text.cut c more s.toList := by
      rw [hcut, List.map_append, map_toList_splitParts, List.map_replicate, String.toList_empty]
    rw [hcuts, hlist]
    exact Text.cuts_cut c more s.toList
  · rw [splitParts, List.getLast?_map] at hpart
    obtain ⟨cs, hcs, rfl⟩ := Option.map_eq_some_iff.mp hpart
    have hne := hlast (mt String.toList_eq_nil_iff.mp hs) cs hcs
    exact fun hnil => hne (by rw [← String.toList_ofList (l := cs), hnil]; rfl)

/-- Splitting a string, joining the parts with the separator, and replacing. The parts are those
between the occurrences of the separator, taken from the left and not overlapping, but for the empty
ones at the end; joined they are the string without the separators that stood there, and the last of
them is not empty. At the same occurrences, with all empty parts, a text is replaced. The empty
separator cuts between all characters. -/
theorem split_then_join (r : Eval) (m : Machine) (s sep : String) :
    ∃ a m' parts joined, StringMethod.split.call s [.string sep] m = .ok (.array a) m' ∧
      m.Gains m' a (parts.map .string) ∧
      ArrayMethod.join.call r a [.string sep] m' = .ok (.string joined) m' ∧
      (sep = "" → joined = s ∧ (s ≠ "" → ∀ part ∈ parts, part.length = 1)) ∧
      (sep ≠ "" →
        (∀ part ∈ parts, ¬sep.toList <:+: part.toList) ∧
        (∃ k, s = joined ++ String.join (List.replicate k sep)) ∧
        (s ≠ "" → ∀ part ∈ parts.getLast?, part ≠ "") ∧
        ∃ cuts n, Text.Cuts sep.toList s.toList (cuts.map String.toList) ∧
          cuts = parts ++ List.replicate n "" ∧
          ∀ replacement, StringMethod.replace.value s [.string sep, .string replacement] =
            .string (replacement.intercalate cuts)) := by
  obtain ⟨a, m', hsplit, hgains⟩ := split_makes s sep m
  refine ⟨a, m', splitParts s sep, sep.intercalate (splitParts s sep), hsplit, hgains,
    join_string r hgains.elements sep, ?_, fun hsep => ?_⟩
  · rintro rfl
    exact splitParts_empty s
  obtain ⟨cuts, n, hcuts, heq, hlast⟩ := exists_cuts_eq_splitParts hsep s
  refine ⟨fun part hpart => ?_, ?_, hlast, cuts, n, hcuts, heq, replace_value hsep hcuts⟩
  · have hmem : part.toList ∈ cuts.map String.toList := by
      rw [heq]
      exact List.mem_map_of_mem (List.mem_append_left _ hpart)
    exact hcuts.not_infix (mt String.toList_eq_nil_iff.mp hsep) _ hmem
  · obtain ⟨k, hk⟩ := intercalate_append_replicate sep (splitParts s sep) n
    refine ⟨k, ?_⟩
    rw [← hk, ← heq, ← String.toList_inj, String.toList_intercalate]
    exact hcuts.intercalate_eq.symm

end Quill
