import Quill.Proofs.Method.Cutting
import Quill.Proofs.Text.Bytes

/-!
# Searching strings

All the searches ask where a text stands in a string, and a substring shows whether it stands at a
position. The index of a text is the first position where it does; that it is included, that it is in
front and that it is at the end are said by the index and by a substring. Positions count characters,
also when the search goes through the bytes of the strings.
-/

set_option autoImplicit false

namespace Quill

variable {s t : String} {i : Nat}

/-! ## Where a text stands -/

/-- The substring at a position that is as long as the text is the text. -/
def StandsAt (t s : String) (i : Nat) : Prop :=
  charsBetween s.toList i (i + t.length : Nat) = t.toList

theorem standsAt_iff : StandsAt t s i ↔ Text.OccursAt t.toList s.toList i := by
  rw [StandsAt, charsBetween_add, Text.OccursAt, List.prefix_iff_eq_take, String.length_toList]
  exact eq_comm

theorem substring_eq_iff {start stop : Value} (hstart : start.Names i)
    (hstop : stop.Names (i + t.length)) :
    StringMethod.substring.value s [start, stop] = .string t ↔ StandsAt t s i := by
  have hcut : charsBetween s.toList start.toIndex (boundOr s.toList.length stop) =
      charsBetween s.toList i (i + t.length : Nat) := by
    rw [boundOr_eq hstop.1, hstart.2, hstop.2]
  have hvalue : StringMethod.substring.value s [start, stop] =
      .string (String.ofList (charsBetween s.toList i (i + t.length : Nat))) :=
    congrArg Value.ofChars hcut
  rw [hvalue, Value.string.injEq, ← String.toList_inj, String.toList_ofList]
  exact Iff.rfl

theorem charsBetween_length {cs : List Char} (hi : i ≤ cs.length) :
    charsBetween cs i cs.length = cs.drop i := by
  have hadd := charsBetween_add cs i (cs.length - i)
  rw [Nat.add_sub_cancel' hi] at hadd
  rw [hadd, ← List.length_drop, List.take_length]

/-- A string ends with a text when the substring of its last characters is the text. -/
theorem suffix_iff_charsBetween :
    t.toList <:+ s.toList ↔
      t.length ≤ s.length ∧
        charsBetween s.toList (s.length - t.length) s.length = t.toList := by
  rw [← String.length_toList, ← String.length_toList]
  constructor
  · intro h
    have hle := h.length_le
    rw [← Int.natCast_sub hle, charsBetween_length (Nat.sub_le _ _)]
    exact ⟨hle, (List.suffix_iff_eq_drop.mp h).symm⟩
  · rintro ⟨hle, hcut⟩
    rw [← Int.natCast_sub hle, charsBetween_length (Nat.sub_le _ _)] at hcut
    exact hcut ▸ List.drop_suffix _ _

/-! ## The methods -/

theorem indexOf_value (s t : String) :
    StringMethod.indexOf.value s [.string t] = positionValue (Text.find? t.toList s.toList) :=
  rfl

/-- The index is the first position where the text stands. -/
theorem find?_eq_some_iff_standsAt :
    Text.find? t.toList s.toList = some i ↔ StandsAt t s i ∧ ∀ j < i, ¬StandsAt t s j := by
  simp only [Text.find?_eq_some_iff, Text.FirstAt, standsAt_iff]

theorem find?_eq_none_iff_standsAt :
    Text.find? t.toList s.toList = none ↔ ∀ i, ¬StandsAt t s i := by
  simp only [Text.find?_eq_none_iff, Text.infix_iff_exists_occursAt, not_exists, standsAt_iff]

theorem find?_eq_zero_iff : Text.find? t.toList s.toList = some 0 ↔ t.toList <+: s.toList := by
  rw [Text.find?_eq_some_iff]
  exact ⟨fun h => h.1, fun h => ⟨h, fun j hj => absurd hj (Nat.not_lt_zero j)⟩⟩

theorem includes_value (s t : String) :
    StringMethod.includes.value s [.string t] = .bool (decide (t.toList <:+: s.toList)) := by
  have hfound : (Text.find? t.toList s.toList).isSome = decide (t.toList <:+: s.toList) := by
    rw [Bool.eq_iff_iff, decide_eq_true_iff, Option.isSome_iff_ne_none, Ne, Text.find?_eq_none_iff,
      not_not]
  exact congrArg Value.bool hfound

theorem startsWith_value (s t : String) :
    StringMethod.startsWith.value s [.string t] = .bool (decide (t.toList <+: s.toList)) := by
  have hfront : t.toList.isPrefixOf s.toList = decide (t.toList <+: s.toList) := by
    rw [Bool.eq_iff_iff, decide_eq_true_iff, List.isPrefixOf_iff_prefix]
  exact congrArg Value.bool hfront

theorem endsWith_value (s t : String) :
    StringMethod.endsWith.value s [.string t] = .bool (decide (t.toList <:+ s.toList)) := by
  have hback : t.toList.isSuffixOf s.toList = decide (t.toList <:+ s.toList) := by
    rw [Bool.eq_iff_iff, decide_eq_true_iff, List.isSuffixOf_iff_suffix]
  exact congrArg Value.bool hback

/-- The bytes in front of the first place where the bytes of the text stand are those of as many
characters as the index says. -/
theorem indexOf_of_firstAt_utf8 {b : Nat} (h : Text.FirstAt (Text.utf8 t) (Text.utf8 s) b) :
    ∃ front back, s = front ++ back ∧ front.utf8ByteSize = b ∧
      StringMethod.indexOf.value s [.string t] = .ofNat front.length := by
  rw [Text.utf8_eq, Text.utf8_eq] at h
  obtain ⟨i, hfind, rfl⟩ := Text.firstAt_bytes_iff.mp h
  have hi := (Text.find?_eq_some_iff.mp hfind).le_length
  refine ⟨String.ofList (s.toList.take i), String.ofList (s.toList.drop i), ?_,
    Text.utf8ByteSize_ofList _, ?_⟩
  · rw [← String.ofList_append, List.take_append_drop, String.ofList_toList]
  · rw [indexOf_value, hfind, String.length_ofList, List.length_take, Nat.min_eq_left hi]
    rfl

/-- Searching a string. The index is the least position where the substring of the length of the
text is the text, and minus one if there is none; the other searches hold when the index is not minus
one, when it is zero, and when the substring of the last characters is the text. The bytes of the two
strings say the same: the index counts the characters in front of the first place where the bytes of
the text stand. -/
theorem searches_agree (s t : String) :
    (∀ i : Nat, ∀ start stop : Value, start.Names i → stop.Names (i + t.length) →
      (StringMethod.substring.value s [start, stop] = .string t ↔ StandsAt t s i)) ∧
    ((∃ i, StringMethod.indexOf.value s [.string t] = .ofNat i ∧ StandsAt t s i ∧
        ∀ j < i, ¬StandsAt t s j) ∨
      StringMethod.indexOf.value s [.string t] = .number (Number.ofInt (-1)) ∧
        ∀ i, ¬StandsAt t s i) ∧
    (StringMethod.indexOf.value s [.string t] = .number (Number.ofInt (-1)) ↔
      ∀ i, ¬StandsAt t s i) ∧
    StringMethod.includes.value s [.string t] =
      .bool (StringMethod.indexOf.value s [.string t] ≠ .number (Number.ofInt (-1))) ∧
    StringMethod.contains.value s [.string t] = StringMethod.includes.value s [.string t] ∧
    StringMethod.startsWith.value s [.string t] =
      .bool (StringMethod.indexOf.value s [.string t] = .ofNat 0) ∧
    StringMethod.endsWith.value s [.string t] =
      .bool (t.length ≤ s.length ∧
        charsBetween s.toList (s.length - t.length) s.length = t.toList) ∧
    (∀ b, Text.FirstAt (Text.utf8 t) (Text.utf8 s) b →
      ∃ front back, s = front ++ back ∧ front.utf8ByteSize = b ∧
        StringMethod.indexOf.value s [.string t] = .ofNat front.length) ∧
    StringMethod.includes.value s [.string t] = .bool (Text.utf8 t <:+: Text.utf8 s) ∧
    StringMethod.startsWith.value s [.string t] = .bool (Text.utf8 t <+: Text.utf8 s) ∧
    StringMethod.endsWith.value s [.string t] = .bool (Text.utf8 t <:+ Text.utf8 s) := by
  have hnone : StringMethod.indexOf.value s [.string t] = .number (Number.ofInt (-1)) ↔
      ¬t.toList <:+: s.toList := by
    rw [indexOf_value, positionValue_eq_none_iff, Text.find?_eq_none_iff]
  have hzero : StringMethod.indexOf.value s [.string t] = .ofNat 0 ↔ t.toList <+: s.toList := by
    rw [indexOf_value, positionValue_eq_zero_iff, find?_eq_zero_iff]
  refine ⟨fun i start stop => substring_eq_iff, ?_, ?_, ?_, rfl, ?_, ?_,
    fun b => indexOf_of_firstAt_utf8, ?_, ?_, ?_⟩
  · cases hfind : Text.find? t.toList s.toList with
    | some i =>
      exact .inl ⟨i, congrArg positionValue hfind, find?_eq_some_iff_standsAt.mp hfind⟩
    | none => exact .inr ⟨congrArg positionValue hfind, find?_eq_none_iff_standsAt.mp hfind⟩
  · rw [indexOf_value, positionValue_eq_none_iff, find?_eq_none_iff_standsAt]
  · simp only [includes_value, ne_eq, hnone, not_not]
  · simp only [startsWith_value, hzero]
  · simp only [endsWith_value, suffix_iff_charsBetween]
  · simp only [includes_value, Text.utf8_eq, Text.bytes_infix_iff]
  · simp only [startsWith_value, Text.utf8_eq, Text.bytes_prefix_iff]
  · simp only [endsWith_value, Text.utf8_eq, Text.bytes_suffix_iff]

end Quill
