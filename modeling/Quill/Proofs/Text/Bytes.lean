import Quill.Proofs.Text.Occurrence

/-!
# Occurrences in bytes

A text may be searched character by character or byte by byte in its UTF-8 form. The two searches
find the same, since the first byte of a character is never one of the bytes that continue a
character: where the bytes of a text stand in those of another, they stand at the beginning of a
character (`exists_take_of_isUTF8FirstByte`). What is in front are then so many whole characters, and
the first occurrence in bytes is the first one in characters (`firstAt_bytes_iff`).
-/

set_option autoImplicit false

namespace Quill.Text

/-- The text in UTF-8. -/
def bytes (cs : List Char) : List UInt8 := cs.flatMap String.utf8EncodeChar

/-- The bytes that a string is stored in. -/
def utf8 (s : String) : List UInt8 := s.toUTF8.data.toList

variable {c d : Char} {cs ds needle : List Char} {xs ys : List UInt8} {b i j : Nat}

theorem bytes_nil : bytes [] = [] := rfl

theorem bytes_cons (c : Char) (cs : List Char) :
    bytes (c :: cs) = String.utf8EncodeChar c ++ bytes cs :=
  List.flatMap_cons

theorem bytes_append (cs ds : List Char) : bytes (cs ++ ds) = bytes cs ++ bytes ds :=
  List.flatMap_append

theorem utf8_eq (s : String) : utf8 s = bytes s.toList := by
  rw [utf8, String.toUTF8_eq_toByteArray, ← String.utf8Encode_toList]
  exact List.toList_data_toByteArray

theorem utf8ByteSize_ofList (cs : List Char) :
    (String.ofList cs).utf8ByteSize = (bytes cs).length := by
  rw [← String.size_toByteArray, String.toByteArray_ofList]
  exact List.size_toByteArray

theorem length_utf8EncodeChar_pos (c : Char) : 0 < (String.utf8EncodeChar c).length := by
  rw [String.length_utf8EncodeChar]
  exact c.utf8Size_pos

theorem bytes_eq_nil_iff : bytes cs = [] ↔ cs = [] := by
  cases cs with
  | nil => exact ⟨fun _ => rfl, fun _ => rfl⟩
  | cons c cs =>
    rw [bytes_cons, List.append_eq_nil_iff]
    exact ⟨fun h => absurd h.1 (List.ne_nil_of_length_pos (length_utf8EncodeChar_pos c)),
      fun h => (by cases h)⟩

/-! ## Characters can be told from their bytes -/

/-- The first character is decided by the bytes that the text begins with. -/
theorem utf8EncodeChar_append_inj
    (h : String.utf8EncodeChar c ++ xs = String.utf8EncodeChar d ++ ys) : c = d ∧ xs = ys := by
  have hc := ByteArray.utf8DecodeChar?_utf8EncodeChar_append (b := xs.toByteArray) (c := c)
  have hd := ByteArray.utf8DecodeChar?_utf8EncodeChar_append (b := ys.toByteArray) (c := d)
  rw [← List.toByteArray_append] at hc hd
  rw [h, hd] at hc
  obtain rfl := Option.some.inj hc
  exact ⟨rfl, List.append_cancel_left h⟩

theorem bytes_prefix_iff : bytes ds <+: bytes cs ↔ ds <+: cs := by
  induction ds generalizing cs with
  | nil => exact ⟨fun _ => List.nil_prefix, fun _ => List.nil_prefix⟩
  | cons d ds ih =>
    constructor
    · rintro ⟨more, hmore⟩
      cases cs with
      | nil =>
        rw [bytes_cons, bytes_nil, List.append_assoc, List.append_eq_nil_iff] at hmore
        exact absurd hmore.1 (List.ne_nil_of_length_pos (length_utf8EncodeChar_pos d))
      | cons c cs =>
        rw [bytes_cons, bytes_cons, List.append_assoc] at hmore
        obtain ⟨rfl, hrest⟩ := utf8EncodeChar_append_inj hmore
        exact List.cons_prefix_cons.mpr ⟨rfl, ih.mp ⟨more, hrest⟩⟩
    · rintro ⟨more, rfl⟩
      rw [bytes_append]
      exact List.prefix_append _ _

theorem bytes_injective (h : bytes cs = bytes ds) : cs = ds := by
  have hcs : cs <+: ds := bytes_prefix_iff.mp (h ▸ List.prefix_rfl)
  have hds : ds <+: cs := bytes_prefix_iff.mp (h ▸ List.prefix_rfl)
  exact hcs.eq_of_length_le hds.length_le

/-! ## The bytes in front of a character -/

theorem drop_bytes_take (cs : List Char) (i : Nat) :
    (bytes cs).drop (bytes (cs.take i)).length = bytes (cs.drop i) := by
  conv_lhs => rw [← List.take_append_drop i cs, bytes_append]
  rw [List.take_append_drop, List.drop_left]

/-- A byte that begins a character stands behind the bytes of so many whole characters. -/
theorem exists_take_of_isUTF8FirstByte (hb : b < (bytes cs).length)
    (hfirst : (bytes cs)[b].IsUTF8FirstByte) :
    ∃ i < cs.length, (bytes (cs.take i)).length = b := by
  induction cs generalizing b with
  | nil => exact absurd hb (Nat.not_lt_zero b)
  | cons c cs ih =>
    by_cases hlt : b < (String.utf8EncodeChar c).length
    · -- Of the bytes of a character only the first one begins it.
      have hbyte : (bytes (c :: cs))[b] = (String.utf8EncodeChar c)[b] := by
        simp only [bytes_cons, List.getElem_append_left hlt]
      rw [hbyte, UInt8.isUTF8FirstByte_getElem_utf8EncodeChar] at hfirst
      exact ⟨0, Nat.succ_pos _, hfirst.symm⟩
    · have hle := Nat.not_lt.mp hlt
      have hbehind : b - (String.utf8EncodeChar c).length < (bytes cs).length := by
        rw [bytes_cons, List.length_append] at hb
        omega
      have hbyte : (bytes (c :: cs))[b] =
          (bytes cs)[b - (String.utf8EncodeChar c).length] := by
        simp only [bytes_cons, List.getElem_append_right hle]
      rw [hbyte] at hfirst
      obtain ⟨i, hi, htake⟩ := ih hbehind hfirst
      refine ⟨i + 1, Nat.succ_lt_succ hi, ?_⟩
      rw [List.take_succ_cons, bytes_cons, List.length_append, htake]
      omega

theorem length_bytes_take_lt (hi : i < j) (hj : j ≤ cs.length) :
    (bytes (cs.take i)).length < (bytes (cs.take j)).length := by
  have hsplit : cs.take j = cs.take i ++ (cs.take j).drop i := by
    conv_lhs => rw [← List.take_append_drop i (cs.take j), List.take_take, Nat.min_eq_left hi.le]
  have hpos : 0 < (bytes ((cs.take j).drop i)).length := by
    refine List.length_pos_of_ne_nil fun hnil => ?_
    have hlength := congrArg List.length (bytes_eq_nil_iff.mp hnil)
    rw [List.length_drop, List.length_take, Nat.min_eq_left hj, List.length_nil] at hlength
    omega
  rw [hsplit, bytes_append, List.length_append]
  omega

/-! ## The two searches -/

/-- Where the bytes of a text stand, a character begins. -/
theorem isUTF8FirstByte_of_occursAt (hne : needle ≠ [])
    (h : OccursAt (bytes needle) (bytes cs) b) :
    ∃ hb : b < (bytes cs).length, (bytes cs)[b].IsUTF8FirstByte := by
  obtain ⟨d, ds, rfl⟩ := List.exists_cons_of_ne_nil hne
  have hpos := length_utf8EncodeChar_pos d
  obtain ⟨more, hmore⟩ := h
  rw [bytes_cons, List.append_assoc] at hmore
  have hbyte : (bytes cs)[b]? = some (String.utf8EncodeChar d)[0] := by
    rw [← Nat.add_zero b, ← List.getElem?_drop, ← hmore, List.getElem?_append_left hpos,
      List.getElem?_eq_getElem hpos]
  obtain ⟨hb, heq⟩ := List.getElem?_eq_some_iff.mp hbyte
  exact ⟨hb, heq ▸ UInt8.isUTF8FirstByte_getElem_zero_utf8EncodeChar⟩

/-- The bytes of a text stand where the text stands, and nowhere else. -/
theorem occursAt_bytes_iff (hne : needle ≠ []) :
    OccursAt (bytes needle) (bytes cs) b ↔
      ∃ i ≤ cs.length, (bytes (cs.take i)).length = b ∧ OccursAt needle cs i := by
  constructor
  · intro hoccurs
    obtain ⟨hb, hfirst⟩ := isUTF8FirstByte_of_occursAt hne hoccurs
    obtain ⟨i, hi, rfl⟩ := exists_take_of_isUTF8FirstByte hb hfirst
    rw [OccursAt, drop_bytes_take] at hoccurs
    exact ⟨i, hi.le, rfl, bytes_prefix_iff.mp hoccurs⟩
  · rintro ⟨i, hi, rfl, hoccurs⟩
    rw [OccursAt, drop_bytes_take]
    exact bytes_prefix_iff.mpr hoccurs

/-- The first occurrence in bytes is behind as many characters as the search says. -/
theorem firstAt_bytes_iff :
    FirstAt (bytes needle) (bytes cs) b ↔
      ∃ i, find? needle cs = some i ∧ (bytes (cs.take i)).length = b := by
  simp only [find?_eq_some_iff]
  by_cases hne : needle = []
  · -- The empty text stands everywhere, so first at the start.
    subst hne
    have hzero {α : Type} (xs : List α) (k : Nat) : FirstAt [] xs k ↔ k = 0 :=
      ⟨fun h => by_contra fun hk => h.2 0 (Nat.pos_of_ne_zero hk) List.nil_prefix,
        fun h => ⟨List.nil_prefix, fun j hj => absurd hj (h ▸ Nat.not_lt_zero j)⟩⟩
    rw [bytes_nil, hzero]
    simp only [hzero, exists_eq_left, List.take_zero, bytes_nil, List.length_nil, eq_comm]
  constructor
  · rintro ⟨hoccurs, hnone⟩
    obtain ⟨i, hi, rfl, hchars⟩ := (occursAt_bytes_iff hne).mp hoccurs
    refine ⟨i, ⟨hchars, fun j hj hj' => ?_⟩, rfl⟩
    exact hnone _ (length_bytes_take_lt hj hi)
      ((occursAt_bytes_iff hne).mpr ⟨j, hj.le.trans hi, rfl, hj'⟩)
  · rintro ⟨i, hfirst, rfl⟩
    have hi := hfirst.le_length
    obtain ⟨hoccurs, hnone⟩ := hfirst
    refine ⟨(occursAt_bytes_iff hne).mpr ⟨i, hi, rfl, hoccurs⟩, fun b hb hbytes => ?_⟩
    obtain ⟨j, hj, rfl, hchars⟩ := (occursAt_bytes_iff hne).mp hbytes
    -- Fewer bytes in front are fewer characters in front.
    have hlt : j < i := by
      by_contra hle
      rcases (Nat.not_lt.mp hle).eq_or_lt with heq | hlt
      · rw [heq] at hb
        exact Nat.lt_irrefl _ hb
      · exact Nat.lt_asymm hb (length_bytes_take_lt hlt hj)
    exact hnone j hlt hchars

theorem bytes_infix_iff : bytes needle <:+: bytes cs ↔ needle <:+: cs := by
  constructor
  · rw [infix_iff_exists_occursAt]
    rintro ⟨b, hb⟩
    obtain ⟨b, hfirst⟩ := exists_firstAt hb
    obtain ⟨i, hfind, -⟩ := firstAt_bytes_iff.mp hfirst
    exact infix_iff_exists_occursAt.mpr ⟨i, (find?_eq_some_iff.mp hfind).1⟩
  · rintro ⟨front, back, rfl⟩
    rw [bytes_append, bytes_append]
    exact ⟨_, _, rfl⟩

theorem bytes_suffix_iff : bytes needle <:+ bytes cs ↔ needle <:+ cs := by
  constructor
  · rintro ⟨front, hfront⟩
    by_cases hne : needle = []
    · exact hne ▸ List.nil_suffix
    have hoccurs : OccursAt (bytes needle) (bytes cs) front.length := by
      rw [OccursAt, ← hfront, List.drop_left]
    obtain ⟨i, -, htake, -⟩ := (occursAt_bytes_iff hne).mp hoccurs
    have hbehind := drop_bytes_take cs i
    rw [htake, ← hfront, List.drop_left] at hbehind
    exact bytes_injective hbehind ▸ List.drop_suffix i cs
  · rintro ⟨front, rfl⟩
    rw [bytes_append]
    exact List.suffix_append _ _

end Quill.Text
