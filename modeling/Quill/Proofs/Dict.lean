import Mathlib.Data.Finset.Card
import Quill.Dict

/-!
# Dictionaries after settings

A dictionary keeps its entries in one list, so that its order and its values cannot fall apart. The
usual layout has two parts: a list of the keys in their order, and a hash table of the values.
Nothing in that layout keeps the parts in step. A key of the list that the table lacks would be
passed over when the values are listed, and a comparison that counts the keys and then looks in one
direction only would be wrong about keys that are counted twice.

`SplitDict` is that layout. Setting does to its parts what it does to a dictionary (`Stands.set`),
so after any sequence of settings they hold the same (`stands_ofList`), and what is known of
dictionaries is known of the parts.
-/

set_option autoImplicit false

namespace Quill

namespace Dict

variable {α : Type} {d e : Dict α}

/-! ## After a sequence of settings -/

theorem ofList_concat (settings : List (String × α)) (key : String) (value : α) :
    ofList (settings ++ [(key, value)]) = (ofList settings).set key value :=
  List.foldl_concat _ _ _ _

/-- A name that was met before adds nothing to the order of first occurrence. -/
theorem eraseDups_concat (keys : List String) (key : String) :
    (keys ++ [key]).eraseDups = if key ∈ keys then keys.eraseDups else keys.eraseDups ++ [key] := by
  have hsingle : [key].eraseDups = [key] := by simp [List.eraseDups_cons]
  rw [List.eraseDups_append, List.removeAll]
  split
  · next hkey => simp [hkey]
  · next hkey => simp [hkey, hsingle]

/-- The keys are in the order in which they were first set. -/
theorem keys_ofList (settings : List (String × α)) :
    (ofList settings).keys = (settings.map Prod.fst).eraseDups := by
  induction settings using List.reverseRecOn with
  | nil => rfl
  | append_singleton settings setting ih =>
    obtain ⟨key, value⟩ := setting
    rw [ofList_concat, keys_set, ih, List.map_append, List.map_singleton, eraseDups_concat]
    simp only [List.mem_eraseDups]

/-- What is found at a key is what was set there last. -/
theorem get?_ofList (settings : List (String × α)) (key : String) :
    (ofList settings).get? key = settings.reverse.lookup key := by
  induction settings using List.reverseRecOn with
  | nil => rfl
  | append_singleton settings setting ih =>
    obtain ⟨key', value⟩ := setting
    rw [ofList_concat, get?_set, ih, List.reverse_concat, List.lookup_cons]
    by_cases hkey : key = key'
    · simp [hkey]
    · simp [hkey, beq_false_of_ne hkey]

/-- Every key has its value, so nothing is passed over where the keys are looked up. -/
theorem filterMap_keys (d : Dict α) :
    (d.keys.filterMap fun key => (d.get? key).map (key, ·)) = d.entries := by
  have hsome : ∀ entry ∈ d.entries,
      ((fun key => (d.get? key).map (key, ·)) ∘ Prod.fst) entry = some entry := by
    intro entry hentry
    rw [Function.comp_apply, get?_eq_some_iff.mpr hentry, Option.map_some]
  rw [keys, List.filterMap_map, List.filterMap_congr hsome, List.filterMap_some]

/-! ## One dictionary beside another -/

/-- If there are as many keys on both sides, looking from one side is enough. -/
theorem beside_iff {R : α → α → Prop} :
    (d.size = e.size ∧ ∀ key v, d.get? key = some v → ∃ w, e.get? key = some w ∧ R v w) ↔
      (∀ key, key ∈ d.keys ↔ key ∈ e.keys) ∧
        ∀ key v w, d.get? key = some v → e.get? key = some w → R v w := by
  have hlength : ∀ d : Dict α, d.size = d.keys.length := fun d => (List.length_map _).symm
  constructor
  · rintro ⟨hsize, hfound⟩
    have hsub : d.keys ⊆ e.keys := by
      intro key hkey
      obtain ⟨v, hv⟩ := mem_keys_iff.mp hkey
      obtain ⟨w, hw, -⟩ := hfound key v hv
      exact mem_keys_iff.mpr ⟨w, hw⟩
    -- Keys without repetition that are inside as many others are all of them.
    have hle : e.keys.length ≤ d.keys.length := by rw [← hlength, ← hlength, hsize]
    have hperm : d.keys.Perm e.keys :=
      (List.subperm_of_subset d.nodup_keys hsub).perm_of_length_le hle
    refine ⟨fun key => hperm.mem_iff, fun key v w hv hw => ?_⟩
    obtain ⟨w', hw', hR⟩ := hfound key v hv
    rw [hw, Option.some.injEq] at hw'
    exact hw' ▸ hR
  · rintro ⟨hkeys, hvalues⟩
    refine ⟨?_, fun key v hv => ?_⟩
    · rw [hlength, hlength]
      exact ((List.perm_ext_iff_of_nodup d.nodup_keys e.nodup_keys).mpr hkeys).length_eq
    · obtain ⟨w, hw⟩ := mem_keys_iff.mp ((hkeys key).mp (mem_keys_iff.mpr ⟨v, hv⟩))
      exact ⟨w, hw, hvalues key v w hv hw⟩

end Dict

/-! ## Two parts -/

/-- A list of keys and a table of values. -/
structure SplitDict (α : Type) where
  keys : List String
  table : Std.HashMap String α

namespace SplitDict

variable {α : Type}

def empty : SplitDict α := ⟨[], ∅⟩

/-- The value at a key. -/
def get? (s : SplitDict α) (key : String) : Option α := s.table[key]?

/-- A key that the table lacks is new and comes last. -/
def set (s : SplitDict α) (key : String) (value : α) : SplitDict α where
  keys := if key ∈ s.table then s.keys else s.keys ++ [key]
  table := s.table.insert key value

/-- How many keys are listed. -/
def size (s : SplitDict α) : Nat := s.keys.length

/-- The keys with their values, in order; a key without a value is passed over. -/
def entries (s : SplitDict α) : List (String × α) :=
  s.keys.filterMap fun key => (s.get? key).map (key, ·)

/-- The values in the order of the keys; a key without a value is passed over. -/
def values (s : SplitDict α) : List α := s.keys.filterMap s.get?

/-- As many keys, and under each key of the first something equal in the second. -/
def sameEntries (equal : α → α → Bool) (s t : SplitDict α) : Bool :=
  s.size == t.size && s.entries.all fun entry => (t.get? entry.1).any (equal entry.2)

/-- The parts after a list of settings, made in order. -/
def ofList (settings : List (String × α)) : SplitDict α :=
  settings.foldl (fun s (key, value) => s.set key value) empty

/-- The parts hold what the dictionary holds. -/
structure Stands (s : SplitDict α) (d : Dict α) : Prop where
  keys_eq : s.keys = d.keys
  get?_eq (key : String) : s.get? key = d.get? key

namespace Stands

variable {s t : SplitDict α} {d e : Dict α}

theorem empty : (empty : SplitDict α).Stands .empty where
  keys_eq := rfl
  get?_eq _ := by
    rw [get?, SplitDict.empty, Std.HashMap.getElem?_empty]
    rfl

/-- The list and the table have the same keys. -/
theorem mem_keys_iff (h : s.Stands d) (key : String) : key ∈ s.keys ↔ key ∈ s.table := by
  rw [h.keys_eq, Dict.mem_keys_iff, ← Std.HashMap.isSome_getElem?_iff_mem, Option.isSome_iff_exists]
  simp only [← h.get?_eq, get?]

theorem set (h : s.Stands d) (key : String) (value : α) :
    (s.set key value).Stands (d.set key value) where
  keys_eq := by
    rw [SplitDict.set, Dict.keys_set, ← h.keys_eq]
    simp only [← h.mem_keys_iff]
  get?_eq k := by
    rw [get?, SplitDict.set, Dict.get?_set, ← h.get?_eq, Std.HashMap.getElem?_insert, get?]
    simp only [beq_iff_eq, eq_comm (a := k)]

theorem some_eq_get? (h : s.Stands d) {entry : String × α} (hentry : entry ∈ d.entries) :
    some entry.2 = s.get? entry.1 := by
  rw [h.get?_eq, Dict.get?_eq_some_iff.mpr hentry]

theorem entries_eq (h : s.Stands d) : s.entries = d.entries := by
  rw [entries, h.keys_eq, ← d.filterMap_keys]
  simp only [h.get?_eq]

theorem values_eq (h : s.Stands d) : s.values = d.values := by
  have hvalues : s.values = s.entries.map Prod.snd := by
    simp [values, entries, List.map_filterMap, Function.comp_def]
  rw [hvalues, h.entries_eq, Dict.values]

theorem size_eq (h : s.Stands d) : s.size = d.size := by
  rw [size, h.keys_eq, Dict.keys, List.length_map, Dict.size]

theorem nodup_keys (h : s.Stands d) : s.keys.Nodup := h.keys_eq ▸ d.nodup_keys

/-- Counting and looking from one side finds out all about both. -/
theorem sameEntries_iff (hs : s.Stands d) (ht : t.Stands e) (equal : α → α → Bool) :
    sameEntries equal s t = true ↔
      (∀ key, key ∈ s.keys ↔ key ∈ t.keys) ∧
        ∀ key v w, s.get? key = some v → t.get? key = some w → equal v w = true := by
  rw [hs.keys_eq, ht.keys_eq]
  simp only [hs.get?_eq, ht.get?_eq, ← Dict.beside_iff (R := fun v w => equal v w = true)]
  simp only [sameEntries, hs.size_eq, ht.size_eq, hs.entries_eq, ht.get?_eq, Bool.and_eq_true,
    beq_iff_eq, List.all_eq_true, Option.any_eq_true, Prod.forall, Dict.get?_eq_some_iff]

end Stands

theorem stands_ofList (settings : List (String × α)) :
    (ofList settings).Stands (Dict.ofList settings) := by
  have hfold : ∀ (settings : List (String × α)) (s : SplitDict α) (d : Dict α), s.Stands d →
      (settings.foldl (fun s (key, value) => s.set key value) s).Stands
        (settings.foldl (fun d (key, value) => d.set key value) d) := by
    intro settings
    induction settings with
    | nil => exact fun s d h => h
    | cons setting rest ih => exact fun s d h => ih _ _ (h.set setting.1 setting.2)
  exact hfold settings .empty .empty .empty

/-- What the two parts hold after a list of settings. -/
structure Records (settings : List (String × α)) (s : SplitDict α) : Prop where
  nodup_keys : s.keys.Nodup
  mem_keys_iff (key : String) : key ∈ s.keys ↔ key ∈ s.table
  /-- The keys are in the order in which they were first set. -/
  keys_eq : s.keys = (settings.map Prod.fst).eraseDups
  /-- The value at a key is the one that was set last. -/
  get?_eq (key : String) : s.get? key = settings.reverse.lookup key
  /-- No key is passed over. -/
  values_eq : s.values.map some = s.keys.map s.get?
  entries_eq : s.entries.map (fun entry => (entry.1, some entry.2)) =
    s.keys.map fun key => (key, s.get? key)
  size_eq : s.size = (settings.map Prod.fst).toFinset.card

theorem records_ofList (settings : List (String × α)) : (ofList settings).Records settings where
  nodup_keys := (stands_ofList settings).nodup_keys
  mem_keys_iff := (stands_ofList settings).mem_keys_iff
  keys_eq := (stands_ofList settings).keys_eq.trans (Dict.keys_ofList settings)
  get?_eq key := ((stands_ofList settings).get?_eq key).trans (Dict.get?_ofList settings key)
  values_eq := by
    rw [(stands_ofList settings).values_eq, (stands_ofList settings).keys_eq, Dict.values,
      Dict.keys, List.map_map, List.map_map]
    exact List.map_congr_left fun _ => (stands_ofList settings).some_eq_get?
  entries_eq := by
    rw [(stands_ofList settings).entries_eq, (stands_ofList settings).keys_eq, Dict.keys,
      List.map_map]
    refine List.map_congr_left fun entry hentry => ?_
    exact Prod.ext rfl ((stands_ofList settings).some_eq_get? hentry)
  size_eq := by
    rw [size, ← List.toFinset_card_of_nodup (stands_ofList settings).nodup_keys,
      (stands_ofList settings).keys_eq, Dict.keys_ofList]
    congr 1
    ext key
    rw [List.mem_toFinset, List.mem_toFinset, List.mem_eraseDups]

/-- What was set last under each key decides, and not in which order the keys came up. -/
theorem sameEntries_of_same_last {settings others : List (String × α)}
    (hlast : ∀ key, settings.reverse.lookup key = others.reverse.lookup key)
    {equal : α → α → Bool} (hequal : ∀ v, equal v v = true) :
    sameEntries equal (ofList settings) (ofList others) = true := by
  have hget : ∀ key, (ofList settings).get? key = (ofList others).get? key := fun key => by
    rw [(records_ofList settings).get?_eq, (records_ofList others).get?_eq, hlast]
  rw [(stands_ofList settings).sameEntries_iff (stands_ofList others)]
  refine ⟨fun key => ?_, fun key v w hv hw => ?_⟩
  · rw [(stands_ofList settings).keys_eq, (stands_ofList others).keys_eq, Dict.mem_keys_iff,
      Dict.mem_keys_iff]
    simp only [← (stands_ofList settings).get?_eq, ← (stands_ofList others).get?_eq, hget]
  · rw [hget, hw, Option.some.injEq] at hv
    rw [← hv, hequal]

end SplitDict

end Quill
