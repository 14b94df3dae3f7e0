/-!
# Dictionaries

Maps from names to values that remember the order in which the names were first set. Setting a name
again changes its value and not its place.
-/

set_option autoImplicit false

namespace Quill

/-- A map from strings, in the order of first insertion. -/
structure Dict (α : Type) where
  entries : List (String × α)
  nodup_keys : (entries.map Prod.fst).Nodup

namespace Dict

variable {α : Type}

/-- The entries with the value at `key` set. -/
def setEntry (key : String) (value : α) : List (String × α) → List (String × α)
  | [] => [(key, value)]
  | (k, v) :: rest => if k = key then (k, value) :: rest else (k, v) :: setEntry key value rest

/-- Setting a key keeps the keys and their order; a new key comes last. -/
theorem map_fst_setEntry (key : String) (value : α) (entries : List (String × α)) :
    (setEntry key value entries).map Prod.fst =
      if key ∈ entries.map Prod.fst then entries.map Prod.fst
      else entries.map Prod.fst ++ [key] := by
  induction entries with
  | nil => simp [setEntry]
  | cons entry rest ih =>
    obtain ⟨k, v⟩ := entry
    by_cases h : k = key
    · simp [setEntry, h]
    · by_cases hm : key ∈ rest.map Prod.fst
      · rw [if_pos hm] at ih
        rw [if_pos (by simp only [List.map_cons, List.mem_cons]; exact .inr hm)]
        simp only [setEntry, if_neg h, List.map_cons, ih]
      · rw [if_neg hm] at ih
        have hne : ¬key = k := fun e => h e.symm
        rw [if_neg (by simp only [List.map_cons, List.mem_cons]; exact fun e => e.elim hne hm)]
        simp only [setEntry, if_neg h, List.map_cons, ih, List.cons_append]

/-- Setting a key repeats none. -/
theorem nodup_setEntry (key : String) (value : α) (entries : List (String × α))
    (h : (entries.map Prod.fst).Nodup) : ((setEntry key value entries).map Prod.fst).Nodup := by
  rw [map_fst_setEntry]
  split
  · exact h
  · next hm =>
    rw [List.nodup_append]
    refine ⟨h, by simp, ?_⟩
    intro a ha b hb
    rw [List.mem_singleton] at hb
    exact fun e => hm (hb ▸ e ▸ ha)

/-- The map without entries. -/
def empty : Dict α := ⟨[], by simp⟩

instance : Inhabited (Dict α) := ⟨empty⟩

/-- The value at a key. -/
def get? (d : Dict α) (key : String) : Option α := d.entries.lookup key

/-- Sets the value at a key; a new key comes last. -/
def set (d : Dict α) (key : String) (value : α) : Dict α :=
  ⟨setEntry key value d.entries, nodup_setEntry key value d.entries d.nodup_keys⟩

/-- The key is set. -/
def contains (d : Dict α) (key : String) : Bool := (d.get? key).isSome

/-- The keys, in the order in which they were first set. -/
def keys (d : Dict α) : List String := d.entries.map Prod.fst

/-- The values, in the order of their keys. -/
def values (d : Dict α) : List α := d.entries.map Prod.snd

/-- How many keys are set. -/
def size (d : Dict α) : Nat := d.entries.length

/-- No key is set. -/
def isEmpty (d : Dict α) : Bool := d.entries.isEmpty

/-- The map of a list of settings, made in order. -/
def ofList (settings : List (String × α)) : Dict α :=
  settings.foldl (fun d (key, value) => d.set key value) empty

/-- What is found at a key is its only entry. -/
theorem get?_eq_some_iff {d : Dict α} {key : String} {value : α} :
    d.get? key = some value ↔ (key, value) ∈ d.entries := by
  obtain ⟨entries, hnodup⟩ := d
  unfold get?
  dsimp only
  induction entries with
  | nil => simp
  | cons entry rest ih =>
    obtain ⟨k, v⟩ := entry
    rw [List.map_cons, List.nodup_cons] at hnodup
    rw [List.lookup_cons, List.mem_cons, Prod.mk.injEq]
    by_cases hk : key = k
    · subst hk
      have habsent : (key, value) ∉ rest := by
        intro hmem
        exact hnodup.1 (List.mem_map.mpr ⟨(key, value), hmem, rfl⟩)
      simp [habsent, eq_comm]
    · have hb : (key == k) = false := by simpa using hk
      simp only [hb, hk, false_and, false_or]
      exact ih hnodup.2

/-- The keys are what something is found at. -/
theorem mem_keys_iff {d : Dict α} {key : String} :
    key ∈ d.keys ↔ ∃ value, d.get? key = some value := by
  unfold keys
  rw [List.mem_map]
  constructor
  · rintro ⟨⟨k, value⟩, hmem, rfl⟩
    exact ⟨value, get?_eq_some_iff.mpr hmem⟩
  · rintro ⟨value, hvalue⟩
    exact ⟨(key, value), get?_eq_some_iff.mp hvalue, rfl⟩

theorem lookup_setEntry (key k : String) (value : α) (entries : List (String × α)) :
    (setEntry key value entries).lookup k = if k = key then some value else entries.lookup k := by
  induction entries with
  | nil => by_cases h : k = key <;> simp [setEntry, h]
  | cons entry rest ih =>
    obtain ⟨k', v⟩ := entry
    by_cases hk' : k' = key
    · subst hk'
      by_cases h : k = k'
      · simp [setEntry, h]
      · have hb : (k == k') = false := by simpa using h
        simp [setEntry, List.lookup_cons, hb, h]
    · by_cases h : k = k'
      · subst h
        simp [setEntry, hk']
      · have hb : (k == k') = false := by simpa using h
        simp [setEntry, hk', List.lookup_cons, hb, ih]

/-- Setting a key changes what is found at it, and nothing else. -/
theorem get?_set (d : Dict α) (key k : String) (value : α) :
    (d.set key value).get? k = if k = key then some value else d.get? k :=
  lookup_setEntry key k value d.entries

/-- A new key comes last, and a known one keeps its place. -/
theorem keys_set (d : Dict α) (key : String) (value : α) :
    (d.set key value).keys = if key ∈ d.keys then d.keys else d.keys ++ [key] :=
  map_fst_setEntry key value d.entries

end Dict

end Quill
