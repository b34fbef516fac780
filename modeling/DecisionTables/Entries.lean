/-!
# Entries

Entries are key-value pairs in which the first pair with a key is the one that counts.  A new key is
placed before the first greater one, so entries that start out sorted stay sorted, and a key that
is present keeps its place.  Strings are ordered by their characters, which is also the order of
their UTF-8 bytes.

A `KeyMap` bundles entries with a proof that their keys are strictly ascending, so equal maps have
equal entries.
-/

namespace DecisionTables

namespace Entries

variable {α : Type}

def get? (key : String) : List (String × α) → Option α
  | [] => none
  | (k, v) :: rest => if k = key then some v else get? key rest

def replace (key : String) (value : α) : List (String × α) → List (String × α)
  | [] => []
  | (k, v) :: rest => if k = key then (k, value) :: rest else (k, v) :: replace key value rest

/-- Adds an entry before the first one with a greater key. -/
def place (key : String) (value : α) : List (String × α) → List (String × α)
  | [] => [(key, value)]
  | (k, v) :: rest =>
    if key < k then (key, value) :: (k, v) :: rest else (k, v) :: place key value rest

def set (key : String) (value : α) (entries : List (String × α)) : List (String × α) :=
  if (get? key entries).isSome then replace key value entries else place key value entries

/-- The sorted entries of a list of pairs, where a later pair replaces an earlier one. -/
def ofPairs (pairs : List (String × α)) : List (String × α) :=
  pairs.foldl (fun entries pair => set pair.1 pair.2 entries) []

def Sorted (entries : List (String × α)) : Prop :=
  entries.Pairwise fun first second => first.1 < second.1

theorem lt_of_not_lt_of_ne {a b : String} (hnot : ¬ a < b) (hne : b ≠ a) : b < a := by
  by_cases h : b < a
  · exact h
  · exact absurd (String.le_antisymm (String.not_lt.mp hnot) (String.not_lt.mp h)) hne

theorem mem_place {key : String} {value : α} {entries : List (String × α)} {pair : String × α} :
    pair ∈ place key value entries ↔ pair = (key, value) ∨ pair ∈ entries := by
  induction entries with
  | nil => simp [place]
  | cons head rest ih =>
    obtain ⟨k, v⟩ := head
    by_cases h : key < k
    · simp [place, h]
    · simp only [place, h, if_false, List.mem_cons, ih]
      grind

theorem keys_replace (key : String) (value : α) (entries : List (String × α)) :
    (replace key value entries).map Prod.fst = entries.map Prod.fst := by
  induction entries with
  | nil => rfl
  | cons head rest ih =>
    obtain ⟨k, v⟩ := head
    by_cases h : k = key <;> simp [replace, h, ih]

theorem get?_eq_none_iff {key : String} {entries : List (String × α)} :
    get? key entries = none ↔ ∀ pair ∈ entries, pair.1 ≠ key := by
  induction entries with
  | nil => simp [get?]
  | cons head rest ih =>
    obtain ⟨k, v⟩ := head
    by_cases h : k = key <;> simp [get?, h, ih]

theorem sorted_iff_keys {entries : List (String × α)} :
    Sorted entries ↔ (entries.map Prod.fst).Pairwise (· < ·) := by
  simp [Sorted, List.pairwise_map]

theorem Sorted.place {key : String} {value : α} {entries : List (String × α)}
    (hsorted : Sorted entries) (hnew : get? key entries = none) :
    Sorted (Entries.place key value entries) := by
  induction entries with
  | nil => simp [Entries.place, Sorted]
  | cons head rest ih =>
    obtain ⟨k, v⟩ := head
    have hne : k ≠ key := by
      intro h
      simp [get?, h] at hnew
    have hrest : get? key rest = none := by simpa [get?, hne] using hnew
    have htail : Sorted rest := (List.pairwise_cons.mp hsorted).2
    have hhead : ∀ pair ∈ rest, k < pair.1 := (List.pairwise_cons.mp hsorted).1
    by_cases h : key < k
    · simp only [Entries.place, h, if_true]
      refine List.pairwise_cons.mpr ⟨?_, hsorted⟩
      intro pair hpair
      rcases List.mem_cons.mp hpair with rfl | hpair
      · exact h
      · exact String.lt_trans h (hhead pair hpair)
    · simp only [Entries.place, h, if_false]
      refine List.pairwise_cons.mpr ⟨?_, ih htail hrest⟩
      intro pair hpair
      rcases mem_place.mp hpair with rfl | hpair
      · exact lt_of_not_lt_of_ne h hne
      · exact hhead pair hpair

theorem Sorted.set {key : String} {value : α} {entries : List (String × α)}
    (hsorted : Sorted entries) : Sorted (Entries.set key value entries) := by
  unfold Entries.set
  cases h : get? key entries with
  | none => simpa using hsorted.place h
  | some old =>
    simp only [Option.isSome_some, if_true]
    rw [sorted_iff_keys, keys_replace]
    exact sorted_iff_keys.mp hsorted

theorem sorted_foldl_set (pairs entries : List (String × α)) (hsorted : Sorted entries) :
    Sorted (pairs.foldl (fun entries pair => set pair.1 pair.2 entries) entries) := by
  induction pairs generalizing entries with
  | nil => exact hsorted
  | cons pair rest ih => exact ih _ hsorted.set

theorem sorted_ofPairs (pairs : List (String × α)) : Sorted (ofPairs pairs) :=
  sorted_foldl_set pairs [] List.Pairwise.nil

end Entries

structure KeyMap (α : Type) where
  entries : List (String × α)
  sorted : Entries.Sorted entries

namespace KeyMap

variable {α : Type}

@[ext] theorem ext {first second : KeyMap α} (h : first.entries = second.entries) :
    first = second := by
  cases first
  cases second
  simp_all

def empty : KeyMap α :=
  ⟨[], List.Pairwise.nil⟩

instance : Inhabited (KeyMap α) :=
  ⟨empty⟩

def get? (map : KeyMap α) (key : String) : Option α :=
  Entries.get? key map.entries

def insert (map : KeyMap α) (key : String) (value : α) : KeyMap α :=
  ⟨Entries.set key value map.entries, map.sorted.set⟩

def ofPairs (pairs : List (String × α)) : KeyMap α :=
  ⟨Entries.ofPairs pairs, Entries.sorted_ofPairs pairs⟩

def keys (map : KeyMap α) : List String :=
  map.entries.map Prod.fst

end KeyMap

end DecisionTables
