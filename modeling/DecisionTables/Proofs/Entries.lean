import DecisionTables.Entries
import Mathlib.Data.List.Forall2

/-!
# Lookup after an update of entries

Setting a key changes what is found under that key and nothing else, whether the key was there
before or not.  A second value under the same key takes the place of the first, and values under
different keys can be set in any order.  Collected pairs are all among those that were given.
Entries that are sorted hold every pair under its own key, and collecting their pairs gives them
back.
-/

namespace DecisionTables

namespace Entries

variable {α : Type}

theorem get?_replace_self {key : String} {entries : List (String × α)} (value : α)
    (hkey : (get? key entries).isSome) :
    get? key (replace key value entries) = some value := by
  induction entries with
  | nil => simp [get?] at hkey
  | cons head rest ih =>
      obtain ⟨k, v⟩ := head
      by_cases h : k = key
      · simp [replace, get?, h]
      · have hrest : (get? key rest).isSome := by simpa [get?, h] using hkey
        simpa [replace, get?, h] using ih hrest

theorem get?_replace_of_ne {key other : String} (entries : List (String × α)) (value : α)
    (hne : other ≠ key) :
    get? other (replace key value entries) = get? other entries := by
  induction entries with
  | nil => rfl
  | cons head rest ih =>
      obtain ⟨k, v⟩ := head
      by_cases h : k = key
      · subst h
        simp [replace, get?, hne.symm]
      · simp [replace, get?, h, ih]

theorem get?_place_self {key : String} {entries : List (String × α)} (value : α)
    (hnew : get? key entries = none) :
    get? key (place key value entries) = some value := by
  induction entries with
  | nil => simp [place, get?]
  | cons head rest ih =>
      obtain ⟨k, v⟩ := head
      have hk : k ≠ key := get?_eq_none_iff.mp hnew (k, v) List.mem_cons_self
      by_cases h : key < k
      · simp [place, get?, h]
      · have hrest : get? key rest = none := by simpa [get?, hk] using hnew
        simpa [place, get?, h, hk] using ih hrest

theorem get?_place_of_ne {key other : String} (entries : List (String × α)) (value : α)
    (hne : other ≠ key) :
    get? other (place key value entries) = get? other entries := by
  induction entries with
  | nil => simp [place, get?, hne.symm]
  | cons head rest ih =>
      obtain ⟨k, v⟩ := head
      by_cases h : key < k
      · simp [place, get?, h, hne.symm]
      · simp [place, get?, h, ih]

@[simp] theorem get?_set_self (key : String) (value : α) (entries : List (String × α)) :
    get? key (set key value entries) = some value := by
  unfold set
  cases h : get? key entries with
  | none => simpa using get?_place_self value h
  | some old => simpa using get?_replace_self value (by simp [h])

theorem get?_set_of_ne {key other : String} (entries : List (String × α)) (value : α)
    (hne : other ≠ key) :
    get? other (set key value entries) = get? other entries := by
  unfold set
  split
  · exact get?_replace_of_ne entries value hne
  · exact get?_place_of_ne entries value hne

theorem replace_replace (key : String) (first second : α) (entries : List (String × α)) :
    replace key second (replace key first entries) = replace key second entries := by
  induction entries with
  | nil => rfl
  | cons head rest ih =>
      obtain ⟨k, v⟩ := head
      by_cases h : k = key <;> simp [replace, h, ih]

theorem replace_place {key : String} {entries : List (String × α)} (first second : α)
    (hnew : get? key entries = none) :
    replace key second (place key first entries) = place key second entries := by
  induction entries with
  | nil => simp [place, replace]
  | cons head rest ih =>
      obtain ⟨k, v⟩ := head
      have hk : k ≠ key := get?_eq_none_iff.mp hnew (k, v) List.mem_cons_self
      have hrest : get? key rest = none := by simpa [get?, hk] using hnew
      by_cases h : key < k
      · simp [place, replace, h]
      · simp [place, replace, h, hk, ih hrest]

/-- Replacing changes the first value of the key and no other, and no key at all. -/
theorem forall₂_replace {R : α → α → Prop} (hself : ∀ value, R value value) {key : String}
    {old new : α} (hnew : R old new) {entries : List (String × α)}
    (hget : get? key entries = some old) :
    List.Forall₂ (fun pair other => pair.1 = other.1 ∧ R pair.2 other.2) entries
      (replace key new entries) := by
  induction entries with
  | nil => exact .nil
  | cons head rest ih =>
      obtain ⟨k, v⟩ := head
      by_cases h : k = key
      · obtain rfl : v = old := by simpa [get?, h] using hget
        rw [replace, if_pos h]
        exact .cons ⟨rfl, hnew⟩ (List.forall₂_same.mpr fun pair _ => ⟨rfl, hself pair.2⟩)
      · have hrest : get? key rest = some old := by simpa [get?, h] using hget
        rw [replace, if_neg h]
        exact .cons ⟨rfl, hself v⟩ (ih hrest)

/-- Of two values set under one key the second one counts. -/
theorem set_set (key : String) (first second : α) (entries : List (String × α)) :
    set key second (set key first entries) = set key second entries := by
  have hthere : (get? key (set key first entries)).isSome := by simp
  rw [set, if_pos hthere]
  unfold set
  cases h : get? key entries with
  | none => simpa using replace_place first second h
  | some old => simpa using replace_replace key first second entries

theorem replace_self {key : String} {value : α} {entries : List (String × α)}
    (hget : get? key entries = some value) : replace key value entries = entries := by
  induction entries with
  | nil => rfl
  | cons head rest ih =>
      obtain ⟨k, v⟩ := head
      by_cases h : k = key
      · obtain rfl : v = value := by simpa [get?, h] using hget
        simp [replace, h]
      · have hrest : get? key rest = some value := by simpa [get?, h] using hget
        simp [replace, h, ih hrest]

theorem set_self {key : String} {value : α} {entries : List (String × α)}
    (hget : get? key entries = some value) : set key value entries = entries := by
  simp [set, hget, replace_self hget]

theorem replace_comm {key other : String} (hne : key ≠ other) (value otherValue : α)
    (entries : List (String × α)) :
    replace key value (replace other otherValue entries) =
      replace other otherValue (replace key value entries) := by
  induction entries with
  | nil => rfl
  | cons head rest ih =>
      obtain ⟨k, v⟩ := head
      by_cases hkey : k = key
      · subst hkey
        simp [replace, hne]
      · by_cases hother : k = other
        · subst hother
          simp [replace, hkey]
        · simp [replace, hkey, hother, ih]

theorem place_replace_comm {key other : String} (hne : key ≠ other) (value otherValue : α)
    (entries : List (String × α)) :
    place key value (replace other otherValue entries) =
      replace other otherValue (place key value entries) := by
  induction entries with
  | nil => simp [place, replace, hne]
  | cons head rest ih =>
      obtain ⟨k, v⟩ := head
      by_cases hother : k = other
      · subst hother
        by_cases h : key < k <;> simp [place, replace, h, hne]
      · by_cases h : key < k <;> simp [place, replace, h, hne, hother, ih]

theorem place_comm {key other : String} (hne : key ≠ other) (value otherValue : α)
    (entries : List (String × α)) :
    place key value (place other otherValue entries) =
      place other otherValue (place key value entries) := by
  have horder : ¬ key < other ↔ other < key :=
    ⟨fun h => lt_of_not_lt_of_ne h hne.symm, String.lt_asymm⟩
  induction entries with
  | nil => by_cases h : key < other <;> simp_all [place]
  | cons head rest ih =>
      obtain ⟨k, v⟩ := head
      by_cases hkey : key < k
      · by_cases hother : other < k
        · by_cases h : key < other <;> simp_all [place]
        · have h : ¬ other < key := fun h => hother (String.lt_trans h hkey)
          simp [place, hkey, hother, h]
      · by_cases hother : other < k
        · have h : ¬ key < other := fun h => hkey (String.lt_trans h hother)
          simp [place, hkey, hother, h]
        · simp [place, hkey, hother, ih]

/-- Values set under different keys do not meet. -/
theorem set_comm {key other : String} (hne : key ≠ other) (value otherValue : α)
    (entries : List (String × α)) :
    set key value (set other otherValue entries) =
      set other otherValue (set key value entries) := by
  have hkey := get?_set_of_ne entries otherValue hne
  have hother := get?_set_of_ne entries value hne.symm
  unfold set at hkey hother ⊢
  rw [hkey, hother]
  cases get? key entries <;> cases get? other entries <;>
    simp [place_comm hne, place_replace_comm hne, place_replace_comm hne.symm,
      replace_comm hne]

theorem mem_of_get? {key : String} {value : α} {entries : List (String × α)}
    (hkey : get? key entries = some value) : (key, value) ∈ entries := by
  induction entries with
  | nil => simp [get?] at hkey
  | cons head rest ih =>
      obtain ⟨k, v⟩ := head
      by_cases h : k = key
      · simp_all [get?]
      · exact List.mem_cons_of_mem _ (ih (by simpa [get?, h] using hkey))

theorem Sorted.get?_of_mem {key : String} {value : α} {entries : List (String × α)}
    (hsorted : Sorted entries) (hmem : (key, value) ∈ entries) :
    get? key entries = some value := by
  induction entries with
  | nil => simp at hmem
  | cons head rest ih =>
      obtain ⟨k, v⟩ := head
      obtain ⟨hhead, htail⟩ := List.pairwise_cons.mp hsorted
      rcases List.mem_cons.mp hmem with heq | hrest
      · simp_all [get?]
      · have hne : k ≠ key := by
          rintro rfl
          exact String.lt_irrefl k (hhead _ hrest)
        simpa [get?, hne] using ih htail hrest

theorem mem_of_mem_replace {key : String} {value : α} {entries : List (String × α)}
    {pair : String × α} (hmem : pair ∈ replace key value entries) :
    pair = (key, value) ∨ pair ∈ entries := by
  induction entries with
  | nil => simp [replace] at hmem
  | cons head rest ih =>
      obtain ⟨k, v⟩ := head
      by_cases h : k = key
      · subst h
        simp only [replace, if_true, List.mem_cons] at hmem
        exact hmem.imp_right (List.mem_cons_of_mem _)
      · simp only [replace, h, if_false, List.mem_cons] at hmem
        rcases hmem with rfl | hrest
        · exact .inr List.mem_cons_self
        · exact (ih hrest).imp_right (List.mem_cons_of_mem _)

theorem mem_of_mem_set {key : String} {value : α} {entries : List (String × α)}
    {pair : String × α} (hmem : pair ∈ set key value entries) :
    pair = (key, value) ∨ pair ∈ entries := by
  unfold set at hmem
  split at hmem
  · exact mem_of_mem_replace hmem
  · exact mem_place.mp hmem

theorem mem_of_mem_foldl_set {pairs entries : List (String × α)} {pair : String × α}
    (hmem : pair ∈ pairs.foldl (fun entries pair => set pair.1 pair.2 entries) entries) :
    pair ∈ pairs ∨ pair ∈ entries := by
  induction pairs generalizing entries with
  | nil => exact .inr hmem
  | cons head rest ih =>
      rcases ih hmem with hrest | hset
      · exact .inl (List.mem_cons_of_mem _ hrest)
      · rcases mem_of_mem_set hset with rfl | hentries
        · exact .inl List.mem_cons_self
        · exact .inr hentries

theorem mem_of_mem_ofPairs {pairs : List (String × α)} {pair : String × α}
    (hmem : pair ∈ ofPairs pairs) : pair ∈ pairs := by
  rcases mem_of_mem_foldl_set hmem with hpairs | hnil
  · exact hpairs
  · simp at hnil

/-- Collected pairs with different keys are found again under their own keys. -/
theorem get?_foldl_set {pairs : List (String × α)} (key : String)
    (hkeys : (pairs.map Prod.fst).Nodup) (entries : List (String × α)) :
    get? key (pairs.foldl (fun entries pair => set pair.1 pair.2 entries) entries) =
      (get? key pairs).or (get? key entries) := by
  induction pairs generalizing entries with
  | nil => rfl
  | cons pair rest ih =>
      obtain ⟨hpair, hrest⟩ := List.nodup_cons.mp hkeys
      rw [List.foldl_cons, ih hrest]
      by_cases h : pair.1 = key
      · subst h
        have hnone : get? pair.1 rest = none := by
          apply get?_eq_none_iff.mpr
          intro other hother heq
          exact hpair (heq ▸ List.mem_map_of_mem hother)
        simp [get?, hnone]
      · have hset := get?_set_of_ne entries pair.2 (Ne.symm h)
        simp [get?, h, hset]

theorem get?_ofPairs {pairs : List (String × α)} (key : String)
    (hkeys : (pairs.map Prod.fst).Nodup) :
    get? key (ofPairs pairs) = get? key pairs := by
  rw [ofPairs, get?_foldl_set key hkeys]
  exact Option.or_none

/-- A key beyond all others is set at the end. -/
theorem set_eq_append {key : String} {entries : List (String × α)} (value : α)
    (hlast : ∀ pair ∈ entries, pair.1 < key) :
    set key value entries = entries ++ [(key, value)] := by
  have hnew : get? key entries = none := by
    refine get?_eq_none_iff.mpr fun pair hpair heq => ?_
    exact String.lt_irrefl key (heq ▸ hlast pair hpair)
  have hplace : ∀ rest : List (String × α), (∀ pair ∈ rest, pair.1 < key) →
      place key value rest = rest ++ [(key, value)] := by
    intro rest hrest
    induction rest with
    | nil => rfl
    | cons head rest ih =>
        obtain ⟨k, v⟩ := head
        have hk : ¬ key < k := String.lt_asymm (hrest (k, v) List.mem_cons_self)
        simp [place, hk, ih fun pair hpair => hrest pair (List.mem_cons_of_mem _ hpair)]
  simp [set, hnew, hplace entries hlast]

theorem foldl_set_of_sorted (done rest : List (String × α)) (hsorted : Sorted (done ++ rest)) :
    rest.foldl (fun entries pair => set pair.1 pair.2 entries) done = done ++ rest := by
  induction rest generalizing done with
  | nil => simp
  | cons head rest ih =>
      have hlast : ∀ pair ∈ done, pair.1 < head.1 := fun pair hpair =>
        (List.pairwise_append.mp hsorted).2.2 pair hpair head List.mem_cons_self
      have hnext : Sorted ((done ++ [head]) ++ rest) := by simpa using hsorted
      rw [List.foldl_cons, set_eq_append head.2 hlast, ih _ hnext]
      simp

theorem Sorted.ofPairs_eq {entries : List (String × α)} (hsorted : Sorted entries) :
    ofPairs entries = entries :=
  foldl_set_of_sorted [] entries hsorted

end Entries

theorem KeyMap.ofPairs_entries {α : Type} (map : KeyMap α) :
    KeyMap.ofPairs map.entries = map :=
  KeyMap.ext map.sorted.ofPairs_eq

end DecisionTables
