import DecisionTables.Criteria.Cache
import DecisionTables.Proofs.Json.Text
import Mathlib.Data.List.Forall2
import Mathlib.Data.Finset.Card

/-!
# Serving from a cache

A cache is faithful when every text in it stands once, with the criteria of the value that has this
text.  There is one such value, since different values have different texts, so a request that finds
its text is answered as if it had been read.  A request adds at most its own text, at the end, and
all other entries keep their places; by induction this holds of every sequence of requests.
-/

namespace DecisionTables

namespace CriteriaCache

def keys (cache : CriteriaCache) : List String :=
  cache.shared.map Prod.fst

/-- Answers requests one after another. -/
def serve (cache : CriteriaCache) : List Json → List (Nat × Criteria) × CriteriaCache
  | [] => ([], cache)
  | source :: rest =>
    let (answer, next) := cache.request source
    let (answers, last) := next.serve rest
    (answer :: answers, last)

structure IsFaithful (cache : CriteriaCache) : Prop where
  nodup_keys : cache.keys.Nodup
  eq_ofJson : ∀ source criteria, (source.text, criteria) ∈ cache.shared →
    criteria = Criteria.ofJson source

/-- The entry at the place of the answer has the text of the request and the answered criteria. -/
def Holds (cache : CriteriaCache) (source : Json) (answer : Nat × Criteria) : Prop :=
  cache.shared[answer.1]? = some (source.text, answer.2)

/-- The later cache has the old entries in their places, and the texts that were requested. -/
structure GrowsTo (cache later : CriteriaCache) (sources : List Json) : Prop where
  faithful : later.IsFaithful
  keeps : cache.shared <+: later.shared
  mem_keys : ∀ key, key ∈ later.keys ↔ key ∈ cache.keys ∨ key ∈ sources.map Json.text

variable {cache later : CriteriaCache}

theorem isFaithful_empty : empty.IsFaithful where
  nodup_keys := List.nodup_nil
  eq_ofJson := by simp [empty]

theorem getElem?_of_find? {key : String} {place : Nat} {criteria : Criteria}
    (hfind : cache.find? key = some (place, criteria)) :
    cache.shared[place]? = some (key, criteria) := by
  obtain ⟨⟨⟨text, found⟩, position⟩, hmem, hfound⟩ := List.exists_of_findSome?_eq_some hfind
  simp only at hfound
  split_ifs at hfound with htext
  cases hfound
  rw [← htext]
  exact List.mk_mem_zipIdx_iff_getElem?.mp hmem

theorem find?_eq_none_iff {key : String} : cache.find? key = none ↔ key ∉ cache.keys := by
  unfold find? keys
  rw [List.findSome?_eq_none_iff]
  constructor
  · intro hnone hmem
    obtain ⟨entry, hentry, rfl⟩ := List.mem_map.mp hmem
    obtain ⟨place, hplace⟩ := List.mem_iff_getElem?.mp hentry
    have hpair := hnone (entry, place) (List.mk_mem_zipIdx_iff_getElem?.mpr hplace)
    simp at hpair
  · rintro hmem ⟨⟨text, criteria⟩, place⟩ hpair
    have hentry := List.mem_of_getElem? (List.mk_mem_zipIdx_iff_getElem?.mp hpair)
    refine if_neg ?_
    rintro rfl
    exact hmem (List.mem_map.mpr ⟨_, hentry, rfl⟩)

theorem Holds.criteria_eq {source : Json} {answer : Nat × Criteria}
    (hholds : cache.Holds source answer) (hfaithful : cache.IsFaithful) :
    answer.2 = Criteria.ofJson source :=
  hfaithful.eq_ofJson source answer.2 (List.mem_of_getElem? hholds)

theorem Holds.of_growsTo {source : Json} {answer : Nat × Criteria} {sources : List Json}
    (hholds : cache.Holds source answer) (hgrows : cache.GrowsTo later sources) :
    later.Holds source answer := by
  obtain ⟨added, hadded⟩ := hgrows.keeps
  obtain ⟨hlt, -⟩ := List.getElem?_eq_some_iff.mp hholds
  rw [Holds, ← hadded, List.getElem?_append_left hlt]
  exact hholds

/-- In one cache the places of two requests are the same exactly where their texts are. -/
theorem Holds.place_eq_iff {source other : Json} {answer otherAnswer : Nat × Criteria}
    (hfaithful : cache.IsFaithful) (hholds : cache.Holds source answer)
    (hother : cache.Holds other otherAnswer) :
    answer.1 = otherAnswer.1 ↔ source.text = other.text := by
  constructor
  · intro hplace
    rw [Holds, hplace, hother] at hholds
    exact (congrArg Prod.fst (Option.some.inj hholds)).symm
  · intro htext
    have hkey : cache.keys[answer.1]? = some source.text := by
      rw [keys, List.getElem?_map, hholds, Option.map_some]
    have hotherKey : cache.keys[otherAnswer.1]? = some source.text := by
      rw [keys, List.getElem?_map, hother, Option.map_some, htext]
    obtain ⟨hlt, -⟩ := List.getElem?_eq_some_iff.mp hkey
    exact (List.getElem?_inj hlt hfaithful.nodup_keys).mp (hkey.trans hotherKey.symm)

theorem GrowsTo.refl (hfaithful : cache.IsFaithful) {sources : List Json}
    (hsources : ∀ key ∈ sources.map Json.text, key ∈ cache.keys) :
    cache.GrowsTo cache sources where
  faithful := hfaithful
  keeps := List.prefix_refl _
  mem_keys key := ⟨.inl, fun hkey => hkey.elim id (hsources key)⟩

theorem GrowsTo.trans {next : CriteriaCache} {sources more : List Json}
    (hfirst : cache.GrowsTo next sources) (hlater : next.GrowsTo later more) :
    cache.GrowsTo later (sources ++ more) where
  faithful := hlater.faithful
  keeps := hfirst.keeps.trans hlater.keeps
  mem_keys key := by
    rw [hlater.mem_keys, hfirst.mem_keys, List.map_append, List.mem_append, or_assoc]

theorem IsFaithful.push (hfaithful : cache.IsFaithful) {source : Json}
    (hnew : source.text ∉ cache.keys) :
    IsFaithful ⟨cache.shared ++ [(source.text, Criteria.ofJson source)]⟩ where
  nodup_keys := by
    rw [keys, List.map_append, List.nodup_append]
    refine ⟨hfaithful.nodup_keys, by simp, ?_⟩
    rintro key hkey _ hlast rfl
    obtain rfl : key = source.text := by simpa using hlast
    exact hnew hkey
  eq_ofJson other criteria hmem := by
    rcases List.mem_append.mp hmem with hold | hlast
    · exact hfaithful.eq_ofJson other criteria hold
    · obtain ⟨htext, hcriteria⟩ : other.text = source.text ∧ criteria = Criteria.ofJson source := by
        simpa using hlast
      rw [hcriteria, Json.text_injective htext]

/-- What one request does. -/
theorem request_spec (hfaithful : cache.IsFaithful) (source : Json) :
    cache.GrowsTo (cache.request source).2 [source] ∧
      (cache.request source).2.Holds source (cache.request source).1 := by
  cases hfind : cache.find? source.text with
  | some found =>
      obtain ⟨place, criteria⟩ := found
      have hentry := getElem?_of_find? hfind
      have hkey : source.text ∈ cache.keys :=
        List.mem_map.mpr ⟨_, List.mem_of_getElem? hentry, rfl⟩
      simp only [request, hfind]
      exact ⟨GrowsTo.refl hfaithful (by simpa using hkey), hentry⟩
  | none =>
      have hnew := find?_eq_none_iff.mp hfind
      simp only [request, hfind]
      refine ⟨⟨hfaithful.push hnew, List.prefix_append _ _, fun key => ?_⟩, ?_⟩
      · simp [keys]
      · simp [Holds, size]

theorem serve_spec (hfaithful : cache.IsFaithful) (sources : List Json) :
    cache.GrowsTo (cache.serve sources).2 sources ∧
      List.Forall₂ (cache.serve sources).2.Holds sources (cache.serve sources).1 := by
  induction sources generalizing cache with
  | nil => exact ⟨GrowsTo.refl hfaithful (by simp), .nil⟩
  | cons source rest ih =>
      obtain ⟨hgrows, hholds⟩ := request_spec hfaithful source
      obtain ⟨hlater, hrest⟩ := ih hgrows.faithful
      exact ⟨hgrows.trans hlater, .cons (hholds.of_growsTo hlater) hrest⟩

theorem size_eq_card {sources : List Json} (hgrows : empty.GrowsTo later sources) :
    later.size = (sources.map Json.text).toFinset.card := by
  have hkeys : later.keys.toFinset = (sources.map Json.text).toFinset := by
    ext key
    rw [List.mem_toFinset, List.mem_toFinset, hgrows.mem_keys]
    simp [keys, empty]
  rw [← hkeys, List.toFinset_card_of_nodup hgrows.faithful.nodup_keys, keys, List.length_map, size]

theorem place_getElem?_eq_iff {sources : List Json} {answers : List (Nat × Criteria)}
    (hfaithful : cache.IsFaithful) (hanswers : List.Forall₂ cache.Holds sources answers)
    (i j : Nat) :
    (answers.map Prod.fst)[i]? = (answers.map Prod.fst)[j]? ↔
      (sources.map Json.text)[i]? = (sources.map Json.text)[j]? := by
  have hlength := hanswers.length_eq
  have hholds : ∀ k (hk : k < sources.length),
      cache.Holds (sources.get ⟨k, hk⟩) (answers.get ⟨k, hlength ▸ hk⟩) :=
    fun k hk => hanswers.get hk (hlength ▸ hk)
  by_cases hi : i < sources.length
  · by_cases hj : j < sources.length
    · have hplaces := (hholds i hi).place_eq_iff hfaithful (hholds j hj)
      simpa [hi, hj, ← hlength] using hplaces
    · simp [hi, hj, ← hlength]
  · by_cases hj : j < sources.length <;> simp [hi, hj, ← hlength]

/--
A fresh cache answers every request with the criteria of its value.  Requests share an entry exactly
where their texts are the same, the entries stay where they are, and there is one for every text.
-/
theorem serve_empty_shares_by_text (sources : List Json) :
    let (answers, cache) := empty.serve sources
    answers.map Prod.snd = sources.map Criteria.ofJson ∧
      (∀ i j : Nat, (answers.map Prod.fst)[i]? = (answers.map Prod.fst)[j]? ↔
        (sources.map Json.text)[i]? = (sources.map Json.text)[j]?) ∧
      List.Forall₂ cache.Holds sources answers ∧
      cache.size = (sources.map Json.text).toFinset.card := by
  obtain ⟨hgrows, hanswers⟩ := serve_spec isFaithful_empty sources
  have hfaithful := hgrows.faithful
  refine ⟨?_, place_getElem?_eq_iff hfaithful hanswers, hanswers, size_eq_card hgrows⟩
  rw [← List.forall₂_eq_eq_eq, List.forall₂_map_left_iff, List.forall₂_map_right_iff]
  refine hanswers.flip.imp fun answer source hholds => ?_
  exact Holds.criteria_eq hholds hfaithful

example :
    (empty.serve [.null, .string "null", .null]).1.map Prod.fst = [0, 1, 0] := by
  decide

end CriteriaCache

end DecisionTables
