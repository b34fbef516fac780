import DecisionTables.Proofs.Path.Selection
import DecisionTables.Proofs.Path.Writing

/-!
# Laws of the path writer

A write at a path arrives just where the path has no wildcard and every node from the root of the
document to the target admits the next step, a node that is missing counting as null.  What arrived
is what the path then selects.  Apart from the target nothing of the document is lost, and nothing
but nulls is new, which pad the arrays on the way.  A later write takes the place of an earlier one,
and a value that is written where it is already changes nothing.
-/

namespace DecisionTables

/-- Apart from a position nothing is lost, and nothing but nulls is new. -/
structure Json.ExtendsApartFrom (steps : List Step) (before after : Json) : Prop where
  kept : ∀ other found, Step.Apart steps other → before.follow? other = some found →
    after.follow? other = some found
  added : ∀ other found, Step.Apart steps other → before.follow? other = none →
    after.follow? other = some found → found = .null

theorem Json.extendsApartFrom_write (value : Json) (steps : List Step) (document : Json) :
    ExtendsApartFrom steps document (write value steps document).1 where
  kept _ _ hapart hfound := follow?_write_of_follow? value hfound hapart
  added _ _ hapart hmissing hfound := eq_null_of_follow?_write hmissing hfound hapart

namespace Path

variable {path : Path} {row target : Location} {value document : Json}

theorem stepsOf?_isSome_iff {segments : List Segment} :
    (stepsOf? segments).isSome ↔ ∀ segment ∈ segments, segment ≠ .wildcard := by
  refine ⟨fun hsteps => ?_, stepsOf?_isSome⟩
  induction segments with
  | nil => simp
  | cons segment rest ih =>
      cases segment with
      | wildcard => simp [stepsOf?] at hsteps
      | _ => simpa using ih (by simpa [stepsOf?] using hsteps)

theorem target?_isSome_iff (row : Location) :
    (path.target? row).isSome ↔ path.hasWildcard = false := by
  rw [target?, Option.isSome_map, stepsOf?_isSome_iff]
  simp [hasWildcard]

theorem arrives_iff_of_target? (htarget : path.target? row = some target) :
    (path.write row value document).2 = none ↔ document.AdmitsAll target.steps := by
  rw [← Json.write_arrives_iff value]
  simp [write, htarget]

/-- A write arrives just where the path has a target and all nodes on the way admit it. -/
theorem arrives_iff :
    (path.write row value document).2 = none ↔
      path.hasWildcard = false ∧
        ∀ target, path.target? row = some target → document.AdmitsAll target.steps := by
  cases htarget : path.target? row with
  | none =>
      have hwildcard : path.hasWildcard ≠ false := by
        rw [Ne, ← target?_isSome_iff row, htarget]
        simp
      simp [write, htarget, hwildcard]
  | some target =>
      have hplain : path.hasWildcard = false := by
        rw [← target?_isSome_iff row, htarget]
        rfl
      rw [arrives_iff_of_target? htarget]
      simp [hplain]

theorem selectOne_of_target? (htarget : path.target? row = some target) (document : Json) :
    path.selectOne document row = .ok (target.resolve? document) := by
  rw [selectOne, selectNodes_of_target? htarget]
  cases target.resolve? document <;> rfl

theorem write_self (htarget : path.target? row = some target)
    (hheld : target.resolve? document = some value) :
    path.write row value document = (document, none) := by
  have harrives : Json.write value target.steps document = (document, none) := by
    have happend := Json.write_append [] value hheld
    rw [List.append_nil] at happend
    rw [happend]
    exact congrArg (·, none) (Json.write_self hheld)
  rw [write, htarget]
  simp only [harrives, Option.map_none]

/--
A write arrives just where all nodes on the way admit it.  The path then selects what was written,
the rest of the document stays but for nulls, and of several writes only the last one counts.
-/
theorem write_lens_laws (path : Path) (row : Location) (value document : Json) :
    ((path.write row value document).2 = none ↔
      path.hasWildcard = false ∧
        ∀ target, path.target? row = some target → document.AdmitsAll target.steps) ∧
    (∀ written, path.write row value document = (written, none) →
      path.selectOne written row = .ok (some value) ∧
      (∃ target, path.target? row = some target ∧
        Json.ExtendsApartFrom target.steps document written) ∧
      ∀ second, path.write row second written = path.write row second document) ∧
    ∀ target, path.target? row = some target → target.resolve? document = some value →
      path.write row value document = (document, none) := by
  refine ⟨arrives_iff, ?_, fun target htarget hheld => write_self htarget hheld⟩
  intro written hwrite
  have hdocument : (path.write row value document).1 = written := by rw [hwrite]
  have harrived : (path.write row value document).2 = none := by rw [hwrite]
  rcases exists_target_of_arrived harrived with ⟨target, htarget, hholds⟩
  refine ⟨?_, ⟨target, htarget, ?_⟩, fun second => ?_⟩
  · rw [selectOne_of_target? htarget, ← hdocument, hholds]
  · have hextends := Json.extendsApartFrom_write value target.steps document
    rwa [← hdocument, write, htarget]
  · rw [← hdocument, write_write]

/-- The label of a third shelf, where there is only one so far. -/
def labelPath : Path :=
  ⟨"$.shelves[2].label", .document, [.key "shelves", .index 2, .key "label"]⟩

def shelves : Json :=
  .object [("open", .bool true), ("shelves", .array [.string "low"])]

def labelledShelves : Json :=
  .object [("open", .bool true),
    ("shelves", .array [.string "low", .null, .object [("label", .string "top")]])]

theorem write_lens_laws_shelves :
    (labelPath.write .root (.string "top") shelves).2 = none ∧
      labelPath.selectOne labelledShelves .root = .ok (some (.string "top")) ∧
      (∃ target, labelPath.target? .root = some target ∧
        Json.ExtendsApartFrom target.steps shelves labelledShelves) ∧
      labelPath.write .root (.string "top") labelledShelves = (labelledShelves, none) := by
  have hwrite : labelPath.write .root (.string "top") shelves = (labelledShelves, none) := by
    cbv
  have hlaws := write_lens_laws labelPath .root (.string "top") shelves
  have hafter := hlaws.2.1 labelledShelves hwrite
  have hagain := write_lens_laws labelPath .root (.string "top") labelledShelves
  exact ⟨by rw [hwrite], hafter.1, hafter.2.1, hagain.2.2 _ rfl (by cbv)⟩

end Path

end DecisionTables
