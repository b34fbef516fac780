import DecisionTables.Proofs.Json.Writing

/-!
# Writing at paths

A path without wildcards has a target in every row, and only its target decides what a write does.
What arrives there is the node at the target.  A second write at the path takes the place of the
first one, and two paths that part at the first keys below the row can be written at in either
order, with the same faults.  A write that fails leaves the document as it was just where its path
has no target or a node of the document refuses it.
-/

namespace DecisionTables.Path

theorem stepsOf?_isSome {segments : List Segment}
    (hplain : ∀ segment ∈ segments, segment ≠ .wildcard) : (stepsOf? segments).isSome := by
  induction segments with
  | nil => rfl
  | cons segment rest ih =>
      obtain ⟨hsegment, hrest⟩ := List.forall_mem_cons.mp hplain
      cases segment with
      | wildcard => exact absurd rfl hsegment
      | _ => simpa [stepsOf?] using ih hrest

/-- A write at a path without wildcards is not refused for one. -/
theorem write_error_ne_wildcard {path : Path} (hplain : path.hasWildcard = false) (row : Location)
    (value document : Json) (source : String) :
    (path.write row value document).2 ≠ some (.unwritable source .wildcard) := by
  have hsegments : ∀ segment ∈ path.segments, segment ≠ .wildcard := by
    simpa [hasWildcard] using hplain
  obtain ⟨steps, hsteps⟩ := Option.isSome_iff_exists.mp (stepsOf?_isSome hsegments)
  have hfault := Json.write_fault_ne_wildcard value ((path.base row).steps ++ steps) document
  simp only [write, target?, hsteps, Option.map_some]
  simp_all

theorem write_write (path : Path) (row : Location) (first second document : Json) :
    path.write row second (path.write row first document).1 = path.write row second document := by
  unfold write
  cases path.target? row with
  | none => rfl
  | some target => simp only [Json.write_write]

/-- Whether and how a write fails does not depend on what is written. -/
theorem write_error_eq (path : Path) (row : Location) (value other document : Json) :
    (path.write row value document).2 = (path.write row other document).2 := by
  unfold write
  cases path.target? row with
  | none => rfl
  | some target => simp only [Json.write_fault_eq value other]

def firstKey? (path : Path) : Option String :=
  match path.segments with
  | .key name :: _ => some name
  | _ => none

theorem exists_of_firstKey? {path : Path} {name : String} (hkey : path.firstKey? = some name) :
    ∃ rest, path.segments = .key name :: rest := by
  unfold firstKey? at hkey
  split at hkey
  · obtain rfl := Option.some.inj hkey
    exact ⟨_, by assumption⟩
  · contradiction

theorem target?_of_firstKey? {path : Path} {name : String} (hroot : path.root = .row)
    (hkey : path.firstKey? = some name) {row target : Location}
    (htarget : path.target? row = some target) :
    ∃ rest, target.steps = row.steps ++ .key name :: rest := by
  obtain ⟨segments, hsegments⟩ := exists_of_firstKey? hkey
  simp only [target?, base, hroot, hsegments, stepsOf?, Option.map_map,
    Option.map_eq_some_iff] at htarget
  obtain ⟨steps, -, rfl⟩ := htarget
  exact ⟨steps, rfl⟩

/-- Writes below different keys of the row can change places, and keep their faults. -/
theorem write_comm {path other : Path} {name otherName : String} (hroot : path.root = .row)
    (hotherRoot : other.root = .row) (hkey : path.firstKey? = some name)
    (hotherKey : other.firstKey? = some otherName) (hne : name ≠ otherName) (row : Location)
    (value otherValue document : Json) :
    path.write row value (other.write row otherValue document).1 =
      ((other.write row otherValue (path.write row value document).1).1,
        (path.write row value document).2) := by
  cases htarget : path.target? row with
  | none => simp [write, htarget]
  | some target =>
      cases hotherTarget : other.target? row with
      | none => simp [write, hotherTarget]
      | some otherTarget =>
          obtain ⟨rest, hsteps⟩ := target?_of_firstKey? hroot hkey htarget
          obtain ⟨otherRest, hotherSteps⟩ := target?_of_firstKey? hotherRoot hotherKey hotherTarget
          simp only [write, htarget, hotherTarget, hsteps, hotherSteps,
            Json.write_comm hne value otherValue row.steps rest otherRest document]

theorem get?_write_of_ne {path : Path} {name other : String} (hroot : path.root = .row)
    (hkey : path.firstKey? = some other) (hne : name ≠ other) (value document : Json) :
    (path.write .root value document).1.get? name = document.get? name := by
  cases htarget : path.target? .root with
  | none => simp [write, htarget]
  | some target =>
      obtain ⟨rest, hsteps⟩ := target?_of_firstKey? hroot hkey htarget
      simp only [write, htarget, hsteps]
      exact Json.get?_write_of_ne hne value rest document

/-- What was written without an error is the node at the target. -/
theorem exists_target_of_arrived {path : Path} {row : Location} {value document : Json}
    (harrived : (path.write row value document).2 = none) :
    ∃ target, path.target? row = some target ∧
      target.resolve? (path.write row value document).1 = some value := by
  cases htarget : path.target? row with
  | none => simp [write, htarget] at harrived
  | some target =>
      simp only [write, htarget, Option.map_eq_none_iff] at harrived ⊢
      exact ⟨target, rfl, Json.follow?_write_of_arrived harrived⟩

/-! ## Writes that fail -/

/-- The path has no target, or a node of the document refuses a step to the target. -/
def IsRefused (path : Path) (row : Location) (document : Json) : Prop :=
  ∀ target, path.target? row = some target → ∃ fault, document.Refuses target.steps fault

section Failing

variable {path : Path} {row : Location} {value document : Json} {error : PathError}

theorem IsRefused.document_write (hrefused : path.IsRefused row document) :
    (path.write row value document).1 = document := by
  cases htarget : path.target? row with
  | none => simp [write, htarget]
  | some target =>
      obtain ⟨fault, hrefuses⟩ := hrefused target htarget
      simp [write, htarget, hrefuses.write_eq]

/-- A failed write leaves the document as it was just where it was refused by what was there. -/
theorem document_write_eq_self_iff (hfails : (path.write row value document).2 = some error) :
    (path.write row value document).1 = document ↔ path.IsRefused row document := by
  refine ⟨fun hkept target htarget => ?_, fun hrefused => hrefused.document_write⟩
  simp only [write, htarget, Option.map_eq_some_iff] at hfails hkept
  obtain ⟨fault, hfault, -⟩ := hfails
  exact ⟨fault, (Json.write_eq_self_iff hfault).mp hkept⟩

/-- A write below another key of the row that arrives changes nothing about a refusal. -/
theorem isRefused_write_iff {other : Path} {name otherName : String} (hroot : path.root = .row)
    (hotherRoot : other.root = .row) (hkey : path.firstKey? = some name)
    (hotherKey : other.firstKey? = some otherName) (hne : name ≠ otherName)
    (harrived : (other.write row value document).2 = none) :
    path.IsRefused row (other.write row value document).1 ↔ path.IsRefused row document := by
  unfold IsRefused
  refine forall_congr' fun target => imp_congr_right fun htarget => ?_
  obtain ⟨rest, hsteps⟩ := target?_of_firstKey? hroot hkey htarget
  cases hotherTarget : other.target? row with
  | none => simp [write, hotherTarget] at harrived
  | some otherTarget =>
      obtain ⟨otherRest, hotherSteps⟩ := target?_of_firstKey? hotherRoot hotherKey hotherTarget
      simp only [write, hotherTarget, hotherSteps, Option.map_eq_none_iff] at harrived ⊢
      simp only [hsteps, Json.refuses_write_iff hne harrived]

/-- A write at the path fails, but not before it has begun to make what is missing on its way. -/
def BreaksOff (path : Path) (row : Location) (document : Json) : Prop :=
  (path.write row .null document).2.isSome ∧ ¬ path.IsRefused row document

theorem breaksOff_iff (value : Json) :
    path.BreaksOff row document ↔
      (path.write row value document).2.isSome ∧ (path.write row value document).1 ≠ document := by
  rw [BreaksOff, write_error_eq path row .null value]
  refine and_congr_right fun hfails => ?_
  obtain ⟨error, herror⟩ := Option.isSome_iff_exists.mp hfails
  rw [Ne, document_write_eq_self_iff herror]

/-- Only a write that is stopped by an index too far out can leave something behind. -/
theorem isRefused_of_error (hfails : (path.write row value document).2 = some error)
    (hkind : ∀ index, error ≠ .unwritable path.source (.beyondEnd index)) :
    path.IsRefused row document := by
  intro target htarget
  simp only [write, htarget, Option.map_eq_some_iff] at hfails
  obtain ⟨fault, hfault, rfl⟩ := hfails
  refine ⟨fault, Json.refuses_of_fault hfault ?_⟩
  rintro index rfl
  exact hkind index rfl

end Failing

end DecisionTables.Path
