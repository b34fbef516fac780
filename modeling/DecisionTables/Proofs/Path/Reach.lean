import DecisionTables.Proofs.Path.Laws
import DecisionTables.Proofs.Text.ByteOrder
import Mathlib.Data.Set.Card

/-!
# What a path reaches

A path reaches every location that goes on from its base by one step for each segment, as the
segment allows, and that leads to a node.  In a canonical document a path selects just these
locations, each of them once and in document order: at every node the children come in their order,
each of them with all that is selected below it.
-/

namespace DecisionTables

/-- The order of the children of a node: keys by their bytes, and positions. -/
def Step.Before : Step → Step → Prop
  | .key name, .key other => Blob.Coder.utf8 name < Blob.Coder.utf8 other
  | .index position, .index other => position < other
  | _, _ => False

/-- Document order, in which the outermost of the steps that differ decides. -/
def Location.Before (first second : Location) : Prop :=
  List.Lex Step.Before first.steps second.steps

/-- A segment allows the step that it names, and a wildcard allows every step. -/
def Path.Segment.Allows : Path.Segment → Step → Prop
  | .key name, step => step = .key name
  | .index position, step => step = .index position
  | .wildcard, _ => True

namespace Path

/-- The location goes on from the base by one allowed step for each segment. -/
def Allows (path : Path) (row location : Location) : Prop :=
  ∃ steps, location.steps = (path.base row).steps ++ steps ∧
    List.Forall₂ Segment.Allows path.segments steps

/-- The allowed locations that lead to a node of the document. -/
def reached (path : Path) (document : Json) (row : Location) : Set Location :=
  {location | path.Allows row location ∧ (location.resolve? document).isSome}

end Path

namespace Json

variable {node child found : Json} {step : Step} {steps : List Step}

theorem mem_childrenAt_iff (hcanonical : node.Canonical) {segment : Path.Segment} :
    (step, child) ∈ node.childrenAt segment ↔
      segment.Allows step ∧ node.child? step = some child := by
  refine ⟨fun hmem => ⟨?_, child?_of_mem_childrenAt hcanonical hmem⟩, ?_⟩
  · cases segment with
    | key name => cases hget : node.get? name <;> simp_all [childrenAt, Path.Segment.Allows]
    | index position =>
        cases hitem : node.item? position <;> simp_all [childrenAt, Path.Segment.Allows]
    | wildcard => trivial
  · rintro ⟨hallows, hchild⟩
    cases segment with
    | key name =>
        obtain rfl : step = .key name := hallows
        simp [childrenAt_key, hchild]
    | index position =>
        obtain rfl : step = .index position := hallows
        simp [childrenAt_index, hchild]
    | wildcard =>
        cases step with
        | key name =>
            cases node with
            | object members =>
                exact List.mem_map.mpr ⟨(name, child), Entries.mem_of_get? hchild, rfl⟩
            | _ => simp [child?, get?] at hchild
        | index position =>
            cases node with
            | array items =>
                exact List.mem_map.mpr
                  ⟨(child, position), List.mem_zipIdx_iff_getElem?.mpr hchild, rfl⟩
            | _ => simp [child?, item?] at hchild

/-- The children of a node are selected in their order. -/
theorem ordered_childrenAt (hcanonical : node.Canonical) (segment : Path.Segment) :
    ((node.childrenAt segment).map Prod.fst).Pairwise Step.Before := by
  cases segment with
  | key name => cases hget : node.get? name <;> simp [childrenAt, hget]
  | index position => cases hitem : node.item? position <;> simp [childrenAt, hitem]
  | wildcard =>
      cases node with
      | object members =>
          simp only [childrenAt, List.pairwise_map]
          exact hcanonical.1.imp Blob.Coder.utf8_lt_utf8
      | array items =>
          have hpositions : (items.zipIdx.map Prod.snd).Pairwise (· < ·) := by
            rw [List.zipIdx_map_snd]
            exact List.pairwise_lt_range'
          simp only [childrenAt, List.pairwise_map] at hpositions ⊢
          exact hpositions
      | _ => simp [childrenAt]

/-- What is selected is all that can be followed by allowed steps. -/
theorem mem_select_iff {segments : List Path.Segment} (hcanonical : node.Canonical) :
    (steps, found) ∈ node.select segments ↔
      List.Forall₂ Path.Segment.Allows segments steps ∧ node.follow? steps = some found := by
  induction segments generalizing node steps with
  | nil =>
      rw [List.forall₂_nil_left_iff]
      constructor
      · intro hmem
        cases List.mem_singleton.mp hmem
        exact ⟨rfl, rfl⟩
      · rintro ⟨rfl, hfound⟩
        cases hfound
        exact List.mem_singleton.mpr rfl
  | cons segment rest ih =>
      simp only [select, List.mem_flatMap, List.mem_map]
      constructor
      · rintro ⟨⟨step, child⟩, hchild, ⟨more, descendant⟩, hbelow, heq⟩
        cases heq
        obtain ⟨hallows, hstep⟩ := (mem_childrenAt_iff hcanonical).mp hchild
        obtain ⟨hmore, hfound⟩ := (ih (canonical_of_child? hcanonical hstep)).mp hbelow
        exact ⟨.cons hallows hmore, by simp [follow?, hstep, hfound]⟩
      · rintro ⟨hallowed, hfound⟩
        obtain ⟨step, more, hallows, hmore, rfl⟩ := List.forall₂_cons_left_iff.mp hallowed
        obtain ⟨child, hstep, hbelow⟩ := Option.bind_eq_some_iff.mp hfound
        have hselected := (ih (canonical_of_child? hcanonical hstep)).mpr ⟨hmore, hbelow⟩
        exact ⟨(step, child), (mem_childrenAt_iff hcanonical).mpr ⟨hallows, hstep⟩,
          (more, found), hselected, rfl⟩

/-- What is selected below a child comes before what is selected below a later one. -/
theorem ordered_select (hcanonical : node.Canonical) (segments : List Path.Segment) :
    ((node.select segments).map Prod.fst).Pairwise (List.Lex Step.Before) := by
  induction segments generalizing node with
  | nil => simp [select]
  | cons segment rest ih =>
      rw [map_fst_select_cons, List.pairwise_flatMap]
      constructor
      · rintro ⟨step, child⟩ hchild
        obtain ⟨-, hstep⟩ := (mem_childrenAt_iff hcanonical).mp hchild
        exact List.pairwise_map.mpr ((ih (canonical_of_child? hcanonical hstep)).imp .cons)
      · refine (List.pairwise_map.mp (ordered_childrenAt hcanonical segment)).imp ?_
        intro first second hbefore steps hsteps others hothers
        obtain ⟨_, -, rfl⟩ := List.mem_map.mp hsteps
        obtain ⟨_, -, rfl⟩ := List.mem_map.mp hothers
        exact .rel hbefore

end Json

namespace Path

variable {path : Path} {document node : Json} {row location : Location}

theorem mem_selectNodes_iff (hcanonical : document.Canonical) :
    (location, node) ∈ path.selectNodes document row ↔
      path.Allows row location ∧ location.resolve? document = some node := by
  have hresolve : ∀ steps, Location.resolve? ⟨(path.base row).steps ++ steps⟩ document =
      ((path.base row).resolve? document).bind (Json.follow? steps) :=
    fun steps => Json.follow?_append _ steps document
  cases hstart : (path.base row).resolve? document with
  | none =>
      simp only [selectNodes, hstart, List.not_mem_nil, false_iff, not_and]
      rintro ⟨steps, hsteps, -⟩ hfound
      obtain rfl : location = ⟨(path.base row).steps ++ steps⟩ := congrArg Location.mk hsteps
      simp [hresolve, hstart] at hfound
  | some start =>
      have hselect : ∀ steps, (steps, node) ∈ start.select path.segments ↔
          List.Forall₂ Segment.Allows path.segments steps ∧ start.follow? steps = some node :=
        fun _ => Json.mem_select_iff (Json.canonical_of_follow? hcanonical hstart)
      simp only [selectNodes, hstart, List.mem_map]
      constructor
      · rintro ⟨⟨steps, found⟩, hmem, heq⟩
        cases heq
        obtain ⟨hallowed, hfound⟩ := (hselect steps).mp hmem
        exact ⟨⟨steps, rfl, hallowed⟩, by simp [hresolve, hstart, hfound]⟩
      · rintro ⟨⟨steps, hsteps, hallowed⟩, hfound⟩
        obtain rfl : location = ⟨(path.base row).steps ++ steps⟩ := congrArg Location.mk hsteps
        have hbelow : start.follow? steps = some node := by
          simpa [hresolve, hstart] using hfound
        exact ⟨(steps, node), (hselect steps).mpr ⟨hallowed, hbelow⟩, rfl⟩

theorem mem_select_iff (hcanonical : document.Canonical) :
    location ∈ path.select document row ↔ location ∈ path.reached document row := by
  simp only [select, reached, List.mem_map, Set.mem_ofPred_eq, Option.isSome_iff_exists,
    ← exists_and_left, ← mem_selectNodes_iff hcanonical]
  constructor
  · rintro ⟨⟨_, node⟩, hmem, rfl⟩
    exact ⟨node, hmem⟩
  · rintro ⟨node, hmem⟩
    exact ⟨(location, node), hmem, rfl⟩

theorem nodup_select (hcanonical : document.Canonical) (path : Path) (row : Location) :
    (path.select document row).Nodup :=
  (nodup_steps_select hcanonical path row).of_map

theorem ordered_select (hcanonical : document.Canonical) (path : Path) (row : Location) :
    (path.select document row).Pairwise Location.Before := by
  cases hstart : (path.base row).resolve? document with
  | none => simp [select, selectNodes, hstart]
  | some start =>
      have hordered := Json.ordered_select
        (Json.canonical_of_follow? hcanonical hstart) path.segments
      simp only [select, selectNodes, hstart, List.map_map, List.pairwise_map] at hordered ⊢
      refine hordered.imp fun hbefore => ?_
      exact List.Lex.append_left _ hbefore (path.base row).steps

/-- As many locations are selected as are reached. -/
theorem ncard_reached (hcanonical : document.Canonical) (path : Path) (row : Location) :
    (path.reached document row).Finite ∧
      (path.reached document row).ncard = (path.selectNodes document row).length := by
  have hreached : path.reached document row = ((path.select document row).toFinset : Set _) := by
    ext location
    simp [mem_select_iff hcanonical]
  have hnodup := nodup_select hcanonical path row
  rw [hreached, Set.ncard_coe_finset, List.toFinset_card_of_nodup hnodup]
  exact ⟨Finset.finite_toSet _, by simp [select]⟩

/-- A path selects what it reaches, and as a single node only the one that it alone reaches. -/
structure SelectsReached (path : Path) (document : Json) (row : Location) : Prop where
  nodes : ∀ location node, (location, node) ∈ path.selectNodes document row ↔
    path.Allows row location ∧ location.resolve? document = some node
  once : ((path.selectNodes document row).map Prod.fst).Nodup
  ordered : ((path.selectNodes document row).map Prod.fst).Pairwise Location.Before
  finite : (path.reached document row).Finite
  nowhere : path.reached document row = ∅ → path.selectOne document row = .ok none
  single : ∀ location node, path.reached document row = {location} →
    location.resolve? document = some node → path.selectOne document row = .ok (some node)
  several : 1 < (path.reached document row).ncard → path.selectOne document row =
    .error (.ambiguous path.source (path.reached document row).ncard)
  plain : path.hasWildcard = false → (path.reached document row).ncard ≤ 1 ∧
    ∃ found, path.selectOne document row = .ok found

theorem selectsReached_of_canonical (hcanonical : document.Canonical) (path : Path)
    (row : Location) : path.SelectsReached document row := by
  obtain ⟨hfinite, hcard⟩ := ncard_reached hcanonical path row
  constructor
  case nodes => exact fun _ _ => mem_selectNodes_iff hcanonical
  case once => exact nodup_select hcanonical path row
  case ordered => exact ordered_select hcanonical path row
  case finite => exact hfinite
  case nowhere =>
    intro hempty
    rw [hempty, Set.ncard_empty] at hcard
    simp [selectOne, List.eq_nil_of_length_eq_zero hcard.symm]
  case single =>
    intro location node hsingle hfound
    rw [hsingle, Set.ncard_singleton] at hcard
    obtain ⟨entry, hnodes⟩ := List.length_eq_one_iff.mp hcard.symm
    have hreached : location ∈ path.reached document row := by simp [hsingle]
    have hmem := (mem_selectNodes_iff hcanonical).mpr ⟨hreached.1, hfound⟩
    rw [hnodes, List.mem_singleton] at hmem
    simp [selectOne, hnodes, ← hmem]
  case several =>
    intro hseveral
    rw [hcard] at hseveral ⊢
    unfold selectOne
    split <;> simp_all
  case plain =>
    intro hplain
    obtain ⟨target, htarget⟩ := Option.isSome_iff_exists.mp ((target?_isSome_iff row).mpr hplain)
    rw [hcard, selectNodes_of_target? htarget, selectOne_of_target? htarget]
    exact ⟨by cases target.resolve? document <;> simp, _, rfl⟩

/-- All sizes in stock, of whatever kind. -/
def sizesPath : Path :=
  ⟨"$.stock.*[*]", .document, [.key "stock", .wildcard, .wildcard]⟩

def stock : Json :=
  .object [("name", .string "east"),
    ("stock", .object [("shoes", .array [.string "40", .null]), ("socks", .string "none"),
      ("Überschuhe", .object [("L", .bool true)])])]

theorem selectsReached_of_stock :
    stock.Canonical ∧ sizesPath.SelectsReached stock .root ∧
      sizesPath.select stock .root =
        [⟨[.key "stock", .key "shoes", .index 0]⟩, ⟨[.key "stock", .key "shoes", .index 1]⟩,
          ⟨[.key "stock", .key "Überschuhe", .key "L"]⟩] := by
  have hcanonical : stock.Canonical := by
    have hkeys : "name" < "stock" ∧ "shoes" < "socks" ∧ "shoes" < "Überschuhe" ∧
        "socks" < "Überschuhe" := by decide
    simpa [stock, Json.Canonical, Json.CanonicalMembers, Json.CanonicalItems, Entries.Sorted,
      and_assoc] using hkeys
  exact ⟨hcanonical, selectsReached_of_canonical hcanonical sizesPath .root, by cbv⟩

end Path

end DecisionTables
