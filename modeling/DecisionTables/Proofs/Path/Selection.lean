import DecisionTables.Path.Selection
import DecisionTables.Proofs.Json.Canonical
import DecisionTables.Proofs.Json.Update
import Mathlib.Data.List.Nodup

/-!
# Selected nodes

In a canonical document the selected locations all lie at the same depth, no two of them are the
same, and each of them leads to its node.  Hence they are apart from one another.  A path that
starts at the row selects the same nodes whether the row is a part of a document or the whole of it.

What is written at a node that is there does not change which locations are selected at the depth of
the node: on the way there all nodes keep their children, and only what lies below the node differs.

A path without wildcards selects in any document the one node at its target, if that is there.
-/

namespace DecisionTables

namespace Json

theorem child?_of_mem_childrenAt {node child : Json} {step : Step} {segment : Path.Segment}
    (hcanonical : node.Canonical) (hmem : (step, child) ∈ node.childrenAt segment) :
    node.child? step = some child := by
  cases segment with
  | key name =>
      cases hget : node.get? name <;> simp_all [childrenAt, child?]
  | index position =>
      cases hitem : node.item? position <;> simp_all [childrenAt, child?]
  | wildcard =>
      cases node with
      | object members =>
          obtain ⟨pair, hpair, heq⟩ := List.mem_map.mp hmem
          cases heq
          exact Entries.Sorted.get?_of_mem hcanonical.1 hpair
      | array items =>
          obtain ⟨pair, hpair, heq⟩ := List.mem_map.mp hmem
          cases heq
          exact List.mem_zipIdx_iff_getElem?.mp hpair
      | _ => simp [childrenAt] at hmem

theorem nodup_childrenAt {node : Json} (hcanonical : node.Canonical) (segment : Path.Segment) :
    ((node.childrenAt segment).map Prod.fst).Nodup := by
  cases segment with
  | key name => cases hget : node.get? name <;> simp [childrenAt, hget]
  | index position => cases hitem : node.item? position <;> simp [childrenAt, hitem]
  | wildcard =>
      cases node with
      | object members =>
          have hkeys : (members.map Prod.fst).Nodup :=
            (Entries.sorted_iff_keys.mp hcanonical.1).imp String.ne_of_lt
          have hsteps := hkeys.map fun _ _ h => Step.key.inj h
          simpa [childrenAt, Function.comp_def] using hsteps
      | array items =>
          have hsteps : ((array items).childrenAt .wildcard).map Prod.fst =
              (items.zipIdx.map Prod.snd).map Step.index := by
            simp only [childrenAt, List.map_map]
            rfl
          rw [hsteps, List.zipIdx_map_snd]
          have hpositions : (List.range' 0 items.length).Nodup := List.nodup_range'
          exact hpositions.map fun _ _ h => Step.index.inj h
      | _ => simp [childrenAt]

theorem length_of_mem_select {segments : List Path.Segment} {node found : Json}
    {steps : List Step} (hmem : (steps, found) ∈ node.select segments) :
    steps.length = segments.length := by
  induction segments generalizing node steps with
  | nil => simp_all [select]
  | cons segment rest ih =>
      simp only [select, List.mem_flatMap, List.mem_map] at hmem
      obtain ⟨⟨step, child⟩, -, ⟨more, descendant⟩, hbelow, heq⟩ := hmem
      cases heq
      simp [ih hbelow]

/-- The steps to a selected node lead to it. -/
theorem follow?_of_mem_select {segments : List Path.Segment} {node found : Json}
    {steps : List Step} (hcanonical : node.Canonical)
    (hmem : (steps, found) ∈ node.select segments) :
    node.follow? steps = some found := by
  induction segments generalizing node steps with
  | nil => simp_all [select, follow?]
  | cons segment rest ih =>
      simp only [select, List.mem_flatMap, List.mem_map] at hmem
      obtain ⟨⟨step, child⟩, hchild, ⟨more, descendant⟩, hbelow, heq⟩ := hmem
      cases heq
      have hstep := child?_of_mem_childrenAt hcanonical hchild
      simpa [follow?, hstep] using ih (canonical_of_child? hcanonical hstep) hbelow

/-- No location is selected twice. -/
theorem nodup_select {node : Json} (hcanonical : node.Canonical) (segments : List Path.Segment) :
    ((node.select segments).map Prod.fst).Nodup := by
  induction segments generalizing node with
  | nil => simp [select]
  | cons segment rest ih =>
      rw [select, List.map_flatMap, List.nodup_flatMap]
      constructor
      · rintro ⟨step, child⟩ hchild
        have hstep := child?_of_mem_childrenAt hcanonical hchild
        have hbelow := ih (canonical_of_child? hcanonical hstep)
        simpa [Function.comp_def] using hbelow.map fun _ _ h => (List.cons.inj h).2
      · refine (List.pairwise_map.mp (nodup_childrenAt hcanonical segment)).imp ?_
        intro first second hne steps hfirst hsecond
        simp only [List.map_map, List.mem_map, Function.comp_apply] at hfirst hsecond
        obtain ⟨_, -, rfl⟩ := hfirst
        obtain ⟨_, -, heq⟩ := hsecond
        exact hne (List.cons.inj heq).1.symm

end Json

namespace Path

variable {path : Path} {document node : Json} {row location : Location}

/-- Selected locations lead to nodes, with a step for every segment below the base. -/
theorem mem_select_spec (hcanonical : document.Canonical)
    (hmem : location ∈ path.select document row) :
    ∃ steps, location.steps = (path.base row).steps ++ steps ∧
      steps.length = path.segments.length ∧ (location.resolve? document).isSome := by
  unfold select selectNodes at hmem
  cases hstart : (path.base row).resolve? document with
  | none => simp [hstart] at hmem
  | some start =>
      simp only [hstart, List.map_map, List.mem_map, Function.comp_apply] at hmem
      obtain ⟨⟨steps, found⟩, hselected, rfl⟩ := hmem
      refine ⟨steps, rfl, Json.length_of_mem_select hselected, ?_⟩
      have hfound := Json.follow?_of_mem_select
        (Json.canonical_of_follow? hcanonical hstart) hselected
      have hbase : document.follow? (path.base row).steps = some start := hstart
      simp [Location.resolve?, Json.follow?_append, hbase, hfound]

theorem nodup_steps_select (hcanonical : document.Canonical) (path : Path) (row : Location) :
    ((path.select document row).map Location.steps).Nodup := by
  cases hstart : (path.base row).resolve? document with
  | none => simp [select, selectNodes, hstart]
  | some start =>
      have hnodup := Json.nodup_select
        (Json.canonical_of_follow? hcanonical hstart) path.segments
      simpa [select, selectNodes, hstart, Function.comp_def] using
        hnodup.map (List.append_right_injective (path.base row).steps)

/-- Selected locations are apart from one another. -/
theorem pairwise_apart_select (hcanonical : document.Canonical) (path : Path) (row : Location) :
    (path.select document row).Pairwise fun first second =>
      Step.Apart first.steps second.steps := by
  have hne := List.pairwise_map.mp (nodup_steps_select hcanonical path row)
  refine hne.imp_of_mem fun {first second} hfirst hsecond hne => ?_
  obtain ⟨_, hfirstSteps, hfirstLength, -⟩ := mem_select_spec hcanonical hfirst
  obtain ⟨_, hsecondSteps, hsecondLength, -⟩ := mem_select_spec hcanonical hsecond
  refine Step.apart_of_length_eq ?_ hne
  simp [hfirstSteps, hsecondSteps, hfirstLength, hsecondLength]

/-- A path from the row does not see what lies outside the row. -/
theorem selectOne_of_row (hroot : path.root = .row) (hnode : row.resolve? document = some node) :
    path.selectOne document row = path.selectOne node .root := by
  have hbase : path.base row = row := by simp [base, hroot]
  have hbaseRoot : path.base .root = .root := by simp [base, hroot]
  have hself : Location.root.resolve? node = some node := rfl
  unfold selectOne selectNodes
  simp only [hbase, hbaseRoot, hnode, hself]
  match node.select path.segments with
  | [] => rfl
  | [_] => rfl
  | _ :: _ :: _ => simp

theorem base_root (path : Path) : path.base .root = .root := by
  unfold base
  split <;> rfl

/-- A path that starts with a key sees only what the document has at this key. -/
theorem selectOne_of_get? {other : Json} {name : String} {rest : List Segment}
    (hsegments : path.segments = .key name :: rest) (hget : document.get? name = other.get? name) :
    path.selectOne document .root = path.selectOne other .root := by
  have hself : ∀ value : Json, Location.root.resolve? value = some value := fun _ => rfl
  simp only [selectOne, selectNodes, base_root, hself, hsegments, Json.select, Json.childrenAt,
    hget]

end Path

/-! ## Selection after a write -/

namespace Json

/-- Down to a depth the nodes have their children at the same steps. -/
def BranchesAlike : Nat → Json → Json → Prop
  | 0, _, _ => True
  | depth + 1, node, other => ∀ segment,
    List.Forall₂ (fun child otherChild =>
        child.1 = otherChild.1 ∧ BranchesAlike depth child.2 otherChild.2)
      (node.childrenAt segment) (other.childrenAt segment)

theorem branchesAlike_self (depth : Nat) (node : Json) : BranchesAlike depth node node := by
  induction depth generalizing node with
  | zero => trivial
  | succ depth ih =>
      intro segment
      exact List.forall₂_same.mpr fun child _ => ⟨rfl, ih child.2⟩

theorem childrenAt_key (node : Json) (name : String) :
    node.childrenAt (.key name) = (node.child? (.key name)).toList.map (Prod.mk (.key name)) := by
  cases hget : node.get? name <;> simp [childrenAt, child?, hget]

theorem childrenAt_index (node : Json) (position : Nat) :
    node.childrenAt (.index position) =
      (node.child? (.index position)).toList.map (Prod.mk (.index position)) := by
  cases hitem : node.item? position <;> simp [childrenAt, child?, hitem]

section Replacing

variable {R : Json → Json → Prop} {node old new : Json} {step : Step}

theorem forall₂_child?_withChild (hself : ∀ node, R node node)
    (hold : node.child? step = some old) (hnew : R old new) (other : Step) :
    List.Forall₂ (fun child otherChild => child.1 = otherChild.1 ∧ R child.2 otherChild.2)
      ((node.child? other).toList.map (Prod.mk other))
      (((node.withChild step new).child? other).toList.map (Prod.mk other)) := by
  by_cases h : other = step
  · subst h
    rw [hold, child?_withChild_self new (Option.isSome_of_eq_some hold)]
    exact .cons ⟨rfl, hnew⟩ .nil
  · rw [child?_withChild_of_ne node new h]
    exact List.forall₂_same.mpr fun child _ => ⟨rfl, hself child.2⟩

/-- With another child at a step, the children stand at the same steps as before. -/
theorem forall₂_childrenAt_withChild (hself : ∀ node, R node node)
    (hold : node.child? step = some old) (hnew : R old new) (segment : Path.Segment) :
    List.Forall₂ (fun child otherChild => child.1 = otherChild.1 ∧ R child.2 otherChild.2)
      (node.childrenAt segment) ((node.withChild step new).childrenAt segment) := by
  cases segment with
  | key name =>
      rw [childrenAt_key, childrenAt_key]
      exact forall₂_child?_withChild hself hold hnew _
  | index position =>
      rw [childrenAt_index, childrenAt_index]
      exact forall₂_child?_withChild hself hold hnew _
  | wildcard =>
      cases step with
      | key name =>
          cases node with
          | object members =>
              have hget : Entries.get? name members = some old := hold
              have hpairs := Entries.forall₂_replace hself hnew hget
              simp only [withChild, childrenAt, Entries.set, hget, Option.isSome_some, if_true,
                List.forall₂_map_left_iff, List.forall₂_map_right_iff]
              exact hpairs.imp fun pair other hpair => ⟨congrArg Step.key hpair.1, hpair.2⟩
          | _ => simp [child?, get?] at hold
      | index position =>
          cases node with
          | array items =>
              have hitem : items[position]? = some old := hold
              simp only [withChild, childrenAt, List.forall₂_map_left_iff,
                List.forall₂_map_right_iff]
              refine List.forall₂_iff_get.mpr ⟨by simp, fun other hother _ => ?_⟩
              have hthere : other < items.length := by simpa using hother
              by_cases h : position = other
              · subst h
                obtain rfl : items[position] = old := by
                  simpa [List.getElem?_eq_getElem hthere] using hitem
                simpa using hnew
              · simpa [List.getElem_set_ne h] using hself items[other]
          | _ => simp [child?, item?] at hold

end Replacing

theorem branchesAlike_write {steps : List Step} {document : Json} (value : Json)
    (hexists : (document.follow? steps).isSome) :
    BranchesAlike steps.length document (write value steps document).1 := by
  induction steps generalizing document with
  | nil => trivial
  | cons step rest ih =>
      obtain ⟨node, hnode⟩ := Option.isSome_iff_exists.mp hexists
      obtain ⟨child, hchild, hrest⟩ := Option.bind_eq_some_iff.mp hnode
      rw [write_cons_of_child value hchild]
      exact forall₂_childrenAt_withChild (branchesAlike_self rest.length) hchild
        (ih (Option.isSome_of_eq_some hrest))

theorem map_fst_select_cons (segment : Path.Segment) (rest : List Path.Segment) (node : Json) :
    (node.select (segment :: rest)).map Prod.fst =
      (node.childrenAt segment).flatMap fun child =>
        ((child.2.select rest).map Prod.fst).map (List.cons child.1) := by
  simp [select, List.map_flatMap, Function.comp_def]

theorem BranchesAlike.select_eq {segments : List Path.Segment} {node other : Json}
    (halike : BranchesAlike segments.length node other) :
    (node.select segments).map Prod.fst = (other.select segments).map Prod.fst := by
  induction segments generalizing node other with
  | nil => rfl
  | cons segment rest ih =>
      have hchildren := halike segment
      rw [map_fst_select_cons, map_fst_select_cons]
      generalize node.childrenAt segment = children at hchildren ⊢
      generalize other.childrenAt segment = otherChildren at hchildren ⊢
      induction hchildren with
      | nil => rfl
      | cons hhead _ ihChildren =>
          simp only [List.flatMap_cons, ihChildren, hhead.1, ih hhead.2]

end Json

/-- The same locations are selected after a write at the depth where they are. -/
theorem Path.select_write {path : Path} {document : Json} {row : Location} (value : Json)
    (hlength : row.steps.length = path.segments.length)
    (hexists : (row.resolve? document).isSome) :
    path.select (Json.write value row.steps document).1 .root = path.select document .root := by
  have hself : ∀ start : Json, Location.root.resolve? start = some start := fun _ => rfl
  have hlocations : ∀ start : Json, path.select start .root =
      ((start.select path.segments).map Prod.fst).map fun steps => ⟨steps⟩ := by
    intro start
    simp only [select, selectNodes, base_root, hself, List.map_map]
    rfl
  have halike := Json.branchesAlike_write value hexists
  rw [hlength] at halike
  rw [hlocations, hlocations, halike.select_eq]

/-! ## Paths without wildcards -/

/-- Segments without a wildcard select the node that their steps lead to. -/
theorem Json.select_of_stepsOf? {segments : List Path.Segment} {steps : List Step}
    (hsteps : Path.stepsOf? segments = some steps) (node : Json) :
    node.select segments = (node.follow? steps).toList.map (Prod.mk steps) := by
  induction segments generalizing steps node with
  | nil =>
      obtain rfl : [] = steps := Option.some.inj hsteps
      rfl
  | cons segment rest ih =>
      cases segment with
      | wildcard => simp [Path.stepsOf?] at hsteps
      | key name =>
          obtain ⟨more, hmore, rfl⟩ := Option.map_eq_some_iff.mp hsteps
          rw [select, childrenAt_key, follow?]
          cases node.child? (.key name) with
          | none => rfl
          | some child => simp [ih hmore, Function.comp_def]
      | index position =>
          obtain ⟨more, hmore, rfl⟩ := Option.map_eq_some_iff.mp hsteps
          rw [select, childrenAt_index, follow?]
          cases node.child? (.index position) with
          | none => rfl
          | some child => simp [ih hmore, Function.comp_def]

/-- A path with a target selects the target where it is there, and nothing else. -/
theorem Path.selectNodes_of_target? {path : Path} {row target : Location}
    (htarget : path.target? row = some target) (document : Json) :
    path.selectNodes document row =
      (target.resolve? document).toList.map (Prod.mk target) := by
  obtain ⟨steps, hsteps, rfl⟩ := Option.map_eq_some_iff.mp htarget
  simp only [selectNodes, Location.resolve?, Json.follow?_append]
  cases document.follow? (path.base row).steps with
  | none => rfl
  | some start => simp [Json.select_of_stepsOf? hsteps, Function.comp_def]

end DecisionTables
