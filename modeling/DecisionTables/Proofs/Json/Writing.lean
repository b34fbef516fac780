import DecisionTables.Proofs.Json.Update

/-!
# Laws of writing

The first step of a write either opens the node or is blocked by it.  A step that opens the node
makes it ready without touching the children that are there, and the write goes on in the child at
the step; a step that is blocked leaves the node as it is, whatever was to be written.  By induction
on the steps this gives what whole writes do, those that stop on their way among them: a node apart
from the target that is there stays as it is, a second write to the same target takes the place of
the first, and writes that part at two keys can change places, each with the fault it had.

A write that fails has changed the document, unless a node that was there before refused the step it
was stopped at: what a write makes on its way is a null at first, which stops it only at an index
too far out.
-/

namespace DecisionTables.Json

variable {node ready child document : Json} {step : Step}

theorem withChild_withChild (node : Json) (step : Step) (first second : Json) :
    (node.withChild step first).withChild step second = node.withChild step second := by
  cases step with
  | key name =>
      cases node with
      | object members => simp [withChild, Entries.set_set]
      | _ => rfl
  | index position =>
      cases node with
      | array items => simp [withChild]
      | _ => rfl

/-- The node can be made ready for the step, and a write goes on in the child at the step. -/
structure Opens (node : Json) (step : Step) (ready child : Json) : Prop where
  child_eq : ready.child? step = some child
  kept : ∀ other found, node.child? other = some found → ready.child? other = some found
  added : ∀ other found, ready.child? other = some found →
    node.child? other = some found ∨ found = null
  write_eq : ∀ value rest, write value (step :: rest) node =
    (ready.withChild step (write value rest child).1, (write value rest child).2)

/-- The step cannot be taken from the node, which stays as it is whatever was to be written. -/
def Blocks (node : Json) (step : Step) (fault : WriteFault) : Prop :=
  ∀ value rest, write value (step :: rest) node = (node, some fault)

theorem child?_key_of_membersForWriting? {members : List (String × Json)}
    (hmembers : node.membersForWriting? = some members) (name : String) :
    node.child? (.key name) = Entries.get? name members := by
  cases node with
  | object own =>
      obtain rfl : own = members := by simpa [membersForWriting?] using hmembers
      rfl
  | null =>
      obtain rfl : [] = members := by simpa [membersForWriting?] using hmembers
      rfl
  | _ => simp [membersForWriting?] at hmembers

theorem child?_index_of_membersForWriting? {members : List (String × Json)}
    (hmembers : node.membersForWriting? = some members) (position : Nat) :
    node.child? (.index position) = none := by
  cases node with
  | array items => simp [membersForWriting?] at hmembers
  | _ => rfl

theorem child?_index_of_itemsForWriting? {items : List Json}
    (hitems : node.itemsForWriting? = some items) (position : Nat) :
    node.child? (.index position) = items[position]? := by
  cases node with
  | array own =>
      obtain rfl : own = items := by simpa [itemsForWriting?] using hitems
      rfl
  | null =>
      obtain rfl : [] = items := by simpa [itemsForWriting?] using hitems
      rfl
  | _ => simp [itemsForWriting?] at hitems

theorem child?_key_of_itemsForWriting? {items : List Json}
    (hitems : node.itemsForWriting? = some items) (name : String) :
    node.child? (.key name) = none := by
  cases node with
  | object members => simp [itemsForWriting?] at hitems
  | _ => rfl

theorem opens_key {name : String} {members : List (String × Json)}
    (hmembers : node.membersForWriting? = some members) :
    node.Opens (.key name)
      (object (Entries.set name ((Entries.get? name members).getD null) members))
      ((Entries.get? name members).getD null) where
  child_eq := Entries.get?_set_self _ _ _
  kept other found hfound := by
    cases other with
    | key otherName =>
        rw [child?_key_of_membersForWriting? hmembers] at hfound
        by_cases h : otherName = name
        · subst h
          simp [child?, get?, hfound]
        · exact (Entries.get?_set_of_ne _ _ h).trans hfound
    | index position => simp [child?_index_of_membersForWriting? hmembers] at hfound
  added other found hfound := by
    cases other with
    | key otherName =>
        rw [child?_key_of_membersForWriting? hmembers]
        by_cases h : otherName = name
        · subst h
          cases hget : Entries.get? otherName members <;> simp_all [child?, get?]
        · exact .inl ((Entries.get?_set_of_ne _ _ h).symm.trans hfound)
    | index position => simp [child?, item?] at hfound
  write_eq value rest := by
    simp [write, hmembers, withChild, Entries.set_set]

theorem getElem?_padTo_self (position : Nat) (items : List Json) :
    (padTo position items)[position]? = some (items[position]?.getD null) := by
  by_cases h : position < items.length
  · rw [padTo, List.getElem?_append_left h, List.getElem?_eq_getElem h, Option.getD_some]
  · have hpad : position - items.length < position + 1 - items.length := by omega
    rw [padTo, List.getElem?_append_right (by omega), List.getElem?_replicate, if_pos hpad,
      List.getElem?_eq_none (by omega), Option.getD_none]

/-- A padded array holds its own items, and nulls after them. -/
theorem eq_null_of_getElem?_padTo {position other : Nat} {items : List Json} {found : Json}
    (hfound : (padTo position items)[other]? = some found) :
    items[other]? = some found ∨ found = null := by
  by_cases h : other < items.length
  · left
    rwa [padTo, List.getElem?_append_left h] at hfound
  · right
    rw [padTo, List.getElem?_append_right (by omega)] at hfound
    exact List.eq_of_mem_replicate (List.mem_of_getElem? hfound)

theorem opens_index {position : Nat} {items : List Json}
    (hwithin : ¬ node.arrayLength + widestGap < position)
    (hitems : node.itemsForWriting? = some items) :
    node.Opens (.index position) (array (padTo position items))
      (items[position]?.getD null) where
  child_eq := getElem?_padTo_self position items
  kept other found hfound := by
    cases other with
    | key name => simp [child?_key_of_itemsForWriting? hitems] at hfound
    | index otherPosition =>
        rw [child?_index_of_itemsForWriting? hitems] at hfound
        obtain ⟨hlt, -⟩ := List.getElem?_eq_some_iff.mp hfound
        exact (List.getElem?_append_left hlt).trans hfound
  added other found hfound := by
    cases other with
    | key name => simp [child?, get?] at hfound
    | index otherPosition =>
        rw [child?_index_of_itemsForWriting? hitems]
        exact eq_null_of_getElem?_padTo hfound
  write_eq value rest := by
    simp [write, hitems, hwithin, withChild]

/-- The fault that a write is stopped with at the node before the step, if it is. -/
def refusal? (node : Json) : Step → Option WriteFault
  | .key name =>
    if node.membersForWriting?.isSome then none else some (.notAnObject name node.kind)
  | .index position =>
    if node.arrayLength + widestGap < position then some (.beyondEnd position)
    else if node.itemsForWriting?.isSome then none
    else some (.notAnArray position node.kind)

theorem blocks_of_refusal? {fault : WriteFault} (hrefusal : node.refusal? step = some fault) :
    node.Blocks step fault := by
  intro value rest
  cases step with
  | key name =>
      cases hmembers : node.membersForWriting? with
      | some members => simp [refusal?, hmembers] at hrefusal
      | none => simpa [refusal?, write, hmembers] using hrefusal
  | index position =>
      by_cases hbeyond : node.arrayLength + widestGap < position
      · simpa [refusal?, write, hbeyond] using hrefusal
      · cases hitems : node.itemsForWriting? with
        | some items => simp [refusal?, hbeyond, hitems] at hrefusal
        | none => simpa [refusal?, write, hbeyond, hitems] using hrefusal

/-- Unless the step is refused, a write goes on in the child that is there, or in a null. -/
theorem opens_of_refusal? (hrefusal : node.refusal? step = none) :
    ∃ ready, node.Opens step ready ((node.child? step).getD null) := by
  cases step with
  | key name =>
      cases hmembers : node.membersForWriting? with
      | none => simp [refusal?, hmembers] at hrefusal
      | some members =>
          rw [child?_key_of_membersForWriting? hmembers]
          exact ⟨_, opens_key hmembers⟩
  | index position =>
      by_cases hbeyond : node.arrayLength + widestGap < position
      · simp [refusal?, hbeyond] at hrefusal
      · cases hitems : node.itemsForWriting? with
        | none => simp [refusal?, hbeyond, hitems] at hrefusal
        | some items =>
            rw [child?_index_of_itemsForWriting? hitems]
            exact ⟨_, opens_index hbeyond hitems⟩

theorem opens_or_refuses (node : Json) (step : Step) :
    (∃ ready, node.Opens step ready ((node.child? step).getD null)) ∨
      ∃ fault, node.refusal? step = some fault := by
  cases hrefusal : node.refusal? step with
  | none => exact .inl (opens_of_refusal? hrefusal)
  | some fault => exact .inr ⟨fault, rfl⟩

theorem refusal?_ne_wildcard (node : Json) (step : Step) :
    node.refusal? step ≠ some .wildcard := by
  unfold refusal?
  split
  · split <;> simp
  · split
    · simp
    · split <;> simp

/-- The first step of a write opens the node or is blocked, and never for a wildcard. -/
theorem opens_or_blocks (node : Json) (step : Step) :
    (∃ ready child, node.Opens step ready child) ∨
      ∃ fault, fault ≠ .wildcard ∧ node.Blocks step fault := by
  rcases opens_or_refuses node step with ⟨ready, hopens⟩ | ⟨fault, hrefusal⟩
  · exact .inl ⟨ready, _, hopens⟩
  · refine .inr ⟨fault, ?_, blocks_of_refusal? hrefusal⟩
    rintro rfl
    exact refusal?_ne_wildcard node step hrefusal

/-- What a write made of a node that opened is ready for the same step again. -/
theorem Opens.write_withChild (hopens : node.Opens step ready child) (between value : Json)
    (rest : List Step) :
    write value (step :: rest) (ready.withChild step between) =
      (ready.withChild step (write value rest between).1, (write value rest between).2) := by
  have hthere : (ready.child? step).isSome := by simp [hopens.child_eq]
  rw [write_cons_of_child value (child?_withChild_self between hthere), withChild_withChild]

/-! ## Whole writes -/

theorem write_fault_ne_wildcard (value : Json) (steps : List Step) (document : Json) :
    (write value steps document).2 ≠ some .wildcard := by
  induction steps generalizing document with
  | nil => simp [write]
  | cons step rest ih =>
      rcases document.opens_or_blocks step with ⟨ready, child, hopens⟩ | ⟨fault, hne, hblocks⟩
      · rw [hopens.write_eq]
        exact ih child
      · rw [hblocks]
        simpa using hne

/-- A node that is there, apart from the target of a write, stays as it is. -/
theorem follow?_write_of_follow? {steps other : List Step} {found : Json} (value : Json)
    (hfound : document.follow? other = some found) (hapart : Step.Apart steps other) :
    (write value steps document).1.follow? other = some found := by
  induction steps generalizing document other with
  | nil => exact absurd hapart (Step.not_apart_nil_left other)
  | cons step rest ih =>
      rcases document.opens_or_blocks step with ⟨ready, child, hopens⟩ | ⟨fault, -, hblocks⟩
      · cases other with
        | nil => exact absurd hapart (Step.not_apart_nil_right _)
        | cons otherStep otherRest =>
            obtain ⟨start, hstart, hbelow⟩ := Option.bind_eq_some_iff.mp hfound
            have hkept := hopens.kept otherStep start hstart
            rw [hopens.write_eq, follow?]
            by_cases hstep : otherStep = step
            · subst hstep
              obtain rfl : child = start := Option.some.inj (hopens.child_eq.symm.trans hkept)
              rw [child?_withChild_self _ (by simp [hkept])]
              exact ih hbelow (by simpa using Step.apart_cons_iff.mp hapart)
            · simpa [child?_withChild_of_ne ready _ hstep, hkept] using hbelow
      · rw [hblocks]
        exact hfound

theorem follow?_null_cons (step : Step) (rest : List Step) :
    null.follow? (step :: rest) = none := by
  cases step <;> rfl

/-- Apart from its target a write makes nothing but nulls. -/
theorem eq_null_of_follow?_write {steps other : List Step} {value found : Json}
    (hmissing : document.follow? other = none)
    (hfound : (write value steps document).1.follow? other = some found)
    (hapart : Step.Apart steps other) : found = null := by
  induction steps generalizing document other with
  | nil => exact absurd hapart (Step.not_apart_nil_left other)
  | cons step rest ih =>
      rcases document.opens_or_refuses step with ⟨ready, hopens⟩ | ⟨fault, hrefusal⟩
      · cases other with
        | nil => exact absurd hapart (Step.not_apart_nil_right _)
        | cons otherStep otherRest =>
            rw [hopens.write_eq] at hfound
            obtain ⟨start, hstart, hbelow⟩ := Option.bind_eq_some_iff.mp hfound
            by_cases hstep : otherStep = step
            · subst hstep
              rw [child?_withChild_self _ (by simp [hopens.child_eq])] at hstart
              obtain rfl := Option.some.inj hstart
              have hrest : Step.Apart rest otherRest := by
                simpa using Step.apart_cons_iff.mp hapart
              refine ih ?_ hbelow hrest
              cases hchild : document.child? otherStep with
              | some child => simpa [follow?, hchild] using hmissing
              | none =>
                  cases otherRest with
                  | nil => exact absurd hrest (Step.not_apart_nil_right _)
                  | cons next more => exact follow?_null_cons next more
            · rw [child?_withChild_of_ne ready _ hstep] at hstart
              rcases hopens.added otherStep start hstart with hold | rfl
              · simp [follow?, hold, hbelow] at hmissing
              · cases otherRest with
                | nil => exact (Option.some.inj hbelow).symm
                | cons next more => simp [follow?_null_cons] at hbelow
      · rw [blocks_of_refusal? hrefusal, hmissing] at hfound
        contradiction

/-- Of two writes to one target the second one counts, with its fault. -/
theorem write_write (first second : Json) (steps : List Step) (document : Json) :
    write second steps (write first steps document).1 = write second steps document := by
  induction steps generalizing document with
  | nil => rfl
  | cons step rest ih =>
      rcases document.opens_or_blocks step with ⟨ready, child, hopens⟩ | ⟨fault, -, hblocks⟩
      · rw [hopens.write_eq, hopens.write_eq, hopens.write_withChild, ih]
      · rw [hblocks, hblocks]

/-- Whether and how a write is stopped does not depend on what is written. -/
theorem write_fault_eq (value other : Json) (steps : List Step) (document : Json) :
    (write value steps document).2 = (write other steps document).2 := by
  induction steps generalizing document with
  | nil => rfl
  | cons step rest ih =>
      rcases document.opens_or_blocks step with ⟨ready, child, hopens⟩ | ⟨fault, -, hblocks⟩
      · rw [hopens.write_eq, hopens.write_eq]
        exact ih child
      · rw [hblocks, hblocks]

theorem write_comm_of_keys {name other : String} (hne : name ≠ other) (value otherValue : Json)
    (rest otherRest : List Step) (document : Json) :
    write value (.key name :: rest) (write otherValue (.key other :: otherRest) document).1 =
      ((write otherValue (.key other :: otherRest)
        (write value (.key name :: rest) document).1).1,
      (write value (.key name :: rest) document).2) := by
  cases hmembers : document.membersForWriting? with
  | none => simp [write, hmembers]
  | some members =>
      have hobject : ∀ entries, (object entries).membersForWriting? = some entries :=
        fun _ => rfl
      simp [write, hmembers, hobject, Entries.get?_set_of_ne _ _ hne,
        Entries.get?_set_of_ne _ _ hne.symm, Entries.set_comm hne]

/-- Writes that part at different keys can change places, and keep their faults. -/
theorem write_comm {name other : String} (hne : name ≠ other) (value otherValue : Json)
    (common rest otherRest : List Step) (document : Json) :
    write value (common ++ .key name :: rest)
        (write otherValue (common ++ .key other :: otherRest) document).1 =
      ((write otherValue (common ++ .key other :: otherRest)
        (write value (common ++ .key name :: rest) document).1).1,
      (write value (common ++ .key name :: rest) document).2) := by
  induction common generalizing document with
  | nil => exact write_comm_of_keys hne value otherValue rest otherRest document
  | cons step common ih =>
      rcases document.opens_or_blocks step with ⟨ready, child, hopens⟩ | ⟨fault, -, hblocks⟩
      · simp only [List.cons_append, hopens.write_eq, hopens.write_withChild, ih]
      · simp only [List.cons_append, hblocks _ _]

/-- A write at a key leaves what is found under other keys. -/
theorem get?_write_of_ne {name other : String} (hne : name ≠ other) (value : Json)
    (rest : List Step) (document : Json) :
    (write value (.key other :: rest) document).1.get? name = document.get? name := by
  cases document with
  | object members => exact Entries.get?_set_of_ne members _ hne
  | null => simpa [write, membersForWriting?, get?, Entries.get?] using
      Entries.get?_set_of_ne [] _ hne
  | _ => rfl

/-- A write leaves what is found where its way has parted from the target at a key. -/
theorem follow?_write_of_keys {name other : String} (hne : name ≠ other) (value : Json)
    (common rest otherRest : List Step) (document : Json) :
    (write value (common ++ .key other :: rest) document).1.follow?
        (common ++ .key name :: otherRest) =
      document.follow? (common ++ .key name :: otherRest) := by
  induction common generalizing document with
  | nil =>
      have hchild := get?_write_of_ne hne value rest document
      simp only [List.nil_append, follow?, child?, hchild]
  | cons step common ih =>
      rcases document.opens_or_refuses step with ⟨ready, hopens⟩ | ⟨fault, hrefusal⟩
      · have hnull : null.follow? (common ++ .key name :: otherRest) = none := by
          cases common <;> exact follow?_null_cons _ _
        rw [List.cons_append, List.cons_append, hopens.write_eq, follow?,
          child?_withChild_self _ (by simp [hopens.child_eq]), Option.bind_some, ih, follow?]
        cases document.child? step with
        | some child => rfl
        | none => exact hnull
      · rw [List.cons_append, List.cons_append, blocks_of_refusal? hrefusal]

/-! ## Writes that arrive and writes that are refused -/

/-- The node lets a write take the step: it is of the right kind, and the index not too far out. -/
def Admits (node : Json) : Step → Prop
  | .key _ => node = null ∨ ∃ members, node = object members
  | .index position =>
    (node = null ∧ position ≤ 1024) ∨ ∃ items, node = array items ∧ position ≤ items.length + 1024

/-- Every node on the way admits the next step, where a node that is missing counts as null. -/
def AdmitsAll : List Step → Json → Prop
  | [], _ => True
  | step :: rest, node => node.Admits step ∧ AdmitsAll rest ((node.child? step).getD null)

theorem refusal?_eq_none_iff : node.refusal? step = none ↔ node.Admits step := by
  cases step with
  | key name => cases node <;> simp [refusal?, Admits, membersForWriting?]
  | index position =>
      cases node with
      | null => simp [refusal?, Admits, itemsForWriting?, arrayLength, items?, widestGap]
      | array items => simp [refusal?, Admits, itemsForWriting?, arrayLength, items?, widestGap]
      | _ =>
          simp only [refusal?, Admits, itemsForWriting?]
          split <;> simp

/-- A write arrives just where every node on the way admits the next step. -/
theorem write_arrives_iff (value : Json) {steps : List Step} :
    (write value steps document).2 = none ↔ document.AdmitsAll steps := by
  induction steps generalizing document with
  | nil => simp [write, AdmitsAll]
  | cons step rest ih =>
      rw [AdmitsAll, ← refusal?_eq_none_iff]
      cases hrefusal : document.refusal? step with
      | none =>
          obtain ⟨ready, hopens⟩ := opens_of_refusal? hrefusal
          rw [hopens.write_eq]
          simpa using ih
      | some fault => simp [blocks_of_refusal? hrefusal _ _]

/-- What was written without a fault is found at the target. -/
theorem follow?_write_of_arrived {steps : List Step} {value : Json}
    (harrived : (write value steps document).2 = none) :
    (write value steps document).1.follow? steps = some value := by
  induction steps generalizing document with
  | nil => rfl
  | cons step rest ih =>
      rcases document.opens_or_blocks step with ⟨ready, child, hopens⟩ | ⟨fault, -, hblocks⟩
      · rw [hopens.write_eq] at harrived ⊢
        rw [follow?, child?_withChild_self _ (by simp [hopens.child_eq])]
        exact ih harrived
      · simp [hblocks _ _] at harrived

/-- A node of the document on the way to the target refuses the next step. -/
def Refuses (document : Json) (steps : List Step) (fault : WriteFault) : Prop :=
  ∃ before step after node, steps = before ++ step :: after ∧
    document.follow? before = some node ∧ node.refusal? step = some fault

theorem Refuses.write_eq {steps : List Step} {fault : WriteFault}
    (hrefuses : document.Refuses steps fault) (value : Json) :
    write value steps document = (document, some fault) := by
  obtain ⟨before, step, after, node, rfl, hnode, hrefusal⟩ := hrefuses
  rw [write_append _ _ hnode, blocks_of_refusal? hrefusal, write_self hnode]

theorem refuses_of_refusal? {fault : WriteFault} (hrefusal : document.refusal? step = some fault)
    (rest : List Step) : document.Refuses (step :: rest) fault :=
  ⟨[], step, rest, document, rfl, rfl, hrefusal⟩

theorem Refuses.cons {steps : List Step} {fault : WriteFault}
    (hchild : document.child? step = some child) (hrefuses : child.Refuses steps fault) :
    document.Refuses (step :: steps) fault := by
  obtain ⟨before, next, after, found, rfl, hfound, hrefusal⟩ := hrefuses
  exact ⟨step :: before, next, after, found, rfl, by simpa [follow?, hchild] using hfound, hrefusal⟩

/--
What refuses a write after another one that arrived was there before, if the two part at a key:
every node before that lets the other write pass.
-/
theorem Refuses.of_write {name other : String} (hne : name ≠ other) {value : Json}
    {common rest otherRest : List Step} {fault : WriteFault}
    (harrived : (write value (common ++ .key other :: rest) document).2 = none)
    (hrefuses : (write value (common ++ .key other :: rest) document).1.Refuses
      (common ++ .key name :: otherRest) fault) :
    document.Refuses (common ++ .key name :: otherRest) fault := by
  have hpasses : ∀ fault, ¬ (write value (common ++ .key other :: rest) document).1.Refuses
      (common ++ .key other :: rest) fault := by
    intro fault hstopped
    have hagain := congrArg Prod.snd (hstopped.write_eq value)
    rw [write_write, harrived] at hagain
    contradiction
  have hopened : ∀ node, (write value (common ++ .key other :: rest) document).1.follow? common =
      some node → node.refusal? (.key name) = none := by
    intro node hnode
    by_contra hrefused
    have hother : node.refusal? (.key other) = some (.notAnObject other node.kind) := by
      simpa [refusal?] using hrefused
    exact hpasses _ ⟨common, .key other, rest, node, rfl, hnode, hother⟩
  obtain ⟨before, step, after, node, hsteps, hnode, hrefusal⟩ := hrefuses
  -- The write is refused below the key, at the key, or on the way that both writes take.
  rcases List.append_eq_append_iff.mp hsteps with ⟨below, rfl, hbelow⟩ | ⟨way, rfl, hway⟩
  · cases below with
    | nil =>
        obtain ⟨rfl, rfl⟩ := List.cons.inj hbelow
        rw [List.append_nil] at hnode
        simp [hopened node hnode] at hrefusal
    | cons first below =>
        obtain ⟨rfl, rfl⟩ := List.cons.inj hbelow
        rw [follow?_write_of_keys hne] at hnode
        exact ⟨_, step, after, node, hsteps, hnode, hrefusal⟩
  · cases way with
    | nil =>
        obtain ⟨rfl, rfl⟩ := List.cons.inj hway
        simp only [List.append_nil] at hopened hnode
        simp [hopened node hnode] at hrefusal
    | cons first way =>
        obtain ⟨rfl, rfl⟩ := List.cons.inj hway
        exact absurd ⟨before, step, way ++ .key other :: rest, node, by simp, hnode, hrefusal⟩
          (hpasses fault)

/-- A failed write that changed nothing was refused by a node that was there. -/
theorem refuses_of_write_eq_self {steps : List Step} {value : Json} {fault : WriteFault}
    (hfails : (write value steps document).2 = some fault)
    (hkept : (write value steps document).1 = document) : document.Refuses steps fault := by
  induction steps generalizing document with
  | nil => simp [write] at hfails
  | cons step rest ih =>
      rcases document.opens_or_refuses step with ⟨ready, hopens⟩ | ⟨other, hrefusal⟩
      · generalize (document.child? step).getD null = child at hopens
        simp only [hopens.write_eq] at hfails hkept
        -- The step leads to a child after the write, so to the same child before it.
        have hafter := child?_withChild_self (write value rest child).1
          (Option.isSome_of_eq_some hopens.child_eq)
        rw [hkept] at hafter
        have hsame : child = (write value rest child).1 :=
          Option.some.inj (hopens.child_eq.symm.trans (hopens.kept step _ hafter))
        rw [← hsame] at hafter
        exact Refuses.cons hafter (ih hfails hsame.symm)
      · rw [blocks_of_refusal? hrefusal] at hfails
        exact Option.some.inj hfails ▸ refuses_of_refusal? hrefusal rest

/-- A write that arrives neither makes nor lifts the refusal of one that parts from it at a key. -/
theorem refuses_write_iff {name other : String} (hne : name ≠ other) {value : Json}
    {common rest otherRest : List Step} {fault : WriteFault}
    (harrived : (write value (common ++ .key other :: rest) document).2 = none) :
    (write value (common ++ .key other :: rest) document).1.Refuses
        (common ++ .key name :: otherRest) fault ↔
      document.Refuses (common ++ .key name :: otherRest) fault := by
  refine ⟨Refuses.of_write hne harrived, fun hrefuses => ?_⟩
  have hcomm := write_comm hne null value common otherRest rest document
  rw [hrefuses.write_eq] at hcomm
  obtain ⟨hkept, hfails⟩ := Prod.ext_iff.mp hcomm
  exact refuses_of_write_eq_self hfails hkept

/-- A failed write leaves the document as it was just where a node that was there refused it. -/
theorem write_eq_self_iff {steps : List Step} {value : Json} {fault : WriteFault}
    (hfails : (write value steps document).2 = some fault) :
    (write value steps document).1 = document ↔ document.Refuses steps fault :=
  ⟨refuses_of_write_eq_self hfails, fun hrefuses => by rw [hrefuses.write_eq value]⟩

/-- Below a null a write is stopped by nothing but an index too far out. -/
theorem fault_write_null {steps : List Step} {value : Json} {fault : WriteFault}
    (hfails : (write value steps null).2 = some fault) : ∃ index, fault = .beyondEnd index := by
  induction steps with
  | nil => simp [write] at hfails
  | cons step rest ih =>
      cases step with
      | key name => exact ih (by simpa [write, membersForWriting?, Entries.get?] using hfails)
      | index position =>
          by_cases hbeyond : null.arrayLength + widestGap < position
          · exact ⟨position, by simpa [write, hbeyond, eq_comm] using hfails⟩
          · exact ih (by simpa [write, hbeyond, itemsForWriting?] using hfails)

/-- Whatever stops a write but an index too far out was there before the write. -/
theorem refuses_of_fault {steps : List Step} {value : Json} {fault : WriteFault}
    (hfails : (write value steps document).2 = some fault)
    (hkind : ∀ index, fault ≠ .beyondEnd index) : document.Refuses steps fault := by
  induction steps generalizing document with
  | nil => simp [write] at hfails
  | cons step rest ih =>
      rcases document.opens_or_refuses step with ⟨ready, hopens⟩ | ⟨other, hrefusal⟩
      · rw [hopens.write_eq] at hfails
        cases hchild : document.child? step with
        | some child => exact Refuses.cons hchild (ih (by simpa [hchild] using hfails))
        | none =>
            obtain ⟨index, rfl⟩ := fault_write_null (by simpa [hchild] using hfails)
            exact absurd rfl (hkind index)
      · rw [blocks_of_refusal? hrefusal] at hfails
        exact Option.some.inj hfails ▸ refuses_of_refusal? hrefusal rest

end DecisionTables.Json
