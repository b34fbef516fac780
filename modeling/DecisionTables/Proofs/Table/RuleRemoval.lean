import DecisionTables.Proofs.Table.FirstMatch
import DecisionTables.Proofs.Table.RuleOrder
import Mathlib

/-!
# Rules that contribute to no row

Where failed rules are passed over, a row is decided by the rules that are selected for it: by the
first match, by all of them, or by the best one.  Leaving out a rule that is not selected leaves the
selection as it was, whether the rule does not match, comes after the first match or has too few
conditions.  So a run in which a rule is selected for no row is the run without this rule: by
induction every row finds the document that it found before.

Taken out of the definition, the rule also gives up its position, and the rules behind it move up.
Compiling the definition that is left gives the other rules in the same order, told with their new
positions.
-/

namespace DecisionTables

/-- The positions of the rules that contributed to a row. -/
def Outcome.contributors : Outcome → List Nat
  | .matched declarations => declarations
  | _ => []

/-- The reports tell of a row the same rules and the same effect. -/
def RowReport.TellsSame (report other : RowReport) : Prop :=
  report.outcome = other.outcome ∧ report.HasSameEffect other

/-- The definition without the rule at a position. -/
def Definition.withoutRule (definition : Definition) (position : Nat) : Definition :=
  { definition with rules := definition.rules.eraseIdx position }

/-- Where a rule was before the one at a position was taken out. -/
def positionBefore (removed position : Nat) : Nat :=
  if position < removed then position else position + 1

theorem positionBefore_le_iff {removed first second : Nat} :
    positionBefore removed first ≤ positionBefore removed second ↔ first ≤ second := by
  unfold positionBefore
  split <;> split <;> omega

namespace Table

variable {table : Table} {keep : Rule → Bool} {verdict : Rule → Verdict} {strategy : Strategy}

/-- The table with some of its rules left out of the evaluation. -/
def restricted (table : Table) (keep : Rule → Bool) : Table :=
  { table with rules := table.rules.filter keep }

/-! ## Selection among fewer rules -/

theorem scan_filter_of_ne_firstMatch (hlenient : strategy.stopOnError = false)
    (hmode : strategy.mode ≠ .firstMatch) (rules : List Rule) :
    (scan verdict strategy (rules.filter keep)).rules =
      (scan verdict strategy rules).rules.filter keep := by
  classical
  have hdecided : ∀ rule, decide (verdict rule = .matching) = true ↔ verdict rule = .matching :=
    fun _ => decide_eq_true_iff
  rw [(scan_of_ne_firstMatch hlenient hmode hdecided _).1,
    (scan_of_ne_firstMatch hlenient hmode hdecided _).1, List.filter_filter, List.filter_filter]
  exact List.filter_congr fun rule _ => Bool.and_comm _ _

theorem take_one_filter {α : Type} {keep : α → Bool} {items : List α}
    (hkept : ∀ item ∈ items.take 1, keep item = true) :
    (items.filter keep).take 1 = items.take 1 := by
  cases items with
  | nil => rfl
  | cons head rest => simp [hkept head (by simp)]

theorem scan_filter_of_firstMatch (hlenient : strategy.stopOnError = false)
    (hmode : strategy.mode = .firstMatch) {rules : List Rule}
    (hkept : ∀ rule ∈ (scan verdict strategy rules).rules, keep rule = true) :
    (scan verdict strategy (rules.filter keep)).rules = (scan verdict strategy rules).rules := by
  let all : Strategy := { strategy with mode := .allMatches }
  have hall : all.mode ≠ .firstMatch := by simp [all]
  have hallLenient : all.stopOnError = false := hlenient
  have hfirst : ∀ rules, (scan verdict strategy rules).rules =
      (scan verdict all rules).rules.take 1 :=
    scan_firstMatch_eq_take hmode hall hlenient hallLenient
  rw [hfirst] at hkept ⊢
  rw [hfirst, scan_filter_of_ne_firstMatch hallLenient hall, take_one_filter hkept]

theorem strongest?_of_split {before after : List Rule} {best : Rule}
    (hbefore : ∀ rule ∈ before, rule.conditions.length < best.conditions.length)
    (hafter : ∀ rule ∈ after, rule.conditions.length ≤ best.conditions.length) :
    strongest? (before ++ best :: after) = some best := by
  induction before with
  | nil =>
      simp only [List.nil_append, strongest?]
      cases hother : strongest? after with
      | none => rfl
      | some other => simp [Nat.not_lt.mpr (hafter other (mem_of_strongest? hother))]
  | cons rule before ih =>
      obtain ⟨hrule, hbefore⟩ := List.forall_mem_cons.mp hbefore
      simp [strongest?, ih hbefore, hrule]

/-- The strongest of the rules is the strongest of fewer rules, if it is still among them. -/
theorem strongest?_filter {rules : List Rule}
    (hkept : ∀ best, strongest? rules = some best → keep best = true) :
    strongest? (rules.filter keep) = strongest? rules := by
  rcases strongest?_spec rules with ⟨before, best, after, rfl, hbest, hbefore, hafter⟩ | ⟨rfl, -⟩
  · rw [hbest, List.filter_append, List.filter_cons_of_pos (hkept best hbest)]
    exact strongest?_of_split (fun rule hrule => hbefore rule (List.mem_of_mem_filter hrule))
      fun rule hrule => hafter rule (List.mem_of_mem_filter hrule)
  · rfl

/-- Where all selected rules are kept, leaving out others does not change the selection. -/
theorem select_restricted (hlenient : table.strategy.stopOnError = false)
    {extract : Input → Extracted}
    (hkept : ∀ rule ∈ (table.select extract).rules, keep rule = true) :
    ((table.restricted keep).select extract).rules = (table.select extract).rules := by
  by_cases hbest : table.strategy.mode = .bestMatch
  · have hother : (table.restricted keep).strategy.mode = .bestMatch := hbest
    have hmode : table.strategy.mode ≠ .firstMatch := by simp [hbest]
    rw [select_of_bestMatch hbest] at hkept ⊢
    rw [select_of_bestMatch hother]
    have hstrongest := strongest?_filter fun best hbest => hkept best (Option.mem_toList.mpr hbest)
    exact congrArg Option.toList ((congrArg strongest?
      (scan_filter_of_ne_firstMatch hlenient hmode table.rules)).trans hstrongest)
  · have hother : (table.restricted keep).strategy.mode ≠ .bestMatch := hbest
    rw [select_of_ne_bestMatch hbest] at hkept ⊢
    rw [select_of_ne_bestMatch hother]
    by_cases hfirst : table.strategy.mode = .firstMatch
    · exact scan_filter_of_firstMatch hlenient hfirst hkept
    · exact (scan_filter_of_ne_firstMatch hlenient hfirst _).trans (List.filter_eq_self.mpr hkept)

/-! ## Runs with fewer rules -/

theorem contributors_contributions (table : Table) (rules : List Rule) :
    (table.contributions rules).1.contributors = rules.map Rule.declaration := by
  cases rules with
  | nil =>
      cases hdefaults : table.defaults <;>
        simp [contributions, hdefaults, Outcome.contributors]
  | cons rule rest => rfl

/-- The table without the rules that are declared at the position. -/
def withoutDeclared (table : Table) (position : Nat) : Table :=
  table.restricted fun rule => rule.declaration ≠ position

theorem select_withoutDeclared (hlenient : table.strategy.stopOnError = false) {position : Nat}
    {extract : Input → Extracted}
    (hunlisted : position ∉ (table.select extract).rules.map Rule.declaration) :
    ((table.withoutDeclared position).select extract).rules = (table.select extract).rules := by
  apply select_restricted hlenient
  intro rule hrule
  simp only [ne_eq, decide_not, Bool.not_eq_eq_eq_not, Bool.not_true, decide_eq_false_iff_not]
  rintro rfl
  exact hunlisted (List.mem_map_of_mem hrule)

/-- A row to which a rule does not contribute goes as if the rule were not there. -/
theorem runRow_withoutDeclared (hlenient : table.strategy.stopOnError = false)
    (hfunctions : table.functions.IgnoresOccasions) {position : Nat} {occasion : Occasion}
    {index : Nat} {row : Location} {document : Json}
    (hunlisted : position ∉
      (table.runRow occasion index row document).report.outcome.contributors)
    (other : Occasion) :
    ((table.withoutDeclared position).runRow other index row document).document =
        (table.runRow occasion index row document).document ∧
      (table.runRow occasion index row document).report.TellsSame
        ((table.withoutDeclared position).runRow other index row document).report := by
  have hcompleted : (table.select fun input => input.extract document row).aborted = false :=
    select_aborted hlenient
  have hotherCompleted : ((table.withoutDeclared position).select fun input =>
      input.extract document row).aborted = false := select_aborted hlenient
  rw [runRow_of_completed rfl hcompleted] at hunlisted ⊢
  rw [runRow_of_completed rfl hotherCompleted]
  have hselect := select_withoutDeclared hlenient
    (fun hlisted => hunlisted ((contributors_contributions table _).symm ▸ hlisted))
  have houtcome : ((table.withoutDeclared position).contributions
      ((table.withoutDeclared position).select fun input =>
        input.extract document row).rules).1 =
      (table.contributions (table.select fun input => input.extract document row).rules).1 := by
    rw [hselect]
    rfl
  have happlied : (table.withoutDeclared position).applyPicks ⟨document, row, index :: other⟩
        ((table.withoutDeclared position).picksFor ((table.withoutDeclared position).select
          fun input => input.extract document row).rules) =
      table.applyPicks ⟨document, row, index :: occasion⟩
        (table.picksFor (table.select fun input => input.extract document row).rules) := by
    rw [hselect]
    apply applyPicks_of_settings
    · rfl
    · rfl
    · exact hfunctions
  rw [houtcome, happlied]
  exact ⟨rfl, rfl, rfl, rfl, rfl, rfl⟩

theorem runRows_withoutDeclared (hlenient : table.strategy.stopOnError = false)
    (hfunctions : table.functions.IgnoresOccasions) {position : Nat} {occasion : Occasion}
    {index : Nat} {rows : List Location} {document : Json}
    (hunlisted : ∀ report ∈ (table.runRows occasion index rows document).report.rows,
      position ∉ report.outcome.contributors)
    (other : Occasion) :
    ((table.withoutDeclared position).runRows other index rows document).document =
        (table.runRows occasion index rows document).document ∧
      List.Forall₂ RowReport.TellsSame (table.runRows occasion index rows document).report.rows
        ((table.withoutDeclared position).runRows other index rows document).report.rows := by
  induction rows generalizing index document with
  | nil => exact ⟨rfl, .nil⟩
  | cons row rest ih =>
      obtain ⟨hrow, hlater⟩ := List.forall_mem_cons.mp hunlisted
      obtain ⟨hdocument, htold⟩ := runRow_withoutDeclared hlenient hfunctions hrow other
      obtain ⟨hlaterDocument, hlaterTold⟩ := ih hlater
      simp only [runRows, hdocument]
      exact ⟨hlaterDocument, .cons htold hlaterTold⟩

/-- A rule that contributes to no row of a run could as well not be evaluated. -/
theorem execute_withoutDeclared (hlenient : table.strategy.stopOnError = false)
    (hfunctions : table.functions.IgnoresOccasions) {position : Nat} {occasion : Occasion}
    {document : Json}
    (hunlisted : ∀ report ∈ (table.execute document occasion).report.rows,
      position ∉ report.outcome.contributors)
    (other : Occasion) :
    ((table.withoutDeclared position).execute document other).document =
        (table.execute document occasion).document ∧
      List.Forall₂ RowReport.TellsSame (table.execute document occasion).report.rows
        ((table.withoutDeclared position).execute document other).report.rows :=
  runRows_withoutDeclared hlenient hfunctions hunlisted other

end Table

/-! ## Taking a rule out of a definition -/

/-- The items that are left, told with the positions they had. -/
theorem zipIdx_eraseIdx {α : Type} (items : List α) (position start : Nat) :
    ((items.eraseIdx position).zipIdx start).map
        (Prod.map id (positionBefore (start + position))) =
      (items.zipIdx start).filter fun item => item.2 ≠ start + position := by
  induction items generalizing position start with
  | nil => rfl
  | cons head rest ih =>
      cases position with
      | zero =>
          have hmoved : (rest.zipIdx start).map (Prod.map id (positionBefore start)) =
              rest.zipIdx (start + 1) := by
            rw [List.zipIdx_succ]
            refine List.map_congr_left fun item hitem => ?_
            have hplace : ¬ item.2 < start :=
              Nat.not_lt.mpr (List.le_snd_of_mem_zipIdx hitem)
            simp [Prod.map, positionBefore, hplace]
          have hkept : ∀ item ∈ rest.zipIdx (start + 1), item.2 ≠ start := fun item hitem =>
            Nat.ne_of_gt (List.le_snd_of_mem_zipIdx hitem)
          rw [Nat.add_zero, List.eraseIdx_cons_zero, List.zipIdx_cons, hmoved,
            List.filter_cons_of_neg (by simp), List.filter_eq_self.mpr (by simpa using hkept)]
      | succ position =>
          have hplace : start + (position + 1) = start + 1 + position := by omega
          have hhead : positionBefore (start + 1 + position) start = start := by
            simp only [positionBefore, ite_eq_left_iff]
            omega
          have hkept : start ≠ start + 1 + position := by omega
          rw [hplace, List.eraseIdx_cons_succ, List.zipIdx_cons, List.zipIdx_cons, List.map_cons,
            ih, List.filter_cons_of_pos (by simpa using hkept)]
          simp [hhead]

namespace Table

theorem Rule.precedes_renumber (removed : Nat) (first second : Rule) :
    (first.renumber (positionBefore removed)).precedes (second.renumber (positionBefore removed)) =
      first.precedes second := by
  rw [Bool.eq_iff_iff, Rule.precedes_iff, Rule.precedes_iff]
  simp only [Rule.renumber, positionBefore_le_iff]

/-- Rules with different positions come in the same order when some of them are left out. -/
theorem filter_mergeSort_precedes {rules : List Rule}
    (hdistinct : (rules.map Rule.declaration).Nodup) (keep : Rule → Bool) :
    (rules.mergeSort Rule.precedes).filter keep = (rules.filter keep).mergeSort Rule.precedes := by
  have hsorts := List.pairwise_mergeSort Rule.precedes_trans Rule.precedes_total
  have hsame : ((rules.mergeSort Rule.precedes).filter keep).Perm
      ((rules.filter keep).mergeSort Rule.precedes) :=
    ((List.mergeSort_perm rules Rule.precedes).filter keep).trans (List.mergeSort_perm _ _).symm
  apply List.Perm.eq_of_pairwise _ ((hsorts rules).filter keep) (hsorts (rules.filter keep)) hsame
  intro first second hfirst hsecond hprecedes hfollows
  have hplaces : first.declaration = second.declaration := by
    simp only [Rule.precedes_iff, Int64.lt_iff_toInt_lt, ← Int64.toInt_inj] at hprecedes hfollows
    omega
  have hfirstMem := List.mem_mergeSort.mp (List.mem_of_mem_filter hfirst)
  have hsecondMem := List.mem_of_mem_filter (List.mem_mergeSort.mp hsecond)
  exact List.inj_on_of_nodup_map hdistinct hfirstMem hsecondMem hplaces

end Table

namespace Definition

variable {definition : Definition} {functions : Registry} {options : TableOptions}

theorem WellFormed.withoutRule (hformed : definition.WellFormed functions) (position : Nat) :
    (definition.withoutRule position).WellFormed functions where
  target := hformed.target
  inputNames := hformed.inputNames
  outputNames := hformed.outputNames
  outputPaths := hformed.outputPaths
  rules rule hrule := hformed.rules rule (List.mem_of_mem_eraseIdx hrule)
  defaults := hformed.defaults

/-- The rules that are left keep their order, and are told with the positions they had. -/
theorem rules_tableAt_withoutRule (target : Path) (position : Nat) :
    ((definition.tableAt target functions options).withoutDeclared position).rules =
      ((definition.withoutRule position).tableAt target functions options).rules.map
        (Table.Rule.renumber (positionBefore position)) := by
  let rename := positionBefore position
  let left := (definition.rules.eraseIdx position).zipIdx
  have hdistinct : ((definition.rules.zipIdx.map (definition.ruleAt functions)).map
      Table.Rule.declaration).Nodup := by
    have hplaces : Table.Rule.declaration ∘ definition.ruleAt functions = Prod.snd := rfl
    rw [List.map_map, hplaces, List.zipIdx_map_snd]
    exact List.nodup_range'
  have hleft : left.map (Prod.map id rename) =
      definition.rules.zipIdx.filter fun rule => rule.2 ≠ position := by
    have hmoved := zipIdx_eraseIdx definition.rules position 0
    rwa [Nat.zero_add] at hmoved
  calc
    (definition.tableAt target functions options).rules.filter
          (fun rule => rule.declaration ≠ position) =
        ((definition.rules.zipIdx.map (definition.ruleAt functions)).filter
          (fun rule => rule.declaration ≠ position)).mergeSort Table.Rule.precedes :=
      Table.filter_mergeSort_precedes hdistinct _
    _ = ((definition.rules.zipIdx.filter fun rule => rule.2 ≠ position).map
          (definition.ruleAt functions)).mergeSort Table.Rule.precedes := by
      rw [List.filter_map]
      rfl
    _ = ((left.map (definition.ruleAt functions)).map
          (Table.Rule.renumber rename)).mergeSort Table.Rule.precedes := by
      rw [← hleft, List.map_map, ruleAt_renumber, List.map_map]
    _ = ((left.map (definition.ruleAt functions)).mergeSort Table.Rule.precedes).map
          (Table.Rule.renumber rename) :=
      (List.map_mergeSort fun first _ second _ =>
        (Table.Rule.precedes_renumber position first second).symm).symm

end Definition

namespace Table

variable {table : Table}

/--
A rule that contributes to no row of a run can be taken out of the definition: the run without it
has the same document, and tells of every row the same rules and the same effect.
-/
theorem execute_withoutRule {definition : Definition} {functions : Registry}
    {options : TableOptions} (haccepted : definition.compile functions options = .ok table)
    (hlenient : definition.strategy.stopOnError = false)
    (hfunctions : functions.IgnoresOccasions) (position : Nat) :
    ∃ other, (definition.withoutRule position).compile functions options = .ok other ∧
      ∀ document occasion otherOccasion,
        (∀ report ∈ (table.execute document occasion).report.rows,
          position ∉ report.outcome.contributors) →
        (other.execute document otherOccasion).document =
            (table.execute document occasion).document ∧
          List.Forall₂ RowReport.TellsSame (table.execute document occasion).report.rows
            ((other.execute document otherOccasion).report.rows.map
              (RowReport.renumber (positionBefore position))) := by
  obtain ⟨hformed, target, hread, rfl⟩ :=
    Definition.compile_eq_ok_iff_wellFormed.mp haccepted
  have hrenumbers : Renumbers (positionBefore position)
      ((definition.tableAt target functions options).withoutDeclared position)
      ((definition.withoutRule position).tableAt target functions options) :=
    { target := rfl
      inputs := rfl
      outputs := rfl
      rules := Definition.rules_tableAt_withoutRule target position
      defaults := rfl
      strategy := rfl
      options := rfl
      functions := rfl }
  refine ⟨_, Definition.compile_eq_ok_iff_wellFormed.mpr
    ⟨hformed.withoutRule position, target, hread, rfl⟩, ?_⟩
  intro document occasion otherOccasion hunlisted
  have hpassing : (definition.tableAt target functions options).strategy.stopOnError = false :=
    hlenient
  obtain ⟨hdocument, htold⟩ := execute_withoutDeclared hpassing hfunctions hunlisted []
  rw [hrenumbers.execute_eq hfunctions [] otherOccasion document] at hdocument htold
  exact ⟨hdocument, htold⟩

/-- Tall vans match the second rule, but after a cold one the third rule has more conditions. -/
def gates : Definition :=
  { path := "$.vans[*]"
    inputs := [⟨"kind", "@.kind", none⟩, ⟨"size", "@.size", none⟩, ⟨"last", "$.last", none⟩]
    outputs := [⟨"gate", "@.gate"⟩, ⟨"last", "$.last"⟩]
    rules :=
      [⟨0, .ofPairs [("kind", .string "cold")],
          .ofPairs [("gate", .string "north"), ("last", .string "north")]⟩,
        ⟨-2, .ofPairs [("size", .string "tall")], .ofPairs [("gate", .string "east")]⟩,
        ⟨1, .ofPairs [("size", .string "tall"), ("last", .string "north")],
          .ofPairs [("gate", .string "south"), ("last", .string "south")]⟩]
    defaults := none
    strategy := ⟨.bestMatch, .priority, false⟩ }

def gatesDocument : Json :=
  .object [("vans", .array [.object [("kind", .string "cold")],
    .object [("kind", .string "dry"), ("size", .string "tall")]])]

def gatesTable : Table :=
  gates.tableAt ⟨gates.path, .document, [.key "vans", .wildcard]⟩ .empty {}

theorem execute_withoutRule_gates :
    gates.compile .empty {} = .ok gatesTable ∧
      (gatesTable.execute gatesDocument).report.rows.map RowReport.outcome =
        [.matched [0], .matched [2]] ∧
      ∃ other, (gates.withoutRule 1).compile .empty {} = .ok other ∧
        (other.execute gatesDocument).document = (gatesTable.execute gatesDocument).document ∧
        List.Forall₂ RowReport.TellsSame (gatesTable.execute gatesDocument).report.rows
          ((other.execute gatesDocument).report.rows.map
            (RowReport.renumber (positionBefore 1))) := by
  have haccepted : gates.compile .empty {} = .ok gatesTable := by cbv
  have houtcomes : (gatesTable.execute gatesDocument).report.rows.map RowReport.outcome =
      [.matched [0], .matched [2]] := by cbv
  have hunlisted : ∀ report ∈ (gatesTable.execute gatesDocument).report.rows,
      1 ∉ report.outcome.contributors := by
    have hnone : ∀ outcome ∈ (gatesTable.execute gatesDocument).report.rows.map
        RowReport.outcome, 1 ∉ outcome.contributors := by
      simp [houtcomes, Outcome.contributors]
    exact fun report hreport => hnone _ (List.mem_map_of_mem hreport)
  obtain ⟨other, hother, hruns⟩ :=
    execute_withoutRule haccepted rfl Registry.ignoresOccasions_empty 1
  exact ⟨haccepted, houtcomes, other, hother, hruns gatesDocument [] [] hunlisted⟩

end Table

end DecisionTables
