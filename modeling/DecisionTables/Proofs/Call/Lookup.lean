import DecisionTables.Function.Builtin
import DecisionTables.Proofs.Call.Recognition
import DecisionTables.Proofs.Call.Validity

/-!
# Looking up values

A looked-up text that is a path stands for the node that the path selects, and any other value for
itself.  The builtin function decides by the first character whether a text is to be a path.  So a
text that starts like a path and is none, a price such as `$5` for one, is refused, and a path
behind blanks stays a text.  On every other value the function comes to what the value stands for.

A path in a call is evaluated before the function sees it, so what is looked up is the node, and a
node that holds a path is looked up once more.
-/

namespace DecisionTables

namespace Builtin

def StartsAtRoot (text : String) : Prop :=
  ∃ root : Path.Root, text.toList.head? = some root.mark

/-- The node that a path selects, and null where it selects none. -/
def selected (path : Path) (context : Context) : Except CallError Json :=
  match path.selectOne context.document context.row with
  | .error error => .error (.path error)
  | .ok node => .ok (node.getD .null)

/-- What a value stands for: the node that it is a path to, and itself when it is no path. -/
def lookUp (value : Json) (context : Context) : Except CallError Json :=
  match value with
  | .string text =>
    match Path.parse text with
    | .ok path => selected path context
    | .error _ => .ok value
  | _ => .ok value

/-- The text starts like a path and is none. -/
def IsBrokenPath (text : String) : Prop :=
  StartsAtRoot text ∧ ∀ path, Path.parse text ≠ .ok path

/-- The text is a path with blanks before it. -/
def IsIndentedPath (text : String) (path : Path) : Prop :=
  (∃ c, text.toList.head? = some c ∧ Text.isBlank c = true) ∧ Path.parse text = .ok path

theorem startsLikePath_iff {text : String} : startsLikePath text = true ↔ StartsAtRoot text := by
  unfold startsLikePath StartsAtRoot
  cases text.toList with
  | nil => simp
  | cons c rest => simp [Option.isSome_iff_exists, Path.rootOf?_eq_some_iff]

theorem not_isBlank_of_startsAtRoot {text : String} (hstart : StartsAtRoot text) {c : Char}
    (hhead : text.toList.head? = some c) : Text.isBlank c = false := by
  obtain ⟨root, hroot⟩ := hstart
  obtain rfl : root.mark = c := Option.some.inj (hroot.symm.trans hhead)
  cases root <;> rfl

/-- What stands before the root of a path are blanks. -/
theorem isIndentedPath_iff {text : String} {path : Path} :
    IsIndentedPath text path ↔ ¬ StartsAtRoot text ∧ Path.parse text = .ok path := by
  refine and_congr_left fun hparse => ⟨?_, fun hstart => ?_⟩
  · rintro ⟨c, hhead, hblank⟩ hstart
    rw [not_isBlank_of_startsAtRoot hstart hhead] at hblank
    contradiction
  · obtain ⟨pieces, -, htrim⟩ := (Path.parse_eq_ok_iff.mp hparse).2
    have hmark : (Text.trimStart text.toList).head? = some path.root.mark := by
      rw [← Text.head?_trim, htrim, List.head?_cons]
    obtain ⟨blanks, hblanks, htext⟩ := Text.exists_blanks_append text.toList
    cases blanks with
    | nil =>
        rw [← htext.trans (List.nil_append _)] at hmark
        exact absurd ⟨path.root, hmark⟩ hstart
    | cons c rest => exact ⟨c, by rw [htext]; rfl, hblanks c List.mem_cons_self⟩

variable {context : Context}

theorem valueOf_run_of_path {text : String} {path : Path} (hstart : StartsAtRoot text)
    (hparse : Path.parse text = .ok path) :
    valueOf.run [.string text] context = selected path context := by
  have hlike := startsLikePath_iff.mpr hstart
  simp only [valueOf, List.headD_cons, hlike, if_true, hparse]
  rfl

theorem valueOf_run_of_broken {text : String} {error : PathError} (hstart : StartsAtRoot text)
    (hparse : Path.parse text = .error error) :
    valueOf.run [.string text] context = .error (.path error) := by
  have hlike := startsLikePath_iff.mpr hstart
  simp only [valueOf, List.headD_cons, hlike, if_true, hparse]

theorem valueOf_run_of_not_startsAtRoot {value : Json}
    (hvalue : ∀ text, value = .string text → ¬ StartsAtRoot text) :
    valueOf.run [value] context = .ok value := by
  cases value with
  | string text =>
      have hlike : ¬ startsLikePath text = true := fun h =>
        hvalue text rfl (startsLikePath_iff.mp h)
      simp only [valueOf, List.headD_cons, hlike]
      rfl
  | _ => rfl

theorem valueOf_run_of_indented {text : String} {path : Path}
    (hindented : IsIndentedPath text path) :
    valueOf.run [.string text] context = .ok (.string text) := by
  apply valueOf_run_of_not_startsAtRoot
  rintro other ⟨⟩
  exact (isIndentedPath_iff.mp hindented).1

theorem parse_ne_ok {text : String} (hbroken : (Path.parse text).isOk = false) (path : Path) :
    Path.parse text ≠ .ok path := by
  intro hparse
  rw [hparse] at hbroken
  contradiction

theorem IsBrokenPath.exists_fault {text : String} (hbroken : IsBrokenPath text) :
    ∃ fault, Path.parse text = .error (.invalid text fault) := by
  have hnone := hbroken.2
  unfold Path.parse at hnone ⊢
  cases hread : Path.read text with
  | ok path => simp [hread] at hnone
  | error fault => exact ⟨fault, rfl⟩

theorem lookUp_of_not_path {value : Json}
    (hvalue : ∀ text, value = .string text → ∀ path, Path.parse text ≠ .ok path) :
    lookUp value context = .ok value := by
  cases value with
  | string text =>
      cases hparse : Path.parse text with
      | error error => simp only [lookUp, hparse]
      | ok path => exact absurd hparse (hvalue text rfl path)
  | _ => rfl

/-- A value that is no path is looked up as itself, unless it starts like one. -/
theorem valueOf_run_eq_self_iff {value : Json}
    (hvalue : ∀ text, value = .string text → ∀ path, Path.parse text ≠ .ok path) :
    valueOf.run [value] context = .ok value ↔
      ∀ text, value = .string text → ¬ IsBrokenPath text := by
  constructor
  · rintro hself text rfl ⟨hstart, hbroken⟩
    cases hparse : Path.parse text with
    | ok path => exact hbroken path hparse
    | error error =>
        rw [valueOf_run_of_broken hstart hparse] at hself
        contradiction
  · intro hwhole
    refine valueOf_run_of_not_startsAtRoot fun text htext hstart => ?_
    exact hwhole text htext ⟨hstart, hvalue text htext⟩

theorem lookUp_of_path {text : String} {path : Path} (hparse : Path.parse text = .ok path) :
    lookUp (.string text) context = selected path context := by
  simp only [lookUp, hparse]

theorem run_eq_lookUp_iff {value : Json} :
    valueOf.run [value] context = lookUp value context ↔
      ¬ ∃ text, value = .string text ∧
        (IsBrokenPath text ∨ ∃ path, IsIndentedPath text path ∧
          selected path context ≠ .ok value) := by
  constructor
  · rintro hsame ⟨text, rfl, hbroken | ⟨path, hindented, hselected⟩⟩
    · have hvalue : ∀ other, Json.string text = .string other →
          ∀ path, Path.parse other ≠ .ok path := by
        rintro other ⟨⟩
        exact hbroken.2
      rw [lookUp_of_not_path hvalue, valueOf_run_eq_self_iff hvalue] at hsame
      exact hsame text rfl hbroken
    · rw [valueOf_run_of_indented hindented, lookUp_of_path hindented.2] at hsame
      exact hselected hsame.symm
  · intro hregular
    by_cases hpath : ∃ text path, value = .string text ∧ Path.parse text = .ok path
    · obtain ⟨text, path, rfl, hparse⟩ := hpath
      rw [lookUp_of_path hparse]
      by_cases hstart : StartsAtRoot text
      · exact valueOf_run_of_path hstart hparse
      · have hindented := isIndentedPath_iff.mpr ⟨hstart, hparse⟩
        by_contra hother
        rw [valueOf_run_of_indented hindented] at hother
        exact hregular ⟨text, rfl, .inr ⟨path, hindented, fun heq => hother heq.symm⟩⟩
    · have hvalue : ∀ text, value = .string text → ∀ path, Path.parse text ≠ .ok path :=
        fun text htext path hparse => hpath ⟨text, path, htext, hparse⟩
      rw [lookUp_of_not_path hvalue, valueOf_run_eq_self_iff hvalue]
      exact fun text htext hbroken => hregular ⟨text, htext, .inl hbroken⟩

/-! ## Looking up in calls -/

def lookUpCall (path : Path) : Call :=
  ⟨"valueof", [.path path]⟩

def lookUpText (path : Path) : String :=
  "#valueof(" ++ path.source ++ ")"

theorem ofJson_lookUpText {source : String} {path : Path} (hparse : Path.parse source = .ok path) :
    ResultValue.ofJson (.string (lookUpText path)) =
      .ok (.computed (lookUpText path) (lookUpCall path)) := by
  obtain ⟨hsource, hspells⟩ := Path.parse_eq_ok_iff.mp hparse
  have htrim : Text.trim path.source.toList = path.source.toList := by
    rw [hsource, String.toList_ofList, Text.trim_trim]
  have hagain : Path.parse path.source = .ok path :=
    Path.parse_eq_ok_iff.mpr ⟨by rw [htrim, String.ofList_toList], by
      rw [htrim, hsource, String.toList_ofList]
      exact hspells⟩
  have hname : Call.IsName "valueof".toList :=
    ⟨'v', "alueof".toList, rfl, rfl, List.all_eq_true.mp (by decide)⟩
  have htext : (lookUpText path).toList =
      '#' :: ("valueof".toList ++ ([] ++ '(' :: (path.source.toList ++ [')']))) := by
    simp only [lookUpText, String.toList_append]
    rfl
  have hspelled :
      (Argument.call "valueof" [.path path]).IsSpelledBy (lookUpText path).toList := by
    simp only [Argument.IsSpelledBy, Argument.AreSpelledBy]
    refine ⟨[], path.source.toList, hname, by decide, ?_, htext⟩
    exact ⟨[], path.source.toList, [], by decide, by decide,
      ⟨htrim, by rw [String.ofList_toList, hagain]⟩, by simp⟩
  have hcall : Call.parse (lookUpText path) = .ok (lookUpCall path) := by
    have htrimmed : Text.trim ([] ++ ((lookUpText path).toList ++ [])) = (lookUpText path).toList :=
      Call.trim_spelled hspelled (by decide) (by decide)
    have hfolded : foldedName "valueof" = "valueof" := by cbv
    rw [List.nil_append, List.append_nil] at htrimmed
    rw [Call.parse, htrimmed]
    simp only [Call.readText_spelled hspelled, hfolded, Argument.foldedAll, Argument.folded,
      lookUpCall]
  have hlike : looksLikeCall (lookUpText path).toList = true :=
    looksLikeCall_iff.mpr ⟨'v', "alueof".toList, [], path.source.toList ++ [')'], rfl,
      List.all_eq_true.mp (by decide), by decide, htext⟩
  rw [ResultValue.ofJson_of_looksLikeCall hlike, hcall]
  rfl

/-- The path is evaluated before the function runs. -/
theorem evaluate_lookUpCall {registry : Registry} {path : Path} {location : Location}
    {node : Json} (hvalueOf : registry.find? "valueof" = some valueOf)
    (hselects : path.selectNodes context.document context.row = [(location, node)]) :
    (lookUpCall path).evaluate registry context = valueOf.run [node] context := by
  have hprovide : registry.provide "valueof" 1 = .ok valueOf := by
    simp only [Registry.provide, hvalueOf]
    rfl
  have hselected : path.selectOne context.document context.row = .ok (some node) := by
    simp only [Path.selectOne, hselects]
  simp [Call.evaluate, lookUpCall, Call.toArgument, Argument.evaluate, Argument.evaluateAll,
    hprovide, Context.within, hselected]

/--
The function comes to what a value stands for, unless this is a text that starts like a path and is
none, which is refused, or a path behind blanks, which stays a text.  So a call copies the one node
that its path selects where the node holds no path and does not start like one.
-/
theorem valueOf_eq_lookUp_iff (value : Json) (context : Context) :
    (valueOf.run [value] context = lookUp value context ↔
      ¬ ∃ text, value = .string text ∧
        (IsBrokenPath text ∨ ∃ path, IsIndentedPath text path ∧
          selected path context ≠ .ok value)) ∧
    (∀ text, value = .string text → IsBrokenPath text →
      ∃ fault, valueOf.run [value] context = .error (.path (.invalid text fault))) ∧
    (∀ text path, value = .string text → IsIndentedPath text path →
      valueOf.run [value] context = .ok value) ∧
    ∀ registry source path location, registry.find? "valueof" = some valueOf →
      Path.parse source = .ok path →
      path.selectNodes context.document context.row = [(location, value)] →
      ResultValue.ofJson (.string (lookUpText path)) =
          .ok (.computed (lookUpText path) (lookUpCall path)) ∧
        (lookUpCall path).evaluate registry context = valueOf.run [value] context ∧
        ((∀ text, value = .string text → ∀ other, Path.parse text ≠ .ok other) →
          ((lookUpCall path).evaluate registry context = .ok value ↔
            ∀ text, value = .string text → ¬ IsBrokenPath text)) := by
  refine ⟨run_eq_lookUp_iff, ?_, ?_, ?_⟩
  · rintro text rfl hbroken
    obtain ⟨fault, hparse⟩ := hbroken.exists_fault
    exact ⟨fault, valueOf_run_of_broken hbroken.1 hparse⟩
  · rintro text path rfl hindented
    exact valueOf_run_of_indented hindented
  · intro registry source path location hvalueOf hparse hselects
    have hevaluate := evaluate_lookUpCall hvalueOf hselects
    refine ⟨ofJson_lookUpText hparse, hevaluate, fun hvalue => ?_⟩
    rw [hevaluate]
    exact valueOf_run_eq_self_iff hvalue

/-- The node is a text in which a number stands, and another one holds the path to it. -/
def totals : Context :=
  ⟨.object [("due", .string "$.total"), ("total", .string "12")], .root, []⟩

theorem valueOf_eq_lookUp_iff_total :
    let registry := Registry.builtins ⟨fun _ => 0, ⟨0, 0⟩, fun _ => 0⟩
    let path : Path := ⟨"$.total", .document, [.key "total"]⟩
    registry.find? "valueof" = some valueOf ∧ Path.parse " $.total" = .ok path ∧
      path.selectNodes totals.document totals.row =
        [(⟨[.key "total"]⟩, .string "12")] ∧
      (lookUpCall path).evaluate registry totals = .ok (.string "12") := by
  intro registry path
  have hvalueOf : registry.find? "valueof" = some valueOf := by
    cbv
  have hparse : Path.parse " $.total" = .ok path := by cbv
  have hselects : path.selectNodes totals.document totals.row =
      [(⟨[.key "total"]⟩, .string "12")] := by cbv
  obtain ⟨-, -, -, hcalls⟩ := valueOf_eq_lookUp_iff (.string "12") totals
  obtain ⟨-, -, hcopies⟩ := hcalls registry " $.total" path _ hvalueOf hparse hselects
  have hnumber : ∀ other, Path.parse "12" ≠ .ok other := parse_ne_ok (by cbv)
  have hvalue : ∀ text, Json.string "12" = .string text → ∀ other, Path.parse text ≠ .ok other := by
    rintro text ⟨⟩
    exact hnumber
  refine ⟨hvalueOf, hparse, hselects, (hcopies hvalue).mpr ?_⟩
  rintro text ⟨⟩ ⟨⟨root, hroot⟩, -⟩
  cases root <;> contradiction

/-- A price in dollars is no path, yet it is not looked up as itself. -/
theorem valueOf_refuses_price :
    ¬ ∀ value context, valueOf.run [value] context = lookUp value context := by
  intro hclaim
  have hbroken : IsBrokenPath "$5" := ⟨⟨.document, by decide⟩, parse_ne_ok (by cbv)⟩
  exact run_eq_lookUp_iff.mp (hclaim (.string "$5") totals) ⟨"$5", rfl, .inl hbroken⟩

end Builtin

end DecisionTables
