import DecisionTables.Call.Result
import DecisionTables.Function.Builtin
import DecisionTables.Proofs.Path.Selection

/-!
# Calls that look at the row alone

A call is local to the row when every path in it starts at the row and the only function in it is
`concat`.  Where that function depends on nothing but its arguments, such a call has the same value,
or the same error, wherever the same row stands: within a document or alone, early or late in a run.
-/

namespace DecisionTables

/-- What a function returns has nothing to do with the context. -/
def Function.DependsOnArguments (function : Function) : Prop :=
  ∀ arguments context other, function.run arguments context = function.run arguments other

theorem Builtin.concat_dependsOnArguments : Builtin.concat.DependsOnArguments :=
  fun _ _ _ => rfl

/-- The function that joins texts, if it is there at all, depends on its arguments alone. -/
def Registry.HasPlainConcat (registry : Registry) : Prop :=
  ∀ function, registry.find? "concat" = some function → function.DependsOnArguments

theorem Registry.find?_register_self (registry : Registry) (function : Function) :
    (registry.register function).find? function.name = some function :=
  Entries.get?_set_self _ _ _

theorem Registry.hasPlainConcat_register (registry : Registry) :
    (registry.register Builtin.concat).HasPlainConcat := by
  intro function hfind
  obtain rfl : Builtin.concat = function :=
    Option.some.inj ((registry.find?_register_self Builtin.concat).symm.trans hfind)
  exact Builtin.concat_dependsOnArguments

/-- The rows of two contexts are there and the same. -/
def Context.SeesSameRow (context other : Context) : Prop :=
  ∃ node, context.row.resolve? context.document = some node ∧
    other.row.resolve? other.document = some node

theorem Context.SeesSameRow.within {context other : Context} (hsame : context.SeesSameRow other)
    (position otherPosition : Nat) :
    (context.within position).SeesSameRow (other.within otherPosition) :=
  hsame

theorem Path.selectOne_congr {path : Path} {context other : Context} (hroot : path.root = .row)
    (hsame : context.SeesSameRow other) :
    path.selectOne context.document context.row = path.selectOne other.document other.row := by
  obtain ⟨node, hnode, hother⟩ := hsame
  rw [selectOne_of_row hroot hnode, selectOne_of_row hroot hother]

namespace Argument

mutual

def IsRowLocal : Argument → Prop
  | literal _ => True
  | path target => target.root = .row
  | call name arguments => name = "concat" ∧ AllRowLocal arguments

def AllRowLocal : List Argument → Prop
  | [] => True
  | argument :: rest => argument.IsRowLocal ∧ AllRowLocal rest

end

variable {registry : Registry}

mutual

theorem evaluate_congr (hconcat : registry.HasPlainConcat)
    {argument : Argument} (hlocal : argument.IsRowLocal) {context other : Context}
    (hsame : context.SeesSameRow other) :
    argument.evaluate registry context = argument.evaluate registry other := by
  cases argument with
  | literal value => rfl
  | path target =>
      simp only [evaluate, Path.selectOne_congr hlocal hsame]
  | call name arguments =>
      obtain ⟨rfl, harguments⟩ := hlocal
      simp only [evaluate, Registry.provide, evaluateAll_congr hconcat harguments hsame 0]
      cases hfind : registry.find? "concat" with
      | none => rfl
      | some function =>
          by_cases haccepts : function.arity.accepts arguments.length
          · cases evaluateAll registry other 0 arguments with
            | error error => simp [haccepts]
            | ok values => simpa [haccepts] using hconcat function hfind values context other
          · simp [haccepts]

theorem evaluateAll_congr (hconcat : registry.HasPlainConcat)
    {arguments : List Argument} (hlocal : AllRowLocal arguments) {context other : Context}
    (hsame : context.SeesSameRow other) (position : Nat) :
    evaluateAll registry context position arguments =
      evaluateAll registry other position arguments := by
  cases arguments with
  | nil => rfl
  | cons argument rest =>
      simp only [evaluateAll, evaluate_congr hconcat hlocal.1 (hsame.within position position),
        evaluateAll_congr hconcat hlocal.2 hsame (position + 1)]

end

end Argument

namespace ResultValue

/-- A fixed value, or a call that looks at the row alone. -/
def IsRowLocal : ResultValue → Prop
  | fixed _ => True
  | computed _ c => c.toArgument.IsRowLocal

/-- Wherever the row stands, the result has the same value. -/
def DependsOnRow (result : ResultValue) (registry : Registry) : Prop :=
  ∀ context other, context.SeesSameRow other →
    result.evaluate registry context = result.evaluate registry other

theorem dependsOnRow_fixed (value : Json) (registry : Registry) :
    (fixed value).DependsOnRow registry :=
  fun _ _ _ => rfl

theorem IsRowLocal.dependsOnRow {registry : Registry} (hconcat : registry.HasPlainConcat)
    {result : ResultValue} (hlocal : result.IsRowLocal) : result.DependsOnRow registry := by
  intro context other hsame
  cases result with
  | fixed value => rfl
  | computed source c => exact Argument.evaluate_congr hconcat hlocal hsame

end ResultValue

end DecisionTables
