import DecisionTables.Proofs.Call.RowLocal
import DecisionTables.Proofs.Call.Validity

/-!
# Calls on different occasions

Two contexts may differ in nothing but the occasion of the call.  Where no function looks at the
occasion, every call has the same value, or the same error, in both of them.
-/

namespace DecisionTables

/-- The contexts are in the same row of the same document, perhaps on different occasions. -/
def Context.SeesSameDocument (context other : Context) : Prop :=
  context.document = other.document ∧ context.row = other.row

theorem Context.SeesSameDocument.within {context other : Context}
    (hsame : context.SeesSameDocument other) (position otherPosition : Nat) :
    (context.within position).SeesSameDocument (other.within otherPosition) :=
  hsame

/-- What a function returns depends on its arguments, the document and the row. -/
def Function.IgnoresOccasion (function : Function) : Prop :=
  ∀ arguments context other, context.SeesSameDocument other →
    function.run arguments context = function.run arguments other

theorem Function.DependsOnArguments.ignoresOccasion {function : Function}
    (hplain : function.DependsOnArguments) : function.IgnoresOccasion :=
  fun arguments context other _ => hplain arguments context other

theorem Builtin.valueOf_ignoresOccasion : Builtin.valueOf.IgnoresOccasion := by
  intro arguments context other hsame
  simp only [Builtin.valueOf, hsame.1, hsame.2]

def Registry.IgnoresOccasions (registry : Registry) : Prop :=
  ∀ name function, registry.find? name = some function → function.IgnoresOccasion

namespace Registry

theorem ignoresOccasions_empty : Registry.empty.IgnoresOccasions := by
  intro name function hfind
  simp [find?_empty] at hfind

theorem IgnoresOccasions.register {registry : Registry} {function : Function}
    (hregistry : registry.IgnoresOccasions) (hfunction : function.IgnoresOccasion) :
    (registry.register function).IgnoresOccasions := by
  intro name found hfind
  rw [find?_register] at hfind
  split at hfind
  · cases hfind
    exact hfunction
  · exact hregistry name found hfind

/-- The builtin functions that take nothing from their surroundings. -/
def steady : Registry :=
  (empty.register Builtin.valueOf).register Builtin.concat

theorem ignoresOccasions_steady : steady.IgnoresOccasions := by
  apply IgnoresOccasions.register
  · exact ignoresOccasions_empty.register Builtin.valueOf_ignoresOccasion
  · exact Builtin.concat_dependsOnArguments.ignoresOccasion

end Registry

namespace Argument

variable {registry : Registry}

mutual

theorem evaluate_of_sameDocument (hregistry : registry.IgnoresOccasions) (argument : Argument)
    {context other : Context} (hsame : context.SeesSameDocument other) :
    argument.evaluate registry context = argument.evaluate registry other := by
  cases argument with
  | literal value => rfl
  | path target => simp only [evaluate, hsame.1, hsame.2]
  | call name arguments =>
      have harguments := evaluateAll_of_sameDocument hregistry arguments hsame 0
      cases hprovide : registry.provide name arguments.length with
      | error error => simp only [evaluate, hprovide]
      | ok function =>
          have hfind := Registry.find?_of_provide hprovide
          have hrun := fun values => hregistry name function hfind values context other hsame
          simp only [evaluate, hprovide, harguments, hrun]

theorem evaluateAll_of_sameDocument (hregistry : registry.IgnoresOccasions)
    (arguments : List Argument) {context other : Context}
    (hsame : context.SeesSameDocument other) (position : Nat) :
    evaluateAll registry context position arguments =
      evaluateAll registry other position arguments := by
  cases arguments with
  | nil => rfl
  | cons argument rest =>
      have hhead := evaluate_of_sameDocument hregistry argument (hsame.within position position)
      have hrest := evaluateAll_of_sameDocument hregistry rest hsame (position + 1)
      simp only [evaluateAll, hhead, hrest]

end

end Argument

theorem ResultValue.evaluate_of_sameDocument {registry : Registry}
    (hregistry : registry.IgnoresOccasions) (result : ResultValue) {context other : Context}
    (hsame : context.SeesSameDocument other) :
    result.evaluate registry context = result.evaluate registry other := by
  cases result with
  | fixed value => rfl
  | computed source c => exact Argument.evaluate_of_sameDocument hregistry c.toArgument hsame

end DecisionTables
