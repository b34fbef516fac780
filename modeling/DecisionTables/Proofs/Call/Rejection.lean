import DecisionTables.Proofs.Call.Validity
import Mathlib

/-!
# Rejected calls

Validation and evaluation go through the calls of a tree in one order: a call before its arguments,
and these from left to right.  Evaluation may stop earlier than validation, at a path or in a
function, but it never gets past the call that validation rejects.  So a rejected call has no value
in any row, and a wrong reference that evaluation meets is the one that validation reports.
-/

namespace DecisionTables

theorem Registry.isReference_of_provide {registry : Registry} {name : String} {count : Nat}
    {missing : CallError} (hprovide : registry.provide name count = .error missing) :
    missing.IsReference := by
  unfold provide at hprovide
  split at hprovide
  · obtain rfl := Except.error.inj hprovide
    trivial
  · split at hprovide
    · contradiction
    · obtain rfl := Except.error.inj hprovide
      trivial

namespace Argument

variable {registry : Registry}

mutual

theorem isReference_of_validate {argument : Argument} {missing : CallError}
    (hinvalid : argument.validate registry = .error missing) : missing.IsReference := by
  cases argument with
  | literal value => simp [validate] at hinvalid
  | path target => simp [validate] at hinvalid
  | call name arguments =>
      cases hprovide : registry.provide name arguments.length with
      | error first =>
          obtain rfl : first = missing := by simpa [validate, hprovide] using hinvalid
          exact Registry.isReference_of_provide hprovide
      | ok function =>
          have harguments : validateAll registry arguments = .error missing := by
            simpa [validate, hprovide] using hinvalid
          exact isReference_of_validateAll harguments

theorem isReference_of_validateAll {arguments : List Argument} {missing : CallError}
    (hinvalid : validateAll registry arguments = .error missing) : missing.IsReference := by
  cases arguments with
  | nil => simp [validateAll] at hinvalid
  | cons argument rest =>
      cases hargument : argument.validate registry with
      | error first =>
          obtain rfl : first = missing := by simpa [validateAll, hargument] using hinvalid
          exact isReference_of_validate hargument
      | ok done =>
          have hrest : validateAll registry rest = .error missing := by
            simpa [validateAll, hargument] using hinvalid
          exact isReference_of_validateAll hrest

end

/-- Evaluation ends with the missing reference, unless a path or a function stops it before. -/
def StopsBy (registry : Registry) (missing error : CallError) : Prop :=
  error = missing ∨ error.IsAmbiguity ∨ registry.Raises error

mutual

theorem evaluate_of_invalid {argument : Argument} {missing : CallError}
    (hinvalid : argument.validate registry = .error missing) (context : Context) :
    ∃ error, argument.evaluate registry context = .error error ∧
      StopsBy registry missing error := by
  cases argument with
  | literal value => simp [validate] at hinvalid
  | path target => simp [validate] at hinvalid
  | call name arguments =>
      cases hprovide : registry.provide name arguments.length with
      | error first =>
          obtain rfl : first = missing := by simpa [validate, hprovide] using hinvalid
          exact ⟨first, by simp [evaluate, hprovide], .inl rfl⟩
      | ok function =>
          have harguments : validateAll registry arguments = .error missing := by
            simpa [validate, hprovide] using hinvalid
          obtain ⟨error, hvalues, hstops⟩ := evaluateAll_of_invalid harguments context 0
          exact ⟨error, by simp [evaluate, hprovide, hvalues], hstops⟩

theorem evaluateAll_of_invalid {arguments : List Argument} {missing : CallError}
    (hinvalid : validateAll registry arguments = .error missing) (context : Context)
    (position : Nat) :
    ∃ error, evaluateAll registry context position arguments = .error error ∧
      StopsBy registry missing error := by
  cases arguments with
  | nil => simp [validateAll] at hinvalid
  | cons argument rest =>
      cases hargument : argument.validate registry with
      | error first =>
          obtain rfl : first = missing := by simpa [validateAll, hargument] using hinvalid
          obtain ⟨error, hvalue, hstops⟩ :=
            evaluate_of_invalid hargument (context.within position)
          exact ⟨error, by simp [evaluateAll, hvalue], hstops⟩
      | ok done =>
          have hrest : validateAll registry rest = .error missing := by
            simpa [validateAll, hargument] using hinvalid
          -- The first argument is valid and may still have no value in this row.
          cases hvalue : argument.evaluate registry (context.within position) with
          | error first =>
              exact ⟨first, by simp [evaluateAll, hvalue], .inr (evaluate_error hargument hvalue)⟩
          | ok value =>
              obtain ⟨error, hvalues, hstops⟩ :=
                evaluateAll_of_invalid hrest context (position + 1)
              exact ⟨error, by simp [evaluateAll, hvalue, hvalues], hstops⟩

end

end Argument

theorem CallError.IsAmbiguity.not_isReference {error : CallError} (hambiguity : error.IsAmbiguity) :
    ¬ error.IsReference := by
  obtain ⟨path, count, rfl⟩ := hambiguity
  exact id

namespace Call

variable {registry : Registry}

/--
A valid call has a value or fails for another reason than a reference.  A rejected one has no value
in any row, and misses no other reference than the one it was rejected for.
-/
theorem evaluate_as_validated
    (hbodies : ∀ error, registry.Raises error → ¬ error.IsReference) (c : Call) :
    (c.validate registry = .ok () → ∀ context,
      (∃ value, c.evaluate registry context = .ok value) ∨
        ∃ error, c.evaluate registry context = .error error ∧ ¬ error.IsReference) ∧
    ∀ missing, c.validate registry = .error missing →
      missing.IsReference ∧ ∀ context, ∃ error,
        c.evaluate registry context = .error error ∧ (error.IsReference → error = missing) := by
  refine ⟨fun hvalid context => ?_, fun missing hinvalid => ⟨?_, fun context => ?_⟩⟩
  · cases hvalue : c.evaluate registry context with
    | ok value => exact .inl ⟨value, rfl⟩
    | error error =>
        refine .inr ⟨error, rfl, ?_⟩
        rcases Argument.evaluate_error hvalid hvalue with hambiguity | hraises
        · exact hambiguity.not_isReference
        · exact hbodies error hraises
  · exact Argument.isReference_of_validate hinvalid
  · obtain ⟨error, hvalue, hstops⟩ := Argument.evaluate_of_invalid hinvalid context
    refine ⟨error, hvalue, fun hreference => ?_⟩
    rcases hstops with hmissing | hambiguity | hraises
    · exact hmissing
    · exact absurd hreference hambiguity.not_isReference
    · exact absurd hreference (hbodies error hraises)

/-- The path is looked at before the inner call, which takes no arguments. -/
def taggedIdentifier (arguments : List Argument) : Call :=
  ⟨"concat", [.path ⟨"$.tags[*]", .document, [.key "tags", .wildcard]⟩, .call "guid" arguments]⟩

theorem evaluate_taggedIdentifier_as_validated :
    let registry := Registry.builtins ⟨fun _ => 0, ⟨0, 0⟩, fun _ => 0⟩
    let valid := taggedIdentifier []
    let rejected := taggedIdentifier [.literal .null]
    let missing := CallError.arity "guid" ⟨0, some 0⟩ 1
    let twoTags : Context := ⟨.object [("tags", .array [.null, .null])], ⟨[]⟩, []⟩
    (∀ error, registry.Raises error → ¬ error.IsReference) ∧
      valid.validate registry = .ok () ∧
      (∀ context, (∃ value, valid.evaluate registry context = .ok value) ∨
        ∃ error, valid.evaluate registry context = .error error ∧ ¬ error.IsReference) ∧
      rejected.validate registry = .error missing ∧
      (∀ context, ∃ error, rejected.evaluate registry context = .error error ∧
        (error.IsReference → error = missing)) ∧
      rejected.evaluate registry twoTags = .error (.path (.ambiguous "$.tags[*]" 2)) := by
  intro registry valid rejected missing twoTags
  have hbodies : ∀ error, registry.Raises error → ¬ error.IsReference :=
    fun _ hraises => Registry.not_isReference_of_builtins hraises
  have hvalid : valid.validate registry = .ok () := by cbv
  have hinvalid : rejected.validate registry = .error missing := by cbv
  obtain ⟨hevaluated, -⟩ := evaluate_as_validated hbodies valid
  obtain ⟨-, hrejected⟩ := evaluate_as_validated hbodies rejected
  exact ⟨hbodies, hvalid, hevaluated hvalid, hinvalid, (hrejected missing hinvalid).2, by cbv⟩

end Call

end DecisionTables
