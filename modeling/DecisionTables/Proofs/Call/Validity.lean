import DecisionTables.Call.Result
import DecisionTables.Function.Builtin
import DecisionTables.Proofs.Entries

/-!
# Valid calls

A call that is valid for a registry finds each of its functions with an arity that fits.  So when it
cannot be evaluated, either a path in it selects several nodes, or one of the functions itself has
failed.  The builtin functions never fail in the way of a call that is not valid.
-/

namespace DecisionTables

/-- Some function of the registry returns the error for some arguments. -/
def Registry.Raises (registry : Registry) (error : CallError) : Prop :=
  ∃ name function, registry.find? name = some function ∧
    ∃ arguments context, function.run arguments context = .error error

theorem Registry.find?_of_provide {registry : Registry} {name : String} {count : Nat}
    {function : Function} (hprovide : registry.provide name count = .ok function) :
    registry.find? name = some function := by
  unfold provide at hprovide
  split at hprovide
  · contradiction
  · split at hprovide
    · simp_all
    · contradiction

theorem Registry.find?_empty (name : String) : Registry.empty.find? name = none :=
  rfl

theorem Registry.find?_register (registry : Registry) (added : Function) (name : String) :
    (registry.register added).find? name =
      if foldedName name = foldedName added.name then some added else registry.find? name := by
  split
  · simp_all [find?, register, KeyMap.get?, KeyMap.insert]
  · rename_i hother
    exact Entries.get?_set_of_ne _ _ hother

/-- A path selects several nodes where one was expected. -/
def CallError.IsAmbiguity (error : CallError) : Prop :=
  ∃ path count, error = .path (.ambiguous path count)

theorem Path.isAmbiguity_of_selectOne {path : Path} {document : Json} {row : Location}
    {error : PathError} (herror : path.selectOne document row = .error error) :
    (CallError.path error).IsAmbiguity := by
  unfold selectOne at herror
  split at herror
  · contradiction
  · contradiction
  · cases herror
    exact ⟨_, _, rfl⟩

namespace Argument

variable {registry : Registry}

mutual

theorem evaluate_error {argument : Argument} (hvalid : argument.validate registry = .ok ())
    {context : Context} {error : CallError}
    (herror : argument.evaluate registry context = .error error) :
    error.IsAmbiguity ∨ registry.Raises error := by
  cases argument with
  | literal value => simp [evaluate] at herror
  | path target =>
      cases hselected : target.selectOne context.document context.row with
      | ok node => simp [evaluate, hselected] at herror
      | error pathError =>
          obtain rfl : CallError.path pathError = error := by
            simpa [evaluate, hselected] using herror
          exact .inl (Path.isAmbiguity_of_selectOne hselected)
  | call name arguments =>
      cases hprovide : registry.provide name arguments.length with
      | error missing => simp [validate, hprovide] at hvalid
      | ok function =>
          have harguments : validateAll registry arguments = .ok () := by
            simpa [validate, hprovide] using hvalid
          cases hvalues : evaluateAll registry context 0 arguments with
          | error first =>
              obtain rfl : first = error := by
                simpa [evaluate, hprovide, hvalues] using herror
              exact evaluateAll_error harguments hvalues
          | ok values =>
              have hrun : function.run values context = .error error := by
                simpa [evaluate, hprovide, hvalues] using herror
              exact .inr ⟨name, function, Registry.find?_of_provide hprovide, values, context,
                hrun⟩

theorem evaluateAll_error {arguments : List Argument}
    (hvalid : validateAll registry arguments = .ok ()) {context : Context} {position : Nat}
    {error : CallError}
    (herror : evaluateAll registry context position arguments = .error error) :
    error.IsAmbiguity ∨ registry.Raises error := by
  cases arguments with
  | nil => simp [evaluateAll] at herror
  | cons argument rest =>
      cases hargument : argument.validate registry with
      | error missing => simp [validateAll, hargument] at hvalid
      | ok done =>
          have hrest : validateAll registry rest = .ok () := by
            simpa [validateAll, hargument] using hvalid
          cases hvalue : argument.evaluate registry (context.within position) with
          | error first =>
              obtain rfl : first = error := by simpa [evaluateAll, hvalue] using herror
              exact evaluate_error hargument hvalue
          | ok value =>
              cases hvalues : evaluateAll registry context (position + 1) rest with
              | error later =>
                  obtain rfl : later = error := by
                    simpa [evaluateAll, hvalue, hvalues] using herror
                  exact evaluateAll_error hrest hvalues
              | ok values => simp [evaluateAll, hvalue, hvalues] at herror

end

end Argument

namespace ResultValue

/-- A fixed value, or a call that is valid for the registry. -/
def IsValid (result : ResultValue) (registry : Registry) : Prop :=
  ∀ c, result.call? = some c → c.validate registry = .ok ()

theorem IsValid.evaluate_error {result : ResultValue} {registry : Registry}
    (hvalid : result.IsValid registry) {context : Context} {error : CallError}
    (herror : result.evaluate registry context = .error error) :
    error.IsAmbiguity ∨ registry.Raises error := by
  cases result with
  | fixed value => simp [evaluate] at herror
  | computed source c => exact Argument.evaluate_error (hvalid c rfl) herror

end ResultValue

/-! ## Errors of the builtin functions -/

/-- A call names no function, or gives it a wrong number of arguments. -/
def CallError.IsReference : CallError → Prop
  | unknown _ => True
  | arity _ _ _ => True
  | _ => False

theorem Registry.raises_of_register {registry : Registry} {added : Function} {error : CallError}
    (hraises : (registry.register added).Raises error) :
    registry.Raises error ∨
      ∃ arguments context, added.run arguments context = .error error := by
  obtain ⟨name, function, hfind, hrun⟩ := hraises
  rw [find?_register] at hfind
  split at hfind
  · obtain rfl : added = function := Option.some.inj hfind
    exact .inr hrun
  · exact .inl ⟨name, function, hfind, hrun⟩

theorem Builtin.now_not_isReference {surroundings : Surroundings} {arguments : List Json}
    {context : Context} {error : CallError}
    (herror : (Builtin.now surroundings).run arguments context = .error error) :
    ¬ error.IsReference := by
  cases arguments with
  | nil => simp [now] at herror
  | cons format rest =>
      simp only [now] at herror
      split at herror
      · contradiction
      · obtain rfl := Except.error.inj herror
        simp [CallError.IsReference]

theorem Builtin.valueOf_not_isReference {arguments : List Json} {context : Context}
    {error : CallError} (herror : Builtin.valueOf.run arguments context = .error error) :
    ¬ error.IsReference := by
  have hpath : ∀ pathError, CallError.path pathError = error → ¬ error.IsReference := by
    rintro pathError rfl
    simp [CallError.IsReference]
  simp only [valueOf] at herror
  cases hfirst : arguments.headD .null with
  | string text =>
      by_cases hlike : startsLikePath text
      · cases hparse : Path.parse text with
        | error pathError =>
            simp only [hfirst, hlike, if_true, hparse] at herror
            exact hpath pathError (Except.error.inj herror)
        | ok path =>
            cases hselected : path.selectOne context.document context.row with
            | error pathError =>
                simp only [hfirst, hlike, if_true, hparse, hselected] at herror
                exact hpath pathError (Except.error.inj herror)
            | ok node =>
                simp only [hfirst, hlike, if_true, hparse, hselected] at herror
                contradiction
      · simp only [hfirst, hlike] at herror
        contradiction
  | _ =>
      simp only [hfirst] at herror
      contradiction

theorem Registry.not_isReference_of_builtins {surroundings : Surroundings} {error : CallError}
    (hraises : (builtins surroundings).Raises error) : ¬ error.IsReference := by
  rcases raises_of_register hraises with hraises | ⟨_, _, hconcat⟩
  · rcases raises_of_register hraises with hraises | ⟨_, _, hvalueOf⟩
    · rcases raises_of_register hraises with hraises | ⟨_, _, hnow⟩
      · rcases raises_of_register hraises with ⟨_, _, hnone, -⟩ | ⟨_, _, hguid⟩
        · simp [find?_empty] at hnone
        · simp [Builtin.guid] at hguid
      · exact Builtin.now_not_isReference hnow
    · exact Builtin.valueOf_not_isReference hvalueOf
  · simp [Builtin.concat] at hconcat

end DecisionTables
