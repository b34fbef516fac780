import DecisionTables.Path.Basic

/-!
# Functions

A function computes a value from its arguments and from what it can see while it runs: the document,
the location of the row, and the occasion of the call.  An occasion names one single evaluation of a
call within a run; functions that produce a fresh value every time draw it by their occasion.

A registry keeps functions by their names, without regard to the case of ASCII letters.
-/

namespace DecisionTables

/-- The positions that lead to one evaluation of a call, innermost first. -/
abbrev Occasion :=
  List Nat

structure Context where
  document : Json
  row : Location
  occasion : Occasion

def Context.within (context : Context) (position : Nat) : Context :=
  { context with occasion := position :: context.occasion }

/-- How many arguments a function takes.  Without an upper bound any greater number is accepted. -/
structure Arity where
  least : Nat
  most : Option Nat
deriving DecidableEq

namespace Arity

def accepts (arity : Arity) (count : Nat) : Bool :=
  arity.least ≤ count && arity.most.all (count ≤ ·)

def message (arity : Arity) : String :=
  match arity.most with
  | none => s!"at least {arity.least}"
  | some most =>
    if most = arity.least then s!"exactly {arity.least}"
    else if arity.least = 0 then s!"at most {most}"
    else s!"{arity.least} to {most}"

end Arity

inductive CallError where
  | unknown (name : String)
  | arity (name : String) (expected : Arity) (got : Nat)
  | path (error : PathError)
  | failed (name : String) (reason : String)
deriving DecidableEq

def CallError.message : CallError → String
  | unknown name => s!"unknown function '{name}'"
  | arity name expected got =>
    s!"function '{name}' expects {expected.message} argument(s), got {got}"
  | path error => error.message
  | failed name reason => s!"function '{name}' failed: {reason}"

structure Function where
  name : String
  arity : Arity
  run : List Json → Context → Except CallError Json

def foldedName (name : String) : String :=
  name.map Char.toLower

abbrev Registry :=
  KeyMap Function

namespace Registry

def register (registry : Registry) (function : Function) : Registry :=
  registry.insert (foldedName function.name) function

def find? (registry : Registry) (name : String) : Option Function :=
  registry.get? (foldedName name)

/-- The function of a name, provided that it takes the given number of arguments. -/
def provide (registry : Registry) (name : String) (count : Nat) : Except CallError Function :=
  match registry.find? name with
  | none => .error (.unknown name)
  | some function =>
    if function.arity.accepts count then .ok function
    else .error (.arity function.name function.arity count)

end Registry

end DecisionTables
