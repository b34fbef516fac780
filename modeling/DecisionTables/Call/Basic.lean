import DecisionTables.Function.Basic
import DecisionTables.Path.Selection

/-!
# Calls

A call applies a function to arguments, each a literal, a path or a call of its own.  It is valid
for a registry when it and every call inside it name a function that takes so many arguments.
Arguments are evaluated from left to right before the function runs; a path that selects nothing
stands for null.
-/

namespace DecisionTables

inductive Argument where
  | literal (value : Json)
  | path (path : Path)
  | call (name : String) (arguments : List Argument)

/-- A function name, in lower case, with arguments. -/
structure Call where
  name : String
  arguments : List Argument

namespace Argument

mutual

def validate (registry : Registry) : Argument → Except CallError Unit
  | literal _ => .ok ()
  | path _ => .ok ()
  | call name arguments =>
    match registry.provide name arguments.length with
    | .error error => .error error
    | .ok _ => validateAll registry arguments

def validateAll (registry : Registry) : List Argument → Except CallError Unit
  | [] => .ok ()
  | argument :: rest =>
    match validate registry argument with
    | .error error => .error error
    | .ok () => validateAll registry rest

end

mutual

def evaluate (registry : Registry) (context : Context) : Argument → Except CallError Json
  | literal value => .ok value
  | path target =>
    match target.selectOne context.document context.row with
    | .error error => .error (.path error)
    | .ok node => .ok (node.getD .null)
  | call name arguments =>
    match registry.provide name arguments.length with
    | .error error => .error error
    | .ok function =>
      match evaluateAll registry context 0 arguments with
      | .error error => .error error
      | .ok values => function.run values context

/-- The values of arguments, the first of which stands at the given position. -/
def evaluateAll (registry : Registry) (context : Context) (position : Nat) :
    List Argument → Except CallError (List Json)
  | [] => .ok []
  | argument :: rest =>
    match evaluate registry (context.within position) argument with
    | .error error => .error error
    | .ok value =>
      match evaluateAll registry context (position + 1) rest with
      | .error error => .error error
      | .ok values => .ok (value :: values)

end

end Argument

namespace Call

def toArgument (c : Call) : Argument :=
  .call c.name c.arguments

def validate (registry : Registry) (c : Call) : Except CallError Unit :=
  c.toArgument.validate registry

def evaluate (registry : Registry) (context : Context) (c : Call) : Except CallError Json :=
  c.toArgument.evaluate registry context

end Call

end DecisionTables
