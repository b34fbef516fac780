import DecisionTables.Blob.Coder
import DecisionTables.Definition.Basic
import DecisionTables.Json.Reader

/-!
# Payloads

A payload is a definition in the form in which it is stored: criteria and results are JSON text, and
the numbers of inputs, outputs and rules are told in advance.
-/

namespace DecisionTables.Blob

/-- Named values as JSON text. -/
abbrev StoredMap :=
  List (String × String)

structure StoredRule where
  priority : Int64
  conditions : StoredMap
  results : StoredMap

structure Counts where
  inputs : Nat
  outputs : Nat
  rules : Nat
deriving DecidableEq

structure Payload where
  counts : Counts
  path : String
  inputs : List InputField
  outputs : List OutputField
  rules : List StoredRule
  defaults : Option StoredMap
  strategy : Strategy

namespace Payload

open Coder

def storedMapCoder : Coder StoredMap :=
  (text.pair text).list

def inputCoder : Coder InputField :=
  (text.pair (text.pair (choice [InputType.number, .string, .boolean]).option)).map
    (fun (name, path, type) => ⟨name, path, type⟩)
    (fun input => (input.name, input.path, input.type))

def outputCoder : Coder OutputField :=
  (text.pair text).map
    (fun (name, path) => ⟨name, path⟩) (fun output => (output.name, output.path))

def ruleCoder : Coder StoredRule :=
  (signed.pair (storedMapCoder.pair storedMapCoder)).map
    (fun (priority, conditions, results) => ⟨priority, conditions, results⟩)
    (fun rule => (rule.priority, rule.conditions, rule.results))

def countsCoder : Coder Counts :=
  (natural.pair (natural.pair natural)).map
    (fun (inputs, outputs, rules) => ⟨inputs, outputs, rules⟩)
    (fun counts => (counts.inputs, counts.outputs, counts.rules))

def strategyCoder : Coder Strategy :=
  ((choice [MatchMode.firstMatch, .allMatches, .bestMatch]).pair
    ((choice [ConflictPolicy.priority, .merge, .lastWins]).pair truth)).map
    (fun (mode, conflict, stopOnError) => ⟨mode, conflict, stopOnError⟩)
    (fun strategy => (strategy.mode, strategy.conflict, strategy.stopOnError))

def coder : Coder Payload :=
  (countsCoder.pair (text.pair (inputCoder.list.pair (outputCoder.list.pair
    (ruleCoder.list.pair (storedMapCoder.option.pair strategyCoder)))))).map
    (fun (counts, path, inputs, outputs, rules, defaults, strategy) =>
      ⟨counts, path, inputs, outputs, rules, defaults, strategy⟩)
    (fun payload =>
      (payload.counts, payload.path, payload.inputs, payload.outputs, payload.rules,
        payload.defaults, payload.strategy))

end Payload

def storeMap (map : KeyMap Json) : StoredMap :=
  map.entries.map fun (key, value) => (key, value.text)

def storeRule (rule : RuleEntry) : StoredRule :=
  ⟨rule.priority, storeMap rule.conditions, storeMap rule.results⟩

def Payload.ofDefinition (definition : Definition) : Payload where
  counts := ⟨definition.inputs.length, definition.outputs.length, definition.rules.length⟩
  path := definition.path
  inputs := definition.inputs
  outputs := definition.outputs
  rules := definition.rules.map storeRule
  defaults := definition.defaults.map storeMap
  strategy := definition.strategy

inductive PayloadFault where
  | wrongCount (entries : String) (declared actual : Nat)
  | unreadableValue (key : String)
deriving DecidableEq

def PayloadFault.message : PayloadFault → String
  | wrongCount entries declared actual =>
    s!"metadata says {declared} {entries} but payload has {actual}"
  | unreadableValue key => s!"value for '{key}' is not JSON"

/-- Reads the JSON text of every value.  A later entry replaces an earlier one of the same key. -/
def restoreMap (stored : StoredMap) : Except PayloadFault (KeyMap Json) := do
  let pairs ← stored.mapM fun (key, text) =>
    match Json.read text with
    | .ok value => pure (key, value)
    | .error _ => throw (.unreadableValue key)
  return .ofPairs pairs

def restoreRule (stored : StoredRule) : Except PayloadFault RuleEntry := do
  let conditions ← restoreMap stored.conditions
  let results ← restoreMap stored.results
  return ⟨stored.priority, conditions, results⟩

def Payload.countFault? (payload : Payload) : Option PayloadFault :=
  let counted :=
    [("inputs", payload.counts.inputs, payload.inputs.length),
      ("outputs", payload.counts.outputs, payload.outputs.length),
      ("rules", payload.counts.rules, payload.rules.length)]
  (counted.find? fun (_, declared, actual) => declared ≠ actual).map
    fun (entries, declared, actual) => .wrongCount entries declared actual

def Payload.definition (payload : Payload) : Except PayloadFault Definition := do
  match payload.countFault? with
  | some fault => throw fault
  | none =>
    let rules ← payload.rules.mapM restoreRule
    let defaults ← payload.defaults.mapM restoreMap
    return ⟨payload.path, payload.inputs, payload.outputs, rules, defaults, payload.strategy⟩

end DecisionTables.Blob
