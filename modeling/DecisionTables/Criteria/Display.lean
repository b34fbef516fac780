import DecisionTables.Criteria.Basic
import DecisionTables.Text.Basic

/-!
# Displaying criteria

A criteria is displayed as a text with single blanks around its separators and none elsewhere.
Malformed parts are displayed with their fault in angle brackets.
-/

namespace DecisionTables

def Literal.display : Literal → String
  | number _ written => written
  | text t => t
  | wildcard pattern => pattern
  | quoted t => "'" ++ t ++ "'"
  | empty => ""

def displayMalformed (reason : String) : String :=
  "<malformed: " ++ reason ++ ">"

def Comparison.display : Comparison → String
  | test operator literal => operator.symbol ++ literal.display
  | malformed fault => displayMalformed fault.message

def Criteria.display : Criteria → String
  | expression groups =>
    Text.join " || " (groups.map fun group => Text.join " && " (group.map Comparison.display))
  | membership items => (Json.array items).text
  | isNull => "null"
  | malformed fault => displayMalformed fault.message

end DecisionTables
