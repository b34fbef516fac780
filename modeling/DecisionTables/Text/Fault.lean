import DecisionTables.Text.Basic

/-!
# Syntax faults

A path or call text that does not follow its grammar has a fault: the part of the text that was
left unread, and what was expected there.  The message points at the fault with a caret.  Text of a
single line is shown whole; otherwise the line of the fault is shown with its number.

The caret stands under the column of the fault.  In text of a single line, and before a character
outside ASCII, the column counts bytes; in all other cases it counts characters.
-/

namespace DecisionTables

inductive Expectation where
  | root
  | member
  | bracketed
  | closingBracket
  | functionName
  | openingParenthesis
  | closingParenthesis
  | nothing
deriving DecidableEq

def Expectation.message : Expectation → String
  | root => "expected '$' or '@'"
  | member => "expected member name or '*'"
  | bracketed => "expected index, quoted key or '*'"
  | closingBracket => "expected `]`"
  | functionName => "expected function name"
  | openingParenthesis => "expected `(`"
  | closingParenthesis => "expected `)`"
  | nothing => ""

structure Stop where
  unread : List Char
  expected : Expectation
deriving DecidableEq

structure SyntaxFault where
  text : List Char
  stop : Stop
deriving DecidableEq

namespace SyntaxFault

def readPart (fault : SyntaxFault) : List Char :=
  fault.text.take (fault.text.length - fault.stop.unread.length)

/-- The column of the fault in its line, counted from zero. -/
def column (fault : SyntaxFault) : Nat :=
  let line := (Text.splitAt '\n' fault.readPart).getLastD []
  match fault.stop.unread with
  | [] => line.length
  | c :: _ => if c.utf8Size = 1 then line.length else Text.utf8Length line

def message (fault : SyntaxFault) : String :=
  let expected := fault.stop.expected.message
  if '\n' ∈ fault.text then
    let line := fault.readPart.count '\n'
    let number := toString (line + 1)
    let gutter := String.ofList (List.replicate number.length ' ')
    let shown := String.ofList ((Text.splitAt '\n' fault.text).getD line [])
    let indent := String.ofList (List.replicate fault.column ' ')
    "parse error at line " ++ number ++ ", column " ++ toString (fault.column + 1) ++ "\n" ++
      gutter ++ " |\n" ++ number ++ " | " ++ shown ++ "\n" ++ gutter ++ " | " ++ indent ++ "^\n" ++
      expected
  else
    let indent := String.ofList (List.replicate (Text.utf8Length fault.readPart) ' ')
    String.ofList fault.text ++ "\n" ++ indent ++ "^\n" ++ expected

end SyntaxFault

end DecisionTables
