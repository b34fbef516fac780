import DecisionTables.Call.Basic
import DecisionTables.Path.Reader

/-!
# Reading calls

A call is written `#name(argument, ...)`, with blanks allowed around the parentheses and the
arguments.  An argument is a nested call, a path, a text in single quotes, or bare text up to the
next comma or closing parenthesis; bare text stands for a truth value, null, a number or itself.

What starts like a call or a path must be one.  A single quote that is never closed starts bare
text.
-/

namespace DecisionTables

namespace Call

open Text (Rest length_dropWhile_le trimStart length_trimStart_le)

def isNameStart (c : Char) : Bool :=
  c.isAlpha || c == '_'

def isNameChar (c : Char) : Bool :=
  c.isAlphanum || c == '_'

def bareValue (cs : List Char) : Json :=
  let text := String.ofList (Text.trim cs)
  if text = "true" then .bool true
  else if text = "false" then .bool false
  else if text = "null" then .null
  else
    match readNumber? text.toList with
    | some n => .number (.ofBinary64 n)
    | none => .string text

def isBareChar (c : Char) : Bool :=
  !(c == ',' || c == ')')

/-- Bare text, which starts with neither a comma nor a closing parenthesis. -/
def readBare (c : Char) (cs : List Char) : Argument × Rest (c :: cs) :=
  (.literal (bareValue (c :: cs.takeWhile isBareChar)),
    ⟨cs.dropWhile isBareChar, Nat.lt_succ_of_le (length_dropWhile_le _ _)⟩)

/-- A path and the text after it, given the text after its root. -/
def readPath (root : Path.Root) (c : Char) (cs : List Char) :
    Except Stop (Argument × Rest (c :: cs)) :=
  match h : Path.readSegments cs with
  | .error stop => .error stop
  | .ok (segments, rest) =>
    let source := (c :: cs).take (cs.length + 1 - rest.length)
    .ok (.path ⟨String.ofList source, root, segments⟩,
      ⟨rest, Nat.lt_succ_of_le (Path.length_readSegments_le h)⟩)

/-- Text in quotes, given the text after the opening quote. -/
def readQuoted? (cs : List Char) : Option (Argument × Rest cs) :=
  match h : Path.upTo? '\'' cs with
  | some (inner, rest) =>
    some (.literal (.string (String.ofList inner)), ⟨rest, Path.length_upTo?_lt h⟩)
  | none => none

def readName (cs : List Char) : Except Stop (String × Rest cs) :=
  match cs with
  | [] => .error ⟨[], .functionName⟩
  | c :: rest =>
    if isNameStart c then
      .ok (foldedName (String.ofList (c :: rest.takeWhile isNameChar)),
        ⟨rest.dropWhile isNameChar, Nat.lt_succ_of_le (length_dropWhile_le _ _)⟩)
    else .error ⟨c :: rest, .functionName⟩

/-- The text after an opening parenthesis and the blanks around it. -/
def readOpening (cs : List Char) : Except Stop (Rest cs) :=
  match h : trimStart cs with
  | '(' :: rest =>
    .ok ⟨trimStart rest, by
      have h1 := length_trimStart_le cs
      have h2 := length_trimStart_le rest
      rw [h, List.length_cons] at h1
      omega⟩
  | rest => .error ⟨rest, .openingParenthesis⟩

mutual

/-- A call and the text after it, given the text after its mark. -/
def readAfterMark (cs : List Char) : Except Stop ((String × List Argument) × Rest cs) := do
  let (name, ⟨afterName, hname⟩) ← readName cs
  let ⟨inside, hinside⟩ ← readOpening afterName
  let (arguments, ⟨rest, h⟩) ← readArguments inside
  match hrest : rest with
  | ')' :: after =>
    .ok ((name, arguments), ⟨after, by
      rw [hrest, List.length_cons] at h
      omega⟩)
  | _ => .error ⟨rest, .closingParenthesis⟩
termination_by 3 * cs.length
decreasing_by
  exact Nat.mul_lt_mul_of_pos_left (Nat.lt_trans hinside hname) (by decide)

def readArgument (c : Char) (cs : List Char) : Except Stop (Argument × Rest (c :: cs)) :=
  if c = '#' then do
    let ((name, arguments), ⟨rest, h⟩) ← readAfterMark cs
    return (.call name arguments, ⟨rest, Nat.lt_succ_of_lt h⟩)
  else
    match Path.rootOf? c with
    | some root => readPath root c cs
    | none =>
      if c = '\'' then
        match readQuoted? cs with
        | some (argument, ⟨rest, h⟩) => .ok (argument, ⟨rest, Nat.lt_succ_of_lt h⟩)
        | none => .ok (readBare c cs)
      else .ok (readBare c cs)
termination_by 3 * cs.length + 1
decreasing_by
  exact Nat.lt_succ_self _

def readArguments (cs : List Char) :
    Except Stop (List Argument × { rest : List Char // rest.length ≤ cs.length }) :=
  match cs with
  | [] => .ok ([], ⟨[], Nat.le_refl _⟩)
  | c :: tail =>
    if isBareChar c then do
      let (argument, ⟨afterArgument, h⟩) ← readArgument c tail
      match hrest : trimStart afterArgument with
      | ',' :: more =>
        have hmore : (trimStart more).length < tail.length + 1 := by
          have h1 := length_trimStart_le afterArgument
          have h2 := length_trimStart_le more
          rw [hrest, List.length_cons] at h1
          rw [List.length_cons] at h
          omega
        let (arguments, ⟨last, hlast⟩) ← readArguments (trimStart more)
        match arguments with
        | [] =>
          return ([argument], ⟨',' :: more, by
            have h1 := length_trimStart_le afterArgument
            rw [hrest] at h1
            omega⟩)
        | _ => return (argument :: arguments, ⟨last, by rw [List.length_cons]; omega⟩)
      | rest =>
        return ([argument], ⟨rest, by
          have h1 := length_trimStart_le afterArgument
          rw [hrest] at h1
          omega⟩)
    else .ok ([], ⟨c :: tail, Nat.le_refl _⟩)
termination_by 3 * cs.length
decreasing_by
  · rw [List.length_cons]
    omega
  · exact Nat.mul_lt_mul_of_pos_left hmore (by decide)

end

def readText (cs : List Char) : Except Stop Call :=
  match cs with
  | '#' :: rest =>
    match readAfterMark rest with
    | .error stop => .error stop
    | .ok ((name, arguments), ⟨[], _⟩) => .ok ⟨name, arguments⟩
    | .ok (_, ⟨unread, _⟩) => .error ⟨unread, .nothing⟩
  | _ => .error ⟨cs, .nothing⟩

end Call

/-- A text that was to be a call but does not follow the grammar of calls. -/
structure CallSyntaxError where
  input : String
  fault : SyntaxFault
deriving DecidableEq

def CallSyntaxError.message (error : CallSyntaxError) : String :=
  s!"cannot parse '{error.input}': {error.fault.message}"

/-- Reads a call.  Blanks around it carry no meaning. -/
def Call.parse (source : String) : Except CallSyntaxError Call :=
  let text := Text.trim source.toList
  match Call.readText text with
  | .ok c => .ok c
  | .error stop => .error ⟨source, ⟨text, stop⟩⟩

end DecisionTables
