import DecisionTables.Function.Basic
import DecisionTables.Path.Reader
import DecisionTables.Path.Selection
import DecisionTables.Time.Format

/-!
# Builtin functions

Four functions are always at hand: `guid` draws a fresh identifier, `now` tells the time, `valueof`
looks up a path and `concat` joins texts.  The first two depend on their surroundings, which answer
for every occasion.
-/

namespace DecisionTables

/-- What the surroundings provide for every occasion: random bits, and the time. -/
structure Surroundings where
  randomBits : Occasion → Nat
  /-- The time at the outset. -/
  now : Moment
  /-- The nanoseconds from the outset to the occasion, less than none if the clock was set back. -/
  elapsed : Occasion → Int := fun _ => 0

def Surroundings.time (surroundings : Surroundings) (occasion : Occasion) : Moment :=
  surroundings.now.shift (surroundings.elapsed occasion)

namespace Builtin

def hexDigits (width value : Nat) : List Char :=
  let digits := Nat.toDigits 16 (value % 1 <<< (4 * width))
  List.replicate (width - digits.length) '0' ++ digits

/-- The text of a random identifier: 122 random bits, and the marks of version four. -/
def identifierText (bits : Nat) : String :=
  String.ofList (hexDigits 8 bits ++ '-' :: hexDigits 4 (bits >>> 32) ++
    '-' :: '4' :: hexDigits 3 (bits >>> 48) ++
    '-' :: hexDigits 4 (0x8000 + (bits >>> 60) % 0x4000) ++ '-' :: hexDigits 12 (bits >>> 74))

def guid (surroundings : Surroundings) : Function where
  name := "guid"
  arity := ⟨0, some 0⟩
  run _ context := .ok (.string (identifierText (surroundings.randomBits context.occasion)))

def now (surroundings : Surroundings) : Function where
  name := "now"
  arity := ⟨0, some 1⟩
  run arguments context :=
    let time := surroundings.time context.occasion
    match arguments with
    | [] => .ok (.string (TimeFormat.timestamp time))
    | format :: _ =>
      let format := format.textForm?.getD ""
      match TimeFormat.format? time format with
      | some text => .ok (.string text)
      | none => .error (.failed "now" s!"invalid time format '{format}'")

def startsLikePath (text : String) : Bool :=
  match text.toList with
  | c :: _ => (Path.rootOf? c).isSome
  | [] => false

/-- The argument itself, or the node that it is a path to. -/
def valueOf : Function where
  name := "valueof"
  arity := ⟨1, some 1⟩
  run arguments context :=
    match arguments.headD .null with
    | .string text =>
      if startsLikePath text then
        match Path.parse text with
        | .error error => .error (.path error)
        | .ok path =>
          match path.selectOne context.document context.row with
          | .error error => .error (.path error)
          | .ok node => .ok (node.getD .null)
      else .ok (.string text)
    | value => .ok value

def concat : Function where
  name := "concat"
  arity := ⟨0, none⟩
  run arguments _ :=
    .ok (.string (String.join (arguments.map fun argument => argument.textForm?.getD "")))

end Builtin

namespace Registry

def empty : Registry :=
  KeyMap.empty

def builtins (surroundings : Surroundings) : Registry :=
  (((empty.register (Builtin.guid surroundings)).register (Builtin.now surroundings)).register
    Builtin.valueOf).register Builtin.concat

end Registry

end DecisionTables
