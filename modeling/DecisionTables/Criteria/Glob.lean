import DecisionTables.Text.Lowercase
import DecisionTables.Text.Basic

/-!
# Wildcard patterns

A star in a pattern stands for any run of characters, also the empty one.  A text matches when it
starts with the piece before the first star, ends with the piece after the last one, and holds the
pieces between the stars in order and without overlap.  Each of those is taken where it first
occurs.
-/

namespace DecisionTables.Glob

/-- Whether a text consists of the pieces after the first star, with anything before each. -/
def matchPieces : (pieces : List (List Char)) → List Char → Bool
  | [], cs => cs.isEmpty
  | [last], cs => last.isSuffixOf cs
  | piece :: rest, cs =>
    match Text.afterFirst? piece cs with
    | some remaining => matchPieces rest remaining
    | none => false

def matchExactly (pattern text : List Char) : Bool :=
  match Text.splitAt '*' pattern with
  | [] => text.isEmpty
  | first :: rest =>
    match Text.after? first text with
    | some remaining => matchPieces rest remaining
    | none => false

/-- Whether a text matches a pattern.  Without case sensitivity both are lowercased first. -/
def fits (pattern text : String) (caseSensitive : Bool) : Bool :=
  if caseSensitive then matchExactly pattern.toList text.toList
  else matchExactly (Text.lowercase pattern.toList) (Text.lowercase text.toList)

end DecisionTables.Glob
