/-!
# Texts

Texts are lists of characters where they are read.  A reader returns what it read together with the
rest of the text; where it always reads at least one character, its rest is shorter than its text,
which is what its callers recurse on.  Blanks around criteria, paths, calls and number texts carry
no meaning and are trimmed.
-/

namespace DecisionTables.Text

abbrev Rest (cs : List Char) :=
  { rest : List Char // rest.length < cs.length }

theorem length_dropWhile_le (p : Char → Bool) (cs : List Char) :
    (cs.dropWhile p).length ≤ cs.length :=
  (List.dropWhile_sublist p).length_le

/-- The number of bytes of a text in UTF-8. -/
def utf8Length (cs : List Char) : Nat :=
  cs.foldr (fun c n => c.utf8Size + n) 0

/-- Whether a character is in a table of ranges of code points, both ends included. -/
def inRanges (ranges : List (Nat × Nat)) (c : Char) : Bool :=
  ranges.any fun (first, last) => first ≤ c.toNat && c.toNat ≤ last

/-! ## Blanks -/

/-- The Unicode property `White_Space`. -/
def isBlank (c : Char) : Bool :=
  ('\t' ≤ c && c ≤ '\x0d') || c = ' ' || c = '\u0085' || c = '\u00a0' || c = '\u1680' ||
    ('\u2000' ≤ c && c ≤ '\u200a') || c = '\u2028' || c = '\u2029' || c = '\u202f' ||
    c = '\u205f' || c = '\u3000'

def trimStart (cs : List Char) : List Char :=
  cs.dropWhile isBlank

def trimEnd (cs : List Char) : List Char :=
  (cs.reverse.dropWhile isBlank).reverse

def trim (cs : List Char) : List Char :=
  trimEnd (trimStart cs)

theorem length_trimStart_le (cs : List Char) : (trimStart cs).length ≤ cs.length :=
  length_dropWhile_le isBlank cs

/-! ## Pieces -/

/-- The pieces between the occurrences of a separator.  There is always at least one. -/
def splitAt (separator : Char) : List Char → List (List Char)
  | [] => [[]]
  | c :: cs =>
    if c = separator then [] :: splitAt separator cs
    else
      match splitAt separator cs with
      | [] => [[c]]
      | piece :: rest => (c :: piece) :: rest

def after? : (part : List Char) → List Char → Option (List Char)
  | [], cs => some cs
  | _ :: _, [] => none
  | p :: part, c :: cs => if p = c then after? part cs else none

def afterFirst? (part : List Char) : List Char → Option (List Char)
  | [] => after? part []
  | c :: cs =>
    match after? part (c :: cs) with
    | some rest => some rest
    | none => afterFirst? part cs

def join (separator : String) : List String → String
  | [] => ""
  | [text] => text
  | text :: rest => text ++ separator ++ join separator rest

end DecisionTables.Text
