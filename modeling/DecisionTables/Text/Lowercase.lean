import DecisionTables.Text.LetterCase

/-!
# Lowercasing

Text is lowercased character by character with the full mappings of the Unicode standard.  Two
letters are special: a capital I with a dot above becomes two characters, and a capital sigma at the
end of a word becomes a final sigma.
-/

namespace DecisionTables.Text

def CaseRun.covers (run : CaseRun) (code : Nat) : Bool :=
  run.first ≤ code && code ≤ run.last && (code - run.first) % run.step == 0

def lowercaseChar (c : Char) : Char :=
  match lowercaseRuns.find? (·.covers c.toNat) with
  | some run => Char.ofNat (c.toNat + run.shift).toNat
  | none => c

/-- Whether the first character that does not ignore case is a cased one. -/
def meetsCased : List Char → Bool
  | [] => false
  | c :: rest =>
    if inRanges caseIgnorableRanges c then meetsCased rest else inRanges casedRanges c

/-- The lowercase of a character between two texts, the first of which is given backwards. -/
def lowercaseIn (before : List Char) (c : Char) (after : List Char) : List Char :=
  if c = 'Σ' then if meetsCased before && !meetsCased after then ['ς'] else ['σ']
  else if c = '\u0130' then ['i', '\u0307']
  else [lowercaseChar c]

def lowercaseFrom (before : List Char) : List Char → List Char
  | [] => []
  | c :: after => lowercaseIn before c after ++ lowercaseFrom (c :: before) after

def lowercase (cs : List Char) : List Char :=
  lowercaseFrom [] cs

end DecisionTables.Text
