import DecisionTables.Path.Basic
import DecisionTables.Text.Basic

/-!
# Reading paths

After its root a path is a sequence of segments: `.name`, `.*`, `[3]`, `[*]`, `['key']` or
`["key"]`.  A name is a run of characters other than blanks and `. [ ] , ( ) ' "`; after a point a
star is always a wildcard.  An index is a decimal without leading zeros of at most thirty-two bits.
Once a point or an opening bracket has been read, the segment must be complete.
-/

namespace DecisionTables.Path

def rootOf? (c : Char) : Option Root :=
  if c = '$' then some .document
  else if c = '@' then some .row
  else none

def isNameChar (c : Char) : Bool :=
  !Text.isBlank c &&
    !(c == '.' || c == '[' || c == ']' || c == ',' || c == '(' || c == ')' || c == '\'' || c == '"')

def upTo? (mark : Char) (cs : List Char) : Option (List Char × List Char) :=
  match cs.dropWhile (· != mark) with
  | [] => none
  | _ :: rest => some (cs.takeWhile (· != mark), rest)

def index? (cs : List Char) : Option (Nat × List Char) :=
  match cs with
  | [] => none
  | c :: rest =>
    if c = '0' then some (0, rest)
    else
      let digits := cs.takeWhile Char.isDigit
      let value := Nat.ofDigitChars 10 digits 0
      if digits = [] ∨ 4294967295 < value then none
      else some (value, cs.dropWhile Char.isDigit)

def readBracketed (cs : List Char) : Except Stop (Segment × List Char) :=
  match cs with
  | '*' :: rest => .ok (.wildcard, rest)
  | '\'' :: rest =>
    match upTo? '\'' rest with
    | some (key, after) => .ok (.key (String.ofList key), after)
    | none => .error ⟨cs, .bracketed⟩
  | '"' :: rest =>
    match upTo? '"' rest with
    | some (key, after) => .ok (.key (String.ofList key), after)
    | none => .error ⟨[], .bracketed⟩
  | _ =>
    match index? cs with
    | some (position, after) => .ok (.index position, after)
    | none => .error ⟨cs, .bracketed⟩

def readMember (cs : List Char) : Except Stop (Segment × List Char) :=
  match cs with
  | '*' :: rest => .ok (.wildcard, rest)
  | _ =>
    let name := cs.takeWhile isNameChar
    if name = [] then .error ⟨cs, .member⟩
    else .ok (.key (String.ofList name), cs.dropWhile isNameChar)

/-- The segment after an opening bracket, with its closing bracket. -/
def readBracket (cs : List Char) : Except Stop (Segment × List Char) := do
  let (segment, rest) ← readBracketed cs
  match rest with
  | ']' :: after => .ok (segment, after)
  | _ => .error ⟨rest, .closingBracket⟩

theorem length_upTo?_lt {mark : Char} {cs key rest : List Char}
    (h : upTo? mark cs = some (key, rest)) : rest.length < cs.length := by
  unfold upTo? at h
  have hle := Text.length_dropWhile_le (· != mark) cs
  split at h
  · simp at h
  · rename_i hdrop
    simp only [Option.some.injEq, Prod.mk.injEq] at h
    rw [hdrop, h.2, List.length_cons] at hle
    omega

theorem length_index?_le {cs rest : List Char} {position : Nat}
    (h : index? cs = some (position, rest)) : rest.length ≤ cs.length := by
  unfold index? at h
  split at h
  · simp at h
  · split at h
    · simp only [Option.some.injEq, Prod.mk.injEq] at h
      simp [← h.2]
    · simp only at h
      split at h
      · simp at h
      · simp only [Option.some.injEq, Prod.mk.injEq] at h
        rw [← h.2]
        exact Text.length_dropWhile_le _ _

theorem length_readBracketed_le {cs rest : List Char} {segment : Segment}
    (h : readBracketed cs = .ok (segment, rest)) : rest.length ≤ cs.length := by
  unfold readBracketed at h
  split at h
  · simp only [Except.ok.injEq, Prod.mk.injEq] at h
    simp [← h.2]
  · split at h
    · rename_i hup
      simp only [Except.ok.injEq, Prod.mk.injEq] at h
      have := length_upTo?_lt hup
      rw [← h.2, List.length_cons]
      omega
    · simp at h
  · split at h
    · rename_i hup
      simp only [Except.ok.injEq, Prod.mk.injEq] at h
      have := length_upTo?_lt hup
      rw [← h.2, List.length_cons]
      omega
    · simp at h
  · split at h
    · rename_i hindex
      simp only [Except.ok.injEq, Prod.mk.injEq] at h
      rw [← h.2]
      exact length_index?_le hindex
    · simp at h

theorem length_readMember_le {cs rest : List Char} {segment : Segment}
    (h : readMember cs = .ok (segment, rest)) : rest.length ≤ cs.length := by
  unfold readMember at h
  split at h
  · simp only [Except.ok.injEq, Prod.mk.injEq] at h
    simp [← h.2]
  · simp only at h
    split at h
    · simp at h
    · simp only [Except.ok.injEq, Prod.mk.injEq] at h
      rw [← h.2]
      exact Text.length_dropWhile_le _ _

theorem length_readBracket_le {cs rest : List Char} {segment : Segment}
    (h : readBracket cs = .ok (segment, rest)) : rest.length ≤ cs.length := by
  unfold readBracket at h
  cases hread : readBracketed cs with
  | error stop => simp [hread, bind, Except.bind] at h
  | ok pair =>
    obtain ⟨inner, after⟩ := pair
    have hle := length_readBracketed_le hread
    simp only [hread, bind, Except.bind] at h
    split at h
    · simp only [Except.ok.injEq, Prod.mk.injEq] at h
      rw [← h.2]
      simp only [List.length_cons] at hle
      omega
    · simp at h

def readSegments (cs : List Char) : Except Stop (List Segment × List Char) :=
  match cs with
  | [] => .ok ([], [])
  | c :: rest =>
    if c = '.' then
      match h : readMember rest with
      | .error stop => .error stop
      | .ok (segment, after) =>
        have : after.length < rest.length + 1 := Nat.lt_succ_of_le (length_readMember_le h)
        (readSegments after).map fun (segments, last) => (segment :: segments, last)
    else if c = '[' then
      match h : readBracket rest with
      | .error stop => .error stop
      | .ok (segment, after) =>
        have : after.length < rest.length + 1 := Nat.lt_succ_of_le (length_readBracket_le h)
        (readSegments after).map fun (segments, last) => (segment :: segments, last)
    else .ok ([], c :: rest)
termination_by cs.length

theorem length_readSegments_le {cs rest : List Char} {segments : List Segment}
    (h : readSegments cs = .ok (segments, rest)) : rest.length ≤ cs.length := by
  induction hn : cs.length using Nat.strongRecOn generalizing cs segments with
  | ind n ih =>
    unfold readSegments at h
    split at h
    · simp_all
    · rename_i c tail
      rw [List.length_cons] at hn
      split at h
      · split at h
        · simp at h
        · rename_i segment after hread
          have hle := length_readMember_le hread
          cases hnext : readSegments after with
          | error stop => simp [hnext, Except.map] at h
          | ok pair =>
            simp only [hnext, Except.map, Except.ok.injEq, Prod.mk.injEq] at h
            have := ih after.length (by omega) (hnext.trans (by rw [← h.2])) rfl
            omega
      · split at h
        · split at h
          · simp at h
          · rename_i segment after hread
            have hle := length_readBracket_le hread
            cases hnext : readSegments after with
            | error stop => simp [hnext, Except.map] at h
            | ok pair =>
              simp only [hnext, Except.map, Except.ok.injEq, Prod.mk.injEq] at h
              have := ih after.length (by omega) (hnext.trans (by rw [← h.2])) rfl
              omega
        · simp only [Except.ok.injEq, Prod.mk.injEq] at h
          rw [← h.2, List.length_cons]
          omega

/-- The root and the segments that a whole trimmed text spells. -/
def readText (cs : List Char) : Except Stop (Root × List Segment) :=
  match cs with
  | [] => .error ⟨[], .root⟩
  | c :: rest =>
    match rootOf? c with
    | none => .error ⟨cs, .root⟩
    | some root =>
      match readSegments rest with
      | .error stop => .error stop
      | .ok (segments, []) => .ok (root, segments)
      | .ok (_, unread) => .error ⟨unread, .nothing⟩

/-- Reads a path.  Blanks around it carry no meaning. -/
def read (source : String) : Except SyntaxFault Path :=
  let text := Text.trim source.toList
  match readText text with
  | .ok (root, segments) => .ok ⟨String.ofList text, root, segments⟩
  | .error stop => .error ⟨text, stop⟩

/-- Reads a path, where a fault names the text that is no path. -/
def parse (source : String) : Except PathError Path :=
  match read source with
  | .ok path => .ok path
  | .error fault => .error (.invalid source fault)

end DecisionTables.Path
