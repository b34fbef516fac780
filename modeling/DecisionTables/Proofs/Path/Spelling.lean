import DecisionTables.Path.Reader
import DecisionTables.Proofs.Number.Reading

/-!
# The spelling of paths

A path is spelled by the mark of its root and a piece of text for every segment.  The pieces begin
with a point or a bracket, which is no part of a name, so a name is read to its end and no further.
Hence reading takes a text apart into its pieces in the one way there is, and whatever is read was
spelled.
-/

namespace DecisionTables.Path

def Root.mark : Root → Char
  | .document => '$'
  | .row => '@'

/-- The pieces of text that spell a segment. -/
inductive Segment.Spelled : List Char → Segment → Prop where
  | star : Spelled ['.', '*'] .wildcard
  | bracketedStar : Spelled ['[', '*', ']'] .wildcard
  | name {cs : List Char} (hne : cs ≠ []) (hstar : cs.head? ≠ some '*')
      (hblank : ∀ c ∈ cs, Text.isBlank c = false)
      (hmark : ∀ c ∈ cs, c ∉ ['.', '[', ']', ',', '(', ')', '\'', '"']) :
      Spelled ('.' :: cs) (.key (String.ofList cs))
  | quoted {quote : Char} {cs : List Char} (hquote : quote ∈ ['\'', '"']) (hcs : quote ∉ cs) :
      Spelled ('[' :: quote :: (cs ++ [quote, ']'])) (.key (String.ofList cs))
  | index {position : Nat} (hbound : position ≤ 4294967295) :
      Spelled ('[' :: (Nat.toDigits 10 position ++ [']'])) (.index position)

/-- The text is the mark of the root and the pieces of the segments, one after another. -/
def Spells (text : List Char) (root : Root) (segments : List Segment) : Prop :=
  ∃ pieces, List.Forall₂ Segment.Spelled pieces segments ∧ text = root.mark :: pieces.flatten

/-! ## Parts of a segment -/

theorem isNameChar_iff {c : Char} :
    isNameChar c = true ↔
      Text.isBlank c = false ∧ c ∉ ['.', '[', ']', ',', '(', ')', '\'', '"'] := by
  simp [isNameChar, and_assoc]

theorem upTo?_eq_some_iff {mark : Char} {cs key rest : List Char} :
    upTo? mark cs = some (key, rest) ↔ mark ∉ key ∧ cs = key ++ mark :: rest := by
  unfold upTo?
  constructor
  · intro hkey
    have hsplit := List.takeWhile_append_dropWhile (p := (· != mark)) (l := cs)
    split at hkey
    · contradiction
    · rename_i c after hafter
      have hmark : c = mark := by
        have hhead := List.head?_dropWhile_not (· != mark) cs
        simpa [hafter] using hhead
      cases hkey
      rw [hafter, hmark] at hsplit
      refine ⟨fun hmem => ?_, hsplit.symm⟩
      simpa using List.mem_takeWhile_imp hmem
  · rintro ⟨hkey, rfl⟩
    have hne : ∀ c ∈ key, (c != mark) = true := by
      intro c hc
      simp only [bne_iff_ne]
      rintro rfl
      exact hkey hc
    rw [List.dropWhile_append_of_pos hne, List.takeWhile_append_of_pos hne]
    simp

theorem index?_toDigits_append {position : Nat} (hbound : position ≤ 4294967295)
    {rest : List Char} (hrest : ∀ c ∈ rest.head?, c.isDigit = false) :
    index? (Nat.toDigits 10 position ++ rest) = some (position, rest) := by
  by_cases hzero : position = 0
  · subst hzero
    rfl
  · obtain ⟨htake, hdrop⟩ :=
      Text.takeWhile_dropWhile_append
        (fun c hc => isDigit_of_mem_toDigits (n := position) hc) hrest
    have hhead := head?_toDigits_ne_zero hzero
    have hvalue := Nat.ofDigitChars_ten_toDigits (n := position)
    rcases hdigits : Nat.toDigits 10 position with _ | ⟨c, digits⟩
    · exact absurd hdigits Nat.toDigits_ne_nil
    · rw [hdigits] at htake hdrop hhead hvalue
      have hc : c ≠ '0' := by simpa using hhead
      rw [List.cons_append] at htake hdrop ⊢
      simp only [index?, if_neg hc, htake, hdrop, hvalue]
      rw [if_neg (by simp [hbound])]

theorem eq_of_index? {cs rest : List Char} {position : Nat}
    (hindex : index? cs = some (position, rest)) :
    position ≤ 4294967295 ∧ cs = Nat.toDigits 10 position ++ rest := by
  unfold index? at hindex
  split at hindex
  · contradiction
  · rename_i c tail
    split_ifs at hindex with hc
    · cases hindex
      subst hc
      exact ⟨by decide, rfl⟩
    · simp only at hindex
      split_ifs at hindex with hinvalid
      obtain ⟨hne, hbound⟩ := not_or.mp hinvalid
      cases hindex
      have hfirst : (List.takeWhile Char.isDigit (c :: tail)).head? ≠ some '0' := by
        rw [List.head?_takeWhile]
        simp [Option.filter_eq_some_iff, hc]
      rw [toDigits_ofDigitChars (fun d hd => List.mem_takeWhile_imp hd) hne hfirst,
        List.takeWhile_append_dropWhile]
      exact ⟨Nat.le_of_not_lt hbound, rfl⟩

/-! ## Segments -/

theorem exists_of_readMember {cs after : List Char} {segment : Segment}
    (hread : readMember cs = .ok (segment, after)) :
    ∃ piece, Segment.Spelled piece segment ∧ '.' :: cs = piece ++ after := by
  unfold readMember at hread
  split at hread
  · cases hread
    exact ⟨_, .star, rfl⟩
  · rename_i hstar
    simp only at hread
    split_ifs at hread with hne
    cases hread
    have hname : ∀ c ∈ cs.takeWhile isNameChar, isNameChar c = true := fun c hc =>
      List.mem_takeWhile_imp hc
    have hfirst : (cs.takeWhile isNameChar).head? ≠ some '*' := by
      rw [List.head?_takeWhile]
      rcases cs with _ | ⟨c, rest⟩
      · simp
      · have hc : c ≠ '*' := fun hc => hstar rest (by rw [hc])
        simp [Option.filter_eq_some_iff, hc]
    refine ⟨_, .name hne hfirst (fun c hc => (isNameChar_iff.mp (hname c hc)).1)
      (fun c hc => (isNameChar_iff.mp (hname c hc)).2), ?_⟩
    rw [List.cons_append, List.takeWhile_append_dropWhile]

theorem exists_of_readBracketed {cs after : List Char} {segment : Segment}
    (hread : readBracketed cs = .ok (segment, ']' :: after)) :
    ∃ piece, Segment.Spelled piece segment ∧ '[' :: cs = piece ++ after := by
  have hquoted : ∀ {quote : Char} {key rest : List Char}, quote ∈ ['\'', '"'] →
      upTo? quote rest = some (key, ']' :: after) →
      ∃ piece, Segment.Spelled piece (.key (String.ofList key)) ∧
        '[' :: quote :: rest = piece ++ after := by
    intro quote key rest hquote hkey
    obtain ⟨hmark, rfl⟩ := upTo?_eq_some_iff.mp hkey
    exact ⟨_, .quoted hquote hmark, by simp⟩
  unfold readBracketed at hread
  split at hread
  · cases hread
    exact ⟨_, .bracketedStar, rfl⟩
  · split at hread
    · rename_i hkey
      cases hread
      exact hquoted (by decide) hkey
    · contradiction
  · split at hread
    · rename_i hkey
      cases hread
      exact hquoted (by decide) hkey
    · contradiction
  · split at hread
    · rename_i hindex
      cases hread
      obtain ⟨hbound, rfl⟩ := eq_of_index? hindex
      exact ⟨_, .index hbound, by simp⟩
    · contradiction

theorem exists_of_readBracket {cs after : List Char} {segment : Segment}
    (hread : readBracket cs = .ok (segment, after)) :
    ∃ piece, Segment.Spelled piece segment ∧ '[' :: cs = piece ++ after := by
  unfold readBracket at hread
  cases hinner : readBracketed cs with
  | error stop => simp [hinner, bind, Except.bind] at hread
  | ok pair =>
      obtain ⟨inner, rest⟩ := pair
      simp only [hinner, bind, Except.bind] at hread
      split at hread
      · cases hread
        exact exists_of_readBracketed hinner
      · contradiction

theorem readMember_name {name rest : List Char} (hne : name ≠ []) (hstar : name.head? ≠ some '*')
    (hname : ∀ c ∈ name, isNameChar c = true) (hrest : ∀ c ∈ rest.head?, isNameChar c = false) :
    readMember (name ++ rest) = .ok (.key (String.ofList name), rest) := by
  obtain ⟨htake, hdrop⟩ := Text.takeWhile_dropWhile_append hname hrest
  unfold readMember
  split
  · rename_i heq
    obtain ⟨c, tail, rfl⟩ := List.exists_cons_of_ne_nil hne
    cases heq
    exact absurd rfl hstar
  · simp only [htake, hdrop, if_neg hne]

theorem readBracketed_quoted {quote : Char} {key : List Char} (hquote : quote ∈ ['\'', '"'])
    (hkey : quote ∉ key) (rest : List Char) :
    readBracketed (quote :: (key ++ quote :: rest)) = .ok (.key (String.ofList key), rest) := by
  have hread : upTo? quote (key ++ quote :: rest) = some (key, rest) :=
    upTo?_eq_some_iff.mpr ⟨hkey, rfl⟩
  simp only [List.mem_cons, List.not_mem_nil, or_false] at hquote
  rcases hquote with rfl | rfl <;> simp [readBracketed, hread]

theorem readBracketed_index {position : Nat} (hbound : position ≤ 4294967295) (rest : List Char) :
    readBracketed (Nat.toDigits 10 position ++ ']' :: rest) =
      .ok (.index position, ']' :: rest) := by
  have hread : index? (Nat.toDigits 10 position ++ ']' :: rest) = some (position, ']' :: rest) :=
    index?_toDigits_append hbound (by simp)
  obtain ⟨c, digits, hdigits⟩ :=
    List.exists_cons_of_ne_nil (Nat.toDigits_ne_nil (n := position) (b := 10))
  have hc : c.isDigit = true := isDigit_of_mem_toDigits (n := position) (by simp [hdigits])
  rw [hdigits, List.cons_append] at hread ⊢
  unfold readBracketed
  split
  · rename_i heq; cases heq; contradiction
  · rename_i heq; cases heq; contradiction
  · rename_i heq; cases heq; contradiction
  · rw [hread]

/-! ## Sequences of segments -/

/-- The segments from one that was read on. -/
def readOn (read : Segment × List Char) : Except Stop (List Segment × List Char) :=
  (readSegments read.2).map fun (segments, last) => (read.1 :: segments, last)

theorem readSegments_cons (c : Char) (cs : List Char) :
    readSegments (c :: cs) =
      if c = '.' then (readMember cs).bind readOn
      else if c = '[' then (readBracket cs).bind readOn
      else .ok ([], c :: cs) := by
  rw [readSegments]
  split_ifs
  · split <;> simp_all [Except.bind, readOn]
  · split <;> simp_all [Except.bind, readOn]
  · rfl

theorem exists_of_readOn {read : Except Stop (Segment × List Char)} {segments : List Segment}
    {rest : List Char} (hread : read.bind readOn = .ok (segments, rest)) :
    ∃ segment after following, read = .ok (segment, after) ∧
      readSegments after = .ok (following, rest) ∧ segments = segment :: following := by
  rcases read with stop | ⟨segment, after⟩
  · contradiction
  · simp only [Except.bind, readOn] at hread
    rcases hafter : readSegments after with stop | ⟨following, last⟩
    · rw [hafter] at hread
      contradiction
    · rw [hafter] at hread
      cases hread
      exact ⟨segment, after, following, rfl, hafter, rfl⟩

/-- A segment is read to the end of its piece and no further. -/
theorem Segment.Spelled.read {piece rest : List Char} {segment : Segment}
    (hspelled : Spelled piece segment) (hrest : ∀ c ∈ rest.head?, isNameChar c = false) :
    (∃ cs, piece = '.' :: cs ∧ readMember (cs ++ rest) = .ok (segment, rest)) ∨
      ∃ cs, piece = '[' :: cs ∧ readBracket (cs ++ rest) = .ok (segment, rest) := by
  cases hspelled with
  | star => exact .inl ⟨_, rfl, rfl⟩
  | bracketedStar => exact .inr ⟨_, rfl, rfl⟩
  | name hne hstar hblank hmark =>
      refine .inl ⟨_, rfl, readMember_name hne hstar ?_ hrest⟩
      exact fun c hc => isNameChar_iff.mpr ⟨hblank c hc, hmark c hc⟩
  | quoted hquote hcs =>
      refine .inr ⟨_, rfl, ?_⟩
      rw [List.cons_append, List.append_assoc]
      simp [readBracket, readBracketed_quoted hquote hcs, bind, Except.bind]
  | index hbound =>
      refine .inr ⟨_, rfl, ?_⟩
      rw [List.append_assoc]
      simp [readBracket, readBracketed_index hbound, bind, Except.bind]

theorem readSegments_append {piece rest : List Char} {segment : Segment}
    (hspelled : Segment.Spelled piece segment) (hrest : ∀ c ∈ rest.head?, isNameChar c = false) :
    readSegments (piece ++ rest) = readOn (segment, rest) := by
  rcases hspelled.read hrest with ⟨cs, rfl, hread⟩ | ⟨cs, rfl, hread⟩
  · rw [List.cons_append, readSegments_cons, if_pos rfl, hread, Except.bind]
  · rw [List.cons_append, readSegments_cons, if_neg (by decide), if_pos rfl, hread, Except.bind]

/-- Of two pieces that a text begins with, none goes on where the other has ended. -/
theorem Segment.Spelled.rest_eq {piece rest other otherRest : List Char}
    {segment otherSegment : Segment} (hspelled : Spelled piece segment)
    (hrest : ∀ c ∈ rest.head?, isNameChar c = false) (hother : Spelled other otherSegment)
    (hotherRest : ∀ c ∈ otherRest.head?, isNameChar c = false)
    (hsame : piece ++ rest = other ++ otherRest) : segment = otherSegment ∧ rest = otherRest := by
  rcases hspelled.read hrest with ⟨cs, rfl, hread⟩ | ⟨cs, rfl, hread⟩ <;>
    rcases hother.read hotherRest with ⟨ds, rfl, hagain⟩ | ⟨ds, rfl, hagain⟩
  · have htail : cs ++ rest = ds ++ otherRest := (List.cons.inj hsame).2
    rw [htail, hagain] at hread
    cases hread
    exact ⟨rfl, rfl⟩
  · simp at hsame
  · simp at hsame
  · have htail : cs ++ rest = ds ++ otherRest := (List.cons.inj hsame).2
    rw [htail, hagain] at hread
    cases hread
    exact ⟨rfl, rfl⟩

/-- What was read is nothing, or a segment spelled where the reading began and what follows it. -/
theorem exists_of_readSegments {cs rest : List Char} {segments : List Segment}
    (hread : readSegments cs = .ok (segments, rest)) :
    segments = [] ∧ cs = rest ∨
      ∃ segment following piece after, segments = segment :: following ∧
        Segment.Spelled piece segment ∧ cs = piece ++ after ∧
        readSegments after = .ok (following, rest) := by
  cases cs with
  | nil =>
      rw [readSegments] at hread
      cases hread
      exact .inl ⟨rfl, rfl⟩
  | cons c cs =>
      rw [readSegments_cons] at hread
      split_ifs at hread with hpoint hbracket
      · obtain ⟨segment, after, following, hmember, hafter, rfl⟩ := exists_of_readOn hread
        obtain ⟨piece, hspelled, hcs⟩ := exists_of_readMember hmember
        exact .inr ⟨segment, following, piece, after, rfl, hspelled, hpoint ▸ hcs, hafter⟩
      · obtain ⟨segment, after, following, hinner, hafter, rfl⟩ := exists_of_readOn hread
        obtain ⟨piece, hspelled, hcs⟩ := exists_of_readBracket hinner
        exact .inr ⟨segment, following, piece, after, rfl, hspelled, hbracket ▸ hcs, hafter⟩
      · cases hread
        exact .inl ⟨rfl, rfl⟩

theorem Segment.Spelled.head?_append {piece : List Char} {segment : Segment}
    (hspelled : Segment.Spelled piece segment) (rest : List Char) :
    (piece ++ rest).head? = some '.' ∨ (piece ++ rest).head? = some '[' := by
  cases hspelled <;> simp

theorem Segment.Spelled.append_ne_nil {piece : List Char} {segment : Segment}
    (hspelled : Segment.Spelled piece segment) (rest : List Char) : piece ++ rest ≠ [] := by
  intro hnil
  have hhead := hspelled.head?_append rest
  simp [hnil] at hhead

theorem isNameChar_head?_flatten {pieces : List (List Char)} {segments : List Segment}
    (hspelled : List.Forall₂ Segment.Spelled pieces segments) {rest : List Char}
    (hrest : ∀ c ∈ rest.head?, isNameChar c = false) :
    ∀ c ∈ (pieces.flatten ++ rest).head?, isNameChar c = false := by
  cases hspelled with
  | nil => exact hrest
  | cons hfirst hfollowing =>
      intro c hc
      rw [List.flatten_cons, List.append_assoc] at hc
      rcases hfirst.head?_append _ with hhead | hhead <;>
        (rw [hhead] at hc; cases hc; rfl)

/-- A text that goes on behind the segments with neither a name nor another segment. -/
def EndsSegments (rest : List Char) : Prop :=
  (∀ c ∈ rest.head?, isNameChar c = false) ∧ readSegments rest = .ok ([], rest)

theorem endsSegments_nil : EndsSegments [] :=
  ⟨by simp, by rw [readSegments]⟩

theorem readSegments_flatten_append {pieces : List (List Char)} {segments : List Segment}
    (hspelled : List.Forall₂ Segment.Spelled pieces segments) {rest : List Char}
    (hrest : EndsSegments rest) : readSegments (pieces.flatten ++ rest) = .ok (segments, rest) := by
  induction hspelled with
  | nil => exact hrest.2
  | cons hfirst hfollowing ih =>
      have hhead := isNameChar_head?_flatten hfollowing hrest.1
      rw [List.flatten_cons, List.append_assoc, readSegments_append hfirst hhead, readOn, ih]
      rfl

theorem readSegments_flatten {pieces : List (List Char)} {segments : List Segment}
    (hspelled : List.Forall₂ Segment.Spelled pieces segments) :
    readSegments pieces.flatten = .ok (segments, []) := by
  have hread := readSegments_flatten_append hspelled endsSegments_nil
  rwa [List.append_nil] at hread

/-- A text is read to its end exactly where it is the pieces of the segments. -/
theorem readSegments_eq_ok_iff {cs : List Char} {segments : List Segment} :
    readSegments cs = .ok (segments, []) ↔
      ∃ pieces, List.Forall₂ Segment.Spelled pieces segments ∧ cs = pieces.flatten := by
  constructor
  · intro hread
    induction segments generalizing cs with
    | nil =>
        rcases exists_of_readSegments hread with ⟨-, rfl⟩ | ⟨_, _, _, _, hcons, -⟩
        · exact ⟨[], .nil, rfl⟩
        · contradiction
    | cons segment segments ih =>
        rcases exists_of_readSegments hread with ⟨hnil, -⟩ |
          ⟨first, following, piece, after, hcons, hfirst, rfl, hafter⟩
        · contradiction
        · cases hcons
          obtain ⟨pieces, hfollowing, rfl⟩ := ih hafter
          exact ⟨piece :: pieces, .cons hfirst hfollowing, rfl⟩
  · rintro ⟨pieces, hspelled, rfl⟩
    exact readSegments_flatten hspelled

theorem eq_of_flatten_eq {pieces others : List (List Char)} {segments otherSegments : List Segment}
    (hspelled : List.Forall₂ Segment.Spelled pieces segments)
    (hother : List.Forall₂ Segment.Spelled others otherSegments)
    (hsame : pieces.flatten = others.flatten) : pieces = others ∧ segments = otherSegments := by
  induction hspelled generalizing others otherSegments with
  | nil =>
      cases hother with
      | nil => exact ⟨rfl, rfl⟩
      | cons hfirst hfollowing => exact absurd hsame.symm (hfirst.append_ne_nil _)
  | cons hfirst hfollowing ih =>
      cases hother with
      | nil => exact absurd hsame (hfirst.append_ne_nil _)
      | cons hotherFirst hotherFollowing =>
          have hhead := isNameChar_head?_flatten hfollowing endsSegments_nil.1
          have hotherHead := isNameChar_head?_flatten hotherFollowing endsSegments_nil.1
          rw [List.append_nil] at hhead hotherHead
          rw [List.flatten_cons, List.flatten_cons] at hsame
          obtain ⟨rfl, hrest⟩ := hfirst.rest_eq hhead hotherFirst hotherHead hsame
          obtain ⟨rfl, rfl⟩ := ih hotherFollowing hrest
          exact ⟨by rw [List.append_cancel_right hsame], rfl⟩

/-! ## Whole texts -/

theorem rootOf?_eq_some_iff {c : Char} {root : Root} : rootOf? c = some root ↔ c = root.mark := by
  unfold rootOf?
  cases root <;> split_ifs <;> simp_all [Root.mark]

theorem readText_eq_ok_iff {cs : List Char} {root : Root} {segments : List Segment} :
    readText cs = .ok (root, segments) ↔ Spells cs root segments := by
  unfold Spells
  constructor
  · intro hread
    unfold readText at hread
    split at hread
    · contradiction
    · split at hread
      · contradiction
      · rename_i hroot
        split at hread
        · contradiction
        · rename_i hsegments
          cases hread
          obtain ⟨pieces, hspelled, rfl⟩ := readSegments_eq_ok_iff.mp hsegments
          exact ⟨pieces, hspelled, by rw [rootOf?_eq_some_iff.mp hroot]⟩
        · contradiction
  · rintro ⟨pieces, hspelled, rfl⟩
    have hroot : rootOf? root.mark = some root := rootOf?_eq_some_iff.mpr rfl
    simp [readText, hroot, readSegments_flatten hspelled]

theorem parse_eq_ok_iff {source : String} {path : Path} :
    parse source = .ok path ↔
      path.source = String.ofList (Text.trim source.toList) ∧
        Spells (Text.trim source.toList) path.root path.segments := by
  rw [← readText_eq_ok_iff]
  obtain ⟨text, root, segments⟩ := path
  simp only [parse, read]
  cases readText (Text.trim source.toList) with
  | error stop => simp
  | ok pair => simp [Prod.ext_iff, eq_comm]

theorem Segment.Spelled.isBlank_getLast? {piece : List Char} {segment : Segment}
    (hspelled : Spelled piece segment) : ∀ c ∈ piece.getLast?, Text.isBlank c = false := by
  have hclosing : ∀ cs : List Char, ∀ c ∈ (cs ++ [']']).getLast?, Text.isBlank c = false := by
    intro cs c hc
    rw [List.getLast?_append] at hc
    cases hc
    rfl
  cases hspelled with
  | star => exact fun c hc => by cases hc; rfl
  | bracketedStar => exact hclosing ['[', '*']
  | name hne hstar hblank hmark =>
      intro c hc
      rw [List.getLast?_cons_of_ne_nil hne] at hc
      exact hblank c (List.mem_of_getLast? hc)
  | @quoted quote cs hquote hcs =>
      have hsplit : '[' :: quote :: (cs ++ [quote, ']']) =
          '[' :: quote :: (cs ++ [quote]) ++ [']'] := by simp
      rw [hsplit]
      exact hclosing _
  | index hbound => exact hclosing ('[' :: _)

theorem Spells.isBlank_getLast? {cs : List Char} {root : Root} {segments : List Segment}
    (hspells : Spells cs root segments) : ∀ c ∈ cs.getLast?, Text.isBlank c = false := by
  obtain ⟨pieces, hspelled, rfl⟩ := hspells
  have hmark : Text.isBlank root.mark = false := by cases root <;> rfl
  have hpieces : ∀ c ∈ pieces.flatten.getLast?, Text.isBlank c = false := by
    induction hspelled with
    | nil => simp
    | cons hfirst hfollowing ih =>
        intro c hc
        rw [List.flatten_cons, List.getLast?_append, Option.mem_def, Option.or_eq_some_iff] at hc
        rcases hc with hc | ⟨-, hc⟩
        · exact ih c hc
        · exact hfirst.isBlank_getLast? c hc
  intro c hc
  rw [← List.singleton_append, List.getLast?_append, Option.mem_def, Option.or_eq_some_iff] at hc
  rcases hc with hc | ⟨-, hc⟩
  · exact hpieces c hc
  · cases hc
    exact hmark

/-- A spelled text has no blank at its ends, so whatever blanks stand around it are trimmed. -/
theorem Spells.trim_append {cs before after : List Char} {root : Root} {segments : List Segment}
    (hspells : Spells cs root segments) (hbefore : Text.IsBlankText before)
    (hafter : Text.IsBlankText after) : Text.trim (before ++ (cs ++ after)) = cs := by
  have hlast := hspells.isBlank_getLast?
  obtain ⟨pieces, hspelled, rfl⟩ := hspells
  refine Text.trim_append_blanks hbefore hafter (List.cons_ne_nil _ _) ?_ ?_
  · cases root <;> rfl
  · exact hlast _ (List.getLast?_eq_some_getLast _)

theorem isOk_parse_iff {source : String} :
    (parse source).isOk = true ↔
      ∃ root segments, Spells (Text.trim source.toList) root segments := by
  constructor
  · intro hok
    cases hparse : parse source with
    | error fault => simp [hparse, Except.isOk, Except.toBool] at hok
    | ok path => exact ⟨path.root, path.segments, (parse_eq_ok_iff.mp hparse).2⟩
  · rintro ⟨root, segments, hspells⟩
    have hparse : parse source = .ok ⟨String.ofList (Text.trim source.toList), root, segments⟩ :=
      parse_eq_ok_iff.mpr ⟨rfl, hspells⟩
    rw [hparse]
    rfl

/-- The texts that are read are the spelled ones with blanks around them, no text is spelled in two
ways, and every spelling is read back to what it spells. -/
theorem parse_exact :
    (∀ source : String,
      ((parse source).isOk = true ↔
        ∃ root segments, Spells (Text.trim source.toList) root segments) ∧
      ∀ path, parse source = .ok path ↔
        path.source = String.ofList (Text.trim source.toList) ∧
          Spells (Text.trim source.toList) path.root path.segments) ∧
    (∀ (root otherRoot : Root) pieces others segments otherSegments,
      List.Forall₂ Segment.Spelled pieces segments →
      List.Forall₂ Segment.Spelled others otherSegments →
      root.mark :: pieces.flatten = otherRoot.mark :: others.flatten →
      root = otherRoot ∧ pieces = others ∧ segments = otherSegments) ∧
    ∀ before text after root segments, Text.IsBlankText before → Spells text root segments →
      Text.IsBlankText after →
      parse (String.ofList (before ++ (text ++ after))) =
        .ok ⟨String.ofList text, root, segments⟩ := by
  refine ⟨fun source => ⟨isOk_parse_iff, fun path => parse_eq_ok_iff⟩, ?_, ?_⟩
  · intro root otherRoot pieces others segments otherSegments hspelled hother hsame
    obtain ⟨hmark, hflatten⟩ := List.cons.inj hsame
    refine ⟨?_, eq_of_flatten_eq hspelled hother hflatten⟩
    exact Option.some.inj
      ((rootOf?_eq_some_iff.mpr hmark).symm.trans (rootOf?_eq_some_iff.mpr rfl)).symm
  · intro before text after root segments hbefore hspells hafter
    rw [parse_eq_ok_iff, String.toList_ofList, hspells.trim_append hbefore hafter]
    exact ⟨rfl, hspells⟩

def prices : Path where
  source := "@.lines[0]['unit price'].*[\"it's\"][*]"
  root := .row
  segments := [.key "lines", .index 0, .key "unit price", .wildcard, .key "it's", .wildcard]

theorem spells_prices : Spells prices.source.toList prices.root prices.segments := by
  refine ⟨[".lines".toList, "[0]".toList, "['unit price']".toList, ".*".toList,
    "[\"it's\"]".toList, "[*]".toList], ?_, by decide⟩
  have hkey : Segment.Spelled "['unit price']".toList (.key "unit price") :=
    @Segment.Spelled.quoted '\'' "unit price".toList (by decide) (by decide)
  have hquoted : Segment.Spelled "[\"it's\"]".toList (.key "it's") :=
    @Segment.Spelled.quoted '"' "it's".toList (by decide) (by decide)
  have hindex : Segment.Spelled "[0]".toList (.index 0) :=
    @Segment.Spelled.index 0 (by decide)
  have hletters : ∀ c ∈ "lines".toList, isNameChar c = true := List.all_eq_true.mp (by decide)
  have hname : Segment.Spelled ".lines".toList (.key "lines") :=
    @Segment.Spelled.name "lines".toList (by decide) (by decide)
      (fun c hc => (isNameChar_iff.mp (hletters c hc)).1)
      (fun c hc => (isNameChar_iff.mp (hletters c hc)).2)
  have hlast := List.Forall₂.cons hquoted (.cons .bracketedStar .nil)
  exact .cons hname (.cons hindex (.cons hkey (.cons .star hlast)))

theorem parse_exact_prices :
    Spells prices.source.toList prices.root prices.segments ∧
      parse (String.ofList (" ".toList ++ (prices.source.toList ++ "\n".toList))) = .ok prices := by
  obtain ⟨-, -, hspelling⟩ := parse_exact
  refine ⟨spells_prices, ?_⟩
  exact hspelling _ _ _ _ _ (by decide) spells_prices (by decide)

example : (parse "$[01]").isOk = false := by
  cbv

end DecisionTables.Path
