import DecisionTables.Location
import DecisionTables.Proofs.Number.Reading

/-!
# Pointers identify nodes

A pointer is evaluated by the rules of RFC 6901.  The text is split at its slashes, and each token
leads on to a member of an object or to an item of an array.  As a key the token is unescaped, `~1`
before `~0`, and as a position it is a decimal without leading zeros.

The pointer of a location escapes tildes before slashes, so unescaping goes back the other way and
gives the key again.  A key and a position may have the same token, but no node has children of both
kinds.  So a token that leads on from a node is the token of one step only, and the pointers that
lead to a node of a document are the pointers of the locations that do, one for each.
-/

namespace DecisionTables

open Location (escapeKey stepToken)

namespace Pointer

/-- Every occurrence of a character replaced by a text. -/
def replaceChar (char : Char) (new cs : List Char) : List Char :=
  cs.flatMap fun c => if c = char then new else [c]

/-- Every occurrence of the two characters in a row replaced by one, from left to right. -/
def replacePair (first second new : Char) : List Char → List Char
  | [] => []
  | [c] => [c]
  | c :: d :: rest =>
    if c = first ∧ d = second then new :: replacePair first second new rest
    else c :: replacePair first second new (d :: rest)

def unescape (token : List Char) : List Char :=
  replacePair '~' '0' '~' (replacePair '~' '1' '/' token)

/-- A token holds no slash, and a tilde only before a zero or a one. -/
def isToken : List Char → Bool
  | [] => true
  | '~' :: c :: rest => (c == '0' || c == '1') && isToken rest
  | c :: rest => c != '~' && c != '/' && isToken rest

def index? (token : List Char) : Option Nat :=
  if token = ['0'] then some 0
  else if !token.isEmpty && token.head? != some '0' && token.all Char.isDigit then
    some (Nat.ofDigitChars 10 token 0)
  else none

/-- The tokens of a pointer, which stand behind one slash each. -/
def tokens? : List Char → Option (List (List Char))
  | [] => some []
  | c :: cs =>
    if c = '/' ∧ ∀ token ∈ cs.splitOn '/', isToken token = true then some (cs.splitOn '/')
    else none

/-- The child of a node that a token names, with the step to it. -/
def childAt? (token : List Char) : Json → Option (Step × Json)
  | .object members =>
    let name := String.ofList (unescape token)
    (Entries.get? name members).map (Prod.mk (.key name))
  | .array items =>
    (index? token).bind fun position => items[position]?.map (Prod.mk (.index position))
  | _ => none

def walk? : List (List Char) → Json → Option (List Step × Json)
  | [], node => some ([], node)
  | token :: rest, node =>
    (childAt? token node).bind fun (step, child) =>
      (walk? rest child).map fun (steps, found) => (step :: steps, found)

/-- The node that a pointer leads to, with its location. -/
def evaluate? (text : String) (document : Json) : Option (Location × Json) :=
  (tokens? text.toList).bind fun tokens =>
    (walk? tokens document).map fun (steps, found) => (⟨steps⟩, found)

/-! ## Escaped keys -/

theorem replaceChar_cons (char : Char) (new : List Char) (c : Char) (cs : List Char) :
    replaceChar char new (c :: cs) = (if c = char then new else [c]) ++ replaceChar char new cs :=
  rfl

theorem replacePair_cons_of_ne {first c : Char} (hc : c ≠ first) (second new : Char)
    (rest : List Char) :
    replacePair first second new (c :: rest) = c :: replacePair first second new rest := by
  cases rest with
  | nil => rfl
  | cons d rest => simp [replacePair, hc]

theorem replacePair_cons_of_head?_ne (first new : Char) {second : Char} {rest : List Char}
    (hrest : rest.head? ≠ some second) :
    replacePair first second new (first :: rest) = first :: replacePair first second new rest := by
  cases rest with
  | nil => rfl
  | cons d rest =>
      have hd : d ≠ second := by simpa using hrest
      simp [replacePair, hd]

theorem head?_replaceChar_ne {first second : Char} (hsecond : second ≠ first) (new : Char)
    {cs : List Char} (hcs : cs.head? ≠ some second) :
    (replaceChar new [first, second] cs).head? ≠ some second := by
  cases cs with
  | nil => exact hcs
  | cons c cs =>
      rw [replaceChar_cons]
      by_cases hnew : c = new
      · simpa [hnew] using Ne.symm hsecond
      · simpa [hnew] using hcs

/-- A pair takes back the replacement of a character, unless the pair was in the text before. -/
theorem replacePair_replaceChar {first second new : Char} (hsecond : second ≠ first)
    {cs : List Char} (hcs : new = first ∨ ¬ [first, second] <:+: cs) :
    replacePair first second new (replaceChar new [first, second] cs) = cs := by
  induction cs with
  | nil => rfl
  | cons c cs ih =>
      have hrest := ih (hcs.imp_right fun hnot hinfix => hnot (List.infix_cons hinfix))
      rw [replaceChar_cons]
      by_cases hnew : c = new
      · simp [hnew, replacePair, hrest]
      · rw [if_neg hnew, List.singleton_append]
        by_cases hfirst : c = first
        · -- What follows is not the second character, also where it has just been replaced.
          subst hfirst
          have hnot := hcs.resolve_left (Ne.symm hnew)
          have hnext : cs.head? ≠ some second := by
            intro hhead
            obtain ⟨tail, rfl⟩ := List.head?_eq_some_iff.mp hhead
            exact hnot ⟨[], tail, rfl⟩
          have hhead := head?_replaceChar_ne hsecond new hnext
          rw [replacePair_cons_of_head?_ne c new hhead, hrest]
        · rw [replacePair_cons_of_ne hfirst, hrest]

/-- Escaping replaces the tildes first, and then the slashes. -/
theorem escapeKey_eq (cs : List Char) :
    escapeKey cs = replaceChar '/' ['~', '1'] (replaceChar '~' ['~', '0'] cs) := by
  rw [escapeKey, replaceChar, replaceChar, List.flatMap_assoc]
  congr 1
  funext c
  by_cases htilde : c = '~'
  · simp [htilde]
  · simp [htilde]

theorem not_infix_replaceChar_tilde (cs : List Char) :
    ¬ ['~', '1'] <:+: replaceChar '~' ['~', '0'] cs := by
  induction cs with
  | nil => simp [replaceChar]
  | cons c cs ih =>
      rw [replaceChar_cons]
      by_cases htilde : c = '~'
      · simp [htilde, List.infix_cons_iff, ih]
      · simp [htilde, List.infix_cons_iff, Ne.symm htilde, ih]

theorem unescape_escapeKey (cs : List Char) : unescape (escapeKey cs) = cs := by
  have hslashes : replacePair '~' '1' '/'
      (replaceChar '/' ['~', '1'] (replaceChar '~' ['~', '0'] cs)) =
        replaceChar '~' ['~', '0'] cs :=
    replacePair_replaceChar (by decide) (.inr (not_infix_replaceChar_tilde cs))
  have htildes : replacePair '~' '0' '~' (replaceChar '~' ['~', '0'] cs) = cs :=
    replacePair_replaceChar (by decide) (.inl rfl)
  rw [escapeKey_eq, unescape, hslashes, htildes]

/-- With the replacements in the other order this would be a slash. -/
example : unescape ['~', '0', '1'] = ['~', '1'] := by decide

theorem unescape_tilde (rest : List Char) :
    unescape ('~' :: '0' :: rest) = '~' :: unescape rest := by
  have hzero : '0' ≠ '~' := by decide
  simp [unescape, replacePair, replacePair_cons_of_ne hzero]

theorem unescape_slash (rest : List Char) :
    unescape ('~' :: '1' :: rest) = '/' :: unescape rest := by
  have hslash : '/' ≠ '~' := by decide
  simp [unescape, replacePair, replacePair_cons_of_ne hslash]

theorem unescape_cons_of_ne {c : Char} (hc : c ≠ '~') (rest : List Char) :
    unescape (c :: rest) = c :: unescape rest := by
  rw [unescape, replacePair_cons_of_ne hc, replacePair_cons_of_ne hc, unescape]

theorem escapeKey_cons (c : Char) (cs : List Char) :
    escapeKey (c :: cs) =
      (if c = '~' then ['~', '0'] else if c = '/' then ['~', '1'] else [c]) ++ escapeKey cs :=
  rfl

theorem escapeKey_unescape {token : List Char} (htoken : isToken token = true) :
    escapeKey (unescape token) = token := by
  fun_induction isToken token with
  | case1 => rfl
  | case2 c rest ih =>
      obtain ⟨hmark, hrest⟩ := Bool.and_eq_true_iff.mp htoken
      have hc : c = '0' ∨ c = '1' := by simpa using hmark
      rcases hc with rfl | rfl
      · simp [unescape_tilde, escapeKey_cons, ih hrest]
      · simp [unescape_slash, escapeKey_cons, ih hrest]
  | case3 c rest _ ih =>
      simp only [Bool.and_eq_true, bne_iff_ne] at htoken
      obtain ⟨⟨htilde, hslash⟩, hrest⟩ := htoken
      simp [unescape_cons_of_ne htilde, escapeKey_cons, htilde, hslash, ih hrest]

/-! ## Tokens -/

theorem isToken_cons_of_ne {c : Char} (htilde : c ≠ '~') (hslash : c ≠ '/') (rest : List Char) :
    isToken (c :: rest) = isToken rest := by
  rw [isToken.eq_def]
  split <;> simp_all

theorem isToken_escapeKey (cs : List Char) : isToken (escapeKey cs) = true := by
  induction cs with
  | nil => rfl
  | cons c cs ih =>
      rw [escapeKey_cons]
      by_cases htilde : c = '~'
      · simp [htilde, isToken, ih]
      · by_cases hslash : c = '/'
        · simp [hslash, isToken, ih]
        · simp [htilde, hslash, isToken_cons_of_ne htilde hslash, ih]

theorem isToken_of_isDigit {token : List Char} (hdigits : ∀ c ∈ token, c.isDigit = true) :
    isToken token = true := by
  induction token with
  | nil => rfl
  | cons c rest ih =>
      have hc : c.isDigit = true := hdigits c List.mem_cons_self
      have htilde : c ≠ '~' := by
        rintro rfl
        contradiction
      have hslash : c ≠ '/' := by
        rintro rfl
        contradiction
      rw [isToken_cons_of_ne htilde hslash]
      exact ih fun d hd => hdigits d (List.mem_cons_of_mem c hd)

theorem isToken_stepToken (step : Step) : isToken (stepToken step) = true := by
  cases step with
  | key name => exact isToken_escapeKey name.toList
  | index position => exact isToken_of_isDigit fun c hc => isDigit_of_mem_toDigits hc

theorem slash_notMem_of_isToken {token : List Char} (htoken : isToken token = true) :
    '/' ∉ token := by
  rw [← escapeKey_unescape htoken]
  intro hslash
  obtain ⟨c, -, hmem⟩ := List.mem_flatMap.mp hslash
  split_ifs at hmem with htilde hc
  · simp at hmem
  · simp at hmem
  · exact hc (List.mem_singleton.mp hmem).symm

theorem index?_eq_some_iff {token : List Char} {position : Nat} :
    index? token = some position ↔ token = Nat.toDigits 10 position := by
  unfold index?
  constructor
  · intro hindex
    split_ifs at hindex with hzero hdecimal
    · cases hindex
      exact hzero
    · cases hindex
      simp only [Bool.and_eq_true, Bool.not_eq_true', List.isEmpty_eq_false_iff, bne_iff_ne,
        List.all_eq_true] at hdecimal
      obtain ⟨⟨hne, hhead⟩, hdigits⟩ := hdecimal
      exact (toDigits_ofDigitChars hdigits hne hhead).symm
  · rintro rfl
    by_cases hzero : position = 0
    · subst hzero
      rfl
    · have hhead := head?_toDigits_ne_zero hzero
      have hne : Nat.toDigits 10 position ≠ ['0'] := by
        intro hsingle
        simp [hsingle] at hhead
      have hdigits : ∀ c ∈ Nat.toDigits 10 position, c.isDigit = true :=
        fun c hc => isDigit_of_mem_toDigits hc
      rw [if_neg hne, if_pos (by simpa [hhead, Nat.toDigits_ne_nil] using hdigits),
        Nat.ofDigitChars_ten_toDigits]

theorem flatMap_cons_eq_intercalate {tokens : List (List Char)} (hne : tokens ≠ []) :
    (tokens.flatMap fun token => '/' :: token) = '/' :: List.intercalate ['/'] tokens := by
  induction tokens with
  | nil => exact absurd rfl hne
  | cons token rest ih =>
      cases rest with
      | nil => simp
      | cons next rest => simp_all [List.intercalate_cons_of_ne_nil]

theorem tokens?_eq_some_iff {cs : List Char} {tokens : List (List Char)} :
    tokens? cs = some tokens ↔
      cs = (tokens.flatMap fun token => '/' :: token) ∧
        ∀ token ∈ tokens, isToken token = true := by
  constructor
  · intro htokens
    cases cs with
    | nil =>
        obtain rfl : [] = tokens := by simpa [tokens?] using htokens
        simp
    | cons c cs =>
        simp only [tokens?] at htokens
        split_ifs at htokens with hpointer
        cases htokens
        obtain ⟨rfl, hall⟩ := hpointer
        refine ⟨?_, hall⟩
        rw [flatMap_cons_eq_intercalate (List.splitOn_ne_nil '/' cs), List.intercalate_splitOn]
  · rintro ⟨rfl, hall⟩
    by_cases hne : tokens = []
    · subst hne
      rfl
    · have hsplit := List.splitOn_intercalate '/'
        (fun token htoken => slash_notMem_of_isToken (hall token htoken)) hne
      rw [flatMap_cons_eq_intercalate hne, tokens?, hsplit, if_pos ⟨rfl, hall⟩]

/-! ## Evaluation -/

theorem ofList_unescape_eq_iff {token : List Char} {name : String}
    (htoken : isToken token = true) :
    String.ofList (unescape token) = name ↔ token = escapeKey name.toList := by
  constructor
  · rintro rfl
    rw [String.toList_ofList, escapeKey_unescape htoken]
  · rintro rfl
    rw [unescape_escapeKey, String.ofList_toList]

/-- A token leads from a node to a child just where it is the token of the step there. -/
theorem childAt?_eq_some_iff {token : List Char} {node child : Json} {step : Step}
    (htoken : isToken token = true) :
    childAt? token node = some (step, child) ↔
      token = stepToken step ∧ node.child? step = some child := by
  -- Keys lead on from objects only and positions from arrays only, so the node settles which of
  -- the steps with this token is meant.
  cases node with
  | object members =>
      constructor
      · intro hchild
        obtain ⟨found, hfound, heq⟩ := Option.map_eq_some_iff.mp hchild
        cases heq
        exact ⟨(ofList_unescape_eq_iff htoken).mp rfl, hfound⟩
      · rintro ⟨hstep, hchild⟩
        cases step with
        | key name =>
            have hname := (ofList_unescape_eq_iff htoken).mpr hstep
            have hget : Entries.get? name members = some child := hchild
            simp [childAt?, hname, hget]
        | index position => contradiction
  | array items =>
      constructor
      · intro hchild
        obtain ⟨position, hposition, hitem⟩ := Option.bind_eq_some_iff.mp hchild
        obtain ⟨found, hfound, heq⟩ := Option.map_eq_some_iff.mp hitem
        cases heq
        exact ⟨index?_eq_some_iff.mp hposition, hfound⟩
      · rintro ⟨hstep, hchild⟩
        cases step with
        | key name => contradiction
        | index position =>
            have hposition : index? token = some position := index?_eq_some_iff.mpr hstep
            have hitem : items[position]? = some child := hchild
            simp [childAt?, hposition, hitem]
  | _ => cases step <;> simp [childAt?, Json.child?, Json.get?, Json.item?]

theorem walk?_eq_some_iff {tokens : List (List Char)} {node found : Json} {steps : List Step}
    (htokens : ∀ token ∈ tokens, isToken token = true) :
    walk? tokens node = some (steps, found) ↔
      tokens = steps.map stepToken ∧ node.follow? steps = some found := by
  induction tokens generalizing node steps with
  | nil =>
      cases steps with
      | nil => simp [walk?, Json.follow?]
      | cons step steps => simp [walk?]
  | cons token rest ih =>
      have htoken := htokens token List.mem_cons_self
      have hrest := fun other hother => htokens other (List.mem_cons_of_mem token hother)
      constructor
      · intro hwalk
        obtain ⟨⟨step, child⟩, hchild, hbelow⟩ := Option.bind_eq_some_iff.mp hwalk
        obtain ⟨⟨more, descendant⟩, hmore, heq⟩ := Option.map_eq_some_iff.mp hbelow
        cases heq
        obtain ⟨rfl, hstep⟩ := (childAt?_eq_some_iff htoken).mp hchild
        obtain ⟨rfl, hfound⟩ := (ih hrest).mp hmore
        exact ⟨rfl, by simp [Json.follow?, hstep, hfound]⟩
      · rintro ⟨hsteps, hfound⟩
        cases steps with
        | nil => contradiction
        | cons step more =>
            obtain ⟨hstep, hmore⟩ := List.cons.inj hsteps
            obtain ⟨child, hchild, hbelow⟩ := Option.bind_eq_some_iff.mp hfound
            have hhead := (childAt?_eq_some_iff htoken).mpr ⟨hstep, hchild⟩
            have htail := (ih hrest).mpr ⟨hmore, hbelow⟩
            simp [walk?, hhead, htail]

theorem toList_pointer (location : Location) :
    location.pointer.toList =
      (location.steps.map stepToken).flatMap fun token => '/' :: token := by
  rw [Location.pointer, String.toList_ofList, List.flatMap_map]

/-- A pointer leads to a node just where it is the pointer of the location there. -/
theorem evaluate?_eq_some_iff {text : String} {document node : Json} {location : Location} :
    evaluate? text document = some (location, node) ↔
      text = location.pointer ∧ location.resolve? document = some node := by
  constructor
  · intro hevaluate
    obtain ⟨tokens, htokens, hwalked⟩ := Option.bind_eq_some_iff.mp hevaluate
    obtain ⟨⟨steps, found⟩, hwalk, heq⟩ := Option.map_eq_some_iff.mp hwalked
    cases heq
    obtain ⟨htext, hall⟩ := tokens?_eq_some_iff.mp htokens
    obtain ⟨rfl, hfound⟩ := (walk?_eq_some_iff hall).mp hwalk
    exact ⟨String.toList_injective (htext.trans (toList_pointer ⟨steps⟩).symm), hfound⟩
  · rintro ⟨rfl, hfound⟩
    have hall : ∀ token ∈ location.steps.map stepToken, isToken token = true := by
      intro token htoken
      obtain ⟨step, -, rfl⟩ := List.mem_map.mp htoken
      exact isToken_stepToken step
    have htokens := tokens?_eq_some_iff.mpr ⟨toList_pointer location, hall⟩
    have hwalk := (walk?_eq_some_iff hall).mpr ⟨rfl, hfound⟩
    simp [evaluate?, htokens, hwalk]

end Pointer

namespace Location

variable {document node : Json} {location : Location}

/--
The pointer of a location that leads to a node is evaluated to the location and the node, and other
locations that lead to nodes of the document have other pointers.
-/
theorem pointer_identifies_node (hnode : location.resolve? document = some node) :
    Pointer.evaluate? location.pointer document = some (location, node) ∧
      ∀ other : Location, (other.resolve? document).isSome → other ≠ location →
        other.pointer ≠ location.pointer := by
  have hevaluate := Pointer.evaluate?_eq_some_iff.mpr ⟨rfl, hnode⟩
  refine ⟨hevaluate, fun other hother hne hsame => hne ?_⟩
  obtain ⟨otherNode, hotherNode⟩ := Option.isSome_iff_exists.mp hother
  have hotherEvaluate := Pointer.evaluate?_eq_some_iff.mpr ⟨rfl, hotherNode⟩
  rw [hsame, hevaluate] at hotherEvaluate
  cases hotherEvaluate
  rfl

/-- Drawers, the second of which holds boxes under labels of all kinds. -/
def drawers : Json :=
  .array [.null, .object [("", .string "spare"), ("1", .array [.bool true]),
    ("a/b", .array []), ("~01", .string "screws"), ("~1", .string "nails")]]

theorem pointer_identifies_node_drawers :
    resolve? ⟨[.index 1, .key "~01"]⟩ drawers = some (.string "screws") ∧
      Pointer.evaluate? "/1/~001" drawers =
        some (⟨[.index 1, .key "~01"]⟩, .string "screws") ∧
      (resolve? ⟨[.index 1, .key "~1"]⟩ drawers).isSome ∧
      pointer ⟨[.index 1, .key "~1"]⟩ ≠ "/1/~001" := by
  have hpointer : pointer ⟨[.index 1, .key "~01"]⟩ = "/1/~001" := by decide
  have hnode : resolve? ⟨[.index 1, .key "~01"]⟩ drawers = some (.string "screws") := by cbv
  have hother : (resolve? ⟨[.index 1, .key "~1"]⟩ drawers).isSome := by cbv
  obtain ⟨hevaluate, hapart⟩ := pointer_identifies_node hnode
  rw [hpointer] at hevaluate hapart
  exact ⟨hnode, hevaluate, hother, hapart _ hother (by decide)⟩

end Location

end DecisionTables
