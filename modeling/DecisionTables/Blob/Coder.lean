import DecisionTables.Blob.Bytes

/-!
# Coders

A coder writes values as bytes and reads them back from the front of a run of bytes.  Numbers take
one byte if they are small, and a mark with two, four or eight bytes otherwise; a longer form than
necessary is read as well.  Texts and lists come after their length, pairs and options after one
another without any framing.
-/

namespace DecisionTables.Blob

structure Coder (α : Type) where
  write : α → List UInt8
  /-- The value at the front and the bytes after it. -/
  read : List UInt8 → Option (α × List UInt8)

namespace Coder

variable {α β : Type}

def widthOf? (mark : UInt8) : Option Nat :=
  if mark = 251 then some 2 else if mark = 252 then some 4 else if mark = 253 then some 8 else none

def writeNatural (n : Nat) : List UInt8 :=
  if n < 251 then [UInt8.ofNat n]
  else if n < UInt16.size then 251 :: littleEndian 2 n
  else if n < UInt32.size then 252 :: littleEndian 4 n
  else 253 :: littleEndian 8 n

/-- Reads a number whose form has at most the given number of bytes after its mark. -/
def readNatural (widest : Nat) : List UInt8 → Option (Nat × List UInt8)
  | [] => none
  | first :: rest =>
    if first < 251 then some (first.toNat, rest)
    else
      match widthOf? first with
      | none => none
      | some width =>
        if width ≤ widest then
          (takeBytes? width rest).map fun (bytes, rest) => (ofLittleEndian bytes, rest)
        else none

/-- Numbers of at most sixty-four bits. -/
def natural : Coder Nat :=
  ⟨writeNatural, readNatural 8⟩

def map (coder : Coder α) (into : α → β) (back : β → α) : Coder β :=
  ⟨fun value => coder.write (back value),
    fun bytes => (coder.read bytes).map fun (value, rest) => (into value, rest)⟩

/-- Numbers from zero outwards take turns: 0, -1, 1, -2, 2. -/
def zigzag (n : Int) : Nat :=
  if 0 ≤ n then (2 * n).toNat else (-2 * n - 1).toNat

def unzigzag (n : Nat) : Int :=
  if n % 2 = 0 then (n / 2 : Nat) else -((n / 2 : Nat) : Int) - 1

def signed : Coder Int64 :=
  natural.map (fun n => Int64.ofInt (unzigzag n)) (fun n => zigzag n.toInt)

def pair (first : Coder α) (second : Coder β) : Coder (α × β) :=
  ⟨fun (a, b) => first.write a ++ second.write b,
    fun bytes =>
      (first.read bytes).bind fun (a, rest) =>
        (second.read rest).map fun (b, rest) => ((a, b), rest)⟩

def readMany (coder : Coder α) : Nat → List UInt8 → Option (List α × List UInt8)
  | 0, bytes => some ([], bytes)
  | count + 1, bytes =>
    match coder.read bytes with
    | none => none
    | some (value, rest) =>
      match readMany coder count rest with
      | none => none
      | some (values, rest) => some (value :: values, rest)

def list (coder : Coder α) : Coder (List α) :=
  ⟨fun values => natural.write values.length ++ values.flatMap coder.write,
    fun bytes => (natural.read bytes).bind fun (count, rest) => coder.readMany count rest⟩

def ofUtf8? (bytes : List UInt8) : Option String :=
  if h : bytes.toByteArray.IsValidUTF8 then some ⟨bytes.toByteArray, h⟩ else none

def utf8 (text : String) : List UInt8 :=
  text.toList.flatMap String.utf8EncodeChar

def text : Coder String :=
  ⟨fun text => natural.write (utf8 text).length ++ utf8 text,
    fun bytes =>
      (natural.read bytes).bind fun (count, rest) =>
        (takeBytes? count rest).bind fun (taken, rest) =>
          (ofUtf8? taken).map fun text => (text, rest)⟩

def truth : Coder Bool :=
  ⟨fun b => [if b then 1 else 0],
    fun bytes =>
      match bytes with
      | [] => none
      | first :: rest =>
        if first = 0 then some (false, rest) else if first = 1 then some (true, rest) else none⟩

def option (coder : Coder α) : Coder (Option α) :=
  ⟨fun value =>
      match value with
      | none => truth.write false
      | some value => truth.write true ++ coder.write value,
    fun bytes =>
      (truth.read bytes).bind fun (present, rest) =>
        if present then (coder.read rest).map fun (value, rest) => (some value, rest)
        else some (none, rest)⟩

/-- One of the listed values, by its position.  Positions have at most thirty-two bits. -/
def choice [BEq α] (values : List α) : Coder α :=
  ⟨fun value => writeNatural (values.idxOf value),
    fun bytes =>
      (readNatural 4 bytes).bind fun (position, rest) =>
        values[position]?.map fun value => (value, rest)⟩

end Coder

end DecisionTables.Blob
