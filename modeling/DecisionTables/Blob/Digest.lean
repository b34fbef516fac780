import DecisionTables.Blob.Bytes

/-!
# BLAKE3 digests

The unkeyed BLAKE3 hash of a run of bytes.  The bytes are split into chunks of 1024, each hashed
block by block, and the chunks are joined pairwise in a binary tree, in which a left subtree is
always complete.  The last compression, at the root, gives the digest.
-/

namespace DecisionTables.Blob

namespace Digest

/-- Eight words that carry the hash of one part of the input to the next. -/
abbrev Chaining :=
  Vector UInt32 8

abbrev Words :=
  Vector UInt32 16

def initialChaining : Chaining :=
  #v[0x6A09E667, 0xBB67AE85, 0x3C6EF372, 0xA54FF53A, 0x510E527F, 0x9B05688C, 0x1F83D9AB, 0x5BE0CD19]

def chunkStart : UInt32 := 1

def chunkEnd : UInt32 := 2

def parent : UInt32 := 4

def root : UInt32 := 8

def rotateRight (word count : UInt32) : UInt32 :=
  (word >>> count) ||| (word <<< (32 - count))

/-- Mixes two message words into the four words of a column or of a diagonal. -/
def mix (state : Words) (a b c d : Fin 16) (x y : UInt32) : Words :=
  let wa := state[a] + state[b] + x
  let wd := rotateRight (state[d] ^^^ wa) 16
  let wc := state[c] + wd
  let wb := rotateRight (state[b] ^^^ wc) 12
  let wa := wa + wb + y
  let wd := rotateRight (wd ^^^ wa) 8
  let wc := wc + wd
  let wb := rotateRight (wb ^^^ wc) 7
  (((state.set a wa).set b wb).set c wc).set d wd

/-- The words of the columns, and then those of the diagonals, that one round mixes. -/
def round (state message : Words) : Words :=
  let state := mix state 0 4 8 12 message[0] message[1]
  let state := mix state 1 5 9 13 message[2] message[3]
  let state := mix state 2 6 10 14 message[4] message[5]
  let state := mix state 3 7 11 15 message[6] message[7]
  let state := mix state 0 5 10 15 message[8] message[9]
  let state := mix state 1 6 11 12 message[10] message[11]
  let state := mix state 2 7 8 13 message[12] message[13]
  mix state 3 4 9 14 message[14] message[15]

/-- The order in which a round takes the message words of the round before it. -/
def schedule : Vector (Fin 16) 16 :=
  #v[2, 6, 3, 10, 7, 0, 4, 13, 1, 11, 12, 5, 9, 14, 15, 8]

def permute (message : Words) : Words :=
  schedule.map fun position => message[position]

def rounds : Nat → Words → Words → Words
  | 0, state, _ => state
  | count + 1, state, message => rounds count (round state message) (permute message)

/-- One compression that is still to be done, as an inner step or as the last one. -/
structure Node where
  chaining : Chaining
  block : Words
  counter : Nat
  length : Nat
  flags : UInt32

namespace Node

def compress (node : Node) (counter : Nat) (flags : UInt32) : Chaining :=
  let tail : Vector UInt32 4 :=
    #v[UInt32.ofNat counter, UInt32.ofNat (counter >>> 32), UInt32.ofNat node.length, flags]
  let state : Words := node.chaining ++ (initialChaining.take 4 ++ tail)
  let mixed := rounds 7 state node.block
  Vector.ofFn fun i => mixed[i.val] ^^^ mixed[i.val + 8]

def value (node : Node) : Chaining :=
  node.compress node.counter node.flags

def hash (node : Node) : Chaining :=
  node.compress 0 (node.flags ||| root)

end Node

def blockWords (bytes : List UInt8) : Words :=
  let padded := (bytes ++ List.replicate (64 - bytes.length) 0).toArray
  Vector.ofFn fun i =>
    UInt32.ofNat (ofLittleEndian
      [padded.getD (4 * i.val) 0, padded.getD (4 * i.val + 1) 0, padded.getD (4 * i.val + 2) 0,
        padded.getD (4 * i.val + 3) 0])

/-- The last compression of a chunk, which has the given number of further blocks at most. -/
def chunkNode (counter : Nat) : Nat → Chaining → UInt32 → List UInt8 → Node
  | 0, chaining, flags, bytes =>
    ⟨chaining, blockWords bytes, counter, bytes.length, flags ||| chunkEnd⟩
  | more + 1, chaining, flags, bytes =>
    if bytes.length ≤ 64 then
      ⟨chaining, blockWords bytes, counter, bytes.length, flags ||| chunkEnd⟩
    else
      let node : Node := ⟨chaining, blockWords (bytes.take 64), counter, 64, flags⟩
      chunkNode counter more node.value 0 (bytes.drop 64)

def parentNode (left right : Chaining) : Node :=
  ⟨initialChaining, (left ++ right).cast rfl, 0, 64, parent⟩

/-- The last compression of a tree of at most `2 ^ levels` chunks. -/
def treeNode : Nat → Nat → List UInt8 → Node
  | 0, counter, bytes => chunkNode counter 15 initialChaining chunkStart bytes
  | levels + 1, counter, bytes =>
    let half := 1 <<< levels
    if bytes.length ≤ half * 1024 then treeNode levels counter bytes
    else
      parentNode (treeNode levels counter (bytes.take (half * 1024))).value
        (treeNode levels (counter + half) (bytes.drop (half * 1024))).value

end Digest

/-- The first sixteen bytes of the BLAKE3 hash. -/
def digest (bytes : List UInt8) : List UInt8 :=
  let hash := (Digest.treeNode ((bytes.length / 1024).log2 + 1) 0 bytes).hash
  [hash[0], hash[1], hash[2], hash[3]].flatMap fun word => littleEndian 4 word.toNat

end DecisionTables.Blob
