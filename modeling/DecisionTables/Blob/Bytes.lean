/-!
# Bytes

Numbers as runs of bytes of a fixed length, the least significant byte first.
-/

namespace DecisionTables.Blob

/-- The lowest bytes of a number, as many as are asked for. -/
def littleEndian : Nat → Nat → List UInt8
  | 0, _ => []
  | count + 1, n => UInt8.ofNat n :: littleEndian count (n / 256)

def ofLittleEndian (bytes : List UInt8) : Nat :=
  bytes.foldr (fun byte n => byte.toNat + 256 * n) 0

def takeBytes? (count : Nat) (bytes : List UInt8) : Option (List UInt8 × List UInt8) :=
  if count ≤ bytes.length then some (bytes.take count, bytes.drop count) else none

theorem length_littleEndian (count n : Nat) : (littleEndian count n).length = count := by
  induction count generalizing n with
  | zero => rfl
  | succ count ih => simp [littleEndian, ih]

theorem takeBytes?_append (bytes rest : List UInt8) :
    takeBytes? bytes.length (bytes ++ rest) = some (bytes, rest) := by
  simp [takeBytes?]

end DecisionTables.Blob
