import ComputeKernel.Hash.Compression
import ComputeKernel.Text

namespace ComputeKernel.Hash

def wordOf (bytes : List UInt8) (i : Nat) : UInt32 :=
  let byte (k : Nat) : UInt32 := (bytes.getD (4 * i + k) 0).toUInt32
  byte 0 ||| (byte 1 <<< 8) ||| (byte 2 <<< 16) ||| (byte 3 <<< 24)

def blockOf (bytes : List UInt8) : Block :=
  let word := wordOf bytes
  ⟨⟨word 0, word 1, word 2, word 3⟩, ⟨word 4, word 5, word 6, word 7⟩,
    ⟨word 8, word 9, word 10, word 11⟩, ⟨word 12, word 13, word 14, word 15⟩⟩

def chunkFrom (counter : Nat) (isRoot : Bool) (chain : Chain) (isFirst : Bool)
    (bytes : List UInt8) : Chain :=
  if 64 < bytes.length then
    let next := compress chain (blockOf (bytes.take 64)) counter 64 { chunkStart := isFirst }
    chunkFrom counter isRoot next false (bytes.drop 64)
  else
    compress chain (blockOf bytes) counter bytes.length
      { chunkStart := isFirst, chunkEnd := true, root := isRoot }
termination_by bytes.length
decreasing_by simp only [List.length_drop]; omega

def parentChain (isRoot : Bool) (left right : Chain) : Chain :=
  compress initial ⟨left.low, left.high, right.low, right.high⟩ 0 64
    { parent := true, root := isRoot }

def leftChunks (chunks : Nat) : Nat := Nat.pow 2 (Nat.log2 (chunks - 1))

theorem leftChunks_pos (chunks : Nat) : 0 < leftChunks chunks :=
  Nat.two_pow_pos _

theorem leftChunks_lt (chunks : Nat) (h : 1 < chunks) : leftChunks chunks < chunks := by
  have : leftChunks chunks ≤ chunks - 1 := Nat.log2_self_le (by omega)
  omega

def tree (counter : Nat) (isRoot : Bool) (bytes : List UInt8) : Chain :=
  if 1024 < bytes.length then
    let left := leftChunks ((bytes.length + 1023) / 1024)
    parentChain isRoot (tree counter false (bytes.take (left * 1024)))
      (tree (counter + left) false (bytes.drop (left * 1024)))
  else chunkFrom counter isRoot initial true bytes
termination_by bytes.length
decreasing_by
  · have := leftChunks_lt ((bytes.length + 1023) / 1024) (by omega)
    simp only [List.length_take]
    omega
  · have := leftChunks_pos ((bytes.length + 1023) / 1024)
    simp only [List.length_drop]
    omega

def wordHex (w : UInt32) : List Char :=
  let byte (k : UInt32) := Text.hexDigits 2 ((w >>> k) &&& 0xff).toNat
  byte 0 ++ byte 8 ++ byte 16 ++ byte 24

def rowHex (r : Row) : List Char := wordHex r.a ++ wordHex r.b ++ wordHex r.c ++ wordHex r.d

def digest (text : String) : String :=
  let chain := tree 0 true text.toUTF8.data.toList
  String.ofList (rowHex chain.low ++ rowHex chain.high)

end ComputeKernel.Hash
