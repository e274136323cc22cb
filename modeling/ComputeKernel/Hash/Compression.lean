namespace ComputeKernel.Hash

structure Row where
  a : UInt32
  b : UInt32
  c : UInt32
  d : UInt32
deriving DecidableEq, Repr

namespace Row

def zip (f : UInt32 → UInt32 → UInt32) (r s : Row) : Row :=
  ⟨f r.a s.a, f r.b s.b, f r.c s.c, f r.d s.d⟩

def add (r s : Row) : Row := zip (· + ·) r s

def xor (r s : Row) : Row := zip (· ^^^ ·) r s

def rotate (count : UInt32) (r : Row) : Row :=
  let turn (w : UInt32) := (w >>> count) ||| (w <<< (32 - count))
  ⟨turn r.a, turn r.b, turn r.c, turn r.d⟩

def shift (r : Row) : Row := ⟨r.b, r.c, r.d, r.a⟩

end Row

structure Square where
  r0 : Row
  r1 : Row
  r2 : Row
  r3 : Row
deriving DecidableEq, Repr

structure Chain where
  low : Row
  high : Row
deriving DecidableEq, Repr

abbrev Block := Square

namespace Square

def mix (s : Square) (mx my : Row) : Square :=
  let r0 := (s.r0.add s.r1).add mx
  let r3 := (s.r3.xor r0).rotate 16
  let r2 := s.r2.add r3
  let r1 := (s.r1.xor r2).rotate 12
  let r0 := (r0.add r1).add my
  let r3 := (r3.xor r0).rotate 8
  let r2 := r2.add r3
  let r1 := (r1.xor r2).rotate 7
  ⟨r0, r1, r2, r3⟩

def slant (s : Square) : Square :=
  ⟨s.r0, s.r1.shift, s.r2.shift.shift, s.r3.shift.shift.shift⟩

def unslant (s : Square) : Square :=
  ⟨s.r0, s.r1.shift.shift.shift, s.r2.shift.shift, s.r3.shift⟩

def round (s : Square) (m : Block) : Square :=
  let columns := s.mix ⟨m.r0.a, m.r0.c, m.r1.a, m.r1.c⟩ ⟨m.r0.b, m.r0.d, m.r1.b, m.r1.d⟩
  (columns.slant.mix ⟨m.r2.a, m.r2.c, m.r3.a, m.r3.c⟩ ⟨m.r2.b, m.r2.d, m.r3.b, m.r3.d⟩).unslant

def permute (m : Block) : Block :=
  ⟨⟨m.r0.c, m.r1.c, m.r0.d, m.r2.c⟩,
    ⟨m.r1.d, m.r0.a, m.r1.a, m.r3.b⟩,
    ⟨m.r0.b, m.r2.d, m.r3.a, m.r1.b⟩,
    ⟨m.r2.b, m.r3.c, m.r3.d, m.r2.a⟩⟩

def rounds : Nat → Square → Block → Square
  | 0, s, _ => s
  | n + 1, s, m => rounds n (s.round m) m.permute

end Square

def initial : Chain :=
  ⟨⟨0x6a09e667, 0xbb67ae85, 0x3c6ef372, 0xa54ff53a⟩,
    ⟨0x510e527f, 0x9b05688c, 0x1f83d9ab, 0x5be0cd19⟩⟩

structure Place where
  chunkStart : Bool := false
  chunkEnd : Bool := false
  parent : Bool := false
  root : Bool := false
deriving DecidableEq, Repr

def Place.flags (p : Place) : UInt32 :=
  (if p.chunkStart then 1 else 0) ||| (if p.chunkEnd then 2 else 0)
    ||| (if p.parent then 4 else 0) ||| (if p.root then 8 else 0)

def compress (chain : Chain) (block : Block) (counter : Nat) (length : Nat) (place : Place) :
    Chain :=
  let start : Square :=
    ⟨chain.low, chain.high, initial.low,
      ⟨counter.toUInt32, (counter / UInt32.size).toUInt32, length.toUInt32, place.flags⟩⟩
  let s := start.rounds 7 block
  ⟨s.r0.xor s.r2, s.r1.xor s.r3⟩

end ComputeKernel.Hash
