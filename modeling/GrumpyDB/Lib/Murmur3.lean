/-
The MurmurHash3 function, x64 variant with 128 bits of state.

A last shorter block is mixed in without the rotation of the lanes.
-/
import GrumpyDB.Lib.Bytes

namespace GrumpyDB

namespace Murmur3

def C1 : UInt64 := 0x87c37b91114253d5
def C2 : UInt64 := 0x4cf5ad432745937f

def rotateLeft (x : UInt64) (r : UInt64) : UInt64 := (x <<< r) ||| (x >>> (64 - r))

structure Lanes where
  h1 : UInt64
  h2 : UInt64
  deriving DecidableEq, Repr

def mix1 (k : UInt64) : UInt64 := rotateLeft (k * C1) 31 * C2

def mix2 (k : UInt64) : UInt64 := rotateLeft (k * C2) 33 * C1

/-- A lane of the input; bytes past the end count as zero. -/
def lane (off : Nat) (block : List UInt8) : UInt64 := UInt64.ofNat (leNat (slice off 8 block))

def block (s : Lanes) (b : List UInt8) : Lanes :=
  let h1 := s.h1 ^^^ mix1 (lane 0 b)
  let h2 := s.h2 ^^^ mix2 (lane 8 b)
  if b.length = 16 then
    let h1 := (rotateLeft h1 27 + s.h2) * 5 + 0x52dce729
    let h2 := (rotateLeft h2 31 + h1) * 5 + 0x38495ab5
    ⟨h1, h2⟩
  else ⟨h1, h2⟩

def fmix64 (k : UInt64) : UInt64 :=
  let k := (k ^^^ (k >>> 33)) * 0xff51afd7ed558ccd
  let k := (k ^^^ (k >>> 33)) * 0xc4ceb9fe1a85ec53
  k ^^^ (k >>> 33)

/-- The low 64 bits of the hash. -/
def finish (s : Lanes) (len : Nat) : UInt64 :=
  let h1 := s.h1 ^^^ UInt64.ofNat len
  let h2 := s.h2 ^^^ UInt64.ofNat len
  let h1 := h1 + h2
  let h2 := h2 + h1
  fmix64 h1 + fmix64 h2

end Murmur3

/-- The low 64 bits of the hash of `input` with seed 0. -/
def murmur3Low (input : List UInt8) : UInt64 :=
  Murmur3.finish ((chunks 16 input).foldl Murmur3.block ⟨0, 0⟩) input.length

end GrumpyDB
