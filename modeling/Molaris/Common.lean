import Mathlib.Logic.Function.Basic

/-!
# Addresses and hashes

The fixed-width byte strings that the bank overlay and the mempool key their maps by, the
conversion `common.BytesToAddress` that the mempool applies to signers, and the reserved account
of `eth/core` that may not send transactions through the mempool.
-/

namespace Molaris

/-- A byte string of a fixed width: `common.Address` has 20 bytes and `common.Hash` 32. -/
structure FixedBytes (width : Nat) where
  bytes : List UInt8
  length_eq : bytes.length = width
deriving DecidableEq, Repr

/-- `common.Address`. -/
abbrev Address := FixedBytes 20

/-- `common.Hash`. -/
abbrev Hash := FixedBytes 32

/-- `common.Hash{}`, the value a Go map of hashes returns for a missing key. -/
def zeroHash : Hash := ⟨List.replicate 32 0, rfl⟩

/-- `common.BytesToAddress`: the last 20 bytes, left-padded with zeros when there are fewer. -/
def bytesToAddress (b : List UInt8) : Address :=
  let tail := b.drop (b.length - 20)
  ⟨List.replicate (20 - tail.length) 0 ++ tail, by simp only [List.length_append,
    List.length_replicate, List.length_drop, tail]; omega⟩

/-- `core.ReservedAddress`, `common.HexToAddress("0xfF06ad5d076fa274B49C297f3fE9e29B5bA9AaDC")`. -/
def reservedAddress : Address :=
  ⟨[0xff, 0x06, 0xad, 0x5d, 0x07, 0x6f, 0xa2, 0x74, 0xb4, 0x9c,
    0x29, 0x7f, 0x3f, 0xe9, 0xe2, 0x9b, 0x5b, 0xa9, 0xaa, 0xdc], rfl⟩

@[ext] theorem FixedBytes.ext {width : Nat} {left right : FixedBytes width}
    (bytes : left.bytes = right.bytes) : left = right := by
  cases left
  cases right
  cases bytes
  rfl

@[simp] theorem bytesToAddress_bytes (address : Address) :
    bytesToAddress address.bytes = address := by
  ext1
  simp [bytesToAddress, address.length_eq]

end Molaris
