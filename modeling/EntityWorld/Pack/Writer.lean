/-
# Writing MessagePack

Numbers and headers take their shortest unsigned form; words longer than a
byte have the high byte first. Single-precision numbers are always written as
such, whatever their value.

Key definitions: `Pack.natural`, `Pack.listHeader`, `Pack.single`.
-/
import EntityWorld.Single

namespace EntityWorld.Pack

/-- The lowest `k` bytes of a number, the high one first. -/
def bigEndian : Nat → Nat → List UInt8
  | 0, _ => []
  | k + 1, n => UInt8.ofNat (n >>> (8 * k)) :: bigEndian k n

/-- A number below 2^64. -/
def natural (n : Nat) : List UInt8 :=
  if n < 0x80 then [UInt8.ofNat n]
  else if n < 0x100 then 0xcc :: bigEndian 1 n
  else if n < 0x10000 then 0xcd :: bigEndian 2 n
  else if n < 0x100000000 then 0xce :: bigEndian 4 n
  else 0xcf :: bigEndian 8 n

/-- What stands before the items of a list of fewer than 2^32. -/
def listHeader (n : Nat) : List UInt8 :=
  if n < 0x10 then [UInt8.ofNat (0x90 + n)]
  else if n < 0x10000 then 0xdc :: bigEndian 2 n
  else 0xdd :: bigEndian 4 n

def single (x : Single) : List UInt8 := 0xca :: bigEndian 4 x.bits.toNat

/-- A list whose items are given by their bytes. -/
def list (items : List (List UInt8)) : List UInt8 := listHeader items.length ++ items.flatten

end EntityWorld.Pack
