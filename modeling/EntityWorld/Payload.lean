/-
# Payloads: components as bytes

A component travels as a fixed number of single-precision numbers, each four
bytes with the low one first. A payload may be longer than its type needs, and
the rest is ignored; a shorter one is refused.

Key definitions: `encodeSingles`, `decodeSingles`, `Codec`, `Codec.load`,
`Codec.ofFields`.
-/
import EntityWorld.Error
import EntityWorld.Single

namespace EntityWorld

namespace Single

/-- The four bytes of a number, the low one first. -/
def toBytes (x : Single) : List UInt8 :=
  [x.bits.toUInt8, (x.bits >>> 8).toUInt8, (x.bits >>> 16).toUInt8, (x.bits >>> 24).toUInt8]

/-- The number with the given bytes, the low one first. -/
def ofBytes (a b c d : UInt8) : Single :=
  ⟨a.toUInt32 ||| (b.toUInt32 <<< 8) ||| (c.toUInt32 <<< 16) ||| (d.toUInt32 <<< 24)⟩

/-- Up to `n` numbers from the front of some bytes. -/
def readUpTo : Nat → List UInt8 → List Single
  | n + 1, a :: b :: c :: d :: rest => ofBytes a b c d :: readUpTo n rest
  | _, _ => []

theorem length_readUpTo : ∀ (n : Nat) (bytes : List UInt8), 4 * n ≤ bytes.length →
    (readUpTo n bytes).length = n
  | 0, bytes, _ => by cases bytes <;> rfl
  | n + 1, [], h => by simp at h
  | n + 1, [_], h => by simp at h; omega
  | n + 1, [_, _], h => by simp at h; omega
  | n + 1, [_, _, _], h => by simp at h; omega
  | n + 1, a :: b :: c :: d :: rest, h => by
    simp only [List.length_cons] at h
    simp [readUpTo, length_readUpTo n rest (by omega)]

end Single

/-- The bytes of some numbers in a row. -/
def encodeSingles (xs : List Single) : List UInt8 := xs.flatMap Single.toBytes

/-- The first `n` numbers of a payload. -/
def decodeSingles (n : Nat) (bytes : List UInt8) : Except PayloadError (Vector Single n) :=
  if h : 4 * n ≤ bytes.length then
    .ok ⟨(Single.readUpTo n bytes).toArray, by simp [Single.length_readUpTo n bytes h]⟩
  else .error (.tooShort (4 * n) bytes.length)

/-- How values of a type travel. -/
structure Codec (α : Type) where
  encode : α → List UInt8
  decode : List UInt8 → Except PayloadError α

/-- Reads a value in place of another one, which stays if the payload is refused. -/
def Codec.load {α : Type} (c : Codec α) (bytes : List UInt8) : EStateM PayloadError α Unit := fun old =>
  match c.decode bytes with
  | .ok v => .ok () v
  | .error cause => .error cause old

/-- The codec of a record of `n` numbers. -/
def Codec.ofFields {α : Type} (n : Nat) (fields : α → Vector Single n)
    (ofFields : Vector Single n → α) : Codec α where
  encode v := encodeSingles (fields v).toList
  decode bytes := (decodeSingles n bytes).map ofFields

/-- A component as it travels: its type and its bytes. -/
structure Parcel where
  tag : TypeTag
  data : List UInt8
deriving DecidableEq

end EntityWorld
