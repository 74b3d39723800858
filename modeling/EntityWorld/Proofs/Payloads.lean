/-
# What a codec promises

A codec has a layout of `n` bytes if it reads every payload of at least `n` bytes
and refuses the shorter ones (`Codec.HasLayout`). It is lawful if it reads back
what it wrote (`Codec.Lawful`); as a payload travels as a list, it also has to
be short enough for one. It is exact if it writes back what it read, too, as far
as its layout goes (`Codec.Exact`).

The codec of a record of numbers has a layout of four bytes a number. It is lawful
if the record is made of its fields, and exact if the fields are also those that
a record was made of. This goes for the stock kinds, and for every bit pattern of a
number: a NaN is read back as the same NaN.

Key definitions: `Codec.HasLayout`, `Codec.Lawful`, `Codec.Exact`.
Key theorems: `Codec.hasLayout_ofFields`, `Codec.lawful_ofFields`,
`Codec.lawful_stock`, `Codec.exact_ofFields`, `Codec.exact_stock`.
-/
import EntityWorld.Record.Particle
import EntityWorld.Record.Star
import EntityWorld.Record.Transform
import EntityWorld.Record.UITransform
import Mathlib.Tactic

namespace EntityWorld

/-! ### Numbers as bytes -/

namespace Single

/-- A number is put together again from its four bytes, bit by bit. -/
theorem ofBytes_toBytes (x : Single) : ofBytes x.bits.toUInt8 (x.bits >>> 8).toUInt8
    (x.bits >>> 16).toUInt8 (x.bits >>> 24).toUInt8 = x := by
  refine congrArg Single.mk (UInt32.toBitVec_inj.mp (BitVec.eq_of_getLsbD_eq fun i hi => ?_))
  change ((x.bits.toBitVec.setWidth 8).setWidth 32 |||
    ((x.bits.toBitVec >>> 8).setWidth 8).setWidth 32 <<< 8 |||
    ((x.bits.toBitVec >>> 16).setWidth 8).setWidth 32 <<< 16 |||
    ((x.bits.toBitVec >>> 24).setWidth 8).setWidth 32 <<< 24).getLsbD i = _
  simp only [BitVec.getLsbD_or, BitVec.getLsbD_shiftLeft, BitVec.getLsbD_setWidth,
    BitVec.getLsbD_ushiftRight]
  grind

theorem readUpTo_encodeSingles (rest : List UInt8) :
    ∀ xs : List Single, readUpTo xs.length (encodeSingles xs ++ rest) = xs
  | [] => rfl
  | x :: xs => by
    have ih := readUpTo_encodeSingles rest xs
    have hbytes : encodeSingles (x :: xs) ++ rest = x.bits.toUInt8 :: (x.bits >>> 8).toUInt8 ::
        (x.bits >>> 16).toUInt8 :: (x.bits >>> 24).toUInt8 :: (encodeSingles xs ++ rest) := rfl
    rw [hbytes, List.length_cons, readUpTo, ofBytes_toBytes, ih]

/-- A byte is the low byte of a word if they agree bit by bit. -/
theorem toUInt8_eq {x : UInt32} {b : UInt8}
    (h : ∀ i < 8, x.toBitVec.getLsbD i = b.toBitVec.getLsbD i) : x.toUInt8 = b := by
  refine UInt8.toBitVec_inj.mp (BitVec.eq_of_getLsbD_eq fun i hi => ?_)
  change (x.toBitVec.setWidth 8).getLsbD i = _
  rw [BitVec.getLsbD_setWidth, h i hi, decide_eq_true hi, Bool.true_and]

theorem getLsbD_ofBytes (a b c d : UInt8) (i : Nat) (hi : i < 32) :
    (ofBytes a b c d).bits.toBitVec.getLsbD i =
      if i < 8 then a.toBitVec.getLsbD i else if i < 16 then b.toBitVec.getLsbD (i - 8)
      else if i < 24 then c.toBitVec.getLsbD (i - 16) else d.toBitVec.getLsbD (i - 24) := by
  change (a.toBitVec.setWidth 32 ||| b.toBitVec.setWidth 32 <<< 8 |||
    c.toBitVec.setWidth 32 <<< 16 ||| d.toBitVec.setWidth 32 <<< 24).getLsbD i = _
  simp only [BitVec.getLsbD_or, BitVec.getLsbD_shiftLeft, BitVec.getLsbD_setWidth]
  grind

/-- The bytes that a number was put together from are its bytes. -/
theorem toBytes_ofBytes (a b c d : UInt8) : (ofBytes a b c d).toBytes = [a, b, c, d] := by
  let w := (ofBytes a b c d).bits
  have hbit : ∀ k i, k + i < 32 → (w.toBitVec >>> k).getLsbD i = if k + i < 8 then
      a.toBitVec.getLsbD (k + i) else if k + i < 16 then b.toBitVec.getLsbD (k + i - 8)
      else if k + i < 24 then c.toBitVec.getLsbD (k + i - 16)
      else d.toBitVec.getLsbD (k + i - 24) := by
    intro k i hi
    rw [BitVec.getLsbD_ushiftRight, getLsbD_ofBytes a b c d _ hi]
  have h0 : w.toUInt8 = a := toUInt8_eq fun i hi => (hbit 0 i (by omega)).trans (by grind)
  have h1 : (w >>> 8).toUInt8 = b := toUInt8_eq fun i hi => (hbit 8 i (by omega)).trans (by grind)
  have h2 : (w >>> 16).toUInt8 = c := toUInt8_eq fun i hi => (hbit 16 i (by omega)).trans (by grind)
  have h3 : (w >>> 24).toUInt8 = d := toUInt8_eq fun i hi => (hbit 24 i (by omega)).trans (by grind)
  change [w.toUInt8, (w >>> 8).toUInt8, (w >>> 16).toUInt8, (w >>> 24).toUInt8] = _
  rw [h0, h1, h2, h3]

/-- What is read from the front of some bytes is written as they are. -/
theorem encodeSingles_readUpTo : ∀ (n : Nat) (bytes : List UInt8), 4 * n ≤ bytes.length →
    encodeSingles (readUpTo n bytes) = bytes.take (4 * n)
  | 0, bytes, _ => by cases bytes <;> rfl
  | n + 1, [], h => by simp at h
  | n + 1, [_], h => by simp at h; omega
  | n + 1, [_, _], h => by simp at h; omega
  | n + 1, [_, _, _], h => by simp at h; omega
  | n + 1, a :: b :: c :: d :: rest, h => by
    have hrest : 4 * n ≤ rest.length := by
      simp only [List.length_cons] at h
      omega
    have ih := encodeSingles_readUpTo n rest hrest
    rw [readUpTo, encodeSingles, List.flatMap_cons, toBytes_ofBytes]
    exact congrArg ([a, b, c, d] ++ ·) ih

end Single

theorem length_encodeSingles : ∀ xs : List Single, (encodeSingles xs).length = 4 * xs.length
  | [] => rfl
  | x :: xs => by
    have ih := length_encodeSingles xs
    have hcons : (encodeSingles (x :: xs)).length = 4 + (encodeSingles xs).length := by
      rw [encodeSingles, List.flatMap_cons, List.length_append]
      rfl
    rw [hcons, ih, List.length_cons]
    omega

/-- Numbers are read back, and what follows them is ignored. -/
theorem decodeSingles_encodeSingles {n : Nat} (v : Vector Single n) (rest : List UInt8) :
    decodeSingles n (encodeSingles v.toList ++ rest) = .ok v := by
  have hlen : v.toList.length = n := v.length_toList
  have hbytes := length_encodeSingles v.toList
  have hlong : 4 * n ≤ (encodeSingles v.toList ++ rest).length := by
    rw [List.length_append]
    omega
  have hread := Single.readUpTo_encodeSingles rest v.toList
  rw [hlen] at hread
  unfold decodeSingles
  rw [dif_pos hlong]
  refine congrArg Except.ok (Vector.toArray_inj.mp ?_)
  change (Single.readUpTo n (encodeSingles v.toList ++ rest)).toArray = v.toArray
  rw [hread]
  exact Array.toArray_toList

/-- What is read from a payload that is long enough is written as its first bytes. -/
theorem encodeSingles_decodeSingles (n : Nat) (bytes : List UInt8) :
    if 4 * n ≤ bytes.length then
      ∃ v, decodeSingles n bytes = .ok v ∧ encodeSingles v.toList = bytes.take (4 * n)
    else decodeSingles n bytes = .error (.tooShort (4 * n) bytes.length) := by
  split
  · next h => exact ⟨_, dif_pos h, Single.encodeSingles_readUpTo n bytes h⟩
  · next h => exact dif_neg h

namespace Codec

variable {α : Type}

/-- Of all payloads, the codec refuses those that are shorter than `n`. -/
def HasLayout (c : Codec α) (n : Nat) : Prop :=
  ∀ bytes, if bytes.length < n then c.decode bytes = .error (.tooShort n bytes.length)
    else ∃ v, c.decode bytes = .ok v

/-- The codec reads back what it wrote, from bytes that fit into a list. -/
structure Lawful (c : Codec α) : Prop where
  decode_encode : ∀ v, c.decode (c.encode v) = .ok v
  length_lt : ∀ v, (c.encode v).length < 0x100000000

/-! ### Records of numbers -/

variable {n : Nat} {fields : α → Vector Single n} {make : Vector Single n → α}

/-- A record of `n` numbers has a layout of four bytes a number. -/
theorem hasLayout_ofFields (n : Nat) (fields : α → Vector Single n) (make : Vector Single n → α) :
    (ofFields n fields make).HasLayout (4 * n) := by
  intro bytes
  simp only [ofFields, decodeSingles]
  by_cases h : bytes.length < 4 * n
  · rw [if_pos h, dif_neg (by omega)]
    rfl
  · rw [if_neg h, dif_pos (by omega)]
    exact ⟨_, rfl⟩

theorem lawful_ofFields (hmake : ∀ v, make (fields v) = v) (hn : n < 0x40000000) :
    (ofFields n fields make).Lawful where
  decode_encode v := by
    have hread := decodeSingles_encodeSingles (fields v) []
    rw [List.append_nil] at hread
    simp only [ofFields, hread]
    exact congrArg Except.ok (hmake v)
  length_lt v := by
    have hbytes := length_encodeSingles (fields v).toList
    have hlen : (fields v).toList.length = n := (fields v).length_toList
    change (encodeSingles (fields v).toList).length < 0x100000000
    omega

/-- The codecs of the stock kinds are lawful. -/
theorem lawful_stock : Transform.codec.Lawful ∧ UITransform.codec.Lawful ∧
    Particle.codec.Lawful ∧ Star.codec.Lawful := by
  refine ⟨?_, ?_, ?_, ?_⟩
  · exact lawful_ofFields (fun _ => rfl) (by norm_num)
  · exact lawful_ofFields (fun _ => rfl) (by norm_num)
  · exact lawful_ofFields (fun _ => rfl) (by norm_num)
  · exact lawful_ofFields (fun _ => rfl) (by norm_num)

/-! ### Exact payloads -/

/-- Writing and reading are inverse to each other, at `n` bytes. A value is read from
its bytes, whatever follows them and whatever was there before; from a payload that
is long enough the value with its first `n` bytes is read; and a shorter one is
refused, and what was there stays. -/
structure Exact (c : Codec α) (n : Nat) : Prop where
  length_encode : ∀ v, (c.encode v).length = n
  load_encode : ∀ v rest old, c.load (c.encode v ++ rest) old = .ok () v
  load : ∀ bytes old,
    if n ≤ bytes.length then ∃ v, c.load bytes old = .ok () v ∧ c.encode v = bytes.take n
    else c.load bytes old = .error (.tooShort n bytes.length) old

theorem load_of_ok {c : Codec α} {bytes : List UInt8} {v : α} (h : c.decode bytes = .ok v) (old : α) :
    c.load bytes old = .ok () v := by
  unfold Codec.load
  rw [h]

theorem load_of_error {c : Codec α} {bytes : List UInt8} {cause : PayloadError}
    (h : c.decode bytes = .error cause) (old : α) : c.load bytes old = .error cause old := by
  unfold Codec.load
  rw [h]

/-- The codec of a record that is made of its fields, and these of it, is exact. -/
theorem exact_ofFields (hmake : ∀ v, make (fields v) = v) (hfields : ∀ x, fields (make x) = x) :
    (ofFields n fields make).Exact (4 * n) where
  length_encode v := (length_encodeSingles _).trans (congrArg (4 * ·) (fields v).length_toList)
  load_encode v rest old := by
    have hread := decodeSingles_encodeSingles (fields v) rest
    have hdecode : (ofFields n fields make).decode
        ((ofFields n fields make).encode v ++ rest) = .ok v := by
      simp only [ofFields, hread]
      exact congrArg Except.ok (hmake v)
    exact load_of_ok hdecode old
  load bytes old := by
    have hread := encodeSingles_decodeSingles n bytes
    split at hread
    · next h =>
      obtain ⟨x, hx, hbytes⟩ := hread
      have hdecode : (ofFields n fields make).decode bytes = .ok (make x) := by
        simp only [ofFields, hx]
        rfl
      rw [if_pos h]
      refine ⟨make x, load_of_ok hdecode old, ?_⟩
      simp only [ofFields, hfields, hbytes]
    · next h =>
      have hdecode : (ofFields n fields make).decode bytes =
          .error (.tooShort (4 * n) bytes.length) := by
        simp only [ofFields, hread]
        rfl
      rw [if_neg h]
      exact load_of_error hdecode old

/-- **The payloads of the stock kinds are exact.** A transform has 44 bytes, a screen
transform 32, a particle 8 and a star 4, four for each number; and so it is with any
numbers in a row. -/
theorem exact_stock :
    (Transform.codec.Exact 44 ∧ UITransform.codec.Exact 32 ∧ Particle.codec.Exact 8 ∧
      Star.codec.Exact 4) ∧
    ∀ n, (∀ (v : Vector Single n) rest, decodeSingles n (encodeSingles v.toList ++ rest) = .ok v) ∧
      ∀ bytes, if 4 * n ≤ bytes.length then
          ∃ v, decodeSingles n bytes = .ok v ∧ encodeSingles v.toList = bytes.take (4 * n)
        else decodeSingles n bytes = .error (.tooShort (4 * n) bytes.length) := by
  refine ⟨⟨?_, ?_, ?_, ?_⟩, fun n => ⟨decodeSingles_encodeSingles, encodeSingles_decodeSingles n⟩⟩
  -- reader and writer name the fields one by one, so their order is looked at field by field
  all_goals
    refine exact_ofFields (fun _ => rfl) fun x => Vector.ext fun i hi => ?_
    interval_cases i <;> rfl

end Codec
end EntityWorld
