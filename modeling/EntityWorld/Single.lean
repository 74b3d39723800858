/-
# Single-precision numbers by their bits

A number that a component stores is kept as its 32 bits, so that a NaN keeps
its payload and a zero its sign through storage and transport. Arithmetic is
that of IEEE 754 binary32, rounded to nearest with ties to even after every
operation; here the bits of a NaN matter too. An operand that is a NaN is
passed on, the left one first, with its quiet bit set; an operation without a
NaN operand that has no result gives `Single.invalid`.

Key definitions: `Single`, `Single.rem`, `Single.remEuclid`, `Single.clampUnit`,
`Double.toSingle`.
-/
namespace EntityWorld

/-- A binary32 number: sign, eight bits of exponent, 23 bits of fraction. -/
structure Single where
  bits : UInt32
deriving DecidableEq, Inhabited

/-- A binary64 number: sign, eleven bits of exponent, 52 bits of fraction. -/
structure Double where
  bits : UInt64
deriving DecidableEq, Inhabited

namespace Single

instance : Zero Single := ⟨⟨0⟩⟩
instance : One Single := ⟨⟨0x3f800000⟩⟩

/-- One half. -/
def half : Single := ⟨0x3f000000⟩

/-- The NaN of an operation that has no result. -/
def invalid : Single := ⟨0xffc00000⟩

/-- The bits without the sign. -/
def magnitude (x : Single) : UInt32 := x.bits &&& 0x7fffffff

def isNaN (x : Single) : Bool := 0x7f800000 < x.magnitude

def isInfinite (x : Single) : Bool := x.magnitude == 0x7f800000

/-- The same NaN with its quiet bit set. -/
def quiet (x : Single) : Single := ⟨x.bits ||| 0x00400000⟩

def toFloat32 (x : Single) : Float32 := Float32.ofBits x.bits

def ofFloat32 (x : Float32) : Single := if x.isNaN then invalid else ⟨x.toBits⟩

/-- A unary operation, NaNs passed on. -/
def lift (op : Float32 → Float32) (x : Single) : Single :=
  if x.isNaN then x.quiet else ofFloat32 (op x.toFloat32)

/-- A binary operation, NaNs passed on. -/
def lift₂ (op : Float32 → Float32 → Float32) (x y : Single) : Single :=
  if x.isNaN then x.quiet
  else if y.isNaN then y.quiet
  else ofFloat32 (op x.toFloat32 y.toFloat32)

instance : Add Single := ⟨lift₂ Float32.add⟩
instance : Sub Single := ⟨lift₂ Float32.sub⟩
instance : Mul Single := ⟨lift₂ Float32.mul⟩
instance : Div Single := ⟨lift₂ Float32.div⟩

/-- Negation flips the sign bit, of a NaN as well. -/
instance : Neg Single := ⟨fun x => ⟨x.bits ^^^ 0x80000000⟩⟩

def abs (x : Single) : Single := ⟨x.magnitude⟩

def sin (x : Single) : Single := lift Float32.sin x

def cos (x : Single) : Single := lift Float32.cos x

/-- Numerical order. Nothing is less than a NaN, and a NaN is less than nothing. -/
def lt (x y : Single) : Bool := decide (x.toFloat32 < y.toFloat32)

def le (x y : Single) : Bool := decide (x.toFloat32 ≤ y.toFloat32)

/-- Numerical equality: the two zeros are equal, and a NaN is equal to nothing. -/
def same (x y : Single) : Bool := x.toFloat32 == y.toFloat32

/-- The nearest number to a natural one. -/
def ofWord (n : UInt64) : Single := ofFloat32 n.toFloat32

/-- The nearest number to a signed one. -/
def ofSigned (n : Int64) : Single := ofFloat32 n.toFloat32

def ofNat (n : Nat) : Single := ofWord (UInt64.ofNat n)

/-- The positive part: zero for all that is not above zero, a NaN included. -/
def positivePart (x : Single) : Single := if lt 0 x then x else 0

/-- The nearest number of the unit interval. A NaN stays, as does a negative zero. -/
def clampUnit (x : Single) : Single := if x.lt 0 then 0 else if lt 1 x then 1 else x

/-- A finite number's magnitude as a multiple of the least positive one. -/
def units (x : Single) : Nat :=
  let exponent := (x.magnitude >>> 23).toNat
  let fraction := (x.magnitude &&& 0x007fffff).toNat
  if exponent = 0 then fraction else (0x800000 + fraction) <<< (exponent - 1)

/-- The magnitude with `n` units, where there is one. -/
def ofUnits (n : Nat) : UInt32 :=
  if n < 0x1000000 then UInt32.ofNat n
  else
    let shift := n.log2 - 23
    UInt32.ofNat (shift <<< 23 + n >>> shift)

/-- What is left of `x` after taking off whole multiples of `y` towards zero. The
result is exact and has the sign of `x`; there is none for an infinite `x` or a
zero `y`. -/
def rem (x y : Single) : Single :=
  if x.isNaN then x.quiet
  else if y.isNaN then y.quiet
  else if x.isInfinite || y.magnitude == 0 then invalid
  else if y.isInfinite then x
  else ⟨(x.bits &&& 0x80000000) ||| ofUnits (x.units % y.units)⟩

/-- The remainder that is not below zero. Rounding may make it `y` itself. -/
def remEuclid (x y : Single) : Single :=
  let r := x.rem y
  if r.lt 0 then r + y.abs else r

end Single

namespace Double

def toFloat (x : Double) : Float := Float.ofBits x.bits

def ofFloat (x : Float) : Double := ⟨x.toBits⟩

def isNaN (x : Double) : Bool := 0x7ff0000000000000 < (x.bits &&& 0x7fffffffffffffff)

/-- The nearest single-precision number. A NaN keeps its sign and the upper part
of its fraction, with the quiet bit set. -/
def toSingle (x : Double) : Single :=
  if x.isNaN then
    let sign : UInt32 := (x.bits >>> 32).toUInt32 &&& 0x80000000
    let fraction : UInt32 := (x.bits >>> 29).toUInt32 &&& 0x003fffff
    ⟨sign ||| 0x7fc00000 ||| fraction⟩
  else Single.ofFloat32 x.toFloat.toFloat32

end Double
end EntityWorld
