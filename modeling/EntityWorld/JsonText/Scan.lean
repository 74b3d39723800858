/-
# JSON text: the smallest parts

Readers of blanks, literals, strings and numbers. A reader takes the text from
where its part starts and gives back the text after it. It reads from left to
right, and the first thing wrong decides the fault: the text is no JSON
(`malformed`), it ends too early (`truncated`), or it is JSON but not what is
wanted here (`mismatch`).

Key definitions: `Fault`, `readString`, `skipString`, `scanNumber`, `mismatchAt`.
-/
import EntityWorld.Settings

namespace EntityWorld.JsonText

/-- Why a text is refused. -/
inductive Fault where
  /-- It is no JSON from here on. -/
  | malformed
  /-- It is JSON of another kind or range than wanted. -/
  | mismatch
  /-- It ends too early. -/
  | truncated
deriving DecidableEq

def isBlank (c : Char) : Bool := c == ' ' || c == '\n' || c == '\t' || c == '\r'

def skipBlank (cs : List Char) : List Char := cs.dropWhile isBlank

/-- Reads the rest of a literal. -/
def literal : List Char → List Char → Except Fault (List Char)
  | [], cs => .ok cs
  | _ :: _, [] => .error .truncated
  | e :: es, c :: cs => if c == e then literal es cs else .error .malformed

/-! ### Strings -/

/-- The value of a hexadecimal digit. -/
def hexDigit? (c : Char) : Option Nat :=
  if '0' ≤ c ∧ c ≤ '9' then some (c.toNat - '0'.toNat)
  else if 'a' ≤ c ∧ c ≤ 'f' then some (c.toNat - 'a'.toNat + 10)
  else if 'A' ≤ c ∧ c ≤ 'F' then some (c.toNat - 'A'.toNat + 10)
  else none

/-- The number that four hexadecimal digits stand for. -/
def hexWord? (a b c d : Char) : Option Nat := do
  return (((← hexDigit? a) * 16 + (← hexDigit? b)) * 16 + (← hexDigit? c)) * 16 + (← hexDigit? d)

/-- What is wrong with a text of fewer than four characters where four digits
should stand: it ends too early if it has fewer than four bytes. -/
def shortHexFault (cs : List Char) : Fault :=
  if (String.ofList cs).utf8ByteSize < 4 then .truncated else .malformed

/-- The character that a one-letter escape stands for. -/
def escaped? : Char → Option Char
  | '"' => some '"'
  | '\\' => some '\\'
  | '/' => some '/'
  | 'b' => some '\x08'
  | 'f' => some '\x0c'
  | 'n' => some '\n'
  | 'r' => some '\r'
  | 't' => some '\t'
  | _ => none

/-- What one four-digit escape adds to a string, the upper half of a pair being
`high` if one came just before: a character, or an upper half to keep. A half
without its other half is refused. -/
def combine (high : Option Nat) (n : Nat) : Except Fault (Option Char × Option Nat) :=
  match high with
  | some h =>
    if 0xdc00 ≤ n ∧ n < 0xe000 then
      .ok (some (Char.ofNat ((h - 0xd800) * 0x400 + (n - 0xdc00) + 0x10000)), none)
    else .error .malformed
  | none =>
    if 0xdc00 ≤ n ∧ n < 0xe000 then .error .malformed
    else if 0xd800 ≤ n ∧ n < 0xdc00 then .ok (none, some n)
    else .ok (some (Char.ofNat n), none)

/-- Reads a string from after its opening quote. `high` is the upper half of a
pair whose lower half must come next. -/
def readString (high : Option Nat) : List Char → Except Fault (List Char × List Char)
  | [] => .error .truncated
  | '\\' :: rest =>
    match rest with
    | [] => .error .truncated
    | 'u' :: rest =>
      match rest with
      | a :: b :: c :: d :: rest => do
        let some n := hexWord? a b c d | .error .malformed
        let (new, high) ← combine high n
        let (s, rest) ← readString high rest
        .ok (new.toList ++ s, rest)
      | short => .error (shortHexFault short)
    | c :: rest => do
      if high.isSome then throw .malformed
      let some c := escaped? c | .error .malformed
      let (s, rest) ← readString none rest
      .ok (c :: s, rest)
  | c :: rest =>
    if high.isSome then .error .malformed
    else if c == '"' then .ok ([], rest)
    else if c.toNat < 0x20 then .error .malformed
    else do
      let (s, rest) ← readString none rest
      .ok (c :: s, rest)

/-- Passes over a string from after its opening quote. What its escapes stand for
does not matter. -/
def skipString : List Char → Except Fault (List Char)
  | [] => .error .truncated
  | '\\' :: rest =>
    match rest with
    | [] => .error .truncated
    | 'u' :: rest =>
      match rest with
      | a :: b :: c :: d :: rest =>
        if (hexWord? a b c d).isSome then skipString rest else .error .malformed
      | short => .error (shortHexFault short)
    | c :: rest => if (escaped? c).isSome then skipString rest else .error .malformed
  | c :: rest =>
    if c == '"' then .ok rest
    else if c.toNat < 0x20 then .error .malformed
    else skipString rest

/-! ### Numbers -/

/-- The parts of a number as written. -/
structure NumberText where
  negative : Bool
  whole : List Char
  fraction : List Char := []
  /-- Whether the exponent is negative, and its digits. -/
  exponent : Option (Bool × List Char) := none
deriving DecidableEq

/-- One or more digits. `short` is the fault of a text that ends before them. -/
def scanDigits (short : Fault) (cs : List Char) : Except Fault (List Char × List Char) :=
  match cs with
  | [] => .error short
  | c :: _ =>
    if c.isDigit then .ok (cs.takeWhile Char.isDigit, cs.dropWhile Char.isDigit)
    else .error .malformed

/-- The point and the digits after it, if there is a point. -/
def scanFraction (short : Fault) : List Char → Except Fault (List Char × List Char)
  | '.' :: rest => scanDigits short rest
  | cs => .ok ([], cs)

/-- A sign, if there is one: whether it is the negative one. -/
def scanSign : List Char → Bool × List Char
  | '+' :: rest => (false, rest)
  | '-' :: rest => (true, rest)
  | cs => (false, cs)

/-- The exponent, if there is one. -/
def scanExponent (short : Fault) (cs : List Char) :
    Except Fault (Option (Bool × List Char) × List Char) :=
  match cs with
  | [] => .ok (none, [])
  | c :: rest =>
    if c == 'e' || c == 'E' then do
      let (negative, rest) := scanSign rest
      let (digits, rest) ← scanDigits short rest
      .ok (some (negative, digits), rest)
    else .ok (none, cs)

/-- A leading minus, if there is one. -/
def scanMinus : List Char → Bool × List Char
  | '-' :: rest => (true, rest)
  | cs => (false, cs)

/-- Reads a number. A whole part of more than one digit does not start with a
zero. `short` is the fault of a text that ends within the number. -/
def scanNumber (short : Fault) (cs : List Char) : Except Fault (NumberText × List Char) := do
  let (negative, cs) := scanMinus cs
  let (whole, cs) ← scanDigits short cs
  if whole.head? == some '0' && 1 < whole.length then throw .malformed
  let (fraction, cs) ← scanFraction short cs
  let (exponent, cs) ← scanExponent short cs
  .ok (⟨negative, whole, fraction, exponent⟩, cs)

namespace NumberText

/-- The natural number that a number without sign, point and exponent is. -/
def toNat? (n : NumberText) : Option Nat :=
  if n.negative || !n.fraction.isEmpty || n.exponent.isSome then none
  else some (Nat.ofDigitChars 10 n.whole 0)

/-- The leading digits as a number below 2^64, and the power of ten to multiply
it with. Once a digit of the whole part no longer fits, it and all after it only
raise the power; once one of the fraction does not, it and all after it are
dropped. -/
def significand (n : NumberText) : Nat × Int :=
  let (m, extra) := n.whole.foldl (fun (m, extra) c =>
    let next := m * 10 + (c.toNat - '0'.toNat)
    if extra = 0 ∧ next < UInt64.size then (next, 0) else (m, extra + 1)) (0, 0)
  let (m, places, _) := n.fraction.foldl (fun (m, places, full) c =>
    let next := m * 10 + (c.toNat - '0'.toNat)
    if !full && next < UInt64.size then (next, places + 1, false) else (m, places, true)) (m, 0, false)
  (m, (extra : Int) - (places : Nat))

/-- Whether the number is too large for a double: its significand, rounded,
times the power of ten, rounded, is infinite. -/
def overflows (n : NumberText) : Bool :=
  let (m, shift) := n.significand
  let (negative, exponent) := match n.exponent with
    | some (negative, digits) => (negative, Nat.ofDigitChars 10 digits 0)
    | none => (false, 0)
  let power := if negative then shift - (exponent : Int) else shift + exponent
  m != 0 && 0 ≤ power &&
    (308 < power || ((UInt64.ofNat m).toFloat * Float.ofScientific 1 false power.toNat).isInf)

/-- The fault of a number where something else is wanted. -/
def fault (n : NumberText) : Fault := if n.overflows then .malformed else .mismatch

end NumberText

/-- The fault of a value that is not of the kind wanted: its first part is read
to see whether it is JSON at all. -/
def mismatchAt (cs : List Char) : Fault :=
  match cs with
  | [] => .truncated
  | c :: rest =>
    if c == 'n' then faultOf (literal "ull".toList rest)
    else if c == 't' then faultOf (literal "rue".toList rest)
    else if c == 'f' then faultOf (literal "alse".toList rest)
    else if c == '"' then faultOf (readString none rest)
    else if c == '[' || c == '\x7b' then .mismatch
    else if c == '-' || c.isDigit then
      match scanNumber .truncated cs with
      | .ok (n, _) => n.fault
      | .error f => f
    else .malformed
where
  /-- The fault found, or else the mismatch. -/
  faultOf {α : Type} : Except Fault α → Fault
    | .ok _ => .mismatch
    | .error f => f

end EntityWorld.JsonText
