/-
# Reading MessagePack

`Pack.Item` is a value of the format. Its first byte says what it is (`Lead`):
the value itself, or what follows and how much of it. Lists, tables and
extensions may be nested to a fixed depth only; a reader given a value nested
deeper refuses it. What follows the value is left unread.

Key definitions: `Pack.Item`, `Pack.Lead.ofByte`, `Pack.readItem`.
-/
import EntityWorld.Single

namespace EntityWorld.Pack

/-- A value. Numbers written in an unsigned form and numbers written in a signed
form are told apart. -/
inductive Item where
  | empty
  | truth (b : Bool)
  | natural (n : Nat)
  | integer (n : Int)
  | single (x : Single)
  | double (x : Double)
  | text (bytes : List UInt8)
  | blob (bytes : List UInt8)
  | list (items : List Item)
  | table (entries : List (Item × Item))
  | extension (kind : UInt8) (bytes : List UInt8)
deriving Inhabited

/-- How many items or bytes there are: known from the first byte, or written in
the next `width` bytes. -/
inductive Size where
  | known (n : Nat)
  | written (width : Nat)

/-- What the first byte of a value says. -/
inductive Lead where
  | whole (item : Item)
  | word (width : Nat) (make : Nat → Item)
  | bytes (size : Size) (make : List UInt8 → Item)
  | list (size : Size)
  | table (size : Size)
  | extension (size : Size)
  | reserved

/-- The number that `width` bytes in two's complement stand for. -/
def signed (width n : Nat) : Int :=
  if n < 1 <<< (8 * width - 1) then n else (n : Int) - ((1 <<< (8 * width) : Nat) : Int)

def Lead.ofByte (b : UInt8) : Lead :=
  let n := b.toNat
  if n < 0x80 then .whole (.natural n)
  else if n < 0x90 then .table (.known (n - 0x80))
  else if n < 0xa0 then .list (.known (n - 0x90))
  else if n < 0xc0 then .bytes (.known (n - 0xa0)) .text
  else if 0xe0 ≤ n then .whole (.integer ((n : Int) - 256))
  else match n with
    | 0xc0 => .whole .empty
    | 0xc2 => .whole (.truth false)
    | 0xc3 => .whole (.truth true)
    | 0xc4 => .bytes (.written 1) .blob
    | 0xc5 => .bytes (.written 2) .blob
    | 0xc6 => .bytes (.written 4) .blob
    | 0xc7 => .extension (.written 1)
    | 0xc8 => .extension (.written 2)
    | 0xc9 => .extension (.written 4)
    | 0xca => .word 4 fun n => .single ⟨UInt32.ofNat n⟩
    | 0xcb => .word 8 fun n => .double ⟨UInt64.ofNat n⟩
    | 0xcc => .word 1 .natural
    | 0xcd => .word 2 .natural
    | 0xce => .word 4 .natural
    | 0xcf => .word 8 .natural
    | 0xd0 => .word 1 fun n => .integer (signed 1 n)
    | 0xd1 => .word 2 fun n => .integer (signed 2 n)
    | 0xd2 => .word 4 fun n => .integer (signed 4 n)
    | 0xd3 => .word 8 fun n => .integer (signed 8 n)
    | 0xd4 => .extension (.known 1)
    | 0xd5 => .extension (.known 2)
    | 0xd6 => .extension (.known 4)
    | 0xd7 => .extension (.known 8)
    | 0xd8 => .extension (.known 16)
    | 0xd9 => .bytes (.written 1) .text
    | 0xda => .bytes (.written 2) .text
    | 0xdb => .bytes (.written 4) .text
    | 0xdc => .list (.written 2)
    | 0xdd => .list (.written 4)
    | 0xde => .table (.written 2)
    | 0xdf => .table (.written 4)
    | _ => .reserved

/-- The number that some bytes stand for, the high one first. -/
def ofBigEndian (bytes : List UInt8) : Nat := bytes.foldl (fun n b => n * 256 + b.toNat) 0

/-- The first `n` bytes and the rest. -/
def takeBytes (n : Nat) (bytes : List UInt8) : Option (List UInt8 × List UInt8) :=
  let front := bytes.take n
  if front.length = n then some (front, bytes.drop n) else none

/-- The number in the first `width` bytes and the rest. -/
def takeWord (width : Nat) (bytes : List UInt8) : Option (Nat × List UInt8) :=
  (takeBytes width bytes).map fun (word, rest) => (ofBigEndian word, rest)

def Size.read : Size → List UInt8 → Option (Nat × List UInt8)
  | known n, bytes => some (n, bytes)
  | written width, bytes => takeWord width bytes

/-- As many values as asked for, one after another. -/
def readMany {α : Type} (read : List UInt8 → Option (α × List UInt8)) :
    Nat → List UInt8 → Option (List α × List UInt8)
  | 0, bytes => some ([], bytes)
  | n + 1, bytes => do
    let (x, rest) ← read bytes
    let (xs, rest) ← readMany read n rest
    some (x :: xs, rest)

/-- Two values, one after the other. -/
def readPair {α : Type} (read : List UInt8 → Option (α × List UInt8)) (bytes : List UInt8) :
    Option ((α × α) × List UInt8) := do
  let (x, rest) ← read bytes
  let (y, rest) ← read rest
  some ((x, y), rest)

/-- The value at the front of some bytes, nested no deeper than `depth`, and the
bytes after it. -/
def readItem : Nat → List UInt8 → Option (Item × List UInt8)
  | _, [] => none
  | depth, b :: rest =>
    match Lead.ofByte b with
    | .whole item => some (item, rest)
    | .word width make => (takeWord width rest).map fun (n, rest) => (make n, rest)
    | .bytes size make => do
      let (n, rest) ← size.read rest
      let (content, rest) ← takeBytes n rest
      some (make content, rest)
    | .list size =>
      match depth with
      | 0 => none
      | depth + 1 => do
        let (n, rest) ← size.read rest
        let (items, rest) ← readMany (readItem depth) n rest
        some (.list items, rest)
    | .table size =>
      match depth with
      | 0 => none
      | depth + 1 => do
        let (n, rest) ← size.read rest
        let (entries, rest) ← readMany (readPair (readItem depth)) n rest
        some (.table entries, rest)
    | .extension size =>
      match depth with
      | 0 => none
      | _ + 1 => do
        let (n, rest) ← size.read rest
        let (kind, rest) ← takeBytes 1 rest
        let (content, rest) ← takeBytes n rest
        some (.extension (kind.headD 0) content, rest)
    | .reserved => none

/-- The nesting that a reader of whole messages allows. -/
def depthLimit : Nat := 1023

end EntityWorld.Pack
