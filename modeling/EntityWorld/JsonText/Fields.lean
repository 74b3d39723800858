/-
# JSON text: records

A record is an object whose members are its fields in any order, or an array of
its fields in their order. Of an object, members that are no field are passed
over; a field given twice is refused before its value is read. Of an array, the
last fields may be missing, but nothing may follow the last one. What missing
fields mean is for the caller to say.

Key definitions: `RecordField`, `readRecord`, `parseRecord`, `readNatural`, `readWord`.
-/
import EntityWorld.JsonText.Skip

namespace EntityWorld.JsonText

/-- One field of a record of which `σ` is what has been read so far. -/
structure RecordField (σ : Type) where
  name : String
  /-- Whether the field has been read. -/
  isSet : σ → Bool
  read : σ → List Char → Except Fault (σ × List Char)

/-! ### Values of fields -/

/-- Reads a natural number below a limit. -/
def readNatural (limit : Nat) (cs : List Char) : Except Fault (Nat × List Char) :=
  match skipBlank cs with
  | [] => .error .truncated
  | c :: rest =>
    if c == '-' || c.isDigit then do
      let (number, rest) ← scanNumber .truncated (c :: rest)
      match number.toNat? with
      | some n => if n < limit then .ok (n, rest) else .error number.fault
      | none => .error number.fault
    else .error (mismatchAt (c :: rest))

/-- Reads a `null`. -/
def readNull (cs : List Char) : Except Fault (List Char) :=
  match skipBlank cs with
  | [] => .error .truncated
  | c :: rest => if c == 'n' then literal "ull".toList rest else .error (mismatchAt (c :: rest))

/-- Reads the end of an object with a single member. -/
def readObjectEnd (cs : List Char) : Except Fault (List Char) :=
  match skipBlank cs with
  | [] => .error .truncated
  | c :: rest => if c == '\x7d' then .ok rest else .error .malformed

/-- Reads one of some words, from after its opening quote. -/
def readKnown {α : Type} (ofWord : String → Option α) (cs : List Char) :
    Except Fault (α × List Char) := do
  let (word, rest) ← readString none cs
  match ofWord (String.ofList word) with
  | some a => .ok (a, rest)
  | none => .error .mismatch

/-- Reads one of some words: a string, or the name of the only member of an
object, its value being `null`. -/
def readWord {α : Type} (ofWord : String → Option α) (cs : List Char) :
    Except Fault (α × List Char) :=
  match skipBlank cs with
  | [] => .error .truncated
  | c :: rest =>
    if c == '"' then readKnown ofWord rest
    else if c == '\x7b' then
      match skipBlank rest with
      | [] => .error .truncated
      | c :: rest =>
        if c == '"' then do
          let (a, rest) ← readKnown ofWord rest
          let rest ← readColon rest
          let rest ← readNull rest
          let rest ← readObjectEnd rest
          .ok (a, rest)
        else .error .malformed
    else .error .malformed

/-! ### Records -/

variable {σ : Type}

/-- What comes before the name of a member: nothing or a comma, and a quote. -/
def readNameStart (first : Bool) (cs : List Char) : Except Fault (List Char) :=
  let quote : List Char → Except Fault (List Char)
    | [] => .error .truncated
    | c :: rest => if c == '"' then .ok rest else .error .malformed
  match first, cs with
  | true, cs => quote cs
  | false, [] => .error .truncated
  | false, c :: rest => if c == ',' then quote (skipBlank rest) else .error .malformed

/-- Reads the value of a member by its name. -/
def readMember (fields : List (RecordField σ)) (name : String) (s : σ) (cs : List Char) :
    Except Fault (σ × List Char) :=
  match fields.find? (·.name == name) with
  | some field =>
    if field.isSet s then .error .mismatch
    else do
      let rest ← readColon cs
      field.read s rest
  | none => do
    let rest ← readColon cs
    let rest ← skipValue rest
    .ok (s, rest)

/-- Reads the members of an object and its end, at most `fuel` members. -/
def readMembers (fields : List (RecordField σ)) : Nat → Bool → σ → List Char →
    Except Fault (σ × List Char)
  | 0, _, _, _ => .error .truncated
  | fuel + 1, first, s, cs =>
    match skipBlank cs with
    | [] => .error .truncated
    | c :: rest =>
      if c == '\x7d' then .ok (s, rest)
      else do
        let rest ← readNameStart first (c :: rest)
        let (name, rest) ← readString none rest
        let (s, rest) ← readMember fields (String.ofList name) s rest
        readMembers fields fuel false s rest

/-- Reads the items of an array and its end. -/
def readElements : List (RecordField σ) → Bool → σ → List Char → Except Fault (σ × List Char)
  | [], _, s, cs =>
    match skipBlank cs with
    | [] => .error .truncated
    | c :: rest => if c == ']' then .ok (s, rest) else .error .malformed
  | field :: fields, first, s, cs =>
    match skipBlank cs with
    | [] => .error .truncated
    | c :: rest =>
      if c == ']' then .ok (s, rest)
      else if first then do
        let (s, rest) ← field.read s (c :: rest)
        readElements fields false s rest
      else if c == ',' then
        match skipBlank rest with
        | [] => .error .truncated
        | c :: rest =>
          if c == ']' then .error .malformed
          else do
            let (s, rest) ← field.read s (c :: rest)
            readElements fields false s rest
      else .error .malformed

/-- Reads a record. An object has fewer members than its text has characters. -/
def readRecord (fields : List (RecordField σ)) (start : σ) (cs : List Char) :
    Except Fault (σ × List Char) :=
  match skipBlank cs with
  | [] => .error .truncated
  | c :: rest =>
    if c == '\x7b' then readMembers fields (rest.length + 1) true start rest
    else if c == '[' then readElements fields true start rest
    else .error (mismatchAt (c :: rest))

/-- Reads a whole text as a record. `finish` says what the fields read make. -/
def parseRecord {α : Type} (fields : List (RecordField σ)) (start : σ) (finish : σ → Except Fault α)
    (text : String) : Except Fault α := do
  let (s, rest) ← readRecord fields start text.toList
  let a ← finish s
  if (skipBlank rest).isEmpty then .ok a else .error .malformed

end EntityWorld.JsonText
