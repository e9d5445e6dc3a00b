import OnePass.Bytes.Basic

/-! # Reading bytes

A `Reader` consumes a front part of a byte sequence. It answers with a value or with the reason why
there is none, and in both cases with the bytes it left unread: a failing reader has consumed the
parts it read before the failing one. The primitive readers `byte` and `take` consume nothing when
they fail. -/

namespace OnePass

/-- A reader of a byte sequence: what it found, or why it failed, and the bytes left unread. -/
def Reader (α : Type) : Type := List UInt8 → Except FormatError α × List UInt8

namespace Reader

variable {α β : Type}

instance : Monad Reader where
  pure a := fun bytes => (.ok a, bytes)
  bind r f := fun bytes =>
    match r bytes with
    | (.ok a, rest) => f a rest
    | (.error e, rest) => (.error e, rest)

/-- The reader that fails and consumes nothing. -/
def fail (error : FormatError) : Reader α := fun bytes => (.error error, bytes)

/-- The value of an option, or a failure. -/
def ofOption (error : FormatError) : Option α → Reader α
  | some a => pure a
  | none => fail error

/-- The next byte. -/
def byte : Reader UInt8
  | [] => (.error .unexpectedEnd, [])
  | b :: rest => (.ok b, rest)

/-- The next `count` bytes. -/
def take (count : Nat) : Reader (List UInt8) := fun bytes =>
  if count ≤ bytes.length then (.ok (bytes.take count), bytes.drop count)
  else (.error .unexpectedEnd, bytes)

/-- A number of `width` bytes. -/
def number (width : Nat) : Reader Nat := do
  let digits ← take width
  return leNat digits

/-- A two-byte number. -/
def u16 : Reader UInt16 := do return UInt16.ofNat (← number 2)

/-- A four-byte number. -/
def u32 : Reader UInt32 := do return UInt32.ofNat (← number 4)

/-- An eight-byte number. -/
def u64 : Reader UInt64 := do return UInt64.ofNat (← number 8)

/-- A truth value: the byte 0 or 1. -/
def bool : Reader Bool := do
  let b ← byte
  if b == 0 then return false
  else if b == 1 then return true
  else fail (.invalidBool b)

/-- A text: its length in bytes, then its UTF-8 bytes. -/
def string : Reader String := do
  let length ← number 4
  let bytes ← take length
  ofOption .invalidUtf8 (String.fromUTF8? bytes.toByteArray)

/-- A value that is stored as one byte. -/
def tagged (field : String) (ofByte? : UInt8 → Option α) : Reader α := do
  let tag ← byte
  ofOption (.invalidTag field tag) (ofByte? tag)

/-- A byte of flags, none of them outside `known`. -/
def flags (known : UInt8) : Reader UInt8 := do
  let bits ← byte
  if bits &&& ~~~known == 0 then return bits
  else fail (.unsupportedFlags bits.toUInt16)

/-- A value that is read `count` times. -/
def replicate (r : Reader α) : Nat → Reader (List α)
  | 0 => pure []
  | count + 1 => do
    let a ← r
    let rest ← replicate r count
    return a :: rest

/-- A list: its length, then its elements. -/
def counted (r : Reader α) : Reader (List α) := do
  let count ← number 4
  replicate r count

/-- An optional value: a truth value that says whether the value follows. -/
def optional (r : Reader α) : Reader (Option α) := do
  if ← bool then return some (← r) else return none

/-- Whether all bytes are read. -/
def atEnd : Reader Bool := fun bytes => (.ok bytes.isEmpty, bytes)

/-- Succeeds when all bytes are read. -/
def finish : Reader Unit := do
  if ← atEnd then return () else fail .trailingBytes

/-- Succeeds on the bytes that every file of a format starts with. -/
def magic (expected : List UInt8) : Reader Unit := do
  let found ← take expected.length
  if found == expected then return () else fail (.invalidMagic found)

/-- Succeeds on the version number of a format. -/
def version (expected : UInt16) : Reader Unit := do
  let found ← u16
  if found == expected then return () else fail (.unsupportedVersion found)

/-- A stretch of bytes with its own length, read to its end by `r`. -/
def framed (r : Reader α) : Reader α := do
  let length ← number 4
  let bytes ← take length
  match (do let a ← r; finish; return a : Reader α) bytes with
  | (.ok a, _) => return a
  | (.error e, _) => fail e

/-- What a reader finds in a whole byte sequence. -/
def run (r : Reader α) (bytes : List UInt8) : Except FormatError α :=
  ((do let a ← r; finish; return a : Reader α) bytes).1

end Reader

end OnePass
