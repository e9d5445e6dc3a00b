import OnePass.Bytes.Basic

/-! # Writing bytes

The bytes of a value, or the reason why it has none: a length or a count that four bytes cannot hold
is the only obstacle. Parts are written one after the other with `Written.concat`. -/

namespace OnePass

/-- The bytes of a value, or why it cannot be written. -/
abbrev Written : Type := Except FormatError (List UInt8)

namespace Written

/-- Bytes that can always be written. -/
def bytes (list : List UInt8) : Written := .ok list

/-- One byte. -/
def byte (value : UInt8) : Written := .ok [value]

/-- A truth value: the byte 0 or 1. -/
def bool (value : Bool) : Written := .ok [if value then 1 else 0]

/-- A number of `width` bytes. -/
def number (width n : Nat) : Written := .ok (leBytes width n)

-- Powers are those of the core library, also where an algebraic library is in scope.
attribute [local instance(high)] instPowNat

/-- A length or count, in four bytes. -/
def length (field : String) (n : Nat) : Written :=
  if n < 2 ^ (32 : Nat) then .ok (leBytes 4 n) else .error (.lengthTooLarge field n)

/-- One part after the other; the first part that cannot be written decides. -/
def concat : List Written → Written
  | [] => .ok []
  | part :: rest => do
    let front ← part
    let back ← concat rest
    return front ++ back

/-- A text: its length in bytes, then its UTF-8 bytes. -/
def string (field : String) (text : String) : Written :=
  concat [length field text.utf8ByteSize, bytes text.toUTF8.data.toList]

/-- A list: its length, then its elements. -/
def counted {α : Type} (field : String) (write : α → Written) (list : List α) : Written :=
  concat (length field list.length :: list.map write)

/-- An optional value: a truth value that says whether the value follows. -/
def optional {α : Type} (write : α → Written) : Option α → Written
  | some a => concat [byte 1, write a]
  | none => byte 0

end Written

end OnePass
