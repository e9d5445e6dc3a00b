/-! # Bytes of a file format

What can be wrong with the bytes of a file (`FormatError`), and the little-endian digits in which
both file formats write numbers: `leBytes width n` are the lowest `width` base-256 digits of `n`,
lowest first, and `leNat` reads such digits back. -/

namespace OnePass

/-- Why bytes are not a file, or why a value has no file. -/
inductive FormatError where
  /-- the bytes stop inside a value -/
  | unexpectedEnd
  /-- the file starts with other bytes than its format asks for -/
  | invalidMagic (found : List UInt8)
  | unsupportedVersion (version : UInt16)
  | unsupportedFlags (flags : UInt16)
  /-- no value of the named kind is stored as this byte -/
  | invalidTag (field : String) (tag : UInt8)
  | invalidBool (value : UInt8)
  | invalidChar (value : UInt32)
  | invalidUtf8
  /-- a length or count that needs more than four bytes -/
  | lengthTooLarge (field : String) (length : Nat)
  /-- bytes are left over after the last value -/
  | trailingBytes
  deriving DecidableEq

namespace FormatError

/-- The name of the kind of a format error. -/
def name : FormatError → String
  | unexpectedEnd => "UnexpectedEof"
  | invalidMagic _ => "InvalidMagic"
  | unsupportedVersion _ => "UnsupportedVersion"
  | unsupportedFlags _ => "UnsupportedFlags"
  | invalidTag _ _ => "InvalidTag"
  | invalidBool _ => "InvalidBool"
  | invalidChar _ => "InvalidChar"
  | invalidUtf8 => "InvalidUtf8"
  | lengthTooLarge _ _ => "LengthTooLarge"
  | trailingBytes => "TrailingBytes"

/-- The text of a format error. -/
def message : FormatError → String
  | unexpectedEnd => "unexpected end of input"
  | invalidMagic found =>
    "invalid magic: [" ++ ", ".intercalate (found.map fun byte => toString byte.toNat) ++ "]"
  | unsupportedVersion version => s!"unsupported version: {version.toNat}"
  | unsupportedFlags flags => s!"unsupported flags: {flags.toNat}"
  | invalidTag field tag => s!"invalid {field} tag: {tag.toNat}"
  | invalidBool value => s!"invalid bool value: {value.toNat}"
  | invalidChar value => "invalid char scalar: 0x" ++ String.ofList (Nat.toDigits 16 value.toNat)
  | invalidUtf8 => "invalid utf-8 string"
  | lengthTooLarge field length => s!"{field} length too large: {length}"
  | trailingBytes => "trailing bytes after payload"

end FormatError

/-- The lowest `width` base-256 digits of `n`, lowest first. -/
def leBytes : (width n : Nat) → List UInt8
  | 0, _ => []
  | width + 1, n => UInt8.ofNat n :: leBytes width (n / 256)

/-- The number with the given base-256 digits, lowest first. -/
def leNat : List UInt8 → Nat
  | [] => 0
  | byte :: rest => byte.toNat + 256 * leNat rest

@[simp] theorem length_leBytes (width n : Nat) : (leBytes width n).length = width := by
  induction width generalizing n with
  | zero => rfl
  | succ width ih => simp [leBytes, ih]

-- Powers are those of the core library, also where an algebraic library is in scope.
attribute [local instance(high)] instPowNat

/-- Reading digits gives back the number, as far as the digits reach. -/
theorem leNat_leBytes (width n : Nat) : leNat (leBytes width n) = n % 256 ^ width := by
  induction width generalizing n with
  | zero => simp [leBytes, leNat, Nat.mod_one]
  | succ width ih =>
    have split : n % 256 ^ (width + 1) = n % 256 + 256 * (n / 256 % 256 ^ width) := by
      rw [Nat.pow_succ, Nat.mul_comm, Nat.mod_mul]
    simp [leBytes, leNat, ih, split]

/-- Digits are written as they were read. -/
theorem leBytes_leNat (digits : List UInt8) : leBytes digits.length (leNat digits) = digits := by
  induction digits with
  | nil => rfl
  | cons byte rest ih =>
    have low : (byte.toNat + 256 * leNat rest) / 256 = leNat rest := by
      have := byte.toNat_lt; omega
    have head : UInt8.ofNat (byte.toNat + 256 * leNat rest) = byte := by
      apply UInt8.toNat_inj.1
      have := byte.toNat_lt
      simp only [UInt8.toNat_ofNat']; omega
    simp only [List.length_cons, leBytes, leNat, low, head, ih]

end OnePass
