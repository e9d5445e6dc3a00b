import OnePass.Options.Basic

/-! # Options from JSON

Build options are written as a JSON object whose members are options, or as a JSON array that gives
the options in their order. What is missing keeps its default. A member that is no option is
skipped, whatever it holds; an option that comes twice is refused. The text is read from front to
back, and the first mistake decides. -/

namespace OnePass

/-- Why a text holds no options. -/
inductive OptionsError where
  /-- the text is not JSON, or an option has a value of another form than it should -/
  | malformed
  /-- no header has the name; line and column are where reading stopped -/
  | unknownHeader (name : String) (line column : Nat)
  deriving DecidableEq

/-- What is wrong with a text, without the position. -/
def OptionsError.summary : OptionsError → String
  | malformed => "invalid config: malformed options"
  | unknownHeader name _ _ => s!"invalid config: unknown header kind '{name}'"

/-- What is wrong with a text. -/
def OptionsError.message : OptionsError → String
  | malformed => malformed.summary
  | unknownHeader name line column =>
    s!"{(unknownHeader name line column).summary} at line {line} column {column}"

namespace Json

/-! ## Characters -/

/-- Whether a character may stand between the parts of a JSON text. -/
def isBlank (c : Char) : Bool := c == ' ' || c == '\t' || c == '\n' || c == '\r'

/-- Drops blanks at the front. -/
def skipBlanks (text : List Char) : List Char := text.dropWhile isBlank

/-- The opening brace of an object. -/
def openBrace : Char := '\x7b'

/-- The closing brace of an object. -/
def closeBrace : Char := '\x7d'

/-- The value of a hexadecimal digit. -/
def hexDigit? (c : Char) : Option Nat :=
  if c.isDigit then some (c.toNat - '0'.toNat)
  else if 'a' ≤ c && c ≤ 'f' then some (c.toNat - 'a'.toNat + 10)
  else if 'A' ≤ c && c ≤ 'F' then some (c.toNat - 'A'.toNat + 10)
  else none

/-- The number with the given hexadecimal digits. -/
def hexNumber? (digits : List Char) : Option Nat :=
  digits.foldlM (fun n c => (hexDigit? c).map (16 * n + ·)) 0

/-- The character of an escape with one letter. -/
def simpleEscape? : Char → Option Char
  | '"' => some '"'
  | '\\' => some '\\'
  | '/' => some '/'
  | 'b' => some '\x08'
  | 'f' => some '\x0c'
  | 'n' => some '\n'
  | 'r' => some '\r'
  | 't' => some '\t'
  | _ => none

/-- Whether a number is the first half of a pair that stands for one character. -/
def isHighHalf (n : Nat) : Bool := 0xD800 ≤ n && n ≤ 0xDBFF

/-- Whether a number is the second half of a pair that stands for one character. -/
def isLowHalf (n : Nat) : Bool := 0xDC00 ≤ n && n ≤ 0xDFFF

/-! ## Texts -/

/-- One character of a text between quotes. -/
inductive Piece where
  /-- a character as it is or behind a backslash -/
  | plain (c : Char)
  /-- a sixteen-bit unit given by its number -/
  | unit (n : Nat)
  /-- the quote that ends the text -/
  | quote

/-- The next piece of a text between quotes, and what follows it. -/
def nextPiece? : List Char → Option (Piece × List Char)
  | [] => none
  | '"' :: rest => some (.quote, rest)
  | '\\' :: 'u' :: a :: b :: c :: d :: rest => (hexNumber? [a, b, c, d]).map fun n => (.unit n, rest)
  | '\\' :: c :: rest => (simpleEscape? c).map fun c => (.plain c, rest)
  | c :: rest => if c == '\\' || c.toNat < 0x20 then none else some (.plain c, rest)

/-- The characters up to the quote that ends a text, and what follows it. Halves of pairs must come
in pairs. -/
def textChars? : (fuel : Nat) → List Char → Option (List Char × List Char)
  | 0, _ => none
  | fuel + 1, text =>
    match nextPiece? text with
    | none => none
    | some (.quote, rest) => some ([], rest)
    | some (.plain c, rest) => (textChars? fuel rest).map fun (chars, rest) => (c :: chars, rest)
    | some (.unit n, rest) =>
      if isLowHalf n then none
      else if isHighHalf n then
        match nextPiece? rest with
        | some (.unit low, rest) =>
          if isLowHalf low then
            let c := Char.ofNat (0x10000 + (n - 0xD800) * 0x400 + (low - 0xDC00))
            (textChars? fuel rest).map fun (chars, rest) => (c :: chars, rest)
          else none
        | _ => none
      else (textChars? fuel rest).map fun (chars, rest) => (Char.ofNat n :: chars, rest)

/-- Skips the characters up to the quote that ends a text. Halves of pairs may stand alone. -/
def skipText? : (fuel : Nat) → List Char → Option (List Char)
  | 0, _ => none
  | fuel + 1, text =>
    match nextPiece? text with
    | none => none
    | some (.quote, rest) => some rest
    | some (_, rest) => skipText? fuel rest

/-- A text between quotes, behind blanks. -/
def string? (text : List Char) : Option (String × List Char) :=
  match skipBlanks text with
  | '"' :: rest => (textChars? (rest.length + 1) rest).map fun (chars, rest) => (String.ofList chars, rest)
  | _ => none

/-! ## Skipping values -/

/-- Skips at least one digit. -/
def skipDigits? (text : List Char) : Option (List Char) :=
  match text with
  | c :: rest => if c.isDigit then some (rest.dropWhile Char.isDigit) else none
  | [] => none

/-- Skips the digits before the point: a zero stands alone. -/
def skipWhole? : List Char → Option (List Char)
  | '0' :: rest => if rest.head?.any Char.isDigit then none else some rest
  | text => skipDigits? text

/-- Skips the digits behind the point. -/
def skipFraction? : List Char → Option (List Char)
  | '.' :: rest => skipDigits? rest
  | text => some text

/-- Skips a power of ten. -/
def skipExponent? (text : List Char) : Option (List Char) :=
  match text with
  | 'e' :: '+' :: rest | 'e' :: '-' :: rest | 'E' :: '+' :: rest | 'E' :: '-' :: rest
  | 'e' :: rest | 'E' :: rest => skipDigits? rest
  | _ => some text

/-- Skips a number. -/
def skipNumber? (text : List Char) : Option (List Char) := do
  let text :=
    match text with
    | '-' :: rest => rest
    | text => text
  skipExponent? (← skipFraction? (← skipWhole? text))

/-- Skips a value that is no array or object. -/
def skipScalar? : List Char → Option (List Char)
  | '"' :: rest => skipText? (rest.length + 1) rest
  | 'n' :: 'u' :: 'l' :: 'l' :: rest => some rest
  | 't' :: 'r' :: 'u' :: 'e' :: rest => some rest
  | 'f' :: 'a' :: 'l' :: 's' :: 'e' :: rest => some rest
  | text => skipNumber? text

/-- What is expected next while a value is skipped. -/
inductive Expected where
  | value
  /-- an item or the end of a bracket that was just opened -/
  | firstItem
  /-- what follows a value -/
  | more

/-- Skips the name of a member and the colon behind it. -/
def skipKey? (text : List Char) : Option (List Char) := do
  match skipBlanks text with
  | '"' :: rest =>
    match skipBlanks (← skipText? (rest.length + 1) rest) with
    | ':' :: rest => some rest
    | _ => none
  | _ => none

/-- Skips the beginning of an item, which in an object is the name of a member. -/
def skipItemStart? (bracket : Char) (text : List Char) : Option (List Char) :=
  if bracket == openBrace then skipKey? text else some text

/-- Whether a character closes a bracket. -/
def closes (bracket c : Char) : Bool := if bracket == openBrace then c == closeBrace else c == ']'

/-- Skips a value. `brackets` are the brackets around the place, innermost first. -/
def skip? : (fuel : Nat) → (brackets : List Char) → Expected → List Char → Option (List Char)
  | 0, _, _, _ => none
  | fuel + 1, brackets, .value, text =>
    match skipBlanks text with
    | [] => none
    | c :: rest =>
      if c == '[' || c == openBrace then skip? fuel (c :: brackets) .firstItem rest
      else do skip? fuel brackets .more (← skipScalar? (c :: rest))
  | _ + 1, [], _, text => some text
  | fuel + 1, bracket :: brackets, .firstItem, text =>
    match skipBlanks text with
    | [] => none
    | c :: rest =>
      if closes bracket c then skip? fuel brackets .more rest
      else do skip? fuel (bracket :: brackets) .value (← skipItemStart? bracket (c :: rest))
  | fuel + 1, bracket :: brackets, .more, text =>
    match skipBlanks text with
    | [] => none
    | c :: rest =>
      if closes bracket c then skip? fuel brackets .more rest
      else if c == ',' then do skip? fuel (bracket :: brackets) .value (← skipItemStart? bracket rest)
      else none

/-- Skips a value of any form. -/
def skipValue? (text : List Char) : Option (List Char) := skip? (2 * text.length + 3) [] .value text

end Json

/-! ## Options -/

namespace BuildOptions

/-- A reader of JSON text that may be refused. -/
abbrev JsonReader (α : Type) : Type := List Char → Except OptionsError (α × List Char)

/-- What was found, or else a malformed text. -/
def expected {α : Type} : Option α → Except OptionsError α
  | some a => .ok a
  | none => .error .malformed

/-- An option that is a text. -/
def readText : JsonReader String := fun text => expected (Json.string? text)

/-- The kind of output with a full name. -/
def outputNamed? (name : String) : Option OutputKind := OutputKind.all.find? (·.name == name)

/-- A kind of output: its name, or an object that maps its name to null. -/
def readOutput : JsonReader OutputKind := fun text =>
  match Json.skipBlanks text with
  | [] => .error .malformed
  | c :: rest =>
    if c == Json.openBrace then do
      let (name, rest) ← expected (Json.string? rest)
      let output ← expected (outputNamed? name)
      match Json.skipBlanks rest with
      | ':' :: rest =>
        match Json.skipBlanks rest with
        | 'n' :: 'u' :: 'l' :: 'l' :: rest =>
          match Json.skipBlanks rest with
          | c :: rest => if c == Json.closeBrace then .ok (output, rest) else .error .malformed
          | [] => .error .malformed
        | _ => .error .malformed
      | _ => .error .malformed
    else do
      let (name, rest) ← expected (Json.string? (c :: rest))
      return (← expected (outputNamed? name), rest)

-- The empty sum is the zero of the core library, also where an algebraic library is in scope.
attribute [local instance(high)] Zero.ofOfNat0

/-- Where the reading of a text stopped: the line, and the bytes behind its beginning. -/
def positionOf (consumed : List Char) : Nat × Nat :=
  (1 + consumed.count '\n', ((consumed.reverse.takeWhile (· != '\n')).map (·.utf8Size)).sum)

/-- Where reading stops after a mistake in an option: behind the bracket that closes the options, or
the comma of an array, if it comes next. -/
def stopAfter (isArray : Bool) (rest : List Char) : List Char :=
  match Json.skipBlanks rest with
  | [] => []
  | c :: after =>
    if isArray then
      if c == ']' then after else if c == ',' then Json.skipBlanks after else c :: after
    else if c == Json.closeBrace then after
    else c :: after

/-- A header, by its name. `whole` is the text from its beginning. -/
def readHeader (whole : List Char) (isArray : Bool) : JsonReader Header := fun text => do
  let (name, rest) ← readText text
  match Header.ofName? name with
  | some header => .ok (header, rest)
  | none =>
    let stop := stopAfter isArray rest
    let (line, column) := positionOf (whole.take (whole.length - stop.length))
    .error (.unknownHeader name line column)

/-- The names of the options, in order. -/
def optionNames : List String :=
  ["header", "output", "app_name", "version", "file_name", "main_class_name", "library_dir", "base_dir"]

/-- Reads the value of an option. -/
def readOption (whole : List Char) (isArray : Bool) (name : String) (options : BuildOptions) :
    JsonReader BuildOptions := fun text => do
  match name with
  | "header" =>
    let (header, rest) ← readHeader whole isArray text
    return ({ options with header := header }, rest)
  | "output" =>
    let (output, rest) ← readOutput text
    return ({ options with output := output }, rest)
  | _ =>
    let (value, rest) ← readText text
    match name with
    | "app_name" => return ({ options with appName := value }, rest)
    | "version" => return ({ options with version := value }, rest)
    | "file_name" => return ({ options with fileName := value }, rest)
    | "main_class_name" => return ({ options with mainClassName := value }, rest)
    | "library_dir" => return ({ options with libraryDir := ⟨value⟩ }, rest)
    | _ => return ({ options with baseDir := ⟨value⟩ }, rest)

/-- Reads one member of an object: an option that was not yet given, or anything else, which is
skipped. -/
def readMember (whole : List Char) (seen : List String) (options : BuildOptions) :
    JsonReader (List String × BuildOptions) := fun text => do
  let (name, rest) ← readText text
  if seen.contains name then .error .malformed
  else
    match Json.skipBlanks rest with
    | ':' :: rest =>
      if optionNames.contains name then
        let (options, rest) ← readOption whole false name options rest
        return ((name :: seen, options), rest)
      else return ((seen, options), ← expected (Json.skipValue? rest))
    | _ => .error .malformed

/-- Reads the members of an object after its opening brace. -/
def readMembers (whole : List Char) :
    (fuel : Nat) → (first : Bool) → (seen : List String) → BuildOptions → JsonReader BuildOptions
  | 0, _, _, _, _ => .error .malformed
  | fuel + 1, first, seen, options, text =>
    match Json.skipBlanks text with
    | [] => .error .malformed
    | c :: rest =>
      if c == Json.closeBrace then .ok (options, rest)
      else do
        let start ← if first then .ok (c :: rest) else if c == ',' then .ok rest else .error .malformed
        let ((seen, options), rest) ← readMember whole seen options start
        readMembers whole fuel false seen options rest

/-- Reads the items of an array after its opening bracket, as the options with the given names. -/
def readItems (whole : List Char) (first : Bool) :
    (names : List String) → BuildOptions → JsonReader BuildOptions
  | [], options, text =>
    match Json.skipBlanks text with
    | ']' :: rest => .ok (options, rest)
    | _ => .error .malformed
  | name :: names, options, text =>
    match Json.skipBlanks text with
    | ']' :: rest => .ok (options, rest)
    | text => do
      let start ←
        if first then .ok text
        else
          match text with
          | ',' :: rest => .ok rest
          | _ => .error .malformed
      let (options, rest) ← readOption whole true name options start
      readItems whole false names options rest

/-- The options that a JSON text holds. -/
def ofJson (text : String) : Except OptionsError BuildOptions := do
  let whole := text.toList
  let (options, rest) ←
    match Json.skipBlanks whole with
    | [] => .error .malformed
    | c :: rest =>
      if c == Json.openBrace then readMembers whole (rest.length + 1) true [] {} rest
      else if c == '[' then readItems whole true optionNames {} rest
      else .error .malformed
  if (Json.skipBlanks rest).isEmpty then return options else .error .malformed

end BuildOptions

end OnePass
