import OnePass.Token.Basic
import OnePass.Bytes.Reader
import OnePass.Bytes.Writer

/-! # Token files

A token file is `TKNS`, the version, the header, the platform byte and the counted list of tokens. A
token is a tag byte followed by its payload. `TokenStream.write` gives the bytes of a stream,
`TokenStream.read` the stream of some bytes. -/

namespace OnePass

/-- The bytes of a literal: its tag, then its value. -/
def Literal.write (literal : Literal) : Written :=
  .concat [.byte literal.tag, payload literal]
where
  /-- the bytes after the tag -/
  payload : Literal → Written
    | .null => .bytes []
    | .int value => .number 4 value.toUInt32.toNat
    | .string value => .string "string value" value
    | .sbyte value => .number 1 value.toUInt8.toNat
    | .bool value => .bool value
    | .char value => .number 4 value.toNat
    | .float bits => .number 4 bits.toNat
    | .short value => .number 2 value.toUInt16.toNat
    | .long value => .number 8 value.toUInt64.toNat
    | .double bits => .number 8 bits.toNat

/-- The character with the given scalar value. -/
def charOfScalar? (scalar : UInt32) : Option Char :=
  if h : scalar.isValidChar then some ⟨scalar, h⟩ else none

/-- Reads a literal. -/
def Literal.read : Reader Literal := do
  let tag ← .byte
  match tag with
  | 0 => return .null
  | 1 => return .int (← .u32).toInt32
  | 2 => return .string (← .string)
  | 3 => return .sbyte (UInt8.ofNat (← .number 1)).toInt8
  | 4 => return .bool (← .bool)
  | 5 =>
    let scalar ← .u32
    return .char (← .ofOption (.invalidChar scalar) (charOfScalar? scalar))
  | 6 => return .float (← .u32)
  | 7 => return .short (← .u16).toInt16
  | 8 => return .long (← .u64).toInt64
  | 9 => return .double (← .u64)
  | tag => .fail (.invalidTag "value" tag)

namespace Token

/-- The byte that introduces a token in a file. -/
def tag : Token → UInt8
  | newLine => 0
  | classOpen .. => 1
  | function .. => 2
  | var .. => 3
  | block _ => 4
  | statement _ => 5
  | sequence _ => 6
  | literal _ => 7
  | separator _ => 8
  | expressionEnd => 9
  | operator _ => 10
  | value _ => 11
  | directive => 12
  | enterNamespace _ => 13
  | usingNamespace _ => 14
  | importLibrary _ => 15
  | includeModule _ => 16
  | extendsClause => 17
  | implementsClause => 18
  | returnValue => 19
  | breakpoint => 20
  | new => 21
  | label _ => 22
  | goto _ => 23
  | actual _ => 24
  | async _ => 25
  | parameterType _ => 26
  | reserved word => word.toByte

/-- The bytes of a token: its tag, then its payload. -/
def write (token : Token) : Written :=
  .concat [.byte token.tag, payload token]
where
  /-- the bytes after the tag -/
  payload : Token → Written
    | classOpen name kind visibility =>
      .concat [.string "class name" name, .byte kind.toByte, .byte visibility.toByte]
    | function name returnType kind visibility =>
      .concat [.string "function name" name, .string "return type" returnType, .byte kind.toByte,
        .byte visibility.toByte]
    | var name typeName isFinal =>
      .concat [.string "var name" name, .string "var type" typeName, .bool isFinal]
    | block opens | statement opens | sequence opens => .bool opens
    | literal text => .string "literal" text
    | separator kind => .bool (kind == .member)
    | operator op => .byte op.toByte
    | value content => content.write
    | enterNamespace name => .string "namespace" name
    | usingNamespace name => .string "using namespace" name
    | importLibrary path => .string "library path" path
    | includeModule path => .string "include path" path
    | label name => .string "label" name
    | goto name => .string "goto label" name
    | actual flag | async flag | parameterType flag => .bool flag
    | newLine | expressionEnd | directive | extendsClause | implementsClause | returnValue | breakpoint
    | new | reserved _ => .bytes []

/-- Reads a token. -/
def read : Reader Token := do
  let tag ← .byte
  match tag with
  | 0 => return newLine
  | 1 =>
    let name ← .string
    let kind ← .tagged "class kind" ClassKind.ofByte?
    let visibility ← .tagged "visibility" Visibility.ofByte?
    return classOpen name kind visibility
  | 2 =>
    let name ← .string
    let returnType ← .string
    let kind ← .tagged "function kind" FuncKind.ofByte?
    let visibility ← .tagged "visibility" Visibility.ofByte?
    return function name returnType kind visibility
  | 3 => return var (← .string) (← .string) (← .bool)
  | 4 => return block (← .bool)
  | 5 => return statement (← .bool)
  | 6 => return sequence (← .bool)
  | 7 => return literal (← .string)
  | 8 => return separator (if ← .bool then .member else .statement)
  | 9 => return expressionEnd
  | 10 => return operator (← .tagged "operator" Operator.ofByte?)
  | 11 => return value (← Literal.read)
  | 12 => return directive
  | 13 => return enterNamespace (← .string)
  | 14 => return usingNamespace (← .string)
  | 15 => return importLibrary (← .string)
  | 16 => return includeModule (← .string)
  | 17 => return extendsClause
  | 18 => return implementsClause
  | 19 => return returnValue
  | 20 => return breakpoint
  | 21 => return new
  | 22 => return label (← .string)
  | 23 => return goto (← .string)
  | 24 => return actual (← .bool)
  | 25 => return async (← .bool)
  | 26 => return parameterType (← .bool)
  | tag => return reserved (← .ofOption (.invalidTag "token" tag) (ReservedWord.ofByte? tag))

end Token

namespace TokenStream

/-- The bytes with which every token file starts: `TKNS`. -/
def magic : List UInt8 := [0x54, 0x4B, 0x4E, 0x53]

/-- The version of the token file format. -/
def version : UInt16 := 1

/-- The bytes of a token file. -/
def write (stream : TokenStream) : Written :=
  .concat [.bytes magic, .number 2 version.toNat, .byte stream.header.toByte, .byte stream.platform,
    .counted "tokens" Token.write stream.tokens]

/-- Reads a token file up to its last token. -/
def reader : Reader TokenStream := do
  .magic magic
  .version version
  let header ← .tagged "header" Header.ofByte?
  let platform ← .byte
  let tokens ← .counted Token.read
  return ⟨header, platform, tokens⟩

/-- The stream that some bytes hold. -/
def read (bytes : List UInt8) : Except FormatError TokenStream := reader.run bytes

end TokenStream

end OnePass
