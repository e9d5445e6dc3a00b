/-! # The closed vocabularies of a token file

Every enumeration that a token can carry: what a whole file is for (`Header`), how a class, a
function or a member is declared (`ClassKind`, `FuncKind`, `Visibility`), the operators, the literal
values, the separators, and the words that are read but never lowered (`ReservedWord`).

An enumeration that is stored as one byte has a `toByte` and a partial inverse `ofByte?`; the lemma
`ofByte?_toByte` says that reading the byte of a value gives the value back. -/

namespace OnePass

/-! ## File headers -/

/-- What a whole token file is for. -/
inductive Header where
  /-- a module of types for other programs -/
  | library
  /-- a program with a text console -/
  | console
  /-- a program with windows -/
  | gui
  /-- a file whose whole body is one class -/
  | singleClass
  /-- a file whose top level is the body of the main function -/
  | script
  /-- tokens that other files splice in -/
  | tokensLibrary
  /-- a program that drives a build and leaves no module behind -/
  | buildScript
  deriving DecidableEq, Repr

namespace Header

/-- All headers, in the order of their bytes. -/
def all : List Header :=
  [library, console, gui, singleClass, script, tokensLibrary, buildScript]

/-- The byte that stands for a header in a file. -/
def toByte : Header → UInt8
  | library => 0
  | console => 1
  | gui => 2
  | singleClass => 3
  | script => 4
  | tokensLibrary => 5
  | buildScript => 6

/-- The header that a byte stands for. -/
def ofByte? (byte : UInt8) : Option Header := all[byte.toNat]?

/-- The name of a header, as configurations and messages spell it. -/
def name : Header → String
  | library => "library"
  | console => "console"
  | gui => "gui"
  | singleClass => "class"
  | script => "script"
  | tokensLibrary => "tokens-library"
  | buildScript => "build-script"

/-- The header with the given name. -/
def ofName? (text : String) : Option Header := all.find? (·.name == text)

/-- Whether the file describes one implicit class. -/
def isClassLike (header : Header) : Bool := header == singleClass

end Header

/-! ## Declarations -/

/-- How a class is declared. -/
inductive ClassKind where
  | plain
  | static
  | interface
  | struct
  | abstract
  | sealed
  | enum
  deriving DecidableEq, Repr

namespace ClassKind

/-- All class kinds, in the order of their bytes. -/
def all : List ClassKind := [plain, static, interface, struct, abstract, sealed, enum]

/-- The byte that stands for a class kind in a file. -/
def toByte : ClassKind → UInt8
  | plain => 0
  | static => 1
  | interface => 2
  | struct => 3
  | abstract => 4
  | sealed => 5
  | enum => 6

/-- The class kind that a byte stands for. -/
def ofByte? (byte : UInt8) : Option ClassKind := all[byte.toNat]?

/-- The name of a class kind in a module listing. -/
def name : ClassKind → String
  | plain => "Default"
  | static => "Static"
  | interface => "Interface"
  | struct => "Struct"
  | abstract => "Abstract"
  | sealed => "Sealed"
  | enum => "Enum"

end ClassKind

/-- From where a declaration can be used. -/
inductive Visibility where
  /-- public: from anywhere -/
  | everywhere
  /-- private: inside the declaring type -/
  | ownType
  /-- protected: in the declaring type and the types derived from it -/
  | subtypes
  /-- internal: inside the declaring module -/
  | ownModule
  deriving DecidableEq, Repr

namespace Visibility

/-- All visibilities, in the order of their bytes. -/
def all : List Visibility := [everywhere, ownType, subtypes, ownModule]

/-- The byte that stands for a visibility in a file. -/
def toByte : Visibility → UInt8
  | everywhere => 0
  | ownType => 1
  | subtypes => 2
  | ownModule => 3

/-- The visibility that a byte stands for. -/
def ofByte? (byte : UInt8) : Option Visibility := all[byte.toNat]?

/-- The name of a visibility. -/
def name : Visibility → String
  | everywhere => "Public"
  | ownType => "Private"
  | subtypes => "Protected"
  | ownModule => "Internal"

end Visibility

/-- How a function is declared. -/
inductive FuncKind where
  | plain
  | static
  | virtual
  | abstract
  | override
  | constructor
  deriving DecidableEq, Repr

namespace FuncKind

/-- All function kinds, in the order of their bytes. -/
def all : List FuncKind := [plain, static, virtual, abstract, override, constructor]

/-- The byte that stands for a function kind in a file. -/
def toByte : FuncKind → UInt8
  | plain => 0
  | static => 1
  | virtual => 2
  | abstract => 3
  | override => 4
  | constructor => 5

/-- The function kind that a byte stands for. -/
def ofByte? (byte : UInt8) : Option FuncKind := all[byte.toNat]?

/-- The name of a function kind. -/
def name : FuncKind → String
  | plain => "Default"
  | static => "Static"
  | virtual => "Virtual"
  | abstract => "Abstract"
  | override => "Override"
  | constructor => "Constructor"

/-- Whether calls of such a function are dispatched on the receiver. -/
def isVirtual : FuncKind → Bool
  | virtual | abstract | override => true
  | _ => false

end FuncKind

/-! ## Operators -/

/-- The operators of the source language. -/
inductive Operator where
  | add
  | sub
  | mul
  | div
  | mod
  | eq
  | notEq
  | not
  | and
  | or
  | xor
  | gt
  | lt
  | gtEq
  | ltEq
  | assign
  | addAssign
  | subAssign
  | mulAssign
  | divAssign
  | modAssign
  | convertTo
  | inc
  | dec
  | within
  | range
  | pow
  deriving DecidableEq, Repr

namespace Operator

/-- All operators, in the order of their bytes. -/
def all : List Operator :=
  [.add, .sub, .mul, .div, .mod, .eq, .notEq, .not, .and, .or, .xor, .gt, .lt, .gtEq, .ltEq, .assign,
    .addAssign, .subAssign, .mulAssign, .divAssign, .modAssign, .convertTo, .inc, .dec, .within, .range,
    .pow]

/-- The byte that stands for an operator in a file. -/
def toByte : Operator → UInt8
  | .add => 0
  | .sub => 1
  | .mul => 2
  | .div => 3
  | .mod => 4
  | .eq => 5
  | .notEq => 6
  | .not => 7
  | .and => 8
  | .or => 9
  | .xor => 10
  | .gt => 11
  | .lt => 12
  | .gtEq => 13
  | .ltEq => 14
  | .assign => 15
  | .addAssign => 16
  | .subAssign => 17
  | .mulAssign => 18
  | .divAssign => 19
  | .modAssign => 20
  | .convertTo => 21
  | .inc => 22
  | .dec => 23
  | .within => 24
  | .range => 25
  | .pow => 26

/-- The operator that a byte stands for. -/
def ofByte? (byte : UInt8) : Option Operator := all[byte.toNat]?

/-- The name of an operator in messages. -/
def name : Operator → String
  | .add => "Add"
  | .sub => "Sub"
  | .mul => "Mul"
  | .div => "Div"
  | .mod => "Mod"
  | .eq => "Eq"
  | .notEq => "NotEq"
  | .not => "Not"
  | .and => "And"
  | .or => "Or"
  | .xor => "Xor"
  | .gt => "Gt"
  | .lt => "Lt"
  | .gtEq => "GtEq"
  | .ltEq => "LtEq"
  | .assign => "Assign"
  | .addAssign => "AddAssign"
  | .subAssign => "SubAssign"
  | .mulAssign => "MulAssign"
  | .divAssign => "DivAssign"
  | .modAssign => "ModAssign"
  | .convertTo => "ConvertTo"
  | .inc => "Inc"
  | .dec => "Dec"
  | .within => "In"
  | .range => "Range"
  | .pow => "Pow"

/-- The sign of an operator in source text. -/
def symbol : Operator → String
  | .add => "+"
  | .sub => "-"
  | .mul => "*"
  | .div => "/"
  | .mod => "%"
  | .eq => "=="
  | .notEq => "!="
  | .not => "!"
  | .and => "&&"
  | .or => "||"
  | .xor => "^"
  | .gt => ">"
  | .lt => "<"
  | .gtEq => ">="
  | .ltEq => "<="
  | .assign => "="
  | .addAssign => "+="
  | .subAssign => "-="
  | .mulAssign => "*="
  | .divAssign => "/="
  | .modAssign => "%="
  | .convertTo => "as"
  | .inc => "++"
  | .dec => "--"
  | .within => "in"
  | .range => ".."
  | .pow => "**"

/-- An operator as messages show it: its name, then its sign in parentheses. -/
def text (op : Operator) : String := s!"{op.name} ({op.symbol})"

/-- The operator that a compound assignment applies before it stores. -/
def compoundBase? : Operator → Option Operator
  | .addAssign => some .add
  | .subAssign => some .sub
  | .mulAssign => some .mul
  | .divAssign => some .div
  | .modAssign => some .mod
  | _ => none

end Operator

/-! ## Values, separators, reserved words -/

/-- A literal value. Floating-point values are kept as their bits, so that two literals are equal
exactly when they are written alike. -/
inductive Literal where
  | null
  | int (value : Int32)
  | string (value : String)
  | sbyte (value : Int8)
  | bool (value : Bool)
  | char (value : Char)
  | float (bits : UInt32)
  | short (value : Int16)
  | long (value : Int64)
  | double (bits : UInt64)
  deriving DecidableEq

/-- The byte that introduces a literal in a file. -/
def Literal.tag : Literal → UInt8
  | .null => 0
  | .int _ => 1
  | .string _ => 2
  | .sbyte _ => 3
  | .bool _ => 4
  | .char _ => 5
  | .float _ => 6
  | .short _ => 7
  | .long _ => 8
  | .double _ => 9

/-- The two separators. -/
inductive Separator where
  /-- the dot inside a dotted name -/
  | member
  /-- the comma between arguments, elements or statements -/
  | statement
  deriving DecidableEq, Repr

/-- Words of the language that are accepted anywhere and never lowered. -/
inductive ReservedWord where
  | loop
  | loopOperator
  | nullable
  | switchOn
  | caseOf
  | annotation
  | throwValue
  | tryBlock
  | catchBlock
  | finallyBlock
  | ifBranch
  | elseBranch
  | typeofTest
  | instanceofTest
  | withBlock
  | yieldValue
  | lambda
  | ref
  deriving DecidableEq, Repr

namespace ReservedWord

/-- All reserved words, in the order of their bytes. -/
def all : List ReservedWord :=
  [loop, loopOperator, nullable, switchOn, caseOf, annotation, throwValue, tryBlock, catchBlock,
    finallyBlock, ifBranch, elseBranch, typeofTest, instanceofTest, withBlock, yieldValue, lambda, ref]

/-- The byte that stands for a reserved word in a file. -/
def toByte : ReservedWord → UInt8
  | loop => 27
  | loopOperator => 28
  | nullable => 29
  | switchOn => 30
  | caseOf => 31
  | annotation => 32
  | throwValue => 33
  | tryBlock => 34
  | catchBlock => 35
  | finallyBlock => 36
  | ifBranch => 37
  | elseBranch => 38
  | typeofTest => 39
  | instanceofTest => 40
  | withBlock => 41
  | yieldValue => 42
  | lambda => 43
  | ref => 44

/-- The reserved word that a byte stands for: the words follow the tags of the other tokens. -/
def ofByte? (byte : UInt8) : Option ReservedWord :=
  if byte < 27 then none else all[byte.toNat - 27]?

/-- The name of a reserved word. -/
def name : ReservedWord → String
  | loop => "LOOP"
  | loopOperator => "LOOP_OPERATOR"
  | nullable => "NULLABLE"
  | switchOn => "SWITCH"
  | caseOf => "CASE"
  | annotation => "ANNOTATION"
  | throwValue => "THROW"
  | tryBlock => "TRY"
  | catchBlock => "CATCH"
  | finallyBlock => "FINALLY"
  | ifBranch => "IF"
  | elseBranch => "ELSE"
  | typeofTest => "TYPEOF"
  | instanceofTest => "INSTANCEOF"
  | withBlock => "WITH"
  | yieldValue => "YIELD"
  | lambda => "LAMBDA"
  | ref => "REF"

end ReservedWord

/-! ## One byte per value -/

@[simp] theorem Header.ofByte?_toByte (header : Header) : Header.ofByte? header.toByte = some header := by
  cases header <;> rfl

@[simp] theorem ClassKind.ofByte?_toByte (kind : ClassKind) : ClassKind.ofByte? kind.toByte = some kind := by
  cases kind <;> rfl

@[simp] theorem Visibility.ofByte?_toByte (visibility : Visibility) :
    Visibility.ofByte? visibility.toByte = some visibility := by
  cases visibility <;> rfl

@[simp] theorem FuncKind.ofByte?_toByte (kind : FuncKind) : FuncKind.ofByte? kind.toByte = some kind := by
  cases kind <;> rfl

@[simp] theorem Operator.ofByte?_toByte (op : Operator) : Operator.ofByte? op.toByte = some op := by
  cases op <;> rfl

@[simp] theorem ReservedWord.ofByte?_toByte (word : ReservedWord) :
    ReservedWord.ofByte? word.toByte = some word := by
  cases word <;> rfl

end OnePass
