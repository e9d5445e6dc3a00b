import OnePass.Token.Basic
import OnePass.Bytes.Basic
import OnePass.Files.Tree
import OnePass.Text.Quoted

/-! # What can be wrong with a program

Nothing in the source text stops a build: every mistake is a `Problem`, which says what is wrong and
names the parts of the program that are concerned. `Problem.kind` sorts the problems, and
`Problem.message` is the one place where they are put into words.

A `Fault` is different: an access to something that does not exist. It ends the build without a
module. -/

namespace OnePass

/-! ## Kinds -/

/-- Why a compiled module cannot be included. -/
inductive IncludeFailure where
  | notFound
  | loadFailure
  | badFormat
  | badName
  | pathTooLong
  deriving DecidableEq, Repr

/-- The kinds of problems. -/
inductive ProblemKind where
  | invalidToken
  | invalidHeader
  | invalidOperator
  | needEnd
  | varNotFound
  | typeNotFound
  | directiveNotFound
  | invalidOutType
  | includeError (failure : IncludeFailure)
  | tokensLibrary
  deriving DecidableEq, Repr

/-- The name of a reason in tools that sort problems by kind. -/
def IncludeFailure.name : IncludeFailure → String
  | notFound => "NotFound"
  | loadFailure => "LoadFailure"
  | badFormat => "BadFormat"
  | badName => "BadName"
  | pathTooLong => "PathTooLong"

/-- The name of a kind in tools that sort problems by kind. -/
def ProblemKind.name : ProblemKind → String
  | invalidToken => "InvalidToken"
  | invalidHeader => "InvalidHeader"
  | invalidOperator => "InvalidOperator"
  | needEnd => "NeedEnd"
  | varNotFound => "VarNotFound"
  | typeNotFound => "TypeNotFound"
  | directiveNotFound => "DirectiveNotFound"
  | invalidOutType => "InvalidOutType"
  | includeError failure => "Include." ++ failure.name
  | tokensLibrary => "TokensLibrary"

/-- All kinds. -/
def ProblemKind.all : List ProblemKind :=
  [invalidToken, invalidHeader, invalidOperator, needEnd, varNotFound, typeNotFound, directiveNotFound,
    invalidOutType, includeError .notFound, includeError .loadFailure, includeError .badFormat,
    includeError .badName, includeError .pathTooLong, tokensLibrary]

/-- The name of a kind in messages. -/
def ProblemKind.label : ProblemKind → String
  | invalidToken => "invalid token"
  | invalidHeader => "invalid header"
  | invalidOperator => "invalid operator"
  | needEnd => "need end"
  | varNotFound => "variable not found"
  | typeNotFound => "type not found"
  | directiveNotFound => "directive not found"
  | invalidOutType => "invalid output type"
  | includeError _ => "include error"
  | tokensLibrary => "tokens library error"

/-! ## Brackets -/

/-- The three kinds of brackets whose nesting is counted. -/
inductive Bracket where
  | block
  | statement
  | sequence
  deriving DecidableEq, Repr

/-- What a bracket is called when it is closed. -/
def Bracket.noun : Bracket → String
  | block => "block"
  | statement => "statement"
  | sequence => "array"

/-! ## Problems -/

/-- The longest path of an included module, in bytes. -/
def maxIncludePath : Nat := 260

/-- A mistake in a program. -/
inductive Problem where
  -- declarations
  | typeAlreadyDefined (name : String)
  | duplicateParameter (name : String)
  | duplicateLocal (name : String)
  | duplicateField (name : String)
  | duplicateLabel (name : String)
  | undefinedLabel (name : String)
  | functionOutsideType (name : String)
  | parameterOutsideFunction (name : String)
  | localOutsideFunction (name : String)
  | fieldOutsideType (name : String)
  | variableOutsideType (name : String)
  | unknownReturnType (typeName function : String)
  | unknownVariableType (typeName name : String)
  | unknownLocalType (typeName name : String)
  | invalidNamespace (name : String)
  -- base types and interfaces
  | expectedBaseType (found : Token)
  | expectedInterface (found : Token)
  | noTypeToExtend (name : String)
  | noTypeToImplement (name : String)
  | baseIsInterface (name : String)
  | unknownBase (name : String)
  | notAnInterface (name : String)
  | unknownInterface (name : String)
  -- brackets and expression ends
  | separatorWithoutLiteral
  | closedWithoutOpen (bracket : Bracket)
  | statementClosedInArray
  | arrayClosedInStatement
  | unclosed (count : Nat) (bracket : Bracket)
  | breakpointNotEnded
  | extendsNotEnded
  | extendsWithoutBase
  | implementsNotEnded
  | assignmentNotEnded
  | returnNotEnded
  | newWithoutCall
  | declarationNotEnded (name : String)
  -- expressions
  | codeOutsideMethod
  | newNotFollowedByCall
  | newWithoutType
  | unknownName (name : String)
  | missingLeftOperand (op : Operator)
  | missingRightOperand (op : Operator)
  | missingOperand (op : Operator)
  | operatorAfterOperator (op previous : Operator)
  | assignmentWithoutTarget
  | assignmentWithoutValue
  | constantAssigned (name : String)
  | constantChanged (name : String)
  | finalAssignedTwice (name : String)
  | noFieldToLoad
  | noFieldToStore
  | noLocalToLoad
  | noLocalToStore
  -- operators
  | powUnavailable
  | concatUnavailable
  | notBetweenValues (op : Operator)
  | modOfNonNumber (typeName : String)
  | logicOfNonBoolean (op : Operator) (typeName : String)
  | noMethodForm (op : Operator)
  | noOperatorMethod (typeName method : String)
  -- calls
  | unknownCallOwner (owner method : String)
  | staticCalledOnInstance (method typeName : String)
  | noOverload (method : String) (arguments : Nat)
  | unknownConstructedType (name : String)
  | noConstructor
  -- directives
  | unknownDirective (name : String)
  | extendsDirectiveWithoutName
  | extendsOutsideClass (name : String)
  | implementsOutsideClass
  | classClosedToExtend (name : String)
  | classClosedToImplement (name : String)
  | unknownOutput (name : String)
  | constWithoutName
  | constWithoutValue (name : String)
  -- included modules
  | badModuleName (path : String)
  | modulePathTooLong (stem : String)
  | moduleWithoutExtension (path : String)
  | moduleNotFound (path : Path)
  | moduleUnreadable (path : Path) (error : FileError)
  | moduleMalformed (path : Path) (error : FormatError)
  | includedTypeAlreadyDefined (name : String)
  | includedTypeUnknown (name owner : String)
  -- token libraries
  | libraryNotFound (path : Path) (error : FileError)
  | libraryMalformed (path : Path) (error : FormatError)
  | libraryHeader (path : Path) (header : Header)
  deriving DecidableEq

namespace Problem

/-- The kind of a problem. -/
def kind : Problem → ProblemKind
  | typeAlreadyDefined _ | duplicateParameter _ | duplicateLocal _ | duplicateField _ | duplicateLabel _
  | undefinedLabel _ | functionOutsideType _ | parameterOutsideFunction _ | localOutsideFunction _
  | fieldOutsideType _ | variableOutsideType _ | invalidNamespace _ | expectedBaseType _
  | expectedInterface _ | noTypeToExtend _ | noTypeToImplement _ | separatorWithoutLiteral
  | closedWithoutOpen _ | statementClosedInArray | arrayClosedInStatement | codeOutsideMethod
  | newNotFollowedByCall | newWithoutType | extendsDirectiveWithoutName | classClosedToExtend _
  | classClosedToImplement _ | constWithoutName | constWithoutValue _ => .invalidToken
  | extendsOutsideClass _ | implementsOutsideClass => .invalidHeader
  | missingLeftOperand _ | missingRightOperand _ | missingOperand _ | operatorAfterOperator ..
  | assignmentWithoutTarget | assignmentWithoutValue | constantAssigned _ | constantChanged _
  | finalAssignedTwice _ | powUnavailable | concatUnavailable | notBetweenValues _ | modOfNonNumber _
  | logicOfNonBoolean .. | noMethodForm _ | noOperatorMethod .. => .invalidOperator
  | unclosed .. | breakpointNotEnded | extendsNotEnded | extendsWithoutBase | implementsNotEnded
  | assignmentNotEnded | returnNotEnded | newWithoutCall | declarationNotEnded _ => .needEnd
  | unknownName _ | noFieldToLoad | noFieldToStore | noLocalToLoad | noLocalToStore
  | staticCalledOnInstance .. | noOverload .. => .varNotFound
  | unknownReturnType .. | unknownVariableType .. | unknownLocalType .. | baseIsInterface _
  | unknownBase _ | notAnInterface _ | unknownInterface _ | unknownCallOwner .. | unknownConstructedType _
  | noConstructor => .typeNotFound
  | unknownDirective _ => .directiveNotFound
  | unknownOutput _ => .invalidOutType
  | badModuleName _ => .includeError .badName
  | modulePathTooLong _ => .includeError .pathTooLong
  | moduleWithoutExtension _ | moduleNotFound _ => .includeError .notFound
  | moduleUnreadable .. | includedTypeAlreadyDefined _ => .includeError .loadFailure
  | moduleMalformed .. | includedTypeUnknown .. => .includeError .badFormat
  | libraryNotFound .. | libraryMalformed .. | libraryHeader .. => .tokensLibrary

/-- A problem in words. -/
def message : Problem → String
  | typeAlreadyDefined name | includedTypeAlreadyDefined name => s!"type {name} is already defined"
  | duplicateParameter name => s!"parameter {name} is already declared"
  | duplicateLocal name => s!"local {name} is already declared"
  | duplicateField name => s!"field {name} is already declared"
  | duplicateLabel name => s!"label {name} is already defined"
  | undefinedLabel name => s!"label {name} is never defined"
  | functionOutsideType name => s!"function {name} declared outside of a type"
  | parameterOutsideFunction name => s!"parameter {name} declared outside of a function"
  | localOutsideFunction name => s!"local {name} declared outside of a function"
  | fieldOutsideType name => s!"field {name} declared outside of a type"
  | variableOutsideType name => s!"variable {name} declared outside of a type"
  | unknownReturnType typeName function => s!"return type {typeName} of function {function} not found"
  | unknownVariableType typeName name => s!"type {typeName} of {name} not found"
  | unknownLocalType typeName name => s!"type {typeName} of local {name} not found"
  | invalidNamespace name => s!"namespace name {name} is not valid"
  | expectedBaseType found => s!"expected base type name after extends, found {found.name}"
  | expectedInterface found => s!"expected interface name, found {found.name}"
  | noTypeToExtend name => s!"no open type to extend with {name}"
  | noTypeToImplement name => s!"no open type to implement {name}"
  | baseIsInterface name => s!"{name} is an interface and cannot be a base type"
  | unknownBase name => s!"base type {name} not found"
  | notAnInterface name => s!"{name} is not an interface"
  | unknownInterface name => s!"interface {name} not found"
  | separatorWithoutLiteral => "Expression separator cannot be used without a literal before it"
  | closedWithoutOpen bracket => s!"{bracket.noun} closed without being opened"
  | statementClosedInArray => "statement closed inside an array"
  | arrayClosedInStatement => "array closed inside a statement"
  | unclosed count bracket => s!"Need end of {count} {bracket.noun}s"
  | breakpointNotEnded => "End of expression with breakpoint not found"
  | extendsNotEnded => "End of expression after extends clause not found"
  | extendsWithoutBase => "extends clause is missing its base type"
  | implementsNotEnded => "implements list is not terminated"
  | assignmentNotEnded => "assignment is not terminated"
  | returnNotEnded => "return is not terminated"
  | newWithoutCall => "new expression has no constructor call"
  | declarationNotEnded name => s!"declaration of {name} is not terminated"
  | codeOutsideMethod => "code is only allowed inside a method body"
  | newNotFollowedByCall => "new must be followed by a constructor call"
  | newWithoutType => "new requires a type name"
  | unknownName name => s!"variable or field with name {name} not found"
  | missingLeftOperand op => s!"operator {op.text} needs a left operand"
  | missingRightOperand op => s!"operator {op.text} is missing its right operand"
  | missingOperand op => s!"operator {op.text} needs an operand"
  | operatorAfterOperator op previous => s!"operator {op.text} follows operator {previous.text} without an operand"
  | assignmentWithoutTarget => "assignment has no target"
  | assignmentWithoutValue => "assignment has no value"
  | constantAssigned name => s!"constant {name} cannot be assigned"
  | constantChanged name => s!"constant {name} cannot be changed"
  | finalAssignedTwice name => s!"final {name} cannot be assigned twice"
  | noFieldToLoad => "incorrect field given for load"
  | noFieldToStore => "incorrect field given for assign"
  | noLocalToLoad => "incorrect local given for load"
  | noLocalToStore => "incorrect local given for assign"
  | powUnavailable => "Math.Pow is not available"
  | concatUnavailable => "String.Concat is not available"
  | notBetweenValues op => s!"operator {op.text} cannot be used between two values"
  | modOfNonNumber typeName => s!"operator MOD cannot be used with non-number type {typeName}"
  | logicOfNonBoolean op typeName => s!"operator {op.text} cannot be used with non-boolean type {typeName}"
  | noMethodForm op => s!"operator {op.text} has no method form"
  | noOperatorMethod typeName method => s!"type {typeName} has no operator method {method}"
  | unknownCallOwner owner method => s!"type or variable {owner} for call {method} not found"
  | staticCalledOnInstance method typeName =>
    s!"static method {method} cannot be called on an instance of {typeName}"
  | noOverload method arguments => s!"method {method} with {arguments} argument(s) not found"
  | unknownConstructedType name => s!"type {name} not found"
  | noConstructor => "constructor not found for operator 'new'"
  | unknownDirective name => s!"Directive by name {name} not found"
  | extendsDirectiveWithoutName => "extends needs a base type name"
  | extendsOutsideClass name => s!"extends {name} is only allowed in a class"
  | implementsOutsideClass => "implements is only allowed in a class"
  | classClosedToExtend name => s!"the class is already closed, cannot extend {name}"
  | classClosedToImplement name => s!"the class is already closed, cannot implement {name}"
  | unknownOutput name => "unknown output type " ++ Text.quoted name
  | constWithoutName => "const needs a name"
  | constWithoutValue name => s!"const {name} needs a value"
  | badModuleName path => s!"name of module '{path}' is empty or not valid"
  | modulePathTooLong stem => s!"path of module {stem} is longer than {maxIncludePath} characters"
  | moduleWithoutExtension path => s!"module '{path}' has no file extension"
  | moduleNotFound path => s!"module '{path.text}' not found"
  | moduleUnreadable path error => s!"failed to load module '{path.text}': {error.message}"
  | moduleMalformed path error => s!"'{path.text}' is not a valid module: {error.message}"
  | includedTypeUnknown name owner => s!"type {name} referenced by {owner} is unknown"
  | libraryNotFound path error => s!"tokens library by path {path.text} not found: {error.message}"
  | libraryMalformed path error => s!"{path.text} is not a valid token file: {error.message}"
  | libraryHeader path header =>
    s!"{path.text} has header {header.name}, expected {Header.tokensLibrary.name}"

end Problem

/-! ## Faults -/

/-- An access to something that does not exist. -/
inductive Fault where
  /-- a type id outside the symbol table -/
  | noSuchType
  /-- a member index outside its type -/
  | noSuchMember
  /-- a draft index outside the session -/
  | noSuchDraft
  /-- a store to a final variable that the current method does not have -/
  | noSuchFinal
  /-- a branch whose instruction is no longer there when its label is known -/
  | noSuchBranch
  /-- more tokens than the stream and its libraries hold -/
  | outOfTokens
  deriving DecidableEq, Repr

/-- What stops an operation: a mistake in the program, or an access to something that does not
exist. -/
inductive Failure where
  | problem (problem : Problem)
  | fault (fault : Fault)
  deriving DecidableEq

instance : MonadLift (Except Fault) (Except Failure) where
  monadLift := Except.mapError .fault

instance : MonadLift (Except Problem) (Except Failure) where
  monadLift := Except.mapError .problem

end OnePass
