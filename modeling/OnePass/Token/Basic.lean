import OnePass.Token.Kinds

/-! # Tokens and token streams

A `Token` carries its payload inline, so a consumer never reads a value that was not written for the
token at hand. A `TokenStream` is the queue of tokens of one file together with the file's header
and platform byte; it is read from the front, and other streams can be spliced in at the read
position. -/

namespace OnePass

/-- A lexical unit of the source language. -/
inductive Token where
  | newLine
  /-- the head of a type declaration -/
  | classOpen (name : String) (kind : ClassKind) (visibility : Visibility)
  /-- the head of a function declaration; an empty return type means that nothing is returned -/
  | function (name returnType : String) (kind : FuncKind) (visibility : Visibility)
  /-- a parameter, local variable or field, by where it stands -/
  | var (name typeName : String) (isFinal : Bool)
  /-- a brace -/
  | block (opens : Bool)
  /-- a parenthesis -/
  | statement (opens : Bool)
  /-- a bracket of an array literal -/
  | sequence (opens : Bool)
  /-- one segment of a dotted name, or a word after a directive mark -/
  | literal (text : String)
  | separator (kind : Separator)
  | expressionEnd
  | operator (op : Operator)
  | value (value : Literal)
  /-- the mark in front of a directive's name -/
  | directive
  | enterNamespace (name : String)
  | usingNamespace (name : String)
  | importLibrary (path : String)
  | includeModule (path : String)
  | extendsClause
  | implementsClause
  | returnValue
  | breakpoint
  | new
  | label (name : String)
  | goto (name : String)
  | actual (flag : Bool)
  | async (flag : Bool)
  | parameterType (flag : Bool)
  | reserved (word : ReservedWord)
  deriving DecidableEq

namespace Token

/-- The name of a token's kind, which is also how messages show the token. -/
def name : Token → String
  | newLine => "NEWLN"
  | classOpen .. => "CLASS"
  | function .. => "FUNCTION"
  | var .. => "VAR"
  | block _ => "BLOCK"
  | statement _ => "STATEMENT"
  | sequence _ => "SEQUENCE"
  | literal _ => "LITERAL"
  | separator _ => "SEPARATOR"
  | expressionEnd => "EXPRESSION_END"
  | operator _ => "OPERATOR"
  | value _ => "VALUE"
  | directive => "DIRECTIVE"
  | enterNamespace _ => "NAMESPACE"
  | usingNamespace _ => "USING_NAMESPACE"
  | importLibrary _ => "IMPORT_LIBRARY"
  | includeModule _ => "INCLUDE"
  | extendsClause => "EXTENDS"
  | implementsClause => "IMPLEMENTS"
  | returnValue => "RETURN"
  | breakpoint => "BREAKPOINT"
  | new => "NEW"
  | label _ => "LABEL"
  | goto _ => "GOTO"
  | actual _ => "ACTUAL"
  | async _ => "ASYNC"
  | parameterType _ => "PARAMETER_TYPE"
  | reserved word => word.name

/-- Whether a token ends an expression: the end mark, or a brace that opens a block. -/
def isEnd : Token → Bool
  | expressionEnd | block true => true
  | _ => false

end Token

/-- The tokens of one file, front first, with the file's header and target platform. -/
structure TokenStream where
  /-- what the file is for -/
  header : Header
  /-- the target platform, which the compiler carries along unread -/
  platform : UInt8
  /-- the tokens still to be read -/
  tokens : List Token
  deriving DecidableEq

namespace TokenStream

/-- Appends a token at the back. -/
def push (stream : TokenStream) (token : Token) : TokenStream :=
  { stream with tokens := stream.tokens ++ [token] }

/-- Appends tokens at the back. -/
def extend (stream : TokenStream) (tokens : List Token) : TokenStream :=
  { stream with tokens := stream.tokens ++ tokens }

/-- Puts a token back in front. -/
def pushFront (stream : TokenStream) (token : Token) : TokenStream :=
  { stream with tokens := token :: stream.tokens }

/-- The front token, and the stream without it. -/
def pop (stream : TokenStream) : Option Token × TokenStream :=
  (stream.tokens.head?, { stream with tokens := stream.tokens.tail })

/-- The front token. -/
def peek? (stream : TokenStream) : Option Token := stream.tokens.head?

/-- Puts the tokens of another stream at the read position. The header stays. -/
def splice (stream other : TokenStream) : TokenStream :=
  { stream with tokens := other.tokens ++ stream.tokens }

end TokenStream

end OnePass
