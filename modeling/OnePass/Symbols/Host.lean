import OnePass.Symbols.Table

/-! # The host library

The types that every program can use, and the table that holds nothing else. The library is one list
of definitions; a type's id is its position there, and the lower-case names of the primitive types
are known in every namespace. -/

namespace OnePass.Host

/-! ## Ids -/

/-- `System.Object`, the base of all other types. -/
def object : TypeId := 0

/-- `System.Void`, the result of a method that returns nothing. -/
def void : TypeId := 1

/-- `System.Boolean`. -/
def boolean : TypeId := 2

/-- `System.Char`. -/
def char : TypeId := 3

/-- `System.SByte`. -/
def sbyte : TypeId := 4

/-- `System.Int16`. -/
def int16 : TypeId := 5

/-- `System.Int32`. -/
def int32 : TypeId := 6

/-- `System.Int64`. -/
def int64 : TypeId := 7

/-- `System.Single`. -/
def single : TypeId := 8

/-- `System.Double`. -/
def double : TypeId := 9

/-- `System.String`. -/
def string : TypeId := 10

/-- `System.Array`, the type of array literals. -/
def array : TypeId := 11

/-- `System.Math`. -/
def math : TypeId := 12

/-- `System.IComparable`. -/
def comparable : TypeId := 13

/-- `System.IDisposable`. -/
def disposable : TypeId := 14

/-- `System.Console`. -/
def console : TypeId := 15

/-- `System.Decimal`, a type with operator methods. -/
def decimal : TypeId := 16

/-- `System.Text.StringBuilder`. -/
def stringBuilder : TypeId := 17

/-! ## Members -/

/-- A static field that is never assigned. -/
def constant (name : String) (type : TypeId) : FieldDef := ⟨name, type, true, true, .everywhere⟩

/-- A static method. -/
def static (name : String) (params : List TypeId) (result : TypeId) : MethodDef :=
  ⟨name, params, result, true, false, .everywhere, {}⟩

/-- An instance method that is not virtual. -/
def instanceMethod (name : String) (params : List TypeId) (result : TypeId) : MethodDef :=
  ⟨name, params, result, false, false, .everywhere, {}⟩

/-- A virtual method. -/
def virtual (name : String) (params : List TypeId) (result : TypeId) : MethodDef :=
  ⟨name, params, result, false, true, .everywhere, {}⟩

/-- A constructor. -/
def ctor (params : List TypeId) : CtorDef := ⟨params, .everywhere⟩

/-! ## Types -/

/-- A host type without members in the namespace `System`. -/
def system (name : String) (category : TypeCategory) (kind : ClassKind) (base : Option TypeId) : TypeDef :=
  { TypeDef.bare name "System" kind .host with category := category, base := base }

/-- A primitive type: it can be compared, and parsed from a text. -/
def primitive (name : String) (category : TypeCategory) (self : TypeId) : TypeDef :=
  { system name category .struct (some object) with
    interfaces := [comparable]
    methods := [static "Parse" [string] self, virtual "CompareTo" [object] int32] }

/-- A primitive type with a greatest and a least value. -/
def numeric (name : String) (category : TypeCategory) (self : TypeId) : TypeDef :=
  { primitive name category self with fields := [constant "MaxValue" self, constant "MinValue" self] }

/-- The definition of `System.Object`. -/
def objectType : TypeDef :=
  { system "Object" .object .plain none with
    methods := [virtual "ToString" [] string, virtual "Equals" [object] boolean,
      virtual "GetHashCode" [] int32]
    ctors := [ctor []] }

/-- The definition of `System.String`. -/
def stringType : TypeDef :=
  { system "String" .string .sealed (some object) with
    interfaces := [comparable]
    fields := [constant "Empty" string]
    methods := [static "Concat" [string, string] string, static "Concat" [object, object] string,
      static "IsNullOrEmpty" [string] boolean, static "op_Equality" [string, string] boolean,
      static "op_Inequality" [string, string] boolean, instanceMethod "ToUpper" [] string,
      instanceMethod "ToLower" [] string, instanceMethod "Trim" [] string,
      instanceMethod "Contains" [string] boolean, instanceMethod "Substring" [int32, int32] string,
      instanceMethod "get_Length" [] int32, virtual "CompareTo" [object] int32] }

/-- The definition of `System.Array`. -/
def arrayType : TypeDef :=
  { system "Array" .reference .abstract (some object) with
    methods := [instanceMethod "GetLength" [int32] int32, instanceMethod "get_Length" [] int32] }

/-- The definition of `System.Math`. -/
def mathType : TypeDef :=
  { system "Math" .reference .static (some object) with
    fields := [constant "PI" double, constant "E" double]
    methods := [static "Abs" [int32] int32, static "Abs" [int64] int64, static "Abs" [double] double,
      static "Max" [int32, int32] int32, static "Max" [double, double] double,
      static "Min" [int32, int32] int32, static "Min" [double, double] double,
      static "Pow" [double, double] double, static "Sqrt" [double] double] }

/-- The definition of `System.Console`. -/
def consoleType : TypeDef :=
  { system "Console" .reference .static (some object) with
    methods := [static "WriteLine" [] void, static "WriteLine" [string] void, static "WriteLine" [int32] void,
      static "WriteLine" [double] void, static "WriteLine" [object] void, static "Write" [string] void,
      static "Write" [object] void, static "ReadLine" [] string] }

/-- The definition of `System.Decimal`. -/
def decimalType : TypeDef :=
  { system "Decimal" .value .struct (some object) with
    methods :=
      ["op_Addition", "op_Subtraction", "op_Multiply", "op_Division"].map
          (static · [decimal, decimal] decimal) ++
        ["op_Equality", "op_Inequality", "op_GreaterThan", "op_LessThan", "op_GreaterThanOrEqual",
          "op_LessThanOrEqual"].map (static · [decimal, decimal] boolean)
    ctors := [ctor [int32], ctor [double]] }

/-- The definition of `System.Text.StringBuilder`. -/
def stringBuilderType : TypeDef :=
  { TypeDef.bare "StringBuilder" "System.Text" .sealed .host with
    base := some object
    methods := [instanceMethod "Append" [string] stringBuilder, instanceMethod "Append" [int32] stringBuilder,
      instanceMethod "Append" [object] stringBuilder, virtual "ToString" [] string]
    ctors := [ctor [], ctor [string]] }

/-- All host types, by id. -/
def types : List TypeDef :=
  [objectType,
    system "Void" .void .struct none,
    primitive "Boolean" .bool boolean,
    primitive "Char" .char char,
    primitive "SByte" .sbyte sbyte,
    numeric "Int16" .int16 int16,
    numeric "Int32" .int32 int32,
    numeric "Int64" .int64 int64,
    numeric "Single" .single single,
    numeric "Double" .double double,
    stringType,
    arrayType,
    mathType,
    { system "IComparable" .interface .interface none with
      methods := [virtual "CompareTo" [object] int32] },
    { system "IDisposable" .interface .interface none with
      methods := [virtual "Dispose" [] void] },
    consoleType,
    decimalType,
    stringBuilderType]

/-! ## Names -/

/-- The names of the primitive types that need no namespace. -/
def aliases : List (String × TypeId) :=
  [("object", object), ("void", void), ("bool", boolean), ("char", char), ("sbyte", sbyte), ("short", int16),
    ("int", int32), ("long", int64), ("float", single), ("double", double), ("string", string),
    ("decimal", decimal)]

/-- The host types that the compiler itself refers to. -/
def wellKnown : WellKnown where
  object := object
  void := void
  boolean := boolean
  char := char
  sbyte := sbyte
  int16 := int16
  int32 := int32
  int64 := int64
  single := single
  double := double
  string := string
  array := array
  math := math

/-- The table that holds the host library and nothing else. -/
def table : SymbolTable where
  types := types
  names := aliases ++ types.zipIdx.map fun (type, id) => (type.fullName, id)
  wellKnown := wellKnown

end OnePass.Host
