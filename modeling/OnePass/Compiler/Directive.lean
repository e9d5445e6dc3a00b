import OnePass.Compiler.State

/-! # Directives

A directive is a word after the directive mark. It is carried out as soon as it is read, takes its
arguments from the tokens that follow, and leaves no code. -/

namespace OnePass.Compile

/-! ## Arguments -/

/-- Takes the next token if it is a word. -/
def nextLiteral : Compile (Option String) := do
  match (← get).stream with
  | .literal text :: rest =>
    modify ({ · with stream := rest })
    return some text
  | _ => return none

/-- The names at the front of some tokens, with commas between them, and the tokens after them.
`current` is the beginning of the first name. -/
def splitNames : (current : String) → List Token → List String × List Token
  | current, .literal text :: rest => splitNames (current ++ text) rest
  | current, .separator .member :: rest => splitNames (current ++ ".") rest
  | current, .separator .statement :: rest =>
    let (names, rest) := splitNames "" rest
    (current :: names, rest)
  | current, rest => ([current], rest)

/-- Takes a list of dotted names. -/
def nextNames : Compile (List String) := do
  let (names, rest) := splitNames "" (← get).stream
  modify ({ · with stream := rest })
  return names.filter (· != "")

/-! ## The directives -/

/-- Changes the default type, or reports why it cannot be changed. -/
def amendDefault (change : TypeDraft → Option TypeDraft) (refusal : Problem) : Compile Unit := do
  let session := (← get).session
  match session.amend (← session.default?) change with
  | some session => modify ({ · with session := session })
  | none => report refusal

/-- `extends NAME`: names the base of the implicit class. -/
def extendsDirective : Compile Unit := do
  match ← nextLiteral with
  | none => report .extendsDirectiveWithoutName
  | some name =>
    if (← get).session.options.header != .singleClass then report (.extendsOutsideClass name)
    else amendDefault (·.extend name) (.classClosedToExtend name)

/-- `implements A, B`: names interfaces of the implicit class. -/
def implementsDirective : Compile Unit := do
  let names ← nextNames
  if (← get).session.options.header != .singleClass then report .implementsOutsideClass
  else names.forM fun name => amendDefault (·.implement name) (.classClosedToImplement name)

/-- `outtype KIND`: changes the kind of the output. -/
def outtypeDirective : Compile Unit := do
  let name := (← nextLiteral).getD ""
  match OutputKind.ofName? name with
  | some output => modify fun compiler => { compiler with session := compiler.session.setOutput output }
  | none => report (.unknownOutput name)

/-- `const NAME VALUE`: gives a name to a literal value. -/
def constDirective : Compile Unit := do
  match ← nextLiteral with
  | none => report .constWithoutName
  | some name =>
    match (← get).stream with
    | .value value :: rest =>
      modify fun compiler => { compiler with stream := rest, session := compiler.session.setConstant name value }
    | _ => report (.constWithoutValue name)

/-- Carries out the directive with a name. -/
def directive (name : String) : Compile Unit :=
  match name with
  | "extends" => extendsDirective
  | "implements" => implementsDirective
  | "outtype" => outtypeDirective
  | "try" => modify ({ · with tryRegion := true })
  | "endtry" => modify ({ · with tryRegion := false })
  | "entrypoint" =>
    modify fun compiler => { compiler with methodAttrs := { compiler.methodAttrs with entryPoint := true } }
  | "const" => constDirective
  | _ => report (.unknownDirective name)

end OnePass.Compile
