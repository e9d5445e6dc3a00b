import OnePass.Proofs.Receivers

/-! # Reading a name leaves one value

The code that loads what a name means should leave one value on the stack and take none from it.
Whether an object is loaded first depends on the shape of the name, and whether the load of the
field takes that object depends on the definition of the field. The two disagree in two cases: for a
static field that is named through a variable, and for an instance field that is named through a
type. -/

namespace OnePass

variable {table : SymbolTable}

/-! ## Heights of the stack -/

/-- How many values an operation takes off the stack and how many it puts there. For calls,
constructions and returns that depends on a method, and a jump goes on elsewhere. -/
def OpCode.effect? : OpCode → Option (Nat × Nat)
  | .nop | .breakpoint => some (0, 0)
  | .ldnull | .ldcI4 | .ldcI4S | .ldcI4Zero | .ldcI4One | .ldcI8 | .ldcR4 | .ldcR8 | .ldstr
      | .ldloc | .ldarg
  | .ldsfld => some (0, 1)
  | .stloc | .starg | .stsfld | .pop => some (1, 0)
  | .ldfld | .newarr | .neg => some (1, 1)
  | .dup => some (1, 2)
  | .stfld => some (2, 0)
  | .add | .sub | .mul | .div | .rem | .and | .or | .xor | .ceq | .cgt | .clt => some (2, 1)
  | .stelem => some (3, 0)
  | .call | .callvirt | .newobj | .ret | .br => none

/-- The height of the stack after some code, if no instruction takes a value that is not there. -/
def heightAfter : List Instruction → Nat → Option Nat
  | [], height => some height
  | instruction :: code, height =>
    match instruction.opcode.effect? with
    | none => none
    | some (takes, puts) => if takes ≤ height then heightAfter code (height - takes + puts) else none

/-- More values below make no difference. -/
theorem heightAfter_add {code : List Instruction} {height last : Nat}
    (after : heightAfter code height = some last) (more : Nat) :
    heightAfter code (height + more) = some (last + more) := by
  induction code generalizing height with
  | nil =>
    cases after
    rfl
  | cons instruction code ih =>
    rw [heightAfter] at after ⊢
    split at after
    · cases after
    · rename_i takes puts effect
      split at after
      · rename_i enough
        rw [if_pos (by omega), show height + more - takes + puts = height - takes + puts + more by omega]
        exact ih after
      · cases after

/-- The code takes nothing from the stack that it starts on, and leaves some values more there. -/
def Pushes (code : List Instruction) (count : Nat) : Prop :=
  ∀ height, heightAfter code height = some (height + count)

theorem pushes_iff {code : List Instruction} {count : Nat} : Pushes code count ↔
      heightAfter code 0 = some count := by
  constructor
  · intro pushes
    simpa using pushes 0
  · intro fromEmpty height
    simpa [Nat.add_comm] using heightAfter_add fromEmpty height

instance (code : List Instruction) (count : Nat) : Decidable (Pushes code count) :=
  decidable_of_iff' _ pushes_iff

/-! ## What is loaded -/

/-- The code that loads what a name means. -/
inductive Reference.Loads (table : SymbolTable) : Reference → List Instruction → Prop
  | var (var : LocalVar) : Loads table (.var var) [var.load]
  | constant (value : Literal) : Loads table (.constant value) [.ofLiteral value]
  | onType {ref : MemberRef} {field : FieldDef} (known : table.field ref = .ok field) :
      Loads table (.field none ref) [field.load ref]
  | onObject {receiver : Receiver} {ref : MemberRef} {field : FieldDef} {load : Instruction}
      (object : receiver.Loads table load) (known : table.field ref = .ok field) :
      Loads table (.field (some receiver) ref) [load, field.load ref]

theorem MethodDraft.loadField_eq (draft : MethodDraft) {ref : MemberRef} {field : FieldDef}
    (known : table.field ref = .ok field) :
    draft.loadField table ref = .ok (field.type, draft.append [field.load ref]) := by
  simp [loadField, known, FieldDef.load, emit, bind, Except.bind, pure, Except.pure]

theorem MethodDraft.exists_loadReceiver (draft : MethodDraft) {receiver : Receiver}
    (known : table.Holds receiver.symbols) : ∃ type later, draft.loadReceiver table receiver =
      .ok (type, later) := by
  cases receiver with
  | var var => exact ⟨_, _, rfl⟩
  | field ref =>
    have has : table.Has (.field ref) := by simpa [Receiver.symbols] using known
    obtain ⟨field, found⟩ := has.exists_field
    exact ⟨_, _, draft.loadField_eq found⟩
  | this => exact ⟨_, _, rfl⟩

/-- What a name means can be loaded, and the code for it comes after all code so far. -/
theorem MethodDraft.exists_loadReference (draft : MethodDraft) {reference : Reference}
    (known : table.Holds reference.symbols) (isFound : reference.isMissing = false) :
    ∃ type later code, draft.loadReference table reference = .ok (type, later) ∧
      reference.Loads table code ∧ later.code = draft.code ++ code := by
  cases reference with
  | var var => exact ⟨_, _, _, rfl, .var var, congrArg code (draft.loadVar_eq_append var)⟩
  | constant value => exact ⟨_, _, _, rfl, .constant value, rfl⟩
  | missing name => cases isFound
  | field receiver ref =>
    simp only [Reference.symbols, SymbolTable.holds_append, SymbolTable.holds_flatMap,
      SymbolTable.holds_cons] at known
    obtain ⟨inReceiver, has, -⟩ := known
    obtain ⟨field, found⟩ := has.exists_field
    cases receiver with
    | none => exact ⟨_, _, _, by rw [loadReference, loadField_eq _ found]; rfl, .onType found, rfl⟩
    | some receiver =>
      obtain ⟨type, loaded, receives⟩ := draft.exists_loadReceiver (inReceiver receiver (by simp))
      obtain ⟨load, loads, code⟩ := (draft.code_loadReceiver table receiver).of_ok receives
      refine ⟨field.type, loaded.append [field.load ref], _, ?_, .onObject loads found, ?_⟩
      · simp [loadReference, receives, loadField_eq loaded found, liftM, monadLift,
          MonadLift.monadLift, bind, Except.bind, Except.mapError]
      · rw [append, code, List.append_assoc]
        rfl

/-! ## How fields are named -/

namespace Session

variable {session : Session} {namespaces segments : List String} {field : FieldDef}
  {reference : Reference}

/-- The names of fields of variables: the variable, then the field. -/
inductive ThroughVar (session : Session) : List String → FieldDef → Prop
  | intro {owner member : String} {var : LocalVar} {ref : MemberRef} {field : FieldDef}
      (isVar : session.lookupVar owner = .ok (some var))
      (found : session.table.fieldOn var.type member = .ok (some ref))
      (known : session.table.field ref = .ok field) : session.ThroughVar [owner, member] field

/-- The names of fields of types: the path of the type, which no variable hides, then the field. -/
inductive ThroughPath (session : Session) (namespaces : List String) : List String → FieldDef → Prop
  | intro {segments : List String} {ref : MemberRef} {field : FieldDef} (isPath : segments.length ≠ 1)
      (notHidden : ∀ owner member, segments = [owner, member] → session.lookupVar owner = .ok none)
      (found : session.table.resolveField (dotted segments) namespaces = .ok (some ref))
      (known : session.table.field ref = .ok field) : session.ThroughPath namespaces segments field

theorem ThroughVar.resolveReference (through : session.ThroughVar segments field)
    (namespaces : List String) : ∃ var ref, session.resolveReference segments namespaces =
      .ok (.field (some (.var var)) ref) ∧ session.table.field ref = .ok field := by
  cases through with
  | @intro owner member var ref field isVar found known =>
    exact ⟨var, ref, by simp [Session.resolveReference, isVar, found, bind, Except.bind, pure,
      Except.pure], known⟩

theorem ThroughPath.resolveReference (through : session.ThroughPath namespaces segments field) :
    ∃ ref, session.resolveReference segments namespaces = .ok (.field none ref) ∧
      session.table.field ref = .ok field := by
  cases through with
  | intro isPath notHidden found known =>
    rename_i ref
    refine ⟨ref, ?_, known⟩
    have path : session.resolvePath segments namespaces = .ok (.field none ref) := by
      simp [resolvePath, found, bind, Except.bind, pure, Except.pure]
    unfold Session.resolveReference
    split
    · exact absurd rfl isPath
    · rename_i owner member
      simpa [notHidden owner member rfl, bind, Except.bind] using path
    · exact path

/-- What a name says about the field that it means. -/
def Names (session : Session) (namespaces segments : List String) (field : FieldDef) :
    Option Receiver → Prop
  | none => field.isStatic = true ∨ session.ThroughPath namespaces segments field
  | some .this => field.isStatic = false
  | some (.var _) => session.ThroughVar segments field
  | some (.field _) => False

/-- A field that a name means is named in one of these ways. -/
def Explains (session : Session) (namespaces segments : List String) (reference : Reference) :
    Prop :=
  ∀ receiver ref field, reference = .field receiver ref → session.table.field ref = .ok field →
    session.Names namespaces segments field receiver

theorem explains_ownField (namespaces segments : List String) (name : String) :
    Gives (session.ownField? name) fun found =>
    ∀ reference ∈ found, session.Explains namespaces segments reference := by
  rw [ownField?]
  refine gives_bind_ok fun type current => ?_
  split
  · simp
  refine gives_bind_ok fun found isFound => ?_
  split
  · simp
  rename_i ref
  refine gives_bind_ok fun field known => ?_
  split
  · rename_i isStatic
    rintro _ ⟨⟩ _ _ other ⟨⟩ alsoKnown
    cases known.symm.trans alsoKnown
    exact .inl isStatic
  rename_i isInstance
  refine gives_bind_ok fun method within => ?_
  split
  · rintro _ ⟨⟩ _ _ other ⟨⟩ alsoKnown
    cases known.symm.trans alsoKnown
    exact Bool.eq_false_iff.mpr isInstance
  · simp

theorem explains_resolveSingle (name : String) :
    Gives (session.resolveSingle name) (session.Explains namespaces segments) := by
  rw [resolveSingle]
  refine gives_bind_ok fun var isVar => ?_
  split
  · simp [Explains]
  split
  · simp [Explains]
  rw [gives_bind]
  refine (explains_ownField namespaces segments name).imp fun found named => ?_
  cases found with
  | none => simp [Explains]
  | some reference => exact named reference rfl

theorem explains_resolvePath (isPath : segments.length ≠ 1)
    (notHidden : ∀ owner member, segments = [owner, member] → session.lookupVar owner = .ok none) :
    Gives (session.resolvePath segments namespaces) (session.Explains namespaces segments) := by
  rw [resolvePath]
  refine gives_bind_ok fun found isFound => ?_
  split
  · rintro _ _ field ⟨⟩ known
    exact .inr (.intro isPath notHidden isFound known)
  · simp [Explains]

theorem explains_resolveReference (segments namespaces : List String) :
    Gives (session.resolveReference segments namespaces) (session.Explains namespaces segments) := by
  unfold Session.resolveReference
  split
  · exact explains_resolveSingle _
  · rename_i owner member
    refine gives_bind_ok fun var isVar => ?_
    split
    · refine explains_resolvePath (by simp) fun other _ same => ?_
      cases same
      exact isVar
    · refine gives_bind_ok fun found isFound => ?_
      split
      · rintro _ _ field ⟨⟩ known
        exact .intro isVar isFound known
      · simp [Explains]
  · rename_i notSingle notTwo
    refine explains_resolvePath (fun single => ?_) fun owner member two =>
      absurd two (notTwo owner member)
    obtain ⟨name, rfl⟩ := List.length_eq_one_iff.mp single
    exact notSingle name rfl

theorem throughVar_iff (resolved : session.resolveReference segments namespaces = .ok reference) :
    session.ThroughVar segments field ↔
      ∃ var ref, reference = .field (some (.var var)) ref ∧ session.table.field ref = .ok field := by
  constructor
  · intro through
    obtain ⟨var, ref, same, known⟩ := through.resolveReference namespaces
    exact ⟨var, ref, Except.ok.inj (resolved.symm.trans same), known⟩
  · rintro ⟨var, ref, same, known⟩
    exact (explains_resolveReference segments namespaces).of_ok resolved _ ref field same known

/-- A field without an object is static, unless it is named through a type. -/
theorem throughPath_iff (resolved : session.resolveReference segments namespaces = .ok reference) :
    session.ThroughPath namespaces segments field ∧ field.isStatic = false ↔
      ∃ ref, reference = .field none ref ∧ session.table.field ref = .ok field ∧
        field.isStatic = false := by
  constructor
  · rintro ⟨through, isInstance⟩
    obtain ⟨ref, same, known⟩ := through.resolveReference
    exact ⟨ref, Except.ok.inj (resolved.symm.trans same), known, isInstance⟩
  · rintro ⟨ref, same, known, isInstance⟩
    have named := (explains_resolveReference segments namespaces).of_ok resolved _ ref field same known
    exact ⟨named.resolve_left (by simp [isInstance]), isInstance⟩

/-- The names that mean a field and do not fit it: through a variable although the field is static,
or through a type although it is not. -/
def Misnames (session : Session) (namespaces segments : List String) (field : FieldDef) : Prop :=
  session.ThroughVar segments field ∧ field.isStatic = true ∨
    session.ThroughPath namespaces segments field ∧ field.isStatic = false

/-- Which names do not fit, by what they mean. -/
theorem misnames_iff (resolved : session.resolveReference segments namespaces = .ok reference) :
    session.Misnames namespaces segments field ↔
      (∃ var ref, reference = .field (some (.var var)) ref ∧ session.table.field ref = .ok field) ∧
          field.isStatic = true ∨
        ∃ ref, reference = .field none ref ∧ session.table.field ref = .ok field ∧
          field.isStatic = false := by
  rw [Misnames, throughVar_iff resolved, throughPath_iff resolved]

end Session

/-! ## Values -/

theorem pushes_load (var : LocalVar) : Pushes [var.load] 1 := by
  rw [pushes_iff, LocalVar.load]
  cases var.slot <;> rfl

theorem pushes_ofLiteral (value : Literal) : Pushes [.ofLiteral value] 1 := by
  rw [pushes_iff]
  rcases value with _ | _ | _ | _ | (_ | _) | _ | _ | _ | _ | _ <;> rfl

theorem Pushes.heightAfter_cons {load : Instruction} (pushes : Pushes [load] 1)
    (code : List Instruction) (height : Nat) :
    heightAfter (load :: code) height = heightAfter code (height + 1) := by
  have alone := pushes height
  rw [heightAfter] at alone ⊢
  split at alone
  · cases alone
  · split at alone
    · rename_i takes puts effect enough
      obtain same : height - takes + puts = height + 1 := by simpa [heightAfter] using alone
      rw [if_pos enough, same]
    · cases alone

/-- Static fields are loaded from nothing, and others from an object. -/
theorem heightAfter_load (field : FieldDef) (ref : MemberRef) (height : Nat) :
    heightAfter [field.load ref] height =
      if field.isStatic then some (height + 1) else if height = 0 then none else some height := by
  rw [FieldDef.load]
  cases field.isStatic with
  | true => rfl
  | false =>
    cases height with
    | zero => rfl
    | succ height => rfl

theorem pushes_load_of_isStatic {field : FieldDef} (isStatic : field.isStatic = true)
    (ref : MemberRef) : Pushes [field.load ref] 1 := fun height => by
  rw [heightAfter_load, if_pos isStatic]

/-- Reading a name leaves one value, unless the name does not fit the field. Let a dotted name mean
something in any state of a build. Then it can be loaded in any method, by code that comes after all
code so far. The code takes nothing from the stack and leaves one value more there if and only if
the name does not mean a static field through a variable and does not mean an instance field through
a type. In the first of these cases it leaves two values, and in the second it takes a value for the
object. -/
theorem one_value_unless_misnamed {files : FileTree} {stream : TokenStream} {options : BuildOptions}
    {autoName : Bool} {state : Build} (reached : Build.Reached files stream options autoName state)
    {segments namespaces : List String} {reference : Reference}
    (resolved : state.compiler.session.resolveReference segments namespaces = .ok reference)
    (isFound : reference.isMissing = false) (method : MethodDraft) :
    ∃ type later code, method.loadReference state.compiler.session.table reference =
      .ok (type, later) ∧ later.code = method.code ++ code ∧
      (Pushes code 1 ↔ ¬ ∃ field, state.compiler.session.Misnames namespaces segments field) ∧
      (∀ field, state.compiler.session.ThroughVar segments field ∧ field.isStatic = true →
        Pushes code 2) ∧
      ∀ field, state.compiler.session.ThroughPath namespaces segments field ∧
        field.isStatic = false → ∀ height, heightAfter code height = if height =
          0 then none else some height := by
  have sound := reached.sound.session
  obtain ⟨type, later, code, loaded, loads, appended⟩ :=
    method.exists_loadReference ((sound.ensures_resolveReference segments namespaces).of_ok
      resolved) isFound
  refine ⟨type, later, code, loaded, appended, ?_⟩
  have named := (Session.explains_resolveReference segments namespaces).of_ok resolved
  simp only [Session.misnames_iff resolved, Session.throughVar_iff resolved,
    Session.throughPath_iff resolved]
  cases loads with
  | var var => simp [pushes_load]
  | constant value => simp [pushes_ofLiteral]
  | @onType ref field known =>
    cases isStatic : field.isStatic with
    | true => simp [pushes_load_of_isStatic, known, isStatic]
    | false => simp [pushes_iff, heightAfter_load, known, isStatic]
  | @onObject receiver ref field load object known =>
    have names := named _ ref field rfl known
    cases receiver with
    | field owner => exact names.elim
    | this =>
      cases object
      have isInstance : field.isStatic = false := names
      have pushes : Pushes [⟨.ldarg, .arg 0⟩] 1 := by decide
      simp [pushes_iff, heightAfter_load, pushes.heightAfter_cons, isInstance]
    | var var =>
      cases object
      -- The object is there in both cases, and a static field leaves it there.
      cases isStatic : field.isStatic with
      | true =>
        simp [pushes_iff, heightAfter_load, (pushes_load var).heightAfter_cons, known, isStatic]
      | false =>
        simp [pushes_iff, heightAfter_load, (pushes_load var).heightAfter_cons, known, isStatic]

/-- A class whose instance method reads a static field of the type of a variable through the
variable, and a field of the class through the class. -/
def misnamedFields : TokenStream where
  header := .library
  platform := 0
  tokens :=
    [.classOpen "A" .plain .everywhere, .block true, .var "n" "int" false, .expressionEnd,
      .function "f" "" .plain .everywhere, .block true, .var "s" "string" false, .expressionEnd,
      .var "t" "string" false,
      .operator .assign, .literal "s", .separator .member, .literal "Empty", .expressionEnd,
        .var "m" "int" false,
      .operator .assign, .literal "A", .separator .member, .literal "n", .expressionEnd,
        .block false, .block false]

/-- The field of the class, named alone in the method, is read from the running object. -/
theorem misnamedFields_own_field :
    ∃ (state : Build) (method : MethodDraft), Build.Reached (.empty []) misnamedFields {}
      false state ∧ state.compiler.session.currentMethod? = .ok (some method) ∧
      ∃ reference, state.compiler.session.resolveReference ["n"] [] = .ok reference ∧
        reference.isMissing = false ∧ ∃ type later code,
          method.loadReference state.compiler.session.table reference = .ok (type, later) ∧
            later.code = method.code ++ code ∧ Pushes code 1 := by
  obtain ⟨state, reached, method, reference, within, resolved, isFound⟩ :
      ∃ state : Build, Build.Reached (.empty []) misnamedFields {} false state ∧ ∃ method reference,
        state.compiler.session.currentMethod? = .ok (some method) ∧
        state.compiler.session.resolveReference ["n"] [] = .ok reference ∧ reference.isMissing = false :=
    ⟨_, .step (.step (.step (.step (.step (.step
      (.start rfl) rfl rfl) rfl rfl) rfl rfl) rfl rfl) rfl rfl) rfl rfl, _, _, rfl, rfl, rfl⟩
  obtain ⟨type, later, code, loaded, appended, pushes, -⟩ :=
    one_value_unless_misnamed reached resolved isFound method
  refine ⟨state, method, reached, within, reference, resolved, isFound, type, later, code,
    loaded, appended, pushes.mpr ?_⟩
  rintro ⟨field, ⟨through, -⟩ | ⟨through, -⟩⟩
  · cases through
  · cases through with
    | intro isPath => exact isPath rfl

/-- The two names that do not fit are read with two values and with the object missing, and nothing
is reported. -/
theorem misnamedFields_read :
    (∃ state : Build, Build.Reached (.empty []) misnamedFields {} false state ∧
      ∃ method onVar onClass, state.compiler.session.currentMethod? = .ok (some method) ∧
        state.compiler.session.resolveReference ["s", "Empty"] [] = .ok onVar ∧
        state.compiler.session.resolveReference ["A", "n"] [] = .ok onClass ∧
        (method.loadReference state.compiler.session.table onVar).toOption.map
            (fun read => heightAfter (read.2.code.drop method.position) 0) = some (some 2) ∧
        (method.loadReference state.compiler.session.table onClass).toOption.map
            (fun read => heightAfter (read.2.code.drop method.position) 0) = some none) ∧
      (build (.empty []) misnamedFields {} false).map (fun result =>
          (result.diagnostics, result.compiled.bodies.map (·.code))) =
        .ok ([], [[⟨.ldloc, .loc 0⟩, ⟨.ldsfld, .field ⟨10, 0⟩⟩, ⟨.stloc, .loc 1⟩,
          ⟨.ldfld, .field ⟨18, 0⟩⟩, ⟨.stloc, .loc 2⟩]]) := by
  refine ⟨⟨_, .step (.step (.step (.step (.step (.step (.step (.start rfl) rfl rfl) rfl rfl) rfl rfl)
    rfl rfl) rfl rfl) rfl rfl) rfl rfl, _, _, _, rfl, rfl, rfl, rfl, rfl⟩, ?_⟩
  decide +kernel

end OnePass
