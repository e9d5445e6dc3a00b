import OnePass.Proofs.Apart.Step
import OnePass.Proofs.Expression.Statement
import OnePass.Proofs.Layout.Action

/-! # Lists of interfaces

The interfaces of the implicit class can be named in a clause or in a directive. The clause is read
token by token, with the name under way in the state; the directive looks ahead in the stream and
takes the whole list at once. Both put a segment behind what there is of its name, as `dotted` does,
and append the same names to the same type. -/

namespace OnePass

open Compile List

/-! ## Names -/

/-- A name of one or more segments, none of which is empty or has a dot in it. -/
structure DottedName where
  first : String
  more : List String
  proper : ∀ segment ∈ first :: more, segment ≠ "" ∧ '.' ∉ segment.toList

def DottedName.text (name : DottedName) : String := dotted (name.first :: name.more)

def DottedName.tokens (name : DottedName) : List Token :=
  .literal name.first :: name.more.flatMap fun segment => [.separator .member, .literal segment]

/-- The tokens of a list of names. -/
def nameTokens (first : DottedName) (more : List DottedName) : List Token :=
  first.tokens ++ more.flatMap fun name => .separator .statement :: name.tokens

/-- The text ends in a segment. -/
def IsWhole (text : String) : Prop := ∃ front segment, text = front ++ segment ∧ segment ≠ "" ∧
      '.' ∉ segment.toList

theorem isWhole_dotted {first : String} (whole : IsWhole first) {more : List String}
    (proper : ∀ segment ∈ more, segment ≠ "" ∧ '.' ∉ segment.toList) :
    IsWhole (dotted (first :: more)) := by
  induction more generalizing first with
  | nil => exact whole
  | cons segment more ih =>
    obtain ⟨here, later⟩ := forall_mem_cons.mp proper
    exact ih ⟨first ++ ".", segment, rfl, here⟩ later

namespace DottedName

variable (name : DottedName)

theorem isWhole_first : IsWhole name.first := ⟨"", name.first, by simp, name.proper _ mem_cons_self⟩

theorem isWhole_text : IsWhole name.text :=
  isWhole_dotted name.isWhole_first fun segment here => name.proper segment (mem_cons_of_mem _ here)

end DottedName

namespace IsWhole

variable {text : String} (whole : IsWhole text)

include whole

theorem ne_empty : text ≠ "" := by
  obtain ⟨front, segment, rfl, notEmpty, -⟩ := whole
  simp [notEmpty]

theorem trimDots_eq : trimDots text = text := by
  obtain ⟨front, segment, rfl, notEmpty, noDot⟩ := whole
  have stops : (front ++ segment).toList.reverse.dropWhile (· == '.') =
      (front ++ segment).toList.reverse := by
    rw [String.toList_append, reverse_append]
    cases chars : segment.toList.reverse with
    | nil => simp [notEmpty] at chars
    | cons last rest =>
      have notDot : last ≠ '.' := fun isDot => noDot (mem_reverse.mp (by simp [chars, isDot]))
      simp [notDot]
  rw [trimDots, stops, reverse_reverse, String.ofList_toList]

end IsWhole

/-! ## Sessions -/

namespace Session

/-- The session after interfaces of a draft were named. -/
def naming (session : Session) (index : Nat) (draft : TypeDraft) (names : List String) : Session :=
  session.setDraft index { draft with interfaceNames := draft.interfaceNames ++ names }

variable {session : Session} {index : Nat} {draft : TypeDraft}
  (current : session.current? = .ok (some (index, draft)))

include current

theorem default?_of_current (isDefault : session.defaultType = some index) :
    session.default? = .ok (some (index, draft)) := by
  rw [default?, isDefault]
  simp [Session.draft, (current?_eq_some current).2.1, bind, Except.bind, pure, Except.pure]

theorem naming_nil : session.naming index draft [] = session := by
  obtain ⟨inRange, here⟩ := List.getElem?_eq_some_iff.mp (current?_eq_some current).2.1
  have same : session.drafts.set index draft = session.drafts := here ▸ set_getElem_self inRange
  rw [naming, setDraft, append_nil, same]

/-- The draft with its names is still the current one. -/
theorem current?_naming (names : List String) : (session.naming index draft names).current? =
    .ok (some (index, { draft with interfaceNames := draft.interfaceNames ++ names })) :=
  current?_setDraft current _ (current?_eq_some current).2.2

/-- Another interface is named. -/
theorem amend_naming (names : List String) (name : String) :
    (session.naming index draft names).amend
        (some (index, { draft with interfaceNames := draft.interfaceNames ++ names }))
        (·.implement name) =
      some (session.naming index draft (names ++ [name])) := by
  simp [amend, TypeDraft.implement, (current?_eq_some current).2.2, naming, setDraft]

end Session

/-! ## The directive -/

theorem splitNames_tokens (name : DottedName) (rest : List Token) :
    splitNames "" (name.tokens ++ rest) = splitNames name.text rest := by
  have follows (current : String) (more : List String) :
      splitNames current (more.flatMap (fun segment => [.separator .member, .literal segment]) ++
        rest) = splitNames (dotted (current :: more)) rest := by
    induction more generalizing current with
    | nil => rfl
    | cons segment more ih => exact ih (current ++ "." ++ segment)
  simpa [DottedName.tokens, DottedName.text, splitNames] using follows name.first name.more

/-- The look-ahead takes the names of the list, up to the end of the line. -/
theorem splitNames_nameTokens (first : DottedName) (more : List DottedName) (rest : List Token) :
    splitNames "" (nameTokens first more ++ .newLine :: rest) =
      ((first :: more).map (·.text), .newLine :: rest) := by
  have follows (current : String) : splitNames current
      (more.flatMap (fun name => .separator .statement :: name.tokens) ++ .newLine :: rest) =
        (current :: more.map (·.text), .newLine :: rest) := by
    induction more generalizing current with
    | nil => rfl
    | cons name more ih =>
      simp only [flatMap_cons, cons_append, append_assoc, splitNames, splitNames_tokens, ih,
        map_cons]
  rw [nameTokens, append_assoc, splitNames_tokens, follows, map_cons]

section Naming

variable {c : Compiler} {session : Session} {index : Nat} {draft : TypeDraft} {named : List String}
  (current : session.current? = .ok (some (index, draft)))

include current

theorem implementCurrent_naming (here : c.session = session.naming index draft named)
    {name : String} (whole : IsWhole name) :
    implementCurrent name c =
      .ok ((), { c with session := session.naming index draft (named ++ [name]) }, []) := by
  rw [implementCurrent, whole.trimDots_eq]
  simp [whole.ne_empty, amendCurrent, here, Session.current?_naming current,
    Session.amend_naming current]

theorem forM_amendDefault_naming (isDefault : session.defaultType = some index) (more : List String)
    (here : c.session = session.naming index draft named) :
    (more.forM fun name => amendDefault (·.implement name) (.classClosedToImplement name)) c =
      .ok ((), { c with session := session.naming index draft (named ++ more) }, []) := by
  induction more generalizing c named with
  | nil => simp [← here]
  | cons name more ih =>
    have first : amendDefault (·.implement name) (.classClosedToImplement name) c =
        .ok ((), { c with session := session.naming index draft (named ++ [name]) }, []) := by
      simp [amendDefault, here, Session.default?_of_current (Session.current?_naming current named)
        isDefault, Session.amend_naming current]
    rw [append_cons]
    exact (bind_eq first).trans (ih rfl)

end Naming

/-! ## The clause -/

namespace Compiler

/-- Nothing waits for a later token. -/
structure Vacant (c : Compiler) : Prop extends c.Quiet where
  consume : c.consume = .normal
  literals : c.literals = []
  base : c.base = .fresh
  pendingNew : c.pendingNew = false
  retractable : c.retractable = none

/-- The state while a list of interfaces is read. -/
def listing (c : Compiler) (session : Session) (name : String) : Compiler :=
  { c with session := session, interfaces := some name }

namespace Vacant

variable {c : Compiler} (vacant : c.Vacant) {session : Session}

include vacant

theorem waits : c.needEnd = none ∧ c.pendingExtends = false ∧ c.retractable = none :=
  ⟨vacant.needEnd, vacant.pendingExtends, vacant.retractable⟩

attribute [local simp] listing step takeRetractable checkEnd readBase
  readInterfaces

theorem reads_segment {name : String} (wants : wantsSegment name = true) (segment : String) :
    Reads [.literal segment] (c.listing session name) (c.listing session (name ++ segment)) :=
  .single nofun fun stream => by simp [vacant.waits, wants]

theorem reads_dot {name : String} (whole : IsWhole name) :
    Reads [.separator .member] (c.listing session name) (c.listing session (name ++ ".")) :=
  .single nofun fun stream => by simp [vacant.waits, whole.ne_empty]

/-- The segments of a name are put one behind the other. -/
theorem reads_tokens (session : Session) (name : DottedName) :
    Reads name.tokens (c.listing session "") (c.listing session name.text) := by
  have follows {first : String} (whole : IsWhole first) {more : List String}
      (proper : ∀ segment ∈ more, segment ≠ "" ∧ '.' ∉ segment.toList) :
      Reads (more.flatMap fun segment => [.separator .member, .literal segment])
        (c.listing session first) (c.listing session (dotted (first :: more))) := by
    induction more generalizing first with
    | nil => exact .nil
    | cons segment more ih =>
      obtain ⟨here, later⟩ := forall_mem_cons.mp proper
      have wants : wantsSegment (first ++ ".") = true := by simp [wantsSegment]
      exact (vacant.reads_dot whole).append
        ((vacant.reads_segment wants segment).append (ih ⟨first ++ ".", segment, rfl, here⟩ later))
  have begins : Reads [.literal name.first] (c.listing session "")
      (c.listing session ("" ++ name.first)) :=
    vacant.reads_segment rfl name.first
  rw [String.empty_append] at begins
  exact begins.append (follows name.isWhole_first (forall_mem_cons.mp name.proper).2)

section Current

variable {index : Nat} {draft : TypeDraft} {named : List String} {name : String}
  (current : session.current? = .ok (some (index, draft))) (whole : IsWhole name)

include current whole

/-- A comma names the interface before it. -/
theorem reads_comma : Reads [.separator .statement] (c.listing (session.naming index draft named) name)
    (c.listing (session.naming index draft (named ++ [name])) "") :=
  .single nofun fun stream => by
    have names := implementCurrent_naming
      (c := { c.listing (session.naming index draft named) "" with stream := stream }) current rfl whole
    simp only [listing, vacant.waits] at names
    simpa [vacant.waits] using names

/-- The end of the expression names the last interface, and nothing else. -/
theorem reads_end (noHead : blockOwner (some draft) = .plain) :
    Reads [.expressionEnd] (c.listing (session.naming index draft named) name)
      { c with
        session := session.naming index draft (named ++ [name]), interfaces :=
          none, lastDeclared := none } :=
  .single nofun fun stream => by
    have names := implementCurrent_naming
      (c := { c with session := session.naming index draft named, interfaces := none, stream := stream })
      current rfl whole
    have type := Session.current?_naming current (named ++ [name])
    obtain ⟨noType, noMethod⟩ : draft.initializing = false ∧
        draft.openMethods.head?.any (·.paramsOpen) = false := by
      rw [blockOwner] at noHead
      split at noHead
      · cases noHead
      · split at noHead
        · cases noHead
        · exact ⟨by simp_all, by simp_all [TypeDraft.currentMethod?]⟩
    simp only [vacant.waits] at names
    simp [vacant.waits, Token.isEnd]
    rw [bind_eq names]
    simp [vacant.consume, dispatch, expressionEnd, endExpression,
      flushReference, dropValues, forgetWaiting, vacant.literals, vacant.base, Frame.fresh,
      vacant.pendingNew, Session.currentType?, type, noType, TypeDraft.currentMethod?, noMethod]

omit whole

/-- Each further name is read after a comma, which names the one before, and the last one is named
at the end. -/
theorem reads_more (noHead : blockOwner (some draft) = .plain) (named : List String) {name : String}
    (whole : IsWhole name) (more : List DottedName) :
    Reads (more.flatMap (fun name => .separator .statement :: name.tokens) ++ [.expressionEnd])
      (c.listing (session.naming index draft named) name)
      { c with
        session := session.naming index draft (named ++ name :: more.map (·.text))
        interfaces := none, lastDeclared := none } := by
  induction more generalizing named name with
  | nil => exact vacant.reads_end current whole noHead
  | cons next more ih =>
    have rest := (vacant.reads_tokens _ next).append (ih (named ++ [name]) next.isWhole_text)
    have reads := (vacant.reads_comma current whole).append rest
    simpa using reads

end Current

/-- A clause begins, where open brackets are reported. -/
theorem step_clause (stream : List Token) :
    step .implementsClause { c with stream := stream } =
      .ok ((), { c.listing c.session "" with stream := stream }, c.nesting.unclosed) := by
  rw [OpenBody.step_eq_dispatch (vacant.toQuiet.withStream stream) vacant.retractable rfl]
  simp [dispatch, checkClosed, bind, Compile.get, reportAll]

theorem step_directive (stream : List Token) :
    step .directive { c with stream := stream } =
      .ok ((), { c with stream := stream, inDirective := true }, []) := by
  rw [OpenBody.step_eq_dispatch (vacant.toQuiet.withStream stream) vacant.retractable rfl]
  rfl

theorem step_newLine (stream : List Token) :
    step .newLine { c with stream := stream } = .ok ((), { c with stream := stream }, []) := by
  rw [OpenBody.step_eq_dispatch (vacant.toQuiet.withStream stream) vacant.retractable rfl]
  simp [dispatch, vacant.inDirective]

/-- The directive takes its whole list from the stream. -/
theorem step_implements (isClass : c.session.options.header = .singleClass) {index : Nat}
    {draft : TypeDraft} (current : c.session.current? = .ok (some (index, draft)))
    (isDefault : c.session.defaultType = some index) {names : List String}
    {tokens rest : List Token} (split : splitNames "" tokens = (names, rest))
    (filled : names.filter (· != "") = names) : step (.literal "implements")
      { c with stream := tokens, inDirective := true } =
        .ok ((), { c with stream := rest, session := c.session.naming index draft names }, []) := by
  have amends := forM_amendDefault_naming (c := { c with stream := rest }) current isDefault names
    (Session.naming_nil current).symm
  simp only [vacant.waits, vacant.interfaces, vacant.inDirective, nil_append] at amends
  simpa [vacant.waits, vacant.interfaces, Token.isEnd, dispatch,
    literal, directive, implementsDirective, nextNames, split, filled, isClass,
    vacant.inDirective] using amends

end Vacant

end Compiler

/-! ## Both -/

namespace Build

/-- The loop gets through the tokens, whatever tokens follow, and they name the interfaces of the
implicit class. -/
def Appends (build : Build) (tokens : List Token) (names : List String) : Prop :=
  ∀ rest, ∃ (index : Nat) (draft : TypeDraft) (turns : Nat) (later : Build),
    build.compiler.session.default? = .ok (some (index, draft)) ∧
      (∀ fuel, (build.reading (tokens ++ rest)).run (turns + fuel) = later.run fuel) ∧
      later.compiler.stream = rest ∧ later.compiler.session = build.compiler.session.setDraft index
        { draft with interfaceNames := draft.interfaceNames ++ names }

/-- One turn of the loop. -/
theorem exists_turn (build : Build) {token : Token} {rest : List Token} {c : Compiler}
    {problems : List Problem} (next : build.compiler.stream = token :: rest)
    (stepped : step token { build.compiler with stream := rest } = .ok ((), c, problems)) :
    ∃ later : Build, later.compiler = c ∧ ∀ fuel, build.run (fuel + 1) = later.run fuel := by
  obtain ⟨later, compiler, processed⟩ :
      ∃ later : Build, later.compiler = c ∧ (build.reading rest).process token = .ok later := by
    simp [process, reading, stepped, bind, Except.bind, pure, Except.pure]
  refine ⟨later, compiler, fun fuel => ?_⟩
  rw [run_succ next, processed]
  rfl

variable {build : Build} {index : Nat} {draft : TypeDraft} (vacant : build.compiler.Vacant)
  (current : build.compiler.session.current? = .ok (some (index, draft)))
  (isDefault : build.compiler.session.defaultType = some index) (first : DottedName)
    (more : List DottedName)

include vacant current isDefault

theorem appends_clause (noHead : blockOwner (some draft) = .plain) :
    build.Appends (.implementsClause :: (nameTokens first more ++ [.expressionEnd]))
      ((first :: more).map (·.text)) := by
  intro rest
  obtain ⟨begun, compiler, turn⟩ := exists_turn
    (build.reading (.implementsClause :: (nameTokens first more ++ [.expressionEnd]) ++ rest)) rfl
    (vacant.step_clause _)
  have reads := vacant.reads_more current noHead [] first.isWhole_text more
  rw [Session.naming_nil current] at reads
  have reads := (vacant.reads_tokens _ first).append reads
  rw [← append_assoc] at reads
  have runs := reads.run begun compiler
  exact ⟨index, draft, (nameTokens first more ++ [Token.expressionEnd]).length + 1, _,
    Session.default?_of_current current isDefault,
    fun fuel => by rw [Nat.add_right_comm, turn]; exact runs fuel, rfl, rfl⟩

theorem appends_directive (isClass : build.compiler.session.options.header = .singleClass) :
    build.Appends (.directive :: .literal "implements" :: (nameTokens first more ++ [.newLine]))
      ((first :: more).map (·.text)) := by
  intro rest
  have split := splitNames_nameTokens first more rest
  rw [append_cons] at split
  have filled : ((first :: more).map (·.text)).filter (· != "") = (first :: more).map (·.text) := by
    refine filter_eq_self.mpr fun text here => ?_
    obtain ⟨name, -, rfl⟩ := mem_map.mp here
    simpa using name.isWhole_text.ne_empty
  have stillVacant : ({ build.compiler with
      session := build.compiler.session.naming index draft ((first :: more).map (·.text)) } :
          Compiler).Vacant :=
    { vacant with }
  obtain ⟨marked, compiler, one⟩ := exists_turn
    (build.reading (.directive :: .literal "implements" :: (nameTokens first more ++ [.newLine]) ++
      rest)) rfl
    (vacant.step_directive _)
  obtain ⟨listed, compiler, two⟩ := exists_turn marked (by rw [compiler]; rfl) (by
    rw [compiler]
    exact vacant.step_implements isClass current isDefault split filled)
  obtain ⟨later, compiler, three⟩ := exists_turn listed (by rw [compiler]) (by
    rw [compiler]
    exact stillVacant.step_newLine rest)
  refine ⟨index, draft, 3, later, Session.default?_of_current current isDefault,
    fun fuel => ?_, by rw [compiler], by rw [compiler]; rfl⟩
  rw [Nat.add_comm, one, two, three]

end Build

/-- A list of interfaces that is written as a clause and one that is written as a directive append
the same names to the implicit class, in the same order: the dotted names of the list. Where nothing
waits for a later token and the implicit class of a class file is current, the loop gets through
either form, whatever tokens follow. -/
theorem interface_lists_agree (build : Build) (vacant : build.compiler.Vacant)
    (isClass : build.compiler.session.options.header = .singleClass)
    (isDefault : build.compiler.session.isDefaultCurrent = .ok true)
    (noHead : ∀ type, build.compiler.session.currentType? = .ok (some type) →
      blockOwner (some type) = .plain)
    (first : DottedName) (more : List DottedName) :
    build.Appends (.implementsClause :: (nameTokens first more ++ [.expressionEnd]))
    ((first :: more).map (·.text)) ∧
      build.Appends (.directive :: .literal "implements" :: (nameTokens first more ++ [.newLine]))
        ((first :: more).map (·.text)) := by
  obtain ⟨index, draft, current, isPlace⟩ :
      ∃ index draft, build.compiler.session.current? = .ok (some (index, draft)) ∧
        build.compiler.session.defaultType = some index := by
    rw [Session.isDefaultCurrent] at isDefault
    rcases found : build.compiler.session.current? with fault | _ | entry
    · simp [found, bind, Except.bind] at isDefault
    · simp [found, bind, Except.bind, pure, Except.pure] at isDefault
    · exact ⟨entry.1, entry.2, rfl, by simpa [found, bind, Except.bind, pure,
        Except.pure] using isDefault⟩
  have noHead : blockOwner (some draft) = .plain := noHead draft (by
    simp [Session.currentType?, current, bind, Except.bind, pure, Except.pure])
  exact ⟨Build.appends_clause vacant current isPlace first more noHead,
    Build.appends_directive vacant current isPlace first more isClass⟩

/-- A class file of which nothing was read, but that its class implements something. -/
def newClass : Build where
  compiler :=
    { session :=
        { options := { header := .singleClass }, table := .empty, moduleName := "out"
          drafts := [{ id := 0, interfaceNames := ["IFirst"] }]
          defaultType := some 0 }
      files := .empty []
      stream := [] }

/-- The clause and the directive both add `System.IDisposable` and `I`. -/
theorem newClass_interface_lists_agree : newClass.compiler.Vacant ∧
    newClass.Appends [.implementsClause, .literal "System", .separator .member,
      .literal "IDisposable", .separator .statement, .literal "I", .expressionEnd]
        ["System.IDisposable", "I"] ∧
    newClass.Appends [.directive, .literal "implements", .literal "System", .separator .member,
      .literal "IDisposable", .separator .statement, .literal "I", .newLine]
        ["System.IDisposable", "I"] := by
  have vacant : newClass.compiler.Vacant := ⟨⟨rfl, rfl, rfl, rfl⟩, rfl, rfl, rfl, rfl, rfl⟩
  have noHead (type : TypeDraft) (current : newClass.compiler.session.currentType? =
      .ok (some type)) : blockOwner (some type) = .plain := by
    cases current
    rfl
  exact ⟨vacant, interface_lists_agree newClass vacant rfl rfl noHead
    ⟨"System", ["IDisposable"], by simp⟩ [⟨"I", [], by simp⟩]⟩

end OnePass
