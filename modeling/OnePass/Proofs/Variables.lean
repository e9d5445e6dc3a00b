import OnePass.Proofs.FinalAssignment
import OnePass.Proofs.Layout.Step
import OnePass.Proofs.Roster

/-! # Variables are in range

Loads and stores name variables by number. The number is looked up in the current method, but it may
be used much later: the target of an assignment is held until its value was read, and the receiver
of a call until the bracket closes. It still means the same variable if the current method is the
same by then, or if nothing was held when it changed (`Build.Settles`). A branch that is moved
together with the code around it gets its target written to whatever stands in its old place, be it
a load or a store. So branches have to be read where no bracket is open (`Build.FreeGotos`).

* `MethodBody.Fits`: the loads and stores of a finished method name variables that it has.
* `MethodDraft.Fits`: so do those of an open one, and its branches stand where they were read.
* `Compiler.Fits`: this holds of all methods, and what the state remembers belongs to the current
  one. -/

namespace OnePass

open List MethodDraft

/-! ## Methods -/

/-- Every load and store names one of the locals of the method, or else one of its arguments: its
parameters and, unless it is static, its receiver. -/
def MethodBody.Fits (table : SymbolTable) (body : MethodBody) : Prop :=
  ∃ receivers, table.receivers body.slot = .ok receivers ∧
    ∀ instruction ∈ body.code, instruction.InRange body.locals.length (body.params.length + receivers)

theorem MethodBody.Fits.retains {table later : SymbolTable} {body : MethodBody}
    (fits : body.Fits table) (retains : table.Retains later) : body.Fits later := by
  obtain ⟨receivers, takes, inRange⟩ := fits
  exact ⟨receivers, retains.receivers takes, inRange⟩

namespace MethodDraft

variable {table later : SymbolTable} {keep : Nat} {method changed : MethodDraft}

/-- Every load and store names a variable that the method has, and its branches stand where they
were read. -/
structure Fits (table : SymbolTable) (method : MethodDraft) : Prop where
  isStatic : method.Matches table
  inRange : ∀ instruction ∈ method.code, instruction.InRange method.locals.length method.arity
  tethered : method.Tethered method.position

theorem Fits.retains (fits : method.Fits table) (retains : table.Retains later) :
    method.Fits later :=
  { fits with isStatic := retains.receivers fits.isStatic }

theorem IsNew.tethered (isNew : method.IsNew) : method.Tethered keep := by
  constructor <;> simp [isNew.fixups]

theorem IsNew.fits (isNew : method.IsNew) (isStatic : method.Matches table) : method.Fits table where
  isStatic := isStatic
  inRange := by simp [isNew.code]
  tethered := isNew.tethered

/-- The code that stands needs no more variables than before, and what is new is in range. -/
theorem Fits.edits (fits : method.Fits table) (tethered : method.Tethered keep)
    (edits : method.Edits { keep := keep, checked := True } changed) : changed.Fits table where
  isStatic := by
    rw [Matches, edits.slot, edits.isStatic]
    exact fits.isStatic
  inRange instruction here := by
    have stays (wasThere : instruction ∈ method.code) : instruction.InRange changed.locals.length
        changed.arity :=
      (fits.inRange instruction wasThere).mono edits.locals edits.arity
    rw [← take_append_drop keep changed.code, edits.stands, mem_append] at here
    rcases here with standing | behind
    · exact stays (mem_of_mem_take standing)
    · rcases edits.fresh instruction behind with wasThere | admits
      · exact stays (mem_of_mem_drop wasThere)
      · exact admits.inRange trivial
  tethered := (tethered.edits edits).mono edits.le

theorem Fits.emit_ret (fits : method.Fits table) : (method.emit .ret).Fits table :=
  fits.edits fits.tethered (edits_emit_plain le_rfl rfl)

theorem Tethered.branch (tethered : method.Tethered method.position) (name : String) :
    (method.branch name).Tethered (method.branch name).position := by
  have position : (method.branch name).position = method.position + 1 := by
    simp [MethodDraft.position, MethodDraft.branch, emit, append]
  rw [position]
  refine ⟨List.pairwise_append.mpr ⟨tethered.ordered, List.pairwise_singleton .., ?_⟩,
    List.forall_mem_append.mpr ⟨fun fixup here => ?_,
      List.forall_mem_singleton.mpr ⟨Nat.lt_succ_self _, ?_⟩⟩⟩
  · intro fixup here other isLast
    obtain rfl := List.mem_singleton.mp isLast
    exact (tethered.branches fixup here).1
  · obtain ⟨inside, isBranch⟩ := tethered.branches fixup here
    exact ⟨inside.trans (Nat.lt_succ_self _), (List.getElem?_append_left inside).trans isBranch⟩
  · exact List.getElem?_concat_length

theorem locals_note (token : Token) (method : MethodDraft) :
    (token.note method).locals = method.locals ∧ (token.note method).arity = method.arity := by
  rw [Token.note.eq_def]
  split
  · split <;> exact ⟨rfl, rfl⟩
  · exact ⟨rfl, rfl⟩
  · exact ⟨rfl, rfl⟩

/-- Labels and branches are no loads or stores. -/
theorem Fits.note (fits : method.Fits table) (token : Token) : (token.note method).Fits table := by
  rw [Token.note.eq_def]
  split
  · split
    · exact fits
    · exact ⟨fits.isStatic, fits.inRange, fits.tethered.ordered, fits.tethered.branches⟩
  · rename_i name
    refine ⟨fits.isStatic, forall_mem_append.mpr ⟨fits.inRange, forall_mem_singleton.mpr ?_⟩,
      fits.tethered.branch name⟩
    exact Instruction.inRange_of_not_variable rfl _ _
  · exact fits

/-- What is written to is a branch, so the loads and stores stay. -/
theorem Fits.body (fits : method.Fits table) : method.body.Fits table := by
  refine ⟨_, fits.isStatic, fun instruction here => ?_⟩
  have locals : method.body.locals.length = method.locals.length := List.length_map ..
  rw [locals]
  obtain ⟨place, there⟩ := List.mem_iff_getElem?.mp here
  rw [getElem?_body_code, Option.map_eq_some_iff] at there
  obtain ⟨before, wasThere, rfl⟩ := there
  cases waits : aim method.labels method.fixups place with
  | none => exact fits.inRange before (List.mem_of_getElem? wasThere)
  | some target =>
    obtain ⟨fixup, found, -⟩ := Option.bind_eq_some_iff.mp waits
    obtain rfl : fixup.position = place := by simpa using List.find?_some found
    obtain rfl : ⟨.br, .target 0⟩ = before := by
      simpa [(fits.tethered.branches fixup (List.mem_of_find?_eq_some found)).2] using wasThere
    exact Instruction.inRange_of_not_variable rfl _ _

end MethodDraft

/-! ## Finished methods -/

/-- The problems of the branches of one of some methods. -/
def lackingAmong (methods : List MethodDraft) (slot : MethodSlot) : List Problem :=
  (methods.find? (·.slot == slot)).elim [] fun method => lacking method.labels method.fixups

theorem lackingAmong_eq {session : Session} (distinct : session.slots.Nodup) {method : MethodDraft}
    (isOpen : method ∈ session.openMethods) :
    lackingAmong session.openMethods method.slot = lacking method.labels method.fixups := by
  rw [lackingAmong]
  cases found : session.openMethods.find? (·.slot == method.slot) with
  | none => simpa using find?_eq_none.mp found method isOpen
  | some other =>
    have same : other.slot = method.slot := by simpa using find?_some found
    rw [session.eq_of_slot_eq distinct (mem_of_find?_eq_some found) isOpen same]
    rfl

/-- A method fits, and something is known about it. -/
def fitting (table : SymbolTable) (methods : List MethodDraft) (known : MethodDraft → Prop) :
    Ending where
  method method := method.Fits table ∧ known method ∧
    lacking method.labels method.fixups = lackingAmong methods method.slot
  body body := body.Fits table
  lost := lackingAmong methods
  finishes := by
    rintro draft ⟨fits, -, lacks⟩
    have undefined : undefinedIn (lacking draft.labels draft.fixups) =
        lacking draft.labels draft.fixups := by
      refine filter_eq_self.mpr fun problem here => ?_
      obtain ⟨fixup, -, rfl⟩ := mem_map.mp here
      rfl
    rw [fits.tethered.finish_eq]
    exact ⟨fits.body, undefined.trans lacks⟩

/-! ## Sessions -/

variable {token : Token}

namespace Session

variable {including : Bool} {session later : Session} {table : SymbolTable} {keep : Nat}

theorem Moves.retains (moves : session.Moves including later) :
    session.table.Retains later.table := by
  cases moves with
  | code same =>
    have table : later.outline.table = session.outline.table := congrArg Session.table same
    rw [show later.table = session.table from table]
    exact .refl _
  | change _ _ _ _ _ _ fills => exact fills.retains
  | add _ types =>
    intro ref marks here
    obtain ⟨type, found, isMethod⟩ := SymbolTable.marks?_eq_some.mp here
    exact SymbolTable.marks?_eq_some.mpr ⟨type, getElem?_extended types found, isMethod⟩

theorem Becomes.retains (becomes : session.Becomes including later)
    (accounted : session.Accounted) : session.table.Retains later.table := by
  have kept : ∀ before after : Session, before.Accounted → before.Moves including after →
      session.table.Retains before.table → session.table.Retains after.table :=
    fun _ _ _ moves before => before.trans moves.retains
  exact becomes.keeps_moves accounted kept (.refl _)

/-- All methods fit, whether they are open or finished. -/
structure Fits (table : SymbolTable) (session : Session) : Prop where
  methods : ∀ method ∈ session.openMethods, method.Fits table
  bodies : ∀ body ∈ session.bodies, body.Fits table

theorem Fits.retains (fits : session.Fits table) {changed : SymbolTable}
    (retains : table.Retains changed) : session.Fits changed where
  methods method isOpen := (fits.methods method isOpen).retains retains
  bodies body here := (fits.bodies body here).retains retains

theorem Fits.replace (fits : session.Fits table) {method changed : MethodDraft}
    {others : List MethodDraft} (bodies : later.bodies = session.bodies)
    (before : session.openMethods.Perm (method :: others))
    (after : later.openMethods.Perm (changed :: others))
    (stillFits : method.Fits table → changed.Fits table) : later.Fits table := by
  refine ⟨fun other isOpen => ?_, bodies ▸ fits.bodies⟩
  rcases List.mem_cons.mp (after.mem_iff.mp isOpen) with rfl | isOther
  · exact stillFits (fits.methods method (before.mem_iff.mpr List.mem_cons_self))
  · exact fits.methods other (before.mem_iff.mpr (List.mem_cons_of_mem _ isOther))

theorem Untouched.fits (untouched : session.Untouched later) (fits : session.Fits table) :
    later.Fits table :=
  ⟨untouched.openMethods ▸ fits.methods, untouched.bodies ▸ fits.bodies⟩

theorem Reworks.fits (reworks : session.Reworks { keep := keep, checked := True } later)
    (tethered : session.Here (·.Tethered keep))
    (fits : session.Fits table) : later.Fits table := by
  rcases reworks.methods with untouched | ⟨method, changed, replaced⟩
  · exact untouched.fits fits
  · obtain ⟨others, before, after⟩ := replaced.openMethods
    exact fits.replace reworks.bodies before after fun methodFits =>
      methodFits.edits (tethered method replaced.before) replaced.edits

theorem Reworks.currentSlot?_eq (reworks : session.Reworks { keep := keep, checked := True } later) :
    later.currentSlot? = session.currentSlot? := by
  rcases reworks.methods with untouched | ⟨method, changed, replaced⟩
  · rw [currentSlot?, currentSlot?, untouched.current]
  · rw [currentSlot?, currentSlot?, replaced.before, replaced.current]
    exact congrArg some replaced.edits.slot

theorem Opens.fits (opens : session.Opens later) (fits : session.Fits later.table) :
    later.Fits later.table := by
  obtain ⟨opened, perm, areNew⟩ := opens.openMethods
  refine ⟨fun method isOpen => ?_, opens.bodies ▸ fits.bodies⟩
  rcases mem_append.mp (perm.mem_iff.mp isOpen) with isNew | wasOpen
  · exact (areNew method isNew).1.fits (areNew method isNew).2
  · exact fits.methods method wasOpen

theorem Notes.fits (notes : session.Notes token.note later) (fits : session.Fits table) :
    later.Fits table := by
  rcases notes.methods with ⟨-, untouched⟩ | ⟨method, others, -, -, before, after⟩
  · exact untouched.fits fits
  · exact fits.replace notes.bodies before after fun methodFits => methodFits.note token

theorem fits_of_ends {methods : List MethodDraft} {known : MethodDraft → Prop}
    {finished : List MethodBody} {problems : List Problem}
    (ends : (fitting table methods known).Ends session later finished problems)
    (fits : session.Fits table) : later.Fits table := by
  refine ⟨fun method isOpen => (ends.methods method isOpen).1, fun body here => ?_⟩
  rcases mem_append.mp (ends.bodies.mem_iff.mp here) with wasThere | isFinished
  · exact fits.bodies body wasThere
  · exact ends.results body isFinished

/-- The current method is the one that it was, if it has the same slot and slots are not used
twice. -/
theorem here_of_slot_eq (same : later.currentSlot? = session.currentSlot?)
    (only : ∀ method ∈ later.openMethods, ∀ before ∈ session.openMethods,
      method.slot = before.slot → method = before) :
    later.Here fun method => session.currentMethod? = .ok (some method) := by
  intro method current
  have isCurrent : session.currentSlot? = some method.slot := by rw [← same, currentSlot?, current]
  obtain ⟨before, currentBefore, slot⟩ := exists_current_of_slot isCurrent
  rw [only method (mem_openMethods_of_current current) before
    (mem_openMethods_of_current currentBefore) slot.symm]
  exact currentBefore

end Session

/-! ## States -/

namespace Compiler

variable {table : SymbolTable} {keep : Nat} {c later : Compiler}

/-- What the state remembers belongs to the current method, and the branches of this method
stand. -/
structure Sits (keep : Nat) (c : Compiler) : Prop where
  guarded : c.Guarded { keep := keep, checked := True }
  beyond : c.retractable.isSome = true → Compile.Beyond keep c
  tethered : c.session.Here (·.Tethered keep)

/-- All methods fit, and what the state remembers belongs to the current one. -/
structure Fits (c : Compiler) : Prop where
  session : c.session.Fits c.session.table
  sits : ∃ keep, c.Sits keep

/-- Where nothing is remembered, all the code of the current method stands. -/
theorem sits_of_isClear (clear : c.isClear = true) (plain : c.Plain)
    (retractable : c.retractable = none) (fits : c.session.Fits table) : c.Sits c.position := by
  obtain ⟨kinds, targets⟩ : c.kinds = [] ∧ c.targets = [] := by simpa [isClear] using clear
  refine ⟨⟨fun method current =>
    ⟨(c.here_position method current).le, ⟨[], kinds, forall_mem_nil _⟩, by simp [targets]⟩,
    fun _ => plain⟩, by simp [retractable], fun method current => ?_⟩
  rw [c.here_position method current]
  exact (fits.methods method (Session.mem_openMethods_of_current current)).tethered

/-- After a step that may change the current method, what is remembered belongs to the same method,
or else nothing is remembered. -/
theorem Alters.exists_sits {R : Session → Session → Prop} (alters : c.Alters R later)
    (sits : c.Sits keep) (retractable : c.retractable = none) (fits : later.session.Fits table)
    (settles : later.session.currentSlot? = c.session.currentSlot? ∨ later.isClear = true)
    (only : ∀ method ∈ later.session.openMethods, ∀ before ∈ c.session.openMethods,
      method.slot = before.slot → method = before) : ∃ keep, later.Sits keep := by
  have plain := alters.plain (sits.guarded.plain trivial)
  have calm : later.retractable = none := alters.retractable.trans retractable
  rcases settles with same | clear
  · have stays := Session.here_of_slot_eq same only
    refine ⟨keep, ⟨fun method current => ?_, fun _ => plain⟩, by simp [calm], fun method current => ?_⟩
    · have before := sits.guarded.sits method (stays method current)
      exact before.mono le_rfl le_rfl before.le alters.kinds alters.targets
    · exact sits.tethered method (stays method current)
  · exact ⟨_, sits_of_isClear clear plain calm fits⟩

theorem Sits.taken (sits : c.Sits keep) : c.taken.Sits keep :=
  ⟨sits.guarded.taken, nofun, sits.tethered⟩

theorem Works.sits {mid : Compiler} (works : c.Works { keep := keep, checked := True } mid)
    (sits : c.Sits keep) (retractable : c.retractable = none) : mid.Sits keep where
  guarded := works.guarded
  beyond := by simp [works.retractable, retractable]
  tethered := works.session.here (fun _ _ edits tethered => tethered.edits edits) sits.tethered

/-! ### Steps -/

theorem Leaves.sits (leaves : c.taken.Leaves { keep := keep, checked := True } later)
    (sits : c.Sits keep) : later.Sits keep := by
  obtain ⟨works, kept⟩ := leaves
  have before := works.sits sits.taken rfl
  refine ⟨before.guarded.reframe rfl rfl (List.Subset.refl _) before.guarded.plain,
    fun isSome => ?_, before.tethered⟩
  rcases kept with same | beyond
  · rw [same] at isSome
    cases isSome
  · exact beyond

theorem exists_sits_of_notes (notes : c.taken.Alters (Session.Notes token.note) later)
    (sits : c.Sits keep) (fits : later.session.Fits table) (isMark : token.isMark = true)
    (isFree : ∀ name, token = .goto name → c.kinds = []) : ∃ keep, later.Sits keep := by
  have plain : later.Plain := notes.plain (sits.guarded.plain trivial)
  have calm : later.retractable = none := notes.retractable
  have noted : c.session.Notes token.note later.session := notes.session
  rcases noted.methods with ⟨-, untouched⟩ | ⟨method, others, current, currentLater, -, -⟩
  · refine ⟨keep, ?_⟩
    have same : c.taken.Untouched later := notes.imp fun _ => untouched
    exact (same.works sits.guarded.taken Guard.loose).sits sits.taken rfl
  have before := sits.guarded.sits method current
  obtain ⟨locals, arity⟩ := method.locals_note token
  have here {p : MethodDraft → Prop} (holds : p (token.note method)) : later.session.Here p := by
    intro other isCurrent
    obtain rfl : token.note method = other := by simpa using currentLater.symm.trans isCurrent
    exact holds
  have targets : ∀ target ∈ later.targets, (token.note method).HasTarget target := fun target held =>
    (before.targets trivial target (notes.targets held)).mono (by rw [locals]) (by rw [arity])
  cases token with
  | label name =>
    -- The code is the same, and so is what stands of it.
    have position : ((Token.label name).note method).position = method.position := by
      rw [Token.note]
      split <;> rfl
    refine ⟨keep, ⟨here ?_, fun _ => plain⟩, by simp [calm], here ?_⟩
    · exact before.mono (by rw [locals]) (by rw [arity]) (position ▸ before.le) notes.kinds notes.targets
    · have tethered := sits.tethered method current
      rw [Token.note]
      split
      · exact tethered
      · exact ⟨tethered.ordered, tethered.branches⟩
  | goto name =>
    -- Nothing is held back by a bracket, so that all the code stands, the branch included.
    have kinds : later.kinds = [] := notes.kinds.trans (isFree name rfl)
    refine ⟨(method.branch name).position,
      ⟨here ⟨le_rfl, ⟨[], kinds, forall_mem_nil _⟩, fun _ => targets⟩, fun _ => plain⟩,
      by simp [calm], here ?_⟩
    exact (fits.methods _ (Session.mem_openMethods_of_current currentLater)).tethered
  | _ => cases isMark

end Compiler

theorem Compile.fits_step {c later : Compiler} {problems : List Problem}
    (stepped : step token c = .ok ((), later, problems)) (sound : c.Sound) (fits : c.Fits)
    (distinct : c.session.slots.Nodup) (distinctLater : later.session.slots.Nodup)
    (retains : c.session.table.Retains later.session.table)
    (settles : later.session.currentSlot? = c.session.currentSlot? ∨ later.isClear = true)
    (isFree : ∀ name, token = .goto name → c.kinds = []) : later.Fits := by
  obtain ⟨keep, sits⟩ := fits.sits
  have before : c.session.Fits later.session.table := fits.session.retains retains
  rcases token.role_cases with ⟨closes, -⟩ | ⟨isMark, -⟩ | ⟨opens, -⟩ | ⟨stays, -⟩
  · -- The expression is ended first, which leads to a state with the same current method.
    let ending (mid : Compiler) : Ending :=
      fitting later.session.table mid.session.openMethods (· ∈ mid.session.openMethods)
    have between {mid : Compiler} (works : c.taken.Works { keep := keep, checked := True } mid) :
        mid.session.Fits later.session.table ∧ mid.session.slots.Nodup :=
      ⟨works.session.fits sits.taken.tethered before, works.session.slots_perm.nodup_iff.mpr distinct⟩
    have all : ∀ mid, c.taken.Works { keep := keep, checked := True } mid →
        ∀ method ∈ mid.session.openMethods, (ending mid).method method :=
      fun mid works method isOpen =>
        ⟨(between works).1.methods method isOpen, isOpen, (lackingAmong_eq (between works).2 isOpen).symm⟩
    obtain ⟨mid, finished, works, alters⟩ := (resolves_step sound sits.guarded all closes).of_ok
      stepped
    obtain ⟨fitsMid, distinctMid⟩ := between works
    have ends := alters.session
    have fitsLater := Session.fits_of_ends ends fitsMid
    have slot : mid.session.currentSlot? = c.session.currentSlot? := works.session.currentSlot?_eq
    refine ⟨fitsLater, alters.exists_sits (works.sits sits.taken rfl) works.retractable fitsLater
      (slot ▸ settles) ?_⟩
    intro method isOpen before wasOpen same
    exact Session.eq_of_slot_eq distinctMid (ends.methods method isOpen).2.1 wasOpen same
  · obtain ⟨marked, -⟩ := (does_step_mark isMark).of_ok stepped
    cases reading : c.interfaces with
    | some name =>
      simp only [reading, Option.isSome_some, if_true] at marked
      exact ⟨marked.session.fits before, keep, (marked.works sits.guarded.taken Guard.loose).sits
        sits.taken rfl⟩
    | none =>
      simp only [reading, Option.isSome_none, Bool.false_eq_true, if_false] at marked
      have fitsLater := marked.session.fits before
      exact ⟨fitsLater, Compiler.exists_sits_of_notes marked sits fitsLater isMark isFree⟩
  · obtain ⟨opened, -⟩ := (does_step_opens opens).of_ok stepped
    have fitsLater := opened.session.fits before
    refine ⟨fitsLater, opened.exists_sits sits.taken rfl fitsLater settles ?_⟩
    intro method isOpen before wasOpen same
    obtain ⟨fresh, perm, -⟩ := opened.session.openMethods
    rcases mem_append.mp (perm.mem_iff.mp isOpen) with isNew | stillOpen
    · have slots := (Session.slots_perm_of_opened opened.session.bodies perm).nodup_iff.mp distinctLater
      exact absurd same ((nodup_append.mp slots).2.2 _ (mem_map_of_mem isNew) _
        (Session.slot_mem wasOpen))
    · exact Session.eq_of_slot_eq distinct stillOpen wasOpen same
  · obtain ⟨leaves, -⟩ :=
      (does_step_stays sits.guarded sits.beyond stays fun _ => length_pos_iff.mpr).of_ok stepped
    exact ⟨leaves.1.session.fits sits.tethered before, keep, leaves.sits sits⟩

/-! ## Builds -/

/-- Whether a token is a goto. -/
def Token.isGoto : Token → Bool
  | .goto _ => true
  | _ => false

namespace Build

variable {files : FileTree} {stream : TokenStream} {options : BuildOptions} {autoName : Bool}
variable {build later done : Build} {trail : List Build}

/-- A goto is read where no bracket is open. -/
def FreeGotos (build : Build) : Prop :=
  ∀ token ∈ build.compiler.stream.head?, token.isGoto = true → build.compiler.kinds.isEmpty = true

instance (build : Build) : Decidable build.FreeGotos :=
  inferInstanceAs (Decidable (∀ token ∈ build.compiler.stream.head?, _ →
    build.compiler.kinds.isEmpty = true))

theorem fits_process (reached : Reached files stream options autoName build)
    (fits : build.compiler.Fits) {rest : List Token} (next : build.compiler.stream = token :: rest)
    (processed : (build.reading rest).process token = .ok later) (settles : build.Settles later)
    (isFree : build.FreeGotos) : later.compiler.Fits := by
  obtain ⟨problems, stepped⟩ : ∃ problems,
      Compile.step token (build.reading rest).compiler = .ok ((), later.compiler, problems) := by
    rw [process] at processed
    cases ran : Compile.step token (build.reading rest).compiler with
    | error fault => simp [ran, bind, Except.bind] at processed
    | ok outcome =>
      simp only [ran, bind, Except.bind, pure, Except.pure, Except.ok.injEq] at processed
      exact ⟨outcome.2.2, by rw [← processed]⟩
  have read : (build.reading rest).compiler.Fits := by
    obtain ⟨keep, sits⟩ := fits.sits
    refine ⟨fits.session, keep, ?_, sits.beyond, sits.tethered⟩
    exact sits.guarded.reframe rfl rfl (List.Subset.refl _) sits.guarded.plain
  have sound : (build.reading rest).compiler.Sound := { reached.sound with }
  have accounted := (reached.step next processed).accounted
  have retains := (steps_process processed).session.retains reached.accounted
  refine Compile.fits_step stepped sound read reached.accounted.nodup_slots accounted.nodup_slots
    retains settles ?_
  rintro name rfl
  exact List.isEmpty_iff.mp (isFree _ (by rw [next]; rfl) rfl)

theorem Passes.fits (passes : build.Passes trail done)
    (reached : Reached files stream options autoName build) (fits : build.compiler.Fits)
    (settled : trail.IsChain Settles) (isFree : ∀ state ∈ trail, state.FreeGotos) :
    Reached files stream options autoName done ∧ done.compiler.Fits := by
  induction passes with
  | last => exact ⟨reached, fits⟩
  | next next processed passes ih =>
    obtain ⟨others, rfl⟩ := passes.exists_head
    obtain ⟨settles, settledRest⟩ := isChain_cons_cons.mp settled
    obtain ⟨here, isFreeRest⟩ := forall_mem_cons.mp isFree
    exact ih (reached.step next processed) (fits_process reached fits next processed settles here)
      settledRest isFreeRest

theorem Reached.fits_of_finish (reached : Reached files stream options autoName done)
    (fits : done.compiler.Fits) {result : BuildResult} (finished : done.finish = .ok result) :
    ∀ body ∈ result.compiled.bodies, body.Fits result.compiled.table := by
  let session := done.compiler.session
  let ending : Ending := fitting session.table session.openMethods fun _ => True
  have returns : ∀ method, ending.method method → ending.method (method.emit .ret) :=
    fun method ⟨methodFits, _, lacks⟩ => ⟨methodFits.emit_ret, trivial, lacks⟩
  have all : ∀ method ∈ session.openMethods, ending.method method := fun method isOpen =>
    ⟨fits.session.methods method isOpen, trivial,
      (lackingAmong_eq reached.accounted.nodup_slots isOpen).symm⟩
  obtain ⟨_, bodies, -, perm, -, areFitting, -⟩ :=
    (resolves_finish reached.sound reached.accounted returns all).of_ok finished
  obtain ⟨_, _, _, last, handsOver⟩ := reached.exists_handsOver finished
  have retains : session.table.Retains result.compiled.table := by
    rw [handsOver.table]
    exact handsOver.closes_last.table.retains
  intro body here
  refine MethodBody.Fits.retains ?_ retains
  rcases mem_append.mp (perm.mem_iff.mp here) with wasThere | isFinished
  · exact fits.session.bodies body wasThere
  · exact areFitting body isFinished

end Build

theorem Session.gives_create_fits (options : BuildOptions) (autoName : Bool) :
    Gives (create options autoName) fun session => session.Fits session.table := by
  refine (gives_create_bare options autoName).imp fun session bare =>
    ⟨fun method isOpen => ?_, fun body here => ?_⟩
  · obtain ⟨draft, isDraft, inDraft⟩ := mem_flatMap.mp isOpen
    obtain ⟨ref, rfl, marks⟩ := (bare draft isDraft).2 method inDraft
    exact MethodDraft.IsNew.fits ⟨rfl, rfl, rfl, rfl, rfl⟩ (SymbolTable.receivers_of_marks marks)
  · obtain ⟨draft, isDraft, inDraft⟩ := mem_flatMap.mp here
    rw [(bare draft isDraft).1] at inDraft
    cases inDraft

/-- Variables are in range, if no step changes the current method while a bracket is open or a
target is held, and if gotos are only read while no bracket is open. Then every load or store of a
local in a finished method names one of its locals, and every load or store of an argument names one
of its parameters or, if it is an instance method or a constructor, its receiver. -/
theorem variables_are_in_range {files : FileTree} {stream : TokenStream} {options : BuildOptions}
    {autoName : Bool} {result : BuildResult} (settled :
      (trace files stream options autoName).IsChain Build.Settles)
    (isFree : ∀ state ∈ trace files stream options autoName, state.FreeGotos)
    (built : build files stream options autoName = .ok result) :
    ∀ body ∈ result.compiled.bodies, body.Fits result.compiled.table := by
  rw [trace] at settled isFree
  rw [build] at built
  cases created : Session.create { options with header := stream.header } autoName with
  | error fault => simp [created, bind, Except.bind] at built
  | ok session =>
    simp only [created, bind, Except.bind] at built settled isFree
    split at built
    · cases built
    · rename_i done ran
      let start : Build := { compiler := { session := session, files := files, stream := stream.tokens } }
      have sessionFits := (Session.gives_create_fits _ _).of_ok created
      have plain : start.compiler.Plain := by simp [Compiler.Plain, start, Frame.fresh]
      have fits : start.compiler.Fits := ⟨sessionFits, _, Compiler.sits_of_isClear rfl plain rfl
        sessionFits⟩
      have reached : Build.Reached files stream options autoName start := .start created
      obtain ⟨reachedDone, fitsDone⟩ := (Build.passes_of_run ran).fits reached fits settled isFree
      exact reachedDone.fits_of_finish fitsDone built

/-- A class with a constructor, an instance method with a loop, and a static method that calls
it. -/
def tally : TokenStream where
  header := .library
  platform := 0
  tokens :=
    [.classOpen "Tally" .plain .everywhere, .block true,
      .function "Tally" "" .constructor .everywhere, .statement true, .var "k" "int" false,
        .statement false, .block true, .literal "k", .operator .assign,
      .value (.int 1), .expressionEnd, .block false, .function "f" "" .plain .everywhere, .statement true,
      .var "x" "int" false, .statement false, .block true, .var "y" "int" false, .expressionEnd,
        .label "top",
      .literal "y", .operator .assign, .literal "x", .expressionEnd, .goto "top", .block false,
      .function "g" "" .static .everywhere, .statement true, .var "t" "Tally" false,
        .statement false, .block true,
      .literal "t", .separator .member, .literal "f", .statement true, .value (.int 1), .statement false,
      .expressionEnd, .block false, .block false]

/-- Every variable that `tally` loads or stores is one that its body has. -/
theorem tally_in_range :
    (trace (.empty []) tally {} false).IsChain Build.Settles ∧
      (∀ state ∈ trace (.empty []) tally {} false, state.FreeGotos) ∧
      (build (.empty []) tally {} false).map (fun result => result.compiled.bodies.map fun body =>
          (body.slot, body.params.length, body.locals.length, body.code.filter (·.opcode.isVariable))) =
        .ok [(.ctor ⟨18, 0⟩, 1, 0, [⟨.starg, .arg 1⟩]),
          (.method ⟨18, 0⟩, 1, 1, [⟨.ldarg, .arg 1⟩, ⟨.stloc, .loc 0⟩]),
          (.method ⟨18, 1⟩, 1, 0, [⟨.ldarg, .arg 0⟩])] ∧
      ∃ result, build (.empty []) tally {} false = .ok result ∧
        ∀ body ∈ result.compiled.bodies, body.Fits result.compiled.table := by
  have settled : (trace (.empty []) tally {} false).IsChain Build.Settles := by decide +kernel
  have isFree : ∀ state ∈ trace (.empty []) tally {} false, state.FreeGotos := by decide +kernel
  have succeeds : (build (.empty []) tally {} false).isOk = true := by decide +kernel
  refine ⟨settled, isFree, by decide +kernel, ?_⟩
  cases built : build (.empty []) tally {} false with
  | error fault => simp [built, Except.isOk, Except.toBool] at succeeds
  | ok result => exact ⟨result, rfl, variables_are_in_range settled isFree built⟩

/-- An assignment to a local begins in one function, and its value is read in another. -/
def heldTarget : TokenStream where
  header := .library
  platform := 0
  tokens :=
    [.classOpen "A" .static .everywhere, .block true, .function "f" "" .static .everywhere,
      .block true, .var "b" "int" false, .expressionEnd, .literal "b", .operator .assign,
        .function "g" "" .static .everywhere,
      .value (.int 1), .expressionEnd, .block false, .block false]

/-- A goto stands between the brackets of a call, in front of which the receiver is loaded. -/
def movedGoto : TokenStream where
  header := .library
  platform := 0
  tokens :=
    [.classOpen "A" .plain .everywhere, .block true, .function "m" "" .plain .everywhere,
      .statement true, .var "k" "int" false, .statement false, .block true, .block false,
        .function "f" "" .plain .everywhere,
      .block true, .var "o" "A" false, .expressionEnd, .label "top", .literal "o",
        .separator .member, .literal "m",
      .statement true, .goto "top", .value (.int 1), .statement false, .expressionEnd, .block false,
        .block false]

/-- A target that is held while the current method changes is stored to by its number, also if the
method has no such local. A goto that is moved leaves its target to a load that has taken its place.
Nothing is reported. -/
theorem stale_positions_out_of_range :
    (¬(trace (.empty []) heldTarget {} false).IsChain Build.Settles ∧
        (∀ state ∈ trace (.empty []) heldTarget {} false, state.FreeGotos) ∧
        (build (.empty []) heldTarget {} false).map (fun result =>
            (result.diagnostics, result.compiled.bodies.map fun body =>
              (body.locals.length, body.code))) =
          .ok ([], [(0, [⟨.ldcI4, .i4 1⟩, ⟨.stloc, .loc 0⟩]), (1, [])])) ∧
      (trace (.empty []) movedGoto {} false).IsChain Build.Settles ∧
        (¬∀ state ∈ trace (.empty []) movedGoto {} false, state.FreeGotos) ∧
        (build (.empty []) movedGoto {} false).map (fun result =>
            (result.diagnostics, result.compiled.bodies.map fun body =>
              (body.locals.length, body.code.take 2))) =
          .ok ([], [(0, []), (1, [⟨.ldloc, .target 0⟩, ⟨.br, .target 0⟩])]) :=
  ⟨by decide +kernel, by decide +kernel⟩

end OnePass
