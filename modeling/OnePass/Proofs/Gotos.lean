import OnePass.Proofs.FinalAssignment
import OnePass.Proofs.Layout.Mark

/-! # Gotos land on their labels

Every label and every branch of a build is entered into a journal, together with the code of its
method at that time. As long as methods, labels and branches come between expressions, where no
bracket is open, this code stands for good. So a method that is closed finds its branches where they
were read, and nothing else is written to.

* `journalOf`: the labels and branches that some states of a build read.
* `Build.Tidy`: methods, labels, branches and ends come while no bracket is open.
* `Session.Finishes`: what becomes of the methods that are finished.
* `Compiler.Recorded`: the journal tells what the open methods have noted, and the code that it
  names stands. -/

namespace OnePass

open List Session

variable {session : Session}

/-! ## Journals -/

/-- The marks of one method in a journal. -/
def marksOf (journal : List (MethodSlot × Mark)) (slot : MethodSlot) : List Mark :=
  (journal.filter (·.1 == slot)).map (·.2)

section Journals

variable {journal : List (MethodSlot × Mark)} {slot : MethodSlot}

theorem marksOf_append (journal more : List (MethodSlot × Mark)) (slot : MethodSlot) :
    marksOf (journal ++ more) slot = marksOf journal slot ++ marksOf more slot := by
  simp [marksOf]

theorem marksOf_eq_nil (apart : ∀ entry ∈ journal, entry.1 ≠ slot) : marksOf journal slot = [] := by
  have none : journal.filter (·.1 == slot) = [] :=
    filter_eq_nil_iff.mpr fun entry here => by simpa using apart entry here
  rw [marksOf, none, map_nil]

theorem undefinedIn_lost (marks : List Mark) : undefinedIn (lost marks) = lost marks := by
  refine filter_eq_self.mpr fun problem here => ?_
  obtain ⟨mark, -, rfl⟩ := mem_map.mp here
  rfl

end Journals

/-- What a token marks in the current method. A list of interfaces uses it up. -/
def Compiler.mark? (c : Compiler) (token : Token) : Option (MethodSlot × Mark) :=
  match c.interfaces, c.session.currentMethod? with
  | none, .ok (some method) => (token.mark? method.code).map (method.slot, ·)
  | _, _ => none

/-- What the next token marks. -/
def Build.mark? (build : Build) : Option (MethodSlot × Mark) :=
  build.compiler.stream.head?.bind build.compiler.mark?

/-- The labels and branches that are read in some states. -/
def journalOf (states : List Build) : List (MethodSlot × Mark) := states.flatMap (·.mark?.toList)

theorem journalOf_cons (build : Build) (states : List Build) :
    journalOf (build :: states) = build.mark?.toList ++ journalOf states :=
  flatMap_cons

/-! ## Finished methods -/

/-- Some methods of a session are finished, and nothing else is: their branches land, and one
problem is reported for each branch whose label is never defined. -/
structure Session.Finishes (marks : MethodSlot → List Mark) (session : Session)
    (bodies finished : List MethodBody) (problems : List Problem) : Prop where
  bodies : bodies.Perm (session.bodies ++ finished)
  lands : ∀ body ∈ finished, ∃ method ∈ session.openMethods,
    method.slot = body.slot ∧ body.Lands (marks body.slot) method.code
  problems : undefinedIn problems = finished.flatMap fun body => lost (marks body.slot)

variable {problems : List Problem}

theorem Session.finishes_nil {marks : MethodSlot → List Mark} {bodies : List MethodBody}
    (same : bodies = session.bodies)
    (quiet : ∀ problem ∈ problems, problem.isUndefinedLabel = false) :
    session.Finishes marks bodies [] problems where
  bodies := by rw [same, append_nil]
  lands := forall_mem_nil _
  problems := undefinedIn_eq_nil.mpr quiet

theorem Session.Finishes.congr {marks others : MethodSlot → List Mark}
    {bodies finished : List MethodBody} (finishes : session.Finishes marks bodies finished problems)
    (same : ∀ body ∈ finished, marks body.slot = others body.slot) :
    session.Finishes others bodies finished problems where
  bodies := finishes.bodies
  lands body here := same body here ▸ finishes.lands body here
  problems := by
    rw [finishes.problems]
    exact flatMap_congr fun body here => by rw [same body here]

/-- A method follows the journal, and it still has the code that it had in some session. -/
def followsFrom (journal : List (MethodSlot × Mark)) (session : Session) : Ending where
  method method := method.Follows (marksOf journal method.slot) ∧
    ∃ before ∈ session.openMethods, before.slot = method.slot ∧ before.code <+: method.code
  body body := ∃ before ∈ session.openMethods, before.slot = body.slot ∧
    body.Lands (marksOf journal body.slot) before.code
  lost slot := lost (marksOf journal slot)
  finishes := by
    rintro draft ⟨follows, before, isOpen, slot, starts⟩
    rw [follows.tethered.finish_eq, follows.lacking_eq]
    exact ⟨⟨before, isOpen, slot, follows.lands starts⟩, undefinedIn_lost _⟩

theorem followsFrom_emit {journal : List (MethodSlot × Mark)} (method : MethodDraft)
    (here : (followsFrom journal session).method method) :
    (followsFrom journal session).method (method.emit .ret) := by
  obtain ⟨follows, before, isOpen, slot, starts⟩ := here
  have longer : method.code <+: (method.emit .ret).code := prefix_append ..
  exact ⟨follows.change rfl rfl fun mark marked => (follows.stands mark marked).trans longer,
    before, isOpen, slot, starts.trans longer⟩

/-! ## States -/

variable {token : Token}

namespace Compiler

variable {journal : List (MethodSlot × Mark)} {keep : Nat} {c later : Compiler}

/-- The code up to the marks of the current method stands. -/
structure Stands (journal : List (MethodSlot × Mark)) (keep : Nat) (c : Compiler) : Prop where
  guarded : c.Guarded { keep := keep }
  beyond : c.retractable.isSome = true → Compile.Beyond keep c
  marks : c.session.Here fun method => ∀ mark ∈ marksOf journal method.slot, mark.code.length ≤ keep

/-- The journal tells what the open methods have noted, and the code that it names stands. -/
structure Recorded (journal : List (MethodSlot × Mark)) (c : Compiler) : Prop where
  slots : ∀ entry ∈ journal, entry.1 ∈ c.session.slots
  methods : ∀ method ∈ c.session.openMethods, method.Follows (marksOf journal method.slot)
  stands : ∃ keep, c.Stands journal keep

/-- Where no bracket is open, all the code of the current method stands. -/
theorem guarded_of_frames_eq_nil (frames : c.frames = [])
    (le : c.session.Here fun method => keep ≤ method.position) : c.Guarded { keep := keep } := by
  refine ⟨fun method current => ⟨le method current, ⟨[], ?_, forall_mem_nil _⟩, nofun⟩, nofun⟩
  rw [kinds, frames]
  rfl

theorem marks_le_position (methods : ∀ method ∈ c.session.openMethods,
      method.Follows (marksOf journal method.slot)) :
    c.session.Here fun method => ∀ mark ∈ marksOf journal method.slot,
      mark.code.length ≤ c.position := by
  intro method current mark here
  rw [c.here_position method current]
  exact ((methods method (mem_openMethods_of_current current)).stands mark here).length_le

/-- Between expressions, all the code of the current method stands. -/
theorem stands_position (frames : c.frames = []) (retractable : c.retractable = none)
    (methods : ∀ method ∈ c.session.openMethods, method.Follows (marksOf journal method.slot)) :
    c.Stands journal c.position where
  guarded := guarded_of_frames_eq_nil frames fun method current =>
    (c.here_position method current).le
  beyond isSome := by simp [retractable] at isSome
  marks := marks_le_position methods

theorem Recorded.of_leaves (recorded : c.Recorded journal) (stands : c.Stands journal keep)
    (leaves : c.taken.Leaves { keep := keep } later) : later.Recorded journal := by
  obtain ⟨works, kept⟩ := leaves
  have reworks : c.session.Reworks { keep := keep } later.session := works.session
  refine ⟨fun entry here => reworks.slots_perm.mem_iff.mpr (recorded.slots entry here), ?_, keep, ?_⟩
  · intro method isOpen
    rcases reworks.methods with untouched | ⟨before, changed, replaced⟩
    · exact recorded.methods method (untouched.openMethods ▸ isOpen)
    · obtain ⟨others, start, stop⟩ := replaced.openMethods
      rcases mem_cons.mp (stop.mem_iff.mp isOpen) with rfl | isOther
      · have follows := recorded.methods before (start.mem_iff.mpr mem_cons_self)
        rw [replaced.edits.slot]
        exact follows.edits (stands.marks before replaced.before) replaced.edits
      · exact recorded.methods method (start.mem_iff.mpr (mem_cons_of_mem _ isOther))
  · refine ⟨works.guarded.reframe rfl rfl (List.Subset.refl _) nofun, fun isSome => ?_, ?_⟩
    · rcases kept with same | beyond
      · rw [same] at isSome
        cases isSome
      · exact beyond
    · exact reworks.here (fun method changed edits marks => by rwa [edits.slot]) stands.marks

theorem Recorded.of_opens (recorded : c.Recorded journal) (frames : c.frames = [])
    (opens : c.taken.Alters Session.Opens later) (distinct : later.session.slots.Nodup) :
    later.Recorded journal := by
  have bodies : later.session.bodies = c.session.bodies := opens.session.bodies
  obtain ⟨opened, perm, areNew⟩ : ∃ opened, later.session.openMethods.Perm
      (opened ++ c.session.openMethods) ∧ ∀ method ∈ opened, method.IsNew ∧ _ := opens.session.openMethods
  have slots := slots_perm_of_opened bodies perm
  have methods : ∀ method ∈ later.session.openMethods,
      method.Follows (marksOf journal method.slot) := by
    intro method isOpen
    rcases mem_append.mp (perm.mem_iff.mp isOpen) with isNew | wasOpen
    · have apart : ∀ entry ∈ journal, entry.1 ≠ method.slot := fun entry here same =>
        (nodup_append.mp (slots.nodup_iff.mp distinct)).2.2 _ (mem_map_of_mem isNew) _
          (recorded.slots entry here) same.symm
      rw [marksOf_eq_nil apart]
      exact (areNew method isNew).1.follows
    · exact recorded.methods method wasOpen
  refine ⟨fun entry here => ?_, methods, _, stands_position (opens.frames.trans frames)
    opens.retractable methods⟩
  exact slots.mem_iff.mpr (mem_append_right _ (recorded.slots entry here))

/-- A label or a branch is entered into the journal. -/
theorem Recorded.of_notes (recorded : c.Recorded journal) (frames : c.frames = [])
    (isMark : token.isMark = true) (reading : c.interfaces = none)
    (notes : c.taken.Alters (Session.Notes token.note) later) (distinct : c.session.slots.Nodup) :
    later.Recorded (journal ++ (c.mark? token).toList) := by
  have noted : c.session.Notes token.note later.session := notes.session
  have slots := noted.slots_perm token.slot_note
  have laterFrames : later.frames = [] := notes.frames.trans frames
  rcases noted.methods with ⟨nowhere, untouched⟩ | ⟨method, others, current, -, start, stop⟩
  · have nothing : c.mark? token = none := by rw [mark?, reading, nowhere]
    have methods : ∀ method ∈ later.session.openMethods, method.Follows (marksOf journal method.slot) :=
      fun method isOpen => recorded.methods method (untouched.openMethods ▸ isOpen)
    rw [nothing, Option.toList_none, append_nil]
    exact ⟨fun entry here => slots.mem_iff.mpr (recorded.slots entry here), methods, _,
      stands_position laterFrames notes.retractable methods⟩
  · obtain ⟨mark, marked⟩ : ∃ mark, token.mark? method.code = some mark := by
      cases token with
      | label | goto => exact ⟨_, rfl⟩
      | _ => cases isMark
    have entry : c.mark? token = some (method.slot, mark) := by
      rw [mark?, reading, current]
      simp [marked]
    have isOpen : method ∈ c.session.openMethods := start.mem_iff.mpr mem_cons_self
    have apart : ∀ other ∈ others, method.slot ≠ other.slot := by
      have alone := (start.map (·.slot)).nodup_iff.mp (nodup_openMethods distinct)
      rw [map_cons, nodup_cons] at alone
      exact fun other here same => alone.1 (same ▸ mem_map_of_mem here)
    rw [entry, Option.toList_some]
    have methods : ∀ other ∈ later.session.openMethods,
        other.Follows (marksOf (journal ++ [(method.slot, mark)]) other.slot) := by
      intro other isOther
      rw [marksOf_append]
      rcases mem_cons.mp (stop.mem_iff.mp isOther) with rfl | inOthers
      · have own : marksOf [(method.slot, mark)] method.slot = [mark] := by simp [marksOf]
        rw [token.slot_note, own]
        exact (recorded.methods method isOpen).mark marked
      · rw [marksOf_eq_nil (forall_mem_singleton.mpr (apart other inOthers)), append_nil]
        exact recorded.methods other (start.mem_iff.mpr (mem_cons_of_mem _ inOthers))
    refine ⟨forall_mem_append.mpr ⟨fun other here => ?_, forall_mem_singleton.mpr ?_⟩, methods, _,
      stands_position laterFrames notes.retractable methods⟩
    · exact slots.mem_iff.mpr (recorded.slots other here)
    · exact slots.mem_iff.mpr (slot_mem isOpen)

/-- The end of an expression leaves alone the code that a method has. -/
theorem Recorded.method_followsFrom (recorded : c.Recorded journal) {mid : Compiler}
    (works : c.taken.Works { keep := c.position } mid) {method : MethodDraft}
    (isOpen : method ∈ mid.session.openMethods) :
    (followsFrom journal c.session).method method := by
  have stays {method : MethodDraft} (wasOpen : method ∈ c.session.openMethods) :
      (followsFrom journal c.session).method method :=
    ⟨recorded.methods method wasOpen, method, wasOpen, rfl, prefix_refl _⟩
  have reworks : c.session.Reworks { keep := c.position } mid.session := works.session
  rcases reworks.methods with untouched | ⟨before, changed, replaced⟩
  · exact stays (untouched.openMethods ▸ isOpen)
  · obtain ⟨others, start, stop⟩ := replaced.openMethods
    rcases mem_cons.mp (stop.mem_iff.mp isOpen) with rfl | isOther
    · have wasOpen : before ∈ c.session.openMethods := start.mem_iff.mpr mem_cons_self
      have inside := marks_le_position recorded.methods before replaced.before
      have follows := (recorded.methods before wasOpen).edits inside replaced.edits
      have starts : before.code <+: method.code := by
        have same := replaced.edits.stands
        rw [c.here_position before replaced.before, MethodDraft.position, take_length] at same
        exact same ▸ take_prefix ..
      exact ⟨by rwa [replaced.edits.slot], before, wasOpen, replaced.edits.slot.symm, starts⟩
    · exact stays (start.mem_iff.mpr (mem_cons_of_mem _ isOther))

theorem Recorded.of_closes (recorded : c.Recorded journal) (frames : later.frames = [])
    (closes : c.taken.Closes { keep := keep } (fun _ => followsFrom journal c.session)
      later problems) :
    later.Recorded journal ∧
      ∃ finished, c.session.Finishes (marksOf journal) later.session.bodies finished problems := by
  obtain ⟨mid, finished, works, alters⟩ := closes
  have ends := alters.session
  have reworks : c.session.Reworks { keep := keep } mid.session := works.session
  have slots := ends.slots_perm.trans reworks.slots_perm
  have methods : ∀ method ∈ later.session.openMethods, method.Follows (marksOf journal method.slot) :=
    fun method isOpen => (ends.methods method isOpen).1
  refine ⟨⟨fun entry here => slots.mem_iff.mpr (recorded.slots entry here), methods, _,
    stands_position frames (alters.retractable.trans works.retractable) methods⟩, finished, ?_,
      ends.results,
    ends.problems⟩
  rw [← reworks.bodies]
  exact ends.bodies

end Compiler

/-! ## Steps -/

theorem Token.brackets_nest (closes : token.closes = true) (nested : Nested) :
    (token.nest nested).brackets = nested.brackets := by
  cases token with
  | block isOpen => cases isOpen <;> rfl
  | expressionEnd => rfl
  | _ => cases closes

theorem Compiler.mark?_eq_none {c : Compiler} (isOther : token.isMark = false) :
    c.mark? token = none := by
  have nothing (front : List Instruction) : token.mark? front = none := by
    cases token with
    | label | goto => cases isOther
    | _ => rfl
  unfold mark?
  split
  · rw [nothing]
    rfl
  · rfl

namespace Build

variable {files : FileTree} {stream : TokenStream} {options : BuildOptions} {autoName : Bool}
variable {journal : List (MethodSlot × Mark)} {build later : Build}

/-- A token that belongs between expressions is read where no bracket is open. -/
def Tidy (build : Build) : Prop :=
  ∀ token ∈ build.compiler.stream.head?, token.isOuter = true →
    build.compiler.nesting.statements = 0 ∧ build.compiler.nesting.sequences = 0

instance (build : Build) : Decidable build.Tidy :=
  inferInstanceAs (Decidable (∀ token ∈ build.compiler.stream.head?, token.isOuter = true →
    build.compiler.nesting.statements = 0 ∧ build.compiler.nesting.sequences = 0))

/-- A step finishes methods and reports the problems of their branches, unless it begins in a try
region. -/
def Ties (marks : MethodSlot → List Mark) (build later : Build) : Prop :=
  ∃ problems finished,
    later.diagnostics = build.diagnostics ++
      (if build.compiler.tryRegion then [] else problems.map (·.at build.line)) ∧
    build.compiler.session.Finishes marks later.compiler.session.bodies finished problems

theorem Reached.frames_eq_nil (reached : Reached files stream options autoName build)
    (tidy : build.Tidy) {rest : List Token} (next : build.compiler.stream = token :: rest)
    (isOuter : token.isOuter = true) :
    build.compiler.frames = [] := by
  obtain ⟨statements, sequences⟩ := tidy token (by rw [next]; rfl) isOuter
  exact map_eq_nil_iff.mp (reached.counts.brackets_eq_nil statements sequences)

end Build

theorem Compile.resolves_step_recorded {c : Compiler} {journal : List (MethodSlot × Mark)}
    (sound : c.Sound) (distinct : c.session.slots.Nodup) (recorded : c.Recorded journal)
    (atRest : token.isOuter = true → c.frames = []) :
    Resolves (step token c) fun (_, later, problems) => later.session.slots.Nodup →
      later.Recorded (journal ++ (c.mark? token).toList) ∧
        ∃ finished, c.session.Finishes (marksOf (journal ++ (c.mark? token).toList))
          later.session.bodies finished problems := by
  have unmarked (isOther : token.isMark = false) : journal ++ (c.mark? token).toList = journal := by
    rw [Compiler.mark?_eq_none isOther, Option.toList_none, append_nil]
  rcases token.role_cases with ⟨closes, isOther, isOuter⟩ | ⟨isMark, keepsOpen, isOuter⟩ |
    ⟨opens, keepsOpen, isOther, isOuter⟩ | ⟨stays, keepsOpen, isOther⟩
  · have frames := atRest isOuter
    have guarded : c.Guarded { keep := c.position } :=
      Compiler.guarded_of_frames_eq_nil frames fun method current => (c.here_position method current).le
    have resolves := resolves_step sound guarded
      (fun _ works _ isOpen => recorded.method_followsFrom works isOpen) closes
    refine (resolves.and (steps_step token c)).imp ?_
    rintro ⟨_, later, problems⟩ ⟨closed, steps⟩ -
    have brackets : later.frames.map (·.bracket) = c.frames.map (·.bracket) := by
      rcases steps.brackets with same | nested
      · exact congrArg Nested.brackets same
      · exact (congrArg Nested.brackets nested).trans (Token.brackets_nest closes _)
    rw [frames] at brackets
    rw [unmarked isOther]
    exact recorded.of_closes (map_eq_nil_iff.mp brackets) closed
  · refine (Ensures.resolves (advances_step sound keepsOpen) (does_step_mark isMark)).imp ?_
    rintro ⟨_, later, problems⟩ ⟨-, marked, quiet⟩ distinctLater
    cases reading : c.interfaces with
    | some name =>
      simp only [reading, Option.isSome_some, if_true] at marked
      have nothing : c.mark? token = none := by rw [Compiler.mark?, reading]
      rw [nothing, Option.toList_none, append_nil]
      exact ⟨recorded.of_opens (atRest isOuter) (marked.imp Session.Untouched.opens) distinctLater,
        [], finishes_nil marked.session.bodies quiet⟩
    | none =>
      simp only [reading, Option.isSome_none, Bool.false_eq_true, if_false] at marked
      exact ⟨recorded.of_notes (atRest isOuter) isMark reading marked distinct, [],
        finishes_nil marked.session.bodies quiet⟩
  · refine (Ensures.resolves (advances_step sound keepsOpen) (does_step_opens opens)).imp ?_
    rintro ⟨_, later, problems⟩ ⟨-, opened, quiet⟩ distinctLater
    rw [unmarked isOther]
    exact ⟨recorded.of_opens (atRest isOuter) opened distinctLater, [],
      finishes_nil opened.session.bodies quiet⟩
  · obtain ⟨keep, stands⟩ := recorded.stands
    have does := does_step_stays stands.guarded stands.beyond stays fun _ => length_pos_iff.mpr
    refine (Ensures.resolves (advances_step sound keepsOpen) does).imp ?_
    rintro ⟨_, later, problems⟩ ⟨-, leaves, quiet⟩ -
    rw [unmarked isOther]
    exact ⟨recorded.of_leaves stands leaves, [], finishes_nil leaves.1.session.bodies quiet⟩

/-! ## Runs -/

namespace Build

variable {files : FileTree} {stream : TokenStream} {options : BuildOptions} {autoName : Bool}
variable {journal : List (MethodSlot × Mark)} {build later : Build} {token : Token}
  {rest : List Token}
variable {states : List Build}

/-- The states of a build from some state on. -/
inductive Trails : Build → List Build → Prop
  | stop (build : Build) : Trails build [build]
  | next {build later : Build} {token : Token} {rest : List Token} {states : List Build}
      (next : build.compiler.stream = token :: rest)
      (processed : (build.reading rest).process token = .ok later) (trails : Trails later states) :
        Trails build (build :: states)

theorem trails_states (fuel : Nat) (build : Build) : build.Trails (build.states fuel) := by
  induction fuel generalizing build with
  | zero => exact .stop build
  | succ fuel ih =>
    rw [states]
    split
    · exact .stop build
    · rename_i token rest next
      split
      · rename_i later processed
        exact .next next processed (ih later)
      · exact .stop build

theorem exists_method_of_mark {entry : MethodSlot × Mark} (marked : build.mark? = some entry) :
    ∃ method ∈ build.compiler.session.openMethods, method.slot = entry.1 := by
  obtain ⟨token, -, marked⟩ := Option.bind_eq_some_iff.mp marked
  rw [Compiler.mark?] at marked
  split at marked
  · rename_i method _ current
    obtain ⟨mark, -, rfl⟩ := Option.map_eq_some_iff.mp marked
    exact ⟨method, mem_openMethods_of_current current, rfl⟩
  · cases marked

theorem Trails.exists_head (trails : build.Trails states) : ∃ others, states = build :: others := by
  cases trails with
  | stop => exact ⟨[], rfl⟩
  | next => exact ⟨_, rfl⟩

section Recorded

variable (reached : Reached files stream options autoName build)
  (recorded : build.compiler.Recorded journal)

include reached recorded

theorem resolves_process (tidy : build.Tidy) (next : build.compiler.stream = token :: rest) :
    Resolves ((build.reading rest).process token) fun later =>
      later.compiler.Recorded (journal ++ build.mark?.toList) ∧
        build.Ties (marksOf (journal ++ build.mark?.toList)) later := by
  have marks : build.mark? = (build.reading rest).compiler.mark? token := by
    rw [mark?, next]
    rfl
  have read : (build.reading rest).compiler.Recorded journal := by
    obtain ⟨keep, stands⟩ := recorded.stands
    refine ⟨recorded.slots, recorded.methods, keep, ?_, stands.beyond, stands.marks⟩
    exact stands.guarded.reframe rfl rfl (List.Subset.refl _) nofun
  have sound : (build.reading rest).compiler.Sound := { reached.sound with }
  have stepped := Compile.resolves_step_recorded sound reached.accounted.nodup_slots read
    (reached.frames_eq_nil tidy next)
  rw [process, resolves_bind, marks]
  refine (stepped.and (gives_self _)).imp ?_
  rintro ⟨_, compiler, problems⟩ ⟨after, ran⟩
  obtain ⟨later, processed, rfl⟩ : ∃ later : Build,
      (build.reading rest).process token = .ok later ∧ later.compiler = compiler := by
    rw [process, ran]
    exact ⟨_, rfl, rfl⟩
  obtain ⟨stillRecorded, finished, finishes⟩ :=
    after (reached.step next processed).accounted.nodup_slots
  exact ⟨stillRecorded, problems, finished, rfl, finishes⟩

theorem Trails.unmarked (trails : build.Trails states) (tidy : ∀ state ∈ states, state.Tidy)
    {body : MethodBody} (finished : body ∈ build.compiler.session.bodies) :
    marksOf (journalOf states) body.slot = [] := by
  -- What a state marks belongs to an open method, and no finished method has the same slot.
  have here {build : Build} (reached : Reached files stream options autoName build)
      (finished : body ∈ build.compiler.session.bodies) : marksOf build.mark?.toList body.slot = [] := by
    refine marksOf_eq_nil fun entry marked same => ?_
    obtain ⟨method, isOpen, slot⟩ := exists_method_of_mark (Option.mem_toList.mp marked)
    have distinct := build.compiler.session.slots_perm.nodup_iff.mp reached.accounted.nodup_slots
    exact (nodup_append.mp distinct).2.2 _ (mem_map_of_mem finished) _ (mem_map_of_mem isOpen)
      (same.symm.trans slot.symm)
  induction trails generalizing journal with
  | stop build =>
    rw [journalOf_cons, marksOf_append, here reached finished]
    rfl
  | next next processed trails ih =>
    obtain ⟨first, others⟩ := forall_mem_cons.mp tidy
    obtain ⟨stillRecorded, problems, more, -, finishes⟩ :=
      (resolves_process reached recorded first next).of_ok processed
    have still := finishes.bodies.mem_iff.mpr (mem_append_left more finished)
    rw [journalOf_cons, marksOf_append, here reached finished, nil_append]
    exact ih (reached.step next processed) stillRecorded others still

/-- Every step ties the branches of the methods that it finishes to their labels. -/
theorem Trails.ties (trails : build.Trails states) (tidy : ∀ state ∈ states, state.Tidy) :
    states.IsChain (Ties (marksOf (journal ++ journalOf states))) := by
  induction trails generalizing journal with
  | stop build => exact isChain_singleton _
  | @next build later token rest states next processed trails ih =>
    obtain ⟨first, others⟩ := forall_mem_cons.mp tidy
    obtain ⟨stillRecorded, problems, finished, diagnostics, finishes⟩ :=
      (resolves_process reached recorded first next).of_ok processed
    have reachedLater := reached.step next processed
    have chain := ih reachedLater stillRecorded others
    rw [journalOf_cons, ← append_assoc]
    -- What is finished now is not marked any more, so the whole journal says the same about it.
    have same : ∀ body ∈ finished, marksOf (journal ++ build.mark?.toList) body.slot =
        marksOf (journal ++ build.mark?.toList ++ journalOf states) body.slot := by
      intro body here
      have isFinished := finishes.bodies.mem_iff.mpr (mem_append_right _ here)
      rw [marksOf_append _ (journalOf states), trails.unmarked reachedLater stillRecorded
        others isFinished, append_nil]
    obtain ⟨more, rfl⟩ := trails.exists_head
    exact isChain_cons_cons.mpr ⟨⟨problems, finished, diagnostics, finishes.congr same⟩, chain⟩

theorem resolves_run (fuel : Nat) (tidy : ∀ state ∈ build.states fuel, state.Tidy) :
    Resolves (build.run fuel) fun done => (build.states fuel).getLast? = some done ∧
      Reached files stream options autoName done ∧
      done.compiler.Recorded (journal ++ journalOf (build.states fuel)) := by
  have ends {build : Build} {journal : List (MethodSlot × Mark)}
      (empty : build.compiler.stream = []) (recorded : build.compiler.Recorded journal) :
          build.compiler.Recorded (journal ++ journalOf [build]) := by
    have unmarked : build.mark? = none := by
      rw [mark?, empty]
      rfl
    rw [journalOf_cons, unmarked]
    simpa [journalOf] using recorded
  induction fuel generalizing build journal with
  | zero =>
    rw [run]
    split
    · rename_i empty
      exact ⟨rfl, reached, ends (List.isEmpty_iff.mp empty) recorded⟩
    · exact fun same => by cases same
  | succ fuel ih =>
    rw [states] at tidy ⊢
    obtain ⟨first, others⟩ := forall_mem_cons.mp tidy
    cases next : build.compiler.stream with
    | nil =>
      rw [run, next]
      exact ⟨rfl, reached, ends next recorded⟩
    | cons token rest =>
      rw [run_succ next, resolves_bind]
      refine ((resolves_process reached recorded first next).and (gives_self _)).imp ?_
      rintro later ⟨⟨stillRecorded, -⟩, processed⟩
      simp only [next, processed] at others ⊢
      refine (ih (reached.step next processed) stillRecorded others).imp ?_
      rintro done ⟨last, reachedDone, recordedDone⟩
      refine ⟨by rw [getLast?_cons, last]; rfl, reachedDone, ?_⟩
      rwa [journalOf_cons, ← append_assoc]

theorem resolves_finish_recorded : Resolves build.finish fun result =>
      (∃ problems finished, result.diagnostics = build.diagnostics ++
        problems.map (·.at build.line) ∧ build.compiler.session.Finishes (marksOf journal)
          result.compiled.bodies finished problems) ∧
      ∀ entry ∈ journal, ∃ body ∈ result.compiled.bodies, body.slot = entry.1 := by
  have all : ∀ method ∈ build.compiler.session.openMethods,
      (followsFrom journal build.compiler.session).method method := fun method isOpen =>
    ⟨recorded.methods method isOpen, method, isOpen, rfl, prefix_refl _⟩
  refine (resolves_finish reached.sound reached.accounted followsFrom_emit all).imp ?_
  rintro result ⟨problems, finished, diagnostics, bodies, slots, lands, lost⟩
  refine ⟨⟨problems, finished, diagnostics, bodies, lands, lost⟩, fun entry here => ?_⟩
  have inSlots := build.compiler.session.slots_perm.mem_iff.mp (recorded.slots entry here)
  have inBodies : entry.1 ∈ (build.compiler.session.bodies ++ finished).map (·.slot) := by
    rw [map_append, mem_append, slots.mem_iff]
    exact mem_append.mp inSlots
  exact mem_map.mp ((bodies.map _).mem_iff.mpr inBodies)

end Recorded

/-- A body has landed if its method was open in some state, and if its branches are tied to their
labels. -/
def Lands (marks : MethodSlot → List Mark) (body : MethodBody) (build : Build) : Prop :=
  ∃ method ∈ build.compiler.session.openMethods, method.slot = body.slot ∧
    body.Lands (marks body.slot) method.code

theorem lands_of_ties {marks : MethodSlot → List Mark} {first last : Build} {others : List Build}
    (ties : (first :: others).IsChain (Ties marks))
    (isLast : (first :: others).getLast? = some last) {body : MethodBody}
    (here : body ∈ last.compiler.session.bodies) :
    body ∈ first.compiler.session.bodies ∨ ∃ state ∈ first :: others, state.Lands marks body := by
  induction others generalizing first with
  | nil =>
    obtain rfl : first = last := by simpa using isLast
    exact .inl here
  | cons second others ih =>
    obtain ⟨⟨problems, finished, -, finishes⟩, tiesRest⟩ := isChain_cons_cons.mp ties
    rcases ih tiesRest (by rwa [getLast?_cons_cons] at isLast) with inSecond | ⟨state, inRest, lands⟩
    · rcases mem_append.mp (finishes.bodies.mem_iff.mp inSecond) with inFirst | isFinished
      · exact .inl inFirst
      · exact .inr ⟨first, mem_cons_self, finishes.lands body isFinished⟩
    · exact .inr ⟨state, mem_cons_of_mem _ inRest, lands⟩

theorem resolves_rest (fuel : Nat) (reached : Reached files stream options autoName build)
    (recorded : build.compiler.Recorded []) (blank : build.compiler.session.bodies = [])
    (tidy : ∀ state ∈ build.states fuel, state.Tidy) :
    Resolves (build.run fuel >>= finish) fun result =>
      (∃ last problems finished, (build.states fuel).getLast? = some last ∧
        result.diagnostics = last.diagnostics ++ problems.map (·.at last.line) ∧
        last.compiler.session.Finishes (marksOf (journalOf (build.states fuel)))
          result.compiled.bodies finished problems) ∧
      (∀ body ∈ result.compiled.bodies, ∃ state ∈ build.states fuel,
        state.Lands (marksOf (journalOf (build.states fuel))) body) ∧
      ∀ entry ∈ journalOf (build.states fuel), ∃ body ∈ result.compiled.bodies, body.slot = entry.1 := by
  have trails := trails_states fuel build
  have ties := trails.ties reached recorded tidy
  rw [nil_append] at ties
  rw [resolves_bind]
  refine (resolves_run reached recorded fuel tidy).imp ?_
  rintro done ⟨isLast, reachedDone, recordedDone⟩
  refine (resolves_finish_recorded reachedDone recordedDone).imp ?_
  rintro result ⟨⟨problems, finished, diagnostics, finishes⟩, covered⟩
  refine ⟨⟨done, problems, finished, isLast, diagnostics, finishes⟩, fun body here => ?_, covered⟩
  obtain ⟨others, states⟩ := trails.exists_head
  rcases mem_append.mp (finishes.bodies.mem_iff.mp here) with inDone | isFinished
  · rw [states] at ties isLast ⊢
    rcases lands_of_ties ties isLast inDone with inFirst | lands
    · rw [blank] at inFirst
      cases inFirst
    · exact lands
  · exact ⟨done, mem_of_getLast? isLast, finishes.lands body isFinished⟩

end Build

/-! ## Builds -/

theorem Session.gives_create_recorded (options : BuildOptions) (autoName : Bool) :
    Gives (create options autoName) fun session => session.bodies = [] ∧ ∀ (files : FileTree)
    (stream : List Token),
      Compiler.Recorded [] { session := session, files := files, stream := stream } := by
  refine (gives_create_bare options autoName).imp fun session bare => ⟨?_, fun files stream => ?_⟩
  · exact flatMap_eq_nil_iff.mpr fun draft here => (bare draft here).1
  · have methods : ∀ method ∈ session.openMethods, method.Follows (marksOf [] method.slot) := by
      intro method isOpen
      obtain ⟨draft, here, inDraft⟩ := mem_flatMap.mp isOpen
      obtain ⟨ref, rfl, -⟩ := (bare draft here).2 method inDraft
      exact MethodDraft.IsNew.follows ⟨rfl, rfl, rfl, rfl, rfl⟩
    exact ⟨forall_mem_nil _, methods, _, Compiler.stands_position rfl rfl methods⟩

/-- Gotos land on their labels, if methods, labels, gotos and ends are only read while no bracket of
an expression is open. Then no build comes upon a branch that is not there. Each step finishes
methods whose branches are tied to the first definitions of their labels, and all their other code
stays. It finds one problem for each branch whose label is never defined, and reports it unless it
begins in a try region. The same holds of the end of the build, after which every method with a
label or branch is finished. -/
theorem gotos_land_on_their_labels {files : FileTree} {stream : TokenStream}
    {options : BuildOptions} {autoName : Bool}
    (tidy : ∀ state ∈ trace files stream options autoName, state.Tidy) :
    let states := trace files stream options autoName
    let journal := journalOf states
    build files stream options autoName ≠ .error .noSuchBranch ∧
      states.IsChain (Build.Ties (marksOf journal)) ∧
      (∀ name line, ((Problem.undefinedLabel name).at line).kind = .invalidToken) ∧
      ∀ result, build files stream options autoName = .ok result →
        (∃ last problems finished, states.getLast? = some last ∧
          result.diagnostics = last.diagnostics ++ problems.map (·.at last.line) ∧
          last.compiler.session.Finishes (marksOf journal) result.compiled.bodies finished problems) ∧
        (∀ body ∈ result.compiled.bodies, ∃ state ∈ states, state.Lands (marksOf journal) body) ∧
        ∀ entry ∈ journal, ∃ body ∈ result.compiled.bodies, body.slot = entry.1 := by
  cases created : Session.create { options with header := stream.header } autoName with
  | error fault =>
    have notBranch : fault ≠ .noSuchBranch := by
      have ensures := Session.ensures_create { options with header := stream.header } autoName
      rw [created] at ensures
      obtain rfl : fault = .noSuchFinal := ensures
      exact fun same => by cases same
    have fails : build files stream options autoName = .error fault := by
      rw [build, created]
      rfl
    have nothing : trace files stream options autoName = [] := by rw [trace, created]
    dsimp only
    rw [fails, nothing]
    exact ⟨fun same => notBranch (Except.error.inj same), .nil, fun _ _ => rfl,
      fun _ built => by cases built⟩
  | ok session =>
    obtain ⟨blank, recorded⟩ := (Session.gives_create_recorded _ _).of_ok created
    let start : Build := { compiler := { session := session, files := files, stream := stream.tokens } }
    let fuel := tokenBudget files { options with header := stream.header } stream.tokens
    have reached : Build.Reached files stream options autoName start := .start created
    have states : trace files stream options autoName = start.states fuel := by rw [trace, created]
    have runs : build files stream options autoName = start.run fuel >>= Build.finish := by
      rw [build, created]
      rfl
    rw [states] at tidy
    have ties := (Build.trails_states fuel start).ties reached (recorded files stream.tokens) tidy
    have resolves := Build.resolves_rest fuel reached (recorded files stream.tokens) blank tidy
    dsimp only
    rw [states, runs]
    exact ⟨resolves.ne_error, ties, fun _ _ => rfl, fun result built => resolves.of_ok built⟩

/-- A loop with two ways out, of which one leads nowhere. A label is defined twice. -/
def brokenLoop : TokenStream where
  header := .library
  platform := 0
  tokens :=
    [.classOpen "A" .static .everywhere, .block true, .function "f" "" .static .everywhere,
      .block true, .var "x" "int" false, .expressionEnd, .label "top", .literal "x",
        .operator .assign, .value (.int 1),
      .expressionEnd, .goto "out", .label "top", .goto "nowhere", .goto "top", .label "out", .block false,
      .block false]

/-- The labels and branches in the order of the tokens; the branches of every body land. -/
theorem brokenLoop_lands :
    (∀ state ∈ trace (.empty []) brokenLoop {} false, state.Tidy) ∧
      (journalOf (trace (.empty []) brokenLoop {} false)).map (fun entry =>
        (entry.2.name, entry.2.isBranch, entry.2.front.length)) =
          [("top", false, 0), ("out", true, 2), ("top", false, 3), ("nowhere", true, 3),
            ("top", true, 4), ("out", false, 5)] ∧
      ∃ result, build (.empty []) brokenLoop {} false = .ok result ∧
        ∀ body ∈ result.compiled.bodies, ∃ state ∈ trace (.empty []) brokenLoop {} false,
          state.Lands (marksOf (journalOf (trace (.empty []) brokenLoop {} false))) body := by
  have tidy : ∀ state ∈ trace (.empty []) brokenLoop {} false, state.Tidy := by decide +kernel
  have succeeds : (build (.empty []) brokenLoop {} false).isOk = true := by decide +kernel
  refine ⟨tidy, by decide +kernel, ?_⟩
  cases built : build (.empty []) brokenLoop {} false with
  | error fault => simp [built, Except.isOk, Except.toBool] at succeeds
  | ok result => exact ⟨result, rfl, ((gotos_land_on_their_labels tidy).2.2.2 result built).2.1⟩

/-- In a try region, a branch whose label is never defined is not reported. -/
theorem lost_branch_dropped_in_try_region :
    let tokens : List Token :=
      [.classOpen "A" .static .everywhere, .block true, .function "f" "" .static .everywhere,
        .block true, .directive, .literal "try", .newLine, .goto "out", .block false, .block false]
    (∀ state ∈ trace (.empty []) ⟨.library, 0, tokens⟩ {} false, state.Tidy) ∧
      (build (.empty []) ⟨.library, 0, tokens⟩ {} false).map
        (fun result => (result.diagnostics, result.compiled.bodies.map (·.code))) =
      .ok ([], [[⟨.br, .target 0⟩]]) := by
  decide +kernel

end OnePass
