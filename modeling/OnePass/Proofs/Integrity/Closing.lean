import OnePass.Proofs.Integrity.Session

/-! # From the first session to the module

A new session is sound, closing types and methods keeps it sound, and so the module that it hands
over refers only to what its table has. Such a module has an image, so that writing it meets no
fault. -/

namespace OnePass

open SymbolTable List

variable {table : SymbolTable}

namespace Session

variable {session : Session}

/-! ## New sessions -/

theorem Sound.openDefault (sound : session.Sound) (outer : session.openTypes = [])
    (host : Host.table.Grows session.table) : session.Evolves session.openDefault := by
  rw [Session.openDefault]
  split
  · exact sound.refl
  · rename_i id table defined
    have object := host (.type _) Host.table_sound.object_inRange
    have ids : session.table.HasTypes (defaultDef session.options).typeIds := by
      simpa [defaultDef, TypeDef.bare, TypeDef.typeIds] using object
    obtain ⟨evolves, rfl, types⟩ := (sound.table.ensures_define ids).of_ok defined
    have here := (sound.withTable evolves).sound
    refine ⟨{ here with drafts := ?_, openTypes := ?_, defaultType := ?_ }, evolves.grows, rfl⟩
    · simp [TypeDraft.symbols, types]
    · simp [outer]
    · simp

/-- The implicit main function is added to the implicit class and is where the module starts. -/
theorem Sound.ensures_openMain (sound : session.Sound) (host : Host.table.Grows session.table) :
    Ensures session.openMain session.Evolves := by
  rw [openMain]
  split
  · exact sound.refl
  · rename_i draft rest drafts
    have known := sound.drafts
    rw [drafts] at known
    obtain ⟨first, others⟩ := forall_mem_cons.mp known
    have void := host (.type _) Host.table_sound.void_inRange
    have signature : session.table.HasTypes mainDef.typeIds := by simpa [mainDef,
      MethodDef.typeIds] using void
    rw [ensures_bind]
    refine (sound.table.ensures_addMethod (TypeDraft.id_inRange first) signature).imp ?_
    rintro ⟨ref, table⟩ ⟨evolves, has⟩
    have here := (sound.withTable evolves).sound
    have inMember : table.Holds draft.addMember.symbols := first.grow evolves.grows
    have inSlot : table.Holds (MethodSlot.method
      ref).symbols := by simpa [MethodSlot.symbols] using has
    have opened := TypeDraft.holds_openMethod inMember (MethodDraft.holds_new inSlot true false)
    refine ⟨{ here with
      drafts := forall_mem_cons.mpr ⟨opened, fun other later => (others other later).grow evolves.grows⟩
      openTypes := fun index inner => by simpa [drafts] using sound.openTypes index inner
      defaultType := fun index isDefault => by simpa [drafts] using sound.defaultType index isDefault
      defaultMethod := by simpa using has
      entryPoint := by simpa using has }, evolves.grows, rfl⟩

theorem ensures_create (options : BuildOptions) (autoName : Bool) :
    Ensures (create options autoName) fun session =>
      session.Sound ∧ session.options.directories = options.directories := by
  let start := blank options autoName
  have sound : start.Sound :=
    { table := Host.table_sound
      drafts := by simp [start, blank]
      openTypes := by simp [start, blank]
      defaultType := by simp [start, blank]
      defaultMethod := by simp [start, blank]
      scriptFunctions := by simp [start, blank]
      entryPoint := by simp [start, blank] }
  have opened : start.Evolves start.openDefault := sound.openDefault rfl (.refl _)
  rw [create]
  split
  · exact ⟨opened.sound, opened.directories⟩
  · refine (opened.sound.ensures_openMain opened.grows).imp fun later evolves => ?_
    exact ⟨evolves.sound, evolves.directories.trans opened.directories⟩
  · exact ⟨sound, rfl⟩

/-! ## Closing -/

namespace Sound

variable (sound : session.Sound)

include sound

theorem ends_closeMethod : Ends session.closeMethod fun (later, _) => session.Evolves later := by
  rw [closeMethod, ends_bind]
  refine sound.ensures_current.ends.imp fun found holds => ?_
  split
  · exact sound.refl
  · rename_i index draft
    rw [ends_bind]
    refine (TypeDraft.ends_closeMethod (holds _ rfl)).imp fun (closed, _) inClosed => ?_
    exact ⟨sound.setDraft index inClosed, .refl _, rfl⟩

theorem ends_closeAt {index : Nat} (inRange : index < session.drafts.length)
    (namespaces : List String) : Ends (session.closeAt index namespaces) fun (later, _) =>
      session.Evolves later ∧ later.drafts.length = session.drafts.length := by
  rw [closeAt, ends_bind]
  refine (sound.ensures_draft inRange).ends.imp fun draft holds => ?_
  rw [ends_bind]
  refine (TypeDraft.ends_close holds sound.table namespaces).imp
    fun (closed, table, _) ⟨evolves, inClosed⟩ => ?_
  exact ⟨sound.replace evolves index inClosed, length_set⟩

theorem ends_closeType (namespaces : List String) :
    Ends (session.closeType namespaces) fun (later, _) => session.Evolves later := by
  rw [closeType]
  split
  · exact sound.refl
  · rename_i index rest open_eq
    have known := sound.openTypes
    rw [open_eq] at known
    obtain ⟨first, others⟩ := forall_mem_cons.mp known
    have popped : ({ session with openTypes := rest } : Session).Sound :=
      { sound with openTypes := others }
    exact (popped.ends_closeAt first namespaces).imp fun _ post =>
      ⟨post.1.sound, post.1.grows, post.1.directories⟩

end Sound

theorem ends_closeEach (sound : session.Sound) (namespaces : List String) {indices : List Nat}
    (inRange : ∀ index ∈ indices, index < session.drafts.length) :
    Ends (closeEach namespaces indices session) fun (later, _) => session.Evolves later := by
  induction indices generalizing session with
  | nil => exact sound.refl
  | cons index indices ih =>
    obtain ⟨first, others⟩ := forall_mem_cons.mp inRange
    rw [closeEach, ends_bind]
    refine (sound.ends_closeAt first namespaces).imp fun (closed, _) ⟨evolves, length⟩ => ?_
    rw [ends_bind]
    exact (ih evolves.sound (by simpa [length] using others)).imp fun _ here => evolves.trans here

theorem ends_finishMain {draft : TypeDraft} (holds : table.Holds draft.symbols) :
    Ends (finishMain draft) fun (later, _) => table.Holds later.symbols := by
  obtain ⟨id, bodies, methods⟩ := TypeDraft.holds_iff.mp holds
  rw [finishMain, ends_bind]
  have inner : ∀ method ∈ draft.openMethods.dropLast, table.Holds method.symbols :=
    fun method here => methods method (mem_of_mem_dropLast here)
  refine (TypeDraft.ends_finishAll inner).imp fun (finished, _) inFinished => ?_
  refine TypeDraft.holds_iff.mpr ⟨id, forall_mem_append.mpr ⟨bodies, inFinished⟩, ?_⟩
  intro method here
  obtain ⟨main, isMain, rfl⟩ := mem_map.mp here
  have known := methods main (mem_of_getLast? (Option.mem_toList.mp isMain))
  exact MethodDraft.holds_emit.mpr ⟨known, holds_nil⟩

namespace Sound

variable (sound : session.Sound)

include sound

theorem ends_closeDefault {index : Nat} {draft : TypeDraft}
    (inRange : index < session.drafts.length) (holds : session.table.Holds draft.symbols)
    (namespaces : List String) : Ends (session.closeDefault index draft namespaces)
      fun (later, _) => session.Evolves later := by
  -- A script's main function is finished in a way of its own; from there on, the class is closed
  -- like any type.
  have closes {prepared : TypeDraft} (known : session.table.Holds prepared.symbols) :
      Ends ((session.setDraft index prepared).closeAt index namespaces) fun outcome =>
        session.Evolves outcome.1 := by
    have here := sound.setDraft index known
    refine (here.ends_closeAt (by simpa [Session.setDraft] using inRange) namespaces).imp
      fun _ post => ?_
    exact ⟨post.1.sound, post.1.grows, post.1.directories⟩
  rw [closeDefault]
  split
  · rw [ends_bind]
    refine (ends_finishMain holds).imp ?_
    rintro ⟨prepared, problems⟩ known
    rw [ends_bind]
    exact closes known
  · rw [ends_bind, ends_ok]
    dsimp only
    rw [ends_bind]
    exact closes holds

theorem ensures_unusedDefault : Ensures session.unusedDefault? fun _ => True := by
  rw [unusedDefault?]
  split
  · trivial
  · rename_i index isDefault
    rw [ensures_bind]
    exact (sound.ensures_draft (sound.defaultType index isDefault)).imp fun _ _ => trivial

theorem ends_finishDefault (namespaces : List String) :
    Ends (session.finishDefault namespaces) fun (later, _) => session.Evolves later := by
  rw [finishDefault]
  split
  · exact sound.refl
  · rename_i index isDefault
    have inRange := sound.defaultType index isDefault
    rw [ends_bind]
    refine (sound.ensures_draft inRange).ends.imp fun draft holds => ?_
    split
    · exact sound.refl
    · exact sound.ends_closeDefault inRange holds namespaces

end Sound

theorem ensures_scanEntryPoint {drafts : List TypeDraft}
    (known : ∀ draft ∈ drafts, draft.id < table.types.length) :
    Ensures (scanEntryPoint table drafts) fun found => ∀ ref ∈ found, table.Has (.method ref) := by
  refine ensures_findSomeM? fun draft here => ?_
  rw [ensures_bind]
  refine (ensures_get (known draft here)).imp fun type found ref at_ref => ?_
  obtain ⟨index, at_index, rfl⟩ := Option.map_eq_some_iff.mp at_ref
  exact ⟨type, found, (findIdx?_eq_some_iff_findIdx_eq.mp at_index).1⟩

/-- No draft is made up when the default type is left out. -/
theorem withoutDraft_subset (dropped : Option Nat) (drafts : List TypeDraft) :
    withoutDraft dropped drafts ⊆ drafts := by
  intro draft here
  obtain ⟨⟨_, index⟩, kept, rfl⟩ := mem_map.mp here
  exact mem_of_getElem? (mem_zipIdx_iff_getElem?.mp (mem_of_mem_filter kept))

end Session

/-! ## Modules -/

/-- Everything that a module refers to exists. -/
structure CompiledModule.Sound (compiled : CompiledModule) : Prop where
  table : compiled.table.Sound
  types : ∀ type ∈ compiled.types, compiled.table.Holds type.symbols
  entryPoint : ∀ ref ∈ compiled.entryPoint, compiled.table.Has (.method ref)

theorem Session.Sound.ends_finish {session : Session} (sound : session.Sound)
    (namespaces : List String) : Ends (session.finish namespaces) fun (compiled, _) =>
      compiled.Sound := by
  rw [Session.finish, ends_bind]
  refine sound.ensures_unusedDefault.ends.imp fun dropped _ => ?_
  rw [ends_bind]
  refine (sound.ends_finishDefault namespaces).imp fun (first, _) toFirst => ?_
  rw [ends_bind]
  refine (ends_closeEach toFirst.sound namespaces toFirst.sound.openTypes).imp
    fun (second, _) toSecond => ?_
  rw [ends_bind]
  -- First the open types are closed, innermost first, and then whatever is left.
  have all : ∀ index ∈ range second.drafts.length, index < second.drafts.length :=
    fun index here => mem_range.mp here
  refine (ends_closeEach toSecond.sound namespaces all).imp fun (last, _) toLast => ?_
  have kept : ∀ draft ∈ withoutDraft dropped last.drafts, last.table.Holds draft.symbols :=
    fun draft here => toLast.sound.drafts draft (withoutDraft_subset _ _ here)
  have types : ∀ type ∈ (withoutDraft dropped last.drafts).map fun draft =>
      ⟨draft.id, draft.bodies⟩, last.table.Holds (ModuleType.symbols type) := by
    intro type here
    obtain ⟨draft, inKept, rfl⟩ := mem_map.mp here
    obtain ⟨id, bodies, -⟩ := TypeDraft.holds_iff.mp (kept draft inKept)
    simpa [ModuleType.symbols] using ⟨id, bodies⟩
  dsimp only
  -- A module without a declared entry point starts at the first method that is marked as one.
  split
  · rename_i ref found
    exact ⟨toLast.sound.table, types, by simpa using toLast.sound.entryPoint ref found⟩
  · rw [ends_bind]
    refine (ensures_scanEntryPoint fun draft here =>
      TypeDraft.id_inRange (kept draft here)).ends.imp fun found has => ?_
    exact ⟨toLast.sound.table, types, has⟩

/-! ## Images -/

theorem Operand.hasTypes {operand : Operand} (holds : table.Holds operand.symbols) :
    table.HasTypes operand.typeIds := by
  cases operand with
  | field ref | method ref | ctor ref | type id =>
    have has := (holds_cons.mp holds).1
    simpa [typeIds] using has.owner
  | _ => exact hasTypes_nil

theorem MethodBody.hasTypes {body : MethodBody} (holds : table.Holds body.symbols) :
    table.HasTypes body.typeIds := by
  simp only [symbols, codeSymbols, holds_append, holds_map,
    holds_flatMap] at holds
  simp only [typeIds, hasTypes_append, hasTypes_flatMap]
  exact ⟨holds.1.2, fun instruction here => Operand.hasTypes (holds.2 instruction here)⟩

namespace CompiledModule.Sound

variable {compiled : CompiledModule} (sound : compiled.Sound)

include sound

theorem inRange : compiled.InRange := by
  have has : compiled.table.HasTypes compiled.typeIds := by
    simp only [typeIds, hasTypes_append, hasTypes_flatMap]
    refine ⟨?_, fun type here => ?_⟩
    · intro id here
      obtain ⟨ref, isEntry, rfl⟩ := mem_map.mp here
      exact (sound.entryPoint ref (Option.mem_toList.mp isEntry)).owner
    · have holds := sound.types type here
      simp only [ModuleType.symbols, holds_cons, holds_flatMap] at holds
      obtain ⟨id, bodies⟩ := holds
      simp only [ModuleType.typeIds, hasTypes_append, hasTypes_cons,
        hasTypes_flatMap]
      -- A module holds ids of its own and, through its types, those of the table's definitions.
      refine ⟨⟨id, ?_⟩, fun body inType => MethodBody.hasTypes (bodies body inType)⟩
      rw [definition, getElem?_eq_getElem (has_type.mp id), Option.getD_some]
      exact sound.table.types _ (getElem_mem _)
  exact has

theorem write_eq_ok : compiled.write = .ok compiled.named.write := by
  simp only [write, image_eq_ok sound.inRange, bind, Except.bind, pure, Except.pure]

end CompiledModule.Sound

end OnePass
