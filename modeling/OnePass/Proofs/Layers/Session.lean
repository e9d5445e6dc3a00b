import OnePass.Proofs.Bodies.Account

/-! # What is open

The types that are open form a stack, with the implicit class of the file at its bottom, and each of
them holds a stack of open methods. A type or a method whose head was read but whose body has not
begun *waits* for its body.

* `Layer` — an open type, with what an opening or a closing brace can see of it.
* `Session.layers` — the open types of a session, innermost first.
* `Session.Reshapes` — an action turns the layers of a session into others. There is one lemma for
  each action: most of them leave the layers alone, and the others change the innermost one, add one
  or take one away. -/

namespace OnePass

open List

/-- An open method: the function that it is, and whether its body has not begun. -/
structure OpenMethod where
  slot : MethodSlot
  waiting : Bool
  deriving DecidableEq

/-- An open type. -/
structure Layer where
  /-- position among the drafts -/
  place : Nat
  /-- whether this is the implicit class of the file -/
  implicit : Bool
  /-- whether its body has not begun -/
  waiting : Bool
  /-- open methods, innermost first -/
  methods : List OpenMethod
  deriving DecidableEq

namespace Layer

/-- A function is opened. -/
def openMethod (slot : MethodSlot) (layer : Layer) : Layer :=
  { layer with methods := ⟨slot, true⟩ :: layer.methods }

/-- The innermost method is closed. -/
def closeMethod (layer : Layer) : Layer := { layer with methods := layer.methods.tail }

/-- A block opens: the body of the type begins, or else that of its innermost method. -/
def beginBody (layer : Layer) : Layer :=
  if layer.waiting then { layer with waiting := false }
  else { layer with methods := layer.methods.modifyHead ({ · with waiting := false }) }

end Layer

/-- What braces can see of an open method. -/
def MethodDraft.openMethod (method : MethodDraft) : OpenMethod := ⟨method.slot, method.paramsOpen⟩

/-- What braces can see of the open type at some position. -/
def TypeDraft.layer (place : Nat) (implicit : Bool) (draft : TypeDraft) : Layer :=
  ⟨place, implicit, draft.initializing, draft.openMethods.map (·.openMethod)⟩

namespace TypeDraft

variable {draft changed : TypeDraft} {place : Nat} {implicit : Bool}

theorem layer_congr (waiting : changed.initializing = draft.initializing)
    (methods : changed.openMethods.map (·.openMethod) = draft.openMethods.map (·.openMethod)) :
    changed.layer place implicit = draft.layer place implicit := by
  simp only [layer, waiting, methods]

theorem layer_outline (draft : TypeDraft) : draft.outline.layer place implicit = draft.layer
      place implicit :=
  layer_congr rfl (by simp [outline, MethodDraft.outline, MethodDraft.openMethod])

theorem layer_openMethod (method : MethodDraft) (isNew : method.paramsOpen = true) :
    (draft.addMember.openMethod method).layer place implicit =
      (draft.layer place implicit).openMethod method.slot := by
  simp [layer, openMethod, addMember, Layer.openMethod, MethodDraft.openMethod, isNew]

theorem layer_beginBody : (Compile.beginBody (Compile.blockOwner (some draft)) draft).layer
      place implicit =
    (draft.layer place implicit).beginBody := by
  rw [Compile.blockOwner, Layer.beginBody]
  by_cases waiting : draft.initializing = true
  · simp [waiting, Compile.beginBody, layer]
  · cases methods : draft.openMethods with
    | nil => simp [waiting, currentMethod?, methods, Compile.beginBody, layer]
    | cons method rest =>
      by_cases paramsOpen : method.paramsOpen = true
      · simp [waiting, currentMethod?, methods, paramsOpen, Compile.beginBody, layer,
          MethodDraft.openMethod, MethodDraft.closeParams]
      · simp [waiting, currentMethod?, methods, paramsOpen, Compile.beginBody, layer,
          MethodDraft.openMethod]

theorem gives_layer_closeMethod (draft : TypeDraft) : Gives draft.closeMethod fun (closed, _) =>
    closed.isOpen = draft.isOpen ∧
      ∀ place implicit, closed.layer place implicit = (draft.layer place implicit).closeMethod := by
  rw [closeMethod]
  split
  · rename_i none
    exact ⟨rfl, fun _ _ => by simp [layer, Layer.closeMethod, none]⟩
  · rename_i method rest current
    exact gives_bind_ok fun _ _ => ⟨rfl, fun _ _ => by simp [layer, Layer.closeMethod, current]⟩

end TypeDraft

/-! ## The layers of a session -/

namespace Session

variable {change : List Layer → List Layer}

/-- The type at some position, if it is open. -/
def layerAt (session : Session) (place : Nat) (implicit : Bool) : Option Layer :=
  session.drafts[place]?.bind fun draft => if draft.isOpen then some
    (draft.layer place implicit) else none

/-- The positions of the open types, innermost first, with a mark on that of the implicit class. -/
def places (session : Session) : List (Nat × Bool) :=
  session.openTypes.map (·, false) ++ session.defaultType.toList.map (·, true)

/-- The types at some positions that are open. -/
def layersAt (session : Session) (places : List (Nat × Bool)) : List Layer :=
  places.filterMap fun entry => session.layerAt entry.1 entry.2

/-- The open types, innermost first. -/
def layers (session : Session) : List Layer := session.layersAt session.places

/-- The types that count as open are open, and none of them counts twice. -/
structure Standing (session : Session) : Prop where
  distinct : (session.places.map (·.1)).Nodup
  opened : ∀ entry ∈ session.places, (session.layerAt entry.1 entry.2).isSome = true

variable {session later : Session} {index : Nat} {draft changed : TypeDraft}

theorem layersAt_cons {place : Nat} {implicit : Bool} {layer : Layer} {outer : List (Nat × Bool)}
    (found : session.layerAt place implicit = some layer) :
    session.layersAt ((place, implicit) :: outer) = layer :: session.layersAt outer := by
  simp [layersAt, found]

theorem layersAt_congr {places : List (Nat × Bool)}
    (same : ∀ entry ∈ places, later.layerAt entry.1 entry.2 = session.layerAt entry.1 entry.2) :
    later.layersAt places = session.layersAt places :=
  filterMap_congr same

/-- The layers depend on the stack of open types, the default type, and the types at their
positions. -/
theorem layers_congr (places : later.places = session.places)
    (same : ∀ entry ∈ session.places, later.layerAt entry.1 entry.2 = session.layerAt
      entry.1 entry.2) :
    later.layers = session.layers := by
  rw [layers, layers, places, layersAt_congr same]

theorem Standing.congr (standing : session.Standing) (places : later.places = session.places)
    (same : ∀ entry ∈ session.places, (later.layerAt entry.1 entry.2).isSome =
      (session.layerAt entry.1 entry.2).isSome) : later.Standing where
  distinct := by rw [places]; exact standing.distinct
  opened entry here := by
    rw [places] at here
    rw [same entry here]
    exact standing.opened entry here

theorem layerAt_eq_some (here : session.drafts[index]? = some draft) (isOpen : draft.isOpen = true)
    (implicit : Bool) : session.layerAt index implicit = some (draft.layer index implicit) := by
  simp [layerAt, here, isOpen]

theorem implicit_of_layerAt {place : Nat} {implicit : Bool} {layer : Layer}
    (found : session.layerAt place implicit = some layer) : layer.place = place ∧
      layer.implicit = implicit := by
  obtain ⟨draft, -, shown⟩ := Option.bind_eq_some_iff.mp found
  split at shown
  · cases shown
    exact ⟨rfl, rfl⟩
  · cases shown

theorem layerAt_setDraft_of_ne {place : Nat} (apart : index ≠ place) (implicit : Bool) :
    (session.setDraft index changed).layerAt place implicit = session.layerAt place implicit := by
  simp [layerAt, setDraft, apart]

theorem layerAt_setDraft (here : session.drafts[index]? = some draft)
    (isOpen : changed.isOpen = true) (implicit : Bool) :
    (session.setDraft index changed).layerAt index implicit = some (changed.layer index implicit) := by
  have inRange := (List.getElem?_eq_some_iff.mp here).1
  simp [layerAt, setDraft, inRange, isOpen]

theorem places_of_current (current : session.current? = .ok (some (index, draft))) :
    ∃ implicit outer, session.places = (index, implicit) :: outer := by
  obtain ⟨isFirst, -, -⟩ := current?_eq_some current
  cases openTypes : session.openTypes with
  | nil =>
    have isDefault : session.defaultType = some index := by simpa [openTypes] using isFirst
    exact ⟨true, [], by simp [places, openTypes, isDefault]⟩
  | cons first rest =>
    obtain rfl : first = index := by simpa [openTypes] using isFirst
    exact ⟨false, rest.map (·, false) ++ session.defaultType.toList.map
      (·, true), by simp [places, openTypes]⟩

theorem Standing.layers_of_none (standing : session.Standing)
    (current : session.current? = .ok none) : session.layers = [] := by
  have nowhere : session.places = [] := by
    by_contra nonempty
    obtain ⟨⟨place, implicit⟩, outer, shape⟩ := exists_cons_of_ne_nil nonempty
    -- The type at the first position is open, and it would be the current one.
    have isFirst : session.openTypes.head?.or session.defaultType = some place := by
      cases openTypes : session.openTypes with
      | nil =>
        cases isDefault : session.defaultType with
        | none => simp [places, openTypes, isDefault] at shape
        | some other =>
          obtain ⟨⟨rfl, -⟩, -⟩ : (other = place ∧ _) ∧ _ := by simpa [places, openTypes,
            isDefault] using shape
          rfl
      | cons first rest =>
        obtain ⟨⟨rfl, -⟩, -⟩ : (first = place ∧ _) ∧ _ := by simpa [places, openTypes] using shape
        rfl
    have isOpen := standing.opened (place, implicit) (by simp [shape])
    rw [current?, isFirst] at current
    cases stored : session.drafts[place]? with
    | none => simp [layerAt, stored] at isOpen
    | some held =>
      have heldOpen : held.isOpen = true := by
        by_contra isClosed
        simp [layerAt, stored, isClosed] at isOpen
      simp [Session.draft, stored, heldOpen, bind, Except.bind, pure, Except.pure] at current
  rw [layers, nowhere]
  rfl

/-- The current type is the innermost layer, and a change of it leaves the others alone. -/
theorem Standing.replace (standing : session.Standing)
    (current : session.current? = .ok (some (index, draft))) (isOpen : changed.isOpen = true) :
    (session.setDraft index changed).Standing ∧ ∃ implicit outer,
      session.layers = draft.layer index implicit :: outer ∧
        (session.setDraft index changed).layers = changed.layer index implicit :: outer := by
  obtain ⟨implicit, outer, shape⟩ := places_of_current current
  obtain ⟨-, here, wasOpen⟩ := current?_eq_some current
  have distinct := standing.distinct
  rw [shape, List.map_cons, List.nodup_cons] at distinct
  have apart : ∀ entry ∈ outer, index ≠ entry.1 := by
    intro entry inside same
    exact distinct.1 (List.mem_map.mpr ⟨entry, inside, same.symm⟩)
  have others : ∀ entry ∈ outer, (session.setDraft index changed).layerAt entry.1 entry.2 =
      session.layerAt entry.1 entry.2 :=
    fun entry inside => layerAt_setDraft_of_ne (apart entry inside) entry.2
  refine ⟨standing.congr rfl fun entry inside => ?_, implicit, session.layersAt outer, ?_, ?_⟩
  · rw [shape] at inside
    rcases List.mem_cons.mp inside with rfl | inOuter
    · simp [layerAt_setDraft here isOpen, layerAt_eq_some here wasOpen]
    · rw [others entry inOuter]
  · rw [layers, shape, layersAt_cons (layerAt_eq_some here wasOpen implicit)]
  · rw [layers, show (session.setDraft index changed).places = (index, implicit) ::
      outer from shape, layersAt_cons (layerAt_setDraft here isOpen implicit), layersAt_congr others]

/-! ## Actions -/

/-- The layers are turned into others, and the implicit class and its main function stay the
same. -/
structure Reshapes (change : List Layer → List Layer) (session later : Session) : Prop where
  layers : session.Standing → later.Standing ∧ later.layers = change session.layers
  defaultType : later.defaultType = session.defaultType
  defaultMethod : later.defaultMethod = session.defaultMethod

theorem Reshapes.trans {change more : List Layer → List Layer} {last : Session}
    (first : session.Reshapes change later) (second : later.Reshapes more last) :
    session.Reshapes (more ∘ change) last where
  layers standing := by
    obtain ⟨standingLater, layersLater⟩ := first.layers standing
    obtain ⟨standingLast, layersLast⟩ := second.layers standingLater
    exact ⟨standingLast, by rw [layersLast, layersLater, Function.comp_apply]⟩
  defaultType := second.defaultType.trans first.defaultType
  defaultMethod := second.defaultMethod.trans first.defaultMethod

theorem Reshapes.of_eq (drafts : later.drafts = session.drafts)
    (openTypes : later.openTypes = session.openTypes)
    (defaultType : later.defaultType = session.defaultType)
    (defaultMethod : later.defaultMethod = session.defaultMethod) : session.Reshapes id later where
  layers standing := by
    have same : later.layerAt = session.layerAt := by
      funext place implicit
      rw [layerAt, layerAt, drafts]
    have places : later.places = session.places := by rw [Session.places, Session.places, openTypes,
      defaultType]
    exact ⟨standing.congr places fun _ _ => by rw [same], layers_congr places fun _ _ => by rw [same]⟩
  defaultType := defaultType
  defaultMethod := defaultMethod

/-- What else changes, such as the table, does not matter. -/
theorem Reshapes.congr {last : Session} (reshapes : session.Reshapes change later)
    (drafts : last.drafts = later.drafts) (openTypes : last.openTypes = later.openTypes)
    (defaultType : last.defaultType = later.defaultType)
    (defaultMethod : last.defaultMethod = later.defaultMethod) : session.Reshapes change last :=
  reshapes.trans (.of_eq drafts openTypes defaultType defaultMethod)

theorem Reshapes.refl (session : Session) : session.Reshapes id session := .of_eq rfl rfl rfl rfl

/-- Emitted code cannot be seen in the layers. -/
theorem Reshapes.of_outline (same : later.outline = session.outline) :
    session.Reshapes id later where
  layers standing := by
    have openTypes : later.outline.openTypes = session.outline.openTypes :=
      congrArg Session.openTypes same
    have defaultType : later.outline.defaultType = session.outline.defaultType :=
      congrArg Session.defaultType same
    have places : later.places = session.places := congrArg₂
      (fun stack implicit : List (Nat × Bool) => stack ++ implicit) (congrArg (map (·, false)) openTypes)
      (congrArg (fun place : Option Nat => place.toList.map (·, true)) defaultType)
    have drafts : later.drafts.map (·.outline) = session.drafts.map (·.outline) :=
      congrArg Session.drafts same
    have layerAt : ∀ place implicit, later.layerAt place implicit = session.layerAt place implicit := by
      intro place implicit
      have outlined (other : Session) : other.layerAt place implicit =
          (other.drafts.map (·.outline))[place]?.bind fun draft =>
            if draft.isOpen then some (draft.layer place implicit) else none := by
        rw [getElem?_map, Option.bind_map]
        simp only [Session.layerAt, Function.comp_def, TypeDraft.layer_outline]
        rfl
      rw [outlined, outlined, drafts]
    exact ⟨standing.congr places fun _ _ => by rw [layerAt], layers_congr places fun _ _ =>
      layerAt _ _⟩
  defaultType := congrArg (·.defaultType) same
  defaultMethod := congrArg (·.defaultMethod) same

theorem reshapes_setDraft (here : session.drafts[index]? = some draft)
    (isOpen : changed.isOpen = draft.isOpen) (same : ∀ place implicit,
      changed.layer place implicit = draft.layer place implicit) :
    session.Reshapes id (session.setDraft index changed) where
  layers standing := by
    have layerAt : ∀ place implicit,
        (session.setDraft index changed).layerAt place implicit = session.layerAt place implicit := by
      intro place implicit
      by_cases isHere : index = place
      · subst isHere
        obtain ⟨inRange, rfl⟩ := List.getElem?_eq_some_iff.mp here
        simp [Session.layerAt, setDraft, inRange, isOpen, same]
      · exact layerAt_setDraft_of_ne isHere implicit
    exact ⟨standing.congr rfl fun _ _ => by rw [layerAt], layers_congr rfl fun _ _ => layerAt _ _⟩
  defaultType := rfl
  defaultMethod := rfl

theorem reshapes_current (current : session.current? = .ok (some (index, draft)))
    {change : Layer → Layer} (isOpen : changed.isOpen = draft.isOpen)
    (layer : ∀ implicit, changed.layer index implicit = change (draft.layer index implicit)) :
    session.Reshapes (modifyHead change) (session.setDraft index changed) where
  layers standing := by
    obtain ⟨-, -, wasOpen⟩ := current?_eq_some current
    obtain ⟨still, implicit, outer, before, after⟩ := standing.replace current (isOpen.trans wasOpen)
    exact ⟨still, by rw [before, after, modifyHead_cons, layer]⟩
  defaultType := rfl
  defaultMethod := rfl

theorem reshapes_of_none (current : session.current? = .ok none)
    (nothing : change [] = []) : session.Reshapes change session where
  layers standing := ⟨standing, by rw [standing.layers_of_none current, nothing]⟩
  defaultType := rfl
  defaultMethod := rfl

theorem reshapes_amend {name : String} (here : session.drafts[index]? = some draft)
    (named : draft.Names name changed) :
    session.Reshapes id (session.setDraft index changed) := by
  have waiting : changed.initializing = draft.initializing := by
    rcases named with extended | implemented
    · obtain ⟨-, rfl⟩ : _ ∧ { draft with baseName := some name } = changed := by
        simpa [TypeDraft.extend] using extended
      rfl
    · obtain ⟨-, rfl⟩ : _ ∧ { draft with interfaceNames := draft.interfaceNames ++ [name] } =
          changed := by
        simpa [TypeDraft.implement] using implemented
      rfl
  obtain ⟨-, isOpen, -, methods⟩ := TypeDraft.methods_of_named named
  exact reshapes_setDraft here isOpen fun _ _ => TypeDraft.layer_congr waiting (by rw [methods])

theorem gives_declareType (name space : String) (kind : ClassKind) (visibility : Visibility) :
    Gives (session.declareType name space kind visibility) fun (id, declared) =>
      declared.drafts = session.drafts ++ [{ id := id }] ∧
        declared.openTypes = session.drafts.length :: session.openTypes ∧
          declared.defaultType = session.defaultType ∧
              declared.defaultMethod = session.defaultMethod := by
  rw [declareType]
  exact gives_bind_ok fun _ _ => ⟨rfl, rfl, rfl, rfl⟩

theorem reshapes_declareType (name space : String) (kind : ClassKind) (visibility : Visibility) :
    Gives (session.declareType name space kind visibility) fun (_, declared) =>
      Gives (declared.modifyType ({ · with initializing := true }))
        (session.Reshapes (⟨session.drafts.length, false, true, []⟩ :: ·)) := by
  refine (gives_declareType name space kind visibility).imp ?_
  rintro ⟨id, declared⟩ ⟨drafts, openTypes, defaultType, defaultMethod⟩
  have current : declared.current? = .ok (some (session.drafts.length, { id := id })) := by
    simp [current?, openTypes, Session.draft, drafts, bind, Except.bind, pure, Except.pure]
  dsimp only
  rw [modifyType, current]
  refine gives_ok.mpr ⟨fun standing => ?_, defaultType, defaultMethod⟩
  -- The new type is behind all drafts, so that the positions from before keep their types.
  have inRange : ∀ entry ∈ session.places, entry.1 < session.drafts.length := by
    intro entry inside
    have isOpen := standing.opened entry inside
    by_contra outside
    simp [layerAt, getElem?_eq_none (Nat.not_lt.mp outside)] at isOpen
  have places : declared.places = (session.drafts.length, false) :: session.places := by
    simp [Session.places, openTypes, defaultType]
  have first : (declared.setDraft session.drafts.length { id := id, initializing := true }).layerAt
      session.drafts.length false = some ⟨session.drafts.length, false, true, []⟩ := by
    simp [layerAt, setDraft, drafts, TypeDraft.layer]
  have others : ∀ entry ∈ session.places,
      (declared.setDraft session.drafts.length { id := id, initializing := true }).layerAt
        entry.1 entry.2 = session.layerAt entry.1 entry.2 := by
    intro entry inside
    have before := inRange entry inside
    rw [layerAt_setDraft_of_ne before.ne', layerAt, layerAt, drafts, getElem?_append_left before]
  refine ⟨⟨?_, fun entry inside => ?_⟩, ?_⟩
  · show (declared.places.map (·.1)).Nodup
    rw [places, map_cons, nodup_cons]
    refine ⟨fun inside => ?_, standing.distinct⟩
    obtain ⟨entry, isOld, same⟩ := mem_map.mp inside
    have before := inRange entry isOld
    omega
  · have inPlaces : entry ∈ declared.places := inside
    rw [places] at inPlaces
    rcases mem_cons.mp inPlaces with rfl | isOld
    · rw [first, Option.isSome_some]
    · rw [others entry isOld]
      exact standing.opened entry isOld
  · show layersAt _ declared.places = _
    rw [places, layersAt_cons first, layersAt_congr others]
    rfl

theorem reshapes_beginBody {type : Option TypeDraft} (isType : session.currentType? = .ok type) :
    Gives (session.modifyType (Compile.beginBody (Compile.blockOwner type)))
      (session.Reshapes (modifyHead Layer.beginBody)) := by
  refine gives_of_modifyType (fun current => reshapes_of_none current rfl)
    fun index draft current => ?_
  obtain rfl : some draft = type := by
    simpa [currentType?, current, bind, Except.bind, pure, Except.pure] using isType
  have isOpen : (Compile.beginBody (Compile.blockOwner (some draft)) draft).isOpen = draft.isOpen := by
    unfold Compile.beginBody
    split <;> rfl
  exact reshapes_current current isOpen fun _ => TypeDraft.layer_beginBody

theorem reshapes_openMethod (name : String) (result : TypeId) (kind : FuncKind)
    (visibility : Visibility) (attrs : MethodAttrs) :
    Gives (session.openMethod name result kind visibility attrs) fun (slot, later) =>
      session.Reshapes (modifyHead (·.openMethod slot)) later := by
  refine gives_of_openMethod fun index draft _ isStatic slot table current _ _ _ => ?_
  have opened : session.Reshapes (modifyHead (·.openMethod slot)) (session.setDraft index
      (draft.addMember.openMethod { slot := slot, isStatic := isStatic && kind != .constructor })) :=
    reshapes_current current rfl fun _ => TypeDraft.layer_openMethod _ rfl
  -- The table and the entry point cannot be seen in the layers.
  exact opened.congr rfl rfl rfl rfl

theorem reshapes_declareParam (name : String) (type : TypeId) :
    Gives (session.declareParam name type) fun (_, later) => session.Reshapes id later := by
  refine gives_of_declareParam fun index draft method rest _ longer table current openMethods
    declared _ => ?_
  obtain ⟨-, here, -⟩ := current?_eq_some current
  have stays : Gives (method.declareParam name type) fun outcome =>
      outcome.2.openMethod = method.openMethod := by
    rw [MethodDraft.declareParam]
    split
    · exact gives_error
    · rfl
  have same : longer.openMethod = method.openMethod := stays.of_ok declared
  have kept : session.Reshapes id (session.setDraft index (draft.setMethod longer)) :=
    reshapes_setDraft here rfl fun _ _ =>
      TypeDraft.layer_congr rfl (by simp [TypeDraft.setMethod, openMethods, same])
  exact kept.congr rfl rfl rfl rfl

theorem reshapes_declareField (name : String) (type : TypeId) (isFinal : Bool) :
    Gives (session.declareField name type isFinal) fun (_, later) => session.Reshapes id later := by
  refine gives_of_declareField fun index draft field ref table current _ => ?_
  have kept : session.Reshapes id (session.setDraft index draft.addMember) :=
    reshapes_setDraft (current?_eq_some current).2.1 rfl fun _ _ => rfl
  exact kept.congr rfl rfl rfl rfl

theorem reshapes_closeMethod : Gives session.closeMethod fun (later, _) =>
    session.Reshapes (modifyHead Layer.closeMethod) later := by
  refine gives_of_closeMethod (fun current => reshapes_of_none current rfl)
    fun index draft current => ?_
  refine draft.gives_layer_closeMethod.imp ?_
  rintro ⟨closed, _⟩ ⟨isOpen, layer⟩
  exact reshapes_current current isOpen fun implicit => layer index implicit

end Session

/-- The innermost declared type is taken away. The implicit class stays. -/
def closeLayer : List Layer → List Layer
  | [] => []
  | layer :: outer => if layer.implicit then layer :: outer else outer

namespace Session

variable {session later : Session}

theorem reshapes_closeType (namespaces : List String) :
    Gives (session.closeType namespaces) fun (later, _) => session.Reshapes closeLayer later := by
  rw [closeType]
  split
  · rename_i openTypes
    refine gives_ok.mpr ⟨fun standing => ⟨standing, ?_⟩, rfl, rfl⟩
    -- At most the implicit class is open.
    cases isDefault : session.defaultType with
    | none => simp [layers, places, openTypes, isDefault, layersAt, closeLayer]
    | some index =>
      have places : session.places = [(index, true)] := by simp [places, openTypes, isDefault]
      obtain ⟨layer, found⟩ := Option.isSome_iff_exists.mp
        (standing.opened (index, true) (by simp [places]))
      rw [layers, places, layersAt_cons found, closeLayer, if_pos (implicit_of_layerAt found).2]
  · rename_i index rest openTypes
    rw [closeAt, gives_bind]
    refine gives_draft.imp fun draft here => ?_
    refine gives_bind_ok ?_
    rintro ⟨closed, table, _⟩ _
    refine gives_ok.mpr ⟨fun standing => ?_, rfl, rfl⟩
    obtain ⟨outer, shape, stacked⟩ : ∃ outer, session.places = (index, false) :: outer ∧
        { session with openTypes := rest }.places = outer :=
      ⟨_, by simp [places, openTypes], rfl⟩
    have distinct := standing.distinct
    rw [shape, map_cons, nodup_cons] at distinct
    have others : ∀ entry ∈ outer, (session.setDraft index closed).layerAt entry.1 entry.2 =
        session.layerAt entry.1 entry.2 := by
      intro entry inside
      refine layerAt_setDraft_of_ne (fun same => distinct.1 ?_) entry.2
      exact mem_map.mpr ⟨entry, inside, same.symm⟩
    refine ⟨⟨?_, fun entry inside => ?_⟩, ?_⟩
    · show (map (·.1) { session with openTypes := rest }.places).Nodup
      rw [stacked]
      exact distinct.2
    · have inOuter : entry ∈ { session with openTypes := rest }.places := inside
      rw [stacked] at inOuter
      show ((session.setDraft index closed).layerAt entry.1 entry.2).isSome = true
      rw [others entry inOuter]
      exact standing.opened entry (shape ▸ mem_cons_of_mem _ inOuter)
    · -- The type that is closed was the innermost layer.
      obtain ⟨layer, found⟩ := Option.isSome_iff_exists.mp
        (standing.opened (index, false) (by simp [shape]))
      have explicit : ¬layer.implicit = true := by simp [(implicit_of_layerAt found).2]
      show (session.setDraft index closed).layersAt { session with openTypes := rest }.places =
        closeLayer session.layers
      rw [stacked, layers, shape, layersAt_cons found, closeLayer, if_neg explicit, layersAt_congr others]

end Session

end OnePass
