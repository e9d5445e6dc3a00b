import OnePass.Proofs.Layers.Step

/-! # Bodies that have begun

An opening brace may begin the body of a type or of a method. What the open braces have begun is a
stack of `Begun`, and what the layers show is another one: the types and methods that no longer wait
(`bodies`). Every step but one treats the two alike. A closing brace is the exception: it takes away
the innermost type or method, whether this has a body or still waits for one.

* `Tidy.marks_sublist_shut` — what the open braces have begun is never closed by another brace than
  its own or one outside of it.
* `Tidy.marks_eq_shut` — as long as no closing brace meets a head that waits, the two stacks are the
  same. -/

namespace OnePass

open List

/-- What an opening brace has begun: the body of the type at some position, that of a method of it,
or nothing. -/
inductive Begun where
  | type (place : Nat)
  | method (place : Nat) (slot : MethodSlot)
  | plain
  deriving DecidableEq

namespace Begun

/-- The kind of the block. -/
def owner : Begun → BlockOwner
  | type _ => .type
  | method _ _ => .method
  | plain => .plain

/-- Whether a body has begun. -/
def isBody : Begun → Bool
  | plain => false
  | _ => true

end Begun

/-- What a block that opens now begins: the body of the innermost type, if that waits, or else of
its innermost method. -/
def begins : List Layer → Begun
  | [] => .plain
  | layer :: _ =>
    if layer.waiting then .type layer.place
    else
      match layer.methods with
      | [] => .plain
      | method :: _ => if method.waiting then .method layer.place method.slot else .plain

/-- The bodies among what the open braces have begun. -/
def marks (begun : List Begun) : List Begun := begun.filter (·.isBody)

/-- The bodies that have begun in a type. That of the implicit class has no brace of its own. -/
def Layer.bodies (layer : Layer) : List Begun :=
  (layer.methods.filter (!·.waiting)).map (fun method => .method layer.place method.slot) ++
    if layer.waiting || layer.implicit then [] else [.type layer.place]

/-- The bodies that have begun, innermost first. -/
def bodies (layers : List Layer) : List Begun := layers.flatMap (·.bodies)

/-- What a closing brace takes away, by the kind of its block. -/
def closedBy (layers : List Layer) : BlockOwner → Begun
  | .type =>
    match layers with
    | [] => .plain
    | layer :: _ => if layer.implicit then .plain else .type layer.place
  | .method =>
    match layers with
    | [] => .plain
    | layer :: _ =>
      match layer.methods with
      | [] => .plain
      | method :: _ => .method layer.place method.slot
  | .plain => .plain

/-- Whether a head that waits is in the way of a closing brace: for the body of a type, a type that
waits, and for that of a method, a type or a method. -/
def Begun.isHindered (layers : List Layer) : Begun → Bool
  | .type _ => layers.head?.any (·.waiting)
  | .method _ _ => (begins layers).isBody
  | .plain => false

section Marks

variable {layer : Layer} {outer : List Layer}

theorem owner_begins (layers : List Layer) : (begins layers).owner = ownerOf layers := by
  cases layers with
  | nil => rfl
  | cons layer outer =>
    rw [begins, ownerOf]
    by_cases waiting : layer.waiting = true
    · simp [waiting, Begun.owner]
    · cases methods : layer.methods with
      | nil => simp [waiting, Begun.owner]
      | cons method rest =>
        by_cases methodWaits : method.waiting = true <;> simp [waiting, methodWaits, Begun.owner]

@[simp]
theorem bodies_cons : bodies (layer :: outer) = layer.bodies ++ bodies outer := flatMap_cons

theorem marks_cons_body {top : Begun} {begun : List Begun} (isBody : top.isBody = true) :
    marks (top :: begun) = top :: marks begun :=
  filter_cons_of_pos isBody

theorem marks_cons_plain (begun : List Begun) : marks (.plain :: begun) = marks begun :=
  filter_cons_of_neg (by simp [Begun.isBody])

/-- The innermost method has begun: its body comes first. -/
theorem Layer.bodies_of_begun {method : OpenMethod} {rest : List OpenMethod}
    (methods : layer.methods = method :: rest) (begun : method.waiting = false) :
    layer.bodies = .method layer.place method.slot :: layer.closeMethod.bodies := by
  simp [bodies, closeMethod, methods, begun]

theorem Layer.bodies_of_waiting {method : OpenMethod} {rest : List OpenMethod}
    (methods : layer.methods = method :: rest) (waiting : method.waiting = true) :
    layer.bodies = layer.closeMethod.bodies := by
  simp [bodies, closeMethod, methods, waiting]

end Marks

/-! ## Order among layers -/

/-- A type that waits is declared, its methods wait too, and only the outermost type can be the
implicit class. -/
structure Tidy (layers : List Layer) : Prop where
  waiting : ∀ layer ∈ layers, layer.waiting = true →
    layer.implicit = false ∧ ∀ method ∈ layer.methods, method.waiting = true
  outermost : layers.Pairwise fun inner _ => inner.implicit = false

namespace Tidy

variable {layer changed : Layer} {layers outer later : List Layer}

theorem tail (tidy : Tidy (layer :: outer)) : Tidy outer where
  waiting inner inside := tidy.waiting inner (mem_cons_of_mem _ inside)
  outermost := tidy.outermost.tail

/-- The implicit class has nothing outside of it. -/
theorem outer_eq_nil (tidy : Tidy (layer :: outer)) (implicit : layer.implicit = true) :
    outer = [] := by
  cases outer with
  | nil => rfl
  | cons next rest =>
    have explicit := (pairwise_cons.mp tidy.outermost).1 next mem_cons_self
    rw [implicit] at explicit
    cases explicit

theorem replace (tidy : Tidy (layer :: outer)) (implicit : changed.implicit = layer.implicit)
    (waiting : changed.waiting = true → layer.waiting = true ∧ ∀ method ∈ changed.methods,
      method.waiting = true) :
    Tidy (changed :: outer) where
  waiting inner inside isWaiting := by
    rcases List.mem_cons.mp inside with rfl | isOuter
    · obtain ⟨wasWaiting, methods⟩ := waiting isWaiting
      exact ⟨implicit.trans (tidy.waiting layer List.mem_cons_self wasWaiting).1, methods⟩
    · exact tidy.waiting inner (List.mem_cons_of_mem _ isOuter) isWaiting
  outermost := by
    obtain ⟨first, rest⟩ := List.pairwise_cons.mp tidy.outermost
    exact List.pairwise_cons.mpr ⟨fun next inside => implicit.trans (first next inside), rest⟩

theorem closeMethod (tidy : Tidy layers) : Tidy (layers.modifyHead Layer.closeMethod) := by
  cases layers with
  | nil => exact tidy
  | cons layer outer =>
    refine tidy.replace rfl fun waiting => ⟨waiting, fun method inside => ?_⟩
    exact (tidy.waiting layer mem_cons_self waiting).2 method (mem_of_mem_tail inside)

theorem closeLayer (tidy : Tidy layers) : Tidy (closeLayer layers) := by
  cases layers with
  | nil => exact tidy
  | cons layer outer =>
    rw [OnePass.closeLayer]
    split
    · exact tidy
    · exact tidy.tail

theorem shut (tidy : Tidy layers) (owner : Option BlockOwner) : Tidy (shutLayers owner layers) := by
  unfold shutLayers
  split
  · exact tidy.closeLayer
  · exact tidy.closeMethod
  · exact tidy
  · exact tidy

theorem beginBody (tidy : Tidy layers) : Tidy (layers.modifyHead Layer.beginBody) := by
  cases layers with
  | nil => exact tidy
  | cons layer outer =>
    rw [modifyHead_cons]
    by_cases waiting : layer.waiting = true
    · refine tidy.replace ?_ fun stillWaiting => ?_
      · simp [Layer.beginBody, waiting]
      · simp [Layer.beginBody, waiting] at stillWaiting
    · refine tidy.replace ?_ fun stillWaiting => ?_
      · simp [Layer.beginBody, waiting]
      · simp [Layer.beginBody, waiting] at stillWaiting

theorem shifts (tidy : Tidy layers) (shifts : Layer.Shifts layers later) : Tidy later := by
  cases shifts with
  | stays => exact tidy
  | declares place =>
    refine ⟨fun layer inside waiting => ?_, pairwise_cons.mpr ⟨fun _ _ => rfl, tidy.outermost⟩⟩
    rcases mem_cons.mp inside with rfl | isOuter
    · exact ⟨rfl, forall_mem_nil _⟩
    · exact tidy.waiting layer isOuter waiting
  | opens slot =>
    cases layers with
    | nil => exact tidy
    | cons layer outer =>
      refine tidy.replace rfl fun waiting => ⟨waiting, forall_mem_cons.mpr ⟨rfl, ?_⟩⟩
      exact (tidy.waiting layer mem_cons_self waiting).2
  | dropsType => exact tidy.closeLayer
  | dropsMethod => exact tidy.closeMethod

theorem bodies_of_waiting (tidy : Tidy (layer :: outer)) (waiting : layer.waiting = true) :
    layer.bodies = [] := by
  have none : layer.methods.filter (!·.waiting) = [] := by
    refine filter_eq_nil_iff.mpr fun method inside => ?_
    simp [(tidy.waiting layer mem_cons_self waiting).2 method inside]
  simp [Layer.bodies, none, waiting]

/-! ## Steps -/

/-- A token that is no brace begins and ends no body. -/
theorem bodies_shifts (tidy : Tidy layers) (shifts : Layer.Shifts layers later) :
    bodies later = bodies layers := by
  cases shifts with
  | stays => rfl
  | declares place => rfl
  | opens slot =>
    cases layers with
    | nil => rfl
    | cons layer outer =>
      have opened : (layer.openMethod slot).bodies = layer.bodies := Layer.bodies_of_waiting rfl rfl
      rw [modifyHead_cons, bodies_cons, bodies_cons, opened]
  | @dropsType layer outer shape waiting =>
    subst shape
    have explicit : ¬layer.implicit = true := by simp [(tidy.waiting layer mem_cons_self waiting).1]
    rw [OnePass.closeLayer, if_neg explicit, bodies_cons, tidy.bodies_of_waiting waiting, nil_append]
  | @dropsMethod layer outer method rest shape methods waiting =>
    subst shape
    rw [modifyHead_cons, bodies_cons, bodies_cons, Layer.bodies_of_waiting methods waiting]

theorem bodies_beginBody (tidy : Tidy layers) :
    bodies (layers.modifyHead Layer.beginBody) = marks [begins layers] ++ bodies layers := by
  cases layers with
  | nil => rfl
  | cons layer outer =>
    rw [modifyHead_cons, bodies_cons, bodies_cons, begins, ← append_assoc]
    congr 1
    by_cases waiting : layer.waiting = true
    · -- All methods wait as well, so that the body of the type is the only one.
      have none : layer.methods.filter (!·.waiting) = [] := by
        refine filter_eq_nil_iff.mpr fun method inside => ?_
        simp [(tidy.waiting layer mem_cons_self waiting).2 method inside]
      have explicit := (tidy.waiting layer mem_cons_self waiting).1
      simp [Layer.bodies, Layer.beginBody, waiting, none, explicit, marks, Begun.isBody]
    · cases methods : layer.methods with
      | nil => simp [Layer.bodies, Layer.beginBody, waiting, methods, marks, Begun.isBody]
      | cons method rest =>
        by_cases methodWaits : method.waiting = true
        · simp [Layer.bodies, Layer.beginBody, waiting, methods, methodWaits, marks, Begun.isBody]
        · simp [Layer.bodies, Layer.beginBody, waiting, methods, methodWaits, marks, Begun.isBody]

/-! ## Closing braces -/

variable {top : Begun} {begun base : List Begun}

theorem sublist_of_type {place : Nat} {rest : List Begun} {methods : List OpenMethod} {owner : Nat}
    (covered : (Begun.type place :: begun).Sublist
      (methods.map (fun method => Begun.method owner method.slot) ++ rest)) :
    (Begun.type place :: begun).Sublist rest := by
  induction methods with
  | nil => exact covered
  | cons method methods ih =>
    rw [map_cons, cons_append] at covered
    cases covered with
    | cons _ covered => exact ih covered

/-- What the braces outside of a closing brace have begun is not closed by it. -/
theorem marks_sublist_shut (tidy : Tidy layers)
    (covered : (marks (top :: begun) ++ base).Sublist (bodies layers)) :
    (marks begun ++ base).Sublist (bodies (shutLayers (some top.owner) layers)) := by
  cases top with
  | plain =>
    rw [marks_cons_plain] at covered
    exact covered
  | type place =>
    rw [marks_cons_body rfl, cons_append] at covered
    cases layers with
    | nil => cases covered
    | cons layer outer =>
      show (marks begun ++ base).Sublist (bodies (OnePass.closeLayer (layer :: outer)))
      rw [OnePass.closeLayer]
      split
      · exact (sublist_cons_self _ _).trans covered
      · rename_i explicit
        rw [bodies_cons] at covered
        by_cases waiting : layer.waiting = true
        · rw [tidy.bodies_of_waiting waiting, nil_append] at covered
          exact (sublist_cons_self _ _).trans covered
        · rw [Layer.bodies, append_assoc] at covered
          have inType := sublist_of_type covered
          rw [if_neg (by simp [waiting, explicit]), singleton_append] at inType
          exact inType.tail
  | method place slot =>
    rw [marks_cons_body rfl, cons_append] at covered
    cases layers with
    | nil => cases covered
    | cons layer outer =>
      show (marks begun ++ base).Sublist (bodies (layer.closeMethod :: outer))
      rw [bodies_cons] at covered ⊢
      cases methods : layer.methods with
      | nil =>
        have same : layer.closeMethod.bodies = layer.bodies := by simp [Layer.bodies,
          Layer.closeMethod, methods]
        rw [same]
        exact (sublist_cons_self _ _).trans covered
      | cons method rest =>
        by_cases waiting : method.waiting = true
        · rw [Layer.bodies_of_waiting methods waiting] at covered
          exact (sublist_cons_self _ _).trans covered
        · rw [Layer.bodies_of_begun methods (by simpa using waiting), cons_append] at covered
          exact covered.tail

/-- A closing brace that no head is in the way of closes what its opening brace has begun. -/
theorem marks_eq_shut (tidy : Tidy layers) (exact : marks (top :: begun) ++ base = bodies layers)
    (free : top.isHindered layers = false) :
    marks begun ++ base = bodies (shutLayers (some top.owner) layers) ∧
      closedBy layers top.owner = top := by
  cases top with
  | plain =>
    rw [marks_cons_plain] at exact
    exact ⟨exact, rfl⟩
  | type place =>
    rw [marks_cons_body rfl, cons_append] at exact
    cases layers with
    | nil => cases exact
    | cons layer outer =>
      have begunType : layer.waiting = false := by simpa [Begun.isHindered] using free
      rw [bodies_cons, Layer.bodies, append_assoc] at exact
      -- Bodies of methods would come first, and in the implicit class there are no others.
      cases inside : layer.methods.filter (!·.waiting) with
      | cons method rest => simp [inside] at exact
      | nil =>
        by_cases implicit : layer.implicit = true
        · simp [inside, implicit, tidy.outer_eq_nil implicit, bodies] at exact
        · obtain ⟨rfl, others⟩ : place = layer.place ∧ marks begun ++ base = bodies outer := by
            simpa [inside, implicit, begunType] using exact
          refine ⟨?_, by simp [closedBy, Begun.owner, implicit]⟩
          show marks begun ++ base = bodies (OnePass.closeLayer (layer :: outer))
          rw [OnePass.closeLayer, if_neg implicit, others]
  | method place slot =>
    rw [marks_cons_body rfl, cons_append] at exact
    cases layers with
    | nil => cases exact
    | cons layer outer =>
      have begunType : ¬layer.waiting = true := by
        intro waiting
        simp [Begun.isHindered, begins, waiting, Begun.isBody] at free
      rw [bodies_cons] at exact
      cases methods : layer.methods with
      | nil =>
        -- Without a method the first body is that of a type.
        by_cases implicit : layer.implicit = true
        · simp [Layer.bodies, methods, implicit, tidy.outer_eq_nil implicit, bodies] at exact
        · simp [Layer.bodies, methods, implicit, begunType] at exact
      | cons method rest =>
        have begunMethod : method.waiting = false := by
          by_contra waiting
          simp [Begun.isHindered, begins, begunType, methods, waiting, Begun.isBody] at free
        rw [Layer.bodies_of_begun methods begunMethod, cons_append] at exact
        obtain ⟨isFirst, others⟩ := cons_eq_cons.mp exact
        refine ⟨?_, by simp [closedBy, Begun.owner, methods, isFirst]⟩
        show marks begun ++ base = bodies (layer.closeMethod :: outer)
        rw [bodies_cons, others]

theorem mem_bodies_method {place : Nat} {slot : MethodSlot}
    (inside : Begun.method place slot ∈ bodies layers) : ∃ layer ∈ layers, layer.place = place ∧
      ∃ method ∈ layer.methods, method.waiting = false ∧ method.slot = slot := by
  obtain ⟨layer, isLayer, inLayer⟩ := mem_flatMap.mp inside
  rcases mem_append.mp inLayer with isMethod | isType
  · obtain ⟨method, isOpen, same⟩ := mem_map.mp isMethod
    obtain ⟨inMethods, begun⟩ := mem_filter.mp isOpen
    obtain ⟨rfl, rfl⟩ : layer.place = place ∧ method.slot = slot := by simpa using same
    exact ⟨layer, isLayer, rfl, method, inMethods, by simpa using begun, rfl⟩
  · split at isType <;> simp at isType

theorem mem_bodies_type {place : Nat} (inside : Begun.type place ∈ bodies layers) :
    ∃ layer ∈ layers, layer.place = place ∧ layer.waiting = false := by
  obtain ⟨layer, isLayer, inLayer⟩ := mem_flatMap.mp inside
  rcases mem_append.mp inLayer with isMethod | isType
  · obtain ⟨method, -, same⟩ := mem_map.mp isMethod
    cases same
  · split at isType
    · cases isType
    · rename_i begun
      obtain rfl : place = layer.place := by simpa using isType
      exact ⟨layer, isLayer, rfl, by simp_all⟩

theorem closedBy_ne_of_hindered (tidy : Tidy layers) (places : (layers.map (·.place)).Nodup)
    (slots : ∀ layer ∈ layers, (layer.methods.map (·.slot)).Nodup)
    (exact : marks (top :: begun) ++ base = bodies layers)
    (hindered : top.isHindered layers = true) : closedBy layers top.owner ≠ top := by
  intro same
  -- The type or method that was begun has a body, and the head in the way has none.
  have inBodies : top.isBody = true → top ∈ bodies layers := by
    intro isBody
    rw [← exact, marks_cons_body isBody]
    exact mem_cons_self
  have only {first other : Layer} {outer : List Layer} (shape : layers = first :: outer)
      (inside : other ∈ layers) (samePlace : other.place = first.place) : other = first := by
    refine inj_on_of_nodup_map places inside ?_ samePlace
    rw [shape]
    exact mem_cons_self
  cases shape : layers with
  | nil => cases top <;> simp [shape, Begun.isHindered, begins, Begun.isBody] at hindered
  | cons layer outer =>
    cases top with
    | plain => cases hindered
    | type place =>
      have waiting : layer.waiting = true := by simpa [shape, Begun.isHindered] using hindered
      obtain ⟨other, inside, rfl, begunOther⟩ := mem_bodies_type (inBodies rfl)
      have samePlace : layer.place = other.place := by
        have explicit := (tidy.waiting layer (shape ▸ mem_cons_self) waiting).1
        simpa [shape, closedBy, Begun.owner, explicit] using same
      rw [only shape inside samePlace.symm, waiting] at begunOther
      cases begunOther
    | method place slot =>
      obtain ⟨other, inside, rfl, method, isMethod, begunMethod, rfl⟩ := mem_bodies_method (inBodies rfl)
      cases methods : layer.methods with
      | nil => simp [shape, closedBy, Begun.owner, methods] at same
      | cons first rest =>
        obtain ⟨samePlace, sameSlot⟩ : layer.place = other.place ∧ first.slot = method.slot := by
          simpa [shape, closedBy, Begun.owner, methods] using same
        have isLayer := only shape inside samePlace.symm
        rw [isLayer] at isMethod
        have firstWaits : first.waiting = true := by
          by_cases waiting : layer.waiting = true
          · refine (tidy.waiting layer (shape ▸ mem_cons_self) waiting).2 first ?_
            rw [methods]
            exact mem_cons_self
          · by_contra begunFirst
            simp [shape, Begun.isHindered, begins, waiting, methods, begunFirst, Begun.isBody] at hindered
        -- No two methods of a type have the same slot.
        have sameMethod : method = first := by
          refine inj_on_of_nodup_map (slots layer (shape ▸ mem_cons_self)) isMethod ?_ sameSlot.symm
          rw [methods]
          exact mem_cons_self
        rw [sameMethod, firstWaits] at begunMethod
        cases begunMethod

end Tidy

end OnePass
