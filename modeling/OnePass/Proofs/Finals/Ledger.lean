import OnePass.Proofs.Finals.Stores

/-! # The ledger of stores

Which stores a method may still get depends on its locals: a final that was marked as assigned has
had its store, one that was not has had none, and a place at which no local was declared yet has had
none either.

`Session.Ledger` says this of all open methods of a session. Besides, it keeps count of some finals
for good, also after their methods are finished, and of the stores to one field. `Session.Keeps
extra` says of two sessions that the ledger of the first becomes a ledger of the second if `extra`
is booked. Code that is emitted to the current method keeps the ledger if the method evolves
(`MethodDraft.Evolves`), and so does whatever opens and closes methods. -/

namespace OnePass

open List

/-! ## Methods -/

namespace MethodDraft

variable {method later last : MethodDraft} {index : UInt16}

/-- No local, or a final one, has the number. -/
def Limits (method : MethodDraft) (index : UInt16) : Prop :=
  ∀ found, method.locals[index.toNat]? = some found → found.isFinal = true

/-- A final has the number. -/
def HasFinal (method : MethodDraft) (index : UInt16) : Prop :=
  ∃ found, method.locals[index.toNat]? = some found ∧ found.isFinal = true

instance (method : MethodDraft) (index : UInt16) : Decidable (method.HasFinal index) :=
  decidable_of_iff (method.locals[index.toNat]?.any (·.isFinal) = true) (by
    cases found : method.locals[index.toNat]? with
    | none => simp [HasFinal, found]
    | some known => simp [HasFinal, found])

/-- The number of stores that the marks of the method speak of: one if the local is marked as
assigned. -/
def spent (method : MethodDraft) (index : UInt16) : Nat :=
  if method.locals[index.toNat]?.any (·.assigned) then 1 else 0

theorem spent_le_one (method : MethodDraft) (index : UInt16) : method.spent index ≤ 1 := by
  rw [spent]
  split <;> omega

theorem HasFinal.limits (final : method.HasFinal index) : method.Limits index := by
  obtain ⟨known, here, isFinal⟩ := final
  intro found foundHere
  rwa [Option.some.inj (foundHere.symm.trans here)]

/-- What emission can do to a method: it gets some stores, of which each to a final is marked and
was not marked before. Places of locals that are still to be declared are not stored to. -/
structure Evolves (extra : List Stored) (method later : MethodDraft) : Prop where
  slot : later.slot = method.slot
  stores : (storesIn later.code).Subperm (extra ++ storesIn method.code)
  spent : ∀ index, later.Limits index → method.Limits index ∧
    extra.count (.loc index) + method.spent index ≤ later.spent index
  final : ∀ index, method.HasFinal index → later.HasFinal index

theorem Evolves.of_locals_eq (slot : later.slot = method.slot)
    (locals : later.locals = method.locals) (stores : (storesIn later.code).Subperm
      (storesIn method.code)) : method.Evolves [] later where
  slot := slot
  stores := stores
  spent index limits := by
    rw [Limits, locals] at limits
    refine ⟨limits, ?_⟩
    rw [count_nil, Nat.zero_add, MethodDraft.spent, MethodDraft.spent, locals]
  final index := by
    rw [HasFinal, HasFinal, locals]
    exact fun final => final

theorem count_stores (method : MethodDraft) (slot : MethodSlot) (stored : Stored) :
    method.stores.count (slot, stored) = if slot = method.slot then (storesIn method.code).count
      stored else 0 := by
  rw [stores]
  split
  · rename_i same
    subst same
    exact count_map_of_injective _ _ (Prod.mk_right_injective method.slot) stored
  · rename_i different
    refine count_eq_zero.mpr fun here => different ?_
    obtain ⟨_, -, same⟩ := mem_map.mp here
    exact congrArg Prod.fst same.symm

theorem storesTo_stores (method : MethodDraft) (stored : Stored) :
    storesTo stored method.stores = (storesIn method.code).count stored := by
  rw [storesTo, stores, countP_map, count]
  rfl

end MethodDraft

namespace Session

variable {session later last : Session} {extra : List Stored}

/-! ## Methods are distinct -/

theorem Accounted.nodup_slots (accounted : session.Accounted) : session.slots.Nodup := by
  have owners (draft : TypeDraft) (here : draft ∈ session.drafts) : ∀ slot ∈ draft.slots,
      slot.owner = draft.id := by
    intro slot inside
    obtain ⟨signature, inSignatures, rfl⟩ := mem_map.mp inside
    obtain ⟨definition, -, accounts⟩ := accounted.accounts draft here
    exact definition.owner_of_mem_signatures (accounts.signatures.subset inSignatures)
  refine nodup_flatMap.mpr ⟨fun draft here => ?_, ?_⟩
  · obtain ⟨definition, -, accounts⟩ := accounted.accounts draft here
    rw [TypeDraft.slots, (accounts.signatures.map _).nodup_iff, TypeDef.slots_signatures]
    exact TypeDef.nodup_slots
  · refine (pairwise_map.mp accounted.distinct).imp_of_mem fun inFirst inSecond different slot first
      second => ?_
    exact different ((owners _ inFirst slot first).symm.trans (owners _ inSecond slot second))

theorem nodup_openMethods (distinct : session.slots.Nodup) :
    (session.openMethods.map (·.slot)).Nodup :=
  (nodup_append.mp (session.slots_perm.nodup_iff.mp distinct)).2.1

theorem eq_of_slot_eq (distinct : session.slots.Nodup) {method other : MethodDraft}
    (here : method ∈ session.openMethods) (there : other ∈ session.openMethods)
    (same : method.slot = other.slot) : method = other :=
  inj_on_of_nodup_map (nodup_openMethods distinct) here there same

/-! ## The ledger -/

/-- What is known about the stores of a session. In every open method, a place that is limited has
no more stores than are marked. The finals that are watched have one store at most, and the field no
more than its quota. -/
structure Ledger (finals : List (MethodSlot × UInt16)) (ref : MemberRef) (quota : Nat)
    (session : Session) : Prop where
  limited : ∀ method ∈ session.openMethods, ∀ index, method.Limits index →
    session.stores.count (method.slot, .loc index) ≤ method.spent index
  known : ∀ final ∈ finals, final.1 ∈ session.slots
  final : ∀ final ∈ finals, ∀ method ∈ session.openMethods, method.slot = final.1 →
    method.HasFinal final.2
  once : ∀ final ∈ finals, session.stores.count (final.1, .loc final.2) ≤ 1
  field : storesTo (.field ref) session.stores ≤ quota

/-- A final of an open method can be watched from now on. -/
theorem Ledger.watch {ref : MemberRef} {quota : Nat} (ledger : session.Ledger [] ref quota)
    (distinct : session.slots.Nodup) {method : MethodDraft} (isOpen : method ∈ session.openMethods)
    {index : UInt16} (final : method.HasFinal index) :
    session.Ledger [(method.slot, index)] ref quota where
  limited := ledger.limited
  known := by
    intro watched here
    rw [mem_singleton.mp here]
    exact slot_mem isOpen
  final := by
    intro watched here other otherOpen same
    rw [mem_singleton.mp here] at same ⊢
    rwa [eq_of_slot_eq distinct otherOpen isOpen same]
  once := by
    intro watched here
    rw [mem_singleton.mp here]
    exact (ledger.limited method isOpen index final.limits).trans (method.spent_le_one index)
  field := ledger.field

/-- A ledger of the first session is a ledger of the second, with some more stores booked. -/
structure Keeps (extra : List Stored) (session later : Session) : Prop where
  slots : session.slots.Subperm later.slots
  ledger : later.slots.Nodup → ∀ {finals ref quota}, session.Ledger finals ref quota →
    later.Ledger finals ref (quota + extra.count (.field ref))

theorem Keeps.trans {more : List Stored} (first : session.Keeps extra later)
    (second : later.Keeps more last) : session.Keeps (extra ++ more) last where
  slots := first.slots.trans second.slots
  ledger distinct _ ref quota ledger := by
    rw [count_append, ← Nat.add_assoc]
    have before : later.slots.Nodup := by
      obtain ⟨part, same, inLast⟩ := second.slots
      exact same.nodup_iff.mp (distinct.sublist inLast)
    exact second.ledger distinct (first.ledger before ledger)

instance : IsPreorder Session (Keeps []) where
  refl _ := ⟨.refl _, fun _ _ _ _ ledger => ledger⟩
  trans _ _ _ first second := first.trans second

/-! ## Opening and closing -/

/-- Methods that are opened have no stores, and methods that are finished get none. -/
theorem Switches.keeps (switches : session.Switches later) : session.Keeps [] later where
  slots := switches.slots
  ledger distinct finals ref quota ledger := by
    have fewer (store : MethodSlot × Stored) : later.stores.count store ≤ session.stores.count store :=
      switches.stores.count_le store
    -- A method that was opened is not one of those before.
    have isNew {slot : MethodSlot} (fresh : (slot :: session.slots).Subperm later.slots) :
        slot ∉ session.slots := by
      obtain ⟨part, same, inLater⟩ := fresh
      exact (List.nodup_cons.mp (same.nodup_iff.mp (distinct.sublist inLater))).1
    refine ⟨fun method isOpen index limits => ?_, fun final here => ?_,
      fun final here method isOpen same => ?_, fun final here =>
        (fewer _).trans (ledger.once final here), ?_⟩
    · refine (fewer _).trans ?_
      rcases switches.openMethods method isOpen with inSession | ⟨-, fresh⟩
      · exact ledger.limited method inSession index limits
      · rw [List.count_eq_zero.mpr fun stored => isNew fresh (mem_slots stored)]
        exact Nat.zero_le _
    · exact switches.slots.subset (ledger.known final here)
    · rcases switches.openMethods method isOpen with inSession | ⟨-, fresh⟩
      · exact ledger.final final here method inSession same
      · exact absurd (same ▸ ledger.known final here) (isNew fresh)
    · exact (switches.stores.countP_le _).trans ledger.field

/-! ## Emission -/

/-- The current method is replaced, and the methods that there are and the stores of the others
stay. -/
structure Replaces (method changed : MethodDraft) (session later : Session) : Prop
    extends session.Swaps method changed later where
  slots : later.slots = session.slots
  stores : ∃ others, session.stores.Perm (method.stores ++ others) ∧
    later.stores.Perm (changed.stores ++ others)

theorem gives_replaces {method changed : MethodDraft}
    (current : session.currentMethod? = .ok (some method)) (slot : changed.slot = method.slot) :
    Gives (session.setMethod changed) fun later => session.Replaces method changed later := by
  have swaps := gives_swaps current changed
  obtain ⟨index, draft, rest, found, openMethods⟩ := currentMethod?_eq_some current
  obtain ⟨before, after, drafts, sets⟩ := exists_around (current?_eq_some found).2.1
  have replaced : (session.setDraft index (draft.setMethod changed)).drafts =
      before ++ draft.setMethod changed :: after := sets _
  rw [setMethod, modifyType, found] at swaps ⊢
  refine gives_ok.mpr ⟨swaps, ?_, ?_⟩
  · rw [slots, replaced, slots, drafts]
    simp [TypeDraft.slots, TypeDraft.signatures, TypeDraft.setMethod, openMethods,
      MethodDraft.signature, slot]
  · refine ⟨before.flatMap (·.stores) ++ draft.bodies.flatMap (·.stores) ++
      rest.flatMap (·.stores) ++ after.flatMap (·.stores), ?_, ?_⟩
    all_goals
      refine perm_iff_count.mpr fun store => ?_
      simp only [stores, replaced, drafts]
      simp only [TypeDraft.stores, TypeDraft.setMethod, openMethods, tail_cons, flatMap_append,
        flatMap_cons, count_append]
      omega

namespace Replaces

variable {method changed : MethodDraft} (replaces : session.Replaces method changed later)

include replaces

theorem isOpen : method ∈ session.openMethods := by
  obtain ⟨others, before, -⟩ := replaces.openMethods
  exact before.mem_iff.mpr mem_cons_self

/-- A method that is open afterwards is the changed one, or it was open before and is another
one. -/
theorem eq_or_mem (distinct : session.slots.Nodup) {found : MethodDraft}
    (foundOpen : found ∈ later.openMethods) : found = changed ∨ found ∈ session.openMethods ∧
      found.slot ≠ method.slot := by
  obtain ⟨others, before, after⟩ := replaces.openMethods
  rcases mem_cons.mp (after.mem_iff.mp foundOpen) with rfl | inOthers
  · exact .inl rfl
  · refine .inr ⟨before.mem_iff.mpr (mem_cons_of_mem _ inOthers), fun same => ?_⟩
    have slots := nodup_openMethods distinct
    rw [(before.map _).nodup_iff, map_cons] at slots
    exact (nodup_cons.mp slots).1 (same ▸ mem_map_of_mem inOthers)

variable (evolves : method.Evolves extra changed)

include evolves

theorem count_le (stored : Stored) :
    later.stores.count (method.slot, stored) ≤ extra.count stored + session.stores.count
    (method.slot, stored) := by
  obtain ⟨others, before, after⟩ := replaces.stores
  have more := evolves.stores.count_le stored
  rw [count_append] at more
  rw [before.count_eq, after.count_eq, count_append, count_append, MethodDraft.count_stores,
    MethodDraft.count_stores, evolves.slot, if_pos rfl, if_pos rfl]
  omega

theorem count_eq_of_ne {slot : MethodSlot} (other : slot ≠ method.slot) (stored : Stored) :
    later.stores.count (slot, stored) = session.stores.count (slot, stored) := by
  obtain ⟨others, before, after⟩ := replaces.stores
  rw [before.count_eq, after.count_eq, count_append, count_append, MethodDraft.count_stores,
    MethodDraft.count_stores, evolves.slot, if_neg other, if_neg other]

theorem storesTo_le (stored : Stored) :
    storesTo stored later.stores ≤ storesTo stored session.stores + extra.count stored := by
  obtain ⟨others, before, after⟩ := replaces.stores
  have more := evolves.stores.count_le stored
  rw [count_append] at more
  have sum (own : MethodDraft) : storesTo stored (own.stores ++ others) =
      (storesIn own.code).count stored + storesTo stored others := by
    rw [storesTo, countP_append, ← storesTo, ← storesTo, MethodDraft.storesTo_stores]
  have whole : storesTo stored session.stores = storesTo stored (method.stores ++ others) :=
    before.countP_eq _
  have wholeLater : storesTo stored later.stores = storesTo stored (changed.stores ++ others) :=
    after.countP_eq _
  rw [whole, wholeLater, sum, sum]
  omega

/-- Emission to the current method keeps the ledger if the method evolves. -/
theorem keeps : session.Keeps extra later := by
  refine ⟨by rw [replaces.slots], fun distinct finals ref quota ledger => ?_⟩
  rw [replaces.slots] at distinct
  refine ⟨fun found foundOpen index limits => ?_, fun final here => ?_,
    fun final here found foundOpen same => ?_, fun final here => ?_, ?_⟩
  · rcases replaces.eq_or_mem distinct foundOpen with rfl | ⟨wasOpen, other⟩
    · obtain ⟨limitsBefore, room⟩ := evolves.spent index limits
      have spent := ledger.limited method replaces.isOpen index limitsBefore
      rw [evolves.slot]
      exact (replaces.count_le evolves _).trans (by omega)
    · rw [replaces.count_eq_of_ne evolves other]
      exact ledger.limited found wasOpen index limits
  · rw [replaces.slots]
    exact ledger.known final here
  · rcases replaces.eq_or_mem distinct foundOpen with rfl | ⟨wasOpen, -⟩
    · exact evolves.final _ (ledger.final final here method replaces.isOpen
        (evolves.slot.symm.trans same))
    · exact ledger.final final here found wasOpen same
  · by_cases same : final.1 = method.slot
    · -- The final is one of this method: its store is booked only if there was none.
      have isFinal := ledger.final final here method replaces.isOpen same.symm
      obtain ⟨-, room⟩ := evolves.spent final.2 (evolves.final _ isFinal).limits
      have spent := ledger.limited method replaces.isOpen final.2 isFinal.limits
      have one := changed.spent_le_one final.2
      rw [same]
      exact (replaces.count_le evolves _).trans (by omega)
    · rw [replaces.count_eq_of_ne evolves same]
      exact ledger.once final here
  · exact (replaces.storesTo_le evolves _).trans (Nat.add_le_add_right ledger.field _)

end Replaces

end Session

end OnePass
