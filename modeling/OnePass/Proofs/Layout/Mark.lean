import OnePass.Proofs.Layout.Step

/-! # The labels and branches of a method

A label or a branch that is read in a method leaves a `Mark` with the code that stood before it.
From the marks of a method one can tell what its draft has noted (`MethodDraft.Follows`) and what
becomes of its code when it is finished (`MethodBody.Lands`): each branch goes to the place at which
its label was first defined, and all other code stays. -/

namespace OnePass

open List Instruction

/-! ## Marks -/

/-- A label or a branch that was read in a method, and the code before it. -/
structure Mark where
  name : String
  isBranch : Bool
  front : List Instruction
  deriving DecidableEq

/-- The code of the method up to the label or with the branch. -/
def Mark.code (mark : Mark) : List Instruction :=
  if mark.isBranch then mark.front ++ [⟨.br, .target 0⟩] else mark.front

/-- What a token marks behind some code. -/
def Token.mark? : Token → List Instruction → Option Mark
  | .label name, front => some ⟨name, false, front⟩
  | .goto name, front => some ⟨name, true, front⟩
  | _, _ => none

/-- The number of instructions before the first definition of a label. -/
def place? (marks : List Mark) (name : String) : Option Nat :=
  (marks.find? fun mark => !mark.isBranch && mark.name == name).map (·.front.length)

/-- The problems of the branches whose label is never defined. -/
def lost (marks : List Mark) : List Problem :=
  (marks.filter fun mark => mark.isBranch && (place? marks mark.name).isNone).map fun mark =>
    .undefinedLabel mark.name

/-- The instruction without its target. -/
def Instruction.aimless : Instruction → Instruction
  | ⟨.br, .target _⟩ => ⟨.br, .target 0⟩
  | instruction => instruction

namespace Mark

variable {marks : List Mark} {mark : Mark}

theorem front_prefix_code (mark : Mark) : mark.front <+: mark.code := by
  unfold code
  split
  · exact prefix_append ..
  · exact prefix_refl _

theorem code_of_isBranch (isBranch : mark.isBranch = true) :
    mark.code = mark.front ++ [⟨.br, .target 0⟩] := if_pos isBranch

/-- A label that is defined stays where it is, and one that is not is defined by the next mark for
it. -/
theorem place?_append_singleton (name : String) : place? (marks ++ [mark]) name =
    (place? marks name).or (if mark.isBranch = false ∧
      mark.name = name then some mark.front.length else none) := by
  rw [place?, place?, find?_append]
  cases found : marks.find? fun mark => !mark.isBranch && mark.name == name with
  | some first => rfl
  | none =>
    by_cases defines : mark.isBranch = false ∧ mark.name = name
    · simp [defines]
    · simp [defines]

end Mark

/-! ## Drafts -/

namespace MethodDraft

variable {marks : List Mark} {method changed : MethodDraft}

/-- The draft has noted the marks of its method, whose code still stands. -/
structure Follows (marks : List Mark) (method : MethodDraft) : Prop where
  labels : ∀ name, method.labels.lookup name = (place? marks name).map UInt32.ofNat
  fixups : method.fixups = (marks.filter (·.isBranch)).map fun mark => ⟨mark.front.length, mark.name⟩
  ordered : marks.Pairwise fun mark other => mark.code <+: other.front
  stands : ∀ mark ∈ marks, mark.code <+: method.code

theorem IsNew.follows (isNew : method.IsNew) : method.Follows [] where
  labels name := by rw [isNew.labels]; rfl
  fixups := isNew.fixups
  ordered := .nil
  stands := List.forall_mem_nil _

theorem Follows.change (follows : method.Follows marks) (labels : changed.labels = method.labels)
    (fixups : changed.fixups = method.fixups)
    (stands : ∀ mark ∈ marks, mark.code <+: changed.code) : changed.Follows marks where
  labels := labels ▸ follows.labels
  fixups := fixups ▸ follows.fixups
  ordered := follows.ordered
  stands := stands

/-- What has been marked stands if it is among the code that stands. -/
theorem Follows.edits {g : Guard} (follows : method.Follows marks)
    (le : ∀ mark ∈ marks, mark.code.length ≤ g.keep) (edits : method.Edits g changed) :
    changed.Follows marks := by
  refine follows.change edits.labels edits.fixups fun mark here => ?_
  have inside : mark.code <+: method.code.take g.keep := prefix_take_iff.mpr
    ⟨follows.stands mark here, le mark here⟩
  rw [← edits.stands] at inside
  exact inside.trans (List.take_prefix ..)

/-- A label is noted where it is defined for the first time. -/
theorem Follows.label (follows : method.Follows marks) (name : String) :
    ((Token.label name).note method).Follows (marks ++ [⟨name, false, method.code⟩]) := by
  have same : ((Token.label name).note method).fixups = method.fixups ∧
      ((Token.label name).note method).code = method.code := by
    rw [Token.note]
    split <;> exact ⟨rfl, rfl⟩
  obtain ⟨fixups, code⟩ := same
  refine ⟨fun other => ?_, ?_, ?_, ?_⟩
  · rw [Mark.place?_append_singleton, Token.note]
    by_cases defined : (method.labels.lookup name).isSome = true
    · obtain ⟨place, known⟩ : ∃ place, place? marks name = some place := by
        simpa [follows.labels, Option.isSome_iff_exists] using defined
      rw [if_pos defined, follows.labels]
      by_cases isName : name = other
      · subst isName
        simp [known]
      · simp [isName]
    · have unknown : place? marks name = none := by simpa [follows.labels] using defined
      rw [if_neg defined]
      by_cases isName : other = name
      · subst isName
        simp [unknown, position]
      · simp [List.lookup_cons, beq_false_of_ne isName, Ne.symm isName, follows.labels]
  · rw [fixups, follows.fixups]
    simp
  · refine List.pairwise_append.mpr ⟨follows.ordered, List.pairwise_singleton ..,
      fun mark here other isLast => ?_⟩
    obtain rfl := List.mem_singleton.mp isLast
    exact follows.stands mark here
  · rw [code]
    exact List.forall_mem_append.mpr ⟨follows.stands,
      List.forall_mem_singleton.mpr (List.prefix_refl _)⟩

theorem Follows.branch (follows : method.Follows marks) (name : String) :
    (method.branch name).Follows (marks ++ [⟨name, true, method.code⟩]) := by
  refine ⟨fun other => ?_, ?_, ?_, ?_⟩
  · have same : (method.branch name).labels = method.labels := rfl
    rw [same, follows.labels, Mark.place?_append_singleton]
    simp
  · simp [MethodDraft.branch, MethodDraft.emit, MethodDraft.append, follows.fixups, position]
  · refine List.pairwise_append.mpr ⟨follows.ordered, List.pairwise_singleton ..,
      fun mark here other isLast => ?_⟩
    obtain rfl := List.mem_singleton.mp isLast
    exact follows.stands mark here
  · refine List.forall_mem_append.mpr ⟨fun mark here => ?_,
      List.forall_mem_singleton.mpr (List.prefix_refl _)⟩
    exact (follows.stands mark here).trans (List.prefix_append ..)

theorem Follows.mark {token : Token} {mark : Mark} (follows : method.Follows marks)
    (marked : token.mark? method.code = some mark) :
    (token.note method).Follows (marks ++ [mark]) := by
  cases token with
  | label name =>
    cases marked
    exact follows.label name
  | goto name =>
    cases marked
    exact follows.branch name
  | _ => cases marked

theorem Follows.getElem?_branch {mark : Mark} (follows : method.Follows marks) (here : mark ∈ marks)
    (isBranch : mark.isBranch = true) : method.code[mark.front.length]? = some ⟨.br, .target 0⟩ := by
  obtain ⟨rest, code⟩ := follows.stands mark here
  rw [← code, Mark.code_of_isBranch isBranch]
  simp

/-- The branches stand in the code, one after the other. -/
theorem Follows.tethered (follows : method.Follows marks) : method.Tethered method.position := by
  refine ⟨?_, fun fixup here => ?_⟩
  · rw [follows.fixups, pairwise_map, pairwise_filter]
    refine follows.ordered.imp fun {mark other} starts isBranch _ => ?_
    have le := starts.length_le
    rw [Mark.code_of_isBranch isBranch, length_append, length_singleton] at le
    exact le
  · rw [follows.fixups] at here
    obtain ⟨mark, inBranches, rfl⟩ := mem_map.mp here
    obtain ⟨inMarks, isBranch⟩ := mem_filter.mp inBranches
    have there := follows.getElem?_branch inMarks isBranch
    exact ⟨(List.getElem?_eq_some_iff.mp there).1, there⟩

end MethodDraft

/-! ## Bodies -/

/-- The branches of a finished method are tied to their labels: each goes to the place where its
label was first defined,
or nowhere if there is none. Up to the targets of branches, the code before each label and branch is
still the same, and of some code that the method had before, all other instructions are. -/
structure MethodBody.Lands (marks : List Mark) (before : List Instruction) (body : MethodBody) :
    Prop where
  branches : ∀ mark ∈ marks, mark.isBranch = true →
    body.code[mark.front.length]? = some ⟨.br,
      .target (UInt32.ofNat ((place? marks mark.name).getD 0))⟩
  fronts : ∀ mark ∈ marks, mark.front.map aimless <+: body.code.map aimless
  others : ∀ place instruction, before[place]? = some instruction →
    (∀ mark ∈ marks, mark.isBranch = true → mark.front.length ≠ place) →
      body.code[place]? = some instruction

namespace MethodDraft

variable {marks : List Mark} {mark : Mark} {method : MethodDraft}

theorem Follows.lacking_eq (follows : method.Follows marks) :
    lacking method.labels method.fixups = lost marks := by
  simp [lacking, lost, follows.fixups, follows.labels, filter_map, filter_filter, Function.comp_def,
    Bool.and_comm]

theorem Follows.code_of_branch (follows : method.Follows marks) (here : mark ∈ marks)
    (isBranch : mark.isBranch = true) :
    method.body.code[mark.front.length]? =
      some ⟨.br, .target (UInt32.ofNat ((place? marks mark.name).getD 0))⟩ := by
  have waits : ⟨mark.front.length, mark.name⟩ ∈ method.fixups := by
    rw [follows.fixups]
    exact mem_map.mpr ⟨mark, mem_filter.mpr ⟨here, isBranch⟩, rfl⟩
  have aims : aim method.labels method.fixups mark.front.length = method.labels.lookup mark.name :=
    aim_of_mem follows.tethered.ordered waits
  rw [getElem?_body_code, follows.getElem?_branch here isBranch, aims, follows.labels]
  cases place? marks mark.name <;> rfl

theorem Follows.code_of_other (follows : method.Follows marks) {place : Nat}
    (apart : ∀ mark ∈ marks, mark.isBranch = true → mark.front.length ≠ place) :
    method.body.code[place]? = method.code[place]? := by
  have free : ∀ fixup ∈ method.fixups, fixup.position ≠ place := by
    intro fixup here
    rw [follows.fixups] at here
    obtain ⟨mark, inBranches, rfl⟩ := mem_map.mp here
    obtain ⟨inMarks, isBranch⟩ := mem_filter.mp inBranches
    exact apart mark inMarks isBranch
  rw [getElem?_body_code, aim_eq_none free]
  exact Option.map_id'

/-- Up to the targets of branches, the body has the code of the draft. -/
theorem Follows.aimless_code (follows : method.Follows marks) :
    method.body.code.map aimless = method.code.map aimless := by
  refine ext_getElem? fun place => ?_
  rw [getElem?_map, getElem?_map]
  by_cases isBranch : ∃ mark ∈ marks, mark.isBranch = true ∧ mark.front.length = place
  · obtain ⟨mark, here, isBranch, rfl⟩ := isBranch
    rw [follows.code_of_branch here isBranch, follows.getElem?_branch here isBranch]
    rfl
  · rw [follows.code_of_other fun mark here branches same => isBranch ⟨mark, here, branches, same⟩]

theorem Follows.lands (follows : method.Follows marks) {before : List Instruction}
    (starts : before <+: method.code) : method.body.Lands marks before where
  branches mark here isBranch := follows.code_of_branch here isBranch
  fronts mark here := by
    rw [follows.aimless_code]
    exact (mark.front_prefix_code.trans (follows.stands mark here)).map _
  others place instruction inside apart := by
    rw [follows.code_of_other apart]
    obtain ⟨rest, code⟩ := starts
    rw [← code, getElem?_append_left (List.getElem?_eq_some_iff.mp inside).1, inside]

end MethodDraft

end OnePass
