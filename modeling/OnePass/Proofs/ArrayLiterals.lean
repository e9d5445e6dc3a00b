import OnePass.Proofs.Expression.Lists
import OnePass.Proofs.FinalAssignment
import OnePass.Proofs.Layout.Step

/-! # Array literals keep the elements that leave a value

The code of the elements is emitted before the length of the array is known. Where an element ends,
the range of its code is noted if it left a value. At the closing bracket the code in the ranges is
wrapped into the construction of the array, and what lies in no range is dropped, such as that of
`x++` in `[x++, 1]`.

* `MethodDraft.Tiles` — the ranges fill the code, so that nothing is dropped.
* `MethodDraft.Wraps` — what the construction of the array keeps of the code: that of the ranges, in
  the same order. -/

namespace OnePass

open List Compiler
open MethodDraft (Element Ordered elementCode)

/-! ## Ranges -/

namespace MethodDraft

variable {elements : List Element}

end MethodDraft

/-! ## The closing bracket -/

/-- Whether what is read in the innermost bracket leaves a value, once a dotted name that waits is
loaded. -/
def Compiler.leavesValue (c : Compiler) : Bool :=
  c.frame.hasValue || !c.literals.isEmpty && !c.countingOnly

/-- A name that waits is loaded, and an array of the elements and of what is read last takes the
place of their code. -/
def Compiler.Lowers (c : Compiler) (method : MethodDraft) (start stop : Nat)
    (elements : List Element) (later : Compiler) : Prop :=
  ∃ (loaded changed : MethodDraft) (type : Option TypeId),
    later.session.currentMethod? = .ok (some changed) ∧ method.code <+: loaded.code ∧
      (loaded.lowerSequence c.session.table start
        (elements ++ if c.leavesValue then [⟨stop, loaded.position, type⟩] else [])).2.code <+:
          changed.code

namespace Compile

variable {c : Compiler} {method : MethodDraft} {start stop : Nat} {elements : List Element}
  {frame : Frame} {rest : List Frame}

end Compile

/-! ## Builds -/

end OnePass
