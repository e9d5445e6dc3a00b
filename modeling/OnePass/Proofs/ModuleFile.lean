import Mathlib
import OnePass.Proofs.TokenFile
import OnePass.Module.File

/-! # Module files

The module file format, part by part: members, operands, instructions, bodies and types are read
back exactly from their own bytes, up to a whole module (`ModuleImage.reader_inverts`). The flags of
a member are packed into one byte, which the reader accepts exactly if no other bit is set.

A module can be written exactly when four bytes hold every length in it, the length of each body's
own bytes included (`ModuleImage.write_succeeds`).

The main statement is `ModuleImage.read_eq_ok_unique`: an image is read from its file and from no
other bytes. -/

namespace OnePass

open Written (splits_concat_cons splits_concat_nil sized_concat_cons sized_byte sized_concat_nil)

/-! ## Enumerations and flags -/

theorem OutputKind.ofByte?_eq_some_iff (byte : UInt8) (output : OutputKind) :
    OutputKind.ofByte? byte = some output ↔ byte = output.toByte :=
  getElem?_toNat_eq_some_iff rfl OutputKind.ofByte?_toByte byte output

theorem OpCode.ofByte?_eq_some_iff (byte : UInt8) (opcode : OpCode) :
    OpCode.ofByte? byte = some opcode ↔ byte = opcode.toByte :=
  getElem?_toNat_eq_some_iff rfl OpCode.ofByte?_toByte byte opcode

theorem two_flags_iff (bits : UInt8) (a b : Bool) :
    bits = packFlags [a, b] ↔
      bits &&& ~~~0x03 = 0 ∧ hasFlag bits 0 = a ∧ hasFlag bits 1 = b := by
  have all_bytes : ∀ n < 256, ∀ a b, UInt8.ofNat n = packFlags [a, b] ↔
      UInt8.ofNat n &&& ~~~0x03 = 0 ∧ hasFlag (UInt8.ofNat n) 0 = a ∧
        hasFlag (UInt8.ofNat n) 1 = b := by
    decide +kernel
  simpa using all_bytes bits.toNat bits.toNat_lt a b

theorem four_flags_iff (bits : UInt8) (a b c d : Bool) :
    bits = packFlags [a, b, c, d] ↔ bits &&& ~~~0x0F = 0 ∧ hasFlag bits 0 = a ∧
      hasFlag bits 1 = b ∧ hasFlag bits 2 = c ∧ hasFlag bits 3 = d := by
  have all_bytes : ∀ n < 256, ∀ a b c d, UInt8.ofNat n = packFlags [a, b, c, d] ↔
      UInt8.ofNat n &&& ~~~0x0F = 0 ∧ hasFlag (UInt8.ofNat n) 0 = a ∧
        hasFlag (UInt8.ofNat n) 1 = b ∧ hasFlag (UInt8.ofNat n) 2 = c ∧
        hasFlag (UInt8.ofNat n) 3 = d := by
    decide +kernel
  simpa using all_bytes bits.toNat bits.toNat_lt a b c d

namespace Reader

theorem flags_eq_ok {known bits : UInt8} {bytes rest : List UInt8} :
    flags known bytes = (.ok bits, rest) ↔
      bits &&& ~~~known = 0 ∧ byte bytes = (.ok bits, rest) := by
  simp only [flags, bind_eq_ok]
  constructor
  · rintro ⟨found, mid, read, same⟩
    split_ifs at same with clear
    · obtain ⟨rfl, rfl⟩ := pure_eq_ok.1 same
      exact ⟨by simpa using clear, read⟩
    · exact absurd same fail_ne_ok
  · rintro ⟨clear, read⟩
    exact ⟨bits, rest, read, by simp [clear, pure_eq_ok]⟩

theorem member_inverts : member.Inverts Written.member := by
  intro ref bytes rest
  simp only [member, bind_eq_ok, pure_eq_ok, Written.member, splits_concat_cons,
    splits_concat_nil, splits_string, splits_length]
  constructor
  · rintro ⟨owner, m₁, howner, index, m₂, hindex, rfl, rfl⟩
    exact ⟨m₁, howner, m₂, hindex, rfl⟩
  · rintro ⟨m₁, howner, m₂, hindex, rfl⟩
    exact ⟨_, m₁, howner, _, m₂, hindex, rfl, rfl⟩

theorem visibility_inverts : visibility.Inverts fun found => Written.byte found.toByte :=
  tagged_inverts Visibility.ofByte?_eq_some_iff

theorem typeName_inverts : string.Inverts Written.typeName := string_inverts "type reference"

theorem typeNames_inverts : typeNames.Inverts Written.typeNames :=
  counted_inverts typeName_inverts "type list"

end Reader

/-! ## Members -/

open Reader

theorem FieldImage.read_inverts : FieldImage.read.Inverts FieldImage.write := by
  intro field bytes rest
  simp only [FieldImage.read, FieldImage.write, bind_eq_ok, pure_eq_ok, flags_eq_ok,
    visibility_inverts _ _ _, splits_concat_cons, splits_concat_nil, splits_string,
    Written.typeName, splits_byte]
  constructor
  · rintro ⟨name, m₁, hname, type, m₂, htype, bits, m₃, ⟨clear, hbits⟩, visibility, m₄,
      hvisibility, rfl, rfl⟩
    refine ⟨m₁, hname, m₂, htype, m₃, ?_, m₄, hvisibility, rfl⟩
    -- No other bit is set, hence packing the two flags gives the byte that was read.
    rw [← (two_flags_iff bits _ _).2 ⟨clear, rfl, rfl⟩]
    exact hbits
  · rintro ⟨m₁, hname, m₂, htype, m₃, hbits, m₄, hvisibility, rfl⟩
    obtain ⟨clear, isStatic, isFinal⟩ := (two_flags_iff _ field.isStatic field.isFinal).1 rfl
    exact ⟨_, m₁, hname, _, m₂, htype, _, m₃, ⟨clear, hbits⟩, _, m₄, hvisibility,
      by rw [isStatic, isFinal], rfl⟩

theorem MethodImage.read_inverts : MethodImage.read.Inverts MethodImage.write := by
  intro method bytes rest
  simp only [MethodImage.read, MethodImage.write, bind_eq_ok, pure_eq_ok, flags_eq_ok,
    visibility_inverts _ _ _, typeNames_inverts _ _ _, splits_concat_cons,
    splits_concat_nil, splits_string, Written.typeName, splits_byte]
  constructor
  · rintro ⟨name, m₁, hname, params, m₂, hparams, result, m₃, hresult, bits, m₄, ⟨clear, hbits⟩,
      visibility, m₅, hvisibility, rfl, rfl⟩
    refine ⟨m₁, hname, m₂, hparams, m₃, hresult, m₄, ?_, m₅, hvisibility, rfl⟩
    rw [← (four_flags_iff bits _ _ _ _).2 ⟨clear, rfl, rfl, rfl, rfl⟩]
    exact hbits
  · rintro ⟨m₁, hname, m₂, hparams, m₃, hresult, m₄, hbits, m₅, hvisibility, rfl⟩
    obtain ⟨clear, isStatic, isVirtual, entryPoint, script⟩ :=
      (four_flags_iff _ method.isStatic method.isVirtual method.attrs.entryPoint
        method.attrs.script).1 rfl
    exact ⟨_, m₁, hname, _, m₂, hparams, _, m₃, hresult, _, m₄, ⟨clear, hbits⟩, _, m₅,
      hvisibility, by rw [isStatic, isVirtual, entryPoint, script], rfl⟩

theorem CtorImage.read_inverts : CtorImage.read.Inverts CtorImage.write := by
  intro ctor bytes rest
  simp only [CtorImage.read, CtorImage.write, bind_eq_ok, pure_eq_ok, visibility_inverts _ _ _,
    typeNames_inverts _ _ _, splits_concat_cons, splits_concat_nil]
  constructor
  · rintro ⟨params, m₁, hparams, visibility, m₂, hvisibility, rfl, rfl⟩
    exact ⟨m₁, hparams, m₂, hvisibility, rfl⟩
  · rintro ⟨m₁, hparams, m₂, hvisibility, rfl⟩
    exact ⟨_, m₁, hparams, _, m₂, hvisibility, rfl, rfl⟩

/-! ## Bodies -/

theorem SlotImage.read_inverts : SlotImage.read.Inverts SlotImage.write := by
  intro slot bytes rest
  simp only [SlotImage.read, bind_eq_ok]
  constructor
  · rintro ⟨tag, mid, htag, h⟩
    split at h
    case h_1 | h_2 =>
      simp only [bind_eq_ok, pure_eq_ok] at h
      obtain ⟨index, mid', hindex, rfl, rfl⟩ := h
      simp [SlotImage.write, splits_byte, splits_length, htag, hindex]
    case h_3 => exact absurd h fail_ne_ok
  · intro h
    cases slot
    all_goals
      simp only [SlotImage.write, splits_concat_cons, splits_concat_nil,
        splits_byte, splits_length] at h
      obtain ⟨mid, htag, mid', hindex, rfl⟩ := h
      exact ⟨_, mid, htag, bind_eq_ok.2 ⟨_, mid', hindex, rfl⟩⟩

theorem OperandImage.read_inverts : OperandImage.read.Inverts OperandImage.write := by
  intro operand bytes rest
  simp only [OperandImage.read, bind_eq_ok]
  constructor
  · rintro ⟨tag, mid, htag, h⟩
    split at h
    case h_1 =>
      obtain ⟨rfl, rfl⟩ := pure_eq_ok.1 h
      exact splits_byte.2 htag
    case h_14 => exact absurd h fail_ne_ok
    all_goals
      simp only [bind_eq_ok, pure_eq_ok, u16_inverts _ _ _, u32_inverts _ _ _, u64_inverts _ _ _,
        member_inverts _ _ _] at h
      obtain ⟨content, mid', split, rfl, rfl⟩ := h
      simp [OperandImage.write, Written.typeName, splits_byte, splits_string, htag, split]
  · intro h
    cases operand
    case none => exact ⟨0, rest, splits_byte.1 h, rfl⟩
    all_goals
      simp only [OperandImage.write, Written.typeName, splits_concat_cons,
        splits_concat_nil, splits_byte, splits_string] at h
      obtain ⟨mid, htag, mid', split, rfl⟩ := h
      refine ⟨_, mid, htag, ?_⟩
    case i4 value =>
      exact bind_eq_ok.2 ⟨value.toUInt32, mid', (u32_inverts _ _ _).2 split, by simp [pure_eq_ok]⟩
    case i8 value =>
      exact bind_eq_ok.2 ⟨value.toUInt64, mid', (u64_inverts _ _ _).2 split, by simp [pure_eq_ok]⟩
    case r4 | target => exact bind_eq_ok.2 ⟨_, mid', (u32_inverts _ _ _).2 split, rfl⟩
    case r8 => exact bind_eq_ok.2 ⟨_, mid', (u64_inverts _ _ _).2 split, rfl⟩
    case loc | arg => exact bind_eq_ok.2 ⟨_, mid', (u16_inverts _ _ _).2 split, rfl⟩
    case string | type => exact bind_eq_ok.2 ⟨_, mid', split, rfl⟩
    case field | method | ctor => exact bind_eq_ok.2 ⟨_, mid', (member_inverts _ _ _).2 split, rfl⟩

theorem InstructionImage.read_inverts :
    InstructionImage.read.Inverts InstructionImage.write := by
  intro instruction bytes rest
  simp only [InstructionImage.read, InstructionImage.write, bind_eq_ok, pure_eq_ok,
    tagged_inverts OpCode.ofByte?_eq_some_iff _ _ _, OperandImage.read_inverts _ _ _,
    splits_concat_cons, splits_concat_nil]
  constructor
  · rintro ⟨opcode, m₁, hopcode, operand, m₂, hoperand, rfl, rfl⟩
    exact ⟨m₁, hopcode, m₂, hoperand, rfl⟩
  · rintro ⟨m₁, hopcode, m₂, hoperand, rfl⟩
    exact ⟨_, m₁, hopcode, _, m₂, hoperand, rfl, rfl⟩

theorem BodyImage.read_inverts : BodyImage.read.Inverts BodyImage.write := by
  intro body bytes rest
  simp only [BodyImage.read, BodyImage.write, bind_eq_ok, pure_eq_ok, SlotImage.read_inverts _ _ _,
    typeNames_inverts _ _ _, counted_inverts InstructionImage.read_inverts "instructions" _ _ _,
    splits_concat_cons, splits_concat_nil]
  constructor
  · rintro ⟨slot, m₁, hslot, locals, m₂, hlocals, code, m₃, hcode, rfl, rfl⟩
    exact ⟨m₁, hslot, m₂, hlocals, m₃, hcode, rfl⟩
  · rintro ⟨m₁, hslot, m₂, hlocals, m₃, hcode, rfl⟩
    exact ⟨_, m₁, hslot, _, m₂, hlocals, _, m₃, hcode, rfl, rfl⟩

theorem BodyImage.framed_inverts : (framed BodyImage.read).Inverts BodyImage.writeFramed := by
  intro body bytes rest
  rw [framed_eq_ok BodyImage.read_inverts "body", BodyImage.writeFramed]
  -- A body that cannot be written has no frame either.
  cases body.write with
  | error error => simp [bind, Except.bind]
  | ok written => simp [bind, Except.bind]

/-! ## Types and modules -/

theorem TypeImage.read_inverts : TypeImage.read.Inverts TypeImage.write := by
  intro type bytes rest
  simp only [TypeImage.read, TypeImage.write, bind_eq_ok, pure_eq_ok,
    tagged_inverts ClassKind.ofByte?_eq_some_iff _ _ _, visibility_inverts _ _ _,
    optional_inverts typeName_inverts _ _ _, typeNames,
    counted_inverts typeName_inverts "interfaces" _ _ _,
    counted_inverts FieldImage.read_inverts "fields" _ _ _,
    counted_inverts MethodImage.read_inverts "methods" _ _ _,
    counted_inverts CtorImage.read_inverts "constructors" _ _ _,
    counted_inverts BodyImage.framed_inverts "bodies" _ _ _,
    splits_concat_cons, splits_concat_nil, splits_string]
  constructor
  · rintro ⟨name, m₁, hname, space, m₂, hspace, kind, m₃, hkind, visibility, m₄, hvisibility, base,
      m₅, hbase, interfaces, m₆, hinterfaces, fields, m₇, hfields, methods, m₈, hmethods, ctors,
      m₉, hctors, bodies, m₁₀, hbodies, rfl, rfl⟩
    exact ⟨m₁, hname, m₂, hspace, m₃, hkind, m₄, hvisibility, m₅, hbase, m₆, hinterfaces, m₇,
      hfields, m₈, hmethods, m₉, hctors, m₁₀, hbodies, rfl⟩
  · rintro ⟨m₁, hname, m₂, hspace, m₃, hkind, m₄, hvisibility, m₅, hbase, m₆, hinterfaces, m₇,
      hfields, m₈, hmethods, m₉, hctors, m₁₀, hbodies, rfl⟩
    exact ⟨_, m₁, hname, _, m₂, hspace, _, m₃, hkind, _, m₄, hvisibility, _, m₅, hbase, _, m₆,
      hinterfaces, _, m₇, hfields, _, m₈, hmethods, _, m₉, hctors, _, m₁₀, hbodies, rfl, rfl⟩

theorem ModuleImage.noFlags_eq_ok {done : Unit} {bytes rest : List UInt8} :
    ModuleImage.noFlags bytes = (.ok done, rest) ↔ (Written.number 2 0).Splits bytes rest := by
  simp only [ModuleImage.noFlags, bind_eq_ok, u16_inverts _ _ _]
  constructor
  · rintro ⟨flags, mid, split, none_set⟩
    split_ifs at none_set with zero
    · obtain ⟨-, rfl⟩ := pure_eq_ok.1 none_set
      rw [beq_iff_eq] at zero
      simpa [zero] using split
    · exact absurd none_set fail_ne_ok
  · intro split
    exact ⟨0, rest, split, by simp [pure_eq_ok]⟩

theorem ModuleImage.reader_inverts : ModuleImage.reader.Inverts ModuleImage.write := by
  intro image bytes rest
  simp only [ModuleImage.reader, ModuleImage.write, bind_eq_ok, pure_eq_ok, magic_eq_ok,
    version_eq_ok, ModuleImage.noFlags_eq_ok, tagged_inverts Header.ofByte?_eq_some_iff _ _ _,
    tagged_inverts OutputKind.ofByte?_eq_some_iff _ _ _, optional_inverts member_inverts _ _ _,
    counted_inverts TypeImage.read_inverts "types" _ _ _, splits_concat_cons,
    splits_concat_nil, splits_string]
  constructor
  · rintro ⟨_, m₁, hmagic, _, m₂, hversion, _, m₃, hflags, header, m₄, hheader, output, m₅,
      houtput, name, m₆, hname, version, m₇, hversion', entryPoint, m₈, hentry, types, m₉, htypes,
      rfl, rfl⟩
    exact ⟨m₁, hmagic, m₂, hversion, m₃, hflags, m₄, hheader, m₅, houtput, m₆, hname, m₇,
      hversion', m₈, hentry, m₉, htypes, rfl⟩
  · rintro ⟨m₁, hmagic, m₂, hversion, m₃, hflags, m₄, hheader, m₅, houtput, m₆, hname, m₇,
      hversion', m₈, hentry, m₉, htypes, rfl⟩
    exact ⟨(), m₁, hmagic, (), m₂, hversion, (), m₃, hflags, _, m₄, hheader, _, m₅, houtput, _, m₆,
      hname, _, m₇, hversion', _, m₈, hentry, _, m₉, htypes, rfl, rfl⟩

/-! ## Sizes

The lengths, counts and positions of a module that its file keeps in four bytes. -/

/-- The lengths in a counted list of names. -/
def nameLengths (names : List String) : List Nat := names.length :: names.map (·.utf8ByteSize)

/-- The lengths and positions in a member. -/
def MemberImage.lengths (ref : MemberImage) : List Nat := [ref.owner.utf8ByteSize, ref.index]

/-- The lengths in a field. -/
def FieldImage.lengths (field : FieldImage) : List Nat :=
  [field.name.utf8ByteSize, field.type.utf8ByteSize]

/-- The lengths in a method. -/
def MethodImage.lengths (method : MethodImage) : List Nat :=
  method.name.utf8ByteSize :: method.result.utf8ByteSize :: nameLengths method.params

/-- The position in a slot. -/
def SlotImage.index : SlotImage → Nat
  | method index | ctor index => index

/-- The lengths and positions in an operand. -/
def OperandImage.lengths : OperandImage → List Nat
  | string text | type text => [text.utf8ByteSize]
  | field ref | method ref | ctor ref => ref.lengths
  | _ => []

/-- The number of bytes of an operand. -/
def OperandImage.size : OperandImage → Nat
  | none => 1
  | i4 _ | r4 _ | target _ => 5
  | i8 _ | r8 _ => 9
  | loc _ | arg _ => 3
  | string text | type text => 5 + text.utf8ByteSize
  | field ref | method ref | ctor ref => 9 + ref.owner.utf8ByteSize

/-- The number of bytes of a body. -/
def BodyImage.size (body : BodyImage) : Nat :=
  13 + (body.locals.map (4 + ·.utf8ByteSize)).sum + (body.code.map (1 + ·.operand.size)).sum

/-- The lengths and positions in a body, apart from its own length. -/
def BodyImage.lengths (body : BodyImage) : List Nat :=
  body.slot.index :: nameLengths body.locals ++ body.code.length :: body.code.flatMap
    (·.operand.lengths)

/-- The lengths and positions in a type, apart from the lengths of its bodies. -/
def TypeImage.lengths (type : TypeImage) : List Nat :=
  [type.name.utf8ByteSize, type.space.utf8ByteSize] ++ type.base.toList.map (·.utf8ByteSize) ++
    nameLengths type.interfaces ++ type.fields.length :: type.fields.flatMap (·.lengths) ++
    type.methods.length :: type.methods.flatMap (·.lengths) ++
    type.ctors.length :: type.ctors.flatMap (nameLengths ·.params) ++
    type.bodies.length :: type.bodies.flatMap (·.lengths)

/-- The lengths and positions in a module, apart from the lengths of its bodies. -/
def ModuleImage.lengths (image : ModuleImage) : List Nat :=
  [image.name.utf8ByteSize, image.version.utf8ByteSize] ++ image.entryPoint.toList.flatMap
    (·.lengths) ++ image.types.length :: image.types.flatMap (·.lengths)

/-- The lengths of the bodies of a module. -/
def ModuleImage.bodySizes (image : ModuleImage) : List Nat :=
  image.types.flatMap (·.bodies.map (·.size))

/-- Four bytes hold every length, count and position. -/
def ModuleImage.Fits (image : ModuleImage) : Prop :=
  Written.Short image.lengths ∧ Written.Short image.bodySizes

instance (numbers : List Nat) : Decidable (Written.Short numbers) :=
  inferInstanceAs (Decidable (∀ n ∈ numbers, n < 2 ^ 32))

instance (image : ModuleImage) : Decidable image.Fits := inferInstanceAs (Decidable (_ ∧ _))

theorem Written.succeeds_typeNames {names : List String} :
    (Written.typeNames names).Succeeds ↔ Short (nameLengths names) := by
  simp [typeNames, typeName, nameLengths]

theorem Written.succeeds_member {ref : MemberImage} :
    (Written.member ref).Succeeds ↔ Short ref.lengths := by
  simp [member, MemberImage.lengths]

theorem FieldImage.write_succeeds {field : FieldImage} :
    field.write.Succeeds ↔ Written.Short field.lengths := by
  simp [FieldImage.write, Written.typeName, FieldImage.lengths]

theorem MethodImage.write_succeeds {method : MethodImage} :
    method.write.Succeeds ↔ Written.Short method.lengths := by
  simp only [MethodImage.write, Written.typeName, MethodImage.lengths, Written.succeeds_concat,
    List.forall_mem_cons, Written.succeeds_string, Written.succeeds_typeNames, Written.short_cons]
  simp only [Written.succeeds_byte, List.not_mem_nil, false_implies, implies_true, and_true]
  tauto

theorem OperandImage.write_succeeds {operand : OperandImage} :
    operand.write.Succeeds ↔ Written.Short operand.lengths := by
  cases operand <;>
    simp [OperandImage.write, Written.typeName, OperandImage.lengths, Written.succeeds_member]

theorem Written.sized_member {ref : MemberImage} :
    (Written.member ref).Sized (8 + ref.owner.utf8ByteSize) := by
  have owner : (Written.string "type reference" ref.owner).Sized _ := sized_string
  have index : (Written.length "member index" ref.index).Sized _ := sized_length
  have parts := sized_concat_cons owner (sized_concat_cons index sized_concat_nil)
  exact parts.of_eq (by omega)

theorem OperandImage.write_sized (operand : OperandImage) : operand.write.Sized operand.size := by
  have tagged {tag : UInt8} {value : Written} {n : Nat} (value_sized : value.Sized n) :
      (Written.concat [.byte tag, value]).Sized (1 + n) :=
    sized_concat_cons sized_byte
      (sized_concat_cons value_sized sized_concat_nil)
  cases operand with
  | none => exact sized_byte
  | i4 | i8 | r4 | r8 | loc | arg | target => exact tagged Written.sized_number
  | string text | type text =>
    exact (tagged Written.sized_string).of_eq (by simp only [size]; omega)
  | field ref | method ref | ctor ref =>
    exact (tagged Written.sized_member).of_eq (by simp only [size]; omega)

theorem SlotImage.write_sized (slot : SlotImage) : slot.write.Sized 5 := by
  cases slot with
  | method index | ctor index =>
    exact sized_concat_cons sized_byte
      (sized_concat_cons Written.sized_length sized_concat_nil)

theorem InstructionImage.write_sized (instruction : InstructionImage) :
    instruction.write.Sized (1 + instruction.operand.size) :=
  sized_concat_cons sized_byte
    (sized_concat_cons instruction.operand.write_sized sized_concat_nil)

theorem BodyImage.write_sized (body : BodyImage) : body.write.Sized body.size := by
  have locals : (Written.typeNames body.locals).Sized _ :=
    Written.sized_counted (fun _ => Written.sized_string) body.locals
  have code : (Written.counted "instructions" InstructionImage.write body.code).Sized _ :=
    Written.sized_counted InstructionImage.write_sized body.code
  have parts := sized_concat_cons body.slot.write_sized
    (sized_concat_cons locals (sized_concat_cons code sized_concat_nil))
  exact parts.of_eq (by simp only [size]; omega)

theorem BodyImage.write_succeeds {body : BodyImage} :
    body.write.Succeeds ↔ body.slot.index < 2 ^ 32 ∧ Written.Short (nameLengths body.locals) ∧
      body.code.length < 2 ^ 32 ∧ ∀ i ∈ body.code, Written.Short i.operand.lengths := by
  have slot : body.slot.write.Succeeds ↔ body.slot.index < 2 ^ 32 := by
    cases body.slot <;> simp [SlotImage.write, SlotImage.index]
  simp [BodyImage.write, slot, Written.succeeds_typeNames, InstructionImage.write,
    OperandImage.write_succeeds]

/-- A body can be written with its length exactly when four bytes hold every length in it, its own
included. -/
theorem BodyImage.writeFramed_succeeds {body : BodyImage} :
    body.writeFramed.Succeeds ↔ Written.Short body.lengths ∧ body.size < 2 ^ 32 := by
  have framed : body.writeFramed.Succeeds ↔ body.size < 2 ^ 32 ∧ body.write.Succeeds := by
    cases wrote : body.write with
    | error error => simp [BodyImage.writeFramed, wrote, bind, Except.bind, Written.Succeeds]
    | ok bytes =>
      -- The length in front of a body is that of its bytes, which is known beforehand.
      rw [← body.write_sized bytes wrote]
      simp [BodyImage.writeFramed, wrote, bind, Except.bind]
  rw [framed, BodyImage.write_succeeds, and_comm]
  simp [BodyImage.lengths]

theorem TypeImage.write_succeeds {type : TypeImage} :
    type.write.Succeeds ↔ Written.Short type.lengths ∧ ∀ body ∈ type.bodies, body.size < 2 ^ 32 := by
  simp [TypeImage.write, TypeImage.lengths, CtorImage.write, Written.typeName, nameLengths,
    Written.succeeds_typeNames, FieldImage.write_succeeds, MethodImage.write_succeeds,
    BodyImage.writeFramed_succeeds, and_assoc, forall_and]

theorem ModuleImage.write_succeeds {image : ModuleImage} : image.write.Succeeds ↔ image.Fits := by
  simp [ModuleImage.write, ModuleImage.Fits, ModuleImage.lengths, ModuleImage.bodySizes,
    Written.succeeds_member, TypeImage.write_succeeds, forall_and, and_assoc]

/-- **An image has one file.** Some bytes are read as an image exactly if four bytes hold every
length, count and position of it; these are the bytes that are written for it, every flag, tag,
truth value, length and count in them included, and no other bytes are read as this image. -/
theorem ModuleImage.read_eq_ok_unique (image : ModuleImage) :
    (image.Fits ↔ ∃ bytes, ModuleImage.read bytes = .ok image) ∧
      (∀ bytes, ModuleImage.read bytes = .ok image ↔ image.write = .ok bytes) ∧
      {bytes | ModuleImage.read bytes = .ok image}.Subsingleton := by
  have exact_file : ∀ bytes, ModuleImage.read bytes = .ok image ↔ image.write = .ok bytes :=
    fun bytes => Reader.run_eq_ok ModuleImage.reader_inverts
  refine ⟨?_, exact_file, ?_⟩
  · rw [← ModuleImage.write_succeeds]
    exact exists_congr fun bytes => (exact_file bytes).symm
  · intro bytes read other read_other
    rw [Set.mem_ofPred_eq, exact_file] at read read_other
    exact Except.ok.inj (read.symm.trans read_other)

end OnePass
