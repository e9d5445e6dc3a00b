import Mathlib
import OnePass.Proofs.ModuleImage

/-! # Files that say where they end

Both file formats are self-delimiting: no file is the beginning of another one, and a reader can
tell a file that was cut off from one that goes on too long.

* **`Reader.Progressive reader`** — the reader goes through the bytes from the front and looks no
  further than it has to: in a front part of bytes that hold a value it finds the same value, or it
  runs out of bytes. One law for each combinator; sequences of progressive readers are progressive.
* A progressive reader that undoes a writer runs out of bytes in every file that is cut short
  (`Reader.run_of_cut`), and every such reader reports what is left behind the value
  (`Reader.run_of_extended`).

The main statement is `cut_and_extended_files`, about token files and module files alike. -/

namespace OnePass

namespace Reader

variable {α β : Type} {reader : Reader α}

/-! ## Reading from the front -/

/-- In a front part of bytes that hold a value, the reader finds this value or runs out of bytes. -/
def Progressive (reader : Reader α) : Prop :=
  ∀ front back rest a, reader (front ++ back) = (.ok a, rest) →
    (∃ left, reader front = (.ok a, left) ∧ left ++ back = rest) ∨
      ∃ left, reader front = (.error .unexpectedEnd, left)

theorem progressive_pure (a : α) : (pure a : Reader α).Progressive := by
  intro front back rest b found
  obtain ⟨rfl, rfl⟩ := pure_eq_ok.1 found
  exact .inl ⟨front, rfl, rfl⟩

theorem progressive_fail (error : FormatError) : (fail error : Reader α).Progressive :=
  fun _ _ _ _ found => absurd found fail_ne_ok

/-- One reader after the other: the second goes on where the first has stopped. -/
theorem Progressive.bind {first : Reader α} {next : α → Reader β} (head : first.Progressive)
    (tail : ∀ a, (next a).Progressive) : (first >>= next).Progressive := by
  intro front back rest b found
  obtain ⟨a, mid, read, others⟩ := bind_eq_ok.1 found
  obtain ⟨left, here, rfl⟩ | ⟨left, ended⟩ := head front back mid a read
  · have step : (first >>= next) front = next a left := by simp only [Bind.bind, here]
    rw [step]
    exact tail a left back rest b others
  · exact .inr ⟨left, by simp only [Bind.bind, ended]⟩

theorem progressive_ite {condition : Prop} [Decidable condition] {yes no : Reader α}
    (here : yes.Progressive) (there : no.Progressive) :
    (if condition then yes else no).Progressive := by
  split
  · exact here
  · exact there

theorem progressive_ofOption (error : FormatError) (found : Option α) :
    (ofOption error found).Progressive := by
  cases found with
  | none => exact progressive_fail error
  | some a => exact progressive_pure a

theorem progressive_byte : byte.Progressive := by
  intro front back rest value found
  cases front with
  | nil => exact .inr ⟨[], rfl⟩
  | cons first front =>
    obtain ⟨rfl, rfl⟩ : first = value ∧ front ++ back = rest := by simpa [byte] using found
    exact .inl ⟨front, rfl, rfl⟩

theorem progressive_take (count : Nat) : (take count).Progressive := by
  intro front back rest value found
  obtain ⟨size, split⟩ := take_eq_ok.1 found
  by_cases enough : count ≤ front.length
  · have inside : value <+: front :=
      List.prefix_of_prefix_length_le ⟨rest, split⟩ (List.prefix_append front back) (size ▸ enough)
    obtain ⟨left, rfl⟩ := inside
    refine .inl ⟨left, take_eq_ok.2 ⟨size, rfl⟩, ?_⟩
    simpa [eq_comm] using split
  · exact .inr ⟨front, by simp only [take, enough, if_false]⟩

/-! ## The parts of both formats -/

theorem progressive_number (width : Nat) : (number width).Progressive :=
  (progressive_take width).bind fun _ => progressive_pure _

theorem progressive_u16 : u16.Progressive :=
  (progressive_number 2).bind fun _ => progressive_pure _

theorem progressive_u32 : u32.Progressive :=
  (progressive_number 4).bind fun _ => progressive_pure _

theorem progressive_u64 : u64.Progressive :=
  (progressive_number 8).bind fun _ => progressive_pure _

theorem progressive_bool : bool.Progressive :=
  progressive_byte.bind fun _ => progressive_ite (progressive_pure _)
    (progressive_ite (progressive_pure _) (progressive_fail _))

theorem progressive_string : string.Progressive :=
  (progressive_number 4).bind fun _ => (progressive_take _).bind fun _ => progressive_ofOption _ _

theorem progressive_tagged (field : String) (ofByte? : UInt8 → Option α) :
    (tagged field ofByte?).Progressive :=
  progressive_byte.bind fun _ => progressive_ofOption _ _

theorem progressive_flags (known : UInt8) : (flags known).Progressive :=
  progressive_byte.bind fun _ => progressive_ite (progressive_pure _) (progressive_fail _)

theorem progressive_replicate (each : reader.Progressive) (count : Nat) :
    (replicate reader count).Progressive := by
  induction count with
  | zero => exact progressive_pure []
  | succ count ih => exact each.bind fun _ => ih.bind fun _ => progressive_pure _

theorem progressive_counted (each : reader.Progressive) :
    (counted reader).Progressive :=
  (progressive_number 4).bind fun count => progressive_replicate each count

theorem progressive_optional (each : reader.Progressive) :
    (optional reader).Progressive :=
  progressive_bool.bind fun _ =>
    progressive_ite (each.bind fun _ => progressive_pure _) (progressive_pure _)

theorem progressive_magic (expected : List UInt8) : (magic expected).Progressive :=
  (progressive_take _).bind fun _ => progressive_ite (progressive_pure _) (progressive_fail _)

theorem progressive_version (expected : UInt16) : (version expected).Progressive :=
  progressive_u16.bind fun _ => progressive_ite (progressive_pure _) (progressive_fail _)

/-- A stretch with its own length is cut out before it is read, whatever its reader does. -/
theorem progressive_framed (reader : Reader α) : (framed reader).Progressive := by
  refine (progressive_number 4).bind fun length => (progressive_take length).bind fun stretch => ?_
  split
  · exact progressive_pure _
  · exact progressive_fail _

theorem progressive_member : member.Progressive :=
  progressive_string.bind fun _ => (progressive_number 4).bind fun _ => progressive_pure _

theorem progressive_visibility : visibility.Progressive := progressive_tagged _ _

theorem progressive_typeNames : typeNames.Progressive := progressive_counted progressive_string

/-! ## Whole files -/

/-- A file that is cut short ends too early, and nothing else is wrong with it. -/
theorem run_of_cut {write : α → Written} (inverts : reader.Inverts write)
    (progressive : reader.Progressive) {a : α} {bytes front : List UInt8}
    (wrote : write a = .ok bytes) (cut : front <+: bytes) (shorter : front ≠ bytes) :
    reader.run front = .error .unexpectedEnd := by
  obtain ⟨back, rfl⟩ := cut
  have whole : reader (front ++ back) = (.ok a, []) :=
    (inverts a _ []).2 ⟨front ++ back, wrote, List.append_nil _⟩
  obtain ⟨left, -, empty⟩ | ⟨left, ended⟩ := progressive front back [] a whole
  · -- Nothing is left over, so nothing was cut off.
    have back_nil : back = [] := (List.append_eq_nil_iff.1 empty).2
    exact absurd (by rw [back_nil, List.append_nil]) shorter
  · simp only [run, Bind.bind, ended]

/-- Bytes after the end of a file are reported, and nothing else is. -/
theorem run_of_extended {write : α → Written} (inverts : reader.Inverts write)
    {a : α} {bytes extra : List UInt8} (wrote : write a = .ok bytes) (more : extra ≠ []) :
    reader.run (bytes ++ extra) = .error .trailingBytes := by
  have found : reader (bytes ++ extra) = (.ok a, extra) := (inverts a _ extra).2 ⟨bytes, wrote, rfl⟩
  have unread : extra.isEmpty = false := by simpa using more
  simp only [run, finish, Bind.bind, found, atEnd, unread]
  rfl

end Reader

open Reader

/-! ## Token files -/

theorem Literal.read_progressive : Literal.read.Progressive := by
  refine progressive_byte.bind fun tag => ?_
  split
  case h_1 => exact progressive_pure _
  case h_2 | h_7 => exact progressive_u32.bind fun _ => progressive_pure _
  case h_3 => exact progressive_string.bind fun _ => progressive_pure _
  case h_4 => exact (progressive_number 1).bind fun _ => progressive_pure _
  case h_5 => exact progressive_bool.bind fun _ => progressive_pure _
  case h_6 =>
    exact progressive_u32.bind fun _ => (progressive_ofOption _ _).bind fun _ => progressive_pure _
  case h_8 => exact progressive_u16.bind fun _ => progressive_pure _
  case h_9 | h_10 => exact progressive_u64.bind fun _ => progressive_pure _
  case h_11 => exact progressive_fail _

theorem Token.read_progressive : Token.read.Progressive := by
  refine progressive_byte.bind fun tag => ?_
  split
  case h_2 =>
    exact progressive_string.bind fun _ => (progressive_tagged _ _).bind fun _ =>
      (progressive_tagged _ _).bind fun _ => progressive_pure _
  case h_3 =>
    exact progressive_string.bind fun _ => progressive_string.bind fun _ =>
      (progressive_tagged _ _).bind fun _ => (progressive_tagged _ _).bind fun _ => progressive_pure _
  case h_4 =>
    exact progressive_string.bind fun _ => progressive_string.bind fun _ =>
      progressive_bool.bind fun _ => progressive_pure _
  case h_11 => exact (progressive_tagged _ _).bind fun _ => progressive_pure _
  case h_12 => exact Literal.read_progressive.bind fun _ => progressive_pure _
  case h_28 => exact (progressive_ofOption _ _).bind fun _ => progressive_pure _
  -- Tokens that are only a tag, those with a truth value and those with a text.
  case h_1 | h_10 | h_13 | h_18 | h_19 | h_20 | h_21 | h_22 => exact progressive_pure _
  case h_5 | h_6 | h_7 | h_9 | h_25 | h_26 | h_27 =>
    exact progressive_bool.bind fun _ => progressive_pure _
  all_goals exact progressive_string.bind fun _ => progressive_pure _

theorem TokenStream.reader_progressive : TokenStream.reader.Progressive :=
  (progressive_magic _).bind fun _ => (progressive_version _).bind fun _ =>
    (progressive_tagged _ _).bind fun _ => progressive_byte.bind fun _ =>
      (progressive_counted Token.read_progressive).bind fun _ => progressive_pure _

/-! ## Module files -/

theorem FieldImage.read_progressive : FieldImage.read.Progressive :=
  progressive_string.bind fun _ => progressive_string.bind fun _ => (progressive_flags _).bind fun _ =>
    progressive_visibility.bind fun _ => progressive_pure _

theorem MethodImage.read_progressive : MethodImage.read.Progressive :=
  progressive_string.bind fun _ => progressive_typeNames.bind fun _ =>
    progressive_string.bind fun _ => (progressive_flags _).bind fun _ =>
      progressive_visibility.bind fun _ => progressive_pure _

theorem CtorImage.read_progressive : CtorImage.read.Progressive :=
  progressive_typeNames.bind fun _ => progressive_visibility.bind fun _ => progressive_pure _

/-- A type is read to its last body; how a body is read does not matter, for it has a length. -/
theorem TypeImage.read_progressive : TypeImage.read.Progressive :=
  progressive_string.bind fun _ => progressive_string.bind fun _ =>
    (progressive_tagged _ _).bind fun _ => progressive_visibility.bind fun _ =>
      (progressive_optional progressive_string).bind fun _ => progressive_typeNames.bind fun _ =>
        (progressive_counted FieldImage.read_progressive).bind fun _ =>
          (progressive_counted MethodImage.read_progressive).bind fun _ =>
            (progressive_counted CtorImage.read_progressive).bind fun _ =>
              (progressive_counted (progressive_framed _)).bind fun _ => progressive_pure _

theorem ModuleImage.noFlags_progressive : ModuleImage.noFlags.Progressive :=
  progressive_u16.bind fun _ => progressive_ite (progressive_pure _) (progressive_fail _)

theorem ModuleImage.reader_progressive : ModuleImage.reader.Progressive :=
  (progressive_magic _).bind fun _ => (progressive_version _).bind fun _ =>
    ModuleImage.noFlags_progressive.bind fun _ => (progressive_tagged _ _).bind fun _ =>
      (progressive_tagged _ _).bind fun _ => progressive_string.bind fun _ =>
        progressive_string.bind fun _ => (progressive_optional progressive_member).bind fun _ =>
          (progressive_counted TypeImage.read_progressive).bind fun _ => progressive_pure _

theorem CompiledModule.exists_image_of_write {compiled : CompiledModule} {written : Written}
    (wrote : compiled.write = .ok written) :
    ∃ image, compiled.image = .ok image ∧ image.write = written := by
  unfold CompiledModule.write at wrote
  cases found : compiled.image with
  | error fault => simp [found, bind, Except.bind] at wrote
  | ok image =>
    exact ⟨image, rfl, by simpa [found, bind, Except.bind, pure, Except.pure] using wrote⟩

/-- **Both file formats are self-delimiting.** A file of a token stream or of a module that is cut
short anywhere is refused because it ends too early; a file with anything after its end is refused
because of the bytes that are left. -/
theorem cut_and_extended_files :
    (∀ (stream : TokenStream) (bytes : List UInt8), stream.write = .ok bytes →
      (∀ front, front <+: bytes → front ≠ bytes → TokenStream.read front = .error .unexpectedEnd) ∧
      ∀ extra, extra ≠ [] → TokenStream.read (bytes ++ extra) = .error .trailingBytes) ∧
    ∀ (compiled : CompiledModule) (bytes : List UInt8), compiled.write = .ok (.ok bytes) →
      (∀ front, front <+: bytes → front ≠ bytes → ModuleImage.read front = .error .unexpectedEnd) ∧
      ∀ extra, extra ≠ [] → ModuleImage.read (bytes ++ extra) = .error .trailingBytes := by
  constructor
  · intro stream bytes wrote
    exact ⟨fun front cut shorter =>
        run_of_cut TokenStream.reader_inverts TokenStream.reader_progressive wrote cut shorter,
      fun extra more => run_of_extended TokenStream.reader_inverts wrote more⟩
  · intro compiled bytes wrote
    obtain ⟨image, -, written⟩ := compiled.exists_image_of_write wrote
    exact ⟨fun front cut shorter =>
        run_of_cut ModuleImage.reader_inverts ModuleImage.reader_progressive written cut shorter,
      fun extra more => run_of_extended ModuleImage.reader_inverts written more⟩

/-- A script that names one thing. -/
def TokenStream.oneName : TokenStream := ⟨.script, 0, [.literal "x", .newLine]⟩

/-- A file of each kind, cut by some bytes and with a byte too many. -/
theorem cut_and_extended_samples :
    (∃ bytes, TokenStream.oneName.write = .ok bytes ∧
      TokenStream.read (bytes.take 17) = .error .unexpectedEnd ∧
      TokenStream.read (bytes ++ [0]) = .error .trailingBytes) ∧
    ∃ bytes, CompiledModule.sample.write = .ok (.ok bytes) ∧
      ModuleImage.read (bytes.take 289) = .error .unexpectedEnd ∧
      ModuleImage.read (bytes ++ [0]) = .error .trailingBytes := by
  obtain ⟨streams, modules⟩ := cut_and_extended_files
  constructor
  · have wrote : TokenStream.oneName.write =
        .ok [0x54, 0x4B, 0x4E, 0x53, 1, 0, 4, 0, 2, 0, 0, 0, 7, 1, 0, 0, 0, 0x78, 0] := by decide +kernel
    obtain ⟨cut, extended⟩ := streams _ _ wrote
    exact ⟨_, wrote, cut _ (List.take_prefix 17 _) (by decide), extended [0] (by decide)⟩
  · -- The last byte of 290 is cut off.
    have size : CompiledModule.sample.write.toOption.bind (·.toOption.map List.length) = some 290 := by
      decide +kernel
    obtain ⟨bytes, wrote, long⟩ :
        ∃ bytes, CompiledModule.sample.write = .ok (.ok bytes) ∧ bytes.length = 290 := by
      match written : CompiledModule.sample.write with
      | .ok (.ok bytes) => exact ⟨bytes, rfl, by simpa [written, Except.toOption] using size⟩
      | .ok (.error _) => simp [written, Except.toOption] at size
      | .error _ => simp [written, Except.toOption] at size
    obtain ⟨cut, extended⟩ := modules _ bytes wrote
    refine ⟨bytes, wrote, cut _ (List.take_prefix 289 _) ?_, extended [0] (by decide)⟩
    intro same
    simpa [long] using congrArg List.length same

end OnePass
