import Mathlib
import OnePass.Proofs.Codec
import OnePass.Token.File

/-! # Token files

Every token and literal is read back exactly from its own bytes (`Token.read_inverts`), and so is a
whole stream (`TokenStream.reader_inverts`). A stream has a file where its number of tokens and its
texts can be measured in four bytes (`TokenStream.Fits`).

The main statement is `TokenStream.read_eq_ok_iff_write_eq_ok`: a stream is read from its file and
from no other bytes. -/

namespace OnePass

open Written (splits_concat_cons splits_concat_nil)

/-! ## Enumerations -/

/-- A list of values in the order of their bytes has each value at its byte and nowhere else. -/
theorem getElem?_toNat_eq_some_iff {α : Type} {all : List α} {toByte : α → UInt8}
    (order : all.map (fun a => (toByte a).toNat) = List.range all.length)
    (complete : ∀ a, all[(toByte a).toNat]? = some a) (byte : UInt8) (a : α) :
    all[byte.toNat]? = some a ↔ byte = toByte a := by
  constructor
  · intro found
    have place : (List.range all.length)[byte.toNat]? = some (toByte a).toNat := by
      rw [← order, List.getElem?_map, found]
      rfl
    rw [List.getElem?_range (List.getElem?_eq_some_iff.1 found).1] at place
    exact UInt8.toNat_inj.1 (Option.some.inj place)
  · rintro rfl
    exact complete a

theorem Header.ofByte?_eq_some_iff (byte : UInt8) (header : Header) :
    Header.ofByte? byte = some header ↔ byte = header.toByte :=
  getElem?_toNat_eq_some_iff rfl Header.ofByte?_toByte byte header

theorem ClassKind.ofByte?_eq_some_iff (byte : UInt8) (kind : ClassKind) :
    ClassKind.ofByte? byte = some kind ↔ byte = kind.toByte :=
  getElem?_toNat_eq_some_iff rfl ClassKind.ofByte?_toByte byte kind

theorem Visibility.ofByte?_eq_some_iff (byte : UInt8) (visibility : Visibility) :
    Visibility.ofByte? byte = some visibility ↔ byte = visibility.toByte :=
  getElem?_toNat_eq_some_iff rfl Visibility.ofByte?_toByte byte visibility

theorem FuncKind.ofByte?_eq_some_iff (byte : UInt8) (kind : FuncKind) :
    FuncKind.ofByte? byte = some kind ↔ byte = kind.toByte :=
  getElem?_toNat_eq_some_iff rfl FuncKind.ofByte?_toByte byte kind

theorem Operator.ofByte?_eq_some_iff (byte : UInt8) (op : Operator) :
    Operator.ofByte? byte = some op ↔ byte = op.toByte :=
  getElem?_toNat_eq_some_iff rfl Operator.ofByte?_toByte byte op

/-! ## Literals -/

theorem charOfScalar?_eq_some_iff {scalar : UInt32} {c : Char} :
    charOfScalar? scalar = some c ↔ scalar = c.val := by
  unfold charOfScalar?
  split
  · simp [Char.ext_iff]
  · next invalid =>
    simp only [reduceCtorEq, false_iff]
    rintro rfl
    exact invalid c.valid

open Reader in
theorem Literal.read_inverts : Literal.read.Inverts Literal.write := by
  intro literal bytes rest
  simp only [Literal.read, bind_eq_ok]
  constructor
  · rintro ⟨tag, mid, htag, h⟩
    split at h
    case h_1 =>
      obtain ⟨rfl, rfl⟩ := pure_eq_ok.1 h
      simp [Literal.write, Literal.write.payload, Literal.tag, splits_byte, htag, Written.bytes]
    case h_4 =>
      -- One signed byte: it is read as a number, which has to be small enough to be that byte.
      simp only [bind_eq_ok, pure_eq_ok, number_eq_ok] at h
      obtain ⟨value, mid', ⟨small, split⟩, rfl, rfl⟩ := h
      have whole : (UInt8.ofNat value).toNat = value := UInt8.toNat_ofNat_of_lt' small
      simp [Literal.write, Literal.write.payload, Literal.tag, splits_byte, htag, whole, split]
    case h_6 =>
      -- A character is read from a number that need not be one.
      simp only [bind_eq_ok, pure_eq_ok, u32_inverts _ _ _, ofOption_eq_ok,
        charOfScalar?_eq_some_iff] at h
      obtain ⟨scalar, mid', split, c, mid'', ⟨rfl, rfl⟩, rfl, rfl⟩ := h
      simpa [Literal.write, Literal.write.payload, Literal.tag, splits_byte, htag] using split
    case h_11 => exact absurd h fail_ne_ok
    all_goals
      simp only [bind_eq_ok, pure_eq_ok, u16_inverts _ _ _, u32_inverts _ _ _,
        u64_inverts _ _ _] at h
      obtain ⟨value, mid', split, rfl, rfl⟩ := h
      simp [Literal.write, Literal.write.payload, Literal.tag, splits_byte, splits_bool,
        splits_string, htag, split]
  · intro h
    cases literal
    all_goals
      simp only [Literal.write, Literal.write.payload, Literal.tag, splits_concat_cons,
        splits_concat_nil, splits_byte, splits_bool, splits_string] at h
      obtain ⟨mid, htag, mid', split, rfl⟩ := h
      refine ⟨_, mid, htag, ?_⟩
    case null =>
      obtain rfl : mid = mid' := by simpa [Written.bytes, eq_comm] using split
      rfl
    case int value =>
      exact bind_eq_ok.2 ⟨value.toUInt32, mid', (u32_inverts _ _ _).2 split, by simp [pure_eq_ok]⟩
    case string => exact bind_eq_ok.2 ⟨_, _, split, rfl⟩
    case sbyte value =>
      refine bind_eq_ok.2 ⟨value.toUInt8.toNat, mid', number_eq_ok.2 ⟨?_, split⟩, ?_⟩
      · exact value.toUInt8.toNat_lt
      · simp [pure_eq_ok]
    case bool => exact bind_eq_ok.2 ⟨_, _, split, rfl⟩
    case char c =>
      refine bind_eq_ok.2 ⟨c.val, mid', (u32_inverts _ _ _).2 split, ?_⟩
      simp [bind_eq_ok, pure_eq_ok, ofOption_eq_ok, charOfScalar?_eq_some_iff]
    case float => exact bind_eq_ok.2 ⟨_, _, (u32_inverts _ _ _).2 split, rfl⟩
    case short value =>
      exact bind_eq_ok.2 ⟨value.toUInt16, mid', (u16_inverts _ _ _).2 split, by simp [pure_eq_ok]⟩
    case long value =>
      exact bind_eq_ok.2 ⟨value.toUInt64, mid', (u64_inverts _ _ _).2 split, by simp [pure_eq_ok]⟩
    case double => exact bind_eq_ok.2 ⟨_, _, (u64_inverts _ _ _).2 split, rfl⟩

/-! ## Tokens -/

theorem ReservedWord.ofByte?_eq_some_iff (byte : UInt8) (word : ReservedWord) :
    ReservedWord.ofByte? byte = some word ↔ byte = word.toByte := by
  constructor
  · intro found
    unfold ReservedWord.ofByte? at found
    split_ifs at found with low
    -- The words stand in the order of their bytes, so that a word's place gives its byte.
    have order : ReservedWord.all.map (fun a => a.toByte.toNat) =
        (List.range ReservedWord.all.length).map (· + 27) := rfl
    have place : ((List.range ReservedWord.all.length).map (· + 27))[byte.toNat - 27]? =
        some word.toByte.toNat := by
      rw [← order, List.getElem?_map, found]
      rfl
    rw [List.getElem?_map, List.getElem?_range (List.getElem?_eq_some_iff.1 found).1] at place
    have high : 27 ≤ byte.toNat := UInt8.le_iff_toNat_le.1 (UInt8.not_lt.1 low)
    have same : byte.toNat - 27 + 27 = word.toByte.toNat := Option.some.inj place
    exact UInt8.toNat_inj.1 (by omega)
  · rintro rfl
    exact ReservedWord.ofByte?_toByte word

open Reader in
theorem Token.read_inverts : Token.read.Inverts Token.write := by
  intro token bytes rest
  simp only [Token.read, bind_eq_ok]
  constructor
  · rintro ⟨tag, mid, htag, h⟩
    split at h
    case h_2 =>
      simp only [bind_eq_ok, pure_eq_ok, tagged_inverts ClassKind.ofByte?_eq_some_iff _ _ _,
        tagged_inverts Visibility.ofByte?_eq_some_iff _ _ _] at h
      obtain ⟨name, m₁, hname, kind, m₂, hkind, visibility, m₃, hvisibility, rfl, rfl⟩ := h
      simp only [Token.write, Token.write.payload, Token.tag, splits_concat_cons,
        splits_concat_nil, splits_string, splits_byte]
      exact ⟨mid, htag, _, ⟨m₁, hname, m₂, splits_byte.1 hkind, _, splits_byte.1 hvisibility, rfl⟩, rfl⟩
    case h_3 =>
      simp only [bind_eq_ok, pure_eq_ok, tagged_inverts FuncKind.ofByte?_eq_some_iff _ _ _,
        tagged_inverts Visibility.ofByte?_eq_some_iff _ _ _] at h
      obtain ⟨name, m₁, hname, result, m₂, hresult, kind, m₃, hkind, visibility, m₄, hvisibility,
        rfl, rfl⟩ := h
      simp only [Token.write, Token.write.payload, Token.tag, splits_concat_cons,
        splits_concat_nil, splits_string, splits_byte]
      exact ⟨mid, htag, _, ⟨m₁, hname, m₂, hresult, m₃, splits_byte.1 hkind, _,
        splits_byte.1 hvisibility, rfl⟩, rfl⟩
    case h_4 =>
      simp only [bind_eq_ok, pure_eq_ok] at h
      obtain ⟨name, m₁, hname, type, m₂, htype, final, m₃, hfinal, rfl, rfl⟩ := h
      simp only [Token.write, Token.write.payload, Token.tag, splits_concat_cons,
        splits_concat_nil, splits_string, splits_byte, splits_bool]
      exact ⟨mid, htag, _, ⟨m₁, hname, m₂, htype, _, hfinal, rfl⟩, rfl⟩
    case h_9 =>
      -- The kind of a separator is written as the answer to whether it is a member access.
      simp only [bind_eq_ok, pure_eq_ok] at h
      obtain ⟨isMember, mid', split, rfl, rfl⟩ := h
      cases isMember
      all_goals simp [Token.write, Token.write.payload, Token.tag, splits_byte, splits_bool, htag, split]
    case h_11 =>
      simp only [bind_eq_ok, pure_eq_ok, tagged_inverts Operator.ofByte?_eq_some_iff _ _ _] at h
      obtain ⟨op, mid', split, rfl, rfl⟩ := h
      simpa [Token.write, Token.write.payload, Token.tag, splits_byte, htag] using split
    case h_12 =>
      simp only [bind_eq_ok, pure_eq_ok, Literal.read_inverts _ _ _] at h
      obtain ⟨content, mid', split, rfl, rfl⟩ := h
      simp [Token.write, Token.write.payload, Token.tag, splits_byte, htag, split]
    case h_28 =>
      -- Every tag that is left is a reserved word or none.
      simp only [bind_eq_ok, pure_eq_ok, ofOption_eq_ok, ReservedWord.ofByte?_eq_some_iff] at h
      obtain ⟨word, mid', ⟨rfl, rfl⟩, rfl, rfl⟩ := h
      simp [Token.write, Token.write.payload, Token.tag, splits_byte, htag, Written.bytes]
    -- Tokens that are only a tag.
    case h_1 | h_10 | h_13 | h_18 | h_19 | h_20 | h_21 | h_22 =>
      obtain ⟨rfl, rfl⟩ := pure_eq_ok.1 h
      simp [Token.write, Token.write.payload, Token.tag, splits_byte, htag, Written.bytes]
    all_goals
      simp only [bind_eq_ok, pure_eq_ok] at h
      obtain ⟨content, mid', split, rfl, rfl⟩ := h
      simp [Token.write, Token.write.payload, Token.tag, splits_byte, splits_bool, splits_string,
        htag, split]
  · intro h
    cases token
    all_goals
      simp only [Token.write, Token.write.payload, Token.tag, splits_concat_cons,
        splits_concat_nil, splits_byte, splits_bool, splits_string] at h
      obtain ⟨mid, htag, mid', split, rfl⟩ := h
      refine ⟨_, mid, htag, ?_⟩
    case classOpen name kind visibility =>
      obtain ⟨m₁, hname, m₂, hkind, m₃, hvisibility, rfl⟩ := split
      refine bind_eq_ok.2 ⟨name, m₁, hname, bind_eq_ok.2 ⟨kind, m₂, ?_, ?_⟩⟩
      · exact (tagged_inverts ClassKind.ofByte?_eq_some_iff _ _ _).2 (splits_byte.2 hkind)
      · refine bind_eq_ok.2 ⟨visibility, m₃, ?_, rfl⟩
        exact (tagged_inverts Visibility.ofByte?_eq_some_iff _ _ _).2 (splits_byte.2 hvisibility)
    case function name result kind visibility =>
      obtain ⟨m₁, hname, m₂, hresult, m₃, hkind, m₄, hvisibility, rfl⟩ := split
      refine bind_eq_ok.2 ⟨name, m₁, hname, bind_eq_ok.2 ⟨result, m₂, hresult, ?_⟩⟩
      refine bind_eq_ok.2 ⟨kind, m₃, ?_, bind_eq_ok.2 ⟨visibility, m₄, ?_, rfl⟩⟩
      · exact (tagged_inverts FuncKind.ofByte?_eq_some_iff _ _ _).2 (splits_byte.2 hkind)
      · exact (tagged_inverts Visibility.ofByte?_eq_some_iff _ _ _).2 (splits_byte.2 hvisibility)
    case var name type final =>
      obtain ⟨m₁, hname, m₂, htype, m₃, hfinal, rfl⟩ := split
      exact bind_eq_ok.2 ⟨name, m₁, hname, bind_eq_ok.2 ⟨type, m₂, htype,
        bind_eq_ok.2 ⟨final, m₃, hfinal, rfl⟩⟩⟩
    case separator kind =>
      refine bind_eq_ok.2 ⟨_, _, split, ?_⟩
      cases kind <;> rfl
    case operator op =>
      refine bind_eq_ok.2 ⟨op, mid', ?_, rfl⟩
      exact (tagged_inverts Operator.ofByte?_eq_some_iff _ _ _).2 (splits_byte.2 split)
    case value content =>
      exact bind_eq_ok.2 ⟨content, mid', (Literal.read_inverts _ _ _).2 split, rfl⟩
    case reserved word =>
      obtain rfl : mid = mid' := by simpa [Written.bytes, eq_comm] using split
      cases word <;> rfl
    case newLine | expressionEnd | directive | extendsClause | implementsClause | returnValue
        | breakpoint | new =>
      obtain rfl : mid = mid' := by simpa [Written.bytes, eq_comm] using split
      rfl
    all_goals exact bind_eq_ok.2 ⟨_, _, split, rfl⟩

/-! ## Streams -/

open Reader in
theorem TokenStream.reader_inverts : TokenStream.reader.Inverts TokenStream.write := by
  intro stream bytes rest
  simp only [TokenStream.reader, TokenStream.write, bind_eq_ok, pure_eq_ok, magic_eq_ok,
    version_eq_ok, tagged_inverts Header.ofByte?_eq_some_iff _ _ _, byte_inverts _ _ _,
    counted_inverts Token.read_inverts "tokens" _ _ _, splits_concat_cons,
    splits_concat_nil]
  constructor
  · rintro ⟨_, m₁, hmagic, _, m₂, hversion, header, m₃, hheader, platform, m₄, hplatform, tokens,
      m₅, htokens, rfl, rfl⟩
    exact ⟨m₁, hmagic, m₂, hversion, m₃, hheader, m₄, hplatform, m₅, htokens, rfl⟩
  · rintro ⟨m₁, hmagic, m₂, hversion, m₃, hheader, m₄, hplatform, m₅, htokens, rfl⟩
    exact ⟨(), m₁, hmagic, (), m₂, hversion, _, m₃, hheader, _, m₄, hplatform, _, m₅, htokens,
      rfl, rfl⟩

/-! ## Sizes -/

/-- The texts in a literal. -/
def Literal.texts : Literal → List String
  | .string value => [value]
  | _ => []

/-- The texts in a token. -/
def Token.texts : Token → List String
  | classOpen name _ _ => [name]
  | function name returnType _ _ => [name, returnType]
  | var name typeName _ => [name, typeName]
  | literal text => [text]
  | value content => content.texts
  | enterNamespace name | usingNamespace name | label name | goto name => [name]
  | importLibrary path | includeModule path => [path]
  | _ => []

/-- Four bytes hold the number of tokens and the length of every text. -/
def TokenStream.Fits (stream : TokenStream) : Prop :=
  stream.tokens.length < 2 ^ 32 ∧
    ∀ token ∈ stream.tokens, ∀ text ∈ token.texts, text.utf8ByteSize < 2 ^ 32

theorem Literal.write_succeeds {literal : Literal} :
    literal.write.Succeeds ↔ ∀ text ∈ literal.texts, text.utf8ByteSize < 2 ^ 32 := by
  cases literal <;> simp [Literal.write, Literal.write.payload, Literal.texts]

theorem Token.write_succeeds {token : Token} :
    token.write.Succeeds ↔ ∀ text ∈ token.texts, text.utf8ByteSize < 2 ^ 32 := by
  cases token <;> simp [Token.write, Token.write.payload, Token.texts, Literal.write_succeeds]

theorem TokenStream.write_succeeds {stream : TokenStream} :
    stream.write.Succeeds ↔ stream.Fits := by
  simp [TokenStream.write, TokenStream.Fits, Token.write_succeeds]

/-- **Token files are the token streams.** Every stream whose number of tokens and texts four bytes
can measure has a file, and no other stream has one; bytes are read as a stream exactly if they are
its file, so that no two files hold the same stream. -/
theorem TokenStream.read_eq_ok_iff_write_eq_ok (stream : TokenStream) :
    (stream.Fits ↔ ∃ bytes, stream.write = .ok bytes) ∧
      (∀ bytes, TokenStream.read bytes = .ok stream ↔ stream.write = .ok bytes) ∧
      {bytes | TokenStream.read bytes = .ok stream}.Subsingleton := by
  have exact_file : ∀ bytes, TokenStream.read bytes = .ok stream ↔ stream.write = .ok bytes :=
    fun bytes => Reader.run_eq_ok TokenStream.reader_inverts
  refine ⟨TokenStream.write_succeeds.symm, exact_file, ?_⟩
  intro bytes hbytes other hother
  rw [Set.mem_ofPred_eq, exact_file] at hbytes hother
  exact Except.ok.inj (hbytes.symm.trans hother)

end OnePass
