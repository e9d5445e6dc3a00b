import Mathlib
import OnePass.Bytes.Reader
import OnePass.Bytes.Writer

/-! # Readers that undo writers

A file format is a writer and a reader. This file says when they agree and how agreement is put
together from agreement of the parts.

* **`Written.Splits written bytes rest`** — the bytes of a value stand at the front of `bytes`, and
  `rest` follows them. A sequence of parts splits off part by part (`splits_concat_cons`).
* **`Reader.Inverts reader write`** — the reader succeeds with a value and a rest exactly where the
  bytes of that value split off with that rest. This is both directions at once: what is written is
  read back, and nothing else is read.
* One law for each combinator of both formats, from single bytes to counted and framed lists. -/

namespace OnePass

open List

variable {α β : Type}

/-! ## Splitting off what was written -/

/-- The bytes of a value are the front of `bytes`, and `rest` is what follows them. -/
def Written.Splits (written : Written) (bytes rest : List UInt8) : Prop :=
  ∃ front, written = .ok front ∧ front ++ rest = bytes

namespace Written

variable {field : String} {write : α → Written} {parts : List Written}

/-- Written bytes split off from a sequence that begins with them. -/
@[simp] theorem splits_ok {front bytes rest : List UInt8} :
    Splits (.ok front) bytes rest ↔ front ++ rest = bytes := by
  simp [Splits]

/-- Nothing splits off for a value that cannot be written. -/
@[simp] theorem splits_error {error : FormatError} {bytes rest : List UInt8} :
    ¬ Splits (.error error) bytes rest := by
  simp [Splits]

/-- No parts split off as nothing. -/
@[simp] theorem splits_concat_nil {bytes rest : List UInt8} :
    Splits (concat []) bytes rest ↔ bytes = rest := by
  simp [concat, eq_comm]

/-- Parts split off one after the other. -/
@[simp] theorem splits_concat_cons {part : Written}
    {bytes rest : List UInt8} :
    Splits (concat (part :: parts)) bytes rest ↔
      ∃ mid, part.Splits bytes mid ∧ (concat parts).Splits mid rest := by
  cases part with
  | error error => simp [concat, Splits, bind, Except.bind]
  | ok front =>
    -- One part that cannot be written leaves the whole without bytes.
    cases concat_eq : concat parts with
    | error error => simp [concat, concat_eq, Splits, bind, Except.bind]
    | ok back => simp [concat, concat_eq, bind, Except.bind, pure, Except.pure]

/-! ## What can be written -/

/-- A value has bytes. -/
def Succeeds (written : Written) : Prop := ∃ bytes, written = .ok bytes

@[simp] theorem succeeds_ok {bytes : List UInt8} : Succeeds (.ok bytes) := ⟨bytes, rfl⟩

/-- Parts can be written together exactly if each of them can. -/
@[simp] theorem succeeds_concat :
    (concat parts).Succeeds ↔ ∀ part ∈ parts, part.Succeeds := by
  induction parts with
  | nil => simp [concat]
  | cons part parts ih =>
    rw [forall_mem_cons, ← ih]
    cases part with
    | error error => simp [concat, Succeeds, bind, Except.bind]
    | ok front =>
      cases concat_eq : concat parts with
      | error error => simp [concat, concat_eq, Succeeds, bind, Except.bind]
      | ok back => simp [concat, concat_eq, bind, Except.bind, pure, Except.pure]

@[simp] theorem succeeds_bytes {list : List UInt8} : (bytes list).Succeeds := ⟨list, rfl⟩

@[simp] theorem succeeds_byte {value : UInt8} : (byte value).Succeeds := ⟨[value], rfl⟩

@[simp] theorem succeeds_bool {value : Bool} : (bool value).Succeeds := ⟨_, rfl⟩

@[simp] theorem succeeds_number {width n : Nat} : (number width n).Succeeds := ⟨_, rfl⟩

/-- A length can be written if four bytes hold it. -/
@[simp] theorem succeeds_length {n : Nat} :
    (length field n).Succeeds ↔ n < 2 ^ 32 := by
  unfold length
  split <;> simp_all [Succeeds]

@[simp] theorem succeeds_string {field text : String} :
    (string field text).Succeeds ↔ text.utf8ByteSize < 2 ^ 32 := by
  simp [string]

@[simp] theorem succeeds_counted {list : List α} :
    (counted field write list).Succeeds ↔
      list.length < 2 ^ 32 ∧ ∀ a ∈ list, (write a).Succeeds := by
  simp [counted]

@[simp] theorem succeeds_optional {found : Option α} :
    (optional write found).Succeeds ↔ ∀ a ∈ found, (write a).Succeeds := by
  cases found <;> simp [optional]

/-- Four bytes hold each of the numbers. -/
def Short (numbers : List Nat) : Prop := ∀ n ∈ numbers, n < 2 ^ 32

@[simp]
theorem short_nil : Short [] := forall_mem_nil _

@[simp]
theorem short_cons {n : Nat} {numbers : List Nat} :
    Short (n :: numbers) ↔ n < 2 ^ 32 ∧ Short numbers :=
  forall_mem_cons

@[simp]
theorem short_append {numbers others : List Nat} :
    Short (numbers ++ others) ↔ Short numbers ∧ Short others :=
  forall_mem_append

@[simp]
theorem short_map {f : α → Nat} {list : List α} :
    Short (list.map f) ↔ ∀ a ∈ list, f a < 2 ^ 32 :=
  forall_mem_map

@[simp]
theorem short_flatMap {f : α → List Nat} {list : List α} :
    Short (list.flatMap f) ↔ ∀ a ∈ list, Short (f a) := by
  simp only [Short, mem_flatMap]
  exact ⟨fun short a here n inside => short n ⟨a, here, inside⟩,
    fun short n ⟨a, here, inside⟩ => short a here n inside⟩

/-! ## How many bytes are written -/

/-- A value that can be written has the given number of bytes. -/
def Sized (written : Written) (size : Nat) : Prop :=
  ∀ bytes, written = .ok bytes → bytes.length = size

theorem Sized.of_eq {written : Written} {size total : Nat} (sized : written.Sized size)
    (sizes : size = total) : written.Sized total :=
  sizes ▸ sized

theorem sized_concat_nil : (concat []).Sized 0 := by
  rintro bytes ⟨⟩
  rfl

theorem sized_concat_cons {part : Written} {size sizes : Nat}
    (first : part.Sized size) (others : (concat parts).Sized sizes) :
    (concat (part :: parts)).Sized (size + sizes) := by
  intro bytes wrote
  cases part with
  | error error => simp [concat, bind, Except.bind] at wrote
  | ok front =>
    cases concat_eq : concat parts with
    | error error => simp [concat, concat_eq, bind, Except.bind] at wrote
    | ok back =>
      simp only [concat, concat_eq, bind, Except.bind, pure, Except.pure, Except.ok.injEq] at wrote
      rw [← wrote, length_append, first front rfl, others back concat_eq]

theorem sized_byte {value : UInt8} : (byte value).Sized 1 := by
  rintro bytes ⟨⟩
  rfl

theorem sized_number {width n : Nat} : (number width n).Sized width := by
  rintro bytes ⟨⟩
  exact length_leBytes width n

theorem sized_length {n : Nat} : (length field n).Sized 4 := by
  intro bytes wrote
  unfold length at wrote
  split at wrote
  · cases wrote
    exact length_leBytes 4 n
  · cases wrote

theorem sized_string {field text : String} : (string field text).Sized (4 + text.utf8ByteSize) := by
  refine sized_concat_cons sized_length (sized_concat_cons ?_ sized_concat_nil)
  rintro bytes ⟨⟩
  simp

theorem sized_counted {size : α → Nat}
    (each : ∀ a, (write a).Sized (size a)) (list : List α) :
    (counted field write list).Sized (4 + (list.map size).sum) := by
  refine sized_concat_cons sized_length ?_
  induction list with
  | nil => exact sized_concat_nil
  | cons a list ih => exact sized_concat_cons (each a) ih

end Written

/-! ## Readers -/

namespace Reader

variable {bytes rest : List UInt8} {write : α → Written} {reader : Reader α}

/-- A reader gives back exactly what a writer has written, wherever it stands. -/
def Inverts (reader : Reader α) (write : α → Written) : Prop :=
  ∀ a bytes rest, reader bytes = (.ok a, rest) ↔ (write a).Splits bytes rest

theorem bind_eq_ok {first : Reader α} {next : α → Reader β} {b : β} :
    (first >>= next) bytes = (.ok b, rest) ↔
      ∃ a mid, first bytes = (.ok a, mid) ∧ next a mid = (.ok b, rest) := by
  simp only [bind]
  rcases first bytes with ⟨_ | a, mid⟩
  · simp
  · simp

theorem pure_eq_ok {a b : α} :
    (pure a : Reader α) bytes = (.ok b, rest) ↔ a = b ∧ bytes = rest := by
  change ((.ok a, bytes) : Except FormatError α × List UInt8) = (.ok b, rest) ↔ _
  simp

theorem fail_ne_ok {error : FormatError} {b : α} :
    ¬ (fail error : Reader α) bytes = (.ok b, rest) := by
  simp [fail]

theorem ofOption_eq_ok {error : FormatError} {found : Option α} {b : α} :
    ofOption error found bytes = (.ok b, rest) ↔ found = some b ∧ bytes = rest := by
  cases found with
  | none => simp [ofOption, fail]
  | some a => simp [ofOption, pure_eq_ok]

/-! ## Bytes and numbers -/

theorem byte_inverts : byte.Inverts Written.byte := by
  intro a bytes rest
  cases bytes with
  | nil => simp [byte, Written.byte]
  | cons b bytes => simp [byte, Written.byte, eq_comm]

theorem take_eq_ok {count : Nat} {front bytes rest : List UInt8} :
    take count bytes = (.ok front, rest) ↔ front.length = count ∧ front ++ rest = bytes := by
  by_cases fits : count ≤ bytes.length
  · simp only [take, fits, if_true, Prod.mk.injEq, Except.ok.injEq]
    constructor
    · rintro ⟨rfl, rfl⟩
      exact ⟨length_take_of_le fits, take_append_drop count bytes⟩
    · rintro ⟨rfl, rfl⟩
      exact ⟨take_left, drop_left⟩
  · simp only [take, fits, if_false, Prod.mk.injEq, reduceCtorEq, false_and, false_iff]
    rintro ⟨rfl, rfl⟩
    simp at fits

theorem leNat_lt (digits : List UInt8) : leNat digits < 256 ^ digits.length := by
  -- The digits of the number they stand for are themselves: it is its own remainder.
  have digits_back := leNat_leBytes digits.length (leNat digits)
  rw [leBytes_leNat] at digits_back
  rw [digits_back]
  exact Nat.mod_lt _ (by positivity)

/-- A number is read where its digits stand, if they hold all of it. -/
theorem number_eq_ok {width n : Nat} :
    number width bytes = (.ok n, rest) ↔
      n < 256 ^ width ∧ (Written.number width n).Splits bytes rest := by
  simp only [number, bind_eq_ok, pure_eq_ok, take_eq_ok, Written.number, Written.splits_ok]
  constructor
  · rintro ⟨digits, mid, ⟨rfl, rfl⟩, rfl, rfl⟩
    exact ⟨leNat_lt digits, by rw [leBytes_leNat]⟩
  · rintro ⟨small, rfl⟩
    exact ⟨leBytes width n, rest, ⟨length_leBytes width n, rfl⟩,
      by rw [leNat_leBytes, Nat.mod_eq_of_lt small], rfl⟩

theorem length_inverts (field : String) : (number 4).Inverts (Written.length field) := by
  intro n bytes rest
  rw [number_eq_ok, Written.length]
  split
  · simp_all [Written.number]
  · simp_all

theorem u16_inverts : u16.Inverts fun n => Written.number 2 n.toNat := by
  intro n bytes rest
  simp only [u16, bind_eq_ok, pure_eq_ok, number_eq_ok]
  constructor
  · rintro ⟨m, mid, ⟨small, h⟩, rfl, rfl⟩
    rwa [UInt16.toNat_ofNat_of_lt' small]
  · intro h
    exact ⟨n.toNat, rest, ⟨n.toNat_lt, h⟩, UInt16.ofNat_toNat, rfl⟩

theorem u32_inverts : u32.Inverts fun n => Written.number 4 n.toNat := by
  intro n bytes rest
  simp only [u32, bind_eq_ok, pure_eq_ok, number_eq_ok]
  constructor
  · rintro ⟨m, mid, ⟨small, h⟩, rfl, rfl⟩
    rwa [UInt32.toNat_ofNat_of_lt' small]
  · intro h
    exact ⟨n.toNat, rest, ⟨n.toNat_lt, h⟩, UInt32.ofNat_toNat, rfl⟩

theorem u64_inverts : u64.Inverts fun n => Written.number 8 n.toNat := by
  intro n bytes rest
  simp only [u64, bind_eq_ok, pure_eq_ok, number_eq_ok]
  constructor
  · rintro ⟨m, mid, ⟨small, h⟩, rfl, rfl⟩
    rwa [UInt64.toNat_ofNat_of_lt' small]
  · intro h
    exact ⟨n.toNat, rest, ⟨n.toNat_lt, h⟩, UInt64.ofNat_toNat, rfl⟩

theorem bool_inverts : bool.Inverts Written.bool := by
  intro value bytes rest
  simp only [bool, bind_eq_ok, byte_inverts _ _ _, Written.byte, Written.bool, Written.splits_ok]
  constructor
  · rintro ⟨b, mid, rfl, h⟩
    split_ifs at h with zero one
    · cases value <;> simp_all [pure_eq_ok]
    · cases value <;> simp_all [pure_eq_ok]
    · exact absurd h fail_ne_ok
  · rintro rfl
    cases value
    · exact ⟨0, rest, rfl, by simp [pure_eq_ok]⟩
    · exact ⟨1, rest, rfl, by simp [pure_eq_ok]⟩

/-- A value stored as one byte is read back if its byte stands for it and for nothing else. -/
theorem tagged_inverts {field : String} {ofByte? : UInt8 → Option α} {toByte : α → UInt8}
    (exact_byte : ∀ byte a, ofByte? byte = some a ↔ byte = toByte a) :
    (tagged field ofByte?).Inverts fun a => Written.byte (toByte a) := by
  intro a bytes rest
  simp only [tagged, bind_eq_ok, byte_inverts _ _ _, ofOption_eq_ok, exact_byte]
  simp [Written.byte]

/-! ## Texts -/

theorem fromUTF8?_eq_some {bytes : List UInt8} {text : String} :
    String.fromUTF8? bytes.toByteArray = some text ↔ text.toUTF8.data.toList = bytes := by
  constructor
  · intro found
    unfold String.fromUTF8? at found
    split at found
    · cases found
      exact toList_data_toByteArray
    · cases found
  · rintro rfl
    -- The bytes of a text are valid, so that the check that the decoder makes succeeds.
    have bytes_eq : text.toUTF8.data.toList.toByteArray = text.toByteArray :=
      ByteArray.ext (by simp)
    rw [bytes_eq, String.fromUTF8?, dif_pos text.isValidUTF8]
    rfl

theorem string_inverts (field : String) : string.Inverts (Written.string field) := by
  intro text bytes rest
  simp only [string, bind_eq_ok, length_inverts field _ _ _, take_eq_ok, ofOption_eq_ok,
    fromUTF8?_eq_some, Written.string, Written.splits_concat_cons, Written.splits_concat_nil,
    Written.bytes, Written.splits_ok]
  constructor
  · rintro ⟨count, mid, counted, found, mid', ⟨rfl, rfl⟩, rfl, rfl⟩
    refine ⟨_, ?_, _, rfl, rfl⟩
    simpa using counted
  · rintro ⟨mid, counted, mid', rfl, rfl⟩
    exact ⟨_, _, counted, _, _, ⟨by simp, rfl⟩, rfl, rfl⟩

/-! ## Writers in terms of readers

Where the name of a field matters to the writer's refusal only, a split is best stated by its
reader, which has no such name. -/

theorem splits_byte {value : UInt8} :
    (Written.byte value).Splits bytes rest ↔ byte bytes = (.ok value, rest) :=
  (byte_inverts value bytes rest).symm

theorem splits_bool {value : Bool} :
    (Written.bool value).Splits bytes rest ↔ bool bytes = (.ok value, rest) :=
  (bool_inverts value bytes rest).symm

theorem splits_length {field : String} {n : Nat} :
    (Written.length field n).Splits bytes rest ↔ number 4 bytes = (.ok n, rest) :=
  (length_inverts field n bytes rest).symm

theorem splits_string {field text : String} :
    (Written.string field text).Splits bytes rest ↔ string bytes = (.ok text, rest) :=
  (string_inverts field text bytes rest).symm

/-! ## Lists and options -/

theorem replicate_eq_ok (h : reader.Inverts write)
    {count : Nat} {list : List α} :
    replicate reader count bytes = (.ok list, rest) ↔
      list.length = count ∧ (Written.concat (list.map write)).Splits bytes rest := by
  induction count generalizing list bytes rest with
  | zero =>
    simp only [replicate, pure_eq_ok]
    constructor
    · rintro ⟨rfl, rfl⟩
      simp
    · rintro ⟨empty, split⟩
      rw [length_eq_zero_iff] at empty
      subst empty
      simpa using split
  | succ count ih =>
    simp only [replicate, bind_eq_ok, pure_eq_ok, h _ _ _, ih]
    constructor
    · rintro ⟨a, mid, first, others, mid', ⟨rfl, back⟩, rfl, rfl⟩
      exact ⟨rfl, Written.splits_concat_cons.2 ⟨mid, first, back⟩⟩
    · rintro ⟨size, split⟩
      -- A list of the given length has a first element to be read.
      obtain _ | ⟨a, others⟩ := list
      · simp at size
      · obtain ⟨mid, first, back⟩ := Written.splits_concat_cons.1 split
        exact ⟨a, mid, first, others, rest, ⟨by simpa using size, back⟩, rfl, rfl⟩

theorem counted_inverts (h : reader.Inverts write)
    (field : String) : (counted reader).Inverts (Written.counted field write) := by
  intro list bytes rest
  simp only [counted, bind_eq_ok, length_inverts field _ _ _, replicate_eq_ok h, Written.counted,
    Written.splits_concat_cons]
  constructor
  · rintro ⟨count, mid, size, rfl, split⟩
    exact ⟨mid, size, split⟩
  · rintro ⟨mid, size, split⟩
    exact ⟨list.length, mid, size, rfl, split⟩

theorem optional_inverts (h : reader.Inverts write) :
    (optional reader).Inverts (Written.optional write) := by
  intro found bytes rest
  simp only [optional, bind_eq_ok, bool_inverts _ _ _]
  cases found with
  | none => simp [Written.optional, Written.bool, Written.byte, pure_eq_ok, bind_eq_ok]
  | some a => simp [Written.optional, Written.bool, Written.byte, pure_eq_ok, bind_eq_ok, h _ _ _]

/-! ## Whole files -/

theorem atEnd_eq_ok {ended : Bool} :
    atEnd bytes = (.ok ended, rest) ↔ bytes.isEmpty = ended ∧ bytes = rest := by
  simp [atEnd]

theorem finish_eq_ok {done : Unit} :
    finish bytes = (.ok done, rest) ↔ bytes = [] ∧ rest = [] := by
  simp only [finish, bind_eq_ok, atEnd_eq_ok]
  constructor
  · rintro ⟨ended, mid, ⟨rfl, rfl⟩, empty⟩
    split_ifs at empty with nothing
    · simp_all [pure_eq_ok]
    · exact absurd empty fail_ne_ok
  · rintro ⟨rfl, rfl⟩
    exact ⟨true, [], ⟨rfl, rfl⟩, rfl⟩

theorem whole_eq_ok (h : reader.Inverts write) {a : α} :
    (do let a ← reader; finish; return a : Reader α) bytes = (.ok a, rest) ↔
      write a = .ok bytes ∧ rest = [] := by
  simp only [bind_eq_ok, h _ _ _, finish_eq_ok, pure_eq_ok]
  constructor
  · rintro ⟨b, mid, split, _, mid', ⟨rfl, rfl⟩, rfl, rfl⟩
    obtain ⟨front, wrote, rfl⟩ := split
    exact ⟨by simpa using wrote, rfl⟩
  · rintro ⟨wrote, rfl⟩
    exact ⟨a, [], ⟨bytes, wrote, by simp⟩, (), [], ⟨rfl, rfl⟩, rfl, rfl⟩

/-- A file holds a value exactly if it consists of the bytes of the value. -/
theorem run_eq_ok (h : reader.Inverts write) {a : α}
    {bytes : List UInt8} : reader.run bytes = .ok a ↔ write a = .ok bytes := by
  rw [run]
  constructor
  · intro found
    obtain ⟨wrote, -⟩ := (whole_eq_ok h).1 (Prod.ext found rfl)
    exact wrote
  · intro wrote
    rw [(whole_eq_ok h).2 ⟨wrote, rfl⟩]

/-- The bytes that every file starts with are read as nothing else. -/
theorem magic_eq_ok {done : Unit} {expected bytes rest : List UInt8} :
    magic expected bytes = (.ok done, rest) ↔ (Written.bytes expected).Splits bytes rest := by
  simp only [magic, bind_eq_ok, take_eq_ok, Written.bytes, Written.splits_ok]
  constructor
  · rintro ⟨found, mid, ⟨-, rfl⟩, same⟩
    split_ifs at same with equal
    · simp_all [pure_eq_ok]
    · exact absurd same fail_ne_ok
  · rintro rfl
    exact ⟨expected, rest, ⟨rfl, rfl⟩, by simp [pure_eq_ok]⟩

theorem version_eq_ok {done : Unit} {expected : UInt16} :
    version expected bytes = (.ok done, rest) ↔
      (Written.number 2 expected.toNat).Splits bytes rest := by
  simp only [version, bind_eq_ok, u16_inverts _ _ _]
  constructor
  · rintro ⟨found, mid, split, same⟩
    split_ifs at same with equal
    · simp_all [pure_eq_ok]
    · exact absurd same fail_ne_ok
  · intro split
    exact ⟨expected, rest, split, by simp [pure_eq_ok]⟩

/-- A stretch with its own length is read to its end and no further. -/
theorem framed_eq_ok (h : reader.Inverts write)
    (field : String) {a : α} :
    framed reader bytes = (.ok a, rest) ↔ ∃ body, write a = .ok body ∧
      (Written.concat [.length field body.length, .bytes body]).Splits bytes rest := by
  simp only [framed, bind_eq_ok, length_inverts field _ _ _, take_eq_ok, Written.bytes,
    Written.splits_concat_cons, Written.splits_concat_nil, Written.splits_ok]
  constructor
  · rintro ⟨count, mid, size, body, mid', ⟨rfl, rfl⟩, read⟩
    -- The stretch is read as a file of its own, to its end.
    rcases whole : (do let a ← reader; finish; return a : Reader α) body with ⟨_ | b, left⟩
    · rw [whole] at read
      exact absurd read fail_ne_ok
    · rw [whole] at read
      obtain ⟨rfl, rfl⟩ := pure_eq_ok.1 read
      obtain ⟨wrote, -⟩ := (whole_eq_ok h).1 whole
      exact ⟨body, wrote, _, size, _, rfl, rfl⟩
  · rintro ⟨body, wrote, mid, size, mid', rfl, rfl⟩
    refine ⟨body.length, _, size, body, _, ⟨rfl, rfl⟩, ?_⟩
    rw [(whole_eq_ok h).2 ⟨wrote, rfl⟩]
    rfl

end Reader

end OnePass
