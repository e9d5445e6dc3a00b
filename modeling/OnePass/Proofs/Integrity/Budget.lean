import OnePass.Proofs.Integrity.Step

/-! # The budget suffices

`tokenBudget` bounds the number of tokens that a build reads. What is *left* of it are the tokens of
the stream and those of the libraries that were not imported yet: a token that is read takes one
away, and an import only moves the tokens of its library to the stream. Every path that can be
imported stands in a token of the stream or of a file, since library tokens come from files. -/

namespace OnePass

open List

variable {files : FileTree}

/-! ## Paths -/

@[simp]
theorem importPaths_append (first second : List Token) :
    importPaths (first ++ second) = importPaths first ++ importPaths second :=
  filterMap_append

theorem FileTree.mem_entries_of_read {path : Path} {bytes : List UInt8}
    (read : files.read path = .ok bytes) : ∃ place, (place, FileEntry.file bytes) ∈ files.entries := by
  unfold FileTree.read at read
  cases walked : files.walk path with
  | error error => simp [walked, bind, Except.bind] at read
  | ok place =>
    simp only [walked, bind, Except.bind] at read
    split at read
    · rename_i stored found
      cases read
      unfold entry? at found
      split at found
      · cases found
      · obtain ⟨before, after, entries, -⟩ := lookup_eq_some_iff.mp found
        exact ⟨place, by simp [entries]⟩
    · cases read
    · cases read

theorem FileTree.mem_entries_of_libraryTokens {options : BuildOptions} {path : String}
    {tokens : List Token} (found : files.libraryTokens options path = .ok tokens) :
    ∃ entry ∈ files.entries, entry.2.tokens = tokens := by
  rw [libraryTokens] at found
  split at found
  · cases found
  · rename_i bytes read
    split at found
    · cases found
    · rename_i library decoded
      split at found
      · cases found
        obtain ⟨place, here⟩ := mem_entries_of_read read
        refine ⟨_, here, ?_⟩
        unfold FileEntry.tokens
        simp only [decoded]
      · cases found

theorem FileTree.librarySize_of_libraryTokens {options : BuildOptions} {path : String}
    {tokens : List Token} (found : files.libraryTokens options path = .ok tokens) :
    files.librarySize options path = tokens.length := by
  unfold librarySize
  rw [found]

namespace Input

/-- Everything that can be imported is in a list of paths. -/
structure Covered (paths : List String) (input : Input) : Prop where
  stream : importPaths input.stream ⊆ paths
  files : ∀ entry ∈ input.files.entries, importPaths entry.2.tokens ⊆ paths

/-- The number of tokens that can still be read: those of the stream and of the libraries that can
still be imported. -/
def left (paths : List String) (input : Input) : Nat :=
  input.stream.length +
    ((paths.filter (· ∉ input.imported)).map (input.files.librarySize input.options)).sum

variable {paths : List String} {input later : Input} {token : Token}

theorem Takes.covered (takes : input.Takes later) (covered : input.Covered paths) :
    later.Covered paths := by
  obtain ⟨taken, rfl⟩ := takes
  have stream := covered.stream
  rw [importPaths_append] at stream
  exact ⟨(List.append_subset.mp stream).2, covered.files⟩

/-- Every token of the stream counts for one. -/
theorem left_append (taken : List Token) (input : Input) :
    ({ input with stream := taken ++ input.stream } : Input).left paths = taken.length +
      input.left paths := by
  show (taken ++ input.stream).length + _ = taken.length + (input.stream.length + _)
  rw [length_append, Nat.add_assoc]
  rfl

theorem Takes.left_le (takes : input.Takes later) : later.left paths ≤ input.left paths := by
  obtain ⟨taken, rfl⟩ := takes
  rw [left_append]
  exact Nat.le_add_left _ _

theorem Splices.covered (splices : input.Splices token later) (covered : input.Covered paths) :
    later.Covered paths := by
  cases splices with
  | nothing => exact covered
  | @library path tokens isImport isNew found =>
    obtain ⟨entry, here, rfl⟩ := FileTree.mem_entries_of_libraryTokens found
    refine ⟨?_, covered.files⟩
    rw [splice, importPaths_append]
    exact List.append_subset.mpr ⟨covered.files entry here, covered.stream⟩

/-- A path that is taken out of a list takes its size with it. -/
theorem sum_filter_ne_add_le (size : String → Nat) {path : String} {paths : List String}
    (here : path ∈ paths) : ((paths.filter (· ≠ path)).map size).sum + size path ≤
      (paths.map size).sum := by
  induction paths with
  | nil => cases here
  | cons first rest ih =>
    by_cases same : first = path
    · subst same
      have fewer : ((rest.filter (· ≠ first)).map size).sum ≤ (rest.map size).sum :=
        (filter_sublist.map size).sum_le_sum fun _ _ => Nat.zero_le _
      simp only [ne_eq, decide_not, filter_cons, decide_true, Bool.not_true,
        Bool.false_eq_true, if_false, map_cons, sum_cons] at fewer ⊢
      omega
    · have inRest : path ∈ rest := (mem_cons.mp here).resolve_left (Ne.symm same)
      have kept := ih inRest
      simp only [ne_eq, decide_not, filter_cons, same, decide_false, Bool.not_false, if_true,
        map_cons, sum_cons] at kept ⊢
      omega

theorem Splices.left_le (splices : input.Splices token later)
    (known : importPaths [token] ⊆ paths) : later.left paths ≤ input.left paths := by
  cases splices with
  | nothing => exact le_rfl
  | @library path tokens isImport isNew found =>
    subst isImport
    have inPaths : path ∈ paths := known (by simp [importPaths])
    have open_path : path ∈ paths.filter (· ∉ input.imported) := by simp [inPaths, isNew]
    have remaining : paths.filter (· ∉ input.imported ++ [path]) =
        (paths.filter (· ∉ input.imported)).filter (· ≠ path) := by
      rw [filter_filter]
      refine filter_congr fun other _ => ?_
      simp [and_comm]
    have size := FileTree.librarySize_of_libraryTokens found
    have moved := sum_filter_ne_add_le (input.files.librarySize input.options) open_path
    show (tokens ++ input.stream).length +
      ((paths.filter (· ∉ input.imported ++ [path])).map (input.files.librarySize input.options)).sum ≤ _
    rw [remaining, length_append, left]
    omega

end Input

theorem Compiler.Advances.left_le {c later : Compiler} {token : Token} {paths : List String}
    (advances : c.Advances token later) (covered : c.input.Covered paths)
    (known : importPaths [token] ⊆ paths) : later.input.Covered paths ∧
      later.input.left paths ≤ c.input.left paths := by
  obtain ⟨rest, takes, splices⟩ := advances.input
  exact ⟨splices.covered (takes.covered covered), (splices.left_le known).trans takes.left_le⟩

end OnePass
