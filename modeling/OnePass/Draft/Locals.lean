import OnePass.Bytecode.OperatorPlan

/-! # Local variables

A method can have more locals than their numbers can tell apart, so a declaration must not look at
all those before it. A `LocalTable` has the latest local at its front and keeps the names apart, in
a tree of their letters.

* `LocalTable.defs`: the locals in the order in which they were declared.
* `LocalTable.add`, `LocalTable.markAssigned`: a new local, and a store to a final, as `defs_add`
  and `defs_markAssigned` say in terms of the list. -/

namespace OnePass

/-- A local variable of a method. -/
structure LocalDef where
  name : String
  type : TypeId
  isFinal : Bool
  /-- whether a final has been stored to -/
  assigned : Bool
  deriving DecidableEq

/-! ## Names -/

/-- Words that share their beginnings. Every beginning of a word is a word. -/
inductive Words where
  | empty
  | branch (letter : Nat) (longer others : Words)
  deriving DecidableEq

namespace Words

/-- Whether a word is there. -/
def contains : Words → List Nat → Bool
  | _, [] => true
  | empty, _ :: _ => false
  | branch first longer others, letter :: rest =>
    if letter = first then longer.contains rest else others.contains (letter :: rest)

/-- The beginnings of one word. -/
def ofWord : List Nat → Words
  | [] => empty
  | letter :: rest => branch letter (ofWord rest) empty

/-- Adds a word. -/
def insert : Words → List Nat → Words
  | words, [] => words
  | empty, word => ofWord word
  | branch first longer others, letter :: rest =>
    if letter = first then branch first (longer.insert rest) others
    else branch first longer (others.insert (letter :: rest))

/-- The word of a name. Its length comes first, so that no name is the beginning of another. -/
def ofName (name : String) : List Nat := name.toList.length :: name.toList.map (·.toNat)

theorem contains_ofWord (word other : List Nat) : (ofWord word).contains other = other.isPrefixOf word := by
  induction word generalizing other with
  | nil => cases other <;> rfl
  | cons letter rest ih => cases other <;> grind [ofWord, contains, List.isPrefixOf]

theorem contains_insert (words : Words) (word other : List Nat) :
    (words.insert word).contains other = (other.isPrefixOf word || words.contains other) := by
  fun_induction insert words word generalizing other with
  | case1 words => cases other <;> simp [contains]
  | case2 word => cases other <;> simp [contains_ofWord, contains]
  | case3 longer others letter rest ih => cases other <;> grind [contains, List.isPrefixOf]
  | case4 first longer others letter rest turns ih => cases other <;> grind [contains, List.isPrefixOf]

theorem isPrefixOf_ofName (name other : String) : (ofName name).isPrefixOf (ofName other) = (other == name) := by
  rw [Bool.eq_iff_iff, List.isPrefixOf_iff_prefix, beq_iff_eq]
  constructor
  · intro begins
    obtain ⟨length, begins⟩ := List.cons_prefix_cons.mp begins
    have letters := begins.eq_of_length (by simpa using length)
    exact (String.toList_inj.mp (List.map_inj_right (fun _ _ => Char.toNat_inj.mp) |>.mp letters)).symm
  · rintro rfl
    exact List.prefix_refl _

end Words

/-! ## Tables -/

/-- The locals of a method. -/
structure LocalTable where
  /-- the latest first -/
  latest : List LocalDef
  count : Nat
  names : Words
  count_eq : count = latest.length
  names_eq : ∀ name, names.contains (Words.ofName name) = latest.any (·.name == name)
  deriving DecidableEq

namespace LocalTable

/-- No locals. -/
def empty : LocalTable := ⟨[], 0, .empty, rfl, fun _ => rfl⟩

variable (table : LocalTable)

/-- The locals in the order of their declaration. -/
def defs : List LocalDef := table.latest.reverse

/-- Whether there is a local with a name. -/
def contains (name : String) : Bool := table.names.contains (Words.ofName name)

/-- Adds a local. -/
def add (new : LocalDef) : LocalTable where
  latest := new :: table.latest
  count := table.count + 1
  names := table.names.insert (Words.ofName new.name)
  count_eq := by rw [table.count_eq, List.length_cons]
  names_eq name := by rw [Words.contains_insert, Words.isPrefixOf_ofName, table.names_eq, List.any_cons]

theorem count_eq_length : table.count = table.defs.length := by rw [table.count_eq, defs, List.length_reverse]

theorem contains_eq_any (name : String) : table.contains name = table.defs.any (·.name == name) := by
  rw [contains, table.names_eq, defs, List.any_reverse]

@[simp] theorem defs_empty : empty.defs = [] := rfl

@[simp] theorem defs_add (new : LocalDef) : (table.add new).defs = table.defs ++ [new] := List.reverse_cons

/-- Notes a store to the local at some position. -/
def markAssigned (position : Nat) : LocalTable where
  latest := (table.defs.modify position fun found => { found with assigned := true }).reverse
  count := table.count
  names := table.names
  count_eq := by rw [table.count_eq_length, List.length_reverse, List.length_modify]
  names_eq name := by
    have names (locals : List LocalDef) (place : Nat) :
        (locals.modify place fun found => { found with assigned := true }).any (·.name == name) =
          locals.any (·.name == name) := by
      induction locals generalizing place with
      | nil => simp
      | cons first rest ih => cases place <;> simp [ih]
    rw [List.any_reverse, names]
    exact table.contains_eq_any name

@[simp] theorem defs_markAssigned (position : Nat) :
    (table.markAssigned position).defs = table.defs.modify position fun found => { found with assigned := true } :=
  List.reverse_reverse _

end LocalTable

end OnePass
