/-! # Splitting texts

A text is cut at every occurrence of a separating character; the pieces keep everything else, so
putting the separator back between them gives the text again. Main statement: `join_split`. -/

namespace OnePass.Text

/-- The pieces of a list of characters between the occurrences of a separator. There is always at
least one. -/
def splitChars (separator : Char) : List Char → List (List Char)
  | [] => [[]]
  | c :: rest =>
    if c == separator then [] :: splitChars separator rest
    else
      match splitChars separator rest with
      | [] => [[c]]
      | piece :: pieces => (c :: piece) :: pieces

/-- The pieces of a text between the occurrences of a separator. -/
def split (separator : Char) (text : String) : List String :=
  (splitChars separator text.toList).map String.ofList

/-- The part of a text before the last occurrence of a separator and the part after it. -/
def splitLast? (separator : Char) (text : String) : Option (String × String) :=
  let back := text.toList.reverse
  match back.dropWhile (· != separator) with
  | [] => none
  | _ :: front =>
    some (String.ofList front.reverse, String.ofList (back.takeWhile (· != separator)).reverse)

/-- Lists of characters with a separator between them. -/
def joinChars (separator : Char) : List (List Char) → List Char
  | [] => []
  | [piece] => piece
  | piece :: next :: pieces => piece ++ separator :: joinChars separator (next :: pieces)

theorem splitChars_ne_nil (separator : Char) (text : List Char) : splitChars separator text ≠ [] := by
  cases text with
  | nil => simp [splitChars]
  | cons c rest =>
    simp only [splitChars]
    split
    · simp
    · split <;> simp

/-- Splitting loses nothing but the separators, and joining puts them back. -/
theorem join_split (separator : Char) (text : List Char) :
    joinChars separator (splitChars separator text) = text := by
  induction text with
  | nil => rfl
  | cons c rest ih =>
    simp only [splitChars]
    split
    · rename_i same
      obtain ⟨piece, pieces, h⟩ := List.exists_cons_of_ne_nil (splitChars_ne_nil separator rest)
      rw [h] at ih ⊢
      simp only [joinChars, ih, List.nil_append, List.cons.injEq, and_true]
      exact (beq_iff_eq.1 same).symm
    · split
      · rename_i h
        exact absurd h (splitChars_ne_nil separator rest)
      · rename_i piece pieces h
        rw [h] at ih
        cases pieces with
        | nil => simp only [joinChars] at ih ⊢; rw [ih]
        | cons next more => simp only [joinChars, List.cons_append] at ih ⊢; rw [ih]

end OnePass.Text
