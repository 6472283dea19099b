/-
# Lines

A text is cut into lines after each line feed; what follows the last line feed is a line too, unless
it is empty.  Bytes are cut the same way before they are decoded, so that one line that is no text
spoils no other.  Main statements: the pieces together are what was cut (`flatten_cutAfter`),
and an encoded text decodes to itself (`decode?_encode`).
-/

namespace PieSyntax.Text

/-! ## Cutting -/

/-- Cuts a list after every occurrence of `mark`; only the last piece may end without one. -/
def cutAfter {α : Type} [DecidableEq α] (mark : α) : List α → List (List α)
  | [] => []
  | a :: rest =>
    if a = mark then [a] :: cutAfter mark rest
    else
      match cutAfter mark rest with
      | [] => [[a]]
      | piece :: pieces => (a :: piece) :: pieces

/-- Cutting loses nothing. -/
theorem flatten_cutAfter {α : Type} [DecidableEq α] (mark : α) (l : List α) :
    (cutAfter mark l).flatten = l := by
  induction l with
  | nil => rfl
  | cons a rest ih =>
    rw [cutAfter]
    split
    · simp [ih]
    · cases h : cutAfter mark rest with
      | nil =>
        rw [h] at ih
        simp only [List.flatten_nil] at ih
        simp [← ih]
      | cons piece pieces =>
        rw [h] at ih
        simp only [List.flatten_cons] at ih
        simp [← ih]

/-- No piece is empty. -/
theorem ne_nil_of_mem_cutAfter {α : Type} [DecidableEq α] {mark : α} {l piece : List α}
    (h : piece ∈ cutAfter mark l) : piece ≠ [] := by
  induction l generalizing piece with
  | nil => simp [cutAfter] at h
  | cons a rest ih =>
    rw [cutAfter] at h
    split at h
    · rcases List.mem_cons.1 h with rfl | h
      · simp
      · exact ih h
    · split at h
      · simp only [List.mem_cons, List.not_mem_nil, or_false] at h
        simp [h]
      · rename_i first others he
        rcases List.mem_cons.1 h with rfl | h
        · simp
        · exact ih (he ▸ List.mem_cons_of_mem _ h)

/-! ## Lines of text and of bytes -/

/-- The lines of `text`, each with its line feed. -/
def lines (text : List Char) : List (List Char) := cutAfter '\n' text

theorem flatten_lines (text : List Char) : (lines text).flatten = text := flatten_cutAfter _ _

/-- The text that `bytes` are the UTF-8 form of, if there is one. -/
def decode? (bytes : List UInt8) : Option (List Char) :=
  bytes.toByteArray.utf8Decode?.map Array.toList

/-- The UTF-8 form of `text`. -/
def encode (text : List Char) : List UInt8 := text.flatMap String.utf8EncodeChar

/-- **Round trip.**  An encoded text decodes to itself. -/
theorem decode?_encode (text : List Char) : decode? (encode text) = some text := by
  have bytes : (encode text).toByteArray = text.utf8Encode := rfl
  rw [decode?, bytes, List.utf8Decode?_utf8Encode]
  simp

/-- The lines of `bytes`; a line that is no UTF-8 has no text. -/
def byteLines (bytes : List UInt8) : List (Option (List Char)) := (cutAfter 10 bytes).map decode?

/-- A line cut into its content and its terminator: a line feed, one with a carriage return before
it, or nothing. -/
def splitTerminator (line : List Char) : List Char × List Char :=
  match line.reverse with
  | '\n' :: '\r' :: content => (content.reverse, ['\r', '\n'])
  | '\n' :: content => (content.reverse, ['\n'])
  | _ => (line, [])

/-- A line is its content and its terminator. -/
theorem append_splitTerminator (line : List Char) :
    (splitTerminator line).1 ++ (splitTerminator line).2 = line := by
  unfold splitTerminator
  split
  · rename_i content h
    have := congrArg List.reverse h
    simpa using this.symm
  · rename_i content _ h
    have := congrArg List.reverse h
    simpa using this.symm
  · simp

end PieSyntax.Text
