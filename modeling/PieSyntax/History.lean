/-
# History of entries

The entries of terminal sessions, oldest first.  An entry is kept unless it is empty, starts with a
blank or repeats the one before, and the oldest make room for new ones.  In the history file, entries
stand on one line each.  Main statements: a written entry reads back (`unescape?_escape`), and a
history never outgrows its capacity (`length_add_le`).
-/
import PieSyntax.Text.Blank
import PieSyntax.Text.Lines

namespace PieSyntax

/-- The entries that are remembered. -/
structure History where
  entries : List (List Char) := []
  /-- Whether an entry was added that no file holds yet. -/
  isFresh : Bool := false
deriving DecidableEq

namespace History

/-! ## Adding entries -/

/-- The number of entries that are remembered. -/
def capacity : Nat := 100

/-- Whether an entry is passed over. -/
def ignores (h : History) (entry : List Char) : Bool :=
  match entry with
  | [] => true
  | c :: _ => Text.isBlank c || h.entries.getLast? == some entry

/-- The history after an entry. -/
def add (h : History) (entry : List Char) : History :=
  if h.ignores entry then h
  else
    { entries := h.entries.drop (h.entries.length + 1 - capacity) ++ [entry]
      isFresh := true }

/-- **Capacity.**  A history that fits its capacity still does with one more entry. -/
theorem length_add_le (h : History) (entry : List Char) (bound : h.entries.length ≤ capacity) :
    (h.add entry).entries.length ≤ capacity := by
  unfold add
  split
  · exact bound
  · simp only [List.length_append, List.length_drop, List.length_cons, List.length_nil]
    simp only [capacity] at bound ⊢
    omega

/-! ## Entries as lines -/

/-- An entry on one line: line feeds and backslashes are escaped. -/
def escape (entry : List Char) : List Char :=
  entry.flatMap fun c =>
    if c = '\n' then ['\\', 'n'] else if c = '\\' then ['\\', '\\'] else [c]

/-- The entry that a line stands for, unless a backslash escapes anything else. -/
def unescape? : List Char → Option (List Char)
  | [] => some []
  | '\\' :: rest =>
    match rest with
    | 'n' :: rest => (unescape? rest).map ('\n' :: ·)
    | '\\' :: rest => (unescape? rest).map ('\\' :: ·)
    | _ => none
  | c :: rest => (unescape? rest).map (c :: ·)

/-- **Round trip.**  An entry that is written on one line reads back. -/
theorem unescape?_escape (entry : List Char) : unescape? (escape entry) = some entry := by
  induction entry with
  | nil => rfl
  | cons c rest ih =>
    have split : escape (c :: rest) =
        (if c = '\n' then ['\\', 'n'] else if c = '\\' then ['\\', '\\'] else [c]) ++ escape rest := by
      simp [escape]
    rw [split]
    by_cases feed : c = '\n'
    · subst feed
      simp [unescape?, ih]
    · by_cases back : c = '\\'
      · subst back
        simp [unescape?, ih]
      · rw [if_neg feed, if_neg back, List.singleton_append, unescape?, ih]
        · rfl
        · exact back

/-! ## The file -/

/-- The first line of a file with escaped entries. -/
def header : List Char := "#V2".toList

/-- The file that holds the entries. -/
def file (h : History) : List Char :=
  header ++ '\n' :: h.entries.flatMap fun entry => escape entry ++ ['\n']

/-- The entry on a line of a file; a line that cannot be unescaped stands as it is. -/
def entryOfLine (escaped : Bool) (line : List Char) : List Char :=
  if escaped then (unescape? line).getD line else line

/-- Adds the entries of the lines of a file.  A line that is no text ends the reading; what came
before it then counts as added. -/
def addLines (escaped : Bool) (h : History) : List (Option (List Char)) → History
  | [] => { h with isFresh := false }
  | none :: _ => h
  | some line :: rest =>
    let content := (Text.splitTerminator line).1
    addLines escaped (if content = [] then h else h.add (entryOfLine escaped content)) rest

/-- The history in a file. -/
def ofFile (bytes : List UInt8) : History :=
  match Text.byteLines bytes with
  | some line :: rest =>
    if (Text.splitTerminator line).1 = header then addLines true {} rest
    else addLines false {} (some line :: rest)
  | lines => addLines false {} lines

end History

end PieSyntax
