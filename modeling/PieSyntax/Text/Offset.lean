/-
# Byte offsets

Positions in a text count the bytes of its UTF-8 form.  An offset is a boundary if it falls between
two characters; only there can a text be cut, and only a boundary has a line and a column.  Main
statements: cutting loses nothing (`append_of_splitBytes?`), and the cut lies at the offset asked for
(`byteLength_of_splitBytes?`).
-/

namespace PieSyntax.Text

/-- The number of bytes that `text` takes in UTF-8. -/
def byteLength : List Char → Nat
  | [] => 0
  | c :: rest => c.utf8Size + byteLength rest

@[simp] theorem byteLength_nil : byteLength [] = 0 := rfl

@[simp] theorem byteLength_cons (c : Char) (rest : List Char) :
    byteLength (c :: rest) = c.utf8Size + byteLength rest := rfl

@[simp] theorem byteLength_append (s t : List Char) :
    byteLength (s ++ t) = byteLength s + byteLength t := by
  induction s with
  | nil => simp
  | cons c s ih => simp [ih, Nat.add_assoc]

/-- Cuts `text` after its first `n` bytes, if that is a boundary. -/
def splitBytes? : Nat → List Char → Option (List Char × List Char)
  | 0, text => some ([], text)
  | _ + 1, [] => none
  | n + 1, c :: rest =>
    if c.utf8Size ≤ n + 1 then
      (splitBytes? (n + 1 - c.utf8Size) rest).map fun parts => (c :: parts.1, parts.2)
    else none

/-- The two parts make up the text. -/
theorem append_of_splitBytes? {n : Nat} {text before after : List Char}
    (h : splitBytes? n text = some (before, after)) : before ++ after = text := by
  induction text generalizing n before with
  | nil =>
    cases n with
    | zero => simp only [splitBytes?, Option.some.injEq, Prod.mk.injEq] at h; simp [← h.1, ← h.2]
    | succ n => simp [splitBytes?] at h
  | cons c rest ih =>
    cases n with
    | zero => simp only [splitBytes?, Option.some.injEq, Prod.mk.injEq] at h; simp [← h.1, ← h.2]
    | succ n =>
      rw [splitBytes?] at h
      split at h
      · obtain ⟨⟨before', after'⟩, hp, he⟩ := Option.map_eq_some_iff.1 h
        simp only [Prod.mk.injEq] at he
        obtain ⟨rfl, rfl⟩ := he
        simp [ih hp]
      · simp at h

/-- The first part has the bytes that were asked for. -/
theorem byteLength_of_splitBytes? {n : Nat} {text before after : List Char}
    (h : splitBytes? n text = some (before, after)) : byteLength before = n := by
  induction text generalizing n before with
  | nil =>
    cases n with
    | zero => simp only [splitBytes?, Option.some.injEq, Prod.mk.injEq] at h; simp [← h.1]
    | succ n => simp [splitBytes?] at h
  | cons c rest ih =>
    cases n with
    | zero => simp only [splitBytes?, Option.some.injEq, Prod.mk.injEq] at h; simp [← h.1]
    | succ n =>
      rw [splitBytes?] at h
      split at h
      · obtain ⟨⟨before', after'⟩, hp, he⟩ := Option.map_eq_some_iff.1 h
        simp only [Prod.mk.injEq] at he
        obtain ⟨rfl, rfl⟩ := he
        have := ih hp
        simp only [byteLength_cons]
        omega
      · simp at h

/-- The part of `text` from byte `start` to byte `stop`, if both are boundaries and in order. -/
def slice? (text : List Char) (start stop : Nat) : Option (List Char) :=
  if start ≤ stop then do
    let (_, rest) ← splitBytes? start text
    let (middle, _) ← splitBytes? (stop - start) rest
    return middle
  else none

/-- The line and the column of the end of `before`, both counted from one; columns count characters
since the last line feed. -/
def lineColumn (before : List Char) : Nat × Nat :=
  (before.count '\n' + 1, (before.reverse.takeWhile (· != '\n')).length + 1)

/-- The line and the column of byte `offset` of `text`, if it is a boundary. -/
def lineColumnAt? (text : List Char) (offset : Nat) : Option (Nat × Nat) :=
  (splitBytes? offset text).map fun parts => lineColumn parts.1

end PieSyntax.Text
