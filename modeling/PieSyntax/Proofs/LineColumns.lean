/-
# Lines and columns

A place in a text is shown by its line and its column, which are found apart: the line by counting the
line feeds before the place, the column by counting the characters behind the last of them.  Main
statements: both are what a scan of the characters before the place counts
(`Text.lineColumn_eq_countPlace`), each further character moves the place on (`Text.lt_passChar`), and
so two places of one text never share a line and a column (`lineColumn_counts_places`).
-/
import Mathlib.Data.Prod.Lex
import PieSyntax.Proofs.Pieces

namespace PieSyntax

open Text

namespace Text

/-! ## Boundaries -/

/-- Byte `n` of `text` falls between two characters, or at an end. -/
def IsBoundary (text : List Char) (n : Nat) : Prop :=
  ∃ before after, text = before ++ after ∧ byteLength before = n

theorem IsBoundary.le {text : List Char} {n : Nat} (h : IsBoundary text n) : n ≤ byteLength text := by
  obtain ⟨before, after, rfl, rfl⟩ := h
  rw [byteLength_append]
  exact Nat.le_add_right _ _

/-- A text can be cut at its boundaries, and only there. -/
theorem splitBytes?_eq_some_iff {n : Nat} {text before after : List Char} :
    splitBytes? n text = some (before, after) ↔ text = before ++ after ∧ byteLength before = n := by
  constructor
  · intro h
    exact ⟨(append_of_splitBytes? h).symm, byteLength_of_splitBytes? h⟩
  · rintro ⟨rfl, rfl⟩
    exact splitBytes?_append before after

/-- Of two beginnings of a text, the one with fewer bytes begins the other, with something left. -/
theorem exists_append_of_byteLength_lt {u v xs ys : List Char} (h : u ++ xs = v ++ ys)
    (hlt : byteLength u < byteLength v) : ∃ w, w ≠ [] ∧ v = u ++ w := by
  rcases List.append_eq_append_iff.1 h with ⟨w, rfl, -⟩ | ⟨w, rfl, -⟩
  · refine ⟨w, ?_, rfl⟩
    rintro rfl
    rw [List.append_nil] at hlt
    exact Nat.lt_irrefl _ hlt
  · rw [byteLength_append] at hlt
    omega

/-! ## The scan -/

/-- The place behind `c`, when `c` stands at `place`: a line feed is followed by the first column of
the next line, any other character by the next column. -/
def passChar (place : Nat × Nat) (c : Char) : Nat × Nat :=
  if c = '\n' then (place.1 + 1, 1) else (place.1, place.2 + 1)

/-- The place behind `text`, which begins at the first column of the first line. -/
def countPlace (text : List Char) : Nat × Nat := text.foldl passChar (1, 1)

/-- One more character changes the line and the column as the scan does. -/
theorem lineColumn_concat (before : List Char) (c : Char) :
    lineColumn (before ++ [c]) = passChar (lineColumn before) c := by
  rw [lineColumn, List.count_append, List.reverse_append, List.reverse_singleton,
    List.singleton_append, passChar]
  by_cases hc : c = '\n'
  · rw [if_pos hc, List.takeWhile_cons_of_neg (by simp [hc])]
    simp [lineColumn, hc]
  · rw [if_neg hc, List.takeWhile_cons_of_pos (by simp [hc])]
    simp [lineColumn, hc]

/-- **The scan.**  Counting the line feeds and the characters behind the last of them gives the place
that a scan reaches. -/
theorem lineColumn_eq_countPlace (before : List Char) : lineColumn before = countPlace before := by
  induction before using List.reverseRecOn with
  | nil => rfl
  | append_singleton before c ih =>
    rw [lineColumn_concat, ih, countPlace, countPlace, List.foldl_concat]

/-! ## The order of places -/

/-- Every character moves the place on: to a later line, or to a later column of the same line. -/
theorem lt_passChar (place : Nat × Nat) (c : Char) : toLex place < toLex (passChar place c) := by
  rw [Prod.Lex.toLex_lt_toLex, passChar]
  split
  · exact .inl (Nat.lt_succ_self _)
  · exact .inr ⟨rfl, Nat.lt_succ_self _⟩

theorem lt_foldl_passChar (place : Nat × Nat) {text : List Char} (h : text ≠ []) :
    toLex place < toLex (text.foldl passChar place) := by
  induction text using List.reverseRecOn with
  | nil => exact absurd rfl h
  | append_singleton text c ih =>
    rw [List.foldl_concat]
    have hlast := lt_passChar (text.foldl passChar place) c
    rcases eq_or_ne text [] with rfl | hne
    · exact hlast
    · exact (ih hne).trans hlast

/-- Behind more text is a later place. -/
theorem countPlace_lt_append (before : List Char) {text : List Char} (h : text ≠ []) :
    toLex (countPlace before) < toLex (countPlace (before ++ text)) := by
  rw [countPlace, countPlace, List.foldl_append]
  exact lt_foldl_passChar _ h

end Text

/-! ## The places of a source -/

namespace Span

variable {source : List Char} {s t : Span} {p q : Nat × Nat}

theorem lineColumn?_eq_some_iff : s.lineColumn? source = some p ↔
    ∃ before after, source = before ++ after ∧ byteLength before = s.start ∧
      countPlace before = p := by
  rw [lineColumn?, lineColumnAt?, Option.map_eq_some_iff]
  constructor
  · rintro ⟨⟨before, after⟩, hcut, rfl⟩
    obtain ⟨hsource, hstart⟩ := splitBytes?_eq_some_iff.1 hcut
    exact ⟨before, after, hsource, hstart, (lineColumn_eq_countPlace before).symm⟩
  · rintro ⟨before, after, hsource, hstart, rfl⟩
    exact ⟨(before, after), splitBytes?_eq_some_iff.2 ⟨hsource, hstart⟩,
      lineColumn_eq_countPlace before⟩

/-- A span has a line and a column exactly if it begins at a boundary. -/
theorem exists_lineColumn?_iff : (∃ p, s.lineColumn? source = some p) ↔
    IsBoundary source s.start := by
  simp only [lineColumn?_eq_some_iff]
  constructor
  · rintro ⟨-, before, after, hsource, hstart, -⟩
    exact ⟨before, after, hsource, hstart⟩
  · rintro ⟨before, after, hsource, hstart⟩
    exact ⟨_, before, after, hsource, hstart, rfl⟩

/-- A span that begins further on has a later place. -/
theorem lineColumn?_lt (hs : s.lineColumn? source = some p) (ht : t.lineColumn? source = some q)
    (h : s.start < t.start) : toLex p < toLex q := by
  obtain ⟨before, after, hsource, hstart, rfl⟩ := lineColumn?_eq_some_iff.1 hs
  obtain ⟨before', after', hsource', hstart', rfl⟩ := lineColumn?_eq_some_iff.1 ht
  rw [← hstart, ← hstart'] at h
  obtain ⟨text, hne, rfl⟩ := exists_append_of_byteLength_lt (hsource.symm.trans hsource') h
  exact countPlace_lt_append before hne

/-- Spans of one source have the same place exactly if they begin at the same byte. -/
theorem lineColumn?_eq_iff (hs : s.lineColumn? source = some p)
    (ht : t.lineColumn? source = some q) : p = q ↔ s.start = t.start := by
  constructor
  · rintro rfl
    rcases Nat.lt_trichotomy s.start t.start with hlt | heq | hlt
    · exact absurd (lineColumn?_lt hs ht hlt) (lt_irrefl _)
    · exact heq
    · exact absurd (lineColumn?_lt ht hs hlt) (lt_irrefl _)
  · intro heq
    rw [lineColumn?, heq] at hs
    exact Option.some.inj (hs.symm.trans ht)

/-- Places are in the order of their offsets. -/
theorem lineColumn?_lt_iff (hs : s.lineColumn? source = some p)
    (ht : t.lineColumn? source = some q) : toLex p < toLex q ↔ s.start < t.start := by
  refine ⟨fun hlt => ?_, lineColumn?_lt hs ht⟩
  by_contra hge
  rcases Nat.lt_or_eq_of_le (Nat.not_lt.1 hge) with hgt | heq
  · exact absurd hlt (lineColumn?_lt ht hs hgt).asymm
  · rw [(lineColumn?_eq_iff hs ht).2 heq.symm] at hlt
    exact absurd hlt (lt_irrefl _)

end Span

/-- The lines and columns of `source` are counted right. -/
structure CountsPlaces (source : List Char) : Prop where
  /-- There is no place exactly past the end and inside of characters. -/
  none_iff : ∀ s : Span, s.lineColumn? source = none ↔
    byteLength source < s.start ∨ ¬ IsBoundary source s.start
  /-- The place is the one that a scan of the characters before it reaches. -/
  some_iff : ∀ (s : Span) (p : Nat × Nat), s.lineColumn? source = some p ↔
    ∃ before after, source = before ++ after ∧ byteLength before = s.start ∧ countPlace before = p
  /-- Places are in the order of their offsets: first by line, then by column. -/
  lt_iff : ∀ (s t : Span) (p q : Nat × Nat), s.lineColumn? source = some p →
    t.lineColumn? source = some q → (toLex p < toLex q ↔ s.start < t.start)
  /-- Different offsets have different places. -/
  eq_iff : ∀ (s t : Span) (p q : Nat × Nat), s.lineColumn? source = some p →
    t.lineColumn? source = some q → (p = q ↔ s.start = t.start)

/-- **Lines and columns.**  A span has a line and a column exactly if it begins at a boundary of the
source; they are what a scan of the characters before it counts, and they grow with the offset, so
that no two places of a source share them. -/
theorem lineColumn_counts_places (source : List Char) : CountsPlaces source where
  none_iff := by
    intro s
    rw [Option.eq_none_iff_forall_ne_some, ← not_exists, Span.exists_lineColumn?_iff]
    constructor
    · exact .inr
    · rintro (hpast | hinside) hboundary
      · exact absurd hboundary.le (Nat.not_le.2 hpast)
      · exact hinside hboundary
  some_iff _ _ := Span.lineColumn?_eq_some_iff
  lt_iff _ _ _ _ hs ht := Span.lineColumn?_lt_iff hs ht
  eq_iff _ _ _ _ hs ht := Span.lineColumn?_eq_iff hs ht

/-- Behind a letter of two bytes and two line feeds, and inside of the letter. -/
example : Span.lineColumn? ⟨4, 5⟩ "λ\n\nx".toList = some (3, 1) ∧
    Span.lineColumn? ⟨1, 2⟩ "λ\n\nx".toList = none := by
  decide

end PieSyntax
