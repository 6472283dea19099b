/-
# Trimming

Trimming takes the blanks off both ends of a text and nothing else.  Main statements: blanks at the end
make no difference to it (`trim_append_blanks`), and it makes none to the question whether a text is a
command (`isCommand_trim`).
-/
import Mathlib.Data.List.DropRight
import PieSyntax.Session

namespace PieSyntax

open Text

/-! ## Blanks at the ends -/

namespace Text

variable {text u w : List Char}

theorem head?_trimFront_not_blank : ∀ c ∈ (trimFront text).head?, isBlank c = false := by
  intro c hc
  have hfirst := List.head?_dropWhile_not isBlank text
  rw [show text.dropWhile isBlank = trimFront text from rfl, hc] at hfirst
  simpa using hfirst

/-- Trimming leaves nothing of blanks, and of blanks only. -/
theorem trim_eq_nil_iff : trim text = [] ↔ ∀ c ∈ text, isBlank c = true := by
  rw [trim, trimBack, ← List.rdropWhile, List.rdropWhile_eq_nil_iff]
  constructor
  · intro h
    have hnil : trimFront text = [] := by
      cases hfront : trimFront text with
      | nil => rfl
      | cons c rest =>
        have hc := head?_trimFront_not_blank c (by rw [hfront]; rfl)
        rw [h c (by rw [hfront]; exact List.mem_cons_self)] at hc
        cases hc
    exact List.dropWhile_eq_nil_iff.1 hnil
  · intro h c hc
    exact h c ((List.dropWhile_suffix _).subset hc)

/-- What trimming leaves begins where the blanks at the front end. -/
theorem head?_trim : (trim text).head? = (trimFront text).head? := by
  obtain ⟨behind, hbehind⟩ : trim text <+: trimFront text :=
    List.rdropWhile_prefix isBlank (trimFront text)
  cases hline : trim text with
  | cons c rest =>
    rw [hline] at hbehind
    rw [← hbehind]
    rfl
  | nil => rw [trimFront, List.dropWhile_eq_nil_iff.2 (trim_eq_nil_iff.1 hline)]

theorem trimFront_trim : trimFront (trim text) = trim text := by
  cases hline : trim text with
  | nil => rfl
  | cons c rest =>
    have hhead : c ∈ (trimFront text).head? := by
      rw [← head?_trim, hline]
      rfl
    exact List.dropWhile_cons_of_neg (by simp [head?_trimFront_not_blank c hhead])

/-- Behind a text that is not blank everything stays when the front is trimmed. -/
theorem trimFront_append (hu : ¬ ∀ c ∈ u, isBlank c = true) (w : List Char) :
    trimFront (u ++ w) = trimFront u ++ w := by
  rw [trimFront, List.dropWhile_append, if_neg, trimFront]
  rw [List.isEmpty_iff, List.dropWhile_eq_nil_iff]
  exact hu

/-- Blanks at the end make no difference to trimming. -/
theorem trim_append_blanks (hw : ∀ c ∈ w, isBlank c = true) : trim (u ++ w) = trim u := by
  by_cases hu : ∀ c ∈ u, isBlank c = true
  · rw [trim_eq_nil_iff.2 hu, trim_eq_nil_iff]
    exact List.forall_mem_append.2 ⟨hu, hw⟩
  · have hback : ∀ c ∈ w.reverse, isBlank c = true := fun c hc => hw c (List.mem_reverse.1 hc)
    rw [trim, trim, trimFront_append hu, trimBack, trimBack, List.reverse_append,
      List.dropWhile_append_of_pos hback]

end Text

/-! ## Commands -/

/-- Whether a text is a command can be seen from it trimmed or not. -/
theorem isCommand_trim (text : List Char) : isCommand (trim text) = isCommand text := by
  rw [isCommand, isCommand, trimFront_trim, head?_trim]

/-- A command has a colon behind its blanks. -/
theorem exists_blanks_of_isCommand {text : List Char} (h : isCommand text = true) :
    ∃ blanks rest, text = blanks ++ ':' :: rest ∧ ∀ b ∈ blanks, isBlank b = true := by
  rw [isCommand, decide_eq_true_eq] at h
  obtain ⟨rest, hrest⟩ := List.head?_eq_some_iff.1 h
  refine ⟨text.takeWhile isBlank, rest, ?_, List.all_eq_true.1 List.all_takeWhile⟩
  rw [← hrest]
  exact List.takeWhile_append_dropWhile.symm

end PieSyntax
