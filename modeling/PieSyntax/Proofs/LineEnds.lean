/-
# Ends of lines

A line may come with a line feed, with a carriage return before it, or with neither, and readers
disagree on who takes them off.  Nothing depends on it: what a parse says of a text is the same with the
end of its last line and without (`verdict_withLineFeed`, `verdict_append_withLineFeed`), and so is
what trimming leaves of it (`trim_splitTerminator`).
-/
import PieSyntax.Terminal
import PieSyntax.Proofs.Sessions

namespace PieSyntax

open Text

/-! ## Terminators -/

/-- A session reads the content of a line and an end behind it, whatever the terminator. -/
theorem exists_lineEnd (line : List Char) :
    ∃ w, IsLineEnd w ∧ Session.withLineFeed line = (splitTerminator line).1 ++ w := by
  have hline := append_splitTerminator line
  unfold splitTerminator at hline ⊢
  split at hline
  · refine ⟨['\r', '\n'], Or.inr rfl, ?_⟩
    rw [hline, Session.withLineFeed, if_pos]
    rw [← hline, List.getLast?_append]
    rfl
  · refine ⟨['\n'], Or.inl rfl, ?_⟩
    rw [hline, Session.withLineFeed, if_pos]
    rw [← hline, List.getLast?_concat]
  · next hnone =>
    refine ⟨['\n'], Or.inl rfl, if_neg fun hlast => ?_⟩
    rw [List.getLast?_eq_head?_reverse] at hlast
    obtain ⟨content, hcontent⟩ := List.head?_eq_some_iff.1 hlast
    exact hnone content hcontent

theorem trim_splitTerminator (line : List Char) : trim (splitTerminator line).1 = trim line := by
  obtain ⟨w, hw, hline⟩ := exists_lineEnd line
  rw [← trim_append_blanks hw.blank, ← hline, Session.withLineFeed]
  split
  · rfl
  · exact trim_append_blanks isLineEnd_lineFeed.blank

/-- Every piece of a list but the last ends with the mark. -/
theorem Text.isChain_cutAfter {α : Type} [DecidableEq α] (mark : α) (l : List α) :
    (cutAfter mark l).IsChain fun piece _ => piece.getLast? = some mark := by
  induction l with
  | nil => exact .nil
  | cons a rest ih =>
    rw [cutAfter]
    split
    · next ha =>
      rw [List.isChain_cons]
      exact ⟨fun _ _ => congrArg some ha, ih⟩
    · cases hpieces : cutAfter mark rest with
      | nil => exact .singleton _
      | cons piece pieces =>
        have hmem : piece ∈ cutAfter mark rest := by
          rw [hpieces]
          exact List.mem_cons_self
        rw [hpieces, List.isChain_cons] at ih
        rw [List.isChain_cons, List.getLast?_cons_of_ne_nil (ne_nil_of_mem_cutAfter hmem)]
        exact ih

/-! ## Parsing -/

theorem verdict_withLineFeed (settings : Settings) (text : List Char) :
    verdict settings (Session.withLineFeed text) = verdict settings text := by
  rw [Session.withLineFeed]
  split
  · rfl
  · exact verdict_append_lineEnd settings text isLineEnd_lineFeed

/-- A session says of a line what is said of its content. -/
theorem verdict_append_withLineFeed (settings : Settings) (held line : List Char) :
    verdict settings (held ++ Session.withLineFeed line) =
      verdict settings (held ++ (splitTerminator line).1) := by
  obtain ⟨w, hw, hline⟩ := exists_lineEnd line
  rw [hline, ← List.append_assoc, verdict_append_lineEnd settings _ hw]

theorem needsMoreInput_iff {settings : Settings} {source : List Char} :
    needsMoreInput settings source = true ↔ verdict settings source = .incomplete := by
  rw [needsMoreInput, verdict]
  cases parse settings source with
  | ok tree => exact iff_of_false Bool.noConfusion Verdict.noConfusion
  | error e => exact Verdict.ofParse_error_eq_incomplete_iff.symm

/-- A text of blanks is a program without forms. -/
theorem verdict_blanks (settings : Settings) {text : List Char}
    (h : ∀ c ∈ text, isBlank c = true) : verdict settings text = .program [] [] := by
  obtain ⟨tree, htree, hforms, htokens⟩ :=
    exists_tree_of_lastGap settings (IsGap.of_blanks h).isLastGap
  rw [verdict, htree, Verdict.ofParse, hforms, htokens]

/-- A text that ends inside a form is no command and not blank, and no text that goes on from it
is. -/
theorem not_command_of_incomplete {settings : Settings} {held : List Char}
    (h : verdict settings held = .incomplete) (more : List Char) :
    isCommand (held ++ more) = false ∧ trim (held ++ more) ≠ [] := by
  have hblank : ¬ ∀ c ∈ held, isBlank c = true := by
    intro hheld
    rw [verdict_blanks settings hheld] at h
    cases h
  constructor
  · have hne : trimFront held ≠ [] := mt List.dropWhile_eq_nil_iff.1 hblank
    rw [isCommand, trimFront_append hblank, List.head?_append_of_ne_nil _ hne, ← isCommand,
      Bool.eq_false_iff]
    intro hcommand
    rw [← isCommand_trim] at hcommand
    obtain ⟨e, he, hfinal⟩ := exists_error_of_isCommand settings hcommand []
    rw [List.append_nil] at he
    rw [verdict, he, Verdict.ofParse_error_eq_incomplete_iff, hfinal] at h
    cases h
  · rw [ne_eq, trim_eq_nil_iff]
    exact fun hall => hblank (List.forall_mem_append.1 hall).1

end PieSyntax
