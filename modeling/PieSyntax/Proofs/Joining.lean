/-
# Joined texts

A complete text leaves nothing pending, not even when it ends with a comment or a name: behind a line
feed the next text is read as a text of its own, further on.  Main statement: the tree of the joined
texts holds the forms of both, and an error in the second text is the error of both
(`parse_joined_texts`).
-/
import PieSyntax.Proofs.Concatenation
import PieSyntax.Proofs.Reading

namespace PieSyntax

open Text

/-- **Joined texts.**  Let a complete text be followed by a line feed and by another text.  If that
parses, the root holds the forms of the first and then those of the second, moved behind the line
feed, and the same goes for the tokens.  If it fails, its error is that of the joined texts, moved in
the same way. -/
theorem parse_joined_texts {settings : Settings} {source : List Char} {tree : SyntaxTree}
    (h : parse settings source = .ok tree) (more : List Char) :
    (∀ next, parse settings more = .ok next →
        ∃ joined later, parse settings (source ++ '\n' :: more) = .ok joined ∧
          joined.root = .form .source ⟨0, byteLength source + 1 + byteLength more⟩
            (tree.root.labelled ++
              next.root.labelled.map (Node.relocateChild (.shift (byteLength source + 1)))) ∧
          joined.forms =
            tree.forms ++ next.forms.map (Node.relocate (.shift (byteLength source + 1))) ∧
          joined.tokens = tree.tokens ++ later ∧
          List.Forall₂ (fun t u => u.kind = t.kind ∧ u.text = t.text ∧
            u.span = t.span.shift (byteLength source + 1)) next.tokens later) ∧
      ∀ e, parse settings more = .error e →
        parse settings (source ++ '\n' :: more) =
          .error (e.relocate (.shift (byteLength source + 1))) := by
  rcases parse_append_lineFeed_cases h more with
    ⟨e, he, he'⟩ | ⟨next, joined, later, hnext, hjoined, hlabelled, htokens, hlater⟩
  · rw [he, he']
    constructor
    · intro next hnext
      cases hnext
    · intro e' heq
      cases heq
      rfl
  · rw [hnext, hjoined]
    constructor
    · intro next' heq
      cases heq
      obtain ⟨parts, hroot, -, -⟩ := exists_parts_of_parse hjoined
      have hlength : byteLength (source ++ '\n' :: more) =
          byteLength source + 1 + byteLength more := by
        have hfeed : Char.utf8Size '\n' = 1 := rfl
        rw [byteLength_append, byteLength_cons, hfeed, Nat.add_assoc]
      refine ⟨joined, later, rfl, ?_, ?_, htokens, ?_⟩
      · rw [← hlabelled, ← hlength, hroot]
        rfl
      · simp [SyntaxTree.forms, Node.children, hlabelled, Node.relocateChild]
      · exact hlater.imp fun t u htu => ⟨htu.1.kind_eq, htu.2, htu.1.span_eq⟩
    · intro e he
      cases he

/-- An application, complete or not, behind a claim whose line ends with a comment. -/
theorem parse_joined_texts_comment :
    (∃ tree next joined, parse {} "(claim x Nat) ; note".toList = .ok tree ∧
        parse {} "(f x)".toList = .ok next ∧
        parse {} ("(claim x Nat) ; note".toList ++ '\n' :: "(f x)".toList) = .ok joined ∧
        joined.forms = tree.forms ++ next.forms.map (Node.relocate (.shift 21))) ∧
      parse {} ("(claim x Nat) ; note".toList ++ '\n' :: "(f x".toList) =
        .error (.grammatical
          (.missingCloseParen .application [.expression, .rightParen] ⟨21, 22⟩ ⟨25, 25⟩)) := by
  have hfirst : (parse {} "(claim x Nat) ; note".toList).toOption.isSome = true := by
    decide +kernel
  have hsecond : (parse {} "(f x)".toList).toOption.isSome = true := by decide +kernel
  have herror : error? (parse {} "(f x".toList) = some (.grammatical
      (.missingCloseParen .application [.expression, .rightParen] ⟨0, 1⟩ ⟨4, 4⟩)) := by
    decide +kernel
  obtain ⟨tree, htree⟩ := exists_tree_of_isSome hfirst
  obtain ⟨next, hnext⟩ := exists_tree_of_isSome hsecond
  obtain ⟨joined, later, hjoined, -, hforms, -⟩ :=
    (parse_joined_texts htree "(f x)".toList).1 next hnext
  have hbroken := (parse_joined_texts htree "(f x".toList).2 _ (eq_error_of_error? herror)
  exact ⟨⟨tree, next, joined, htree, hnext, hjoined, hforms⟩, hbroken⟩

end PieSyntax
