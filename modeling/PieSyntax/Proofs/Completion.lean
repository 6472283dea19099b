/-
# Completions

A text that ends inside a form asks for more.  Main statements: unless it has come to a dead end, a
parser can be led to the end of the input by a few names and parentheses (`Parser.reads_completion`),
and a text that asks for more can be completed if and only if it ends in none of the two dead ends
(`completable_iff_not_deadEnd`).
-/
import PieSyntax.Proofs.DeadEnds
import PieSyntax.Session

namespace PieSyntax

open Text Lexer

/-! ## Words that complete a parse -/

/-- What completes an open form once the expression in the given place is read; a lambda is asked for
no further argument. -/
def Slot.rest : Slot → List TokenKind
  | .required .domain => [.identifier, .rightParen]
  | .argument _ => [.rightParen, .identifier, .rightParen]
  | _ => [.rightParen]

namespace Parser

/-- What completes all open forms, the innermost first. -/
def closing (outer : List (OpenForm × Slot)) : List TokenKind :=
  outer.flatMap fun x => x.2.rest

/-- What completes the parse. -/
def completion (p : Parser) : List TokenKind :=
  match p.focus with
  | .expression => .identifier :: closing p.enclosing
  | .head _ => .identifier :: .rightParen :: closing p.enclosing
  | .name _ => .identifier :: .identifier :: .rightParen :: closing p.enclosing
  | .parameters _ =>
    .leftParen :: .rightParen :: .identifier :: .rightParen :: closing p.enclosing
  | .close _ => .rightParen :: closing p.enclosing

/-- No form is open among the arguments of a lambda in `outer`. -/
def Free (outer : List (OpenForm × Slot)) : Prop := ∀ f opening, (f, .argument opening) ∉ outer

theorem free_waiting {p : Parser} (h : ¬ p.Trapped) : Free p.waiting :=
  fun f opening hf => h ⟨f, opening, hf⟩

theorem Free.tail {x : OpenForm × Slot} {outer : List (OpenForm × Slot)} (h : Free (x :: outer)) :
    Free outer := fun f opening hf => h f opening (List.mem_cons_of_mem x hf)

section Rules

variable {d : Nat} {root : NodeBuilder} {tokens : Array Token} {outer : List (OpenForm × Slot)}
  {f : OpenForm} {w : List TokenKind} {Q : Parser → Prop}

/-- A name in the place of an expression. -/
theorem reads_identifier (hQ : Takes d root outer fun q => q.Reads w Q) :
    Reads ⟨d, root, tokens, outer, .expression⟩ (.identifier :: w) Q := by
  have hnested : NestedWithin d (weight outer) [.identifier] := by
    intro before after hw
    have hmem : TokenKind.leftParen ∈ [TokenKind.identifier] := by rw [hw]; simp
    simp at hmem
  show Reads _ ([.identifier] ++ w) Q
  exact reads_append (completes_leaf rfl hnested hQ)

theorem reads_close_cons (hQ : Takes d root outer fun q => q.Reads w Q) :
    Reads ⟨d, root, tokens, outer, .close f⟩ (.rightParen :: w) Q := by
  show Reads _ ([.rightParen] ++ w) Q
  exact reads_append (reads_close hQ)

theorem reads_close_more_cons {field : Field} (hQ : Takes d root outer fun q => q.Reads w Q) :
    Reads ⟨d, root, tokens, (f, .more field) :: outer, .expression⟩ (.rightParen :: w) Q := by
  show Reads _ ([.rightParen] ++ w) Q
  exact reads_append (reads_close_more hQ)

/-- The value of a claim or a definition, or the body of a lambda, and the parenthesis behind it. -/
theorem reads_last_value {field : Field} (hd : field ≠ .domain) (hc : field ≠ .codomain)
    (hQ : Takes d root outer fun q => q.Reads w Q) :
    Reads ⟨d, root, tokens, (f, .required field) :: outer, .expression⟩
      (.identifier :: .rightParen :: w) Q := by
  refine reads_identifier fun tokens n => ?_
  refine ⟨⟨d, root, tokens, outer, .close (f.push field n)⟩, ?_, reads_close_cons hQ⟩
  cases field with
  | domain => exact absurd rfl hd
  | codomain => exact absurd rfl hc
  | _ => rfl

/-- The end of the arguments of a lambda, its body and its end. -/
theorem reads_last_argument {opening : Span} (hQ : Takes d root outer fun q => q.Reads w Q) :
    Reads ⟨d, root, tokens, (f, .argument opening) :: outer, .expression⟩
      (.rightParen :: .identifier :: .rightParen :: w) Q := by
  refine reads_cons fun t ht => ?_
  refine ⟨_, read_of_step (.closingArguments ht), ?_⟩
  exact reads_last_value (by simp) (by simp) hQ

/-- **Enclosing forms.**  An expression among open forms, none of which is among arguments, can be
followed by what completes them. -/
theorem takes_closing (h : Free outer) :
    Takes d root outer fun q => q.Reads (closing outer) fun q => q.isIdle = true := by
  induction outer with
  | nil => exact fun tokens n => ⟨_, rfl, reads_nil rfl⟩
  | cons x outer ih =>
    obtain ⟨f, slot⟩ := x
    have houter := ih h.tail
    intro tokens n
    cases slot with
    | required field =>
      cases field with
      | domain =>
        refine ⟨_, rfl, reads_identifier fun tokens n => ⟨_, rfl, ?_⟩⟩
        exact reads_close_more_cons houter
      | codomain => exact ⟨_, rfl, reads_close_more_cons houter⟩
      | _ => exact ⟨_, rfl, reads_close_cons houter⟩
    | function | more => exact ⟨_, rfl, reads_close_more_cons houter⟩
    | argument opening => exact absurd List.mem_cons_self (h f opening)

/-- A name completes the innermost open form as far as an expression can. -/
theorem reads_closing (h : Free outer.tail) :
    Reads ⟨d, root, tokens, outer, .expression⟩ (.identifier :: closing outer)
      fun q => q.isIdle = true := by
  cases outer with
  | nil => exact reads_identifier (takes_closing h)
  | cons x outer =>
    obtain ⟨f, slot⟩ := x
    cases slot with
    | argument opening =>
      -- An argument has to be a name, which the completion is.
      refine reads_cons fun t ht => ?_
      refine ⟨_, read_of_step (.leaf (by rw [ht]; rfl) (.argument rfl)), ?_⟩
      exact reads_last_argument (takes_closing h)
    | _ =>
      refine reads_identifier (takes_closing ?_)
      intro g opening hg
      rcases List.mem_cons.1 hg with heq | hg
      · cases heq
      · exact h g opening hg

end Rules

/-- **Completions.**  A parser that has no form open among arguments and has room for the form or the
arguments that have just begun can be led to the end of the input. -/
theorem reads_completion {p : Parser} (hp : ¬ p.Trapped)
    (hroom : p.depth < p.maxDepth ∨
      (∀ opening, p.focus ≠ .head opening) ∧ ∀ f, p.focus ≠ .parameters f) :
    p.Reads p.completion fun q => q.isIdle = true := by
  have hfree := free_waiting hp
  obtain ⟨d, root, tokens, outer, focus⟩ := p
  cases focus with
  | expression => exact reads_closing hfree
  | head opening =>
    have hd := hroom.resolve_right fun h => h.1 _ rfl
    rw [depth_eq] at hd
    have hd : weight outer < d := by simpa [Focus.openings] using hd
    refine reads_application hd (fun word => TokenKind.noConfusion) fun f => ?_
    exact reads_identifier fun tokens n => ⟨_, rfl, reads_close_more_cons (takes_closing hfree)⟩
  | name f =>
    refine reads_cons fun t ht => ⟨_, read_of_step (.name ht), ?_⟩
    refine reads_last_value ?_ ?_ (takes_closing hfree)
    · cases f.node.kind <;> exact Field.noConfusion
    · cases f.node.kind <;> exact Field.noConfusion
  | parameters f =>
    have hd := hroom.resolve_right fun h => h.2 _ rfl
    refine reads_cons fun t ht => ⟨_, read_of_step (.parameters ht hd), ?_⟩
    exact reads_last_argument (takes_closing hfree)
  | close f => exact reads_close_cons (takes_closing hfree)

/-- A form is completed with names and parentheses alone. -/
theorem mem_rest {slot : Slot} :
    ∀ k ∈ slot.rest, k ∈ [TokenKind.identifier, .leftParen, .rightParen] := by
  cases slot with
  | required field => cases field <;> simp [Slot.rest]
  | _ => simp [Slot.rest]

/-- The words that completions are made of. -/
theorem mem_completion {p : Parser} :
    ∀ k ∈ p.completion, k ∈ [TokenKind.identifier, .leftParen, .rightParen] := by
  have hclosing : ∀ k ∈ closing p.enclosing,
      k ∈ [TokenKind.identifier, .leftParen, .rightParen] := by
    intro k hk
    obtain ⟨x, -, hk⟩ := List.mem_flatMap.1 hk
    exact mem_rest k hk
  rw [completion]
  split <;> simpa using hclosing

end Parser

/-! ## Texts that complete a parse -/

/-- A text for a token of the class. -/
def TokenKind.word : TokenKind → List Char
  | leftParen => ['(']
  | rightParen => [')']
  | _ => ['x']

/-- A text for tokens of the classes `w`, with a blank behind each. -/
def wordsOf (w : List TokenKind) : List Char := w.flatMap fun k => k.word ++ [' ']

namespace Lexer

/-- Text that follows a blank continues no name. -/
theorem isNameBody_space {text : List Char} : ∀ c ∈ (' ' :: text).head?, isNameBody c = false := by
  intro c hc
  cases hc
  decide

/-- A word of a completion is one token, in every mode. -/
theorem lexeme_word {k : TokenKind} (hk : k ∈ [TokenKind.identifier, .leftParen, .rightParen])
    (arrows : Bool) (mode : LexMode) (text : List Char) :
    lexeme arrows mode (k.word ++ ' ' :: text) = .ok (k, k.word.length) ∧
      Cursor.trivia? (k.word ++ ' ' :: text) = none := by
  have hall : ∀ arrows, ∀ mode ∈ [LexMode.plain, .head, .topLevelHead],
      ∀ k ∈ [TokenKind.identifier, .leftParen, .rightParen],
        lexeme arrows mode k.word = .ok (k, k.word.length) ∧ k.word ≠ [] ∧
          Cursor.trivia? k.word = none := by decide
  obtain ⟨hown, hne, htrivia⟩ := hall arrows mode (by cases mode <;> decide) k hk
  rw [lexeme_append hne isNameBody_space]
  exact ⟨hown, Cursor.trivia?_append_of_none _ hne htrivia⟩

/-- The words of a text are scanned behind any gap. -/
theorem exists_scan_of_words {w : List TokenKind}
    (hw : ∀ k ∈ w, k ∈ [TokenKind.identifier, .leftParen, .rightParen]) {v : List Char}
    (hv : IsGap v) (s : Schedule) (arrows : Bool) (o : Nat) :
    ∃ ts last, Scan s ⟨arrows, ⟨o, v ++ wordsOf w⟩⟩ ts last ∧ ts.map Token.kind = w ∧
      IsLastGap last.cursor.rest := by
  induction w generalizing v s o with
  | nil => exact ⟨[], _, .nil, rfl, by simpa [wordsOf] using hv.isLastGap⟩
  | cons k w ih =>
    obtain ⟨hk, hw⟩ := List.forall_mem_cons.1 hw
    obtain ⟨hlexeme, htrivia⟩ := lexeme_word hk arrows s.mode (wordsOf w)
    obtain ⟨t, o', ht, hkind, -⟩ := exists_next_of_gap hv hlexeme htrivia o
    obtain ⟨ts, last, hts, hkinds, hlast⟩ := ih hw isGap_space (s.after t) o'
    refine ⟨t :: ts, last, .cons ?_ ?_ hts, by rw [List.map_cons, hkind, hkinds], hlast⟩
    · have htext : v ++ wordsOf (k :: w) = v ++ (k.word ++ ' ' :: wordsOf w) := by simp [wordsOf]
      rw [htext]
      exact ht
    · rw [hkind]
      rintro rfl
      simp at hk

end Lexer

/-- A parser that is led to the end of the input makes a tree. -/
theorem Parser.exists_tree_of_reads {p : Parser} {lx last : Lexer} {us : List Token}
    (hus : Scan p.schedule lx us last)
    (hp : p.Reads (us.map Token.kind) fun q => q.isIdle = true)
    (hlast : IsLastGap last.cursor.rest) : ∃ tree, p.run lx = .ok tree := by
  obtain ⟨q, hq, hidle⟩ := hp us rfl
  obtain ⟨t, last', ht, hk⟩ := exists_end_of_lastGap q.mode hlast
  refine ⟨q.tree t, ?_⟩
  rw [run_of_scan hus hq]
  exact run_of_ending (.finished ht hidle hk)

section Parse

variable {settings : Settings} {source : List Char} {here : Lexer}

/-- Words on a new line complete a text. -/
theorem exists_completion {ts : List Token} {q : Parser}
    (hts : Scan .initial (.ofSource settings.arrows source) ts here)
    (hq : (Parser.initial settings.maxDepth).readAll ts = .ok q)
    (hgap : IsLastGap here.cursor.rest)
    (hreads : q.Reads q.completion fun q => q.isIdle = true) :
    ∃ more tree, parse settings (source ++ more) = .ok tree := by
  have hrun : parse settings (source ++ '\n' :: wordsOf q.completion) =
      q.run (here.append ('\n' :: wordsOf q.completion)) :=
    Parser.run_of_scan (hts.append isNameBody_lineFeed) hq
  obtain ⟨us, last, hus, hkinds, hlast⟩ := exists_scan_of_words Parser.mem_completion
    hgap.append_lineFeed q.schedule here.arrows here.cursor.offset
  rw [List.append_assoc] at hus
  rw [← hkinds] at hreads
  obtain ⟨tree, htree⟩ := Parser.exists_tree_of_reads hus hreads hlast
  exact ⟨_, tree, hrun.trans htree⟩

/-- The keyword of a lambda at the end of a text becomes a name when the word goes on, but for the
mark. -/
theorem lexeme_longer_keyword {u : List Char} (hu : u ∈ Keyword.lambda.spellings) (hne : u ≠ ['\\'])
    (arrows : Bool) (mode : LexMode) :
    lexeme arrows mode (u ++ ['x']) = .ok (.identifier, (u ++ ['x']).length) := by
  have hall : ∀ arrows, ∀ mode ∈ [LexMode.plain, .head, .topLevelHead],
      ∀ u ∈ Keyword.lambda.spellings, u ≠ ['\\'] →
        lexeme arrows mode (u ++ ['x']) = .ok (.identifier, (u ++ ['x']).length) := by decide
  exact hall arrows mode (by cases mode <;> decide) u hu hne

/-- A longer word in the place of the keyword at its end completes a text. -/
theorem exists_completion_of_keyword {front : List Token} {kw : Token} {p : Parser} {opening : Span}
    (hts : Scan .initial (.ofSource settings.arrows source) (front ++ [kw]) here)
    (hp : (Parser.initial settings.maxDepth).readAll front = .ok p) (hf : p.focus = .head opening)
    (hreads : p.Reads p.completion fun q => q.isIdle = true) (hkw : kw.kind = .keyword .lambda)
    (hmark : kw.text ≠ ['\\']) (hrest : here.cursor.rest = []) :
    ∃ more tree, parse settings (source ++ more) = .ok tree := by
  obtain ⟨there, next, hfront, hend, took, hnil⟩ := hts.cut
  cases hnil
  have hcompletion : p.completion =
      .identifier :: .rightParen :: Parser.closing p.enclosing := by rw [Parser.completion, hf]
  generalize hw : TokenKind.rightParen :: Parser.closing p.enclosing = w at hcompletion
  have hwords : ∀ k ∈ w, k ∈ [TokenKind.identifier, .leftParen, .rightParen] := fun k hk =>
    Parser.mem_completion k (by rw [hcompletion]; exact List.mem_cons_of_mem _ hk)
  -- The longer word is lexed at the place of the keyword, and the parser has only read what is
  -- before it.
  have hsource : source = front.flatMap Token.source ++ kw.source := by
    have hall := hts.rest_eq
    rw [hrest, List.append_nil, List.flatMap_append, List.flatMap_singleton] at hall
    exact hall
  have hrun : parse settings (source ++ 'x' :: ' ' :: wordsOf w) =
      p.run (there.before (kw.source ++ 'x' :: ' ' :: wordsOf w)) := by
    have hne : kw.source ≠ [] := by simp [Token.source, took.text_ne_nil hend]
    conv_lhs => rw [hsource]
    exact parse_exchange_append hfront hp took.rest_eq hne _
  have hlexeme : lexeme there.arrows p.mode ((kw.text ++ ['x']) ++ ' ' :: wordsOf w) =
      .ok (.identifier, (kw.text ++ ['x']).length) := by
    rw [lexeme_append (by simp) isNameBody_space]
    exact lexeme_longer_keyword (took.text_mem_spellings hkw) hmark _ _
  have htrivia := took.skipTrivia_before hend ('x' :: ' ' :: wordsOf w)
  rw [show kw.text ++ 'x' :: ' ' :: wordsOf w = (kw.text ++ ['x']) ++ ' ' :: wordsOf w by simp]
    at htrivia
  have hnext := next_of_lexeme htrivia hlexeme
  obtain ⟨us, last, hus, hkinds, hlast⟩ := exists_scan_of_words hwords isGap_space
    (p.schedule.after _) there.arrows _
  have hscan : Scan p.schedule (there.before (kw.source ++ 'x' :: ' ' :: wordsOf w)) _ last :=
    .cons hnext TokenKind.noConfusion hus
  rw [hcompletion, ← hkinds] at hreads
  obtain ⟨tree, htree⟩ := Parser.exists_tree_of_reads hscan hreads hlast
  exact ⟨_, tree, hrun.trans htree⟩

/-- A text that asks for more has been read to its end, which is inside a form. -/
theorem exists_scan_of_needsMoreInput (h : needsMoreInput settings source = true) :
    ∃ ts q here last t, Scan .initial (.ofSource settings.arrows source) ts here ∧
      (Parser.initial settings.maxDepth).readAll ts = .ok q ∧
      here.next q.mode = (.ok t, last) ∧ t.kind = .endOfInput ∧ ¬ q.IsSpent ∧
      tokenize settings.arrows source = .ok (ts ++ [t]) := by
  obtain ⟨ts, q, here, hts, hq, hend⟩ := parse_ending settings source
  rw [needsMoreInput] at h
  cases hparse : parse settings source with
  | ok tree =>
    rw [hparse] at h
    cases h
  | error e =>
    rw [hparse] at h hend
    cases hend with
    | lexical => cases h
    | @refused t last failure ht hr hk =>
      have hrefusal := Parser.refusal_of_read hr
      have htend := Parser.kind_of_incomplete hrefusal h
      have hidle : q.isIdle = false := Bool.eq_false_iff.2 fun hp => hk hp htend
      have hspent := (Parser.isIncomplete_iff_of_end hrefusal htend hidle).1 h
      refine ⟨ts, q, here, last, t, hts, hq, ht, htend, hspent, ?_⟩
      rw [← Parser.mode_of_readAll hq] at ht
      exact hts.tokenize_eq ht htend

/-- Where there is no room for the arguments of a lambda, a text is completed by another word in the
place of the keyword, or it has come to a dead end. -/
theorem exists_completion_of_parameters {ts : List Token} {q : Parser} {last : Lexer} {t : Token}
    {f : OpenForm} (hts : Scan .initial (.ofSource settings.arrows source) ts here)
    (hq : (Parser.initial settings.maxDepth).readAll ts = .ok q)
    (ht : here.next q.mode = (.ok t, last)) (hend : t.kind = .endOfInput)
    (hf : q.focus = .parameters f) (hfull : q.maxDepth ≤ q.depth) (hfree : ¬ q.Trapped)
    (hopen : ¬ DeadEnd settings.maxDepth ts t) :
    ∃ more tree, parse settings (source ++ more) = .ok tree := by
  have hschedule : q.schedule = Schedule.initial.afterAll ts := Parser.schedule_of_readAll hq
  have hlambda : q.schedule.afterLambda = true := by rw [Parser.schedule, hf]
  rw [hschedule] at hlambda
  obtain ⟨front, kw, rfl, hkw⟩ := Schedule.afterLambda_iff.1 hlambda
  have hdepth : (Schedule.initial.afterAll (front ++ [kw])).depth = settings.maxDepth := by
    have hmax : q.maxDepth = settings.maxDepth := Parser.maxDepth_of_readAll hq
    have hle := Parser.depth_le_of_readAll hq (Nat.zero_le _)
    rw [← hschedule, Parser.depth_schedule_of_parameters hf]
    omega
  -- Since this is no dead end, the keyword is a word that can go on, and the text ends with it.
  have hmark : kw.text ≠ ['\\'] := fun htext => hopen (.parameters hkw hdepth (Or.inl htext))
  have hleading : t.leading = [] := by
    by_contra hne
    exact hopen (.parameters hkw hdepth (Or.inr hne))
  have took := took_of_next ht
  have hrest : here.cursor.rest = [] := by
    obtain ⟨htext, hlast⟩ := took.end_of_kind hend
    rw [took.rest_eq, Token.source, hleading, htext, hlast]
    rfl
  -- Before the keyword the parser was in the same forms, and there was room for this one.
  obtain ⟨p, hp, hstep⟩ := Parser.exists_step_of_readAll_concat hq
  obtain ⟨⟨opening, hpf⟩, hroom, -, henclosing⟩ := Parser.step_lambda_cases hstep hkw
  have hpfree : ¬ p.Trapped := by
    rintro ⟨g, span, hg⟩
    refine hfree ⟨g, span, ?_⟩
    rw [Parser.waiting, hpf] at hg
    rw [Parser.waiting, hf, henclosing]
    exact hg
  exact exists_completion_of_keyword hts hp hpf (Parser.reads_completion hpfree (Or.inl hroom)) hkw
    hmark hrest

/-- **Texts that ask for more.**  A text that ends inside a form can be completed if and only if it
has not come to a dead end. -/
theorem completable_iff_not_deadEnd (h : needsMoreInput settings source = true) :
    ∃ ts t, tokenize settings.arrows source = .ok (ts ++ [t]) ∧ t.kind = .endOfInput ∧
      ((∃ more tree, parse settings (source ++ more) = .ok tree) ↔
        ¬ DeadEnd settings.maxDepth ts t) := by
  obtain ⟨ts, q, here, last, t, hts, hq, ht, hend, hspent, htokens⟩ :=
    exists_scan_of_needsMoreInput h
  refine ⟨ts, t, htokens, hend, ?_, fun hopen => ?_⟩
  · rintro ⟨more, tree, htree⟩ hdead
    obtain ⟨e, he⟩ := exists_error_of_deadEnd hts hq ht hdead more
    rw [he] at htree
    cases htree
  · have hfree : ¬ q.Trapped := by
      intro htrapped
      obtain ⟨k, hk⟩ := Parser.pattern_of_trapped htrapped (Parser.accounts_of_scan hts hq)
      rw [Parser.tokens_of_readAll hq] at hk
      exact hopen (.argument hk)
    have hgap := isLastGap_of_end ht hend
    by_cases hroom : q.depth < q.maxDepth
    · exact exists_completion hts hq hgap (Parser.reads_completion hfree (Or.inl hroom))
    · rw [Nat.not_lt] at hroom
      have hhead : ∀ opening, q.focus ≠ .head opening := fun _ hf => hspent ⟨⟨_, hf⟩, hroom⟩
      by_cases hf : ∃ f, q.focus = .parameters f
      · obtain ⟨f, hf⟩ := hf
        exact exists_completion_of_parameters hts hq ht hend hf hroom hfree hopen
      · have hfocus : ∀ f, q.focus ≠ .parameters f := fun f hparameters => hf ⟨f, hparameters⟩
        exact exists_completion hts hq hgap
          (Parser.reads_completion hfree (Or.inr ⟨hhead, hfocus⟩))

end Parse

/-- The beginning of an application asks for more. -/
theorem completable_iff_not_deadEnd_application :
    needsMoreInput {} "(f".toList = true ∧
      ∃ ts t, tokenize (Settings.arrows {}) "(f".toList = .ok (ts ++ [t]) ∧ t.kind = .endOfInput ∧
        ((∃ more tree, parse {} ("(f".toList ++ more) = .ok tree) ↔
          ¬ DeadEnd (Settings.maxDepth {}) ts t) := by
  have h : needsMoreInput {} "(f".toList = true := by decide +kernel
  exact ⟨h, completable_iff_not_deadEnd h⟩

/-- Not every text that asks for more can be completed: behind the beginning of a form among the
arguments of a lambda no text helps. -/
theorem not_completable_of_needsMoreInput :
    ¬ ∀ (settings : Settings) (source : List Char), 1 ≤ settings.maxDepth →
      needsMoreInput settings source = true →
        ∃ more tree, parse settings (source ++ more) = .ok tree := by
  intro hall
  have h : needsMoreInput {} "(lambda ((".toList = true := by decide +kernel
  obtain ⟨more, tree, htree⟩ := hall {} _ (by decide) h
  obtain ⟨ts, q, here, last, t, hts, hq, ht, htend, -, htokens⟩ := exists_scan_of_needsMoreInput h
  have hkinds : (tokenize (Settings.arrows {}) "(lambda ((".toList).toOption.map
      (fun us => us.map Token.kind) =
        some [.leftParen, .keyword .lambda, .leftParen, .leftParen, .endOfInput] := by
    decide +kernel
  rw [htokens] at hkinds
  have hpattern : (ts.map Token.kind) ++ [t.kind] =
      [.leftParen] ++ Parser.argumentPattern 0 ++ [.endOfInput] := by
    simpa [Except.toOption, Parser.argumentPattern] using hkinds
  obtain ⟨hpattern, -⟩ := List.append_inj' hpattern rfl
  have hdead : DeadEnd 256 ts t := .argument (k := 0) ⟨[.leftParen], [], by simp [hpattern]⟩
  obtain ⟨e, he⟩ := exists_error_of_deadEnd hts hq ht hdead more
  rw [he] at htree
  cases htree

end PieSyntax
