/-
# Function types under both settings

A source can be parsed with the arrow as a keyword, which makes function types, or as a name, which
makes applications.  Main statement: the two parses go hand in hand, and where only the second
succeeds an arrow has fewer than two arguments (`function_types_correspond`).
-/
import PieSyntax.Proofs.Applied
import PieSyntax.Proofs.Holdings

namespace PieSyntax

open Lexer (Scan Took)

/-! ## The token behind a parenthesis -/

/-- The first token that begins behind another one is its neighbour. -/
theorem find?_of_infix {ts rest : List Token} {opening t : Token} (hts : InOrder ts)
    (h : opening :: t :: rest <:+: ts) :
    ts.find? (fun u => opening.span.start < u.span.start) = some t := by
  obtain ⟨before, after, rfl⟩ := h
  have hsplit : before ++ opening :: t :: rest ++ after =
      (before ++ [opening]) ++ t :: (rest ++ after) := by simp
  rw [hsplit] at hts ⊢
  have hopening := hts.start_lt opening (by simp)
  obtain ⟨hbefore, -, hcross⟩ := List.pairwise_append.1 hts.pairwise
  refine List.find?_eq_some_iff_append.2 ⟨?_, before ++ [opening], rest ++ after, rfl, ?_⟩
  · have := hcross opening (by simp) t List.mem_cons_self
    exact decide_eq_true (by omega)
  · intro u hu
    rcases List.mem_append.1 hu with hu | hu
    · have hlt := hts.start_lt u (by simp [hu])
      have hle := (List.pairwise_append.1 hbefore).2.2 u hu opening List.mem_cons_self
      simp only [Bool.not_eq_true', decide_eq_false_iff_not]
      omega
    · simp [List.mem_singleton.1 hu]

theorem arrowLeaf?_of_infix {ts rest : List Token} {opening t : Token} (hts : InOrder ts)
    (h : opening :: t :: rest <:+: ts) :
    arrowLeaf? ts opening.span.start = some (some .function, .leaf .identifier t.span t.text) := by
  rw [arrowLeaf?, find?_of_infix hts h]
  rfl

namespace Parser

variable {maxDepth : Nat} {lx here last : Lexer} {ts : List Token} {p q : Parser} {t : Token}

/-- The parentheses that are open are tokens that have been read. -/
theorem exists_of_mem_openSpans (h : (initial maxDepth).readAll ts = .ok p) :
    ∀ s ∈ p.openSpans, ∃ u ∈ ts, u.span = s := by
  refine readAll_invariant (I := fun us p => ∀ s ∈ p.openSpans, ∃ u ∈ us, u.span = s) h ?_ ?_
  · exact fun s hs => absurd hs List.not_mem_nil
  · intro us r t r' hr hstep s hs
    rcases openSpans_of_step hstep s hs with hs | rfl
    · obtain ⟨u, hu, hspan⟩ := hr s hs
      exact ⟨u, List.mem_append_left _ hu, hspan⟩
    · exact ⟨t, by simp, rfl⟩

/-- The keyword is lexed at heads alone. -/
theorem exists_head_of_arrow (took : Took here p.mode t last) (ht : t.kind = .keyword .arrow) :
    ∃ opening, p.focus = .head opening := by
  have hadmits := admits_of_lexeme took.lexeme_eq
  rw [ht] at hadmits
  cases hf : p.focus with
  | head opening => exact ⟨opening, rfl⟩
  | _ =>
    rw [mode, hf] at hadmits
    cases hadmits

/-- The keyword is lexed at every head. -/
theorem allows_arrow_of_head {opening : Span} (hf : p.focus = .head opening) :
    p.mode.allows true .arrow = true := by
  rw [mode, hf]
  show LexMode.allows _ (if p.enclosing.isEmpty then .topLevelHead else .head) _ = _
  split <;> rfl

/-! ## Reading without the keyword -/

/-- **Runs.**  What is read with the keyword is read without it. -/
theorem readAll_applied (hts : Scan .initial lx ts last)
    (hq : (initial maxDepth).readAll ts = .ok q) :
    (initial maxDepth).readAll (ts.map Token.demote) = .ok (q.applied ts) := by
  have horder := hts.inOrder
  refine readAll_induction (I := fun before p =>
    (initial maxDepth).readAll (before.map Token.demote) = .ok (p.applied ts)) hts hq ?_ ?_
  · simp [initial, applied, applied_empty, appliedForms, Focus.applied]
  · intro before t after here next p r hcut hbefore hp took hk hstep ih
    rw [hcut] at horder
    have hle : ∀ s ∈ p.openSpans, s.start ≤ t.span.start := by
      intro s hs
      obtain ⟨u, hu, rfl⟩ := exists_of_mem_openSpans hp s hs
      have hlt := horder.start_lt u (List.mem_append_left _ hu)
      have hstop := (List.pairwise_append.1 horder.pairwise).2.2 u hu t List.mem_cons_self
      omega
    have hfound : ∀ opening, p.focus = .head opening → t.kind = .keyword .arrow →
        ts.find? (fun u => opening.start < u.span.start) = some t := by
      intro opening hfocus _
      obtain ⟨first, o, rfl, -, rfl⟩ := exists_opening_of_head hbefore hp hfocus
      have hnext : o :: t :: after <:+: first ++ [o] ++ t :: after := ⟨first, [], by simp⟩
      rw [hcut]
      exact find?_of_infix horder hnext
    rw [List.map_append, readAll_append, ih]
    show readAll _ [t.demote] = _
    rw [readAll_cons, read_of_step (step_applied ts hstep hle hfound)]
    rfl

end Parser

section Parse

variable {maxDepth : Nat} {source : List Char} {tree : SyntaxTree}

/-- The parse without the keyword goes on from where the other one has come. -/
theorem parse_eq_run_applied {ts : List Token} {p : Parser} {here : Lexer}
    (hts : Scan .initial (.ofSource true source) ts here)
    (hp : (Parser.initial maxDepth).readAll ts = .ok p) :
    parse ⟨.application, maxDepth⟩ source = (p.applied ts).run here.demote :=
  Parser.run_of_scan hts.demote (Parser.readAll_applied hts hp)

/-- **Trees.**  What parses with the keyword parses without it, and function types are applications
then. -/
theorem parse_applied (h : parse ⟨.production, maxDepth⟩ source = .ok tree) :
    parse ⟨.application, maxDepth⟩ source = .ok tree.applied := by
  obtain ⟨q, here, last, t, hts, hq, hidle, ht, hk, htree⟩ := exists_scan_of_parse h
  have htokens : tree.tokens = q.tokens.toList := by rw [htree]; rfl
  have hdemote : t.demote = t := Token.demote_of_ne (by rw [hk]; simp)
  have hnext : here.demote.next (q.applied tree.tokens).mode = (.ok t, last.demote) := by
    rw [Parser.mode_applied, Lexer.next_demote, ht, Except.map, hdemote]
  rw [← Parser.isIdle_applied tree.tokens] at hidle
  rw [parse_eq_run_applied hts hq, Parser.run_of_ending (.finished hnext hidle hk), htokens,
    Parser.tree_applied, htree]

/-- A function type has an arrow right behind its parenthesis, a domain and a codomain. -/
theorem exists_arrow_of_mem_descendants {settings : Settings}
    (h : parse settings source = .ok tree) {n : Node} (hn : n ∈ tree.root.descendants)
    (hk : n.kind = .form .functionType) :
    ∃ t ∈ tree.tokens, t.kind = .keyword .arrow ∧
      arrowLeaf? tree.tokens n.span.start =
        some (some .function, .leaf .identifier t.span t.text) ∧
      ∃ domain codomain rest, n.labelled =
        (some .domain, domain) :: (some .codomain, codomain) :: rest := by
  rcases spelled_of_mem_descendants h hn with rfl | ⟨us, hus, hspelled⟩
  · obtain ⟨parts, hroot, -⟩ := exists_parts_of_parse h
    rw [hroot] at hk
    cases hk
  · cases hspelled with
    | leaf => cases hk
    | @form kind opening closing parts inside ho hc hl hp hx =>
      cases hk
      cases hl with
      | binding hb => cases hb
      | @functionType kw domain codomains hw hd hne hcodomains =>
        have harrow := arrowLeaf?_of_infix (inOrder_of_parse h) hus
        refine ⟨kw, hus.subset (by simp), hw, harrow, ?_⟩
        obtain ⟨codomain, rest, rfl⟩ := List.exists_cons_of_ne_nil hne
        refine ⟨domain.node, codomain.node, rest.map Part.child, ?_⟩
        rw [← hd, ← hcodomains codomain List.mem_cons_self]
        rfl

/-! ## Where the keyword has no equal -/

/-- Where the arrow is a keyword it is never the name of a function. -/
theorem not_mem_spellings_of_holds (h : parse ⟨.production, maxDepth⟩ source = .ok tree)
    {s : Span} {text : List Char}
    (hn : tree.root.Holds (some .function, .leaf .identifier s text)) :
    text ∉ Keyword.arrow.spellings := by
  obtain ⟨q, here, last, t, hts, hq, hidle, -, -, htree⟩ := exists_scan_of_parse h
  refine Parser.readAll_induction (I := fun _ p =>
    ∀ s text, p.Holds (some .function, .leaf .identifier s text) →
      text ∉ Keyword.arrow.spellings) hts hq ?_ ?_ s text ?_
  · intro s text hnone
    rw [Parser.holds_of_isIdle rfl] at hnone
    exact absurd hnone NodeBuilder.not_holds_empty
  · intro before t after here next p r hcut hbefore hp took hk hstep ih s text hr
    cases Parser.grows_of_step hstep with
    | same hgrows => exact ih s text ((hgrows _).1 hr)
    | @leaf field kind ht hf hgrows =>
      rcases (hgrows _).1 hr with hold | hnew
      · exact ih s text hold
      · cases hnew
        -- The name was read at a head, where the arrow would have been the keyword.
        obtain ⟨opening, hfocus⟩ := (hf rfl).exists_head hbefore hp
        intro htext
        have hallows : p.mode.allows here.arrows .arrow = true := by
          rw [hbefore.arrows_eq]
          exact Parser.allows_arrow_of_head hfocus
        rw [took.kind_of_spelling hk htext hallows] at ht
        cases ht
    | form hleaf hgrows =>
      rcases (hgrows _).1 hr with hold | hnew
      · exact ih s text hold
      · cases hnew
        cases hleaf
  · rw [Parser.holds_of_isIdle hidle, ← NodeBuilder.holds_finish (s := ⟨0, t.span.stop⟩)]
    rw [htree] at hn
    exact hn

/-- Every application of an arrow below `root` has at least two arguments. -/
def ArrowsTakeTwo (root : Node) : Prop :=
  ∀ n ∈ root.descendants, n.kind = .form .application →
    ∀ s text, n.field? .function = some (.leaf .identifier s text) →
      text ∈ Keyword.arrow.spellings → 2 ≤ (n.fieldsOf .arguments).length

theorem Node.mem_labelled_of_field? {n m : Node} {field : Field} (h : n.field? field = some m) :
    (some field, m) ∈ n.labelled := by
  obtain ⟨⟨label, k⟩, hmem, hlabel⟩ := List.mem_filterMap.1 (List.mem_of_head? h)
  split at hlabel
  · next heq =>
    cases hlabel
    rwa [← heq]
  · cases hlabel

/-- **Function types are long enough.**  A tree that has been parsed with the keyword gives two
arguments to every arrow. -/
theorem arrowsTakeTwo_applied (h : parse ⟨.production, maxDepth⟩ source = .ok tree) :
    ArrowsTakeTwo tree.applied.root := by
  intro n hn hkind s text hfield htext
  rcases Node.mem_descendants_applied tree.tokens hn with ⟨m, hm, rfl⟩ | hleaf
  · cases m with
    | leaf => cases hkind
    | form kind span cs =>
      cases kind with
      | functionType =>
        obtain ⟨t, -, -, harrow, domain, codomain, rest, hcs⟩ :=
          exists_arrow_of_mem_descendants h hm rfl
        obtain rfl : cs = _ := hcs
        have hfront : FormKind.front tree.tokens span.start .functionType = _ :=
          congrArg Option.toList harrow
        simp [Node.fieldsOf, Node.labelled, Node.applied, Node.appliedAll, hfront, Field.applied]
      | application =>
        -- Its function would be a name where the arrow is a keyword.
        have hlabelled := Node.mem_labelled_of_field? hfield
        rw [Node.applied, Node.appliedAll_eq_map] at hlabelled
        obtain ⟨c, hc, hchild⟩ := List.mem_map.1 hlabelled
        rw [Node.eq_of_appliedChild_eq hchild] at hc
        have hholds : tree.root.Holds (some .function, .leaf .identifier s text) := ⟨_, hm, hc⟩
        exact absurd htext (not_mem_spellings_of_holds h hholds)
      | _ => cases hkind
  · rw [hkind] at hleaf
    cases hleaf

/-! ## Function types that are too short -/

/-- A form that waits for its domain or its first codomain has begun with the arrow. -/
theorem Begun.exists_arrow {kind : FormKind} {field : Field} {parts : List Part} {ts : List Token}
    (h : Begun kind (.slot (.required field)) parts ts) (hf : field = .domain ∨ field = .codomain) :
    kind = .functionType ∧ parts.length ≤ 1 ∧
      ∃ kw rest, ts = kw :: rest ∧ kw.kind = .keyword .arrow := by
  cases h with
  | value hk hw ht hfield =>
    rw [← hfield] at hf
    cases hk <;> simp [Parser.valueField] at hf
  | body => simp at hf
  | domain hw => exact ⟨rfl, Nat.zero_le 1, _, _, rfl, hw⟩
  | codomain hw hd => exact ⟨rfl, Nat.le_refl 1, _, _, rfl, hw⟩

/-- Where a function type waits for an expression that it has to have, it has at most one, and the
token behind its parenthesis is an arrow. -/
theorem exists_arrow_of_required {lx last : Lexer} {ts : List Token} {p : Parser} {f : OpenForm}
    {field : Field} {outer : List (OpenForm × Slot)} (hts : Scan .initial lx ts last)
    (hp : (Parser.initial maxDepth).readAll ts = .ok p)
    (henclosing : p.enclosing = (f, .required field) :: outer)
    (hf : field = .domain ∨ field = .codomain) :
    f.node.kind = .functionType ∧ f.node.children.size ≤ 1 ∧ ∃ s text,
      arrowLeaf? ts f.opening.start = some (some .function, .leaf .identifier s text) ∧
      text ∈ Keyword.arrow.spellings := by
  obtain ⟨us, vs, henc, -, htokens⟩ := Parser.accounts_of_scan hts hp
  have hall : p.tokens.toList = ts := Parser.tokens_of_readAll hp
  rw [hall] at htokens
  rw [henclosing] at henc
  generalize p.root = root at henc
  cases henc with
  | @form _ f slot outer us ws henc hread hfit =>
    cases hread with
    | @intro opening kind place parts inside ho hparts hexpr hb =>
      obtain ⟨rfl, hlength, kw, rest, rfl, hkw⟩ := hb.exists_arrow hf
      have hbehind : opening :: kw :: rest <:+: ts := ⟨us, vs, htokens.symm⟩
      refine ⟨rfl, by simpa using hlength, kw.span, kw.text,
        arrowLeaf?_of_infix hts.inOrder hbehind, ?_⟩
      have hmem : kw ∈ ts := hbehind.subset (by simp)
      obtain ⟨before, here, next, -, -, took⟩ := hts.exists_took hmem
      exact took.text_mem_spellings hkw

/-- Closed early, such a function type is an application of its arrow to too few arguments. -/
theorem not_arrowsTakeTwo_of_close {ts : List Token} {f : OpenForm} {closing s : Span}
    {text : List Char} {root : Node} (hkind : f.node.kind = .functionType)
    (hsize : f.node.children.size ≤ 1)
    (harrow : arrowLeaf? ts f.opening.start = some (some .function, .leaf .identifier s text))
    (htext : text ∈ Keyword.arrow.spellings)
    (hmem : (f.applied ts).close closing ∈ root.descendants) : ¬ ArrowsTakeTwo root := by
  intro h
  obtain ⟨opening, kind, children⟩ := f
  obtain rfl : kind = _ := hkind
  have hfront : FormKind.front ts opening.start .functionType = _ := congrArg Option.toList harrow
  have hlabelled : ((OpenForm.applied ts ⟨opening, .functionType, children⟩).close
      closing).labelled = (some .function, .leaf .identifier s text) ::
        (children.map (Node.appliedChild ts)).toList := by
    simp [OpenForm.close, OpenForm.applied, NodeBuilder.applied, NodeBuilder.finish, hfront,
      Node.labelled]
  have htwo := h _ hmem rfl s text (by simp [Node.field?, Node.fieldsOf, hlabelled]) htext
  have hone : (((OpenForm.applied ts ⟨opening, .functionType, children⟩).close
      closing).fieldsOf .arguments).length ≤ 1 := by
    rw [Node.fieldsOf, hlabelled, List.filterMap_cons_none (by simp)]
    refine Nat.le_trans (List.length_filterMap_le _ _) ?_
    simpa using hsize
  omega

/-- What parses only without the keyword has a function type that ends too early. -/
theorem exists_early_of_error {e : SyntaxError}
    (he : parse ⟨.production, maxDepth⟩ source = .error e)
    (h : parse ⟨.application, maxDepth⟩ source = .ok tree) :
    ∃ ts p here t last error, Scan .initial (.ofSource true source) ts here ∧
      (Parser.initial maxDepth).readAll ts = .ok p ∧ here.next p.mode = (.ok t, last) ∧
      p.EndsArrowEarly t error ∧ e = .grammatical error := by
  obtain ⟨ts, p, here, hts, hp, hend⟩ := parse_ending ⟨.production, maxDepth⟩ source
  have hrun := (parse_eq_run_applied hts hp).symm.trans h
  have hdemote := here.next_demote p.mode
  rw [he] at hend
  cases hend with
  | @lexical e last hnext =>
    rw [hnext, ← Parser.mode_applied ts] at hdemote
    rw [Parser.run_of_ending (.lexical hdemote)] at hrun
    cases hrun
  | @refused t last e hnext hread hk =>
    rcases Parser.refusal_applied ts (Parser.refusal_of_read hread)
      (Parser.exists_head_of_arrow (Lexer.took_of_next hnext)) with ⟨e', hrefusal⟩ | hearly
    · -- The parser without the keyword would have failed too.
      rw [hnext, ← Parser.mode_applied ts] at hdemote
      have hend : (p.applied ts).isIdle = true → t.demote.kind ≠ .endOfInput := by
        rw [Parser.isIdle_applied]
        intro hidle
        rw [Token.demote, Ne, TokenKind.demote_eq_iff (by simp) (by simp)]
        exact hk hidle
      rw [Parser.run_of_ending (.refused hdemote (Parser.read_of_refusal hrefusal) hend)] at hrun
      cases hrun
    · exact ⟨ts, p, here, t, last, e, hts, hp, hnext, hearly, rfl⟩

/-- **Errors.**  What parses only without the keyword has an arrow with too few arguments, and that is
the error with the keyword. -/
theorem short_arrow_of_error {e : SyntaxError}
    (he : parse ⟨.production, maxDepth⟩ source = .error e)
    (h : parse ⟨.application, maxDepth⟩ source = .ok tree) :
    ¬ ArrowsTakeTwo tree.root ∧
      ∃ s, e = .grammatical (.missingExpression .functionType s) := by
  obtain ⟨ts, p, here, t, last, error, hts, hp, hnext, hearly, rfl⟩ := exists_early_of_error he h
  obtain ⟨hparen, f, field, outer, hfocus, henclosing, hfield, rfl⟩ := hearly
  obtain ⟨hkind, hsize, s, text, harrow, htext⟩ :=
    exists_arrow_of_required hts hp henclosing hfield
  refine ⟨?_, t.span, by rw [OpenForm.production, hkind]; rfl⟩
  -- Without the keyword the same parenthesis closes an application.
  have hrun := (parse_eq_run_applied hts hp).symm.trans h
  have hopen : (p.applied ts).enclosing =
      (f.applied ts, .more .arguments) :: appliedForms ts outer := by
    show appliedForms ts p.enclosing = _
    rw [henclosing]
    rcases hfield with rfl | rfl <;> rfl
  have hexpects : (p.applied ts).focus = .expression := by
    show p.focus.applied ts = _
    rw [hfocus]
    rfl
  have hdemote : here.demote.next (p.applied ts).mode = (.ok t.demote, last.demote) := by
    rw [Parser.mode_applied, Lexer.next_demote, hnext]
    rfl
  have hcloses : t.demote.kind = .rightParen :=
    (TokenKind.demote_eq_iff (by simp) (by simp)).2 hparen
  have hclosed := Parser.close_mem_descendants hexpects hopen hdemote hcloses hrun
  exact not_arrowsTakeTwo_of_close hkind hsize harrow htext hclosed

end Parse

/-! ## The correspondence -/

/-- How a source parses with the arrow as a keyword and with the arrow as a name. -/
structure Corresponds (source : List Char) (maxDepth : Nat) : Prop where
  /-- A tree with function types is the tree without them, but for its arrows. -/
  applied : ∀ tree, parse ⟨.production, maxDepth⟩ source = .ok tree →
    parse ⟨.application, maxDepth⟩ source = .ok tree.applied
  /-- Every function type has an arrow right behind its parenthesis. -/
  arrow : ∀ tree, parse ⟨.production, maxDepth⟩ source = .ok tree →
    ∀ n ∈ tree.root.descendants, n.kind = .form .functionType →
      ∃ t ∈ tree.tokens, t.kind = .keyword .arrow ∧ arrowLeaf? tree.tokens n.span.start =
        some (some .function, .leaf .identifier t.span t.text)
  /-- A tree without function types is one with them if and only if its arrows take two
  arguments. -/
  takeTwo : ∀ tree, parse ⟨.application, maxDepth⟩ source = .ok tree →
    ((∃ tree', parse ⟨.production, maxDepth⟩ source = .ok tree') ↔ ArrowsTakeTwo tree.root)
  /-- Otherwise an expression is missing in a function type. -/
  missing : ∀ tree, parse ⟨.application, maxDepth⟩ source = .ok tree → ¬ ArrowsTakeTwo tree.root →
    ∃ s, parse ⟨.production, maxDepth⟩ source =
      .error (.grammatical (.missingExpression .functionType s))
  /-- Without an arrow at a head there is no difference. -/
  arrowFree : ArrowFree source →
    parse ⟨.application, maxDepth⟩ source = parse ⟨.production, maxDepth⟩ source

/-- **Function types.**  Every source parses alike with the arrow as a keyword and as a name, but for
the forms headed by arrows, which are function types or applications; only those with fewer than two
arguments are no function types. -/
theorem function_types_correspond (source : List Char) (maxDepth : Nat) :
    Corresponds source maxDepth where
  applied := fun tree h => parse_applied h
  arrow := by
    intro tree h n hn hk
    obtain ⟨t, ht, harrow, hleaf, -⟩ := exists_arrow_of_mem_descendants h hn hk
    exact ⟨t, ht, harrow, hleaf⟩
  takeTwo := by
    intro tree h
    constructor
    · rintro ⟨tree', h'⟩
      rw [parse_applied h'] at h
      cases h
      exact arrowsTakeTwo_applied h'
    · intro htwo
      cases h' : parse ⟨.production, maxDepth⟩ source with
      | ok tree' => exact ⟨tree', rfl⟩
      | error e => exact absurd htwo (short_arrow_of_error h' h).1
  missing := by
    intro tree h hshort
    cases h' : parse ⟨.production, maxDepth⟩ source with
    | ok tree' =>
      rw [parse_applied h'] at h
      cases h
      exact absurd (arrowsTakeTwo_applied h') hshort
    | error e =>
      obtain ⟨s, rfl⟩ := (short_arrow_of_error h' h).2
      exact ⟨s, rfl⟩
  arrowFree := fun h => parse_eq_of_arrowFree h maxDepth

/-- A function type, an arrow with one argument, and one that is an argument itself. -/
theorem function_types_correspond_arrow :
    (∃ tree, parse ⟨.production, 8⟩ "(-> A B)".toList = .ok tree ∧
      parse ⟨.application, 8⟩ "(-> A B)".toList = .ok tree.applied) ∧
    (∃ tree s, parse ⟨.application, 8⟩ "(→ A)".toList = .ok tree ∧
      parse ⟨.production, 8⟩ "(→ A)".toList =
        .error (.grammatical (.missingExpression .functionType s))) ∧
    parse ⟨.application, 8⟩ "(f ->)".toList = parse ⟨.production, 8⟩ "(f ->)".toList := by
  refine ⟨?_, ?_, ?_⟩
  · have hsome : (parse ⟨.production, 8⟩ "(-> A B)".toList).toOption.isSome = true := by
      decide +kernel
    obtain ⟨tree, h⟩ := exists_tree_of_isSome hsome
    exact ⟨tree, h, (function_types_correspond "(-> A B)".toList 8).applied tree h⟩
  · have hsome : (parse ⟨.application, 8⟩ "(→ A)".toList).toOption.isSome = true := by
      decide +kernel
    have hnone : (parse ⟨.production, 8⟩ "(→ A)".toList).toOption.isSome = false := by
      decide +kernel
    have corresponds := function_types_correspond "(→ A)".toList 8
    obtain ⟨tree, h⟩ := exists_tree_of_isSome hsome
    have hshort : ¬ ArrowsTakeTwo tree.root := by
      intro htwo
      obtain ⟨tree', h'⟩ := (corresponds.takeTwo tree h).2 htwo
      rw [h'] at hnone
      cases hnone
    obtain ⟨s, herror⟩ := corresponds.missing tree h hshort
    exact ⟨tree, s, h, herror⟩
  · have hfree : (tokenize false "(f ->)".toList).toOption.any (fun ts => decide (ts.IsChain
        fun opening t => opening.kind = .leftParen → t.text ∉ Keyword.arrow.spellings)) = true := by
      decide +kernel
    obtain ⟨ts, htokens, hchain⟩ := (Option.any_eq_true _ _).1 hfree
    have hfree := ArrowFree.of_isChain (eq_ok_of_toOption htokens) (of_decide_eq_true hchain)
    exact (function_types_correspond "(f ->)".toList 8).arrowFree hfree

end PieSyntax
