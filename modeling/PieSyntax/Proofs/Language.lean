/-
# The language of the parser

Which sources parse.  `Parser.Reads p w Q` says that `p` reads all tokens of the classes `w`, whatever
their texts, and is then as `Q` says; the productions of the grammar are rules for it, one for each
(`Parser.Completes`).  Main statement: a source parses if and only if it is lexed into a word that the
grammar derives and that is not nested too deeply (`parses_iff_derives`).
-/
import PieSyntax.Proofs.Grammar

namespace PieSyntax

/-! ## Reading words -/

theorem NestedWithin.part {limit outer inner : Nat} {u v w : List TokenKind}
    (h : NestedWithin limit outer (u ++ w ++ v))
    (hu : outer + u.count .leftParen = inner + u.count .rightParen) :
    NestedWithin limit inner w := by
  rintro before after rfl
  have hlt := h (u ++ before) (after ++ v) (by simp)
  rw [List.count_append, List.count_append] at hlt
  omega

/-- Where a parenthesis opens, fewer are open than the limit. -/
theorem NestedWithin.lt_of_cons {limit outer : Nat} {w : List TokenKind}
    (h : NestedWithin limit outer (.leftParen :: w)) : outer < limit := by
  simpa using h [] w rfl

/-- The expressions in a form are nested as the form is, one parenthesis further in. -/
theorem NestedWithin.children {limit outer inner : Nat} {u v first : List TokenKind}
    {rest : List (List TokenKind)}
    (h : NestedWithin limit outer (u ++ first ++ rest.flatten ++ v))
    (hu : outer + u.count .leftParen = inner + u.count .rightParen)
    (hfirst : Derives .expression first) (hrest : ∀ w ∈ rest, Derives .expression w) :
    NestedWithin limit inner first ∧ ∀ w ∈ rest, NestedWithin limit inner w := by
  constructor
  · rw [List.append_assoc] at h
    exact h.part hu
  · intro w hw
    obtain ⟨before, after, rfl⟩ := List.append_of_mem hw
    -- The expressions before `w` close all that they open.
    have hbefore : Derives .source before.flatten :=
      .source fun x hx => .expressionForm (hrest x (List.mem_append_left _ hx))
    have hcounts := hbefore.count_eq
    have hcount := hfirst.count_eq
    rw [List.flatten_append, List.flatten_cons] at h
    have hsplit : NestedWithin limit outer
        ((u ++ first ++ before.flatten) ++ w ++ (after.flatten ++ v)) := by
      simpa only [List.append_assoc] using h
    refine hsplit.part ?_
    rw [List.count_append, List.count_append, List.count_append, List.count_append]
    omega

namespace Parser

/-- Whatever tokens of the classes `w` come next, `p` reads them all, and then `Q` holds. -/
def Reads (p : Parser) (w : List TokenKind) (Q : Parser → Prop) : Prop :=
  ∀ ts : List Token, ts.map Token.kind = w → ∃ q, p.readAll ts = .ok q ∧ Q q

section Rules

variable {p : Parser} {k : TokenKind} {w w' : List TokenKind} {Q : Parser → Prop} {d : Nat}
  {root : NodeBuilder} {tokens : Array Token} {outer : List (OpenForm × Slot)} {f : OpenForm}

theorem reads_nil (h : Q p) : p.Reads [] Q := by
  intro ts hts
  rw [List.map_eq_nil_iff.1 hts]
  exact ⟨p, rfl, h⟩

theorem reads_cons (h : ∀ t : Token, t.kind = k → ∃ q, p.read t = .ok q ∧ q.Reads w Q) :
    p.Reads (k :: w) Q := by
  intro ts hts
  obtain ⟨t, ts, rfl, ht, hts⟩ := List.map_eq_cons_iff.1 hts
  obtain ⟨q, hq, hreads⟩ := h t ht
  obtain ⟨r, hr, hQ⟩ := hreads ts hts
  refine ⟨r, ?_, hQ⟩
  rw [readAll_cons, hq]
  exact hr

/-- Tokens can be read in two parts. -/
theorem reads_append (h : p.Reads w fun q => q.Reads w' Q) : p.Reads (w ++ w') Q := by
  intro ts hts
  obtain ⟨us, vs, rfl, hus, hvs⟩ := List.map_eq_append_iff.1 hts
  obtain ⟨q, hq, hreads⟩ := h us hus
  obtain ⟨r, hr, hQ⟩ := hreads vs hvs
  refine ⟨r, ?_, hQ⟩
  rw [readAll_append, hq]
  exact hr

/-- A node in the place of the next expression is taken, whatever it is, and then `Q` holds. -/
def Takes (d : Nat) (root : NodeBuilder) (outer : List (OpenForm × Slot)) (Q : Parser → Prop) :
    Prop :=
  ∀ tokens n, ∃ q, deliver ⟨d, root, tokens, outer, .expression⟩ n = .ok q ∧ Q q

/-- Wherever an expression is read, `w` is read and makes a node. -/
def Completes (w : List TokenKind) : Prop :=
  ∀ {d root tokens outer Q}, NestedWithin d (weight outer) w → Takes d root outer Q →
    Reads ⟨d, root, tokens, outer, .expression⟩ w Q

/-! ### Single tokens -/

/-- Where an expression is expected, a parenthesis opens a form. -/
theorem reads_leftParen (h : ∀ tokens opening, Reads ⟨d, root, tokens, outer, .head opening⟩ w Q) :
    Reads ⟨d, root, tokens, outer, .expression⟩ (.leftParen :: w) Q := by
  apply reads_cons
  intro t ht
  refine ⟨_, ?_, h (tokens.push t) t.span⟩
  simp [read, readExpression, leafKind?, ht, advance]

theorem completes_leaf {kind : LeafKind} (hk : leafKind? k = some kind) : Completes [k] := by
  intro d root tokens outer Q _ hQ
  apply reads_cons
  intro t ht
  obtain ⟨q, hq, h⟩ := hQ (tokens.push t) (.leaf kind t.span t.text)
  refine ⟨q, ?_, reads_nil h⟩
  simp only [read, readExpression, ht, hk]
  exact hq

/-- The parenthesis that ends a form. -/
theorem reads_close (hQ : Takes d root outer Q) :
    Reads ⟨d, root, tokens, outer, .close f⟩ [.rightParen] Q := by
  apply reads_cons
  intro t ht
  obtain ⟨q, hq, h⟩ := hQ (tokens.push t) (f.close t.span)
  refine ⟨q, ?_, reads_nil h⟩
  simp only [read, ht, if_true]
  exact hq

/-- A form that may go on may also be closed. -/
theorem reads_close_more {field : Field} (hQ : Takes d root outer Q) :
    Reads ⟨d, root, tokens, (f, .more field) :: outer, .expression⟩ [.rightParen] Q := by
  apply reads_cons
  intro t ht
  obtain ⟨q, hq, h⟩ := hQ (tokens.push t) (f.close t.span)
  refine ⟨q, ?_, reads_nil h⟩
  simp only [read, readExpression, leafKind?, ht, if_true, reduceCtorEq, if_false]
  exact hq

/-! ### Children -/

/-- The value of a claim or a definition, or the body of a lambda. -/
theorem reads_value {field : Field} (hw : Completes w) (hd : field ≠ .domain)
    (hc : field ≠ .codomain) (hn : NestedWithin d (1 + weight outer) w)
    (h : ∀ tokens f, Reads ⟨d, root, tokens, outer, .close f⟩ w' Q) :
    Reads ⟨d, root, tokens, (f, .required field) :: outer, .expression⟩ (w ++ w') Q := by
  apply reads_append
  refine hw hn fun tokens n => ⟨_, ?_, h tokens (f.push field n)⟩
  cases field with
  | domain => exact absurd rfl hd
  | codomain => exact absurd rfl hc
  | _ => rfl

/-- Any other child, after which `next` is the place. -/
theorem reads_child {slot next : Slot} {field : Field}
    (hs : ∀ tokens f n, deliver ⟨d, root, tokens, (f, slot) :: outer, .expression⟩ n =
      .ok ⟨d, root, tokens, (OpenForm.push f field n, next) :: outer, .expression⟩)
    (hw : Completes w) (hn : NestedWithin d (slot.depth + weight outer) w)
    (h : ∀ tokens f, Reads ⟨d, root, tokens, (f, next) :: outer, .expression⟩ w' Q) :
    Reads ⟨d, root, tokens, (f, slot) :: outer, .expression⟩ (w ++ w') Q := by
  apply reads_append
  exact hw hn fun tokens n => ⟨_, hs tokens f n, h tokens (f.push field n)⟩

/-- Any number of children, and the parenthesis after them. -/
theorem reads_more {field : Field} {ws : List (List TokenKind)} (hws : ∀ w ∈ ws, Completes w)
    (hn : ∀ w ∈ ws, NestedWithin d (1 + weight outer) w) (hQ : Takes d root outer Q) :
    Reads ⟨d, root, tokens, (f, .more field) :: outer, .expression⟩ (ws.flatten ++ [.rightParen])
      Q := by
  induction ws generalizing f tokens with
  | nil => exact reads_close_more hQ
  | cons w ws ih =>
    obtain ⟨hw, hws⟩ := List.forall_mem_cons.1 hws
    obtain ⟨hnw, hn⟩ := List.forall_mem_cons.1 hn
    rw [List.flatten_cons, List.append_assoc]
    exact reads_child (fun _ _ _ => rfl) hw hnw fun tokens f => ih hws hn

/-- The arguments of a lambda. -/
theorem reads_names {n : Nat} {opening : Span}
    (h : ∀ tokens f, Reads ⟨d, root, tokens, (f, .argument opening) :: outer, .expression⟩ w Q) :
    Reads ⟨d, root, tokens, (f, .argument opening) :: outer, .expression⟩
      (List.replicate n .identifier ++ w) Q := by
  induction n generalizing f tokens with
  | zero => exact h tokens f
  | succ n ih =>
    rw [List.replicate_succ, List.cons_append]
    apply reads_cons
    intro t ht
    refine ⟨_, ?_, @ih (tokens.push t) (f.push .arguments (.leaf .identifier t.span t.text))⟩
    simp only [read, readExpression, leafKind?, ht, advance, deliver, fill, Node.kind, if_true,
      enter]

/-! ### Heads -/

theorem guardDepth_eq_ok {opening : Span} (hd : p.focus.openings.length + weight p.enclosing <
    p.maxDepth) : p.guardDepth opening = .ok () := by
  rw [← depth_eq] at hd
  exact guardDepth_of_lt hd

/-- The head of a claim or a definition, with the name after it. -/
theorem reads_binding {kind : FormKind} {word : Keyword} {opening : Span} (hk : Binds kind word)
    (hd : weight outer < d)
    (h : ∀ tokens f,
      Reads ⟨d, root, tokens, (f, .required (valueField kind)) :: outer, .expression⟩ w Q) :
    Reads ⟨d, root, tokens, outer, .head opening⟩ (.keyword word :: .identifier :: w) Q := by
  apply reads_cons
  intro t ht
  refine ⟨⟨d, root, tokens.push t, outer, .name ⟨opening, .empty kind⟩⟩, ?_, ?_⟩
  · simp only [read, readHead, ht]
    rw [guardDepth_eq_ok (by simpa [Focus.openings] using hd)]
    cases hk <;> rfl
  · apply reads_cons
    intro u hu
    refine ⟨_, ?_, h ((tokens.push t).push u)
      (OpenForm.push ⟨opening, .empty kind⟩ .identifier (.leaf .identifier u.span u.text))⟩
    simp only [read, hu, if_true]
    rfl

/-- The head of a lambda, with the parenthesis after it. -/
theorem reads_lambda {opening : Span} (hd : 1 + weight outer < d)
    (h : ∀ tokens f opening,
      Reads ⟨d, root, tokens, (f, .argument opening) :: outer, .expression⟩ w Q) :
    Reads ⟨d, root, tokens, outer, .head opening⟩ (.keyword .lambda :: .leftParen :: w) Q := by
  apply reads_cons
  intro t ht
  refine ⟨⟨d, root, tokens.push t, outer, .parameters ⟨opening, .empty .lambda⟩⟩, ?_, ?_⟩
  · simp only [read, readHead, ht]
    rw [guardDepth_eq_ok (by simp only [Focus.openings, List.length_nil]; omega)]
    rfl
  · apply reads_cons
    intro u hu
    refine ⟨_, ?_, h ((tokens.push t).push u) ⟨opening, .empty .lambda⟩ u.span⟩
    simp only [read, hu, if_true]
    rw [guardDepth_eq_ok (by simpa [Focus.openings] using hd)]
    rfl

/-- The head of a function type. -/
theorem reads_arrow {opening : Span} (hd : weight outer < d)
    (h : ∀ tokens f, Reads ⟨d, root, tokens, (f, .required .domain) :: outer, .expression⟩ w Q) :
    Reads ⟨d, root, tokens, outer, .head opening⟩ (.keyword .arrow :: w) Q := by
  apply reads_cons
  intro t ht
  refine ⟨_, ?_, h (tokens.push t) ⟨opening, .empty .functionType⟩⟩
  simp only [read, readHead, ht]
  rw [guardDepth_eq_ok (by simpa [Focus.openings] using hd)]
  rfl

/-- The head of an application is the beginning of its function. -/
theorem reads_application {opening : Span} (hd : weight outer < d)
    (hk : ∀ word, k ≠ .keyword word)
    (h : ∀ f, Reads ⟨d, root, tokens, (f, .function) :: outer, .expression⟩ (k :: w) Q) :
    Reads ⟨d, root, tokens, outer, .head opening⟩ (k :: w) Q := by
  intro ts hts
  obtain ⟨t, us, rfl, ht, hus⟩ := List.map_eq_cons_iff.1 hts
  obtain ⟨q, hq, hQ⟩ := h ⟨opening, .empty .application⟩ (t :: us) hts
  refine ⟨q, ?_, hQ⟩
  rw [← hq, readAll_cons, readAll_cons]
  have hdepth : depth ⟨d, root, tokens, outer, .head opening⟩ < d := by
    rw [depth_eq]
    simpa [Focus.openings] using hd
  rw [read_head_of_ne_keyword (fun word => by rw [ht]; exact hk word) hdepth]

end Rules

/-! ## Productions -/

/-- A claim or a definition. -/
theorem completes_binding {kind : FormKind} {word : Keyword} {value : List TokenKind}
    (hk : Binds kind word) (hv : Completes value) :
    Completes ([.leftParen, .keyword word, .identifier] ++ value ++ [.rightParen]) := by
  intro d root tokens outer Q hn hQ
  have hd := hn.lt_of_cons
  have hvalue : NestedWithin d (1 + weight outer) value := hn.part (by simp; omega)
  rw [List.append_assoc]
  apply reads_leftParen
  intro tokens opening
  refine reads_binding hk hd fun tokens f => ?_
  show Reads _ (value ++ [.rightParen]) Q
  refine reads_value hv ?_ ?_ hvalue fun tokens f => reads_close hQ
  · cases hk <;> simp [valueField]
  · cases hk <;> simp [valueField]

/-- A lambda is read if its body is. -/
theorem completes_lambda {n : Nat} {body : List TokenKind} (hb : Completes body) :
    Completes ([.leftParen, .keyword .lambda, .leftParen] ++ List.replicate n .identifier ++
      [.rightParen] ++ body ++ [.rightParen]) := by
  intro d root tokens outer Q hn hQ
  have hbody : NestedWithin d (1 + weight outer) body :=
    hn.part (by simp [List.count_replicate]; omega)
  simp only [List.append_assoc] at hn ⊢
  have hd : 1 + weight outer < d := by
    have hsecond := hn [.leftParen, .keyword .lambda] _ rfl
    simpa [Nat.add_comm] using hsecond
  apply reads_leftParen
  intro tokens opening
  refine reads_lambda hd fun tokens f opening => ?_
  show Reads _ (List.replicate n .identifier ++ ([.rightParen] ++ (body ++ [.rightParen]))) Q
  refine reads_names fun tokens f => reads_cons fun t ht => ?_
  refine ⟨⟨d, root, tokens.push t, (f, .required .body) :: outer, .expression⟩, ?_, ?_⟩
  · simp only [read, readExpression, leafKind?, ht, reduceCtorEq, if_false, if_true]
    rfl
  · show Reads _ (body ++ [.rightParen]) Q
    exact reads_value hb (by simp) (by simp) hbody fun tokens f => reads_close hQ

/-- A function type is read if its domain and its codomains are. -/
theorem completes_functionType {domain : List TokenKind} {codomains : List (List TokenKind)}
    (hd : Completes domain) (hne : codomains ≠ []) (hc : ∀ w ∈ codomains, Completes w)
    (hdomain : Derives .expression domain) (hall : ∀ w ∈ codomains, Derives .expression w) :
    Completes ([.leftParen, .keyword .arrow] ++ domain ++ codomains.flatten ++ [.rightParen]) := by
  intro d root tokens outer Q hn hQ
  have hlt := hn.lt_of_cons
  have hchildren : NestedWithin d (1 + weight outer) domain ∧ _ :=
    hn.children (by simp; omega) hdomain hall
  obtain ⟨hfirst, hrest⟩ := hchildren
  obtain ⟨codomain, more, rfl⟩ := List.exists_cons_of_ne_nil hne
  obtain ⟨hcodomain, hmore⟩ := List.forall_mem_cons.1 hc
  obtain ⟨hncodomain, hnmore⟩ := List.forall_mem_cons.1 hrest
  rw [List.flatten_cons]
  simp only [List.append_assoc]
  apply reads_leftParen
  intro tokens opening
  refine reads_arrow hlt fun tokens f => ?_
  show Reads _ (domain ++ (codomain ++ (more.flatten ++ [.rightParen]))) Q
  refine reads_child (fun _ _ _ => rfl) hd hfirst fun tokens f => ?_
  refine reads_child (fun _ _ _ => rfl) hcodomain hncodomain fun tokens f => ?_
  exact reads_more hmore hnmore hQ

/-- An application is read if its function and its arguments are. -/
theorem completes_application {function : List TokenKind} {arguments : List (List TokenKind)}
    (hf : Completes function) (ha : ∀ w ∈ arguments, Completes w)
    (hfunction : Derives .expression function) (hall : ∀ w ∈ arguments, Derives .expression w) :
    Completes ([.leftParen] ++ function ++ arguments.flatten ++ [.rightParen]) := by
  intro d root tokens outer Q hn hQ
  have hlt := hn.lt_of_cons
  have hchildren : NestedWithin d (1 + weight outer) function ∧ _ :=
    hn.children (by simp; omega) hfunction hall
  obtain ⟨hfirst, hrest⟩ := hchildren
  simp only [List.append_assoc]
  apply reads_leftParen
  intro tokens opening
  show Reads _ (function ++ (arguments.flatten ++ [.rightParen])) Q
  have hread : ∀ f, Reads ⟨d, root, tokens, (f, .function) :: outer, .expression⟩
      (function ++ (arguments.flatten ++ [.rightParen])) Q := by
    intro f
    refine reads_child (fun _ _ _ => rfl) hf hfirst fun tokens f => ?_
    exact reads_more ha hrest hQ
  -- The first word of the function tells that the form is an application.
  obtain ⟨kind, rest, rfl, hkind⟩ := hfunction.exists_cons
  exact reads_application hlt hkind hread

/-- **Completeness for nodes.**  Every derived form is read as one node. -/
theorem completes_of_derives {c : Category} {w : List TokenKind} (h : Derives c w)
    (hc : c ≠ .source) : Completes w := by
  induction h with
  | source => exact absurd rfl hc
  | claim ht ih => exact completes_binding .claim (ih (by simp))
  | define hb ih => exact completes_binding .define (ih (by simp))
  | lambda hb ih => exact completes_lambda (ih (by simp))
  | functionType hd hne hall ihd ihc =>
    exact completes_functionType (ihd (by simp)) hne (fun w hw => ihc w hw (by simp)) hd hall
  | application hf hall ihf iha =>
    exact completes_application (ihf (by simp)) (fun w hw => iha w hw (by simp)) hf hall
  | atom => exact completes_leaf (by rfl)
  | identifier => exact completes_leaf (by rfl)
  | typeIdentifier => exact completes_leaf (by rfl)
  | claimForm h ih | defineForm h ih | expressionForm h ih | lambdaExpression h ih
  | functionTypeExpression h ih | applicationExpression h ih => exact ih (by simp)

/-- A derived source is read up to the end of the input. -/
theorem reads_source {forms : List (List TokenKind)} {d : Nat} {root : NodeBuilder}
    {tokens : Array Token} (hf : ∀ w ∈ forms, Derives .form w)
    (hn : NestedWithin d 0 forms.flatten) :
    Reads ⟨d, root, tokens, [], .expression⟩ forms.flatten fun q => q.isIdle = true := by
  induction forms generalizing root tokens with
  | nil => exact reads_nil rfl
  | cons w forms ih =>
    obtain ⟨hw, hf⟩ := List.forall_mem_cons.1 hf
    rw [List.flatten_cons] at hn ⊢
    have hfirst : NestedWithin d 0 w := @NestedWithin.part d 0 0 [] _ w hn rfl
    have hrest : NestedWithin d 0 forms.flatten := by
      have hcount := hw.count_eq
      rw [← List.append_nil (w ++ forms.flatten)] at hn
      exact hn.part (by omega)
    apply reads_append
    refine completes_of_derives hw (by simp) hfirst fun tokens n => ⟨_, rfl, ?_⟩
    exact ih hf hrest

end Parser

/-! ## The language -/

/-- What a parse reads is derived by the grammar. -/
theorem derives_of_parse {settings : Settings} {source : List Char} {tree : SyntaxTree}
    (h : parse settings source = .ok tree) : Derives .source (tree.tokens.map Token.kind) := by
  obtain ⟨parts, -, hparts, htokens⟩ := exists_parts_of_parse h
  rw [htokens, map_kind_flatMap]
  refine .source (List.forall_mem_map.2 ?_)
  intro x hx
  exact (hparts x hx).2.derives_form

/-- What a parse reads is nested within the limit. -/
theorem nested_of_parse {settings : Settings} {source : List Char} {tree : SyntaxTree}
    (h : parse settings source = .ok tree) :
    NestedWithin settings.maxDepth 0 (tree.tokens.map Token.kind) := by
  obtain ⟨q, here, last, t, -, hq, hidle, -⟩ := exists_scan_of_parse h
  exact Parser.nested_of_readAll hq hidle

/-- A source whose tokens the grammar derives within the limit has a tree. -/
theorem exists_tree_of_derives {settings : Settings} {source : List Char} {ts : List Token}
    {t : Token} (h : tokenize settings.arrows source = .ok (ts ++ [t]))
    (hd : Derives .source (ts.map Token.kind))
    (hn : NestedWithin settings.maxDepth 0 (ts.map Token.kind)) :
    ∃ tree, parse settings source = .ok tree := by
  -- The tokens were lexed by counting parentheses; the parser asks for the same modes.
  obtain ⟨us, u, here, hlist, hscan, hend, hnext⟩ := Lexer.exists_scan_of_tokensFrom h
  obtain ⟨rfl, hlast⟩ := List.append_inj' hlist rfl
  generalize hw : ts.map Token.kind = w at hd hn
  cases hd with
  | source hf =>
    obtain ⟨q, hq, hidle⟩ : ∃ q, (Parser.initial settings.maxDepth).readAll ts = .ok q ∧
        q.isIdle = true := Parser.reads_source hf hn ts hw
    rw [Parser.mode_of_readAll hq] at hnext
    have hrun := Parser.run_of_scan (p := Parser.initial settings.maxDepth) hscan hq
    refine ⟨q.tree u, ?_⟩
    rw [parse, hrun]
    exact Parser.run_of_ending (.finished (Prod.ext hnext rfl) hidle hend)

/-- **The language.**  A source parses if and only if it can be lexed, the grammar derives the
classes of its tokens, and no parenthesis is nested more deeply than the settings allow. -/
theorem parses_iff_derives (settings : Settings) (source : List Char) :
    (∃ tree, parse settings source = .ok tree) ↔
      ∃ ts t, tokenize settings.arrows source = .ok (ts ++ [t]) ∧ t.kind = .endOfInput ∧
        Derives .source (ts.map Token.kind) ∧
        NestedWithin settings.maxDepth 0 (ts.map Token.kind) := by
  constructor
  · rintro ⟨tree, h⟩
    refine ⟨tree.tokens, .atEnd source tree.trailing, tokenize_of_parse h, rfl, ?_, ?_⟩
    · exact derives_of_parse h
    · exact nested_of_parse h
  · rintro ⟨ts, t, h, -, hd, hn⟩
    exact exists_tree_of_derives h hd hn

end PieSyntax
