/-
# Which parenthesis is not closed

The parentheses that a parser holds open are those that the tokens before it leave unmatched
(`LeavesOpen`), and the words around each of them say to which production it belongs
(`Production.ofParen`).  A step keeps this (`Parser.follows_of_step`), hence so does a run
(`Parser.follows_of_readAll`).  Main statement: a source that parses has balanced parentheses, and at
the end of one that is incomplete the last parenthesis without a partner is blamed
(`parse_blames_last_open`).
-/
import PieSyntax.Proofs.DepthLimit

namespace PieSyntax

open Text Lexer

/-! ## Parentheses and their productions -/

/-- The class of the last token. -/
def lastKind? (ts : List Token) : Option TokenKind := ts.getLast?.map Token.kind

@[simp] theorem lastKind?_concat (ts : List Token) (t : Token) :
    lastKind? (ts ++ [t]) = some t.kind := by
  rw [lastKind?, List.getLast?_concat, Option.map_some]

theorem lastKind?_ne {t : Token} (h : t.kind ≠ .keyword .lambda) (ts : List Token) :
    lastKind? (ts ++ [t]) ≠ some (.keyword .lambda) := by
  rw [lastKind?_concat]
  exact fun heq => h (Option.some.inj heq)

/-- The production that the keyword heads. -/
def Keyword.production : Keyword → Production
  | claim => .claim
  | define => .define
  | lambda => .lambda
  | arrow => .functionType

/-- The production of a form, by the tokens behind its parenthesis: without a keyword it is an
application. -/
def Production.ofHead (after : List Token) : Production :=
  match after.head?.map Token.kind with
  | some (.keyword word) => word.production
  | _ => .application

/-- The production that a parenthesis belongs to, by the tokens before and behind it. -/
def Production.ofParen (before after : List Token) : Production :=
  if lastKind? before = some (.keyword .lambda) then .lambdaArguments else .ofHead after

/-- Tokens that do not begin with a keyword tell nothing about the parenthesis before them. -/
theorem Production.ofHead_append {us : List Token} (h : ofHead us = .application)
    (ts : List Token) : ofHead (ts ++ us) = ofHead ts := by
  cases ts with
  | nil => exact h
  | cons t ts => rfl

/-- `LeavesOpen ts openings`: the parentheses without a partner among `ts` are `openings`, the
innermost first, each with its production. -/
inductive LeavesOpen : List Token → List (Production × Span) → Prop
  | balanced {ts} (h : Balanced ts) : LeavesOpen ts []
  | paren {before o after openings} (h : LeavesOpen before openings) (ho : o.kind = .leftParen)
      (ha : Balanced after) :
      LeavesOpen (before ++ o :: after) ((.ofParen before after, o.span) :: openings)

theorem Balanced.count_eq {ts : List Token} (h : Balanced ts) :
    (ts.map Token.kind).count .leftParen = (ts.map Token.kind).count .rightParen := by
  induction h with
  | nil => rfl
  | word ho hc _ ih => rw [List.map_cons, List.count_cons_of_ne ho, List.count_cons_of_ne hc, ih]
  | parens ho hc _ _ ihi ih =>
    simp [ho, hc]
    omega

namespace LeavesOpen

variable {ts us : List Token} {openings : List (Production × Span)} {t : Token}

/-- As many parentheses are open as there are too many. -/
theorem count_eq (h : LeavesOpen ts openings) : (ts.map Token.kind).count .leftParen =
    (ts.map Token.kind).count .rightParen + openings.length := by
  induction h with
  | balanced h => exact h.count_eq
  | paren _ ho ha ih =>
    have hafter := ha.count_eq
    simp [ho]
    omega

/-- Balanced tokens change nothing, unless a keyword comes first. -/
theorem append (h : LeavesOpen ts openings) (hu : Balanced us)
    (hk : Production.ofHead us = .application) : LeavesOpen (ts ++ us) openings := by
  cases h with
  | balanced h => exact .balanced (h.append hu)
  | @paren before o after openings h ho ha =>
    have hparen : Production.ofParen before (after ++ us) = .ofParen before after := by
      rw [Production.ofParen, Production.ofParen, Production.ofHead_append hk]
    rw [List.append_assoc, List.cons_append, ← hparen]
    exact .paren h ho (ha.append hu)

/-- The token of a leaf changes nothing. -/
theorem leaf {kind : LeafKind} (h : LeavesOpen ts openings)
    (ht : Parser.leafKind? t.kind = some kind) : LeavesOpen (ts ++ [t]) openings := by
  cases hk : t.kind with
  | atom | identifier | typeIdentifier =>
    refine h.append (.word (by simp [hk]) (by simp [hk]) .nil) ?_
    simp [Production.ofHead, hk]
  | _ =>
    rw [hk] at ht
    cases ht

/-- A closing parenthesis is the partner of the innermost one that is open. -/
theorem close {x : Production × Span} (h : LeavesOpen ts (x :: openings))
    (ht : t.kind = .rightParen) : LeavesOpen (ts ++ [t]) openings := by
  cases h with
  | @paren before o after _ h ho ha =>
    rw [List.append_assoc, List.cons_append]
    refine h.append (.parens ho ht ha .nil) ?_
    simp [Production.ofHead, ho]

/-- An opening parenthesis behind the keyword of a lambda. -/
theorem arguments (h : LeavesOpen ts openings) (hl : lastKind? ts = some (.keyword .lambda))
    (ht : t.kind = .leftParen) :
    LeavesOpen (ts ++ [t]) ((.lambdaArguments, t.span) :: openings) := by
  have hopen := LeavesOpen.paren h ht .nil
  rwa [Production.ofParen, if_pos hl] at hopen

/-- An opening parenthesis elsewhere belongs to a form, for whose head there is room. -/
theorem form (h : LeavesOpen ts openings) (hl : lastKind? ts ≠ some (.keyword .lambda))
    (ht : t.kind = .leftParen) (hu : Balanced us) :
    LeavesOpen (ts ++ t :: us) ((.ofHead us, t.span) :: openings) := by
  have hopen := LeavesOpen.paren h ht hu
  rwa [Production.ofParen, if_neg hl] at hopen

/-- A parenthesis with its keyword. -/
theorem keyword {u : Token} {word : Keyword} (h : LeavesOpen ts openings)
    (hl : lastKind? ts ≠ some (.keyword .lambda)) (ht : t.kind = .leftParen)
    (hu : u.kind = .keyword word) :
    LeavesOpen (ts ++ [t] ++ [u]) ((word.production, t.span) :: openings) := by
  have hword : Balanced [u] := .word (by simp [hu]) (by simp [hu]) .nil
  have hopen := h.form hl ht hword
  rw [List.append_assoc]
  simpa [Production.ofHead, hu] using hopen

end LeavesOpen

/-- No beginning of the tokens has more closing parentheses than opening ones. -/
def NeverOvercloses (ts : List Token) : Prop :=
  ∀ us, us <+: ts →
    (us.map Token.kind).count .rightParen ≤ (us.map Token.kind).count .leftParen

theorem NeverOvercloses.concat {ts : List Token} {t : Token} (h : NeverOvercloses ts)
    (ht : t.kind ≠ .rightParen) : NeverOvercloses (ts ++ [t]) := by
  intro us hus
  rcases List.prefix_concat_iff.1 hus with rfl | hus
  · have hle := h ts (List.prefix_refl ts)
    simp only [List.map_append, List.map_singleton, List.count_append, List.count_singleton,
      beq_false_of_ne ht, Bool.false_eq_true, if_false]
    omega
  · exact h us hus

/-! ## Parsers hold the parentheses that are open -/

/-- `f.Follows openings ts`: the tokens `ts`, after which the focus is `f`, leave `openings` open.
The parenthesis before a head is among them only once the head is known. -/
def Focus.Follows (openings : List (Production × Span)) (ts : List Token) : Focus → Prop
  | head opening => ∃ before o, ts = before ++ [o] ∧ o.kind = .leftParen ∧ o.span = opening ∧
      lastKind? before ≠ some (.keyword .lambda) ∧ LeavesOpen before openings
  | parameters _ => lastKind? ts = some (.keyword .lambda) ∧ LeavesOpen ts openings
  | _ => lastKind? ts ≠ some (.keyword .lambda) ∧ LeavesOpen ts openings

namespace Parser

variable {p q : Parser} {t : Token} {ts : List Token}

/-- The parser holds open what the tokens `ts` leave open. -/
def Follows (p : Parser) (ts : List Token) : Prop := p.focus.Follows p.openings ts

/-- A delivery opens and closes nothing. -/
theorem follows_of_delivery {n : Node} (h : Delivery p n q)
    (hl : lastKind? ts ≠ some (.keyword .lambda)) (ho : LeavesOpen ts p.openings) :
    q.Follows ts := by
  cases h <;> exact ⟨hl, ho⟩

/-- A head that is no keyword begins an application. -/
theorem follows_application {d : Nat} {root : NodeBuilder} {tokens : Array Token}
    {enclosing : List (OpenForm × Slot)} {opening : Span}
    (h : Follows ⟨d, root, tokens, enclosing, .head opening⟩ ts) :
    Follows ⟨d, root, tokens, (⟨opening, .empty .application⟩, .function) :: enclosing,
      .expression⟩ ts := by
  obtain ⟨before, o, rfl, ho, rfl, hl, hopen⟩ := h
  exact ⟨lastKind?_ne (by simp [ho]) before, hopen.form hl ho .nil⟩

/-- **One step.**  A parser that reads a token follows it. -/
theorem follows_of_step (h : Step p t q) (hp : p.Follows ts) : q.Follows (ts ++ [t]) := by
  induction h with
  | @leaf d root tokens enclosing t kind q ht hq =>
    have hne : t.kind ≠ .keyword .lambda := by
      intro hk
      rw [hk] at ht
      cases ht
    exact follows_of_delivery hq (lastKind?_ne hne ts) (hp.2.leaf ht)
  | opening ht => exact ⟨ts, _, rfl, ht, rfl, hp⟩
  | closing ht hq =>
    exact follows_of_delivery hq (lastKind?_ne (by simp [ht]) ts) (hp.2.close ht)
  | closingArguments ht => exact ⟨lastKind?_ne (by simp [ht]) ts, hp.2.close ht⟩
  | binding ht hk hd =>
    -- The word behind a parenthesis says to which production it belongs.
    obtain ⟨before, o, rfl, ho, rfl, hl, hopen⟩ := hp
    have hword := hopen.keyword hl ho ht
    cases hk with
    | claim | define => exact ⟨lastKind?_ne (by simp [ht]) _, hword⟩
  | lambda ht hd =>
    obtain ⟨before, o, rfl, ho, rfl, hl, hopen⟩ := hp
    refine ⟨?_, hopen.keyword hl ho ht⟩
    rw [lastKind?_concat, ht]
  | arrow ht hd =>
    obtain ⟨before, o, rfl, ho, rfl, hl, hopen⟩ := hp
    exact ⟨lastKind?_ne (by simp [ht]) _, hopen.keyword hl ho ht⟩
  | application ht hd hq ih => exact ih (follows_application hp)
  | @name d root tokens enclosing f t ht =>
    have hleaf : leafKind? t.kind = some .identifier := by rw [ht]; rfl
    exact ⟨lastKind?_ne (by simp [ht]) ts, hp.2.leaf hleaf⟩
  | parameters ht hd => exact ⟨lastKind?_ne (by simp [ht]) ts, hp.2.arguments hp.1 ht⟩
  | close ht hq =>
    exact follows_of_delivery hq (lastKind?_ne (by simp [ht]) ts) (hp.2.close ht)

/-- **All steps.**  A parser follows the tokens that it reads. -/
theorem follows_of_readAll {maxDepth : Nat} (h : (initial maxDepth).readAll ts = .ok p) :
    p.Follows ts := by
  refine readAll_invariant (I := fun us r => r.Follows us) h ?_ ?_
  · exact ⟨by simp [lastKind?], .balanced .nil⟩
  · intro us r t r' hr hstep
    exact follows_of_step hstep hr

/-! ## Never too many closed -/

/-- No beginning of the tokens read closes more parentheses than it opens. -/
theorem neverOvercloses_of_readAll {maxDepth : Nat} (h : (initial maxDepth).readAll ts = .ok p) :
    NeverOvercloses ts := by
  rintro us ⟨vs, rfl⟩
  obtain ⟨q, hq, -⟩ := exists_readAll_of_append h
  have hcount := count_of_readAll hq
  rw [schedule_initial] at hcount
  simp only [Schedule.initial] at hcount
  omega

/-! ## Blame -/

/-- The error for want of input blames the innermost parenthesis that the tokens leave open. -/
theorem leavesOpen_of_reject {expected expected' : List Expected} {context context' : Production}
    {opening span : Span} (h : p.reject t expected' context' =
      .missingCloseParen context expected opening span) (hopen : LeavesOpen ts p.openings)
    (hd : p.depth ≤ p.maxDepth) : ∃ outer, LeavesOpen ts ((context, opening) :: outer) ∧
      outer.length + 1 ≤ p.maxDepth ∧ span = t.span := by
  rw [depth_eq_length_openings] at hd
  unfold reject at h
  split at h
  · cases hp : p.openings with
    | nil =>
      rw [hp] at h
      cases h
    | cons x outer =>
      rw [hp] at h hopen hd
      cases h
      exact ⟨outer, hopen, hd, rfl⟩
  · cases h

theorem leavesOpen_of_refusal {expected : List Expected} {context : Production}
    {opening span : Span} (h : Refusal p t (.missingCloseParen context expected opening span))
    (hp : p.Follows ts) (hd : p.depth ≤ p.maxDepth) :
    ∃ outer, LeavesOpen ts ((context, opening) :: outer) ∧ outer.length + 1 ≤ p.maxDepth ∧
      span = t.span := by
  generalize he : ParseError.missingCloseParen context expected opening span = e at h
  induction h with
  | topLevel | unexpected | name | parameters | close =>
    exact leavesOpen_of_reject he.symm hp.2 hd
  | missing | deepForm | deepArguments | extra => cases he
  | leaf ht hm | closing ht hm | closed ht hm =>
    cases hm
    cases he
  | application ht hdeep hr ih =>
    -- The parenthesis has not been counted yet, but there is room for it.
    refine ih (follows_application hp) ?_ he
    simp only [depth_eq, Focus.openings, List.length_nil, weight_cons, Slot.depth] at hdeep ⊢
    omega

end Parser

/-- `Blames tokens context opening`: the last parenthesis without a partner among `tokens` stands at
`opening` and belongs to `context`. -/
def Blames (tokens : List Token) (context : Production) (opening : Span) : Prop :=
  ∃ before o after, tokens = before ++ o :: after ∧ o.kind = .leftParen ∧ Balanced after ∧
    opening = o.span ∧ context = .ofParen before after

theorem LeavesOpen.blames {ts : List Token} {context : Production} {opening : Span}
    {outer : List (Production × Span)} (h : LeavesOpen ts ((context, opening) :: outer)) :
    Blames ts context opening := by
  cases h with
  | @paren before o after _ _ ho ha => exact ⟨before, o, after, rfl, ho, ha, rfl, rfl⟩

/-- **The parenthesis to blame.**  In a source that parses the parentheses are balanced.  If one is
missing at the end of the input, then the tokens close nothing that is not open, and no more
parentheses than the limit says, but at least one, are left without a partner; the last of them is
blamed. -/
theorem parse_blames_last_open (settings : Settings) (source : List Char) :
    (∀ tree, parse settings source = .ok tree → NeverOvercloses tree.tokens ∧
        (tree.tokens.map Token.kind).count .leftParen =
          (tree.tokens.map Token.kind).count .rightParen) ∧
      ∀ context expected opening span, parse settings source =
          .error (.grammatical (.missingCloseParen context expected opening span)) →
        ∃ tokens k, tokenize settings.arrows source = .ok tokens ∧ NeverOvercloses tokens ∧
          1 ≤ k ∧ k ≤ settings.maxDepth ∧
          (tokens.map Token.kind).count .leftParen =
            (tokens.map Token.kind).count .rightParen + k ∧
          Blames tokens context opening ∧ span = .point (byteLength source) := by
  constructor
  · intro tree h
    obtain ⟨parts, -, hparts, htokens⟩ := exists_parts_of_parse h
    obtain ⟨q, here, last, eof, hts, hq, -⟩ := exists_scan_of_parse h
    refine ⟨Parser.neverOvercloses_of_readAll hq, ?_⟩
    rw [htokens]
    exact (Balanced.flatMap fun x hx => (hparts x hx).2.balanced).count_eq
  · intro context expected opening span h
    obtain ⟨ts, q, here, hts, hq, hend⟩ := parse_ending settings source
    rw [h] at hend
    cases hend with
    | @refused eof last e ht hr hk =>
      have hrefusal := Parser.refusal_of_read hr
      have heof := Parser.kind_of_incomplete hrefusal rfl
      have hmax : q.maxDepth = settings.maxDepth := Parser.maxDepth_of_readAll hq
      obtain ⟨outer, hopen, hroom, hspan⟩ := Parser.leavesOpen_of_refusal hrefusal
        (Parser.follows_of_readAll hq) (Parser.depth_le_of_readAll hq (Nat.zero_le _))
      -- The end of the input is a word behind the parenthesis like any other.
      have hword : Balanced [eof] := .word (by simp [heof]) (by simp [heof]) .nil
      have hall := hopen.append hword (by simp [Production.ofHead, heof])
      have hatEnd := eq_atEnd hts (took_of_next ht) heof
      rw [← Parser.mode_of_readAll hq] at ht
      refine ⟨ts ++ [eof], outer.length + 1, hts.tokenize_eq ht heof,
        (Parser.neverOvercloses_of_readAll hq).concat (by simp [heof]), by omega, by omega,
        hall.count_eq, hall.blames, ?_⟩
      rw [hspan, hatEnd]
      rfl

/-- A closed form, and the arguments of a lambda that are not closed behind it. -/
theorem parse_blames_last_open_lambda :
    (∃ tree, parse {} "(f (g x))".toList = .ok tree ∧ NeverOvercloses tree.tokens) ∧
      ∃ tokens, tokenize false "(f (g x) (lambda (x ; (".toList = .ok tokens ∧
        Blames tokens .lambdaArguments ⟨17, 18⟩ := by
  have hsome : (parse {} "(f (g x))".toList).toOption.isSome = true := by decide +kernel
  have herror : error? (parse {} "(f (g x) (lambda (x ; (".toList) =
      some (.grammatical (.missingCloseParen .lambdaArguments [.identifier, .rightParen] ⟨17, 18⟩
        ⟨23, 23⟩)) := by
    decide +kernel
  obtain ⟨tokens, k, htokens, -, -, -, -, hblames, -⟩ :=
    (parse_blames_last_open {} _).2 _ _ _ _ (eq_error_of_error? herror)
  obtain ⟨tree, htree⟩ := exists_tree_of_isSome hsome
  have hcloses := ((parse_blames_last_open {} _).1 tree htree).1
  exact ⟨⟨tree, htree, hcloses⟩, tokens, htokens, hblames⟩

end PieSyntax
