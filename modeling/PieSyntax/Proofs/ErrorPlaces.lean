/-
# What errors point at

Every error names a part of the source, and what it says is true of that part.  `Explains` lists for
each error what stands there; most combinations of an expected word with a context never occur.  Which
forms can be open at a place is kept by every step (`Parser.inPlace_of_step`).  Main statement: the
error of a parse explains the text that it points at (`error_points_at_text`).
-/
import PieSyntax.Proofs.Parentheses
import PieSyntax.Proofs.FirstError

namespace PieSyntax

open Text Lexer

/-! ## Spans of a source -/

/-- `s.InBounds source`: both ends of the span are boundaries of `source`, in order, so that the span
has a text, a line and a column. -/
structure Span.InBounds (s : Span) (source : List Char) : Prop where
  start_le : s.start ≤ s.stop
  stop_le : s.stop ≤ byteLength source
  slice : (s.slice? source).isSome = true
  lineColumn : (s.lineColumn? source).isSome = true

/-- A span with a slice is within the source. -/
theorem Span.InBounds.of_slice {s : Span} {source text : List Char}
    (h : s.slice? source = some text) : s.InBounds source := by
  have hslice : (s.slice? source).isSome = true := by rw [h]; rfl
  rw [Span.slice?, Text.slice?] at h
  split at h
  · next hle =>
    obtain ⟨⟨before, rest⟩, hbefore, hrest⟩ := Option.bind_eq_some_iff.1 h
    obtain ⟨⟨middle, after⟩, hmiddle, -⟩ := Option.bind_eq_some_iff.1 hrest
    have hstart := byteLength_of_splitBytes? hbefore
    have hlength := byteLength_of_splitBytes? hmiddle
    refine ⟨hle, ?_, hslice, ?_⟩
    · rw [← append_of_splitBytes? hbefore, ← append_of_splitBytes? hmiddle]
      simp only [byteLength_append]
      omega
    · rw [Span.lineColumn?, lineColumnAt?, hbefore]
      rfl
  · cases h

/-- The end of a source is in bounds. -/
theorem slice?_end (source : List Char) :
    (Span.point (byteLength source)).slice? source = some [] := by
  have h := slice?_append source [] []
  rwa [List.append_nil, List.append_nil] at h

/-! ## Tokens of a source -/

/-- `Finds arrows source ts`: lexing `source` from its beginning comes to the tokens `ts`, one right
behind the other. -/
def Lexer.Finds (arrows : Bool) (source : List Char) (ts : List Token) : Prop :=
  ∃ before last, Scan .initial (.ofSource arrows source) (before ++ ts) last

/-- The text from the first of the tokens to the last. -/
def textOf : List Token → List Char
  | [] => []
  | t :: ts => t.text ++ ts.flatMap Token.source

section Finds

variable {arrows : Bool} {source : List Char} {t u : Token} {ts : List Token}

/-- A scan ends right behind its last token. -/
theorem Lexer.Scan.offset_eq_stop {s : Schedule} {lx last : Lexer} (h : Scan s lx ts last)
    (hu : ts.getLast? = some u) : last.cursor.offset = u.span.stop := by
  obtain ⟨front, rfl⟩ := List.getLast?_eq_some_iff.1 hu
  obtain ⟨here, next, -, -, took, hnil⟩ := h.cut
  cases hnil
  exact took.offset_eq

/-- **Tokens.**  The text from one token to another stands between them. -/
theorem Lexer.Finds.slice (h : Finds arrows source (t :: ts)) (hu : (t :: ts).getLast? = some u) :
    (⟨t.span.start, u.span.stop⟩ : Span).slice? source = some (textOf (t :: ts)) := by
  obtain ⟨before, last, hall⟩ := h
  have hstop : last.cursor.offset = u.span.stop := hall.offset_eq_stop (by simp [hu])
  obtain ⟨here, next, hbefore, -, took, hts⟩ := hall.cut
  have hsource : source = before.flatMap Token.source ++ here.cursor.rest := hbefore.rest_eq
  have hstart := hbefore.place_eq took.leading_tiles
  have hlength : last.cursor.offset = t.span.start + byteLength (textOf (t :: ts)) := by
    rw [hts.offset_eq, took.offset_eq, took.span_eq, textOf, byteLength_append, Nat.add_assoc]
  have hcut : source = before.flatMap Token.source ++ t.leading.flatMap Trivia.text ++
      textOf (t :: ts) ++ last.cursor.rest := by
    rw [hsource, took.rest_eq, hts.rest_eq, Token.source, textOf]
    simp only [List.append_assoc]
  rw [← hstop, hlength, hstart]
  conv_lhs => rw [hcut]
  exact slice?_append _ _ _

/-- A token that is found stands at its span. -/
theorem Lexer.Finds.slice_singleton (h : Finds arrows source [t]) :
    t.span.slice? source = some t.text := by
  have hslice := h.slice rfl
  rwa [textOf, List.flatMap_nil, List.append_nil] at hslice

theorem Lexer.Finds.took (h : Finds arrows source [t]) :
    ∃ here mode next, Took here mode t next ∧ t.kind ≠ .endOfInput := by
  obtain ⟨before, last, hall⟩ := h
  have hmem : t ∈ before ++ [t] := List.mem_append_right before List.mem_cons_self
  obtain ⟨_, here, next, -, hk, took⟩ := hall.exists_took hmem
  exact ⟨here, _, next, took, hk⟩

/-- An opening parenthesis is written as one. -/
theorem Lexer.Finds.text_of_leftParen (h : Finds arrows source [t]) (hk : t.kind = .leftParen) :
    t.text = ['('] := by
  obtain ⟨here, mode, next, took, -⟩ := h.took
  exact took.text_of_leftParen hk

theorem Lexer.Finds.text_of_rightParen (h : Finds arrows source [t]) (hk : t.kind = .rightParen) :
    t.text = [')'] := by
  obtain ⟨here, mode, next, took, -⟩ := h.took
  exact took.text_of_rightParen hk

end Finds

/-! ## What errors say -/

/-- The token as an error quotes it. -/
def Token.quoted (t : Token) : List Char := '`' :: t.text ++ ['\'']

/-- `Unexpected context expected t`: the ways in which a token is unexpected. -/
inductive Unexpected : Production → List Expected → Token → Prop
  | topLevel {t} (ht : t.text = [')']) : Unexpected .source [.topLevelForm] t
  | name {context t} (hc : context = .claim ∨ context = .define) (ht : t.kind ≠ .identifier) :
      Unexpected context [.identifier] t
  | parameters {t} (ht : t.kind ≠ .leftParen) : Unexpected .lambda [.leftParen] t
  | function {t} (ht : t.text = [')']) : Unexpected .application [.expression] t

/-- `Explains arrows source e`: what the error `e` says is true of the text of `source` that it points
at. -/
inductive Explains (arrows : Bool) (source : List Char) : SyntaxError → Prop
  | unrecognizedCharacter {c s} (hs : s.slice? source = some [c]) :
      Explains arrows source (.lexical (.unrecognizedCharacter c s))
  | incompleteAtom {before after} (hsource : source = before ++ '\'' :: after)
      (ha : ∀ c ∈ after.head?, isNameBody c = false) :
      Explains arrows source (.lexical (.incompleteAtom ⟨byteLength before, byteLength before + 1⟩))
  | unexpectedToken {t expected context} (ht : Finds arrows source [t])
      (hs : t.span.slice? source = some t.text) (hu : Unexpected context expected t) :
      Explains arrows source (.grammatical (.unexpectedToken t.quoted expected context t.span))
  | missingCloseParen {context expected opening} (hs : opening.slice? source = some ['(']) :
      Explains arrows source
        (.grammatical (.missingCloseParen context expected opening (.point (byteLength source))))
  | extraExpression {t context} (ht : Finds arrows source [t])
      (hs : t.span.slice? source = some t.text)
      (hk : t.text = ['('] ∨ ∃ kind, Parser.leafKind? t.kind = some kind)
      (hc : context ∈ [.claim, .define, .lambda]) :
      Explains arrows source (.grammatical (.extraExpression context t.span))
  | missingExpression {context s} (hs : s.slice? source = some [')'])
      (hc : context ∈ [.claim, .define, .lambda, .functionType]) :
      Explains arrows source (.grammatical (.missingExpression context s))
  | nonIdentifierArgument {n ts} (ht : Finds arrows source ts) (hn : Spelled n ts)
      (hs : n.span.slice? source = some (textOf ts)) (hx : n.kind.isExpression = true)
      (hk : n.kind ≠ .leaf .identifier) :
      Explains arrows source (.grammatical (.nonIdentifierArgument n.kind n.span))
  | depthExceeded {limit s} (hs : s.slice? source = some ['(']) :
      Explains arrows source (.grammatical (.depthExceeded limit s))

/-- An error that explains its text points into the source. -/
theorem Explains.inBounds {arrows : Bool} {source : List Char} {e : SyntaxError}
    (h : Explains arrows source e) : ∀ label ∈ e.diagnostic.labels, label.span.InBounds source := by
  cases h with
  | unrecognizedCharacter hs | missingExpression hs | depthExceeded hs =>
    exact List.forall_mem_singleton.2 (.of_slice hs)
  | unexpectedToken _ hs | extraExpression _ hs | nonIdentifierArgument _ _ hs =>
    exact List.forall_mem_singleton.2 (.of_slice hs)
  | @incompleteAtom before after hsource =>
    have hs : slice? source (byteLength before) (byteLength before + 1) = some ['\''] := by
      rw [hsource, List.append_cons]
      exact slice?_append before ['\''] after
    exact List.forall_mem_singleton.2 (.of_slice hs)
  | missingCloseParen hs =>
    exact List.forall_mem_cons.2
      ⟨.of_slice hs, List.forall_mem_singleton.2 (.of_slice (slice?_end source))⟩

/-! ## Which forms are open where -/

/-- The forms that can be open at the place. -/
def Place.kinds : Place → List FormKind
  | name => [.claim, .define]
  | parameters | slot (.argument _) => [.lambda]
  | close => [.claim, .define, .lambda]
  | slot (.required field) =>
    if field = .domain ∨ field = .codomain then [.functionType] else [.claim, .define, .lambda]
  | slot .function => [.application]
  | slot (.more _) => [.application, .functionType]

/-- The form of the focus can be open there. -/
def Focus.InPlace : Focus → Prop
  | expression | head _ => True
  | name f => f.node.kind ∈ Place.name.kinds
  | parameters f => f.node.kind ∈ Place.parameters.kinds
  | close f => f.node.kind ∈ Place.close.kinds

namespace Parser

/-- Every form is open at a place where its kind can be. -/
structure InPlace (p : Parser) : Prop where
  enclosing : ∀ x ∈ p.enclosing, x.1.node.kind ∈ (Place.slot x.2).kinds
  focus : p.focus.InPlace

theorem inPlace_initial (maxDepth : Nat) : (initial maxDepth).InPlace :=
  ⟨fun _ hx => absurd hx List.not_mem_nil, trivial⟩

theorem inPlace_slot {d : Nat} {root : NodeBuilder} {tokens : Array Token} {f : OpenForm}
    {slot : Slot} {enclosing : List (OpenForm × Slot)} (hf : f.node.kind ∈ (Place.slot slot).kinds)
    (ho : ∀ x ∈ enclosing, x.1.node.kind ∈ (Place.slot x.2).kinds) :
    InPlace ⟨d, root, tokens, (f, slot) :: enclosing, .expression⟩ :=
  ⟨List.forall_mem_cons.2 ⟨hf, ho⟩, trivial⟩

/-- A completed node leaves every open form where it can be. -/
theorem inPlace_of_delivery {p q : Parser} {n : Node} (h : Delivery p n q)
    (hp : ∀ x ∈ p.enclosing, x.1.node.kind ∈ (Place.slot x.2).kinds) : q.InPlace := by
  cases h with
  | form => exact ⟨hp, trivial⟩
  | @value _ _ _ f field outer n hd hc =>
    obtain ⟨hf, ho⟩ := List.forall_mem_cons.1 hp
    refine ⟨ho, ?_⟩
    rw [Place.kinds, if_neg fun hfield => hfield.elim hd hc] at hf
    exact hf
  | codomain =>
    obtain ⟨hf, ho⟩ := List.forall_mem_cons.1 hp
    exact inPlace_slot (List.mem_cons_of_mem _ hf) ho
  | function =>
    obtain ⟨hf, ho⟩ := List.forall_mem_cons.1 hp
    exact inPlace_slot (List.mem_cons.2 (Or.inl (List.mem_singleton.1 hf))) ho
  | domain | more | argument =>
    obtain ⟨hf, ho⟩ := List.forall_mem_cons.1 hp
    exact inPlace_slot hf ho

/-- **One step.**  Every step keeps the forms in their places. -/
theorem inPlace_of_step {p q : Parser} {t : Token} (h : Step p t q) (hp : p.InPlace) :
    q.InPlace := by
  induction h with
  | leaf ht hq => exact inPlace_of_delivery hq hp.enclosing
  | opening ht => exact ⟨hp.enclosing, trivial⟩
  | closing ht hq => exact inPlace_of_delivery hq (List.forall_mem_cons.1 hp.enclosing).2
  | closingArguments ht =>
    obtain ⟨hf, ho⟩ := List.forall_mem_cons.1 hp.enclosing
    refine inPlace_slot ?_ ho
    rw [List.mem_singleton.1 hf]
    decide
  | @binding d root ts enclosing opening t kind word ht hk hd =>
    refine ⟨hp.enclosing, ?_⟩
    show kind ∈ [FormKind.claim, .define]
    cases hk <;> decide
  | lambda ht hd => exact ⟨hp.enclosing, List.mem_singleton.2 rfl⟩
  | arrow ht hd => exact inPlace_slot (List.mem_singleton.2 rfl) hp.enclosing
  | application ht hd hq ih => exact ih (inPlace_slot (List.mem_singleton.2 rfl) hp.enclosing)
  | @name d root ts enclosing f t ht =>
    refine inPlace_slot ?_ hp.enclosing
    have hf : f.node.kind ∈ [FormKind.claim, .define] := hp.focus
    show f.node.kind ∈ (Place.slot (.required (valueField f.node.kind))).kinds
    generalize f.node.kind = kind at hf
    cases kind with
    | claim | define => decide
    | _ => simp at hf
  | parameters ht hd => exact inPlace_slot hp.focus hp.enclosing
  | close ht hq => exact inPlace_of_delivery hq hp.enclosing

/-- **All steps.**  Reading keeps the forms in their places. -/
theorem inPlace_of_readAll {maxDepth : Nat} {p : Parser} {ts : List Token}
    (h : (initial maxDepth).readAll ts = .ok p) : p.InPlace :=
  readAll_keeps h (inPlace_initial maxDepth) fun hr hstep => inPlace_of_step hstep hr

end Parser

/-! ## Why texts are no tokens -/

/-- The two faults of a text: its first character begins no token, or is a quote without a name. -/
theorem lexeme_fault {arrows : Bool} {mode : LexMode} {c : Char} {rest : List Char}
    {fault : LexFault} (h : lexeme arrows mode (c :: rest) = .error fault) :
    fault = .unrecognized c ∨
      fault = .incompleteAtom ∧ c = '\'' ∧ ∀ d ∈ rest.head?, isNameBody d = false := by
  rw [lexeme] at h
  split at h
  · cases h
  split at h
  · cases h
  split at h
  · next hquote =>
    -- The run of the name is empty, hence no name begins behind the quote.
    right
    split at h
    · next hrun =>
      refine ⟨(Except.error.inj h).symm, hquote, ?_⟩
      cases rest with
      | nil => exact fun d hd => by cases hd
      | cons x rest =>
        intro d hd
        obtain rfl : x = d := Option.some.inj hd
        by_contra hname
        rw [List.takeWhile_cons_of_pos (by simpa using hname)] at hrun
        cases hrun
    · cases h
  split at h
  · cases h
  simp only at h
  split at h
  · cases h
  split at h
  · cases h
  · exact Or.inl (Except.error.inj h).symm

section Explain

variable {arrows : Bool} {source : List Char} {here last : Lexer} {ts : List Token}

/-- A lexical error is explained by the character it is about. -/
theorem explains_of_fault {mode : LexMode} {e : LexError}
    (hts : Scan .initial (.ofSource arrows source) ts here)
    (h : here.next mode = (.error e, last)) : Explains arrows source (.lexical e) := by
  obtain ⟨xs, o, c, rest, fault, hrest, htiles, -, hl, rfl⟩ := exists_fault_of_error h
  have hsource : source = ts.flatMap Token.source ++ xs.flatMap Trivia.text ++ c :: rest := by
    have hall : source = ts.flatMap Token.source ++ here.cursor.rest := hts.rest_eq
    rw [List.append_assoc, ← hrest]
    exact hall
  have ho := hts.place_eq htiles
  generalize ts.flatMap Token.source ++ xs.flatMap Trivia.text = before at hsource ho
  have hspan : (⟨o, c :: rest⟩ : Cursor).spanOf 1 =
      ⟨byteLength before, byteLength before + byteLength [c]⟩ := by
    rw [ho]
    rfl
  rcases lexeme_fault hl with rfl | ⟨rfl, rfl, ha⟩
  · rw [LexFault.at, hspan]
    refine .unrecognizedCharacter ?_
    rw [hsource, List.append_cons]
    exact slice?_append before [c] rest
  · rw [LexFault.at, hspan]
    exact .incompleteAtom hsource ha

/-! ## Why tokens are refused -/

/-- Where a name is a name, only a closing parenthesis begins no expression. -/
theorem eq_rightParen {kind : TokenKind} (hs : kind.startsExpression = false)
    (hm : LexMode.plain.Admits arrows kind) (hk : kind ≠ .endOfInput) : kind = .rightParen := by
  cases kind with
  | rightParen => rfl
  | keyword word => cases hm
  | comment => exact hm.elim
  | endOfInput => exact absurd rfl hk
  | _ => cases hs

/-- An expression begins with a parenthesis or is a leaf. -/
theorem leftParen_or_leaf {kind : TokenKind} (hs : kind.startsExpression = true) :
    kind = .leftParen ∨ ∃ leaf, Parser.leafKind? kind = some leaf := by
  cases kind with
  | leftParen => exact Or.inl rfl
  | atom | identifier | typeIdentifier => exact Or.inr ⟨_, rfl⟩
  | _ => cases hs

/-- A node stands at its span, from its first token to the last. -/
theorem Lexer.Finds.slice_spelled {n : Node} (h : Finds arrows source ts) (hn : Spelled n ts) :
    n.span.slice? source = some (textOf ts) := by
  obtain ⟨t, rest, u, rfl, hu, hspan⟩ := hn.exists_first_last
  rw [hspan]
  exact h.slice hu

namespace Parser

variable {p : Parser} {t : Token} {e : ParseError}

/-- Another token than the end of the input is quoted. -/
theorem reject_of_ne_end (hk : t.kind ≠ .endOfInput) (expected : List Expected)
    (context : Production) :
    p.reject t expected context = .unexpectedToken t.quoted expected context t.span :=
  if_neg (by simpa [Token.isEnd] using hk)

/-- The error about a node that is turned away is explained by the node. -/
theorem explains_of_misfit {n : Node} (h : Misfit p n e) (hf : Finds arrows source ts)
    (hn : Spelled n ts) (hx : n.kind.isExpression = true ∨ p.enclosing = []) :
    Explains arrows source (.grammatical e) := by
  cases h with
  | argument hk =>
    exact .nonIdentifierArgument hf hn (hf.slice_spelled hn) (hx.resolve_right (by simp)) hk

/-- A form that is turned away is one whole expression. -/
theorem explains_of_closing {d : Nat} {root : NodeBuilder} {tokens : Array Token} {f : OpenForm}
    {place : Place} {outer : List (OpenForm × Slot)} {us : List Token}
    (h : Misfit ⟨d, root, tokens, outer, .expression⟩ (f.close t.span) e)
    (hts : Scan .initial (.ofSource arrows source) (ts ++ us ++ [t]) last) (hf : f.Read place us)
    (hlast : place.IsLast) (hfit : f.Fits outer) (ht : t.kind = .rightParen) :
    Explains arrows source (.grammatical e) := by
  have hspelled := hf.spelled hlast ht fun u hu =>
    hts.inOrder.le_last u (List.mem_append_right ts hu)
  rw [List.append_assoc] at hts
  exact explains_of_misfit h ⟨ts, last, hts⟩ hspelled hfit

/-- What holds of the productions of all kinds holds of that of a form. -/
theorem production_mem {f : OpenForm} {kinds : List FormKind} {productions : List Production}
    (hf : f.node.kind ∈ kinds) (h : ∀ kind ∈ kinds, kind.production ∈ productions) :
    f.production ∈ productions := h _ hf

/-- **Refusals.**  The error for a token that is refused explains the text that it points at. -/
theorem explains_of_refusal (h : Refusal p t e)
    (hts : Scan .initial (.ofSource arrows source) (p.tokens.toList ++ [t]) last)
    (hplace : p.InPlace) (hacc : p.Accounts) (hm : p.mode.Admits arrows t.kind)
    (hd : ∀ limit span, e ≠ .depthExceeded limit span) :
    Explains arrows source (.grammatical e) := by
  have hfound : Finds arrows source [t] := ⟨_, _, hts⟩
  obtain ⟨_, _, _, -, hk⟩ := hfound.took
  have hslice := hfound.slice_singleton
  induction h with
  | topLevel ht =>
    rw [reject_of_ne_end hk]
    have hparen := eq_rightParen ht hm hk
    exact .unexpectedToken hfound hslice (.topLevel (hfound.text_of_rightParen hparen))
  | @missing d root tokens f field outer t ht =>
    have hf := (List.forall_mem_cons.1 hplace.enclosing).1
    rw [hfound.text_of_rightParen ht] at hslice
    refine .missingExpression hslice ?_
    simp only [Place.kinds] at hf
    split at hf
    · exact production_mem hf (by decide)
    · exact production_mem hf (by decide)
  | @unexpected d root tokens f slot outer t ht hs =>
    have hf := (List.forall_mem_cons.1 hplace.enclosing).1
    rw [reject_of_ne_end hk]
    have hparen := eq_rightParen ht hm hk
    -- Anywhere but at the function the parenthesis closes the form or the arguments.
    obtain rfl := hs hparen
    have hcontext : Slot.function.context f = .application :=
      congrArg FormKind.production (List.mem_singleton.1 hf)
    rw [hcontext]
    exact .unexpectedToken hfound hslice (.function (hfound.text_of_rightParen hparen))
  | leaf ht he => exact explains_of_misfit he hfound (.leaf ht) (Or.inl rfl)
  | closing ht he =>
    obtain ⟨_, us, henc, hread, htokens⟩ := hacc
    cases hread
    cases henc with
    | form henc hf hfit =>
      rw [htokens, List.append_nil] at hts
      exact explains_of_closing he hts hf trivial hfit ht
  | deepForm | deepArguments => exact absurd rfl (hd _ _)
  | application ht hroom he ih =>
    exact ih hts (inPlace_slot (List.mem_singleton.2 rfl) hplace.enclosing) (accounts_of_head hacc)
      (admits_of_ne_keyword ht hm) hd hfound hk hslice
  | @name d root tokens enclosing f t ht =>
    rw [reject_of_ne_end hk]
    have hcontext : f.production ∈ [.claim, .define] := production_mem hplace.focus (by decide)
    exact .unexpectedToken hfound hslice (.name (by simpa using hcontext) ht)
  | @parameters d root tokens enclosing f t ht =>
    rw [reject_of_ne_end hk]
    have hcontext : f.production = .lambda :=
      congrArg FormKind.production (List.mem_singleton.1 hplace.focus)
    rw [hcontext]
    exact .unexpectedToken hfound hslice (.parameters ht)
  | @extra d root tokens enclosing f t ht =>
    have hcontext : f.production ∈ [.claim, .define, .lambda] :=
      production_mem hplace.focus (by decide)
    refine .extraExpression hfound hslice ?_ hcontext
    exact (leftParen_or_leaf ht).imp_left hfound.text_of_leftParen
  | closed ht he =>
    obtain ⟨_, us, henc, hread, htokens⟩ := hacc
    cases hread with
    | close hf hfit =>
      rw [htokens] at hts
      exact explains_of_closing he hts hf trivial hfit ht
  | close hp ht => exact absurd (eq_rightParen ht hm hk) hp

end Parser

/-! ## Whole sources -/

/-- The parenthesis that is blamed for want of input is one of the source. -/
theorem explains_of_blames {context : Production} {opening : Span} {expected : List Expected}
    (hts : Scan .initial (.ofSource arrows source) ts here) (h : Blames ts context opening) :
    Explains arrows source
      (.grammatical (.missingCloseParen context expected opening (.point (byteLength source)))) := by
  obtain ⟨before, o, after, rfl, ho, -, rfl, -⟩ := h
  rw [List.append_cons] at hts
  obtain ⟨mid, hfront, -⟩ := hts.exists_split
  have hfound : Finds arrows source [o] := ⟨before, mid, hfront⟩
  have hslice := hfound.slice_singleton
  rw [hfound.text_of_leftParen ho] at hslice
  exact .missingCloseParen hslice

end Explain

section Parse

variable {settings : Settings} {source : List Char}

/-- For want of input, the parenthesis and the end of the source are pointed at. -/
theorem explains_of_incomplete {ts : List Token} {q : Parser} {here last : Lexer} {t : Token}
    {context : Production} {expected : List Expected} {opening span : Span}
    (hts : Scan .initial (.ofSource settings.arrows source) ts here)
    (hq : (Parser.initial settings.maxDepth).readAll ts = .ok q)
    (ht : here.next q.mode = (.ok t, last))
    (h : Parser.Refusal q t (.missingCloseParen context expected opening span)) :
    Explains settings.arrows source
      (.grammatical (.missingCloseParen context expected opening span)) := by
  obtain ⟨outer, hopen, -, hspan⟩ := Parser.leavesOpen_of_refusal h
    (Parser.follows_of_readAll hq) (Parser.depth_le_of_readAll hq (Nat.zero_le _))
  rw [hspan, eq_atEnd hts (took_of_next ht) (Parser.kind_of_incomplete h rfl)]
  exact explains_of_blames hts hopen.blames

/-- Before the end of the input, the token is pointed at, or the expression that it ends. -/
theorem explains_of_token {ts : List Token} {q : Parser} {here last : Lexer} {t : Token}
    {e : ParseError} (hts : Scan .initial (.ofSource settings.arrows source) ts here)
    (hq : (Parser.initial settings.maxDepth).readAll ts = .ok q)
    (ht : here.next q.mode = (.ok t, last)) (hk : t.kind ≠ .endOfInput)
    (h : Parser.Refusal q t e) (hd : ∀ limit span, e ≠ .depthExceeded limit span) :
    Explains settings.arrows source (.grammatical e) := by
  have hm := admits_of_lexeme (took_of_next ht).lexeme_eq
  rw [hts.arrows_eq] at hm
  have htokens : q.tokens.toList = ts := Parser.tokens_of_readAll hq
  rw [← Parser.mode_of_readAll hq] at ht
  have hall := hts.concat ht hk
  rw [← htokens] at hall
  exact Parser.explains_of_refusal h hall (Parser.inPlace_of_readAll hq)
    (Parser.accounts_of_scan hts hq) hm hd

/-- Every error of a parse is explained. -/
theorem explains_of_parse {e : SyntaxError} (h : parse settings source = .error e) :
    Explains settings.arrows source e := by
  obtain ⟨ts, q, here, hts, hq, hend⟩ := parse_ending settings source
  rw [h] at hend
  cases hend with
  | lexical he => exact explains_of_fault hts he
  | @refused t last e ht hr hk =>
    have hrefusal := Parser.refusal_of_read hr
    by_cases hdeep : ∃ limit span, e = .depthExceeded limit span
    · obtain ⟨limit, span, rfl⟩ := hdeep
      obtain ⟨-, text, rest, _, _, hsource, rfl, -⟩ := exists_paren_of_depthExceeded h
      refine .depthExceeded ?_
      rw [hsource, List.append_cons]
      exact slice?_append text ['('] rest
    cases hincomplete : (SyntaxError.grammatical e).isIncomplete with
    | true =>
      cases e with
      | missingCloseParen => exact explains_of_incomplete hts hq ht hrefusal
      | _ => cases hincomplete
    | false =>
      have hroom : ¬ q.IsSpent := by
        intro hspent
        obtain ⟨opening, hf⟩ := hspent.1
        rw [hspent.read_eq hf] at hr
        cases hr
        exact hdeep ⟨_, _, rfl⟩
      have hkind := Parser.kind_ne_end_of_refusal hr hincomplete hroom hk
      exact explains_of_token hts hq ht hkind hrefusal
        fun limit span heq => hdeep ⟨limit, span, heq⟩

/-- **What errors point at.**  Every span of an error has a text, a line and a column in the source,
and the error explains that text; no token is quoted as the end of the input. -/
theorem error_points_at_text {e : SyntaxError} (h : parse settings source = .error e) :
    (∀ label ∈ e.diagnostic.labels, label.span.InBounds source) ∧
      Explains settings.arrows source e ∧
      ∀ found expected context span,
        e = .grammatical (.unexpectedToken found expected context span) →
          found ≠ "end of input".toList := by
  have hexplains := explains_of_parse h
  refine ⟨hexplains.inBounds, hexplains, ?_⟩
  rintro found expected context span rfl hfound
  cases hexplains with
  | @unexpectedToken t =>
    have hhead := congrArg List.head? hfound
    simp [Token.quoted] at hhead

end Parse

/-- An application among the arguments of a lambda. -/
theorem error_points_at_text_argument :
    Explains false "(lambda (x (f y)) x)".toList
      (.grammatical (.nonIdentifierArgument (.form .application) ⟨11, 16⟩)) := by
  have herror : error? (parse {} "(lambda (x (f y)) x)".toList) =
      some (.grammatical (.nonIdentifierArgument (.form .application) ⟨11, 16⟩)) := by
    decide +kernel
  exact (error_points_at_text (eq_error_of_error? herror)).2.1

end PieSyntax
