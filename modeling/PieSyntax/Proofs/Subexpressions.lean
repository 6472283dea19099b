/-
# Expressions by themselves

What stands below the root of a tree can be cut out of the source and parsed by itself.  The lexer then
counts fewer parentheses around it, which makes a difference at the head of the outermost form alone:
there `claim` and `define` are keywords, and inside another form they are names.  A reader that counts
fewer parentheses scans the same tokens (`Lexer.Scan.of_deepen`), and what stands apart from the
arguments of lambdas is scanned from the beginning (`Spelled.scan_initial`).  Main statement: every node
parses to itself, but for the application of one of the two names inside another form
(`parse_slice_iff`).
-/
import PieSyntax.Proofs.Concatenation
import PieSyntax.Proofs.LexicalRules
import PieSyntax.Proofs.ErrorPlaces
import PieSyntax.Proofs.Joining
import PieSyntax.Proofs.Unambiguity

namespace PieSyntax

open Text Lexer

/-! ## Fewer parentheses around -/

namespace Lexer

namespace Schedule

/-- What a reader knows with `k` more parentheses open around it. -/
def deepen (k : Nat) (s : Schedule) : Schedule := { s with depth := s.depth + k }

/-- Inside a parenthesis those around it do not matter. -/
theorem after_deepen {s : Schedule} (h : 0 < s.depth) (k : Nat) (t : Token) :
    (s.deepen k).after t = (s.after t).deepen k := by
  have hne : s.depth ≠ 0 := by omega
  have hclose : s.depth + k - 1 = s.depth - 1 + k := by omega
  have hopen : s.depth + k + 1 = s.depth + 1 + k := by omega
  cases hk : t.kind <;> simp [after, deepen, hk, hne, hclose, hopen]

/-- The word behind a parenthesis leads to what it would lead to at top level. -/
theorem after_opening {opening : Token} (ho : opening.kind = .leftParen) (s : Schedule) (t : Token) :
    (s.after opening).after t = ((initial.after opening).after t).deepen s.depth := by
  cases hk : t.kind <;> simp [after, deepen, initial, ho, hk] <;> omega

/-- Tokens that never close too many parentheses change the depth by those that they leave open. -/
theorem depth_afterAll {ts us vs : List Token} (h : Balanced ts) (hcut : ts = us ++ vs)
    (s : Schedule) : (s.afterAll us).depth + (us.map Token.kind).count .rightParen =
      s.depth + (us.map Token.kind).count .leftParen := by
  induction us using List.reverseRecOn generalizing vs with
  | nil => rfl
  | append_singleton us t ih =>
    have hbefore := @ih (t :: vs) (by rw [hcut, List.append_assoc, List.singleton_append])
    have hle := h.count_le hcut
    rw [afterAll_concat, after]
    simp only [List.map_append, List.map_singleton, List.count_append] at hle ⊢
    cases hk : t.kind <;> simp [hk] at hle ⊢ <;> omega

end Schedule

variable {lx last : Lexer}

/-- **Fewer parentheses.**  As long as a parenthesis stays open, the tokens are scanned without those
around it. -/
theorem Scan.of_deepen {k : Nat} {s : Schedule} {ts : List Token}
    (h : Scan (s.deepen k) lx ts last)
    (hopen : ∀ us vs, ts = us ++ vs → vs ≠ [] → 0 < (s.afterAll us).depth) :
    Scan s lx ts last := by
  induction ts generalizing s lx with
  | nil =>
    cases h
    exact .nil
  | cons t ts ih =>
    cases h with
    | cons ht hk hts =>
      have hdepth : 0 < s.depth := hopen [] (t :: ts) rfl (List.cons_ne_nil t ts)
      rw [Schedule.after_deepen hdepth] at hts
      refine .cons ht hk (ih hts fun us vs hcut hne => ?_)
      exact hopen (t :: us) vs (by rw [hcut, List.cons_append]) hne

end Lexer

/-! ## Other modes -/

section Modes

variable {arrows : Bool} {mode mode' : LexMode} {kind : TokenKind} {text u : List Char}

theorem Lexes.allows {word : Keyword} (h : Lexes arrows mode text (.ok (.keyword word, u))) :
    mode.allows arrows word = true := by
  cases h with
  | keyword hc hrun hword hmode => exact hmode
  | backslash hmode => exact allows_lambda_iff.2 hmode

theorem Lexes.not_allows (h : Lexes arrows mode text (.ok (.identifier, u))) :
    ∀ word : Keyword, u ∈ word.spellings → mode.allows arrows word = false := by
  cases h with
  | identifier hc hrun hword => exact hword

/-- What the rules find in one mode they find in every mode that decides alike on the word. -/
theorem Lexes.other_mode (h : Lexes arrows mode text (.ok (kind, u)))
    (hkeyword : ∀ word, kind = .keyword word → mode'.allows arrows word = true)
    (hname : kind = .identifier →
      ∀ word : Keyword, u ∈ word.spellings → mode'.allows arrows word = false) :
    Lexes arrows mode' text (.ok (kind, u)) := by
  cases h with
  | endOfInput => exact .endOfInput
  | leftParen => exact .leftParen
  | rightParen => exact .rightParen
  | atom hrun hne => exact .atom hrun hne
  | keyword hc hrun hword => exact .keyword hc hrun hword (hkeyword _ rfl)
  | identifier hc hrun => exact .identifier hc hrun (hname rfl)
  | typeIdentifier hc hrun => exact .typeIdentifier hc hrun
  | backslash => exact .backslash (allows_lambda_iff.1 (hkeyword _ rfl))

/-- What is no keyword is the same where there are none. -/
theorem Lexes.plain (h : Lexes arrows mode text (.ok (kind, u)))
    (hk : ∀ word, kind ≠ .keyword word) : Lexes arrows .plain text (.ok (kind, u)) :=
  h.other_mode (fun word hword => absurd hword (hk word)) fun _ _ _ => rfl

/-- At top level two more words are keywords. -/
theorem Lexes.topLevelHead (h : Lexes arrows .head text (.ok (kind, u)))
    (hbinder : kind = .identifier → u ≠ "claim".toList ∧ u ≠ "define".toList) :
    Lexes arrows .topLevelHead text (.ok (kind, u)) := by
  refine h.other_mode ?_ ?_
  · rintro word rfl
    have hhead := h.allows
    cases word with
    | claim | define => rfl
    | lambda | arrow => exact hhead
  · rintro rfl word hspelled
    have hhead := h.not_allows word hspelled
    obtain ⟨hclaim, hdefine⟩ := hbinder rfl
    cases word with
    | claim => exact absurd (List.mem_singleton.1 hspelled) hclaim
    | define => exact absurd (List.mem_singleton.1 hspelled) hdefine
    | lambda | arrow => exact hhead

/-- At the head of a form at top level no name is spelled `claim` or `define`. -/
theorem Lexes.ne_binder (h : Lexes arrows .topLevelHead text (.ok (.identifier, u))) :
    u ≠ "claim".toList ∧ u ≠ "define".toList := by
  constructor
  · rintro rfl
    exact absurd (h.not_allows .claim (by decide)) (by simp [LexMode.allows])
  · rintro rfl
    exact absurd (h.not_allows .define (by decide)) (by simp [LexMode.allows])

/-- A token is taken in every mode in which the rules find it. -/
theorem Lexer.next_of_mode {lx last : Lexer} {t : Token} (h : lx.next mode = (.ok t, last))
    (hmode : Lexes lx.arrows mode' (t.text ++ last.cursor.rest) (.ok (t.kind, t.text))) :
    lx.next mode' = (.ok t, last) := by
  obtain ⟨rest, -, hnext⟩ := next_of_lexes (took_of_next h).skipTrivia_eq hmode
  obtain ⟨htoken, hlast⟩ := next_eq_of_next h hnext
  rw [hnext, htoken, hlast]

end Modes

/-! ## Applications of claim and define -/

/-- The form is the application of the name `claim` or `define`. -/
def Node.AppliesBinder (n : Node) : Prop :=
  n.kind = .form .application ∧ ∃ span text, n.field? .function = some (.leaf .identifier span text) ∧
    (text = "claim".toList ∨ text = "define".toList)

theorem Node.field?_relocate (r : Relocation) (n : Node) (field : Field) :
    (n.relocate r).field? field = (n.field? field).map (Node.relocate r) := by
  rw [field?, field?, fieldsOf, fieldsOf, labelled_relocate, List.filterMap_map, ← List.head?_map,
    List.map_filterMap]
  congr 2
  funext c
  by_cases hc : c.1 = some field <;> simp [relocateChild, hc]

theorem Node.AppliesBinder.of_relocate {r : Relocation} {n : Node}
    (h : (n.relocate r).AppliesBinder) : n.AppliesBinder := by
  obtain ⟨hk, span, text, hfield, htext⟩ := h
  rw [kind_relocate] at hk
  rw [field?_relocate] at hfield
  obtain ⟨function, hfunction, hleaf⟩ := Option.map_eq_some_iff.1 hfield
  cases function with
  | leaf =>
    cases hleaf
    exact ⟨hk, _, _, hfunction, htext⟩
  | form => cases hleaf

/-- The token is the name `claim` or `define`. -/
def Token.NamesBinder (t : Token) : Prop :=
  t.kind = .identifier ∧ (t.text = "claim".toList ∨ t.text = "define".toList)

/-- The function of an application is read from its first token if that is a name. -/
theorem Spelled.identifier_iff {n : Node} {t : Token} {us : List Token} (h : Spelled n (t :: us))
    (span : Span) (text : List Char) :
    n = .leaf .identifier span text ↔ t.kind = .identifier ∧ t.span = span ∧ t.text = text := by
  cases h with
  | @leaf t kind ht => cases hk : t.kind <;> simp [hk, Parser.leafKind?] at ht <;> simp [← ht]
  | form ho => simp [ho]

/-- A form begins with its parenthesis, and the word behind it says whether it applies `claim` or
`define`. -/
theorem Spelled.exists_head {n : Node} {us : List Token} (h : Spelled n us)
    (hn : n.kind.isLeaf = false) : ∃ opening t inside closing,
      us = opening :: t :: (inside ++ [closing]) ∧ opening.kind = .leftParen ∧
      Balanced (t :: inside) ∧ (n.AppliesBinder ↔ t.NamesBinder) := by
  cases h with
  | leaf => cases hn
  | @form kind opening closing parts inside ho hc hl hp hx =>
    have hbalanced := hl.balanced fun x hmem => (hp x hmem).balanced
    cases hl with
    | @binding kind word kw t value hk hw =>
      refine ⟨opening, kw, _, closing, rfl, ho, hbalanced, ?_⟩
      cases hk <;> simp [Node.AppliesBinder, Token.NamesBinder, Node.kind, hw]
    | lambda hw | functionType hw =>
      refine ⟨opening, _, _, closing, rfl, ho, hbalanced, ?_⟩
      simp [Node.AppliesBinder, Token.NamesBinder, Node.kind, hw]
    | @application function arguments hf ha =>
      have hfunction := hp function List.mem_cons_self
      obtain ⟨t, us, htokens, -⟩ := hfunction.exists_cons
      rw [htokens] at hfunction hbalanced ⊢
      refine ⟨opening, t, us ++ arguments.flatMap Part.tokens, closing, by simp, ho, hbalanced, ?_⟩
      have hfield : (Node.form .application ⟨opening.span.start, closing.span.stop⟩
          ((function :: arguments).map Part.child)).field? .function = some function.node := by
        rw [Node.field?, fieldsOf_form, List.filter_cons_of_pos (by simp [hf])]
        rfl
      rw [Node.AppliesBinder, hfield, Token.NamesBinder]
      simp only [Option.some.injEq, hfunction.identifier_iff]
      constructor
      · rintro ⟨-, span, text, ⟨hk, -, rfl⟩, htext⟩
        exact ⟨hk, htext⟩
      · rintro ⟨hk, htext⟩
        exact ⟨rfl, t.span, t.text, ⟨hk, rfl, rfl⟩, htext⟩

/-! ## Apart from the arguments of lambdas -/

theorem lastKind?_nil_ne : lastKind? [] ≠ some (.keyword .lambda) := by simp [lastKind?]

/-- The last token of a node is not the keyword of a lambda. -/
theorem Spelled.lastKind?_ne {n : Node} {us : List Token} (h : Spelled n us) (ts : List Token) :
    lastKind? (ts ++ us) ≠ some (.keyword .lambda) := by
  cases h with
  | @leaf t kind ht =>
    refine PieSyntax.lastKind?_ne (fun hk => ?_) ts
    rw [hk] at ht
    cases ht
  | @form kind opening closing parts inside ho hc hl hp hx =>
    rw [← List.cons_append, ← List.append_assoc]
    exact PieSyntax.lastKind?_ne (by simp [hc]) _

/-- Nor does it come last after many nodes, if it did not before them. -/
theorem lastKind?_flatMap_ne {parts : List Part} (hp : ∀ x ∈ parts, Spelled x.node x.tokens)
    {ts : List Token} (hts : lastKind? ts ≠ some (.keyword .lambda)) :
    lastKind? (ts ++ parts.flatMap Part.tokens) ≠ some (.keyword .lambda) := by
  induction parts generalizing ts with
  | nil => rwa [List.flatMap_nil, List.append_nil]
  | cons x parts ih =>
    obtain ⟨hx, hp⟩ := List.forall_mem_cons.1 hp
    rw [List.flatMap_cons, ← List.append_assoc]
    exact ih hp (hx.lastKind?_ne ts)

/-- `StandsApart us ts`: the tokens `us` stand together among `ts`, and not behind the keyword of a
lambda. -/
def StandsApart (us ts : List Token) : Prop :=
  ∃ before after, ts = before ++ us ++ after ∧ lastKind? before ≠ some (.keyword .lambda)

theorem StandsApart.refl (ts : List Token) : StandsApart ts ts :=
  ⟨[], [], by simp, lastKind?_nil_ne⟩

theorem StandsApart.isInfix {us ts : List Token} (h : StandsApart us ts) : us <:+: ts := by
  obtain ⟨before, after, hts, -⟩ := h
  exact ⟨before, after, hts.symm⟩

theorem StandsApart.trans {us ts ws : List Token} (hu : StandsApart us ts)
    (ht : StandsApart ts ws) : StandsApart us ws := by
  obtain ⟨front, back, rfl, hfront⟩ := hu
  obtain ⟨before, after, rfl, hbefore⟩ := ht
  refine ⟨before ++ front, back ++ after, by simp only [List.append_assoc], ?_⟩
  rcases List.eq_nil_or_concat front with rfl | ⟨front, t, rfl⟩
  · rwa [List.append_nil]
  · rw [List.concat_eq_append] at hfront ⊢
    rw [← List.append_assoc, lastKind?_concat]
    rwa [lastKind?_concat] at hfront

/-- Each of many nodes stands apart behind tokens that do not end with the keyword. -/
theorem standsApart_flatMap {parts : List Part} (hp : ∀ x ∈ parts, Spelled x.node x.tokens)
    {x : Part} (hx : x ∈ parts) {ts : List Token} (hts : lastKind? ts ≠ some (.keyword .lambda))
    (us : List Token) : StandsApart x.tokens (ts ++ parts.flatMap Part.tokens ++ us) := by
  obtain ⟨front, back, rfl⟩ := List.append_of_mem hx
  have hfront : ∀ y ∈ front, Spelled y.node y.tokens := fun y hy =>
    hp y (List.mem_append_left _ hy)
  refine ⟨ts ++ front.flatMap Part.tokens, back.flatMap Part.tokens ++ us, ?_,
    lastKind?_flatMap_ne hfront hts⟩
  simp only [List.flatMap_append, List.flatMap_cons, List.append_assoc]

/-- The children of a form stand apart. -/
theorem Layout.standsApart {kind : FormKind} {parts : List Part} {inside : List Token}
    (h : Layout kind parts inside) (hp : ∀ x ∈ parts, Spelled x.node x.tokens) {opening : Token}
    (ho : opening.kind = .leftParen) {x : Part} (hx : x ∈ parts) (us : List Token) :
    StandsApart x.tokens (opening :: (inside ++ us)) := by
  cases h with
  | @binding kind word kw t value hk hw ht hv =>
    have hts : lastKind? [opening, kw] ≠ some (.keyword .lambda) := by
      cases hk <;> simp [lastKind?, hw]
    have hbinding := standsApart_flatMap hp hx hts us
    simpa [Part.name] using hbinding
  | @lambda kw opening' names closing body hw ho' hn hc hb =>
    obtain ⟨hnames, hbody⟩ := List.forall_mem_append.1 hp
    rcases List.mem_append.1 hx with hx | hx
    · have hts : lastKind? [opening, kw, opening'] ≠ some (.keyword .lambda) := by
        simp [lastKind?, ho']
      have hargument := standsApart_flatMap hnames hx hts (closing :: body.tokens ++ us)
      rw [flatMap_names] at hargument
      simpa using hargument
    · have hts : lastKind? (opening :: kw :: opening' :: names ++ [closing]) ≠
          some (.keyword .lambda) := PieSyntax.lastKind?_ne (by simp [hc]) _
      have hvalue := standsApart_flatMap hbody hx hts us
      simpa using hvalue
  | @functionType kw domain codomains hw hd hne hcodomain =>
    have hts : lastKind? [opening, kw] ≠ some (.keyword .lambda) := by simp [lastKind?, hw]
    have harrow := standsApart_flatMap hp hx hts us
    simpa using harrow
  | @application function arguments hf ha =>
    have hts : lastKind? [opening] ≠ some (.keyword .lambda) := by simp [lastKind?, ho]
    have happlication := standsApart_flatMap hp hx hts us
    simpa using happlication

/-- Everything below a node is spelled by tokens that stand apart among its own. -/
theorem Spelled.exists_apart {n m : Node} {ts : List Token} (h : Spelled n ts)
    (hm : m ∈ n.descendants) : ∃ us, StandsApart us ts ∧ Spelled m us := by
  induction h with
  | leaf ht =>
    rcases Node.mem_descendants_iff.1 hm with rfl | ⟨c, hc, -⟩
    · exact ⟨_, .refl _, .leaf ht⟩
    · cases hc
  | @form kind opening closing parts inside ho hc hl hp hx ih =>
    rcases Node.mem_descendants_iff.1 hm with rfl | ⟨c, hchild, hm⟩
    · exact ⟨_, .refl _, .form ho hc hl hp hx⟩
    · rw [children_form] at hchild
      obtain ⟨x, hmem, rfl⟩ := List.mem_map.1 hchild
      obtain ⟨us, hus, hspelled⟩ := ih x hmem hm
      exact ⟨us, hus.trans (hl.standsApart hp ho hmem [closing]), hspelled⟩

/-! ## Scanned from the beginning -/

section Scanned

variable {lx last : Lexer} {n : Node} {us : List Token} {s : Schedule}

/-- The word behind the parenthesis is the same at top level, unless it is the name `claim` or
`define`. -/
theorem Lexer.next_head {opening t : Token} (ho : opening.kind = .leftParen)
    (hs : s.afterLambda = false) (h : lx.next (s.after opening).mode = (.ok t, last))
    (hname : ¬ t.NamesBinder) :
    lx.next (Schedule.initial.after opening).mode = (.ok t, last) := by
  have hhead : (Schedule.initial.after opening).mode = .topLevelHead := by
    simp [Schedule.after, Schedule.initial, ho]
  rw [hhead]
  by_cases hdepth : s.depth = 0
  · simpa [Schedule.after, ho, hs, hdepth] using h
  · have hmode : (s.after opening).mode = .head := by simp [Schedule.after, ho, hs, hdepth]
    rw [hmode] at h
    refine next_of_mode h ((took_of_next h).lexes.topLevelHead fun hk => ?_)
    exact not_or.1 fun htext => hname ⟨hk, htext⟩

/-- **From the beginning.**  What stands apart is scanned as from the beginning, unless it applies
`claim` or `define`. -/
theorem Spelled.scan_initial (hn : Spelled n us) (h : Scan s lx us last)
    (hs : s.afterLambda = false) (hbinder : ¬ n.AppliesBinder) : Scan .initial lx us last := by
  cases hleaf : n.kind.isLeaf with
  | true =>
    cases hn with
    | form => cases hleaf
    | leaf ht =>
      cases h with
      | cons ht' hk hnil =>
        cases hnil
        refine .cons (next_of_mode ht' ((took_of_next ht').lexes.plain fun word hword => ?_)) hk .nil
        rw [hword] at ht
        cases ht
  | false =>
    obtain ⟨opening, t, inside, closing, rfl, ho, hbalanced, hiff⟩ := hn.exists_head hleaf
    cases h with
    | @cons _ _ _ here _ _ hopening hk hrest =>
      cases hrest with
      | @cons _ _ _ mid _ _ hword hkword hinside =>
        refine .cons (next_of_mode hopening ((took_of_next hopening).lexes.plain ?_)) hk
          (.cons (next_head ho hs hword fun hname => hbinder (hiff.2 hname)) hkword ?_)
        · simp [ho]
        · rw [Schedule.after_opening ho] at hinside
          -- Behind the head the schedules differ in their depths alone, and neither is back at zero
          -- before the form is closed.
          refine hinside.of_deepen fun us vs hcut hne => ?_
          obtain ⟨ws, v, rfl⟩ := (List.eq_nil_or_concat' vs).resolve_left hne
          rw [← List.append_assoc] at hcut
          have htokens : t :: inside = (t :: us) ++ ws := by
            rw [(List.append_inj' hcut rfl).1, List.cons_append]
          have hdepth := Schedule.depth_afterAll hbalanced htokens (Schedule.initial.after opening)
          have hle := hbalanced.count_le htokens
          have hone : (Schedule.initial.after opening).depth = 1 := by
            simp [Schedule.after, Schedule.initial, ho]
          rw [Schedule.afterAll_cons] at hdepth
          omega

end Scanned

/-! ## Cut out of the source -/

namespace Lexer

section Alone

variable {lx lx' last last' : Lexer} {mode : LexMode} {k : Nat} {us : List Token}

/-- What is taken further on is taken here. -/
theorem Aligned.exists_token {u : Token} (h : Aligned k lx lx') (hu : lx'.next mode = (.ok u, last')) :
    ∃ t last, lx.next mode = (.ok t, last) ∧ Aligned k last last' ∧
      t.Relocated (.shift k) u ∧ u.text = t.text := by
  obtain ⟨r, last, hr⟩ : ∃ r last, lx.next mode = (r, last) := ⟨_, _, rfl⟩
  cases r with
  | error e =>
    obtain ⟨last', he⟩ := h.error hr
    rw [hu] at he
    cases he
  | ok t =>
    obtain ⟨u', last'', hu', hlast, hmoved, htext⟩ := h.token hr
    rw [hu] at hu'
    cases hu'
    exact ⟨t, last, hr, hlast, hmoved, htext⟩

/-- The tokens that are scanned further on are scanned here. -/
theorem Aligned.exists_scan {s : Schedule} (h : Aligned k lx lx') (hus : Scan s lx' us last') :
    ∃ ts last, Scan s lx ts last ∧ Aligned k last last' ∧
      ts.map (Token.moved k) = us.map (Token.moved 0) := by
  induction hus generalizing lx with
  | nil => exact ⟨[], lx, .nil, h, rfl⟩
  | @cons s lx' u mid' us last' hu hk hus ih =>
    obtain ⟨t, mid, ht, hmid, hmoved, htext⟩ := h.exists_token hu
    obtain ⟨ts, last, hts, hlast, hall⟩ := ih hmid
    rw [Schedule.after_congr hmoved.kind_eq] at hts
    have hne : t.kind ≠ .endOfInput := by rwa [hmoved.kind_eq] at hk
    refine ⟨t :: ts, last, .cons ht hne hts, hlast, ?_⟩
    have hplace : u.span = t.span.shift k := hmoved.span_eq
    rw [List.map_cons, List.map_cons, hall, Token.moved, Token.moved, hmoved.kind_eq, htext, hplace]
    rfl

/-- **Cut out.**  The text of some tokens that are scanned from the beginning has these tokens, as
far before their places as the first one stands behind the beginning of the source. -/
theorem Scan.exists_alone {u : Token} (h : Scan .initial lx (u :: us) last) :
    ∃ ts t, tokenize lx.arrows (textOf (u :: us)) = .ok (ts ++ [t]) ∧
      ts.map (Token.moved u.span.start) = (u :: us).map (Token.moved 0) := by
  -- Before the text stand only the trivia of the first token, and nothing stands behind it.
  have hcut : Scan .initial (lx.before ((u :: us).flatMap Token.source)) (u :: us)
      (last.before []) := by
    have hexchange := h.exchange fun t _ => .of_isPrefix List.nil_prefix
    rwa [List.append_nil] at hexchange
  have htrivia : (lx.before ((u :: us).flatMap Token.source)).cursor.skipTrivia =
      (u.leading, ⟨u.span.start, textOf (u :: us)⟩) := by
    cases h with
    | cons hu hk hus => exact (took_of_next hu).skipTrivia_before hk (us.flatMap Token.source)
  have hrun := (lx.before ((u :: us).flatMap Token.source)).cursor.skipTrivia_run.2.2
  rw [htrivia] at hrun
  have hstart : (Cursor.start (textOf (u :: us))).skipTrivia = ([], .start (textOf (u :: us))) :=
    Cursor.skipTrivia_of_none hrun.trivia?_rest
  have haligned : Aligned u.span.start (.ofSource lx.arrows (textOf (u :: us)))
      (lx.before ((u :: us).flatMap Token.source)) := by
    refine ⟨rfl, ?_⟩
    rw [htrivia, ofSource, hstart]
    simp [Cursor.shift, Cursor.start]
  obtain ⟨ts, here, hts, hhere, hmoved⟩ := haligned.exists_scan hcut
  have hrest : here.cursor.skipTrivia.2.rest = [] := by
    have hend : (last.before []).cursor.skipTrivia = ([], (last.before []).cursor) :=
      Cursor.skipTrivia_of_none rfl
    have hplace := hhere.cursor_eq
    rw [hend] at hplace
    exact (congrArg Cursor.rest hplace).symm
  obtain ⟨t, there, ht, hk⟩ :=
    exists_end_of_rest_eq_nil (Schedule.initial.afterAll ts).mode hrest
  exact ⟨ts, t, hts.tokenize_eq ht hk, hmoved⟩

end Alone

end Lexer

/-! ## Parsed by itself -/

variable {settings : Settings} {source : List Char} {tree : SyntaxTree} {n : Node}

theorem Schedule.afterLambda_eq_false {ts : List Token}
    (h : lastKind? ts ≠ some (.keyword .lambda)) :
    (Schedule.initial.afterAll ts).afterLambda = false := by
  rw [Bool.eq_false_iff]
  intro htrue
  obtain ⟨first, word, rfl, hword⟩ := Schedule.afterLambda_iff.1 htrue
  exact h (by rw [lastKind?_concat, hword])

/-- What stands below the root is read from tokens that stand apart. -/
theorem exists_apart_of_parse (h : parse settings source = .ok tree) (hn : n ∈ tree.below) :
    ∃ us, StandsApart us tree.tokens ∧ Spelled n us := by
  obtain ⟨parts, hroot, hparts, htokens⟩ := exists_parts_of_parse h
  obtain ⟨f, hf, hn⟩ := List.mem_flatMap.1 hn
  rw [SyntaxTree.forms, hroot, children_form] at hf
  obtain ⟨x, hx, rfl⟩ := List.mem_map.1 hf
  obtain ⟨us, hus, hspelled⟩ := (hparts x hx).2.exists_apart hn
  have hform := standsApart_flatMap (fun y hy => (hparts y hy).2) hx lastKind?_nil_ne []
  rw [List.nil_append, List.append_nil, ← htokens] at hform
  exact ⟨us, hus.trans hform, hspelled⟩

theorem balanced_of_parse (h : parse settings source = .ok tree) : Balanced tree.tokens := by
  obtain ⟨parts, -, hparts, htokens⟩ := exists_parts_of_parse h
  rw [htokens]
  exact .flatMap fun x hx => (hparts x hx).2.balanced

/-- Behind nodes all parentheses are closed, and no arguments of a lambda follow. -/
theorem schedule_of_spelled {parts : List Part} (hp : ∀ x ∈ parts, Spelled x.node x.tokens) :
    (Schedule.initial.afterAll (parts.flatMap Part.tokens)).depth = 0 ∧
      (Schedule.initial.afterAll (parts.flatMap Part.tokens)).afterLambda = false := by
  have hbalanced := Balanced.flatMap fun x hx => (hp x hx).balanced
  constructor
  · have hcount := Schedule.depth_afterAll hbalanced (List.append_nil _).symm .initial
    rw [hbalanced.count_eq] at hcount
    exact Nat.add_right_cancel hcount
  · exact Schedule.afterLambda_eq_false (lastKind?_flatMap_ne hp lastKind?_nil_ne)

/-- At top level no form applies `claim` or `define`, for there they are keywords. -/
theorem not_appliesBinder_of_mem_forms (h : parse settings source = .ok tree)
    (hn : n ∈ tree.forms) : ¬ n.AppliesBinder := by
  intro hbinder
  obtain ⟨parts, hroot, hparts, htokens⟩ := exists_parts_of_parse h
  rw [SyntaxTree.forms, hroot, children_form] at hn
  obtain ⟨x, hx, rfl⟩ := List.mem_map.1 hn
  have hleaf : x.node.kind.isLeaf = false := by rw [hbinder.1]; rfl
  obtain ⟨opening, t, inside, closing, hxtokens, ho, -, hiff⟩ := (hparts x hx).2.exists_head hleaf
  obtain ⟨hk, htext⟩ := hiff.1 hbinder
  obtain ⟨front, back, rfl⟩ := List.append_of_mem hx
  obtain ⟨hdepth, hlambda⟩ := schedule_of_spelled fun y hy => (hparts y (List.mem_append_left _ hy)).2
  have hmode : ((Schedule.initial.afterAll (front.flatMap Part.tokens)).after opening).mode =
      .topLevelHead := by simp [Schedule.after, ho, hlambda, hdepth]
  obtain ⟨q, here, last, e, hscan, -⟩ := exists_scan_of_parse h
  rw [htokens, List.flatMap_append, List.flatMap_cons, hxtokens] at hscan
  obtain ⟨mid, -, hform⟩ := hscan.exists_split
  cases hform with
  | cons hopening _ hrest =>
    cases hrest with
    | cons ht _ _ =>
      rw [hmode] at ht
      have hlexes := (took_of_next ht).lexes
      rw [hk] at hlexes
      obtain ⟨hclaim, hdefine⟩ := hlexes.ne_binder
      exact htext.elim hclaim hdefine

/-- A text with the tokens of one node has this node as its one form. -/
theorem exists_tree_of_spelled {text : List Char} {ts us : List Token} {t : Token} {k : Nat}
    (htext : tokenize settings.arrows text = .ok (ts ++ [t])) (hn : Spelled n us)
    (hmoved : ts.map (Token.moved k) = us.map (Token.moved 0))
    (hnested : NestedWithin settings.maxDepth 0 (us.map Token.kind)) :
    ∃ alone form, parse settings text = .ok alone ∧ alone.forms = [form] ∧
      form.relocate (.shift k) = n := by
  have hkinds : ts.map Token.kind = us.map Token.kind := by
    have hmap := congrArg (List.map Token.kind) hmoved
    rwa [List.map_map, List.map_map] at hmap
  have hderives : Derives .source (ts.map Token.kind) := by
    have hone := Derives.source (List.forall_mem_singleton.2 hn.derives_form)
    rwa [List.flatten_singleton, ← hkinds] at hone
  obtain ⟨alone, halone⟩ := exists_tree_of_derives htext hderives (by rwa [hkinds])
  have htokens : alone.tokens = ts := by
    have hall := tokenize_of_parse halone
    rw [htext] at hall
    exact (List.append_inj' (Except.ok.inj hall) rfl).1.symm
  obtain ⟨parts, hroot, hparts, hflat⟩ := exists_parts_of_parse halone
  rw [htokens] at hflat
  have hnode : Spelled n (us.map (Token.moved 0)) := by
    have hsame := hn.moved 0
    rwa [Node.relocate_shift_zero] at hsame
  -- Reading is unique: the first form of the tree is the node, which leaves no tokens for another.
  cases parts with
  | nil =>
    obtain ⟨u, rest, rfl, -⟩ := hn.exists_cons
    rw [hflat] at hmoved
    cases hmoved
  | cons x parts =>
    obtain ⟨⟨-, hx⟩, hrest⟩ := List.forall_mem_cons.1 hparts
    rw [hflat, List.flatMap_cons, List.map_append] at hmoved
    obtain ⟨hform, htokens⟩ := (hx.moved k).unique hnode (hmoved.trans (List.append_nil _).symm)
    have hnone : parts = [] := by
      rw [htokens, List.append_right_eq_self] at hmoved
      cases parts with
      | nil => rfl
      | cons y parts =>
        obtain ⟨u, more, hy, -⟩ := (hrest y List.mem_cons_self).2.exists_cons
        rw [List.flatMap_cons, hy] at hmoved
        cases hmoved
    refine ⟨alone, x.node, halone, ?_, hform⟩
    rw [SyntaxTree.forms, hroot, children_form, hnone]
    rfl

/-- **Cut out and parsed.**  A node below the root that does not apply `claim` or `define` is the one
form of its text. -/
theorem exists_alone_of_parse (h : parse settings source = .ok tree) (hn : n ∈ tree.below)
    (hbinder : ¬ n.AppliesBinder) : ∃ text alone form, n.span.slice? source = some text ∧
      parse settings text = .ok alone ∧ alone.forms = [form] ∧
      form.relocate (.shift n.span.start) = n := by
  obtain ⟨us, hapart, hspelled⟩ := exists_apart_of_parse h hn
  have hnested : NestedWithin settings.maxDepth 0 (us.map Token.kind) :=
    NestedWithin.of_infix (nested_of_parse h) (balanced_of_parse h) hapart.isInfix
  obtain ⟨before, after, htokens, hlast⟩ := hapart
  obtain ⟨q, here, last, e, hscan, -⟩ := exists_scan_of_parse h
  rw [htokens] at hscan
  obtain ⟨there, hfront, -⟩ := hscan.exists_split
  have hslice := Finds.slice_spelled ⟨before, there, hfront⟩ hspelled
  obtain ⟨mid, hbefore, hus⟩ := hfront.exists_split
  have hinitial := hspelled.scan_initial hus (Schedule.afterLambda_eq_false hlast) hbinder
  obtain ⟨u, rest, v, rfl, -, hspan⟩ := hspelled.exists_first_last
  obtain ⟨ts, t, htext, hmoved⟩ := hinitial.exists_alone
  have harrows : mid.arrows = settings.arrows := hbefore.arrows_eq
  rw [harrows] at htext
  obtain ⟨alone, form, halone, hforms, hform⟩ :=
    exists_tree_of_spelled htext hspelled hmoved hnested
  refine ⟨_, alone, form, hslice, halone, hforms, ?_⟩
  rw [hspan]
  exact hform

/-- **Expressions by themselves.**  For every node below the root, its text parses under the same
settings to one form, which is the node moved to the beginning, exactly if the node is not an
application of the name `claim` or `define` inside another form. -/
theorem parse_slice_iff (h : parse settings source = .ok tree) : ∀ n ∈ tree.below,
    (n ∉ tree.forms → ¬ n.AppliesBinder) ↔
      ∃ text alone form, n.span.slice? source = some text ∧ parse settings text = .ok alone ∧
        alone.forms = [form] ∧ form.relocate (.shift n.span.start) = n := by
  intro n hn
  constructor
  · intro hbinder
    refine exists_alone_of_parse h hn ?_
    by_cases htop : n ∈ tree.forms
    · exact not_appliesBinder_of_mem_forms h htop
    · exact hbinder htop
  · rintro ⟨text, alone, form, -, halone, hforms, hform⟩ - hbinder
    rw [← hform] at hbinder
    have hmem : form ∈ alone.forms := by rw [hforms]; exact List.mem_singleton_self form
    exact not_appliesBinder_of_mem_forms halone hmem hbinder.of_relocate

/-- The argument `(g x)` behind an applied `claim` is the one form of its text. -/
theorem parse_slice_iff_argument :
    ∃ tree n text alone form, parse {} "(f (claim x) (g x))".toList = .ok tree ∧ n ∈ tree.below ∧
      n.span = ⟨13, 18⟩ ∧ n.span.slice? "(f (claim x) (g x))".toList = some text ∧
      parse {} text = .ok alone ∧ alone.forms = [form] ∧ form.relocate (.shift 13) = n := by
  have hnode : ((parse {} "(f (claim x) (g x))".toList).toOption.bind fun tree =>
      tree.below.find? fun n => decide (n.span = ⟨13, 18⟩)).map
        (fun n => (n.field? .function).bind Node.text?) = some (some "g".toList) := by
    decide +kernel
  obtain ⟨n, hfind, htext⟩ := Option.map_eq_some_iff.1 hnode
  obtain ⟨tree, htree, hfind⟩ := Option.bind_eq_some_iff.1 hfind
  have h := eq_ok_of_toOption htree
  have hspan : n.span = ⟨13, 18⟩ := by simpa using List.find?_some hfind
  have hn : n ∈ tree.below := List.mem_of_find?_eq_some hfind
  have hbinder : ¬ n.AppliesBinder := by
    rintro ⟨-, span, word, hfield, hword⟩
    rw [hfield] at htext
    obtain rfl : word = "g".toList := Option.some.inj htext
    exact absurd hword (by decide)
  obtain ⟨text, alone, form, hslice, halone, hforms, hform⟩ :=
    (parse_slice_iff h n hn).1 fun _ => hbinder
  have hstart : n.span.start = 13 := congrArg Span.start hspan
  rw [hstart] at hform
  exact ⟨tree, n, text, alone, form, h, hn, hspan, hslice, halone, hforms, hform⟩

end PieSyntax
