/-
# Reading token by token

Lexing a whole source and parsing it both take one token after the other, and each decides for itself
in which mode the next token is lexed: the one by counting parentheses, the other by the place it has
reached.  `Lexer.Scan` describes the tokens taken, `Parser.schedule` reads the count off a parser, and
`Parser.schedule_of_step` says that a step changes it as the token alone would.  Main statements: what
each step keeps is kept by all of them (`Parser.readAll_invariant`), and every run of a parser reads a
scan and then ends in one of three ways (`Parser.run_ending`).
-/
import PieSyntax.Proofs.Step

namespace PieSyntax

/-! ## Scans -/

namespace Lexer

/-- `Scan s lx ts last`: from `lx` on, the tokens `ts` are taken one by one in the modes that the
schedule `s` gives, none of them is the end of the input, and `last` is the lexer after them. -/
inductive Scan : Schedule → Lexer → List Token → Lexer → Prop
  | nil {s lx} : Scan s lx [] lx
  | cons {s lx t mid ts last} (ht : lx.next s.mode = (.ok t, mid)) (hk : t.kind ≠ .endOfInput)
      (hts : Scan (s.after t) mid ts last) : Scan s lx (t :: ts) last

/-- The schedule after some tokens. -/
def Schedule.afterAll (s : Schedule) (ts : List Token) : Schedule := ts.foldl Schedule.after s

@[simp] theorem Schedule.afterAll_nil (s : Schedule) : s.afterAll [] = s := rfl

@[simp] theorem Schedule.afterAll_cons (s : Schedule) (t : Token) (ts : List Token) :
    s.afterAll (t :: ts) = (s.after t).afterAll ts := rfl

@[simp] theorem Schedule.afterAll_concat (s : Schedule) (ts : List Token) (t : Token) :
    s.afterAll (ts ++ [t]) = (s.afterAll ts).after t := List.foldl_append

/-- Only the class of a token changes the schedule. -/
theorem Schedule.after_congr {t u : Token} (h : u.kind = t.kind) (s : Schedule) :
    s.after u = s.after t := by
  rw [Schedule.after, Schedule.after, h]

/-- Taking a token leaves the meaning of the arrow alone. -/
theorem arrows_of_next {lx last : Lexer} {mode : LexMode} {r : Except LexError Token}
    (h : lx.next mode = (r, last)) : last.arrows = lx.arrows := by
  unfold next at h
  simp only at h
  split at h <;> cases h <;> rfl

/-- Whether the arrow is a keyword does not change. -/
theorem Scan.arrows_eq {s : Schedule} {lx last : Lexer} {ts : List Token}
    (h : Scan s lx ts last) : last.arrows = lx.arrows := by
  induction h with
  | nil => rfl
  | cons ht _ _ ih => rw [ih, arrows_of_next ht]

/-- The tokens of a scan are the first that lexing the whole source finds. -/
theorem Scan.tokensFrom_eq {s : Schedule} {lx last : Lexer} {ts : List Token}
    (h : Scan s lx ts last) :
    tokensFrom s lx = (tokensFrom (s.afterAll ts) last).map (ts ++ ·) := by
  induction h with
  | @nil s lx =>
    rw [Schedule.afterAll_nil]
    cases tokensFrom s lx <;> rfl
  | @cons s lx t mid ts last ht hk _ ih =>
    rw [tokensFrom_of_ne_end (by rw [ht]) hk, ht, ih, Schedule.afterAll_cons]
    cases tokensFrom ((s.after t).afterAll ts) last <;> rfl

/-- A scan goes on with the next token, in the mode that the tokens before it give. -/
theorem Scan.concat {s : Schedule} {lx here last : Lexer} {ts : List Token} {t : Token}
    (h : Scan s lx ts here) (ht : here.next (s.afterAll ts).mode = (.ok t, last))
    (hk : t.kind ≠ .endOfInput) : Scan s lx (ts ++ [t]) last := by
  induction h with
  | nil => exact .cons ht hk .nil
  | cons hu hj _ ih => exact .cons hu hj (ih ht)

/-- A scan can be interrupted after any of its tokens. -/
theorem Scan.exists_split {s : Schedule} {lx last : Lexer} {ts us : List Token}
    (h : Scan s lx (ts ++ us) last) :
    ∃ mid, Scan s lx ts mid ∧ Scan (s.afterAll ts) mid us last := by
  induction ts generalizing s lx with
  | nil => exact ⟨lx, .nil, h⟩
  | cons t ts ih =>
    cases h with
    | cons ht hk hts =>
      obtain ⟨mid, hfirst, hsecond⟩ := ih hts
      exact ⟨mid, .cons ht hk hfirst, hsecond⟩

/-- Whether the keyword of a lambda comes last. -/
theorem Schedule.afterLambda_iff {ts : List Token} :
    (initial.afterAll ts).afterLambda = true ↔
      ∃ first word, ts = first ++ [word] ∧ word.kind = .keyword .lambda := by
  rcases List.eq_nil_or_concat ts with rfl | ⟨before, t, rfl⟩
  · simp [initial]
  · rw [List.concat_eq_append, afterAll_concat, after, beq_iff_eq]
    constructor
    · exact fun ht => ⟨before, t, rfl, ht⟩
    · rintro ⟨first, word, hlast, hword⟩
      rwa [List.singleton_inj.1 (List.append_inj' hlast rfl).2]

/-- Where a keyword may stand, a parenthesis has just been read that does not hold the arguments of
a lambda. -/
theorem exists_opening_of_mode {ts : List Token} (h : (Schedule.initial.afterAll ts).mode ≠ .plain) :
    ∃ before opening, ts = before ++ [opening] ∧ opening.kind = .leftParen ∧
      ∀ first word, before = first ++ [word] → word.kind ≠ .keyword .lambda := by
  rcases List.eq_nil_or_concat ts with rfl | ⟨before, opening, rfl⟩
  · exact absurd rfl h
  · rw [List.concat_eq_append] at h ⊢
    rw [Schedule.afterAll_concat, Schedule.after] at h
    have hopening : opening.kind = .leftParen := by
      cases hk : opening.kind with
      | leftParen => rfl
      | _ =>
        rw [hk] at h
        exact absurd rfl h
    refine ⟨before, opening, rfl, hopening, ?_⟩
    intro first word hbefore hword
    have hlambda := Schedule.afterLambda_iff.2 ⟨first, word, hbefore, hword⟩
    simp [hopening, hlambda] at h

/-- All tokens of a source are a scan and the end of the input. -/
theorem exists_scan_of_tokensFrom {s : Schedule} {lx : Lexer} {us : List Token}
    (h : tokensFrom s lx = .ok us) :
    ∃ ts t last, us = ts ++ [t] ∧ Scan s lx ts last ∧ t.kind = .endOfInput ∧
      (last.next (s.afterAll ts).mode).1 = .ok t := by
  fun_induction tokensFrom s lx generalizing us with
  | case1 => cases h
  | case2 s lx t ht hk =>
    cases h
    exact ⟨[], t, lx, rfl, .nil, hk, ht⟩
  | case3 s lx t ht hk ih =>
    cases hrest : tokensFrom (s.after t) (lx.next s.mode).2 with
    | error e => rw [hrest] at h; cases h
    | ok rest =>
      rw [hrest] at h
      cases h
      obtain ⟨ts, u, last, rfl, hts, hu, hlast⟩ := ih hrest
      exact ⟨t :: ts, u, last, rfl, .cons (Prod.ext ht rfl) hk hts, hu, hlast⟩

/-- The end of the input behind a scan completes the tokens of the source. -/
theorem Scan.tokenize_eq {arrows : Bool} {source : List Char} {ts : List Token} {t : Token}
    {here last : Lexer} (h : Scan .initial (.ofSource arrows source) ts here)
    (ht : here.next (Schedule.initial.afterAll ts).mode = (.ok t, last))
    (hk : t.kind = .endOfInput) : tokenize arrows source = .ok (ts ++ [t]) := by
  rw [tokenize, h.tokensFrom_eq, tokensFrom_of_end (congrArg Prod.fst ht) hk]
  rfl

end Lexer

/-- The parentheses that the focus adds to those of the open forms; one whose head is not known yet
counts. -/
def Focus.weight : Focus → Nat
  | expression => 0
  | _ => 1

namespace Parser

open Lexer (Schedule Scan)

/-! ## Reading many tokens -/

/-- Reads tokens one after the other. -/
def readAll (p : Parser) (ts : List Token) : Except ParseError Parser := ts.foldlM read p

@[simp] theorem readAll_nil (p : Parser) : p.readAll [] = .ok p := rfl

@[simp] theorem readAll_cons (p : Parser) (t : Token) (ts : List Token) :
    p.readAll (t :: ts) = (p.read t).bind fun q => q.readAll ts := rfl

/-- Reading tokens in two parts is reading them all. -/
theorem readAll_append (p : Parser) (ts us : List Token) :
    p.readAll (ts ++ us) = (p.readAll ts).bind fun q => q.readAll us :=
  List.foldlM_append

/-- A parser that reads tokens reads the first of them, and then the others. -/
theorem exists_read_of_readAll_cons {p r : Parser} {t : Token} {ts : List Token}
    (h : p.readAll (t :: ts) = .ok r) : ∃ q, p.read t = .ok q ∧ q.readAll ts = .ok r := by
  rw [readAll_cons] at h
  cases hq : p.read t with
  | error e => rw [hq] at h; cases h
  | ok q => rw [hq] at h; exact ⟨q, rfl, h⟩

/-- A parser that reads tokens reads every beginning of them. -/
theorem exists_readAll_of_append {p r : Parser} {ts us : List Token}
    (h : p.readAll (ts ++ us) = .ok r) : ∃ q, p.readAll ts = .ok q ∧ q.readAll us = .ok r := by
  rw [readAll_append] at h
  cases hq : p.readAll ts with
  | error e => rw [hq] at h; cases h
  | ok q => rw [hq] at h; exact ⟨q, rfl, h⟩

/-- The last of the tokens read is a step. -/
theorem exists_step_of_readAll_concat {p r : Parser} {t : Token} {ts : List Token}
    (h : p.readAll (ts ++ [t]) = .ok r) : ∃ q, p.readAll ts = .ok q ∧ Step q t r := by
  obtain ⟨q, hq, hread⟩ := exists_readAll_of_append h
  obtain ⟨r', hr, hnil⟩ := exists_read_of_readAll_cons hread
  cases hnil
  exact ⟨q, hq, step_of_read hr⟩

/-- **Many tokens.**  What holds before any token is read, and after each of them if it did before,
holds in the end. -/
theorem readAll_invariant {I : List Token → Parser → Prop} {p q : Parser} {ts : List Token}
    (h : p.readAll ts = .ok q) (nil : I [] p)
    (concat : ∀ {us p t r}, I us p → Step p t r → I (us ++ [t]) r) : I ts q := by
  suffices on : ∀ {us p}, I us p → p.readAll ts = .ok q → I (us ++ ts) q from on nil h
  clear h nil
  induction ts with
  | nil =>
    intro us p hp h
    cases h
    rwa [List.append_nil]
  | cons t ts ih =>
    intro us p hp h
    obtain ⟨r, hr, hq⟩ := exists_read_of_readAll_cons h
    rw [List.append_cons]
    exact ih (concat hp (step_of_read hr)) hq

/-- What each step keeps is kept by all of them. -/
theorem readAll_keeps {I : Parser → Prop} {p q : Parser} {ts : List Token}
    (h : p.readAll ts = .ok q) (hp : I p) (step : ∀ {p t r}, I p → Step p t r → I r) : I q :=
  readAll_invariant (I := fun _ => I) h hp step

/-- The tokens read are kept in the order in which they came. -/
theorem tokens_of_readAll {p q : Parser} {ts : List Token} (h : p.readAll ts = .ok q) :
    q.tokens.toList = p.tokens.toList ++ ts := by
  refine readAll_invariant (I := fun us r => r.tokens.toList = p.tokens.toList ++ us) h ?_ ?_
  · rw [List.append_nil]
  · intro us r t r' hr hstep
    rw [tokens_of_step hstep, Array.toList_push, hr, List.append_assoc]

/-- The limit never changes. -/
theorem maxDepth_of_readAll {p q : Parser} {ts : List Token} (h : p.readAll ts = .ok q) :
    q.maxDepth = p.maxDepth :=
  readAll_keeps (I := fun r => r.maxDepth = p.maxDepth) h rfl fun hr hstep =>
    (maxDepth_of_step hstep).trans hr

/-- The root stays a root. -/
theorem rootKind_of_readAll {p q : Parser} {ts : List Token} (h : p.readAll ts = .ok q) :
    q.root.kind = p.root.kind :=
  readAll_keeps (I := fun r => r.root.kind = p.root.kind) h rfl fun hr hstep =>
    (rootKind_of_step hstep).trans hr

/-! ## The schedule of a parser -/

/-- How many parentheses the open forms hold open. -/
def weight : List (OpenForm × Slot) → Nat
  | [] => 0
  | (_, slot) :: outer => slot.depth + weight outer

@[simp] theorem weight_nil : weight [] = 0 := rfl

@[simp] theorem weight_cons (f : OpenForm) (slot : Slot) (outer : List (OpenForm × Slot)) :
    weight ((f, slot) :: outer) = slot.depth + weight outer := rfl

/-- Every open form holds at least one parenthesis open. -/
theorem weight_eq_zero_iff {enclosing : List (OpenForm × Slot)} :
    weight enclosing = 0 ↔ enclosing = [] := by
  rcases enclosing with _ | ⟨⟨f, slot⟩, outer⟩
  · simp
  · cases slot <;> simp [Slot.depth]

/-- The depth counts the parentheses of the focus and those of the forms around it. -/
theorem depth_eq (p : Parser) : p.depth = p.focus.openings.length + weight p.enclosing := by
  rw [depth_eq_length_openings, openings, List.length_append]
  congr 1
  induction p.enclosing with
  | nil => rfl
  | cons entry outer ih =>
    rw [List.flatMap_cons, List.length_append, ih]
    simp [weight, Slot.length_openings]

/-- What a reader that only counts parentheses knows at the place that the parser has reached. -/
def schedule (p : Parser) : Schedule where
  depth := p.focus.weight + weight p.enclosing
  afterLambda := match p.focus with
    | .parameters _ => true
    | _ => false
  mode := p.mode

theorem schedule_initial (maxDepth : Nat) : (initial maxDepth).schedule = .initial := rfl

/-- A completed node leaves the parser inside the same parentheses as before. -/
theorem schedule_of_delivery {p q : Parser} {n : Node} (h : Delivery p n q) :
    q.schedule = ⟨weight p.enclosing, false, .plain⟩ := by
  cases h <;> simp [schedule, Focus.weight, mode, Slot.depth]

/-- **The schedules agree.**  A step changes the schedule of the parser as the token alone does. -/
theorem schedule_of_step {p q : Parser} {t : Token} (h : Step p t q) :
    q.schedule = p.schedule.after t := by
  induction h with
  | @leaf d root ts enclosing t kind q ht hq =>
    rw [schedule_of_delivery hq]
    cases hk : t.kind <;> simp [hk, leafKind?] at ht <;>
      simp [schedule, Focus.weight, Schedule.after, hk]
  | @opening d root ts enclosing t ht =>
    simp [schedule, Focus.weight, Schedule.after, mode, ht, Nat.add_comm, weight_eq_zero_iff]
  | closing ht hq =>
    rw [schedule_of_delivery hq]
    simp [schedule, Focus.weight, Schedule.after, ht, Slot.depth]
  | closingArguments ht =>
    simp [schedule, Focus.weight, Schedule.after, mode, ht, Slot.depth]
  | binding ht hk hd =>
    cases hk <;> simp [schedule, Focus.weight, Schedule.after, mode, ht]
  | lambda ht hd => simp [schedule, Focus.weight, Schedule.after, mode, ht]
  | arrow ht hd => simp [schedule, Focus.weight, Schedule.after, mode, ht, Slot.depth]
  | application ht hd hq ih =>
    -- Only the parser knows that an application has begun; the count of parentheses is the same.
    rw [ih]
    simp [schedule, Focus.weight, Schedule.after, Slot.depth]
  | name ht => simp [schedule, Focus.weight, Schedule.after, mode, ht, Slot.depth]
  | parameters ht hd =>
    simp [schedule, Focus.weight, Schedule.after, mode, ht, Slot.depth]
    omega
  | close ht hq =>
    rw [schedule_of_delivery hq]
    simp [schedule, Focus.weight, Schedule.after, ht]

/-- The tokens read change the schedule as they change it by themselves. -/
theorem schedule_of_readAll {p q : Parser} {ts : List Token} (h : p.readAll ts = .ok q) :
    q.schedule = p.schedule.afterAll ts := by
  refine readAll_invariant (I := fun us r => r.schedule = p.schedule.afterAll us) h rfl ?_
  intro us r t r' hr hstep
  rw [schedule_of_step hstep, hr, Schedule.afterAll_concat]

/-- The parser asks for the mode that counting parentheses gives. -/
theorem mode_of_readAll {maxDepth : Nat} {q : Parser} {ts : List Token}
    (h : (initial maxDepth).readAll ts = .ok q) :
    (Schedule.initial.afterAll ts).mode = q.mode := by
  rw [← schedule_initial maxDepth, ← schedule_of_readAll h]
  rfl

/-- What each step keeps is kept while a scan is read. -/
theorem invariant_of_scan {I : Parser → Lexer → Prop}
    (step : ∀ {p q lx mid t}, I p lx → lx.next p.mode = (.ok t, mid) → t.kind ≠ .endOfInput →
      Step p t q → I q mid)
    {p q : Parser} {lx last : Lexer} {ts : List Token} (hts : Scan p.schedule lx ts last)
    (hq : p.readAll ts = .ok q) (hp : I p lx) : I q last := by
  induction ts generalizing p lx with
  | nil => cases hts; cases hq; exact hp
  | cons t ts ih =>
    cases hts with
    | cons ht hk hts =>
      obtain ⟨r, hr, hq⟩ := exists_read_of_readAll_cons hq
      have hstep := step_of_read hr
      rw [← schedule_of_step hstep] at hts
      exact ih hts hq (step hp ht hk hstep)

/-! ## Runs -/

/-- How a run ends: `Ending p lx r` says that `p`, when `lx` is to take the next token, ends at once
with the result `r`. -/
inductive Ending (p : Parser) (lx : Lexer) : Except SyntaxError SyntaxTree → Prop
  /-- There is no next token. -/
  | lexical {e last} (he : lx.next p.mode = (.error e, last)) : Ending p lx (.error (.lexical e))
  /-- The input ends between two forms. -/
  | finished {t last} (ht : lx.next p.mode = (.ok t, last)) (hp : p.isIdle = true)
      (hk : t.kind = .endOfInput) : Ending p lx (.ok (p.tree t))
  /-- The next token fits nowhere. -/
  | refused {t last e} (ht : lx.next p.mode = (.ok t, last)) (he : p.read t = .error e)
      (hk : p.isIdle = true → t.kind ≠ .endOfInput) : Ending p lx (.error (.grammatical e))

theorem run_of_ending {p : Parser} {lx : Lexer} {r : Except SyntaxError SyntaxTree}
    (h : Ending p lx r) : p.run lx = r := by
  rw [run]
  cases h with
  | lexical he => split <;> simp_all
  | finished ht hp hk => split <;> simp_all [Token.isEnd]
  | @refused t last e ht he hk =>
    split
    · simp_all
    · have same : t = ‹Token› := by simp_all
      subst same
      have hne : ¬(p.isIdle && t.isEnd) = true := by
        simp only [Token.isEnd, Bool.and_eq_true, beq_iff_eq]
        exact fun h => hk h.1 h.2
      rw [if_neg hne]
      split <;> simp_all

/-- A run goes on behind a token that is read. -/
theorem run_of_read {p q : Parser} {lx mid : Lexer} {t : Token}
    (ht : lx.next p.mode = (.ok t, mid)) (hk : t.kind ≠ .endOfInput) (hq : p.read t = .ok q) :
    p.run lx = q.run mid := by
  rw [run]
  split
  · simp_all
  · have same : t = ‹Token› := by simp_all
    subst same
    rw [if_neg (by simp [Token.isEnd, hk])]
    split <;> simp_all

/-- A run goes on from where reading a scan has led. -/
theorem run_of_scan {p q : Parser} {lx last : Lexer} {ts : List Token}
    (h : Scan p.schedule lx ts last) (hq : p.readAll ts = .ok q) : p.run lx = q.run last := by
  induction ts generalizing p lx with
  | nil => cases h; cases hq; rfl
  | cons t ts ih =>
    cases h with
    | cons ht hk hts =>
      obtain ⟨r, hr, hq⟩ := exists_read_of_readAll_cons hq
      rw [run_of_read ht hk hr]
      rw [← schedule_of_step (step_of_read hr)] at hts
      exact ih hts hq

/-- **Runs.**  Every run reads a scan and then ends. -/
theorem run_ending (p : Parser) (lx : Lexer) :
    ∃ ts q last, Scan p.schedule lx ts last ∧ p.readAll ts = .ok q ∧ Ending q last (p.run lx) := by
  fun_induction run p lx with
  | case1 p lx e he => exact ⟨[], p, lx, .nil, rfl, .lexical (Prod.ext he rfl)⟩
  | case2 p lx t ht hend =>
    simp only [Token.isEnd, Bool.and_eq_true, beq_iff_eq] at hend
    exact ⟨[], p, lx, .nil, rfl, .finished (Prod.ext ht rfl) hend.1 hend.2⟩
  | case3 p lx t ht hend e he =>
    simp only [Token.isEnd, Bool.and_eq_true, beq_iff_eq, not_and] at hend
    exact ⟨[], p, lx, .nil, rfl, .refused (Prod.ext ht rfl) he hend⟩
  | case4 p lx t ht hend q hq ih =>
    obtain ⟨ts, r, last, hts, hr, hlast⟩ := ih
    rw [schedule_of_step (step_of_read hq)] at hts
    refine ⟨t :: ts, r, last, .cons (Prod.ext ht rfl) (kind_ne_of_read hq) hts, ?_, hlast⟩
    rw [readAll_cons, hq]
    exact hr

end Parser

/-- Every parse reads a scan of its source and then ends. -/
theorem parse_ending (settings : Settings) (source : List Char) :
    ∃ ts q here, Lexer.Scan .initial (.ofSource settings.arrows source) ts here ∧
      (Parser.initial settings.maxDepth).readAll ts = .ok q ∧
      Parser.Ending q here (parse settings source) :=
  (Parser.initial settings.maxDepth).run_ending (.ofSource settings.arrows source)

end PieSyntax
