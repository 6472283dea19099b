/-
# Dead ends

Some texts end inside a form and can yet never be completed.  A form that is open among the arguments
of a lambda has to end before the lambda does, and is no name then; and where as many parentheses are
open as the limit says, none can hold the arguments of a lambda.  Main statements: such a parser never
comes to the end of the input (`Parser.Trapped.exists_error`, `Parser.exists_error_of_parameters`), and
the tokens read tell whether a form is open among arguments (`Parser.trapped_of_readAll_pattern`,
`Parser.pattern_of_trapped`).
-/
import PieSyntax.Proofs.DepthLimit

namespace PieSyntax

open Text Lexer

namespace Parser

variable {p q : Parser} {t : Token} {n : Node}

/-! ## Forms among arguments -/

/-- The open forms that wait for another one inside of them to end. -/
def waiting (p : Parser) : List (OpenForm × Slot) :=
  match p.focus with
  | .expression => p.enclosing.tail
  | _ => p.enclosing

/-- A form is open among the arguments of a lambda. -/
def Trapped (p : Parser) : Prop := ∃ f opening, (f, .argument opening) ∈ p.waiting

/-- When a node finds its place, the forms around the innermost one still wait. -/
theorem waiting_of_delivery (h : Delivery p n q) : q.waiting = p.enclosing.tail := by
  cases h <;> rfl

/-- A form is put into no list of arguments. -/
theorem mem_tail_of_delivery {f : OpenForm} {opening : Span} (h : Delivery p n q)
    (hn : n.kind ≠ .leaf .identifier) (hf : (f, .argument opening) ∈ p.enclosing) :
    (f, .argument opening) ∈ p.enclosing.tail := by
  cases h with
  | form => cases hf
  | argument hid => exact absurd hid hn
  | _ =>
    rcases List.mem_cons.1 hf with heq | hf
    · cases heq
    · exact hf

theorem kind_close_ne (f : OpenForm) (closing : Span) :
    (f.close closing).kind ≠ .leaf .identifier := NodeKind.noConfusion

/-- **Steps.**  Nothing ends a form among the arguments of a lambda. -/
theorem trapped_of_step (h : Step p t q) (hp : p.Trapped) : q.Trapped := by
  obtain ⟨f, opening, hf⟩ := hp
  refine ⟨f, opening, ?_⟩
  induction h with
  | leaf ht hq =>
    rw [waiting_of_delivery hq]
    exact hf
  | opening ht => exact List.mem_of_mem_tail hf
  | closing ht hq | close ht hq =>
    rw [waiting_of_delivery hq]
    exact mem_tail_of_delivery hq (kind_close_ne _ _) hf
  | closingArguments ht => exact hf
  | binding ht hk hd | lambda ht hd | arrow ht hd => exact hf
  | application ht hd hq ih => exact ih hf
  | name ht => exact hf
  | parameters ht hd => exact hf

/-- A trapped parser stays trapped, whatever it reads. -/
theorem trapped_of_readAll {ts : List Token} (h : p.readAll ts = .ok q) (hp : p.Trapped) :
    q.Trapped :=
  readAll_keeps h hp fun hr hstep => trapped_of_step hstep hr

/-- A trapped parser has a form open. -/
theorem Trapped.isIdle_eq (h : p.Trapped) : p.isIdle = false := by
  obtain ⟨f, opening, hf⟩ := h
  rw [waiting] at hf
  rw [isIdle]
  split
  · next hfocus =>
    rw [hfocus] at hf
    have hne := List.ne_nil_of_mem (List.mem_of_mem_tail hf)
    simpa using hne
  · rfl

/-- **Runs.**  No text leads a parser on that has a form open among arguments. -/
theorem Trapped.exists_error (h : p.Trapped) (lx : Lexer) : ∃ e, p.run lx = .error e := by
  obtain ⟨ts, q, last, -, hq, hend⟩ := p.run_ending lx
  generalize p.run lx = r at hend
  cases hend with
  | lexical | refused => exact ⟨_, rfl⟩
  | finished _ hidle =>
    rw [(trapped_of_readAll hq h).isIdle_eq] at hidle
    cases hidle

/-! ## The tokens of a form among arguments -/

/-- The tokens of a lambda up to a form among its arguments, behind `n` names. -/
def argumentPattern (n : Nat) : List TokenKind :=
  [.keyword .lambda, .leftParen] ++ List.replicate n .identifier ++ [.leftParen]

/-- The keyword of a lambda is read at a head, and a list of arguments has to follow. -/
theorem step_lambda_cases (h : Step p t q) (ht : t.kind = .keyword .lambda) :
    (∃ opening, p.focus = .head opening) ∧ p.depth < p.maxDepth ∧ (∃ f, q.focus = .parameters f) ∧
      q.enclosing = p.enclosing := by
  cases h with
  | lambda _ hd => exact ⟨⟨_, rfl⟩, hd, ⟨_, rfl⟩, rfl⟩
  | binding hw hk =>
    rw [ht] at hw
    cases hw
    cases hk
  | application hne => exact absurd ht (hne _)
  | leaf hw | opening hw | closing hw | closingArguments hw | arrow hw | name hw | parameters hw
  | close hw =>
    rw [ht] at hw
    cases hw

/-- The parser is to read an argument of a lambda. -/
def AtArgument (p : Parser) : Prop :=
  p.focus = .expression ∧ ∃ f opening outer, p.enclosing = (f, .argument opening) :: outer

theorem atArgument_of_parameters {f : OpenForm} (h : Step p t q) (hp : p.focus = .parameters f) :
    q.AtArgument := by
  cases h with
  | parameters => exact ⟨rfl, _, _, _, rfl⟩
  | _ => cases hp

theorem AtArgument.of_step (h : Step p t q) (hp : p.AtArgument) (ht : t.kind = .identifier) :
    q.AtArgument := by
  obtain ⟨hfocus, f, opening, outer, henclosing⟩ := hp
  cases h with
  | leaf hleaf hq =>
    subst henclosing
    cases hq with
    | argument hn => exact ⟨rfl, _, _, _, rfl⟩
  | opening hw | closing hw | closingArguments hw =>
    rw [ht] at hw
    cases hw
  | _ => cases hfocus

theorem AtArgument.of_readAll {ts : List Token} (h : p.readAll ts = .ok q) (hp : p.AtArgument)
    (hts : ∀ t ∈ ts, t.kind = .identifier) : q.AtArgument := by
  induction ts generalizing p with
  | nil =>
    cases h
    exact hp
  | cons t ts ih =>
    obtain ⟨ht, hts⟩ := List.forall_mem_cons.1 hts
    obtain ⟨r, hr, hq⟩ := exists_read_of_readAll_cons h
    exact ih hq (hp.of_step (step_of_read hr) ht) hts

/-- A parenthesis that opens among arguments traps the parser. -/
theorem AtArgument.trapped_of_step (h : Step p t q) (hp : p.AtArgument)
    (ht : t.kind = .leftParen) : q.Trapped := by
  obtain ⟨hfocus, f, opening, outer, henclosing⟩ := hp
  cases h with
  | opening => exact ⟨f, opening, by subst henclosing; exact List.mem_cons_self⟩
  | leaf hw | closing hw | closingArguments hw =>
    rw [ht] at hw
    cases hw
  | _ => cases hfocus

/-- Behind these tokens a form is open among arguments. -/
theorem trapped_of_readAll_pattern {ts : List Token} {k : Nat} (h : p.readAll ts = .ok q)
    (hts : ts.map Token.kind = argumentPattern k) : q.Trapped := by
  rw [argumentPattern, List.map_eq_append_iff] at hts
  obtain ⟨ts, us, rfl, hts, hus⟩ := hts
  obtain ⟨vs, names, rfl, hvs, hnames⟩ := List.map_eq_append_iff.1 hts
  obtain ⟨kw, vs, rfl, hkw, hvs⟩ := List.map_eq_cons_iff.1 hvs
  obtain ⟨o, rfl, ho⟩ := List.map_eq_singleton_iff.1 hvs
  obtain ⟨last, rfl, hlast⟩ := List.map_eq_singleton_iff.1 hus
  obtain ⟨p₃, h, hstep⟩ := exists_step_of_readAll_concat h
  obtain ⟨p₂, h, hread⟩ := exists_readAll_of_append h
  obtain ⟨p₁, hp₁, h⟩ := exists_read_of_readAll_cons h
  obtain ⟨p₂', hp₂, h⟩ := exists_read_of_readAll_cons h
  cases h
  obtain ⟨-, -, ⟨f, hf⟩, -⟩ := step_lambda_cases (step_of_read hp₁) hkw
  have hargument := atArgument_of_parameters (step_of_read hp₂) hf
  have hread : p₃.AtArgument := by
    refine hargument.of_readAll hread fun u hu => ?_
    have hmem := List.mem_map_of_mem (f := Token.kind) hu
    rw [hnames] at hmem
    exact List.eq_of_mem_replicate hmem
  exact hread.trapped_of_step hstep hlast

end Parser

/-- The tokens of an open form begin with its parenthesis. -/
theorem OpenForm.Read.exists_cons {f : OpenForm} {place : Place} {ts : List Token}
    (h : f.Read place ts) : ∃ inside, ts.map Token.kind = .leftParen :: inside := by
  cases h with
  | intro ho => exact ⟨_, by rw [List.map_cons, ho]⟩

/-- The tokens of a lambda that is open at its arguments. -/
theorem OpenForm.Read.exists_names {f : OpenForm} {opening : Span} {ts : List Token}
    (h : f.Read (.slot (.argument opening)) ts) :
    ∃ k, ts.map Token.kind ++ [.leftParen] = .leftParen :: Parser.argumentPattern k := by
  cases h with
  | intro ho hp hx hb =>
    cases hb with
    | @argument kw o names _ hw hopen hn =>
      have hnames : names.map Token.kind = List.replicate names.length .identifier :=
        List.map_eq_replicate_iff.2 hn
      exact ⟨names.length, by simp [Parser.argumentPattern, ho, hw, hopen, hnames]⟩

/-- A form that is open among arguments leaves its tokens behind, to which the parenthesis of the
next form adds the last. -/
theorem Enclosing.exists_pattern {root : NodeBuilder} {forms : List (OpenForm × Slot)}
    {ts : List Token} (h : Enclosing root forms ts) {f : OpenForm} {opening : Span}
    (hf : (f, .argument opening) ∈ forms) :
    ∃ k, Parser.argumentPattern k <:+: ts.map Token.kind ++ [.leftParen] := by
  induction h with
  | root => cases hf
  | @form root g slot outer ts us _ hg _ ih =>
    rw [List.map_append, List.append_assoc]
    rcases List.mem_cons.1 hf with heq | hf
    · cases heq
      obtain ⟨k, hk⟩ := hg.exists_names
      refine ⟨k, ?_⟩
      rw [hk]
      exact ⟨ts.map Token.kind ++ [.leftParen], [], by simp⟩
    · obtain ⟨k, hk⟩ := ih hf
      obtain ⟨inside, hinside⟩ := hg.exists_cons
      refine ⟨k, hk.trans ?_⟩
      rw [hinside]
      exact ⟨[], inside ++ [.leftParen], by simp⟩

namespace Parser

/-- The tokens read tell that a form is open among arguments. -/
theorem pattern_of_trapped {q : Parser} (h : q.Trapped) (hq : q.Accounts) :
    ∃ k, argumentPattern k <:+: q.tokens.toList.map Token.kind := by
  obtain ⟨d, root, tokens, enclosing, focus⟩ := q
  obtain ⟨ts, us, henclosing, hread, htokens⟩ := hq
  obtain ⟨f, opening, hf⟩ := h
  -- Behind the arguments the parenthesis of another form comes, the focus or the form around it.
  have behind : ∀ {forms : List (OpenForm × Slot)} {front rest : List Token},
      Enclosing root forms front → (f, .argument opening) ∈ forms →
      (∃ inside, rest.map Token.kind = .leftParen :: inside) →
        ∃ k, argumentPattern k <:+: (front ++ rest).map Token.kind := by
    rintro forms front rest hforms hmem ⟨inside, hinside⟩
    obtain ⟨k, hk⟩ := hforms.exists_pattern hmem
    refine ⟨k, hk.trans ⟨[], inside, ?_⟩⟩
    rw [List.map_append, hinside]
    simp
  rw [htokens]
  cases hread with
  | expression =>
    cases henclosing with
    | root => cases hf
    | form houter hg _ =>
      rw [List.append_nil]
      exact behind houter hf hg.exists_cons
  | head ho => exact behind henclosing hf ⟨[], by rw [List.map_singleton, ho]⟩
  | name hg | parameters hg | close hg => exact behind henclosing hf hg.exists_cons

/-! ## No room for arguments -/

/-- **No room.**  No text leads a parser on that has no room for the arguments of a lambda. -/
theorem exists_error_of_parameters {p : Parser} {f : OpenForm} (hf : p.focus = .parameters f)
    (hp : p.maxDepth ≤ p.depth) (lx : Lexer) : ∃ e, p.run lx = .error e := by
  obtain ⟨ts, q, last, -, hq, hend⟩ := p.run_ending lx
  generalize p.run lx = r at hend
  cases hend with
  | lexical | refused => exact ⟨_, rfl⟩
  | finished _ hidle =>
    cases ts with
    | nil =>
      cases hq
      rw [isIdle, hf] at hidle
      cases hidle
    | cons t ts =>
      obtain ⟨r, hr, -⟩ := exists_read_of_readAll_cons hq
      cases step_of_read hr with
      | parameters ht hd => exact absurd hd (Nat.not_lt.2 hp)
      | _ => cases hf

end Parser

/-! ## Texts -/

/-- The dead ends: `DeadEnd maxDepth ts t` says that a text with the tokens `ts`, behind which it ends
with `t`, has come to one. -/
inductive DeadEnd (maxDepth : Nat) : List Token → Token → Prop
  /-- A form is open among the arguments of a lambda. -/
  | argument {ts t k} (h : Parser.argumentPattern k <:+: ts.map Token.kind) : DeadEnd maxDepth ts t
  /-- There is no room for the arguments of a lambda, and its keyword cannot become a longer word. -/
  | parameters {front kw t} (hk : kw.kind = .keyword .lambda)
      (hd : (Schedule.initial.afterAll (front ++ [kw])).depth = maxDepth)
      (ht : kw.text = ['\\'] ∨ t.leading ≠ []) : DeadEnd maxDepth (front ++ [kw]) t

/-- A dead end remains one however the text goes on. -/
theorem exists_error_of_deadEnd {settings : Settings} {source : List Char} {ts : List Token}
    {q : Parser} {here last : Lexer} {t : Token}
    (hts : Scan .initial (.ofSource settings.arrows source) ts here)
    (hq : (Parser.initial settings.maxDepth).readAll ts = .ok q)
    (ht : here.next q.mode = (.ok t, last)) (h : DeadEnd settings.maxDepth ts t)
    (more : List Char) : ∃ e, parse settings (source ++ more) = .error e := by
  cases h with
  | @argument _ _ k h =>
    obtain ⟨before, after, hcut⟩ := h
    obtain ⟨us, rest, rfl, hus, -⟩ := List.map_eq_append_iff.1 hcut.symm
    obtain ⟨front, pattern, rfl, -, hpattern⟩ := List.map_eq_append_iff.1 hus
    obtain ⟨mid, hmid, -⟩ := hts.exists_split
    obtain ⟨r, hr, -⟩ := Parser.exists_readAll_of_append hq
    obtain ⟨p, -, hread⟩ := Parser.exists_readAll_of_append hr
    -- The last of these tokens is a parenthesis, so that nothing behind it changes them.
    rw [parse_append hmid hr]
    · exact (Parser.trapped_of_readAll_pattern hread hpattern).exists_error _
    · intro o ho
      obtain ⟨us, last, rfl, -, hlast⟩ := List.map_eq_append_iff.1 hpattern
      obtain ⟨o', rfl, hkind⟩ := List.map_eq_singleton_iff.1 hlast
      rw [← List.append_assoc, List.getLast?_concat] at ho
      cases ho
      rw [hmid.text_of_leftParen (by simp) hkind]
      exact .inl ⟨'(', by simp, rfl⟩
  | @parameters front kw _ hk hd hlast =>
    obtain ⟨p, -, hstep⟩ := Parser.exists_step_of_readAll_concat hq
    obtain ⟨-, -, ⟨f, hf⟩, -⟩ := Parser.step_lambda_cases hstep hk
    have hdepth : q.depth = settings.maxDepth := by
      rw [← Parser.depth_schedule_of_parameters hf, Parser.schedule_of_readAll hq]
      exact hd
    have took := took_of_next ht
    rw [parse_append hts hq]
    · refine Parser.exists_error_of_parameters hf ?_ _
      rw [hdepth, Parser.maxDepth_of_readAll hq]
      exact Nat.le_refl _
    · intro u hu
      rw [List.getLast?_concat] at hu
      cases hu
      rcases hlast with htext | hleading
      · rw [htext]
        exact .inl ⟨'\\', by simp, rfl⟩
      · obtain ⟨x, xs, hxs⟩ := List.exists_cons_of_ne_nil hleading
        have hrun := took.leading_run
        rw [hxs] at hrun
        have hne : here.cursor.rest ≠ [] := by
          rw [took.rest_eq, Token.source, hxs]
          simp [hrun.text_ne_nil]
        have hsame : MayFollow kw.text (here.cursor.rest ++ []) (here.cursor.rest ++ more) :=
          .of_append hne
        rwa [List.append_nil] at hsame

end PieSyntax
