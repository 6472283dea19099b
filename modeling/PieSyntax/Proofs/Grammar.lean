/-
# The grammar

The productions of the language as rules over classes of tokens, and how deeply the parentheses of a
word are nested.  Main statements: a spelled node is derived by the production of its kind
(`Spelled.derives`), and what a parser reads to the end is not nested more deeply than it allows
(`Parser.nested_of_readAll`).
-/
import PieSyntax.Proofs.Reading

namespace PieSyntax

/-! ## Derivations -/

/-- The nonterminals. -/
inductive Category where
  | source
  /-- What stands at top level. -/
  | form
  | claim
  | define
  | lambda
  | functionType
  | application
  | expression
deriving DecidableEq

/-- `Derives c w`: the category `c` derives the word `w`. -/
inductive Derives : Category → List TokenKind → Prop
  | source {forms : List (List TokenKind)} (hf : ∀ w ∈ forms, Derives .form w) :
      Derives .source forms.flatten
  | claimForm {w} (h : Derives .claim w) : Derives .form w
  | defineForm {w} (h : Derives .define w) : Derives .form w
  | expressionForm {w} (h : Derives .expression w) : Derives .form w
  | claim {type} (ht : Derives .expression type) :
      Derives .claim ([.leftParen, .keyword .claim, .identifier] ++ type ++ [.rightParen])
  | define {body} (hb : Derives .expression body) :
      Derives .define ([.leftParen, .keyword .define, .identifier] ++ body ++ [.rightParen])
  | lambda {n body} (hb : Derives .expression body) :
      Derives .lambda ([.leftParen, .keyword .lambda, .leftParen] ++ List.replicate n .identifier ++
        [.rightParen] ++ body ++ [.rightParen])
  | functionType {domain} {codomains : List (List TokenKind)}
      (hd : Derives .expression domain) (hne : codomains ≠ [])
      (hc : ∀ w ∈ codomains, Derives .expression w) :
      Derives .functionType ([.leftParen, .keyword .arrow] ++ domain ++ codomains.flatten ++
        [.rightParen])
  | application {function} {arguments : List (List TokenKind)} (hf : Derives .expression function)
      (ha : ∀ w ∈ arguments, Derives .expression w) :
      Derives .application ([.leftParen] ++ function ++ arguments.flatten ++ [.rightParen])
  | atom : Derives .expression [.atom]
  | identifier : Derives .expression [.identifier]
  | typeIdentifier : Derives .expression [.typeIdentifier]
  | lambdaExpression {w} (h : Derives .lambda w) : Derives .expression w
  | functionTypeExpression {w} (h : Derives .functionType w) : Derives .expression w
  | applicationExpression {w} (h : Derives .application w) : Derives .expression w

/-- Every opening parenthesis of a derived word is closed. -/
theorem Derives.count_eq {c : Category} {w : List TokenKind} (h : Derives c w) :
    w.count .leftParen = w.count .rightParen := by
  have flatten : ∀ ws : List (List TokenKind),
      (∀ w ∈ ws, w.count .leftParen = w.count .rightParen) →
        ws.flatten.count .leftParen = ws.flatten.count .rightParen := by
    intro ws hws
    rw [List.count_flatten, List.count_flatten, List.map_congr_left hws]
  induction h with
  | source hf ih => exact flatten _ ih
  | claim ht ih | define hb ih => simp [ih]
  | lambda hb ih => simp [List.count_replicate, ih]
  | functionType hd hne hc ihd ihc => simp [ihd, flatten _ ihc, Nat.add_assoc]
  | application hf ha ihf iha => simp [ihf, flatten _ iha, Nat.add_assoc]
  | atom | identifier | typeIdentifier => rfl
  | claimForm h ih | defineForm h ih | expressionForm h ih | lambdaExpression h ih
  | functionTypeExpression h ih | applicationExpression h ih => exact ih

/-- No expression begins with a keyword. -/
theorem Derives.exists_cons {w : List TokenKind} (h : Derives .expression w) :
    ∃ kind rest, w = kind :: rest ∧ ∀ word, kind ≠ .keyword word := by
  cases h with
  | atom | identifier | typeIdentifier => exact ⟨_, _, rfl, fun word => TokenKind.noConfusion⟩
  | lambdaExpression h =>
    cases h with
    | lambda hb => exact ⟨_, _, rfl, fun word => TokenKind.noConfusion⟩
  | functionTypeExpression h =>
    cases h with
    | functionType hd hne hc => exact ⟨_, _, rfl, fun word => TokenKind.noConfusion⟩
  | applicationExpression h =>
    cases h with
    | application hf ha => exact ⟨_, _, rfl, fun word => TokenKind.noConfusion⟩

/-! ## Spelled nodes are derived -/

/-- The category that derives the forms of a kind. -/
def FormKind.category : FormKind → Category
  | source => .source
  | claim => .claim
  | define => .define
  | lambda => .lambda
  | application => .application
  | functionType => .functionType

/-- The words that the children are read from, one behind the other. -/
theorem map_kind_flatMap (parts : List Part) :
    (parts.flatMap Part.tokens).map Token.kind =
      (parts.map fun x => x.tokens.map Token.kind).flatten := by
  rw [List.map_flatMap, List.flatMap_def]

/-- A form is derived by its production if its children are expressions. -/
theorem Layout.derives {kind : FormKind} {parts : List Part} {inside : List Token}
    {opening closing : Token} (h : Layout kind parts inside) (ho : opening.kind = .leftParen)
    (hc : closing.kind = .rightParen)
    (hp : ∀ x ∈ parts, Derives .expression (x.tokens.map Token.kind)) :
    Derives kind.category ((opening :: (inside ++ [closing])).map Token.kind) := by
  -- The production is the one with the words of the children in its places.
  cases h with
  | @binding kind word kw t value hk hw ht hv =>
    have hvalue := hp value (List.mem_cons_of_mem _ List.mem_cons_self)
    simp only [List.map_cons, List.map_append, List.map_nil, List.cons_append, ho, hc, hw, ht]
    cases hk with
    | claim => exact .claim hvalue
    | define => exact .define hvalue
  | @lambda kw first names last body hw hfirst hn hlast hb =>
    have hbody := hp body (List.mem_append_right _ List.mem_cons_self)
    have hnames : names.map Token.kind = List.replicate names.length .identifier :=
      List.map_eq_replicate_iff.2 hn
    have hlambda := Derives.lambda (n := names.length) hbody
    show Derives .lambda _
    simp only [List.map_cons, List.map_append, List.map_nil, List.cons_append, List.append_assoc,
      ho, hc, hw, hfirst, hlast, hnames]
    simpa only [List.cons_append, List.append_assoc, List.nil_append] using hlambda
  | @functionType kw domain codomains hw hd hne hcodomain =>
    obtain ⟨hdomain, hcodomains⟩ := List.forall_mem_cons.1 hp
    have hsome : (codomains.map fun x => x.tokens.map Token.kind) ≠ [] := by simpa using hne
    have harrow := Derives.functionType hdomain hsome (List.forall_mem_map.2 hcodomains)
    show Derives .functionType _
    simp only [List.map_cons, List.map_append, List.map_nil, List.cons_append, List.append_assoc,
      ho, hc, hw, map_kind_flatMap]
    simpa only [List.cons_append, List.append_assoc, List.nil_append] using harrow
  | @application function arguments hf ha =>
    obtain ⟨hfunction, harguments⟩ := List.forall_mem_cons.1 hp
    have hall : ∀ w ∈ arguments.map fun x => x.tokens.map Token.kind, Derives .expression w :=
      List.forall_mem_map.2 harguments
    have happlication := Derives.application hfunction hall
    show Derives .application _
    simp only [List.map_cons, List.map_append, List.map_nil, List.append_assoc, ho, hc,
      map_kind_flatMap]
    simpa only [List.cons_append, List.append_assoc, List.nil_append] using happlication

/-- **Soundness for nodes.**  The tokens of an expression are derived as one. -/
theorem Spelled.derives {n : Node} {ts : List Token} (h : Spelled n ts)
    (hn : n.kind.isExpression = true) : Derives .expression (ts.map Token.kind) := by
  induction h with
  | @leaf t kind ht =>
    rw [List.map_singleton]
    cases hk : t.kind with
    | atom => exact .atom
    | identifier => exact .identifier
    | typeIdentifier => exact .typeIdentifier
    | _ =>
      rw [hk] at ht
      cases ht
  | @form kind opening closing parts inside ho hc hl hp hx ih =>
    have hform := hl.derives ho hc fun x hmem => ih x hmem (hx x hmem)
    cases kind with
    | source | claim | define => cases hn
    | lambda => exact .lambdaExpression hform
    | application => exact .applicationExpression hform
    | functionType => exact .functionTypeExpression hform

/-- The tokens of any node are derived as a form at top level. -/
theorem Spelled.derives_form {n : Node} {ts : List Token} (h : Spelled n ts) :
    Derives .form (ts.map Token.kind) := by
  by_cases hn : n.kind.isExpression = true
  · exact .expressionForm (h.derives hn)
  · cases h with
    | leaf => exact absurd rfl hn
    | @form kind opening closing parts inside ho hc hl hp hx =>
      have hform := hl.derives ho hc fun x hmem => (hp x hmem).derives (hx x hmem)
      cases kind with
      | source =>
        cases hl with
        | binding hk => cases hk
      | claim => exact .claimForm hform
      | define => exact .defineForm hform
      | lambda | application | functionType => exact absurd rfl hn

/-! ## Nesting -/

/-- No opening parenthesis of `w` is nested more than `limit` deep, if `outer` parentheses are open
before `w`. -/
def NestedWithin (limit outer : Nat) (w : List TokenKind) : Prop :=
  ∀ before after, w = before ++ .leftParen :: after →
    outer + before.count .leftParen < limit + before.count .rightParen

namespace Parser

/-- The head of a form is read only if its parenthesis is not nested too deeply. -/
def Guarded (p : Parser) : Prop := ∀ opening, p.focus = .head opening → p.depth < p.maxDepth

theorem guarded_of_step {p q : Parser} {t : Token} (h : Step p t q) : p.Guarded := by
  intro opening hfocus
  cases h with
  | binding ht hk hd | lambda ht hd | arrow ht hd | application ht hd hq => exact hd
  | _ => cases hfocus

/-- A parser that comes to the end of the input is guarded at every head. -/
theorem guarded_of_readAll {p q : Parser} {ts : List Token} (h : p.readAll ts = .ok q)
    (hidle : q.isIdle = true) : p.Guarded := by
  cases ts with
  | nil =>
    cases h
    intro opening hfocus
    rw [isIdle, hfocus] at hidle
    cases hidle
  | cons t ts =>
    obtain ⟨r, hr, -⟩ := exists_read_of_readAll_cons h
    exact guarded_of_step (step_of_read hr)

/-- An opening parenthesis is read only where another one may be open. -/
theorem depth_lt_of_step {p q : Parser} {t : Token} (h : Step p t q) (ht : t.kind = .leftParen)
    (hq : q.Guarded) : p.schedule.depth < p.maxDepth := by
  induction h with
  | leaf hleaf hd =>
    rw [ht] at hleaf
    cases hleaf
  | @opening d root ts enclosing t _ =>
    have hdepth := hq t.span rfl
    rw [depth_eq] at hdepth
    exact hdepth
  | closing hclosing hd | closingArguments hclosing | close hclosing hd =>
    rw [ht] at hclosing
    cases hclosing
  | binding hw hk hd | lambda hw hd | arrow hw hd =>
    rw [ht] at hw
    cases hw
  | application hne hd hstep ih =>
    -- The token is read one form further in, where one parenthesis more is open.
    have hinner := ih ht hq
    simp only [schedule, Focus.weight, weight_cons, Slot.depth, Nat.zero_add] at hinner
    exact hinner
  | name hname =>
    rw [ht] at hname
    cases hname
  | parameters hopen hd =>
    rw [depth_eq] at hd
    exact hd

/-- A closing parenthesis is read only where one is open. -/
theorem depth_pos_of_step {p q : Parser} {t : Token} (h : Step p t q)
    (ht : t.kind = .rightParen) : 0 < p.schedule.depth := by
  cases h with
  | leaf hleaf hd =>
    rw [ht] at hleaf
    cases hleaf
  | opening hopen =>
    rw [ht] at hopen
    cases hopen
  | closing | closingArguments =>
    simp only [schedule, Focus.weight, weight_cons, Slot.depth]
    omega
  | _ =>
    simp only [schedule, Focus.weight]
    omega

/-- The depth counts the parentheses read. -/
theorem count_of_readAll {p q : Parser} {ts : List Token} (h : p.readAll ts = .ok q) :
    q.schedule.depth + (ts.map Token.kind).count .rightParen =
      p.schedule.depth + (ts.map Token.kind).count .leftParen := by
  refine readAll_invariant (I := fun us r =>
    r.schedule.depth + (us.map Token.kind).count .rightParen =
      p.schedule.depth + (us.map Token.kind).count .leftParen) h rfl ?_
  intro us r t r' hr hstep
  have hpos := depth_pos_of_step hstep
  rw [schedule_of_step hstep, List.map_append, List.count_append, List.count_append]
  cases hk : t.kind with
  | leftParen =>
    simp [Lexer.Schedule.after, hk]
    omega
  | rightParen =>
    have hp := hpos hk
    simp [Lexer.Schedule.after, hk]
    omega
  | _ => simpa [Lexer.Schedule.after, hk] using hr

/-- **Soundness for nesting.**  What is read up to the end of the input is nested within the
limit. -/
theorem nested_of_readAll {p q : Parser} {ts : List Token} (h : p.readAll ts = .ok q)
    (hidle : q.isIdle = true) : NestedWithin p.maxDepth p.schedule.depth (ts.map Token.kind) := by
  intro before after hw
  -- Cut the run at the parenthesis: the depth before it is known, and its head is guarded.
  obtain ⟨us, vs, rfl, rfl, hvs⟩ := List.map_eq_append_iff.1 hw
  obtain ⟨t, vs, rfl, ht, -⟩ := List.map_eq_cons_iff.1 hvs
  obtain ⟨r, hr, hq⟩ := exists_readAll_of_append h
  obtain ⟨r', hr', hq⟩ := exists_read_of_readAll_cons hq
  have hlt := depth_lt_of_step (step_of_read hr') ht (guarded_of_readAll hq hidle)
  have hcount := count_of_readAll hr
  rw [maxDepth_of_readAll hr] at hlt
  omega

end Parser

end PieSyntax
