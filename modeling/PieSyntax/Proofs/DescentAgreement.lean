/-
# Descent and parser agree

What the parser keeps in its list of open forms, the descent keeps in the calls that have not
returned: `resume` says how such a call goes on with the node for a slot, `codeOf` and `outerCalls`
which calls a parser stands for, and `Matches` when a moment of the descent is that of a parser.
Where the parser reads a token the descent comes from the one moment to the other
(`arrives_of_step`), and where the parser refuses a token the descent fails with the same error
(`arrives_of_refusal`).  Main statements: the descent passes through every state of the parser
(`arrives_of_scan`) and ends with the result of the parse (`descent_of_parse`).
-/
import PieSyntax.Proofs.Descent

namespace PieSyntax

open Lexer (Scan)

/-- The error for a token that fits nowhere depends on the open parentheses alone. -/
theorem Parser.reject_eq (p : Parser) (t : Token) (expected : List Expected)
    (context : Production) :
    p.reject t expected context = .misplaced p.openings t expected context := rfl

namespace Descent

open Code

/-! ## Parsers as moments -/

/-- How the call that reads the form goes on with a node for the slot. -/
def resume (f : OpenForm) : Slot → Node → Code Node
  | .required .domain => fun n => do
    let codomain ← required f.production
    call (.rest ((f.push .domain n).push .codomain codomain) .codomain)
  | .required .codomain => fun n => call (.rest (f.push .codomain n) .codomain)
  | .required field => fun n => do
    let last ← closing f.production
    return (f.push field n).close last
  | .function => fun n => call (.rest (f.push .function n) .arguments)
  | .more field => fun n => call (.rest (f.push field n) field)
  | .argument _ => fun n =>
    if n.kind = .leaf .identifier then call (.arguments (f.push .arguments n))
    else fail (.nonIdentifierArgument n.kind n.span)

/-- How the call that has entered a form goes on with its node. -/
def leaveForm (n : Node) : Code Node := leaving (done n)

/-- How the calls go on with a node in the innermost of the open forms, or at top level of a source
of `length` bytes. -/
def callersOf (length : Nat) (root : NodeBuilder) :
    List (OpenForm × Slot) → List (Node → Code Node)
  | [] => [fun form => call (.source length (root.pushUnnamed form))]
  | (f, slot) :: outer => resume f slot :: leaveForm :: callersOf length root outer

/-- What is left to do in the innermost call before the next token is read. -/
def codeOf (length : Nat) (p : Parser) : Code Node :=
  match p.focus with
  | .head opening => head opening
  | .name f => name f
  | .parameters f => parameters f
  | .close f => do
    let last ← closing f.production
    return f.close last
  | .expression =>
    match p.enclosing with
    | [] => (Procedure.source length p.root).body
    | (f, .required field) :: _ => required f.production >>= resume f (.required field)
    | (f, .function) :: _ => (Procedure.expression f.production).body
    | (f, .more field) :: _ => (Procedure.rest f field).body
    | (f, .argument _) :: _ => (Procedure.arguments f).body

/-- How the calls around the innermost one go on. -/
def outerCalls (length : Nat) (p : Parser) : List (Node → Code Node) :=
  match p.focus with
  | .head _ => callersOf length p.root p.enclosing
  | .name _ | .parameters _ | .close _ => leaveForm :: callersOf length p.root p.enclosing
  | .expression =>
    match p.enclosing with
    | [] => []
    | (f, .function) :: outer => callersOf length p.root ((f, .function) :: outer)
    | (_, _) :: outer => leaveForm :: callersOf length p.root outer

/-- `Padded K L`: the callers `K` are `L` and others that return what is returned to them, as calls
do that end with a call. -/
inductive Padded : List (Node → Code Node) → List (Node → Code Node) → Prop
  | nil : Padded [] []
  | keep {next K L} (h : Padded K L) : Padded (next :: K) (next :: L)
  | tail {K L} (h : Padded K L) : Padded (done :: K) L

/-- The state in which the tokens of the parser are consumed and `lx` is to give the next one. -/
def stateOf (p : Parser) (lx : Lexer) : State := ⟨lx, none, p.mode, p.tokens.toList, p.openings⟩

/-- At the moment the descent has come as far as the parser, and `lx` is to take the next token. -/
structure Matches (length : Nat) (p : Parser) (lx : Lexer) (m : Moment) : Prop where
  state_eq : m.state = stateOf p lx
  code_eq : m.code = codeOf length p
  callers : Padded m.callers (outerCalls length p)

/-! ## Steps of the descent -/

/-- `Arrives maxDepth m P`: the descent comes from `m` to a moment that is as `P` says. -/
def Arrives (maxDepth : Nat) (m : Moment) (P : Moment → Prop) : Prop :=
  ∃ m', Passes maxDepth m m' ∧ P m'

section Steps

variable {maxDepth length : Nat} {s : State} {t : Token} {last : Lexer} {n : Node} {m m' : Moment}
  {K L : List (Node → Code Node)} {P : Moment → Prop} {production : Production}

theorem Arrives.refl (h : P m) : Arrives maxDepth m P := ⟨m, .refl, h⟩

theorem Arrives.head (hstep : Step maxDepth m m') (h : Arrives maxDepth m' P) :
    Arrives maxDepth m P := by
  obtain ⟨m'', hpasses, hP⟩ := h
  exact ⟨m'', .head hstep hpasses, hP⟩

/-- What is reached from a moment that is reached is reached. -/
theorem Arrives.trans {P' : Moment → Prop} (h : Arrives maxDepth m P)
    (hP : ∀ m', P m' → Arrives maxDepth m' P') : Arrives maxDepth m P' := by
  obtain ⟨m', hpasses, hm'⟩ := h
  obtain ⟨m'', hpasses', hm''⟩ := hP m' hm'
  exact ⟨m'', hpasses.trans hpasses', hm''⟩

theorem arrives_look {f : Token → Code Node} (ht : s.next = .ok (t, last))
    (h : Arrives maxDepth ⟨s.look t last, f t, K⟩ P) : Arrives maxDepth ⟨s, look >>= f, K⟩ P :=
  .head (.look ht) h

/-- The token that has been looked at is consumed. -/
theorem arrives_consume {mode : LexMode} {f : Span → Code Node}
    (h : Arrives maxDepth ⟨s.consume t last mode, f t.span, K⟩ P) :
    Arrives maxDepth ⟨s.look t last, consume mode >>= f, K⟩ P :=
  .head (.consume rfl) h

/-- Entering a production is a step, as long as the limit is not reached. -/
theorem arrives_enter {opening : Span} {f : Unit → Code Node} (hd : s.frames.length < maxDepth)
    (h : Arrives maxDepth ⟨s.enter production opening, f (), K⟩ P) :
    Arrives maxDepth ⟨s, enter production opening >>= f, K⟩ P :=
  .head (.enter hd) h

theorem arrives_leave {f : Unit → Code Node} (h : Arrives maxDepth ⟨s.leave, f (), K⟩ P) :
    Arrives maxDepth ⟨s, leave >>= f, K⟩ P :=
  .head .leave h

/-- A call goes on with the body of its procedure, and the caller waits. -/
theorem arrives_call {procedure : Procedure} {f : Node → Code Node}
    (h : Arrives maxDepth ⟨s, procedure.body, f :: K⟩ P) :
    Arrives maxDepth ⟨s, call procedure >>= f, K⟩ P :=
  .head .call h

/-- A call whose result is returned as it is. -/
theorem arrives_tailCall {procedure : Procedure}
    (h : Arrives maxDepth ⟨s, procedure.body, done :: K⟩ P) :
    Arrives maxDepth ⟨s, call procedure, K⟩ P :=
  .head .call h

/-- A look at the next token that is the beginning of more code. -/
theorem arrives_look_bind {α : Type} {f : Token → Code α} {g : α → Code Node}
    (ht : s.next = .ok (t, last)) (h : Arrives maxDepth ⟨s.look t last, f t >>= g, K⟩ P) :
    Arrives maxDepth ⟨s, (look >>= f) >>= g, K⟩ P :=
  .head (.look ht) h

/-- A required expression is read unless a parenthesis closes in its place. -/
theorem arrives_required {f : Node → Code Node} (ht : s.next = .ok (t, last))
    (hk : t.kind ≠ .rightParen)
    (h : Arrives maxDepth ⟨s.look t last, (Procedure.expression production).body, f :: K⟩ P) :
    Arrives maxDepth ⟨s, required production >>= f, K⟩ P := by
  refine arrives_look_bind ht ?_
  rw [if_neg hk]
  exact arrives_call h

/-- The parenthesis that is asked for is consumed. -/
theorem arrives_closing {f : Span → Code Node} (ht : s.next = .ok (t, last))
    (hk : t.kind = .rightParen)
    (h : Arrives maxDepth ⟨s.consume t last .plain, f t.span, K⟩ P) :
    Arrives maxDepth ⟨s, closing production >>= f, K⟩ P := by
  refine arrives_look_bind ht ?_
  rw [if_pos hk]
  exact arrives_consume h

/-- What is returned comes to the first caller that does something with it. -/
theorem arrives_return {next : Node → Code Node} {code : Code Node} (hK : Padded K (next :: L))
    (hcode : next n = code) (h : ∀ K', Padded K' L → Arrives maxDepth ⟨s, code, K'⟩ P) :
    Arrives maxDepth ⟨s, .done n, K⟩ P := by
  generalize hL : next :: L = callers at hK
  induction hK with
  | nil => cases hL
  | keep hK =>
    cases hL
    rw [← hcode] at h
    exact .head .ret (h _ hK)
  | tail hK ih => exact .head .ret (ih hL)

/-- A result goes through callers that have nothing left to do. -/
theorem arrives_return_nil (hK : Padded K []) (h : Arrives maxDepth ⟨s, .done n, []⟩ P) :
    Arrives maxDepth ⟨s, .done n, K⟩ P := by
  generalize hL : [] = callers at hK
  induction hK with
  | nil => exact h
  | keep => cases hL
  | tail hK ih => exact .head .ret (ih hL)

/-! ## Deliveries -/

/-- The value of a form is its last child. -/
theorem resume_value {f : OpenForm} {field : Field} (hd : field ≠ .domain)
    (hc : field ≠ .codomain) : resume f (.required field) = fun n =>
      closing f.production >>= fun last => pure ((f.push field n).close last) := by
  cases field with
  | domain => exact absurd rfl hd
  | codomain => exact absurd rfl hc
  | _ => rfl

/-- The expression of a claim or definition is its last child. -/
theorem resume_valueField {f : OpenForm} (kind : FormKind) :
    resume f (.required (Parser.valueField kind)) = fun n =>
      closing f.production >>= fun last =>
        pure ((f.push (Parser.valueField kind) n).close last) := by
  refine resume_value ?_ ?_ <;> cases kind <;> simp [Parser.valueField]

/-- **Deliveries.**  What is returned goes where the parser puts it. -/
theorem arrives_of_delivery {p q : Parser} (h : Parser.Delivery p n q)
    (hK : Padded K (callersOf length p.root p.enclosing)) :
    Arrives maxDepth ⟨stateOf p last, .done n, K⟩ (Matches length q last) := by
  cases h with
  | form | codomain | function | more =>
    exact arrives_return hK rfl fun K' hK' => arrives_tailCall (.refl ⟨rfl, rfl, .tail hK'⟩)
  | domain => exact arrives_return hK rfl fun K' hK' => .refl ⟨rfl, rfl, hK'⟩
  | value hd hc =>
    exact arrives_return hK (congrFun (resume_value hd hc) n) fun K' hK' => .refl ⟨rfl, rfl, hK'⟩
  | argument hn =>
    exact arrives_return hK (if_pos hn) fun K' hK' =>
      arrives_tailCall (.refl ⟨rfl, rfl, .tail hK'⟩)

/-- What is turned away by the parser is an error of the descent. -/
theorem arrives_of_misfit {p : Parser} {e : ParseError} (h : Parser.Misfit p n e)
    (hK : Padded K (callersOf length p.root p.enclosing)) :
    Arrives maxDepth ⟨s, .done n, K⟩ (Ends maxDepth · (.error (.grammatical e))) := by
  cases h with
  | argument hn => exact arrives_return hK (if_neg hn) fun K' hK' => .refl .fail

end Steps

/-! ## One token -/

/-- The tokens of the parser are consumed, and `t` is the next one, behind which the lexer is
`last`. -/
structure Faces (p : Parser) (t : Token) (last : Lexer) (s : State) : Prop where
  next_eq : s.next = .ok (t, last)
  consumed_eq : s.consumed = p.tokens.toList
  frames_eq : s.frames = p.openings

section Tokens

variable {maxDepth length : Nat} {s : State} {t : Token} {last : Lexer} {p q : Parser}
  {K L : List (Node → Code Node)} {P : Moment → Prop} {root : NodeBuilder} {ts : Array Token}
  {enclosing : List (OpenForm × Slot)}

theorem Faces.look (hs : Faces p t last s) : Faces p t last (s.look t last) :=
  ⟨rfl, hs.consumed_eq, hs.frames_eq⟩

/-- There are as many frames as parentheses that the parser holds open. -/
theorem Faces.depth_eq (hs : Faces p t last s) : p.depth = s.frames.length := by
  rw [Parser.depth_eq_length_openings, hs.frames_eq]

/-- The state in which the token is consumed and `frames` are open. -/
theorem Faces.stateOf_eq {mode : LexMode} {frames : List (Production × Span)}
    (hs : Faces p t last s) (htokens : q.tokens = p.tokens.push t) (hmode : mode = q.mode)
    (hframes : frames = q.openings) :
    ⟨last, none, mode, s.consumed ++ [t], frames⟩ = stateOf q last := by
  rw [stateOf, htokens, Array.toList_push, hs.consumed_eq, hmode, hframes]

/-- An expression in a form, or one at top level that is a single token, is read by a call. -/
theorem arrives_expression (hs : Faces ⟨maxDepth, root, ts, enclosing, .expression⟩ t last s)
    (ht : t.kind.startsExpression = true) (htop : enclosing = [] → t.kind ≠ .leftParen)
    (hK : Padded K (outerCalls length ⟨maxDepth, root, ts, enclosing, .expression⟩))
    (h : ∀ context s' K', Faces ⟨maxDepth, root, ts, enclosing, .expression⟩ t last s' →
      Padded K' (callersOf length root enclosing) →
      Arrives maxDepth ⟨s', (Procedure.expression context).body, K'⟩ P) :
    Arrives maxDepth ⟨s, codeOf length ⟨maxDepth, root, ts, enclosing, .expression⟩, K⟩ P := by
  have hright : t.kind ≠ .rightParen := by
    intro hk
    rw [hk] at ht
    cases ht
  have hend : t.kind ≠ .endOfInput := by
    intro hk
    rw [hk] at ht
    cases ht
  rcases enclosing with _ | ⟨⟨f, slot⟩, outer⟩
  · refine arrives_look hs.next_eq ?_
    rw [if_neg hend, if_neg (htop rfl), if_pos ht]
    exact arrives_call (h _ _ _ hs.look hK.keep)
  · cases slot with
    | required field => exact arrives_required hs.next_eq hright (h _ _ _ hs.look hK.keep)
    | function => exact h _ _ _ hs hK
    | more field | argument opening =>
      refine arrives_look hs.next_eq ?_
      rw [if_neg hright, if_pos ht]
      exact arrives_call (h _ _ _ hs.look hK.keep)

/-- A leaf is returned when its token has been consumed. -/
theorem arrives_leaf {kind : LeafKind}
    (hs : Faces ⟨maxDepth, root, ts, enclosing, .expression⟩ t last s)
    (ht : Parser.leafKind? t.kind = some kind)
    (hK : Padded K (outerCalls length ⟨maxDepth, root, ts, enclosing, .expression⟩))
    (h : ∀ K', Padded K' (callersOf length root enclosing) →
      Arrives maxDepth ⟨stateOf ⟨maxDepth, root, ts.push t, enclosing, .expression⟩ last,
        .done (.leaf kind t.span t.text), K'⟩ P) :
    Arrives maxDepth ⟨s, codeOf length ⟨maxDepth, root, ts, enclosing, .expression⟩, K⟩ P := by
  have hstarts : t.kind.startsExpression = true ∧ t.kind ≠ .leftParen := by
    cases hk : t.kind <;> simp_all [Parser.leafKind?, TokenKind.startsExpression]
  refine arrives_expression hs hstarts.1 (fun _ => hstarts.2) hK fun context s' K' hs' hK' => ?_
  refine arrives_look hs'.next_eq ?_
  rw [ht]
  have hstate : s'.consume t last .plain =
      stateOf ⟨maxDepth, root, ts.push t, enclosing, .expression⟩ last :=
    hs'.stateOf_eq rfl rfl hs'.frames_eq
  rw [← hstate] at h
  exact arrives_consume (h K' hK')

/-- A form is returned by the call that has entered it when its parenthesis has been closed. -/
theorem arrives_closed {n : Node} {opening : Production × Span} (hs : Faces p t last s)
    (htokens : p.tokens = ts)
    (hopen : p.openings =
      opening :: Parser.openings ⟨maxDepth, root, ts.push t, enclosing, .expression⟩)
    (hK : Padded K (leaveForm :: callersOf length root enclosing))
    (h : ∀ K', Padded K' (callersOf length root enclosing) →
      Arrives maxDepth ⟨stateOf ⟨maxDepth, root, ts.push t, enclosing, .expression⟩ last,
        .done n, K'⟩ P) :
    Arrives maxDepth ⟨s.consume t last .plain, .done n, K⟩ P := by
  refine arrives_return hK rfl fun K' hK' => .head .leave ?_
  have hframes := congrArg List.tail (hs.frames_eq.trans hopen)
  have hstate : (s.consume t last .plain).leave =
      stateOf ⟨maxDepth, root, ts.push t, enclosing, .expression⟩ last :=
    hs.stateOf_eq (by rw [htokens]) rfl hframes
  rw [hstate]
  exact h K' hK'

/-- The word after the parenthesis decides which procedure reads the form. -/
theorem arrives_head {opening : Span}
    (hs : Faces ⟨maxDepth, root, ts, enclosing, .head opening⟩ t last s)
    (hd : Parser.depth ⟨maxDepth, root, ts, enclosing, .head opening⟩ < maxDepth)
    (h : Arrives maxDepth ⟨(s.enter (kindOfHead t.kind).production opening).look t last,
      (Procedure.ofForm ⟨opening, .empty (kindOfHead t.kind)⟩).body, leaveForm :: K⟩ P) :
    Arrives maxDepth ⟨s, head opening, K⟩ P := by
  rw [hs.depth_eq] at hd
  exact arrives_look hs.next_eq (arrives_enter hd (arrives_call h))

/-- A word that is no keyword begins an application. -/
theorem kindOfHead_of_ne_keyword (ht : ∀ word, t.kind ≠ .keyword word) :
    kindOfHead t.kind = .application := by
  cases hk : t.kind with
  | keyword word => exact absurd hk (ht word)
  | _ => rfl

/-- **One token.**  Where the parser reads a token the descent does. -/
theorem arrives_of_step (h : Parser.Step p t q) (hs : Faces p t last s)
    (hK : Padded K (outerCalls length p)) :
    Arrives p.maxDepth ⟨s, codeOf length p, K⟩ (Matches length q last) := by
  induction h generalizing s K with
  | leaf ht hq => exact arrives_leaf hs ht hK fun K' hK' => arrives_of_delivery hq hK'
  | @opening d root ts enclosing t ht =>
    have hstarts : t.kind.startsExpression = true := by rw [ht]; rfl
    -- A form at top level is not called as an expression: its first word is lexed in another mode.
    rcases enclosing with _ | ⟨entry, outer⟩
    · refine arrives_look hs.next_eq ?_
      rw [if_neg (by simp [ht]), if_pos ht]
      refine arrives_call (arrives_consume ?_)
      exact .refl ⟨hs.stateOf_eq rfl rfl hs.frames_eq, rfl, hK.keep⟩
    · refine arrives_expression hs hstarts (fun h => nomatch h) hK fun context s' K' hs' hK' => ?_
      refine arrives_look hs'.next_eq ?_
      rw [ht]
      refine arrives_tailCall (arrives_consume ?_)
      exact .refl ⟨hs'.stateOf_eq rfl rfl hs'.frames_eq, rfl, hK'.tail⟩
  | closing ht hq =>
    refine arrives_look hs.next_eq ?_
    rw [if_pos ht]
    refine arrives_consume ?_
    exact arrives_closed hs rfl rfl hK fun K' hK' => arrives_of_delivery hq hK'
  | closingArguments ht =>
    refine arrives_look hs.next_eq ?_
    rw [if_pos ht]
    refine arrives_consume (arrives_leave ?_)
    exact .refl ⟨hs.stateOf_eq rfl rfl (congrArg List.tail hs.frames_eq), rfl, hK⟩
  | binding ht hk hd =>
    refine arrives_head hs hd ?_
    rw [ht]
    cases hk with
    | claim | define =>
      refine arrives_consume ?_
      exact .refl ⟨hs.stateOf_eq rfl rfl (congrArg (List.cons _) hs.frames_eq), rfl, hK.keep⟩
  | lambda ht hd | arrow ht hd =>
    refine arrives_head hs hd ?_
    rw [ht]
    refine arrives_consume ?_
    exact .refl ⟨hs.stateOf_eq rfl rfl (congrArg (List.cons _) hs.frames_eq), rfl, hK.keep⟩
  | @application d root ts enclosing opening t q ht hd hq ih =>
    -- The word is not consumed: it is looked at once more, as the beginning of the function.
    refine arrives_head hs hd ?_
    rw [kindOfHead_of_ne_keyword ht]
    refine arrives_call (ih ⟨rfl, hs.consumed_eq, congrArg (List.cons _) hs.frames_eq⟩ ?_)
    exact hK.keep.keep
  | @name d root ts enclosing f t ht =>
    refine arrives_look hs.next_eq ?_
    rw [if_pos ht]
    refine arrives_consume ?_
    refine .refl ⟨hs.stateOf_eq rfl rfl hs.frames_eq, ?_, hK⟩
    exact congrArg (required f.production >>= ·) (resume_valueField f.node.kind).symm
  | parameters ht hd =>
    refine arrives_look hs.next_eq ?_
    rw [if_pos ht]
    rw [hs.depth_eq] at hd
    refine arrives_consume (arrives_enter hd (arrives_tailCall ?_))
    exact .refl ⟨hs.stateOf_eq rfl rfl (congrArg (List.cons _) hs.frames_eq), rfl, hK.tail⟩
  | close ht hq =>
    refine arrives_closing hs.next_eq ht ?_
    exact arrives_closed hs rfl rfl hK fun K' hK' => arrives_of_delivery hq hK'

/-- The next token fits nowhere. -/
theorem fails_unexpected {α : Type} {f : α → Code Node} {expected : List Expected}
    {context : Production} (hs : Faces p t last s) :
    Arrives maxDepth ⟨s, unexpected expected context >>= f, K⟩
      (Ends maxDepth · (.error (.grammatical (p.reject t expected context)))) := by
  rw [Parser.reject_eq, ← hs.frames_eq]
  exact .head (.look hs.next_eq) (.head .ask (.refl .fail))

/-- Where an expression is expected, a token that starts none is an error. -/
theorem fails_expression {context : Production} (hs : Faces p t last s)
    (ht : t.kind.startsExpression = false) :
    Arrives maxDepth ⟨s, (Procedure.expression context).body, K⟩
      (Ends maxDepth · (.error (.grammatical (p.reject t [.expression] context)))) := by
  obtain ⟨hleaf, hleft⟩ := Parser.leafKind?_of_not_starts ht
  refine arrives_look hs.next_eq ?_
  simp only [hleaf, if_neg hleft]
  exact fails_unexpected (f := done) hs.look

/-- **Refusals.**  What the parser refuses is an error of the descent. -/
theorem arrives_of_refusal {e : ParseError} (h : Parser.Refusal p t e) (hs : Faces p t last s)
    (hend : p.isIdle = true → t.kind ≠ .endOfInput) (hK : Padded K (outerCalls length p)) :
    Arrives p.maxDepth ⟨s, codeOf length p, K⟩ (Ends p.maxDepth · (.error (.grammatical e))) := by
  induction h generalizing s K with
  | topLevel ht =>
    obtain ⟨-, hleft⟩ := Parser.leafKind?_of_not_starts ht
    refine arrives_look hs.next_eq ?_
    rw [if_neg (hend rfl), if_neg hleft, if_neg (by simp [ht])]
    exact fails_unexpected (f := done) hs.look
  | missing ht =>
    refine arrives_look_bind hs.next_eq ?_
    rw [if_pos ht]
    exact .refl .fail
  | @unexpected d root ts f slot outer t ht hslot =>
    cases slot with
    | required field =>
      have hright : t.kind ≠ .rightParen := fun hk => nomatch hslot hk
      exact arrives_required hs.next_eq hright (fails_expression hs.look ht)
    | function => exact fails_expression hs ht
    | more field | argument opening =>
      have hright : t.kind ≠ .rightParen := fun hk => nomatch hslot hk
      refine arrives_look hs.next_eq ?_
      rw [if_neg hright, if_neg (by simp [ht])]
      exact fails_unexpected (f := done) hs.look
  | leaf ht he => exact arrives_leaf hs ht hK fun K' hK' => arrives_of_misfit he hK'
  | closing ht he =>
    refine arrives_look hs.next_eq ?_
    rw [if_pos ht]
    refine arrives_consume ?_
    exact arrives_closed hs rfl rfl hK fun K' hK' => arrives_of_misfit he hK'
  | deepForm hd =>
    rw [hs.depth_eq] at hd
    exact arrives_look hs.next_eq (.refl (.deep hd))
  | @application d root ts enclosing opening t e ht hd he ih =>
    -- The token is no head of its own, and is looked at once more where the function is expected.
    refine arrives_head hs hd ?_
    rw [kindOfHead_of_ne_keyword ht]
    refine arrives_call (ih ⟨rfl, hs.consumed_eq, congrArg (List.cons _) hs.frames_eq⟩ ?_ ?_)
    · exact fun hidle => nomatch hidle
    · exact hK.keep.keep
  | name ht | parameters ht =>
    refine arrives_look hs.next_eq ?_
    rw [if_neg ht]
    exact fails_unexpected (f := done) hs.look
  | deepArguments ht hd =>
    refine arrives_look hs.next_eq ?_
    rw [if_pos ht]
    rw [hs.depth_eq] at hd
    exact arrives_consume (.refl (.deep hd))
  | extra ht =>
    refine arrives_look_bind hs.next_eq ?_
    rw [if_neg (by intro hk; simp [hk, TokenKind.startsExpression] at ht), if_pos ht]
    exact .refl .fail
  | closed ht he =>
    refine arrives_closing hs.next_eq ht ?_
    exact arrives_closed hs rfl rfl hK fun K' hK' => arrives_of_misfit he hK'
  | close hp ht =>
    refine arrives_look_bind hs.next_eq ?_
    rw [if_neg hp, if_neg (by simp [ht])]
    exact fails_unexpected hs.look

/-- Before the next token is read it is looked at. -/
theorem exists_codeOf_eq (length : Nat) (p : Parser) : ∃ next, codeOf length p = .looking next := by
  obtain ⟨d, root, ts, enclosing, focus⟩ := p
  cases focus with
  | expression =>
    rcases enclosing with _ | ⟨⟨f, slot⟩, outer⟩
    · exact ⟨_, rfl⟩
    · cases slot <;> exact ⟨_, rfl⟩
  | head | name | parameters | close => exact ⟨_, rfl⟩

end Tokens

/-! ## Runs -/

section Runs

variable {settings : Settings} {source : List Char} {ts : List Token} {q : Parser} {here : Lexer}

/-- The next token of a parser is the next of the state that it stands for. -/
theorem next_stateOf {p : Parser} {lx last : Lexer} {r : Except LexError Token}
    (h : lx.next p.mode = (r, last)) : (stateOf p lx).next = r.map fun t => (t, last) := by
  simp only [State.next, stateOf, h]
  cases r <;> rfl

/-- **All tokens.**  The descent comes as far as the parser. -/
theorem arrives_of_scan (hts : Scan .initial (.ofSource settings.arrows source) ts here)
    (hq : (Parser.initial settings.maxDepth).readAll ts = .ok q) :
    Arrives settings.maxDepth (start settings source)
      (Matches (Text.byteLength source) q here) := by
  let I (p : Parser) (lx : Lexer) : Prop := p.maxDepth = settings.maxDepth ∧
    Arrives settings.maxDepth (start settings source) (Matches (Text.byteLength source) p lx)
  have hinitial : I (.initial settings.maxDepth) (.ofSource settings.arrows source) :=
    ⟨rfl, .refl ⟨rfl, rfl, .nil⟩⟩
  rw [← Parser.schedule_initial settings.maxDepth] at hts
  refine (Parser.invariant_of_scan (I := I) ?_ hts hq hinitial).2
  intro p r lx mid t hp ht hk hstep
  refine ⟨(Parser.maxDepth_of_step hstep).trans hp.1, hp.2.trans ?_⟩
  rintro ⟨s, code, K⟩ ⟨rfl, rfl, hK⟩
  rw [← hp.1]
  exact arrives_of_step hstep ⟨next_stateOf ht, rfl, rfl⟩ hK

/-- The end of the input at top level ends the descent. -/
theorem arrives_of_finished {t : Token} {last : Lexer} {K : List (Node → Code Node)}
    {maxDepth : Nat} (hts : Scan .initial (.ofSource settings.arrows source) ts here)
    (ht : here.next q.mode = (.ok t, last)) (hidle : q.isIdle = true) (hk : t.kind = .endOfInput)
    (hK : Padded K (outerCalls (Text.byteLength source) q)) :
    Arrives maxDepth ⟨stateOf q here, codeOf (Text.byteLength source) q, K⟩
      (Ends maxDepth · (.ok (q.tree t))) := by
  have hstop : t.span.stop = Text.byteLength source := by
    rw [Lexer.eq_atEnd hts (Lexer.took_of_next ht) hk]
    rfl
  rw [Parser.tree, hstop]
  obtain ⟨d, root, tokens, enclosing, focus⟩ := q
  cases focus with
  | expression =>
    obtain rfl : enclosing = [] := List.isEmpty_iff.1 hidle
    refine arrives_look (next_stateOf ht) ?_
    rw [if_pos hk]
    exact arrives_return_nil hK (.refl (.finish rfl))
  | head | name | parameters | close => cases hidle

/-- **Every parse.**  The descent ends with the result of the parse. -/
theorem descent_of_parse (settings : Settings) (source : List Char) :
    Arrives settings.maxDepth (start settings source)
      (Ends settings.maxDepth · (parse settings source)) := by
  obtain ⟨ts, q, here, hts, hq, hend⟩ := parse_ending settings source
  refine (arrives_of_scan hts hq).trans ?_
  rintro ⟨s, code, K⟩ ⟨rfl, rfl, hK⟩
  have hdepth : q.maxDepth = settings.maxDepth := Parser.maxDepth_of_readAll hq
  generalize parse settings source = r at hend ⊢
  cases hend with
  | lexical he =>
    obtain ⟨next, hcode⟩ := exists_codeOf_eq (Text.byteLength source) q
    rw [hcode]
    exact .refl (.look (next_stateOf he))
  | finished ht hidle hk => exact arrives_of_finished hts ht hidle hk hK
  | refused ht he hk =>
    rw [← hdepth]
    exact arrives_of_refusal (Parser.refusal_of_read he) ⟨next_stateOf ht, rfl, rfl⟩ hk hK

end Runs

end Descent

end PieSyntax
