/-
# Recursive descent

The parser keeps the forms that are open in a list and reads one token after the other.  It can be
written the other way round: one procedure for each production, which calls the procedures of its
parts and puts the nodes together that they return.  A procedure looks at the next token, consumes
it, and enters and leaves the parentheses that are open; it is a `Code` over these operations.
`Step` lets the innermost call take one of them, so that every state on the way is a `Moment`.
Main statements: whatever the procedures do, no more parentheses are entered than the limit says
(`length_frames_of_passes`), and the token that has been looked at is what the lexer gives behind
the consumed tokens in the mode that is set (`inStep_of_passes`); no two runs end differently
(`ends_unique`).
-/
import Mathlib.Logic.Relation
import PieSyntax.Proofs.LexerCalls

namespace PieSyntax

namespace Lexer

/-- The last of several calls is made on the lexer that the others leave. -/
theorem afterCalls_concat (lx : Lexer) (modes : List LexMode) (mode : LexMode) :
    lx.afterCalls (modes ++ [mode]) = ((lx.afterCalls modes).next mode).2 := by
  rw [afterCalls, afterCalls, List.foldl_concat]

theorem calls_concat (lx : Lexer) (modes : List LexMode) (mode : LexMode) :
    lx.calls (modes ++ [mode]) = lx.calls modes ++ [((lx.afterCalls modes).next mode).1] := by
  induction modes generalizing lx with
  | nil => rfl
  | cons first modes ih =>
    rw [List.cons_append, calls, calls, ih, List.cons_append, afterCalls_cons]

end Lexer

/-- The error for the token `t`, which fits nowhere, while `openings` are open. -/
def ParseError.misplaced (openings : List (Production × Span)) (t : Token)
    (expected : List Expected) (context : Production) : ParseError :=
  if t.isEnd then
    match openings with
    | (production, opening) :: _ => .missingCloseParen production expected opening t.span
    | [] => .unexpectedToken "end of input".toList expected context t.span
  else .unexpectedToken ('`' :: t.text ++ ['\'']) expected context t.span

namespace Descent

/-! ## States -/

/-- What all procedures share. -/
structure State where
  lexer : Lexer
  /-- The token that has been looked at and is not consumed yet. -/
  lookahead : Option Token
  /-- The mode in which the next token is lexed once it is looked at. -/
  mode : LexMode
  consumed : List Token
  /-- The open parentheses with the productions they belong to, the innermost first. -/
  frames : List (Production × Span)

namespace State

/-- Before the first token. -/
def initial (lx : Lexer) : State := ⟨lx, none, .plain, [], []⟩

/-- The next token with the lexer behind it.  It is lexed if it has not been looked at. -/
def next (s : State) : Except LexError (Token × Lexer) :=
  match s.lookahead with
  | some t => .ok (t, s.lexer)
  | none =>
    match s.lexer.next s.mode with
    | (.ok t, last) => .ok (t, last)
    | (.error e, _) => .error e

/-- The token `t`, behind which the lexer is `last`, has been looked at. -/
def look (s : State) (t : Token) (last : Lexer) : State :=
  { s with lexer := last, lookahead := some t }

/-- The token `t`, behind which the lexer is `last`, is consumed; the one after it is to be lexed in
`mode`. -/
def consume (s : State) (t : Token) (last : Lexer) (mode : LexMode) : State :=
  ⟨last, none, mode, s.consumed ++ [t], s.frames⟩

/-- The parenthesis at `opening` counts as open. -/
def enter (s : State) (production : Production) (opening : Span) : State :=
  { s with frames := (production, opening) :: s.frames }

/-- The innermost parenthesis does not count any longer. -/
def leave (s : State) : State := { s with frames := s.frames.tail }

end State

/-! ## Procedures -/

/-- The calls that can be made. -/
inductive Procedure where
  /-- The rest of a source of `length` bytes, the forms of which so far are in `root`. -/
  | source (length : Nat) (root : NodeBuilder)
  /-- An expression, read as a part of `context`. -/
  | expression (context : Production)
  /-- A parenthesised form, at top level or inside another one. -/
  | form (topLevel : Bool)
  /-- A claim or a definition from its keyword on. -/
  | binding (form : OpenForm)
  /-- A lambda from its keyword on. -/
  | lambda (form : OpenForm)
  /-- The rest of a lambda from an argument or the end of its arguments on. -/
  | arguments (form : OpenForm)
  /-- An application from its function on. -/
  | application (form : OpenForm)
  /-- A function type from its keyword on. -/
  | functionType (form : OpenForm)
  /-- The rest of a form in which any number of expressions may fill `field`. -/
  | rest (form : OpenForm) (field : Field)

/-- What is left to do in a call, down to its result. -/
inductive Code (α : Type) where
  | done (result : α)
  | fail (error : ParseError)
  | looking (next : Token → Code α)
  | consuming (mode : LexMode) (next : Span → Code α)
  | asking (next : List (Production × Span) → Code α)
  | entering (production : Production) (opening : Span) (next : Code α)
  | leaving (next : Code α)
  | calling (procedure : Procedure) (next : Node → Code α)

namespace Code

/-- Goes on with `f` where there is a result. -/
def bind {α β : Type} (f : α → Code β) : Code α → Code β
  | done a => f a
  | fail e => fail e
  | looking next => looking fun t => (next t).bind f
  | consuming mode next => consuming mode fun s => (next s).bind f
  | asking next => asking fun frames => (next frames).bind f
  | entering production opening next => entering production opening (next.bind f)
  | leaving next => leaving (next.bind f)
  | calling procedure next => calling procedure fun n => (next n).bind f

instance : Monad Code where
  pure := done
  bind x f := x.bind f

/-- Looks at the next token. -/
def look : Code Token := looking done

/-- Consumes the next token, which stands at the result; the one after it is lexed in `mode`. -/
def consume (mode : LexMode) : Code Span := consuming mode done

/-- The open parentheses. -/
def frames : Code (List (Production × Span)) := asking done

/-- Enters the parenthesis at `opening`, unless too many are open. -/
def enter (production : Production) (opening : Span) : Code Unit :=
  entering production opening (done ())

/-- Leaves the innermost parenthesis. -/
def leave : Code Unit := leaving (done ())

/-- Calls a procedure for a node. -/
def call (procedure : Procedure) : Code Node := calling procedure done

/-- Fails because the next token fits nowhere. -/
def unexpected {α : Type} (expected : List Expected) (context : Production) : Code α := do
  let t ← look
  let openings ← frames
  fail (.misplaced openings t expected context)

/-- The leaf of the next token `t`. -/
def leaf (kind : LeafKind) (t : Token) : Code Node := do
  let _ ← consume .plain
  return .leaf kind t.span t.text

/-- An expression that has to follow. -/
def required (production : Production) : Code Node := do
  let t ← look
  if t.kind = .rightParen then fail (.missingExpression production t.span)
  else call (.expression production)

/-- The parenthesis that closes a form which holds no further expression. -/
def closing (production : Production) : Code Span := do
  let t ← look
  if t.kind = .rightParen then consume .plain
  else if t.kind.startsExpression then fail (.extraExpression production t.span)
  else unexpected [.rightParen] production

end Code

/-- The kind of the form that the word behind its parenthesis begins. -/
def kindOfHead : TokenKind → FormKind
  | .keyword .claim => .claim
  | .keyword .define => .define
  | .keyword .lambda => .lambda
  | .keyword .arrow => .functionType
  | _ => .application

/-- The procedure for a form that has just been entered. -/
def Procedure.ofForm (f : OpenForm) : Procedure :=
  match f.node.kind with
  | .claim | .define => .binding f
  | .lambda => .lambda f
  | .functionType => .functionType f
  | _ => .application f

namespace Code

/-- The form whose parenthesis at `opening` has been consumed. -/
def head (opening : Span) : Code Node := do
  let t ← look
  let f : OpenForm := ⟨opening, .empty (kindOfHead t.kind)⟩
  enter f.production opening
  let node ← call (.ofForm f)
  leave
  return node

/-- The rest of a claim or a definition from its name on. -/
def name (f : OpenForm) : Code Node := do
  let t ← look
  if t.kind = .identifier then
    let name ← leaf .identifier t
    let value ← required f.production
    let last ← closing f.production
    return ((f.push .identifier name).push (Parser.valueField f.node.kind) value).close last
  else unexpected [.identifier] f.production

/-- The rest of a lambda from the parenthesis before its arguments on. -/
def parameters (f : OpenForm) : Code Node := do
  let t ← look
  if t.kind = .leftParen then
    let opening ← consume .plain
    enter .lambdaArguments opening
    call (.arguments f)
  else unexpected [.leftParen] f.production

end Code

open Code in
/-- What a call does. -/
def Procedure.body : Procedure → Code Node
  | source length root => do
    let t ← look
    if t.kind = .endOfInput then return root.finish ⟨0, length⟩
    else if t.kind = .leftParen then
      let form ← call (.form true)
      call (.source length (root.pushUnnamed form))
    else if t.kind.startsExpression then
      let form ← call (.expression .source)
      call (.source length (root.pushUnnamed form))
    else unexpected [.topLevelForm] .source
  | expression context => do
    let t ← look
    match Parser.leafKind? t.kind with
    | some kind => leaf kind t
    | none =>
      if t.kind = .leftParen then call (.form false)
      else unexpected [.expression] context
  | form topLevel => do
    let opening ← consume (if topLevel then .topLevelHead else .head)
    head opening
  | binding f => do
    let _ ← consume .plain
    name f
  | lambda f => do
    let _ ← consume .plain
    parameters f
  | arguments f => do
    let t ← look
    if t.kind = .rightParen then
      let _ ← consume .plain
      leave
      let body ← required f.production
      let last ← closing f.production
      return (f.push .body body).close last
    else if t.kind.startsExpression then
      let argument ← call (.expression .lambdaArguments)
      if argument.kind = .leaf .identifier then call (.arguments (f.push .arguments argument))
      else fail (.nonIdentifierArgument argument.kind argument.span)
    else unexpected [.identifier, .rightParen] .lambdaArguments
  | application f => do
    let function ← call (.expression f.production)
    call (.rest (f.push .function function) .arguments)
  | functionType f => do
    let _ ← consume .plain
    let domain ← required f.production
    let codomain ← required f.production
    call (.rest ((f.push .domain domain).push .codomain codomain) .codomain)
  | rest f field => do
    let t ← look
    if t.kind = .rightParen then
      let last ← consume .plain
      return f.close last
    else if t.kind.startsExpression then
      let child ← call (.expression f.production)
      call (.rest (f.push field child) field)
    else unexpected [.expression, .rightParen] f.production

/-! ## Moments -/

/-- A moment of a descent: what is left to do in the innermost call, and how the calls around it go
on when it returns, the innermost first. -/
structure Moment where
  state : State
  code : Code Node
  callers : List (Node → Code Node)

/-- One step from one moment to the next, while no more than `maxDepth` parentheses may be open. -/
inductive Step (maxDepth : Nat) : Moment → Moment → Prop
  | look {s next K t last} (ht : s.next = .ok (t, last)) :
      Step maxDepth ⟨s, .looking next, K⟩ ⟨s.look t last, next t, K⟩
  | consume {s mode next K t last} (ht : s.next = .ok (t, last)) :
      Step maxDepth ⟨s, .consuming mode next, K⟩ ⟨s.consume t last mode, next t.span, K⟩
  | ask {s next K} : Step maxDepth ⟨s, .asking next, K⟩ ⟨s, next s.frames, K⟩
  | enter {s production opening next K} (hd : s.frames.length < maxDepth) :
      Step maxDepth ⟨s, .entering production opening next, K⟩ ⟨s.enter production opening, next, K⟩
  | leave {s next K} : Step maxDepth ⟨s, .leaving next, K⟩ ⟨s.leave, next, K⟩
  | call {s procedure next K} :
      Step maxDepth ⟨s, .calling procedure next, K⟩ ⟨s, procedure.body, next :: K⟩
  | ret {s n next K} : Step maxDepth ⟨s, .done n, next :: K⟩ ⟨s, next n, K⟩

/-- The moments at which a descent ends, each with its result. -/
inductive Ends (maxDepth : Nat) : Moment → Except SyntaxError SyntaxTree → Prop
  | look {s next K e} (he : s.next = .error e) :
      Ends maxDepth ⟨s, .looking next, K⟩ (.error (.lexical e))
  | consume {s mode next K e} (he : s.next = .error e) :
      Ends maxDepth ⟨s, .consuming mode next, K⟩ (.error (.lexical e))
  | deep {s production opening next K} (hd : maxDepth ≤ s.frames.length) :
      Ends maxDepth ⟨s, .entering production opening next, K⟩
        (.error (.grammatical (.depthExceeded maxDepth opening)))
  | fail {s e K} : Ends maxDepth ⟨s, .fail e, K⟩ (.error (.grammatical e))
  | finish {s root t last} (ht : s.next = .ok (t, last)) :
      Ends maxDepth ⟨s, .done root, []⟩ (.ok ⟨root, s.consumed, t.leading⟩)

/-- The descent comes from one moment to the other. -/
abbrev Passes (maxDepth : Nat) : Moment → Moment → Prop :=
  Relation.ReflTransGen (Step maxDepth)

/-- The descent into `source`, before the first token. -/
def start (settings : Settings) (source : List Char) : Moment where
  state := .initial (.ofSource settings.arrows source)
  code := (Procedure.source (Text.byteLength source) (.empty .source)).body
  callers := []

/-! ## One result -/

section Unique

variable {maxDepth : Nat} {m a b : Moment} {r r' : Except SyntaxError SyntaxTree}

/-- There is never more than one way to go on. -/
theorem step_unique : Relator.RightUnique (Step maxDepth) := by
  intro m a b ha hb
  cases ha with
  | look ht | consume ht =>
    cases hb
    simp_all
  | ask | enter | leave | call | ret =>
    cases hb
    rfl

/-- Where a descent ends it does not go on. -/
theorem Ends.not_step (h : Ends maxDepth m r) (hm : Step maxDepth m a) : False := by
  cases h with
  | look he | consume he =>
    cases hm
    simp_all
  | deep hd =>
    cases hm with
    | enter hd' => exact Nat.not_le.2 hd' hd
  | fail | finish => cases hm

/-- Nothing comes after the end. -/
theorem Ends.eq_of_passes (h : Ends maxDepth m r) (hm : Passes maxDepth m a) : a = m := by
  cases hm.cases_head with
  | inl heq => exact heq.symm
  | inr hstep =>
    obtain ⟨next, hnext, -⟩ := hstep
    exact (h.not_step hnext).elim

/-- A run has one end. -/
theorem Ends.unique (h : Ends maxDepth m r) (h' : Ends maxDepth m r') : r = r' := by
  cases h with
  | look hs | consume hs | finish hs =>
    cases h'
    simp_all
  | deep | fail =>
    cases h'
    rfl

/-- **One result.**  No two runs from the same moment end differently. -/
theorem ends_unique (ha : Passes maxDepth m a) (hr : Ends maxDepth a r)
    (hb : Passes maxDepth m b) (hr' : Ends maxDepth b r') : r = r' := by
  rcases Relation.ReflTransGen.total_of_right_unique step_unique ha hb with hab | hba
  · obtain rfl := hr.eq_of_passes hab
    exact hr.unique hr'
  · obtain rfl := hr'.eq_of_passes hba
    exact hr.unique hr'

end Unique

/-! ## What every moment keeps -/

/-- The lexer is behind the tokens that `lx` has given, one after the other in whatever modes:
behind the consumed ones, or behind the one that has been looked at, which was lexed in the mode
that is set. -/
def State.InStep (lx : Lexer) (s : State) : Prop :=
  ∃ modes, lx.calls modes = s.consumed.map .ok ∧
    match s.lookahead with
    | none => s.lexer = lx.afterCalls modes
    | some t => (lx.afterCalls modes).next s.mode = (.ok t, s.lexer)

section Keeps

variable {maxDepth : Nat} {lx last : Lexer} {s : State} {t : Token} {m m' : Moment}

/-- The next token is what the lexer gives behind the consumed tokens. -/
theorem State.InStep.exists_next (h : s.InStep lx) (ht : s.next = .ok (t, last)) :
    ∃ modes, lx.calls modes = s.consumed.map .ok ∧
      (lx.afterCalls modes).next s.mode = (.ok t, last) := by
  obtain ⟨modes, hcalls, hlast⟩ := h
  refine ⟨modes, hcalls, ?_⟩
  unfold State.next at ht
  cases hlook : s.lookahead with
  | some u =>
    rw [hlook] at ht hlast
    cases ht
    exact hlast
  | none =>
    rw [hlook] at ht hlast
    simp only at ht hlast
    rw [hlast] at ht
    split at ht
    · cases ht
      assumption
    · cases ht

/-- Looking ahead calls the lexer once, with the mode at hand. -/
theorem State.InStep.look (h : s.InStep lx) (ht : s.next = .ok (t, last)) :
    (s.look t last).InStep lx := h.exists_next ht

/-- Consuming the next token adds one call, whether it was looked at before or not. -/
theorem State.InStep.consume (h : s.InStep lx) (ht : s.next = .ok (t, last)) (mode : LexMode) :
    (s.consume t last mode).InStep lx := by
  obtain ⟨modes, hcalls, hnext⟩ := h.exists_next ht
  refine ⟨modes ++ [s.mode], ?_, ?_⟩
  · rw [Lexer.calls_concat, hcalls, hnext]
    simp [State.consume]
  · show last = _
    rw [Lexer.afterCalls_concat, hnext]

/-- **One step.**  The lexer stays behind the tokens that have been lexed. -/
theorem inStep_of_step (h : Step maxDepth m m') (hm : m.state.InStep lx) :
    m'.state.InStep lx := by
  cases h with
  | look ht => exact hm.look ht
  | consume ht => exact hm.consume ht _
  | ask | enter | leave | call | ret => exact hm

/-- No step enters a parenthesis too many. -/
theorem length_frames_of_step (h : Step maxDepth m m') (hm : m.state.frames.length ≤ maxDepth) :
    m'.state.frames.length ≤ maxDepth := by
  cases h with
  | enter hd => exact hd
  | leave => exact Nat.le_trans (by simp [State.leave]) hm
  | look | consume | ask | call | ret => exact hm

/-- No step takes back a token. -/
theorem consumed_of_step (h : Step maxDepth m m') : m.state.consumed <+: m'.state.consumed := by
  cases h with
  | consume => exact List.prefix_append _ _
  | look | ask | enter | leave | call | ret => exact List.prefix_rfl

/-- **All steps.**  What is looked at is lexed in step with what is consumed. -/
theorem inStep_of_passes (h : Passes maxDepth m m') (hm : m.state.InStep lx) :
    m'.state.InStep lx := by
  induction h with
  | refl => exact hm
  | tail _ hstep ih => exact inStep_of_step hstep ih

/-- A run never has more frames than the limit allows. -/
theorem length_frames_of_passes (h : Passes maxDepth m m')
    (hm : m.state.frames.length ≤ maxDepth) : m'.state.frames.length ≤ maxDepth := by
  induction h with
  | refl => exact hm
  | tail _ hstep ih => exact length_frames_of_step hstep ih

/-- Consumed tokens stay consumed. -/
theorem consumed_of_passes (h : Passes maxDepth m m') :
    m.state.consumed <+: m'.state.consumed := by
  induction h with
  | refl => exact List.prefix_rfl
  | tail _ hstep ih => exact ih.trans (consumed_of_step hstep)

end Keeps

end Descent

end PieSyntax
