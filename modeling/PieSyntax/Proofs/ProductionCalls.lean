/-
# Calls of productions

What a procedure of the descent has done when it returns.  `Procedure.Requires` and
`Procedure.Promises` are its contract, `Code.Ensures` says what code does if all procedures keep
theirs, and `ensures_body` that they do.  A run within one call (`Inside`) leads to what the call
promises (`leadsTo_of_inside`).  Main statements: a call of a production that returns leaves the
parser as it was, behind the tokens of its node (`calls_restore_state`), and every call returns when
the source parses (`exists_return_of_parse`).
-/
import PieSyntax.Proofs.DescentAgreement

namespace PieSyntax.Descent

/-! ## Contracts -/

/-- `Returned frames before n s`: a call that was made when `before` was consumed returns `n` and
leaves `s`.  It has consumed tokens, the last of which ends `n`, and has looked no further; now
`frames` are open. -/
structure Returned (frames : List (Production × Span)) (before : List Token) (n : Node)
    (s : State) : Prop where
  frames_eq : s.frames = frames
  consumed_eq : ∃ ts t, s.consumed = before ++ ts ++ [t] ∧
    (n.span = t.span ∨ ∃ o ∈ before ++ ts, n.span = o.span.join t.span)
  lookahead_eq : s.lookahead = none
  mode_eq : s.mode = .plain

/-- A call that was made earlier has consumed more. -/
theorem Returned.of_isPrefix {frames : List (Production × Span)} {before earlier : List Token}
    {n : Node} {s : State} (h : Returned frames before n s) (hp : earlier <+: before) :
    Returned frames earlier n s := by
  obtain ⟨us, rfl⟩ := hp
  obtain ⟨ts, t, hconsumed, hspan⟩ := h.consumed_eq
  refine ⟨h.frames_eq, ⟨us ++ ts, t, ?_, ?_⟩, h.lookahead_eq, h.mode_eq⟩
  · rw [hconsumed, List.append_assoc earlier]
  · rwa [← List.append_assoc]

/-- A form that has returned can be left. -/
theorem Returned.leave {frames : List (Production × Span)} {before : List Token} {n : Node}
    {s : State} (h : Returned frames before n s) : Returned frames.tail before n s.leave :=
  ⟨congrArg List.tail h.frames_eq, h.consumed_eq, h.lookahead_eq, h.mode_eq⟩

namespace Procedure

/-- The form that is being read. -/
def form? : Procedure → Option OpenForm
  | binding f | lambda f | arguments f | application f | functionType f | rest f _ => some f
  | _ => none

/-- What holds when the procedure is called: the parenthesis of its form has been consumed. -/
def Requires (procedure : Procedure) (s : State) : Prop :=
  ∀ f, procedure.form? = some f → ∃ o ∈ s.consumed, o.span = f.opening

theorem requires_of_none {procedure : Procedure} {s : State} (h : procedure.form? = none) :
    procedure.Requires s := by
  intro f hf
  rw [h] at hf
  cases hf

/-- What holds when the procedure, called in `s`, returns `n` and leaves `s'`. -/
def Promises (procedure : Procedure) (s : State) (n : Node) (s' : State) : Prop :=
  match procedure with
  | source _ _ => True
  | arguments _ => Returned s.frames.tail s.consumed n s'
  | _ => Returned s.frames s.consumed n s'

end Procedure

/-- If what the code calls keeps its contract, and the code ends with a result, the result and the
state are as in `Q`. -/
def Code.Ensures {α : Type} (Q : α → State → Prop) : Code α → State → Prop
  | done a, s => Q a s
  | fail _, _ => True
  | looking next, s => ∀ t last, s.next = .ok (t, last) → (next t).Ensures Q (s.look t last)
  | consuming mode next, s =>
    ∀ t last, s.next = .ok (t, last) → (next t.span).Ensures Q (s.consume t last mode)
  | asking next, s => (next s.frames).Ensures Q s
  | entering production opening next, s => next.Ensures Q (s.enter production opening)
  | leaving next, s => next.Ensures Q s.leave
  | calling procedure next, s =>
    procedure.Requires s ∧ ∀ n s', procedure.Promises s n s' → (next n).Ensures Q s'

section Ensures

open Code

variable {α β : Type} {Q : β → State → Prop} {s : State} {t : Token} {last : Lexer}

/-- Code in two parts ensures what its second part ensures after the first. -/
theorem ensures_bind (x : Code α) (f : α → Code β) :
    (x >>= f).Ensures Q s ↔ x.Ensures (fun a s' => (f a).Ensures Q s') s := by
  induction x generalizing s with
  | done a => rfl
  | fail e => rfl
  | looking next ih =>
    exact forall_congr' fun t => forall_congr' fun last => imp_congr_right fun _ => ih t
  | consuming mode next ih =>
    exact forall_congr' fun t => forall_congr' fun last => imp_congr_right fun _ => ih t.span
  | asking next ih => exact ih s.frames
  | entering production opening next ih => exact ih
  | leaving next ih => exact ih
  | calling procedure next ih =>
    exact and_congr_right fun _ =>
      forall_congr' fun n => forall_congr' fun s' => imp_congr_right fun _ => ih n

/-- Whatever token comes next, the code that looks at it has to ensure `Q` for it. -/
theorem ensures_look {f : Token → Code β}
    (h : ∀ t last, s.next = .ok (t, last) → (f t).Ensures Q (s.look t last)) :
    (look >>= f).Ensures Q s := h

/-- Whatever token comes next, the code that consumes it has to ensure `Q` behind it. -/
theorem ensures_consume {mode : LexMode} {f : Span → Code β}
    (h : ∀ t last, s.next = .ok (t, last) → (f t.span).Ensures Q (s.consume t last mode)) :
    (consume mode >>= f).Ensures Q s := h

/-- A token that was looked at is the one that is consumed. -/
theorem ensures_consume_look {mode : LexMode} {f : Span → Code β}
    (h : (f t.span).Ensures Q (s.consume t last mode)) :
    (consume mode >>= f).Ensures Q (s.look t last) := by
  intro u last' hu
  cases hu
  exact h

/-- A call whose requirement holds may count on what the procedure promises. -/
theorem ensures_call {procedure : Procedure} {f : Node → Code β} (hs : procedure.Requires s)
    (h : ∀ n s', procedure.Promises s n s' → (f n).Ensures Q s') :
    (call procedure >>= f).Ensures Q s := ⟨hs, h⟩

/-- Whatever fails returns nothing. -/
theorem ensures_unexpected {expected : List Expected} {context : Production} :
    (unexpected expected context : Code β).Ensures Q s := fun _ _ _ => trivial

/-- An expression that is required has been read when the code goes on. -/
theorem ensures_required {production : Production} {f : Node → Code β}
    (h : ∀ n s', Returned s.frames s.consumed n s' → (f n).Ensures Q s') :
    (required production >>= f).Ensures Q s := by
  rw [ensures_bind]
  refine ensures_look fun t last ht => ?_
  split
  · trivial
  · exact ⟨Procedure.requires_of_none rfl, h⟩

/-- A closing parenthesis has been consumed when the code goes on. -/
theorem ensures_closing {production : Production} {f : Span → Code β}
    (h : ∀ t last, s.next = .ok (t, last) → (f t.span).Ensures Q (s.consume t last .plain)) :
    (closing production >>= f).Ensures Q s := by
  rw [ensures_bind]
  refine ensures_look fun t last ht => ?_
  split
  · exact ensures_consume_look (f := .done) (h t last ht)
  · split
    · trivial
    · exact ensures_unexpected

end Ensures

/-! ## Every procedure keeps its contract -/

/-- `Underway frames before f s`: a call that was made when `before` was consumed has come to `s`
while it reads the form `f`, and `frames` are open. -/
structure Underway (frames : List (Production × Span)) (before : List Token) (f : OpenForm)
    (s : State) : Prop where
  frames_eq : s.frames = frames
  isPrefix : before <+: s.consumed
  exists_opening : ∃ o ∈ s.consumed, o.span = f.opening

namespace Underway

variable {frames : List (Production × Span)} {before : List Token} {f g : OpenForm} {s s' : State}
  {t : Token} {last : Lexer} {n : Node}

theorem look (h : Underway frames before f s) (t : Token) (last : Lexer) :
    Underway frames before f (s.look t last) := ⟨h.frames_eq, h.isPrefix, h.exists_opening⟩

theorem consume (h : Underway frames before f s) (t : Token) (last : Lexer) (mode : LexMode) :
    Underway frames before f (s.consume t last mode) := by
  obtain ⟨o, ho, hspan⟩ := h.exists_opening
  exact ⟨h.frames_eq, h.isPrefix.trans (List.prefix_append _ _),
    o, List.mem_append_left _ ho, hspan⟩

theorem push (h : Underway frames before f s) (field : Field) (n : Node) :
    Underway frames before (f.push field n) s := ⟨h.frames_eq, h.isPrefix, h.exists_opening⟩

/-- The form is still underway when a part of it has been read. -/
theorem of_returned (h : Underway frames before f s) (hn : Returned s.frames s.consumed n s') :
    Underway frames before f s' := by
  obtain ⟨o, ho, hspan⟩ := h.exists_opening
  obtain ⟨ts, t, hconsumed, -⟩ := hn.consumed_eq
  rw [List.append_assoc] at hconsumed
  have hmore : s.consumed <+: s'.consumed := ⟨_, hconsumed.symm⟩
  exact ⟨hn.frames_eq.trans h.frames_eq, h.isPrefix.trans hmore, o, hmore.subset ho, hspan⟩

/-- Whoever reads on in a form underway has consumed its parenthesis. -/
theorem requires {procedure : Procedure} (h : Underway frames before f s)
    (hf : procedure.form? = some f) : procedure.Requires s := by
  intro g hg
  rw [hf] at hg
  cases hg
  exact h.exists_opening

/-- What the rest of the form returns, the form returns. -/
theorem returned (h : Underway frames before f s) (hn : Returned s.frames s.consumed n s') :
    Returned frames before n s' := by
  rw [h.frames_eq] at hn
  exact hn.of_isPrefix h.isPrefix

theorem enter (h : Underway frames before f s) (production : Production) (opening : Span) :
    Underway ((production, opening) :: frames) before f (s.enter production opening) :=
  ⟨congrArg _ h.frames_eq, h.isPrefix, h.exists_opening⟩

theorem leave (h : Underway frames before f s) : Underway frames.tail before f s.leave :=
  ⟨congrArg List.tail h.frames_eq, h.isPrefix, h.exists_opening⟩

/-- What the rest of a lambda from its arguments on returns, the lambda returns. -/
theorem returned_tail (h : Underway frames before f s)
    (hn : Returned s.frames.tail s.consumed n s') : Returned frames.tail before n s' := by
  rw [h.frames_eq] at hn
  exact hn.of_isPrefix h.isPrefix

/-- A form returns when its parenthesis is closed. -/
theorem close (h : Underway frames before f s) (t : Token) (last : Lexer) :
    Returned frames before (f.close t.span) (s.consume t last .plain) := by
  obtain ⟨o, ho, hspan⟩ := h.exists_opening
  obtain ⟨ts, hconsumed⟩ := h.isPrefix
  refine ⟨h.frames_eq, ⟨ts, t, ?_, Or.inr ⟨o, ?_, ?_⟩⟩, rfl, rfl⟩
  · show s.consumed ++ [t] = _
    rw [hconsumed]
  · rwa [hconsumed]
  · rw [hspan]
    rfl

end Underway

section Bodies

open Code

variable {s : State} {f : OpenForm} {t : Token} {last : Lexer}

/-- A leaf is the token that is consumed for it. -/
theorem returned_leaf (kind : LeafKind) :
    (leaf kind t).Ensures (Returned s.frames s.consumed) (s.look t last) :=
  ensures_consume_look ⟨rfl, ⟨[], t, by simp [State.consume], Or.inl rfl⟩, rfl, rfl⟩

/-- An expression is a leaf or a form. -/
theorem ensures_expression (context : Production) :
    (Procedure.expression context).body.Ensures (Returned s.frames s.consumed) s := by
  refine ensures_look fun t last ht => ?_
  split
  · exact returned_leaf _
  · split
    · exact ⟨Procedure.requires_of_none rfl, fun n s' hn => hn⟩
    · exact ensures_unexpected

/-- The end of a form that closes behind the expression `n`. -/
theorem ensures_last {frames : List (Production × Span)} {before : List Token}
    {production : Production} {field : Field} (hs : Underway frames before f s) :
    (required production >>= fun value => closing production >>= fun closing =>
      pure ((f.push field value).close closing)).Ensures (Returned frames before) s := by
  refine ensures_required fun value s' hvalue => ensures_closing fun t last ht => ?_
  exact ((hs.of_returned hvalue).push field value).close t last

/-- The rest of a form goes on until the form is closed. -/
theorem ensures_rest {field : Field} {frames : List (Production × Span)} {before : List Token}
    (hs : Underway frames before f s) :
    (Procedure.rest f field).body.Ensures (Returned frames before) s := by
  refine ensures_look fun t last ht => ?_
  split
  · exact ensures_consume_look (hs.close t last)
  · split
    · refine ensures_call (Procedure.requires_of_none rfl) fun child s' hchild => ?_
      have hmore := ((hs.look t last).of_returned hchild).push field child
      exact ⟨hmore.requires rfl, fun n _ hn => hmore.returned hn⟩
    · exact ensures_unexpected

/-- The rest of a lambda leaves the parenthesis of its arguments and goes on with the body. -/
theorem ensures_arguments {frames : List (Production × Span)} {before : List Token}
    (hs : Underway frames before f s) :
    (Procedure.arguments f).body.Ensures (Returned frames.tail before) s := by
  refine ensures_look fun t last ht => ?_
  split
  · exact ensures_consume_look (ensures_last (hs.consume t last .plain).leave)
  · split
    · refine ensures_call (Procedure.requires_of_none rfl) fun argument s' hargument => ?_
      have hmore := ((hs.look t last).of_returned hargument).push .arguments argument
      split
      · exact ⟨hmore.requires rfl, fun n _ hn => hmore.returned_tail hn⟩
      · trivial
    · exact ensures_unexpected

/-- A claim or definition is a name and an expression. -/
theorem ensures_binding {frames : List (Production × Span)} {before : List Token}
    (hs : Underway frames before f s) :
    (Procedure.binding f).body.Ensures (Returned frames before) s := by
  refine ensures_consume fun word here hword => ensures_look fun t last ht => ?_
  have hname := ((hs.consume word here .plain).consume t last .plain).push .identifier
    (.leaf .identifier t.span t.text)
  split
  · exact ensures_consume_look (ensures_last hname)
  · exact ensures_unexpected

/-- A lambda is its arguments and a body. -/
theorem ensures_lambda {frames : List (Production × Span)} {before : List Token}
    (hs : Underway frames before f s) :
    (Procedure.lambda f).body.Ensures (Returned frames before) s := by
  refine ensures_consume fun word here hword => ensures_look fun t last ht => ?_
  split
  · refine ensures_consume_look ?_
    have hparen := (hs.consume word here .plain).consume t last .plain
    have hopen := hparen.enter .lambdaArguments t.span
    exact ⟨hopen.requires rfl, fun n _ hn => hopen.returned_tail hn⟩
  · exact ensures_unexpected

/-- An application is a function and the rest of the form. -/
theorem ensures_application {frames : List (Production × Span)} {before : List Token}
    (hs : Underway frames before f s) :
    (Procedure.application f).body.Ensures (Returned frames before) s := by
  refine ensures_call (Procedure.requires_of_none rfl) fun function s' hfunction => ?_
  have hmore := (hs.of_returned hfunction).push .function function
  exact ⟨hmore.requires rfl, fun n _ hn => hmore.returned hn⟩

/-- A function type is a domain, a codomain and the rest of the form. -/
theorem ensures_functionType {frames : List (Production × Span)} {before : List Token}
    (hs : Underway frames before f s) :
    (Procedure.functionType f).body.Ensures (Returned frames before) s := by
  refine ensures_consume fun word here hword => ?_
  have hword := hs.consume word here .plain
  refine ensures_required fun domain s' hdomain => ensures_required fun codomain _ hcodomain => ?_
  have hmore := (((hword.of_returned hdomain).of_returned hcodomain).push .domain domain).push
    .codomain codomain
  exact ⟨hmore.requires rfl, fun n _ hn => hmore.returned hn⟩

/-- The procedure of a form promises that it returns with the same parentheses open. -/
theorem promises_ofForm {n : Node} {s' : State} :
    (Procedure.ofForm f).Promises s n s' ↔ Returned s.frames s.consumed n s' := by
  unfold Procedure.ofForm
  split <;> rfl

theorem form?_ofForm : (Procedure.ofForm f).form? = some f := by
  unfold Procedure.ofForm
  split <;> rfl

/-- What is entered for a form is left when the form has returned. -/
theorem ensures_form (topLevel : Bool) :
    (Procedure.form topLevel).body.Ensures (Returned s.frames s.consumed) s := by
  refine ensures_consume fun t here ht => ensures_look fun head last hhead => ?_
  have hopen : Underway s.frames s.consumed ⟨t.span, .empty (kindOfHead head.kind)⟩
      ((s.consume t here (if topLevel then .topLevelHead else .head)).look head last) :=
    ⟨rfl, List.prefix_append _ _, t, List.mem_append_right _ (List.mem_singleton_self t), rfl⟩
  refine ⟨(hopen.enter _ _).requires form?_ofForm, fun n s' hn => ?_⟩
  exact ((hopen.enter _ _).returned (promises_ofForm.1 hn)).leave

theorem ensures_source (length : Nat) (root : NodeBuilder) :
    (Procedure.source length root).body.Ensures (fun _ _ => True) s := by
  refine ensures_look fun t last ht => ?_
  split
  · trivial
  · split
    · exact ensures_call (Procedure.requires_of_none rfl) fun form s' _ =>
        ⟨Procedure.requires_of_none rfl, fun _ _ _ => trivial⟩
    · split
      · exact ensures_call (Procedure.requires_of_none rfl) fun form s' _ =>
          ⟨Procedure.requires_of_none rfl, fun _ _ _ => trivial⟩
      · exact ensures_unexpected

/-- **The contract.**  Every procedure keeps it, as long as those that it calls do. -/
theorem ensures_body {procedure : Procedure} (hs : procedure.Requires s) :
    procedure.body.Ensures (procedure.Promises s) s := by
  have hunderway : ∀ {g}, procedure.form? = some g → Underway s.frames s.consumed g s :=
    fun hg => ⟨rfl, List.prefix_rfl, hs _ hg⟩
  cases procedure with
  | source length root => exact ensures_source length root
  | expression context => exact ensures_expression context
  | form topLevel => exact ensures_form topLevel
  | binding f => exact ensures_binding (hunderway rfl)
  | lambda f => exact ensures_lambda (hunderway rfl)
  | arguments f => exact ensures_arguments (hunderway rfl)
  | application f => exact ensures_application (hunderway rfl)
  | functionType f => exact ensures_functionType (hunderway rfl)
  | rest f field => exact ensures_rest (hunderway rfl)

end Bodies

/-! ## Runs keep the contracts -/

/-- `Inside maxDepth K m m'`: the descent comes from `m` to `m'` and never returns to the callers
`K` on the way. -/
def Inside (maxDepth : Nat) (K : List (Node → Code Node)) : Moment → Moment → Prop :=
  Relation.ReflTransGen fun m m' => Step maxDepth m m' ∧ K <:+ m'.callers

/-- `Chained K Q callers P`: if the innermost call ends as in `P`, each of `callers` then goes on to
its end, and all calls keep their contracts, what is returned to `K` is as in `Q`. -/
inductive Chained (K : List (Node → Code Node)) (Q : Node → State → Prop) :
    List (Node → Code Node) → (Node → State → Prop) → Prop
  | base : Chained K Q K Q
  | caller {next callers P P'} (hnext : ∀ n s, P n s → (next n).Ensures P' s)
      (h : Chained K Q callers P') : Chained K Q (next :: callers) P

/-- What is left to do at the moment leads to `Q` when it returns to `K`. -/
def Moment.LeadsTo (m : Moment) (K : List (Node → Code Node)) (Q : Node → State → Prop) : Prop :=
  ∃ P, m.code.Ensures P m.state ∧ Chained K Q m.callers P

section Runs

variable {maxDepth : Nat} {K : List (Node → Code Node)} {Q P : Node → State → Prop} {m m' : Moment}

/-- Callers that lead back to `K` end with it. -/
theorem Chained.isSuffix {callers : List (Node → Code Node)} (h : Chained K Q callers P) :
    K <:+ callers := by
  induction h with
  | base => exact List.suffix_rfl
  | caller _ _ ih => exact ih.trans (List.suffix_cons _ _)

theorem Chained.eq (h : Chained K Q K P) : P = Q := by
  cases h with
  | base => rfl
  | caller _ h =>
    exact absurd h.isSuffix.length_le (Nat.not_succ_le_self _)

/-- **One step.**  Unless it returns to `K`, a step leads on to what the moment before leads to. -/
theorem leadsTo_of_step (h : Step maxDepth m m') (hK : K <:+ m'.callers) (hm : m.LeadsTo K Q) :
    m'.LeadsTo K Q := by
  obtain ⟨P, hcode, hchain⟩ := hm
  cases h with
  -- Only a call and a return change the callers; what each of them has to do is in the chain.
  | look ht | consume ht => exact ⟨P, hcode _ _ ht, hchain⟩
  | ask | enter | leave => exact ⟨P, hcode, hchain⟩
  | call => exact ⟨_, ensures_body hcode.1, .caller hcode.2 hchain⟩
  | ret =>
    cases hchain with
    | base =>
      exact absurd hK.length_le (Nat.not_succ_le_self _)
    | caller hnext hchain => exact ⟨_, hnext _ _ hcode, hchain⟩

/-- **All steps.**  So does a run. -/
theorem leadsTo_of_inside (h : Inside maxDepth K m m') (hm : m.LeadsTo K Q) : m'.LeadsTo K Q := by
  induction h with
  | refl => exact hm
  | tail _ hstep ih => exact leadsTo_of_step hstep.1 hstep.2 ih

theorem Inside.passes (h : Inside maxDepth K m m') : Passes maxDepth m m' := by
  induction h with
  | refl => exact .refl
  | tail _ hstep ih => exact ih.tail hstep.1

theorem inside_nil (h : Passes maxDepth m m') : Inside maxDepth [] m m' := by
  induction h with
  | refl => exact .refl
  | tail _ hstep ih => exact ih.tail ⟨hstep, List.nil_suffix⟩

/-- A call that returns has kept its contract. -/
theorem promises_of_inside {procedure : Procedure} {s s' : State} {n : Node}
    (hs : procedure.Requires s)
    (h : Inside maxDepth K ⟨s, procedure.body, K⟩ ⟨s', .done n, K⟩) :
    procedure.Promises s n s' := by
  obtain ⟨P, hn, hchain⟩ := leadsTo_of_inside h ⟨_, ensures_body hs, .base⟩
  obtain rfl := hchain.eq
  exact hn

/-- Whenever a procedure is called, what it requires holds. -/
theorem requires_of_passes {settings : Settings} {source : List Char} {s : State}
    {procedure : Procedure} {next : Node → Code Node}
    (h : Passes maxDepth (start settings source) ⟨s, .calling procedure next, K⟩) :
    procedure.Requires s := by
  have hstart : (start settings source).LeadsTo [] fun _ _ => True :=
    ⟨_, ensures_source _ _, .base⟩
  obtain ⟨P, hcode, -⟩ := leadsTo_of_inside (inside_nil h) hstart
  exact hcode.1

/-- Only a call that returns goes back to its callers. -/
theorem eq_done_of_step (h : Step maxDepth m m') (hm : K <:+ m.callers) (hm' : ¬K <:+ m'.callers) :
    ∃ s n, m = ⟨s, .done n, K⟩ := by
  cases h with
  | look | consume | ask | enter | leave => exact absurd hm hm'
  | call => exact absurd (hm.trans (List.suffix_cons _ _)) hm'
  | ret =>
    rcases List.suffix_cons_iff.1 hm with rfl | hm
    · exact ⟨_, _, rfl⟩
    · exact absurd hm hm'

/-- A call that is not underway any longer has returned. -/
theorem inside_or_returned (h : Passes maxDepth m m') (hm : K <:+ m.callers) :
    (Inside maxDepth K m m' ∧ K <:+ m'.callers) ∨
      ∃ s n, Inside maxDepth K m ⟨s, .done n, K⟩ := by
  induction h with
  | refl => exact Or.inl ⟨.refl, hm⟩
  | @tail here next _ hstep ih =>
    rcases ih with ⟨hinside, hK⟩ | hreturned
    · by_cases hK' : K <:+ next.callers
      · exact Or.inl ⟨hinside.tail ⟨hstep, hK'⟩, hK'⟩
      · obtain ⟨s, n, rfl⟩ := eq_done_of_step hstep hK hK'
        exact Or.inr ⟨s, n, hinside⟩
    · exact Or.inr hreturned

/-- **Returns.**  When a source parses, every call has returned. -/
theorem exists_return_of_parse {settings : Settings} {source : List Char} {tree : SyntaxTree}
    {s : State} {procedure : Procedure} {next : Node → Code Node}
    (h : parse settings source = .ok tree)
    (hcall : Passes settings.maxDepth (start settings source) ⟨s, .calling procedure next, K⟩) :
    ∃ s' n, Inside settings.maxDepth (next :: K) ⟨s, procedure.body, next :: K⟩
      ⟨s', .done n, next :: K⟩ := by
  obtain ⟨m, hm, hend⟩ := descent_of_parse settings source
  rw [h] at hend
  have hbody := hcall.tail .call
  have hpasses : Passes settings.maxDepth ⟨s, procedure.body, next :: K⟩ m := by
    rcases Relation.ReflTransGen.total_of_right_unique step_unique hbody hm with hm | hm
    · exact hm
    · rw [hend.eq_of_passes hm]
  rcases inside_or_returned (K := next :: K) hpasses List.suffix_rfl with ⟨-, hK⟩ | hreturned
  · cases hend with
    | finish => exact absurd (List.suffix_nil.1 hK) (List.cons_ne_nil _ _)
  · exact hreturned

end Runs

/-! ## The lexer behind a call -/

section Offsets

variable {lx : Lexer} {modes : List LexMode} {ts : List Token} {t o : Token}

/-- Calls that give tokens leave the lexer behind all of them. -/
theorem stop_le_of_calls (h : lx.calls modes = ts.map .ok) (ho : o ∈ ts) :
    o.span.stop ≤ (lx.afterCalls modes).cursor.offset := by
  induction modes generalizing lx ts with
  | nil =>
    rw [List.map_eq_nil_iff.1 h.symm] at ho
    cases ho
  | cons mode modes ih =>
    rcases ts with _ | ⟨u, us⟩
    · cases ho
    · rw [Lexer.calls, List.map_cons, List.cons.injEq] at h
      rcases List.mem_cons.1 ho with rfl | ho
      · have htoken := (Lexer.orderly lx mode).token o _ (Prod.ext h.1 rfl)
        rw [htoken.2.1]
        exact Lexer.offset_le_afterCalls _ modes
      · exact ih h.2 ho

/-- The lexer is right behind the last token that a call has given. -/
theorem stop_eq_of_calls (h : lx.calls modes = (ts ++ [t]).map .ok) :
    t.span.stop = (lx.afterCalls modes).cursor.offset := by
  rcases List.eq_nil_or_concat modes with rfl | ⟨before, mode, rfl⟩
  · simp [Lexer.calls] at h
  · rw [List.concat_eq_append, Lexer.calls_concat, List.map_append] at h
    have hlast := List.singleton_inj.1 (List.append_inj' h rfl).2
    rw [List.concat_eq_append, Lexer.afterCalls_concat]
    exact ((Lexer.orderly _ mode).token t _ (Prod.ext hlast rfl)).2.1

end Offsets

/-- `Restored s n s'`: a call made in `s` has returned `n` and left `s'`.  The same parentheses are
open as before, tokens have been consumed, the last of which ends `n`, and the lexer is right behind
it; no further token has been looked at, and the next one may not be a keyword. -/
structure Restored (s : State) (n : Node) (s' : State) : Prop where
  frames_eq : s'.frames = s.frames
  consumed_eq : ∃ ts t, s'.consumed = s.consumed ++ ts ++ [t] ∧ t.span.stop = n.span.stop
  lookahead_eq : s'.lookahead = none
  mode_eq : s'.mode = .plain
  offset_eq : s'.lexer.cursor.offset = n.span.stop

/-- A call that has returned has restored the state. -/
theorem Returned.restored {s s' : State} {n : Node} {lx : Lexer}
    (h : Returned s.frames s.consumed n s') (hs' : s'.InStep lx) : Restored s n s' := by
  obtain ⟨modes, hcalls, hlexer⟩ := hs'
  obtain ⟨ts, t, hconsumed, hspan⟩ := h.consumed_eq
  rw [h.lookahead_eq] at hlexer
  rw [hconsumed] at hcalls
  have hstop := stop_eq_of_calls hcalls
  have hn : n.span.stop = t.span.stop := by
    rcases hspan with hspan | ⟨o, ho, hspan⟩
    · rw [hspan]
    · have hle := stop_le_of_calls hcalls (List.mem_append_left _ ho)
      rw [← hstop] at hle
      rw [hspan]
      exact Nat.max_eq_right hle
  refine ⟨h.frames_eq, ⟨ts, t, hconsumed, hn.symm⟩, h.lookahead_eq, h.mode_eq, ?_⟩
  rw [hn, hstop, hlexer]

/-- Whether the procedure is that of a production, and not the rest of one. -/
def Procedure.isProduction : Procedure → Bool
  | source _ _ | arguments _ | rest _ _ => false
  | _ => true

/-- The procedure of a production promises that it returns with the same parentheses open. -/
theorem Procedure.promises_of_isProduction {procedure : Procedure} {s s' : State} {n : Node}
    (h : procedure.isProduction = true) (hn : procedure.Promises s n s') :
    Returned s.frames s.consumed n s' := by
  cases procedure with
  | source | arguments | rest => cases h
  | _ => exact hn

/-- **Calls of productions.**  The descent ends as the parse does and passes through the states of
the parser.  A token that has been looked at is always the one that the lexer gives behind the
consumed tokens in the mode that is set.  While a production is being read no more parentheses are
open than may be and no token is given back, and when its call returns the parser is as it was,
behind the tokens of the node. -/
theorem calls_restore_state (settings : Settings) (source : List Char) :
    (∀ r, (∃ m, Passes settings.maxDepth (start settings source) m ∧
      Ends settings.maxDepth m r) ↔ r = parse settings source) ∧
    (∀ ts q here, Lexer.Scan .initial (.ofSource settings.arrows source) ts here →
      (Parser.initial settings.maxDepth).readAll ts = .ok q →
      ∃ m, Passes settings.maxDepth (start settings source) m ∧ m.state = stateOf q here) ∧
    (∀ m, Passes settings.maxDepth (start settings source) m →
      m.state.InStep (.ofSource settings.arrows source)) ∧
    ∀ s procedure next K, procedure.isProduction = true →
      Passes settings.maxDepth (start settings source) ⟨s, .calling procedure next, K⟩ →
      (∀ m, Inside settings.maxDepth (next :: K) ⟨s, procedure.body, next :: K⟩ m →
        m.state.frames.length ≤ settings.maxDepth ∧ s.consumed <+: m.state.consumed) ∧
      ∀ n s', Inside settings.maxDepth (next :: K) ⟨s, procedure.body, next :: K⟩
        ⟨s', .done n, next :: K⟩ → Restored s n s' := by
  have hinStep : ∀ m, Passes settings.maxDepth (start settings source) m →
      m.state.InStep (.ofSource settings.arrows source) :=
    fun m hm => inStep_of_passes hm ⟨[], rfl, rfl⟩
  refine ⟨fun r => ⟨?_, ?_⟩, ?_, hinStep, ?_⟩
  · rintro ⟨m, hm, hr⟩
    obtain ⟨m', hm', hparse⟩ := descent_of_parse settings source
    exact ends_unique hm hr hm' hparse
  · rintro rfl
    exact descent_of_parse settings source
  · intro ts q here hts hq
    obtain ⟨m, hm, hmatches⟩ := arrives_of_scan hts hq
    exact ⟨m, hm, hmatches.state_eq⟩
  · intro s procedure next K hproduction hcall
    have hbody := hcall.tail .call
    refine ⟨fun m hm => ⟨?_, consumed_of_passes hm.passes⟩, fun n s' hreturn => ?_⟩
    · exact length_frames_of_passes (hbody.trans hm.passes) (Nat.zero_le _)
    · have hpromises := promises_of_inside (requires_of_passes hcall) hreturn
      have hreturned := Procedure.promises_of_isProduction hproduction hpromises
      exact hreturned.restored (hinStep _ (hbody.trans hreturn.passes))

/-- The call that reads the only form of `(f x)` is made and returns. -/
theorem calls_restore_state_application :
    let settings : Settings := {}
    let source := "(f x)".toList
    (∃ ts q here, ∃ m : Moment, Lexer.Scan .initial (.ofSource settings.arrows source) ts here ∧
      (Parser.initial settings.maxDepth).readAll ts = .ok q ∧ m.state = stateOf q here ∧
      m.state.InStep (.ofSource settings.arrows source)) ∧
    ∃ s next K n s',
      Passes settings.maxDepth (start settings source) ⟨s, .calling (.form true) next, K⟩ ∧
      Inside settings.maxDepth (next :: K) ⟨s, (Procedure.form true).body, next :: K⟩
        ⟨s', .done n, next :: K⟩ ∧
      s'.frames.length ≤ settings.maxDepth ∧ Restored s n s' := by
  intro settings source
  obtain ⟨-, hstates, hinStep, hcalls⟩ := calls_restore_state settings source
  constructor
  · obtain ⟨ts, q, here, hts, hq, -⟩ := parse_ending settings source
    obtain ⟨m, hm, hstate⟩ := hstates ts q here hts hq
    exact ⟨ts, q, here, m, hts, hq, hstate, hinStep m hm⟩
  · have hfirst : (State.initial (.ofSource settings.arrows source)).next.toOption.map
        (fun r => r.1.kind) = some .leftParen := by decide +kernel
    obtain ⟨⟨t, last⟩, hnext, hk⟩ := Option.map_eq_some_iff.1 hfirst
    have hcall : Arrives settings.maxDepth (start settings source) fun m =>
        ∃ s next, m = ⟨s, .calling (.form true) next, []⟩ := by
      have hk : t.kind = .leftParen := hk
      refine arrives_look (eq_ok_of_toOption hnext) ?_
      rw [if_neg (by simp [hk]), if_pos hk]
      exact .refl ⟨_, _, rfl⟩
    obtain ⟨_, hcall, s, next, rfl⟩ := hcall
    have hsome : (parse settings source).toOption.isSome = true := by decide +kernel
    obtain ⟨tree, htree⟩ := exists_tree_of_isSome hsome
    obtain ⟨s', n, hreturn⟩ := exists_return_of_parse htree hcall
    obtain ⟨hduring, hafter⟩ := hcalls s (.form true) next [] rfl hcall
    exact ⟨s, next, [], n, s', hcall, hreturn, (hduring _ hreturn).1, hafter n s' hreturn⟩

end PieSyntax.Descent
