/-
# The limit on nesting

The limit says how many parentheses may be open at once, and nothing else.  Main statements: under a
smaller limit a parser does the same, up to the first parenthesis that is one too many
(`Parser.run_limit`), before which as many are open as the limit says
(`exists_paren_of_depthExceeded`), and a tree is no higher than the limit and its root and leaves
(`length_le_of_path`).  Together they say what the limit means (`depth_limit_is_threshold`).
-/
import PieSyntax.Proofs.FirstError
import PieSyntax.Proofs.Language

namespace PieSyntax

open Text Lexer

namespace Parser

/-! ## Another limit -/

/-- The parser under another limit. -/
def limit (p : Parser) (m : Nat) : Parser := { p with maxDepth := m }

variable {p q : Parser} {t : Token} {n : Node} {e : ParseError} {m : Nat}

@[simp] theorem mode_limit (p : Parser) (m : Nat) : (p.limit m).mode = p.mode := rfl

@[simp] theorem isIdle_limit (p : Parser) (m : Nat) : (p.limit m).isIdle = p.isIdle := rfl

@[simp] theorem depth_limit (p : Parser) (m : Nat) : (p.limit m).depth = p.depth := rfl

/-- A completed node goes to the same place, whatever the limit. -/
theorem delivery_limit (h : Delivery p n q) (m : Nat) : Delivery (p.limit m) n (q.limit m) := by
  cases h with
  | form => exact .form
  | domain => exact .domain
  | codomain => exact .codomain
  | value hd hc => exact .value hd hc
  | function => exact .function
  | more => exact .more
  | argument hn => exact .argument hn

/-- A node is turned away, whatever the limit. -/
theorem misfit_limit (h : Misfit p n e) (m : Nat) : Misfit (p.limit m) n e := by
  cases h with
  | argument hn => exact .argument hn

/-- Reading `t` opens one parenthesis more, the one that stands there. -/
inductive Opens : Parser → Token → Span → Prop
  | head {d root ts enclosing opening t} : Opens ⟨d, root, ts, enclosing, .head opening⟩ t opening
  | parameters {d root ts enclosing f t} (ht : t.kind = .leftParen) :
      Opens ⟨d, root, ts, enclosing, .parameters f⟩ t t.span

/-- A parenthesis too many is refused. -/
theorem Opens.refusal {span : Span} (h : Opens p t span) (hp : p.maxDepth ≤ p.depth) :
    Refusal p t (.depthExceeded p.maxDepth span) := by
  cases h with
  | head => exact .deepForm hp
  | parameters ht => exact .deepArguments ht hp

/-- **Steps.**  A step is taken under every limit that has room for the parenthesis it opens. -/
theorem step_limit (h : Step p t q) (hm : ∀ span, Opens p t span → p.depth < m) :
    Step (p.limit m) t (q.limit m) := by
  induction h with
  | leaf ht hq => exact .leaf ht (delivery_limit hq m)
  | opening ht => exact .opening ht
  | closing ht hq => exact .closing ht (delivery_limit hq m)
  | closingArguments ht => exact .closingArguments ht
  | binding ht hk hd => exact .binding ht hk (hm _ .head)
  | lambda ht hd => exact .lambda ht (hm _ .head)
  | arrow ht hd => exact .arrow ht (hm _ .head)
  | application ht hd hq ih =>
    -- The word is read inside the application, where it opens nothing.
    exact .application ht (hm _ .head) (ih fun span hopens => by cases hopens)
  | name ht => exact .name ht
  | parameters ht hd => exact .parameters ht (hm _ (.parameters ht))
  | close ht hq => exact .close ht (delivery_limit hq m)

/-- **Refusals.**  A token is refused for the same reason under every limit that has room for the
parenthesis it opens. -/
theorem refusal_limit (h : Refusal p t e) (hle : m ≤ p.maxDepth)
    (hm : ∀ span, Opens p t span → p.depth < m) : Refusal (p.limit m) t e := by
  induction h with
  | topLevel ht => exact .topLevel ht
  | missing ht => exact .missing ht
  | unexpected ht hs => exact .unexpected ht hs
  | leaf ht he => exact .leaf ht (misfit_limit he m)
  | closing ht he => exact .closing ht (misfit_limit he m)
  | deepForm hd =>
    have hlt := hm _ .head
    exact absurd (Nat.lt_of_lt_of_le hlt hle) (Nat.not_lt.2 hd)
  | application ht hd he ih =>
    exact .application ht (hm _ .head) (ih hle fun span hopens => by cases hopens)
  | name ht => exact .name ht
  | parameters ht => exact .parameters ht
  | deepArguments ht hd =>
    have hlt := hm _ (.parameters ht)
    exact absurd (Nat.lt_of_lt_of_le hlt hle) (Nat.not_lt.2 hd)
  | extra ht => exact .extra ht
  | closed ht he => exact .closed ht (misfit_limit he m)
  | close hp ht => exact .close hp ht

/-- Where a parenthesis is one too many, the run ends. -/
theorem run_of_opens {lx last : Lexer} {span : Span} (ht : lx.next p.mode = (.ok t, last))
    (h : Opens p t span) (hp : p.maxDepth ≤ p.depth) :
    p.run lx = .error (.grammatical (.depthExceeded p.maxDepth span)) := by
  refine run_of_ending (.refused ht (read_of_refusal (h.refusal hp)) fun hidle => ?_)
  cases h with
  | head | parameters => cases hidle

/-- **Runs.**  Under a smaller limit a run has the same result, or one parenthesis is too many. -/
theorem run_limit (p : Parser) (lx : Lexer) (hm : m ≤ p.maxDepth) :
    (p.limit m).run lx = p.run lx ∨
      ∃ span, (p.limit m).run lx = .error (.grammatical (.depthExceeded m span)) := by
  -- Either the smaller limit has no room for the next parenthesis, or the next step is the same.
  have room : ∀ {p : Parser} {t : Token} {lx last : Lexer}, lx.next p.mode = (.ok t, last) →
      (∃ span, (p.limit m).run lx = .error (.grammatical (.depthExceeded m span))) ∨
        ∀ span, Opens p t span → p.depth < m := by
    intro p t lx last ht
    by_cases hroom : ∀ span, Opens p t span → p.depth < m
    · exact Or.inr hroom
    · left
      push Not at hroom
      obtain ⟨span, hopens, hdepth⟩ := hroom
      have hopens' : Opens (p.limit m) t span := by
        cases hopens with
        | head => exact .head
        | parameters hk => exact .parameters hk
      exact ⟨span, run_of_opens ht hopens' hdepth⟩
  fun_induction run p lx with
  | case1 p lx e he =>
    left
    exact run_of_ending (.lexical (Prod.ext he rfl))
  | case2 p lx t ht hend =>
    left
    simp only [Token.isEnd, Bool.and_eq_true, beq_iff_eq] at hend
    exact run_of_ending (.finished (Prod.ext ht rfl) hend.1 hend.2)
  | case3 p lx t ht hend e he =>
    simp only [Token.isEnd, Bool.and_eq_true, beq_iff_eq, not_and] at hend
    rcases room (Prod.ext ht rfl) with hdeep | hroom
    · exact Or.inr hdeep
    · left
      have hread := read_of_refusal (refusal_limit (refusal_of_read he) hm hroom)
      exact run_of_ending (.refused (Prod.ext ht rfl) hread hend)
  | case4 p lx t ht hend q hq ih =>
    rcases room (Prod.ext ht rfl) with hdeep | hroom
    · exact Or.inr hdeep
    · have hstep := step_of_read hq
      have hread := read_of_step (step_limit hstep hroom)
      have hnext : lx.next (p.limit m).mode = (.ok t, (lx.next p.mode).2) := Prod.ext ht rfl
      rw [run_of_read hnext (kind_ne_of_read hq) hread]
      exact ih (by rwa [maxDepth_of_step hstep])

/-! ## Room -/

/-- A node is completed at the depth of the forms around it. -/
theorem depth_of_delivery (h : Delivery p n q) : q.depth = weight p.enclosing := by
  rw [depth_eq]
  cases h <;> simp [Focus.openings, Slot.depth]

/-- A step opens a parenthesis only where there is room. -/
theorem depth_le_of_step (h : Step p t q) (hp : p.depth ≤ p.maxDepth) : q.depth ≤ p.maxDepth := by
  induction h with
  | leaf ht hq | closing ht hq | close ht hq =>
    rw [depth_of_delivery hq]
    simp only [depth_eq, weight_cons] at hp ⊢
    omega
  | opening ht => exact hp
  | closingArguments ht | name ht =>
    simp [depth_eq, weight_cons, Slot.depth, Focus.openings] at hp ⊢
    omega
  | binding ht hk hd | lambda ht hd | arrow ht hd | parameters ht hd =>
    simp [depth_eq, weight_cons, Slot.depth, Focus.openings] at hd ⊢
    omega
  | application ht hd hq ih =>
    apply ih
    simp [depth_eq, weight_cons, Slot.depth, Focus.openings] at hd ⊢
    omega

/-- The parenthesis before a head does not count yet. -/
theorem depth_schedule_of_head {opening : Span} (hf : p.focus = .head opening) :
    p.schedule.depth = p.depth + 1 := by
  simp only [schedule, depth_eq, hf, Focus.weight, Focus.openings, List.length_nil]
  omega

theorem depth_schedule_of_parameters {f : OpenForm} (hf : p.focus = .parameters f) :
    p.schedule.depth = p.depth := by
  simp only [schedule, depth_eq, hf, Focus.weight, Focus.openings, List.length_singleton]

/-- No more parentheses are open than the limit says. -/
theorem depth_le_of_readAll {ts : List Token} (h : p.readAll ts = .ok q)
    (hp : p.depth ≤ p.maxDepth) : q.depth ≤ q.maxDepth := by
  refine readAll_keeps (I := fun r => r.depth ≤ r.maxDepth) h hp ?_
  intro r t r' hr hstep
  rw [maxDepth_of_step hstep]
  exact depth_le_of_step hstep hr

end Parser

section Parse

variable {settings : Settings} {source : List Char} {tree : SyntaxTree}

/-- **The parenthesis too many.**  As many parentheses are open before it as the limit says. -/
theorem exists_paren_of_depthExceeded {limit : Nat} {span : Span}
    (h : parse settings source = .error (.grammatical (.depthExceeded limit span))) :
    limit = settings.maxDepth ∧ ∃ text rest ts t, source = text ++ '(' :: rest ∧
      span = ⟨byteLength text, byteLength text + 1⟩ ∧
      tokenize settings.arrows text = .ok (ts ++ [t]) ∧ t.kind = .endOfInput ∧
      (Schedule.initial.afterAll ts).depth = settings.maxDepth := by
  obtain ⟨ts, q, here, hts, hq, hend⟩ := parse_ending settings source
  rw [h] at hend
  have hmax : q.maxDepth = settings.maxDepth := Parser.maxDepth_of_readAll hq
  have hle := Parser.depth_le_of_readAll hq (Nat.zero_le _)
  have hschedule := Parser.schedule_of_readAll hq
  rw [Parser.schedule_initial] at hschedule
  cases hend with
  | @refused t last failure ht hr hk =>
    obtain ⟨rfl, hdepth, hfocus⟩ := Parser.deep_of_refusal (Parser.refusal_of_read hr)
    have heq : q.depth = settings.maxDepth := by rw [← hmax]; exact Nat.le_antisymm hle hdepth
    refine ⟨hmax, ?_⟩
    rcases hfocus with hfocus | ⟨⟨f, hfocus⟩, hparen, rfl⟩
    · -- The parenthesis is the last token read, and its form does not count yet.
      obtain ⟨front, o, text, u, rfl, ho, -, -, -, hsource, hspan, htokens, hu⟩ :=
        exists_before_of_head hts hq hfocus
      refine ⟨text, _, front, u, hsource, hspan, htokens, hu, ?_⟩
      have hcount := Parser.depth_schedule_of_head hfocus
      rw [hschedule, Schedule.afterAll_concat] at hcount
      simp only [Schedule.after, ho] at hcount
      omega
    · obtain ⟨text, u, -, hsource, hspan, htokens, hu⟩ := hts.exists_before (took_of_next ht) hparen
      refine ⟨text, _, ts, u, hsource, hspan, htokens, hu, ?_⟩
      rw [← hschedule, Parser.depth_schedule_of_parameters hfocus, heq]

end Parse

/-! ## Paths -/

/-- Whether the node has parentheses of its own: it is neither a source nor a leaf. -/
def Node.hasParens (n : Node) : Bool := !n.kind.isLeaf && n.kind != .form .source

/-- `n.Path ns`: the nodes `ns` lead from `n` downwards, each to one of its children. -/
inductive Node.Path : Node → List Node → Prop
  | single {n} : Path n [n]
  | cons {n c ns} (hc : c ∈ n.children) (hns : Path c ns) : Path n (n :: ns)

/-- Tokens that stand together among balanced ones are nested within the same limit. -/
theorem NestedWithin.of_infix {limit outer : Nat} {ts us : List Token}
    (h : NestedWithin limit outer (ts.map Token.kind)) (hts : Balanced ts) (hus : us <:+: ts) :
    NestedWithin limit outer (us.map Token.kind) := by
  obtain ⟨front, rest, rfl⟩ := hus
  intro before after hcut
  have hlt := h (front.map Token.kind ++ before) (after ++ rest.map Token.kind) (by simp [hcut])
  have hle := hts.count_le (List.append_assoc _ _ _)
  rw [List.count_append, List.count_append] at hlt
  omega

/-- A path below a spelled node goes through no more parentheses than there is room for, and they
are those of all its nodes but the last. -/
theorem Spelled.path_le {n : Node} {ts : List Token} (h : Spelled n ts) {limit outer : Nat}
    (hn : NestedWithin limit outer (ts.map Token.kind)) (houter : outer ≤ limit) {ns : List Node}
    (hns : n.Path ns) :
    outer + ns.countP Node.hasParens ≤ limit ∧ ns.length ≤ ns.countP Node.hasParens + 1 := by
  induction h generalizing outer ns with
  | leaf ht =>
    cases hns with
    | single => exact ⟨houter, Nat.le_refl _⟩
    | cons hc => cases hc
  | @form kind opening closing parts inside ho hc hl hp hx ih =>
    have hparens : ∀ span children, (Node.form kind span children).hasParens = true := by
      intro span children
      cases hl with
      | binding hk => cases hk <;> rfl
      | _ => rfl
    have hlt : outer < limit := NestedWithin.lt_of_cons (w := (inside ++ [closing]).map Token.kind)
      (by rw [← ho]; exact hn)
    cases hns with
    | single =>
      rw [List.countP_singleton, if_pos (hparens _ _)]
      exact ⟨hlt, by simp⟩
    | @cons _ c ns hchild hns =>
      -- The path goes on below a child, around which one parenthesis more is open.
      rw [children_form] at hchild
      obtain ⟨x, hmem, rfl⟩ := List.mem_map.1 hchild
      have hform : NestedWithin limit outer
          ([.leftParen] ++ inside.map Token.kind ++ [closing.kind]) := by
        rw [← ho]
        simpa using hn
      have hinside : NestedWithin limit (outer + 1) (inside.map Token.kind) :=
        hform.part (by simp)
      have hbalanced := hl.balanced fun y hy => (hp y hy).balanced
      have hchild := hinside.of_infix hbalanced (hl.tokens_infix hmem)
      obtain ⟨hcount, hlength⟩ := ih x hmem hchild hlt hns
      rw [List.countP_cons_of_pos (hparens _ _), List.length_cons]
      omega

section Parse

variable {settings : Settings} {source : List Char} {tree : SyntaxTree}

/-- **Paths.**  No path from the root of a tree goes through more parentheses than the limit
allows, and it has no other nodes but the root and a leaf. -/
theorem path_le_of_parse (h : parse settings source = .ok tree) {ns : List Node}
    (hns : tree.root.Path ns) :
    ns.countP Node.hasParens ≤ settings.maxDepth ∧ ns.length ≤ ns.countP Node.hasParens + 2 := by
  obtain ⟨parts, hroot, hparts, htokens⟩ := exists_parts_of_parse h
  rw [hroot] at hns
  cases hns with
  | single => exact ⟨Nat.zero_le _, by simp⟩
  | @cons _ c ns hchild hns =>
    rw [children_form] at hchild
    obtain ⟨x, hmem, rfl⟩ := List.mem_map.1 hchild
    have hspelled := (hparts x hmem).2
    have hbalanced := Balanced.flatMap fun y hy => (hparts y hy).2.balanced
    have hnested := nested_of_parse h
    rw [htokens] at hnested
    have hx := hnested.of_infix hbalanced (tokens_infix_flatMap hmem)
    obtain ⟨hcount, hlength⟩ := hspelled.path_le hx (Nat.zero_le _) hns
    rw [List.countP_cons_of_neg (by simp [Node.hasParens, Node.kind]), List.length_cons]
    omega

end Parse

/-- **The limit on nesting.**  Under a smaller limit a source has the same result, or a parenthesis
before which as many are open as the limit says is refused; a tree is the same if and only if its
tokens are nested within the limit.  No path in a tree goes through more parentheses than the
limit. -/
theorem depth_limit_is_threshold (arrow : FunctionTypes) (source : List Char) {m n : Nat}
    (hmn : m ≤ n) :
    (parse ⟨arrow, m⟩ source = parse ⟨arrow, n⟩ source ∨
      ∃ text rest ts t, source = text ++ '(' :: rest ∧
        tokenize (Settings.arrows ⟨arrow, m⟩) text = .ok (ts ++ [t]) ∧ t.kind = .endOfInput ∧
        (Schedule.initial.afterAll ts).depth = m ∧
        parse ⟨arrow, m⟩ source = .error (.grammatical
          (.depthExceeded m ⟨byteLength text, byteLength text + 1⟩))) ∧
    ∀ tree, parse ⟨arrow, n⟩ source = .ok tree →
      (parse ⟨arrow, m⟩ source = .ok tree ↔ NestedWithin m 0 (tree.tokens.map Token.kind)) ∧
      ∀ ns, tree.root.Path ns →
        ns.countP Node.hasParens ≤ n ∧ ns.length ≤ ns.countP Node.hasParens + 2 := by
  have hcases : parse ⟨arrow, m⟩ source = parse ⟨arrow, n⟩ source ∨
      ∃ span, parse ⟨arrow, m⟩ source = .error (.grammatical (.depthExceeded m span)) :=
    Parser.run_limit (Parser.initial n) _ hmn
  refine ⟨?_, ?_⟩
  · rcases hcases with hsame | ⟨span, hdeep⟩
    · exact Or.inl hsame
    · right
      obtain ⟨-, text, rest, ts, t, hsource, rfl, htokens, ht, hdepth⟩ :=
        exists_paren_of_depthExceeded hdeep
      exact ⟨text, rest, ts, t, hsource, htokens, ht, hdepth, hdeep⟩
  · intro tree h
    refine ⟨⟨nested_of_parse, fun hnested => ?_⟩, fun ns hns => path_le_of_parse h hns⟩
    -- What is nested within the smaller limit parses under it, so that nothing is refused.
    have htokens := tokenize_of_parse h
    rw [show Settings.arrows ⟨arrow, n⟩ = Settings.arrows ⟨arrow, m⟩ from rfl] at htokens
    obtain ⟨tree', h'⟩ := exists_tree_of_derives htokens (derives_of_parse h) hnested
    rcases hcases with hsame | ⟨span, hdeep⟩
    · rw [hsame, h]
    · rw [hdeep] at h'
      cases h'

/-- The argument list of a lambda takes room of its own. -/
theorem depth_limit_is_threshold_lambda :
    (∃ tree, parse ⟨.application, 2⟩ "(lambda (x) x)".toList = .ok tree ∧
      ¬ NestedWithin 1 0 (tree.tokens.map Token.kind)) ∧
    ∃ text ts t, tokenize false text = .ok (ts ++ [t]) ∧ (Schedule.initial.afterAll ts).depth = 1 ∧
      parse ⟨.application, 1⟩ "(lambda (x) x)".toList = .error (.grammatical
        (.depthExceeded 1 ⟨byteLength text, byteLength text + 1⟩)) := by
  have hsome : (parse ⟨.application, 2⟩ "(lambda (x) x)".toList).toOption.isSome = true := by
    decide +kernel
  have hnone : (parse ⟨.application, 1⟩ "(lambda (x) x)".toList).toOption.isSome = false := by
    decide +kernel
  obtain ⟨tree, h⟩ := exists_tree_of_isSome hsome
  obtain ⟨hcases, htree⟩ := depth_limit_is_threshold .application "(lambda (x) x)".toList
    (show 1 ≤ 2 by decide)
  constructor
  · refine ⟨tree, h, fun hnested => ?_⟩
    rw [(htree tree h).1.2 hnested] at hnone
    cases hnone
  · rcases hcases with hsame | ⟨text, rest, ts, t, -, htokens, -, hdepth, hdeep⟩
    · rw [hsame, h] at hnone
      cases hnone
    · exact ⟨text, ts, t, htokens, hdepth, hdeep⟩

end PieSyntax
