/-
# One tree for its tokens

The tokens of a node tell where it ends and what it is: no other node is read from them, whatever
follows.  A node that stands further on is read from the same tokens further on.  Main statements:
`Spelled.moved`, and that the grammar is unambiguous (`Spelled.unique`).
-/
import PieSyntax.Proofs.Parentheses
import PieSyntax.Proofs.Relocation
import PieSyntax.Proofs.Schema

namespace PieSyntax

/-! ## Nodes further on -/

/-- The token `n` bytes further on, without the trivia before it. -/
def Token.moved (n : Nat) (t : Token) : Token := ⟨t.kind, t.text, t.span.shift n, []⟩

/-- The child and its tokens `n` bytes further on. -/
def Part.moved (n : Nat) (x : Part) : Part :=
  ⟨x.label, x.node.relocate (.shift n), x.tokens.map (Token.moved n)⟩

namespace Node

mutual

/-- A node that is moved by no bytes is the same node. -/
theorem relocate_shift_zero (n : Node) : n.relocate (.shift 0) = n := by
  cases n with
  | leaf => rfl
  | form kind s cs => rw [relocate, relocateAll_shift_zero cs]; rfl

theorem relocateAll_shift_zero (cs : List (Option Field × Node)) :
    relocateAll (.shift 0) cs = cs := by
  cases cs with
  | nil => rfl
  | cons c rest =>
    obtain ⟨field, n⟩ := c
    rw [relocateAll, relocate_shift_zero n, relocateAll_shift_zero rest]

end

end Node

theorem Part.flatMap_moved (n : Nat) (parts : List Part) :
    (parts.map (Part.moved n)).flatMap Part.tokens =
      (parts.flatMap Part.tokens).map (Token.moved n) := by
  rw [List.flatMap_map, List.map_flatMap]
  rfl

theorem Layout.moved (n : Nat) {kind : FormKind} {parts : List Part} {inside : List Token}
    (h : Layout kind parts inside) :
    Layout kind (parts.map (Part.moved n)) (inside.map (Token.moved n)) := by
  cases h with
  | @binding kind word kw t value hk hw ht hv =>
    exact @Layout.binding kind word (kw.moved n) (t.moved n) (value.moved n) hk hw ht hv
  | @lambda kw opening names closing body hw ho hn hc hb =>
    have hnames : ∀ t ∈ names.map (Token.moved n), t.kind = .identifier :=
      List.forall_mem_map.2 hn
    have hlambda := @Layout.lambda (kw.moved n) (opening.moved n) (names.map (Token.moved n))
      (closing.moved n) (body.moved n) hw ho hnames hc hb
    simp only [List.map_append, List.map_cons, List.map_nil, List.map_map] at hlambda ⊢
    exact hlambda
  | @functionType kw domain codomains hw hd hne hc =>
    have harrow := @Layout.functionType (kw.moved n) (domain.moved n)
      (codomains.map (Part.moved n)) hw hd (by simpa using hne) (List.forall_mem_map.2 hc)
    rw [Part.flatMap_moved] at harrow
    simp only [List.map_cons, List.map_append]
    exact harrow
  | @application function arguments hf ha =>
    have happlication := @Layout.application (function.moved n)
      (arguments.map (Part.moved n)) hf (List.forall_mem_map.2 ha)
    rw [Part.flatMap_moved] at happlication
    simp only [List.map_cons, List.map_append]
    exact happlication

/-- **Nodes further on.**  A node `n` bytes further on is read from its tokens `n` bytes further on,
and the trivia between them do not matter. -/
theorem Spelled.moved (n : Nat) {m : Node} {ts : List Token} (h : Spelled m ts) :
    Spelled (m.relocate (.shift n)) (ts.map (Token.moved n)) := by
  induction h with
  | @leaf t kind ht => exact .leaf (t := t.moved n) ht
  | @form kind opening closing parts inside ho hc hl hp hx ih =>
    have hform := @Spelled.form kind (opening.moved n) (closing.moved n) (parts.map (Part.moved n))
      (inside.map (Token.moved n)) ho hc (hl.moved n) (List.forall_mem_map.2 ih) ?_
    · rw [Node.relocate, Node.relocateAll_eq_map]
      simp only [List.map_cons, List.map_append, List.map_nil, List.map_map] at hform ⊢
      exact hform
    · refine List.forall_mem_map.2 fun x hmem => ?_
      show (x.node.relocate _).kind.isExpression = true
      rw [Node.kind_relocate]
      exact hx x hmem

/-! ## How nodes begin -/

/-- The first token of a node may begin an expression. -/
theorem Spelled.exists_cons {n : Node} {ts : List Token} (h : Spelled n ts) :
    ∃ t rest, ts = t :: rest ∧ t.kind.startsExpression = true := by
  cases h with
  | @leaf t kind ht =>
    refine ⟨t, [], rfl, ?_⟩
    cases hk : t.kind with
    | atom | identifier | typeIdentifier => rfl
    | _ =>
      rw [hk] at ht
      cases ht
  | form ho hc hl hp hx => exact ⟨_, _, rfl, by rw [ho]; rfl⟩

theorem kind_ne_of_starts {t : Token} (h : t.kind.startsExpression = true) :
    t.kind ≠ .rightParen ∧ ∀ word, t.kind ≠ .keyword word := by
  constructor
  · intro hk
    rw [hk] at h
    cases h
  · intro word hk
    rw [hk] at h
    cases h

/-- What stands between the parentheses of a form tells its production. -/
theorem Layout.ofHead {kind : FormKind} {parts : List Part} {inside : List Token}
    (h : Layout kind parts inside) (hp : ∀ x ∈ parts, Spelled x.node x.tokens)
    (rest : List Token) : Production.ofHead (inside ++ rest) = kind.production := by
  cases h with
  | binding hk hw ht hv => cases hk <;> simp [Production.ofHead, hw] <;> rfl
  | lambda hw ho hn hc hb => simp [Production.ofHead, hw]; rfl
  | functionType hw hd hne hc => simp [Production.ofHead, hw]; rfl
  | @application function arguments hf ha =>
    obtain ⟨t, us, htokens, ht⟩ := (hp function List.mem_cons_self).exists_cons
    rw [htokens, Production.ofHead]
    cases hk : t.kind with
    | keyword word => exact absurd hk ((kind_ne_of_starts ht).2 word)
    | _ => simp [hk]; rfl

theorem FormKind.production_injective {kind kind' : FormKind}
    (h : kind.production = kind'.production) : kind = kind' := by
  cases kind <;> cases kind' <;> first | rfl | cases h

/-! ## Unique reading -/

/-- The part is spelled, and no other node is read from the beginning of its tokens, whatever follows
them. -/
structure Part.IsOnly (x : Part) : Prop where
  spelled : Spelled x.node x.tokens
  unique : ∀ {n vs xs ys}, Spelled n vs → x.tokens ++ xs = vs ++ ys → x.node = n ∧ x.tokens = vs

/-- Two parts that fill the same field and begin the same text are the same. -/
theorem Part.IsOnly.eq {x y : Part} {xs ys : List Token} (hx : x.IsOnly)
    (hy : Spelled y.node y.tokens) (hlabel : x.label = y.label)
    (h : x.tokens ++ xs = y.tokens ++ ys) : x = y ∧ xs = ys := by
  obtain ⟨hnode, htokens⟩ := hx.unique hy h
  rw [htokens, List.append_cancel_left_eq] at h
  cases x
  cases y
  cases hlabel
  cases hnode
  cases htokens
  exact ⟨rfl, h⟩

/-- Parts that fill one field and are followed by a closing parenthesis are told by their tokens. -/
theorem eq_of_flatMap_tokens {field : Option Field} {parts parts' : List Part} {c c' : Token}
    {xs ys : List Token} (hlabel : ∀ x ∈ parts, x.label = field) (hp : ∀ x ∈ parts, x.IsOnly)
    (hlabel' : ∀ x ∈ parts', x.label = field) (hp' : ∀ x ∈ parts', Spelled x.node x.tokens)
    (hc : c.kind = .rightParen) (hc' : c'.kind = .rightParen)
    (h : parts.flatMap Part.tokens ++ c :: xs = parts'.flatMap Part.tokens ++ c' :: ys) :
    parts = parts' ∧ c = c' ∧ xs = ys := by
  induction parts generalizing parts' with
  | nil =>
    cases parts' with
    | nil =>
      obtain ⟨rfl, rfl⟩ := List.cons.inj h
      exact ⟨rfl, rfl, rfl⟩
    | cons y parts' =>
      -- No node begins with the parenthesis.
      obtain ⟨t, us, htokens, ht⟩ := (hp' y List.mem_cons_self).exists_cons
      rw [List.flatMap_cons, htokens] at h
      obtain ⟨rfl, -⟩ := List.cons.inj h
      exact absurd hc (kind_ne_of_starts ht).1
  | cons x parts ih =>
    obtain ⟨hx, hp⟩ := List.forall_mem_cons.1 hp
    obtain ⟨hxlabel, hlabel⟩ := List.forall_mem_cons.1 hlabel
    cases parts' with
    | nil =>
      obtain ⟨t, us, htokens, ht⟩ := hx.spelled.exists_cons
      rw [List.flatMap_cons, htokens] at h
      obtain ⟨rfl, -⟩ := List.cons.inj h
      exact absurd hc' (kind_ne_of_starts ht).1
    | cons y parts' =>
      obtain ⟨hy, hp'⟩ := List.forall_mem_cons.1 hp'
      obtain ⟨hylabel, hlabel'⟩ := List.forall_mem_cons.1 hlabel'
      rw [List.flatMap_cons, List.flatMap_cons, List.append_assoc, List.append_assoc] at h
      obtain ⟨hxy, hrest⟩ := hx.eq hy (hxlabel.trans hylabel.symm) h
      obtain ⟨hparts, hclosing, hxs⟩ := ih hlabel hp hlabel' hp' hrest
      exact ⟨by rw [hxy, hparts], hclosing, hxs⟩

/-- The names of a lambda as parts. -/
theorem flatMap_names (field : Field) (names : List Token) :
    (names.map (Part.name field)).flatMap Part.tokens = names := by
  rw [List.flatMap_map]
  exact List.flatMap_singleton' names

/-- What stands before a closing parenthesis is the inside of one form at most. -/
theorem Layout.unique {kind kind' : FormKind} {parts parts' : List Part}
    {inside inside' xs ys : List Token} {c c' : Token} (hl : Layout kind parts inside)
    (hl' : Layout kind' parts' inside') (hp : ∀ x ∈ parts, x.IsOnly)
    (hp' : ∀ x ∈ parts', Spelled x.node x.tokens) (hc : c.kind = .rightParen)
    (hc' : c'.kind = .rightParen) (h : inside ++ c :: xs = inside' ++ c' :: ys) :
    kind = kind' ∧ parts = parts' ∧ inside = inside' ∧ c = c' := by
  have hkind : kind = kind' := by
    have hhead := hl.ofHead (fun x hx => (hp x hx).spelled) (c :: xs)
    rw [h, hl'.ofHead hp'] at hhead
    exact (FormKind.production_injective hhead).symm
  subst hkind
  -- Within one production the children are taken off from the left: each is the only one its tokens
  -- allow, so that both forms go on at the same token.
  cases hl with
  | @binding kind word kw t value hk hw ht hv =>
    have hvalue := hp value (by simp)
    cases hl' with
    | @binding _ word' kw' t' value' hk' hw' ht' hv' =>
      simp only [List.cons_append, List.cons.injEq] at h
      obtain ⟨hword, hname, hrest⟩ := h
      obtain ⟨hsame, hend⟩ := hvalue.eq (hp' value' (by simp)) (hv.trans hv'.symm) hrest
      rw [hword, hname, hsame]
      exact ⟨rfl, rfl, rfl, (List.cons.inj hend).1⟩
    | lambda | functionType | application => cases hk
  | @lambda kw opening names closing body hw ho hn hclosing hb =>
    cases hl' with
    | binding hk' => cases hk'
    | @lambda kw' opening' names' closing' body' hw' ho' hn' hclosing' hb' =>
      obtain ⟨hnames, hbody⟩ := List.forall_mem_append.1 hp
      obtain ⟨hnames', hbody'⟩ := List.forall_mem_append.1 hp'
      simp only [List.cons_append, List.append_assoc, List.cons.injEq] at h
      obtain ⟨hword, hopening, hrest⟩ := h
      -- The names are children too, and their list ends at its own parenthesis.
      rw [← flatMap_names .arguments names, ← flatMap_names .arguments names'] at hrest
      obtain ⟨hsame, hlast, hrest⟩ := eq_of_flatMap_tokens (label_names .arguments names) hnames
        (label_names .arguments names') hnames' hclosing hclosing' hrest
      obtain ⟨hvalue, hend⟩ :=
        (hbody body (by simp)).eq (hbody' body' (by simp)) (hb.trans hb'.symm) hrest
      have hlist : names = names' := by
        rw [← flatMap_names .arguments names, hsame, flatMap_names]
      rw [hword, hopening, hlast, hvalue, hlist]
      exact ⟨rfl, rfl, rfl, (List.cons.inj hend).1⟩
  | @functionType kw domain codomains hw hd hne hcodomain =>
    cases hl' with
    | binding hk' => cases hk'
    | @functionType kw' domain' codomains' hw' hd' hne' hcodomain' =>
      obtain ⟨hdomain, hcodomains⟩ := List.forall_mem_cons.1 hp
      obtain ⟨hdomain', hcodomains'⟩ := List.forall_mem_cons.1 hp'
      simp only [List.cons_append, List.append_assoc, List.cons.injEq] at h
      obtain ⟨hword, hrest⟩ := h
      obtain ⟨hfirst, hrest⟩ := hdomain.eq hdomain' (hd.trans hd'.symm) hrest
      obtain ⟨hothers, hend, -⟩ :=
        eq_of_flatMap_tokens hcodomain hcodomains hcodomain' hcodomains' hc hc' hrest
      rw [hword, hfirst, hothers]
      exact ⟨rfl, rfl, rfl, hend⟩
  | @application function arguments hf ha =>
    cases hl' with
    | binding hk' => cases hk'
    | @application function' arguments' hf' ha' =>
      obtain ⟨hfunction, harguments⟩ := List.forall_mem_cons.1 hp
      obtain ⟨hfunction', harguments'⟩ := List.forall_mem_cons.1 hp'
      rw [List.append_assoc, List.append_assoc] at h
      obtain ⟨hfirst, hrest⟩ := hfunction.eq hfunction' (hf.trans hf'.symm) h
      obtain ⟨hothers, hend, -⟩ :=
        eq_of_flatMap_tokens ha harguments ha' harguments' hc hc' hrest
      rw [hfirst, hothers]
      exact ⟨rfl, rfl, rfl, hend⟩

/-- **Unique reading.**  Two nodes whose tokens begin the same text are the same node. -/
theorem Spelled.unique {m n : Node} {us vs xs ys : List Token} (hm : Spelled m us)
    (hn : Spelled n vs) (h : us ++ xs = vs ++ ys) : m = n ∧ us = vs := by
  induction hm generalizing n vs xs ys with
  | @leaf t kind ht =>
    cases hn with
    | @leaf t' kind' ht' =>
      obtain ⟨rfl, -⟩ := List.cons.inj h
      rw [ht] at ht'
      cases ht'
      exact ⟨rfl, rfl⟩
    | form ho' =>
      obtain ⟨rfl, -⟩ := List.cons.inj h
      rw [ho'] at ht
      cases ht
  | @form kind opening closing parts inside ho hc hl hp hx ih =>
    cases hn with
    | leaf ht' =>
      obtain ⟨rfl, -⟩ := List.cons.inj h
      rw [ho] at ht'
      cases ht'
    | @form kind' opening' closing' parts' inside' ho' hc' hl' hp' hx' =>
      simp only [List.cons_append, List.append_assoc, List.cons.injEq] at h
      obtain ⟨hopening, hrest⟩ := h
      have honly : ∀ x ∈ parts, x.IsOnly := fun x hmem => ⟨hp x hmem, ih x hmem⟩
      obtain ⟨hkind, hparts, hinside, hclosing⟩ := hl.unique hl' honly hp' hc hc' hrest
      rw [hopening, hkind, hparts, hinside, hclosing]
      exact ⟨rfl, rfl⟩

end PieSyntax
