/-
# Reading S-expressions back

An S-expression tells the tree that it shows, but for the spans.  It also tells where it ends: a kind
ends before a blank or a parenthesis, the name of a field before a colon, and a quoted text at the first
quote that is not escaped.  Main statements: an S-expression can be split off from what follows it in one
way (`Node.sexp_append_inj`), and two trees have the same S-expression only if they are the same up to
spans (`Node.sexp_eq_iff`).
-/
import PieSyntax.Proofs.Relocation
import PieSyntax.Proofs.Gaps

namespace PieSyntax

/-! ## Quoted text -/

namespace Text

/-- A run of characters ends where the first one of another class stands. -/
theorem append_inj_of_head {p : Char → Bool} {u v xs ys : List Char} (hu : ∀ c ∈ u, p c = true)
    (hv : ∀ c ∈ v, p c = true) (hxs : ∀ c ∈ xs.head?, p c = false)
    (hys : ∀ c ∈ ys.head?, p c = false) (h : u ++ xs = v ++ ys) : u = v ∧ xs = ys := by
  have hrun : u = v := by
    have htake := congrArg (List.takeWhile p) h
    rwa [takeWhile_append_of_head u hxs, takeWhile_append_of_head v hys,
      List.takeWhile_eq_self_iff.2 hu, List.takeWhile_eq_self_iff.2 hv] at htake
  rw [hrun, List.append_cancel_left_eq] at h
  exact ⟨hrun, h⟩

/-- Hexadecimal digits differ. -/
theorem digitChar_inj : ∀ m < 16, ∀ n < 16, Nat.digitChar m = Nat.digitChar n → m = n := by
  decide

/-- A number is told by its hexadecimal digits. -/
theorem toDigits_inj {m n : Nat} (h : Nat.toDigits 16 m = Nat.toDigits 16 n) : m = n := by
  -- One digit is never equal to many, because there are always some before the last one.
  have hmany : ∀ k d d', Nat.toDigits 16 k ++ [d] ≠ [d'] := by
    intro k d d' heq
    have hnil := (List.append_inj' (heq.trans (List.nil_append [d']).symm) rfl).1
    exact Nat.toDigits_ne_nil hnil
  induction m using Nat.strong_induction_on generalizing n with
  | _ m ih =>
    rw [Nat.toDigits_eq_if (by omega), Nat.toDigits_eq_if (n := n) (by omega)] at h
    split at h <;> split at h
    · next hm hn => exact digitChar_inj m hm n hn (List.singleton_inj.1 h)
    · next hm hn => exact absurd h.symm (hmany _ _ _)
    · next hm hn => exact absurd h (hmany _ _ _)
    · next hm hn =>
      obtain ⟨hfront, hlast⟩ := List.append_inj' h rfl
      have hdiv := ih (m / 16) (by omega) hfront
      have hmod := digitChar_inj (m % 16) (by omega) (n % 16) (by omega) (List.singleton_inj.1 hlast)
      omega

/-- Digits are no braces. -/
theorem ne_brace_of_mem_toDigits {n : Nat} {c : Char} (h : c ∈ Nat.toDigits 16 n) : c ≠ '\x7d' := by
  induction n using Nat.strong_induction_on with
  | _ n ih =>
    rw [Nat.toDigits_eq_if (by omega)] at h
    split at h
    · rw [List.mem_singleton.1 h]
      exact Nat.digitChar_ne _ rfl
    · rcases List.mem_append.1 h with hfront | hlast
      · exact ih (n / 16) (by omega) hfront
      · rw [List.mem_singleton.1 hlast]
        exact Nat.digitChar_ne _ rfl

/-- The characters that are escaped by a letter. -/
def letterEscapes : List (Char × Char) :=
  [('"', '"'), ('\\', '\\'), ('\n', 'n'), ('\r', 'r'), ('\t', 't'), (Char.ofNat 0, '0')]

/-- A character is written as itself, or behind a backslash by a letter or by its number. -/
theorem quoteChar_cases (c : Char) : (c ≠ '"' ∧ c ≠ '\\' ∧ quoteChar c = [c]) ∨
    (∃ letter, (c, letter) ∈ letterEscapes ∧ quoteChar c = ['\\', letter]) ∨
    quoteChar c = escapeCode c := by
  rw [quoteChar]
  split_ifs with hquote hbackslash hfeed hreturn htab hzero hcode
  · exact .inr (.inl ⟨'"', by rw [hquote]; decide, rfl⟩)
  · exact .inr (.inl ⟨'\\', by rw [hbackslash]; decide, rfl⟩)
  · exact .inr (.inl ⟨'n', by rw [hfeed]; decide, rfl⟩)
  · exact .inr (.inl ⟨'r', by rw [hreturn]; decide, rfl⟩)
  · exact .inr (.inl ⟨'t', by rw [htab]; decide, rfl⟩)
  · exact .inr (.inl ⟨'0', by rw [hzero]; decide, rfl⟩)
  · exact .inr (.inr rfl)
  · exact .inl ⟨hquote, hbackslash, rfl⟩

/-- No letter stands for two characters. -/
theorem letterEscapes_inj : ∀ x ∈ letterEscapes, ∀ y ∈ letterEscapes, x.2 = y.2 → x = y := by
  decide

/-- No character has the letter that introduces a code. -/
theorem letterEscapes_ne : ∀ x ∈ letterEscapes, x.2 ≠ 'u' := by
  decide

/-- The code of a character can be told from what follows it. -/
theorem escapeCode_append_inj {c d : Char} {xs ys : List Char}
    (h : escapeCode c ++ xs = escapeCode d ++ ys) : c = d ∧ xs = ys := by
  simp only [escapeCode, List.append_assoc, List.append_cancel_left_eq] at h
  have hdigits : ∀ n, ∀ e ∈ Nat.toDigits 16 n, (e != '\x7d') = true := fun n e he =>
    bne_iff_ne.2 (ne_brace_of_mem_toDigits he)
  obtain ⟨hcode, hrest⟩ := append_inj_of_head (hdigits c.toNat) (hdigits d.toNat) (by simp)
    (by simp) h
  exact ⟨Char.toNat_inj.1 (toDigits_inj hcode), List.append_cancel_left hrest⟩

/-- A code is its number between two braces. -/
theorem escapeCode_append (c : Char) (xs : List Char) :
    escapeCode c ++ xs = '\\' :: 'u' :: '\x7b' :: (Nat.toDigits 16 c.toNat ++ '\x7d' :: xs) := by
  simp [escapeCode]

/-- The written form of a character tells the character and where it ends. -/
theorem quoteChar_append_inj {c d : Char} {xs ys : List Char}
    (h : quoteChar c ++ xs = quoteChar d ++ ys) : c = d ∧ xs = ys := by
  rcases quoteChar_cases c with ⟨-, hc, hcform⟩ | ⟨letter, hc, hcform⟩ | hcform <;>
    rcases quoteChar_cases d with ⟨-, hd, hdform⟩ | ⟨letter', hd, hdform⟩ | hdform <;>
    rw [hcform, hdform] at h
  · exact List.cons.inj h
  · exact absurd (List.cons.inj h).1 hc
  · exact absurd (List.cons.inj h).1 hc
  · exact absurd (List.cons.inj h).1.symm hd
  · obtain ⟨hletter, hrest⟩ := List.cons.inj (List.cons.inj h).2
    exact ⟨(Prod.mk.inj (letterEscapes_inj _ hc _ hd hletter)).1, hrest⟩
  · rw [escapeCode_append] at h
    exact absurd (List.cons.inj (List.cons.inj h).2).1 (letterEscapes_ne _ hc)
  · exact absurd (List.cons.inj h).1.symm hd
  · rw [escapeCode_append] at h
    exact absurd (List.cons.inj (List.cons.inj h).2).1.symm (letterEscapes_ne _ hd)
  · exact escapeCode_append_inj h

/-- No written form begins with a quote. -/
theorem quoteChar_append_ne (c : Char) (xs ys : List Char) : quoteChar c ++ xs ≠ '"' :: ys := by
  intro h
  rcases quoteChar_cases c with ⟨hc, -, hform⟩ | ⟨letter, -, hform⟩ | hform
  · rw [hform] at h
    exact hc (List.cons.inj h).1
  · rw [hform] at h
    cases h
  · rw [hform, escapeCode_append] at h
    cases h

/-- **Quoted texts.**  A quoted text tells the text and where it ends. -/
theorem quoted_append_inj {u v xs ys : List Char} (h : quoted u ++ xs = quoted v ++ ys) :
    u = v ∧ xs = ys := by
  simp only [quoted, List.cons_append, List.append_assoc, List.cons.injEq, true_and,
    List.nil_append] at h
  induction u generalizing v with
  | nil =>
    cases v with
    | nil => exact ⟨rfl, (List.cons.inj h).2⟩
    | cons d v =>
      rw [List.flatMap_cons, List.append_assoc] at h
      exact absurd h.symm (quoteChar_append_ne d _ _)
  | cons c u ih =>
    rw [List.flatMap_cons, List.append_assoc] at h
    cases v with
    | nil => exact absurd h (quoteChar_append_ne c _ _)
    | cons d v =>
      rw [List.flatMap_cons, List.append_assoc] at h
      obtain ⟨rfl, hrest⟩ := quoteChar_append_inj h
      obtain ⟨rfl, hxs⟩ := ih hrest
      exact ⟨rfl, hxs⟩

end Text

/-! ## Names -/

/-- Whether a character may stand in the name of a kind or of a field. -/
def isNameLetter (c : Char) : Bool := c ∉ [' ', ':', '(', ')']

/-- The name of a kind is made of the letters of names. -/
theorem NodeKind.isNameLetter_name (kind : NodeKind) : ∀ c ∈ kind.name, isNameLetter c = true := by
  refine List.all_eq_true.1 ?_
  cases kind with
  | leaf kind => cases kind <;> decide
  | form kind => cases kind <;> decide

/-- Kinds differ by their names. -/
theorem NodeKind.name_injective {kind kind' : NodeKind} (h : kind.name = kind'.name) :
    kind = kind' := by
  cases kind with
  | leaf kind =>
    cases kind' with
    | leaf kind' => cases kind <;> cases kind' <;> first | rfl | exact absurd h (by decide)
    | form kind' => cases kind <;> cases kind' <;> exact absurd h (by decide)
  | form kind =>
    cases kind' with
    | leaf kind' => cases kind <;> cases kind' <;> exact absurd h (by decide)
    | form kind' => cases kind <;> cases kind' <;> first | rfl | exact absurd h (by decide)

/-- The name of the field that a child fills, if it fills one. -/
def fieldName : Option Field → List Char
  | none => []
  | some field => field.name

/-- The name of a field is made of the letters of names. -/
theorem isNameLetter_fieldName (label : Option Field) :
    ∀ c ∈ fieldName label, isNameLetter c = true := by
  refine List.all_eq_true.1 ?_
  cases label with
  | none => rfl
  | some field => cases field <;> decide

/-- Fields differ by their names, and from no field at all. -/
theorem fieldName_injective {label label' : Option Field} (h : fieldName label = fieldName label') :
    label = label' := by
  cases label with
  | none =>
    cases label' with
    | none => rfl
    | some field => cases field <;> exact absurd h (by decide)
  | some field =>
    cases label' with
    | none => cases field <;> exact absurd h (by decide)
    | some field' => cases field <;> cases field' <;> first | rfl | exact absurd h (by decide)

/-- What stands between the name of a field and the child that fills it. -/
def fieldSeparator : Option Field → List Char
  | none => []
  | some _ => [':', ' ']

namespace Node

/-! ## Trees -/

theorem fieldLabel_eq (label : Option Field) :
    fieldLabel label = fieldName label ++ fieldSeparator label := by
  cases label <;> rfl

/-- What stands behind the kind of a node, in its S-expression. -/
def sexpRest : Node → List Char
  | leaf _ _ text => ' ' :: Text.quoted text ++ [')']
  | form _ _ children => sexpAll children ++ [')']

/-- An S-expression begins with the name of the kind. -/
theorem sexp_eq (n : Node) : n.sexp = '(' :: (n.kind.name ++ n.sexpRest) := by
  cases n <;> simp [sexp, sexpRest, kind, NodeKind.name]

/-- The children end before a character that is no blank. -/
theorem head?_sexpAll (cs : List (Option Field × Node)) (xs : List Char) :
    ∀ c ∈ (sexpAll cs ++ ')' :: xs).head?, isNameLetter c = false := by
  cases cs with
  | nil => simp [sexpAll, isNameLetter]
  | cons child rest => simp [sexpAll, isNameLetter]

/-- The name of a kind ends where the rest of the S-expression begins. -/
theorem head?_sexpRest (n : Node) (xs : List Char) :
    ∀ c ∈ (n.sexpRest ++ xs).head?, isNameLetter c = false := by
  cases n with
  | leaf => simp [sexpRest, isNameLetter]
  | form kind s cs =>
    rw [sexpRest, List.append_assoc]
    exact head?_sexpAll cs xs

/-- The kind of a node is told by its S-expression. -/
theorem kind_of_sexp {m n : Node} {xs ys : List Char} (h : m.sexp ++ xs = n.sexp ++ ys) :
    m.kind = n.kind ∧ m.sexpRest ++ xs = n.sexpRest ++ ys := by
  simp only [sexp_eq, List.cons_append, List.append_assoc, List.cons.injEq, true_and] at h
  obtain ⟨hname, hrest⟩ := Text.append_inj_of_head m.kind.isNameLetter_name n.kind.isNameLetter_name
    (head?_sexpRest m xs) (head?_sexpRest n ys) h
  exact ⟨NodeKind.name_injective hname, hrest⟩

/-- The field that a child fills is told by what stands before it. -/
theorem label_of_sexp {label label' : Option Field} {m n : Node} {xs ys : List Char}
    (h : fieldLabel label ++ m.sexp ++ xs = fieldLabel label' ++ n.sexp ++ ys) :
    label = label' ∧ m.sexp ++ xs = n.sexp ++ ys := by
  have hend : ∀ (label : Option Field) (n : Node) (xs : List Char),
      ∀ c ∈ (fieldSeparator label ++ (n.sexp ++ xs)).head?, isNameLetter c = false := by
    intro label n xs
    rw [sexp_eq]
    cases label <;> simp [fieldSeparator, isNameLetter]
  simp only [fieldLabel_eq, List.append_assoc] at h
  obtain ⟨hname, hrest⟩ := Text.append_inj_of_head (isNameLetter_fieldName label)
    (isNameLetter_fieldName label') (hend label m xs) (hend label' n ys) h
  obtain rfl := fieldName_injective hname
  exact ⟨rfl, List.append_cancel_left hrest⟩

mutual

/-- **Splitting off.**  An S-expression tells its tree up to spans, and where it ends. -/
theorem sexp_append_inj (m n : Node) {xs ys : List Char} (h : m.sexp ++ xs = n.sexp ++ ys) :
    m.relocate .nowhere = n.relocate .nowhere ∧ xs = ys := by
  obtain ⟨hkind, hrest⟩ := kind_of_sexp h
  cases m with
  | leaf kind s text =>
    cases n with
    | form => cases hkind
    | leaf kind' s' text' =>
      cases hkind
      simp only [sexpRest, List.cons_append, List.append_assoc, List.cons.injEq, true_and] at hrest
      obtain ⟨rfl, hclose⟩ := Text.quoted_append_inj hrest
      exact ⟨rfl, (List.cons.inj hclose).2⟩
  | form kind s cs =>
    cases n with
    | leaf => cases hkind
    | form kind' s' cs' =>
      cases hkind
      rw [sexpRest, sexpRest, List.append_assoc, List.append_assoc] at hrest
      obtain ⟨hchildren, hxs⟩ := sexpAll_append_inj cs cs' hrest
      rw [relocate, relocate, hchildren]
      exact ⟨rfl, hxs⟩

/-- The children end at the first parenthesis that closes none of them. -/
theorem sexpAll_append_inj (cs ds : List (Option Field × Node)) {xs ys : List Char}
    (h : sexpAll cs ++ ')' :: xs = sexpAll ds ++ ')' :: ys) :
    relocateAll .nowhere cs = relocateAll .nowhere ds ∧ xs = ys := by
  cases cs with
  | nil =>
    cases ds with
    | nil => exact ⟨rfl, (List.cons.inj h).2⟩
    | cons d ds => exact absurd (List.cons.inj h).1 (by decide)
  | cons c cs =>
    cases ds with
    | nil => exact absurd (List.cons.inj h).1 (by decide)
    | cons d ds =>
      obtain ⟨label, m⟩ := c
      obtain ⟨label', n⟩ := d
      simp only [sexpAll, List.cons_append, List.append_assoc, List.cons.injEq, true_and] at h
      rw [← List.append_assoc, ← List.append_assoc (fieldLabel label')] at h
      obtain ⟨rfl, hchild⟩ := label_of_sexp h
      obtain ⟨hfirst, hrest⟩ := sexp_append_inj m n hchild
      obtain ⟨hmore, hxs⟩ := sexpAll_append_inj cs ds hrest
      rw [relocateAll, relocateAll, hfirst, hmore]
      exact ⟨rfl, hxs⟩

end

/-- **S-expressions.**  Two trees have the same S-expression exactly if they are the same up to spans:
in all kinds, the texts of all leaves, and all children with their order and fields. -/
theorem sexp_eq_iff (m n : Node) : m.sexp = n.sexp ↔ m.relocate .nowhere = n.relocate .nowhere := by
  constructor
  · intro h
    have happend : m.sexp ++ [] = n.sexp ++ [] := by rw [h]
    exact (sexp_append_inj m n happend).1
  · intro h
    rw [← sexp_relocate .nowhere m, h, sexp_relocate]

end Node

end PieSyntax
