/-
# Steps of paths

A path is a row of steps, and paths are ordered by their steps, not by their characters: what is below
`a` comes before `a.pie`.  To join a name to a path is to add one step (`Path.steps_join`), so that the
names on the way down from a path can be read off again (`Path.below_injective`), and the extension of a
name is what follows its last dot, if something stands before that dot (`Path.extension?_eq_some_iff`).
Main statement on the order: the comparison of paths that sorting uses is the lexicographic order of
their steps (`Path.le_iff`, `Path.before_iff`).
-/
import Mathlib.Data.List.Lex
import PieSyntax.Path

namespace PieSyntax

/-! ## Order -/

/-- Lists whose entries are renamed are compared by the renamed entries. -/
theorem lex_map_iff {α β : Type} {r : β → β → Prop} {f : α → β} (hf : Function.Injective f)
    {l l' : List α} : List.Lex r (l.map f) (l'.map f) ↔ List.Lex (fun x y => r (f x) (f y)) l l' := by
  induction l generalizing l' with
  | nil => cases l' <;> simp
  | cons x l ih =>
    cases l' with
    | nil => simp
    | cons y l' => rw [List.map_cons, List.map_cons, List.cons_lex_cons_iff, List.cons_lex_cons_iff,
        ih, hf.eq_iff]

namespace PathStep

/-- The rank of a step: the root, the directory itself, its parent, and then names. -/
def rank : PathStep → Nat
  | .root => 0
  | .here => 1
  | .parent => 2
  | .name _ => 3

/-- `s.Before t`: `s` has a lower rank, or both are names, which are ordered by their characters. -/
inductive Before : PathStep → PathStep → Prop
  | rank {s t} (h : s.rank < t.rank) : Before s t
  | name {a b} (h : a < b) : Before (.name a) (.name b)

/-- Steps are ordered by their ranks, and names among themselves. -/
theorem before_iff {s t : PathStep} :
    s.Before t ↔ s.rank < t.rank ∨ ∃ a b, s = .name a ∧ t = .name b ∧ a < b := by
  constructor
  · rintro (h | h)
    · exact .inl h
    · exact .inr ⟨_, _, rfl, rfl, h⟩
  · rintro (h | ⟨a, b, rfl, rfl, h⟩)
    · exact .rank h
    · exact .name h

end PathStep

namespace Path

theorem toNat_injective : Function.Injective Char.toNat := fun _ _ h =>
  Char.ext (UInt32.toNat_inj.1 h)

/-- Steps differ by their keys. -/
theorem stepKey_injective : Function.Injective stepKey := by
  intro s t h
  cases s <;> cases t <;> simp [stepKey, toNat_injective.list_map.eq_iff] at h ⊢
  exact h

/-- Names are compared by the numbers of their characters. -/
theorem map_toNat_lt_iff {a b : List Char} : a.map Char.toNat < b.map Char.toNat ↔ a < b := by
  rw [← List.lex_lt, ← List.lex_lt, lex_map_iff toNat_injective]
  rfl

/-- The keys of steps are in the order of the steps. -/
theorem stepKey_lt_iff {s t : PathStep} : stepKey s < stepKey t ↔ s.Before t := by
  rw [PathStep.before_iff]
  cases s <;> cases t <;> simp [stepKey, PathStep.rank, List.cons_lt_cons_iff, map_toNat_lt_iff]

/-- `Path.Before a b`: the steps of `a` come before those of `b`, the first that differ deciding. -/
def Before (a b : String) : Prop := List.Lex PathStep.Before (steps a) (steps b)

/-- Paths are in the order of their keys. -/
theorem before_iff {a b : String} : Before a b ↔ key a < key b := by
  rw [key, key, ← List.lex_lt, lex_map_iff stepKey_injective]
  simp only [stepKey_lt_iff]
  rfl

/-- The comparison of paths that runs is that of their keys. -/
theorem le_iff {a b : String} : le a b = true ↔ key a ≤ key b := by
  have hstep : ∀ s t : List Nat, (s.lex t fun m n => decide (m < n)) = true ↔ s < t := by
    intro s t
    rw [List.lex_eq_true_iff_lex, ← List.lex_lt]
    simp only [decide_eq_true_iff]
  rw [le, Bool.not_eq_true', ← not_lt, ← Bool.not_eq_true, List.lex_eq_true_iff_lex, ← List.lex_lt]
  simp only [hstep]

instance : Std.Irrefl Before := ⟨fun a h => lt_irrefl (key a) (before_iff.1 h)⟩

instance : Std.Antisymm Before :=
  ⟨fun _ _ h h' => absurd (before_iff.1 h') (lt_asymm (before_iff.1 h))⟩

/-! ## Joining names -/

end Path

/-- There is always a piece, be it empty. -/
theorem slashPieces_ne_nil (u : List Char) : slashPieces u ≠ [] := by
  fun_cases slashPieces <;> simp_all

/-- A slash ends a piece. -/
theorem slashPieces_append_slash (u v : List Char) :
    slashPieces (u ++ '/' :: v) = slashPieces u ++ slashPieces v := by
  induction u with
  | nil => simp [slashPieces]
  | cons c u ih =>
    rw [List.cons_append, slashPieces, slashPieces, ih]
    by_cases hc : c = '/'
    · rw [if_pos hc, if_pos hc, List.cons_append]
    · rw [if_neg hc, if_neg hc]
      cases hu : slashPieces u with
      | nil => exact absurd hu (slashPieces_ne_nil u)
      | cons piece pieces => rfl

theorem slashPieces_of_not_mem {u : List Char} (h : '/' ∉ u) : slashPieces u = [u] := by
  induction u with
  | nil => rfl
  | cons c u ih =>
    obtain ⟨hc, hu⟩ := not_or.1 (mt List.mem_cons.2 h)
    rw [slashPieces, if_neg (Ne.symm hc), ih hu]

namespace Path

/-- `IsName name`: an entry of a directory can have this name. -/
structure IsName (name : String) : Prop where
  ne_nil : name.toList ≠ []
  ne_dot : name.toList ≠ ['.']
  ne_dots : name.toList ≠ ['.', '.']
  slash_notMem : '/' ∉ name.toList

instance : DecidablePred IsName := fun name =>
  decidable_of_iff (name.toList ≠ [] ∧ name.toList ≠ ['.'] ∧ name.toList ≠ ['.', '.'] ∧
    '/' ∉ name.toList) ⟨fun ⟨h, h₁, h₂, h₃⟩ => ⟨h, h₁, h₂, h₃⟩, fun ⟨h, h₁, h₂, h₃⟩ => ⟨h, h₁, h₂, h₃⟩⟩

theorem join_ne_empty {path : String} (hpath : path ≠ "") (name : String) : join path name ≠ "" := by
  rw [join]
  split <;> simp [hpath]

/-- A joined name is one more piece, behind the pieces of the path without its last slash. -/
theorem exists_slashPieces (path : String) {name : String} (hname : IsName name) :
    ∃ front last, front ≠ [] ∧ last.filterMap step? = [] ∧ slashPieces path.toList = front ++ last ∧
      slashPieces (join path name).toList = front ++ [name.toList] := by
  have hpieces := slashPieces_of_not_mem hname.slash_notMem
  rw [join]
  split
  · next hlast =>
    obtain ⟨u, hu⟩ := List.getLast?_eq_some_iff.1 hlast
    refine ⟨slashPieces u, [[]], slashPieces_ne_nil u, by simp [step?], ?_, ?_⟩
    · rw [hu, slashPieces_append_slash]
      rfl
    · rw [String.toList_append, hu, List.append_assoc, List.singleton_append,
        slashPieces_append_slash, hpieces]
  · refine ⟨slashPieces path.toList, [], slashPieces_ne_nil _, rfl, (List.append_nil _).symm, ?_⟩
    rw [String.toList_append, String.toList_append, List.append_assoc]
    exact (slashPieces_append_slash _ _).trans (congrArg _ hpieces)

/-- A path with a name added begins as it did. -/
theorem head?_join {path : String} (hpath : path ≠ "") (name : String) :
    (join path name).toList.head? = path.toList.head? := by
  have hne : path.toList ≠ [] := fun h => hpath (String.toList_inj.1 h)
  rw [join]
  split <;> simp [List.head?_append_of_ne_nil _ hne]

/-- A joined name is one more step. -/
theorem steps_join {path name : String} (hpath : path ≠ "") (hname : IsName name) :
    steps (join path name) = steps path ++ [.name name.toList] := by
  obtain ⟨front, last, hfront, hlast, hpath', hjoin⟩ := exists_slashPieces path hname
  have hstep : step? name.toList = some (.name name.toList) := by
    rw [step?, if_neg (not_or.2 ⟨hname.ne_nil, hname.ne_dot⟩), if_neg hname.ne_dots]
  simp only [steps, head?_join hpath, hpath', hjoin, List.head?_append_of_ne_nil _ hfront,
    List.filterMap_append, hlast, List.filterMap_cons_some hstep, List.filterMap_nil,
    List.append_nil, List.append_assoc]

/-- The path that leads from `root` down along names. -/
def below (root : String) (names : List String) : String := names.foldl join root

section

variable {root : String} {names names' : List String}

/-- The steps to what is below a root are those of the root and one for each name. -/
theorem steps_below (hroot : root ≠ "") (hnames : ∀ name ∈ names, IsName name) :
    steps (below root names) = steps root ++ names.map fun name => .name name.toList := by
  rw [below]
  induction names generalizing root with
  | nil => simp
  | cons name names ih =>
    obtain ⟨hname, hnames⟩ := List.forall_mem_cons.1 hnames
    rw [List.foldl_cons, ih (join_ne_empty hroot name) hnames, steps_join hroot hname,
      List.append_assoc]
    rfl

/-- The steps of a path below `root` tell the names on the way. -/
theorem key_below_inj (hroot : root ≠ "") (hnames : ∀ name ∈ names, IsName name)
    (hnames' : ∀ name ∈ names', IsName name) :
    key (below root names) = key (below root names') ↔ names = names' := by
  have hname : Function.Injective fun name : String => PathStep.name name.toList := fun _ _ h =>
    String.toList_inj.1 (PathStep.name.inj h)
  rw [key, key, stepKey_injective.list_map.eq_iff, steps_below hroot hnames,
    steps_below hroot hnames', List.append_cancel_left_eq, hname.list_map.eq_iff]

/-- Different names lead to different paths. -/
theorem below_injective (hroot : root ≠ "") (hnames : ∀ name ∈ names, IsName name)
    (hnames' : ∀ name ∈ names', IsName name) (h : below root names = below root names') :
    names = names' :=
  (key_below_inj hroot hnames hnames').1 (congrArg key h)

end

/-! ## Extensions -/

/-- The extension is what follows the last dot, if something stands before that dot. -/
theorem extension?_eq_some_iff {name ext : List Char} :
    extension? name = some ext ↔ '.' ∉ ext ∧ ∃ stem, stem ≠ [] ∧ name = stem ++ '.' :: ext := by
  constructor
  · intro h
    rw [extension?] at h
    split at h
    · cases h
    · cases h
    · next hnil hsingle =>
      rw [← Option.some.inj h]
      refine ⟨fun hdot => ?_, ?_⟩
      · have hne := List.all_eq_true.1 List.all_takeWhile _ (List.mem_reverse.1 hdot)
        exact absurd hne (by simp)
      · -- Read backwards, the name is cut at its first dot.
        have hcut := List.takeWhile_append_dropWhile (p := (· ≠ '.')) (l := name.reverse)
        have hhead := List.head?_dropWhile_not (· ≠ '.') name.reverse
        cases hdrop : name.reverse.dropWhile (· ≠ '.') with
        | nil => exact absurd hdrop hnil
        | cons c stem =>
          rw [hdrop] at hcut hhead
          have hc : c = '.' := by simpa using hhead
          refine ⟨stem.reverse, fun hstem => ?_, ?_⟩
          · rw [List.reverse_eq_nil_iff.1 hstem] at hdrop
            exact hsingle _ hdrop
          · have hname := congrArg List.reverse hcut
            rw [List.reverse_reverse, List.reverse_append, List.reverse_cons, List.append_assoc,
              hc] at hname
            exact hname.symm
  · rintro ⟨hext, stem, hstem, rfl⟩
    have hrun : ∀ c ∈ ext.reverse, decide (c ≠ '.') = true := fun c hc =>
      decide_eq_true fun h => hext (h ▸ List.mem_reverse.1 hc)
    have hreverse : (stem ++ '.' :: ext).reverse = ext.reverse ++ '.' :: stem.reverse := by simp
    have htake : (stem ++ '.' :: ext).reverse.takeWhile (· ≠ '.') = ext.reverse := by
      rw [hreverse, List.takeWhile_append_of_pos hrun]
      simp
    have hdrop : (stem ++ '.' :: ext).reverse.dropWhile (· ≠ '.') = '.' :: stem.reverse := by
      rw [hreverse, List.dropWhile_append_of_pos hrun]
      simp
    rw [extension?, htake, hdrop]
    cases hrev : stem.reverse with
    | nil => exact absurd (List.reverse_eq_nil_iff.1 hrev) hstem
    | cons c rest => exact congrArg some (List.reverse_reverse ext)

section

variable {root : String} {names : List String} {name : String}

/-- Below `root`, the last name decides whether a path is that of a source file. -/
theorem isPieFile_below (hroot : root ≠ "") (hnames : ∀ n ∈ names ++ [name], IsName n) :
    isPieFile (below root (names ++ [name])) = true ↔ ∃ stem, stem ≠ "" ∧ name = stem ++ ".pie" := by
  rw [isPieFile, steps_below hroot hnames, List.map_append, List.map_singleton, ← List.append_assoc,
    List.getLast?_concat]
  simp only [decide_eq_true_iff]
  rw [extension?_eq_some_iff, and_iff_right (by decide)]
  constructor
  · rintro ⟨stem, hstem, hname⟩
    have hlist : (String.ofList stem).toList = stem := String.toList_ofList
    refine ⟨String.ofList stem, fun h => hstem ?_, String.toList_inj.1 ?_⟩
    · rw [← hlist, h]
      rfl
    · rw [hname, String.toList_append, hlist]
      rfl
  · rintro ⟨stem, hstem, rfl⟩
    exact ⟨stem.toList, fun h => hstem (String.toList_inj.1 h), String.toList_append⟩

end

end Path

end PieSyntax
