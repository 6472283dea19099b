/-
# Found files

Which files discovery finds, and in which order.  A walk meets every entry at or below its root once, in
an order that nothing is known about (`FileTree.IsWalk`); in a tree whose directories hold each name
once, the path of an entry tells where it stands.  Main statements: the walk through a tree meets all of
it (`FileTree.isWalk_walk`), a path is resolved before anything else and is never a link
(`FileSystem.find?_ne_link`), and what discovery finds does not depend on the walk that it takes
(`FileSystem.findsExactly`).
-/
import Mathlib.Data.List.Sort
import PieSyntax.Discovery
import PieSyntax.Proofs.Paths

namespace PieSyntax

/-! ## Locations -/

namespace FileTree

variable {t u : FileTree} {name : String} {names : List String}

/-- Only directories have entries. -/
theorem exists_of_child? (h : t.child? name = some u) :
    ∃ entries, t = directory entries ∧ entries.lookup name = some u := by
  cases t with
  | directory entries => exact ⟨entries, rfl, h⟩
  | file => cases h
  | link => cases h

/-- A descent can be made in two parts. -/
theorem at?_append (t : FileTree) (names names' : List String) :
    t.at? (names ++ names') = (t.at? names).bind fun u => u.at? names' := by
  induction names generalizing t with
  | nil => rfl
  | cons name names ih =>
    rw [List.cons_append, at?, at?]
    cases t.child? name with
    | none => rfl
    | some child => exact ih child

/-- One name leads down from a directory to one of its entries. -/
theorem at?_concat {entries : List (String × FileTree)} (h : t.at? names = some (directory entries))
    (name : String) : t.at? (names ++ [name]) = entries.lookup name := by
  rw [at?_append, h]
  exact Option.bind_fun_some _

theorem at?_ne_link {entries : List (String × FileTree)} (h : t.at? names = some (directory entries)) :
    ∀ target, t.at? names ≠ some (link target) := by
  intro target hlink
  rw [h] at hlink
  cases hlink

/-- What a directory stands in is a directory. -/
theorem exists_of_at?_directory {entries : List (String × FileTree)}
    (h : t.at? names = some (directory entries)) : ∃ above, t = directory above := by
  cases names with
  | nil => exact ⟨entries, Option.some.inj h⟩
  | cons name names =>
    rw [at?] at h
    obtain ⟨child, hchild, -⟩ := Option.bind_eq_some_iff.1 h
    obtain ⟨above, rfl, -⟩ := exists_of_child? hchild
    exact ⟨above, rfl⟩

/-- A directory stands in a directory. -/
theorem exists_at?_dropLast {entries : List (String × FileTree)}
    (h : t.at? names = some (directory entries)) :
    ∃ above, t.at? names.dropLast = some (directory above) := by
  rcases List.eq_nil_or_concat' names with rfl | ⟨front, name, rfl⟩
  · exact ⟨entries, h⟩
  · rw [at?_append] at h
    obtain ⟨u, hu, hname⟩ := Option.bind_eq_some_iff.1 h
    obtain ⟨above, rfl⟩ := exists_of_at?_directory hname
    exact ⟨above, by rw [List.dropLast_concat, hu]⟩

end FileTree

namespace FileSystem

/-- At the end of a path that is followed there is no link. -/
theorem at?_ne_link_of_follow? {root : FileTree} {fresh : Bool} {links : Nat}
    {here path location : List String} (h : follow? root fresh links here path = some location)
    (hhere : path = [] → ∀ target, root.at? here ≠ some (.link target)) :
    ∀ target, root.at? location ≠ some (.link target) := by
  fun_induction follow? root fresh links here path with
  | case1 links here =>
    rw [← Option.some.inj h]
    exact hhere rfl
  | case2 links here piece rest entries hat _ ih => exact ih h fun _ => FileTree.at?_ne_link hat
  | case3 links here rest entries hat _ ih =>
    obtain ⟨above, habove⟩ := FileTree.exists_at?_dropLast hat
    exact ih h fun _ => FileTree.at?_ne_link habove
  | case4 links here piece rest entries hat _ _ hlookup =>
    intro target hlink
    rw [← Option.some.inj h, FileTree.at?_concat hat, hlookup] at hlink
    cases hlink
  | case5 => cases h
  | case6 => cases h
  | case7 here piece rest entries hat _ _ target links _ ih =>
    -- The target of a link starts from the root or from the directory that the link is in.
    refine ih h fun _ => ?_
    rw [origin]
    split
    · obtain ⟨above, rfl⟩ := FileTree.exists_of_at?_directory hat
      have hroot : (FileTree.directory above).at? [] = some (.directory above) := rfl
      exact FileTree.at?_ne_link hroot
    · exact FileTree.at?_ne_link hat
  | case8 here piece rest entries hat _ _ u links hzero hsucc hlookup ih =>
    refine ih h fun _ target hlink => ?_
    rw [FileTree.at?_concat hat, hlookup] at hlink
    obtain rfl := Option.some.inj hlink
    cases links with
    | zero => exact hzero target rfl rfl
    | succ links => exact hsucc target links rfl rfl
  | case9 => cases h

/-- What stands at a path is never a link: the path is followed to the end. -/
theorem find?_ne_link (fs : FileSystem) (path target : String) : fs.find? path ≠ some (.link target) := by
  intro h
  rw [find?, locate?] at h
  split at h
  · cases h
  · obtain ⟨location, hfollow, hat⟩ := Option.bind_eq_some_iff.1 h
    refine at?_ne_link_of_follow? hfollow (fun hnil => ?_) target hat
    exact absurd (List.map_eq_nil_iff.1 hnil) (slashPieces_ne_nil _)

/-- Nothing stands at the empty path. -/
theorem ne_empty_of_find? {fs : FileSystem} {path : String} {t : FileTree}
    (h : fs.find? path = some t) : path ≠ "" := by
  rintro rfl
  cases h

end FileSystem

/-! ## Trees -/

namespace FileTree

variable {t u : FileTree} {name path : String} {names : List String}
  {entries : List (String × FileTree)} {v : Visit}

mutual

/-- `t.WellFormed`: every directory holds a name once, and all names are names of entries. -/
def WellFormed : FileTree → Prop
  | file _ => True
  | directory entries => (entries.map Prod.fst).Nodup ∧ WellFormedIn entries
  | link _ => True

/-- The entries have proper names and are well-formed. -/
def WellFormedIn : List (String × FileTree) → Prop
  | [] => True
  | (name, t) :: rest => Path.IsName name ∧ t.WellFormed ∧ WellFormedIn rest

end

theorem mem_keys_of_lookup (h : entries.lookup name = some u) : name ∈ entries.map Prod.fst := by
  obtain ⟨front, back, rfl, -⟩ := List.lookup_eq_some_iff.1 h
  simp

/-- What a directory holds has a name and is well-formed. -/
theorem WellFormedIn.lookup (h : WellFormedIn entries) (hlookup : entries.lookup name = some u) :
    Path.IsName name ∧ u.WellFormed := by
  induction entries with
  | nil => cases hlookup
  | cons entry entries ih =>
    obtain ⟨other, t⟩ := entry
    obtain ⟨hname, ht, hrest⟩ := h
    rw [List.lookup_cons] at hlookup
    split at hlookup
    · next hsame =>
      rw [beq_iff_eq.1 hsame, ← Option.some.inj hlookup]
      exact ⟨hname, ht⟩
    · exact ih hrest hlookup

/-- On the way down a well-formed tree there are names only, and every part of it is well-formed. -/
theorem WellFormed.at? (h : t.WellFormed) (hat : t.at? names = some u) :
    (∀ name ∈ names, Path.IsName name) ∧ u.WellFormed := by
  induction names generalizing t with
  | nil =>
    rw [← Option.some.inj hat]
    exact ⟨fun _ hname => absurd hname List.not_mem_nil, h⟩
  | cons name names ih =>
    rw [FileTree.at?] at hat
    obtain ⟨child, hchild, hrest⟩ := Option.bind_eq_some_iff.1 hat
    obtain ⟨entries, rfl, hlookup⟩ := exists_of_child? hchild
    obtain ⟨hname, hwell⟩ := h.2.lookup hlookup
    obtain ⟨hnames, hu⟩ := ih hwell hrest
    exact ⟨List.forall_mem_cons.2 ⟨hname, hnames⟩, hu⟩

/-! ## Walks -/

/-- `t.Meets root v`: an entry at or below `root`, where `t` stands, is visited by `v`. -/
def Meets (t : FileTree) (root : String) (v : Visit) : Prop :=
  ∃ names u, t.at? names = some u ∧ v = .entry (Path.below root names) u.kind

/-- `t.IsWalk root walk`: the walk meets every entry at or below `root`, where `t` stands, exactly
once, in some order, and nothing else. -/
structure IsWalk (t : FileTree) (root : String) (walk : List Visit) : Prop where
  nodup : walk.Nodup
  mem_iff : ∀ v, v ∈ walk ↔ t.Meets root v

/-- A walk that misses nothing meets no fault. -/
theorem IsWalk.fault_notMem {root : String} {walk : List Visit} (h : t.IsWalk root walk) :
    Visit.fault ∉ walk := by
  intro hmem
  obtain ⟨_, _, -, hv⟩ := (h.mem_iff _).1 hmem
  cases hv

/-- Nothing is below a tree without children. -/
theorem at?_of_no_child (h : ∀ name, t.child? name = none) :
    t.at? names = some u ↔ names = [] ∧ u = t := by
  cases names with
  | nil => simp [FileTree.at?, eq_comm]
  | cons name names => simp [FileTree.at?, h]

/-- Where there are no entries, the root is all that there is to visit. -/
theorem meets_of_no_child (h : ∀ name, t.child? name = none) :
    t.Meets path v ↔ v = .entry path t.kind := by
  simp [Meets, at?_of_no_child h, Path.below]

/-- To visit a directory is to visit its root, or something in one of its entries. -/
theorem meets_directory : (directory entries).Meets path v ↔ v = .entry path .directory ∨
    ∃ name child, entries.lookup name = some child ∧ child.Meets (Path.join path name) v := by
  constructor
  · rintro ⟨names, u, hat, rfl⟩
    cases names with
    | nil => exact .inl (by rw [← Option.some.inj hat]; rfl)
    | cons name names =>
      rw [FileTree.at?] at hat
      obtain ⟨child, hchild, hat⟩ := Option.bind_eq_some_iff.1 hat
      exact .inr ⟨name, child, hchild, names, u, hat, rfl⟩
  · rintro (rfl | ⟨name, child, hlookup, names, u, hat, rfl⟩)
    · exact ⟨[], _, rfl, rfl⟩
    · exact ⟨name :: names, u, Option.bind_eq_some_iff.2 ⟨child, hlookup, hat⟩, rfl⟩

mutual

/-- A tree has no faults. -/
theorem fault_notMem_walk : ∀ (t : FileTree) (path : String), Visit.fault ∉ t.walk path
  | file _, _ => by simp [walk]
  | directory entries, path => by simp [walk, fault_notMem_walkIn entries path]
  | link _, _ => by simp [walk]

theorem fault_notMem_walkIn : ∀ (entries : List (String × FileTree)) (path : String),
    Visit.fault ∉ walkIn path entries
  | [], _ => by simp [walkIn]
  | (name, t) :: rest, path => by
    simp [walkIn, fault_notMem_walk t, fault_notMem_walkIn rest path]

end

mutual

/-- A walk through a well-formed tree meets what there is to visit. -/
theorem mem_walk_iff : ∀ (t : FileTree) {path : String} {v : Visit}, t.WellFormed →
    (v ∈ t.walk path ↔ t.Meets path v)
  | file content, path, v, _ => by
    rw [walk, List.mem_singleton, meets_of_no_child fun _ => rfl]
    rfl
  | directory entries, path, v, h => by
    rw [walk, List.mem_cons, meets_directory, mem_walkIn_iff entries h.1 h.2]
  | link target, path, v, _ => by
    rw [walk, List.mem_singleton, meets_of_no_child fun _ => rfl]
    rfl

/-- A walk through the entries of a directory meets what is at or below one of them. -/
theorem mem_walkIn_iff : ∀ (entries : List (String × FileTree)) {path : String} {v : Visit},
    (entries.map Prod.fst).Nodup → WellFormedIn entries → (v ∈ walkIn path entries ↔
      ∃ name child, entries.lookup name = some child ∧ child.Meets (Path.join path name) v)
  | [], path, v, _, _ => by simp [walkIn]
  | (name, t) :: rest, path, v, hnodup, h => by
    rw [List.map_cons, List.nodup_cons] at hnodup
    rw [walkIn, List.mem_append, mem_walk_iff t h.2.1, mem_walkIn_iff rest hnodup.2 h.2.2]
    constructor
    · rintro (hv | ⟨other, child, hlookup, hv⟩)
      · exact ⟨name, t, List.lookup_cons_self, hv⟩
      · have hne : other ≠ name := fun hsame => hnodup.1 (hsame ▸ mem_keys_of_lookup hlookup)
        refine ⟨other, child, ?_, hv⟩
        rw [List.lookup_cons, beq_false_of_ne hne]
        exact hlookup
    · rintro ⟨other, child, hlookup, hv⟩
      rw [List.lookup_cons] at hlookup
      split at hlookup
      · next hsame =>
        rw [beq_iff_eq.1 hsame, ← Option.some.inj hlookup] at hv
        exact .inl hv
      · exact .inr ⟨other, child, hlookup, hv⟩

end

/-- A path tells where its entry stands. -/
theorem names_eq_of_key (h : t.WellFormed) (hpath : path ≠ "") {names' : List String} {u' : FileTree}
    (hat : t.at? names = some u) (hat' : t.at? names' = some u')
    (hkey : Path.key (Path.below path names) = Path.key (Path.below path names')) :
    names = names' :=
  (Path.key_below_inj hpath (h.at? hat).1 (h.at? hat').1).1 hkey

/-- An entry stands below one name of a directory only. -/
theorem name_eq_of_meets {other : String} (hpath : path ≠ "") (hname : Path.IsName name)
    (hother : Path.IsName other) (ht : t.WellFormed) (hu : u.WellFormed)
    (hmeets : t.Meets (Path.join path name) v) (hmeets' : u.Meets (Path.join path other) v) :
    name = other := by
  obtain ⟨names, t', hat, rfl⟩ := hmeets
  obtain ⟨names', u', hat', hsame⟩ := hmeets'
  have hnames := List.forall_mem_cons.2 ⟨hname, (ht.at? hat).1⟩
  have hnames' := List.forall_mem_cons.2 ⟨hother, (hu.at? hat').1⟩
  exact (List.cons.inj (Path.below_injective hpath hnames hnames' (Visit.entry.inj hsame).1)).1

mutual

/-- A walk through a well-formed tree meets nothing twice. -/
theorem nodup_walk : ∀ (t : FileTree) {path : String}, path ≠ "" → t.WellFormed → (t.walk path).Nodup
  | file _, path, _, _ => List.nodup_singleton _
  | directory entries, path, hpath, h => by
    rw [walk, List.nodup_cons, mem_walkIn_iff entries h.1 h.2]
    refine ⟨?_, nodup_walkIn entries hpath h.1 h.2⟩
    rintro ⟨name, child, hlookup, names, u, hat, hsame⟩
    have hbelow : (directory entries).at? (name :: names) = some u :=
      Option.bind_eq_some_iff.2 ⟨child, hlookup, hat⟩
    have hkey := congrArg Path.key (Visit.entry.inj hsame).1
    have hhere : (directory entries).at? [] = some (directory entries) := rfl
    exact List.cons_ne_nil _ _ (names_eq_of_key h hpath hbelow hhere hkey.symm)
  | link _, path, _, _ => List.nodup_singleton _

theorem nodup_walkIn : ∀ (entries : List (String × FileTree)) {path : String}, path ≠ "" →
    (entries.map Prod.fst).Nodup → WellFormedIn entries → (walkIn path entries).Nodup
  | [], _, _, _, _ => List.nodup_nil
  | (name, t) :: rest, path, hpath, hnodup, h => by
    rw [List.map_cons, List.nodup_cons] at hnodup
    rw [walkIn, List.nodup_append]
    refine ⟨nodup_walk t (Path.join_ne_empty hpath name) h.2.1,
      nodup_walkIn rest hpath hnodup.2 h.2.2, ?_⟩
    rintro v hv _ hv' rfl
    obtain ⟨other, child, hlookup, hmeets⟩ := (mem_walkIn_iff rest hnodup.2 h.2.2).1 hv'
    obtain ⟨hother, hchild⟩ := h.2.2.lookup hlookup
    have hsame := name_eq_of_meets hpath h.1 hother h.2.1 hchild ((mem_walk_iff t h.2.1).1 hv) hmeets
    exact hnodup.1 (hsame ▸ mem_keys_of_lookup hlookup)

end

/-- The walk through a well-formed tree misses nothing. -/
theorem isWalk_walk (h : t.WellFormed) (hpath : path ≠ "") : t.IsWalk path (t.walk path) :=
  ⟨nodup_walk t hpath h, fun _ => mem_walk_iff t h⟩

end FileTree

/-! ## Source files -/

/-- The source file that is found by a visit. -/
def Visit.source? : Visit → Option String
  | .entry path kind => if kind = .file ∧ Path.isPieFile path then some path else none
  | .fault => none

section

variable {root : String} {walk : List Visit}

/-- A fault anywhere in the walk is blamed on the root. -/
theorem sourceEntries_of_fault (h : Visit.fault ∈ walk) :
    sourceEntries root walk = .error (.unreadable root) := by
  induction walk with
  | nil => exact absurd h List.not_mem_nil
  | cons v walk ih =>
    cases v with
    | fault => rfl
    | entry path kind =>
      have hrest : Visit.fault ∈ walk := by simpa using h
      rw [sourceEntries, ih hrest]
      rfl

/-- Without a fault, the source files of the walk are found in its order. -/
theorem sourceEntries_of_no_fault (h : Visit.fault ∉ walk) :
    sourceEntries root walk = .ok (walk.filterMap Visit.source?) := by
  induction walk with
  | nil => rfl
  | cons v walk ih =>
    obtain ⟨hv, hrest⟩ := not_or.1 (mt List.mem_cons.2 h)
    cases v with
    | fault => exact absurd rfl hv
    | entry path kind =>
      rw [sourceEntries, ih hrest, List.filterMap_cons, Visit.source?]
      by_cases hsource : kind = .file ∧ Path.isPieFile path = true
      · simp only [if_pos hsource]
        rfl
      · simp only [if_neg hsource]
        rfl

/-- A file stands for itself, whatever a walk would meet. -/
@[simp] theorem discover_file (root : String) (walk : List Visit) : discover root true walk = .ok [root] :=
  rfl

/-- A fault leaves nothing of what was found. -/
@[simp] theorem discover_of_fault (h : Visit.fault ∈ walk) :
    discover root false walk = .error (.unreadable root) := by
  rw [discover, if_neg Bool.false_ne_true, sourceEntries_of_fault h]
  rfl

/-- Below a directory without faults, the source files of the walk are found, sorted. -/
theorem discover_of_no_fault (h : Visit.fault ∉ walk) :
    discover root false walk = .ok ((walk.filterMap Visit.source?).mergeSort Path.le) := by
  rw [discover, if_neg Bool.false_ne_true, sourceEntries_of_no_fault h]
  rfl

end

namespace FileTree

variable {t : FileTree} {root path : String} {entries : List (String × FileTree)} {walk : List Visit}

theorem exists_of_kind_eq_file (h : t.kind = .file) : ∃ content, t = file content := by
  cases t with
  | file content => exact ⟨content, rfl⟩
  | directory => cases h
  | link => cases h

/-- `t.HasSource root path`: below `root`, where `t` stands, a file stands at `path`, and its name is
something before `.pie`. -/
def HasSource (t : FileTree) (root path : String) : Prop :=
  ∃ names stem content, stem ≠ "" ∧ t.at? (names ++ [stem ++ ".pie"]) = some (.file content) ∧
    path = Path.below root (names ++ [stem ++ ".pie"])

/-- Below a directory, what is found is what the tree holds. -/
theorem mem_sources_iff (ht : (directory entries).WellFormed) (hroot : root ≠ "")
    (hwalk : (directory entries).IsWalk root walk) :
    path ∈ walk.filterMap Visit.source? ↔ (directory entries).HasSource root path := by
  rw [List.mem_filterMap]
  constructor
  · rintro ⟨v, hv, hsource⟩
    obtain ⟨names, u, hat, rfl⟩ := (hwalk.mem_iff v).1 hv
    rw [Visit.source?, ite_eq_iff] at hsource
    obtain ⟨⟨hkind, hpie⟩, hpath⟩ | ⟨_, hnone⟩ := hsource
    · obtain ⟨content, rfl⟩ := exists_of_kind_eq_file hkind
      rcases List.eq_nil_or_concat' names with rfl | ⟨front, name, rfl⟩
      · cases hat
      · obtain ⟨stem, hstem, rfl⟩ := (Path.isPieFile_below hroot (ht.at? hat).1).1 hpie
        exact ⟨front, stem, content, hstem, hat, (Option.some.inj hpath).symm⟩
    · cases hnone
  · rintro ⟨names, stem, content, hstem, hat, rfl⟩
    have hpie := (Path.isPieFile_below hroot (ht.at? hat).1).2 ⟨stem, hstem, rfl⟩
    exact ⟨_, (hwalk.mem_iff _).2 ⟨_, _, hat, rfl⟩, if_pos ⟨rfl, hpie⟩⟩

/-- No two of the files that are found have the same steps. -/
theorem pairwise_key_ne (ht : t.WellFormed) (hroot : root ≠ "") (hwalk : t.IsWalk root walk) :
    (walk.filterMap Visit.source?).Pairwise fun a b => Path.key a ≠ Path.key b := by
  rw [List.pairwise_filterMap]
  refine List.Pairwise.imp_of_mem ?_ hwalk.nodup
  rintro v v' hv hv' hne a ha b hb hkey
  obtain ⟨names, u, hat, rfl⟩ := (hwalk.mem_iff v).1 hv
  obtain ⟨names', u', hat', rfl⟩ := (hwalk.mem_iff v').1 hv'
  rw [Visit.source?, Option.ite_none_right_eq_some, Option.some_inj] at ha hb
  rw [← ha.2, ← hb.2] at hkey
  obtain rfl := names_eq_of_key ht hroot hat hat' hkey
  rw [hat, Option.some_inj] at hat'
  exact hne (by rw [hat'])

/-- What is found is sorted strictly. -/
theorem pairwise_before (ht : t.WellFormed) (hroot : root ≠ "") (hwalk : t.IsWalk root walk) :
    ((walk.filterMap Visit.source?).mergeSort Path.le).Pairwise Path.Before := by
  have htrans : ∀ a b c, Path.le a b = true → Path.le b c = true → Path.le a c = true :=
    fun _ _ _ hab hbc => Path.le_iff.2 (le_trans (Path.le_iff.1 hab) (Path.le_iff.1 hbc))
  have htotal : ∀ a b, (Path.le a b || Path.le b a) = true := fun a b => by
    rw [Bool.or_eq_true, Path.le_iff, Path.le_iff]
    exact le_total (Path.key a) (Path.key b)
  have hsorted := List.pairwise_mergeSort htrans htotal (walk.filterMap Visit.source?)
  have hdistinct := (List.mergeSort_perm _ Path.le).symm.pairwise (pairwise_key_ne ht hroot hwalk)
    fun hne => hne.symm
  refine (hsorted.and hdistinct).imp fun hab => ?_
  exact Path.before_iff.2 (lt_of_le_of_ne (Path.le_iff.1 hab.1) hab.2)

end FileTree

/-! ## Discovery -/

namespace FileSystem

variable {fs : FileSystem} {root : String} {t : FileTree}

theorem wellFormed_of_find? (hfs : fs.root.WellFormed) (h : fs.find? root = some t) : t.WellFormed := by
  obtain ⟨location, -, hat⟩ := Option.bind_eq_some_iff.1 h
  exact (hfs.at? hat).2

/-- A path is that of a file exactly if a file is found there. -/
theorem isFile_iff : fs.isFile root = true ↔ ∃ content, fs.find? root = some (.file content) := by
  rw [isFile]
  split <;> simp_all

-- Where it is known what stands at a path, both are computed from it.
attribute [simp] isFile walk

/-- A path that leads nowhere cannot be read. -/
theorem sourceFiles_of_none (h : fs.find? root = none) :
    fs.sourceFiles root = .error (.unreadable root) := by
  simp [sourceFiles, h]

/-- Discovery goes well wherever something stands. -/
theorem exists_sourceFiles (h : fs.find? root = some t) : ∃ files, fs.sourceFiles root = .ok files := by
  rw [sourceFiles, walk, h]
  cases fs.isFile root with
  | true => exact ⟨_, discover_file root _⟩
  | false => exact ⟨_, discover_of_no_fault (FileTree.fault_notMem_walk t root)⟩

/-- `fs.FindsExactly root`: what discovery finds at or below `root`. -/
structure FindsExactly (fs : FileSystem) (root : String) : Prop where
  /-- A link at `root` is followed. -/
  resolved : ∀ target, fs.find? root ≠ some (.link target)
  /-- A file stands for itself, whatever its name. -/
  file : ∀ content, fs.find? root = some (.file content) →
    ∀ walk, discover root (fs.isFile root) walk = .ok [root]
  /-- From a directory every walk that misses nothing leads to the same files: those below the
  directory whose names end in `.pie`, with something before it, sorted strictly. -/
  directory : ∀ entries, fs.find? root = some (.directory entries) → ∃ files,
    files.Pairwise Path.Before ∧
    (∀ path, path ∈ files ↔ (FileTree.directory entries).HasSource root path) ∧
    ∀ walk, (FileTree.directory entries).IsWalk root walk →
      discover root (fs.isFile root) walk = .ok files
  /-- A fault on the way leaves nothing. -/
  fault : (∀ content, fs.find? root ≠ some (.file content)) → ∀ walk, Visit.fault ∈ walk →
    discover root (fs.isFile root) walk = .error (.unreadable root)
  /-- The walk that is taken misses nothing. -/
  walk : ∀ t, fs.find? root = some t → t.IsWalk root (fs.walk root)
  /-- Where nothing stands, there is a fault. -/
  missing : fs.find? root = none → Visit.fault ∈ fs.walk root
  sourceFiles : fs.sourceFiles root = discover root (fs.isFile root) (fs.walk root)

/-- **Discovery.**  A path to a file is found as it is.  From a directory, or a link to one, the source
files below it are found, each once and in the order of paths, whatever the order of the walk; and a walk
that meets a fault finds nothing at all. -/
theorem findsExactly (hfs : fs.root.WellFormed) (root : String) : fs.FindsExactly root where
  resolved := fs.find?_ne_link root
  file content h walk := by rw [isFile, h, discover_file]
  directory entries h := by
    have hroot := ne_empty_of_find? h
    have ht := wellFormed_of_find? hfs h
    have hwalk := FileTree.isWalk_walk ht hroot
    refine ⟨_, FileTree.pairwise_before ht hroot hwalk, fun path => ?_, fun walk hwalk' => ?_⟩
    · rw [List.mem_mergeSort, FileTree.mem_sources_iff ht hroot hwalk]
    · rw [isFile, h, discover_of_no_fault hwalk'.fault_notMem]
      refine congrArg Except.ok (List.Pairwise.eq_of_mem_iff
        (FileTree.pairwise_before ht hroot hwalk') (FileTree.pairwise_before ht hroot hwalk) ?_)
      intro path
      rw [List.mem_mergeSort, List.mem_mergeSort, FileTree.mem_sources_iff ht hroot hwalk',
        FileTree.mem_sources_iff ht hroot hwalk]
  fault h walk hwalk := by
    have hfile : fs.isFile root = false :=
      Bool.eq_false_iff.2 fun hfile => (isFile_iff.1 hfile).elim h
    rw [hfile, discover_of_fault hwalk]
  walk t h := by
    rw [FileSystem.walk, h]
    exact FileTree.isWalk_walk (wellFormed_of_find? hfs h) (ne_empty_of_find? h)
  missing h := by
    rw [FileSystem.walk, h]
    exact List.mem_singleton_self _
  sourceFiles := rfl

/-- A link leads to a directory, and what is below `a` comes before `a.pie`. -/
theorem findsExactly_linked :
    let lib : FileTree := .directory [("a.pie", .file []), ("a", .directory [("b.pie", .file [])]),
      ("x.pie", .directory []), (".pie", .file []), ("l.pie", .link "a.pie"), ("b.txt", .file [])]
    let fs : FileSystem := ⟨.directory [("lib", lib), ("to", .link "lib")], []⟩
    fs.FindsExactly "to" ∧ fs.sourceFiles "to" = .ok ["to/a/b.pie", "to/a.pie"] := by
  intro lib fs
  have hnames : ∀ name ∈ ["a.pie", "a", "b.pie", "x.pie", ".pie", "l.pie", "b.txt", "lib", "to"],
      Path.IsName name := by decide +kernel
  have hfs : fs.root.WellFormed := by
    simp only [List.forall_mem_cons] at hnames
    simp [fs, lib, FileTree.WellFormed, FileTree.WellFormedIn, hnames]
  have hfind : fs.find? "to" = some lib := by
    have hpieces : ∀ name ∈ ["to", "lib"], pieces name = [name] ∧ origin [] name = [] ∧ name ≠ "" ∧
        name ≠ "." ∧ name ≠ ".." := by decide +kernel
    have hlimit : linkLimit = 39 + 1 := rfl
    simp only [List.forall_mem_cons] at hpieces
    simp [find?, locate?, follow?, fs, lib, hpieces, hlimit, FileTree.at?, FileTree.child?,
      List.lookup_cons]
  have hsources : (lib.walk "to").filterMap Visit.source? = ["to/a.pie", "to/a/b.pie"] := by
    decide +kernel
  have horder : Path.le "to/a.pie" "to/a/b.pie" = false := by decide +kernel
  refine ⟨findsExactly hfs "to", ?_⟩
  rw [sourceFiles, isFile, walk, hfind]
  rw [discover_of_no_fault (FileTree.fault_notMem_walk _ _), hsources]
  simp [List.mergeSort, horder]

end FileSystem

end PieSyntax
