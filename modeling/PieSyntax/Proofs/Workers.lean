/-
# Workers that share a batch

A batch of files is cut into chunks, one for each worker, and the workers go on side by side in an order
that nobody knows.  The verdicts of all workers are joined in the order in which these were started.
`Pool.Step` lets any one of them check its next file; a step changes no verdict of the whole
(`Pool.verdicts_of_step`), hence neither does a run (`Pool.verdicts_of_run`).  Main statement: whatever
the number of jobs and the order of steps, a batch has the verdicts of its files one after the other
(`checkFiles_is_sequential`).
-/
import PieSyntax.Check

namespace PieSyntax

/-! ## Chunks -/

section Chunks

variable {α : Type} {size : Nat} {l : List α}

theorem ne_nil_of_mem_chunksOf {chunk : List α} (h : chunk ∈ chunksOf size l) : chunk ≠ [] := by
  fun_induction chunksOf size l with
  | case1 => cases h
  | case2 a rest ih =>
    rcases List.mem_cons.1 h with rfl | h
    · exact List.cons_ne_nil _ _
    · exact ih h

/-- There are no more chunks than elements. -/
theorem length_chunksOf_le : (chunksOf size l).length ≤ l.length := by
  fun_induction chunksOf size l with
  | case1 => exact Nat.le_refl 0
  | case2 a rest ih =>
    rw [List.length_drop] at ih
    simp only [List.length_cons]
    omega

/-- What fits into `k` chunks is cut into no more. -/
theorem length_chunksOf_le_of_le {k : Nat} (h : l.length ≤ k * size) :
    (chunksOf size l).length ≤ k := by
  fun_induction chunksOf size l generalizing k with
  | case1 => exact Nat.zero_le k
  | case2 a rest ih =>
    cases k with
    | zero => simp at h
    | succ k =>
      rw [List.length_cons, Nat.succ_mul] at h
      have hrest := @ih k (by rw [List.length_drop]; omega)
      rw [List.length_cons]
      omega

end Chunks

/-- The share of each worker is large enough for all files to be shared out. -/
theorem le_mul_share {jobs : Nat} (hjobs : 0 < jobs) (n : Nat) :
    n ≤ jobs * ((n + jobs - 1) / jobs) := by
  have hdiv := Nat.div_add_mod (n + jobs - 1) jobs
  have hmod := Nat.mod_lt (n + jobs - 1) hjobs
  omega

/-- There are no more workers than jobs, nor than files. -/
theorem length_workerChunks_le {jobs : Nat} (hjobs : 0 < jobs) (paths : List String) :
    (workerChunks jobs paths).length ≤ min jobs paths.length :=
  Nat.le_min.2 ⟨length_chunksOf_le_of_le (le_mul_share hjobs paths.length), length_chunksOf_le⟩

theorem flatten_workerChunks (jobs : Nat) (paths : List String) :
    (workerChunks jobs paths).flatten = paths :=
  flatten_chunksOf _ _

/-! ## Workers -/

/-- A worker: the files that it has not checked yet, and its verdicts. -/
structure Worker where
  waiting : List String
  reports : List FileReport := []

/-- The workers, in the order in which they were started. -/
abbrev Pool := List Worker

namespace Pool

section Steps

variable (fs : FileSystem) (settings : Settings)

/-- One worker checks its next file; the others stand still. -/
inductive Step : Pool → Pool → Prop
  | check {before path waiting reports after} :
      Step (before ++ ⟨path :: waiting, reports⟩ :: after)
        (before ++ ⟨waiting, reports ++ [.ofFile fs settings path]⟩ :: after)

/-- `Run fs settings n pool last`: the workers come from `pool` to `last` in `n` steps. -/
inductive Run : Nat → Pool → Pool → Prop
  | refl {pool} : Run 0 pool pool
  | cons {n pool next last} (hstep : Step fs settings pool next) (hrun : Run n next last) :
      Run (n + 1) pool last

/-- The verdicts that the workers have given, joined in their order. -/
def joined (pool : Pool) : List FileReport := pool.flatMap Worker.reports

/-- The verdicts that the workers have given and are going to give. -/
def verdicts (pool : Pool) : List FileReport :=
  pool.flatMap fun w => w.reports ++ w.waiting.map (.ofFile fs settings)

/-- The number of files that are not checked yet. -/
def waiting (pool : Pool) : Nat := (pool.flatMap Worker.waiting).length

end Steps

variable {fs : FileSystem} {settings : Settings} {n : Nat} {pool next last : Pool}

/-- **One step.**  Of the file that is checked only the place among the verdicts was open. -/
theorem verdicts_of_step (h : Step fs settings pool next) :
    verdicts fs settings next = verdicts fs settings pool := by
  cases h
  simp [verdicts]

theorem waiting_of_step (h : Step fs settings pool next) : waiting pool = waiting next + 1 := by
  cases h
  simp [waiting]
  omega

/-- As long as a file waits, its worker can go on. -/
theorem exists_step (h : waiting pool ≠ 0) : ∃ next, Step fs settings pool next := by
  induction pool with
  | nil => exact absurd rfl h
  | cons w pool ih =>
    obtain ⟨waits, reports⟩ := w
    cases waits with
    | cons path waits => exact ⟨_, @Step.check fs settings [] path waits reports pool⟩
    | nil =>
      obtain ⟨next, hnext⟩ := ih (by simpa [waiting] using h)
      cases hnext with
      | @check before path waits reports' after =>
        exact ⟨_, @Step.check fs settings (⟨[], reports⟩ :: before) path waits reports' after⟩

/-- **All steps.**  A run changes no verdict, and checks one file with each step. -/
theorem verdicts_of_run (h : Run fs settings n pool last) :
    verdicts fs settings last = verdicts fs settings pool ∧ waiting pool = waiting last + n := by
  induction h with
  | refl => exact ⟨rfl, rfl⟩
  | cons hstep _ ih =>
    obtain ⟨hverdicts, hwaiting⟩ := ih
    refine ⟨hverdicts.trans (verdicts_of_step hstep), ?_⟩
    rw [waiting_of_step hstep, hwaiting, Nat.add_assoc]

/-- When no file waits, all verdicts are given. -/
theorem joined_of_waiting (h : waiting pool = 0) : joined pool = verdicts fs settings pool := by
  induction pool with
  | nil => rfl
  | cons w pool ih =>
    rw [waiting, List.flatMap_cons, List.length_append, Nat.add_eq_zero_iff] at h
    have hrest : pool.flatMap Worker.reports = verdicts fs settings pool := ih h.2
    rw [joined, verdicts, List.flatMap_cons, List.flatMap_cons, hrest,
      List.length_eq_zero_iff.1 h.1, List.map_nil, List.append_nil]
    rfl

/-- The workers at the beginning, each with its chunk. -/
def start (chunks : List (List String)) : Pool := chunks.map fun chunk => ⟨chunk, []⟩

theorem verdicts_start (chunks : List (List String)) :
    verdicts fs settings (start chunks) = chunks.flatten.map (.ofFile fs settings) := by
  rw [verdicts, start, List.flatMap_map, List.map_flatten, List.flatMap_def]
  rfl

theorem waiting_start (chunks : List (List String)) :
    waiting (start chunks) = chunks.flatten.length := by
  rw [waiting, start, List.flatMap_map, List.flatMap_def]
  exact congrArg (fun l => l.flatten.length) (List.map_id chunks)

end Pool

/-! ## Batches -/

/-- The verdicts on a batch are those on its files. -/
theorem checkFiles_eq_map (fs : FileSystem) (settings : Settings) (jobs : Nat)
    (paths : List String) :
    checkFiles fs settings jobs paths = paths.map (.ofFile fs settings) := by
  rw [checkFiles, List.flatMap_def, ← List.map_flatten, flatten_workerChunks]

/-- **Sharing a batch.**  The verdicts on a batch are those on its files in their order, each as often
as the file is named.  There are at most as many workers as jobs, and as files; each has files to check,
and the length of their shares is never zero.  Whatever steps the workers have taken, some worker can go
on until each file is checked once, and then their joined verdicts are those on the batch. -/
theorem checkFiles_is_sequential (fs : FileSystem) (settings : Settings) (paths : List String)
    {jobs : Nat} (hjobs : 0 < jobs) :
    checkFiles fs settings jobs paths = paths.map (.ofFile fs settings) ∧
    (workerChunks jobs paths).length ≤ min jobs paths.length ∧
    (∀ chunk ∈ workerChunks jobs paths, chunk ≠ []) ∧
    (paths ≠ [] → 0 < (paths.length + jobs - 1) / jobs) ∧
    ∀ n pool, Pool.Run fs settings n (.start (workerChunks jobs paths)) pool →
      n ≤ paths.length ∧
      (n < paths.length → ∃ next, Pool.Step fs settings pool next) ∧
      (n = paths.length → pool.joined = checkFiles fs settings jobs paths) := by
  refine ⟨checkFiles_eq_map fs settings jobs paths, length_workerChunks_le hjobs paths,
    fun chunk => ne_nil_of_mem_chunksOf, fun hne => ?_, fun n pool hrun => ?_⟩
  · have hpos : 0 < paths.length := List.length_pos_iff.2 hne
    exact Nat.div_pos (by omega) hjobs
  · obtain ⟨hverdicts, hwaiting⟩ := Pool.verdicts_of_run hrun
    rw [Pool.waiting_start, flatten_workerChunks] at hwaiting
    refine ⟨by omega, fun hlt => Pool.exists_step (by omega), fun hall => ?_⟩
    rw [Pool.joined_of_waiting (by omega), hverdicts, Pool.verdicts_start, flatten_workerChunks,
      checkFiles_eq_map]

/-- Three jobs take two shares of four files, one of which is named twice. -/
theorem checkFiles_is_sequential_four :
    let fs : FileSystem := ⟨.directory [("a", .file (Text.encode "(f x)".toList))], []⟩
    (workerChunks 3 ["a", "b", "a", "c"]).length = 2 ∧
      checkFiles fs {} 3 ["a", "b", "a", "c"] = ["a", "b", "a", "c"].map (.ofFile fs {}) ∧
      ∀ n pool, Pool.Run fs {} n (.start (workerChunks 3 ["a", "b", "a", "c"])) pool → n ≤ 4 := by
  intro fs
  have hshared := checkFiles_is_sequential fs {} ["a", "b", "a", "c"] (by decide : 0 < 3)
  refine ⟨?_, hshared.1, fun n pool hrun => (hshared.2.2.2.2 n pool hrun).1⟩
  simp [workerChunks, chunksOf]

end PieSyntax
