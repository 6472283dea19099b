/-
# The verdict on a batch

A check of many paths shows a line for each file that is found below them, in order, and a summary; it
reports first the paths below which nothing can be found and then the files that hold no program.  The
failures are counted where they are found and where they are shown.  Main statement: lines, reports,
summary and exit code are exactly those that the files below the paths call for (`check_is_exact`).
-/
import PieSyntax.CommandLine
import PieSyntax.Proofs.Agreement
import PieSyntax.Proofs.FoundFiles
import PieSyntax.Proofs.Workers

namespace PieSyntax

/-! ## Effects -/

namespace Effect

theorem written_flatMap {α : Type} (f : α → List Effect) (l : List α) :
    written (l.flatMap f) = l.flatMap fun a => written (f a) := by
  simp only [written, List.flatMap_assoc]

theorem reported_flatMap {α : Type} (f : α → List Effect) (l : List α) :
    reported (l.flatMap f) = l.flatMap fun a => reported (f a) := by
  simp only [reported, List.filterMap_flatMap]

@[simp] theorem written_map_report (failures : List Failure) :
    written (failures.map .report) = [] := by
  simp [written, List.flatMap_map]

@[simp] theorem reported_map_report (failures : List Failure) :
    reported (failures.map .report) = failures := by
  simp [reported, List.filterMap_map]

end Effect

/-! ## Verdicts on files -/

namespace FileSystem

/-- The file at `path` is a text that parses. -/
def HoldsProgram (fs : FileSystem) (settings : Settings) (path : String) : Prop :=
  ∃ source tree, fs.text? path = some source ∧ parse settings source = .ok tree

/-- Why nothing can be found below some of the paths. -/
def findFailures (fs : FileSystem) (paths : List String) : List Failure :=
  paths.filterMap fun path => error? (fs.sourceFiles path)

/-- The files below the paths; a path below which nothing can be found contributes none. -/
def filesBelow (fs : FileSystem) (paths : List String) : List String :=
  paths.flatMap fun path => (fs.sourceFiles path).toOption.getD []

/-- Why some of the files hold no program. -/
def fileFailures (fs : FileSystem) (settings : Settings) (files : List String) : List Failure :=
  files.filterMap fun path => error? (checkFile fs settings path)

/-- Nothing can be found below a path at which nothing stands. -/
theorem findFailures_eq (fs : FileSystem) (paths : List String) : fs.findFailures paths =
    (paths.filter fun path => (fs.find? path).isNone).map .unreadable := by
  rw [findFailures, ← List.filterMap_eq_map, ← List.filterMap_eq_filter, List.filterMap_filterMap]
  congr 1
  funext path
  cases hfind : fs.find? path with
  | none => simp [error?, Option.guard, hfind, sourceFiles_of_none hfind]
  | some t =>
    obtain ⟨files, hfiles⟩ := exists_sourceFiles hfind
    simp [error?, Option.guard, hfind, hfiles]

variable {fs : FileSystem} {settings : Settings} {path : String}

/-- A file is found well exactly if it can be read and its text parses. -/
theorem checkFile_eq_ok_iff {tree : SyntaxTree} : checkFile fs settings path = .ok tree ↔
    ∃ source, fs.text? path = some source ∧ parse settings source = .ok tree := by
  unfold checkFile
  cases htext : fs.text? path with
  | none => simp
  | some source => cases hparse : parse settings source <;> simp [hparse]

/-- A file is marked as good exactly if it holds a program. -/
theorem isOk_ofFile_iff :
    (FileReport.ofFile fs settings path).isOk = true ↔ fs.HoldsProgram settings path := by
  rw [FileReport.isOk, FileReport.failure?, FileReport.ofFile, HoldsProgram, exists_comm]
  simp only [← checkFile_eq_ok_iff]
  cases checkFile fs settings path <;> simp

instance : Decidable (fs.HoldsProgram settings path) := decidable_of_iff _ isOk_ofFile_iff

/-- Whether a file holds a program can be read off its report. -/
theorem decide_holdsProgram (fs : FileSystem) (settings : Settings) (path : String) :
    decide (fs.HoldsProgram settings path) = (FileReport.ofFile fs settings path).isOk := by
  rw [Bool.eq_iff_iff, decide_eq_true_iff, isOk_ofFile_iff]

/-- The failure in the report of a file is that of checking it. -/
theorem failure?_ofFile (fs : FileSystem) (settings : Settings) (path : String) :
    (FileReport.ofFile fs settings path).failure? = error? (checkFile fs settings path) := by
  rw [FileReport.failure?, FileReport.ofFile]
  cases checkFile fs settings path <;> rfl

/-- Each file that holds no program is reported once. -/
theorem length_fileFailures (fs : FileSystem) (settings : Settings) (files : List String) :
    (fs.fileFailures settings files).length =
      (files.filter fun path => ¬ fs.HoldsProgram settings path).length := by
  rw [fileFailures, List.length_filterMap_eq_countP, List.countP_eq_length_filter]
  congr 2
  funext path
  rw [decide_not, decide_holdsProgram, FileReport.isOk, failure?_ofFile]
  cases error? (checkFile fs settings path) <;> rfl

/-- The number of failures: paths below which nothing is found, and files that hold no program. -/
def failedCount (fs : FileSystem) (settings : Settings) (paths : List String) : Nat :=
  (fs.findFailures paths).length +
    ((fs.filesBelow paths).filter fun path => ¬ fs.HoldsProgram settings path).length

end FileSystem

/-! ## The whole check -/

/-- A report writes one status line to the output. -/
theorem FileReport.written_effects (r : FileReport) :
    Effect.written r.effects = statusLine r.isOk r.path.toList := by
  have hreports : Effect.written (r.failure?.toList.map .report) = [] :=
    Effect.written_map_report _
  rw [effects, Effect.written, List.flatMap_cons]
  exact (congrArg _ hreports).trans (List.append_nil _)

/-- A report that fails reports its failure, once. -/
theorem FileReport.reported_effects (r : FileReport) :
    Effect.reported r.effects = r.failure?.toList := by
  rw [effects, Effect.reported, List.filterMap_cons_none rfl]
  exact Effect.reported_map_report _

/-- The lines and the summary of a report. -/
theorem written_reportEffects (reports : List FileReport) (failed : Nat) :
    Effect.written (reportEffects reports failed) =
      (reports.flatMap fun r => statusLine r.isOk r.path.toList) ++
        [.text ['\n'], .text (summaryLine reports.length failed ++ ['\n'])] := by
  rw [reportEffects, Effect.written_append, Effect.written_flatMap]
  simp only [FileReport.written_effects]
  rfl

/-- The failures are reported in the order of the files. -/
theorem reported_reportEffects (reports : List FileReport) (failed : Nat) :
    Effect.reported (reportEffects reports failed) = reports.filterMap FileReport.failure? := by
  rw [reportEffects, Effect.reported_append, Effect.reported_flatMap]
  simp only [FileReport.reported_effects]
  rw [List.filterMap_eq_flatMap_toList]
  exact List.append_nil _

/-- What a check does, in terms of the files below the paths. -/
theorem checkCommand_eq (fs : FileSystem) (settings : Settings) (jobs : Nat) (paths : List String) :
    checkCommand fs settings jobs paths =
      ⟨(fs.findFailures paths).map .report ++
        reportEffects ((fs.filesBelow paths).map (.ofFile fs settings))
          (fs.failedCount settings paths),
        fs.failedCount settings paths == 0⟩ := by
  -- The functions that take results apart are matches, so they are known by their values.
  have hfailures : ∀ f : Except Failure (List String) → Option Failure, (∀ r, f r = error? r) →
      (paths.map fs.sourceFiles).filterMap f = fs.findFailures paths := by
    intro f hf
    rw [funext hf, List.filterMap_map]
    rfl
  have hfiles : ∀ f : Except Failure (List String) → List String,
      (∀ r, f r = r.toOption.getD []) →
      (paths.map fs.sourceFiles).flatMap f = fs.filesBelow paths := by
    intro f hf
    rw [funext hf, List.flatMap_map]
    rfl
  have hcount : (((fs.filesBelow paths).map (FileReport.ofFile fs settings)).filter fun r =>
      !r.isOk).length =
        ((fs.filesBelow paths).filter fun path => ¬ fs.HoldsProgram settings path).length := by
    rw [List.filter_map, List.length_map]
    congr 2
    funext path
    rw [decide_not, FileSystem.decide_holdsProgram]
    rfl
  rw [checkCommand, hfailures, hfiles, checkFiles_eq_map]
  · simp only [hcount]
    rfl
  · intro r
    cases r <;> rfl
  · intro r
    cases r <;> rfl

/-- `run.IsCheckOf fs settings paths`: the run shows which files below the paths hold a program. -/
structure Run.IsCheckOf (run : Run) (fs : FileSystem) (settings : Settings) (paths : List String) :
    Prop where
  /-- One line for each file below the paths, and the summary. -/
  written : Effect.written run.effects =
    (fs.filesBelow paths).flatMap (fun path =>
      statusLine (decide (fs.HoldsProgram settings path)) path.toList) ++
    [.text ['\n'],
      .text (summaryLine (fs.filesBelow paths).length (fs.failedCount settings paths) ++ ['\n'])]
  /-- One report for each path below which nothing is found, and for each file without a program. -/
  reported : Effect.reported run.effects =
    fs.findFailures paths ++ fs.fileFailures settings (fs.filesBelow paths)
  /-- The summary counts what is reported. -/
  counted : (Effect.reported run.effects).length = fs.failedCount settings paths
  exitCode : run.exitCode = if fs.failedCount settings paths = 0 then 0 else 1

/-- **Exact verdicts.**  If somebody reads the output, a check writes one line for each file below the
paths, which says whether the file is a text that parses, and the summary of these lines; it reports
first each path below which nothing is found and then each file that holds no program; and it succeeds
exactly if there is nothing to report.  The number of jobs does not matter. -/
theorem check_is_exact (s : Surroundings) (hopen : s.outputOpen = true) (settings : Settings)
    (paths : List String) (jobs : Option Nat) :
    (s.perform settings (.check paths jobs)).IsCheckOf s.files settings paths := by
  have hrun : s.perform settings (.check paths jobs) =
      ⟨(checkCommand s.files settings (jobs.getD 1) paths).effects,
        if (checkCommand s.files settings (jobs.getD 1) paths).success then 0 else 1, s.files⟩ := by
    rw [Surroundings.perform, Surroundings.finish, hopen]
    rfl
  rw [hrun, checkCommand_eq]
  have hreported : Effect.reported ((s.files.findFailures paths).map .report ++
      reportEffects ((s.files.filesBelow paths).map (.ofFile s.files settings))
        (s.files.failedCount settings paths)) =
      s.files.findFailures paths ++ s.files.fileFailures settings (s.files.filesBelow paths) := by
    rw [Effect.reported_append, Effect.reported_map_report, reported_reportEffects,
      List.filterMap_map, FileSystem.fileFailures]
    congr 2
    funext path
    exact FileSystem.failure?_ofFile s.files settings path
  refine ⟨?_, hreported, ?_, ?_⟩
  · rw [Effect.written_append, Effect.written_map_report, List.nil_append, written_reportEffects,
      List.flatMap_map, List.length_map]
    simp only [FileSystem.decide_holdsProgram]
    rfl
  · rw [hreported, List.length_append, FileSystem.length_fileFailures]
    rfl
  · simp

/-- One of three paths leads nowhere, and one to a file that is no text. -/
theorem check_is_exact_three :
    let fs : FileSystem :=
      ⟨.directory [("a", .file (Text.encode "(f x)".toList)), ("b", .file [255])], []⟩
    let run := Surroundings.perform { files := fs } {} (.check ["a", "none", "b"] (some 2))
    run.IsCheckOf fs {} ["a", "none", "b"] ∧ fs.filesBelow ["a", "none", "b"] = ["a", "b"] ∧
      run.exitCode = 1 := by
  intro fs run
  have hexact : run.IsCheckOf fs {} ["a", "none", "b"] :=
    check_is_exact { files := fs } rfl {} ["a", "none", "b"] (some 2)
  have hplace : ∀ name ∈ ["a", "none", "b"], FileSystem.pieces name = [name] ∧
      FileSystem.origin [] name = [] ∧ name ≠ "" := by decide +kernel
  simp only [List.forall_mem_cons, List.not_mem_nil, false_implies, implies_true, and_true] at hplace
  obtain ⟨ha, hnone, hb⟩ := hplace
  have hfind : fs.find? "a" = some (.file (Text.encode "(f x)".toList)) ∧ fs.find? "none" = none ∧
      fs.find? "b" = some (.file [255]) := by
    simp [FileSystem.find?, FileSystem.locate?, FileSystem.follow?, FileTree.at?, FileTree.child?,
      List.lookup_cons, fs, ha, hnone, hb]
  refine ⟨hexact, ?_, ?_⟩
  · simp [FileSystem.filesBelow, FileSystem.sourceFiles, hfind, Except.toOption]
  · rw [hexact.exitCode, FileSystem.failedCount, FileSystem.findFailures_eq]
    simp [hfind]

end PieSyntax
