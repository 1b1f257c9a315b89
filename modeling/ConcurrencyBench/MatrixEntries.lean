import ConcurrencyBench.DecisionMatrix

/-!
# What the matrix says of its rows

Two fields of the matrix are read in other places than the ones that hold their data.
The fairness of an entry is looked up among the counters nested in its row, where Google
Benchmark writes user counters as keys of the row itself. The build is judged by the
context of the first row that was loaded, whatever files the entries are taken from. So
fairness is published, and a debug build warned of, exactly where the two places agree.
-/

namespace ConcurrencyBench.DecisionMatrix

open Documents

/-! ## Fairness -/

/-- A row reports a fairness, as a key of the row itself. -/
def Row.Reports (row : Row) (value : Json) : Prop :=
  row.bench.get "fairness_cv" = value ∧ value ≠ .null

/-- An entry quotes the coefficient under `counters`. -/
theorem Entry.Quotes.fairnessCv_eq {entry : Entry} {row : Row} (quoted : entry.Quotes row) :
    entry.fairnessCv = (row.bench.get "counters").field "fairness_cv" := by
  obtain ⟨counters, nested, read⟩ := quoted.fairnessCv
  rw [← Json.field_or_empty, nested, read]
  rfl

/-- The entries publish the fairness their rows report exactly if every selected row
that reports one also has it among nested counters. -/
theorem fairness_published_iff {args : Arguments} {dir : ResultsDir} {matrix : Matrix}
    {rows : List Row} (done : main args (some dir) = .ok matrix)
    (loaded : loadBenchmarks dir = .ok rows) :
    (∀ workload entry row, matrix.Takes rows workload entry row →
      (∀ value, row.Reports value → entry.fairnessCv = value) ∧
      (entry.fairnessCv = .null → ∀ value, ¬ row.Reports value)) ↔
    ∀ row, Selected rows row → ∀ value, row.Reports value →
      (row.bench.get "counters").field "fairness_cv" = value := by
  have written := main_writes done loaded
  constructor
  · intro published row selected value reported
    obtain ⟨workload, entry, taken⟩ := written.taken_of_selected selected
    rw [← (written.quotes taken).fairnessCv_eq]
    exact (published workload entry row taken).1 value reported
  · intro nested workload entry row taken
    have equal : ∀ value, row.Reports value → entry.fairnessCv = value := by
      intro value reported
      rw [(written.quotes taken).fairnessCv_eq]
      exact nested row taken.selected value reported
    refine ⟨equal, ?_⟩
    intro absent value reported
    exact reported.2 ((equal value reported).symm.trans absent)

/-- The three reports with no nested counters, so that a fairness is published exactly if
none is reported. -/
theorem fairness_published_iff_threeReports :
    ∃ matrix rows, main sampleArguments (some threeReports) = .ok matrix ∧
      loadBenchmarks threeReports = .ok rows ∧
      ((∀ workload entry row, matrix.Takes rows workload entry row →
        (∀ value, row.Reports value → entry.fairnessCv = value) ∧
        (entry.fairnessCv = .null → ∀ value, ¬ row.Reports value)) ↔
      ∀ row, Selected rows row → ∀ value, row.Reports value →
        (row.bench.get "counters").field "fairness_cv" = value) := by
  obtain ⟨matrix, rows, done, loaded, -⟩ := threeReports_loaded
  exact ⟨matrix, rows, done, loaded, fairness_published_iff done loaded⟩

/-- The row of `counter_mutex.json` reports a fairness of zero, and its entry says null. -/
theorem mutex_fairness_lost :
    ∃ matrix rows workload entry row, main sampleArguments (some threeReports) = .ok matrix ∧
      loadBenchmarks threeReports = .ok rows ∧ matrix.Takes rows workload entry row ∧
      row.Reports (.num 0) ∧ entry.fairnessCv = .null := by
  obtain ⟨matrix, rows, done, loaded, ⟨row, selected, read⟩, -⟩ := threeReports_loaded
  have written := main_writes done loaded
  obtain ⟨workload, entry, taken⟩ := written.taken_of_selected selected
  refine ⟨matrix, rows, workload, entry, row, done, loaded, taken, ⟨?_, by simp⟩, ?_⟩
  · rw [read]
    decide
  · rw [(written.quotes taken).fairnessCv_eq, read]
    decide

/-! ## The build -/

/-- The build type of the first context is that of the first row. -/
theorem firstContext_buildType {rows : List Row} {ctx : Dict}
    (described : firstContext rows = .ok ctx) :
    ctx.get "library_build_type" = (rows.head?.map Row.buildType).getD .null := by
  cases rows with
  | nil =>
    obtain rfl := Except.ok.inj described
    rfl
  | cons row rows =>
    have context : row.context = .obj ctx := Json.dict_eq_ok_iff.mp described
    simp [Row.buildType, context, Json.field]

/-- The warning is given exactly if the first row is from a debug build. -/
theorem Written.debugWarning_mem {rows : List Row} {matrix : Matrix}
    (written : Written rows matrix) :
    debugWarning ∈ matrix.warnings ↔ ∃ row, rows.head? = some row ∧ isDebug row.buildType := by
  obtain ⟨ctx, described, buildType⟩ := written.context
  rw [firstContext_buildType described] at buildType
  rw [written.warnings, buildType]
  have other : debugWarning ≠ noRowsWarning := by decide
  cases rows with
  | nil => simp [other, isDebug]
  | cons row rows => cases judged : isDebug row.buildType <;> simp [judged]

/-- A selected row has the build type of the file it names. -/
theorem Selected.file {dir : ResultsDir} {rows : List Row} {row : Row}
    (selected : Selected rows row) (loaded : loadBenchmarks dir = .ok rows) :
    ∃ file ∈ dir.files, row.source = file.name ∧ row.buildType = file.buildType := by
  obtain ⟨rule, -, primitive, -, found⟩ := selected
  exact loadBenchmarks_mem loaded (pickBest_mem found)

/-- Entries from a debug build come with the warning exactly if the first row that was
loaded is from one or no selected row is. -/
theorem debug_warned_iff {args : Arguments} {dir : ResultsDir} {matrix : Matrix}
    {rows : List Row} (done : main args (some dir) = .ok matrix)
    (loaded : loadBenchmarks dir = .ok rows) :
    (∀ workload ∈ matrix.workloads, ∀ entry ∈ workload.entries, ∀ file ∈ dir.files,
      entry.sourceFile = some file.name → isDebug file.buildType →
        debugWarning ∈ matrix.warnings) ↔
    (∃ row, rows.head? = some row ∧ isDebug row.buildType) ∨
      ∀ row, Selected rows row → isDebug row.buildType = false := by
  have written := main_writes done loaded
  rw [← written.debugWarning_mem]
  constructor
  · intro warned
    by_contra silent
    push Not at silent
    obtain ⟨unwarned, row, selected, debug⟩ := silent
    obtain ⟨workload, entry, taken⟩ := written.taken_of_selected selected
    obtain ⟨file, present, source, buildType⟩ := selected.file loaded
    have named : entry.sourceFile = some file.name := by
      rw [(written.quotes taken).sourceFile, source]
    have judged : isDebug file.buildType = true := by simpa [← buildType] using debug
    exact unwarned (warned workload taken.mem.1 entry taken.mem.2 file present named judged)
  · rintro (warned | release) workload listed entry within file present named debug
    · exact warned
    · obtain ⟨row, taken, source⟩ := written.taken_of_sourceFile listed within named
      obtain ⟨origin, kept, name, buildType⟩ := taken.selected.file loaded
      have same : origin = file :=
        List.inj_on_of_nodup_map dir.distinct kept present (name.symm.trans source)
      have unjudged := release row taken.selected
      rw [buildType, same, debug] at unjudged
      contradiction

/-- The first of the three reports is from a release build, the second is not. -/
theorem debug_warned_iff_threeReports :
    ∃ matrix rows, main sampleArguments (some threeReports) = .ok matrix ∧
      loadBenchmarks threeReports = .ok rows ∧
      ((∀ workload ∈ matrix.workloads, ∀ entry ∈ workload.entries, ∀ file ∈ threeReports.files,
        entry.sourceFile = some file.name → isDebug file.buildType →
          debugWarning ∈ matrix.warnings) ↔
      (∃ row, rows.head? = some row ∧ isDebug row.buildType) ∨
        ∀ row, Selected rows row → isDebug row.buildType = false) := by
  obtain ⟨matrix, rows, done, loaded, -⟩ := threeReports_loaded
  exact ⟨matrix, rows, done, loaded, debug_warned_iff done loaded⟩

/-- The entry for the condition variables is from a debug build, and no warning is given. -/
theorem condvar_debug_silent :
    ∃ matrix, main sampleArguments (some threeReports) = .ok matrix ∧
      debugWarning ∉ matrix.warnings ∧
      ∃ workload ∈ matrix.workloads, ∃ entry ∈ workload.entries, ∃ file ∈ threeReports.files,
        entry.sourceFile = some file.name ∧ isDebug file.buildType := by
  have evaluated : (main sampleArguments (some threeReports)).toOption.map (fun matrix =>
      (decide (debugWarning ∈ matrix.warnings),
        decide (∃ workload ∈ matrix.workloads, ∃ entry ∈ workload.entries,
          entry.sourceFile = some "pc_condvar.json"))) = some (false, true) := by
    decide +kernel
  obtain ⟨matrix, done, facts⟩ := ok_of_map_toOption evaluated
  simp only [Prod.mk.injEq, decide_eq_false_iff_not, decide_eq_true_eq] at facts
  obtain ⟨silent, workload, listed, entry, within, named⟩ := facts
  exact ⟨matrix, done, silent, workload, listed, entry, within,
    reportFile "pc_condvar.json" "debug" pcCondVarBench, by simp [threeReports], named,
    by decide +kernel⟩

end ConcurrencyBench.DecisionMatrix
