import ConcurrencyBench.JsonSchemas
import ConcurrencyBench.AnalysisReport
import ConcurrencyBench.ResultFiles
import Mathlib.Logic.Relation

/-!
# The matrix and its schema

`build_decision_matrix.py` writes the matrix as a JSON document, and `schema.json` says what
such a document is to be. The script copies what it finds: the numbers of a row and the
description of the host are quoted, whatever they are. The document is valid exactly if what
has been quoted is of the types the schema asks for; everything else is the script's own and
always is.

A matrix has no rows, so one that lies in the results directory changes nothing when the
script is run again. The same is true of the placeholder that `run_all_benchmarks.sh` leaves
for a benchmark that has timed out, which the report shows.
-/

namespace ConcurrencyBench.DecisionMatrix

open Documents

/-! ## The document -/

/-- An entry as it is written. -/
def Entry.document (entry : Entry) : Json := .obj
  [("primitive", .str entry.primitive),
   ("benchmark", entry.benchmark),
   ("items_per_second", entry.itemsPerSecond),
   ("real_time_ns", entry.realTimeNs),
   ("fairness_cv", entry.fairnessCv),
   ("source_file", entry.sourceFile.elim .null .str)]

/-- A workload as it is written. -/
def Workload.document (workload : Workload) : Json := .obj
  [("id", .str workload.id), ("entries", .arr (workload.entries.map Entry.document))]

/-- What `json.dumps(matrix)` writes. -/
def Matrix.document (matrix : Matrix) : Json := .obj
  [("schema_version", .str matrix.schemaVersion),
   ("generated_at", .str matrix.generatedAt),
   ("host", .obj
     [("name", .str matrix.host.name),
      ("os", .str matrix.host.os),
      ("num_cpus", matrix.host.numCpus),
      ("mhz_per_cpu", matrix.host.mhzPerCpu)]),
   ("build", .obj
     [("build_type", matrix.build.buildType),
      ("native_arch", .bool matrix.build.nativeArch),
      ("notes", .str matrix.build.notes)]),
   ("workloads", .arr (matrix.workloads.map Workload.document)),
   ("warnings", .arr (matrix.warnings.map .str))]

/-! ## The schema -/

/-- The schema of `host`. -/
def hostSchema : Schema := .object ["name"]
  [("name", .ofTypes [.string]),
   ("os", .ofTypes [.string, .null]),
   ("num_cpus", .ofTypes [.integer, .null]),
   ("mhz_per_cpu", .ofTypes [.number, .null])]

/-- The schema of `build`. -/
def buildSchema : Schema := .object []
  [("build_type", .ofTypes [.string, .null]),
   ("native_arch", .ofTypes [.boolean, .null]),
   ("notes", .ofTypes [.string, .null])]

/-- The schema of an entry. -/
def entrySchema : Schema := .object ["primitive", "benchmark"]
  [("primitive", .ofTypes [.string]),
   ("benchmark", .ofTypes [.string]),
   ("items_per_second", .ofTypes [.number, .null]),
   ("real_time_ns", .ofTypes [.number, .null]),
   ("fairness_cv", .ofTypes [.number, .null]),
   ("source_file", .ofTypes [.string, .null])]

/-- The schema of a workload. -/
def workloadSchema : Schema := .object ["id", "entries"]
  [("id", .ofTypes [.string]), ("entries", .array entrySchema)]

/-- `matrix/schema.json` -/
def matrixSchema : Schema := .object
  ["schema_version", "generated_at", "host", "build", "workloads"]
  [("schema_version", .mk [.string] (some (.str "1.0.0")) [] [] none),
   ("generated_at", .ofTypes [.string]),
   ("host", hostSchema),
   ("build", buildSchema),
   ("workloads", .array workloadSchema),
   ("warnings", .array (.ofTypes [.string]))]

/-! ## Validity -/

section Valid

variable {rows : List Row} {matrix : Matrix} {workload : Workload} {entry : Entry} {row : Row}

/-- An entry is valid exactly if what it quotes has the types of the schema. -/
theorem valid_entry_iff : entrySchema.valid entry.document = true ↔
    entry.benchmark.isA [.string] = true ∧ entry.itemsPerSecond.isA [.number, .null] = true ∧
      entry.realTimeNs.isA [.number, .null] = true ∧
      entry.fairnessCv.isA [.number, .null] = true := by
  have primitive : (Json.str entry.primitive).isA [.string] = true := rfl
  have source : (entry.sourceFile.elim Json.null Json.str).isA [.string, .null] = true := by
    cases entry.sourceFile <;> rfl
  rw [entrySchema, Entry.document, Schema.valid_record_iff rfl (by simp) (by simp)]
  simp only [List.forall₂_cons, List.forall₂_nil_left_iff, Schema.valid_ofTypes, primitive, source,
    true_and, and_true]

/-- A workload is valid exactly if its entries are. -/
theorem valid_workload_iff : workloadSchema.valid workload.document = true ↔
    ∀ entry ∈ workload.entries, entrySchema.valid entry.document = true := by
  have id : (Json.str workload.id).isA [.string] = true := rfl
  rw [workloadSchema, Workload.document, Schema.valid_record_iff rfl (by simp) (by simp)]
  simp only [List.forall₂_cons, List.forall₂_nil_left_iff, Schema.valid_ofTypes, id,
    Schema.valid_array_iff, List.forall_mem_map, true_and, and_true]

/-- The description of the host and the build is of the types the schema asks for. -/
def Matrix.Described (matrix : Matrix) : Prop :=
  matrix.host.numCpus.isA [.integer, .null] = true ∧
    matrix.host.mhzPerCpu.isA [.number, .null] = true ∧
    matrix.build.buildType.isA [.string, .null] = true

/-- A matrix is valid exactly if the context has the types of the schema and the entries are valid.
-/
theorem valid_matrix_iff (version : matrix.schemaVersion = "1.0.0") :
    matrixSchema.valid matrix.document = true ↔
      matrix.Described ∧ ∀ workload ∈ matrix.workloads, ∀ entry ∈ workload.entries,
        entrySchema.valid entry.document = true := by
  have versioned : (Schema.mk [.string] (some (.str "1.0.0")) [] [] none).valid
      (.str matrix.schemaVersion) = true := by
    rw [version]
    decide
  have generated : (Json.str matrix.generatedAt).isA [.string] = true := rfl
  have host : hostSchema.valid (.obj [("name", .str matrix.host.name), ("os", .str matrix.host.os),
      ("num_cpus", matrix.host.numCpus), ("mhz_per_cpu", matrix.host.mhzPerCpu)]) = true ↔
      matrix.host.numCpus.isA [.integer, .null] = true ∧
        matrix.host.mhzPerCpu.isA [.number, .null] = true := by
    have name : (Json.str matrix.host.name).isA [.string] = true := rfl
    have os : (Json.str matrix.host.os).isA [.string, .null] = true := rfl
    rw [hostSchema, Schema.valid_record_iff rfl (by simp) (by simp)]
    simp only [List.forall₂_cons, List.forall₂_nil_left_iff, Schema.valid_ofTypes, name, os,
      true_and, and_true]
  have build : buildSchema.valid (.obj [("build_type", matrix.build.buildType),
      ("native_arch", .bool matrix.build.nativeArch), ("notes", .str matrix.build.notes)]) = true ↔
      matrix.build.buildType.isA [.string, .null] = true := by
    have arch : (Json.bool matrix.build.nativeArch).isA [.boolean, .null] = true := rfl
    have notes : (Json.str matrix.build.notes).isA [.string, .null] = true := rfl
    rw [buildSchema, Schema.valid_record_iff rfl (by simp) (by simp)]
    simp only [List.forall₂_cons, List.forall₂_nil_left_iff, Schema.valid_ofTypes, arch, notes,
      and_true]
  have text : ∀ warning, (Json.str warning).isA [.string] = true := fun _ => rfl
  rw [matrixSchema, Matrix.document, Schema.valid_record_iff rfl (by simp) (by simp)]
  simp only [List.forall₂_cons, List.forall₂_nil_left_iff, versioned, Schema.valid_ofTypes,
    generated, host, build, Schema.valid_array_iff, List.forall_mem_map, valid_workload_iff,
    text, implies_true, true_and, and_true, Matrix.Described, and_assoc]

end Valid

/-! ## What is quoted -/

/-- What the matrix quotes of a row it has selected is of the types the schema asks for. -/
def Row.Numeric (row : Row) : Prop :=
  (row.bench.get "items_per_second").isA [.number, .null] = true ∧
    (row.bench.get "real_time").isA [.number, .null] = true ∧
    ((row.bench.get "counters").field "fairness_cv").isA [.number, .null] = true

/-- So is what it quotes of the context of the first row. -/
def Row.Describes (row : Row) : Prop :=
  (row.context.field "num_cpus").isA [.integer, .null] = true ∧
    (row.context.field "mhz_per_cpu").isA [.number, .null] = true ∧
    row.buildType.isA [.string, .null] = true

section Quoted

variable {rows : List Row} {primitive : Primitive} {entry : Entry} {row : Row} {ctx : Dict}

/-- A name that is used is a string, since its end has been looked at. -/
theorem Row.benchmark_isA (row : Row) (label : String) :
    ((row.bench.get "name").or (.str label)).isA [.string] = true := by
  by_cases holds : (row.bench.get "name").truthy = true
  · have named := row.named
    rw [benchName, Json.or_of_truthy holds, Json.or_of_truthy holds, Json.text_eq_ok_iff] at named
    rw [Json.or_of_truthy holds, named]
    rfl
  · rw [Json.or_of_not_truthy (by simpa using holds)]
    rfl

/-- An entry without a row is the script's own. -/
theorem valid_entryFor_iff (made : entryFor rows primitive = .ok entry) :
    entrySchema.valid entry.document = true ↔
      ∀ row, pickBest rows primitive.pattern = some row → row.Numeric := by
  rw [valid_entry_iff]
  cases found : pickBest rows primitive.pattern with
  | none =>
    simp only [entryFor, found, Except.ok.injEq] at made
    subst made
    simp [Json.isA, Json.hasType]
  | some hit =>
    simp only [entryFor, found, bind_eq_ok_iff, pure_eq_ok_iff, Json.dict_eq_ok_iff] at made
    obtain ⟨counters, nested, rfl⟩ := made
    have fairness : counters.get "fairness_cv" = (hit.bench.get "counters").field "fairness_cv" := by
      rw [← Json.field_or_empty, nested]
      rfl
    simp only [Option.some.injEq, forall_eq', Row.Numeric, fairness, hit.benchmark_isA, true_and]

/-- An entry has the primitive's name. -/
theorem entryFor_primitive (made : entryFor rows primitive = .ok entry) :
    entry.primitive = primitive.primitive := by
  cases found : pickBest rows primitive.pattern with
  | none =>
    simp only [entryFor, found, Except.ok.injEq] at made
    rw [← made]
  | some hit =>
    simp only [entryFor, found, bind_eq_ok_iff, pure_eq_ok_iff] at made
    obtain ⟨_, _, rfl⟩ := made
    rfl

/-- The host and the build are described by the context of the first row, if there is one. -/
theorem firstContext_described (described : firstContext rows = .ok ctx) :
    ((ctx.get "num_cpus").isA [.integer, .null] = true ∧
      (ctx.get "mhz_per_cpu").isA [.number, .null] = true ∧
      (ctx.get "library_build_type").isA [.string, .null] = true) ↔
      ∀ row, rows.head? = some row → row.Describes := by
  cases rows with
  | nil =>
    obtain rfl := Except.ok.inj described
    simp [Dict.get, Json.isA, Json.hasType]
  | cons row rest =>
    have context : row.context = .obj ctx := Json.dict_eq_ok_iff.mp described
    simp only [List.head?_cons, Option.some.injEq, forall_eq', Row.Describes, Row.buildType, context]
    rfl

end Quoted

/-- The matrix is valid exactly if what it quotes is of the right types. Whenever a matrix is
written, it has the workloads of the rules, in their order, with one entry for each of their
primitives, in their order; and its document is valid under the schema if and only if the
first row describes a host and a build, where there is a row, and the rows selected are
numeric in what is quoted of them. -/
theorem matrix_valid_iff {args : Arguments} {dir : ResultsDir} {matrix : Matrix} {rows : List Row}
    (done : main args (some dir) = .ok matrix) (loaded : loadBenchmarks dir = .ok rows) :
    matrix.workloads.map Workload.id = workloadRules.map Rule.workloadId ∧
    matrix.workloads.map (fun workload => workload.entries.map Entry.primitive) =
      workloadRules.map (fun rule => rule.primitives.map Primitive.primitive) ∧
    (matrixSchema.valid matrix.document = true ↔
      (∀ row, rows.head? = some row → row.Describes) ∧
        ∀ row, Selected rows row → row.Numeric) := by
  have written := main_writes done loaded
  simp only [main, bind_eq_ok_iff, pure_eq_ok_iff] at done
  obtain ⟨rows', loaded', ctx, described, workloads, filled, rfl⟩ := done
  obtain rfl : rows = rows' := Except.ok.inj (loaded.symm.trans loaded')
  have placed := written.workloads
  refine ⟨?_, ?_, ?_⟩
  · exact map_eq_of_forall₂ placed fun rule workload made => (workloadFor_eq_ok_iff.mp made).1
  · refine map_eq_of_forall₂ placed fun rule workload made => ?_
    exact map_eq_of_forall₂ (workloadFor_eq_ok_iff.mp made).2 fun _ _ => entryFor_primitive
  · rw [valid_matrix_iff rfl, Matrix.Described]
    refine and_congr (firstContext_described described) ?_
    constructor
    · rintro valid row ⟨rule, listed, primitive, within, found⟩
      obtain ⟨workload, among, made⟩ := result_of_mem placed listed
      obtain ⟨entry, at_primitive, filled⟩ :=
        result_of_mem (workloadFor_eq_ok_iff.mp made).2 within
      have quoted := valid workload (List.of_mem_zip among).2 entry (List.of_mem_zip at_primitive).2
      exact (valid_entryFor_iff filled).mp quoted row found
    · intro numeric workload listed entry within
      obtain ⟨rule, among, made⟩ := input_of_mem placed listed
      obtain ⟨primitive, at_primitive, filled⟩ :=
        input_of_mem (workloadFor_eq_ok_iff.mp made).2 within
      refine (valid_entryFor_iff filled).mpr fun row found => numeric row ?_
      exact ⟨rule, (List.of_mem_zip among).1, primitive, (List.of_mem_zip at_primitive).1, found⟩

/-- The matrix of the three reports is valid, so their rows are numeric in what is quoted. -/
theorem matrix_valid_iff_threeReports :
    ∃ matrix rows, main sampleArguments (some threeReports) = .ok matrix ∧
      loadBenchmarks threeReports = .ok rows ∧ matrixSchema.valid matrix.document = true ∧
      ∀ row, Selected rows row → row.Numeric := by
  have evaluated : (main sampleArguments (some threeReports)).toOption.map
      (fun matrix => matrixSchema.valid matrix.document) = some true := by
    decide +kernel
  obtain ⟨matrix, done, valid⟩ := ok_of_map_toOption evaluated
  obtain ⟨_, rows, _, loaded, _⟩ := threeReports_loaded
  refine ⟨matrix, rows, done, loaded, valid, ?_⟩
  exact ((matrix_valid_iff done loaded).2.2.mp valid).2

/-! ## What the scripts leave in the directory -/

/-- What `run_benchmark` writes for a benchmark that has timed out. -/
def timeoutDocument : Json := .obj [("benchmarks", .arr []), ("error", .str "timeout")]

/-- A matrix or a placeholder, with what the report says of it. -/
inductive ResultFile.Output (file : ResultFile) : Cell → Prop
  | matrix (matrix : Matrix) (content : file.content = .json matrix.document) :
      Output file (.text "no benchmarks")
  | timeout (content : file.content = .json timeoutDocument) :
      Output file (.value (.str "timeout"))

/-- The directory without the file of a name. -/
def ResultsDir.without (dir : ResultsDir) (name : String) : ResultsDir where
  files := dir.files.filter fun file => file.name ≠ name
  distinct := dir.distinct.sublist (List.filter_sublist.map _)

/-- A file is written, over the one of its name if there is one. -/
def ResultsDir.write (dir : ResultsDir) (file : ResultFile) : ResultsDir where
  files := file :: (dir.without file.name).files
  distinct := by
    rw [List.map_cons, List.nodup_cons]
    refine ⟨fun listed => ?_, (dir.without file.name).distinct⟩
    obtain ⟨other, kept, same⟩ := List.mem_map.mp listed
    exact of_decide_eq_true (List.mem_filter.mp kept).2 same

section Outputs

variable {args : Arguments} {dir dir' : ResultsDir} {file : ResultFile} {note : Cell}
  {outputs : List ResultFile}

/-- An object without rows adds none, and has a line that says so. -/
theorem rowless_object {data : Dict} (content : file.content = .json (.obj data))
    (rowless : (data.get "benchmarks").truthy = false) :
    loadFile file = .ok [] ∧ reportLine file = .ok (noteLine file
      (if (data.get "error").truthy then .value (data.get "error") else .text "no benchmarks")) := by
  have empty : (data.get "benchmarks").or (.arr []) = .arr [] := Json.or_of_not_truthy rowless _
  simp only [loadFile, reportLine, content, Json.dict, empty, bind, Except.bind]
  by_cases marked : (data.get "error").truthy = true
  · rw [if_pos marked, if_pos marked, if_pos marked]
    exact ⟨rfl, rfl⟩
  · rw [if_neg marked, if_neg marked, if_neg marked]
    exact ⟨rfl, rfl⟩

/-- What the scripts write has no rows, and a note in the report. -/
theorem ResultFile.Output.rowless (output : file.Output note) :
    loadFile file = .ok [] ∧ reportLine file = .ok (noteLine file note) := by
  cases output with
  | matrix matrix content =>
    obtain ⟨fields, written, keys⟩ : ∃ fields : Dict, matrix.document = .obj fields ∧
        fields.map Prod.fst =
          ["schema_version", "generated_at", "host", "build", "workloads", "warnings"] :=
      ⟨_, rfl, rfl⟩
    have unmarked : fields.get "error" = .null := Dict.get_of_notMem (by rw [keys]; decide)
    have unlisted : fields.get "benchmarks" = .null := Dict.get_of_notMem (by rw [keys]; decide)
    have read := rowless_object (content.trans (by rw [written])) (by rw [unlisted]; rfl)
    rwa [unmarked] at read
  | timeout content => exact rowless_object content rfl

/-- A file without rows changes nothing, whatever becomes of the others. -/
theorem loadBenchmarks_skipped (added : dir'.files.Perm (file :: dir.files))
    (nothing : loadFile file = .ok []) : loadBenchmarks dir' = loadBenchmarks dir := by
  by_cases json : file.isJson
  · obtain ⟨before, after, split, rest⟩ := sorted_added added json
    rw [loadBenchmarks, loadBenchmarks, split, rest, List.mapM_append, List.mapM_append,
      List.mapM_cons, nothing]
    cases before.mapM loadFile with
    | error failure => rfl
    | ok first =>
      cases after.mapM loadFile with
      | error failure => rfl
      | ok last => simp [bind, Except.bind, pure, Except.pure]
  · rw [loadBenchmarks, loadBenchmarks, sorted_ignored added json]

/-- The file of a name and the others are the directory. -/
theorem ResultsDir.perm_without (listed : file ∈ dir.files) :
    dir.files.Perm (file :: (dir.without file.name).files) := by
  obtain ⟨before, after, split⟩ := List.append_of_mem listed
  have apart := dir.distinct
  rw [split, List.map_append, List.map_cons, List.nodup_middle, List.nodup_cons,
    ← List.map_append] at apart
  have others : (dir.without file.name).files = before ++ after := by
    have kept : (before ++ after).filter (fun other => other.name ≠ file.name) = before ++ after := by
      rw [List.filter_eq_self]
      intro other present
      refine decide_eq_true fun same => apart.1 ?_
      exact List.mem_map.mpr ⟨other, present, same⟩
    rw [List.filter_append] at kept
    change dir.files.filter (fun other => other.name ≠ file.name) = before ++ after
    rw [split, List.filter_append, List.filter_cons_of_neg (by simp), kept]
  rw [split, others]
  exact List.perm_middle

/-- After a file is written the directory has it and the files of other names. -/
theorem ResultsDir.mem_write {other : ResultFile} : other ∈ (dir.write file).files ↔
    other = file ∨ other ∈ dir.files ∧ other.name ≠ file.name := by
  rw [write, List.mem_cons, without, List.mem_filter, decide_eq_true_eq]

/-- A file without rows that replaces another without rows, if any, leaves the rows. -/
theorem loadBenchmarks_write (nothing : loadFile file = .ok [])
    (rowless : ∀ old ∈ dir.files, old.name = file.name → loadFile old = .ok []) :
    loadBenchmarks (dir.write file) = loadBenchmarks dir := by
  have skipped : loadBenchmarks (dir.write file) = loadBenchmarks (dir.without file.name) :=
    loadBenchmarks_skipped (List.Perm.refl _) nothing
  rw [skipped]
  by_cases replaced : ∃ old ∈ dir.files, old.name = file.name
  · obtain ⟨old, listed, same⟩ := replaced
    rw [← same]
    exact (loadBenchmarks_skipped (dir.perm_without listed) (rowless old listed same)).symm
  · have kept : (dir.without file.name).files = dir.files := by
      rw [ResultsDir.without, List.filter_eq_self]
      intro other listed
      exact decide_eq_true fun same => replaced ⟨other, listed, same⟩
    rw [loadBenchmarks, loadBenchmarks, ResultsDir.sorted, ResultsDir.sorted, kept]

/-- The report can be written if each of its files has a line. -/
theorem report_ok_iff : (∃ lines, report dir = .ok lines) ↔
    ∀ file ∈ dir.files, file.isJson → ∃ line, reportLine file = .ok line := by
  rw [report, exists_mapM_eq_ok_iff]
  simp only [mem_sorted, and_imp]

end Outputs

/-- The scripts leave a matrix or a placeholder in the directory. A placeholder takes the place of
what the benchmark has written until then, which has no rows. -/
inductive ScriptStep : ResultsDir → ResultsDir → Prop
  -- MATRIX_OUT="${RESULTS_DIR}/decision_matrix.json"
  | matrix {dir : ResultsDir} {matrix : Matrix} (args : Arguments)
      (done : main args (some dir) = .ok matrix) :
      ScriptStep dir (dir.write ⟨"decision_matrix.json", .json matrix.document⟩)
  -- output_file="${RESULTS_DIR}/${name}.json"
  | timeout {dir : ResultsDir} (name : String)
      (unmeasured : ∀ file ∈ dir.files, file.name = name ++ ".json" → loadFile file = .ok []) :
      ScriptStep dir (dir.write ⟨name ++ ".json", .json timeoutDocument⟩)

/-- No rows are in the place of the matrix. -/
def ResultsDir.Fresh (dir : ResultsDir) : Prop :=
  ∀ file ∈ dir.files, file.name = "decision_matrix.json" → loadFile file = .ok []

section Session

variable {dir dir' : ResultsDir}

/-- What a step of the scripts does: an output replaces a file without rows, if any. -/
theorem ScriptStep.writes (step : ScriptStep dir dir') (fresh : dir.Fresh) :
    ∃ file note, dir' = dir.write file ∧ file.Output note ∧
      ∀ old ∈ dir.files, old.name = file.name → loadFile old = .ok [] := by
  cases step with
  | matrix args done => exact ⟨_, _, rfl, .matrix _ rfl, fresh⟩
  | timeout name unmeasured => exact ⟨_, _, rfl, .timeout rfl, unmeasured⟩

/-- A step of the scripts keeps the directory fresh. -/
theorem ScriptStep.fresh (step : ScriptStep dir dir') (fresh : dir.Fresh) : dir'.Fresh := by
  obtain ⟨file, note, rfl, output, _⟩ := step.writes fresh
  intro other present named
  rcases ResultsDir.mem_write.mp present with rfl | ⟨older, _⟩
  · exact output.rowless.1
  · exact fresh other older named

/-- A step of the scripts leaves the rows as they were. -/
theorem ScriptStep.loadBenchmarks_eq (step : ScriptStep dir dir') (fresh : dir.Fresh) :
    loadBenchmarks dir' = loadBenchmarks dir := by
  obtain ⟨file, note, rfl, output, rowless⟩ := step.writes fresh
  exact loadBenchmarks_write output.rowless.1 rowless

/-- A step leaves files that were there and files the report has a line for. -/
theorem ScriptStep.files (step : ScriptStep dir dir') (fresh : dir.Fresh) :
    ∀ file ∈ dir'.files, file ∈ dir.files ∨ ∃ line, reportLine file = .ok line := by
  obtain ⟨output, note, rfl, written, _⟩ := step.writes fresh
  intro file present
  rcases ResultsDir.mem_write.mp present with rfl | ⟨older, _⟩
  · exact .inr ⟨_, written.rowless.2⟩
  · exact .inl older

/-- A session of the scripts keeps the rows, and adds only files the report has a line for. -/
theorem session_keeps (fresh : dir.Fresh) (session : Relation.ReflTransGen ScriptStep dir dir') :
    dir'.Fresh ∧ loadBenchmarks dir' = loadBenchmarks dir ∧
      ∀ file ∈ dir'.files, file ∈ dir.files ∨ ∃ line, reportLine file = .ok line := by
  induction session with
  | refl => exact ⟨fresh, rfl, fun file present => .inl present⟩
  | tail _ step inductionHypothesis =>
    obtain ⟨before, rows, files⟩ := inductionHypothesis
    refine ⟨step.fresh before, (step.loadBenchmarks_eq before).trans rows, fun file present => ?_⟩
    rcases step.files before file present with older | shown
    · exact files file older
    · exact .inr shown

end Session

/-- What the scripts leave in the directory does not count. However often a matrix is written
there and a benchmark times out, in whatever order, the script ends as it would without them,
with the same matrix or the same failure. The report can be written if it could be before, and
exactly if each file of before that is still there has a line. It has a line for each of what
the scripts have left that says it is no report. -/
theorem outputs_ignored {dir dir' : ResultsDir} (fresh : dir.Fresh)
    (session : Relation.ReflTransGen ScriptStep dir dir') :
    (∀ args, main args (some dir') = main args (some dir)) ∧
    ((∃ lines, report dir = .ok lines) → ∃ lines, report dir' = .ok lines) ∧
    ((∃ lines, report dir' = .ok lines) ↔ ∀ file ∈ dir.files, file ∈ dir'.files →
      file.isJson → ∃ line, reportLine file = .ok line) ∧
    (∀ lines file note, report dir' = .ok lines → file ∈ dir'.sorted → file.Output note →
      (file, noteLine file note) ∈ dir'.sorted.zip lines) := by
  obtain ⟨_, rows, files⟩ := session_keeps fresh session
  have remaining : (∃ lines, report dir' = .ok lines) ↔ ∀ file ∈ dir.files, file ∈ dir'.files →
      file.isJson → ∃ line, reportLine file = .ok line := by
    rw [report_ok_iff]
    constructor
    · intro each file _ present
      exact each file present
    · intro kept file present json
      rcases files file present with older | shown
      · exact kept file older present json
      · exact shown
  refine ⟨fun args => by simp only [main, rows], fun before => ?_, remaining, ?_⟩
  · exact remaining.mpr fun file older _ => report_ok_iff.mp before file older
  · intro lines file note reported listed output
    obtain ⟨line, placed, read⟩ := result_of_mem (mapM_eq_ok_iff.mp reported) listed
    obtain rfl := Except.ok.inj (output.rowless.2.symm.trans read)
    exact placed

/-- The matrix of the three reports is written again, after a benchmark has timed out. -/
theorem outputs_ignored_two : ∃ matrix, main sampleArguments (some threeReports) = .ok matrix ∧
    main sampleArguments (some
      ((threeReports.write ⟨"decision_matrix.json", .json matrix.document⟩).write
        ⟨"rw_shared_mutex" ++ ".json", .json timeoutDocument⟩)) = .ok matrix := by
  obtain ⟨matrix, rows, done, loaded, _⟩ := threeReports_loaded
  have fresh : threeReports.Fresh := by
    intro file listed named
    simp only [threeReports, List.mem_cons, List.not_mem_nil, or_false] at listed
    rcases listed with rfl | rfl | rfl <;> exact absurd named (by decide)
  have unmeasured : ∀ file ∈ (threeReports.write
      ⟨"decision_matrix.json", .json matrix.document⟩).files,
      file.name = "rw_shared_mutex" ++ ".json" → loadFile file = .ok [] := by
    intro file listed named
    rcases ResultsDir.mem_write.mp listed with rfl | ⟨report, _⟩
    · exact absurd named (by simp)
    · simp only [threeReports, List.mem_cons, List.not_mem_nil, or_false] at report
      rcases report with rfl | rfl | rfl <;> exact absurd named (by decide)
  refine ⟨matrix, done, ?_⟩
  rw [(outputs_ignored fresh (.tail (.single (.matrix sampleArguments done))
    (.timeout "rw_shared_mutex" unmeasured))).1 sampleArguments, done]

end ConcurrencyBench.DecisionMatrix
