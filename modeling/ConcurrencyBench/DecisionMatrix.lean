import ConcurrencyBench.Documents
import Mathlib.Data.List.Infix
import Mathlib.Data.List.ReduceOption
import Mathlib.Data.List.Sort
import Mathlib.Data.String.Basic

/-!
# The decision matrix

`build_decision_matrix.py` reads the JSON files of a results directory, keeps their
rows but for the aggregates that are no means, selects a row for each primitive of a
workload and writes one entry per primitive. Exceptions that the script does not catch
end it, so that no matrix is written.

A results directory is a list of files with distinct names. Its files are text that
cannot be decoded, text that is not JSON, a document, or a file that the interpreter
fails to read for a reason of its own. What the script learns from its arguments and its
platform is a parameter. A pattern of the rules is a plain string that is searched for,
and a debug build is recognised by ASCII letters, as no other letter has one of those of
the word as its lower case. The matrix is always written: the limits of the disk and of
the interpreter's stack are left out there.
-/

namespace ConcurrencyBench.DecisionMatrix

open Documents

/-- What `path.read_text()` and `json.loads` make of a file. -/
inductive Content
  | undecodable
  -- JSONDecodeError
  | notJson
  -- any other exception: ValueError for an integer of more than 4300 digits, RecursionError
  -- for lists nested too deep, OSError for what is not a file
  | failing (failure : Failure)
  | json (data : Json)

/-- A file of the directory. -/
structure ResultFile where
  name : String
  content : Content

/-- A directory of files, no two of one name. -/
structure ResultsDir where
  files : List ResultFile
  distinct : (files.map ResultFile.name).Nodup

/-- `sorted(results_dir.glob("*.json"))` -/
def ResultsDir.sorted (dir : ResultsDir) : List ResultFile :=
  (dir.files.filter fun file => file.name.endsWith ".json").insertionSort
    fun first second => first.name ≤ second.name

/-- A primitive of a workload, with the label of its benchmark and its pattern. -/
structure Primitive where
  primitive : String
  label : String
  pattern : String

/-- A workload and the primitives that compete for it. -/
structure Rule where
  workloadId : String
  primitives : List Primitive

/-- `WORKLOAD_RULES` -/
def workloadRules : List Rule :=
  [⟨"W.counter.hot",
    [⟨"mutex", "Counter_Mutex_Hot", "Counter_Mutex_Hot"⟩,
     ⟨"atomic_relaxed", "Counter_Atomic_Relaxed", "Counter_Atomic_Relaxed"⟩,
     ⟨"spinlock", "Counter_Spin_Hot", "Counter_Spin_Hot"⟩]⟩,
   ⟨"W.atomic.mo",
    [⟨"seq_cst", "Counter_Atomic_SeqCst", "Counter_Atomic_SeqCst"⟩,
     ⟨"acq_rel", "Counter_Atomic_AcqRel", "Counter_Atomic_AcqRel"⟩,
     ⟨"relaxed", "Counter_Atomic_Relaxed", "Counter_Atomic_Relaxed"⟩]⟩,
   ⟨"W.rwlock.read_heavy",
    [⟨"shared_mutex", "SharedMutex_ReadHeavy_90_10", "SharedMutex_ReadHeavy"⟩,
     ⟨"exclusive_mutex", "ExclusiveMutex_ReadHeavy_90_10", "ExclusiveMutex_ReadHeavy"⟩]⟩,
   ⟨"W.pc.bounded",
    [⟨"condvar", "PC_CondVar", "PC_CondVar"⟩,
     ⟨"semaphore_spsc", "ProducerConsumer_SPSC_Semaphore", "ProducerConsumer_SPSC"⟩]⟩,
   ⟨"W.barrier.phases",
    [⟨"std_barrier", "StdBarrier_WithWork", "StdBarrier_WithWork"⟩,
     ⟨"manual_barrier", "ManualBarrier_WithWork", "ManualBarrier_WithWork"⟩]⟩,
   ⟨"W.tasks.cpu_many",
    [⟨"thread_pool", "ThreadPool_CPUBound", "ThreadPool_CPUBound"⟩,
     ⟨"std_async", "StdAsync_CPUBound", "StdAsync_CPUBound"⟩]⟩,
   ⟨"W.coro.io_many",
    [⟨"coroutines_io", "Coroutines_IOBound", "Coroutines_IOBound"⟩]⟩]

/-! ## Loading -/

/-- The name `load_benchmarks` and `pick_best` read from a row. -/
def benchName (bench : Dict) : Except Failure String :=
  -- bench.get("name") or bench.get("run_name") or ""
  (((bench.get "name").or (bench.get "run_name")).or (.str "")).text

/-- A loaded row, with the name it was loaded under. -/
structure Row where
  source : String
  context : Json
  bench : Dict
  name : String
  named : benchName bench = .ok name

/-- The aggregates that are left out. -/
def dropped (name : String) : Bool :=
  name.endsWith "_stddev" || name.endsWith "_cv" || name.endsWith "_median"

/-- One round of the inner loop of `load_benchmarks`: a row, or nothing if it is dropped. -/
def loadRow (source : String) (context item : Json) : Except Failure (Option Row) := do
  let bench ← item.dict
  match named : benchName bench with
  | .error failure => .error failure
  | .ok name => return if dropped name then none else some ⟨source, context, bench, name, named⟩

/-- One round of the outer loop of `load_benchmarks`. -/
def loadFile (file : ResultFile) : Except Failure (List Row) :=
  match file.content with
  | .undecodable => .error .unicodeDecodeError
  -- except json.JSONDecodeError: continue
  | .notJson => .ok []
  | .failing failure => .error failure
  | .json value => do
    let data ← value.dict
    -- if data.get("error"): continue
    if (data.get "error").truthy then
      return []
    let context := (data.get "context").or (.obj [])
    let benches ← ((data.get "benchmarks").or (.arr [])).items
    return (← benches.mapM (loadRow file.name context)).reduceOption

/-- `load_benchmarks` -/
def loadBenchmarks (dir : ResultsDir) : Except Failure (List Row) := do
  return (← dir.sorted.mapM loadFile).flatten

/-! ## Selecting -/

/-- `item[2].get("name") or ""`, of a row -/
def Row.ownName (row : Row) : String :=
  if (row.bench.get "name").truthy then row.name else ""

/-- The row's own name can be read, as the name it goes by has been. -/
theorem Row.ownName_text (row : Row) :
    ((row.bench.get "name").or (.str "")).text = .ok row.ownName := by
  by_cases holds : (row.bench.get "name").truthy = true
  · have named := row.named
    rw [benchName, Json.or_of_truthy holds, Json.or_of_truthy holds] at named
    rw [Json.or_of_truthy holds, named, Row.ownName, if_pos holds]
  · rw [Json.or_of_not_truthy (by simpa using holds), Row.ownName, if_neg holds]
    rfl

/-- `pick_best` -/
def pickBest (rows : List Row) (pattern : String) : Option Row :=
  let hits := rows.filter fun row => pattern.toList <:+: row.name.toList
  -- Prefer *_mean aggregates, else first match.
  (hits.find? fun row => row.ownName.endsWith "_mean").or hits.head?

/-! ## Writing -/

/-- What the matrix says of a primitive. -/
structure Entry where
  primitive : String
  benchmark : Json
  itemsPerSecond : Json
  realTimeNs : Json
  fairnessCv : Json
  sourceFile : Option String
deriving DecidableEq

/-- What the matrix says of a workload. -/
structure Workload where
  id : String
  entries : List Entry
deriving DecidableEq

/-- The machine, as the first row's context has it. -/
structure Host where
  name : String
  os : String
  numCpus : Json
  mhzPerCpu : Json

/-- The build, as the first row's context has it. -/
structure Build where
  buildType : Json
  nativeArch : Bool
  notes : String

/-- What the script writes. -/
structure Matrix where
  schemaVersion : String
  generatedAt : String
  host : Host
  build : Build
  workloads : List Workload
  warnings : List String

/-- The script's arguments, with what it asks of the clock and the platform. -/
structure Arguments where
  resultsDir : String
  host : String
  nativeArch : Bool
  os : String
  now : String

/-- The warning of a matrix without rows. -/
def noRowsWarning : String := "No parseable benchmark JSON found"

/-- The warning of a debug build of the library. -/
def debugWarning : String :=
  "Results appear to be from a Debug build — do not cite as Release baseline"

/-- `build_type and str(build_type).lower() == "debug"` -/
def isDebug : Json → Bool
  | .str text => text.toLower = "debug"
  | _ => false

/-- The entry of a primitive: the row picked, or nulls. -/
def entryFor (rows : List Row) (primitive : Primitive) : Except Failure Entry :=
  match pickBest rows primitive.pattern with
  | none =>
    .ok
      { primitive := primitive.primitive, benchmark := .str primitive.label
        itemsPerSecond := .null, realTimeNs := .null, fairnessCv := .null, sourceFile := none }
  | some hit => do
    -- counters = bench.get("counters") or {}
    let counters ← ((hit.bench.get "counters").or (.obj [])).dict
    pure
      { primitive := primitive.primitive
        benchmark := (hit.bench.get "name").or (.str primitive.label)
        itemsPerSecond := hit.bench.get "items_per_second"
        realTimeNs := hit.bench.get "real_time"
        fairnessCv := counters.get "fairness_cv"
        sourceFile := some hit.source }

/-- The entries of a workload. -/
def workloadFor (rows : List Row) (rule : Rule) : Except Failure Workload := do
  return { id := rule.workloadId, entries := ← rule.primitives.mapM (entryFor rows) }

/-- The context that describes the host and the build: that of the first row. -/
def firstContext (rows : List Row) : Except Failure Dict :=
  match rows with
  | [] => .ok []
  -- ctx = rows[0][1]
  | row :: _ => row.context.dict

/-- `main`, whose directory is none where `args.results_dir` is not one. -/
def main (args : Arguments) (dir : Option ResultsDir) : Except Failure Matrix :=
  match dir with
  | none => .error (.systemExit ("Not a directory: " ++ args.resultsDir))
  | some dir => do
    let rows ← loadBenchmarks dir
    let ctx ← firstContext rows
    let buildType := ctx.get "library_build_type"
    let workloads ← workloadRules.mapM (workloadFor rows)
    pure
      { schemaVersion := "1.0.0"
        generatedAt := args.now
        host :=
          { name := args.host, os := args.os
            numCpus := ctx.get "num_cpus", mhzPerCpu := ctx.get "mhz_per_cpu" }
        build :=
          { buildType := buildType, nativeArch := args.nativeArch
            notes := "Generated from " ++ args.resultsDir }
        workloads := workloads
        warnings :=
          (if rows.isEmpty then [noRowsWarning] else []) ++
            (if isDebug buildType then [debugWarning] else []) }

/-! ## What is loaded -/

/-- The build type in the context of a file, null where there is none. -/
def ResultFile.buildType (file : ResultFile) : Json :=
  match file.content with
  | .json data => (data.field "context").field "library_build_type"
  | _ => .null

/-- The library build type in the context of a row's file. -/
def Row.buildType (row : Row) : Json :=
  row.context.field "library_build_type"

/-- A row keeps its file's name and context and the object it was read from. -/
theorem loadRow_some {source : String} {context item : Json} {row : Row}
    (loaded : loadRow source context item = .ok (some row)) :
    row.source = source ∧ row.context = context ∧ item = .obj row.bench := by
  simp only [loadRow, bind_eq_ok_iff, Json.dict_eq_ok_iff] at loaded
  obtain ⟨bench, object, read⟩ := loaded
  split at read
  · simp at read
  · simp only [pure_eq_ok_iff] at read
    split at read
    · simp at read
    · obtain rfl := Option.some.inj read
      exact ⟨rfl, rfl, object⟩

/-- A file gives its name and its build type to its rows. -/
theorem loadFile_mem {file : ResultFile} {rows : List Row} {row : Row}
    (loaded : loadFile file = .ok rows) (listed : row ∈ rows) :
    row.source = file.name ∧ row.buildType = file.buildType := by
  unfold loadFile at loaded
  split at loaded
  · simp at loaded
  · obtain rfl := Except.ok.inj loaded
    simp at listed
  · simp at loaded
  rename_i value parsed
  simp only [bind_eq_ok_iff, Json.dict_eq_ok_iff] at loaded
  obtain ⟨data, rfl, loaded⟩ := loaded
  split at loaded
  · obtain rfl := pure_eq_ok_iff.mp loaded
    simp at listed
  simp only [bind_eq_ok_iff, pure_eq_ok_iff] at loaded
  obtain ⟨benches, -, read, done, rfl⟩ := loaded
  obtain ⟨item, -, kept⟩ :=
    input_of_mem (mapM_eq_ok_iff.mp done) (List.reduceOption_mem_iff.mp listed)
  obtain ⟨source, context, -⟩ := loadRow_some kept
  refine ⟨source, ?_⟩
  simp only [Row.buildType, context, ResultFile.buildType, parsed]
  exact Json.field_or_empty _ _

/-- A row comes from a file of the directory, whose build type it has. -/
theorem loadBenchmarks_mem {dir : ResultsDir} {rows : List Row} {row : Row}
    (loaded : loadBenchmarks dir = .ok rows) (listed : row ∈ rows) :
    ∃ file ∈ dir.files, row.source = file.name ∧ row.buildType = file.buildType := by
  simp only [loadBenchmarks, bind_eq_ok_iff, pure_eq_ok_iff] at loaded
  obtain ⟨read, done, rfl⟩ := loaded
  obtain ⟨some_rows, among, within⟩ := List.mem_flatten.mp listed
  obtain ⟨file, placed, from_file⟩ := input_of_mem (mapM_eq_ok_iff.mp done) among
  have in_dir : file ∈ dir.files := by
    have sorted := (List.of_mem_zip placed).1
    simp only [ResultsDir.sorted, List.mem_insertionSort] at sorted
    exact List.mem_of_mem_filter sorted
  exact ⟨file, in_dir, loadFile_mem from_file within⟩

/-! ## What is written -/

/-- A row selected for some primitive. -/
def Selected (rows : List Row) (row : Row) : Prop :=
  ∃ rule ∈ workloadRules, ∃ primitive ∈ rule.primitives,
    pickBest rows primitive.pattern = some row

/-- The entry of a workload that stands in the place of a primitive whose selected
row is `row`. -/
def Matrix.Takes (matrix : Matrix) (rows : List Row) (workload : Workload) (entry : Entry)
    (row : Row) : Prop :=
  ∃ rule primitive, (rule, workload) ∈ workloadRules.zip matrix.workloads ∧
    (primitive, entry) ∈ rule.primitives.zip workload.entries ∧
    pickBest rows primitive.pattern = some row

/-- What an entry says of its row. -/
structure Entry.Quotes (entry : Entry) (row : Row) : Prop where
  realTimeNs : entry.realTimeNs = row.bench.get "real_time"
  fairnessCv : ∃ counters : Dict, (row.bench.get "counters").or (.obj []) = .obj counters ∧
    entry.fairnessCv = counters.get "fairness_cv"
  sourceFile : entry.sourceFile = some row.source

/-- The rest of `main`, for the rows it has loaded. -/
structure Written (rows : List Row) (matrix : Matrix) : Prop where
  workloads : List.Forall₂ (fun rule workload => workloadFor rows rule = .ok workload)
    workloadRules matrix.workloads
  context : ∃ ctx, firstContext rows = .ok ctx ∧
    matrix.build.buildType = ctx.get "library_build_type"
  warnings : matrix.warnings =
    (if rows.isEmpty then [noRowsWarning] else []) ++
      (if isDebug matrix.build.buildType then [debugWarning] else [])

/-- A matrix that is written has an entry for each primitive of the rules, as the rows say. -/
theorem main_writes {args : Arguments} {dir : ResultsDir} {matrix : Matrix} {rows : List Row}
    (done : main args (some dir) = .ok matrix) (loaded : loadBenchmarks dir = .ok rows) :
    Written rows matrix := by
  simp only [main, bind_eq_ok_iff, pure_eq_ok_iff] at done
  obtain ⟨rows', loaded', ctx, described, workloads, filled, rfl⟩ := done
  obtain rfl : rows = rows' := Except.ok.inj (loaded.symm.trans loaded')
  exact ⟨mapM_eq_ok_iff.mp filled, ⟨ctx, described, rfl⟩, rfl⟩

/-- A workload is written exactly with the entries of its primitives, in order. -/
theorem workloadFor_eq_ok_iff {rows : List Row} {rule : Rule} {workload : Workload} :
    workloadFor rows rule = .ok workload ↔ workload.id = rule.workloadId ∧
      List.Forall₂ (fun primitive entry => entryFor rows primitive = .ok entry)
        rule.primitives workload.entries := by
  simp only [workloadFor, bind_eq_ok_iff, pure_eq_ok_iff, mapM_eq_ok_iff]
  constructor
  · rintro ⟨entries, filled, rfl⟩
    exact ⟨rfl, filled⟩
  · rintro ⟨named, filled⟩
    exact ⟨workload.entries, filled, by rw [← named]⟩

/-- An entry quotes the row picked for it. -/
theorem entryFor_quotes {rows : List Row} {primitive : Primitive} {entry : Entry} {row : Row}
    (written : entryFor rows primitive = .ok entry)
    (found : pickBest rows primitive.pattern = some row) : entry.Quotes row := by
  simp only [entryFor, found, bind_eq_ok_iff, pure_eq_ok_iff, Json.dict_eq_ok_iff] at written
  obtain ⟨counters, nested, rfl⟩ := written
  exact ⟨rfl, ⟨counters, nested, rfl⟩, rfl⟩

/-- Where no row is picked the entry names no file. -/
theorem entryFor_absent {rows : List Row} {primitive : Primitive} {entry : Entry}
    (written : entryFor rows primitive = .ok entry)
    (missing : pickBest rows primitive.pattern = none) : entry.sourceFile = none := by
  simp only [entryFor, missing, Except.ok.injEq] at written
  rw [← written]

/-- The row picked is one of the rows. -/
theorem pickBest_mem {rows : List Row} {pattern : String} {row : Row}
    (found : pickBest rows pattern = some row) : row ∈ rows := by
  simp only [pickBest, Option.or_eq_some_iff] at found
  rcases found with mean | ⟨-, first⟩
  · exact List.mem_of_mem_filter (List.mem_of_find?_eq_some mean)
  · exact List.mem_of_mem_filter (List.mem_of_head? first)

namespace Written

variable {rows : List Row} {matrix : Matrix} {workload : Workload} {entry : Entry} {row : Row}

/-- An entry taken from a row quotes it. -/
theorem quotes (written : Written rows matrix) (taken : matrix.Takes rows workload entry row) :
    entry.Quotes row := by
  obtain ⟨rule, primitive, placed, within, found⟩ := taken
  have filled := (workloadFor_eq_ok_iff.mp (List.forall₂_zip written.workloads placed)).2
  exact entryFor_quotes (List.forall₂_zip filled within) found

/-- A selected row is in the matrix. -/
theorem taken_of_selected (written : Written rows matrix) (selected : Selected rows row) :
    ∃ workload entry, matrix.Takes rows workload entry row := by
  obtain ⟨rule, listed, primitive, within, found⟩ := selected
  obtain ⟨workload, placed, filled⟩ := result_of_mem written.workloads listed
  obtain ⟨entry, at_primitive, -⟩ := result_of_mem (workloadFor_eq_ok_iff.mp filled).2 within
  exact ⟨workload, entry, rule, primitive, placed, at_primitive, found⟩

/-- An entry that names a file quotes a selected row of that file. -/
theorem taken_of_sourceFile (written : Written rows matrix) (listed : workload ∈ matrix.workloads)
    (within : entry ∈ workload.entries) {name : String} (named : entry.sourceFile = some name) :
    ∃ row, matrix.Takes rows workload entry row ∧ row.source = name := by
  obtain ⟨rule, placed, filled⟩ := input_of_mem written.workloads listed
  obtain ⟨primitive, at_primitive, made⟩ := input_of_mem (workloadFor_eq_ok_iff.mp filled).2 within
  cases found : pickBest rows primitive.pattern with
  | none => simp [entryFor_absent made found] at named
  | some row =>
    have quoted := entryFor_quotes made found
    refine ⟨row, ⟨rule, primitive, placed, at_primitive, found⟩, ?_⟩
    simpa [quoted.sourceFile] using named

end Written

/-- What a pattern of the rules picks is selected. -/
theorem selected_of_pattern {rows : List Row} {row : Row} {pattern : String}
    (known : pattern ∈ workloadRules.flatMap fun rule => rule.primitives.map Primitive.pattern)
    (found : pickBest rows pattern = some row) : Selected rows row := by
  obtain ⟨rule, listed, named⟩ := List.mem_flatMap.mp known
  obtain ⟨primitive, within, rfl⟩ := List.mem_map.mp named
  exact ⟨rule, listed, primitive, within, found⟩

/-- What an entry is taken from is selected. -/
theorem Matrix.Takes.selected {matrix : Matrix} {rows : List Row} {workload : Workload}
    {entry : Entry} {row : Row} (taken : matrix.Takes rows workload entry row) :
    Selected rows row := by
  obtain ⟨rule, primitive, placed, within, found⟩ := taken
  exact ⟨rule, (List.of_mem_zip placed).1, primitive, (List.of_mem_zip within).1, found⟩

/-- An entry that is taken is one of the matrix. -/
theorem Matrix.Takes.mem {matrix : Matrix} {rows : List Row} {workload : Workload}
    {entry : Entry} {row : Row} (taken : matrix.Takes rows workload entry row) :
    workload ∈ matrix.workloads ∧ entry ∈ workload.entries := by
  obtain ⟨rule, primitive, placed, within, -⟩ := taken
  exact ⟨(List.of_mem_zip placed).2, (List.of_mem_zip within).2⟩

/-! ## A directory of three reports -/

/-- A file with one row, as Google Benchmark writes it. -/
def reportFile (name buildType : String) (bench : Dict) : ResultFile :=
  { name := name
    content := .json (.obj
      [("context", .obj [("num_cpus", .num 8), ("library_build_type", .str buildType)]),
       ("benchmarks", .arr [.obj bench])]) }

/-- A counter row that lasted 115 milliseconds. -/
def counterMutexBench : Dict :=
  [("name", .str "Counter_Mutex_Hot/1/real_time_mean"), ("real_time", .num 115),
   ("time_unit", .str "ms"), ("fairness_cv", .num 0)]

/-- A row of the condition variables, in nanoseconds. -/
def pcCondVarBench : Dict :=
  [("name", .str "PC_CondVar/1/1/real_time_mean"), ("real_time", .num 153505804),
   ("time_unit", .str "ns")]

/-- A row of the semaphores that lasted 200 milliseconds. -/
def pcSemaphoreBench : Dict :=
  [("name", .str "ProducerConsumer_SPSC_Semaphore/10/real_time_mean"), ("real_time", .num 200),
   ("time_unit", .str "ms")]

/-- A directory with a report for each of these rows. -/
def threeReports : ResultsDir where
  files :=
    [reportFile "counter_mutex.json" "release" counterMutexBench,
     reportFile "pc_condvar.json" "debug" pcCondVarBench,
     reportFile "pc_semaphore.json" "release" pcSemaphoreBench]
  distinct := by decide

/-- The command line without options. -/
def sampleArguments : Arguments :=
  { resultsDir := "benchmark_results", host := "unknown", nativeArch := false
    os := "Linux", now := "2025-09-17T10:56:56+00:00" }

/-- A matrix is written, and each report's row is selected. -/
theorem threeReports_loaded :
    ∃ matrix rows, main sampleArguments (some threeReports) = .ok matrix ∧
      loadBenchmarks threeReports = .ok rows ∧
      (∃ row, Selected rows row ∧ row.bench = counterMutexBench) ∧
      (∃ row, Selected rows row ∧ row.bench = pcCondVarBench) ∧
      (∃ row, Selected rows row ∧ row.bench = pcSemaphoreBench) := by
  have read : (loadBenchmarks threeReports).toOption.map (fun rows =>
      ["Counter_Mutex_Hot", "PC_CondVar", "ProducerConsumer_SPSC"].map fun pattern =>
        (pickBest rows pattern).map Row.bench) =
      some [some counterMutexBench, some pcCondVarBench, some pcSemaphoreBench] := by
    decide +kernel
  have writes : (main sampleArguments (some threeReports)).toOption.map (fun _ => true) =
      some true := by
    decide +kernel
  obtain ⟨rows, loaded, picked⟩ := ok_of_map_toOption read
  obtain ⟨matrix, done, -⟩ := ok_of_map_toOption writes
  simp only [List.map_cons, List.map_nil, List.cons.injEq, Option.map_eq_some_iff] at picked
  obtain ⟨⟨mutex, pickedMutex, benchMutex⟩, ⟨condvar, pickedCondvar, benchCondvar⟩,
    ⟨semaphore, pickedSemaphore, benchSemaphore⟩, -⟩ := picked
  exact ⟨matrix, rows, done, loaded,
    ⟨mutex, selected_of_pattern (by decide) pickedMutex, benchMutex⟩,
    ⟨condvar, selected_of_pattern (by decide) pickedCondvar, benchCondvar⟩,
    ⟨semaphore, selected_of_pattern (by decide) pickedSemaphore, benchSemaphore⟩⟩

end ConcurrencyBench.DecisionMatrix
