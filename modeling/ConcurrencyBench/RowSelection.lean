import ConcurrencyBench.FirstChoice
import ConcurrencyBench.ResultFiles

/-!
# The rows of the matrix

Where every results file is a report or carries an error marker, the loader reads the
directory, and what it keeps are the rows of the reports but for the aggregates that are
no means, file by file in the order of the names and row by row in the order of a file.
Out of these `pick_best` makes the first choice among the rows that match, preferring
means. So the selected row can be told from the directory alone, and rows that do not
match or are left out may be added anywhere.
-/

namespace ConcurrencyBench.DecisionMatrix

open Documents FirstChoice

/-- A row of a file, with what the file says about all of its rows. -/
structure Listed where
  source : String
  context : Json
  bench : Dict
deriving DecidableEq

namespace Listed

/-- The name a row is listed under. -/
def name (listed : Listed) : String :=
  match listed.bench.get "name" with
  | .str name => name
  | _ => ""

/-- The row has a name that can be read. -/
def Named (listed : Listed) : Prop :=
  listed.bench.get "name" = .str listed.name ∧ listed.name ≠ ""

/-- The row may be selected for the pattern. -/
def Matches (pattern : String) (listed : Listed) : Prop :=
  pattern.toList <:+: listed.name.toList

instance (pattern : String) : DecidablePred (Matches pattern) :=
  fun listed => inferInstanceAs (Decidable (pattern.toList <:+: listed.name.toList))

/-- A mean of repetitions. -/
def Mean (listed : Listed) : Prop := listed.name.endsWith "_mean" = true

instance : DecidablePred Mean :=
  fun listed => inferInstanceAs (Decidable (listed.name.endsWith "_mean" = true))

/-- A standard deviation, a coefficient of variation or a median of repetitions. -/
def Dropped (listed : Listed) : Prop := dropped listed.name = true

instance : DecidablePred Dropped :=
  fun listed => inferInstanceAs (Decidable (dropped listed.name = true))

end Listed

/-- A row as it was listed in its file. -/
def Row.listed (row : Row) : Listed := ⟨row.source, row.context, row.bench⟩

/-- The row an element of the list of rows is, if it is an object. -/
def Listed.ofItem (source : String) (context : Json) : Json → Option Listed
  | .obj bench => some ⟨source, context, bench⟩
  | _ => none

/-- The rows of a document, in its order. There are none where it has an error marker. -/
def rowsOf (source : String) (data : Dict) : List Listed :=
  if (Dict.get data "error").truthy then
    []
  else
    match Dict.get data "benchmarks" with
    | .arr items => items.filterMap (Listed.ofItem source ((Dict.get data "context").or (.obj [])))
    | _ => []

/-- The rows that a file lists. -/
def ResultFile.listed (file : ResultFile) : List Listed :=
  match file.content with
  | .json (.obj data) => rowsOf file.name data
  | _ => []

/-- The rows of a directory, in the order of the files. -/
def ResultsDir.listed (dir : ResultsDir) : List Listed := dir.sorted.flatMap ResultFile.listed

/-- A document with an error marker, or with a list of rows. -/
def WellFormed (data : Dict) : Prop :=
  (Dict.get data "error").truthy = true ∨
    ∃ items, Dict.get data "benchmarks" = .arr items ∧ ∀ item ∈ items, ∃ bench, item = .obj bench

/-- A well-formed file each of whose rows carries a name. -/
def ResultFile.WellFormed (file : ResultFile) : Prop :=
  (∃ data, file.content = .json (.obj data) ∧ DecisionMatrix.WellFormed data) ∧
    ∀ listed ∈ file.listed, listed.Named

/-- A directory whose results files are well formed. -/
def ResultsDir.WellFormed (dir : ResultsDir) : Prop := ∀ file ∈ dir.sorted, file.WellFormed

/-! ## What is loaded -/

/-- A row that has a name is read under it. -/
theorem benchName_named {listed : Listed} (named : listed.Named) :
    benchName listed.bench = .ok listed.name := by
  obtain ⟨read, full⟩ := named
  have holds : (listed.bench.get "name").truthy = true := by simp [read, Json.truthy, full]
  rw [benchName, Json.or_of_truthy holds, Json.or_of_truthy holds, read]
  rfl

/-- A row that was read goes by the name it was listed under. -/
theorem Row.name_eq {row : Row} (named : row.listed.Named) : row.name = row.listed.name :=
  Except.ok.inj (row.named.symm.trans (benchName_named named))

/-- A row that was read calls itself by the name it was listed under. -/
theorem Row.ownName_eq {row : Row} (named : row.listed.Named) : row.ownName = row.listed.name := by
  have holds : (row.bench.get "name").truthy = true := by
    have read : row.bench.get "name" = .str row.listed.name := named.1
    simp [read, Json.truthy, named.2]
  rw [Row.ownName, if_pos holds, Row.name_eq named]

/-- A row is kept unless it is an aggregate that is left out. -/
theorem loadRow_named {listed : Listed} (named : listed.Named) :
    ∃ kept, loadRow listed.source listed.context (.obj listed.bench) = .ok kept ∧
      kept.map Row.listed = if listed.Dropped then none else some listed := by
  have read := benchName_named named
  refine ⟨if dropped listed.name then none else
    some ⟨listed.source, listed.context, listed.bench, listed.name, read⟩, ?_, ?_⟩
  · simp only [loadRow, Json.dict, bind, Except.bind]
    split
    next failed => simp [read] at failed
    next other again =>
      obtain rfl := Except.ok.inj (read.symm.trans again)
      rfl
  · by_cases out : dropped listed.name = true
    · simp [Listed.Dropped, out]
    · simp [Listed.Dropped, out, Row.listed]

/-- Of a list of rows those are kept that are not left out. -/
theorem rows_kept {source : String} {context : Json} {items : List Json}
    (objects : ∀ item ∈ items, ∃ bench, item = .obj bench)
    (named : ∀ listed ∈ items.filterMap (Listed.ofItem source context), listed.Named) :
    ∃ kept, items.mapM (loadRow source context) = .ok kept ∧
      kept.reduceOption.map Row.listed =
        (items.filterMap (Listed.ofItem source context)).filter fun listed => ¬ listed.Dropped := by
  have each : ∀ item ∈ items, ∃ kept, loadRow source context item = .ok kept ∧
      kept.map Row.listed =
        (Listed.ofItem source context item).filter fun listed => ¬ listed.Dropped := by
    intro item member
    obtain ⟨bench, rfl⟩ := objects item member
    have isNamed := named ⟨source, context, bench⟩ (List.mem_filterMap.mpr ⟨_, member, rfl⟩)
    obtain ⟨kept, read, same⟩ := loadRow_named isNamed
    refine ⟨kept, read, same.trans ?_⟩
    by_cases out : (⟨source, context, bench⟩ : Listed).Dropped
    · simp [Listed.ofItem, Option.filter, out]
    · simp [Listed.ofItem, Option.filter, out]
  obtain ⟨kept, read, same⟩ := exists_mapM_map_eq each
  refine ⟨kept, read, ?_⟩
  rw [← List.reduceOption_map, same, List.reduceOption, List.filterMap_map, List.filter_filterMap]
  rfl

/-- Of a file the rows are kept that are not left out. -/
theorem loadFile_wellFormed {file : ResultFile} (wellFormed : file.WellFormed) :
    ∃ rows, loadFile file = .ok rows ∧
      rows.map Row.listed = file.listed.filter fun listed => ¬ listed.Dropped := by
  obtain ⟨⟨data, content, shape⟩, named⟩ := wellFormed
  have read : loadFile file =
      if (Dict.get data "error").truthy then .ok [] else do
        let benches ← ((Dict.get data "benchmarks").or (.arr [])).items
        return (← benches.mapM (loadRow file.name
          ((Dict.get data "context").or (.obj [])))).reduceOption := by
    simp only [loadFile, content]
    rfl
  have listed : file.listed = rowsOf file.name data := by simp only [ResultFile.listed, content]
  rw [read]
  by_cases marked : (Dict.get data "error").truthy = true
  · refine ⟨[], if_pos marked, ?_⟩
    simp [listed, rowsOf, marked]
  · obtain ⟨items, benchmarks, objects⟩ := shape.resolve_left marked
    have isListed : file.listed = items.filterMap
        (Listed.ofItem file.name ((Dict.get data "context").or (.obj []))) := by
      simp [listed, rowsOf, marked, benchmarks]
    rw [isListed] at named
    obtain ⟨kept, rows, same⟩ := rows_kept objects named
    refine ⟨kept.reduceOption, ?_, by rw [same, isListed]⟩
    have values : ((Json.arr items).or (.arr [])).items = .ok items := by
      cases items with
      | nil => rfl
      | cons item items => rfl
    rw [if_neg marked, benchmarks, values]
    simp only [bind_eq_ok_iff, pure_eq_ok_iff]
    exact ⟨items, rfl, kept, rows, rfl⟩

/-- Of a directory the rows are kept that are not left out. -/
theorem loadBenchmarks_wellFormed {dir : ResultsDir} (wellFormed : dir.WellFormed) :
    ∃ rows, loadBenchmarks dir = .ok rows ∧
      rows.map Row.listed = dir.listed.filter fun listed => ¬ listed.Dropped := by
  obtain ⟨loaded, read, same⟩ := exists_mapM_map_eq
    fun file present => loadFile_wellFormed (wellFormed file present)
  refine ⟨loaded.flatten, ?_, ?_⟩
  · simp only [loadBenchmarks, bind_eq_ok_iff, pure_eq_ok_iff]
    exact ⟨loaded, read, rfl⟩
  · rw [List.map_flatten, same, ResultsDir.listed, List.filter_flatMap, List.flatMap]

/-! ## What is selected -/

/-- The selected row is the first choice among the rows of the directory. -/
theorem pickBest_listed {dir : ResultsDir} {rows : List Row} (wellFormed : dir.WellFormed)
    (kept : rows.map Row.listed = dir.listed.filter fun listed => ¬ listed.Dropped)
    (pattern : String) :
    (pickBest rows pattern).map Row.listed =
      choose (fun listed => listed.Matches pattern && !listed.Dropped)
        (fun listed => listed.Mean) dir.listed := by
  have named : ∀ row ∈ rows, row.listed.Named := by
    intro row member
    have among : row.listed ∈ dir.listed.filter fun listed => ¬ listed.Dropped :=
      kept ▸ List.mem_map_of_mem member
    obtain ⟨file, present, within⟩ := List.mem_flatMap.mp (List.mem_of_mem_filter among)
    exact (wellFormed file present).2 row.listed within
  have picked : pickBest rows pattern =
      choose (fun row => pattern.toList <:+: row.name.toList)
        (fun row => row.ownName.endsWith "_mean") rows := rfl
  have same : pickBest rows pattern =
      choose ((fun listed => decide (listed.Matches pattern)) ∘ Row.listed)
        ((fun listed => decide listed.Mean) ∘ Row.listed) rows := by
    rw [picked]
    refine choose_congr (fun row member => ?_) (fun row member => ?_)
    · rw [Row.name_eq (named row member)]
      rfl
    · rw [Row.ownName_eq (named row member)]
      exact Bool.decide_eq_true.symm
  rw [same, ← choose_map, kept, choose_filter]
  simp

/-- A name ends with the characters of its suffix. -/
theorem endsWith_iff (name suffix : String) :
    name.endsWith suffix = true ↔ suffix.toList <:+ name.toList := by
  rw [String.endsWith, String.Slice.endsWith_string_iff, String.copy_toSlice]

/-- Means are never left out, as no name ends in two ways neither of which ends the other. -/
theorem Listed.Mean.not_dropped {listed : Listed} (mean : listed.Mean) : ¬ listed.Dropped := by
  have apart : ∀ suffix : String, ¬ suffix.toList <:+ "_mean".toList →
      ¬ "_mean".toList <:+ suffix.toList → ¬ listed.name.endsWith suffix = true := by
    intro suffix shorter longer also
    rcases List.suffix_or_suffix_of_suffix ((endsWith_iff _ _).mp also)
      ((endsWith_iff _ _).mp mean) with within | around
    · exact shorter within
    · exact longer around
  intro out
  simp only [Listed.Dropped, dropped, Bool.or_eq_true] at out
  obtain (deviation | variation) | median := out
  · exact apart "_stddev" (by decide) (by decide) deviation
  · exact apart "_cv" (by decide) (by decide) variation
  · exact apart "_median" (by decide) (by decide) median

/-- Row selection is exact. A directory whose results files are well formed, with rows that carry
names, is loaded. No row is selected exactly if each row that matches is left out. A selected row
matches and is not left out; it is the first mean that matches, or, where no mean matches, the
first row that matches and is not left out. And rows that do not match or are left out may be added
anywhere. -/
theorem selection_exact (dir : ResultsDir) (wellFormed : dir.WellFormed) (pattern : String) :
    ∃ rows, loadBenchmarks dir = .ok rows ∧
      (pickBest rows pattern = none ↔
        ∀ listed ∈ dir.listed, listed.Matches pattern → listed.Dropped) ∧
      (∀ row, pickBest rows pattern = some row →
        row.listed.Matches pattern ∧ ¬ row.listed.Dropped ∧
          ∃ before after, dir.listed = before ++ row.listed :: after ∧
            ((row.listed.Mean ∧ ∀ earlier ∈ before, earlier.Matches pattern → ¬ earlier.Mean) ∨
              ((∀ listed ∈ dir.listed, listed.Matches pattern → ¬ listed.Mean) ∧
                ∀ earlier ∈ before, earlier.Matches pattern → earlier.Dropped))) ∧
      ∀ dir' : ResultsDir, dir'.WellFormed →
        Inserted (fun listed => ¬ listed.Matches pattern ∨ listed.Dropped) dir.listed dir'.listed →
          ∃ rows', loadBenchmarks dir' = .ok rows' ∧
            (pickBest rows' pattern).map Row.listed = (pickBest rows pattern).map Row.listed := by
  obtain ⟨rows, loaded, kept⟩ := loadBenchmarks_wellFormed wellFormed
  have chosen := pickBest_listed wellFormed kept pattern
  refine ⟨rows, loaded, ?_, fun row picked => ?_, fun dir' wellFormed' inserted => ?_⟩
  · rw [← Option.map_eq_none_iff (f := Row.listed), chosen, choose_eq_none_iff]
    simp
  · rw [picked] at chosen
    obtain ⟨fits, before, after, split, first⟩ := choose_eq_some_iff.mp chosen.symm
    simp only [Bool.and_eq_true, decide_eq_true_eq, Bool.not_eq_true', decide_eq_false_iff_not,
      Bool.and_eq_false_imp, Bool.not_eq_false'] at fits first
    refine ⟨fits.1, fits.2, before, after, split, ?_⟩
    rcases first with ⟨mean, noEarlier⟩ | ⟨noMean, out⟩
    · refine Or.inl ⟨mean, fun earlier member matching isMean => ?_⟩
      exact noEarlier earlier member ⟨matching, isMean.not_dropped⟩ isMean
    · refine Or.inr ⟨fun listed member matching isMean => ?_, out⟩
      exact noMean listed member ⟨matching, isMean.not_dropped⟩ isMean
  · obtain ⟨rows', loaded', kept'⟩ := loadBenchmarks_wellFormed wellFormed'
    refine ⟨rows', loaded', ?_⟩
    rw [pickBest_listed wellFormed' kept' pattern, chosen]
    refine choose_inserted inserted fun listed useless => ?_
    rcases useless with apart | out
    · simp [apart]
    · simp [out]

/-- A report on the repetitions of a benchmark. -/
def repetitionsFile (name : String) (benches : List String) : ResultFile :=
  { name := name
    content := .json (.obj
      [("benchmarks", .arr (benches.map fun bench =>
        .obj [("name", .str bench), ("run_type", .str "aggregate")]))]) }

/-- The directory of a run in which one benchmark has failed. -/
def repetitions (benches : List String) : ResultsDir where
  files :=
    [repetitionsFile "counter_mutex.json" benches,
     ⟨"barrier.json", .json (.obj [("error", .str "timed out")])⟩]
  distinct := by simp [repetitionsFile]

/-- A row of repeated runs. -/
def repetition (bench : String) : Listed :=
  ⟨"counter_mutex.json", .obj [], [("name", .str bench), ("run_type", .str "aggregate")]⟩

/-- A file of repeated runs lists them. -/
theorem repetitionsFile_listed (benches : List String) :
    (repetitionsFile "counter_mutex.json" benches).listed = benches.map repetition := by
  rw [← List.filterMap_eq_map]
  exact List.filterMap_map

/-- A directory of repeated runs that have names can be read. -/
theorem repetitions_wellFormed {benches : List String} (named : ∀ bench ∈ benches, bench ≠ "") :
    (repetitions benches).WellFormed := by
  intro file present
  have among := (mem_sorted.mp present).1
  simp only [repetitions, List.mem_cons, List.not_mem_nil, or_false] at among
  rcases among with rfl | rfl
  · refine ⟨⟨_, rfl, Or.inr ⟨_, rfl, ?_⟩⟩, ?_⟩
    · simp
    · rw [repetitionsFile_listed]
      intro listed member
      obtain ⟨bench, among, rfl⟩ := List.mem_map.mp member
      exact ⟨rfl, named bench among⟩
  · exact ⟨⟨_, rfl, Or.inl rfl⟩, nofun⟩

/-- The rows of a benchmark run twice. -/
def counterNames : List String :=
  ["Counter_Mutex_Hot/8", "Counter_Mutex_Hot/8_mean", "Counter_Mutex_Hot/8_cv"]

/-- The same rows and one more. -/
def moreCounterNames : List String :=
  ["Counter_Spin_Hot/8_mean", "Counter_Mutex_Hot/8", "Counter_Mutex_Hot/8_stddev",
   "Counter_Mutex_Hot/8_mean", "Counter_Mutex_Hot/8_cv"]

/-- The mean is selected, with the same rows or more. -/
theorem selection_exact_repetitions :
    ∃ rows rows', loadBenchmarks (repetitions counterNames) = .ok rows ∧
      loadBenchmarks (repetitions moreCounterNames) = .ok rows' ∧
      (pickBest rows "Counter_Mutex_Hot").map Row.listed =
        some (repetition "Counter_Mutex_Hot/8_mean") ∧
      (pickBest rows' "Counter_Mutex_Hot").map Row.listed =
        some (repetition "Counter_Mutex_Hot/8_mean") := by
  have lists : (repetitions counterNames).listed = counterNames.map repetition := by
    decide +kernel
  have listsMore : (repetitions moreCounterNames).listed = moreCounterNames.map repetition := by
    decide +kernel
  obtain ⟨rows, loaded, -, -, same⟩ := selection_exact (repetitions counterNames)
    (repetitions_wellFormed (by decide)) "Counter_Mutex_Hot"
  have inserted : Inserted
      (fun listed => ¬ listed.Matches "Counter_Mutex_Hot" ∨ listed.Dropped)
      (repetitions counterNames).listed (repetitions moreCounterNames).listed := by
    have apart : ¬ (repetition "Counter_Spin_Hot/8_mean").Matches "Counter_Mutex_Hot" := by
      decide +kernel
    have deviation : (repetition "Counter_Mutex_Hot/8_stddev").Dropped := by decide +kernel
    rw [lists, listsMore]
    refine .insert _ ?_ (.keep _ (.insert _ ?_ (.keep _ (.keep _ .nil))))
    · exact Or.inl apart
    · exact Or.inr deviation
  obtain ⟨rows', loaded', moved⟩ := same (repetitions moreCounterNames)
    (repetitions_wellFormed (by decide)) inserted
  have read : (loadBenchmarks (repetitions counterNames)).toOption.map (fun rows =>
      (pickBest rows "Counter_Mutex_Hot").map Row.listed) =
        some (some (repetition "Counter_Mutex_Hot/8_mean")) := by
    decide +kernel
  simp only [loaded, Except.toOption, Option.map_some, Option.some.injEq] at read
  exact ⟨rows, rows', loaded, loaded', read, moved.trans read⟩

end ConcurrencyBench.DecisionMatrix
