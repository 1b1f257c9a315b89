import ConcurrencyBench.DecisionMatrix

/-!
# Bad files in the results directory

`load_benchmarks` skips a file that is not JSON and takes missing or empty fields for
empty. Every other surprise is an exception that nobody catches: a file that cannot be
decoded, one the parser gives up on, a document or a row that is not an object, a list of
rows that is not a list, a name that is not a string. So the files that may lie in the
directory are the others, and one of them adds no row unless it is a report.
-/

namespace ConcurrencyBench.DecisionMatrix

open Documents

/-- A row whose name is a string, where it has one. -/
def Nameable (item : Json) : Prop :=
  ∃ (bench : Dict) (name : String), item = .obj bench ∧
    ((bench.get "name").or (bench.get "run_name")).or (.str "") = .str name

/-- What a document needs for its rows to be read. -/
def Readable (value : Json) : Prop :=
  ∃ data : Dict, value = .obj data ∧ ((data.get "error").truthy = true ∨
    (data.get "benchmarks").truthy = false ∨
    ∃ items, data.get "benchmarks" = .arr items ∧ ∀ item ∈ items, Nameable item)

/-- What a file needs not to end the script. -/
def ResultFile.Loadable (file : ResultFile) : Prop :=
  match file.content with
  | .undecodable | .failing _ => False
  | .notJson => True
  | .json value => Readable value

/-- A Google Benchmark report: an object with a list of objects and no error. -/
def Report (value : Json) : Prop :=
  ∃ data : Dict, value = .obj data ∧ (data.get "error").truthy = false ∧
    ∃ items, data.get "benchmarks" = .arr items ∧ ∀ item ∈ items, ∃ bench : Dict, item = .obj bench

/-- A file that is not a report. -/
def ResultFile.Foreign (file : ResultFile) : Prop :=
  match file.content with
  | .undecodable | .notJson | .failing _ => True
  | .json value => ¬ Report value

/-- A file the script looks at. -/
def ResultFile.isJson (file : ResultFile) : Prop := file.name.endsWith ".json" = true

/-! ## One file -/

/-- A row is read exactly if it is an object and its name, if any, a string. -/
theorem loadRow_ok_iff (source : String) (context item : Json) :
    (∃ row, loadRow source context item = .ok row) ↔ Nameable item := by
  have name_iff : ∀ (bench : Dict) (name : String), benchName bench = .ok name ↔
      ((bench.get "name").or (bench.get "run_name")).or (.str "") = .str name := by
    intro bench name
    rw [benchName, Json.text_eq_ok_iff]
  simp only [loadRow, bind_eq_ok_iff, Json.dict_eq_ok_iff]
  constructor
  · rintro ⟨row, bench, object, read⟩
    split at read
    · simp at read
    next name named => exact ⟨bench, name, object, (name_iff bench name).mp named⟩
  · rintro ⟨bench, name, object, named⟩
    have read := (name_iff bench name).mpr named
    refine ⟨if dropped name then none else some ⟨source, context, bench, name, read⟩,
      bench, object, ?_⟩
    split
    next failed => simp [read] at failed
    next other again =>
      obtain rfl := Except.ok.inj (read.symm.trans again)
      rfl

/-- A string is no row. -/
theorem not_nameable_str (text : String) : ¬ Nameable (.str text) := by
  rintro ⟨bench, name, object, -⟩
  simp at object

/-- The rows of a document can be read if there are none or they are a list of rows that
have names. The characters of a string and the keys of an object are no rows. -/
theorem items_nameable_iff (benchmarks : Json) :
    (∃ items, (benchmarks.or (.arr [])).items = .ok items ∧ ∀ item ∈ items, Nameable item) ↔
      benchmarks.truthy = false ∨
        ∃ items, benchmarks = .arr items ∧ ∀ item ∈ items, Nameable item := by
  by_cases empty : benchmarks.truthy = false
  · simp [Json.or_of_not_truthy empty, Json.items, empty]
  · have full : benchmarks.truthy = true := by simpa using empty
    simp only [Json.or_of_truthy full, full, Bool.true_eq_false, false_or]
    constructor
    · rintro ⟨items, read, nameable⟩
      cases benchmarks with
      | arr list =>
        obtain rfl := Except.ok.inj read
        exact ⟨list, rfl, nameable⟩
      | str text =>
        obtain rfl := Except.ok.inj read
        cases characters : text.toList with
        | nil =>
          have blank : text = "" := String.toList_eq_nil_iff.mp characters
          simp [Json.truthy, blank] at full
        | cons c rest =>
          refine absurd (nameable (.str (String.singleton c)) ?_) (not_nameable_str _)
          simp [characters]
      | obj fields =>
        obtain rfl := Except.ok.inj read
        cases fields with
        | nil => simp [Json.truthy] at full
        | cons field rest =>
          refine absurd (nameable (.str field.1) ?_) (not_nameable_str _)
          simp
      | _ => simp [Json.items] at read
    · rintro ⟨items, rfl, nameable⟩
      exact ⟨items, rfl, nameable⟩

/-- The rows of a list are read if each of them has a name. -/
theorem rows_ok_iff (source : String) (context : Json) (items : List Json) :
    (∃ rows, items.mapM (loadRow source context) = .ok rows) ↔ ∀ item ∈ items, Nameable item := by
  rw [exists_mapM_eq_ok_iff]
  exact forall₂_congr fun item _ => loadRow_ok_iff source context item

/-- A file is read exactly if it is loadable. -/
theorem loadFile_ok_iff (file : ResultFile) :
    (∃ rows, loadFile file = .ok rows) ↔ file.Loadable := by
  unfold loadFile ResultFile.Loadable
  cases file.content with
  | undecodable => simp
  | notJson => simp
  | failing failure => simp
  | json value =>
    simp only [bind_eq_ok_iff, Json.dict_eq_ok_iff, Readable]
    constructor
    · rintro ⟨rows, data, object, read⟩
      refine ⟨data, object, ?_⟩
      by_cases marked : (data.get "error").truthy = true
      · exact Or.inl marked
      · rw [if_neg marked] at read
        simp only [bind_eq_ok_iff] at read
        obtain ⟨items, listed, rows, each, -⟩ := read
        have nameable := (rows_ok_iff _ _ items).mp ⟨rows, each⟩
        exact Or.inr ((items_nameable_iff _).mp ⟨items, listed, nameable⟩)
    · rintro ⟨data, object, marked | readable⟩
      · exact ⟨[], data, object, by rw [if_pos marked]; rfl⟩
      · by_cases marked : (data.get "error").truthy = true
        · exact ⟨[], data, object, by rw [if_pos marked]; rfl⟩
        · obtain ⟨items, listed, nameable⟩ := (items_nameable_iff _).mpr readable
          obtain ⟨rows, each⟩ := (rows_ok_iff file.name
            ((data.get "context").or (.obj [])) items).mpr nameable
          refine ⟨rows.reduceOption, data, object, ?_⟩
          rw [if_neg marked]
          simp only [bind_eq_ok_iff, pure_eq_ok_iff]
          exact ⟨items, listed, rows, each, rfl⟩

/-- A loadable file that is no report has no rows. -/
theorem loadFile_foreign {file : ResultFile} (foreign : file.Foreign) (loadable : file.Loadable) :
    loadFile file = .ok [] := by
  unfold ResultFile.Foreign at foreign
  unfold ResultFile.Loadable at loadable
  unfold loadFile
  cases content : file.content with
  | undecodable => simp [content] at loadable
  | notJson => rfl
  | failing failure => simp [content] at loadable
  | json value =>
    simp only [content] at foreign loadable
    obtain ⟨data, rfl, read⟩ := loadable
    simp only [Json.dict, bind, Except.bind]
    by_cases marked : (data.get "error").truthy = true
    · rw [if_pos marked]
      rfl
    · rw [if_neg marked]
      have unmarked : (data.get "error").truthy = false := by simpa using marked
      have empty : (data.get "benchmarks").truthy = false := by
        rcases read with marked | empty | ⟨items, listed, nameable⟩
        · simp [marked] at unmarked
        · exact empty
        · refine absurd ⟨data, rfl, unmarked, items, listed, fun item member => ?_⟩ foreign
          obtain ⟨bench, _, object, _⟩ := nameable item member
          exact ⟨bench, object⟩
      rw [Json.or_of_not_truthy empty]
      rfl

/-! ## The directory -/

/-- The files looked at are the JSON files. -/
theorem mem_sorted {dir : ResultsDir} {file : ResultFile} :
    file ∈ dir.sorted ↔ file ∈ dir.files ∧ file.isJson := by
  simp [ResultsDir.sorted, ResultFile.isJson]

/-- The rows of a directory are those of its files, one after the other. -/
theorem loadBenchmarks_eq_ok_iff {dir : ResultsDir} {rows : List Row} :
    loadBenchmarks dir = .ok rows ↔
      ∃ loaded, dir.sorted.mapM loadFile = .ok loaded ∧ loaded.flatten = rows := by
  simp only [loadBenchmarks, bind_eq_ok_iff, pure_eq_ok_iff]

/-- The directory is read exactly if each of its JSON files is loadable. -/
theorem loadBenchmarks_ok_iff (dir : ResultsDir) :
    (∃ rows, loadBenchmarks dir = .ok rows) ↔
      ∀ file ∈ dir.files, file.isJson → file.Loadable := by
  have each : (∃ loaded, dir.sorted.mapM loadFile = .ok loaded) ↔
      ∀ file ∈ dir.files, file.isJson → file.Loadable := by
    rw [exists_mapM_eq_ok_iff]
    constructor
    · intro read file present json
      exact (loadFile_ok_iff file).mp (read file (mem_sorted.mpr ⟨present, json⟩))
    · intro loadable file listed
      obtain ⟨present, json⟩ := mem_sorted.mp listed
      exact (loadFile_ok_iff file).mpr (loadable file present json)
  simp only [loadBenchmarks_eq_ok_iff]
  rw [← each]
  constructor
  · rintro ⟨_, loaded, read, -⟩
    exact ⟨loaded, read⟩
  · rintro ⟨loaded, read⟩
    exact ⟨_, loaded, read, rfl⟩

/-- The files are in the order of their names. -/
theorem sorted_pairwise (dir : ResultsDir) :
    dir.sorted.Pairwise fun first second => first.name ≤ second.name :=
  List.pairwise_insertionSort _ _

/-- The files in order are the JSON files. -/
theorem sorted_perm (dir : ResultsDir) :
    dir.sorted.Perm (dir.files.filter fun file => file.name.endsWith ".json") :=
  List.perm_insertionSort _ _

/-- The order of the names leaves one order of the files. -/
theorem eq_sorted {dir : ResultsDir} {files : List ResultFile} (same : files.Perm dir.sorted)
    (ordered : files.Pairwise fun first second => first.name ≤ second.name) :
    files = dir.sorted := by
  refine List.Perm.eq_of_pairwise ?_ ordered (sorted_pairwise dir) same
  intro first second listed also before after
  have present := (mem_sorted.mp (same.mem_iff.mp listed)).1
  exact List.inj_on_of_nodup_map dir.distinct present (mem_sorted.mp also).1
    (le_antisymm before after)

section Added

variable {dir dir' : ResultsDir} {file : ResultFile}

/-- Another JSON file goes somewhere among the others, which stay in order. -/
theorem sorted_added (added : dir'.files.Perm (file :: dir.files)) (json : file.isJson) :
    ∃ before after, dir'.sorted = before ++ file :: after ∧ dir.sorted = before ++ after := by
  have present : file ∈ dir'.sorted := mem_sorted.mpr ⟨added.mem_iff.mpr List.mem_cons_self, json⟩
  obtain ⟨before, after, split⟩ := List.append_of_mem present
  refine ⟨before, after, split, (eq_sorted ?_ ?_).symm⟩
  · have others : (before ++ file :: after).Perm (file :: dir.sorted) := by
      rw [← split]
      have kept : (file :: dir.files).filter (fun file => file.name.endsWith ".json") =
          file :: dir.files.filter fun file => file.name.endsWith ".json" :=
        List.filter_cons_of_pos json
      exact (sorted_perm dir').trans
        ((added.filter _).trans (kept ▸ (sorted_perm dir).symm.cons file))
    exact (List.perm_middle.symm.trans others).cons_inv
  · have ordered := sorted_pairwise dir'
    rw [split] at ordered
    exact ordered.sublist (List.Sublist.append_left (List.sublist_cons_self file after) before)

/-- Another file that is not looked at changes nothing. -/
theorem sorted_ignored (added : dir'.files.Perm (file :: dir.files)) (other : ¬ file.isJson) :
    dir'.sorted = dir.sorted := by
  have left : (file :: dir.files).filter (fun file => file.name.endsWith ".json") =
      dir.files.filter fun file => file.name.endsWith ".json" :=
    List.filter_cons_of_neg other
  refine eq_sorted ?_ (sorted_pairwise dir')
  exact (sorted_perm dir').trans ((added.filter _).trans (left ▸ (sorted_perm dir).symm))

/-- A file without rows adds none. -/
theorem loadBenchmarks_added {rows : List Row} (added : dir'.files.Perm (file :: dir.files))
    (nothing : file.isJson → loadFile file = .ok []) (loaded : loadBenchmarks dir = .ok rows) :
    loadBenchmarks dir' = .ok rows := by
  by_cases json : file.isJson
  · obtain ⟨before, after, split, rest⟩ := sorted_added added json
    rw [loadBenchmarks_eq_ok_iff, rest] at loaded
    rw [loadBenchmarks_eq_ok_iff, split]
    simp only [List.mapM_append, List.mapM_cons, nothing json, bind_eq_ok_iff,
      pure_eq_ok_iff] at loaded ⊢
    obtain ⟨_, ⟨first, readFirst, last, readLast, rfl⟩, rfl⟩ := loaded
    refine ⟨_, ⟨first, readFirst, _, ⟨[], rfl, last, readLast, rfl⟩, rfl⟩, ?_⟩
    simp
  · rwa [loadBenchmarks, sorted_ignored added json]

end Added

/-- Bad files are isolated exactly as far as they are loadable. A directory is read without an
exception if and only if each of its JSON files is loadable; and another file that is no report
leaves the rows as they were if and only if it is not looked at or loadable. -/
theorem bad_files_isolated_iff (dir : ResultsDir) :
    ((∃ rows, loadBenchmarks dir = .ok rows) ↔
      ∀ file ∈ dir.files, file.isJson → file.Loadable) ∧
    (∀ (dir' : ResultsDir) (file : ResultFile) (rows : List Row),
      dir'.files.Perm (file :: dir.files) → loadBenchmarks dir = .ok rows → file.Foreign →
        (loadBenchmarks dir' = .ok rows ↔ (file.isJson → file.Loadable))) := by
  refine ⟨loadBenchmarks_ok_iff dir, fun dir' file rows added loaded foreign => ?_⟩
  constructor
  · intro same json
    exact (loadBenchmarks_ok_iff dir').mp ⟨rows, same⟩ file
      (added.mem_iff.mpr List.mem_cons_self) json
  · intro loadable
    exact loadBenchmarks_added added (fun json => loadFile_foreign foreign (loadable json)) loaded

/-- The three reports and one more file. -/
def withFile (content : Content) : ResultsDir where
  files := ⟨"a_broken.json", content⟩ :: threeReports.files
  distinct := by simp [threeReports, reportFile]

/-- A file that is not JSON leaves the rows of the three reports as they were. -/
theorem bad_files_isolated_iff_threeReports :
    ∃ rows, loadBenchmarks threeReports = .ok rows ∧
      loadBenchmarks (withFile .notJson) = .ok rows := by
  obtain ⟨_, rows, _, loaded, _⟩ := threeReports_loaded
  refine ⟨rows, loaded, ?_⟩
  exact ((bad_files_isolated_iff threeReports).2 (withFile .notJson) ⟨"a_broken.json", .notJson⟩
    rows (List.Perm.refl _) loaded trivial).mpr fun _ => trivial

/-- Three reports are read, and with one more file they are not: a list, a list of rows that
is a number, a row that is a string, bytes that are no text, or an integer too long to read. -/
theorem bad_file_takes_reports_down :
    (loadBenchmarks threeReports).map List.length = .ok 3 ∧
    (loadBenchmarks (withFile (.json (.arr [])))).map List.length = .error .attributeError ∧
    (loadBenchmarks (withFile (.json (.obj [("benchmarks", .num 3)])))).map List.length =
      .error .typeError ∧
    (loadBenchmarks (withFile (.json (.obj [("benchmarks", .arr [.str "row"])])))).map List.length =
      .error .attributeError ∧
    (loadBenchmarks (withFile .undecodable)).map List.length = .error .unicodeDecodeError ∧
    (loadBenchmarks (withFile (.failing .valueError))).map List.length = .error .valueError := by
  decide +kernel

end ConcurrencyBench.DecisionMatrix
