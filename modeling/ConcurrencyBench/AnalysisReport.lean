import ConcurrencyBench.DecisionMatrix
import ConcurrencyBench.Doubles

/-!
# The analysis report and the durations published

`run_all_benchmarks.sh` writes a table with one line per results file: the first row of
the file, with its name, its items per second and its duration. A file that cannot be
read, or carries an error marker, or has no rows, has a line that says so.

Google Benchmark writes a duration as a number, `real_time`, and its unit, `time_unit`.
The matrix publishes the number under a name that says nanoseconds. The report divides
it by a million, as one does to turn nanoseconds into milliseconds, and prints three
decimals. Neither reads the unit.

The report computes in doubles. An integer is rounded to one before it is divided or
printed, and one that is too large ends the report. The quotient is rounded again, and
what is printed is the thousandth nearest to it, of two the even one. The sign of a zero
is left out.
-/

namespace ConcurrencyBench.DecisionMatrix

open Documents Doubles

/-! ## The report -/

/-- A cell of the table: a text, a value of a file, an exception or a formatted number. -/
inductive Cell
  | text (content : String)
  | value (content : Json)
  -- f"parse error: {exc}"
  | parseError
  -- f"{ips:.3g}"
  | perSecond (ips : Number)
  -- f"{rt/1e6:.3f} ms"
  | milliseconds (thousandths : ℤ)
  -- the same of what is no number: "nan ms" or "inf ms"
  | endless (rt : NonFinite)
deriving DecidableEq

/-- A line of the table. -/
structure Line where
  name : Cell
  ips : Cell
  realTime : Cell
  source : Cell
deriving DecidableEq

/-- No double is as large. -/
def doubleLimit : ℚ := 2 ^ 1024

/-- The float that a number is turned into before it is divided or printed. -/
def toFloat : Number → Except Failure Number
  -- OverflowError: int too large to convert to float
  | .finite value =>
    if doubleLimit ≤ |toDouble value| then .error .overflowError else .ok (.finite (toDouble value))
  | .nonFinite value => .ok (.nonFinite value)

/-- The thousandth that is printed for a number. -/
def thousandths (x : ℚ) : ℤ := nearest (x * 1000)

/-- `ips_s` -/
def ipsCell (ips : Json) : Except Failure Cell :=
  match ips.number? with
  | some number => do return .perSecond (← toFloat number)
  | none => .ok (.text "n/a")

/-- `rt_s` -/
def realTimeCell (rt : Json) : Except Failure Cell :=
  match rt.number? with
  | some number => do
    match ← toFloat number with
    | .finite float => return .milliseconds (thousandths (toDouble (float / 10 ^ 6)))
    | .nonFinite float => return .endless float
  | none => .ok (.text "n/a")

/-- `path.stem`, of a name that ends in `.json` -/
def stem (name : String) : String :=
  if name = ".json" then name else String.ofList (name.toList.take (name.length - 5))

/-- The line of a file whose first row is `b`. -/
def measuredLine (file : ResultFile) (b : Dict) : Except Failure Line := do
  let ips ← ipsCell (b.get "items_per_second")
  let realTime ← realTimeCell (b.get "real_time")
  return {
    name := .value (((b.get "name").or (b.get "run_name")).or (.str (stem file.name)))
    ips := ips
    realTime := realTime
    source := .text file.name }

/-- The line of a file that shows no row, and why it does not. -/
def noteLine (file : ResultFile) (note : Cell) : Line :=
  { name := .text (stem file.name), ips := note, realTime := .text "", source := .text "" }

/-- The line of a file. -/
def reportLine (file : ResultFile) : Except Failure Line :=
  match file.content with
  -- except Exception as exc:
  | .undecodable | .notJson | .failing _ => .ok (noteLine file .parseError)
  | .json value => do
    let data ← value.dict
    -- if data.get("error"):
    if (data.get "error").truthy then
      return noteLine file (.value (data.get "error"))
    let benches := (data.get "benchmarks").or (.arr [])
    if !benches.truthy then
      return noteLine file (.text "no benchmarks")
    -- b = benches[0]
    let b ← (← benches.first).dict
    measuredLine file b

/-- The lines of the table. -/
def report (dir : ResultsDir) : Except Failure (List Line) :=
  dir.sorted.mapM reportLine

/-! ## Durations -/

/-- The units of `time_unit`. -/
inductive TimeUnit
  | ns | us | ms | s
deriving DecidableEq

namespace TimeUnit

/-- A unit as it is written. -/
def text : TimeUnit → String
  | ns => "ns"
  | us => "us"
  | ms => "ms"
  | s => "s"

/-- The nanoseconds of a unit. -/
def nanoseconds : TimeUnit → ℚ
  | ns => 1
  | us => 10 ^ 3
  | ms => 10 ^ 6
  | s => 10 ^ 9

/-- The other units are longer by three places at least. -/
theorem nanoseconds_of_ne {unit : TimeUnit} (other : unit ≠ ns) : 1000 ≤ unit.nanoseconds := by
  cases unit <;> simp_all [nanoseconds] <;> norm_num

/-- Only nanoseconds, and no duration at all, have the same number in nanoseconds. -/
theorem same_number_iff {value : ℚ} (unit : TimeUnit) :
    value = value * unit.nanoseconds ↔ unit = ns ∨ value = 0 := by
  by_cases plain : unit = ns
  · simp [plain, nanoseconds]
  · have large := nanoseconds_of_ne plain
    constructor
    · intro same
      right
      nlinarith
    · rintro (now | zero)
      · exact absurd now plain
      · simp [zero]

end TimeUnit

/-- A row carries a duration. -/
def Measured (bench : Dict) (value : ℚ) (unit : TimeUnit) : Prop :=
  bench.get "real_time" = .num value ∧ bench.get "time_unit" = .str unit.text

/-- The first row of a file without an error marker, which the report is about. -/
def ResultFile.Reported (file : ResultFile) (bench : Dict) : Prop :=
  ∃ (data : Dict) (rest : List Json), file.content = .json (.obj data) ∧
    (data.get "error").truthy = false ∧ data.get "benchmarks" = .arr (.obj bench :: rest)

/-- A cell shows a number of nanoseconds: in milliseconds, as exactly as three decimals
can tell a number that doubles have been rounded to. A printed zero is exact to half a
thousandth. -/
def Cell.Shows (cell : Cell) (duration : ℚ) : Prop :=
  ∃ figure : ℤ, cell = .milliseconds figure ∧
    |(figure : ℚ) / 1000 - duration / 10 ^ 6| ≤ 1 / 2000 + |(figure : ℚ) / 1000| / 2 ^ 50

/-- Durations are published as they were measured. -/
structure DurationsPublished (dir : ResultsDir) (rows : List Row) (matrix : Matrix)
    (lines : List Line) : Prop where
  entries : ∀ workload entry row value unit, matrix.Takes rows workload entry row →
    Measured row.bench value unit → entry.realTimeNs ≠ .null →
      entry.realTimeNs = .num (value * unit.nanoseconds)
  report : ∀ file line bench value unit, (file, line) ∈ dir.sorted.zip lines →
    file.Reported bench → Measured bench value unit →
      line.realTime.Shows (value * unit.nanoseconds)
  ordered : ∀ workload first second firstRow secondRow firstValue secondValue firstUnit
      secondUnit, matrix.Takes rows workload first firstRow →
    matrix.Takes rows workload second secondRow →
    Measured firstRow.bench firstValue firstUnit →
    Measured secondRow.bench secondValue secondUnit →
    ∀ firstNs secondNs, first.realTimeNs = .num firstNs → second.realTimeNs = .num secondNs →
      (firstNs ≤ secondNs ↔
        firstValue * firstUnit.nanoseconds ≤ secondValue * secondUnit.nanoseconds)

/-! ## The printed number -/

/-- `rt/1e6` -/
def quotient (rt : ℚ) : ℚ := toDouble (toDouble rt / 10 ^ 6)

/-- What is printed is half a thousandth away at most. -/
theorem thousandths_near (x : ℚ) : |(thousandths x : ℚ) / 1000 - x| ≤ 1 / 2000 := by
  have near := nearest_near (x * 1000)
  have scaled : (thousandths x : ℚ) / 1000 - x = (nearest (x * 1000) - x * 1000) / 1000 := by
    rw [thousandths]
    ring
  rw [scaled, abs_div, abs_of_pos (show (0 : ℚ) < 1000 by norm_num)]
  linarith

/-- The two roundings of a quotient. -/
theorem quotient_near (rt : ℚ) :
    |quotient rt - rt / 10 ^ 6| ≤ |rt / 10 ^ 6| / 2 ^ 51 + 1 / 2 ^ 70 := by
  have tiny : (2 : ℚ) ^ (-1075 : ℤ) ≤ 1 / 2 ^ 72 := by
    have power : (1 : ℚ) / 2 ^ 72 = 2 ^ (-72 : ℤ) := by norm_num
    rw [power]
    exact zpow_le_zpow_right₀ (by norm_num) (by norm_num)
  have first := abs_le.mp (toDouble_near rt)
  have second := abs_le.mp (toDouble_near (toDouble rt / 10 ^ 6))
  have size : |toDouble rt| ≤ |rt| + (|rt| / 2 ^ 53 + 1 / 2 ^ 72) := by
    have apart := abs_sub_abs_le_abs_sub (toDouble rt) rt
    linarith [toDouble_near rt]
  rw [abs_div, abs_of_pos (show (0 : ℚ) < 10 ^ 6 by norm_num)] at second ⊢
  rw [quotient, abs_le]
  constructor <;> linarith

/-- What is printed as zero is short: half a thousandth of a millisecond is no double, and the
double next to it is above. -/
theorem short_of_zero {rt : ℚ} (zero : thousandths (quotient rt) = 0) : |rt| ≤ 500 := by
  have whole : toDouble 500 = 500 := toDouble_natCast (k := 500) (by norm_num)
  have minus : toDouble (-500) = -500 := by decide +kernel
  rw [abs_le]
  constructor <;> by_contra beyond
  · have long : toDouble rt ≤ -500 := minus ▸ toDouble_mono (not_le.mp beyond).le
    have below : quotient rt ≤ toDouble (-500 / 10 ^ 6) :=
      toDouble_mono (div_le_div_of_nonneg_right long (by norm_num))
    have printed : nearest (toDouble (-500 / 10 ^ 6) * 1000) = -1 := by decide +kernel
    have least : thousandths (quotient rt) ≤ -1 :=
      printed ▸ nearest_mono (mul_le_mul_of_nonneg_right below (by norm_num))
    omega
  · have long : 500 ≤ toDouble rt := whole ▸ toDouble_mono (not_le.mp beyond).le
    have above : toDouble (500 / 10 ^ 6) ≤ quotient rt :=
      toDouble_mono (div_le_div_of_nonneg_right long (by norm_num))
    have printed : nearest (toDouble (500 / 10 ^ 6) * 1000) = 1 := by decide +kernel
    have least : 1 ≤ thousandths (quotient rt) :=
      printed ▸ nearest_mono (mul_le_mul_of_nonneg_right above (by norm_num))
    omega

/-- A printed number that is not zero is a thousandth at least, and does not exceed what it
stands for by much. -/
theorem printed_size (rt : ℚ) : thousandths (quotient rt) = 0 ∨
    1 / 1000 ≤ |(thousandths (quotient rt) : ℚ) / 1000| ∧
      |(thousandths (quotient rt) : ℚ) / 1000| ≤ 3 * |rt / 10 ^ 6| := by
  by_cases zero : thousandths (quotient rt) = 0
  · exact .inl zero
  have least : 1 / 1000 ≤ |(thousandths (quotient rt) : ℚ) / 1000| := by
    have one : (1 : ℚ) ≤ |(thousandths (quotient rt) : ℚ)| := by
      exact_mod_cast Int.one_le_abs zero
    rw [abs_div, abs_of_pos (show (0 : ℚ) < 1000 by norm_num)]
    linarith
  have rounded := abs_sub_abs_le_abs_sub ((thousandths (quotient rt) : ℚ) / 1000) (quotient rt)
  have divided := abs_sub_abs_le_abs_sub (quotient rt) (rt / 10 ^ 6)
  have near := thousandths_near (quotient rt)
  have close := quotient_near rt
  refine .inr ⟨least, ?_⟩
  linarith

/-- The printed number is as near to a thousandth of a million nanoseconds as it can be. -/
theorem printed_near (rt : ℚ) :
    |(thousandths (quotient rt) : ℚ) / 1000 - rt / 10 ^ 6| ≤
      1 / 2000 + |(thousandths (quotient rt) : ℚ) / 1000| / 2 ^ 50 := by
  by_cases zero : thousandths (quotient rt) = 0
  · have short := short_of_zero zero
    rw [zero, Int.cast_zero, zero_div, zero_sub, abs_neg, abs_zero, zero_div, add_zero, abs_div,
      abs_of_pos (show (0 : ℚ) < 10 ^ 6 by norm_num)]
    linarith
  obtain ⟨least, -⟩ := (printed_size rt).resolve_left zero
  have near := thousandths_near (quotient rt)
  have close := quotient_near rt
  have size : |rt / 10 ^ 6| ≤ 8 / 5 * |(thousandths (quotient rt) : ℚ) / 1000| := by
    have printed := abs_sub_abs_le_abs_sub (quotient rt) ((thousandths (quotient rt) : ℚ) / 1000)
    have divided := abs_sub_abs_le_abs_sub (rt / 10 ^ 6) (quotient rt)
    rw [abs_sub_comm] at printed divided
    linarith
  have apart := abs_sub_le ((thousandths (quotient rt) : ℚ) / 1000) (quotient rt) (rt / 10 ^ 6)
  linarith

/-- A printed number is near a multiple of what it stands for only where it is zero and the
multiple is small. -/
theorem near_multiple_iff {figure x factor : ℚ} (large : 1000 ≤ factor)
    (size : figure = 0 ∨ 1 / 1000 ≤ |figure| ∧ |figure| ≤ 3 * |x|) :
    |figure - factor * x| ≤ 1 / 2000 + |figure| / 2 ^ 50 ↔ |factor * x| ≤ 1 / 2000 := by
  rcases size with rfl | ⟨least, within⟩
  · simp
  have multiple : 333 * |figure| ≤ |factor * x| := by
    rw [abs_mul, abs_of_nonneg (show (0 : ℚ) ≤ factor by linarith)]
    calc 333 * |figure| ≤ 999 * |x| := by linarith
      _ ≤ factor * |x| := mul_le_mul_of_nonneg_right (by linarith) (abs_nonneg x)
  have apart := abs_sub_abs_le_abs_sub (factor * x) figure
  rw [abs_sub_comm] at apart
  constructor
  · intro near
    linarith
  · intro small
    linarith

/-- The line of a file is about its first row. -/
theorem reportLine_reported {file : ResultFile} {bench : Dict} (reported : file.Reported bench) :
    reportLine file = measuredLine file bench := by
  obtain ⟨data, rest, parsed, unmarked, listed⟩ := reported
  have present : (data.get "benchmarks").or (.arr []) = .arr (.obj bench :: rest) := by
    rw [listed]
    rfl
  have nonempty : (Json.arr (.obj bench :: rest)).truthy = true := rfl
  simp [reportLine, parsed, unmarked, present, nonempty, Json.dict, Json.first, bind,
    Except.bind]

/-- A line shows the double quotient of its row, unless the report has ended there. -/
theorem measuredLine_realTime {file : ResultFile} {bench : Dict} {line : Line} {value : ℚ}
    (made : measuredLine file bench = .ok line) (measured : bench.get "real_time" = .num value) :
    line.realTime = .milliseconds (thousandths (quotient value)) := by
  simp only [measuredLine, bind_eq_ok_iff, pure_eq_ok_iff] at made
  obtain ⟨_, _, cell, formatted, rfl⟩ := made
  simp only [realTimeCell, measured, Json.number?, bind_eq_ok_iff, toFloat] at formatted
  obtain ⟨float, converted, printed⟩ := formatted
  split at converted
  · simp at converted
  · obtain rfl := Except.ok.inj converted
    exact (pure_eq_ok_iff.mp printed).symm

/-- The line of a row shows its duration exactly if the unit is nanoseconds or the
duration is too short to be seen. -/
theorem measuredLine_shows_iff {file : ResultFile} {bench : Dict} {line : Line} {value : ℚ}
    {unit : TimeUnit} (made : measuredLine file bench = .ok line)
    (measured : Measured bench value unit) :
    line.realTime.Shows (value * unit.nanoseconds) ↔
      unit = .ns ∨ |value * unit.nanoseconds| ≤ 500 := by
  have printed := measuredLine_realTime made measured.1
  have scaled : value * unit.nanoseconds / 10 ^ 6 = unit.nanoseconds * (value / 10 ^ 6) := by ring
  simp only [Cell.Shows, printed, Cell.milliseconds.injEq, exists_eq_left', scaled]
  by_cases plain : unit = .ns
  · simpa [plain, TimeUnit.nanoseconds] using printed_near value
  · have size := (printed_size value).imp_left fun zero =>
      show (thousandths (quotient value) : ℚ) / 1000 = 0 by rw [zero, Int.cast_zero, zero_div]
    rw [near_multiple_iff (TimeUnit.nanoseconds_of_ne plain) size, or_iff_right plain, ← scaled,
      abs_div, abs_of_pos (show (0 : ℚ) < 10 ^ 6 by norm_num)]
    constructor <;> intro small <;> linarith

/-- The line in the place of a file with a first row is about that row. -/
theorem line_of_reported {dir : ResultsDir} {lines : List Line} {file : ResultFile} {line : Line}
    {bench : Dict} (reported : report dir = .ok lines)
    (placed : (file, line) ∈ dir.sorted.zip lines) (first : file.Reported bench) :
    measuredLine file bench = .ok line :=
  (reportLine_reported first).symm.trans (read_of_mem_zip reported placed)

/-- An entry quotes the number of its row. -/
theorem Entry.Quotes.number {entry : Entry} {row : Row} {value : ℚ} {unit : TimeUnit}
    (quoted : entry.Quotes row) (measured : Measured row.bench value unit) :
    entry.realTimeNs = .num value :=
  quoted.realTimeNs.trans measured.1

/-- Durations are published as measured exactly if every selected row is in nanoseconds
or of no duration, and every reported row is in nanoseconds or too short for the report
to show anything but zero. -/
theorem durations_published_iff {args : Arguments} {dir : ResultsDir} {matrix : Matrix}
    {rows : List Row} {lines : List Line} (done : main args (some dir) = .ok matrix)
    (loaded : loadBenchmarks dir = .ok rows) (reported : report dir = .ok lines) :
    DurationsPublished dir rows matrix lines ↔
      (∀ row, Selected rows row → ∀ value unit, Measured row.bench value unit →
        unit = .ns ∨ value = 0) ∧
      (∀ file ∈ dir.sorted, ∀ bench, file.Reported bench → ∀ value unit,
        Measured bench value unit → unit = .ns ∨ |value * unit.nanoseconds| ≤ 500) := by
  have written := main_writes done loaded
  constructor
  · intro published
    constructor
    · intro row selected value unit measured
      obtain ⟨workload, entry, taken⟩ := written.taken_of_selected selected
      have number := (written.quotes taken).number measured
      have converted := published.entries workload entry row value unit taken measured
        (by simp [number])
      rw [number, Json.num.injEq] at converted
      exact unit.same_number_iff.mp converted
    · intro file listed bench first value unit measured
      obtain ⟨line, placed, -⟩ := result_of_mem (mapM_eq_ok_iff.mp reported) listed
      rw [← measuredLine_shows_iff (line_of_reported reported placed first) measured]
      exact published.report file line bench value unit placed first measured
  · rintro ⟨selected_plain, reported_plain⟩
    have entries : ∀ workload entry row value unit, matrix.Takes rows workload entry row →
        Measured row.bench value unit → entry.realTimeNs = .num (value * unit.nanoseconds) := by
      intro workload entry row value unit taken measured
      rw [(written.quotes taken).number measured, Json.num.injEq]
      exact unit.same_number_iff.mpr (selected_plain row taken.selected value unit measured)
    constructor
    case entries =>
      intro workload entry row value unit taken measured _
      exact entries workload entry row value unit taken measured
    case report =>
      intro file line bench value unit placed first measured
      rw [measuredLine_shows_iff (line_of_reported reported placed first) measured]
      exact reported_plain file (List.of_mem_zip placed).1 bench first value unit measured
    case ordered =>
      intro workload first second firstRow secondRow firstValue secondValue firstUnit secondUnit
        takenFirst takenSecond measuredFirst measuredSecond firstNs secondNs ofFirst ofSecond
      rw [entries _ _ _ _ _ takenFirst measuredFirst, Json.num.injEq] at ofFirst
      rw [entries _ _ _ _ _ takenSecond measuredSecond, Json.num.injEq] at ofSecond
      rw [ofFirst, ofSecond]

/-- The three reports have their lines. -/
theorem threeReports_reported : ∃ lines, report threeReports = .ok lines := by
  have evaluated : (report threeReports).toOption.map (fun _ => true) = some true := by
    decide +kernel
  obtain ⟨lines, reported, -⟩ := ok_of_map_toOption evaluated
  exact ⟨lines, reported⟩

/-- The three reports, two of which are in milliseconds. -/
theorem durations_published_iff_threeReports :
    ∃ matrix rows lines, main sampleArguments (some threeReports) = .ok matrix ∧
      loadBenchmarks threeReports = .ok rows ∧ report threeReports = .ok lines ∧
      (DurationsPublished threeReports rows matrix lines ↔
        (∀ row, Selected rows row → ∀ value unit, Measured row.bench value unit →
          unit = .ns ∨ value = 0) ∧
        (∀ file ∈ threeReports.sorted, ∀ bench, file.Reported bench → ∀ value unit,
          Measured bench value unit → unit = .ns ∨ |value * unit.nanoseconds| ≤ 500)) := by
  obtain ⟨matrix, rows, done, loaded, -⟩ := threeReports_loaded
  obtain ⟨lines, reported⟩ := threeReports_reported
  exact ⟨matrix, rows, lines, done, loaded, reported,
    durations_published_iff done loaded reported⟩

/-- The semaphores' two hundred milliseconds are published as two hundred nanoseconds. -/
theorem semaphore_unit_lost :
    ∃ matrix rows lines, main sampleArguments (some threeReports) = .ok matrix ∧
      loadBenchmarks threeReports = .ok rows ∧ report threeReports = .ok lines ∧
      ¬ DurationsPublished threeReports rows matrix lines := by
  obtain ⟨matrix, rows, done, loaded, -, -, row, selected, read⟩ := threeReports_loaded
  obtain ⟨lines, reported⟩ := threeReports_reported
  refine ⟨matrix, rows, lines, done, loaded, reported, ?_⟩
  intro published
  have written := main_writes done loaded
  obtain ⟨workload, entry, taken⟩ := written.taken_of_selected selected
  have measured : Measured row.bench 200 .ms := by
    rw [read]
    exact ⟨by decide, by decide⟩
  have quoted := (written.quotes taken).number measured
  have converted := published.entries workload entry row 200 .ms taken measured (by simp [quoted])
  rw [quoted, Json.num.injEq] at converted
  norm_num [TimeUnit.nanoseconds] at converted

end ConcurrencyBench.DecisionMatrix
