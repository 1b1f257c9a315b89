import Mathlib.Data.List.Forall2
import Mathlib.Data.List.Zip
import Mathlib.Data.Rat.Defs

/-!
# Parsed documents and their readers

What a JSON parser hands to a dynamically typed program, and what such a program does
with it: the value of a key, the truth of a value, the first of two values that is
true, iteration. An object keeps its fields in the order of the text. A number is the
exact value of the integer or the float that the parser makes of its text. A float may
also be infinite or no number at all. Strings are made of Unicode characters; the escapes
of lone surrogates are left out.

A reader fails with an exception where a value has the wrong shape. Reading a list
element by element succeeds exactly when every element is read, and then the results
stand at the places of what they were read from.
-/

namespace Documents

universe u

/-- The floats that are no numbers. -/
inductive NonFinite
  | nan | infinity | minusInfinity
deriving DecidableEq

/-- The value of an integer or a float. -/
inductive Number
  | finite (value : ℚ)
  | nonFinite (value : NonFinite)
deriving DecidableEq

/-- A parsed document. -/
inductive Json
  | null
  | bool (value : Bool)
  | num (value : ℚ)
  | nonFinite (value : NonFinite)
  | str (text : String)
  | arr (items : List Json)
  | obj (fields : List (String × Json))

/-- The fields of an object. -/
abbrev Dict := List (String × Json)

/-- The exceptions of a reader, by their class. -/
inductive Failure
  | attributeError | typeError | keyError | unicodeDecodeError
  | valueError | recursionError | memoryError | osError | overflowError
  | systemExit (message : String)
deriving DecidableEq

/-- `fields.get(key)`. Where the text repeats a key, the last field counts; a key that
is missing reads as null. -/
def Dict.get (fields : Dict) (key : String) : Json :=
  (fields.reverse.lookup key).getD .null

namespace Json

mutual

/-- Documents are compared constructor by constructor. -/
def decEq : (a b : Json) → Decidable (a = b)
  | null, null => isTrue rfl
  | bool a, bool b => decidable_of_iff (a = b) (by simp)
  | num a, num b => decidable_of_iff (a = b) (by simp)
  | nonFinite a, nonFinite b => decidable_of_iff (a = b) (by simp)
  | str a, str b => decidable_of_iff (a = b) (by simp)
  | arr as, arr bs => have := decEqItems as bs; decidable_of_iff (as = bs) (by simp)
  | obj as, obj bs => have := decEqFields as bs; decidable_of_iff (as = bs) (by simp)
  | null, bool _ | null, num _ | null, nonFinite _ | null, str _ | null, arr _ | null, obj _
  | bool _, null | bool _, num _ | bool _, nonFinite _ | bool _, str _ | bool _, arr _ | bool _, obj _
  | num _, null | num _, bool _ | num _, nonFinite _ | num _, str _ | num _, arr _ | num _, obj _
  | nonFinite _, null | nonFinite _, bool _ | nonFinite _, num _ | nonFinite _, str _
  | nonFinite _, arr _ | nonFinite _, obj _
  | str _, null | str _, bool _ | str _, num _ | str _, nonFinite _ | str _, arr _ | str _, obj _
  | arr _, null | arr _, bool _ | arr _, num _ | arr _, nonFinite _ | arr _, str _ | arr _, obj _
  | obj _, null | obj _, bool _ | obj _, num _ | obj _, nonFinite _ | obj _, str _ | obj _, arr _ => isFalse nofun

/-- And so are lists of them. -/
def decEqItems : (as bs : List Json) → Decidable (as = bs)
  | [], [] => isTrue rfl
  | a :: as, b :: bs =>
    have := decEq a b; have := decEqItems as bs
    decidable_of_iff (a = b ∧ as = bs) (by simp)
  | [], _ :: _ | _ :: _, [] => isFalse nofun

/-- Fields are compared with their keys. -/
def decEqFields : (as bs : List (String × Json)) → Decidable (as = bs)
  | [], [] => isTrue rfl
  | (k, a) :: as, (l, b) :: bs =>
    have := decEq a b; have := decEqFields as bs
    decidable_of_iff ((k = l ∧ a = b) ∧ as = bs) (by simp)
  | [], _ :: _ | _ :: _, [] => isFalse nofun

end

instance : DecidableEq Json := decEq

/-- The truth of a value: null, false, zero and what is empty are false. -/
def truthy : Json → Bool
  | null => false
  | bool value => value
  | num value => value ≠ 0
  | nonFinite _ => true
  | str text => text ≠ ""
  | arr items => !items.isEmpty
  | obj fields => !fields.isEmpty

/-- `first or second`. -/
def or (first second : Json) : Json :=
  if first.truthy then first else second

/-- The object a method such as `get` is looked up in. -/
def dict : Json → Except Failure Dict
  | obj fields => .ok fields
  | _ => .error .attributeError

/-- The string a method such as `endswith` is looked up in. -/
def text : Json → Except Failure String
  | str text => .ok text
  | _ => .error .attributeError

/-- The values of `for item in value`: the characters of a string, the keys of an object. -/
def items : Json → Except Failure (List Json)
  | arr items => .ok items
  | str text => .ok (text.toList.map fun c => .str (String.singleton c))
  | obj fields => .ok ((fields.map Prod.fst).eraseDups.map .str)
  | _ => .error .typeError

/-- `value[0]`, of a value that is not empty. -/
def first : Json → Except Failure Json
  | arr (item :: _) => .ok item
  | str text => .ok (.str (text.toList.head?.elim "" String.singleton))
  | obj _ => .error .keyError
  | _ => .error .typeError

/-- The value of a key, null where it is missing or where there are no keys. -/
def field (value : Json) (key : String) : Json :=
  match value with
  | obj fields => Dict.get fields key
  | _ => null

/-- The number of a value that is an instance of `int` or `float`, as `True` is. -/
def number? : Json → Option Number
  | num value => some (.finite value)
  | nonFinite value => some (.nonFinite value)
  | bool value => some (.finite (if value then 1 else 0))
  | _ => none

/-- Only an object has fields to look up. -/
@[simp]
theorem dict_eq_ok_iff {value : Json} {fields : Dict} :
    value.dict = .ok fields ↔ value = .obj fields := by
  cases value <;> simp [dict]

/-- Only a string has an end to look at. -/
@[simp]
theorem text_eq_ok_iff {value : Json} {content : String} :
    value.text = .ok content ↔ value = .str content := by
  cases value <;> simp [text]

/-- A true value is taken. -/
theorem or_of_truthy {first : Json} (holds : first.truthy = true) (second : Json) :
    first.or second = first := if_pos holds

/-- A false one is passed by. -/
theorem or_of_not_truthy {first : Json} (fails : first.truthy = false) (second : Json) :
    first.or second = second := by
  simp [or, fails]

/-- The fields are the same with the empty object in place of what is false. -/
theorem field_or_empty (value : Json) (key : String) :
    (value.or (.obj [])).field key = value.field key := by
  by_cases holds : value.truthy = true
  · rw [or_of_truthy holds]
  · rw [or_of_not_truthy (by simpa using holds)]
    cases value with
    | obj fields =>
      have empty : fields = [] := by simpa [truthy] using holds
      rw [empty]
    | _ => rfl

end Json

/-! ## Readers -/

section Readers

variable {E A B : Type u}

/-- A reader of two steps succeeds when both do. -/
@[simp]
theorem bind_eq_ok_iff {before : Except E A} {next : A → Except E B} {result : B} :
    before >>= next = .ok result ↔ ∃ value, before = .ok value ∧ next value = .ok result := by
  cases before <;> simp [bind, Except.bind]

/-- A result that is there is the result. -/
@[simp]
theorem pure_eq_ok_iff {value result : A} :
    (pure value : Except E A) = .ok result ↔ value = result := by
  simp [pure, Except.pure]

/-- What a computation shows of its result. -/
theorem ok_of_map_toOption {done : Except E A} {shown : A → B} {facts : B}
    (evaluated : done.toOption.map shown = some facts) :
    ∃ result, done = .ok result ∧ shown result = facts := by
  cases done with
  | error failure => simp [Except.toOption] at evaluated
  | ok result => exact ⟨result, rfl, Option.some.inj evaluated⟩

/-- A list is read when each element is. -/
theorem mapM_eq_ok_iff {read : A → Except E B} {inputs : List A} {results : List B} :
    inputs.mapM read = .ok results ↔
      List.Forall₂ (fun input result => read input = .ok result) inputs results := by
  induction inputs generalizing results with
  | nil => simp [pure, Except.pure, eq_comm]
  | cons input inputs ih =>
    simp only [List.mapM_cons, bind_eq_ok_iff, pure_eq_ok_iff, ih, List.forall₂_cons_left_iff]
    constructor
    · rintro ⟨result, first, rest, others, rfl⟩
      exact ⟨result, rest, first, others, rfl⟩
    · rintro ⟨result, rest, first, others, rfl⟩
      exact ⟨result, first, rest, others, rfl⟩

/-- A list can be read when each element can. -/
theorem exists_mapM_eq_ok_iff {read : A → Except E B} {inputs : List A} :
    (∃ results, inputs.mapM read = .ok results) ↔
      ∀ input ∈ inputs, ∃ result, read input = .ok result := by
  simp only [mapM_eq_ok_iff]
  induction inputs with
  | nil => simp
  | cons input inputs ih =>
    simp only [List.forall₂_cons_left_iff, List.forall_mem_cons, ← ih]
    constructor
    · rintro ⟨_, result, results, first, rest, rfl⟩
      exact ⟨⟨result, first⟩, results, rest⟩
    · rintro ⟨⟨result, first⟩, results, rest⟩
      exact ⟨_, result, results, first, rest, rfl⟩

/-- A list is read to what is expected when each element is. -/
theorem exists_mapM_map_eq {C : Type u} {read : A → Except E B} {shown : B → C}
    {expected : A → C} {inputs : List A}
    (each : ∀ input ∈ inputs, ∃ result, read input = .ok result ∧ shown result = expected input) :
    ∃ results, inputs.mapM read = .ok results ∧ results.map shown = inputs.map expected := by
  induction inputs with
  | nil => exact ⟨[], rfl, rfl⟩
  | cons input inputs ih =>
    obtain ⟨result, first, same⟩ := each input List.mem_cons_self
    obtain ⟨results, rest, others⟩ := ih fun other later => each other (List.mem_cons_of_mem _ later)
    refine ⟨result :: results, ?_, by rw [List.map_cons, List.map_cons, same, others]⟩
    simp only [List.mapM_cons, bind_eq_ok_iff, pure_eq_ok_iff]
    exact ⟨result, first, results, rest, rfl⟩

/-- What stands at the place of an input was read from it. -/
theorem read_of_mem_zip {read : A → Except E B} {inputs : List A} {results : List B}
    (done : inputs.mapM read = .ok results) {input : A} {result : B}
    (placed : (input, result) ∈ inputs.zip results) : read input = .ok result :=
  List.forall₂_zip (mapM_eq_ok_iff.mp done) placed

/-- Every input has a result at its place. -/
theorem result_of_mem {R : A → B → Prop} {inputs : List A} {results : List B}
    (related : List.Forall₂ R inputs results) {input : A} (listed : input ∈ inputs) :
    ∃ result, (input, result) ∈ inputs.zip results ∧ R input result := by
  induction related with
  | nil => simp at listed
  | @cons head result tail rest now _ ih =>
    rcases List.mem_cons.mp listed with rfl | later
    · exact ⟨result, by simp, now⟩
    · obtain ⟨found, placed, holds⟩ := ih later
      exact ⟨found, by simp [placed], holds⟩

/-- Every result has an input at its place. -/
theorem input_of_mem {R : A → B → Prop} {inputs : List A} {results : List B}
    (related : List.Forall₂ R inputs results) {result : B} (listed : result ∈ results) :
    ∃ input, (input, result) ∈ inputs.zip results ∧ R input result := by
  obtain ⟨input, placed, holds⟩ := result_of_mem related.flip listed
  refine ⟨input, ?_, holds⟩
  rw [← List.zip_swap]
  exact List.mem_map.mpr ⟨_, placed, rfl⟩

end Readers

end Documents
