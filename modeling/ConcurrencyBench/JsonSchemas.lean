import ConcurrencyBench.Documents
import Mathlib.Data.List.Nodup

/-!
# Schemas of documents

A schema says what a document may be: its types, the value it has to have, the fields an
object needs, a schema for each field it names and one for the items of an array. A field
that is missing meets its schema, and so does one the schema does not name. A number is an
integer if it has no fractional part, whatever it is written like, and a float that is not
finite is a number.
-/

namespace Documents

/-- What is read place by place from what was written. -/
theorem map_eq_of_forall₂ {A B C : Type*} {R : A → B → Prop} {inputs : List A} {results : List B}
    (related : List.Forall₂ R inputs results) {shown : B → C} {expected : A → C}
    (same : ∀ input result, R input result → shown result = expected input) :
    results.map shown = inputs.map expected := by
  induction related with
  | nil => rfl
  | cons head _ inductionHypothesis =>
    rw [List.map_cons, List.map_cons, same _ _ head, inductionHypothesis]

/-- A key that is missing reads as null. -/
theorem Dict.get_of_notMem {fields : Dict} {key : String} (missing : key ∉ fields.map Prod.fst) :
    fields.get key = .null := by
  rw [Dict.get, List.lookup_eq_none_iff.mpr]
  · rfl
  · intro field listed
    rw [bne_iff_ne]
    rintro rfl
    exact missing (List.mem_map_of_mem (List.mem_reverse.mp listed))

/-- The types of JSON values. -/
inductive JsonType
  | null | boolean | integer | number | string | array | object

namespace Json

/-- The value is of the type. -/
def hasType : Json → JsonType → Bool
  | null, .null | bool _, .boolean | num _, .number | nonFinite _, .number | str _, .string
  | arr _, .array | obj _, .object => true
  | num value, .integer => value.den = 1
  | _, _ => false

/-- The value is of one of the types. -/
def isA (types : List JsonType) (value : Json) : Bool := types.any value.hasType

/-- The value of a key, if the value is an object that has it. -/
def member (key : String) : Json → Option Json
  | obj fields => fields.reverse.lookup key
  | _ => none

end Json

/-- A schema, with the keywords `type`, `const`, `required`, `properties` and `items`. -/
inductive Schema
  | mk (types : List JsonType) (const : Option Json) (required : List String)
      (properties : List (String × Schema)) (items : Option Schema)

namespace Schema

mutual

/-- The document is valid under the schema. -/
def valid : Schema → Json → Bool
  | mk types const required properties items, value =>
    value.isA types && const.all (fun expected => decide (value = expected)) &&
      (required.all (fun key => (value.member key).isSome) || !value.hasType .object) &&
      validFields properties value && validItems items value

/-- Each field of an object is valid, where it is there. -/
def validFields : List (String × Schema) → Json → Bool
  | [], _ => true
  | (key, schema) :: rest, value =>
    (match value.member key with
      | some field => valid schema field
      | none => true) && validFields rest value

/-- Each item of an array is valid. -/
def validItems : Option Schema → Json → Bool
  | some schema, .arr items => items.all fun item => valid schema item
  | _, _ => true

end

/-- A schema of a type, or of one of several. -/
def ofTypes (types : List JsonType) : Schema := mk types none [] [] none

/-- A schema of an object, with the fields it needs and the schemas of its fields. -/
def object (required : List String) (properties : List (String × Schema)) : Schema :=
  mk [.object] none required properties none

/-- A schema of an array of items. -/
def array (items : Schema) : Schema := mk [.array] none [] [] (some items)

section Valid

variable {types : List JsonType} {required : List String} {schema : Schema}
  {properties : List (String × Schema)} {value : Json} {fields : Dict} {items : List Json}

/-- A schema of types only asks for the type. -/
@[simp]
theorem valid_ofTypes : (ofTypes types).valid value = value.isA types := by
  simp [ofTypes, valid, validFields, validItems]

/-- An object is valid when it has the fields it needs and those it has are valid. -/
theorem valid_object_iff : (object required properties).valid (.obj fields) = true ↔
    (∀ key ∈ required, ((Json.obj fields).member key).isSome = true) ∧
      validFields properties (.obj fields) = true := by
  simp [object, valid, validItems, Json.isA, Json.hasType]

/-- An array is valid when its items are. -/
theorem valid_array_iff : (array schema).valid (.arr items) = true ↔
    ∀ item ∈ items, schema.valid item = true := by
  simp [array, valid, validFields, validItems, Json.isA, Json.hasType]

/-- The fields of a document are valid when each that a schema is given for is. -/
theorem validFields_iff : validFields properties value = true ↔
    ∀ key schema field, (key, schema) ∈ properties → value.member key = some field →
      schema.valid field = true := by
  induction properties with
  | nil => simp [validFields]
  | cons property rest inductionHypothesis =>
    obtain ⟨key, schema⟩ := property
    simp only [validFields, Bool.and_eq_true, inductionHypothesis]
    constructor
    · rintro ⟨first, others⟩ key' schema' field placed present
      rcases List.mem_cons.mp placed with same | later
      · obtain ⟨rfl, rfl⟩ := Prod.mk.inj same
        rwa [present] at first
      · exact others key' schema' field later present
    · intro each
      refine ⟨?_, fun key' schema' field later => each key' schema' field (List.mem_cons_of_mem _ later)⟩
      cases present : value.member key with
      | none => rfl
      | some field => exact each key schema field List.mem_cons_self present

/-- Where no key is repeated, a field is found by its key. -/
theorem member_eq_some_iff {key : String} {field : Json}
    (distinct : (fields.map Prod.fst).Nodup) :
    (Json.obj fields).member key = some field ↔ (key, field) ∈ fields := by
  rw [Json.member, List.lookup_eq_some_iff]
  constructor
  · rintro ⟨before, after, split, _⟩
    rw [← List.mem_reverse, split]
    simp
  · intro placed
    obtain ⟨before, after, split⟩ := List.append_of_mem (List.mem_reverse.mpr placed)
    refine ⟨before, after, split, fun other earlier => ?_⟩
    have apart : (fields.reverse.map Prod.fst).Nodup := by
      rw [List.map_reverse]
      exact List.nodup_reverse.mpr distinct
    rw [split, List.map_append, List.map_cons, List.nodup_middle] at apart
    have absent := (List.nodup_cons.mp apart).1
    rw [bne_iff_ne]
    intro same
    have known := List.mem_map_of_mem (f := Prod.fst) earlier
    rw [← same] at known
    exact absent (List.mem_append_left _ known)

/-- Two lists with the same keys, none of them repeated, agree key by key when they agree
place by place. -/
theorem forall_key_iff (agree : Schema → Json → Prop)
    (named : properties.map Prod.fst = fields.map Prod.fst)
    (distinct : (fields.map Prod.fst).Nodup) :
    (∀ key schema field, (key, schema) ∈ properties → (key, field) ∈ fields →
      agree schema field) ↔
      List.Forall₂ (fun property field => agree property.2 field.2) properties fields := by
  induction properties generalizing fields with
  | nil =>
    obtain rfl : fields = [] := List.map_eq_nil_iff.mp named.symm
    simp
  | cons property properties inductionHypothesis =>
    obtain ⟨key, schema⟩ := property
    obtain - | ⟨⟨name, field⟩, fields⟩ := fields
    · simp at named
    obtain ⟨rfl, alike⟩ := List.cons.inj named
    obtain ⟨absent, distinct⟩ := List.nodup_cons.mp distinct
    rw [List.forall₂_cons, ← inductionHypothesis alike distinct]
    constructor
    · intro each
      exact ⟨each key schema field List.mem_cons_self List.mem_cons_self,
        fun key' schema' field' first second =>
          each key' schema' field' (List.mem_cons_of_mem _ first) (List.mem_cons_of_mem _ second)⟩
    · rintro ⟨here, others⟩ key' schema' field' first second
      rcases List.mem_cons.mp first with same | among <;>
        rcases List.mem_cons.mp second with also | within
      · obtain ⟨_, rfl⟩ := Prod.mk.inj same
        obtain ⟨_, rfl⟩ := Prod.mk.inj also
        exact here
      · have known : key' ∈ fields.map Prod.fst := List.mem_map.mpr ⟨_, within, rfl⟩
        rw [(Prod.mk.inj same).1] at known
        exact absurd known absent
      · have known : key' ∈ properties.map Prod.fst := List.mem_map.mpr ⟨_, among, rfl⟩
        rw [alike, (Prod.mk.inj also).1] at known
        exact absurd known absent
      · exact others key' schema' field' among within

/-- An object written in the order of its schema, with the fields it needs, is valid when its
fields are, one by one. -/
theorem valid_record_iff (named : properties.map Prod.fst = fields.map Prod.fst)
    (distinct : (fields.map Prod.fst).Nodup) (needed : required ⊆ fields.map Prod.fst) :
    (object required properties).valid (.obj fields) = true ↔
      List.Forall₂ (fun property field => property.2.valid field.2 = true) properties fields := by
  have present : ∀ key ∈ required, ((Json.obj fields).member key).isSome = true := by
    intro key listed
    obtain ⟨⟨_, field⟩, placed, rfl⟩ := List.mem_map.mp (needed listed)
    rw [(member_eq_some_iff distinct).mpr placed]
    rfl
  rw [valid_object_iff, and_iff_right present, validFields_iff,
    ← forall_key_iff (fun schema field => schema.valid field = true) named distinct]
  simp only [member_eq_some_iff distinct]

end Valid

end Schema

end Documents
