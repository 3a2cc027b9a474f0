import JetCore.Lib.Json
import Mathlib.Data.List.Nodup
import Mathlib.Data.Rat.Floor

/-!
# JSON Schema, as far as closed records need it

A schema is its keywords, and a value is valid under it when every keyword
accepts it. A keyword about one type of value accepts the values of all the
others, as Draft 2020-12 has it, so it is `type` alone that turns a value of
the wrong type away. Numbers are compared as numbers: `2.0` is an integer, a
boolean is not.

Of repeated members of an object the last is its property, as everywhere here.
-/

namespace Lib

/-! ## Numbers -/

/-- The number that is written, when it is one. -/
def Decimal.value? : Decimal → Option ℚ
  | .dec m e => some (m * 10 ^ e)
  | .nan | .infinity _ => none

def Json.number? : Json → Option ℚ
  | .int n => some n
  | .float d => d.value?
  | _ => none

/-! ## `date-time` -/

namespace Rfc3339

/-- The two-digit field at the front, if it is one and within its bounds. -/
def field2 (low high : ℕ) : Text → Option Text
  | a :: b :: rest =>
      let n := Json.natOfDigits [a, b]
      if Json.isDigit a && Json.isDigit b && low ≤ n && n ≤ high then
        some rest
      else none
  | _ => none

def literal (allowed : List Char) : Text → Option Text
  | c :: rest => if (allowed.map Json.chr).contains c then some rest else none
  | [] => none

def isLeapYear (year : ℕ) : Bool :=
  year % 4 = 0 && (year % 100 ≠ 0 || year % 400 = 0)

def daysIn (year month : ℕ) : ℕ :=
  if month = 2 then (if isLeapYear year then 29 else 28)
  else if month = 4 ∨ month = 6 ∨ month = 9 ∨ month = 11 then 30 else 31

/-- `full-date` -/
def fullDate : Text → Option Text
  | a :: b :: c :: d :: rest =>
      if [a, b, c, d].all Json.isDigit then do
        let afterYear ← literal ['-'] rest
        let afterMonth ← field2 1 12 afterYear
        let year := Json.natOfDigits [a, b, c, d]
        let month := Json.natOfDigits (afterYear.take 2)
        field2 1 (daysIn year month) (← literal ['-'] afterMonth)
      else none
  | _ => none

/-- `time-secfrac`, when there is one. -/
def secFrac (t : Text) : Option Text :=
  match t with
  | c :: rest =>
      if c = Json.chr '.' then
        if (rest.span Json.isDigit).1 = [] then none
        else some (rest.span Json.isDigit).2
      else some t
  | [] => some []

/-- `time-offset`, up to the end. -/
def offset (t : Text) : Bool :=
  literal ['Z', 'z'] t = some [] ||
    (do field2 0 59 (← literal [':'] (← field2 0 23
      (← literal ['+', '-'] t)))) = some []

/-- `date-time` -/
def isDateTime (t : Text) : Bool :=
  ((do
    let afterDate ← fullDate t
    let afterHour ← field2 0 23 (← literal ['T', 't'] afterDate)
    let afterMinute ← field2 0 59 (← literal [':'] afterHour)
    let afterSecond ← field2 0 60 (← literal [':'] afterMinute)
    secFrac afterSecond).map offset).getD false

end Rfc3339

/-! ## Schemas -/

inductive JsonType where
  | object
  | array
  | string
  | integer
  | boolean
  deriving DecidableEq

/-- A number with no fractional part is an integer. -/
def JsonType.holds : JsonType → Json → Bool
  | .object, .obj _ => true
  | .array, .arr _ => true
  | .string, .str _ => true
  | .boolean, .bool _ => true
  | .integer, v => v.number?.any Rat.isInt
  | _, _ => false

inductive Keyword where
  | type (t : JsonType)
  /-- Of strings. -/
  | enum (values : List String)
  | minLength (n : ℕ)
  /-- `format: date-time` -/
  | dateTime
  | minimum (n : ℤ)
  | maximum (n : ℤ)
  | items (schema : List Keyword)
  | required (names : List String)
  | properties (schemas : List (String × List Keyword))
  /-- `additionalProperties: false`, beside `properties` of these names. -/
  | noOthers (names : List String)

/-- The keywords of a schema. -/
abbrev Schema := List Keyword

namespace Schema

mutual

def accepts : Keyword → Json → Bool
  | .type t, v => t.holds v
  | .enum values, v =>
      match v with
      | .str t => (values.map Text.ofString).contains t
      | _ => false
  | .minLength n, v =>
      match v with
      | .str t => n ≤ t.length
      | _ => true
  | .dateTime, v =>
      match v with
      | .str t => Rfc3339.isDateTime t
      | _ => true
  | .minimum n, v => v.number?.all fun q => (n : ℚ) ≤ q
  | .maximum n, v => v.number?.all fun q => q ≤ (n : ℚ)
  | .items schema, v =>
      match v with
      | .arr xs => xs.all fun x => valid schema x
      | _ => true
  | .required names, v =>
      match v with
      | .obj fields =>
          names.all fun name => (Json.get? fields (Text.ofString name)).isSome
      | _ => true
  | .properties schemas, v =>
      match v with
      | .obj fields => validProperties schemas fields
      | _ => true
  | .noOthers names, v =>
      match v with
      | .obj fields =>
          fields.all fun f => (names.map Text.ofString).contains f.1
      | _ => true

/-- Every keyword accepts the value. -/
def valid : List Keyword → Json → Bool
  | [], _ => true
  | k :: ks, v => accepts k v && valid ks v

def validProperties :
    List (String × List Keyword) → List (Text × Json) → Bool
  | [], _ => true
  | (name, schema) :: rest, fields =>
      (match Json.get? fields (Text.ofString name) with
        | none => true
        | some v => valid schema v) && validProperties rest fields

end

/-- `v` validates against the schema. -/
def Validates (schema : Schema) (v : Json) : Prop := valid schema v = true

instance (schema : Schema) (v : Json) : Decidable (Validates schema v) :=
  inferInstanceAs (Decidable (_ = true))

/-! ## The keywords of the records -/

/-- `type: object` with these properties and no others. -/
def record (required : List String) (schemas : List (String × Schema)) :
    Schema :=
  [.type .object, .noOthers (schemas.map Prod.fst), .required required,
    .properties schemas]

variable {v : Json}

@[simp] theorem valid_nil : valid [] v = true := by rw [valid]

@[simp] theorem valid_cons (k : Keyword) (ks : List Keyword) :
    valid (k :: ks) v = (accepts k v && valid ks v) := by rw [valid]

theorem validProperties_iff (schemas : List (String × Schema))
    (fields : List (Text × Json)) :
    validProperties schemas fields = true ↔
      ∀ p ∈ schemas, ∀ v, Json.get? fields (Text.ofString p.1) = some v →
        Validates p.2 v := by
  induction schemas with
  | nil => simp [validProperties]
  | cons p rest ih =>
      obtain ⟨name, schema⟩ := p
      rw [validProperties, Bool.and_eq_true, ih, List.forall_mem_cons]
      refine and_congr_left fun _ => ?_
      cases Json.get? fields (Text.ofString name) with
      | none => simp
      | some v => simp [Validates]

/-- Only objects validate against a record, those with the required members,
no others than declared, and each member valid. -/
theorem validates_record {required : List String}
    {schemas : List (String × Schema)} :
    Validates (record required schemas) v ↔ ∃ fields, v = .obj fields ∧
      (∀ f ∈ fields, f.1 ∈ schemas.map fun p => Text.ofString p.1) ∧
      (∀ name ∈ required,
        (Json.get? fields (Text.ofString name)).isSome = true) ∧
      ∀ p ∈ schemas, ∀ v, Json.get? fields (Text.ofString p.1) = some v →
        Validates p.2 v := by
  cases v with
  | obj fields =>
      have hprops := validProperties_iff schemas fields
      simp [Validates, record, accepts, JsonType.holds] at hprops ⊢
      simp [hprops]
  | _ => simp [Validates, record, accepts, JsonType.holds]

/-- Among different names each has its own member. -/
theorem get?_object_of_nodup {fields : List (String × Json)}
    (h : (fields.map Prod.fst).Nodup) (name : String) (v : Json) :
    Json.get? (fields.map fun f => (Text.ofString f.1, f.2))
      (Text.ofString name) = some v ↔ (name, v) ∈ fields := by
  rw [Json.get?_object, Option.map_eq_some_iff]
  constructor
  · intro hv
    obtain ⟨⟨name', v'⟩, hfind, rfl⟩ := hv
    have hname : name' = name := by
      simpa using List.find?_some hfind
    rw [← hname]
    exact List.mem_reverse.mp (List.mem_of_find?_eq_some hfind)
  · intro hmem
    have hsome : (fields.reverse.find? fun f => f.1 = name).isSome = true :=
      List.find?_isSome.mpr ⟨(name, v), List.mem_reverse.mpr hmem, by simp⟩
    obtain ⟨⟨name', v'⟩, hfind⟩ := Option.isSome_iff_exists.mp hsome
    refine ⟨(name', v'), hfind, ?_⟩
    have hname : name' = name := by
      simpa using List.find?_some hfind
    subst hname
    have hmem' := List.mem_reverse.mp (List.mem_of_find?_eq_some hfind)
    exact congrArg Prod.snd (List.inj_on_of_nodup_map h hmem' hmem rfl)

theorem declared_eq (schemas : List (String × Schema)) (values : List Json) :
    (schemas.map Prod.fst).zip values =
      (schemas.zip values).map fun p => (p.1.1, p.2) :=
  List.zip_map_left

theorem declared_names (schemas : List (String × Schema))
    (values : List Json) :
    ((schemas.map Prod.fst).zip values).map Prod.fst =
      (schemas.map Prod.fst).take values.length := by
  induction schemas generalizing values with
  | nil => simp
  | cons p rest ih =>
      cases values with
      | nil => rfl
      | cons v values => exact congrArg (p.1 :: ·) (ih values)

/-- An object with the first of the members that a record declares, in the order
of their declaration. -/
theorem validates_declared {required : List String}
    {schemas : List (String × Schema)} {values : List Json}
    (hnodup : (schemas.map Prod.fst).Nodup)
    (hrequired : ∀ name ∈ required,
      name ∈ (schemas.map Prod.fst).take values.length) :
    Validates (record required schemas)
        (Json.object ((schemas.map Prod.fst).zip values)) ↔
      ∀ p ∈ schemas.zip values, Validates p.1.2 p.2 := by
  have hnames := declared_names schemas values
  have hget := get?_object_of_nodup
    (show (((schemas.map Prod.fst).zip values).map Prod.fst).Nodup by
      rw [hnames]
      exact (List.take_sublist _ _).nodup hnodup)
  rw [validates_record]
  constructor
  · rintro ⟨fields, hfields, -, -, hvalid⟩ p hp
    cases hfields
    refine hvalid p.1 (List.of_mem_zip hp).1 p.2 ((hget _ _).mpr ?_)
    rw [declared_eq]
    exact List.mem_map_of_mem hp
  · intro hvalid
    refine ⟨_, rfl, fun f hf => ?_, fun name hname => ?_, fun p hp v hv => ?_⟩
    · obtain ⟨g, hg, rfl⟩ := List.mem_map.mp hf
      rw [declared_eq] at hg
      obtain ⟨p, hp, rfl⟩ := List.mem_map.mp hg
      exact List.mem_map_of_mem (f := fun p : String × Schema =>
        Text.ofString p.1) (List.of_mem_zip hp).1
    · have hmem := hrequired name hname
      rw [← hnames] at hmem
      obtain ⟨⟨name', v⟩, hf, rfl⟩ := List.mem_map.mp hmem
      rw [(hget _ _).mpr hf]
      rfl
    · have hmem := (hget _ _).mp hv
      rw [declared_eq] at hmem
      obtain ⟨q, hq, heq⟩ := List.mem_map.mp hmem
      obtain ⟨hname, rfl⟩ := Prod.mk.inj heq
      have hsame : q.1 = p :=
        List.inj_on_of_nodup_map hnodup (List.of_mem_zip hq).1 hp hname
      rw [← hsame]
      exact hvalid q hq

end Schema

end Lib
