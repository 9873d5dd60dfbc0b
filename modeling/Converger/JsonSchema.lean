import Converger.JsonValues

/-!
# JSON Schema

The keywords of JSON Schema that constrain a value, each of them a schema of its own; a schema with
several keywords is the `allOf` of them, and `true` is the empty one. As in JSON Schema, a keyword
that is about another kind of value holds.
-/
namespace Converger.JsonSchema
open JsonValues

inductive Kind where
  | null | boolean | integer | number | string | array | object
  deriving DecidableEq, Repr

def hasKind : Value → Kind → Bool
  | .null, .null => true
  | .bool _, .boolean => true
  | .int _, .integer => true
  | .int _, .number => true
  | .float q, .integer => q.den = 1
  | .float _, .number => true
  | .str _, .string => true
  | .arr _, .array => true
  | .obj _, .object => true
  | _, _ => false

def number : Value → Option ℚ
  | .int n => some n
  | .float q => some q
  | _ => none

inductive Schema where
  | type (kinds : List Kind)
  | enum (values : List Value)
  | minimum (q : ℚ)
  | maximum (q : ℚ)
  | minLength (n : ℕ)
  | maxLength (n : ℕ)
  | pattern (accepts : String → Bool)
  | minItems (n : ℕ)
  | maxItems (n : ℕ)
  | items (schema : Schema)
  | required (names : List String)
  | property (name : String) (schema : Schema)
  | propertyNames (accepts : String → Bool)
  | additionalProperties (known : List String) (schema : Schema)
  | allOf (schemas : List Schema)
  | oneOf (schemas : List Schema)
  | ifThen (condition consequence : Schema)

namespace Schema

mutual

def valid : Schema → Value → Bool
  | .type kinds, v => kinds.any (hasKind v)
  | .enum values, v => values.any v.same
  | .minimum q, v => (number v).all (q ≤ ·)
  | .maximum q, v => (number v).all (· ≤ q)
  | .minLength n, .str s => n ≤ s.length
  | .maxLength n, .str s => s.length ≤ n
  | .pattern accepts, .str s => accepts s
  | .minItems n, .arr vs => n ≤ vs.length
  | .maxItems n, .arr vs => vs.length ≤ n
  | .items schema, .arr vs => vs.all (valid schema)
  | .required names, .obj fields => names.all fun name => (fields.lookup name).isSome
  | .property name schema, .obj fields => (fields.lookup name).all (valid schema)
  | .propertyNames accepts, .obj fields => fields.all fun field => accepts field.1
  | .additionalProperties known schema, .obj fields =>
    fields.all fun field => field.1 ∈ known || valid schema field.2
  | .allOf schemas, v => validAll schemas v
  | .oneOf schemas, v => countValid schemas v = 1
  | .ifThen condition consequence, v => !valid condition v || valid consequence v
  | _, _ => true

def validAll : List Schema → Value → Bool
  | [], _ => true
  | schema :: schemas, v => valid schema v && validAll schemas v

def countValid : List Schema → Value → ℕ
  | [], _ => 0
  | schema :: schemas, v => (if valid schema v then 1 else 0) + countValid schemas v

end

variable {schema condition consequence : Schema} {schemas : List Schema} {name : String} {v w : Value}
  {fields : List (String × Value)}

theorem valid_allOf : (allOf schemas).valid v = true ↔ ∀ schema ∈ schemas, schema.valid v = true := by
  rw [valid]
  induction schemas with
  | nil => simp [validAll]
  | cons schema schemas ih => simp [validAll, ih]

theorem valid_of_property (h : (property name schema).valid (.obj fields) = true)
    (hlookup : fields.lookup name = some w) : schema.valid w = true := by
  rw [valid, hlookup] at h
  exact h

theorem exists_of_required {names : List String} (h : (required names).valid (.obj fields) = true)
    (hname : name ∈ names) : ∃ w, fields.lookup name = some w := by
  rw [valid] at h
  exact Option.isSome_iff_exists.mp (List.all_eq_true.mp h name hname)

theorem eq_obj_of_type (h : (type [.object]).valid v = true) : ∃ fields, v = .obj fields := by
  cases v with
  | obj fields => exact ⟨fields, rfl⟩
  | null | bool | int | float | str | arr => simp [valid, hasKind] at h

theorem eq_str_of_type (h : (type [.string]).valid v = true) : ∃ s, v = .str s := by
  cases v with
  | str s => exact ⟨s, rfl⟩
  | null | bool | int | float | arr | obj => simp [valid, hasKind] at h

end Schema

end Converger.JsonSchema
