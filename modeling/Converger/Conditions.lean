import Converger.Json
import Converger.JsonValues
import Mathlib.Data.List.Infix

/-!
# Conditions of routing rules

A condition is a JSON object: a tree of `all`, `any` and `not` groups over predicates on the fields
of an activity, its conversation, the participant and the time. `validate` decides which conditions
a rule may be saved with (the texts of its errors are left out), `matches?` evaluates a stored one.
An evaluation that raises is `none`. Regular expressions, the calendar and the texts of floats come
from the runtime.
-/
namespace Converger.Conditions

open JsonValues (Value)

abbrev Object := List (String × Value)

/-- What the conditions use of the runtime. `τ` is a point in time. -/
structure Runtime (τ : Type) where
  /-- `:re.compile(pattern, [:unicode])` succeeds. -/
  compiles : String → Bool
  /-- `:re.run(subject, compiled, …) == :match`; `none` raises an `ArgumentError`. -/
  run : String → String → Option Bool
  floatText : ℚ → String
  /-- `DateTime.add(at, seconds, :second)`; `none` is outside of the calendar. -/
  add : τ → ℤ → Option τ
  hour : τ → ℤ
  minute : τ → ℤ
  dayOfWeek : τ → ℤ
  isoDate : τ → String

/-- The context of an activity: the map without its `time`, and the time. -/
structure Context (τ : Type) where
  root : Value
  time : τ

/-! ### Values -/

mutual

/-- Equality of terms, `===`: an integer is never a float. -/
def identical : Value → Value → Bool
  | .null, .null => true
  | .bool a, .bool b => a = b
  | .int a, .int b => a = b
  | .float a, .float b => a = b
  | .str a, .str b => a = b
  | .arr a, .arr b => identicalItems a b
  | .obj a, .obj b => b.all (fun field => field.1 ∈ a.map Prod.fst) && identicalFields a b
  | _, _ => false

def identicalItems : List Value → List Value → Bool
  | [], [] => true
  | x :: xs, y :: ys => identical x y && identicalItems xs ys
  | _, _ => false

def identicalFields : Object → Object → Bool
  | [], _ => true
  | (key, x) :: rest, fields =>
    (match fields.lookup key with
      | some y => identical x y
      | none => false) && identicalFields rest fields

end

def isNull : Value → Bool
  | .null => true
  | _ => false

def isBool : Value → Bool
  | .bool _ => true
  | _ => false

def isString : Value → Bool
  | .str _ => true
  | _ => false

def number : Value → Option ℚ
  | .int n => some n
  | .float q => some q
  | _ => none

def isNumber (value : Value) : Bool := (number value).isSome

def equal (a b : Value) : Bool :=
  match number a, number b with
  | some p, some q => p = q
  | _, _ => identical a b

/-- `compare/2`; `none` is `:incomparable`. -/
def compare (a b : Value) : Option Ordering :=
  match number a, number b with
  | some p, some q => some (if q < p then .gt else if p < q then .lt else .eq)
  | _, _ =>
    match a, b with
    | .str s, .str t => some (if t < s then .gt else if s < t then .lt else .eq)
    | _, _ => none

mutual

def chardata : Value → Option String
  | .int n => Json.codepoint n
  | .str s => some s
  | .arr items => chardataList items
  | _ => none

def chardataList : List Value → Option String
  | [] => some ""
  | item :: items => do
    return (← chardata item) ++ (← chardataList items)

end

/-- `to_string/1`; `none` raises. -/
def toText (floatText : ℚ → String) : Value → Option String
  | .null => some ""
  | .bool b => some (if b then "true" else "false")
  | .int n => some (toString n)
  | .float q => some (floatText q)
  | .str s => some s
  | .arr items => chardataList items
  | .obj _ => none

/-- `map[key]` -/
def get (fields : Object) (key : String) : Value :=
  (fields.lookup key).getD .null

/-! ### Validation -/

def ops : List String := ["eq", "neq", "in", "contains", "regex", "exists", "gt", "lt"]

def timeFields : List String := ["hour", "minute", "minute_of_day", "weekday", "date"]

def predicateKeys : List String := ["field", "op", "value", "utc_offset_minutes"]

def maxPredicates : ℕ := 32

def maxDepth : ℕ := 4

def maxInValues : ℕ := 100

def maxSegments : ℕ := 8

def maxRegexBytes : ℕ := 256

/-- `String.split(field, ".")` -/
def segments (field : String) : List String :=
  (field.toList.splitOn '.').map String.ofList

def knownField : List String → Bool
  | [root] => root ∈ ["type", "sender", "text"]
  | "metadata" :: _ :: _ => true
  | "conversation" :: "metadata" :: _ :: _ => true
  | ["conversation", "status"] => true
  | ["participant", key] => key ∈ ["external_id", "display_name"]
  | "participant" :: "metadata" :: _ :: _ => true
  | ["time", key] => key ∈ timeFields
  | _ => false

def validateField : Value → Bool
  | .str field =>
    (segments field).length ≤ maxSegments && (segments field).all (· ≠ "") &&
      knownField (segments field)
  | _ => false

section Validation
variable {τ : Type} (rt : Runtime τ)

def validateOp (op : Value) (predicate : Object) : Bool :=
  match op, predicate.lookup "value" with
  | .str "eq", some _ => true
  | .str "neq", some _ => true
  | .str "in", some (.arr values) => values.length ≤ maxInValues
  | .str "contains", some value => !isNull value
  | .str "regex", some (.str pattern) =>
    pattern.utf8ByteSize ≤ maxRegexBytes && rt.compiles pattern
  | .str "exists", value => isBool (value.getD (.bool true))
  | .str "gt", some bound => isNumber bound || isString bound
  | .str "lt", some bound => isNumber bound || isString bound
  | _, _ => false

/-- The field is one of `time.*`. -/
def isTimeField : Value → Bool
  | .str field => "time.".toList.isPrefixOf field.toList
  | _ => false

def validateOffset (predicate : Object) : Bool :=
  match predicate.lookup "utc_offset_minutes" with
  | none => true
  | some (.int offset) => isTimeField (get predicate "field") && -720 ≤ offset && offset ≤ 840
  | some _ => false

def validatePredicate (predicate : Object) : Option ℕ :=
  if (predicate.map Prod.fst).all (· ∈ predicateKeys) && validateField (get predicate "field") &&
    validateOp rt (get predicate "op") predicate && validateOffset predicate then some 1
  else none

def countChildren (check : Value → Option ℕ) : List Value → Option ℕ
  | [] => some 0
  | child :: children => do return (← check child) + (← countChildren check children)

def validateChildren (check : Value → Option ℕ) : Value → Option ℕ
  | .arr [] => none
  | .arr children => countChildren check children
  | _ => none

/-- `validate_node/3` with the given number of levels left, which is `maxDepth + 1 - depth`. -/
def validateNode : ℕ → Value → Option ℕ
  | 0, _ => none
  | levels + 1, node =>
    match node with
    | .obj [("all", children)] => validateChildren (validateNode levels) children
    | .obj [("any", children)] => validateChildren (validateNode levels) children
    | .obj [("not", child)] =>
      match child with
      | .obj (field :: fields) => validateNode levels (.obj (field :: fields))
      | _ => none
    | .obj fields => if (fields.lookup "field").isSome then validatePredicate rt fields else none
    | _ => none

def validate : Value → Bool
  | .obj [] => true
  | .obj fields => (validateNode rt maxDepth (.obj fields)).any (· ≤ maxPredicates)
  | _ => false

end Validation

/-! ### Evaluation -/

def dig : Value → List String → Value
  | value, [] => value
  | .obj fields, key :: rest => dig (get fields key) rest
  | _, _ :: _ => .null

section Evaluation
variable {τ : Type} (rt : Runtime τ)

def timeValue (key : String) (time : τ) : Value :=
  match key with
  | "hour" => .int (rt.hour time)
  | "minute" => .int (rt.minute time)
  | "minute_of_day" => .int (rt.hour time * 60 + rt.minute time)
  | "weekday" => .int (rt.dayOfWeek time)
  | "date" => .str (rt.isoDate time)
  | _ => .null

def resolve (field : Value) (predicate : Object) (context : Context τ) : Option Value :=
  match field with
  | .str name =>
    if isTimeField field then
      match (predicate.lookup "utc_offset_minutes").getD (.int 0) with
      | .int offset =>
        (rt.add context.time (offset * 60)).map (timeValue rt (String.ofList (name.toList.drop 5)))
      -- The product with 60 or the addition raises.
      | _ => none
    else some (dig context.root (segments name))
  | _ => none

/-- `Enum.any?(values, &equal?(value, &1))`; the entries of a map are tuples. -/
def equalsAny (values value : Value) : Option Bool :=
  match values with
  | .arr values => some (values.any (equal value))
  | .obj _ => some false
  | _ => none

def regexMatch (pattern subject : String) : Bool :=
  rt.compiles pattern && (rt.run pattern subject).getD false

def contains (value needle : Value) : Option Bool :=
  match value, needle with
  | .str text, needle => (toText rt.floatText needle).map fun part => part.toList <:+ text.toList
  | .arr items, needle => some (items.any (equal · needle))
  | .obj fields, .str key => some (fields.lookup key).isSome
  | _, _ => some false

def applyOp (op : Value) (value : Value) (predicate : Object) : Option Bool :=
  match op, predicate.lookup "value" with
  | .str "eq", some expected => some (equal value expected)
  | .str "neq", some expected => some (!equal value expected)
  | .str "in", some values =>
    match value with
    | .arr items => items.anyM (equalsAny values)
    | value => equalsAny values value
  | .str "contains", some needle => contains rt value needle
  | .str "regex", some (.str pattern) =>
    match value with
    | .str subject => some (regexMatch rt pattern subject)
    | _ => some false
  | .str "exists", expected =>
    some (identical (.bool (!identical value .null)) (expected.getD (.bool true)))
  | .str "gt", some bound => some (compare value bound = some .gt)
  | .str "lt", some bound => some (compare value bound = some .lt)
  | _, _ => some false

def matchesPredicate (context : Context τ) (predicate : Object) : Option Bool :=
  match predicate.lookup "field", predicate.lookup "op" with
  | some field, some op => do
    let value ← resolve rt field predicate context
    applyOp rt op value predicate
  | _, _ => some false

variable (context : Context τ)

mutual

/-- `matches?/2`. The groups come before the predicate, whatever other keys the map has. -/
def matches? : Value → Option Bool
  | .null => some true
  | .obj fields =>
    if fields.isEmpty then some true
    else
      match matchesUnderAll fields, matchesUnderAny fields, matchesUnderNot fields with
      | some answer, _, _ => answer
      | none, some answer, _ => answer
      | none, none, some answer => answer
      | none, none, none => matchesPredicate rt context fields
  | _ => some false

/-- `Enum.all?(children, &matches?(&1, context))` -/
def matchesAll : List Value → Option Bool
  | [] => some true
  | child :: children => do
    if ← matches? child then matchesAll children else return false

/-- `Enum.any?(children, &matches?(&1, context))` -/
def matchesAny : List Value → Option Bool
  | [] => some false
  | child :: children => do
    if ← matches? child then return true else matchesAny children

/-- The clause for `%{"all" => children}`, if the map has such a list. -/
def matchesUnderAll : Object → Option (Option Bool)
  | [] => none
  | (key, .arr children) :: rest =>
    if key = "all" then some (matchesAll children) else matchesUnderAll rest
  | (key, _) :: rest => if key = "all" then none else matchesUnderAll rest

def matchesUnderAny : Object → Option (Option Bool)
  | [] => none
  | (key, .arr children) :: rest =>
    if key = "any" then some (matchesAny children) else matchesUnderAny rest
  | (key, _) :: rest => if key = "any" then none else matchesUnderAny rest

def matchesUnderNot : Object → Option (Option Bool)
  | [] => none
  | (key, child) :: rest =>
    if key = "not" then some ((matches? child).map not) else matchesUnderNot rest

end

end Evaluation

end Converger.Conditions
