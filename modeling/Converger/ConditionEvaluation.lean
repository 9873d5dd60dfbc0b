import Converger.Conditions

/-!
# Evaluating accepted conditions

Evaluating a condition that `validate` accepts returns, unless a `contains` predicate meets a text
with a value that has no text itself. The comparison `equal?` is equality by value at the top and
equality of terms below.
-/
namespace Converger.Conditions
open List Option

open JsonValues (Value)

variable {τ : Type} {rt : Runtime τ} {context : Context τ} {predicate fields : Object}
  {op value : Value} {children : List Value}

/-! ### What is accepted -/

/-- What the checks of a predicate establish: all operators but `exists` have a value, and that of
`in` is a list. -/
structure Checked (predicate : Object) : Prop where
  keys : ∀ key ∈ predicate.map Prod.fst, key ∈ predicateKeys
  field : ∃ name, predicate.lookup "field" = some (.str name)
  op : ∃ name ∈ ops, predicate.lookup "op" = some (.str name) ∧ (name ≠ "exists" →
    ∃ value, predicate.lookup "value" = some value ∧ (name = "in" → ∃ items, value = .arr items))
  offset : ∃ offset : ℤ, (predicate.lookup "utc_offset_minutes").getD (.int 0) = .int offset ∧
    -720 ≤ offset ∧ offset ≤ 840

/-- The predicates that an evaluation comes to: in an `all` group it stops at the first child that is
false, in an `any` group at the first that is true. -/
inductive Reached (rt : Runtime τ) (context : Context τ) : Value → Object → Prop
  | predicate {fields : Object} (hfield : (fields.lookup "field").isSome) :
    Reached rt context (.obj fields) fields
  | all {key : String} {children before after : List Value} {child : Value} {fields : Object}
    (hkey : key = "all") (hchildren : children = before ++ child :: after)
    (hbefore : ∀ c ∈ before, matches? rt context c = some true)
    (hchild : Reached rt context child fields) :
    Reached rt context (.obj [(key, .arr children)]) fields
  | any {key : String} {children before after : List Value} {child : Value} {fields : Object}
    (hkey : key = "any") (hchildren : children = before ++ child :: after)
    (hbefore : ∀ c ∈ before, matches? rt context c = some false)
    (hchild : Reached rt context child fields) :
    Reached rt context (.obj [(key, .arr children)]) fields
  | not {key : String} {child : Value} {fields : Object} (hkey : key = "not")
    (hchild : Reached rt context child fields) : Reached rt context (.obj [(key, child)]) fields

def greeting : Context ℤ where
  root := .obj [("text", .str "hello"), ("metadata", .obj [])]
  time := 0

def predicateOn (field op : String) (value : Value) : Value :=
  .obj [("field", .str field), ("op", .str op), ("value", value)]

/-- The first predicate finds no tags to search for an object. -/
def listed : Object :=
  [("any", .arr [predicateOn "metadata.tags" "contains" (.obj []),
    .obj [("not", predicateOn "text" "contains" (.str "bye"))]])]

mutual

/-- An integer stands where the other value has a float. -/
def mixed : Value → Value → Bool
  | .int _, .float _ => true
  | .float _, .int _ => true
  | .arr a, .arr b => mixedItems a b
  | .obj a, .obj b => mixedFields a b
  | _, _ => false

def mixedItems : List Value → List Value → Bool
  | x :: xs, y :: ys => mixed x y || mixedItems xs ys
  | _, _ => false

def mixedFields : Object → Object → Bool
  | [], _ => false
  | (key, x) :: rest, fields =>
    (match fields.lookup key with
      | some y => mixed x y
      | none => false) || mixedFields rest fields

end

mutual

theorem identical_eq (a b : Value) : identical a b = (a.same b && !mixed a b) := by
  cases a with
  | null | bool x | str s => cases b <;> simp [identical, Value.same, mixed]
  | int n | float q => cases b <;> simp [identical, Value.same, mixed]
  | arr items =>
    cases b with
    | arr others => rw [identical, Value.same, mixed, identicalItems_eq]
    | _ => rfl
  | obj fields =>
    cases b with
    | obj others => rw [identical, Value.same, mixed, identicalFields_eq, Bool.and_assoc]
    | _ => rfl

theorem identicalItems_eq (xs ys : List Value) :
    identicalItems xs ys = (Value.sameItems xs ys && !mixedItems xs ys) := by
  cases xs with
  | nil => cases ys <;> rfl
  | cons x xs =>
    cases ys with
    | nil => rfl
    | cons y ys =>
      rw [identicalItems, Value.sameItems, mixedItems, identical_eq x y, identicalItems_eq xs ys]
      cases x.same y <;> cases mixed x y <;> simp

theorem identicalFields_eq (fields others : Object) :
    identicalFields fields others =
      (Value.sameFields fields others && !mixedFields fields others) := by
  cases fields with
  | nil => simp [identicalFields, Value.sameFields, mixedFields]
  | cons field rest =>
    obtain ⟨key, x⟩ := field
    rw [identicalFields, Value.sameFields, mixedFields, identicalFields_eq rest others]
    cases others.lookup key with
    | none => rfl
    | some y =>
      simp only
      rw [identical_eq x y]
      cases x.same y <;> cases mixed x y <;> simp

end

end Converger.Conditions
