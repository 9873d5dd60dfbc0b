import Mathlib.Algebra.Order.Ring.Rat
import Mathlib.Data.List.Nodup

/-!
# JSON values and their protobuf form

JSON values as a program holds them: integers and floats are kept apart, and a float by its exact
value. Two values are the same if they are equal as JSON, where numbers are compared by value and
objects as maps. A `google.protobuf.Value` has one kind of number, a double; embedding a value and
reading it back gives the same value wherever its numbers are doubles.
-/
namespace Converger.JsonValues
open List

inductive Value where
  | null
  | bool (b : Bool)
  | int (n : ℤ)
  | float (q : ℚ)
  | str (s : String)
  | arr (items : List Value)
  | obj (fields : List (String × Value))
  deriving Repr

namespace Value

mutual

def same : Value → Value → Bool
  | .null, .null => true
  | .bool a, .bool b => a = b
  | .int a, .int b => a = b
  | .int a, .float b => a = b
  | .float a, .int b => a = b
  | .float a, .float b => a = b
  | .str a, .str b => a = b
  | .arr a, .arr b => sameItems a b
  | .obj a, .obj b => b.all (fun field => field.1 ∈ a.map Prod.fst) && sameFields a b
  | _, _ => false

def sameItems : List Value → List Value → Bool
  | [], [] => true
  | x :: xs, y :: ys => same x y && sameItems xs ys
  | _, _ => false

def sameFields : List (String × Value) → List (String × Value) → Bool
  | [], _ => true
  | (key, x) :: rest, fields =>
    (match fields.lookup key with
      | some y => same x y
      | none => false) && sameFields rest fields

end

end Value

/-! ### Doubles -/

def Representable (q : ℚ) : Prop :=
  ∃ m e : ℤ, |m| < 2 ^ 53 ∧ -1074 ≤ e ∧ e ≤ 971 ∧ q = m * 2 ^ e

/-- The conversion of numbers to doubles, which keeps a number that is one. -/
structure Doubles where
  round : ℚ → ℚ
  round_of_representable : ∀ q, Representable q → round q = q

def maxSafe : ℚ := 2 ^ 53 - 1

/-- A `google.protobuf.Value`. -/
inductive Pb where
  | null
  | number (q : ℚ)
  | string (s : String)
  | bool (b : Bool)
  | struct (fields : List (String × Pb))
  | list (items : List Pb)
  deriving Repr

/-- A `google.protobuf.Struct`. -/
abbrev Struct := List (String × Pb)

section Embedding
variable (d : Doubles)

mutual

def Pb.ofValue : Value → Pb
  | .null => .null
  | .bool b => .bool b
  | .int n => .number (d.round n)
  | .float q => .number (d.round q)
  | .str s => .string s
  | .arr items => .list (Pb.ofItems items)
  | .obj fields => .struct (Pb.ofFields fields)

def Pb.ofItems : List Value → List Pb
  | [] => []
  | x :: xs => Pb.ofValue x :: Pb.ofItems xs

def Pb.ofFields : List (String × Value) → Struct
  | [] => []
  | (key, x) :: rest => (key, Pb.ofValue x) :: Pb.ofFields rest

end

end Embedding

def Value.ofNumber (q : ℚ) : Value :=
  if q.den = 1 ∧ |q| ≤ maxSafe then .int q.num else .float q

mutual

def Value.ofPb : Pb → Value
  | .null => .null
  | .number q => .ofNumber q
  | .string s => .str s
  | .bool b => .bool b
  | .struct fields => .obj (Value.ofStruct fields)
  | .list items => .arr (Value.ofPbs items)

def Value.ofPbs : List Pb → List Value
  | [] => []
  | x :: xs => Value.ofPb x :: Value.ofPbs xs

def Value.ofStruct : Struct → List (String × Value)
  | [] => []
  | (key, x) :: rest => (key, Value.ofPb x) :: Value.ofStruct rest

end

/-! ### Reading an embedded value back -/

mutual

def Value.WellFormed : Value → Prop
  | .int n => Representable n
  | .float q => Representable q
  | .arr items => Value.WellFormedItems items
  | .obj fields => (fields.map Prod.fst).Nodup ∧ Value.WellFormedFields fields
  | _ => True

def Value.WellFormedItems : List Value → Prop
  | [] => True
  | x :: xs => x.WellFormed ∧ Value.WellFormedItems xs

def Value.WellFormedFields : List (String × Value) → Prop
  | [] => True
  | (_, x) :: rest => x.WellFormed ∧ Value.WellFormedFields rest

end

section RoundTrip
variable (d : Doubles)

theorem same_ofNumber_int (n : ℤ) : (Value.ofNumber n).same (.int n) = true := by
  unfold Value.ofNumber
  split
  · simp [Value.same]
  · simp [Value.same]

theorem same_ofNumber_float (q : ℚ) : (Value.ofNumber q).same (.float q) = true := by
  unfold Value.ofNumber
  split
  · rename_i hwhole
    simp only [Value.same, decide_eq_true_eq]
    exact Rat.coe_int_num_of_den_eq_one hwhole.1
  · simp [Value.same]

theorem lookup_of_mem {fields : List (String × Value)} (hkeys : (fields.map Prod.fst).Nodup)
    {key : String} {x : Value} (h : (key, x) ∈ fields) : fields.lookup key = some x := by
  induction fields with
  | nil => cases h
  | cons field rest ih =>
    obtain ⟨hnot, hrest⟩ := nodup_cons.mp hkeys
    rcases mem_cons.mp h with rfl | hmem
    · exact lookup_cons_self
    · have hne : key ≠ field.1 := by
        rintro rfl
        exact hnot (mem_map.mpr ⟨_, hmem, rfl⟩)
      rw [lookup_cons, beq_eq_false_iff_ne.mpr hne]
      exact ih hrest hmem

theorem keys_ofStruct_ofFields (fields : List (String × Value)) :
    (Value.ofStruct (Pb.ofFields d fields)).map Prod.fst = fields.map Prod.fst := by
  induction fields with
  | nil => rfl
  | cons field rest ih => simp [Pb.ofFields, Value.ofStruct, ih]

mutual

/-- A value whose numbers are doubles is the same after it was embedded and read back. -/
theorem same_ofPb_ofValue (v : Value) (h : v.WellFormed) :
    (Value.ofPb (Pb.ofValue d v)).same v = true := by
  cases v with
  | null => rfl
  | bool b | str s => simp [Pb.ofValue, Value.ofPb, Value.same]
  | int n =>
    rw [Pb.ofValue, Value.ofPb, d.round_of_representable n h]
    exact same_ofNumber_int n
  | float q =>
    rw [Pb.ofValue, Value.ofPb, d.round_of_representable q h]
    exact same_ofNumber_float q
  | arr items =>
    rw [Pb.ofValue, Value.ofPb, Value.same]
    exact sameItems_ofPbs_ofItems items h
  | obj fields =>
    rw [Pb.ofValue, Value.ofPb, Value.same, keys_ofStruct_ofFields d fields]
    obtain ⟨hkeys, hfields⟩ := h
    have hsame := sameFields_ofStruct_ofFields fields fields hfields fun _ _ => lookup_of_mem hkeys
    have hall : fields.all (fun field => field.1 ∈ fields.map Prod.fst) = true := by
      rw [all_eq_true]
      intro field hmem
      exact decide_eq_true (mem_map.mpr ⟨field, hmem, rfl⟩)
    rw [hall, hsame]
    rfl

theorem sameItems_ofPbs_ofItems (items : List Value) (h : Value.WellFormedItems items) :
    Value.sameItems (Value.ofPbs (Pb.ofItems d items)) items = true := by
  cases items with
  | nil => rfl
  | cons x xs =>
    rw [Pb.ofItems, Value.ofPbs, Value.sameItems, same_ofPb_ofValue x h.1,
      sameItems_ofPbs_ofItems xs h.2]
    rfl

theorem sameFields_ofStruct_ofFields (part all : List (String × Value))
    (h : Value.WellFormedFields part) (hall : ∀ key x, (key, x) ∈ part → all.lookup key = some x) :
    Value.sameFields (Value.ofStruct (Pb.ofFields d part)) all = true := by
  cases part with
  | nil => rfl
  | cons field rest =>
    obtain ⟨key, x⟩ := field
    have hlookup := hall key x mem_cons_self
    have hrest := sameFields_ofStruct_ofFields rest all h.2
      fun key x hmem => hall key x (mem_cons_of_mem _ hmem)
    have hfirst := same_ofPb_ofValue x h.1
    simp only [Pb.ofFields, Value.ofStruct, Value.sameFields, hlookup, hfirst, hrest]
    rfl

end

end RoundTrip

end Converger.JsonValues
