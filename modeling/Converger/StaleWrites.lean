import Mathlib.Logic.Basic

/-!
# Writes from a record read earlier

An update computed from a record that was read earlier names some fields. A field is
written only where the new value differs from the one that was read, whatever the
store holds by then; every other field keeps its stored value.
-/
namespace Converger.StaleWrites

universe u
variable {α : Type u} [DecidableEq α]

/-- The stored value after a write of `new` by a writer that read `old`, over `cur`. -/
def put (new : Option α) (old cur : α) : α :=
  match new with
  | none => cur
  | some v => if v = old then cur else v

/-- The write of `new` by a writer that read `old` changes the field. -/
def differs (new : Option α) (old : α) : Bool :=
  match new with
  | none => false
  | some v => v ≠ old

@[simp] theorem put_same (v cur : α) : put (some v) v cur = cur := if_pos rfl

theorem put_of_ne {v old : α} (h : v ≠ old) (cur : α) : put (some v) old cur = v := if_neg h

@[simp] theorem put_current (v old : α) : put (some v) old old = v := by
  by_cases h : v = old
  · rw [h, put_same]
  · exact put_of_ne h old

end Converger.StaleWrites
