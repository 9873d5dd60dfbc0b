import Mathlib.Data.List.Basic

/-!
# Text helpers of the runtime

`String.trim/1`, `Integer.parse/1` and the blank test of a changeset cast, as far
as the modelled code relies on them.
-/
namespace Converger.Text

/-- Unicode `White_Space`: the characters `String.trim/1` removes. -/
def isSpace (c : Char) : Bool :=
  let n := c.toNat
  (9 ≤ n && n ≤ 13) || n == 0x20 || n == 0x85 || n == 0xA0 || n == 0x1680 ||
    (0x2000 ≤ n && n ≤ 0x200A) || n == 0x2028 || n == 0x2029 || n == 0x202F ||
    n == 0x205F || n == 0x3000

def trim (cs : List Char) : List Char :=
  ((cs.dropWhile isSpace).reverse.dropWhile isSpace).reverse

/-- A string made of whitespace only, which a changeset cast takes for `nil`. -/
def blank (s : String) : Bool := s.toList.all isSpace

def castText (s : String) : Option String := if blank s then none else some s

theorem castText_eq_some {s t : String} : castText s = some t ↔ blank s = false ∧ s = t := by
  cases h : blank s <;> simp [castText, h]

@[simp] theorem isSome_castText (s : String) : (castText s).isSome = !blank s := by
  cases h : blank s <;> simp [castText, h]

theorem blank_append (s t : String) : blank (s ++ t) = (blank s && blank t) := by
  simp [blank, String.toList_append, List.all_append]

def parseDigits (cs : List Char) : Option (ℕ × List Char) :=
  let digits := cs.takeWhile Char.isDigit
  if digits = [] then none
  else some (digits.foldl (fun n d => 10 * n + (d.toNat - '0'.toNat)) 0, cs.dropWhile Char.isDigit)

/-- `Integer.parse/1`: an optional sign, digits, and the rest of the text. -/
def integerParse : List Char → Option (Int × List Char)
  | '-' :: cs => (parseDigits cs).map fun r => (-(r.1 : Int), r.2)
  | '+' :: cs => (parseDigits cs).map fun r => ((r.1 : Int), r.2)
  | cs => (parseDigits cs).map fun r => ((r.1 : Int), r.2)

/-- A pattern from `^` to `$`; the `$` also matches before a line break at the end. -/
def wholeLine (p : List Char → Bool) (cs : List Char) : Bool :=
  p cs || (cs.getLast? = some '\n' && p cs.dropLast)

/-- A lower-case letter and at most 63 lower-case letters, digits and further characters. -/
def isName (further : List Char) : List Char → Bool
  | [] => false
  | c :: cs => c.isLower && cs.length ≤ 63 && cs.all fun c => c.isLower || c.isDigit || c ∈ further

theorem mem_of_mem_splitOn {α : Type*} [BEq α] {sep x : α} {xs part : List α}
    (h : part ∈ xs.splitOn sep) (hx : x ∈ part) : x ∈ xs := by
  induction xs generalizing part with
  | nil => simp_all
  | cons y xs ih =>
    rw [List.splitOn_cons_eq_if_modifyHead] at h
    cases hsplit : xs.splitOn sep with
    | nil => exact absurd hsplit (List.splitOn_ne_nil _ _)
    | cons first parts =>
      rw [hsplit, List.modifyHead_cons] at h
      rw [hsplit] at ih
      split at h <;> grind

end Converger.Text
