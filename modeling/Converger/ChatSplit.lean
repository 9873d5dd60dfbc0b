import Converger.Text
import Mathlib.Data.List.DropRight

/-!
# Splitting a chat message

`ChatContent.split/2` cuts a text that is too long for a provider at whitespace and trims both sides
of the cut.
-/
namespace Converger.ChatContent
open Text List

/-- A grapheme, as its code points. -/
abbrev Grapheme := List Char

def blank (g : Grapheme) : Bool := g.all isSpace

def isBreak (g : Grapheme) : Bool := g == ['\n'] || g == [' ']

-- `String.trim_leading/1` works on code points: it also takes the space of a grapheme that has
-- more than the space.
def trimLeading (text : List Grapheme) : List Grapheme :=
  match text.dropWhile blank with
  | [] => []
  | g :: rest => g.dropWhile isSpace :: rest

def trimTrailing (text : List Grapheme) : List Grapheme :=
  match text.reverse.dropWhile blank with
  | [] => []
  | g :: rest => (g.rdropWhile isSpace :: rest).reverse

/-- The last whitespace in the second half of the chunk, else a hard cut. -/
def cutPoint (head : List Grapheme) (max : ℕ) : ℕ :=
  match head.zipIdx.reverse.find? fun (g, i) => isBreak g && max / 2 ≤ i with
  | some (_, i) => i
  | none => max

variable {text rest : List Grapheme} {g : Grapheme} {max : ℕ}

/-- The cut is a hard one, or the text goes on with a space or a newline there. -/
theorem cutPoint_cases (text : List Grapheme) (max : ℕ) :
    (cutPoint (text.take max) max = max ∧
      ∀ i g, (text.take max)[i]? = some g → max / 2 ≤ i → isBreak g = false) ∨
    cutPoint (text.take max) max ≤ max ∧
      ∃ g rest, text.drop (cutPoint (text.take max) max) = g :: rest ∧ isBreak g := by
  unfold cutPoint
  split
  · rename_i g i hfind
    have hbreak := find?_some hfind
    simp only [Bool.and_eq_true] at hbreak
    have hmem := mem_reverse.mp (mem_of_find?_eq_some hfind)
    obtain ⟨hi, hg⟩ := List.getElem?_eq_some_iff.mp (mem_zipIdx_iff_getElem?.mp hmem)
    rw [length_take] at hi
    rw [getElem_take] at hg
    refine .inr ⟨by omega, g, text.drop (i + 1), ?_, hbreak.1⟩
    rw [drop_eq_getElem_cons (by omega), hg]
  · rename_i hfind
    refine .inl ⟨rfl, fun i g hi hle => ?_⟩
    have hnone := find?_eq_none.mp hfind (g, i) (mem_reverse.mpr (mem_zipIdx_iff_getElem?.mpr hi))
    simpa [hle] using hnone

theorem blank_of_isBreak (h : isBreak g) : blank g := by
  simp only [isBreak, Bool.or_eq_true, beq_iff_eq] at h
  rcases h with rfl | rfl <;> decide

theorem trimLeading_length_le (text : List Grapheme) : (trimLeading text).length ≤ text.length := by
  have hle : (text.dropWhile blank).length ≤ text.length := (dropWhile_sublist blank).length_le
  unfold trimLeading
  split
  · exact Nat.zero_le _
  · rename_i heq
    rwa [heq] at hle

/-- A cut before the first grapheme is a cut at a space, which is trimmed. -/
theorem trimLeading_drop_lt (hmax : 0 < max) (h : max < text.length) :
    (trimLeading (text.drop (cutPoint (text.take max) max))).length < text.length := by
  rcases cutPoint_cases text max with ⟨hcut, -⟩ | ⟨-, g, rest, hdrop, hbreak⟩
  · have hle := trimLeading_length_le (text.drop max)
    rw [length_drop] at hle
    rw [hcut]
    omega
  · have htrim : trimLeading (g :: rest) = trimLeading rest := by
      rw [trimLeading, dropWhile_cons_of_pos (blank_of_isBreak hbreak)]
      rfl
    have hle := trimLeading_length_le rest
    have hlength := congrArg length hdrop
    rw [length_drop, length_cons] at hlength
    rw [hdrop, htrim]
    omega

def doSplit (max : ℕ) (hmax : 0 < max) (text : List Grapheme) : List (List Grapheme) :=
  if text.length ≤ max then [text]
  else
    let cut := cutPoint (text.take max) max
    trimTrailing (text.take cut) :: doSplit max hmax (trimLeading (text.drop cut))
termination_by text.length
decreasing_by exact trimLeading_drop_lt hmax (by omega)

def split (text : List Grapheme) (max : ℕ) : List (List Grapheme) :=
  if hmax : 0 < max then if text.all blank then [] else doSplit max hmax text else []

/-- No grapheme has whitespace at one end and something else at the other. -/
def Clean (text : List Grapheme) : Prop :=
  ∀ g ∈ text, blank g = false → g.dropWhile isSpace = g ∧ g.rdropWhile isSpace = g

/-- Neither the first grapheme nor the last one is whitespace. -/
def Bounded (text : List Grapheme) : Prop :=
  (∃ g rest, text = g :: rest ∧ blank g = false) ∧ ∃ rest g, text = rest ++ [g] ∧ blank g = false

theorem Clean.sublist (h : Clean text) (hrest : rest <+ text) : Clean rest :=
  fun g hg => h g (hrest.mem hg)

end Converger.ChatContent
