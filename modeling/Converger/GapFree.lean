import Mathlib.Data.List.Range

/-!
# Gap-free numbering

A list whose items carry the numbers right after `start`, one by one, with `head` the
last number given out. The only way to extend it is by the next number.
-/
namespace Converger
open List

universe u
variable {α : Type u} {seq : α → ℕ} {start head : ℕ} {items : List α}

structure GapFree (seq : α → ℕ) (start : ℕ) (items : List α) (head : ℕ) : Prop where
  head_eq : head = start + items.length
  map_seq : items.map seq = List.range' (start + 1) items.length

namespace GapFree

theorem nil (seq : α → ℕ) (start : ℕ) : GapFree seq start [] start := ⟨rfl, rfl⟩

section
variable (h : GapFree seq start items head)
include h

theorem concat {a : α} (ha : seq a = head + 1) : GapFree seq start (items ++ [a]) (head + 1) := by
  refine ⟨by rw [h.head_eq, length_append]; rfl, ?_⟩
  have hlast : seq a = start + 1 + items.length := by rw [ha, h.head_eq]; omega
  simp [range'_concat, h.map_seq, hlast]

theorem map_seq_eq : items.map seq = List.range' (start + 1) (head - start) := by
  rw [h.map_seq, h.head_eq, Nat.add_sub_cancel_left]

theorem increasing : items.Pairwise fun a b => seq a < seq b := by
  rw [← pairwise_map, h.map_seq]
  exact pairwise_lt_range'

theorem getLast_eq {a : α} (ha : items.getLast? = some a) : seq a = head := by
  obtain ⟨xs, rfl⟩ := getLast?_eq_some_iff.mp ha
  have hmap := h.map_seq
  rw [length_append, length_singleton, range'_concat, map_append, map_singleton] at hmap
  have hlast := (append_inj' hmap rfl).2
  have hseq : seq a = start + 1 + xs.length := by simpa using hlast
  rw [hseq, h.head_eq, length_append, length_singleton]
  omega

end

end GapFree
end Converger
