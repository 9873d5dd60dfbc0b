import Converger.GrowingLists
import Mathlib.Data.List.Sort
import Mathlib.Order.WithBot

/-!
# Pages of a table in key order

The rows of a table whose key lies after a position, in increasing key order, and
the pages one gets by asking for one row more than the page holds. Where keys are
distinct, continuing after the last row of a page gives exactly the rows the page
left out, which is what makes a loop over pages equal to one query.
-/
namespace Converger.OrderedPages
open List

universe u v
variable {α : Type u} {K : Type v} [LinearOrder K] {key : α → K} {p : Option K} {rows xs ys : List α}
  {a x y : α} {k : K} {n : ℕ}

/-- The rows after position `p` (all rows for `none`), in increasing key order. -/
def after (key : α → K) (p : Option K) (rows : List α) : List α :=
  (rows.filter fun a => p.all fun k => decide (k < key a)).insertionSort
    (fun a b => key a ≤ key b)

/-- Cut rows fetched with one row too many into the page and whether more rows exist. -/
def split (rows : List α) (limit : ℕ) : List α × Bool :=
  if limit < rows.length then (rows.take limit, true) else (rows, false)

/-- One page: at most `limit` rows after `p`, and whether that left any out. -/
def page (key : α → K) (p : Option K) (limit : ℕ) (rows : List α) : List α × Bool :=
  split ((after key p rows).take (limit + 1)) limit

theorem mem_after : a ∈ after key p rows ↔ a ∈ rows ∧ ∀ k ∈ p, k < key a := by
  simp [after, mem_insertionSort, Option.all_eq_true]

theorem after_pairwise_le : (after key p rows).Pairwise fun a b => key a ≤ key b := by
  have : Std.Total fun a b : α => key a ≤ key b := ⟨fun a b => le_total (key a) (key b)⟩
  have : IsTrans α fun a b : α => key a ≤ key b := ⟨fun _ _ _ hab hbc => le_trans hab hbc⟩
  exact pairwise_insertionSort _ _

theorem after_map_nodup (h : (rows.map key).Nodup) : ((after key p rows).map key).Nodup := by
  have hp := perm_insertionSort (fun a b => key a ≤ key b)
    (rows.filter fun a => p.all fun k => decide (k < key a))
  exact (hp.map key).nodup_iff.mpr (h.sublist (filter_sublist.map key))

theorem after_pairwise (h : (rows.map key).Nodup) :
    (after key p rows).Pairwise fun a b => key a < key b := by
  have hne := pairwise_map.mp (after_map_nodup (p := p) h)
  exact (after_pairwise_le.and hne).imp fun hab => lt_of_le_of_ne hab.1 hab.2

/-- Two lists in strictly increasing key order with the same rows are the same list. -/
theorem eq_of_mem_iff (hx : xs.Pairwise fun a b => key a < key b)
    (hy : ys.Pairwise fun a b => key a < key b) (h : ∀ a, a ∈ xs ↔ a ∈ ys) : xs = ys := by
  have : Std.Irrefl fun a b : α => key a < key b := ⟨fun a => lt_irrefl (key a)⟩
  have : Std.Antisymm fun a b : α => key a < key b := ⟨fun _ _ hab hba => absurd hba (lt_asymm hab)⟩
  exact List.Pairwise.eq_of_mem_iff hx hy h

theorem page_fst (limit : ℕ) : (page key p limit rows).1 = (after key p rows).take limit := by
  simp only [page, split]
  split_ifs with h
  · simp [take_take]
  · simp only [length_take, not_lt] at h
    rw [take_of_length_le (by omega), take_of_length_le (by omega)]

theorem page_snd (limit : ℕ) :
    (page key p limit rows).2 = decide (limit < (after key p rows).length) := by
  simp only [page, split]
  split_ifs with h <;> simp only [length_take] at h
  · exact (decide_eq_true (by omega)).symm
  · exact (decide_eq_false (by omega)).symm

theorem after_of_split (h : (rows.map key).Nodup)
    (hs : after key p rows = xs ++ x :: ys) : after key (some (key x)) rows = ys := by
  have hp := after_pairwise (p := p) h
  rw [hs, pairwise_append] at hp
  obtain ⟨-, hxy, hcross⟩ := hp
  apply eq_of_mem_iff (after_pairwise h) (pairwise_cons.mp hxy).2
  intro a
  rw [mem_after]
  constructor
  · rintro ⟨ha, hk⟩
    have hlt : key x < key a := hk (key x) rfl
    have hm : a ∈ after key p rows := by
      refine mem_after.mpr ⟨ha, fun k hkp => lt_trans ?_ hlt⟩
      have hx : x ∈ after key p rows := by simp [hs]
      exact (mem_after.mp hx).2 k hkp
    rw [hs, mem_append, mem_cons] at hm
    rcases hm with hm | rfl | hm
    · exact absurd (hcross a hm x mem_cons_self) (lt_asymm hlt)
    · exact absurd hlt (lt_irrefl _)
    · exact hm
  · intro ha
    have hm : a ∈ after key p rows := by simp [hs, ha]
    refine ⟨(mem_after.mp hm).1, ?_⟩
    rintro _ ⟨⟩
    exact (pairwise_cons.mp hxy).1 a ha

theorem after_last (h : (rows.map key).Nodup) {limit : ℕ}
    (hx : ((after key p rows).take limit).getLast? = some x) :
    after key (some (key x)) rows = (after key p rows).drop limit := by
  obtain ⟨xs, hxs⟩ := getLast?_eq_some_iff.mp hx
  have hs : after key p rows = xs ++ x :: (after key p rows).drop limit := by
    rw [append_cons, ← hxs, take_append_drop]
  exact after_of_split h hs

section
variable (h : xs.Pairwise fun a b => key a < key b)
include h

/-- A list in increasing key order is its part below `k` followed by the rest. -/
theorem filter_lt_append_filter_le
    (k : K) : (xs.filter fun a => key a < k) ++ (xs.filter fun a => k ≤ key a) = xs := by
  induction xs with
  | nil => rfl
  | cons x xs ih =>
    obtain ⟨hx, hxs⟩ := pairwise_cons.mp h
    by_cases hk : key x < k
    · simp [hk, not_le.mpr hk, ih hxs]
    · -- everything behind `x` lies above `k` too
      have hle : k ≤ key x := not_lt.mp hk
      have hbelow : (xs.filter fun a => key a < k) = [] := by
        rw [filter_eq_nil_iff]
        intro a ha hlt
        exact hk (lt_trans (hx a ha) (of_decide_eq_true hlt))
      have hrest := ih hxs
      rw [hbelow, nil_append] at hrest
      simp [hk, hle, hbelow, hrest]

/-- Taking no more rows than lie below `k` takes them from below `k`. -/
theorem take_eq_filter_take (hn : n ≤ (xs.filter fun a => key a < k).length) :
    xs.take n = (xs.filter fun a => key a < k).take n := by
  conv_lhs => rw [← filter_lt_append_filter_le h k]
  exact take_append_of_le_length hn

/-- Where some row lies at or above `k`, the first `n` rows lie below `k` only if at
least `n` rows do. -/
theorem take_forall_lt_iff (hx : x ∈ xs) (hk : k ≤ key x) (n : ℕ) :
    (∀ a ∈ xs.take n, key a < k) ↔ n ≤ (xs.filter fun a => key a < k).length := by
  constructor
  · intro hall
    by_contra hn
    have hmem : x ∈ xs.filter fun a => k ≤ key a := by simp [hx, hk]
    obtain ⟨y, ys, hys⟩ := exists_cons_of_ne_nil (ne_nil_of_mem hmem)
    have hy : y ∈ xs.filter fun a => k ≤ key a := by simp [hys]
    have htake : y ∈ xs.take n := by
      rw [← filter_lt_append_filter_le h k, take_append, hys]
      obtain ⟨m, hm⟩ : ∃ m, n - (xs.filter fun a => key a < k).length = m + 1 :=
        ⟨_, (Nat.succ_pred_eq_of_pos (by omega)).symm⟩
      simp [hm]
    have hle : k ≤ key y := by simpa using (mem_filter.mp hy).2
    exact absurd (hall y htake) (not_lt.mpr hle)
  · intro hn a ha
    rw [take_eq_filter_take h hn] at ha
    simpa using (mem_filter.mp (mem_of_mem_take ha)).2

theorem mem_take_of_lt (hx : x ∈ xs) (hy : y ∈ xs.take n) (hlt : key x < key y) : x ∈ xs.take n := by
  rw [← take_append_drop n xs, pairwise_append] at h
  rw [← take_append_drop n xs, mem_append] at hx
  rcases hx with hx | hx
  · exact hx
  · exact absurd (h.2.2 y hy x hx) (lt_asymm hlt)

theorem le_key_last {last : α} (hlast : xs.getLast? = some last) (hx : x ∈ xs) : key x ≤ key last := by
  obtain ⟨ys, rfl⟩ := getLast?_eq_some_iff.mp hlast
  rcases mem_snoc.mp hx with hx | rfl
  · exact ((pairwise_append.mp h).2.2 x hx last (mem_singleton_self _)).le
  · rfl

end

theorem filter_key_eq (h : xs.Pairwise fun a b => key a ≠ key b)
    (hx : x ∈ xs) : (xs.filter fun a => key a = key x) = [x] := by
  induction xs with
  | nil => simp at hx
  | cons y ys ih =>
    obtain ⟨hy, hys⟩ := pairwise_cons.mp h
    rcases mem_cons.mp hx with rfl | hx
    · have hnone : (ys.filter fun a => key a = key x) = [] := by
        rw [filter_eq_nil_iff]
        intro a ha he
        exact hy a ha (of_decide_eq_true he).symm
      simp [hnone]
    · simp [hy x hx, ih hys hx]

theorem eq_of_key_eq (h : xs.Pairwise fun a b => key a ≠ key b)
    (hx : x ∈ xs) (hy : y ∈ xs) (he : key y = key x) : y = x := by
  have hmem : y ∈ xs.filter fun a => key a = key x := by simp [hy, he]
  simpa [filter_key_eq h hx] using hmem

end Converger.OrderedPages
