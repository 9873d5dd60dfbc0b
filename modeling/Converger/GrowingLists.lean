import Mathlib.Data.List.Nodup

/-!
# Lists that grow at the end
-/
namespace List

variable {α : Type*} {a b : α} {l : List α} {P : α → Prop} {R : α → α → Prop}

theorem mem_snoc : a ∈ l ++ [b] ↔ a ∈ l ∨ a = b := by
  rw [mem_append, mem_singleton]

theorem forall_mem_snoc (h : ∀ x ∈ l, P x) (hb : P b) : ∀ x ∈ l ++ [b], P x :=
  forall_mem_append.mpr ⟨h, forall_mem_singleton.mpr hb⟩

theorem forall_mem_set {i : ℕ} (h : ∀ x ∈ l, P x) (hb : P b) : ∀ x ∈ l.set i b, P x := fun x hx =>
  (mem_or_eq_of_mem_set hx).elim (h x) fun heq => heq ▸ hb

theorem exists_mem_set {i : ℕ} (hi : l[i]? = some a) (h : ∃ x ∈ l, P x) (hb : P a → P b) :
    ∃ x ∈ l.set i b, P x := by
  obtain ⟨x, hx, hP⟩ := h
  obtain ⟨k, hk⟩ := mem_iff_getElem?.mp hx
  by_cases hki : i = k
  · subst hki
    obtain rfl : a = x := Option.some.inj (hi.symm.trans hk)
    exact ⟨b, mem_set (getElem?_eq_some_iff.mp hi).1 b, hb hP⟩
  · exact ⟨x, mem_of_getElem? ((getElem?_set_ne hki).trans hk), hP⟩

theorem getElem?_append_of_eq_some {i : ℕ} (h : l[i]? = some a) (new : List α) :
    (l ++ new)[i]? = some a := by
  rw [getElem?_append_left (getElem?_eq_some_iff.mp h).1, h]

theorem Pairwise.snoc (h : l.Pairwise R) (hb : ∀ x ∈ l, R x b) : (l ++ [b]).Pairwise R := by
  refine pairwise_append.mpr ⟨h, pairwise_singleton R b, fun x hx y hy => ?_⟩
  exact mem_singleton.mp hy ▸ hb x hx

theorem Nodup.snoc (h : l.Nodup) (hb : b ∉ l) : (l ++ [b]).Nodup :=
  Pairwise.snoc h fun _ hx heq => hb (heq ▸ hx)

end List
