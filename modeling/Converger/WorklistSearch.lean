import Mathlib.Data.Finset.Card

/-!
# Searching a finite directed graph

A graph is given by its successor lists, of which only finitely many are not empty. The
search works off a list of nodes and remembers the ones it has expanded. It tells whether a
goal can be reached, and it ends although the list grows: every expansion with successors
uses up one of the finitely many nodes that have any.
-/
namespace Converger.WorklistSearch
open Relation List

universe u
variable {α : Type u}

/-- A directed graph by successor lists; nodes outside `keys` have no successors. -/
structure Graph (α : Type u) where
  succ : α → List α
  keys : Finset α
  succ_eq_nil : ∀ x, x ∉ keys → succ x = []

variable {g : Graph α} {goal a b : α} {work : List α} {visited : Finset α}

namespace Graph

def empty : Graph α where
  succ := fun _ => []
  keys := ∅
  succ_eq_nil := fun _ _ => rfl

def Edge (g : Graph α) (x y : α) : Prop := y ∈ g.succ x

theorem edge_empty (x y : α) : ¬ (empty : Graph α).Edge x y := not_mem_nil

/-- Every successor of an expanded node is still to be looked at or was expanded itself. -/
def Pursued (g : Graph α) (goal : α) (work : List α) (visited : Finset α) : Prop :=
  ∀ v ∈ visited, v ≠ goal → ∀ y ∈ g.succ v, y ∈ work ∨ y ∈ visited ∧ y ≠ goal

theorem Pursued.exists_work (h : g.Pursued goal work visited) {v : α} (hv : v ∈ visited)
    (hne : v ≠ goal) (hpath : ReflTransGen g.Edge v goal) : ∃ w ∈ work, ReflTransGen g.Edge w goal := by
  induction hpath using ReflTransGen.head_induction_on with
  | refl => exact absurd rfl hne
  | head hedge hpath ih =>
    rcases h _ hv hne _ hedge with hwork | ⟨hvisited, hgoal⟩
    · exact ⟨_, hwork, hpath⟩
    · exact ih hvisited hgoal

section DecidableEq
variable [DecidableEq α]

/-- Add the edges from `x` to each of `ys`. -/
def add (g : Graph α) (x : α) (ys : List α) : Graph α where
  succ := Function.update g.succ x (g.succ x ++ ys)
  keys := insert x g.keys
  succ_eq_nil := by
    intro z hz
    rw [Finset.mem_insert, not_or] at hz
    rw [Function.update_of_ne hz.1]
    exact g.succ_eq_nil z hz.2

theorem edge_add {x : α} {ys : List α} : (g.add x ys).Edge a b ↔ g.Edge a b ∨ a = x ∧ b ∈ ys := by
  by_cases h : a = x
  · subst h
    simp [Edge, add]
  · simp [Edge, add, h]

/-- Whether a node of the work list leads to `goal`, where the successors of the nodes in
`visited` are no longer of interest. -/
def search (g : Graph α) (goal : α) (work : List α) (visited : Finset α) : Bool :=
  match work with
  | [] => false
  | current :: rest =>
    if current = goal then true
    else if current ∈ visited then g.search goal rest visited
    else g.search goal (rest ++ g.succ current) (insert current visited)
termination_by ((g.keys \ visited).card, work.length)
decreasing_by
  · exact Prod.Lex.right _ (Nat.lt_succ_self _)
  · rename_i hvisited
    by_cases hkey : current ∈ g.keys
    · refine Prod.Lex.left _ _ (Finset.card_lt_card ?_)
      rw [Finset.ssubset_iff_of_subset (Finset.sdiff_subset_sdiff subset_rfl
        (Finset.subset_insert _ _))]
      exact ⟨current, by simp [hkey, hvisited], by simp⟩
    · -- a node without successors leaves the measure of the graph and shortens the list
      have hcard : (g.keys \ insert current visited).card = (g.keys \ visited).card := by
        rw [Finset.sdiff_insert_of_notMem hkey]
      rw [g.succ_eq_nil current hkey, hcard]
      exact Prod.Lex.right _ (by simp)

theorem search_iff (h : g.Pursued goal work visited) :
    g.search goal work visited = true ↔ ∃ w ∈ work, ReflTransGen g.Edge w goal := by
  fun_induction search g goal work visited with
  | case1 => simp
  | case2 visited rest =>
    exact iff_of_true rfl ⟨goal, mem_cons_self, .refl⟩
  | case3 visited current rest hne hvisited ih =>
    have hrest : g.Pursued goal rest visited := by
      intro v hv hgoal y hy
      rcases h v hv hgoal y hy with hwork | hdone
      · rcases mem_cons.mp hwork with rfl | hwork
        · exact .inr ⟨hvisited, hne⟩
        · exact .inl hwork
      · exact .inr hdone
    rw [ih hrest]
    constructor
    · rintro ⟨w, hw, hpath⟩
      exact ⟨w, mem_cons_of_mem _ hw, hpath⟩
    · rintro ⟨w, hw, hpath⟩
      rcases mem_cons.mp hw with rfl | hw
      · exact hrest.exists_work hvisited hne hpath
      · exact ⟨w, hw, hpath⟩
  | case4 visited current rest hne hvisited ih =>
    have hnext : g.Pursued goal (rest ++ g.succ current) (insert current visited) := by
      intro v hv hgoal y hy
      rcases Finset.mem_insert.mp hv with rfl | hv
      · exact .inl (mem_append_right _ hy)
      · rcases h v hv hgoal y hy with hwork | ⟨hdone, hy⟩
        · rcases mem_cons.mp hwork with rfl | hwork
          · exact .inr ⟨Finset.mem_insert_self _ _, hne⟩
          · exact .inl (mem_append_left _ hwork)
        · exact .inr ⟨Finset.mem_insert_of_mem hdone, hy⟩
    rw [ih hnext]
    constructor
    · rintro ⟨w, hw, hpath⟩
      rcases mem_append.mp hw with hw | hw
      · exact ⟨w, mem_cons_of_mem _ hw, hpath⟩
      · exact ⟨current, mem_cons_self, hpath.head hw⟩
    · rintro ⟨w, hw, hpath⟩
      rcases mem_cons.mp hw with rfl | hw
      · -- the path from the expanded node goes on over one of its successors
        rcases hpath.cases_head with heq | ⟨y, hedge, hpath⟩
        · exact absurd heq hne
        · exact ⟨y, mem_append_right _ hedge, hpath⟩
      · exact ⟨w, mem_append_left _ hw, hpath⟩

end DecidableEq

end Graph

/-! ## Cycles -/

def Acyclic (r : α → α → Prop) : Prop := ∀ x, ¬ TransGen r x x

theorem Acyclic.mono {r q : α → α → Prop} (h : Acyclic q) (hle : ∀ x y, r x y → q x y) :
    Acyclic r := fun x hx => h x (TransGen.mono hle x x hx)

section Fan
variable {r q : α → α → Prop} {x : α} {ys : List α}

theorem transGen_or_through (hq : ∀ a b, q a b ↔ r a b ∨ a = x ∧ b ∈ ys) (h : TransGen q a b) :
    TransGen r a b ∨ ReflTransGen q a x ∧ ∃ y ∈ ys, ReflTransGen q y b := by
  induction h with
  | single hedge =>
    rcases (hq _ _).mp hedge with hold | ⟨rfl, hnew⟩
    · exact .inl (.single hold)
    · exact .inr ⟨.refl, _, hnew, .refl⟩
  | tail hpath hedge ih =>
    rcases ih with hold | ⟨hto, y, hy, hfrom⟩
    · rcases (hq _ _).mp hedge with hedge | ⟨rfl, hnew⟩
      · exact .inl (hold.tail hedge)
      · exact .inr ⟨hpath.to_reflTransGen, _, hnew, .refl⟩
    · exact .inr ⟨hto, y, hy, hfrom.tail hedge⟩

/-- New edges out of `x` close a cycle exactly where one of their ends leads back to `x`. -/
theorem acyclic_add_iff (hq : ∀ a b, q a b ↔ r a b ∨ a = x ∧ b ∈ ys) :
    Acyclic q ↔ Acyclic r ∧ ¬ ∃ y ∈ ys, ReflTransGen q y x := by
  constructor
  · intro h
    refine ⟨h.mono fun a b hab => (hq a b).mpr (.inl hab), ?_⟩
    rintro ⟨y, hy, hpath⟩
    exact h x (.head' ((hq x y).mpr (.inr ⟨rfl, hy⟩)) hpath)
  · rintro ⟨hold, hnew⟩ a hcycle
    rcases transGen_or_through hq hcycle with hcycle | ⟨hto, y, hy, hfrom⟩
    · exact hold a hcycle
    · exact hnew ⟨y, hy, hfrom.trans hto⟩

end Fan

end Converger.WorklistSearch
