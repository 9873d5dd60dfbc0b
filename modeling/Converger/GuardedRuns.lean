import Converger.GrowingLists
import Mathlib.Order.Basic

/-!
# Runs of a guarded step function

A system is given by one partial step function: `step s e` is the state after
event `e`, or `none` where `e` is not enabled. Interleavings of any number of
processes are event lists, so a statement about every run is a statement about
every order in which their steps can be taken.
-/
namespace Converger.GuardedRuns
open Function List Option

universe u v
variable {S : Type u} {E : Type v} {step : S → E → Option S}

/-- The state after the listed events; `none` as soon as one of them is not enabled. -/
def run (step : S → E → Option S) : S → List E → Option S
  | s, [] => some s
  | s, e :: es => (step s e).bind fun t => run step t es

/-- Every executed event satisfies `P` in the state it is executed in. -/
def Along (step : S → E → Option S) (P : S → E → Prop) : S → List E → Prop
  | _, [] => True
  | s, e :: es => P s e ∧ ∀ t, step s e = some t → Along step P t es

def Throughout (step : S → E → Option S) (Good : S → Prop) : S → List E → Prop
  | s, [] => Good s
  | s, e :: es => Good s ∧ ∀ t, step s e = some t → Throughout step Good t es

variable {Inv Good : S → Prop} {P : S → E → Prop} {Q : E → Prop} {s t : S} {e : E} {es fs : List E}

@[simp] theorem run_nil (s : S) : run step s [] = some s := rfl

theorem run_cons_eq_some : run step s (e :: es) = some t ↔ ∃ m, step s e = some m ∧ run step m es = some t := by
  simp only [run, bind_eq_some_iff]

theorem run_append_eq_some :
    run step s (es ++ fs) = some t ↔ ∃ m, run step s es = some m ∧ run step m fs = some t := by
  induction es generalizing s with
  | nil => simp
  | cons e es ih =>
    simp only [cons_append, run_cons_eq_some, ih]
    constructor
    · rintro ⟨m, hm, n, hn, ht⟩
      exact ⟨n, ⟨m, hm, hn⟩, ht⟩
    · rintro ⟨n, ⟨m, hm, hn⟩, ht⟩
      exact ⟨m, hm, n, hn, ht⟩

theorem along_cons_of_eq_some
    (h : step s e = some t) : Along step P s (e :: es) ↔ P s e ∧ Along step P t es := by
  simp [Along, h]

theorem along_cons_of_eq_none (h : step s e = none) : Along step P s (e :: es) ↔ P s e := by
  simp [Along, h]

theorem along_append_of_eq_some
    (h : run step s es = some t) : Along step P s (es ++ fs) ↔ Along step P s es ∧ Along step P t fs := by
  induction es generalizing s with
  | nil =>
    cases h
    simp [Along]
  | cons e es ih =>
    obtain ⟨m, hm, ht⟩ := run_cons_eq_some.mp h
    rw [cons_append, along_cons_of_eq_some hm, along_cons_of_eq_some hm, ih ht, and_assoc]

instance decidableAlong {P : S → E → Prop} [∀ s e, Decidable (P s e)] :
    ∀ s es, Decidable (Along step P s es)
  | _, [] => .isTrue trivial
  | s, e :: es =>
    match h : step s e with
    | none => decidable_of_iff (P s e) (along_cons_of_eq_none h).symm
    | some t =>
      have : Decidable (Along step P t es) := decidableAlong t es
      decidable_of_iff (P s e ∧ Along step P t es) (along_cons_of_eq_some h).symm

/-- That a run ends in a state with a decidable property is decided by running it. -/
instance decidableExistsSome {o : Option S} {P : S → Prop} [DecidablePred P] :
    Decidable (∃ s, o = some s ∧ P s) :=
  decidable_of_iff (o.any (P ·)) (by simp [Option.any_eq_true])

theorem Along.and {P Q : S → E → Prop} (hP : Along step P s es)
    (hQ : Along step Q s es) : Along step (fun s e => P s e ∧ Q s e) s es := by
  induction es generalizing s with
  | nil => trivial
  | cons e es ih => exact ⟨⟨hP.1, hQ.1⟩, fun t ht => ih (hP.2 t ht) (hQ.2 t ht)⟩

theorem along_of_forall (hQ : ∀ e ∈ es, Q e) : Along step (fun _ => Q) s es := by
  induction es generalizing s with
  | nil => trivial
  | cons e es ih => exact ⟨(forall_mem_cons.mp hQ).1, fun t _ => ih (forall_mem_cons.mp hQ).2⟩

/-- What every step that meets `P` preserves, a run whose steps all meet `P` preserves. -/
theorem run_invariant_along (hstep : ∀ {s e t}, Inv s → P s e → step s e = some t → Inv t) {s t : S}
    {es : List E} (hs : Inv s) (hP : Along step P s es) (h : run step s es = some t) : Inv t := by
  induction es generalizing s with
  | nil => exact some.inj h ▸ hs
  | cons e es ih =>
    obtain ⟨m, hm, ht⟩ := run_cons_eq_some.mp h
    exact ih (hstep hs hP.1 hm) (hP.2 m hm) ht

theorem run_invariant_forall (hstep : ∀ {s e t}, Inv s → Q e → step s e = some t → Inv t) {s t : S}
    {es : List E} (hs : Inv s) (hQ : ∀ e ∈ es, Q e) (h : run step s es = some t) : Inv t :=
  run_invariant_along hstep hs (along_of_forall hQ) h

theorem run_invariant (hstep : ∀ {s e t}, Inv s → step s e = some t → Inv t)
    {s t : S} {es : List E} (hs : Inv s) (h : run step s es = some t) : Inv t :=
  run_invariant_forall (Q := fun _ => True) (fun hs _ => hstep hs) hs (fun _ _ => trivial) h

/-- Where an invariant gives `P` for the next step, every step of a run meets it. -/
theorem along_of_invariant (hstep : ∀ s e t, Inv s → Q e → step s e = some t → Inv t)
    (hP : ∀ s e, Inv s → Q e → P s e) (hs : Inv s) (hQ : ∀ e ∈ es, Q e) : Along step P s es := by
  induction es generalizing s with
  | nil => trivial
  | cons e es ih =>
    obtain ⟨he, hes⟩ := forall_mem_cons.mp hQ
    exact ⟨hP s e hs he, fun t ht => ih (hstep s e t hs he ht) hes⟩

/-- A measure that only the steps of one kind raise, by one, is raised by at most their number. -/
theorem run_le_add_countP {f : S → ℕ} {q : E → Bool}
    (hstep : ∀ s e t, Inv s → step s e = some t → Inv t ∧ f t ≤ f s + if q e then 1 else 0) (hs : Inv s)
    (h : run step s es = some t) : f t ≤ f s + es.countP q := by
  induction es generalizing s with
  | nil => exact some.inj h ▸ Nat.le_add_right (f s) _
  | cons e es ih =>
    obtain ⟨m, hm, ht⟩ := run_cons_eq_some.mp h
    obtain ⟨hinv, hle⟩ := hstep s e m hs hm
    have hrest := ih hinv ht
    rw [countP_cons]
    omega

/-- Where a good state is only reached from good ones, by steps that meet `P`, every step
of a run into a good state meets `P`. -/
theorem along_of_run (hstep : ∀ s e t, Inv s → Q e → step s e = some t → Inv t ∧ (Good t → Good s ∧ P s e))
    (hs : Inv s) (hQ : ∀ e ∈ es, Q e) (h : run step s es = some t) (ht : Good t) :
    Good s ∧ Along step P s es := by
  induction es generalizing s with
  | nil => exact ⟨some.inj h ▸ ht, trivial⟩
  | cons e es ih =>
    obtain ⟨he, hes⟩ := forall_mem_cons.mp hQ
    obtain ⟨m, hm, hrun⟩ := run_cons_eq_some.mp h
    obtain ⟨hinv, hback⟩ := hstep s e m hs he hm
    obtain ⟨hgood, halong⟩ := ih hinv hes hrun
    refine ⟨(hback hgood).1, (hback hgood).2, fun m' hm' => ?_⟩
    rw [hm] at hm'
    exact some.inj hm' ▸ halong

/-- Where a step keeps a state good exactly if it meets `P`, a run ends in a good state
exactly if all of its steps meet `P`. -/
theorem run_iff_along (hstep : ∀ s e t, Inv s → Q e → step s e = some t → Inv t ∧ (Good t ↔ Good s ∧ P s e))
    (hs : Inv s) (hgood : Good s) (hQ : ∀ e ∈ es, Q e) (h : run step s es = some t) :
    Good t ↔ Along step P s es := by
  constructor
  · intro ht
    have hback : ∀ m e n, Inv m → Q e → step m e = some n → Inv n ∧ (Good n → Good m ∧ P m e) :=
      fun m e n hm he hn => ⟨(hstep m e n hm he hn).1, (hstep m e n hm he hn).2.mp⟩
    exact (along_of_run hback hs hQ h ht).2
  · intro hP
    have hboth : ∀ {m e n}, Inv m ∧ Good m → P m e ∧ Q e → step m e = some n → Inv n ∧ Good n := by
      intro m e n hm he hn
      obtain ⟨hinv, hiff⟩ := hstep m e n hm.1 he.2 hn
      exact ⟨hinv, hiff.mpr ⟨hm.2, he.1⟩⟩
    exact (run_invariant_along hboth ⟨hs, hgood⟩ (hP.and (along_of_forall hQ)) h).2

/-- Where a step from a good state leads to a good one exactly if it meets `P`, a run stays
good throughout exactly if all of its steps meet `P`. -/
theorem throughout_iff_along (hstep : ∀ s e t, Inv s → Good s → step s e = some t → Inv t ∧ (Good t ↔ P s e))
    (hs : Inv s) (hgood : Good s) (h : run step s es = some t) :
    Throughout step Good s es ↔ Along step P s es := by
  induction es generalizing s with
  | nil => exact iff_of_true hgood trivial
  | cons e es ih =>
    obtain ⟨m, hm, hrun⟩ := run_cons_eq_some.mp h
    obtain ⟨hinv, hiff⟩ := hstep s e m hs hgood hm
    rw [along_cons_of_eq_some hm]
    simp only [Throughout, hm, Option.some.injEq, forall_eq', hgood, true_and]
    constructor
    · intro hes
      have hgood' : Good m := by
        cases es with
        | nil => exact hes
        | cons e' es => exact hes.1
      exact ⟨hiff.mp hgood', (ih hinv hgood' hrun).mp hes⟩
    · rintro ⟨he, hes⟩
      exact (ih hinv (hiff.mpr he) hrun).mpr hes

/-- What is found after one process has changed is what that process is now, or what was there. -/
theorem update_eq_some {P C : Type*} [DecidableEq P] {table : P → Option C} {p q : P}
    {new : Option C} {c : C} (h : update table p new q = some c) :
    q = p ∧ new = some c ∨ q ≠ p ∧ table q = some c := by
  by_cases hq : q = p
  · rw [hq, update_self] at h
    exact .inl ⟨hq, h⟩
  · rw [update_of_ne hq] at h
    exact .inr ⟨hq, h⟩

end Converger.GuardedRuns
