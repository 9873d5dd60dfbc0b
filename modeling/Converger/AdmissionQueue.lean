import Converger.AdmissionRuns
import Mathlib.Data.List.Dedup
import Mathlib.Data.List.Perm.Subperm

/-!
# What the admission server remembers

The callers who wait are limited. The queue is not: a caller who stops waiting stays in it until a
slot is free and those before it have been passed over.
-/
namespace Converger.Admission
open GuardedRuns KeyedLists List

variable {cfg : Config} {s t : State} {e : Event} {queue : List ℕ}

def State.held (s : State) : List ℕ :=
  s.queue ++ s.waiting.map Prod.fst ++ s.active.map Prod.fst

/-- Nobody who waits is told that the server is overloaded, or exits. -/
def Stays (s : State) : Event → Bool
  | .handle (.expire ref) | .handle (.down ref) => s.waiting.all (·.1 ≠ ref)
  | _ => true

def Queued (s : State) (queue : List ℕ) : Prop := ∀ ref ∈ queue, ∃ w ∈ s.waiting, w.1 = ref

theorem Queued.grant (h : Queued s queue) (hqueue : queue.Pairwise (· < ·)) :
    Queued (grant cfg queue s) (grant cfg queue s).queue := by
  induction queue generalizing s with
  | nil => nofun
  | cons ref queue ih =>
    obtain ⟨hhead, htail⟩ := pairwise_cons.mp hqueue
    unfold Admission.grant
    split
    · cases hlookup : s.waiting.lookup ref with
      | none => exact ih (fun r hr => h r (mem_cons_of_mem _ hr)) htail
      | some caller =>
        refine ih (fun r hr => ?_) htail
        obtain ⟨w, hw, rfl⟩ := h r (mem_cons_of_mem _ hr)
        exact ⟨w, mem_delete.mpr ⟨hw, (Nat.ne_of_lt (hhead _ hr)).symm⟩, rfl⟩
    · exact h

theorem waiting_grant (queue : List ℕ) (s : State) :
    (grant cfg queue s).waiting.length ≤ s.waiting.length := by
  apply grant_induction (P := fun t => t.waiting.length ≤ s.waiting.length) _ _ queue (Nat.le_refl _)
  · exact fun _ _ h => h
  · exact fun t ref _ h _ => Nat.le_trans (length_filter_le _ _) h

theorem acquire_cases (cfg : Config) (s : State) (caller : Caller) :
    (acquire cfg s caller).queue = s.queue ∧ (acquire cfg s caller).waiting = s.waiting ∨
      s.waiting.length < cfg.queueMax ∧ (acquire cfg s caller).queue = s.queue ++ [s.refs] ∧
      (acquire cfg s caller).waiting = s.waiting ++ [(s.refs, caller)] := by
  have hframe := slots_monitor s caller.pid
  simp only [State.slots, Prod.mk.injEq] at hframe
  obtain ⟨-, hqueue, hwaiting, -⟩ := hframe
  simp only [acquire]
  split
  · exact .inl ⟨hqueue, hwaiting⟩
  · split
    · exact .inl ⟨hqueue, hwaiting⟩
    · rename_i hroom
      exact .inr ⟨Nat.lt_of_not_le hroom, by rw [hqueue], by rw [hwaiting]⟩

theorem bounded_of_step (hinv : Inv cfg s) (h : s.waiting.length ≤ cfg.queueMax)
    (hstep : step cfg s e = some t) :
    t.waiting.length ≤ cfg.queueMax ∧ (Queued s s.queue → Stays s e → Queued t t.queue) := by
  have hdelete : ∀ ref, (delete ref s.waiting).length ≤ cfg.queueMax :=
    fun ref => Nat.le_trans (length_filter_le _ _) h
  cases e with
  | call | release | exit | fire =>
    simp only [step] at hstep
    split at hstep <;> cases hstep
    exact ⟨h, fun hqueued _ => hqueued⟩
  | handle m =>
    obtain ⟨-, rfl⟩ := Option.ite_some_none_eq_some.mp hstep
    cases m with
    | acquire caller =>
      simp only [handle]
      rcases acquire_cases cfg {s with mailbox := s.mailbox.erase (.acquire caller)} caller with
        ⟨hqueue, hwaiting⟩ | ⟨hroom, hqueue, hwaiting⟩
      · simp only [Queued, hqueue, hwaiting]
        exact ⟨h, fun hqueued _ => hqueued⟩
      · simp only [Queued, hqueue, hwaiting, length_append]
        refine ⟨hroom, fun hqueued _ ref href => ?_⟩
        rcases mem_snoc.mp href with href | href
        · obtain ⟨w, hw, hwref⟩ := hqueued ref href
          exact ⟨w, mem_append_left _ hw, hwref⟩
        · exact ⟨_, mem_concat_self, href.symm⟩
    | release ref =>
      exact ⟨Nat.le_trans (waiting_grant _ _) h, fun hqueued _ => Queued.grant hqueued hinv.slots.queue⟩
    | down ref =>
      refine ⟨Nat.le_trans (waiting_grant _ _) (hdelete ref), fun hqueued hstays => ?_⟩
      refine Queued.grant (fun r hr => ?_) hinv.slots.queue
      obtain ⟨w, hw, hwref⟩ := hqueued r hr
      exact ⟨w, mem_delete.mpr ⟨hw, of_decide_eq_true (all_eq_true.mp hstays w hw)⟩, hwref⟩
    | expire ref =>
      simp only [handle, expire]
      cases hlookup : s.waiting.lookup ref with
      | none => exact ⟨h, fun hqueued _ => hqueued⟩
      | some caller =>
        refine ⟨hdelete ref, fun _ hstays => ?_⟩
        exact absurd rfl (of_decide_eq_true (all_eq_true.mp hstays _ (mem_of_lookup hlookup)))

structure Bounded (cfg : Config) (s : State) : Prop where
  inv : Inv cfg s
  waiting : s.waiting.length ≤ cfg.queueMax

structure Tidy (cfg : Config) (s : State) : Prop extends Bounded cfg s where
  queued : Queued s s.queue

theorem bounded_init (cfg : Config) : Bounded cfg {} := ⟨inv_init cfg, Nat.zero_le _⟩

theorem Bounded.step (h : Bounded cfg s) (hstep : step cfg s e = some t) : Bounded cfg t :=
  ⟨inv_of_step h.inv hstep, (bounded_of_step h.inv h.waiting hstep).1⟩

theorem Tidy.step (h : Tidy cfg s) (hstays : Stays s e) (hstep : step cfg s e = some t) : Tidy cfg t :=
  ⟨h.toBounded.step hstep, (bounded_of_step h.inv h.waiting hstep).2 h.queued hstays⟩

/-- The callers with a slot and those who wait are limited, and with them the queue as long as nobody
stops waiting. -/
theorem held_refs_bounded (cfg : Config) (es : List Event) (s : State)
    (h : run (step cfg) {} es = some s) :
    s.active.length ≤ cfg.limit ∧ s.waiting.length ≤ cfg.queueMax ∧
      (Along (step cfg) (Stays · ·) {} es → s.held.dedup.length ≤ cfg.limit + cfg.queueMax) := by
  have hs : Bounded cfg s := run_invariant Bounded.step (bounded_init cfg) h
  have hlimit := hs.inv.slots.limit
  refine ⟨hlimit, hs.waiting, fun hstays => ?_⟩
  have htidy : Tidy cfg s := run_invariant_along Tidy.step ⟨bounded_init cfg, nofun⟩ hstays h
  have hsubset : s.held.dedup ⊆ s.waiting.map Prod.fst ++ s.active.map Prod.fst := by
    intro ref href
    rw [mem_dedup, State.held, append_assoc] at href
    rcases mem_append.mp href with href | href
    · obtain ⟨w, hw, rfl⟩ := htidy.queued ref href
      exact mem_append_left _ (mem_map_of_mem hw)
    · exact href
  have hle := (subperm_of_subset (nodup_dedup _) hsubset).length_le
  rw [length_append, length_map, length_map] at hle
  have hwaiting := hs.waiting
  omega

theorem held_refs_bounded_contended : ∃ s, run (step ⟨1, 10⟩) {} contended = some s ∧
    s.held.dedup.length ≤ 11 := by
  obtain ⟨s, hs, -⟩ : ∃ s, run (step ⟨1, 10⟩) {} contended = some s ∧ s.queue = [1] := by decide +kernel
  exact ⟨s, hs, (held_refs_bounded _ _ s hs).2.2 (by decide +kernel)⟩

/-- One slot is in use, one caller may wait, and two have waited in vain. -/
theorem expired_refs_kept : ∃ s, run (step ⟨1, 1⟩) {} (contended ++
      [.fire 1, .handle (.expire 1), .call 2, .handle (.acquire ⟨2, 2⟩), .fire 2, .handle (.expire 2),
        .call 2, .handle (.acquire ⟨2, 3⟩)]) = some s ∧
    s.queue = [1, 2, 3] ∧ s.held.dedup.length = 4 := by
  decide +kernel

end Converger.Admission
