import Mathlib.Data.List.MinMax
import Mathlib.Data.List.Nodup
import Mathlib.Data.Set.Function

/-!
# Agent groups

A connection's view of its agent group: the members with the time from which each is
eligible. The owner of a user turn is the eligible member with the highest hash of the
conversation and the member. Members that see the same eligible members agree on the owner,
whatever else is in their views.
-/
namespace Converger.GroupMembership
open List

universe u v
variable {Pid : Type u} {Conversation : Type v} {p : Pid} {member : Pid × Int}

/-- The members a connection sees, each once, with its eligibility time in microseconds. -/
structure Membership (Pid : Type u) where
  members : List (Pid × Int)
  nodup : (members.map Prod.fst).Nodup
  deriving DecidableEq

namespace Membership

/-- The members eligible for a turn committed at `time`. -/
def eligible (m : Membership Pid) (time : Int) : List Pid :=
  (m.members.filter fun member => member.2 ≤ time).map Prod.fst

def candidates (m : Membership Pid) (time : Int) : List Pid :=
  if m.eligible time = [] then m.members.map Prod.fst else m.eligible time

/-- The member that serves a turn of the conversation, as the process `self` sees it. -/
def owner (hash : Conversation → Pid → ℕ) (self : Pid) (m : Membership Pid)
    (conversation : Conversation) (time : Int) : Pid :=
  ((m.candidates time).argmax (hash conversation)).getD self

def serves [DecidableEq Pid] (hash : Conversation → Pid → ℕ) (self : Pid) (m : Option (Membership Pid))
    (conversation : Conversation) (time : Int) : Bool :=
  match m with
  | none => true
  | some m => m.owner hash self conversation time = self

/-- The view after the processes `pids` have left. -/
def leave [DecidableEq Pid] (m : Membership Pid) (pids : List Pid) : Membership Pid where
  members := m.members.filter fun member => member.1 ∉ pids
  nodup := m.nodup.sublist (filter_sublist.map Prod.fst)

/-- The view after the processes of `new` have joined: their times replace known ones. -/
def join [DecidableEq Pid] (m new : Membership Pid) : Membership Pid where
  members := new.members ++ (m.leave (new.members.map Prod.fst)).members
  nodup := by
    rw [map_append]
    refine new.nodup.append (m.leave _).nodup fun p hnew hleft => ?_
    obtain ⟨member, hmem, rfl⟩ := mem_map.mp hleft
    simp only [leave, mem_filter, decide_eq_true_eq] at hmem
    exact hmem.2 hnew

theorem mem_eligible {m : Membership Pid} {time : Int} :
    p ∈ m.eligible time ↔ ∃ since ≤ time, (p, since) ∈ m.members := by
  simp [eligible, and_comm]

theorem mem_leave [DecidableEq Pid] {m : Membership Pid} {pids : List Pid} :
    member ∈ (m.leave pids).members ↔ member ∈ m.members ∧ member.1 ∉ pids := by
  simp [leave]

end Membership

/-- `o` is the member of `s` with the highest rank. -/
def IsTop (rank : Pid → ℕ) (s : Set Pid) (o : Pid) : Prop := o ∈ s ∧ ∀ p ∈ s, rank p ≤ rank o

theorem IsTop.unique {rank : Pid → ℕ} {s : Set Pid} (hinj : Set.InjOn rank s) {o o' : Pid}
    (h : IsTop rank s o) (h' : IsTop rank s o') : o = o' :=
  hinj h.1 h'.1 (Nat.le_antisymm (h'.2 o h.1) (h.2 o' h'.1))

variable {left : Membership Pid}

section Owner
variable {hash : Conversation → Pid → ℕ} {self : Pid} {m : Membership Pid}
  {conversation : Conversation} {time : Int}

/-- Where some member is eligible, the owner is the eligible member of highest hash. -/
theorem owner_isTop (h : ∃ p, p ∈ m.eligible time) :
    IsTop (hash conversation) {p | p ∈ m.eligible time}
      (m.owner hash self conversation time) := by
  obtain ⟨p, hp⟩ := h
  have hne : m.eligible time ≠ [] := ne_nil_of_mem hp
  rw [Membership.owner, Membership.candidates, if_neg hne]
  cases hmax : (m.eligible time).argmax (hash conversation) with
  | none => exact absurd (argmax_eq_none.mp hmax) hne
  | some o => exact ⟨argmax_mem hmax, fun q hq => le_of_mem_argmax hq hmax⟩

end Owner

/-- The processes of a group see the same eligible members at `time`, all of them processes
of the group. What else their views hold may differ. -/
structure Agreed (procs : Set Pid) (views : Pid → Membership Pid) (time : Int)
    (eligible : Set (Pid × Int)) : Prop where
  nonempty : eligible.Nonempty
  eligible_iff : ∀ p ∈ procs, ∀ member : Pid × Int,
    member ∈ (views p).members ∧ member.2 ≤ time ↔ member ∈ eligible
  mem_procs : ∀ member ∈ eligible, member.1 ∈ procs

section Agreement
variable {procs : Set Pid} {views : Pid → Membership Pid} {time : Int}
  {eligible : Set (Pid × Int)}

theorem Agreed.eligible_eq (h : Agreed procs views time eligible) (hp : p ∈ procs) :
    {q | q ∈ (views p).eligible time} = Prod.fst '' eligible := by
  ext q
  simp only [Set.mem_ofPred_eq, Membership.mem_eligible, Set.mem_image]
  constructor
  · rintro ⟨since, hsince, hmem⟩
    exact ⟨(q, since), (h.eligible_iff p hp _).mp ⟨hmem, hsince⟩, rfl⟩
  · rintro ⟨⟨q', since⟩, hmem, rfl⟩
    obtain ⟨hmem, hsince⟩ := (h.eligible_iff p hp _).mpr hmem
    exact ⟨since, hsince, hmem⟩

theorem Agreed.exists_eligible (h : Agreed procs views time eligible) (hp : p ∈ procs) :
    ∃ q, q ∈ (views p).eligible time := by
  obtain ⟨member, hmem⟩ := h.nonempty
  have hq : member.1 ∈ {q | q ∈ (views p).eligible time} := by
    rw [h.eligible_eq hp]
    exact ⟨member, hmem, rfl⟩
  exact ⟨member.1, hq⟩

/-- When `m` leaves a view, every turn that another eligible member serves stays with it. -/
theorem owner_of_left [DecidableEq Pid] {hash : Conversation → Pid → ℕ} {self m : Pid}
    {view : Membership Pid} {conversation : Conversation}
    (hinj : Set.InjOn (hash conversation) {q | q ∈ view.eligible time})
    (hne : ∃ q, q ∈ view.eligible time)
    (hleft : ∀ member, member ∈ left.members ↔ member ∈ (view.leave [m]).members)
    (hother : view.owner hash self conversation time ≠ m) :
    left.owner hash self conversation time = view.owner hash self conversation time := by
  have htop : IsTop (hash conversation) {q | q ∈ view.eligible time}
      (view.owner hash self conversation time) := owner_isTop hne
  have hiff : ∀ q, q ∈ left.eligible time ↔ q ∈ view.eligible time ∧ q ≠ m := by
    intro q
    simp only [Membership.mem_eligible, hleft, Membership.mem_leave, mem_singleton]
    constructor
    · rintro ⟨since, hsince, hmem, hq⟩
      exact ⟨⟨since, hsince, hmem⟩, hq⟩
    · rintro ⟨⟨since, hsince, hmem⟩, hq⟩
      exact ⟨since, hsince, hmem, hq⟩
  have hstays := (hiff _).mpr ⟨htop.1, hother⟩
  have hleftTop : IsTop (hash conversation) {q | q ∈ left.eligible time}
      (left.owner hash self conversation time) := owner_isTop ⟨_, hstays⟩
  have hsub : {q | q ∈ left.eligible time} ⊆ {q | q ∈ view.eligible time} := fun q hq => ((hiff q).mp hq).1
  exact hleftTop.unique (hinj.mono hsub) ⟨hstays, fun q hq => htop.2 q (hsub hq)⟩

/-- Where the processes of a group agree on who is eligible and the hash tells the members
apart, exactly one of them serves a turn, an eligible one; and a member that leaves all views
takes only its own turns with it. -/
theorem exactly_one_serves [DecidableEq Pid] (hash : Conversation → Pid → ℕ) (procs : Set Pid)
    (views : Pid → Membership Pid) (time : Int) (eligible : Set (Pid × Int))
    (hinj : ∀ conversation, Set.InjOn (hash conversation)
      {q | ∃ p ∈ procs, ∃ since, (q, since) ∈ (views p).members})
    (hagreed : Agreed procs views time eligible) (conversation : Conversation) :
    (∃ o ∈ Prod.fst '' eligible, o ∈ procs ∧ ∀ p ∈ procs,
      (Membership.serves hash p (some (views p)) conversation time = true ↔ p = o)) ∧
    ∀ m, ∀ left : Pid → Membership Pid,
      (∀ p ∈ procs, ∀ member, member ∈ (left p).members ↔ member ∈ ((views p).leave [m]).members) →
      ∀ p ∈ procs, (views p).owner hash p conversation time ≠ m →
        (left p).owner hash p conversation time = (views p).owner hash p conversation time := by
  have hinjOn : ∀ p ∈ procs, Set.InjOn (hash conversation) {q | q ∈ (views p).eligible time} := by
    intro p hp
    refine (hinj conversation).mono fun q hq => ?_
    obtain ⟨since, -, hmem⟩ := Membership.mem_eligible.mp hq
    exact ⟨p, hp, since, hmem⟩
  have htop : ∀ p ∈ procs, IsTop (hash conversation) (Prod.fst '' eligible)
      ((views p).owner hash p conversation time) := by
    intro p hp
    rw [← hagreed.eligible_eq hp]
    exact owner_isTop (hagreed.exists_eligible hp)
  refine ⟨?_, ?_⟩
  · obtain ⟨member, hmember⟩ := hagreed.nonempty
    have hfirst := htop member.1 (hagreed.mem_procs member hmember)
    have ho : (views member.1).owner hash member.1 conversation time ∈ procs := by
      obtain ⟨other, hother, heq⟩ := hfirst.1
      rw [← heq]
      exact hagreed.mem_procs other hother
    refine ⟨_, hfirst.1, ho, fun p hp => ?_⟩
    have hsame := (htop p hp).unique (hagreed.eligible_eq hp ▸ hinjOn p hp) hfirst
    simp only [Membership.serves, decide_eq_true_eq, hsame]
    exact eq_comm
  · intro m left hleft p hp hother
    exact owner_of_left (hinjOn p hp) (hagreed.exists_eligible hp) (hleft p hp) hother

end Agreement

def sampleHash (conversation pid : ℕ) : ℕ := (conversation + 1) * pid

/-- Processes 1 and 2 are eligible at time 10; process 3 joined later and only 1 sees it. -/
def sampleViews (pid : ℕ) : Membership ℕ :=
  if pid = 1 then ⟨[(1, 0), (2, 5), (3, 20)], by decide⟩ else ⟨[(2, 5), (1, 0)], by decide⟩

theorem sampleViews_agreed : Agreed {1, 2} sampleViews 10 {((1 : ℕ), (0 : Int)), (2, 5)} where
  nonempty := ⟨(1, 0), by simp⟩
  eligible_iff := by
    rintro p (rfl | rfl) ⟨q, since⟩
    · simp [sampleViews]
      omega
    · simp [sampleViews]
      omega
  mem_procs := by simp

theorem exactly_one_serves_pair :
    (∃ o ∈ Prod.fst '' {((1 : ℕ), (0 : Int)), (2, 5)}, o ∈ ({1, 2} : Set ℕ) ∧ ∀ p ∈ ({1, 2} : Set ℕ),
        (Membership.serves sampleHash p (some (sampleViews p)) 7 10 = true ↔ p = o)) ∧
    ((sampleViews 2).leave [1]).owner sampleHash 2 7 10 =
      (sampleViews 2).owner sampleHash 2 7 10 := by
  have hinj : ∀ conversation, Set.InjOn (sampleHash conversation)
      {q | ∃ p ∈ ({1, 2} : Set ℕ), ∃ since, (q, since) ∈ (sampleViews p).members} := by
    intro conversation p _ q _ h
    exact Nat.eq_of_mul_eq_mul_left (Nat.succ_pos conversation) h
  have h := exactly_one_serves sampleHash {1, 2} sampleViews 10 _ hinj sampleViews_agreed 7
  refine ⟨h.1, ?_⟩
  exact h.2 1 (fun p => (sampleViews p).leave [1]) (fun _ _ _ => Iff.rfl) 2 (by simp) (by decide)

end Converger.GroupMembership
