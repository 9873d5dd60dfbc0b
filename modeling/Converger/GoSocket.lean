import Converger.GuardedRuns
import Converger.KeyedLists

/-!
# Sends of the Go client's socket

`SendMessage` files its call under the client id in the map `pending` and appends the id to
`order`. Acks, errors and timeouts clear the map only; a welcome writes the frame of every id of
`order` that the map still has, and keeps those ids. One event is one section under the mutex.
-/
namespace Converger.GoSocket
open Function GuardedRuns KeyedLists List

inductive SendResult
  | ack (ack : String)
  | err (err : String)
  deriving DecidableEq

/-- A call returns the result it was answered with, or the error of its context or timer. -/
inductive Status
  | waiting
  | answered (r : SendResult)
  | gaveUp
  deriving DecidableEq

structure Call where
  clientID : String
  status : Status

structure State where
  ready : Bool
  pending : List (String × ℕ)
  order : List String
  /-- The calls, by number and in the order in which they took the lock. -/
  calls : ℕ → Call
  next : ℕ
  /-- The calls whose frames were written to the last connection that was welcomed. -/
  handed : List ℕ
  /-- The results that were put into the channels of calls. -/
  results : List (ℕ × SendResult)
  /-- How many calls were answered or given up since the last welcome. -/
  settled : ℕ

def start : State := ⟨false, [], [], fun _ => ⟨"", .waiting⟩, 0, [], [], 0⟩

def State.unanswered (s : State) : List ℕ :=
  (range s.next).filter fun n => (s.calls n).status = .waiting

/-- The id is deleted from the map, and the call ends with the status. -/
def State.settle (s : State) (id : String) (n : ℕ) (status : Status) : State :=
  {s with
    pending := delete id s.pending
    calls := update s.calls n ⟨(s.calls n).clientID, status⟩
    settled := s.settled + 1}

inductive Event
  | lost
  | welcome
  | send (id : String)
  /-- An ack or an error frame with this client id. -/
  | receive (id : String) (r : SendResult)
  /-- The context or the timer of a call ends it. -/
  | giveUp (n : ℕ)

def step (s : State) : Event → Option State
  | .lost => some {s with ready := false}
  | .welcome =>
    let resend := s.order.filterMap (s.pending.lookup ·)
    some {s with
      ready := true
      order := s.order.filter fun id => (s.pending.lookup id).isSome
      handed := if s.ready then s.handed ++ resend else resend
      settled := 0}
  | .send id =>
    some {s with
      pending := put id s.next s.pending
      order := s.order ++ [id]
      calls := update s.calls s.next ⟨id, .waiting⟩
      next := s.next + 1
      handed := if s.ready then s.handed ++ [s.next] else s.handed}
  | .receive id r =>
    match s.pending.lookup id with
    | some n => some {s.settle id n (.answered r) with results := s.results ++ [(n, r)]}
    | none => some s
  | .giveUp n =>
    -- `forget` deletes the id whatever call it stands for by now
    if n < s.next then some (s.settle (s.calls n).clientID n .gaveUp) else none

/-- A new send takes an id that is no longer stored, no call gives up that has its result, and at
most `k` calls are answered or given up between two welcomes. -/
def Good (k : ℕ) (s : State) : Event → Bool
  | .send id => id ∉ s.order
  | .receive id _ => (s.pending.lookup id).isNone || s.settled < k
  | .giveUp n => (s.calls n).status = .waiting && s.settled < k
  | .lost | .welcome => true

structure Inv (s : State) : Prop where
  filed : ∀ p ∈ s.pending, p.1 ∈ s.order ∧ p.2 < s.next ∧ (s.calls p.2).clientID = p.1
  resends : s.order.filterMap (s.pending.lookup ·) = s.unanswered
  stored : s.order.length ≤ s.unanswered.length + s.settled
  returns : ∀ p ∈ s.results, p.1 < s.next ∧ (s.calls p.1).status = .answered p.2

variable {s t : State} {k n : ℕ} {status : Status}

theorem mem_unanswered : n ∈ s.unanswered ↔ n < s.next ∧ (s.calls n).status = .waiting := by
  rw [State.unanswered, mem_filter, mem_range, decide_eq_true_iff]

theorem unanswered_settle (id : String) (h : status ≠ .waiting) :
    (s.settle id n status).unanswered = s.unanswered.filter (·!=n) := by
  rw [State.unanswered, State.unanswered, filter_filter]
  refine filter_congr fun m _ => ?_
  by_cases hm : m = n
  · simp [State.settle, hm, h]
  · simp [State.settle, hm]

namespace Inv

theorem waiting_of_lookup (hs : Inv s) {id : String} (h : s.pending.lookup id = some n) :
    (s.calls n).clientID = id ∧ n ∈ s.unanswered := by
  obtain ⟨hmem, -, hid⟩ := hs.filed _ (mem_of_lookup h)
  exact ⟨hid, hs.resends ▸ mem_filterMap.mpr ⟨id, hmem, h⟩⟩

theorem lookup_eq (hs : Inv s) (hn : n ∈ s.unanswered) :
    s.pending.lookup (s.calls n).clientID = some n := by
  obtain ⟨id, -, hid⟩ := mem_filterMap.mp (hs.resends.symm ▸ hn)
  rw [(hs.waiting_of_lookup hid).1, hid]

theorem settle (hs : Inv s) (hn : n ∈ s.unanswered) (h : status ≠ .waiting) :
    Inv (s.settle (s.calls n).clientID n status) where
  filed p hp := by
    obtain ⟨hmem, hlt, hid⟩ := hs.filed p (delete_subset _ _ hp)
    refine ⟨hmem, hlt, ?_⟩
    by_cases heq : p.2 = n
    · simpa [State.settle, heq] using hid
    · simpa [State.settle, heq] using hid
  resends := by
    rw [unanswered_settle _ h, ← hs.resends, filter_filterMap]
    refine filterMap_congr fun id _ => ?_
    rw [State.settle, lookup_delete]
    by_cases heq : id = (s.calls n).clientID
    · rw [if_pos heq, heq, hs.lookup_eq hn, Option.filter_some, bne_self_eq_false]
      rfl
    · rw [if_neg heq]
      cases hid : s.pending.lookup id with
      | none => rfl
      | some m =>
        have hm : m ≠ n := fun hm => heq (hm ▸ (hs.waiting_of_lookup hid).1.symm)
        rw [Option.filter_some, bne_iff_ne.mpr hm, if_pos rfl]
  stored := by
    have hnodup : s.unanswered.Nodup := nodup_range.filter _
    have hstored := hs.stored
    rw [unanswered_settle _ h, ← hnodup.erase_eq_filter n, length_erase]
    change s.order.length ≤ _ + (s.settled + 1)
    split <;> omega
  returns p hp := by
    obtain ⟨hlt, hanswered⟩ := hs.returns p hp
    have hne : p.1 ≠ n := by
      rintro rfl
      cases hanswered.symm.trans (mem_unanswered.mp hn).2
    exact ⟨hlt, by simpa [State.settle, hne] using hanswered⟩

theorem welcome (hs : Inv s) (h : step s .welcome = some t) : Inv t := by
  cases h
  refine ⟨fun p hp => ?_, ?_, ?_, hs.returns⟩
  · obtain ⟨hmem, hcall⟩ := hs.filed p hp
    have hsome : (s.pending.lookup p.1).isSome :=
      Option.isSome_iff_ne_none.mpr fun hnone => key_ne_of_lookup hnone hp rfl
    exact ⟨mem_filter.mpr ⟨hmem, hsome⟩, hcall⟩
  · change (s.order.filter _).filterMap (s.pending.lookup ·) = s.unanswered
    rw [← hs.resends, filterMap_filter]
    refine filterMap_congr fun id _ => ?_
    cases s.pending.lookup id <;> rfl
  · change (s.order.filter _).length ≤ s.unanswered.length + 0
    rw [← hs.resends, length_filterMap_eq_countP, countP_eq_length_filter]
    exact Nat.le_refl _

theorem send (hs : Inv s) {id : String} (hid : id ∉ s.order) (h : step s (.send id) = some t) :
    Inv t := by
  cases h
  have hcalls : ∀ m, m < s.next → update s.calls s.next ⟨id, .waiting⟩ m = s.calls m :=
    fun m hm => update_of_ne (Nat.ne_of_lt hm) _ _
  have hopen : ((range (s.next + 1)).filter fun m =>
      (update s.calls s.next ⟨id, .waiting⟩ m).status = .waiting) = s.unanswered ++ [s.next] := by
    rw [range_succ, filter_append, filter_cons, update_self, if_pos (by rfl), filter_nil]
    congr 1
    exact filter_congr fun m hm => by rw [hcalls m (mem_range.mp hm)]
  refine ⟨forall_mem_cons.mpr ⟨?_, fun p hp => ?_⟩, ?_, ?_, fun p hp => ?_⟩
  · exact ⟨mem_append_right _ mem_cons_self, Nat.lt_succ_self _,
      congrArg Call.clientID (update_self (f := s.calls) ..)⟩
  · obtain ⟨hmem, hlt, hcall⟩ := hs.filed p (delete_subset _ _ hp)
    exact ⟨mem_append_left _ hmem, Nat.lt_succ_of_lt hlt,
      hcall ▸ congrArg Call.clientID (hcalls _ hlt)⟩
  · refine Eq.trans ?_ hopen.symm
    rw [filterMap_append, filterMap_cons, lookup_put, if_pos rfl, filterMap_nil, ← hs.resends]
    congr 1
    exact filterMap_congr fun k hk => by rw [lookup_put, if_neg fun h : k = id => hid (h ▸ hk)]
  · have hstored := hs.stored
    have hlength := congrArg length hopen
    rw [length_append, length_singleton] at hlength
    change (s.order ++ [id]).length ≤ length (filter _ _) + s.settled
    rw [hlength, length_append, length_singleton]
    omega
  · obtain ⟨hlt, hp⟩ := hs.returns p hp
    exact ⟨Nat.lt_succ_of_lt hlt, hp ▸ congrArg Call.status (hcalls _ hlt)⟩

theorem receive (hs : Inv s) (hn : n ∈ s.unanswered) (r : SendResult) :
    Inv {s.settle (s.calls n).clientID n (.answered r) with results := s.results ++ [(n, r)]} := by
  have hsettle := hs.settle hn (Status.noConfusion : Status.answered r ≠ .waiting)
  refine ⟨hsettle.filed, hsettle.resends, hsettle.stored, forall_mem_snoc hsettle.returns ?_⟩
  exact ⟨(mem_unanswered.mp hn).1, congrArg Call.status (update_self (f := s.calls) ..)⟩

theorem step {e : Event} (hs : Inv s) (hg : Good k s e) (h : GoSocket.step s e = some t) : Inv t := by
  revert h
  fun_cases GoSocket.step s e with
  | case1 =>
    rintro ⟨⟩
    exact ⟨hs.filed, hs.resends, hs.stored, hs.returns⟩
  | case2 => exact hs.welcome
  | case3 id => exact hs.send (of_decide_eq_true hg)
  | case4 id r n hn =>
    rintro ⟨⟩
    obtain ⟨rfl, hmem⟩ := hs.waiting_of_lookup hn
    exact hs.receive hmem r
  | case5 =>
    rintro ⟨⟩
    exact hs
  | case6 n hlt =>
    rintro ⟨⟩
    have hwaiting := of_decide_eq_true (Bool.and_eq_true_iff.mp hg).1
    exact hs.settle (mem_unanswered.mpr ⟨hlt, hwaiting⟩) Status.noConfusion
  | case7 => rintro ⟨⟩

end Inv

theorem settled_le {e : Event} (hs : s.settled ≤ k) (hg : Good k s e) (h : step s e = some t) :
    t.settled ≤ k := by
  revert h
  fun_cases step s e with
  | case2 =>
    rintro ⟨⟩
    exact Nat.zero_le k
  | case4 id r n hn =>
    rintro ⟨⟩
    exact Nat.succ_le_of_lt (by simpa [Good, hn] using hg)
  | case6 n =>
    rintro ⟨⟩
    exact Nat.succ_le_of_lt (of_decide_eq_true (Bool.and_eq_true_iff.mp hg).2)
  | case1 | case3 | case5 =>
    rintro ⟨⟩
    exact hs
  | case7 => rintro ⟨⟩

/-- In a run in which ids are sent again only once they are no longer stored, no call that has its
result gives up and at most `k` calls are settled between two welcomes: the first welcome of a
connection writes the frames of the unanswered calls, once and in the order of the calls; a result
that comes in for an unanswered call is the one it returns; and there are at most `k` more stored
ids than unanswered calls. -/
theorem unanswered_resent_and_answered {es : List Event} (hrun : run step start es = some s)
    (hgood : Along step (Good k · ·) start es) :
    (∀ t, s.ready = false → step s .welcome = some t → t.handed = s.unanswered) ∧
    (∀ n ∈ s.unanswered, ∀ r t, step s (.receive (s.calls n).clientID r) = some t → (n, r) ∈ t.results) ∧
    (∀ p ∈ s.results, (s.calls p.1).status = .answered p.2) ∧
    (∀ p ∈ s.pending, p.1 ∈ s.order) ∧ s.order.length ≤ s.unanswered.length + k := by
  have hstart : Inv start :=
    ⟨forall_mem_nil _, rfl, Nat.le_refl _, forall_mem_nil _⟩
  have hstep : ∀ {s e t}, Inv s ∧ s.settled ≤ k → Good k s e → step s e = some t →
      Inv t ∧ t.settled ≤ k :=
    fun hs hg h => ⟨hs.1.step hg h, settled_le hs.2 hg h⟩
  obtain ⟨hs, hsettled⟩ := run_invariant_along hstep ⟨hstart, Nat.zero_le k⟩ hgood hrun
  refine ⟨fun t hready h => ?_, fun n hn r t h => ?_, fun p hp => (hs.returns p hp).2,
    fun p hp => (hs.filed p hp).1, Nat.le_trans hs.stored (Nat.add_le_add_left hsettled _)⟩
  · cases h
    change (if s.ready then _ else _) = _
    rw [if_neg (Bool.eq_false_iff.mp hready), hs.resends]
  · rw [step, hs.lookup_eq hn] at h
    cases h
    exact mem_append_right _ mem_cons_self

/-- Two sends are open when a connection is lost, and one was answered. -/
theorem unanswered_resent_and_answered_reconnect :
    ∃ s, run step start
        [.welcome, .send "a", .send "b", .receive "a" (.ack "1"), .send "c", .lost] = some s ∧
      s.unanswered = [1, 2] ∧ (∀ t, step s .welcome = some t → t.handed = [1, 2]) ∧
      s.order.length ≤ s.unanswered.length + 1 := by
  obtain ⟨s, hs, hready, hopen⟩ : ∃ s, run step start
      [.welcome, .send "a", .send "b", .receive "a" (.ack "1"), .send "c", .lost] = some s ∧
      s.ready = false ∧ s.unanswered = [1, 2] := by
    decide +kernel
  have hall := unanswered_resent_and_answered (k := 1) hs (by decide +kernel)
  exact ⟨s, hs, hopen, fun t ht => hopen ▸ hall.1 t hready ht, hall.2.2.2.2⟩

/-- An id that is sent again after its ack stands twice in `order`, so the welcome writes the new
call's frame twice; and one connection stores an id for each send it has carried. -/
theorem repeated_id_resent_twice :
    (∃ s, run step start [.welcome, .send "a", .receive "a" (.ack "1"), .send "a", .lost, .welcome] = some s ∧
      s.unanswered = [1] ∧ s.handed = [1, 1]) ∧
    ∃ s, run step start [.welcome, .send "a", .receive "a" (.ack "1"), .send "b",
      .receive "b" (.ack "2")] = some s ∧ s.unanswered = [] ∧ s.order = ["a", "b"] := by
  decide +kernel

end Converger.GoSocket
