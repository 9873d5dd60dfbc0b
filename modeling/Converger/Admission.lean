import Converger.KeyedLists
import Mathlib.Data.List.Pairwise

/-!
# Admission of handshakes

`ConvergerWeb.Protocol.Admission`: a server that hands out a limited number of slots and lets callers
wait for one. Calls, releases, exits of processes and timers reach it as messages, which it handles
in any order. `Process.monitor/1` numbers the callers in the order they arrive in. The replies,
`admitted`, `releases`, `freed` and `left` are the history of a run: the answers, the callers that got
a slot, those that called `release/1`, the slots given back, and the calls whose process exited while
they waited.
-/
namespace Converger.Admission
open KeyedLists List

/-! ### The server -/

/-- The slots, `limit/0`, and `handshake_queue_max`. -/
structure Config where
  limit : ℕ
  queueMax : ℕ

/-- A call of `acquire/0`: `from` of `handle_call/3`. -/
structure Caller where
  pid : ℕ
  tag : ℕ
  deriving DecidableEq, Repr

inductive Message where
  | acquire (caller : Caller)
  | release (ref : ℕ)
  | down (ref : ℕ)
  | expire (ref : ℕ)
  deriving DecidableEq, Repr

inductive Reply where
  | ok (ref : ℕ)
  | overloaded
  deriving DecidableEq, Repr

/-- `active`, `queue` and `waiting` are the state of the server; the timer of a waiting caller is
known by its ref. A ref is the number of a monitor, `owners` has the process of each. -/
structure State where
  active : List (ℕ × ℕ) := []
  queue : List ℕ := []
  waiting : List (ℕ × Caller) := []
  owners : List ℕ := []
  monitors : List (ℕ × ℕ) := []
  timers : List ℕ := []
  mailbox : List Message := []
  exited : List ℕ := []
  calls : List Caller := []
  replies : List (Caller × Reply) := []
  admitted : List ℕ := []
  releases : List ℕ := []
  freed : List ℕ := []
  left : List Caller := []

namespace State

def refs (s : State) : ℕ := s.owners.length

def send (s : State) (m : Message) : State := {s with mailbox := s.mailbox ++ [m]}

def reply (s : State) (caller : Caller) (reply : Reply) : State :=
  {s with replies := s.replies ++ [(caller, reply)]}

/-- `Process.monitor/1`. A process that has exited is reported at once. -/
def monitor (s : State) (pid : ℕ) : State :=
  if pid ∈ s.exited then
    {s with owners := s.owners ++ [pid], mailbox := s.mailbox ++ [.down s.refs]}
  else {s with owners := s.owners ++ [pid], monitors := s.monitors ++ [(s.refs, pid)]}

/-- `Process.demonitor(ref, [:flush])`. -/
def demonitor (s : State) (ref : ℕ) : State :=
  {s with monitors := delete ref s.monitors, mailbox := s.mailbox.filter (· ≠ .down ref)}

def activate (s : State) (ref pid : ℕ) : State :=
  {s with active := s.active ++ [(ref, pid)], admitted := s.admitted ++ [ref]}

def free (s : State) (ref : ℕ) : State :=
  {s with
    active := delete ref s.active
    freed := s.freed ++ (taken ref s.active).map Prod.fst}

/-- `Process.cancel_timer/1`; a timer that has fired leaves its message. -/
def cancelTimer (s : State) (ref : ℕ) : State := {s with timers := s.timers.filter (· ≠ ref)}

def stopWaiting (s : State) (ref : ℕ) : State := {s with waiting := delete ref s.waiting}

def leave (s : State) (ref : ℕ) : State :=
  {(s.cancelTimer ref).stopWaiting ref with
    left := s.left ++ (taken ref s.waiting).map Prod.snd}

def admitWaiting (s : State) (ref : ℕ) (caller : Caller) : State :=
  (((s.cancelTimer ref).reply caller (.ok ref)).stopWaiting ref).activate ref caller.pid

end State

/-- `grant/1`, with the queue it works on. -/
def grant (cfg : Config) : List ℕ → State → State
  | [], s => {s with queue := []}
  | ref :: queue, s =>
    if s.active.length < cfg.limit then
      match s.waiting.lookup ref with
      | none => grant cfg queue s
      | some caller => grant cfg queue (s.admitWaiting ref caller)
    else {s with queue := ref :: queue}

/-- `handle_call/3` for a call of `acquire/0`. -/
def acquire (cfg : Config) (s : State) (caller : Caller) : State :=
  let ref := s.refs
  let t := s.monitor caller.pid
  if s.active.length < cfg.limit ∧ s.waiting = [] then
    (t.reply caller (.ok ref)).activate ref caller.pid
  else if cfg.queueMax ≤ s.waiting.length then (t.demonitor ref).reply caller .overloaded
  else
    {t with
      timers := t.timers ++ [ref]
      queue := t.queue ++ [ref]
      waiting := t.waiting ++ [(ref, caller)]}

/-- `handle_cast/2`. -/
def release (cfg : Config) (s : State) (ref : ℕ) : State :=
  grant cfg s.queue ((s.demonitor ref).free ref)

/-- `handle_info/2` for a process that has exited. -/
def down (cfg : Config) (s : State) (ref : ℕ) : State :=
  grant cfg s.queue ((s.leave ref).free ref)

/-- `handle_info/2` for a timer. -/
def expire (s : State) (ref : ℕ) : State :=
  match s.waiting.lookup ref with
  | none => s
  | some caller => ((s.demonitor ref).reply caller .overloaded).stopWaiting ref

def handle (cfg : Config) (s : State) : Message → State
  | .acquire caller => acquire cfg s caller
  | .release ref => release cfg s ref
  | .down ref => down cfg s ref
  | .expire ref => expire s ref

inductive Event where
  /-- A process calls `acquire/0`. -/
  | call (pid : ℕ)
  /-- A process whose call was answered with a slot calls `release/1`. -/
  | release (ref : ℕ)
  | exit (pid : ℕ)
  /-- The timer of a waiting caller fires. -/
  | fire (ref : ℕ)
  | handle (m : Message)
  deriving DecidableEq, Repr

def step (cfg : Config) (s : State) : Event → Option State
  | .call pid =>
    if pid ∈ s.exited then none
    else
      let caller := {pid, tag := s.calls.length}
      some {s.send (.acquire caller) with calls := s.calls ++ [caller]}
  | .release ref =>
    if ref ∈ s.admitted then some {s.send (.release ref) with releases := s.releases ++ [ref]}
    else none
  | .exit pid =>
    if pid ∈ s.exited then none
    else
      some {s with
        exited := s.exited ++ [pid]
        monitors := s.monitors.filter (·.2 ≠ pid)
        mailbox := s.mailbox ++ (s.monitors.filter (·.2 = pid)).map (.down ·.1)}
  | .fire ref =>
    if ref ∈ s.timers then some ((s.cancelTimer ref).send (.expire ref)) else none
  | .handle m =>
    if m ∈ s.mailbox then some (handle cfg {s with mailbox := s.mailbox.erase m} m) else none

variable {cfg : Config} {s t : State} {ref : ℕ} {caller : Caller} {queue : List ℕ}

/-- What every admission keeps, `grant/1` keeps. -/
theorem grant_induction {P : State → Prop} (hqueue : ∀ s queue, P s → P {s with queue})
    (hadmits : ∀ s ref caller, P s → s.waiting.lookup ref = some caller → P (s.admitWaiting ref caller))
    (queue : List ℕ) (hs : P s) : P (grant cfg queue s) := by
  induction queue generalizing s with
  | nil => exact hqueue s [] hs
  | cons ref queue ih =>
    unfold grant
    split
    · cases hlookup : s.waiting.lookup ref with
      | none => exact ih hs
      | some caller => exact ih (hadmits s ref caller hs hlookup)
    · exact hqueue s (ref :: queue) hs

/-! ### Slots -/

/-- The slots are within the limit, the queue is in order of arrival and has every waiting caller,
those admitted came before those who still wait, and an admitted caller has its slot or has given it
back. -/
structure Slots (cfg : Config) (s : State) : Prop where
  limit : s.active.length ≤ cfg.limit
  queue : s.queue.Pairwise (· < ·)
  queued : ∀ ref ∈ s.queue, ref < s.refs
  keys : (s.waiting.map Prod.fst).Nodup
  waiting : ∀ w ∈ s.waiting, w.1 ∈ s.queue
  order : s.admitted.Pairwise (· < ·)
  admitted : ∀ ref ∈ s.admitted, ref < s.refs
  before : ∀ ref ∈ s.admitted, ∀ w ∈ s.waiting, ref < w.1
  places : ∀ ref, s.admitted.count ref = (s.active.map Prod.fst).count ref + s.freed.count ref

theorem slots_init (cfg : Config) : Slots cfg {} := by
  constructor <;> simp

theorem Slots.admitWaiting (h : Slots cfg {s with queue := ref :: queue})
    (hfree : s.active.length < cfg.limit) (hlookup : s.waiting.lookup ref = some caller) :
    Slots cfg {s.admitWaiting ref caller with queue} := by
  have hmem := mem_of_lookup hlookup
  obtain ⟨hhead, hqueue⟩ := pairwise_cons.mp h.queue
  have hlt : ∀ r ∈ s.admitted, r < ref := fun r hr => h.before r hr _ hmem
  constructor
  case limit =>
    rw [show ({s.admitWaiting ref caller with queue} : State).active =
      s.active ++ [(ref, caller.pid)] from rfl, length_append]
    exact hfree
  case queue => exact hqueue
  case queued => exact fun r hr => h.queued r (mem_cons_of_mem _ hr)
  case keys => exact nodup_keys_delete h.keys ref
  case waiting =>
    intro w hw
    obtain ⟨hw, hne⟩ := mem_delete.mp hw
    exact (mem_cons.mp (h.waiting w hw)).resolve_left hne
  case order => exact h.order.snoc hlt
  case admitted =>
    exact forall_mem_snoc h.admitted (h.queued ref mem_cons_self)
  case before =>
    intro r hr w hw
    obtain ⟨hw, hne⟩ := mem_delete.mp hw
    rcases mem_snoc.mp hr with hr | rfl
    · exact h.before r hr w hw
    · exact hhead w.1 ((mem_cons.mp (h.waiting w hw)).resolve_left hne)
  case places =>
    intro r
    have hplaces := h.places r
    simp only [State.admitWaiting, State.activate, State.stopWaiting, State.reply,
      State.cancelTimer, map_append, map_cons, map_nil, count_append] at hplaces ⊢
    omega

/-- Free slots go to the callers who wait, and nobody waits while a slot is free. -/
theorem Slots.grant (h : Slots cfg {s with queue}) :
    Slots cfg (grant cfg queue s) ∧
      ((grant cfg queue s).waiting ≠ [] → (grant cfg queue s).active.length = cfg.limit) := by
  induction queue generalizing s with
  | nil =>
    refine ⟨h, fun hwaiting => ?_⟩
    obtain ⟨w, hw⟩ := exists_mem_of_ne_nil _ hwaiting
    cases h.waiting w hw
  | cons ref queue ih =>
    unfold Admission.grant
    split
    · rename_i hfree
      cases hlookup : s.waiting.lookup ref with
      | none =>
        apply ih
        refine {h with queue := h.queue.of_cons, queued := ?_, waiting := ?_}
        · exact fun r hr => h.queued r (mem_cons_of_mem _ hr)
        · intro w hw
          exact (mem_cons.mp (h.waiting w hw)).resolve_left (key_ne_of_lookup hlookup hw)
      | some caller => exact ih (h.admitWaiting hfree hlookup)
    · rename_i hfull
      exact ⟨h, fun _ => Nat.le_antisymm h.limit (Nat.le_of_not_lt hfull)⟩

def State.slots (s : State) :=
  (s.active, s.queue, s.waiting, s.refs, s.admitted, s.freed)

def Full (cfg : Config) (s : State) : Prop := s.waiting ≠ [] → s.active.length = cfg.limit

theorem Slots.frame (h : Slots cfg s) (heq : t.slots = s.slots) : Slots cfg t := by
  simp only [State.slots, Prod.mk.injEq] at heq
  obtain ⟨hactive, hqueue, hwaiting, hrefs, hadmitted, hfreed⟩ := heq
  constructor
  case limit => exact hactive ▸ h.limit
  case queue => exact hqueue ▸ h.queue
  case queued => exact hqueue ▸ hrefs ▸ h.queued
  case keys => exact hwaiting ▸ h.keys
  case waiting => exact hwaiting ▸ hqueue ▸ h.waiting
  case order => exact hadmitted ▸ h.order
  case admitted => exact hadmitted ▸ hrefs ▸ h.admitted
  case before => exact hadmitted ▸ hwaiting ▸ h.before
  case places => exact hadmitted ▸ hactive ▸ hfreed ▸ h.places

theorem Full.frame (h : Full cfg s) (hactive : t.active = s.active)
    (hwaiting : t.waiting = s.waiting) : Full cfg t := by
  unfold Full
  rw [hactive, hwaiting]
  exact h

theorem Slots.free (h : Slots cfg s) (ref : ℕ) : Slots cfg (s.free ref) := by
  refine {h with limit := Nat.le_trans (length_filter_le _ _) h.limit, places := ?_}
  intro r
  have hplaces := h.places r
  have hsplit := count_delete_add_taken Prod.fst r ref s.active
  simp only [State.free, count_append]
  omega

theorem Slots.stopWaiting (h : Slots cfg s) (ref : ℕ) : Slots cfg (s.stopWaiting ref) :=
  {h with
    keys := nodup_keys_delete h.keys ref
    waiting := fun w hw => h.waiting w (delete_subset ref _ hw)
    before := fun r hr w hw => h.before r hr w (delete_subset ref _ hw)}

theorem slots_monitor (s : State) (pid : ℕ) :
    (s.monitor pid).slots = (s.active, s.queue, s.waiting, s.refs + 1, s.admitted, s.freed) := by
  unfold State.monitor
  split <;> simp [State.slots, State.refs]

section
variable (h : Slots cfg s)
include h

theorem Slots.monitor (pid : ℕ) : Slots cfg (s.monitor pid) := by
  have hlt : s.refs < {s with owners := s.owners ++ [pid]}.refs := by simp [State.refs]
  have hnext : Slots cfg {s with owners := s.owners ++ [pid]} :=
    {h with
      queued := fun r hr => Nat.lt_trans (h.queued r hr) hlt
      admitted := fun r hr => Nat.lt_trans (h.admitted r hr) hlt}
  refine hnext.frame ((slots_monitor s pid).trans ?_)
  simp [State.slots, State.refs]

theorem Slots.activate (hfree : s.active.length < cfg.limit)
    (hnone : s.waiting = []) (hnew : ∀ r ∈ s.admitted, r < ref) (href : ref < s.refs) (pid : ℕ) :
    Slots cfg (s.activate ref pid) := by
  refine { h with limit := ?_, order := h.order.snoc hnew, admitted := ?_, before := ?_,
                  places := ?_}
  · simp only [State.activate, length_append, length_singleton]
    exact hfree
  · exact forall_mem_snoc h.admitted href
  · intro r _ w hw
    have hw : w ∈ s.waiting := hw
    rw [hnone] at hw
    cases hw
  · intro r
    have hplaces := h.places r
    simp only [State.activate, map_append, map_cons, map_nil, count_append]
    omega

theorem Slots.enqueue (hqueue : ∀ r ∈ s.queue, r < ref)
    (hnew : ∀ r ∈ s.admitted, r < ref) (href : ref < s.refs) (caller : Caller) (timers : List ℕ) :
    Slots cfg {s with
      timers, queue := s.queue ++ [ref], waiting := s.waiting ++ [(ref, caller)]} := by
  refine { h with queue := h.queue.snoc hqueue, queued := ?_, keys := ?_, waiting := ?_,
                  before := ?_}
  · exact forall_mem_snoc h.queued href
  · rw [map_append]
    refine h.keys.snoc fun hmem => ?_
    obtain ⟨w, hw, heq⟩ := mem_map.mp hmem
    exact Nat.ne_of_lt (hqueue w.1 (h.waiting w hw)) heq
  · intro w hw
    rcases mem_snoc.mp hw with hw | rfl
    · exact mem_append_left _ (h.waiting w hw)
    · exact mem_concat_self
  · intro r hr w hw
    rcases mem_snoc.mp hw with hw | rfl
    · exact h.before r hr w hw
    · exact hnew r hr

theorem Slots.acquire (hfull : Full cfg s) (caller : Caller) :
    Slots cfg (acquire cfg s caller) ∧ Full cfg (acquire cfg s caller) := by
  have hmonitor := h.monitor caller.pid
  have hslots := slots_monitor s caller.pid
  simp only [State.slots, Prod.mk.injEq] at hslots
  simp only [Admission.acquire]
  generalize s.monitor caller.pid = t at hmonitor hslots
  obtain ⟨hactive, hqueue, hwaiting, hrefs, hadmitted, -⟩ := hslots
  have hnew : ∀ r ∈ t.admitted, r < s.refs := hadmitted ▸ h.admitted
  have href : s.refs < t.refs := hrefs ▸ Nat.lt_succ_self _
  split
  · rename_i hfree
    have hnone : t.waiting = [] := hwaiting.trans hfree.2
    refine ⟨?_, fun hsome => absurd hnone hsome⟩
    have hreplied : Slots cfg (t.reply caller (.ok s.refs)) := hmonitor.frame rfl
    exact hreplied.activate (hactive ▸ hfree.1) hnone hnew href caller.pid
  · rename_i hbusy
    split
    · exact ⟨hmonitor.frame rfl, hfull.frame hactive hwaiting⟩
    · refine ⟨hmonitor.enqueue (hqueue ▸ h.queued) hnew href caller _, fun _ => ?_⟩
      -- a caller waits behind others, for whom there is no slot, or since there is none for it
      change t.active.length = cfg.limit
      rw [hactive]
      by_cases hwait : s.waiting = []
      · have hlimit := h.limit
        have hnot : ¬ s.active.length < cfg.limit := fun hlt => hbusy ⟨hlt, hwait⟩
        omega
      · exact hfull hwait

theorem Slots.release (ref : ℕ) : Slots cfg (release cfg s ref) ∧ Full cfg (release cfg s ref) :=
  Slots.grant ((h.frame (t := s.demonitor ref) rfl).free ref)

theorem Slots.down (ref : ℕ) : Slots cfg (down cfg s ref) ∧ Full cfg (down cfg s ref) :=
  Slots.grant ((h.stopWaiting ref).frame (t := s.leave ref) rfl |>.free ref)

theorem Slots.expire (hfull : Full cfg s) (ref : ℕ) :
    Slots cfg (expire s ref) ∧ Full cfg (expire s ref) := by
  unfold Admission.expire
  cases hlookup : s.waiting.lookup ref with
  | none => exact ⟨h, hfull⟩
  | some caller =>
    refine ⟨(h.stopWaiting ref).frame rfl, fun _ => hfull ?_⟩
    exact ne_nil_of_mem (mem_of_lookup hlookup)

end

end Converger.Admission
