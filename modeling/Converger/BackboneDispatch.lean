import Converger.Activity
import Converger.GuardedRuns

/-!
# Handling backbone events once

`Backbone.Dispatch` with a step for every filter, statement, handler call and commit, and any number
of calls at a time. The receipt of an event is written in the transaction of its handler: a second
insert of it waits for that transaction, does nothing where it committed and goes on where it was
rolled back. The daily pruning deletes receipts that are old enough.
-/
namespace Converger.BackboneDispatch
open Function GuardedRuns Option

inductive Topic where
  | activities | deliveries | events
  deriving DecidableEq, Repr

/-- An event; `key` is its conversation where it has one. -/
structure BackboneEvent where
  id : Uuid
  topic : Topic
  key : Option String := none
  deriving DecidableEq, Repr

inductive Mode where
  | shared | broadcast
  deriving DecidableEq, Repr

/-- A subscription; `filtered` where it has a `filter` or its handler an `accept?/1`. -/
structure Subscription where
  topics : List Topic
  mode : Mode := .shared
  dedup : Bool := true
  filtered : Bool := false
  deriving DecidableEq, Repr

structure Config where
  inlineAttempts : ℕ := 3
  registry : String → Subscription

inductive FilterAnswer where
  | wanted | unwanted | raised
  deriving DecidableEq, Repr

/-- `accept?/2`. A filter that raises lets the handler decide. -/
def accept (subscription : Subscription) (event : BackboneEvent) (answer : FilterAnswer) : Bool :=
  if event.topic ∉ subscription.topics then false
  else if subscription.filtered then answer ≠ .unwanted
  else true

inductive Outcome where
  | handled | duplicate | skipped | parked | error
  deriving DecidableEq, Repr

/-- What a call does next. `handler` and `commit` are inside the transaction of the receipt, `plain`
is the handler of a subscription without receipts. -/
inductive Phase where
  | accept | receipt | handler | commit | plain | park
  | returned (outcome : Outcome)
  | crashed
  deriving DecidableEq, Repr

/-- A call of `consume/2` with its attempt, or of `handle/2` (a job, or the Native backbone). -/
structure Call where
  name : String
  event : BackboneEvent
  attempt : Option ℕ
  phase : Phase := .accept
  deriving DecidableEq, Repr

/-- A row of `backbone_receipts`: none, one a transaction has inserted, or a committed one. -/
inductive Receipt where
  | none
  | inserted (pid : ℕ)
  | committed
  deriving DecidableEq, Repr

abbrev Key := String × Uuid

def Call.key (call : Call) : Key := (call.name, call.event.id)

/-- The receipts, the committed writes of handlers with the call that made them, the committed
`BackboneEventWorker` jobs, and the calls. -/
structure State where
  receipts : Key → Receipt := fun _ => .none
  writes : List (Key × ℕ) := []
  jobs : List (String × BackboneEvent) := []
  calls : ℕ → Option Call := fun _ => none

/-- What a step of a call gets from outside: the filter's answer, whether the handler returned `:ok`,
and whether a statement was carried out and its answer arrived. -/
structure Answer where
  filter : FilterAnswer := .wanted
  ok : Bool := true
  committed : Bool := true
  answered : Bool := true
  deriving DecidableEq, Repr

namespace State

def setCall (s : State) (pid : ℕ) (call : Call) : State :=
  {s with calls := update s.calls pid (some call)}

def setReceipt (s : State) (key : Key) (receipt : Receipt) : State :=
  {s with receipts := update s.receipts key receipt}

end State

/-- An error of `handle/2`: a job has failed; `consume/2` tries again in place and then parks. -/
def Call.failed (cfg : Config) (call : Call) : Call :=
  match call.attempt with
  | none => {call with phase := .returned .error}
  | some attempt =>
    if attempt < cfg.inlineAttempts then
      {call with attempt := some (attempt + 1), phase := .accept}
    else {call with phase := .park}

def next (cfg : Config) (s : State) (pid : ℕ) (call : Call) (a : Answer) : Option State :=
  match call.phase with
  | .accept =>
    let subscription := cfg.registry call.name
    if accept subscription call.event a.filter then
      some (s.setCall pid {call with phase := if subscription.dedup then .receipt else .plain})
    else some (s.setCall pid {call with phase := .returned .skipped})
  | .receipt =>
    match s.receipts call.key with
    -- the insert waits for the transaction that holds the row, or times out
    | .inserted _ => if a.answered then none else some (s.setCall pid (call.failed cfg))
    | .committed =>
      if a.answered then some (s.setCall pid {call with phase := .returned .duplicate})
      else some (s.setCall pid (call.failed cfg))
    | .none =>
      if a.answered then
        some ((s.setReceipt call.key (.inserted pid)).setCall pid {call with phase := .handler})
      else some (s.setCall pid (call.failed cfg))
  | .handler =>
    if a.ok then some (s.setCall pid {call with phase := .commit})
    else some ((s.setReceipt call.key .none).setCall pid (call.failed cfg))
  | .commit =>
    if a.committed then
      let s' := {s.setReceipt call.key .committed with writes := s.writes ++ [(call.key, pid)]}
      some (s'.setCall pid
        (if a.answered then {call with phase := .returned .handled} else call.failed cfg))
    else some ((s.setReceipt call.key .none).setCall pid (call.failed cfg))
  | .plain =>
    let s' := if a.committed then {s with writes := s.writes ++ [(call.key, pid)]} else s
    some (s'.setCall pid (if a.ok then {call with phase := .returned .handled} else call.failed cfg))
  | .park =>
    -- a broadcast subscription drops the event
    if (cfg.registry call.name).mode = .broadcast then
      some (s.setCall pid {call with phase := .returned .skipped})
    else
      let s' := if a.committed then {s with jobs := s.jobs ++ [(call.name, call.event)]} else s
      some (s'.setCall pid
        (if a.committed ∧ a.answered then {call with phase := .returned .parked} else call))
  | .returned _ | .crashed => none

inductive Event where
  /-- The broker delivers the event, or delivers it again. -/
  | consume (pid : ℕ) (name : String) (event : BackboneEvent)
  | handle (pid : ℕ) (name : String) (event : BackboneEvent)
  /-- An attempt of a job. -/
  | perform (pid : ℕ) (job : ℕ)
  | advance (pid : ℕ) (a : Answer)
  | crash (pid : ℕ)
  | prune (key : Key)
  deriving DecidableEq

def start (s : State) (pid : ℕ) (call : Call) : Option State :=
  if s.calls pid = none then some (s.setCall pid call) else none

def abandon (s : State) (call : Call) : State :=
  if call.phase = .handler ∨ call.phase = .commit then s.setReceipt call.key .none else s

def step (cfg : Config) (s : State) : Event → Option State
  | .consume pid name event => start s pid {name, event, attempt := some 1}
  | .handle pid name event => start s pid {name, event, attempt := none}
  | .perform pid job => s.jobs[job]?.bind fun (name, event) =>
    start s pid {name, event, attempt := none}
  | .advance pid a => (s.calls pid).bind fun call => next cfg s pid call a
  | .crash pid => (s.calls pid).bind fun call =>
    match call.phase with
    | .returned _ | .crashed => none
    | _ => some ((abandon s call).setCall pid {call with phase := .crashed})
  | .prune key =>
    match s.receipts key with
    | .committed => some (s.setReceipt key .none)
    | _ => some s

/-! ### What a step does -/

variable {cfg : Config} {s t : State} {e : Event} {pid q : ℕ} {call call' : Call} {a : Answer}
  {key : Key} {es : List Event} {name : String} {id : Uuid}

def Call.Holding (call : Call) : Prop := call.phase = .handler ∨ call.phase = .commit

/-- The handler runs without a receipt only where the subscription has none. -/
def Call.Guarded (cfg : Config) (call : Call) : Prop :=
  call.phase = .plain → (cfg.registry call.name).dedup = false

def Holds (s : State) (pid : ℕ) (key : Key) : Prop :=
  ∃ call, s.calls pid = some call ∧ call.Holding ∧ call.key = key

@[simp] theorem failed_key (cfg : Config) (call : Call) : (call.failed cfg).key = call.key := by
  unfold Call.failed
  split
  · rfl
  · split <;> rfl

@[simp] theorem failed_name (cfg : Config) (call : Call) : (call.failed cfg).name = call.name :=
  congrArg Prod.fst (failed_key cfg call)

theorem not_holding_failed (cfg : Config) (call : Call) : ¬ (call.failed cfg).Holding := by
  unfold Call.failed Call.Holding
  split
  · simp
  · split <;> simp

theorem guarded_failed (cfg : Config) (call : Call) : (call.failed cfg).Guarded cfg := by
  unfold Call.failed Call.Guarded
  split
  · simp
  · split <;> simp

/-- The changes of the state. In each of them `call` is the call as the step leaves it. -/
inductive Effect (cfg : Config) (s : State) : Event → State → Prop where
  | move {e : Event} {pid : ℕ} {call : Call} (jobs : List (String × BackboneEvent))
      (hholds : call.Holding → Holds s pid call.key) (hguarded : call.Guarded cfg) :
      Effect cfg s e {s.setCall pid call with jobs}
  | insert {e : Event} {pid : ℕ} (call : Call) (hfree : s.receipts call.key = .none)
      (hguarded : call.Guarded cfg) :
      Effect cfg s e ((s.setReceipt call.key (.inserted pid)).setCall pid call)
  | rollback {e : Event} {pid : ℕ} (call : Call) (hheld : Holds s pid call.key)
      (hreleased : ¬ call.Holding) (hguarded : call.Guarded cfg) :
      Effect cfg s e ((s.setReceipt call.key .none).setCall pid call)
  | commit {e : Event} {pid : ℕ} (call : Call) (hheld : Holds s pid call.key)
      (hreleased : ¬ call.Holding) (hguarded : call.Guarded cfg) :
      Effect cfg s e (State.setCall
        {s.setReceipt call.key .committed with writes := s.writes ++ [(call.key, pid)]} pid call)
  | plain {e : Event} {pid : ℕ} (call : Call) (hdedup : (cfg.registry call.name).dedup = false)
      (hreleased : ¬ call.Holding) (hguarded : call.Guarded cfg) :
      Effect cfg s e (State.setCall {s with writes := s.writes ++ [(call.key, pid)]} pid call)
  | prune {key : Key} (hcommitted : s.receipts key = .committed) :
      Effect cfg s (.prune key) (s.setReceipt key .none)
  | stay {e : Event} : Effect cfg s e s

structure Inv (cfg : Config) (s : State) : Prop where
  held : ∀ pid key, Holds s pid key → s.receipts key = .inserted pid
  guarded : ∀ pid call, s.calls pid = some call → call.Guarded cfg

theorem Effect.of_start (h : start s pid call = some t) (hphase : call.phase = .accept) :
    Effect cfg s e t := by
  unfold start at h
  split at h <;> cases h
  refine .move s.jobs ?_ ?_
  · simp [Call.Holding, hphase]
  · simp [Call.Guarded, hphase]

theorem effect_of_next (hs : Inv cfg s) (hcall : s.calls pid = some call)
    (h : next cfg s pid call a = some t) : Effect cfg s (.advance pid a) t := by
  have hfail : Effect cfg s (.advance pid a) (s.setCall pid (call.failed cfg)) :=
    .move s.jobs (fun hh => absurd hh (not_holding_failed cfg call)) (guarded_failed cfg call)
  -- a step that leaves the tables alone and ends outside the transaction
  have hmove : ∀ phase jobs, phase ≠ .handler ∧ phase ≠ .commit ∧ phase ≠ .plain →
      Effect cfg s (.advance pid a) {s.setCall pid {call with phase} with jobs} := by
    rintro phase jobs ⟨hhandler, hcommit, hplain⟩
    exact .move jobs (fun hh => absurd hh (by simp [Call.Holding, hhandler, hcommit]))
      (fun hp => absurd hp hplain)
  have hrollback : call.Holding → Effect cfg s (.advance pid a)
      ((s.setReceipt call.key .none).setCall pid (call.failed cfg)) := by
    intro hholding
    rw [← failed_key cfg call]
    exact .rollback (call.failed cfg) ⟨call, hcall, hholding, (failed_key cfg call).symm⟩
      (not_holding_failed cfg call) (guarded_failed cfg call)
  revert h
  fun_cases next cfg s pid call a with
  | case1 hphase subscription =>
    rintro ⟨⟩
    by_cases hd : subscription.dedup
    · rw [if_pos hd]
      exact hmove .receipt s.jobs (by simp)
    · rw [if_neg hd]
      exact .move s.jobs (by simp [Call.Holding]) (fun _ => by simpa using hd)
  | case2 | case14 =>
    rintro ⟨⟩
    exact hmove (.returned .skipped) s.jobs (by simp)
  | case4 | case6 | case8 =>
    rintro ⟨⟩
    exact hfail
  | case5 =>
    rintro ⟨⟩
    exact hmove (.returned .duplicate) s.jobs (by simp)
  | case7 _ hreceipt =>
    rintro ⟨⟩
    exact .insert {call with phase := .handler} hreceipt nofun
  | case9 hphase =>
    rintro ⟨⟩
    exact .move s.jobs (fun _ => ⟨call, hcall, .inl hphase, rfl⟩) nofun
  | case10 hphase =>
    rintro ⟨⟩
    exact hrollback (.inl hphase)
  | case11 hphase _ s' =>
    rintro ⟨⟩
    have hheld : Holds s pid call.key := ⟨call, hcall, .inr hphase, rfl⟩
    split
    · exact .commit {call with phase := .returned .handled} hheld
        (by simp [Call.Holding]) nofun
    · simp only [s']
      rw [← failed_key cfg call] at hheld ⊢
      exact .commit (call.failed cfg) hheld (not_holding_failed cfg call) (guarded_failed cfg call)
  | case12 hphase =>
    rintro ⟨⟩
    exact hrollback (.inr hphase)
  | case13 hphase s' =>
    rintro ⟨⟩
    have hdedup := hs.guarded pid call hcall hphase
    by_cases hc : a.committed <;> by_cases hok : a.ok <;>
      simp only [s', hc, hok, reduceIte, Bool.false_eq_true]
    · exact .plain {call with phase := .returned .handled} hdedup
        (by simp [Call.Holding]) nofun
    · rw [← failed_key cfg call]
      exact .plain (call.failed cfg) ((failed_name cfg call).symm ▸ hdedup)
        (not_holding_failed cfg call) (guarded_failed cfg call)
    · exact hmove (.returned .handled) s.jobs (by simp)
    · exact hfail
  | case15 hphase _ s' =>
    rintro ⟨⟩
    have hstay : ∀ jobs, Effect cfg s (.advance pid a) {s.setCall pid call with jobs} := by
      intro jobs
      exact .move jobs (fun hh => absurd hh (by simp [Call.Holding, hphase]))
        (fun hp => by simp [hphase] at hp)
    by_cases hc : a.committed <;> by_cases ha : a.answered <;>
      simp only [s', hc, ha, reduceIte, Bool.false_eq_true, and_true, and_false]
    · exact hmove (.returned .parked) (s.jobs ++ [(call.name, call.event)]) (by simp)
    · exact hstay (s.jobs ++ [(call.name, call.event)])
    · exact hstay s.jobs
    · exact hstay s.jobs
  | case3 | case16 | case17 => nofun

theorem effect_of_step (hs : Inv cfg s) (h : step cfg s e = some t) : Effect cfg s e t := by
  cases e with
  | consume pid name event | handle pid name event => exact .of_start h rfl
  | perform pid job =>
    obtain ⟨⟨name, event⟩, -, hstart⟩ := bind_eq_some_iff.mp h
    exact .of_start hstart rfl
  | advance pid a =>
    obtain ⟨call, hcall, hnext⟩ := bind_eq_some_iff.mp h
    exact effect_of_next hs hcall hnext
  | crash pid =>
    obtain ⟨call, hcall, hcrash⟩ := bind_eq_some_iff.mp h
    have hcrashed : ∀ jobs, Effect cfg s (.crash pid)
        {s.setCall pid {call with phase := .crashed} with jobs} := fun jobs =>
      .move jobs (fun hh => absurd hh (by simp [Call.Holding])) nofun
    by_cases hholding : call.phase = .handler ∨ call.phase = .commit
    · have ht : (s.setReceipt call.key .none).setCall pid {call with phase := .crashed} = t := by
        rcases hholding with hphase | hphase <;>
          simpa [abandon, hphase] using hcrash
      subst ht
      exact .rollback {call with phase := .crashed} ⟨call, hcall, hholding, rfl⟩
        (by simp [Call.Holding]) nofun
    · have habandon : abandon s call = s := if_neg hholding
      rw [habandon] at hcrash
      cases hphase : call.phase <;> simp only [hphase, some.injEq, reduceCtorEq] at hcrash
      all_goals
        subst hcrash
        exact hcrashed s.jobs
  | prune key =>
    cases hr : s.receipts key with
    | committed =>
      simp only [step, hr, some.injEq] at h
      subst h
      exact .prune hr
    | none | inserted q =>
      simp only [step, hr, some.injEq] at h
      subst h
      exact .stay

/-! ### The invariant -/

theorem holds_setCall (h : Holds (s.setCall pid call) q key) :
    (q = pid ∧ call.Holding ∧ call.key = key) ∨ (q ≠ pid ∧ Holds s q key) := by
  obtain ⟨c, hc, hholding, hkey⟩ := h
  obtain ⟨rfl, ⟨⟩⟩ | ⟨hq, hc⟩ := update_eq_some hc
  · exact .inl ⟨rfl, hholding, hkey⟩
  · exact .inr ⟨hq, c, hc, hholding, hkey⟩

theorem guarded_setCall (h : ∀ pid call, s.calls pid = some call → call.Guarded cfg)
    (hguarded : call.Guarded cfg) : ∀ q c, (s.setCall pid call).calls q = some c → c.Guarded cfg := by
  intro q c hc
  obtain ⟨-, ⟨⟩⟩ | ⟨-, hc⟩ := update_eq_some hc
  · exact hguarded
  · exact h q c hc

/-- A receipt whose holder lets it go, or that nobody holds, may be set to anything the call agrees
with. -/
theorem Inv.held_update {receipt : Receipt} (hs : Inv cfg s)
    (hothers : ∀ q, q ≠ pid → ¬ Holds s q call.key) (hown : call.Holding → receipt = .inserted pid) :
    ∀ q k, Holds (s.setCall pid call) q k →
      update s.receipts call.key receipt k = .inserted q := by
  intro q k hq
  obtain ⟨rfl, hholding, rfl⟩ | ⟨hne, hq⟩ := holds_setCall hq
  · rw [update_self, hown hholding]
  · have hk : k ≠ call.key := fun hk => hothers q hne (hk ▸ hq)
    rw [update_of_ne hk, hs.held q k hq]

theorem Inv.not_holds_of_ne (hs : Inv cfg s) (hreceipt : s.receipts key ≠ .inserted pid) :
    ¬ Holds s pid key := fun h => hreceipt (hs.held pid key h)

theorem Inv.unique (hs : Inv cfg s) (hp : Holds s pid key) (hq : q ≠ pid) : ¬ Holds s q key := by
  refine hs.not_holds_of_ne ?_
  rw [hs.held pid key hp]
  simpa using hq.symm

theorem Inv.of_effect (hs : Inv cfg s) (h : Effect cfg s e t) : Inv cfg t := by
  cases h with
  | @move _ pid call jobs hholds hguarded =>
    refine ⟨fun q k hq => ?_, guarded_setCall hs.guarded hguarded⟩
    obtain ⟨rfl, hholding, rfl⟩ | ⟨-, hq⟩ := holds_setCall (s := s) hq
    · exact hs.held _ _ (hholds hholding)
    · exact hs.held q k hq
  | @insert _ pid call hfree hguarded =>
    refine ⟨hs.held_update (fun q _ => hs.not_holds_of_ne (by simp [hfree])) fun _ => rfl, ?_⟩
    exact guarded_setCall hs.guarded hguarded
  | @rollback _ pid call hheld hreleased hguarded | @commit _ pid call hheld hreleased hguarded =>
    refine ⟨hs.held_update (fun q hq => hs.unique hheld hq) fun hh => absurd hh hreleased, ?_⟩
    exact guarded_setCall hs.guarded hguarded
  | @plain _ pid call hdedup hreleased hguarded =>
    refine ⟨fun q k hq => ?_, guarded_setCall hs.guarded hguarded⟩
    obtain ⟨rfl, hholding, rfl⟩ | ⟨-, hq⟩ := holds_setCall (s := s) hq
    · exact absurd hholding hreleased
    · exact hs.held q k hq
  | @prune key hcommitted =>
    refine ⟨fun q k hq => ?_, hs.guarded⟩
    have hk : k ≠ key := by
      rintro rfl
      exact hs.not_holds_of_ne (by simp [hcommitted]) hq
    exact (update_of_ne hk _ _).trans (hs.held q k hq)
  | stay => exact hs

theorem inv_init (cfg : Config) : Inv cfg {} where
  held _ _ h := by simp [Holds] at h
  guarded _ _ h := by cases h

theorem inv_of_run (h : run (step cfg) {} es = some s) : Inv cfg s :=
  run_invariant (fun hs hst => hs.of_effect (effect_of_step hs hst)) (inv_init cfg) h

/-! ### Committed writes -/

def commits (s : State) (key : Key) : ℕ := s.writes.countP (·.1 = key)

def possibleCommits (s : State) (key : Key) : ℕ :=
  commits s key + if s.receipts key = .committed then 0 else 1

theorem possibleCommits_of_effect (hs : Inv cfg s)
    (hdedup : (cfg.registry name).dedup) (h : Effect cfg s e t) :
    possibleCommits t (name, id) ≤
      possibleCommits s (name, id) + if e = .prune (name, id) then 1 else 0 := by
  -- a receipt that is not committed before and after
  have hset : ∀ {key receipt}, s.receipts key ≠ .committed → receipt ≠ .committed →
      possibleCommits (s.setReceipt key receipt) (name, id) = possibleCommits s (name, id) := by
    intro key receipt hold hnew
    by_cases hk : (name, id) = key
    · simp [possibleCommits, commits, State.setReceipt, hk, hold, hnew]
    · simp [possibleCommits, commits, State.setReceipt, update_of_ne hk]
  cases h with
  | move | stay => exact Nat.le_add_right _ _
  | insert call hfree =>
    exact Nat.le_add_right_of_le (Nat.le_of_eq (hset (by simp [hfree]) (by simp)))
  | rollback call hheld =>
    exact Nat.le_add_right_of_le (Nat.le_of_eq (hset (by simp [hs.held _ _ hheld]) (by simp)))
  | @commit _ pid call hheld hreleased hguarded =>
    refine Nat.le_add_right_of_le (Nat.le_of_eq ?_)
    by_cases hk : (name, id) = call.key
    · simp [possibleCommits, commits, State.setCall, State.setReceipt, hk, hs.held pid _ hheld]
    · simp [possibleCommits, commits, State.setCall, State.setReceipt, update_of_ne hk, Ne.symm hk]
  | @plain _ pid call hplain hreleased hguarded =>
    refine Nat.le_add_right_of_le (Nat.le_of_eq ?_)
    have hk : call.key ≠ (name, id) := by
      intro hk
      have hname : call.name = name := congrArg Prod.fst hk
      rw [hname, hdedup] at hplain
      cases hplain
    have hcommits : (s.writes ++ [(call.key, pid)]).countP (·.1 = (name, id)) =
        commits s (name, id) := by simp [commits, hk]
    exact congrArg (· + if s.receipts (name, id) = .committed then 0 else 1) hcommits
  | @prune key hcommitted =>
    by_cases hk : key = (name, id)
    · simp [possibleCommits, commits, State.setReceipt, hk]
    · simp [possibleCommits, commits, State.setReceipt, update_of_ne (Ne.symm hk)]

theorem commits_le (hdedup : (cfg.registry name).dedup) (h : run (step cfg) {} es = some s) :
    commits s (name, id) ≤ 1 + es.count (.prune (name, id)) := by
  have hle : possibleCommits s (name, id) ≤
      possibleCommits {} (name, id) + es.countP (· == .prune (name, id)) := by
    refine run_le_add_countP (f := (possibleCommits · (name, id))) (fun m e n hm hn => ?_) (inv_init cfg) h
    have heffect := effect_of_step hm hn
    exact ⟨hm.of_effect heffect, by simpa using possibleCommits_of_effect hm hdedup heffect⟩
  have hinit : possibleCommits {} (name, id) = 1 := rfl
  rw [hinit] at hle
  exact Nat.le_trans (Nat.le_add_right _ _) hle

/-! ### Returning to the consumer -/

def Certain (cfg : Config) (s : State) (pid : ℕ) (call : Call) (a : Answer) : Outcome → Prop
  | .handled => (call.key, pid) ∈ s.writes ∧ s.receipts call.key = .committed
  | .duplicate => s.receipts call.key = .committed
  | .skipped => accept (cfg.registry call.name) call.event a.filter = false
  | .parked => (call.name, call.event) ∈ s.jobs
  | .error => False

theorem phase_failed_ne (hconsume : call.attempt ≠ none) (outcome : Outcome) :
    (call.failed cfg).phase ≠ .returned outcome := by
  unfold Call.failed
  split
  · contradiction
  · split <;> simp

theorem calls_setCall (h : (s.setCall pid call).calls pid = some call') : call' = call := by
  simpa [State.setCall, eq_comm] using h

theorem certain_of_next {outcome : Outcome}
    (hshared : (cfg.registry call.name).mode = .shared) (hdedup : (cfg.registry call.name).dedup)
    (hguarded : call.Guarded cfg) (hconsume : call.attempt ≠ none)
    (h : next cfg s pid call a = some t) (hcall' : t.calls pid = some call')
    (houtcome : call'.phase = .returned outcome) : Certain cfg t pid call a outcome := by
  have hfailed : call' ≠ call.failed cfg := by
    rintro rfl
    exact phase_failed_ne hconsume outcome houtcome
  revert h
  fun_cases next cfg s pid call a with
  | case1 =>
    rintro ⟨⟩
    cases calls_setCall hcall'
    split at houtcome <;> cases houtcome
  | case7 | case9 =>
    rintro ⟨⟩
    cases calls_setCall hcall'
    cases houtcome
  | case2 _ _ haccept =>
    rintro ⟨⟩
    cases calls_setCall hcall'
    cases houtcome
    simpa [Certain] using haccept
  | case4 | case6 | case8 | case10 | case12 =>
    rintro ⟨⟩
    exact absurd (calls_setCall hcall') hfailed
  | case5 _ hreceipt =>
    rintro ⟨⟩
    cases calls_setCall hcall'
    cases houtcome
    exact hreceipt
  | case11 =>
    rintro ⟨⟩
    by_cases hanswered : a.answered
    · rw [if_pos hanswered] at hcall' ⊢
      cases calls_setCall hcall'
      cases houtcome
      exact ⟨List.mem_append_right _ (List.mem_singleton_self _), update_self ..⟩
    · rw [if_neg hanswered] at hcall'
      exact absurd (calls_setCall hcall') hfailed
  | case13 hphase =>
    rw [hguarded hphase] at hdedup
    cases hdedup
  | case14 _ hbroadcast =>
    rw [hshared] at hbroadcast
    cases hbroadcast
  | case15 hphase _ s' =>
    rintro ⟨⟩
    have hcalled := calls_setCall hcall'
    by_cases hparked : a.committed ∧ a.answered
    · rw [if_pos hparked] at hcalled
      subst hcalled
      cases houtcome
      simp [Certain, State.setCall, s', hparked.1]
    · rw [if_neg hparked] at hcalled
      rw [hcalled, hphase] at houtcome
      cases houtcome
  | case3 | case16 | case17 => nofun

/-- The step in which a call of `consume/2` returns. -/
structure Returns (cfg : Config) (s : State) (pid : ℕ) (call : Call) (a : Answer) (outcome : Outcome)
    (t : State) : Prop where
  called : s.calls pid = some call
  consumes : call.attempt ≠ none
  stepped : step cfg s (.advance pid a) = some t
  returned : (t.calls pid).map Call.phase = some (.returned outcome)

/-- The handler of a shared subscription with receipts commits its writes for an event once, and
once more at most for every time the receipt is pruned; `consume/2` returns only when the event has
been handled, now or before, was filtered out or is in a committed job. -/
theorem handler_commits_once {name : String} {es : List Event}
    (hshared : (cfg.registry name).mode = .shared) (hdedup : (cfg.registry name).dedup)
    (h : run (step cfg) {} es = some s) :
    (∀ id, commits s (name, id) ≤ 1 + es.count (.prune (name, id))) ∧
    ∀ pid call a outcome t, call.name = name → Returns cfg s pid call a outcome t →
      Certain cfg t pid call a outcome := by
  refine ⟨fun id => commits_le hdedup h, ?_⟩
  rintro pid call a outcome t rfl ⟨hcall, hconsume, hstep, hreturned⟩
  obtain ⟨called, hcalled, hnext⟩ := bind_eq_some_iff.mp hstep
  cases hcall.symm.trans hcalled
  obtain ⟨call', hcall', houtcome⟩ := map_eq_some_iff.mp hreturned
  exact certain_of_next hshared hdedup ((inv_of_run h).guarded pid call hcall) hconsume hnext hcall'
    houtcome

def ledger : Config where
  registry _ := {topics := [.activities]}

def activityEvent : BackboneEvent := {id := 7, topic := .activities}

/-- The first consumer dies before its commit; the message is delivered again and the second
consumer, which was waiting for the receipt, handles the event. -/
def redelivered : List Event :=
  [.consume 1 "ledger" activityEvent, .advance 1 {}, .advance 1 {}, .advance 1 {},
   .consume 2 "ledger" activityEvent, .advance 2 {}, .crash 1,
   .advance 2 {}, .advance 2 {}, .advance 2 {}]

theorem handler_commits_once_redelivered : ∃ s, run (step ledger) {} redelivered = some s ∧
    commits s ("ledger", 7) = 1 ∧
    commits s ("ledger", 7) ≤ 1 + redelivered.count (.prune ("ledger", 7)) := by
  obtain ⟨s, hs, hcommits⟩ : ∃ s, run (step ledger) {} redelivered = some s ∧
      commits s ("ledger", 7) = 1 := by decide +kernel
  exact ⟨s, hs, hcommits, (handler_commits_once rfl rfl hs).1 7⟩

/-- After its receipt is pruned a redelivered event is handled again. -/
theorem handled_again_after_prune :
    (ledger.registry "ledger").mode = .shared ∧ (ledger.registry "ledger").dedup = true ∧
    ∃ s, run (step ledger) {}
      (redelivered ++ [.prune ("ledger", 7), .consume 3 "ledger" activityEvent, .advance 3 {},
        .advance 3 {}, .advance 3 {}, .advance 3 {}]) = some s ∧ commits s ("ledger", 7) = 2 := by
  exact ⟨rfl, rfl, by decide +kernel⟩

/-- No two processes run the handler of one event in a receipt's transaction at once. -/
theorem handler_exclusive {es : List Event} (h : run (step cfg) {} es = some s) :
    ∀ p q key, Holds s p key → Holds s q key → p = q := by
  intro p q key hp hq
  by_contra hne
  exact (inv_of_run h).unique hq hne hp

theorem handler_exclusive_waiting : ∃ s, run (step ledger) {} (redelivered.take 6) = some s ∧
    ∀ p q key, Holds s p key → Holds s q key → p = q :=
  Exists.imp (fun _ h => ⟨h, handler_exclusive h⟩) ⟨_, rfl⟩

end Converger.BackboneDispatch
