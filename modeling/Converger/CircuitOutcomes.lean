import Converger.Circuit

/-!
# Whose result moves the breaker

The result of a delivery is recorded against the row as it stands by then. A half-open breaker is
ended by its probes only where no older delivery is still running when a probe is claimed, and
a closed breaker opens on a full series of failures only where no series ends between the two
statements that record a failure.
-/
namespace Converger.Circuit
open GuardedRuns List Option

namespace State
variable {s : State} {i j : ℕ} {d d' : Delivery} {p : Phase} {sources : List CircuitState}
  {target : CircuitState} {reason : Reason} {mover : Option ℕ} {now : ℤ}

theorem getElem?_setPhase (h : (s.setPhase i d p).deliveries[j]? = some d') :
    j = i ∧ d' = {d with phase := p} ∨ j ≠ i ∧ s.deliveries[j]? = some d' := by
  rw [setPhase, getElem?_set] at h
  split_ifs at h with hij hlt
  · exact .inl ⟨hij.symm, (some.inj h).symm⟩
  · exact .inr ⟨Ne.symm hij, h⟩

theorem move_cases :
    s.channel.circuitState ∈ sources ∧
      (s.move sources target reason mover now).channel =
        { circuitState := target
          circuitChangedAt := some now
          consecutiveFailures := if target = .closed then 0 else s.channel.consecutiveFailures} ∧
      (s.move sources target reason mover now).log =
        .moved s.channel.circuitState target reason mover :: s.log ∨
    s.move sources target reason mover now = s := by
  unfold move transition
  by_cases h : s.channel.circuitState ∈ sources
  · simp [h]
  · simp [h]

end State

/-! ## What an event does -/

/-- What an event makes of the row, the deliveries and the history: a delivery is loaded, claims the
probe, goes on without a statement, or has its result; a statement of `record/2` moves the breaker or
writes the counter; or the health check or an operator moves the breaker. -/
inductive Effect (cfg : Config) (s : State) (e : Event) : State → Prop
  | load : Effect cfg s e {s with deliveries := s.deliveries ++ [{seen := s.channel.circuitState}]}
  | claim {i : ℕ} {d : Delivery} {now : ℤ} {limited : Option ℕ} {claimed : Channel}
      (he : e = .admission i now limited) (hd : s.deliveries[i]? = some d) (hphase : d.phase = .loaded)
      (hadmission : admitChannel cfg now limited d.seen s.channel = (.ok, some claimed)) :
      Effect cfg s e {s.setPhase i d .attempting with channel := claimed, log := .claimed i :: s.log}
  | attempt {i : ℕ} {d : Delivery} (hd : s.deliveries[i]? = some d) (hphase : d.phase = .loaded)
      (hseen : d.seen = .closed ∨ e = .attempt i) : Effect cfg s e (s.setPhase i d .attempting)
  | finish {i : ℕ} {d : Delivery} (hd : s.deliveries[i]? = some d) :
      Effect cfg s e (s.setPhase i d .finished)
  | result {i : ℕ} {d : Delivery} {r : AdapterResult} (hd : s.deliveries[i]? = some d)
      (hphase : d.phase = .attempting) :
      Effect cfg s e (s.setPhase i {d with result := some r} (recordPhase d.seen r))
  | recordMove {i : ℕ} {d : Delivery} {p : Phase} {sources : List CircuitState} {target : CircuitState}
      {reason : Reason} {now : ℤ} (hd : s.deliveries[i]? = some d)
      (hphase : d.phase ∉ [.loaded, .attempting, .finished])
      (hp : p = .resetting ∨ p = .finished) (htarget : target ≠ .halfOpen)
      (hreason : reason = .failures → d.phase = .opening) :
      Effect cfg s e ((s.setPhase i d p).move sources target reason (some i) now)
  | recordSuccess {i : ℕ} {d : Delivery} (hd : s.deliveries[i]? = some d) :
      Effect cfg s e {s.setPhase i d .finished with
        channel := {s.channel with consecutiveFailures := 0}
        log := .success i :: s.log}
  | recordFailure {i : ℕ} {d : Delivery} {c : Channel} (hd : s.deliveries[i]? = some d)
      (hphase : d.phase = .counting)
      (hc : c = {s.channel with consecutiveFailures := s.channel.consecutiveFailures + 1}) :
      Effect cfg s e
        {s.setPhase i d (afterCount cfg c) with channel := c, log := .failure i :: s.log}
  | moveByHand {sources : List CircuitState} {target : CircuitState} {reason : Reason} {now : ℤ}
      (htarget : target ≠ .halfOpen) (hreason : reason ≠ .failures)
      (hsources : .halfOpen ∈ sources → reason = .manual) :
      Effect cfg s e (s.move sources target reason none now)

variable {e : Event} {c : Channel} {seen : CircuitState} {r : AdapterResult}

section Effects
variable {cfg : Config} {s t : State} {i : ℕ} {d : Delivery} {now : ℤ}

theorem record_effect (hd : s.deliveries[i]? = some d)
    (hrecord : record cfg s i d now = some t) : Effect cfg s e t := by
  unfold record at hrecord
  split at hrecord
  case h_1 hphase =>
    cases hrecord
    exact .recordMove hd (by simp [hphase]) (.inl rfl) (by decide) (by simp)
  case h_2 =>
    cases hrecord
    exact .recordSuccess hd
  case h_3 hphase =>
    cases hrecord
    exact .recordFailure hd hphase rfl
  case h_4 hphase =>
    cases hrecord
    exact .recordMove hd (by simp [hphase]) (.inr rfl) (by decide) (by simp)
  case h_5 hphase =>
    cases hrecord
    exact .recordMove hd (by simp [hphase]) (.inr rfl) (by decide) fun _ => hphase
  all_goals cases hrecord

theorem step_effect (hstep : step cfg s e = some t) : Effect cfg s e t := by
  cases e with
  | load =>
    cases hstep
    exact .load
  | admission i now limited =>
    obtain ⟨d, hd, hstep⟩ := bind_eq_some_iff.mp hstep
    split_ifs at hstep with hloaded
    split at hstep
    · next hadmission =>
      cases hstep
      exact .claim rfl hd hloaded hadmission
    · next hadmission =>
      cases hstep
      -- only a delivery that has seen the breaker closed is admitted without a claim
      obtain ⟨-, hseen⟩ | ⟨c, hc, -⟩ := admitChannel_ok hadmission
      · exact .attempt hd hloaded (.inl hseen)
      · cases hc
    · cases hstep
      exact .finish hd
  | attempt i =>
    obtain ⟨d, hd, hstep⟩ := bind_eq_some_iff.mp hstep
    split_ifs at hstep with hloaded
    cases hstep
    exact .attempt hd hloaded (.inr rfl)
  | result i r =>
    obtain ⟨d, hd, hstep⟩ := bind_eq_some_iff.mp hstep
    split_ifs at hstep with hphase
    cases hstep
    exact .result hd hphase
  | statement i now =>
    obtain ⟨d, hd, hstep⟩ := bind_eq_some_iff.mp hstep
    exact record_effect hd hstep
  | abandon i =>
    obtain ⟨d, hd, hstep⟩ := bind_eq_some_iff.mp hstep
    split_ifs at hstep
    cases hstep
    exact .finish hd
  | trip now | pause now | resume now =>
    cases hstep
    exact .moveByHand (by decide) (by decide) (by decide)

end Effects

/-! ## Probes -/

/-- The deliveries that claimed the probe since the breaker last left the closed state. -/
def probes : List Entry → List ℕ
  | [] => []
  | .claimed i :: log => i :: probes log
  | .moved .closed _ _ _ :: _ => []
  | _ :: log => probes log

/-- The delivery is over, or waits for an admission that parks it or makes it a probe. -/
def Delivery.harmless (d : Delivery) : Bool :=
  d.phase = .finished ∨ d.phase = .loaded ∧ d.seen ≠ .closed

def Quiet (s : State) (i : ℕ) : Prop :=
  ∀ j d, s.deliveries[j]? = some d → j = i ∨ d.harmless = true ∨ j ∈ probes s.log

instance (s : State) (i : ℕ) : Decidable (Quiet s i) :=
  decidable_of_iff
    (∀ x ∈ s.deliveries.zipIdx, x.2 = i ∨ x.1.harmless = true ∨ x.2 ∈ probes s.log)
    ⟨fun h j d hd => h (d, j) (mem_zipIdx_iff_getElem?.mpr hd),
      fun h x hx => h x.2 x.1 (mem_zipIdx_iff_getElem?.mp hx)⟩

/-- A probe is claimed when no older delivery is running, and no delivery is attempted
without admission while the breaker is half open. -/
def Undisturbed (cfg : Config) (s : State) : Event → Prop
  | .admission i now limited =>
    ∀ d ∈ s.deliveries[i]?, (admitChannel cfg now limited d.seen s.channel).2.isSome = true → Quiet s i
  | .attempt _ => s.channel.circuitState ≠ .halfOpen
  | _ => True

instance (cfg : Config) (s : State) : ∀ e, Decidable (Undisturbed cfg s e)
  | .admission _ _ _ => inferInstanceAs (Decidable (∀ _ ∈ _, _))
  | .attempt _ => inferInstanceAs (Decidable (_ ≠ _))
  | .load | .result _ _ | .statement _ _ | .abandon _ | .trip _ | .pause _ | .resume _ =>
    .isTrue trivial

def ByProbe (reason : Reason) (mover : Option ℕ) (log : List Entry) : Prop :=
  mover = none ∧ reason = .manual ∨ ∃ i ∈ probes log, mover = some i

structure Probing (s : State) : Prop where
  ended : ∀ target reason mover log,
    .moved .halfOpen target reason mover :: log <:+ s.log → ByProbe reason mover log
  running : s.channel.circuitState = .halfOpen → ∀ i d, s.deliveries[i]? = some d →
    d.harmless = true ∨ i ∈ probes s.log

namespace Probing
variable {cfg : Config} {s t : State} {i : ℕ} {d : Delivery} {p : Phase}

theorem start : Probing {} := ⟨by simp, by simp⟩

variable (h : Probing s)
include h

theorem setPhase (hp : s.channel.circuitState = .halfOpen →
      ({d with phase := p} : Delivery).harmless = true ∨ i ∈ probes s.log) :
    Probing (s.setPhase i d p) where
  ended := h.ended
  running := by
    intro hstate j d' hj
    obtain ⟨rfl, rfl⟩ | ⟨-, hj⟩ := State.getElem?_setPhase hj
    · exact hp hstate
    · exact h.running hstate j d' hj

theorem ended_cons {e : Entry}
    (he : ∀ target reason mover, e = .moved .halfOpen target reason mover → ByProbe reason mover s.log)
    (target : CircuitState) (reason : Reason) (mover : Option ℕ) (log : List Entry)
    (hsuffix : .moved .halfOpen target reason mover :: log <:+ e :: s.log) :
    ByProbe reason mover log := by
  obtain heq | hsuffix := suffix_cons_iff.mp hsuffix
  · obtain ⟨rfl, rfl⟩ := List.cons.inj heq
    exact he target reason mover rfl
  · exact h.ended target reason mover log hsuffix

theorem push {e : Entry}
    (hstate : c.circuitState = s.channel.circuitState) (hprobes : probes (e :: s.log) = probes s.log)
    (he : ∀ target reason mover, e ≠ .moved .halfOpen target reason mover) :
    Probing {s with channel := c, log := e :: s.log} where
  ended := h.ended_cons fun target reason mover heq => absurd heq (he target reason mover)
  running := by
    intro hhalf
    rw [hprobes]
    exact h.running (hstate.symm.trans hhalf)

theorem move {sources : List CircuitState} {target : CircuitState} {reason : Reason}
    {mover : Option ℕ} {now : ℤ} (htarget : target ≠ .halfOpen)
    (hmover : .halfOpen ∈ sources → s.channel.circuitState = .halfOpen → ByProbe reason mover s.log) :
    Probing (s.move sources target reason mover now) := by
  obtain ⟨hsource, hchannel, hlog⟩ | heq := @State.move_cases s sources target reason mover now
  · refine ⟨?_, ?_⟩
    · rw [hlog]
      refine h.ended_cons fun target' reason' mover' he => ?_
      obtain ⟨hstate, -, rfl, rfl⟩ := Entry.moved.inj he
      exact hmover (hstate ▸ hsource) hstate
    · intro hstate
      rw [hchannel] at hstate
      exact absurd hstate htarget
  · rw [heq]
    exact h

/-- The claim of a probe makes the breaker half open, with no other delivery that could end
that state. -/
theorem claim (hquiet : Quiet s i) :
    Probing {s.setPhase i d .attempting with channel := c, log := .claimed i :: s.log} where
  ended := h.ended_cons (by simp)
  running := by
    intro _ j d' hj
    obtain ⟨rfl, -⟩ | ⟨hne, hj⟩ := State.getElem?_setPhase hj
    · exact .inr mem_cons_self
    · obtain heq | hharmless | hprobe := hquiet j d' hj
      · exact absurd heq hne
      · exact .inl hharmless
      · exact .inr (mem_cons_of_mem _ hprobe)

/-- A delivery that is past its admission is a probe as long as the breaker is half open. -/
theorem mem_probes (hd : s.deliveries[i]? = some d) (hphase : d.harmless = false)
    (hstate : s.channel.circuitState = .halfOpen) : i ∈ probes s.log := by
  obtain hharmless | hprobe := h.running hstate i d hd
  · exact absurd hharmless (by simp [hphase])
  · exact hprobe

theorem step (hcond : Undisturbed cfg s e)
    (hstep : step cfg s e = some t) : Probing t := by
  cases step_effect hstep with
  | load =>
    refine ⟨h.ended, fun (hstate : s.channel.circuitState = .halfOpen) i d hd => ?_⟩
    rw [getElem?_append] at hd
    split_ifs at hd with hlt
    · exact h.running hstate i d hd
    · -- the new delivery has seen the breaker half open
      obtain rfl := mem_singleton.mp (mem_of_getElem? hd)
      exact .inl (by simp [Delivery.harmless, hstate])
  | claim he hd hphase hadmission =>
    subst he
    exact h.claim (hcond _ hd (by simp [hadmission]))
  | attempt hd hphase hseen =>
    refine h.setPhase fun hstate => ?_
    obtain hseen | rfl := hseen
    · exact .inr (h.mem_probes hd (by simp [Delivery.harmless, hphase, hseen]) hstate)
    · exact absurd hstate hcond
  | finish hd => exact h.setPhase fun _ => .inl rfl
  | result hd hphase =>
    refine h.setPhase fun hstate => .inr (h.mem_probes hd ?_ hstate)
    simp [Delivery.harmless, hphase]
  | recordMove hd hphase hp htarget hreason =>
    simp only [mem_cons, not_or] at hphase
    have hprobe := h.mem_probes hd (by simp [Delivery.harmless, hphase])
    refine (h.setPhase fun hstate => .inr (hprobe hstate)).move htarget fun _ hstate => ?_
    exact .inr ⟨_, hprobe hstate, rfl⟩
  | recordSuccess hd =>
    exact (h.setPhase fun _ => .inl rfl).push rfl rfl (by simp)
  | recordFailure hd hphase hc =>
    subst hc
    have hprobe := h.mem_probes hd (by simp [Delivery.harmless, hphase])
    exact (h.setPhase fun hstate => .inr (hprobe hstate)).push rfl rfl (by simp)
  | moveByHand htarget hreason hsources =>
    exact h.move htarget fun hin _ => .inl ⟨rfl, hsources hin⟩

end Probing

/-- In every run in which probes are claimed undisturbed, the results that end a half-open state
are those of deliveries that claimed the probe since the breaker last left the closed state. -/
theorem half_open_ended_by_probe (cfg : Config) (events : List Event) (t : State)
    (hrun : run (step cfg) {} events = some t) (hcond : Along (step cfg) (Undisturbed cfg) {} events)
    (target : CircuitState) (reason : Reason) (mover : Option ℕ) (log : List Entry)
    (hmoved : .moved .halfOpen target reason mover :: log <:+ t.log) :
    mover = none ∧ reason = .manual ∨ ∃ i ∈ probes log, mover = some i :=
  (run_invariant_along Probing.step Probing.start hcond hrun).ended target reason mover log hmoved

/-- The breaker opens, a delivery claims the probe after the cooldown, and succeeds. -/
def probeCloses : List Event :=
  [.trip 0, .load, .admission 0 30000000 none, .result 0 .ok, .statement 0 31000000]

theorem half_open_ended_by_probe_closes :
    ∃ t, run (step {}) {} probeCloses = some t ∧
      t.log = [.moved .halfOpen .closed .probeSucceeded (some 0), .claimed 0,
        .moved .closed .opened .unhealthy none] ∧ 0 ∈ probes t.log.tail := by
  have hrun : (run (step {}) {} probeCloses).any (fun t =>
      t.log = [.moved .halfOpen .closed .probeSucceeded (some 0), .claimed 0,
        .moved .closed .opened .unhealthy none]) = true := by decide
  obtain ⟨t, ht, hlog⟩ := (Option.any_eq_true _ _).mp hrun
  have hlog := of_decide_eq_true hlog
  refine ⟨t, ht, hlog, ?_⟩
  have hended := half_open_ended_by_probe {} probeCloses t ht (by decide) .closed .probeSucceeded
    (some 0) t.log.tail (by rw [hlog]; exact suffix_rfl)
  simpa using hended

/-- A delivery that was started before the breaker opened fails while another one probes; and
the probe of an outage that an operator ended succeeds in the next one. -/
theorem half_open_ended_by_others :
    (∃ t, run (step {}) {} [.load, .admission 0 0 none, .trip 1, .load, .admission 1 30000001 none,
        .result 0 (.error true), .statement 0 30000002, .statement 0 30000003] = some t ∧
      ∃ log, t.log = .moved .halfOpen .opened .probeFailed (some 0) :: log ∧ 0 ∉ probes log) ∧
    ∃ t, run (step {}) {} [.trip 0, .load, .admission 0 30000000 none, .resume 30000001,
        .trip 30000002, .load, .admission 1 60000002 none, .result 0 .ok, .statement 0 60000003] =
        some t ∧
      ∃ log, t.log = .moved .halfOpen .closed .probeSucceeded (some 0) :: log ∧ 0 ∉ probes log := by
  refine ⟨⟨_, rfl, _, rfl, by decide⟩, _, rfl, _, rfl, by decide⟩

/-! ## Failures -/

/-- The failures recorded since the last success and since the breaker last became closed. -/
def failuresSince : List Entry → ℕ
  | [] => 0
  | .failure _ :: log => failuresSince log + 1
  | .success _ :: _ => 0
  | .moved _ .closed _ _ :: _ => 0
  | _ :: log => failuresSince log

/-- No delivery stands between the two statements that record its failure, or the event does
not end the series of failures. -/
def Uninterrupted (cfg : Config) (s : State) (e : Event) : Prop :=
  (∀ d ∈ s.deliveries, d.phase ≠ .opening) ∨
    ∀ t ∈ step cfg s e, failuresSince s.log ≤ failuresSince t.log

instance (cfg : Config) (s : State) (e : Event) : Decidable (Uninterrupted cfg s e) :=
  inferInstanceAs (Decidable (_ ∨ _))

structure Counted (cfg : Config) (s : State) : Prop where
  count : s.channel.consecutiveFailures = failuresSince s.log
  full : ∀ d ∈ s.deliveries, d.phase = .opening → cfg.failureThreshold ≤ failuresSince s.log
  opened : ∀ mover log, .moved .closed .opened .failures mover :: log <:+ s.log →
    cfg.failureThreshold ≤ failuresSince log
  counting : ∀ d ∈ s.deliveries, d.phase = .counting → d.result = some (.error true)
  transient : ∀ i, .failure i ∈ s.log → ∃ d, s.deliveries[i]? = some d ∧
    d.result = some (.error true) ∧ d.phase ∉ [.loaded, .attempting]

theorem failuresSince_moved (source target : CircuitState) (reason : Reason) (mover : Option ℕ)
    (log : List Entry) :
    failuresSince (.moved source target reason mover :: log) =
      if target = .closed then 0 else failuresSince log := by
  cases target <;> rfl

theorem le_of_afterCount {cfg : Config} (h : afterCount cfg c = .opening) :
    cfg.failureThreshold ≤ c.consecutiveFailures := by
  unfold afterCount at h
  split at h
  · cases h
  · split_ifs at h with hfull
    exact hfull
  all_goals cases h

theorem afterCount_recorded {cfg : Config} : afterCount cfg c ∉ [Phase.loaded, .attempting] := by
  unfold afterCount
  split <;> [skip; split_ifs; skip; skip] <;> decide

theorem recordPhase_ne_opening : recordPhase seen r ≠ .opening := by
  unfold recordPhase
  split <;> [split_ifs; split_ifs; skip; skip] <;> decide

theorem result_of_recordPhase (h : recordPhase seen r = .counting) : some r = some (.error true) := by
  unfold recordPhase at h
  split at h
  · split_ifs at h
  · split_ifs at h
  · rfl
  · cases h

namespace Counted
variable {cfg : Config} {s t : State} {i : ℕ} {d d' : Delivery}

theorem start (cfg : Config) : Counted cfg {} := ⟨rfl, by simp, by simp, by simp, by simp⟩

variable (h : Counted cfg s)
include h

theorem set (d' : Delivery) (hd : s.deliveries[i]? = some d)
    (hopening : d'.phase = .opening → cfg.failureThreshold ≤ failuresSince s.log)
    (hcounting : d'.phase = .counting → d'.result = some (.error true))
    (hrecorded : d.phase ∉ [.loaded, .attempting] →
      d'.result = d.result ∧ d'.phase ∉ [.loaded, .attempting]) :
    Counted cfg {s with deliveries := s.deliveries.set i d'} where
  count := h.count
  full := forall_mem_set h.full hopening
  opened := h.opened
  counting := forall_mem_set h.counting hcounting
  transient := by
    intro j hfailure
    obtain ⟨d₁, hd₁, hresult, hphase⟩ := h.transient j hfailure
    by_cases hij : i = j
    · subst hij
      obtain rfl := some.inj (hd.symm.trans hd₁)
      obtain ⟨hsame, hphase'⟩ := hrecorded hphase
      have hlt := (List.getElem?_eq_some_iff.mp hd).1
      exact ⟨d', by simp [hlt], hsame.trans hresult, hphase'⟩
    · exact ⟨d₁, by simp [hij, hd₁], hresult, hphase⟩

theorem setPhase {p : Phase} (hd : s.deliveries[i]? = some d)
    (hp : p ∉ [.opening, .counting])
    (hrecorded : d.phase ∉ [.loaded, .attempting] → p ∉ [.loaded, .attempting]) :
    Counted cfg (s.setPhase i d p) := by
  simp only [mem_cons, not_or] at hp
  exact h.set _ hd (fun hphase => absurd hphase hp.1) (fun hphase => absurd hphase hp.2.1)
    fun hphase => ⟨rfl, hrecorded hphase⟩

theorem push {e : Entry}
    (hcount : c.consecutiveFailures = failuresSince (e :: s.log))
    (hfull : ∀ d ∈ s.deliveries, d.phase = .opening → cfg.failureThreshold ≤ failuresSince (e :: s.log))
    (hopened : ∀ mover, e = .moved .closed .opened .failures mover →
      cfg.failureThreshold ≤ failuresSince s.log)
    (hfailure : ∀ i, e = .failure i → ∃ d, s.deliveries[i]? = some d ∧
      d.result = some (.error true) ∧ d.phase ∉ [.loaded, .attempting]) :
    Counted cfg {s with channel := c, log := e :: s.log} where
  count := hcount
  full := hfull
  opened := by
    intro mover log hsuffix
    obtain heq | hsuffix := suffix_cons_iff.mp hsuffix
    · obtain ⟨rfl, rfl⟩ := List.cons.inj heq
      exact hopened mover rfl
    · exact h.opened mover log hsuffix
  counting := h.counting
  transient := by
    intro i hmem
    obtain heq | hmem := mem_cons.mp hmem
    · exact hfailure i heq.symm
    · exact h.transient i hmem

theorem move {sources : List CircuitState} {target : CircuitState} {reason : Reason}
    {mover : Option ℕ} {now : ℤ}
    (hfull : ∀ d ∈ s.deliveries, d.phase = .opening →
      cfg.failureThreshold ≤ failuresSince (s.move sources target reason mover now).log)
    (hreason : reason = .failures → cfg.failureThreshold ≤ failuresSince s.log) :
    Counted cfg (s.move sources target reason mover now) := by
  unfold State.move at hfull ⊢
  cases hmoved : transition sources target now s.channel with
  | none => exact h
  | some c =>
    simp only [hmoved] at hfull
    refine h.push ?_ hfull ?_ (by simp)
    · obtain ⟨-, rfl⟩ := transition_eq_some.mp hmoved
      simp only [h.count, failuresSince_moved]
    · intro mover' he
      exact hreason (Entry.moved.inj he).2.2.1

/-- Deliveries between their two statements were there before another one moved on. -/
theorem load :
    Counted cfg
      {s with deliveries := s.deliveries ++ [{seen := s.channel.circuitState}]} := by
  refine ⟨h.count, forall_mem_snoc h.full (by simp), h.opened, forall_mem_snoc h.counting (by simp),
    fun i hi => ?_⟩
  obtain ⟨d, hd, hrest⟩ := h.transient i hi
  exact ⟨d, getElem?_append_of_eq_some hd _, hrest⟩

/-- The counter goes up; the delivery goes on to open the breaker where it reaches the threshold. -/
theorem recordFailure (hd : s.deliveries[i]? = some d)
    (hphase : d.phase = .counting)
    (hc : c = {s.channel with consecutiveFailures := s.channel.consecutiveFailures + 1})
    (hkept : ∀ d ∈ s.deliveries, d.phase = .opening →
      cfg.failureThreshold ≤ failuresSince (.failure i :: s.log)) :
    Counted cfg
      {s.setPhase i d (afterCount cfg c) with channel := c, log := .failure i :: s.log} := by
  have hcount : c.consecutiveFailures = failuresSince (.failure i :: s.log) := by
    rw [hc, h.count, failuresSince]
  have hresult := h.counting d (mem_of_getElem? hd) hphase
  have hpushed := h.push hcount hkept (by simp)
    fun j hj => ⟨d, Entry.failure.inj hj ▸ hd, hresult, by simp [hphase]⟩
  exact hpushed.set {d with phase := afterCount cfg c} hd
    (fun hopening => hcount ▸ le_of_afterCount hopening) (fun _ => hresult)
    fun _ => ⟨rfl, afterCount_recorded⟩

theorem step (hcond : Uninterrupted cfg s e)
    (hstep : step cfg s e = some t) : Counted cfg t := by
  have hkept : ∀ d ∈ s.deliveries, d.phase = .opening →
      cfg.failureThreshold ≤ failuresSince t.log := by
    intro d hd hphase
    obtain hnone | hgrows := hcond
    · exact absurd hphase (hnone d hd)
    · exact Nat.le_trans (h.full d hd hphase) (hgrows t hstep)
  cases step_effect hstep with
  | load => exact h.load
  | claim he hd hphase hadmission =>
    obtain ⟨hnone, -⟩ | ⟨c, hc, -, hclaim⟩ := admitChannel_ok hadmission
    · cases hnone
    · cases hc
      obtain ⟨-, rfl⟩ := claimProbe_eq_some.mp hclaim
      exact (h.setPhase hd (by simp) (by simp [hphase])).push h.count
        (forall_mem_set hkept (by simp)) (by simp) (by simp)
  | attempt hd hphase _ => exact h.setPhase hd (by simp) (by simp [hphase])
  | finish hd => exact h.setPhase hd (by simp) (by simp)
  | result hd hphase =>
    exact h.set _ hd (fun hopening => absurd hopening recordPhase_ne_opening)
      result_of_recordPhase (by simp [hphase])
  | recordMove hd hphase hp htarget hreason =>
    have hseries := fun hfailures => h.full _ (mem_of_getElem? hd) (hreason hfailures)
    obtain rfl | rfl := hp
    · exact (h.setPhase hd (by simp) (by simp)).move (forall_mem_set hkept (by simp)) hseries
    · exact (h.setPhase hd (by simp) (by simp)).move (forall_mem_set hkept (by simp)) hseries
  | recordSuccess hd =>
    exact (h.setPhase hd (by simp) (by simp)).push rfl (forall_mem_set hkept (by simp)) (by simp)
      (by simp)
  | recordFailure hd hphase hc => exact h.recordFailure hd hphase hc hkept
  | moveByHand htarget hreason hsources =>
    exact h.move hkept fun hfailures => absurd hfailures hreason

end Counted

/-- In every run in which no series of failures ends between the two statements that record a
failure, the breaker opens for failures only after a full series of them; and every failure
that was counted is a transient one. -/
theorem opened_after_failures (cfg : Config) (events : List Event) (t : State)
    (hrun : run (step cfg) {} events = some t)
    (hcond : Along (step cfg) (Uninterrupted cfg) {} events) :
    (∀ mover log, .moved .closed .opened .failures mover :: log <:+ t.log →
      cfg.failureThreshold ≤ failuresSince log) ∧
    ∀ i, .failure i ∈ t.log →
      ∃ d, t.deliveries[i]? = some d ∧ d.result = some (.error true) := by
  have h : Counted cfg t := run_invariant_along Counted.step (Counted.start cfg) hcond hrun
  refine ⟨h.opened, fun i hi => ?_⟩
  obtain ⟨d, hd, hresult, -⟩ := h.transient i hi
  exact ⟨d, hd, hresult⟩

def fiveFailures : List Event :=
  (List.range 5).flatMap fun i =>
    [.load, .admission i 0 none, .result i (.error true), .statement i 0]

theorem opened_after_failures_five :
    ∃ t, run (step {}) {} (fiveFailures ++ [.statement 4 1]) = some t ∧
      t.channel.circuitState = .opened ∧
      ∃ log, t.log = .moved .closed .opened .failures (some 4) :: log ∧ 5 ≤ failuresSince log := by
  obtain ⟨t, ht, hstate, hhead⟩ : ∃ t, run (step {}) {} (fiveFailures ++ [.statement 4 1]) = some t ∧
      t.channel.circuitState = .opened ∧
        t.log.head? = some (.moved .closed .opened .failures (some 4)) := by decide +kernel
  obtain ⟨log, hlog⟩ := head?_eq_some_iff.mp hhead
  refine ⟨t, ht, hstate, log, hlog, ?_⟩
  have hopened := (opened_after_failures {} _ t ht (by decide +kernel)).1
  exact hopened (some 4) log (hlog ▸ suffix_rfl)

/-- A success, or a pause and a resume, between the two statements of the fifth failure: the
breaker opens although nothing has failed since. -/
theorem opened_after_interrupted_failures :
    (∃ t, run (step {}) {} (fiveFailures ++ [.load, .admission 5 0 none, .result 5 .ok,
        .statement 5 1, .statement 4 2]) = some t ∧
      ∃ log, t.log = .moved .closed .opened .failures (some 4) :: log ∧ failuresSince log = 0) ∧
    ∃ t, run (step {}) {} (fiveFailures ++ [.pause 1, .resume 2, .statement 4 3]) = some t ∧
      ∃ log, t.log = .moved .closed .opened .failures (some 4) :: log ∧ failuresSince log = 0 :=
  ⟨⟨_, rfl, _, rfl, rfl⟩, _, rfl, _, rfl, rfl⟩

end Converger.Circuit
