import Converger.GuardedRuns

/-!
# Read positions

`Receipts.mark_read`: a call reads the head of the conversation, caps its watermark there and upserts
the row of the reader. A statement is a step. The upsert holds the row until its commit, and a call
that finds the row held waits for it.
-/
namespace Converger.Receipts
open Function GuardedRuns List Option

variable {ι ρ : Type}

inductive Result where
  | advanced (readSeq : ℕ)
  | unchanged (readSeq : ℕ)
  | invalidWatermark
  deriving DecidableEq, Repr

inductive Phase where
  | called
  | capped
  | upserted (touched : Bool)
  | committed (touched : Bool)
  | returned (result : Result)
  | failed
  deriving DecidableEq, Repr

/-- A call of `mark_read/3` of a reader of a conversation, with the head it has read. -/
structure Call (ι ρ : Type) where
  who : ι × ρ
  watermark : ℕ
  head : ℕ := 0
  phase : Phase := .called
  deriving DecidableEq, Repr

def Call.readSeq (call : Call ι ρ) : ℕ := min call.watermark call.head

structure Accepted (ι ρ : Type) where
  pid : ℕ
  call : Call ι ρ
  before : ℕ
  after : ℕ
  deriving DecidableEq, Repr

structure State (ι ρ : Type) where
  heads : ι → ℕ := fun _ => 0
  rows : ι × ρ → Option ℕ := fun _ => none
  holders : ι × ρ → Option ℕ := fun _ => none
  calls : ℕ → Option (Call ι ρ) := fun _ => none
  accepted : List (Accepted ι ρ) := []

def State.readSeq (s : State ι ρ) (who : ι × ρ) : ℕ := (s.rows who).getD 0

def State.set (s : State ι ρ) (pid : ℕ) (call : Call ι ρ) : State ι ρ :=
  {s with calls := update s.calls pid (some call)}

def touches (row : Option ℕ) (readSeq : ℕ) : Bool :=
  match row with
  | none => true
  | some stored => stored < readSeq

inductive Event (ι ρ : Type) where
  /-- The head of a conversation changes. -/
  | head (conversation : ι) (seq : ℕ)
  | call (pid : ℕ) (who : ι × ρ) (watermark : Int)
  | headSeq (pid : ℕ)
  | insertAll (pid : ℕ)
  | commit (pid : ℕ)
  | rollback (pid : ℕ)
  | answer (pid : ℕ)
  | crash (pid : ℕ)
  deriving DecidableEq, Repr

section
variable [DecidableEq ι] [DecidableEq ρ]

def State.settle (s : State ι ρ) (pid : ℕ) (call : Call ι ρ) (touched : Bool) : State ι ρ :=
  {s.set pid {call with phase := .committed touched} with
    holders := update s.holders call.who none
    rows := if touched then update s.rows call.who (some call.readSeq) else s.rows}

def State.accept (s : State ι ρ) (pid : ℕ) (call : Call ι ρ) (t : State ι ρ) : State ι ρ :=
  {t with accepted := s.accepted ++ [⟨pid, call, s.readSeq call.who, t.readSeq call.who⟩]}

def step (s : State ι ρ) : Event ι ρ → Option (State ι ρ)
  | .head conversation seq => some {s with heads := update s.heads conversation seq}
  | .call pid who watermark =>
    if s.calls pid = none then
      if 1 ≤ watermark then some (s.set pid {who, watermark := watermark.toNat})
      else some (s.set pid {who, watermark := 0, phase := .returned .invalidWatermark})
    else none
  | .headSeq pid => (s.calls pid).bind fun call =>
    if call.phase = .called then
      let call := {call with head := s.heads call.who.1}
      if call.readSeq = 0 then
        some (s.accept pid call (s.set pid {call with phase := .returned (.unchanged 0)}))
      else some (s.set pid {call with phase := .capped})
    else none
  | .insertAll pid => (s.calls pid).bind fun call =>
    if call.phase = .capped ∧ s.holders call.who = none then
      some {s.set pid {call with
          phase := .upserted (touches (s.rows call.who) call.readSeq)} with
        holders := update s.holders call.who (some pid)}
    else none
  | .commit pid => (s.calls pid).bind fun call =>
    match call.phase with
    | .upserted touched => some (s.accept pid call (s.settle pid call touched))
    | _ => none
  | .rollback pid => (s.calls pid).bind fun call =>
    match call.phase with
    | .upserted _ => some {s.set pid {call with phase := .failed} with
        holders := update s.holders call.who none}
    | _ => none
  | .answer pid => (s.calls pid).bind fun call =>
    match call.phase with
    | .committed true => some (s.set pid {call with phase := .returned (.advanced call.readSeq)})
    | .committed false =>
      some (s.set pid {call with phase := .returned (.unchanged (s.readSeq call.who))})
    | _ => none
  | .crash pid => (s.calls pid).bind fun call =>
    match call.phase with
    | .called | .capped | .committed _ => some (s.set pid {call with phase := .failed})
    | _ => none

end

/-! ### What a step does to the stored positions -/

def Accepted.readSeq (a : Accepted ι ρ) : ℕ := a.call.readSeq

inductive Effect (s t : State ι ρ) : Prop where
  | none (hrows : ∀ who, t.readSeq who = s.readSeq who) (haccepted : t.accepted = s.accepted)
  | accept (a : Accepted ι ρ) (haccepted : t.accepted = s.accepted ++ [a])
      (hbefore : a.before = s.readSeq a.call.who) (hafter : a.after = t.readSeq a.call.who)
      (hmax : a.after = max a.before a.readSeq)
      (hothers : ∀ who ≠ a.call.who, t.readSeq who = s.readSeq who)

theorem Effect.le {s t : State ι ρ} (h : Effect s t) (who : ι × ρ) : s.readSeq who ≤ t.readSeq who := by
  cases h with
  | none hrows => exact Nat.le_of_eq (hrows who).symm
  | accept a _ hbefore hafter hmax hothers =>
    by_cases hwho : who = a.call.who
    · rw [hwho, ← hbefore, ← hafter, hmax]
      exact Nat.le_max_left _ _
    · exact Nat.le_of_eq (hothers who hwho).symm

def Stored (s : State ι ρ) : Prop := ∀ a ∈ s.accepted, a.after ≤ s.readSeq a.call.who

theorem Effect.stored {s t : State ι ρ} (h : Effect s t) (hs : Stored s) : Stored t := by
  have hold : ∀ a ∈ s.accepted, a.after ≤ t.readSeq a.call.who := fun a ha =>
    Nat.le_trans (hs a ha) (h.le a.call.who)
  cases h with
  | none _ haccepted => exact fun a ha => hold a (haccepted ▸ ha)
  | accept last haccepted _ hafter =>
    intro a ha
    rw [haccepted] at ha
    rcases mem_snoc.mp ha with ha | rfl
    · exact hold a ha
    · exact Nat.le_of_eq hafter

def State.greatest [DecidableEq ι] [DecidableEq ρ] (s : State ι ρ) (who : ι × ρ) : ℕ :=
  ((s.accepted.filter (·.call.who = who)).map Accepted.readSeq).foldr max 0

theorem foldr_max_append (xs : List ℕ) (x : ℕ) : (xs ++ [x]).foldr max 0 = max (xs.foldr max 0) x := by
  induction xs with
  | nil => simp
  | cons y xs ih => rw [cons_append, foldr_cons, ih, foldr_cons, Nat.max_assoc]

theorem Effect.greatest [DecidableEq ι] [DecidableEq ρ] {s t : State ι ρ} (h : Effect s t)
    (hs : ∀ who, s.readSeq who = s.greatest who) (who : ι × ρ) : t.readSeq who = t.greatest who := by
  cases h with
  | none hrows haccepted =>
    rw [hrows, hs, State.greatest, State.greatest, haccepted]
  | accept a haccepted hbefore hafter hmax hothers =>
    rw [State.greatest, haccepted, filter_append]
    by_cases hwho : who = a.call.who
    · have hlast : [a].filter (·.call.who = who) = [a] := by simp [hwho]
      rw [hlast, map_append, map_singleton, foldr_max_append, hwho, ← hafter, hmax, hbefore, hs]
      rfl
    · have hlast : [a].filter (·.call.who = who) = [] := by simp [Ne.symm hwho]
      rw [hlast, append_nil, hothers who hwho, hs]
      rfl

/-! ### Calls -/

def Result.Reports (a : Accepted ι ρ) : Result → Prop
  | .advanced readSeq => a.before < a.after ∧ readSeq = a.after
  | .unchanged readSeq => a.before = a.after ∧ (0 < a.readSeq → a.after ≤ readSeq)
  | .invalidWatermark => False

def Phase.settled : Phase → Bool
  | .committed _ | .returned _ | .failed => true
  | .called | .capped | .upserted _ => false

/-- The call of an entry is the one that is running, which has gone on since. -/
def Accepted.Of (a : Accepted ι ρ) (pid : ℕ) (call : Call ι ρ) : Prop :=
  a.pid = pid ∧ a.call.who = call.who ∧ a.call.watermark = call.watermark ∧ a.call.head = call.head

def CallOk (s : State ι ρ) (pid : ℕ) (call : Call ι ρ) : Prop :=
  match call.phase with
  | .called | .failed => True
  | .capped => 0 < call.readSeq
  | .upserted touched =>
    s.holders call.who = some pid ∧ (touched = true ↔ s.readSeq call.who < call.readSeq)
  | .committed touched => ∃ a ∈ s.accepted, a.Of pid call ∧ (touched = true ↔ a.before < a.after)
  | .returned result => result = .invalidWatermark ∧ (∀ a ∈ s.accepted, a.pid ≠ pid) ∨
    ∃ a ∈ s.accepted, a.Of pid call ∧ result.Reports a

structure Inv (s : State ι ρ) : Prop where
  calls : ∀ pid call, s.calls pid = some call → CallOk s pid call
  accepted : ∀ a ∈ s.accepted, ∃ call, s.calls a.pid = some call ∧ call.phase.settled = true
  maxima : ∀ a ∈ s.accepted, a.after = max a.before a.readSeq
  pids : (s.accepted.map Accepted.pid).Nodup

theorem inv_init (heads : ι → ℕ) : Inv ({heads} : State ι ρ) where
  calls := nofun
  accepted := nofun
  maxima := nofun
  pids := nodup_nil

section
variable {s t : State ι ρ} {pid : ℕ} {call : Call ι ρ}

theorem CallOk.mono (h : CallOk s pid call) {new : List (Accepted ι ρ)}
    (hheld : s.holders call.who = some pid →
      t.holders call.who = some pid ∧ t.readSeq call.who = s.readSeq call.who)
    (haccepted : t.accepted = s.accepted ++ new) (hnew : ∀ a ∈ new, a.pid ≠ pid) :
    CallOk t pid call := by
  have hold : ∀ a ∈ s.accepted, a ∈ t.accepted := fun a ha =>
    haccepted ▸ mem_append_left new ha
  obtain ⟨who, watermark, head, phase⟩ := call
  cases phase with
  | called | failed => trivial
  | capped => exact h
  | upserted touched =>
    obtain ⟨hholder, htouched⟩ := h
    obtain ⟨hholder, hrow⟩ := hheld hholder
    refine ⟨hholder, ?_⟩
    rw [hrow]
    exact htouched
  | committed touched =>
    obtain ⟨a, ha, hof⟩ := h
    exact ⟨a, hold a ha, hof⟩
  | returned result =>
    rcases h with ⟨hinvalid, hnone⟩ | ⟨a, ha, hof⟩
    · refine .inl ⟨hinvalid, fun a ha => ?_⟩
      rw [haccepted] at ha
      rcases mem_append.mp ha with ha | ha
      · exact hnone a ha
      · exact hnew a ha
    · exact .inr ⟨a, hold a ha, hof⟩

theorem Inv.pid_ne (h : Inv s) (hcall : s.calls pid = some call)
    (hphase : call.phase.settled = false) : ∀ a ∈ s.accepted, a.pid ≠ pid := by
  intro a ha heq
  obtain ⟨other, hother, hsettled⟩ := h.accepted a ha
  rw [heq, hcall] at hother
  cases hother
  rw [hphase] at hsettled
  cases hsettled

theorem Inv.pid_ne_of_none (h : Inv s) (hcall : s.calls pid = none) : ∀ a ∈ s.accepted, a.pid ≠ pid := by
  intro a ha heq
  obtain ⟨other, hother, -⟩ := h.accepted a ha
  rw [heq, hcall] at hother
  cases hother

theorem Inv.upserted (h : Inv s) {touched : Bool} (hcall : s.calls pid = some call)
    (hphase : call.phase = .upserted touched) : s.holders call.who = some pid ∧
      (touched = true ↔ s.readSeq call.who < call.readSeq) := by
  have hok := h.calls pid call hcall
  rw [CallOk, hphase] at hok
  exact hok

theorem touches_iff (s : State ι ρ) {who : ι × ρ} {readSeq : ℕ} (h : 0 < readSeq) :
    touches (s.rows who) readSeq = true ↔ s.readSeq who < readSeq := by
  unfold touches State.readSeq
  cases s.rows who with
  | none => exact iff_of_true rfl h
  | some stored => exact decide_eq_true_iff

section
variable (h : Inv s) (hcalls : t.calls = update s.calls pid (some call)) (hok : CallOk t pid call)
  (hheld : ∀ who other, other ≠ pid → s.holders who = some other →
    t.holders who = some other ∧ t.readSeq who = s.readSeq who)
include h hcalls hok hheld

/-- A step of one call: it is as it should be after it, the others have kept what they hold, and the
new entries are its own. -/
theorem Inv.of_entries {new : List (Accepted ι ρ)} (haccepted : t.accepted = s.accepted ++ new)
    (hnew : ∀ a ∈ new, a.pid = pid ∧ a.after = max a.before a.readSeq)
    (hpids : (t.accepted.map Accepted.pid).Nodup)
    (hsettled : call.phase.settled = true ∨ ∀ a ∈ t.accepted, a.pid ≠ pid) : Inv t where
  calls := by
    intro other call' hcall'
    rw [hcalls] at hcall'
    rcases update_eq_some hcall' with ⟨rfl, hsame⟩ | ⟨hother, hold⟩
    · cases hsame
      exact hok
    · refine (h.calls other call' hold).mono (hheld _ _ hother) haccepted fun a ha => ?_
      rw [(hnew a ha).1]
      exact Ne.symm hother
  accepted := by
    intro a ha
    rw [hcalls]
    by_cases hpid : a.pid = pid
    · rcases hsettled with hsettled | hnone
      · exact ⟨call, hpid ▸ update_self .., hsettled⟩
      · exact absurd hpid (hnone a ha)
    · rw [update_of_ne hpid]
      rcases mem_append.mp (haccepted ▸ ha) with ha | ha
      · exact h.accepted a ha
      · exact absurd (hnew a ha).1 hpid
  maxima := by
    rw [haccepted]
    exact forall_mem_append.mpr ⟨h.maxima, fun a ha => (hnew a ha).2⟩
  pids := hpids

theorem Inv.of_call (haccepted : t.accepted = s.accepted)
    (hsettled : call.phase.settled = true ∨ ∀ a ∈ s.accepted, a.pid ≠ pid) : Inv t :=
  h.of_entries hcalls hok hheld (haccepted.trans (append_nil _).symm) nofun (haccepted ▸ h.pids)
    (haccepted.symm ▸ hsettled)

theorem Inv.of_accept {a : Accepted ι ρ} (haccepted : t.accepted = s.accepted ++ [a])
    (hpid : a.pid = pid) (hmax : a.after = max a.before a.readSeq) (hsettled : call.phase.settled = true)
    (hnone : ∀ a ∈ s.accepted, a.pid ≠ pid) : Inv t := by
  refine h.of_entries hcalls hok hheld haccepted (forall_mem_singleton.mpr ⟨hpid, hmax⟩) ?_
    (.inl hsettled)
  rw [haccepted, map_append]
  refine h.pids.snoc fun hmem => ?_
  obtain ⟨b, hb, heq⟩ := List.mem_map.mp hmem
  exact hnone b hb (heq.trans hpid)

end

theorem Inv.set (h : Inv s) (hok : CallOk (s.set pid call) pid call)
    (hsettled : call.phase.settled = true ∨ ∀ a ∈ s.accepted, a.pid ≠ pid) :
    Inv (s.set pid call) ∧ Effect s (s.set pid call) :=
  ⟨h.of_call rfl hok (fun _ _ _ hheld => ⟨hheld, rfl⟩) rfl hsettled, .none (fun _ => rfl) rfl⟩

variable [DecidableEq ι] [DecidableEq ρ]

theorem update_holders {holders : ι × ρ → Option ℕ} {who who' : ι × ρ} {pid other : ℕ}
    {holder : Option ℕ} (hwho : holders who = some pid ∨ holders who = none) (hne : other ≠ pid)
    (h : holders who' = some other) : who' ≠ who ∧ update holders who holder who' = some other := by
  have hdiff : who' ≠ who := by
    rintro rfl
    rcases hwho with hwho | hwho
    · exact hne (some.inj (h.symm.trans hwho))
    · cases h.symm.trans hwho
  exact ⟨hdiff, (update_of_ne hdiff _ _).trans h⟩

theorem readSeq_settle_self (s : State ι ρ) (pid : ℕ) (call : Call ι ρ) (touched : Bool)
    (htouched : touched = true ↔ s.readSeq call.who < call.readSeq) :
    (s.settle pid call touched).readSeq call.who = max (s.readSeq call.who) call.readSeq := by
  cases touched with
  | true =>
    have hlt := htouched.mp rfl
    rw [Nat.max_eq_right (Nat.le_of_lt hlt)]
    have hrow : update s.rows call.who (some call.readSeq) call.who = some call.readSeq :=
      update_self ..
    exact congrArg (Option.getD · 0) hrow
  | false =>
    have hle : call.readSeq ≤ s.readSeq call.who :=
      Nat.le_of_not_lt fun hlt => Bool.false_ne_true (htouched.mpr hlt)
    rw [Nat.max_eq_left hle]
    rfl

theorem readSeq_settle_ne (s : State ι ρ) (pid : ℕ) (call : Call ι ρ) (touched : Bool) {who : ι × ρ}
    (hne : who ≠ call.who) : (s.settle pid call touched).readSeq who = s.readSeq who := by
  cases touched with
  | true => exact congrArg (Option.getD · 0) (update_of_ne hne _ _)
  | false => rfl

end

/-! ### Steps -/

variable [DecidableEq ι] [DecidableEq ρ]

section
variable {s t : State ι ρ} {pid : ℕ}

section
variable (h : Inv s)
include h

theorem Inv.call {who : ι × ρ} {watermark : Int}
    (ht : step s (.call pid who watermark) = some t) : Inv t ∧ Effect s t := by
  obtain ⟨hcall, ht⟩ := ite_none_right_eq_some.mp ht
  have hnone := h.pid_ne_of_none hcall
  by_cases hpos : 1 ≤ watermark
  · rw [if_pos hpos] at ht
    cases ht
    exact h.set trivial (.inr hnone)
  · rw [if_neg hpos] at ht
    cases ht
    exact h.set (.inl ⟨rfl, hnone⟩) (.inr hnone)

theorem Inv.headSeq (ht : step s (.headSeq pid) = some t) : Inv t ∧ Effect s t := by
  obtain ⟨call, hcall, ht⟩ := bind_eq_some_iff.mp ht
  obtain ⟨hphase, ht⟩ := ite_none_right_eq_some.mp ht
  have hnone := h.pid_ne hcall (by rw [hphase]; rfl)
  generalize hseen : ({call with head := s.heads call.who.1} : Call ι ρ) = seen at ht
  by_cases hzero : seen.readSeq = 0
  · simp only [hzero, if_true] at ht
    cases ht
    have hmax : s.readSeq seen.who = max (s.readSeq seen.who) seen.readSeq := by
      rw [hzero, Nat.max_zero]
    refine ⟨h.of_accept (a := ⟨pid, seen, s.readSeq seen.who, s.readSeq seen.who⟩) rfl ?_
      (fun _ _ _ hheld => ⟨hheld, rfl⟩) rfl rfl hmax rfl hnone, ?_⟩
    · refine .inr ⟨_, mem_append_right _ mem_cons_self, ⟨rfl, rfl, rfl, rfl⟩, rfl, ?_⟩
      intro hpos
      exact absurd hzero (Nat.ne_of_gt hpos)
    · exact .accept _ rfl rfl rfl hmax fun _ _ => rfl
  · simp only [hzero, if_false] at ht
    cases ht
    exact h.set (Nat.pos_of_ne_zero hzero) (.inr hnone)

theorem Inv.insertAll (ht : step s (.insertAll pid) = some t) : Inv t ∧ Effect s t := by
  obtain ⟨call, hcall, ht⟩ := bind_eq_some_iff.mp ht
  obtain ⟨⟨hphase, hfree⟩, rfl⟩ := ite_some_none_eq_some.mp ht
  have hnone := h.pid_ne hcall (by rw [hphase]; rfl)
  have hpos : 0 < call.readSeq := by
    have hok := h.calls pid call hcall
    rw [CallOk, hphase] at hok
    exact hok
  refine ⟨h.of_call rfl ⟨update_self .., touches_iff s hpos⟩ ?_ rfl (.inr hnone),
    .none (fun _ => rfl) rfl⟩
  intro who other hne hheld
  exact ⟨(update_holders (.inr hfree) hne hheld).2, rfl⟩

theorem Inv.commit (ht : step s (.commit pid) = some t) : Inv t ∧ Effect s t := by
  obtain ⟨call, hcall, ht⟩ := bind_eq_some_iff.mp ht
  split at ht
  · next touched hphase =>
    cases ht
    obtain ⟨hholder, htouched⟩ := h.upserted hcall hphase
    have hnone := h.pid_ne hcall (by rw [hphase]; rfl)
    have hmax := readSeq_settle_self s pid call touched htouched
    refine ⟨h.of_accept (a := ⟨pid, call, _, _⟩) rfl ?_ ?_ rfl rfl hmax rfl hnone, ?_⟩
    · refine ⟨_, mem_append_right _ mem_cons_self, ⟨rfl, rfl, rfl, rfl⟩, ?_⟩
      change touched = true ↔ s.readSeq call.who < (s.settle pid call touched).readSeq call.who
      rw [htouched, hmax]
      omega
    · intro who other hne hheld
      have hkept : _ ∧ update s.holders call.who none who = some other :=
        update_holders (.inl hholder) hne hheld
      exact ⟨hkept.2, readSeq_settle_ne s pid call touched hkept.1⟩
    · exact .accept _ rfl rfl rfl hmax fun who hne => readSeq_settle_ne s pid call touched hne
  · cases ht

theorem Inv.rollback (ht : step s (.rollback pid) = some t) : Inv t ∧ Effect s t := by
  obtain ⟨call, hcall, ht⟩ := bind_eq_some_iff.mp ht
  split at ht
  · next touched hphase =>
    cases ht
    obtain ⟨hholder, -⟩ := h.upserted hcall hphase
    refine ⟨h.of_call rfl trivial ?_ rfl (.inl rfl), .none (fun _ => rfl) rfl⟩
    intro who other hne hheld
    exact ⟨(update_holders (.inl hholder) hne hheld).2, rfl⟩
  · cases ht

theorem Inv.answer (hstored : Stored s) (ht : step s (.answer pid) = some t) : Inv t ∧ Effect s t := by
  obtain ⟨call, hcall, ht⟩ := bind_eq_some_iff.mp ht
  have hok := h.calls pid call hcall
  split at ht
  · next hphase =>
    cases ht
    rw [CallOk, hphase] at hok
    obtain ⟨a, ha, hof, htouched⟩ := hok
    have hafter : call.readSeq = a.after := by
      have hentry := h.maxima a ha
      have hlt := htouched.mp rfl
      obtain ⟨-, -, hwatermark, hhead⟩ := hof
      have hread : a.readSeq = call.readSeq := by
        rw [Accepted.readSeq, Call.readSeq, hwatermark, hhead, Call.readSeq]
      omega
    exact h.set (.inr ⟨a, ha, hof, htouched.mp rfl, hafter⟩) (.inl rfl)
  · next hphase =>
    cases ht
    rw [CallOk, hphase] at hok
    obtain ⟨a, ha, hof, htouched⟩ := hok
    have hsame : a.before = a.after := by
      have hentry := h.maxima a ha
      have hnot : ¬a.before < a.after := fun hlt => Bool.false_ne_true (htouched.mpr hlt)
      omega
    have hle : a.after ≤ s.readSeq call.who := hof.2.1 ▸ hstored a ha
    exact h.set (.inr ⟨a, ha, hof, hsame, fun _ => hle⟩) (.inl rfl)
  · cases ht

theorem Inv.crash (ht : step s (.crash pid) = some t) : Inv t ∧ Effect s t := by
  obtain ⟨call, hcall, ht⟩ := bind_eq_some_iff.mp ht
  cases hphase : call.phase with
  | called | capped | committed =>
    simp only [hphase] at ht
    cases ht
    exact h.set trivial (.inl rfl)
  | upserted | returned | failed =>
    simp only [hphase] at ht
    cases ht

theorem Inv.step (hstored : Stored s) {e : Event ι ρ}
    (ht : Receipts.step s e = some t) : Inv t ∧ Effect s t := by
  cases e with
  | head =>
    cases ht
    exact ⟨{h with}, .none (fun _ => rfl) rfl⟩
  | call => exact h.call ht
  | headSeq => exact h.headSeq ht
  | insertAll => exact h.insertAll ht
  | commit => exact h.commit ht
  | rollback => exact h.rollback ht
  | answer => exact h.answer hstored ht
  | crash => exact h.crash ht

end

end

/-! ### Runs -/

section
variable {s t : State ι ρ} {es : List (Event ι ρ)}

theorem reachable_inv {heads : ι → ℕ} (h : run step {heads} es = some s) :
    Inv s ∧ Stored s ∧ ∀ who, s.readSeq who = s.greatest who := by
  have hstep : ∀ {s : State ι ρ} {e t},
      (Inv s ∧ Stored s ∧ ∀ who, s.readSeq who = s.greatest who) → step s e = some t →
      Inv t ∧ Stored t ∧ ∀ who, t.readSeq who = t.greatest who := by
    intro s e t hs ht
    obtain ⟨hinv, hstored, hmax⟩ := hs
    obtain ⟨hinv, heffect⟩ := hinv.step hstored ht
    exact ⟨hinv, heffect.stored hstored, heffect.greatest hmax⟩
  exact run_invariant hstep ⟨inv_init heads, nofun, fun _ => rfl⟩ h

theorem readSeq_le_of_run (hinv : Inv s) (hstored : Stored s) (h : run step s es = some t)
    (who : ι × ρ) : s.readSeq who ≤ t.readSeq who := by
  induction es generalizing s with
  | nil =>
    cases h
    exact Nat.le_refl _
  | cons e es ih =>
    obtain ⟨m, hm, h⟩ := run_cons_eq_some.mp h
    obtain ⟨hinv, heffect⟩ := hinv.step hstored hm
    exact Nat.le_trans (heffect.le who) (ih hinv (heffect.stored hstored) h)

/-- In every run the stored position is the greatest of the capped watermarks, it never goes back,
and a call that returns has said whether it moved it. -/
theorem read_position_is_maximum {heads : ι → ℕ} (h : run step {heads} es = some s) :
    (∀ who, s.readSeq who = s.greatest who) ∧
    (∀ fs t, run step s fs = some t → ∀ who, s.readSeq who ≤ t.readSeq who) ∧
    (∀ e t, step s e = some t → Effect s t) ∧
    (s.accepted.map Accepted.pid).Nodup ∧
    (∀ pid call result, s.calls pid = some call → call.phase = .returned result →
      result = .invalidWatermark ∧ (∀ a ∈ s.accepted, a.pid ≠ pid) ∨
      ∃ a ∈ s.accepted, a.Of pid call ∧ result.Reports a) := by
  obtain ⟨hinv, hstored, hmax⟩ := reachable_inv h
  refine ⟨hmax, fun fs t hfs => readSeq_le_of_run hinv hstored hfs,
    fun e t ht => (hinv.step hstored ht).2, hinv.pids, fun pid call result hcall hphase => ?_⟩
  have hok := hinv.calls pid call hcall
  rw [CallOk, hphase] at hok
  exact hok

end

/-- Two calls with watermarks 9 and 4 in a conversation at 7; the second waits for the row. -/
def overlapping : List (Event ℕ ℕ) :=
  [.call 0 (3, 1) 9, .call 1 (3, 1) 4, .headSeq 1, .headSeq 0, .insertAll 0, .commit 0,
    .insertAll 1, .commit 1, .answer 1, .answer 0]

theorem read_position_is_maximum_overlapping : ∃ s,
    run step {heads := fun _ => 7} overlapping = some s ∧ s.readSeq (3, 1) = 7 ∧
    s.greatest (3, 1) = 7 ∧
    (s.calls 0).map Call.phase = some (.returned (.advanced 7)) ∧
    (s.calls 1).map Call.phase = some (.returned (.unchanged 7)) := by
  obtain ⟨s, hs, hread, hfirst, hsecond⟩ : ∃ s, run step {heads := fun _ => 7} overlapping = some s ∧
      s.readSeq (3, 1) = 7 ∧ (s.calls 0).map Call.phase = some (.returned (.advanced 7)) ∧
        (s.calls 1).map Call.phase = some (.returned (.unchanged 7)) := by decide +kernel
  exact ⟨s, hs, hread, ((read_position_is_maximum hs).1 (3, 1)).symm.trans hread, hfirst, hsecond⟩

end Converger.Receipts
