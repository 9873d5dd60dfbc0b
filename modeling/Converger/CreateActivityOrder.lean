import Converger.CreateActivity
import Converger.GapFree
import Converger.GuardedRuns

/-!
# Numbers of committed activities

Whoever holds the row lock of a conversation holds its next number, so the committed
activities of a conversation are numbered without gaps, whatever the calls do in between.
-/
namespace Converger.CreateActivity
open ActivityChangeset Function GuardedRuns Option

def Phase.claim : Phase → Option (Uuid × ℕ)
  | .existingUnderLock ch n | .checkReference ch n | .insert ch n _ => some (ch.conversationId, n)
  | .stampTarget a _ | .enqueue a _ | .commit a _ => some (a.conversationId, a.seq)
  | _ => none

variable {c : Uuid} {p phase : Phase} {q : ℕ}

theorem Phase.lock_of_claim {n : ℕ} (h : p.claim = some (c, n)) : p.lock = some c := by
  cases p <;> simp_all [claim, lock]

/-- An action fits a phase: only the number just read from a free row is new, and the end
of a transaction keeps nothing. -/
def Action.Fits (s : State) (phase : Phase) : Action → Prop
  | .goto p => p.lock = phase.lock ∧ (p.claim = none ∨ p.claim = phase.claim)
  | .acquire c p => phase.lock = none ∧ s.locks c = none ∧ p.lock = some c ∧
      ∃ cv, s.conversations c = some cv ∧ p.claim = some (c, cv.lastSeq + 1)
  | .leave p => p.lock = none ∧ p.claim = none
  | .commit cv a _ => phase.claim = some (a.conversationId, a.seq) ∧
      s.conversations a.conversationId = some cv

@[simp] theorem Stamp.apply_id (st : Stamp) (a : Activity) : (st.apply a).id = a.id := by
  unfold apply
  split_ifs <;> rfl

@[simp] theorem Stamp.apply_seq (st : Stamp) (a : Activity) : (st.apply a).seq = a.seq := by
  unfold apply
  split_ifs <;> rfl

@[simp] theorem Stamp.apply_conversationId (st : Stamp) (a : Activity) :
    (st.apply a).conversationId = a.conversationId := by
  unfold apply
  split_ifs <;> rfl

@[simp] theorem Stamp.apply_idempotencyKey (st : Stamp) (a : Activity) :
    (st.apply a).idempotencyKey = a.idempotencyKey := by
  unfold apply
  split_ifs <;> rfl

section Steps
variable {cfg : Config} {s t : State} {pid : ℕ} {call : Call} {out : Outcome} {act : Action}

theorem getBy_eq_some {rows : List Activity} {a : Activity} (h : getBy rows = .ok (some a)) :
    rows = [a] := by
  unfold getBy at h
  split at h <;> simp_all

theorem getBy_eq_none {rows : List Activity} (h : getBy rows = .ok none) : rows = [] := by
  unfold getBy at h
  split at h <;> simp_all

variable (cfg s call) in
/-- Everything a statement of a call can do. -/
inductive Next : Phase → Action → Prop where
  | raised {p : Phase} (hp : ∀ a stamp, p ≠ .commit a stamp) : Next p (.leave (.done .raised))
  | found {p : Phase} {a} (hp : ∀ a stamp, p ≠ .commit a stamp)
      (hrows : existingRows s.activities call.attrs = [a]) : Next p (.leave (.done (.ok a)))
  | notFound : Next .fetchExisting (.goto .nextSeq)
  | notRecovered (errors) : Next (.recover errors) (.goto (.done (.invalid errors)))
  | invalid (errors) : Next .nextSeq (.goto (.rollback none (.invalid errors)))
  | notAllocated {ch} (hch : changeset cfg.maxTextBytes call.attrs call.opts.internal = .ok ch) :
      Next .nextSeq (.goto (.conversationExists ch))
  | allocated {ch cv} (hch : changeset cfg.maxTextBytes call.attrs call.opts.internal = .ok ch)
      (hcv : s.conversations ch.conversationId = some cv)
      (hopen : call.opts.allowClosed ∨ cv.status = .active) (hfree : s.locks ch.conversationId = none) :
      Next .nextSeq (.acquire ch.conversationId (.existingUnderLock ch (cv.lastSeq + 1)))
  | closed (ch) : Next (.conversationExists ch) (.goto (.rollback none .conversationClosed))
  | missing (ch errors) : Next (.conversationExists ch) (.goto (.rollback none (.invalid errors)))
  | duplicate {ch a} (n)
      (hrows : ch.idempotencyKey.toList.flatMap (withKey s.activities ch.conversationId) = [a]) :
      Next (.existingUnderLock ch n) (.goto (.rollback (some ch.conversationId) (.duplicate a)))
  | unused {ch} (n)
      (hrows : ch.idempotencyKey.toList.flatMap (withKey s.activities ch.conversationId) = []) :
      Next (.existingUnderLock ch n) (.goto (.checkReference ch n))
  | plain {ch} (n) (hnone : ch.replyToId = none) :
      Next (.checkReference ch n) (.goto (.insert ch n none))
  | referenced {ch r target} (n) (hr : ch.replyToId = some r)
      (hget : getBy (s.activities.filter fun a => a.id = r ∧ a.conversationId = ch.conversationId) = .ok target)
      (herror : referenceError ch.type ch.sender target = none) :
      Next (.checkReference ch n) (.goto (.insert ch n target))
  | unreferenced (ch n errors) :
      Next (.checkReference ch n) (.goto (.rollback (some ch.conversationId) (.invalid errors)))
  | rejected (ch n target errors) :
      Next (.insert ch n target) (.goto (.rollback (some ch.conversationId) (.invalid errors)))
  | inserted (ch n id now target) :
      Next (.insert ch n target) (.goto (.stampTarget (toActivity ch n id now) target))
  | stamped (a target) : Next (.stampTarget a target) (.goto (.enqueue a (stampOf a target)))
  | enqueued (a stamp) : Next (.enqueue a stamp) (.goto (.commit a stamp))
  | notEnqueued (a stamp) :
      Next (.enqueue a stamp) (.goto (.rollback (some a.conversationId) .deliveryEnqueueFailed))
  | committed {a cv} (stamp) (hcv : s.conversations a.conversationId = some cv) :
      Next (.commit a stamp) (.commit cv a stamp)
  | returned (a) : Next (.afterCommit a) (.goto (.done (.ok a)))
  | answered (locked a) : Next (.rollback locked (.duplicate a)) (.leave (.done (.ok a)))
  | recovers (locked errors) : Next (.rollback locked (.invalid errors)) (.leave (.recover errors))
  | refused (locked errors) :
      Next (.rollback locked (.invalid errors)) (.leave (.done (.invalid errors)))
  | refusedClosed (locked) :
      Next (.rollback locked .conversationClosed) (.leave (.done .conversationClosed))
  | failed (locked) :
      Next (.rollback locked .deliveryEnqueueFailed) (.leave (.done .deliveryEnqueueFailed))

theorem next_of_fetchExisting {otherwise : Phase} (hp : ∀ a stamp, p ≠ .commit a stamp)
    (h : Next cfg s call p (.goto otherwise)) :
    Next cfg s call p (fetchExisting s call.attrs otherwise) := by
  unfold fetchExisting
  split
  · exact .raised hp
  · exact .found hp (getBy_eq_some ‹_›)
  · exact h

theorem next_of_nextSeq (h : nextSeq cfg s call = some act) : Next cfg s call .nextSeq act := by
  unfold nextSeq at h
  split at h
  · cases h
    exact .invalid _
  · split at h
    · cases h
      exact .notAllocated ‹_›
    · split_ifs at h with hopen hfree
      · cases h
        exact .allocated ‹_› ‹_› hopen hfree
      · cases h
        exact .notAllocated ‹_›

theorem next_cases (h : next cfg s call out = some act) : Next cfg s call call.phase act := by
  unfold next at h
  cases hp : call.phase <;> simp only [hp, some.injEq, reduceCtorEq] at h
  case fetchExisting => exact h ▸ next_of_fetchExisting (by simp) .notFound
  case nextSeq => exact next_of_nextSeq h
  case conversationExists ch =>
    split_ifs at h
    · cases h
      exact .closed ch
    · cases h
      exact .missing ch _
  case existingUnderLock ch n =>
    subst h
    unfold existingUnderLock
    split
    · exact .raised (by simp)
    · exact .duplicate n (getBy_eq_some ‹_›)
    · exact .unused n (getBy_eq_none ‹_›)
  case checkReference ch n =>
    subst h
    unfold checkReference
    split
    · exact .plain n ‹_›
    · split
      · exact .raised (by simp)
      · split
        · exact .referenced n ‹_› ‹_› ‹_›
        · exact .unreferenced ch n _
  case insert ch n target =>
    subst h
    unfold insert
    split
    · exact .rejected ch n target _
    · split_ifs
      · exact .rejected ch n target _
      · exact .inserted ch n _ _ target
  case stampTarget a target => exact h ▸ .stamped a target
  case enqueue a stamp =>
    split_ifs at h
    · cases h
      exact .enqueued a stamp
    · cases h
      exact .notEnqueued a stamp
  case commit a stamp =>
    obtain ⟨cv, hcv, rfl⟩ := map_eq_some_iff.mp h
    exact .committed stamp hcv
  case afterCommit a => exact h ▸ .returned a
  case rollback locked reason =>
    subst h
    cases reason with
    | duplicate a => exact .answered locked a
    | conversationClosed => exact .refusedClosed locked
    | deliveryEnqueueFailed => exact .failed locked
    | invalid errors =>
      simp only [afterRollback]
      split_ifs
      · exact .recovers locked errors
      · exact .refused locked errors
  case recover errors => exact h ▸ next_of_fetchExisting (by simp) (.notRecovered errors)

theorem next_fits (h : next cfg s call out = some act) : act.Fits s call.phase := by
  have hnext := next_cases h
  generalize call.phase = p at hnext
  cases hnext with
  | allocated hch hcv hopen hfree => exact ⟨rfl, hfree, rfl, _, hcv, rfl⟩
  | committed stamp hcv => exact ⟨rfl, hcv⟩
  | unused | plain | referenced | inserted | stamped | enqueued => exact ⟨rfl, .inr rfl⟩
  | raised | found | answered | recovers | refused | refusedClosed | failed => exact ⟨rfl, rfl⟩
  | _ => exact ⟨rfl, .inl rfl⟩

/-- Everything a step can do: a statement or a crash of a call, a new call, a changed
status, a deleted activity, or nothing. -/
inductive Moves (cfg : Config) (s : State) : State → Prop where
  | act {pid : ℕ} {call : Call} {act : Action} (hcall : s.calls pid = some call)
      (hfits : act.Fits s call.phase)
      (hnext : (∃ out, next cfg s call out = some act) ∨ act = .leave (.done .raised)) :
      Moves cfg s (perform s pid call act)
  | start {pid : ℕ} (attrs : Attrs) (opts : Opts) (hpid : s.calls pid = none) :
      Moves cfg s {s with calls := update s.calls pid (some {attrs, opts})}
  | transition {c : Uuid} {cv : Conversation} (status : ConversationStatus)
      (hcv : s.conversations c = some cv) :
      Moves cfg s { s with conversations := update s.conversations c
                            (some {cv with status := status})}
  | delete (id : Uuid) :
      Moves cfg s { s with activities := s.activities.filter fun a => a.id ≠ id,
                           deleted := s.deleted ++ [id]}
  | idle : Moves cfg s s

theorem step_moves {e : Event} (h : step cfg s e = some t) : Moves cfg s t := by
  revert h
  fun_cases step cfg s e with
  | case1 pid attrs opts hnone =>
    rintro ⟨⟩
    exact .start attrs opts hnone
  | case3 pid out =>
    intro h
    obtain ⟨call, hcall, h⟩ := bind_eq_some_iff.mp h
    obtain ⟨act, hact, rfl⟩ := map_eq_some_iff.mp h
    exact .act hcall (next_fits hact) (.inl ⟨out, hact⟩)
  | case4 pid =>
    intro h
    obtain ⟨call, hcall, h⟩ := bind_eq_some_iff.mp h
    split at h <;> cases h
    exact .act hcall ⟨rfl, rfl⟩ (.inr rfl)
  | case5 | case6 =>
    rintro ⟨⟩
    exact .idle
  | case7 c status =>
    rintro ⟨⟩
    exact .transition status ‹_›
  | case9 id =>
    rintro ⟨⟩
    exact .delete id
  | case2 | case8 => nofun

/-- What a call in a phase may rely on: its lock is its own, and the number it has taken
is the next one of the conversation. -/
structure Holds (s : State) (pid : ℕ) (p : Phase) : Prop where
  lock : ∀ c, p.lock = some c → s.locks c = some pid
  claim : ∀ c n, p.claim = some (c, n) → ∃ cv, s.conversations c = some cv ∧ n = cv.lastSeq + 1

/-- Row locks are exclusive, and a taken number is the next one of its conversation. -/
def Serialised (s : State) : Prop :=
  ∀ pid call, s.calls pid = some call → Holds s pid call.phase

theorem Serialised.setPhase (hp : Holds s pid p)
    (hs : ∀ q, q ≠ pid → ∀ call', s.calls q = some call' → Holds s q call'.phase) :
    Serialised (s.setPhase pid call p) := by
  refine forall_calls_update.mpr ⟨⟨hp.lock, hp.claim⟩, fun q hqp call' hq => ?_⟩
  have h := hs q hqp call' hq
  exact ⟨h.lock, h.claim⟩

theorem Serialised.lock_ne (hs : Serialised s) {call' : Call}
    (hcall : s.calls pid = some call) (hq : s.calls q = some call') (hqp : q ≠ pid)
    (hc : call.phase.lock = some c) : call'.phase.lock ≠ some c := by
  intro hc'
  have h₁ := (hs pid call hcall).lock c hc
  have h₂ := (hs q call' hq).lock c hc'
  rw [h₁] at h₂
  exact hqp (some.inj h₂).symm

theorem Holds.of_locks_update {o : Option ℕ} (h : Holds s q p) (hc : p.lock ≠ some c) :
    Holds {s with locks := update s.locks c o} q p := by
  refine ⟨fun d hd => ?_, h.claim⟩
  have hdc : d ≠ c := fun he => hc (he ▸ hd)
  simpa only [update_of_ne hdc] using h.lock d hd

theorem Holds.of_conversation_update {o : Option Conversation} (h : Holds s q p)
    (hc : p.lock ≠ some c) : Holds {s with conversations := update s.conversations c o} q p := by
  refine ⟨h.lock, fun d n hd => ?_⟩
  have hdc : d ≠ c := fun he => hc (he ▸ Phase.lock_of_claim hd)
  simpa only [update_of_ne hdc] using h.claim d n hd

theorem Serialised.perform (hs : Serialised s) (hcall : s.calls pid = some call)
    (hfits : act.Fits s call.phase) : Serialised (perform s pid call act) := by
  have hme := hs pid call hcall
  cases act with
  | goto p =>
    refine Serialised.setPhase ⟨fun c hc => hme.lock c (hfits.1 ▸ hc), fun c n hc => ?_⟩
      fun q _ call' hq => hs q call' hq
    rcases hfits.2 with hnone | hsame
    · simp [hnone] at hc
    · exact hme.claim c n (hsame ▸ hc)
  | acquire c p =>
    obtain ⟨-, hfree, hlock, cv, hcv, hclaim⟩ := hfits
    refine Serialised.setPhase ⟨fun d hd => ?_, fun d n hd => ?_⟩ fun q hqp call' hq => ?_
    · rw [hlock] at hd
      cases hd
      exact update_self ..
    · rw [hclaim] at hd
      cases hd
      exact ⟨cv, hcv, rfl⟩
    · refine (hs q call' hq).of_locks_update fun hc => ?_
      simp [(hs q call' hq).lock c hc] at hfree
  | leave p =>
    refine Serialised.setPhase ⟨by simp [hfits.1], by simp [hfits.2]⟩ fun q hqp call' hq => ?_
    cases hl : call.phase.lock with
    | none =>
      simp only [hl, State.unlock] at hq ⊢
      exact hs q call' hq
    | some c =>
      simp only [hl, State.unlock] at hq ⊢
      exact (hs q call' hq).of_locks_update (hs.lock_ne hcall hq hqp hl)
  | commit cv a stamp =>
    refine Serialised.setPhase ⟨by simp [Phase.lock], by simp [Phase.claim]⟩ fun q hqp call' hq => ?_
    have hne := hs.lock_ne hcall hq hqp (Phase.lock_of_claim hfits.1)
    have h := ((hs q call' hq).of_locks_update (o := none) hne).of_conversation_update
      (o := some {cv with lastSeq := a.seq}) hne
    exact ⟨h.lock, h.claim⟩

theorem Serialised.moves (hs : Serialised s) (hm : Moves cfg s t) : Serialised t := by
  cases hm with
  | act hcall hfits _ => exact hs.perform hcall hfits
  | @start pid attrs opts hpid =>
    refine forall_calls_update.mpr ⟨⟨by simp [Phase.lock], by simp [Phase.claim]⟩, ?_⟩
    exact fun q _ call' hq => ⟨(hs q call' hq).lock, (hs q call' hq).claim⟩
  | @transition c cv status hcv =>
    intro q call' hq
    have h := hs q call' hq
    refine ⟨h.lock, fun d n hd => ?_⟩
    obtain ⟨dv, hdv, hn⟩ := h.claim d n hd
    by_cases hdc : d = c
    · subst hdc
      rw [hcv] at hdv
      cases hdv
      exact ⟨_, update_self .., hn⟩
    · exact ⟨dv, by simpa only [update_of_ne hdc] using hdv, hn⟩
  | delete id => exact fun q call' hq => ⟨(hs q call' hq).lock, (hs q call' hq).claim⟩
  | idle => exact hs

def State.committed (s : State) (c : Uuid) : List Activity :=
  s.log.filter fun a => a.conversationId = c

/-- The committed activities of `c` are numbered without a gap up to its counter. -/
def Numbered (c : Uuid) (start : ℕ) (s : State) : Prop :=
  ∃ cv, s.conversations c = some cv ∧ GapFree Activity.seq start (s.committed c) cv.lastSeq

theorem Numbered.moves {start : ℕ} (hs : Serialised s) (hn : Numbered c start s)
    (hm : Moves cfg s t) : Numbered c start t := by
  obtain ⟨cv, hcv, hgap⟩ := hn
  cases hm with
  | @act pid call act hcall hfits _ =>
    cases act with
    | goto p | acquire d p => exact ⟨cv, hcv, hgap⟩
    | leave p =>
      exact ⟨cv, by simpa [perform] using hcv, by simpa [perform, State.committed] using hgap⟩
    | commit dv a stamp =>
      obtain ⟨hclaim, hdv⟩ := hfits
      by_cases hac : a.conversationId = c
      · subst hac
        obtain ⟨cv', hcv', hseq⟩ := (hs pid call hcall).claim _ _ hclaim
        rw [hcv] at hcv'
        cases hcv'
        refine ⟨_, update_self .., ?_⟩
        have hcommitted : (perform s pid call (.commit dv a stamp)).committed a.conversationId =
            s.committed a.conversationId ++ [a] := by
          simp [perform, State.commit, State.committed]
        rw [hcommitted, hseq]
        exact hgap.concat hseq
      · have hcommitted : (perform s pid call (.commit dv a stamp)).committed c =
            s.committed c := by
          simp [perform, State.commit, State.committed, hac]
        refine ⟨cv, ?_, hcommitted ▸ hgap⟩
        simpa [perform, State.commit, update_of_ne (Ne.symm hac)] using hcv
  | start attrs opts hpid | delete id | idle => exact ⟨cv, hcv, hgap⟩
  | @transition d dv status hdv =>
    by_cases hdc : c = d
    · subst hdc
      rw [hcv] at hdv
      cases hdv
      exact ⟨_, update_self .., hgap⟩
    · exact ⟨cv, by simpa only [update_of_ne hdc] using hcv, hgap⟩

structure State.Initial (s : State) : Prop where
  calls : ∀ pid, s.calls pid = none
  locks : ∀ c, s.locks c = none
  log : s.log = []

theorem State.Initial.serialised (hs : s.Initial) : Serialised s := by
  intro pid call hcall
  simp [hs.calls pid] at hcall

/-- Every committed activity is stored, with its number, until it is deleted. -/
def Retained (s : State) : Prop :=
  ∀ a ∈ s.log, a.id ∈ s.deleted ∨
    ∃ b ∈ s.activities, b.id = a.id ∧ b.conversationId = a.conversationId ∧ b.seq = a.seq

theorem exists_mem_applyStamp (stamp : Option Stamp) {rows : List Activity} {x : Activity}
    (h : x ∈ rows) : ∃ b ∈ applyStamp stamp rows,
      b.id = x.id ∧ b.conversationId = x.conversationId ∧ b.seq = x.seq ∧
        b.idempotencyKey = x.idempotencyKey := by
  cases stamp with
  | none => exact ⟨x, h, rfl, rfl, rfl, rfl⟩
  | some st => exact ⟨st.apply x, List.mem_map_of_mem h, by simp⟩

theorem Retained.moves (hs : Retained s) (hm : Moves cfg s t) : Retained t := by
  cases hm with
  | @act pid call act hcall hfits hnext =>
    cases act with
    | goto | acquire => exact hs
    | leave p => simpa [Retained, perform] using hs
    | commit cv a stamp =>
      intro x hx
      rcases List.mem_append.mp hx with hx | hx
      · refine (hs x hx).imp_right ?_
        rintro ⟨b, hb, hid, hconv, hseq⟩
        obtain ⟨b', hb', hid', hconv', hseq', -⟩ := exists_mem_applyStamp stamp hb
        exact ⟨b', List.mem_append_left _ hb', hid'.trans hid, hconv'.trans hconv,
          hseq'.trans hseq⟩
      · rw [List.mem_singleton.mp hx]
        exact .inr ⟨a, List.mem_append_right _ (List.mem_singleton_self a), rfl, rfl, rfl⟩
  | start | transition | idle => exact hs
  | delete id =>
    intro x hx
    rcases hs x hx with hdeleted | ⟨b, hb, hid, hsame⟩
    · exact .inl (List.mem_append_left _ hdeleted)
    · by_cases hbid : b.id = id
      · exact .inl (List.mem_append_right _ (by simp [← hid, hbid]))
      · exact .inr ⟨b, List.mem_filter.mpr ⟨hb, by simpa using hbid⟩, hid, hsame⟩

end Steps

/-- In every run the committed activities of a conversation carry, in commit order, the
numbers right after the counter it started with, up to the counter it has now, and each is
stored until it is deleted. -/
theorem committed_seqs_gap_free (cfg : Config) {s t : State} (hs : s.Initial) {c : Uuid}
    {cv : Conversation} (hcv : s.conversations c = some cv) {es : List Event}
    (h : run (step cfg) s es = some t) :
    ∃ cv', t.conversations c = some cv' ∧
      (t.committed c).map Activity.seq =
        List.range' (cv.lastSeq + 1) (cv'.lastSeq - cv.lastSeq) ∧
      (t.committed c).Pairwise (fun a b => a.seq < b.seq) ∧
      cv'.lastSeq = cv.lastSeq + (t.committed c).length ∧
      (∀ a, (t.committed c).getLast? = some a → a.seq = cv'.lastSeq) ∧
      ∀ a ∈ t.committed c, a.id ∈ t.deleted ∨ ∃ b ∈ t.activities,
        b.id = a.id ∧ b.conversationId = c ∧ b.seq = a.seq := by
  have hstart : Serialised s ∧ Numbered c cv.lastSeq s ∧ Retained s := by
    refine ⟨hs.serialised, ⟨cv, hcv, ?_⟩, by simp [Retained, hs.log]⟩
    rw [State.committed, hs.log]
    exact GapFree.nil _ _
  have hstep : ∀ {u e v}, Serialised u ∧ Numbered c cv.lastSeq u ∧ Retained u →
      step cfg u e = some v → Serialised v ∧ Numbered c cv.lastSeq v ∧ Retained v := by
    intro u e v hu hv
    have hmoves := step_moves hv
    exact ⟨hu.1.moves hmoves, hu.2.1.moves hu.1 hmoves, hu.2.2.moves hmoves⟩
  obtain ⟨-, ⟨cv', hcv', hgap⟩, hretained⟩ := run_invariant hstep hstart h
  refine ⟨cv', hcv', hgap.map_seq_eq, hgap.increasing, hgap.head_eq,
    fun a ha => hgap.getLast_eq ha, fun a ha => ?_⟩
  obtain ⟨hlog, hc⟩ := List.mem_filter.mp ha
  obtain rfl : a.conversationId = c := of_decide_eq_true hc
  exact hretained a hlog

def newConversation : State where
  conversations := fun c => if c = 7 then some {id := 7} else none
  activities := []

theorem newConversation_initial : newConversation.Initial := ⟨fun _ => rfl, fun _ => rfl, rfl⟩

def monthly : Config := {month := fun t => t / 100}

/-- Two calls; the one that took number 1 fails to enqueue its deliveries, and the other
one waited for the lock meanwhile. -/
def failingAndWaiting : List Event :=
  let attrs : Attrs := { tenantId := some 1, conversationId := some 7, sender := some "user" }
  ([.call 0 attrs {}, .call 1 attrs {}, .statement 1 {}] : List Event) ++
    (List.replicate 6 (.statement 0 {}) : List Event) ++
    ([.statement 0 {enqueued := false}, .statement 0 {}] : List Event) ++
    (List.replicate 8 (.statement 1 {id := 1, now := 100}) : List Event)

theorem committed_seqs_gap_free_failing :
    ∃ t cv, run (step monthly) newConversation failingAndWaiting = some t ∧
      t.conversations 7 = some cv ∧ cv.lastSeq = 1 ∧
      (t.committed 7).map Activity.seq = List.range' 1 (cv.lastSeq - 0) := by
  have hrun : (run (step monthly) newConversation failingAndWaiting).map
      (fun t => (t.conversations 7).map Conversation.lastSeq) = some (some 1) := by decide +kernel
  obtain ⟨t, ht, hlast⟩ := map_eq_some_iff.mp hrun
  obtain ⟨cv, hcv, hseqs, -⟩ := committed_seqs_gap_free monthly newConversation_initial (c := 7) rfl ht
  exact ⟨t, cv, ht, hcv, by simpa [hcv] using hlast, hseqs⟩

end Converger.CreateActivity
