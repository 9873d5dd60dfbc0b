import Converger.Activity
import Converger.GuardedRuns

/-!
# Resolving the conversation of a participant

`Participants.resolve_conversation/2`, for the calls of one participant of a channel. The upsert of
the participant takes its row until the end of the transaction, so at most one call is past its upsert
and the others wait. In the transaction every statement and every look at the clock is a step;
activities are stored in between. The tables hold what is committed.
-/
namespace Converger.ParticipantConversations
open GuardedRuns List Option

structure Channel where
  id : Uuid
  idleTimeoutSeconds : Option ℕ := none

inductive Phase where
  | select
  | lastActivity (conversation : Conversation)
  | compare (conversation : Conversation) (last : ℕ)
  | insert
  | commit (conversation : Conversation) (created : Bool)
  deriving DecidableEq

/-- The transaction of the call at a position, with the participant it has upserted. -/
structure Transaction where
  call : ℕ
  participantId : Uuid
  phase : Phase
  deriving DecidableEq

inductive Call where
  | waiting
  | resolving
  | returned (result : Option Conversation)
  deriving DecidableEq

structure State where
  now : ℕ := 0
  participantId : Option Uuid := none
  conversations : List Conversation := []
  activities : List Activity := []
  transaction : Option Transaction := none
  calls : List Call := []

def Open (ch : Channel) (participantId : Uuid) (cv : Conversation) : Prop :=
  cv.participantId = some participantId ∧ cv.channelId = ch.id ∧ cv.status = .active

instance (ch : Channel) (participantId : Uuid) (cv : Conversation) :
    Decidable (Open ch participantId cv) :=
  inferInstanceAs (Decidable (_ ∧ _ ∧ _))

def Latest (ch : Channel) (participantId : Uuid) (conversations : List Conversation)
    (cv : Conversation) : Prop :=
  cv ∈ conversations ∧ Open ch participantId cv ∧
    ∀ other ∈ conversations, Open ch participantId other → other.insertedAt ≤ cv.insertedAt

instance (ch : Channel) (participantId : Uuid) (conversations : List Conversation)
    (cv : Conversation) : Decidable (Latest ch participantId conversations cv) :=
  inferInstanceAs (Decidable (_ ∧ _ ∧ _))

/-- What the query of `open_conversation/2` may return: of conversations that started at the same
time, any. -/
def Picks (ch : Channel) (participantId : Uuid) (conversations : List Conversation) :
    Option Conversation → Prop
  | some cv => Latest ch participantId conversations cv
  | none => ∀ cv ∈ conversations, ¬ Open ch participantId cv

instance (ch : Channel) (participantId : Uuid) (conversations : List Conversation) :
    ∀ pick, Decidable (Picks ch participantId conversations pick)
  | some cv => inferInstanceAs (Decidable (Latest ch participantId conversations cv))
  | none => inferInstanceAs (Decidable (∀ cv ∈ conversations, _))

def lastActivityAt (activities : List Activity) (cv : Conversation) : ℕ :=
  ((activities.filter (·.conversationId = cv.id)).map Activity.insertedAt).max?.getD cv.insertedAt

def idle (ch : Channel) (now last : ℕ) : Bool :=
  ch.idleTimeoutSeconds.any fun timeout => timeout < now / 1000000 - last / 1000000

def afterSelect (ch : Channel) : Option Conversation → Phase
  | none => .insert
  | some cv => if ch.idleTimeoutSeconds.isSome then .lastActivity cv else .commit cv false

def State.goto (s : State) (tx : Transaction) (phase : Phase) : State :=
  {s with transaction := some {tx with phase}}

def State.finish (s : State) (tx : Transaction) (result : Option Conversation) : State :=
  {s with transaction := none, calls := s.calls.set tx.call (.returned result)}

inductive Event where
  | tick (micros : ℕ)
  | start
  /-- The upsert of the call at position `i`; `id` is the id of a new participant. -/
  | upsert (i : ℕ) (id : Uuid)
  | select (pick : Option Conversation)
  | lastActivity
  | compare
  | insert (id : Uuid)
  | commit
  | rollback
  | activity (a : Activity)
  deriving DecidableEq

def step (ch : Channel) (s : State) : Event → Option State
  | .tick micros => some {s with now := s.now + micros}
  | .start => some {s with calls := s.calls ++ [.waiting]}
  | .upsert i id =>
    if s.transaction = none ∧ s.calls[i]? = some .waiting ∧
        (s.participantId = none → ∀ cv ∈ s.conversations, cv.participantId ≠ some id) then
      some {s with
        transaction := some ⟨i, s.participantId.getD id, .select⟩
        calls := s.calls.set i .resolving}
    else none
  | .select pick => do
    let tx ← s.transaction
    if tx.phase = .select ∧ Picks ch tx.participantId s.conversations pick then
      return s.goto tx (afterSelect ch pick)
    else none
  | .lastActivity => do
    let tx ← s.transaction
    match tx.phase with
    | .lastActivity cv => return s.goto tx (.compare cv (lastActivityAt s.activities cv))
    | _ => none
  | .compare => do
    let tx ← s.transaction
    match tx.phase with
    | .compare cv last => return s.goto tx (if idle ch s.now last then .insert else .commit cv false)
    | _ => none
  | .insert id => do
    let tx ← s.transaction
    if tx.phase = .insert ∧ (∀ cv ∈ s.conversations, cv.id ≠ id) ∧
        ∀ a ∈ s.activities, a.conversationId ≠ id then
      let cv : Conversation :=
        {id, channelId := ch.id, participantId := some tx.participantId, insertedAt := s.now}
      return s.goto tx (.commit cv true)
    else none
  | .commit => do
    let tx ← s.transaction
    match tx.phase with
    | .commit cv created =>
      return {s.finish tx (some cv) with
        participantId := some tx.participantId
        conversations := s.conversations ++ if created then [cv] else []}
    | _ => none
  | .rollback => do
    let tx ← s.transaction
    return s.finish tx none
  | .activity a =>
    if a.insertedAt ≤ s.now ∧ (∃ cv ∈ s.conversations, cv.id = a.conversationId) ∧
        ∀ cv ∈ s.conversations, cv.id = a.conversationId → cv.insertedAt ≤ a.insertedAt then
      some {s with activities := s.activities ++ [a]}
    else none

def Orderly (ch : Channel) (s : State) : Event → Prop
  | .compare => ∀ tx ∈ s.transaction,
      match tx.phase with
      | .compare cv last => .returned (some cv) ∈ s.calls → idle ch s.now last = false
      | _ => True
  | _ => True

instance decidableOrderly (ch : Channel) (s : State) : ∀ e, Decidable (Orderly ch s e)
  | .compare =>
    have : ∀ tx : Transaction, Decidable (match tx.phase with
        | .compare cv last => .returned (some cv) ∈ s.calls → idle ch s.now last = false
        | _ => True) := by
      rintro ⟨_, _, _ | _ | _ | _ | _⟩ <;> infer_instance
    inferInstanceAs (Decidable (∀ tx ∈ s.transaction, _))
  | .tick _ | .start | .upsert .. | .select _ | .lastActivity | .insert _ | .commit | .rollback
  | .activity _ => .isTrue trivial

def Within (ch : Channel) (start : ℕ) (s : State) : Prop :=
  ∀ timeout ∈ ch.idleTimeoutSeconds, s.now ≤ start + timeout * 1000000

/-- The participant of a transaction is the stored one, or new and without conversations. -/
def Upserted (s : State) (participantId : Uuid) : Prop :=
  s.participantId = some participantId ∨
    s.participantId = none ∧ ∀ cv ∈ s.conversations, cv.participantId ≠ some participantId

def NoneReturned (s : State) : Prop := ∀ cv, .returned (some cv) ∉ s.calls

/-- What the transaction knows. Where it is about to start a conversation, nobody else has one. -/
def Phase.Known (ch : Channel) (start : ℕ) (s : State) (created : Option Conversation)
    (participantId : Uuid) : Phase → Prop
  | .select => True
  | .lastActivity cv => Latest ch participantId s.conversations cv
  | .compare cv last => Latest ch participantId s.conversations cv ∧ cv.insertedAt ≤ last
  | .insert => created = none ∧ NoneReturned s ∧
      ∀ other ∈ s.conversations, Open ch participantId other → other.insertedAt < s.now
  | .commit cv false => Latest ch participantId s.conversations cv
  | .commit cv true => created = none ∧ NoneReturned s ∧ Open ch participantId cv ∧
      start ≤ cv.insertedAt ∧ cv.insertedAt ≤ s.now ∧
      (∀ other ∈ s.conversations, other.id ≠ cv.id) ∧
      (∀ a ∈ s.activities, a.conversationId ≠ cv.id) ∧
      ∀ other ∈ s.conversations, Open ch participantId other → other.insertedAt < cv.insertedAt

/-- A run from `s₀` has committed at most one conversation, which then is the latest one, and every
call has returned the latest one. -/
structure Shared (ch : Channel) (s₀ s : State) (created : Option Conversation) : Prop where
  now : s₀.now ≤ s.now
  conversations : s.conversations = s₀.conversations ++ created.toList
  past : ∀ cv ∈ s.conversations, cv.insertedAt ≤ s.now
  activities : ∀ a ∈ s.activities, ∀ cv ∈ s.conversations, cv.id = a.conversationId →
    cv.insertedAt ≤ a.insertedAt
  participant : created = none → s.participantId = s₀.participantId
  new : ∀ cv ∈ created, s₀.now ≤ cv.insertedAt ∧ ∃ p, s.participantId = some p ∧ Open ch p cv ∧
    ∀ other ∈ s₀.conversations, Open ch p other → other.insertedAt < cv.insertedAt
  returned : ∀ cv, .returned (some cv) ∈ s.calls →
    ∃ p, s.participantId = some p ∧ Latest ch p s.conversations cv
  transaction : ∀ tx ∈ s.transaction, Upserted s tx.participantId ∧
    tx.phase.Known ch s₀.now s created tx.participantId

/-- The tables before the calls: conversations started in the past, activities are not older than
their conversation, and the participant has at most one latest conversation. -/
structure State.Initial (ch : Channel) (s : State) : Prop where
  transaction : s.transaction = none
  calls : s.calls = []
  past : ∀ cv ∈ s.conversations, cv.insertedAt ≤ s.now
  activities : ∀ a ∈ s.activities, ∀ cv ∈ s.conversations, cv.id = a.conversationId →
    cv.insertedAt ≤ a.insertedAt
  latest : ∀ p cv cv', s.participantId = some p → Latest ch p s.conversations cv →
    Latest ch p s.conversations cv' → cv = cv'

variable {tx : Transaction} {phase : Phase} {start : ℕ} {e : Event}

section Resolution
variable {ch : Channel} {s₀ s t : State} {created : Option Conversation} {cv cv' : Conversation}
  {p : Uuid}

theorem lastActivityAt_ge (hactivities : ∀ a ∈ s.activities, cv.id = a.conversationId →
    cv.insertedAt ≤ a.insertedAt) : cv.insertedAt ≤ lastActivityAt s.activities cv := by
  unfold lastActivityAt
  cases hmax : ((s.activities.filter (·.conversationId = cv.id)).map Activity.insertedAt).max? with
  | none => exact Nat.le_refl _
  | some last =>
    obtain ⟨a, ha, rfl⟩ := List.mem_map.mp (max?_mem hmax)
    obtain ⟨hmem, hid⟩ := mem_filter.mp ha
    exact hactivities a hmem (of_decide_eq_true hid).symm

theorem Shared.latest_eq_created (h : Shared ch s₀ s (some cv)) (hp : s.participantId = some p)
    (hlatest : Latest ch p s.conversations cv') : cv' = cv := by
  obtain ⟨hmem, hopen, hmax⟩ := hlatest
  obtain ⟨-, q, hq, hopen', hlater⟩ := h.new cv rfl
  cases hp.symm.trans hq
  rw [h.conversations] at hmem hmax
  obtain hold | hnew := mem_append.mp hmem
  · have := hlater cv' hold hopen
    have := hmax cv (by simp) hopen'
    omega
  · simpa using hnew

theorem Shared.latest_unique (h : Shared ch s₀ s created) (hinitial : s₀.Initial ch)
    (hp : s.participantId = some p) (hlatest : Latest ch p s.conversations cv)
    (hlatest' : Latest ch p s.conversations cv') : cv = cv' := by
  cases created with
  | some new => rw [h.latest_eq_created hp hlatest, h.latest_eq_created hp hlatest']
  | none =>
    have hconversations := h.conversations
    rw [toList_none, append_nil] at hconversations
    rw [hconversations] at hlatest hlatest'
    exact hinitial.latest p cv cv' ((h.participant rfl).symm.trans hp) hlatest hlatest'

theorem Upserted.stored (h : Upserted s p) (hlatest : Latest ch p s.conversations cv) :
    s.participantId = some p := by
  obtain hstored | ⟨-, hnew⟩ := h
  · exact hstored
  · exact absurd hlatest.2.1.1 (hnew cv hlatest.1)

/-- What a transaction knows outlives steps that commit nothing of this participant. -/
theorem Phase.Known.mono (h : phase.Known ch start s created p)
    (hconversations : t.conversations = s.conversations) (hnow : s.now ≤ t.now)
    (hcalls : ∀ cv, .returned (some cv) ∈ t.calls → .returned (some cv) ∈ s.calls)
    (hactivities : ∀ a ∈ t.activities, a ∈ s.activities ∨ ∃ cv ∈ s.conversations, cv.id = a.conversationId) :
    phase.Known ch start t created p := by
  have hnone : NoneReturned s → NoneReturned t := fun hs cv hcv => hs cv (hcalls cv hcv)
  cases phase with
  | select => trivial
  | lastActivity cv | compare cv last => simpa only [Known, hconversations] using h
  | insert =>
    obtain ⟨hcreated, hs, hearlier⟩ := h
    refine ⟨hcreated, hnone hs, fun other hother hopen => ?_⟩
    exact Nat.lt_of_lt_of_le (hearlier other (hconversations ▸ hother) hopen) hnow
  | commit cv fresh =>
    cases fresh with
    | false => simpa only [Known, hconversations] using h
    | true =>
      obtain ⟨hcreated, hs, hopen, hstart, hpast, hids, hfree, hearlier⟩ := h
      refine ⟨hcreated, hnone hs, hopen, hstart, Nat.le_trans hpast hnow, hconversations ▸ hids, ?_,
        hconversations ▸ hearlier⟩
      intro a ha heq
      obtain hold | ⟨other, hother, hid⟩ := hactivities a ha
      · exact hfree a hold heq
      · exact hids other hother (hid.trans heq)

namespace Shared

section
variable (h : Shared ch s₀ s created)
include h

section
variable (hnow : s.now ≤ t.now) (hparticipant : t.participantId = s.participantId)
  (hconversations : t.conversations = s.conversations)
include hnow hparticipant hconversations

theorem of_eq
    (hactivities : ∀ a ∈ t.activities, ∀ cv ∈ s.conversations, cv.id = a.conversationId →
      cv.insertedAt ≤ a.insertedAt)
    (hreturned : ∀ cv, .returned (some cv) ∈ t.calls → .returned (some cv) ∈ s.calls)
    (htransaction : ∀ tx ∈ t.transaction, Upserted t tx.participantId ∧
      tx.phase.Known ch s₀.now t created tx.participantId) : Shared ch s₀ t created where
  now := Nat.le_trans h.now hnow
  conversations := hconversations.trans h.conversations
  past cv hcv := Nat.le_trans (h.past cv (hconversations ▸ hcv)) hnow
  activities := by rw [hconversations]; exact hactivities
  participant hnone := hparticipant.trans (h.participant hnone)
  new := by rw [hparticipant]; exact h.new
  returned cv hcv := by
    rw [hparticipant, hconversations]
    exact h.returned cv (hreturned cv hcv)
  transaction := htransaction

theorem outside
    (hactivities : ∀ a ∈ t.activities, a ∈ s.activities ∨ (∃ cv ∈ s.conversations, cv.id = a.conversationId) ∧
        ∀ cv ∈ s.conversations, cv.id = a.conversationId → cv.insertedAt ≤ a.insertedAt)
    (hreturned : ∀ cv, .returned (some cv) ∈ t.calls → .returned (some cv) ∈ s.calls)
    (htransaction : t.transaction = s.transaction) : Shared ch s₀ t created := by
  refine h.of_eq hnow hparticipant hconversations ?_ hreturned ?_
  · intro a ha
    obtain hold | ⟨-, hnew⟩ := hactivities a ha
    · exact h.activities a hold
    · exact hnew
  · intro tx htx
    obtain ⟨hupserted, hknown⟩ := h.transaction tx (htransaction ▸ htx)
    refine ⟨?_, hknown.mono hconversations hnow hreturned fun a ha => (hactivities a ha).imp_right And.left⟩
    simpa only [Upserted, hparticipant, hconversations] using hupserted

end

theorem goto
    (htx : s.transaction = some tx) (hknown : phase.Known ch s₀.now s created tx.participantId) :
    Shared ch s₀ (s.goto tx phase) created := by
  refine h.of_eq (Nat.le_refl _) rfl rfl h.activities (fun _ => id) ?_
  intro tx' htx'
  cases htx'
  exact ⟨(h.transaction tx htx).1, hknown.mono rfl (Nat.le_refl _) (fun _ => id) fun _ => .inl⟩

/-- A call has its participant: the stored one, or a new one without conversations. -/
theorem upsert {i : ℕ} {id : Uuid}
    (hnew : s.participantId = none → ∀ cv ∈ s.conversations, cv.participantId ≠ some id) :
    Shared ch s₀ {s with
      transaction := some ⟨i, s.participantId.getD id, .select⟩
      calls := s.calls.set i .resolving} created := by
  refine h.of_eq (Nat.le_refl _) rfl rfl h.activities (fun cv hcv => ?_) ?_
  · exact (mem_or_eq_of_mem_set hcv).resolve_right Call.noConfusion
  · intro tx htx
    cases htx
    refine ⟨?_, trivial⟩
    cases hp : s.participantId with
    | some p => exact .inl rfl
    | none => exact .inr ⟨rfl, hnew hp⟩

theorem rollback : Shared ch s₀ (s.finish tx none) created := by
  refine h.of_eq (Nat.le_refl _) rfl rfl h.activities (fun cv hcv => ?_) (by simp [State.finish])
  exact (mem_or_eq_of_mem_set hcv).resolve_right (by simp)

theorem reuse (hp : s.participantId = some tx.participantId)
    (hlatest : Latest ch tx.participantId s.conversations cv) :
    Shared ch s₀ {s.finish tx (some cv) with
      participantId := some tx.participantId
      conversations := s.conversations ++ []} created where
  now := h.now
  conversations := (append_nil _).trans h.conversations
  past := by rw [append_nil]; exact h.past
  activities := by rw [append_nil]; exact h.activities
  participant hnone := hp.symm.trans (h.participant hnone)
  new := by rw [← hp]; exact h.new
  returned cv' hcv' := by
    rw [append_nil]
    obtain hold | hnew := mem_or_eq_of_mem_set hcv'
    · rw [← hp]
      exact h.returned cv' hold
    · cases hnew
      exact ⟨_, rfl, hlatest⟩
  transaction := by simp [State.finish]

theorem create (hknown : (Phase.commit cv true).Known ch s₀.now s created tx.participantId) :
    Shared ch s₀ {s.finish tx (some cv) with
      participantId := some tx.participantId
      conversations := s.conversations ++ [cv]} (some cv) := by
  obtain ⟨rfl, hnone, hopen, hstart, hpast, -, hfree, hearlier⟩ := hknown
  have hconversations := h.conversations
  rw [toList_none, append_nil] at hconversations
  refine ⟨h.now, by simp [hconversations], ?_, ?_, by simp, ?_, ?_, by simp [State.finish]⟩
  · exact forall_mem_snoc h.past hpast
  · intro a ha other hother hid
    obtain hold | rfl := mem_snoc.mp hother
    · exact h.activities a ha other hold hid
    · exact absurd hid.symm (hfree a ha)
  · rintro _ ⟨⟩
    exact ⟨hstart, _, rfl, hopen, hconversations ▸ hearlier⟩
  · intro cv' hcv'
    obtain hold | hnew := mem_or_eq_of_mem_set hcv'
    · exact absurd hold (hnone cv')
    · cases hnew
      refine ⟨_, rfl, by simp, hopen, fun other hother hopen' => ?_⟩
      obtain hold | rfl := mem_snoc.mp hother
      · exact Nat.le_of_lt (hearlier other hold hopen')
      · exact Nat.le_refl _

theorem select {pick : Option Conversation}
    (htx : s.transaction = some tx) (hpick : Picks ch tx.participantId s.conversations pick) :
    (afterSelect ch pick).Known ch s₀.now s created tx.participantId := by
  cases pick with
  | some cv =>
    simp only [afterSelect]
    split <;> exact hpick
  | none =>
    have hstored : ∀ q, s.participantId = some q → q = tx.participantId := by
      intro q hq
      obtain hp | ⟨hp, -⟩ := (h.transaction tx htx).1
      · exact some.inj (hq.symm.trans hp)
      · cases hq.symm.trans hp
    refine ⟨?_, ?_, fun other hother hopen => absurd hopen (hpick other hother)⟩
    · cases created with
      | none => rfl
      | some new =>
        obtain ⟨-, q, hq, hopen, -⟩ := h.new new rfl
        have hmem : new ∈ s.conversations := by simp [h.conversations]
        exact absurd (hstored q hq ▸ hopen) (hpick new hmem)
    · intro cv hcv
      obtain ⟨q, hq, hlatest⟩ := h.returned cv hcv
      exact hpick cv hlatest.1 (hstored q hq ▸ hlatest.2.1)

/-- A conversation that somebody has returned, or that was created by one of the calls, is not idle. -/
theorem compare {last : ℕ} (hinitial : s₀.Initial ch)
    (hwithin : Within ch s₀.now s) (he : Orderly ch s .compare) (htx : s.transaction = some tx)
    (hphase : tx.phase = .compare cv last) :
    (if idle ch s.now last then Phase.insert else .commit cv false).Known ch s₀.now s created
      tx.participantId := by
  obtain ⟨hupserted, hknown⟩ := h.transaction tx htx
  rw [hphase] at hknown
  obtain ⟨hlatest, hlast⟩ := hknown
  have hp := hupserted.stored hlatest
  split
  · next hidle =>
    obtain ⟨timeout, htimeout, hlong⟩ := (Option.any_eq_true _ _).mp hidle
    have hlong := of_decide_eq_true hlong
    refine ⟨?_, ?_, fun other hother hopen => ?_⟩
    · cases created with
      | none => rfl
      | some new =>
        -- it started after the calls began, less than the timeout ago
        have hstart := (h.new new rfl).1
        rw [← h.latest_eq_created hp hlatest] at hstart
        have := hwithin timeout htimeout
        omega
    · intro cv' hcv'
      obtain ⟨q, hq, hlatest'⟩ := h.returned cv' hcv'
      cases hp.symm.trans hq
      cases h.latest_unique hinitial hp hlatest hlatest'
      have hfresh := he tx htx
      rw [hphase] at hfresh
      rw [hfresh hcv'] at hidle
      cases hidle
    · have := hlatest.2.2 other hother hopen
      omega
  · exact hlatest

theorem step (hinitial : s₀.Initial ch) (hwithin : Within ch s₀.now s) (he : Orderly ch s e)
    (hstep : step ch s e = some t) : ∃ created, Shared ch s₀ t created := by
  cases e with
  | tick micros =>
    cases hstep
    exact ⟨created, h.outside (Nat.le_add_right _ _) rfl rfl (fun _ => .inl) (fun _ => id) rfl⟩
  | start =>
    cases hstep
    exact ⟨created, h.outside (Nat.le_refl _) rfl rfl (fun _ => .inl) (by simp) rfl⟩
  | upsert i id =>
    obtain ⟨⟨-, -, hnew⟩, rfl⟩ := ite_some_none_eq_some.mp hstep
    exact ⟨created, h.upsert hnew⟩
  | select pick =>
    obtain ⟨tx, htx, hstep⟩ := bind_eq_some_iff.mp hstep
    obtain ⟨⟨hphase, hpick⟩, rfl⟩ := ite_some_none_eq_some.mp hstep
    exact ⟨created, h.goto htx (h.select htx hpick)⟩
  | lastActivity =>
    obtain ⟨tx, htx, hstep⟩ := bind_eq_some_iff.mp hstep
    split at hstep
    · next cv hphase =>
      cases hstep
      have hknown := (h.transaction tx htx).2
      rw [hphase] at hknown
      refine ⟨created, h.goto htx ⟨hknown, lastActivityAt_ge fun a ha => ?_⟩⟩
      exact h.activities a ha cv hknown.1
    · cases hstep
  | compare =>
    obtain ⟨tx, htx, hstep⟩ := bind_eq_some_iff.mp hstep
    split at hstep
    · next cv last hphase =>
      cases hstep
      exact ⟨created, h.goto htx (h.compare hinitial hwithin he htx hphase)⟩
    · cases hstep
  | insert id =>
    obtain ⟨tx, htx, hstep⟩ := bind_eq_some_iff.mp hstep
    obtain ⟨⟨hphase, hids, hfree⟩, rfl⟩ := ite_some_none_eq_some.mp hstep
    have hknown := (h.transaction tx htx).2
    rw [hphase] at hknown
    obtain ⟨hcreated, hnone, hearlier⟩ := hknown
    exact ⟨created, h.goto htx ⟨hcreated, hnone, ⟨rfl, rfl, rfl⟩, h.now, Nat.le_refl _, hids, hfree,
      hearlier⟩⟩
  | commit =>
    obtain ⟨tx, htx, hstep⟩ := bind_eq_some_iff.mp hstep
    split at hstep
    · next cv fresh hphase =>
      cases hstep
      obtain ⟨hupserted, hknown⟩ := h.transaction tx htx
      rw [hphase] at hknown
      cases fresh with
      | false => exact ⟨created, h.reuse (hupserted.stored hknown) hknown⟩
      | true => exact ⟨some cv, h.create hknown⟩
    · cases hstep
  | rollback =>
    obtain ⟨tx, htx, hstep⟩ := bind_eq_some_iff.mp hstep
    cases hstep
    exact ⟨created, h.rollback⟩
  | activity a =>
    obtain ⟨⟨-, hexists, hlater⟩, rfl⟩ := ite_some_none_eq_some.mp hstep
    refine ⟨created, h.outside (Nat.le_refl _) rfl rfl (fun b hb => ?_) (fun _ => id) rfl⟩
    obtain hold | rfl := mem_snoc.mp hb
    · exact .inl hold
    · exact .inr ⟨hexists, hlater⟩

end

end Shared

theorem now_le (hstep : step ch s e = some t) : s.now ≤ t.now := by
  cases e with
  | tick micros =>
    cases hstep
    exact Nat.le_add_right _ _
  | start =>
    cases hstep
    exact Nat.le_refl _
  | upsert i id | activity a =>
    obtain ⟨-, rfl⟩ := ite_some_none_eq_some.mp hstep
    exact Nat.le_refl _
  | rollback =>
    obtain ⟨tx, -, hstep⟩ := bind_eq_some_iff.mp hstep
    cases hstep
    exact Nat.le_refl _
  | _ =>
    obtain ⟨tx, -, hstep⟩ := bind_eq_some_iff.mp hstep
    split at hstep <;> cases hstep
    exact Nat.le_refl _

/-- The clock does not go back, so a run that ends within the timeout is within it at every step. -/
theorem along_within {events : List Event} (hrun : run (step ch) s events = some t)
    (hwithin : Within ch start t) : Along (step ch) (fun m _ => Within ch start m) s events := by
  have hback : ∀ m e m', True → True → step ch m e = some m' →
      True ∧ (Within ch start m' → Within ch start m ∧ Within ch start m) := by
    intro m e m' _ _ hstep
    refine ⟨trivial, fun hgood => ?_⟩
    have hearlier : Within ch start m :=
      fun timeout htimeout => Nat.le_trans (now_le hstep) (hgood timeout htimeout)
    exact ⟨hearlier, hearlier⟩
  exact (along_of_run hback trivial (fun _ _ => trivial) hrun hwithin).2

end Resolution

/-- All calls that return a conversation return the same one, at most one is created, and it is active
and of the participant and the channel. -/
theorem one_conversation_per_participant (ch : Channel) (s₀ t : State) (events : List Event)
    (hinitial : s₀.Initial ch) (hrun : run (step ch) s₀ events = some t)
    (horderly : Along (step ch) (Orderly ch) s₀ events)
    (hwithin : ∀ timeout ∈ ch.idleTimeoutSeconds, t.now ≤ s₀.now + timeout * 1000000) :
    (∃ created : Option Conversation, t.conversations = s₀.conversations ++ created.toList) ∧
      (∀ cv cv', .returned (some cv) ∈ t.calls → .returned (some cv') ∈ t.calls → cv = cv') ∧
      ∀ cv, .returned (some cv) ∈ t.calls → cv ∈ t.conversations ∧ cv.status = .active ∧
        cv.channelId = ch.id ∧ ∃ p, t.participantId = some p ∧ cv.participantId = some p := by
  have hstart : Shared ch s₀ s₀ none :=
    ⟨Nat.le_refl _, by simp, hinitial.past, hinitial.activities, fun _ => rfl, by simp,
      by simp [hinitial.calls], by simp [hinitial.transaction]⟩
  have hclock := along_within hrun hwithin
  have hkeeps : ∀ {m e m'}, (∃ created, Shared ch s₀ m created) →
      Orderly ch m e ∧ Within ch s₀.now m → step ch m e = some m' →
      ∃ created, Shared ch s₀ m' created := by
    rintro m e m' ⟨created, h⟩ ⟨he, hin⟩ hstep
    exact h.step hinitial hin he hstep
  obtain ⟨created, hshared⟩ := run_invariant_along hkeeps ⟨none, hstart⟩ (horderly.and hclock) hrun
  refine ⟨⟨created, hshared.conversations⟩, fun cv cv' hcv hcv' => ?_, fun cv hcv => ?_⟩
  · obtain ⟨p, hp, hlatest⟩ := hshared.returned cv hcv
    obtain ⟨q, hq, hlatest'⟩ := hshared.returned cv' hcv'
    cases hp.symm.trans hq
    exact hshared.latest_unique hinitial hp hlatest hlatest'
  · obtain ⟨p, hp, hmem, ⟨hparticipant, hchannel, hactive⟩, -⟩ := hshared.returned cv hcv
    exact ⟨hmem, hactive, hchannel, p, hp, hparticipant⟩

def halfMinute : Channel := {id := 1, idleTimeoutSeconds := some 30}

def conversation (id insertedAt : ℕ) : Conversation :=
  {id, channelId := 1, participantId := some 5, insertedAt}

/-- Two calls of a new participant; the second one waits for the first, which starts a conversation. -/
def newcomer : List Event :=
  [.start, .start, .upsert 0 5, .select none, .insert 10, .commit, .tick 2000000, .upsert 1 6,
    .select (some (conversation 10 100000000)), .lastActivity, .compare, .commit]

theorem one_conversation_per_participant_newcomer :
    ∃ t, run (step halfMinute) {now := 100000000} newcomer = some t ∧
      t.calls.length = 2 ∧ t.calls.all (· matches .returned (some _)) ∧
      ∀ cv cv', .returned (some cv) ∈ t.calls → .returned (some cv') ∈ t.calls → cv = cv' := by
  obtain ⟨t, ht, hlength, hreturned, hnow⟩ : ∃ t, run (step halfMinute) {now := 100000000} newcomer = some t ∧
      t.calls.length = 2 ∧ t.calls.all (· matches .returned (some _)) ∧ t.now = 102000000 := by decide +kernel
  have hinitial : State.Initial halfMinute {now := 100000000} :=
    ⟨rfl, rfl, by simp, by simp, by simp [Latest]⟩
  refine ⟨t, ht, hlength, hreturned, ?_⟩
  have hwithin : ∀ timeout ∈ halfMinute.idleTimeoutSeconds, t.now ≤ 100000000 + timeout * 1000000 := by
    rw [hnow]
    decide
  exact (one_conversation_per_participant halfMinute _ t newcomer hinitial ht (by decide +kernel)
    hwithin).2.1

/-- The conversation was started 29 s before the first call, which reuses it. Two seconds later, before
a message is stored in it, the second call finds it idle and starts another one. -/
theorem idle_between_calls :
    (run (step halfMinute)
      {now := 100000000, participantId := some 5, conversations := [conversation 9 71000000]}
      [.start, .start, .upsert 0 6, .select (some (conversation 9 71000000)), .lastActivity, .compare,
        .commit, .tick 2000000, .upsert 1 6, .select (some (conversation 9 71000000)), .lastActivity,
        .compare, .insert 10, .commit]).any (fun t =>
          t.now ≤ 100000000 + 30 * 1000000 ∧ t.calls =
            [.returned (some (conversation 9 71000000)),
              .returned (some (conversation 10 102000000))]) = true := by
  decide +kernel

end Converger.ParticipantConversations
