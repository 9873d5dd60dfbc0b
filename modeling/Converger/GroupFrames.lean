import Converger.Feed
import Converger.GroupMembership

/-!
# Forwarded frames in an agent group

A frame only a bot can answer is broadcast to every member of a group, and each member decides at
the time it handles the broadcast whether it serves the conversation. A user turn is decided at
its own commit time; a forwarded frame carries no time, so members that handle it at different
times can name different owners.
-/
namespace Converger.GroupSessions
open Function GroupMembership ProtocolFeed

universe u
variable {Pid : Type u} {p o : Pid} {since : ℤ} {rank : Pid → ℕ}

/-! ## The sessions of a group -/

/-- What the members of a group share: the hash, the middleware of the routed channel, and which
conversations their token may follow. -/
structure Channel (Pid : Type u) where
  hash : Uuid → Pid → ℕ
  prepare : Uuid → Option Prepare := fun _ => none
  access : Uuid → Bool := fun _ => true

/-- The session of a member: its view of the group, and the feeds of the conversations it
follows. -/
structure Session (Pid : Type u) where
  membership : Membership Pid
  follows : Uuid → Option (Feed Unit) := fun _ => none

/-- The highest number given out in each conversation. -/
structure Transcripts where
  heads : Uuid → ℕ := fun _ => 0

namespace Session
variable (ch : Channel Pid) (tr : Transcripts) (self : Pid) (s : Session Pid)

def serves [DecidableEq Pid] (id : Uuid) (time : ℤ) : Bool :=
  Membership.serves ch.hash self (some s.membership) id time

def follow (id : Uuid) (feed : Feed Unit) : Session Pid :=
  { s with follows := update s.follows id (some feed) }

def newFeed (id : Uuid) : Feed Unit :=
  { conversationId := id, userId := (), prepare := ch.prepare id }

/-- A newly followed conversation starts at the head, or just before a live activity. -/
def ensureFollowed (id : Uuid) (liveSeq : Option ℕ) : Option (Session Pid × Feed Unit) :=
  match s.follows id with
  | some feed => some (s, feed)
  | none =>
    if ch.access id then
      let start := match liveSeq with
        | some (seq + 1) => seq
        | _ => tr.heads id
      let feed := seek (newFeed ch id) start
      some (s.follow id feed, feed)
    else none

end Session

/-- The members of a group see the same members that are eligible by `latest`, and one of them is
eligible by `earliest`. -/
structure Shared (procs : Set Pid) (views : Pid → Membership Pid) (earliest latest : ℤ)
    (members : Set (Pid × ℤ)) : Prop where
  eligible : ∃ member ∈ members, member.2 ≤ earliest
  mem_iff : ∀ p ∈ procs, ∀ member : Pid × ℤ, member.2 ≤ latest →
    (member ∈ (views p).members ↔ member ∈ members)
  mem_procs : ∀ member ∈ members, member.2 ≤ latest → member.1 ∈ procs

/-- The members that are eligible at `time`. -/
def eligibleAt (members : Set (Pid × ℤ)) (time : ℤ) : Set Pid :=
  {q | ∃ since ≤ time, (q, since) ∈ members}

section Times
variable {ch : Channel Pid} {tr : Transcripts} {procs : Set Pid} {sessions : Pid → Session Pid}
  {id : Uuid} {earliest latest : ℤ} {members : Set (Pid × ℤ)}

section Views
variable {views : Pid → Membership Pid} {time : ℤ}
  (h : Shared procs views earliest latest members)
include h

theorem Shared.eligible_eq (hlatest : time ≤ latest) (hp : p ∈ procs) :
    {q | q ∈ (views p).eligible time} = eligibleAt members time := by
  ext q
  simp only [Set.mem_ofPred_eq, Membership.mem_eligible, eligibleAt]
  refine exists_congr fun since => and_congr_right fun hsince => ?_
  exact h.mem_iff p hp (q, since) (hsince.trans hlatest)

theorem Shared.eligibleAt_subset (hlatest : time ≤ latest) : eligibleAt members time ⊆ procs := by
  rintro q ⟨since, hsince, hmem⟩
  exact h.mem_procs (q, since) hmem (hsince.trans hlatest)

theorem Shared.owner_isTop (hash : Uuid → Pid → ℕ) (id : Uuid) (hearliest : earliest ≤ time)
    (hlatest : time ≤ latest) (hp : p ∈ procs) :
    IsTop (hash id) (eligibleAt members time) ((views p).owner hash p id time) := by
  have heq := h.eligible_eq hlatest hp
  obtain ⟨⟨q, since⟩, hmem, hsince⟩ := h.eligible
  have hq : q ∈ eligibleAt members time := ⟨since, hsince.trans hearliest, hmem⟩
  rw [← heq] at hq ⊢
  exact GroupMembership.owner_isTop ⟨q, hq⟩

theorem Shared.exists_isTop (hash : Uuid → Pid → ℕ) (id : Uuid) (hearliest : earliest ≤ time)
    (hlatest : time ≤ latest) : ∃ o ∈ procs, IsTop (hash id) (eligibleAt members time) o := by
  obtain ⟨member, hmem, hsince⟩ := h.eligible
  have hp := h.mem_procs member hmem (hsince.trans (hearliest.trans hlatest))
  have htop := h.owner_isTop hash id hearliest hlatest hp
  exact ⟨_, h.eligibleAt_subset hlatest htop.1, htop⟩

theorem Shared.since_unique {since' : ℤ} (hmem : (p, since) ∈ members) (hmem' : (p, since') ∈ members)
    (hsince : since ≤ latest) (hsince' : since' ≤ latest) : since = since' := by
  have hp := h.mem_procs _ hmem hsince
  have hpair := List.inj_on_of_nodup_map (views p).nodup ((h.mem_iff p hp _ hsince).mpr hmem)
    ((h.mem_iff p hp _ hsince').mpr hmem') rfl
  exact (Prod.mk.inj hpair).2

theorem Shared.owner_ne {q o' : Pid} (hinj : Set.InjOn rank procs)
    (hle : earliest ≤ latest) (htop : IsTop rank (eligibleAt members earliest) o)
    (htop' : IsTop rank (eligibleAt members since) o') (hmem : (q, since) ∈ members)
    (hearliest : earliest < since) (hlatest : since ≤ latest)
    (hnone : ∀ r ∈ eligibleAt members earliest, rank r ≤ rank q) : o ≠ o' := by
  rintro rfl
  have hq : q ∈ eligibleAt members since := ⟨since, le_rfl, hmem⟩
  have hsame : q = o := hinj (h.eligibleAt_subset hlatest hq) (h.eligibleAt_subset hle htop.1)
    (Nat.le_antisymm (htop'.2 q hq) (hnone o htop.1))
  subst hsame
  obtain ⟨since', hsince', hmem'⟩ := htop.1
  have hsince := h.since_unique hmem hmem' hlatest (hsince'.trans hle)
  omega

omit h in
/-- Where every member that becomes eligible is below an earlier one, the owner stays. -/
theorem owner_stays (htop : IsTop rank (eligibleAt members earliest) o)
    (hlower : ∀ q since, (q, since) ∈ members → earliest < since → since ≤ latest →
      ∃ r ∈ eligibleAt members earliest, rank q < rank r)
    (hearliest : earliest ≤ time) (hlatest : time ≤ latest) :
    IsTop rank (eligibleAt members time) o := by
  refine ⟨?_, ?_⟩
  · obtain ⟨since, hsince, hmem⟩ := htop.1
    exact ⟨since, hsince.trans hearliest, hmem⟩
  · rintro q ⟨since, hsince, hmem⟩
    by_cases hold : since ≤ earliest
    · exact htop.2 q ⟨since, hold, hmem⟩
    · obtain ⟨r, hr, hlt⟩ := hlower q since hmem (not_le.mp hold) (hsince.trans hlatest)
      exact hlt.le.trans (htop.2 r hr)

end Views

variable [DecidableEq Pid]

/-- `handle_info/2` of a `bot_frame`: the session, and whether the agent is sent the frame. -/
def Session.handleBotFrame (ch : Channel Pid) (tr : Transcripts) (self : Pid) (s : Session Pid)
    (id : Uuid) (now : ℤ) : Session Pid × Bool :=
  if s.serves ch self id now then
    match s.ensureFollowed ch tr id none with
    | some (s, _) => (s, true)
    | none => (s, false)
  else (s, false)

/-- A member is sent the frame exactly if it is the eligible member of highest hash at the time it
handles it. -/
theorem handleBotFrame_iff
    (hshared : Shared procs (fun p => (sessions p).membership) earliest latest members)
    (hinj : Set.InjOn (ch.hash id) procs) (haccess : ch.access id = true)
    (hp : p ∈ procs) {time : ℤ} (hearliest : earliest ≤ time) (hlatest : time ≤ latest) :
    ((sessions p).handleBotFrame ch tr p id time).2 = true ↔
      IsTop (ch.hash id) (eligibleAt members time) p := by
  have htop := hshared.owner_isTop ch.hash id hearliest hlatest hp
  have hforwards : ((sessions p).handleBotFrame ch tr p id time).2 = true ↔
      (sessions p).membership.owner ch.hash p id time = p := by
    have hfollowed : ((sessions p).ensureFollowed ch tr id none).isSome = true := by
      unfold Session.ensureFollowed
      cases (sessions p).follows id with
      | none => simp [haccess]
      | some feed => rfl
    obtain ⟨followed, hfollowed⟩ := Option.isSome_iff_exists.mp hfollowed
    by_cases howner : (sessions p).membership.owner ch.hash p id time = p
    · simp [Session.handleBotFrame, Session.serves, Membership.serves, howner, hfollowed]
    · simp [Session.handleBotFrame, Session.serves, Membership.serves, howner]
  rw [hforwards]
  constructor
  · intro howner
    rwa [howner] at htop
  · exact fun hp => htop.unique (hinj.mono (hshared.eligibleAt_subset hlatest)) hp

/-- Whatever the times at which the members of a group handle a forwarded frame, between `earliest`
and `latest`, exactly one of them sends it to its agent: this holds exactly if every member that
becomes eligible after `earliest` has a lower hash than some member that was eligible before. -/
theorem bot_frame_forwarded_once_iff (ch : Channel Pid) (tr : Transcripts) (procs : Set Pid)
    (sessions : Pid → Session Pid) (id : Uuid) (earliest latest : ℤ) (members : Set (Pid × ℤ))
    (hle : earliest ≤ latest)
    (hshared : Shared procs (fun p => (sessions p).membership) earliest latest members)
    (hinj : Set.InjOn (ch.hash id) procs) (haccess : ch.access id = true) :
    (∀ times : Pid → ℤ, (∀ p ∈ procs, earliest ≤ times p ∧ times p ≤ latest) →
      ∃! p, p ∈ procs ∧ ((sessions p).handleBotFrame ch tr p id (times p)).2 = true) ↔
    ∀ q since, (q, since) ∈ members → earliest < since → since ≤ latest →
      ∃ r ∈ eligibleAt members earliest, ch.hash id q < ch.hash id r := by
  obtain ⟨o, ho, htop⟩ := hshared.exists_isTop ch.hash id le_rfl hle
  constructor
  · intro honce q since hmem hearliest hlatest
    by_contra hnone
    push Not at hnone
    -- the owner when `q` becomes eligible is not the one before
    obtain ⟨o', ho', htop'⟩ := hshared.exists_isTop ch.hash id hearliest.le hlatest
    have hne := hshared.owner_ne hinj hle htop htop' hmem hearliest hlatest hnone
    obtain ⟨p, -, hunique⟩ := honce (fun p => if p = o' then since else earliest) fun p _ => by
      split_ifs
      · exact ⟨hearliest.le, hlatest⟩
      · exact ⟨le_rfl, hle⟩
    have hfirst : o = p := hunique o ⟨ho, by
      rw [if_neg hne]
      exact (handleBotFrame_iff hshared hinj haccess ho le_rfl hle).mpr htop⟩
    have hsecond : o' = p := hunique o' ⟨ho', by
      rw [if_pos rfl]
      exact (handleBotFrame_iff hshared hinj haccess ho' hearliest.le hlatest).mpr htop'⟩
    exact hne (hfirst.trans hsecond.symm)
  · intro hlower times htimes
    refine ⟨o, ⟨ho, ?_⟩, ?_⟩
    · obtain ⟨hearliest, hlatest⟩ := htimes o ho
      exact (handleBotFrame_iff hshared hinj haccess ho hearliest hlatest).mpr
        (owner_stays htop hlower hearliest hlatest)
    · rintro p ⟨hp, hforwards⟩
      obtain ⟨hearliest, hlatest⟩ := htimes p hp
      have hptop := (handleBotFrame_iff hshared hinj haccess hp hearliest hlatest).mp hforwards
      exact hptop.unique (hinj.mono (hshared.eligibleAt_subset hlatest))
        (owner_stays htop hlower hearliest hlatest)

end Times

/-! ## A member that becomes eligible in between -/

def pairSession : Session ℕ where
  membership := ⟨[(0, 0), (1, 10)], by decide⟩

/-- The hash of the pair, with the higher value for process `top`. -/
def pairChannel (top : ℕ) : Channel ℕ where
  hash := fun _ p => if p = top then 1 else 0

theorem pairSession_shared :
    Shared {0, 1} (fun _ => pairSession.membership) 5 15 {((0 : ℕ), (0 : ℤ)), (1, 10)} where
  eligible := ⟨(0, 0), by simp⟩
  mem_iff := by
    rintro p - member -
    simp [pairSession]
  mem_procs := by simp

/-- The process that becomes eligible has the lower hash. -/
theorem bot_frame_forwarded_once_iff_pair :
    ∃! p, p ∈ ({0, 1} : Set ℕ) ∧
      (pairSession.handleBotFrame (pairChannel 0) {} p 7 (if p = 0 then 5 else 15)).2 = true := by
  have hinj : Set.InjOn ((pairChannel 0).hash 7) {0, 1} := by
    rintro p (rfl | rfl) q (rfl | rfl) h
    · rfl
    · cases h
    · cases h
    · rfl
  have honce := (bot_frame_forwarded_once_iff (pairChannel 0) {} {0, 1} (fun _ => pairSession) 7
    5 15 _ (by decide) pairSession_shared hinj rfl).mpr ?_
  · refine honce (fun p => if p = 0 then 5 else 15) ?_
    rintro p (rfl | rfl) <;> decide
  · rintro q since hmem hearliest -
    refine ⟨0, ⟨0, by decide, by simp⟩, ?_⟩
    simp only [Set.mem_insert_iff, Set.mem_singleton_iff, Prod.mk.injEq] at hmem
    obtain ⟨-, rfl⟩ | ⟨rfl, -⟩ := hmem
    · omega
    · decide

/-- It has the higher hash: both send the frame to their agents, or, the other way round, none
does. -/
theorem bot_frame_forwarded_twice_or_never :
    (∀ p ∈ [0, 1],
      (pairSession.handleBotFrame (pairChannel 1) {} p 7 (if p = 0 then 5 else 15)).2 = true) ∧
    ∀ p ∈ [0, 1],
      (pairSession.handleBotFrame (pairChannel 1) {} p 7 (if p = 0 then 15 else 5)).2 = false := by
  decide

end Converger.GroupSessions
