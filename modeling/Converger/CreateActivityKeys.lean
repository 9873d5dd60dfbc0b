import Converger.CreateActivityOrder

/-!
# Idempotency keys

The unique index covers one month only, so what keeps a key unique in a conversation is
the look-up under the row lock: between it and the commit nobody else can commit in the
conversation. Every call that answers `{:ok, activity}` for a key then answers with the
one stored activity.
-/
namespace Converger.CreateActivity
open ActivityChangeset GuardedRuns Text List Option

variable {a : Activity} {rows : List Activity} {p : Phase}

theorem mem_withKey {c : Uuid} {k : String} :
    a ∈ withKey rows c k ↔ a ∈ rows ∧ a.conversationId = c ∧ a.idempotencyKey = some k := by
  simp [withKey]

theorem withKey_applyStamp (stamp : Option Stamp) (rows : List Activity) (c : Uuid) (k : String) :
    withKey (applyStamp stamp rows) c k = applyStamp stamp (withKey rows c k) := by
  cases stamp with
  | none => rfl
  | some st => simp [withKey, applyStamp, List.filter_map, Function.comp_def]

theorem length_applyStamp (stamp : Option Stamp) (rows : List Activity) :
    (applyStamp stamp rows).length = rows.length := by
  cases stamp <;> simp [applyStamp]

theorem eq_singleton_of_mem (ha : a ∈ rows) (h : rows.length ≤ 1) : rows = [a] := by
  cases rows with
  | nil => cases ha
  | cons x xs =>
    have hxs : xs = [] := length_eq_zero_iff.mp (by simpa using h)
    subst hxs
    rw [mem_singleton.mp ha]

/-- The row of `a`, perhaps stamped since, is stored, or it was deleted. -/
def Kept (s : State) (a : Activity) : Prop :=
  a.id ∈ s.deleted ∨ ∃ b ∈ s.activities, b.id = a.id ∧ b.seq = a.seq ∧
    b.conversationId = a.conversationId ∧ b.idempotencyKey = a.idempotencyKey

def Unused (s : State) (c : Uuid) (key : Option String) : Prop :=
  ∀ k, key = some k → withKey s.activities c k = []

/-- `a` may be the answer to a call with these attributes. -/
def Answer (s : State) (attrs : Attrs) (a : Activity) : Prop :=
  ∀ c k, attrs.conversationId = some c → attrs.idempotencyKey = some k → blank k = false →
    (a.conversationId = c ∧ a.idempotencyKey = some k) ∧ Kept s a

def FromAttrs (attrs : Attrs) (c : Uuid) (key : Option String) : Prop :=
  attrs.conversationId = some c ∧ key = attrs.idempotencyKey.bind castText

def KeyKnown (s : State) (attrs : Attrs) : Phase → Prop
  | .existingUnderLock ch _ => FromAttrs attrs ch.conversationId ch.idempotencyKey
  | .checkReference ch _ | .insert ch _ _ =>
    FromAttrs attrs ch.conversationId ch.idempotencyKey ∧
      Unused s ch.conversationId ch.idempotencyKey
  | .stampTarget a _ | .enqueue a _ | .commit a _ =>
    FromAttrs attrs a.conversationId a.idempotencyKey ∧ Unused s a.conversationId a.idempotencyKey
  | .rollback _ (.duplicate a) | .afterCommit a | .done (.ok a) => Answer s attrs a
  | _ => True

/-- Keys are unique among the stored activities of a conversation, and every call knows
what it read. -/
structure KeyInvariant (s : State) : Prop where
  unique : ∀ c k, (withKey s.activities c k).length ≤ 1
  known : ∀ pid call, s.calls pid = some call → KeyKnown s call.attrs call.phase

section Steps
variable {cfg : Config} {s t : State} {pid : ℕ} {call : Call} {out : Outcome} {act : Action}
  {attrs : Attrs}

theorem answer_of_existingRows (h : existingRows s.activities attrs = [a]) : Answer s attrs a := by
  intro c k hc hk _
  simp only [existingRows, hc, hk] at h
  have hmem : a ∈ withKey s.activities c k := by simp [h]
  obtain ⟨ha, hac, hak⟩ := mem_withKey.mp hmem
  exact ⟨⟨hac, hak⟩, .inr ⟨a, ha, rfl, rfl, rfl, rfl⟩⟩

def Action.Known (s : State) (attrs : Attrs) : Action → Prop
  | .goto p | .acquire _ p | .leave p => KeyKnown s attrs p
  | .commit _ a _ => FromAttrs attrs a.conversationId a.idempotencyKey ∧
      Unused s a.conversationId a.idempotencyKey

theorem answer_of_underLock {ch : Changes} (hk : FromAttrs attrs ch.conversationId ch.idempotencyKey)
    (h : ch.idempotencyKey.toList.flatMap (withKey s.activities ch.conversationId) = [a]) :
    Answer s attrs a := by
  intro c k hc hattr hblank
  have hkey : ch.idempotencyKey = some k := by
    rw [hk.2, hattr]
    exact castText_eq_some.mpr ⟨hblank, rfl⟩
  have hconv : ch.conversationId = c := some.inj (hk.1.symm.trans hc)
  have hmem : a ∈ withKey s.activities c k := by
    simpa [hkey, hconv, h] using congrArg (a ∈ ·) h
  obtain ⟨ha, hac, hak⟩ := mem_withKey.mp hmem
  exact ⟨⟨hac, hak⟩, .inr ⟨a, ha, rfl, rfl, rfl, rfl⟩⟩

theorem next_known (hk : KeyKnown s call.attrs call.phase) (h : next cfg s call out = some act) :
    act.Known s call.attrs := by
  have hnext := next_cases h
  generalize call.phase = p at hk hnext
  cases hnext with
  | found hp hrows => exact answer_of_existingRows hrows
  | allocated hch => exact changeset_eq_ok hch
  | duplicate n hrows => exact answer_of_underLock hk hrows
  | unused n hrows =>
    refine ⟨hk, fun k hkey => ?_⟩
    simpa [hkey] using hrows
  | plain | referenced | inserted | stamped | enqueued | committed | returned | answered => exact hk
  | _ => trivial

/-- Knowledge survives changes of the tables that lose no row without recording it and add
none to a conversation the call has locked. -/
theorem KeyKnown.mono (hk : KeyKnown s attrs p) (hkept : ∀ a, Kept s a → Kept t a)
    (hunused : ∀ c, p.lock = some c → ∀ key, Unused s c key → Unused t c key) : KeyKnown t attrs p := by
  have hanswer : ∀ a, Answer s attrs a → Answer t attrs a :=
    fun a ha c k hc hattr hb => ⟨(ha c k hc hattr hb).1, hkept a (ha c k hc hattr hb).2⟩
  cases p with
  | existingUnderLock ch n => exact hk
  | checkReference ch n | insert ch n target | stampTarget a target | enqueue a stamp
  | commit a stamp => exact ⟨hk.1, hunused _ rfl _ hk.2⟩
  | afterCommit a => exact hanswer a hk
  | rollback locked reason =>
    cases reason with
    | duplicate a => exact hanswer a hk
    | conversationClosed | deliveryEnqueueFailed | invalid errors => trivial
  | done r =>
    cases r with
    | ok a => exact hanswer a hk
    | conversationClosed | deliveryEnqueueFailed | invalid errors | raised => trivial
  | fetchExisting => trivial
  | nextSeq => trivial
  | conversationExists ch => trivial
  | recover errors => trivial

theorem KeyKnown.of_tables (hk : KeyKnown s attrs p) (hactivities : t.activities = s.activities)
    (hdeleted : t.deleted = s.deleted) : KeyKnown t attrs p := by
  refine hk.mono (fun a ha => ?_) fun c _ key hu => ?_
  · simpa only [Kept, hactivities, hdeleted] using ha
  · simpa only [Unused, hactivities] using hu

theorem Kept.commit {b : Activity} (hb : Kept s b) (cv : Conversation) (a : Activity)
    (stamp : Option Stamp) : Kept (s.commit cv a stamp) b := by
  refine hb.imp id ?_
  rintro ⟨x, hx, hfields⟩
  cases stamp with
  | none => exact ⟨x, mem_append_left _ hx, hfields⟩
  | some st =>
    refine ⟨st.apply x, mem_append_left _ (List.mem_map_of_mem hx), ?_⟩
    simpa using hfields

theorem withKey_commit (s : State) (cv : Conversation) (a : Activity) (stamp : Option Stamp)
    (c : Uuid) (k : String) : withKey (s.commit cv a stamp).activities c k =
      applyStamp stamp (withKey s.activities c k) ++ withKey [a] c k := by
  rw [← withKey_applyStamp]
  exact filter_append ..

theorem KeyInvariant.setPhase (hu : ∀ c k, (withKey s.activities c k).length ≤ 1)
    (hp : KeyKnown s call.attrs p)
    (hs : ∀ q, q ≠ pid → ∀ call', s.calls q = some call' → KeyKnown s call'.attrs call'.phase) :
    KeyInvariant (s.setPhase pid call p) := by
  refine ⟨hu, forall_calls_update.mpr ⟨hp.of_tables rfl rfl, fun q hqp call' hq => ?_⟩⟩
  exact (hs q hqp call' hq).of_tables rfl rfl

theorem KeyInvariant.commit (hs : KeyInvariant s) (hser : Serialised s)
    (hcall : s.calls pid = some call) {cv : Conversation} {stamp : Option Stamp}
    (hfits : (Action.commit cv a stamp).Fits s call.phase)
    (hknown : (Action.commit cv a stamp).Known s call.attrs) :
    KeyInvariant (perform s pid call (.commit cv a stamp)) := by
  obtain ⟨hfrom, hunused⟩ := hknown
  have hafter : KeyKnown (s.commit cv a stamp) call.attrs (.afterCommit a) := by
    intro c k hc hattr hb
    have hconv : a.conversationId = c := some.inj (hfrom.1.symm.trans hc)
    have hkey : a.idempotencyKey = some k := by
      rw [hfrom.2, hattr]
      exact castText_eq_some.mpr ⟨hb, rfl⟩
    refine ⟨⟨hconv, hkey⟩, .inr ⟨a, ?_, rfl, rfl, rfl, rfl⟩⟩
    exact mem_append_right _ (mem_singleton_self a)
  refine KeyInvariant.setPhase (fun c k => ?_) hafter fun q hqp call' hq => ?_
  · rw [withKey_commit, length_append, length_applyStamp]
    by_cases hmatch : a.conversationId = c ∧ a.idempotencyKey = some k
    · -- the look-up under the lock found no row with this key, and it still holds
      obtain ⟨rfl, hkey⟩ := hmatch
      rw [hunused k hkey]
      simp [withKey, hkey]
    · have hnone : withKey [a] c k = [] := by simpa [withKey] using hmatch
      simpa [hnone] using hs.unique c k
  · have hne := hser.lock_ne hcall hq hqp (Phase.lock_of_claim hfits.1)
    refine (hs.known q call' hq).mono (fun b hb => hb.commit cv a stamp) fun c hc key hu k hk => ?_
    have hac : a.conversationId ≠ c := fun he => hne (he ▸ hc)
    have hnone : withKey [a] c k = [] := by simp [withKey, hac]
    rw [withKey_commit, hu k hk, hnone]
    cases stamp <;> rfl

theorem KeyInvariant.moves (hs : KeyInvariant s) (hser : Serialised s) (hm : Moves cfg s t) :
    KeyInvariant t := by
  cases hm with
  | @act pid call act hcall hfits hnext =>
    have hknown : act.Known s call.attrs := by
      rcases hnext with ⟨out, hnext⟩ | rfl
      · exact next_known (hs.known pid call hcall) hnext
      · trivial
    cases act with
    | goto p => exact KeyInvariant.setPhase hs.unique hknown fun q _ => hs.known q
    | acquire c p =>
      refine KeyInvariant.setPhase hs.unique (hknown.of_tables rfl rfl) fun q _ call' hq => ?_
      exact (hs.known q call' hq).of_tables rfl rfl
    | leave p =>
      refine KeyInvariant.setPhase (by simpa using hs.unique)
        (hknown.of_tables (by simp) (by simp)) fun q _ call' hq => ?_
      exact (hs.known q call' (by simpa using hq)).of_tables (by simp) (by simp)
    | commit cv a stamp => exact hs.commit hser hcall hfits hknown
  | @start pid attrs opts hpid =>
    refine ⟨hs.unique, forall_calls_update.mpr ⟨trivial, fun q _ call' hq => ?_⟩⟩
    exact (hs.known q call' hq).of_tables rfl rfl
  | transition status hcv =>
    exact ⟨hs.unique, fun q call' hq => (hs.known q call' hq).of_tables rfl rfl⟩
  | delete id =>
    have hsub : ∀ c k, (withKey (s.activities.filter fun a => a.id ≠ id) c k).Sublist
        (withKey s.activities c k) := fun c k => filter_sublist.filter _
    refine ⟨fun c k => (hsub c k).length_le.trans (hs.unique c k), fun q call' hq => ?_⟩
    refine (hs.known q call' hq).mono (fun a ha => ?_) fun c _ key hu k hk => ?_
    · rcases ha with ha | ⟨b, hb, hid, hfields⟩
      · exact .inl (mem_append_left _ ha)
      · by_cases hbid : b.id = id
        · exact .inl (mem_append_right _ (by simp [← hid, hbid]))
        · exact .inr ⟨b, mem_filter.mpr ⟨hb, by simpa using hbid⟩, hid, hfields⟩
    · exact eq_nil_of_subset_nil (hu k hk ▸ (hsub c k).subset)
  | idle => exact hs

def Event.isOngoing : Event → Bool
  | .statement _ _ | .crash _ | .transition _ _ => true
  | .call _ _ _ | .deleteActivity _ => false

/-- The call has stored no activity and may still store one. -/
def Phase.pending : Phase → Bool
  | .afterCommit _ | .done _ => false
  | _ => true

/-- What such an event writes: nothing, or one activity under a key that was unused. -/
inductive Writes (s t : State) : Prop where
  | quiet (hactivities : t.activities = s.activities) (hlog : t.log = s.log)
  | commit {pid : ℕ} {call : Call} {a : Activity} {stamp : Option Stamp}
      (hcall : s.calls pid = some call) (hpending : call.phase.pending = true)
      (hfrom : FromAttrs call.attrs a.conversationId a.idempotencyKey)
      (hunused : Unused s a.conversationId a.idempotencyKey)
      (hactivities : t.activities = applyStamp stamp s.activities ++ [a])
      (hlog : t.log = s.log ++ [a])
      (hconversation : (t.conversations a.conversationId).isSome = true)
      (hstored : ∃ call', t.calls pid = some call' ∧ call'.phase.pending = false)

/-- What it leaves of the calls: none is new or lost, and one that is done stays done. -/
structure Continues (s t : State) : Prop where
  deleted : t.deleted = s.deleted
  calls : ∀ pid call', t.calls pid = some call' → ∃ call, s.calls pid = some call ∧
    call'.attrs = call.attrs ∧
      (∀ result, call.phase = .done result → ∃ result', call'.phase = .done result') ∧
      (call'.phase.pending = true → call.phase.pending = true)
  kept : ∀ pid, (s.calls pid).isSome = true → (t.calls pid).isSome = true

theorem Continues.refl (s : State) : Continues s s :=
  ⟨rfl, fun _ call h => ⟨call, h, rfl, fun result hdone => ⟨result, hdone⟩, id⟩, fun _ => id⟩

theorem continues_setPhase (u : State) (hu : u.calls = s.calls) (hdeleted : u.deleted = s.deleted)
    (hcall : s.calls pid = some call) (hlive : ∀ result, call.phase ≠ .done result)
    (hpending : p.pending = true → call.phase.pending = true) :
    Continues s (u.setPhase pid call p) := by
  refine ⟨by simpa using hdeleted, forall_calls_update.mpr ⟨⟨call, hcall, rfl, ?_, hpending⟩, ?_⟩,
    fun q hq => ?_⟩
  · exact fun result hdone => absurd hdone (hlive result)
  · exact fun q _ call' hq => ⟨call', hu ▸ hq, rfl, fun result h => ⟨result, h⟩, id⟩
  · by_cases hqp : q = pid
    · simp [State.setPhase, hqp]
    · simpa [State.setPhase, Function.update_of_ne hqp, hu] using hq

/-- An action of a call that is still pending, or one that ends it. -/
def Action.Proceeds (phase : Phase) (act : Action) : Prop :=
  phase.pending = true ∨ ∃ result, act = .goto (.done result) ∨ act = .leave (.done result)

theorem next_proceeds (h : next cfg s call out = some act) : act.Proceeds call.phase := by
  cases hphase : call.phase with
  | afterCommit a =>
    simp only [next, hphase, Option.some.injEq] at h
    exact .inr ⟨_, .inl h.symm⟩
  | done result => simp [next, hphase] at h
  | _ => exact .inl rfl

theorem perform_writes (hcall : s.calls pid = some call)
    (hlive : ∀ result, call.phase ≠ .done result) (hknown : act.Known s call.attrs)
    (hact : act.Proceeds call.phase) :
    Writes s (perform s pid call act) ∧ Continues s (perform s pid call act) := by
  have hends : ∀ {p : Phase}, (act = .goto p ∨ act = .leave p) → p.pending = true →
      call.phase.pending = true := by
    intro p hp hpending
    rcases hact with hact | ⟨result, hresult⟩
    · exact hact
    · rcases hp with rfl | rfl <;> rcases hresult with heq | heq <;> cases heq <;> cases hpending
  cases act with
  | goto p =>
    exact ⟨.quiet rfl rfl, continues_setPhase s rfl rfl hcall hlive (hends (.inl rfl))⟩
  | acquire c p =>
    have hpending : call.phase.pending = true := hact.resolve_right (by simp)
    exact ⟨.quiet rfl rfl, continues_setPhase (s := s)
      { s with locks := Function.update s.locks c (some pid) } rfl rfl hcall hlive
        fun _ => hpending⟩
  | leave p =>
    exact ⟨.quiet (by simp [perform]) (by simp [perform]),
      continues_setPhase _ (by simp) (by simp) hcall hlive (hends (.inr rfl))⟩
  | commit cv a stamp =>
    have hpending : call.phase.pending = true := hact.resolve_right (by simp)
    refine ⟨.commit hcall hpending hknown.1 hknown.2 rfl rfl ?_ ?_,
      continues_setPhase (s := s) (s.commit cv a stamp) rfl rfl hcall hlive fun _ => hpending⟩
    · simp [perform, State.commit]
    · exact ⟨{ call with phase := .afterCommit a }, by simp [perform, State.setPhase], rfl⟩

theorem step_writes (hs : KeyInvariant s) {e : Event} (he : e.isOngoing = true)
    (h : step cfg s e = some t) : Writes s t ∧ Continues s t := by
  cases e with
  | call pid attrs opts | deleteActivity id => cases he
  | statement pid out =>
    simp only [step, bind_eq_some_iff, map_eq_some_iff] at h
    obtain ⟨call, hcall, act, hnext, rfl⟩ := h
    refine perform_writes hcall (fun result hdone => ?_)
      (next_known (hs.known pid call hcall) hnext) (next_proceeds hnext)
    simp [next, hdone] at hnext
  | crash pid =>
    simp only [step, bind_eq_some_iff] at h
    obtain ⟨call, hcall, h⟩ := h
    split at h <;> cases h
    rename_i hlive
    exact perform_writes hcall hlive trivial (.inr ⟨_, .inr rfl⟩)
  | transition c status =>
    simp only [step] at h
    split at h
    · cases h
      exact ⟨.quiet rfl rfl, .refl s⟩
    · split_ifs at h
      · cases h
        exact ⟨.quiet rfl rfl, .refl s⟩
      · cases h
        refine ⟨.quiet rfl rfl, rfl, fun pid call' hcall' => ?_, fun _ => id⟩
        exact ⟨call', hcall', rfl, fun result hdone => ⟨result, hdone⟩, id⟩

/-- No step moves a conversation to another channel. -/
theorem step_channels {e : Event} (h : step cfg s e = some t) (c : Uuid) :
    (t.conversations c).map (fun cv => (cv.id, cv.channelId)) =
      (s.conversations c).map fun cv => (cv.id, cv.channelId) := by
  cases step_moves h with
  | @act pid call act hcall hfits _ =>
    cases act with
    | goto | acquire => rfl
    | leave p => simp [perform]
    | commit cv a stamp =>
      by_cases hc : c = a.conversationId
      · subst hc
        simp [perform, State.commit, hfits.2]
      · simp [perform, State.commit, Function.update_of_ne hc]
  | start | delete | idle => rfl
  | @transition d cv status hcv =>
    by_cases hc : c = d
    · subst hc
      simp [hcv]
    · simp [Function.update_of_ne hc]

end Steps

/-- In every run at most one activity with a key is stored in a conversation, and every
call that carried the key, unless it was blank, and answered `{:ok, activity}` answered
with that one, as long as it was not deleted. -/
theorem one_activity_per_key (cfg : Config) {s t : State} (hs : s.Initial)
    (hunique : ∀ c k, (withKey s.activities c k).length ≤ 1) {es : List Event}
    (h : run (step cfg) s es = some t) :
    (∀ c k, (withKey t.activities c k).length ≤ 1) ∧
      ∀ pid call a c k, t.calls pid = some call → call.phase = .done (.ok a) →
        call.attrs.conversationId = some c → call.attrs.idempotencyKey = some k →
        blank k = false →
        a.id ∈ t.deleted ∨ ∃ b, withKey t.activities c k = [b] ∧ b.id = a.id ∧ b.seq = a.seq := by
  have hstart : Serialised s ∧ KeyInvariant s := by
    refine ⟨hs.serialised, hunique, fun pid call hcall => ?_⟩
    simp [hs.calls pid] at hcall
  have hstep : ∀ {u e v}, Serialised u ∧ KeyInvariant u → step cfg u e = some v →
      Serialised v ∧ KeyInvariant v := by
    intro u e v hu hv
    exact ⟨hu.1.moves (step_moves hv), hu.2.moves hu.1 (step_moves hv)⟩
  obtain ⟨-, hinv⟩ := run_invariant hstep hstart h
  refine ⟨hinv.unique, fun pid call a c k hcall hdone hc hk hb => ?_⟩
  have hknown := hinv.known pid call hcall
  rw [hdone] at hknown
  obtain ⟨⟨hac, hak⟩, hkept⟩ := hknown c k hc hk hb
  rcases hkept with hdel | ⟨b, hb, hid, hseq, hbc, hbk⟩
  · exact .inl hdel
  · have hmem : b ∈ withKey t.activities c k := mem_withKey.mpr ⟨hb, hbc.trans hac, hbk.trans hak⟩
    exact .inr ⟨b, eq_singleton_of_mem hmem (hinv.unique c k), hid, hseq⟩

def keyedAttrs (key : String) : Attrs where
  tenantId := some 1
  conversationId := some 7
  sender := some "user"
  idempotencyKey := some key

def wholeCall (pid : ℕ) (key : String) (now : ℕ) : List Event :=
  .call pid (keyedAttrs key) {} :: List.replicate 9 (.statement pid {id := pid, now := now})

/-- Two calls with one key: the second looked before the first committed and inserts in
the next month, where the index does not see the first row. -/
def racingCalls : List Event :=
  [.call 1 (keyedAttrs "k") {}, .statement 1 {}] ++ wholeCall 0 "k" 99 ++
    List.replicate 3 (.statement 1 {id := 1, now := 100})

def keyedActivity (id seq now : ℕ) (key : Option String) : Activity where
  id := id
  conversationId := 7
  seq := seq
  sender := "user"
  idempotencyKey := key
  insertedAt := now

theorem one_activity_per_key_racing :
    ∃ t b, run (step monthly) newConversation racingCalls = some t ∧
      withKey t.activities 7 "k" = [b] ∧ b.id = 0 ∧ b.seq = 1 := by
  have hrun : (run (step monthly) newConversation racingCalls).map
      (fun t => (t.calls 1, t.deleted)) =
      some (some ⟨keyedAttrs "k", {}, .done (.ok (keyedActivity 0 1 99 (some "k")))⟩, []) := by
    decide +kernel
  obtain ⟨t, ht, hcall⟩ := map_eq_some_iff.mp hrun
  obtain ⟨hcall, hdeleted⟩ := Prod.mk.inj hcall
  have hmain := (one_activity_per_key monthly newConversation_initial
    (fun _ _ => Nat.zero_le 1) ht).2 1 _ _ 7 "k" hcall rfl rfl rfl (by decide)
  obtain ⟨b, hb⟩ := hmain.resolve_left (by simp [hdeleted])
  exact ⟨t, b, ht, hb⟩

/-- A blank key is stored as none: two calls that carry it create two activities. -/
theorem blank_key_creates_two :
    (run (step monthly) newConversation (wholeCall 0 " " 99 ++ wholeCall 1 " " 99)).map
      (fun t => [0, 1].map fun pid => (t.calls pid).map Call.phase) =
      some [some (.done (.ok (keyedActivity 0 1 99 none))),
        some (.done (.ok (keyedActivity 1 2 99 none)))] := by
  decide +kernel

end Converger.CreateActivity
