import Converger.CreateActivityKeys

/-!
# Edits and deletes of a message

An edit or a delete reads its original under the row lock of the conversation and stamps it with its
commit. Nobody else commits in the conversation in between, and an edit of another conversation does
not find the original, so what was read of it still holds at the commit.
-/
namespace Converger.CreateActivity
open ActivityChangeset GuardedRuns List Option

def changeTypes : List ActivityType := [.messageUpdate, .messageDelete]

/-- `a` edits or deletes the activity `id`. -/
def Alters (a : Activity) (id : Uuid) : Prop := a.type ∈ changeTypes ∧ a.replyToId = some id

def Deletes (a : Activity) (id : Uuid) : Prop := a.type = .messageDelete ∧ a.replyToId = some id

variable {id c : Uuid} {stamp : Option Stamp} {b row : Activity} {sender : String} {p : Phase}

theorem Deletes.alters {a : Activity} (h : Deletes a id) : Alters a id :=
  ⟨by simp [changeTypes, h.1], h.2⟩

def unstamped (a : Activity) : Activity := {a with editedAt := none, deletedAt := none}

@[simp] theorem Stamp.unstamped_apply (st : Stamp) (a : Activity) :
    unstamped (st.apply a) = unstamped a := by
  unfold apply
  split_ifs <;> rfl

def stampRow (stamp : Option Stamp) (row : Activity) : Activity :=
  match stamp with
  | none => row
  | some st => st.apply row

theorem mem_applyStamp_iff {rows : List Activity} {row' : Activity} :
    row' ∈ applyStamp stamp rows ↔ ∃ row ∈ rows, stampRow stamp row = row' := by
  cases stamp <;> simp [applyStamp, stampRow]

@[simp] theorem id_stampRow (stamp : Option Stamp) (row : Activity) :
    (stampRow stamp row).id = row.id := by
  cases stamp <;> simp [stampRow]

@[simp] theorem unstamped_stampRow (stamp : Option Stamp) (row : Activity) :
    unstamped (stampRow stamp row) = unstamped row := by
  cases stamp <;> simp [stampRow]

structure Changeable (s : State) (c : Uuid) (sender : String) (row : Activity) : Prop where
  committed : unstamped row ∈ s.log
  conversation : row.conversationId = c
  type : row.type = .message
  sender : row.sender = sender
  undeleted : ∀ d ∈ s.log, ¬ Deletes d row.id

/-- The reference was looked up: an edit or a delete found a row it may change. -/
structure Checked (s : State) (type : ActivityType) (replyToId : Option Uuid) (sender : String)
    (c : Uuid) (target : Option Activity) : Prop where
  none : replyToId = none → target = none
  some : type ∈ changeTypes → ∀ r, replyToId = some r →
    ∃ row, target = some row ∧ row.id = r ∧ Changeable s c sender row

def ReferenceKnown (s : State) : Phase → Prop
  | .insert ch _ target => Checked s ch.type ch.replyToId ch.sender ch.conversationId target
  | .stampTarget a target =>
    unstamped a = a ∧ Checked s a.type a.replyToId a.sender a.conversationId target
  | .enqueue a stamp | .commit a stamp =>
    unstamped a = a ∧ ∃ target, stamp = stampOf a target ∧
      Checked s a.type a.replyToId a.sender a.conversationId target
  | _ => True

/-- The stored rows are committed ones, deleted where a delete of them is committed; and edits and
deletes are of messages of their sender, none of them after a delete. -/
structure ReferenceInvariant (s : State) : Prop where
  rows : ∀ row ∈ s.activities, unstamped row ∈ s.log
  stamped : ∀ row ∈ s.activities, row.deletedAt.isSome = true ↔ ∃ d ∈ s.log, Deletes d row.id
  originals : ∀ a ∈ s.log, ∀ id, Alters a id → ∃ m ∈ s.log, m.id = id ∧
    m.conversationId = a.conversationId ∧ m.sender = a.sender
  order : s.log.Pairwise fun d a => ∀ id, Deletes d id → ¬ Alters a id
  known : ∀ pid call, s.calls pid = some call → ReferenceKnown s call.phase

section Steps
variable {cfg : Config} {s t : State} {pid : ℕ} {call : Call} {out : Outcome} {act : Action}

def Action.References (s : State) : Action → Prop
  | .goto p | .acquire _ p | .leave p => ReferenceKnown s p
  | .commit _ a stamp => ReferenceKnown s (.commit a stamp)

theorem referenceError_eq_none {type : ActivityType} {target : Option Activity}
    (h : referenceError type sender target = none) (htype : type ∈ changeTypes) :
    ∃ row, target = some row ∧ row.type = .message ∧ row.sender = sender ∧ row.deletedAt = none := by
  have hreference : type ∈ referenceTypes ∧ type ≠ .messageReaction := by
    simp only [changeTypes, mem_cons, not_mem_nil, or_false] at htype
    obtain rfl | rfl := htype <;> decide
  cases target with
  | none => cases h
  | some row =>
    simp only [referenceError, hreference.1, hreference.2, not_true_eq_false, ↓reduceIte] at h
    split_ifs at h with hmessage hsender hdeleted
    exact ⟨row, rfl, Decidable.not_not.mp hmessage, Decidable.not_not.mp hsender,
      Decidable.not_not.mp hdeleted⟩

theorem ReferenceInvariant.checked {ch : Changes} {r : Uuid} {target : Option Activity}
    (h : ReferenceInvariant s) (hr : ch.replyToId = some r)
    (hget : getBy (s.activities.filter fun a => a.id = r ∧ a.conversationId = ch.conversationId) = .ok target)
    (herror : referenceError ch.type ch.sender target = none) :
    Checked s ch.type ch.replyToId ch.sender ch.conversationId target := by
  refine ⟨fun hnone => ?_, fun htype r' hr' => ?_⟩
  · cases hnone.symm.trans hr
  cases hr.symm.trans hr'
  obtain ⟨row, rfl, hmessage, hsender, hundeleted⟩ := referenceError_eq_none herror htype
  have hrow : row ∈ s.activities ∧ row.id = r ∧ row.conversationId = ch.conversationId := by
    have hmem : row ∈ s.activities.filter fun a => a.id = r ∧ a.conversationId = ch.conversationId := by
      rw [getBy_eq_some hget]
      exact mem_singleton_self row
    simpa using hmem
  refine ⟨row, rfl, hrow.2.1, h.rows row hrow.1, hrow.2.2, hmessage, hsender, fun d hd hdeletes => ?_⟩
  have hsome := (h.stamped row hrow.1).mpr ⟨d, hd, hdeletes⟩
  simp [hundeleted] at hsome

theorem next_references (h : ReferenceInvariant s) (hcall : s.calls pid = some call)
    (hnext : next cfg s call out = some act) : act.References s := by
  have hknown := h.known pid call hcall
  have hnext := next_cases hnext
  generalize call.phase = p at hknown hnext
  cases hnext with
  | plain n hnone =>
    refine ⟨fun _ => rfl, fun _ r hr => ?_⟩
    cases hnone.symm.trans hr
  | referenced n hr hget herror => exact h.checked hr hget herror
  | inserted => exact ⟨rfl, hknown⟩
  | stamped a target => exact ⟨hknown.1, target, rfl, hknown.2⟩
  | enqueued | committed => exact hknown
  | _ => trivial

/-- What was read stays true where no delete is committed in the conversation the call has locked. -/
theorem ReferenceKnown.mono (hknown : ReferenceKnown s p)
    (hmono : ∀ c, p.lock = some c → ∀ sender row, Changeable s c sender row → Changeable t c sender row) :
    ReferenceKnown t p := by
  have hchecked : ∀ {type replyToId sender c target}, p.lock = some c →
      Checked s type replyToId sender c target → Checked t type replyToId sender c target := by
    intro type replyToId sender c target hlock h
    refine ⟨h.none, fun htype r hr => ?_⟩
    obtain ⟨row, hrow, hid, hchangeable⟩ := h.some htype r hr
    exact ⟨row, hrow, hid, hmono c hlock sender row hchangeable⟩
  cases p with
  | insert ch n target => exact hchecked rfl hknown
  | stampTarget a target => exact ⟨hknown.1, hchecked rfl hknown.2⟩
  | enqueue a stamp | commit a stamp =>
    obtain ⟨hplain, target, hstamp, h⟩ := hknown
    exact ⟨hplain, target, hstamp, hchecked rfl h⟩
  | _ => trivial

theorem ReferenceKnown.of_log (hknown : ReferenceKnown s p) (hlog : t.log = s.log) :
    ReferenceKnown t p := by
  refine hknown.mono fun c _ sender row h => ?_
  exact ⟨hlog ▸ h.committed, h.conversation, h.type, h.sender, hlog ▸ h.undeleted⟩

theorem ReferenceInvariant.of_tables (h : ReferenceInvariant s)
    (hactivities : t.activities = s.activities) (hlog : t.log = s.log)
    (hknown : ∀ pid call, t.calls pid = some call → ReferenceKnown s call.phase) :
    ReferenceInvariant t where
  rows := by rw [hactivities, hlog]; exact h.rows
  stamped := by rw [hactivities, hlog]; exact h.stamped
  originals := by rw [hlog]; exact h.originals
  order := by rw [hlog]; exact h.order
  known pid call hcall := (hknown pid call hcall).of_log hlog

theorem rows_commit (h : ReferenceInvariant s) {a : Activity} (hplain : unstamped a = a)
    (stamp : Option Stamp) :
    ∀ row ∈ applyStamp stamp s.activities ++ [a], unstamped row ∈ s.log ++ [a] := by
  intro row hrow
  obtain hold | hnew := mem_append.mp hrow
  · refine mem_append_left _ ?_
    obtain ⟨row, hmem, rfl⟩ := mem_applyStamp_iff.mp hold
    rw [unstamped_stampRow]
    exact h.rows row hmem
  · cases mem_singleton.mp hnew
    rw [hplain]
    exact mem_append_right _ (mem_singleton_self a)

section Commit
variable {a : Activity} {target : Option Activity} (h : ReferenceInvariant s)
  (hids : ((s.log ++ [a]).map Activity.id).Nodup)
  (hchecked : Checked s a.type a.replyToId a.sender a.conversationId target)
include hids

theorem eq_of_id {b' : Activity} (hb : b ∈ s.log ++ [a]) (hb' : b' ∈ s.log ++ [a])
    (hid : b.id = b'.id) : b = b' :=
  inj_on_of_nodup_map hids hb hb' hid

theorem id_ne_of_mem_log (hb : b ∈ s.log) : b.id ≠ a.id := by
  rw [map_append, nodup_append] at hids
  exact hids.2.2 _ (List.mem_map_of_mem hb) _ (mem_singleton_self _)

include hchecked

theorem conversation_eq_of_alters (hrow : unstamped row ∈ s.log) (halters : Alters a row.id) :
    row.conversationId = a.conversationId := by
  obtain ⟨row', -, hid, hchangeable⟩ := hchecked.some halters.1 row.id halters.2
  have hsame := eq_of_id hids (mem_append_left _ hrow)
    (mem_append_left _ hchangeable.committed) hid.symm
  exact (congrArg Activity.conversationId hsame).trans hchangeable.conversation

theorem Changeable.commit {u : State} (hrow : Changeable s c sender row)
    (hlog : u.log = s.log ++ [a]) (hc : a.conversationId ≠ c) : Changeable u c sender row where
  committed := hlog ▸ mem_append_left _ hrow.committed
  conversation := hrow.conversation
  type := hrow.type
  sender := hrow.sender
  undeleted d hd hdeletes := by
    obtain hold | rfl := mem_snoc.mp (hlog ▸ hd)
    · exact hrow.undeleted d hold hdeletes
    · have := conversation_eq_of_alters hids hchecked hrow.committed hdeletes.alters
      exact hc (this.symm.trans hrow.conversation)

include h

theorem deletedAt_stampOf (hrow : row ∈ s.activities) :
    (stampRow (stampOf a target) row).deletedAt.isSome = true ↔
      row.deletedAt.isSome = true ∨ Deletes a row.id := by
  by_cases hdelete : a.type = .messageDelete
  · cases hreply : a.replyToId with
    | none => simp [stampOf, hchecked.none hreply, stampRow, Deletes, hreply]
    | some r =>
      obtain ⟨original, rfl, rfl, hchangeable⟩ := hchecked.some (by simp [changeTypes, hdelete]) r hreply
      by_cases hid : row.id = original.id
      · have hsame := eq_of_id hids (mem_append_left _ (h.rows row hrow))
          (mem_append_left _ hchangeable.committed) hid
        have htime : (unstamped row).insertedAt = (unstamped original).insertedAt := by rw [hsame]
        change row.insertedAt = original.insertedAt at htime
        simp [stampOf, hdelete, stampRow, Stamp.apply, hid, htime, Deletes, hreply]
      · simp [stampOf, hdelete, stampRow, Stamp.apply, hid, Deletes, hreply, Ne.symm hid]
  · have hkept : (stampRow (stampOf a target) row).deletedAt = row.deletedAt := by
      unfold stampOf
      split
      · simp only [stampRow, Stamp.apply, Bool.false_eq_true, ↓reduceIte]
        split_ifs <;> rfl
      · contradiction
      · rfl
    simp [hkept, Deletes, hdelete]

theorem stamped_commit (hplain : unstamped a = a) :
    ∀ row ∈ applyStamp (stampOf a target) s.activities ++ [a],
      row.deletedAt.isSome = true ↔ ∃ d ∈ s.log ++ [a], Deletes d row.id := by
  intro row hrow
  obtain hold | hnew := mem_append.mp hrow
  · obtain ⟨row, hmem, rfl⟩ := mem_applyStamp_iff.mp hold
    rw [deletedAt_stampOf h hids hchecked hmem, h.stamped row hmem, id_stampRow]
    simp [or_and_right, exists_or]
  · cases mem_singleton.mp hnew
    have hnone : a.deletedAt = none := congrArg Activity.deletedAt hplain.symm
    simp only [hnone, isSome_none, Bool.false_eq_true, false_iff, not_exists, not_and]
    intro d hd hdeletes
    -- a delete finds its original among the committed activities
    obtain hold | rfl := mem_snoc.mp hd
    · obtain ⟨m, hm, hid, -⟩ := h.originals d hold _ hdeletes.alters
      exact id_ne_of_mem_log hids hm hid
    · obtain ⟨original, -, hid, hchangeable⟩ := hchecked.some hdeletes.alters.1 _ hdeletes.2
      exact id_ne_of_mem_log hids hchangeable.committed hid

omit hids

theorem originals_commit :
    ∀ b ∈ s.log ++ [a], ∀ id, Alters b id → ∃ m ∈ s.log ++ [a], m.id = id ∧
      m.conversationId = b.conversationId ∧ m.sender = b.sender := by
  intro b hb id halters
  obtain hold | rfl := mem_snoc.mp hb
  · obtain ⟨m, hm, hfields⟩ := h.originals b hold id halters
    exact ⟨m, mem_append_left _ hm, hfields⟩
  · obtain ⟨row, -, hid, hrow⟩ := hchecked.some halters.1 id halters.2
    exact ⟨unstamped row, mem_append_left _ hrow.committed, hid, hrow.conversation, hrow.sender⟩

theorem order_commit :
    (s.log ++ [a]).Pairwise fun d b => ∀ id, Deletes d id → ¬ Alters b id := by
  refine h.order.snoc fun d hd id hdeletes halters => ?_
  obtain ⟨row, -, rfl, hrow⟩ := hchecked.some halters.1 id halters.2
  exact hrow.undeleted d hd hdeletes

end Commit

theorem ReferenceInvariant.commit (h : ReferenceInvariant s) (hserialised : Serialised s)
    (hcall : s.calls pid = some call) {cv : Conversation} {a : Activity}
    (hfits : (Action.commit cv a stamp).Fits s call.phase)
    (hknown : ReferenceKnown s (.commit a stamp)) (hids : ((s.log ++ [a]).map Activity.id).Nodup) :
    ReferenceInvariant (perform s pid call (.commit cv a stamp)) := by
  obtain ⟨hplain, target, rfl, hchecked⟩ := hknown
  refine ⟨rows_commit h hplain _, stamped_commit h hids hchecked hplain, originals_commit h hchecked,
    order_commit h hchecked, forall_calls_update.mpr ⟨trivial, fun q hq call' hcall' => ?_⟩⟩
  refine (h.known q call' hcall').mono fun c hc sender row hrow => ?_
  have hne := hserialised.lock_ne hcall hcall' hq (Phase.lock_of_claim hfits.1)
  exact hrow.commit hids hchecked rfl fun heq => hne (heq ▸ hc)

theorem ReferenceInvariant.moves (h : ReferenceInvariant s) (hserialised : Serialised s)
    (hm : Moves cfg s t) (hids : (t.log.map Activity.id).Nodup) : ReferenceInvariant t := by
  cases hm with
  | @act pid call act hcall hfits hnext =>
    have hknown : act.References s := by
      obtain ⟨out, hnext⟩ | rfl := hnext
      · exact next_references h hcall hnext
      · trivial
    cases act with
    | goto p | acquire c p =>
      exact h.of_tables rfl rfl (forall_calls_update.mpr ⟨hknown, fun q _ => h.known q⟩)
    | leave p =>
      refine h.of_tables (by simp [perform]) (by simp [perform]) ?_
      refine forall_calls_update.mpr ⟨hknown, fun q _ call' hq => ?_⟩
      exact h.known q call' (by simpa using hq)
    | commit cv a stamp => exact h.commit hserialised hcall hfits hknown hids
  | start attrs opts hpid =>
    exact h.of_tables rfl rfl (forall_calls_update.mpr ⟨trivial, fun q _ => h.known q⟩)
  | transition status hcv => exact h.of_tables rfl rfl h.known
  | delete id =>
    refine ⟨fun row hrow => ?_, fun row hrow => ?_, h.originals, h.order, fun q call' hq => ?_⟩
    · exact h.rows row (mem_of_mem_filter hrow)
    · exact h.stamped row (mem_of_mem_filter hrow)
    · exact (h.known q call' hq).of_log rfl
  | idle => exact h

theorem log_le (hm : Moves cfg s t) : s.log <+: t.log := by
  cases hm with
  | @act pid call act hcall hfits hnext =>
    cases act with
    | commit cv a stamp => exact prefix_append _ _
    | leave p => simp [perform]
    | goto p | acquire c p => exact prefix_rfl
  | _ => exact prefix_rfl

theorem ReferenceInvariant.start (hs : s.Initial) (hempty : s.activities = []) :
    ReferenceInvariant s := by
  refine ⟨by simp [hempty], by simp [hempty], by simp [hs.log], by simp [hs.log], ?_⟩
  intro pid call hcall
  simp [hs.calls pid] at hcall

theorem ReferenceInvariant.original_eq (h : ReferenceInvariant s)
    (hids : (s.log.map Activity.id).Nodup) {m a : Activity} (hm : m ∈ s.log) (ha : a ∈ s.log)
    (halters : Alters a m.id) : m.conversationId = a.conversationId ∧ m.sender = a.sender := by
  obtain ⟨m', hm', hid, hfields⟩ := h.originals a ha m.id halters
  cases inj_on_of_nodup_map hids hm' hm hid
  exact hfields

theorem pairwise_rel_or {R : Activity → Activity → Prop} {l : List Activity} (h : l.Pairwise R)
    {a : Activity} (ha : a ∈ l) (hb : b ∈ l) (hne : a ≠ b) : R a b ∨ R b a := by
  have : Std.Symm fun x y => R x y ∨ R y x := ⟨fun _ _ => Or.symm⟩
  exact (h.imp (S := fun x y => R x y ∨ R y x) .inl).forall ha hb hne

theorem ReferenceInvariant.seq_lt (h : ReferenceInvariant s) {a d : Activity}
    (hseq : (s.committed c).Pairwise fun x y => x.seq < y.seq) (ha : a ∈ s.log) (hd : d ∈ s.log)
    (hconv : a.conversationId = c) (hconv' : d.conversationId = c) (hne : a ≠ d)
    (halters : Alters a id) (hdeletes : Deletes d id) : a.seq < d.seq ∧ ¬ Deletes a id := by
  have hlog := (pairwise_filter.mp hseq).and h.order
  obtain ⟨hlt, horder⟩ | ⟨-, horder⟩ := pairwise_rel_or hlog ha hd hne
  · exact ⟨hlt (by simpa using hconv) (by simpa using hconv'),
      fun hdeletes' => horder id hdeletes' hdeletes.alters⟩
  · exact absurd halters (horder id hdeletes)

end Steps

/-- In every run at most one delete of a message is committed, no edit of it has a higher number than
the delete, edits and deletes are of the message's sender; and the stored message is deleted exactly if
a delete is committed, and otherwise as it was sent. -/
theorem message_changes_serialised (cfg : Config) (s t : State) (hs : s.Initial)
    (hempty : s.activities = []) (events : List Event) (hrun : run (step cfg) s events = some t)
    (hids : (t.log.map Activity.id).Nodup) (c : Uuid) (cv : Conversation)
    (hcv : s.conversations c = some cv) (m : Activity) (hm : m ∈ t.committed c) :
    (∀ d ∈ t.log, ∀ d' ∈ t.log, Deletes d m.id → Deletes d' m.id → d = d') ∧
      (∀ d ∈ t.log, ∀ u ∈ t.log, Deletes d m.id → u.type = .messageUpdate →
        u.replyToId = some m.id → u.seq < d.seq) ∧
      (∀ a ∈ t.log, Alters a m.id → a.sender = m.sender) ∧
      ∀ row ∈ t.activities, row.id = m.id →
        (row.deletedAt.isSome = true ↔ ∃ d ∈ t.log, Deletes d m.id) ∧ unstamped row = m := by
  have hstart : Serialised s ∧ Numbered c cv.lastSeq s ∧
      ((s.log.map Activity.id).Nodup → ReferenceInvariant s) := by
    refine ⟨hs.serialised, ⟨cv, hcv, ?_⟩, fun _ => .start hs hempty⟩
    rw [State.committed, hs.log]
    exact GapFree.nil _ _
  have hstep : ∀ {u e v}, Serialised u ∧ Numbered c cv.lastSeq u ∧
      ((u.log.map Activity.id).Nodup → ReferenceInvariant u) → step cfg u e = some v →
      Serialised v ∧ Numbered c cv.lastSeq v ∧
        ((v.log.map Activity.id).Nodup → ReferenceInvariant v) := by
    rintro u e v ⟨hserialised, hnumbered, href⟩ hstep
    have hmoves := step_moves hstep
    refine ⟨hserialised.moves hmoves, hnumbered.moves hserialised hmoves, fun hids => ?_⟩
    exact (href (((log_le hmoves).map _).sublist.nodup hids)).moves hserialised hmoves hids
  obtain ⟨-, ⟨cv', -, hgap⟩, href⟩ := run_invariant hstep hstart hrun
  have h := href hids
  obtain ⟨hmem, hconv⟩ : m ∈ t.log ∧ m.conversationId = c := by simpa [State.committed] using hm
  have hchange : ∀ a ∈ t.log, Alters a m.id → a.conversationId = c ∧ a.sender = m.sender := by
    intro a ha halters
    obtain ⟨hsame, hsender⟩ := h.original_eq hids hmem ha halters
    exact ⟨hsame.symm.trans hconv, hsender.symm⟩
  have hlast : ∀ d ∈ t.log, ∀ a ∈ t.log, Deletes d m.id → Alters a m.id → a ≠ d →
      a.seq < d.seq ∧ ¬ Deletes a m.id := by
    intro d hd a ha hdeletes halters hne
    exact h.seq_lt hgap.increasing ha hd (hchange a ha halters).1 (hchange d hd hdeletes.alters).1 hne
      halters hdeletes
  refine ⟨fun d hd d' hd' hdeletes hdeletes' => ?_, fun d hd u hu hdeletes htype hreply => ?_,
    fun a ha halters => (hchange a ha halters).2, fun row hrow hid => ⟨?_, ?_⟩⟩
  · by_contra hne
    exact (hlast d' hd' d hd hdeletes' hdeletes.alters hne).2 hdeletes
  · refine (hlast d hd u hu hdeletes ⟨by simp [changeTypes, htype], hreply⟩ ?_).1
    rintro rfl
    cases htype.symm.trans hdeletes.1
  · rw [← hid]
    exact h.stamped row hrow
  · exact inj_on_of_nodup_map hids (h.rows row hrow) hmem hid

def changeOf10 (type : String) : Attrs :=
  { type := some type, text := some "new", replyToId := some 10, tenantId := some 1,
    conversationId := some 7, sender := some "user" }

/-- A message is sent and edited; of two concurrent deletes the second one waits for the lock. -/
def editedThenDeleted : List Event :=
  let message : Attrs := { tenantId := some 1, conversationId := some 7, sender := some "user" }
  .call 0 message {} :: (List.replicate 9 (.statement 0 {id := 10}) : List Event) ++
    .call 1 (changeOf10 "messageUpdate") {} ::
      (List.replicate 9 (.statement 1 {id := 11, now := 5}) : List Event) ++
    ([.call 2 (changeOf10 "messageDelete") {}, .call 3 (changeOf10 "messageDelete") {},
      .statement 3 {id := 13}] : List Event) ++
    (List.replicate 9 (.statement 2 {id := 12, now := 6}) : List Event) ++
    (List.replicate 4 (.statement 3 {id := 13}) : List Event)

theorem message_changes_serialised_deleted :
    ∃ t m, run (step monthly) newConversation editedThenDeleted = some t ∧ m ∈ t.committed 7 ∧
      m.id = 10 ∧ (t.calls 3).map Call.phase =
        some (.done (.invalid [("reply_to_id", "references a deleted message")])) ∧
      (∃ d ∈ t.log, Deletes d m.id ∧ d.seq = 3) ∧
      (∀ d ∈ t.log, ∀ d' ∈ t.log, Deletes d m.id → Deletes d' m.id → d = d') := by
  obtain ⟨t, ht, hids, hinvalid, ⟨m, hm, hid⟩, d, hd, hdeletes, hseq⟩ : ∃ t,
      run (step monthly) newConversation editedThenDeleted = some t ∧
      (t.log.map Activity.id = [10, 11, 12]) ∧
      (t.calls 3).map Call.phase =
        some (.done (.invalid [("reply_to_id", "references a deleted message")])) ∧
      (∃ m ∈ t.committed 7, m.id = 10) ∧
      ∃ d ∈ t.log, (d.type = .messageDelete ∧ d.replyToId = some 10) ∧ d.seq = 3 := by decide +kernel
  refine ⟨t, m, ht, hm, hid, hinvalid, ⟨d, hd, hid ▸ hdeletes, hseq⟩, ?_⟩
  exact (message_changes_serialised monthly newConversation t newConversation_initial rfl
    editedThenDeleted ht (hids ▸ by decide) 7 {id := 7} rfl m hm).1

end Converger.CreateActivity
