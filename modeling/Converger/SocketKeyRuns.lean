import Converger.SocketKeys

/-!
# Acknowledgements of a user's sends

What every run of sends and requests keeps, what the first send of a `clientId` leads to, and a request
that takes the key of a send.
-/
namespace Converger.SocketKeys
open ActivityChangeset ClientKeys CreateActivity Function GuardedRuns Option Text

variable {attrs : Attrs} {locks : Uuid → Option ℕ} {p q : Phase}

section
variable {cfg : Config} {o : Session} {c : String} {b t : CreateActivity.State} {pid : ℕ}
  {call : Call} {a : Activity} {act : Action} {s s' : State} {send : Send}

/-! ### Runs -/

/-- A request does not take the key of the user's `clientId` in the conversation. -/
def Spares (o : Session) (c : String) : Event → Prop
  | .post _ attrs => attrs.conversationId = some o.conversationId →
      attrs.idempotencyKey ≠ some (clientKey o.userId c)
  | .send _ _ | .statement _ _ | .crash _ | .transition _ _ | .ack _ => True

section
variable (h : Inv cfg o c s)
include h

theorem Inv.of_base (hbase : BaseInv cfg o c s.sent t) (hkeeps : Keeps s.base t) :
    Inv cfg o c {s with base := t} := by
  refine ⟨hbase, fun pid c' hwaiting => ?_, fun ack hack hc => ?_⟩
  · obtain ⟨call, send, hcall, hid, hattrs⟩ := h.waiting pid c' hwaiting
    obtain ⟨call', hcall', heq⟩ := hkeeps.calls pid call hcall
    exact ⟨call', send, hcall', hid, heq.trans hattrs⟩
  · obtain ⟨a, ha, hunder, hid, hseq⟩ := h.acks ack hack hc
    obtain ⟨a', ha', hid', hseq', hconv, hkey⟩ := hkeeps.rows a ha
    exact ⟨a', ha', ⟨hconv.trans hunder.1, hkey.trans hunder.2⟩, hid.trans hid'.symm,
      hseq.trans hseq'.symm⟩

theorem Inv.ongoing {e : CreateActivity.Event} (he : e.isOngoing = true)
    (ht : (CreateActivity.step cfg s.base e).map (fun base => {s with base}) = some s') :
    Inv cfg o c s' := by
  obtain ⟨b', hb', rfl⟩ := map_eq_some_iff.mp ht
  obtain ⟨hbase, hkeeps⟩ := h.base.ongoing he hb'
  exact h.of_base hbase hkeeps

theorem Inv.of_sent (send : Send) : Inv cfg o c {s with sent := s.sent ++ [send]} :=
  ⟨h.base.mono (List.subset_append_left _ _), h.waiting, h.acks⟩

/-- Acknowledging an activity that has the key of the `clientId`. -/
theorem Inv.of_ack (ack : Ack)
    (hack : ack.clientId = c → ∃ a ∈ s.base.activities, Under o c a ∧ ack.id = a.id ∧ ack.seq = a.seq) :
    Inv cfg o c {s with acks := s.acks ++ [ack]} := by
  refine ⟨h.base, h.waiting, fun other hother hc => ?_⟩
  rcases List.mem_append.mp hother with hother | hother
  · exact h.acks other hother hc
  · cases List.mem_singleton.mp hother
    exact hack hc

theorem Inv.persist (ht : persist cfg o s pid send = some s') : Inv cfg o c s' := by
  have hsent := h.of_sent send
  unfold SocketKeys.persist at ht
  split at ht
  · cases ht
    exact hsent
  · rename_i existing hfound
    cases ht
    have hrows := getBy_eq_some hfound
    cases hid : send.clientId with
    | none => simp [Session.key, hid] at hrows
    | some c' =>
      apply hsent.of_ack ⟨c', existing.id, existing.seq, true⟩
      rintro rfl
      have hmem : existing ∈ withKey s.base.activities o.conversationId (clientKey o.userId c') := by
        have hone : withKey s.base.activities o.conversationId (clientKey o.userId c') =
            [existing] := by simpa [Session.key, hid] using hrows
        exact hone ▸ List.mem_cons_self
      obtain ⟨hin, hunder⟩ := mem_withKey.mp hmem
      exact ⟨existing, hin, hunder, rfl, rfl⟩
  · obtain ⟨b', hb', rfl⟩ := map_eq_some_iff.mp ht
    obtain ⟨hbase, hkeeps, call, hcall, hattrs⟩ :=
      hsent.base.start (origin_attrs (List.mem_append_right _ List.mem_cons_self)) hb'
    obtain ⟨-, hwaiting, hacks⟩ := hsent.of_base hbase hkeeps
    refine ⟨hbase, fun q c' hq => ?_, hacks⟩
    rcases update_eq_some hq with ⟨rfl, hid⟩ | ⟨-, hq⟩
    · exact ⟨call, send, hcall, hid, hattrs⟩
    · exact hwaiting q c' hq

end

theorem blank_clientKey (u c : String) : blank (clientKey u c) = false := by
  have hws : blank "ws:" = false := by decide
  simp [clientKey, blank_append, hws]

/-- The call of a send with the `clientId` answered with the activity under its key. -/
theorem Inv.answer (h : Inv cfg o c s) (hwaiting : s.waiting pid = some c)
    (hcall : s.base.calls pid = some call) (hdone : call.phase = .done (.ok a)) :
    ∃ a' ∈ s.base.activities, Under o c a' ∧ a.id = a'.id ∧ a.seq = a'.seq := by
  obtain ⟨call', send, hcall', hid, hattrs⟩ := h.waiting pid c hwaiting
  cases hcall.symm.trans hcall'
  have hknown := h.base.keys.known pid call hcall
  rw [hdone] at hknown
  have hkey : call.attrs.idempotencyKey = some (clientKey o.userId c) := by
    rw [hattrs, Session.attrs, Session.key, hid]
    rfl
  have hconv : call.attrs.conversationId = some o.conversationId := by
    rw [hattrs, Session.attrs]
  obtain ⟨⟨hac, hak⟩, hkept⟩ := hknown _ _ hconv hkey (blank_clientKey _ _)
  rcases hkept with hdeleted | ⟨a', ha', hid', hseq', hconv', hkey'⟩
  · rw [h.base.deleted] at hdeleted
    cases hdeleted
  · exact ⟨a', ha', ⟨hconv'.trans hac, hkey'.trans hak⟩, hid'.symm, hseq'.symm⟩

theorem Inv.step {e : Event} (h : Inv cfg o c s) (hspares : Spares o c e)
    (ht : step cfg o s e = some s') : Inv cfg o c s' := by
  cases e with
  | post pid attrs =>
    obtain ⟨b', hb', rfl⟩ := map_eq_some_iff.mp ht
    have horigin : Origin o c s.sent attrs := fun hconv hkey => absurd hkey (hspares hconv)
    obtain ⟨hbase, hkeeps, -⟩ := h.base.start horigin hb'
    exact h.of_base hbase hkeeps
  | send pid send =>
    simp only [SocketKeys.step] at ht
    split at ht
    · exact h.persist ht
    · cases ht
      exact h
  | statement pid out | crash pid | transition cv status => exact h.ongoing rfl ht
  | ack pid =>
    simp only [SocketKeys.step] at ht
    split at ht <;> cases ht
    rename_i c' a hwaiting hphase
    obtain ⟨call, hcall, hdone⟩ := map_eq_some_iff.mp hphase
    obtain ⟨hbase, hwait, hacks⟩ := h.of_ack ⟨c', a.id, a.seq, false⟩ (by
      rintro rfl
      exact h.answer hwaiting hcall hdone)
    refine ⟨hbase, fun q c'' hq => ?_, hacks⟩
    rcases update_eq_some hq with ⟨-, hnone⟩ | ⟨-, hq⟩
    · cases hnone
    · exact hwait q c'' hq

/-! ### The first send -/

/-- What lets a send through: its call is new, the conversation is open and nobody has locked it, the
message is valid and what it answers is there, and the database and the queue accept it. -/
structure Accepted (cfg : Config) (o : Session) (b : CreateActivity.State) (pid : ℕ) (send : Send)
    (out : Outcome) (cv : Conversation) (ch : Changes) (target : Option Activity) : Prop where
  free : b.calls pid = none
  conversation : b.conversations o.conversationId = some cv
  active : cv.status = .active
  unlocked : b.locks o.conversationId = none
  valid : changeset cfg.maxTextBytes (o.attrs send) false = .ok ch
  reference : checkReference b ch (cv.lastSeq + 1) = .goto (.insert ch (cv.lastSeq + 1) target)
  noConstraint : out.constraintErrors = none
  enqueued : out.enqueued = true

def inPhase (b : CreateActivity.State) (pid : ℕ) (attrs : Attrs) (locks : Uuid → Option ℕ)
    (p : Phase) : CreateActivity.State :=
  {b with locks, calls := update b.calls pid (some {attrs, phase := p})}

theorem step_statement {out : Outcome}
    (h : next cfg (inPhase b pid attrs locks p) {attrs, phase := p} out = some act) :
    CreateActivity.step cfg (inPhase b pid attrs locks p) (.statement pid out) =
      some (perform (inPhase b pid attrs locks p) pid {attrs, phase := p} act) := by
  have hcall : (inPhase b pid attrs locks p).calls pid = some {attrs, phase := p} := update_self ..
  rw [CreateActivity.step, hcall, bind_some, h, map_some]

theorem perform_goto :
    perform (inPhase b pid attrs locks p) pid {attrs, phase := p} (.goto q) =
      inPhase b pid attrs locks q := by
  simp [perform, State.setPhase, inPhase, update_idem]

theorem step_goto {out : Outcome}
    (h : next cfg (inPhase b pid attrs locks p) {attrs, phase := p} out = some (.goto q)) :
    CreateActivity.step cfg (inPhase b pid attrs locks p) (.statement pid out) =
      some (inPhase b pid attrs locks q) := by
  rw [step_statement h, perform_goto]

section
variable {out : Outcome} {cv : Conversation} {ch : Changes} {target : Option Activity}

theorem Accepted.changes (h : Accepted cfg o b pid send out cv ch target)
    (hid : send.clientId = some c) : ch.conversationId = o.conversationId ∧
      ch.idempotencyKey = some (clientKey o.userId c) ∧ ch.type = .message := by
  obtain ⟨hconv, hkey⟩ := changeset_eq_ok h.valid
  obtain ⟨htype, -⟩ := content_of_changeset h.valid
  have hmessage : castType (some "message") = some .message := by decide
  have hcast : castText (clientKey o.userId c) = some (clientKey o.userId c) :=
    castText_eq_some.mpr ⟨blank_clientKey _ _, rfl⟩
  refine ⟨(some.inj hconv).symm, ?_, some.inj (htype.symm.trans hmessage)⟩
  rw [hkey, Session.attrs, Session.key, hid]
  exact hcast

theorem indexRejects_eq_false {key : String}
    (hunused : withKey b.activities a.conversationId key = []) (hkey : a.idempotencyKey = some key) :
    indexRejects cfg b.activities a = false := by
  apply List.any_eq_false.mpr
  intro x hx hmatch
  obtain ⟨hconv, -, heq, -⟩ := of_decide_eq_true hmatch
  have hmem : x ∈ withKey b.activities a.conversationId key := mem_withKey.mpr ⟨hx, hconv, heq.trans hkey⟩
  rw [hunused] at hmem
  cases hmem

section
variable (h : Accepted cfg o b pid send out cv ch target) (hid : send.clientId = some c)
  (hunused : withKey b.activities o.conversationId (clientKey o.userId c) = [])
include h hid hunused

/-- The statements that prepare the insertion: the look-ups find no row with the key. -/
theorem Accepted.run_lookups :
    run (CreateActivity.step cfg) (inPhase b pid (o.attrs send) b.locks .fetchExisting)
        (List.replicate 4 (.statement pid out)) =
      some (inPhase b pid (o.attrs send) (update b.locks o.conversationId (some pid))
        (.insert ch (cv.lastSeq + 1) target)) := by
  obtain ⟨hconv, hkey, htype⟩ := h.changes hid
  have hrows : existingRows b.activities (o.attrs send) = [] := by
    rw [existingRows, Session.attrs, Session.key, hid]
    exact hunused
  have hunder : ch.idempotencyKey.toList.flatMap (withKey b.activities ch.conversationId) = [] := by
    rw [hkey, hconv]
    simpa using hunused
  refine run_cons_eq_some.mpr ⟨inPhase b pid (o.attrs send) b.locks .nextSeq, ?_, ?_⟩
  · apply step_goto
    simp only [next, fetchExisting, inPhase, hrows, getBy]
  refine run_cons_eq_some.mpr ⟨inPhase b pid (o.attrs send)
    (update b.locks o.conversationId (some pid))
    (.existingUnderLock ch (cv.lastSeq + 1)), ?_, ?_⟩
  · have hnext : next cfg (inPhase b pid (o.attrs send) b.locks .nextSeq)
        {attrs := o.attrs send, phase := .nextSeq} out =
        some (.acquire o.conversationId (.existingUnderLock ch (cv.lastSeq + 1))) := by
      simp only [next, nextSeq, h.valid, hconv, inPhase, h.conversation, h.active, h.unlocked]
      simp
    rw [step_statement hnext]
    simp [perform, State.setPhase, inPhase, update_idem]
  refine run_cons_eq_some.mpr ⟨inPhase b pid (o.attrs send)
    (update b.locks o.conversationId (some pid)) (.checkReference ch (cv.lastSeq + 1)), ?_, ?_⟩
  · apply step_goto
    simp only [next, existingUnderLock, inPhase, hunder, getBy]
  refine run_cons_eq_some.mpr ⟨_, ?_, rfl⟩
  apply step_goto
  exact congrArg some h.reference

/-- The statements from the insertion on: the activity is committed and returned. -/
theorem Accepted.run_insert (locks : Uuid → Option ℕ) :
    ∃ t, run (CreateActivity.step cfg)
        (inPhase b pid (o.attrs send) locks (.insert ch (cv.lastSeq + 1) target))
        (List.replicate 5 (.statement pid out)) = some t ∧
      t.activities = b.activities ++ [toActivity ch (cv.lastSeq + 1) out.id out.now] ∧
      (t.calls pid).map Call.phase =
        some (.done (.ok (toActivity ch (cv.lastSeq + 1) out.id out.now))) := by
  obtain ⟨hconv, hkey, htype⟩ := h.changes hid
  set a := toActivity ch (cv.lastSeq + 1) out.id out.now with ha
  have hindex : indexRejects cfg b.activities a = false :=
    indexRejects_eq_false (by rw [ha, toActivity, hconv]; exact hunused) hkey
  have hstamp : stampOf a target = none := by
    have hmessage : a.type = .message := htype
    simp only [stampOf, hmessage]
  have hcv : b.conversations a.conversationId = some cv := by
    rw [ha, toActivity, hconv]
    exact h.conversation
  refine ⟨inPhase (b.commit cv a none) pid (o.attrs send)
    (update locks a.conversationId none) (.done (.ok a)), ?_, rfl, by simp [inPhase]⟩
  refine run_cons_eq_some.mpr ⟨inPhase b pid (o.attrs send) locks (.stampTarget a target), ?_, ?_⟩
  · apply step_goto
    simp only [next, CreateActivity.insert, h.noConstraint, inPhase, ← ha, hindex]
    simp
  refine run_cons_eq_some.mpr ⟨inPhase b pid (o.attrs send) locks (.enqueue a none), ?_, ?_⟩
  · apply step_goto
    simp only [next, hstamp]
  refine run_cons_eq_some.mpr ⟨inPhase b pid (o.attrs send) locks (.commit a none), ?_, ?_⟩
  · apply step_goto
    simp only [next, h.enqueued, if_true]
  refine run_cons_eq_some.mpr ⟨inPhase (b.commit cv a none) pid (o.attrs send)
    (update locks a.conversationId none) (.afterCommit a), ?_, ?_⟩
  · have hnext : next cfg (inPhase b pid (o.attrs send) locks (.commit a none))
        {attrs := o.attrs send, phase := .commit a none} out = some (.commit cv a none) := by
      simp only [next, inPhase, hcv, map_some]
    rw [step_statement hnext]
    simp [perform, State.setPhase, State.commit, inPhase, update_idem]
  refine run_cons_eq_some.mpr ⟨_, ?_, rfl⟩
  exact step_goto rfl

theorem Accepted.run_call :
    ∃ t, run (CreateActivity.step cfg) (inPhase b pid (o.attrs send) b.locks .fetchExisting)
        (List.replicate 9 (.statement pid out)) = some t ∧
      t.activities = b.activities ++ [toActivity ch (cv.lastSeq + 1) out.id out.now] ∧
      (t.calls pid).map Call.phase =
        some (.done (.ok (toActivity ch (cv.lastSeq + 1) out.id out.now))) := by
  obtain ⟨t, ht, hstored⟩ := h.run_insert hid hunused (update b.locks o.conversationId (some pid))
  exact ⟨t, run_append_eq_some.mpr ⟨_, h.run_lookups hid hunused, ht⟩, hstored⟩

end

theorem run_statements {n : ℕ} (s : State) (h : run (CreateActivity.step cfg) b
    (List.replicate n (.statement pid out)) = some t) :
    run (step cfg o) {s with base := b} (List.replicate n (.statement pid out)) =
      some {s with base := t} := by
  induction n generalizing b with
  | zero =>
    cases h
    rfl
  | succ n ih =>
    obtain ⟨m, hm, ht⟩ := run_cons_eq_some.mp h
    refine run_cons_eq_some.mpr ⟨{s with base := m}, ?_, ih ht⟩
    simp only [SocketKeys.step, hm, map_some]

theorem Inv.unused (h : Inv cfg o c s) (hfirst : ∀ other ∈ s.sent, other.clientId ≠ some c) :
    withKey s.base.activities o.conversationId (clientKey o.userId c) = [] := by
  apply List.eq_nil_iff_forall_not_mem.mpr
  intro a ha
  obtain ⟨hin, hunder⟩ := mem_withKey.mp ha
  obtain ⟨other, hother, hid, -⟩ := h.base.rows a hin hunder
  exact hfirst other hother hid

theorem Inv.first_send (h : Inv cfg o c s) (hfirst : ∀ other ∈ s.sent, other.clientId ≠ some c)
    (hid : send.clientId = some c) (hvalid : isClientId c = true)
    (haccepted : Accepted cfg o s.base pid send out cv ch target) :
    ∃ t a, run (SocketKeys.step cfg o) s
        (.send pid send :: List.replicate 9 (.statement pid out) ++ [.ack pid]) = some t ∧
      StoredBy o send a ∧ t.base.activities = s.base.activities ++ [a] ∧
      t.acks = s.acks ++ [⟨c, a.id, a.seq, false⟩] := by
  have hunused := h.unused hfirst
  obtain ⟨t, ht, hstored, hdone⟩ := haccepted.run_call hid hunused
  set a := toActivity ch (cv.lastSeq + 1) out.id out.now with ha
  have hby : StoredBy o send a := by
    obtain ⟨htype, hsender, htext, hreply⟩ := content_of_changeset haccepted.valid
    exact ⟨((castText_eq_some.mp hsender).2).symm, (haccepted.changes hid).2.2, htext, hreply⟩
  have hsend : SocketKeys.step cfg o s (.send pid send) = some {s with
      base := inPhase s.base pid (o.attrs send) s.base.locks .fetchExisting
      sent := s.sent ++ [send]
      waiting := update s.waiting pid (some c)} := by
    have hcall : CreateActivity.step cfg s.base (.call pid (o.attrs send) {}) =
        some (inPhase s.base pid (o.attrs send) s.base.locks .fetchExisting) :=
      if_pos haccepted.free
    have hnone : (o.key send).toList.flatMap (withKey s.base.activities o.conversationId) = [] := by
      rw [Session.key, hid]
      simpa using hunused
    simp only [SocketKeys.step, SocketKeys.persist, hid, all_some, hvalid, if_true, hnone, getBy, hcall,
      map_some]
  refine ⟨{s with
    base := t
    sent := s.sent ++ [send]
    waiting := update (update s.waiting pid (some c)) pid none
    acks := s.acks ++ [⟨c, a.id, a.seq, false⟩]}, a, ?_, hby, hstored, rfl⟩
  have hcalled := run_statements (o := o) {s with
    sent := s.sent ++ [send]
    waiting := update s.waiting pid (some c)} ht
  refine run_append_eq_some.mpr ⟨_, run_cons_eq_some.mpr ⟨_, hsend, hcalled⟩, ?_⟩
  refine run_cons_eq_some.mpr ⟨_, ?_, rfl⟩
  simp only [SocketKeys.step, update_self, hdone]

end

theorem Inv.start (hinitial : b.Initial) (hdeleted : b.deleted = [])
    (hunique : ∀ conversationId k, (withKey b.activities conversationId k).length ≤ 1)
    (hunused : withKey b.activities o.conversationId (clientKey o.userId c) = []) :
    Inv cfg o c {base := b} := by
  have hnone : ∀ pid call, b.calls pid ≠ some call := by
    intro pid call hcall
    cases (hinitial.calls pid).symm.trans hcall
  refine ⟨⟨hinitial.serialised, ⟨hunique, ?_⟩, hdeleted, ?_, ?_⟩, ?_, ?_⟩
  · intro pid call hcall
    exact absurd hcall (hnone pid call)
  · intro pid call hcall
    exact absurd hcall (hnone pid call)
  · intro a ha hunder
    have hmem : a ∈ withKey b.activities o.conversationId (clientKey o.userId c) :=
      mem_withKey.mpr ⟨ha, hunder⟩
    rw [hunused] at hmem
    cases hmem
  · intro pid c' hwaiting
    cases hwaiting
  · intro ack hack
    cases hack

end

/-- Requests and sends run in any order, one statement at a time. As long as no request in the
conversation takes the key of the `clientId`, at most one activity is stored under it, which is one the
user sent with the `clientId`; every acknowledgement of the `clientId` carries the id and the number
of that activity; and the first send, once it is let through, stores a new one and acknowledges it. -/
theorem acks_own_activity (cfg : Config) (o : Session) (c : String) (b : CreateActivity.State)
    (hinitial : b.Initial) (hdeleted : b.deleted = [])
    (hunique : ∀ conversationId k, (withKey b.activities conversationId k).length ≤ 1)
    (hunused : withKey b.activities o.conversationId (clientKey o.userId c) = []) (es : List Event)
    (hspares : ∀ e ∈ es, Spares o c e) (s : State) (hrun : run (step cfg o) {base := b} es = some s) :
    (withKey s.base.activities o.conversationId (clientKey o.userId c)).length ≤ 1 ∧
      (∀ a ∈ withKey s.base.activities o.conversationId (clientKey o.userId c),
        ∃ send ∈ s.sent, send.clientId = some c ∧ StoredBy o send a) ∧
      (∀ ack ∈ s.acks, ack.clientId = c →
        ∃ a, withKey s.base.activities o.conversationId (clientKey o.userId c) = [a] ∧
          ack.id = a.id ∧ ack.seq = a.seq) ∧
      ∀ pid send out cv ch target, (∀ other ∈ s.sent, other.clientId ≠ some c) →
        send.clientId = some c → isClientId c = true →
        Accepted cfg o s.base pid send out cv ch target →
        ∃ t a, run (step cfg o) s
            (.send pid send :: List.replicate 9 (.statement pid out) ++ [.ack pid]) = some t ∧
          StoredBy o send a ∧ t.base.activities = s.base.activities ++ [a] ∧
          t.acks = s.acks ++ [⟨c, a.id, a.seq, false⟩] := by
  have hinv : Inv cfg o c s :=
    run_invariant_forall Inv.step (Inv.start hinitial hdeleted hunique hunused) hspares hrun
  have hone := hinv.base.keys.unique o.conversationId (clientKey o.userId c)
  refine ⟨hone, fun a ha => ?_, fun ack hack hc => ?_, ?_⟩
  · obtain ⟨hin, hunder⟩ := mem_withKey.mp ha
    exact hinv.base.rows a hin hunder
  · obtain ⟨a, ha, hunder, hid, hseq⟩ := hinv.acks ack hack hc
    exact ⟨a, eq_singleton_of_mem (mem_withKey.mpr ⟨ha, hunder⟩) hone, hid, hseq⟩
  · intro pid send out cv ch target hfirst hid hvalid haccepted
    exact hinv.first_send hfirst hid hvalid haccepted

def visitor : Session where
  userId := "u"
  tenantId := 1
  conversationId := 7
  channelId := 1

def greeting : Send where
  clientId := some "c"
  content := { text := some "hello" }

def requestOf (key : String) : List Event :=
  .post 0 { keyedAttrs key with sender := some "eve" } ::
    List.replicate 9 (.statement 0 {id := 0, now := 100})

def requested (key : String) : Activity := { keyedActivity 0 1 100 (some key) with sender := "eve" }

theorem spares_requestOf : ∀ e ∈ requestOf "k", Spares visitor "c" e := by
  intro e he
  rcases List.mem_cons.mp he with rfl | he
  · intro _ hkey
    exact absurd hkey (by decide)
  · rw [List.eq_of_mem_replicate he]
    trivial

theorem acks_own_activity_greeting :
    ∃ s t a, run (step monthly visitor) {base := newConversation} (requestOf "k") = some s ∧
      run (step monthly visitor) s (.send 1 greeting ::
        List.replicate 9 (.statement 1 {id := 1, now := 101}) ++ [.ack 1]) = some t ∧
      StoredBy visitor greeting a ∧ t.base.activities = [requested "k", a] ∧
      t.acks = [⟨"c", a.id, a.seq, false⟩] := by
  obtain ⟨s, hs, hsent, hacks, hrows, hfree, hconv, hlock⟩ : ∃ s,
      run (step monthly visitor) {base := newConversation} (requestOf "k") = some s ∧
      s.sent = [] ∧ s.acks = [] ∧ s.base.activities = [requested "k"] ∧
        s.base.calls 1 = none ∧ s.base.conversations 7 = some {id := 7, lastSeq := 1} ∧
        s.base.locks 7 = none := by decide +kernel
  obtain ⟨-, -, -, hfirst⟩ := acks_own_activity monthly visitor "c" newConversation
    newConversation_initial rfl (fun _ _ => Nat.zero_le 1) rfl (requestOf "k") spares_requestOf s hs
  obtain ⟨t, a, ht, hby, hstored, hack⟩ := hfirst 1 greeting {id := 1, now := 101}
    {id := 7, lastSeq := 1} _ none (by rw [hsent]; simp) rfl (by decide)
    ⟨hfree, hconv, rfl, hlock, rfl, rfl, rfl, rfl⟩
  rw [hrows] at hstored
  rw [hacks] at hack
  exact ⟨s, t, a, hs, ht, hby, hstored, hack⟩

/-- A request of another sender under the user's key: the user's first send with the `clientId` stores
nothing and is acknowledged with that sender's activity. -/
theorem request_takes_key :
    (run (step monthly visitor) {base := newConversation}
        (requestOf "ws:u:c" ++ [.send 1 greeting])).map
      (fun s => (s.base.activities, s.acks)) =
      some ([requested "ws:u:c"], [⟨"c", 0, 1, true⟩]) := by
  decide +kernel

end Converger.SocketKeys
