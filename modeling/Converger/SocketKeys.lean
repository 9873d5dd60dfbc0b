import Converger.ClientKeys
import Converger.CreateActivityKeys

/-!
# Sends of a user beside REST requests

A user sends messages over connections while other callers create activities in the conversation over
REST. Both store an idempotency key in one column: a send joins the user and its `clientId`, a request
takes its `X-Idempotency-Key` header as it is. As long as no request takes a key of the user, every
acknowledgement of a `clientId` is about the one activity that the user sent with it.
-/
namespace Converger.SocketKeys
open ActivityChangeset ClientKeys CreateActivity Function Option Text

/-! ### Sends -/

structure Content where
  text : Option String
  replyToId : Option Uuid := none
  hasAttachments : Bool := false
  contentErrors : List FieldError := []
  deriving DecidableEq, Repr

/-- A send, with the random part of the key that a turn with `meta` gets in place of a `clientId`. -/
structure Send where
  clientId : Option String
  metaKey : Option String := none
  content : Content
  deriving DecidableEq, Repr

structure Session where
  userId : String
  tenantId : Uuid
  conversationId : Uuid
  channelId : Uuid

namespace Session

/-- `idempotency_key/2`. -/
def key (o : Session) (send : Send) : Option String := send.clientId.map (clientKey o.userId)

def attrs (o : Session) (send : Send) : Attrs where
  type := some "message"
  text := send.content.text
  replyToId := send.content.replyToId
  hasAttachments := send.content.hasAttachments
  contentErrors := send.content.contentErrors
  tenantId := some o.tenantId
  conversationId := some o.conversationId
  sender := some o.userId
  idempotencyKey := (o.key send).or (send.metaKey.map ("meta-" ++ ·))
  sourceChannelId := some o.channelId

end Session

structure Ack where
  clientId : String
  id : Uuid
  seq : ℕ
  duplicate : Bool
  deriving DecidableEq, Repr

/-- The tables and calls; what was sent so far, the `clientId`s whose calls are awaited, and the
acknowledgements. -/
structure State where
  base : CreateActivity.State
  sent : List Send := []
  waiting : ℕ → Option String := fun _ => none
  acks : List Ack := []

inductive Event where
  | post (pid : ℕ) (attrs : Attrs)
  | send (pid : ℕ) (send : Send)
  | statement (pid : ℕ) (out : Outcome)
  | crash (pid : ℕ)
  | transition (conversationId : Uuid) (status : ConversationStatus)
  | ack (pid : ℕ)

/-- `persist/4`: the look-up of the key, and the answer or the call that follows it. -/
def persist (cfg : Config) (o : Session) (s : State) (pid : ℕ) (send : Send) : Option State :=
  match getBy ((o.key send).toList.flatMap (withKey s.base.activities o.conversationId)) with
  | .error _ => some {s with sent := s.sent ++ [send]}
  | .ok (some existing) => some {s with
      sent := s.sent ++ [send]
      acks := s.acks ++
        (send.clientId.map fun c => ⟨c, existing.id, existing.seq, true⟩).toList}
  | .ok none => (CreateActivity.step cfg s.base (.call pid (o.attrs send) {})).map fun base => {s with
      base
      sent := s.sent ++ [send]
      waiting := update s.waiting pid send.clientId}

/-- A send or a request begins, a call makes a step, or a send whose call has stored its activity is
acknowledged. A `clientId` that is none is refused. -/
def step (cfg : Config) (o : Session) (s : State) : Event → Option State
  | .post pid attrs =>
    (CreateActivity.step cfg s.base (.call pid attrs {})).map fun base => {s with base}
  | .send pid send => if send.clientId.all isClientId then persist cfg o s pid send else some s
  | .statement pid out =>
    (CreateActivity.step cfg s.base (.statement pid out)).map fun base => {s with base}
  | .crash pid => (CreateActivity.step cfg s.base (.crash pid)).map fun base => {s with base}
  | .transition c status =>
    (CreateActivity.step cfg s.base (.transition c status)).map fun base => {s with base}
  | .ack pid =>
    match s.waiting pid, (s.base.calls pid).map Call.phase with
    | some c, some (.done (.ok a)) => some {s with
        waiting := update s.waiting pid none
        acks := s.acks ++ [⟨c, a.id, a.seq, false⟩]}
    | _, _ => none

/-! ### What a call stores -/

def Built (cfg : Config) (attrs : Attrs) (internal : Bool) : Phase → Prop
  | .conversationExists ch | .existingUnderLock ch _ | .checkReference ch _ | .insert ch _ _ =>
    changeset cfg.maxTextBytes attrs internal = .ok ch
  | .stampTarget a _ | .enqueue a _ | .commit a _ =>
    ∃ ch seq id now, changeset cfg.maxTextBytes attrs internal = .ok ch ∧ a = toActivity ch seq id now
  | _ => True

def ActionBuilt (cfg : Config) (attrs : Attrs) (internal : Bool) : Action → Prop
  | .goto p | .acquire _ p | .leave p => Built cfg attrs internal p
  | .commit _ a stamp => Built cfg attrs internal (.commit a stamp)

section
variable {cfg : Config} {b : CreateActivity.State} {call : Call} {out : Outcome} {act : Action}

theorem next_built (hbuilt : Built cfg call.attrs call.opts.internal call.phase)
    (h : next cfg b call out = some act) : ActionBuilt cfg call.attrs call.opts.internal act := by
  have hnext := next_cases h
  generalize call.phase = p at hbuilt hnext
  cases hnext with
  | notAllocated hch | allocated hch => exact hch
  | inserted ch n id now => exact ⟨ch, n, id, now, hbuilt, rfl⟩
  | unused | plain | referenced | stamped | enqueued | committed => exact hbuilt
  | _ => trivial

end

/-! ### The invariant -/

/-- The activity is stored under the key of the user's `clientId`. -/
def Under (o : Session) (c : String) (a : Activity) : Prop :=
  a.conversationId = o.conversationId ∧ a.idempotencyKey = some (clientKey o.userId c)

structure StoredBy (o : Session) (send : Send) (a : Activity) : Prop where
  sender : a.sender = o.userId
  type : a.type = .message
  text : a.text = send.content.text.bind castText
  replyToId : a.replyToId = send.content.replyToId

/-- The key of the `clientId` is carried by the user's own sends only. -/
def Origin (o : Session) (c : String) (sent : List Send) (attrs : Attrs) : Prop :=
  attrs.conversationId = some o.conversationId →
    attrs.idempotencyKey = some (clientKey o.userId c) →
    ∃ send ∈ sent, send.clientId = some c ∧ attrs = o.attrs send

structure BaseInv (cfg : Config) (o : Session) (c : String) (sent : List Send)
    (b : CreateActivity.State) : Prop where
  serialised : Serialised b
  keys : KeyInvariant b
  deleted : b.deleted = []
  calls : ∀ pid call, b.calls pid = some call →
    Built cfg call.attrs call.opts.internal call.phase ∧ Origin o c sent call.attrs
  rows : ∀ a ∈ b.activities, Under o c a → ∃ send ∈ sent, send.clientId = some c ∧ StoredBy o send a

structure Inv (cfg : Config) (o : Session) (c : String) (s : State) : Prop where
  base : BaseInv cfg o c s.sent s.base
  waiting : ∀ pid c', s.waiting pid = some c' → ∃ call send, s.base.calls pid = some call ∧
    send.clientId = some c' ∧ call.attrs = o.attrs send
  acks : ∀ ack ∈ s.acks, ack.clientId = c →
    ∃ a ∈ s.base.activities, Under o c a ∧ ack.id = a.id ∧ ack.seq = a.seq

/-- What a step keeps: the calls with their attributes, and the activities with what identifies
them. -/
structure Keeps (b t : CreateActivity.State) : Prop where
  calls : ∀ pid call, b.calls pid = some call →
    ∃ call', t.calls pid = some call' ∧ call'.attrs = call.attrs
  rows : ∀ a ∈ b.activities, ∃ a' ∈ t.activities, a'.id = a.id ∧ a'.seq = a.seq ∧
    a'.conversationId = a.conversationId ∧ a'.idempotencyKey = a.idempotencyKey

section
variable {cfg : Config} {o : Session} {c : String} {sent : List Send} {b t : CreateActivity.State}
  {pid : ℕ} {call : Call} {a : Activity} {act : Action}

theorem clientKey_inj {u c c' : String} : clientKey u c = clientKey u c' ↔ c = c' := by
  simp [clientKey]

theorem origin_attrs {send : Send} (hsend : send ∈ sent) : Origin o c sent (o.attrs send) := by
  intro _ hkey
  cases hid : send.clientId with
  | none =>
    have hmeta : (send.metaKey.map ("meta-" ++ ·)) = some (clientKey o.userId c) := by
      simpa [Session.attrs, Session.key, hid] using hkey
    obtain ⟨t, -, ht⟩ := map_eq_some_iff.mp hmeta
    exact absurd ht (meta_ne_key "" t c (.user o.userId))
  | some c' =>
    have heq : clientKey o.userId c' = clientKey o.userId c := by
      simpa [Session.attrs, Session.key, hid] using hkey
    exact ⟨send, hsend, by rw [hid, clientKey_inj.mp heq], rfl⟩

theorem Origin.mono {attrs : Attrs} {sent' : List Send} (h : Origin o c sent attrs)
    (hsent : sent ⊆ sent') : Origin o c sent' attrs := by
  intro hconv hkey
  obtain ⟨send, hsend, hrest⟩ := h hconv hkey
  exact ⟨send, hsent hsend, hrest⟩

theorem storedBy_of_built {internal : Bool} {attrs : Attrs} (hbuilt : ∃ ch seq id now,
      changeset cfg.maxTextBytes attrs internal = .ok ch ∧ a = toActivity ch seq id now)
    (horigin : Origin o c sent attrs) (hunder : Under o c a) :
    ∃ send ∈ sent, send.clientId = some c ∧ StoredBy o send a := by
  obtain ⟨ch, seq, id, now, hch, rfl⟩ := hbuilt
  obtain ⟨hconv, hkey⟩ := changeset_eq_ok hch
  obtain ⟨hinConv, hinKey⟩ := hunder
  have hattr : attrs.idempotencyKey = some (clientKey o.userId c) := by
    obtain ⟨k, hk, hcast⟩ := bind_eq_some_iff.mp (hkey.symm.trans hinKey)
    rw [hk, (castText_eq_some.mp hcast).2]
  obtain ⟨send, hsend, hid, rfl⟩ := horigin (hconv.trans (congrArg some hinConv)) hattr
  obtain ⟨htype, hsender, htext, hreply⟩ := content_of_changeset hch
  have hmessage : castType (some "message") = some .message := by decide
  refine ⟨send, hsend, hid, ⟨?_, ?_, htext, hreply⟩⟩
  · exact ((castText_eq_some.mp hsender).2).symm
  · exact some.inj (htype.symm.trans hmessage)

theorem StoredBy.stamp {send : Send} (h : StoredBy o send a) (st : Stamp) :
    StoredBy o send (st.apply a) := by
  unfold Stamp.apply
  split
  · split
    · exact ⟨h.sender, h.type, h.text, h.replyToId⟩
    · exact ⟨h.sender, h.type, h.text, h.replyToId⟩
  · exact h

theorem mem_applyStamp {stamp : Option Stamp} {rows : List Activity}
    (h : a ∈ applyStamp stamp rows) : ∃ a' ∈ rows, a.id = a'.id ∧ a.seq = a'.seq ∧
      a.conversationId = a'.conversationId ∧ a.idempotencyKey = a'.idempotencyKey ∧
      ∀ send, StoredBy o send a' → StoredBy o send a := by
  cases stamp with
  | none => exact ⟨a, h, rfl, rfl, rfl, rfl, fun _ h => h⟩
  | some st =>
    obtain ⟨a', ha', rfl⟩ := List.mem_map.mp h
    exact ⟨a', ha', by simp, by simp, by simp, by simp, fun _ h => h.stamp st⟩

theorem Keeps.refl (b : CreateActivity.State) : Keeps b b :=
  ⟨fun _ call h => ⟨call, h, rfl⟩, fun a ha => ⟨a, ha, rfl, rfl, rfl, rfl⟩⟩

theorem keeps_setPhase {u : CreateActivity.State} {p : Phase} (hcall : b.calls pid = some call)
    (hcalls : u.calls = b.calls)
    (hrows : ∀ a ∈ b.activities, ∃ a' ∈ u.activities, a'.id = a.id ∧ a'.seq = a.seq ∧
      a'.conversationId = a.conversationId ∧ a'.idempotencyKey = a.idempotencyKey) :
    Keeps b (u.setPhase pid call p) := by
  refine ⟨fun q call' hq => ?_, hrows⟩
  by_cases heq : q = pid
  · subst heq
    cases hcall.symm.trans hq
    exact ⟨{call with phase := p}, update_self .., rfl⟩
  · refine ⟨call', ?_, rfl⟩
    rw [State.setPhase, hcalls]
    exact (update_of_ne heq _ _).trans hq

theorem mem_applyStamp_of_mem (stamp : Option Stamp) {rows : List Activity} (h : a ∈ rows) :
    ∃ a' ∈ applyStamp stamp rows, a'.id = a.id ∧ a'.seq = a.seq ∧
      a'.conversationId = a.conversationId ∧ a'.idempotencyKey = a.idempotencyKey := by
  cases stamp with
  | none => exact ⟨a, h, rfl, rfl, rfl, rfl⟩
  | some st => exact ⟨st.apply a, List.mem_map_of_mem h, by simp, by simp, by simp, by simp⟩

section
variable (h : BaseInv cfg o c sent b)
include h

theorem BaseInv.calls_setPhase {u : CreateActivity.State} {p : Phase}
    (hcall : b.calls pid = some call) (hcalls : u.calls = b.calls)
    (hp : Built cfg call.attrs call.opts.internal p) :
    ∀ q call', (u.setPhase pid call p).calls q = some call' →
      Built cfg call'.attrs call'.opts.internal call'.phase ∧ Origin o c sent call'.attrs := by
  refine forall_calls_update.mpr ⟨⟨hp, (h.calls pid call hcall).2⟩, fun q _ call' hq => ?_⟩
  exact h.calls q call' (hcalls ▸ hq)

theorem BaseInv.rows_commit (hcall : b.calls pid = some call)
    {stamp : Option Stamp} (hbuilt : Built cfg call.attrs call.opts.internal (.commit a stamp)) :
    ∀ x ∈ applyStamp stamp b.activities ++ [a], Under o c x →
      ∃ send ∈ sent, send.clientId = some c ∧ StoredBy o send x := by
  intro x hx hunder
  rcases List.mem_append.mp hx with hx | hx
  · obtain ⟨y, hy, -, -, hconv, hkey, hstored⟩ := mem_applyStamp (o := o) hx
    obtain ⟨send, hsend, hid, hby⟩ := h.rows y hy ⟨hconv ▸ hunder.1, hkey ▸ hunder.2⟩
    exact ⟨send, hsend, hid, hstored send hby⟩
  · cases List.mem_singleton.mp hx
    exact storedBy_of_built hbuilt (h.calls pid call hcall).2 hunder

theorem BaseInv.perform (hcall : b.calls pid = some call)
    (hbuilt : ActionBuilt cfg call.attrs call.opts.internal act)
    (hser : Serialised (perform b pid call act)) (hkeys : KeyInvariant (perform b pid call act)) :
    BaseInv cfg o c sent (perform b pid call act) ∧ Keeps b (perform b pid call act) := by
  have hsame : ∀ a ∈ b.activities, ∃ a' ∈ b.activities, a'.id = a.id ∧ a'.seq = a.seq ∧
      a'.conversationId = a.conversationId ∧ a'.idempotencyKey = a.idempotencyKey :=
    fun a ha => ⟨a, ha, rfl, rfl, rfl, rfl⟩
  cases act with
  | goto p | acquire cv p =>
    exact ⟨⟨hser, hkeys, h.deleted, h.calls_setPhase hcall rfl hbuilt, h.rows⟩,
      keeps_setPhase hcall rfl hsame⟩
  | leave p =>
    have hactivities : (b.unlock call.phase.lock).activities = b.activities :=
      State.unlock_activities _ _
    refine ⟨⟨hser, hkeys, ?_, h.calls_setPhase hcall (State.unlock_calls _ _) hbuilt, ?_⟩,
      keeps_setPhase hcall (State.unlock_calls _ _) (hactivities.symm ▸ hsame)⟩
    · exact (State.unlock_deleted _ _).trans h.deleted
    · intro a ha
      exact h.rows a (hactivities ▸ ha)
  | commit cv a stamp =>
    refine ⟨⟨hser, hkeys, h.deleted, h.calls_setPhase hcall rfl trivial, ?_⟩,
      keeps_setPhase hcall rfl ?_⟩
    · exact h.rows_commit hcall hbuilt
    · intro x hx
      obtain ⟨y, hy, hfields⟩ := mem_applyStamp_of_mem stamp hx
      exact ⟨y, List.mem_append_left _ hy, hfields⟩

theorem BaseInv.ongoing {e : CreateActivity.Event} (he : e.isOngoing = true)
    (ht : CreateActivity.step cfg b e = some t) : BaseInv cfg o c sent t ∧ Keeps b t := by
  have hser := h.serialised.moves (step_moves ht)
  have hkeys := h.keys.moves h.serialised (step_moves ht)
  cases e with
  | call pid attrs opts | deleteActivity id => cases he
  | statement pid out =>
    obtain ⟨call, hcall, ht⟩ := bind_eq_some_iff.mp ht
    obtain ⟨act, hnext, rfl⟩ := map_eq_some_iff.mp ht
    exact h.perform hcall (next_built (h.calls pid call hcall).1 hnext) hser hkeys
  | crash pid =>
    obtain ⟨call, hcall, ht⟩ := bind_eq_some_iff.mp ht
    split at ht <;> cases ht
    exact h.perform hcall trivial hser hkeys
  | transition cv status =>
    simp only [CreateActivity.step] at ht
    split at ht
    · cases ht
      exact ⟨h, .refl _⟩
    · split_ifs at ht
      · cases ht
        exact ⟨h, .refl _⟩
      · cases ht
        exact ⟨⟨hser, hkeys, h.deleted, h.calls, h.rows⟩, (Keeps.refl b).calls, (Keeps.refl b).rows⟩

theorem BaseInv.start {attrs : Attrs} (horigin : Origin o c sent attrs)
    (ht : CreateActivity.step cfg b (.call pid attrs {}) = some t) :
    BaseInv cfg o c sent t ∧ Keeps b t ∧ ∃ call, t.calls pid = some call ∧ call.attrs = attrs := by
  have hser := h.serialised.moves (step_moves ht)
  have hkeys := h.keys.moves h.serialised (step_moves ht)
  obtain ⟨hfree, rfl⟩ := ite_some_none_eq_some.mp ht
  refine ⟨⟨hser, hkeys, h.deleted, ?_, h.rows⟩, ⟨?_, (Keeps.refl b).rows⟩, _, update_self .., rfl⟩
  · exact forall_calls_update.mpr ⟨⟨trivial, horigin⟩, fun q _ call' hq => h.calls q call' hq⟩
  · intro q call' hq
    have hne : q ≠ pid := by
      rintro rfl
      cases hfree.symm.trans hq
    exact ⟨call', (update_of_ne hne _ _).trans hq, rfl⟩

theorem BaseInv.mono {sent' : List Send} (hsent : sent ⊆ sent') : BaseInv cfg o c sent' b := by
  refine ⟨h.serialised, h.keys, h.deleted, fun pid call hcall => ?_, fun a ha hunder => ?_⟩
  · exact ⟨(h.calls pid call hcall).1, (h.calls pid call hcall).2.mono hsent⟩
  · obtain ⟨send, hsend, hrest⟩ := h.rows a ha hunder
    exact ⟨send, hsent hsend, hrest⟩

end

end

end Converger.SocketKeys
