import Converger.Activity
import Converger.GuardedRuns

/-!
# A conversation of the TypeScript client

`Conversation` of the client package: its outbox with the sends that are in flight, the watermark
with the seqs seen above it, and what it knows of its own turns. The client handles one thing at a
time, so an event is a call of the application, a frame of the server, the end of a connection or a
timer, with everything the client does at once.
-/
namespace Converger.ClientConversation
open Function

/-! ### The outbox -/

structure Entry where
  clientId : String
  attempts : ℕ := 0
  deriving DecidableEq, Repr

inductive Move where
  | takeoff (clientId : String)
  | landing (clientId : String)
  deriving DecidableEq, Repr

/-- The entries of the store, the sends in flight, the retry times and the promises of `send/1`, each
with a number of its own. `wire` and `unanswered` are about the present connection: its moves, and
the sends on it the server has not answered yet. -/
structure Outbox where
  entries : List Entry := []
  inFlight : List String := []
  maxInFlight : ℕ := 32
  retryAt : String → Option ℕ := fun _ => none
  waiting : List (String × ℕ) := []
  promises : ℕ := 0
  settled : List ℕ := []
  wire : List Move := []
  unanswered : List String := []

namespace Outbox

def ids (o : Outbox) : List String := o.entries.map Entry.clientId

def touch (clientId : String) : List Entry → List Entry
  | [] => []
  | entry :: entries =>
    if entry.clientId = clientId then {entry with attempts := entry.attempts + 1} :: entries
    else entry :: touch clientId entries

def remove (o : Outbox) (clientId : String) : Outbox :=
  {o with entries := o.entries.eraseP (·.clientId = clientId)}

/-- `store.load`, of what another session has left in the storage. -/
def load (o : Outbox) (stored : List Entry) : Outbox :=
  {o with entries := stored.filter (·.clientId ∉ o.ids) ++ o.entries}

/-- `inFlight.delete`. -/
def land (o : Outbox) (clientId : String) : Outbox :=
  if clientId ∈ o.inFlight then
    {o with inFlight := o.inFlight.filter (· ≠ clientId), wire := o.wire ++ [.landing clientId]}
  else o

def transmit (o : Outbox) (clientId : String) : Outbox :=
  {o with
    entries := touch clientId o.entries
    inFlight := o.inFlight ++ [clientId]
    wire := o.wire ++ [.takeoff clientId]
    unanswered := o.unanswered ++ [clientId]}

/-- The loop of `#flush`. The transport takes `sends` frames and refuses the next one. -/
def flushLoop (now : ℕ) : ℕ → List Entry → Outbox → Outbox
  | _, [], o => o
  | sends, entry :: entries, o =>
    if o.maxInFlight ≤ o.inFlight.length then o
    else if entry.clientId ∈ o.inFlight then flushLoop now sends entries o
    else if (o.retryAt entry.clientId).any (now < ·) then flushLoop now sends entries o
    else
      let o := {o with retryAt := update o.retryAt entry.clientId none}
      match sends with
      | 0 => o
      | sends + 1 => flushLoop now sends entries (o.transmit entry.clientId)

def settlePromise (o : Outbox) (clientId : String) : Outbox :=
  {o with
    settled := o.settled ++ (o.waiting.filter (·.1 = clientId)).map Prod.snd
    waiting := o.waiting.filter (·.1 ≠ clientId)}

def rejectWaiting (o : Outbox) : Outbox :=
  {o with settled := o.settled ++ o.waiting.map Prod.snd, waiting := []}

/-- `#settle`, and the end of a send in `#onError`. -/
def settle (o : Outbox) (clientId : String) : Outbox :=
  let o := o.land clientId
  let o := {o with retryAt := update o.retryAt clientId none}
  (o.remove clientId).settlePromise clientId

def retryLater (o : Outbox) (clientId : String) (time : ℕ) : Outbox :=
  let o := o.land clientId
  {o with retryAt := update o.retryAt clientId (some time)}

def answered (o : Outbox) (clientId : String) : Outbox :=
  {o with unanswered := o.unanswered.erase clientId}

/-- `send/1`, up to the flush; it is refused after a fatal close and for a pending `clientId`. -/
def send (o : Outbox) (fatal : Bool) (clientId : String) : Outbox :=
  if fatal ∨ clientId ∈ o.ids ∨ clientId ∈ o.waiting.map Prod.fst then
    {o with settled := o.settled ++ [o.promises], promises := o.promises + 1}
  else
    {o with
      waiting := o.waiting ++ [(clientId, o.promises)]
      promises := o.promises + 1
      entries := o.entries ++ [{clientId}]}

/-- `discardOutbox/0`. What is in flight stays so. -/
def discard (o : Outbox) : Outbox := {o with entries := []}.rejectWaiting

def disconnected (o : Outbox) : Outbox := {o with inFlight := [], wire := [], unanswered := []}

end Outbox

/-! ### Received frames -/

/-- The watermark, the seqs seen above it, and the seqs and ids of own turns. Since the conversation
was last replaced or started over: the watermark it started at, the seqs of the frames received and
of the sends acknowledged, and the seqs handed to the application. -/
structure Inbox where
  watermark : ℕ := 0
  seen : List ℕ := []
  ownSeqs : List ℕ := []
  ownIds : List Uuid := []
  epoch : ℕ := 0
  start : ℕ := 0
  received : List ℕ := []
  acked : List ℕ := []
  emitted : List ℕ := []

namespace Inbox

/-- The loop of `#markSeen`, which runs at most once for every seq seen. -/
def drain : ℕ → Inbox → Inbox
  | 0, i => i
  | fuel + 1, i =>
    if i.watermark + 1 ∈ i.seen then
      drain fuel {i with
        seen := i.seen.filter (· ≠ i.watermark + 1)
        watermark := i.watermark + 1
        ownSeqs := i.ownSeqs.filter (· ≠ i.watermark + 1)}
    else i

def markSeen (i : Inbox) (seq : ℕ) : Inbox :=
  if seq ≤ i.watermark then i
  else
    let i := {i with seen := if seq ∈ i.seen then i.seen else i.seen ++ [seq]}
    i.drain i.seen.length

def maxOwnIds : ℕ := 1000

/-- What `#settle` remembers of an own turn. -/
def remember (i : Inbox) (seq : ℕ) (id : Uuid) : Inbox :=
  let ids := if id ∈ i.ownIds then i.ownIds else i.ownIds ++ [id]
  {i with
    ownSeqs := if i.watermark < seq ∧ seq ∉ i.ownSeqs then i.ownSeqs ++ [seq] else i.ownSeqs
    ownIds := if maxOwnIds < ids.length then ids.tail else ids}

def reset (i : Inbox) : Inbox :=
  {i with
    watermark := 0, seen := []
    epoch := i.epoch + 1, start := 0, received := [], acked := [], emitted := []}

def duplicate (i : Inbox) (seq : ℕ) : Bool := seq ≤ i.watermark ∨ seq ∈ i.seen

def receive (i : Inbox) (seq : ℕ) : Inbox := {i with received := i.received ++ [seq]}

def arrive (i : Inbox) (seq : ℕ) : Inbox := (i.receive seq).markSeen seq

def emit (i : Inbox) (seq : ℕ) : Inbox := {i with emitted := i.emitted ++ [seq]}

def acknowledge (i : Inbox) (seq : ℕ) : Inbox := {i with acked := i.acked ++ [seq]}.markSeen seq

end Inbox

/-! ### The client -/

inductive Phase where
  | connecting | reconnecting | open | closed
  deriving DecidableEq, Repr

structure Client where
  outbox : Outbox := {}
  inbox : Inbox := {}
  conversationId : Option String := none
  phase : Phase := .connecting
  transport : Bool := false
  stopped : Bool := false
  fatal : Bool := false
  replaying : Bool := false
  replayTarget : ℕ := 0
  clock : ℕ := 0

/-- After `start/0` (no conversation, watermark 0, nothing stored) or `resume/1`. -/
def opened (conversationId : Option String) (watermark : ℕ) (stored : List Entry) : Client where
  outbox := {entries := stored}
  inbox := {watermark, start := watermark}
  conversationId := conversationId

inductive ErrorCode where
  | rateLimited | tooManyInFlight | unavailable | internal
  | tokenExpired | replayUnavailable | invalidWatermark
  | other (code : String)
  deriving DecidableEq, Repr

structure ErrorFrame where
  code : ErrorCode
  retryable : Bool := false
  retryAfterMs : Option ℕ := none
  clientId : Option String := none
  frameType : Option String := none
  deriving DecidableEq, Repr

/-- `RETRYABLE_SEND_ERRORS`, or an error that says so itself. -/
def ErrorFrame.retries (frame : ErrorFrame) : Bool :=
  frame.code ∈ [.rateLimited, .tooManyInFlight, .unavailable, .internal] ∨
    (frame.retryable ∧ frame.code ≠ .tokenExpired)

/-- A persistent frame; `fromUser` where its `from` is `"user"`. -/
structure Frame where
  seq : ℕ
  clientId : Option String := none
  fromUser : Bool := false
  deriving DecidableEq, Repr

/-- The activities of the server: the id under every seq, for each time the conversation was replaced
or started over, and which ids are turns this client has sent. -/
structure Config where
  log : ℕ → ℕ → Uuid
  own : Uuid → Bool

namespace Client

def flush (c : Client) (sends : ℕ) : Client :=
  if c.phase = .open ∧ c.transport ∧ ¬ c.replaying then
    {c with outbox := c.outbox.flushLoop c.clock sends c.outbox.entries}
  else c

/-- `#endReplay(true)`. -/
def endReplay (c : Client) (sends : ℕ) : Client :=
  if c.replaying then {c with replaying := false}.flush sends else c

/-- `#close`. -/
def shut (c : Client) : Client :=
  {c with
    stopped := true, fatal := true, transport := false, phase := .closed
    outbox := c.outbox.rejectWaiting}

/-- `#onWelcome`, up to the attachment of the store. -/
def onWelcome (c : Client) (conversationId : String) (maxInFlight head : Option ℕ) : Client :=
  let replaced := conversationId ≠ "" ∧ c.conversationId.any (· ≠ conversationId)
  let inbox := if replaced then c.inbox.reset else c.inbox
  {c with
    inbox
    conversationId := if conversationId = "" then c.conversationId else some conversationId
    outbox := {c.outbox with
      maxInFlight := ((maxInFlight.filter (0 < ·)).getD c.outbox.maxInFlight)}
    replaying := head.any (inbox.watermark < ·)
    replayTarget := if head.any (inbox.watermark < ·) then head.getD 0 else c.replayTarget
    phase := .open}

/-- The entry `#ownTurn` finds for a frame. -/
def ownTurn (c : Client) (frame : Frame) : Option String :=
  frame.clientId.filter fun clientId => frame.fromUser ∧ clientId ∈ c.outbox.ids

/-- `#onPersistent`, up to the end of the replay. -/
def receive (c : Client) (frame : Frame) (id : Uuid) : Client :=
  if c.inbox.duplicate frame.seq then {c with inbox := c.inbox.receive frame.seq}
  else
    let inbox := c.inbox.arrive frame.seq
    match c.ownTurn frame with
    | some clientId =>
      {c with inbox := inbox.remember frame.seq id, outbox := c.outbox.settle clientId}
    | none =>
      if frame.seq ∈ inbox.ownSeqs ∨ id ∈ inbox.ownIds then {c with inbox}
      else {c with inbox := inbox.emit frame.seq}

def onPersistent (c : Client) (frame : Frame) (id : Uuid) (sends : ℕ) : Client :=
  let c := c.receive frame id
  if c.replayTarget ≤ frame.seq then c.endReplay sends else c

def onAck (c : Client) (clientId : String) (seq : ℕ) (id : Uuid) (sends : ℕ) : Client :=
  {c with
    inbox := (c.inbox.acknowledge seq).remember seq id
    outbox := (c.outbox.answered clientId).settle clientId}.flush sends

/-- The end of `#onError`, for an error that is not about an entry. -/
def onOtherError (c : Client) (frame : ErrorFrame) (sends : ℕ) : Client :=
  match frame.code with
  | .replayUnavailable => c.endReplay sends
  | .invalidWatermark =>
    if frame.frameType ∈ [none, some "hello", some "sync"] then
      {c with inbox := c.inbox.reset}.endReplay sends
    else c
  | _ => c

def onError (c : Client) (frame : ErrorFrame) (sends : ℕ) : Client :=
  match frame.clientId with
  | none => c.onOtherError frame sends
  | some clientId =>
    let c := {c with outbox := c.outbox.answered clientId}
    if clientId ∈ c.outbox.ids then
      if frame.retries then
        let time := c.clock + frame.retryAfterMs.getD 1000
        {c with outbox := c.outbox.retryLater clientId time}
      else {c with outbox := c.outbox.settle clientId}.flush sends
    else c.onOtherError frame sends

/-- `#onClose`, and `#scheduleReconnect` or `#close` after it. -/
def onClose (c : Client) (gaveUp : Bool) : Client :=
  let c := {c with transport := false, replaying := false, outbox := c.outbox.disconnected}
  if gaveUp then c.shut else {c with phase := .reconnecting}

end Client

inductive Event where
  | send (clientId : String) (sends : ℕ)
  | discard
  | disconnect
  /-- `#connect`, and its failure. -/
  | connect
  | refused (gaveUp : Bool)
  | welcome (conversationId : String) (maxInFlight head : Option ℕ)
  /-- The store is attached to the conversation. -/
  | attached (stored : List Entry) (sends : ℕ)
  | frame (frame : Frame) (sends : ℕ)
  | ack (clientId : String) (seq : ℕ) (sends : ℕ)
  | error (frame : ErrorFrame) (sends : ℕ)
  | replayTruncated (headSeq : ℕ)
  | close (gaveUp : Bool)
  | replayTimer (sends : ℕ)
  | retryTimer (sends : ℕ)
  | tick (ms : ℕ)
  deriving DecidableEq

/-- The frames and acks of the server are those of its activities: a frame with the `clientId` of an
entry is a turn of this client, and so is an acknowledged one. -/
def step (cfg : Config) (c : Client) : Event → Option Client
  | .send clientId sends =>
    some ({c with outbox := c.outbox.send c.fatal clientId}.flush sends)
  | .discard => some {c with outbox := c.outbox.discard}
  | .disconnect =>
    some {c with
      stopped := true, transport := false, phase := .closed, outbox := c.outbox.rejectWaiting}
  | .connect =>
    if c.stopped ∨ c.transport ∨ c.phase = .open then none else some {c with transport := true}
  | .refused gaveUp =>
    if c.stopped ∨ c.transport ∨ c.phase = .open then none
    else some (if gaveUp then c.shut else {c with phase := .reconnecting})
  | .welcome conversationId maxInFlight head =>
    if c.transport ∧ c.phase ≠ .open then some (c.onWelcome conversationId maxInFlight head) else none
  | .attached stored sends => some ({c with outbox := c.outbox.load stored}.flush sends)
  | .frame frame sends =>
    let id := cfg.log c.inbox.epoch frame.seq
    if c.transport ∧ c.phase = .open ∧ 0 < frame.seq ∧ ((c.ownTurn frame).isSome → cfg.own id) then
      some (c.onPersistent frame id sends)
    else none
  | .ack clientId seq sends =>
    let id := cfg.log c.inbox.epoch seq
    if c.transport ∧ c.phase = .open ∧ cfg.own id then some (c.onAck clientId seq id sends) else none
  | .error frame sends => if c.transport then some (c.onError frame sends) else none
  | .replayTruncated headSeq =>
    if c.transport then some {c with replaying := true, replayTarget := headSeq} else none
  | .close gaveUp => if c.transport then some (c.onClose gaveUp) else none
  | .replayTimer sends => some (c.endReplay sends)
  | .retryTimer sends => some (c.flush sends)
  | .tick ms => some {c with clock := c.clock + ms}

inductive Result (cfg : Config) (c : Client) : Event → Client → Prop where
  | send (clientId : String) (sends : ℕ) : Result cfg c (.send clientId sends)
      ({c with outbox := c.outbox.send c.fatal clientId}.flush sends)
  | discard : Result cfg c .discard {c with outbox := c.outbox.discard}
  | disconnect : Result cfg c .disconnect
      {c with
        stopped := true, transport := false, phase := .closed, outbox := c.outbox.rejectWaiting}
  | connect (hrunning : ¬ c.stopped) (hphase : c.phase ≠ .open) :
      Result cfg c .connect {c with transport := true}
  | refused (hrunning : ¬ c.stopped) (hphase : c.phase ≠ .open) :
      Result cfg c (.refused false) {c with phase := .reconnecting}
  | gaveUp : Result cfg c (.refused true) c.shut
  | welcome (conversationId : String) (maxInFlight head : Option ℕ) (htransport : c.transport)
      (hphase : c.phase ≠ .open) : Result cfg c (.welcome conversationId maxInFlight head)
      (c.onWelcome conversationId maxInFlight head)
  | attached (stored : List Entry) (sends : ℕ) : Result cfg c (.attached stored sends)
      ({c with outbox := c.outbox.load stored}.flush sends)
  | frame (frame : Frame) (sends : ℕ)
      (hown : (c.ownTurn frame).isSome → cfg.own (cfg.log c.inbox.epoch frame.seq)) :
      Result cfg c (.frame frame sends)
      (c.onPersistent frame (cfg.log c.inbox.epoch frame.seq) sends)
  | ack (clientId : String) (seq sends : ℕ) (hown : cfg.own (cfg.log c.inbox.epoch seq)) :
      Result cfg c (.ack clientId seq sends)
      (c.onAck clientId seq (cfg.log c.inbox.epoch seq) sends)
  | error (frame : ErrorFrame) (sends : ℕ) : Result cfg c (.error frame sends)
      (c.onError frame sends)
  | replayTruncated (headSeq : ℕ) : Result cfg c (.replayTruncated headSeq)
      {c with replaying := true, replayTarget := headSeq}
  | close (gaveUp : Bool) : Result cfg c (.close gaveUp) (c.onClose gaveUp)
  | replayTimer (sends : ℕ) : Result cfg c (.replayTimer sends) (c.endReplay sends)
  | retryTimer (sends : ℕ) : Result cfg c (.retryTimer sends) (c.flush sends)
  | tick (ms : ℕ) : Result cfg c (.tick ms) {c with clock := c.clock + ms}

theorem result_of_step {cfg : Config} {c d : Client} {e : Event} (h : step cfg c e = some d) :
    Result cfg c e d := by
  cases e with
  | send clientId sends | discard | disconnect | attached stored sends | replayTimer sends
  | retryTimer sends | tick ms =>
    cases h
    constructor
  | connect =>
    obtain ⟨hready, h⟩ := Option.ite_none_left_eq_some.mp h
    cases h
    exact .connect (fun hstopped => hready (.inl hstopped)) fun hopen => hready (.inr (.inr hopen))
  | refused gaveUp =>
    obtain ⟨hready, h⟩ := Option.ite_none_left_eq_some.mp h
    cases gaveUp with
    | true =>
      cases h
      exact .gaveUp
    | false =>
      cases h
      exact .refused (fun hstopped => hready (.inl hstopped)) fun hopen => hready (.inr (.inr hopen))
  | welcome conversationId maxInFlight head =>
    obtain ⟨hready, rfl⟩ := Option.ite_some_none_eq_some.mp h
    exact .welcome conversationId maxInFlight head hready.1 hready.2
  | frame frame sends =>
    obtain ⟨hready, rfl⟩ := Option.ite_some_none_eq_some.mp h
    exact .frame frame sends hready.2.2.2
  | ack clientId seq sends =>
    obtain ⟨hready, rfl⟩ := Option.ite_some_none_eq_some.mp h
    exact .ack clientId seq sends hready.2.2
  | error frame sends | replayTruncated headSeq | close gaveUp =>
    obtain ⟨-, rfl⟩ := Option.ite_some_none_eq_some.mp h
    constructor

end Converger.ClientConversation
