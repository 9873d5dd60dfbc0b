import Converger.GuardedRuns

/-!
# The Discord Gateway connection

`Discord.Gateway`, without the delays.
-/
namespace Converger.DiscordGateway
open GuardedRuns List Option

/-- `connects` and `heartbeats` are the generations of the timers that run, the first of them
`handle_continue/2`; `sent` has RESUME, with its session and seq, and IDENTIFY. -/
structure State where
  generation : ℕ := 0
  conn : Bool := false
  websocket : Bool := false
  heartbeatInterval : Option ℕ := none
  acked : Bool := true
  sessionId : Option String := none
  resumeUrl : Option String := none
  seq : Option Int := none
  connects : List ℕ := [0]
  heartbeats : List ℕ := []
  sent : List (Option (Option String × Option Int)) := []
  crashed : Bool := false

def resumable (s : State) : Bool := s.sessionId.isSome && s.resumeUrl.isSome

def close (s : State) : State :=
  if s.conn then {s with conn := false, websocket := false, heartbeatInterval := none} else s

def scheduleReconnect (s : State) (resume : Bool) : State :=
  let s := close s
  let s := if resume then s else {s with sessionId := none, seq := none, resumeUrl := none}
  {s with generation := s.generation + 1, connects := s.connects ++ [s.generation + 1]}

def sendFrame (s : State) (ok : Bool) : State :=
  if s.websocket && !ok then scheduleReconnect s true else s

/-- `lost` is an error of the connection or of a frame. -/
inductive Message where
  | connect (generation : ℕ) (opened : Bool)
  | heartbeat (generation : ℕ)
  | lost
  | upgrade (accepted : Bool)
  | ping
  | close (code : ℕ)
  | hello (interval : ℕ)
  | heartbeatAck
  | heartbeatRequest
  | reconnect
  | invalidSession (resumable : Bool)
  | dispatch (s : Option Int) (ready : Option (Option String × Option String))

/-- The fatal close codes, and those that end a session. -/
def forgetCodes : List ℕ := [4004, 4010, 4011, 4012, 4013, 4014] ++ [4007, 4009]

/-- `ok` says whether a frame that is sent gets out. -/
def handle (s : State) (ok : Bool) : Message → State
  | .connect generation opened =>
    if generation ≠ s.generation then s
    else if opened then {s with conn := true, websocket := false}
    else scheduleReconnect s (resumable s)
  | .heartbeat generation =>
    if generation ≠ s.generation then s
    else if s.acked then
      let t := sendFrame {s with acked := false} ok
      match t.heartbeatInterval with
      | some _ => {t with heartbeats := t.heartbeats ++ [t.generation]}
      | none => {t with crashed := true}
    else scheduleReconnect s true
  | .lost | .reconnect => scheduleReconnect s true
  | .upgrade accepted => if accepted then {s with websocket := true} else scheduleReconnect s true
  | .ping | .heartbeatRequest => sendFrame s ok
  | .close code => scheduleReconnect s (code ∉ forgetCodes)
  | .hello interval =>
    sendFrame {s with
      heartbeatInterval := some interval
      acked := true
      heartbeats := s.heartbeats ++ [s.generation]
      sent := s.sent ++ [if resumable s then some (s.sessionId, s.seq) else none]} ok
  | .heartbeatAck => {s with acked := true}
  | .invalidSession resumable => scheduleReconnect s resumable
  | .dispatch n ready =>
    let s := {s with seq := n <|> s.seq}
    match ready with
    | some (sessionId, resumeUrl) => {s with sessionId, resumeUrl}
    | none => s

/-- The timers that run fire, and a connection has one HELLO. -/
def enabled (s : State) : Message → Bool
  | .connect generation _ => generation ∈ s.connects
  | .heartbeat generation => generation ∈ s.heartbeats
  | .lost => s.conn
  | .upgrade _ => s.conn && !s.websocket
  | .hello _ => s.websocket && !s.heartbeatInterval.isSome
  | _ => s.websocket

def fired (s : State) : Message → State
  | .connect generation _ => {s with connects := s.connects.erase generation}
  | .heartbeat generation => {s with heartbeats := s.heartbeats.erase generation}
  | _ => s

def step (s : State) (e : Message × Bool) : Option State :=
  if !s.crashed && enabled s e.1 then some (handle (fired s e.1) e.2 e.1) else none

structure Timers (s : State) : Prop where
  connects : ∀ g ∈ s.connects, g ≤ s.generation
  heartbeats : ∀ g ∈ s.heartbeats, g ≤ s.generation
  websocket : s.websocket → s.conn
  interval : s.heartbeatInterval.isSome → s.conn
  running : s.crashed = false

/-- Heartbeats run for a connection that had its HELLO. -/
structure Inv (s : State) : Prop extends Timers s where
  one : s.connects.count s.generation = if s.conn then 0 else 1
  beat : s.heartbeats.count s.generation ≤ if s.heartbeatInterval.isSome then 1 else 0

variable {s t : State} {e : Message × Bool}

theorem Timers.scheduleReconnect (h : Timers s) (resume : Bool) :
    Inv (scheduleReconnect s resume) := by
  obtain ⟨hconnects, hheartbeats, hwebsocket, hinterval, hrunning⟩ := h
  have hnew : s.connects.count (s.generation + 1) = 0 := count_eq_zero.mpr (by grind)
  have hbeat : s.heartbeats.count (s.generation + 1) = 0 := count_eq_zero.mpr (by grind)
  unfold DiscordGateway.scheduleReconnect close
  constructor
  · constructor <;> grind
  all_goals grind

theorem sendFrame_true : sendFrame s true = s := by simp [sendFrame]

theorem Inv.sendFrame (h : Inv s) (ok : Bool) : Inv (sendFrame s ok) := by
  unfold DiscordGateway.sendFrame
  split
  · exact h.toTimers.scheduleReconnect true
  · exact h

theorem Timers.fired (h : Timers s) (m : Message) : Timers (fired s m) := by
  cases m
  case connect => exact {h with connects := fun g hg => h.connects g (mem_of_mem_erase hg)}
  case heartbeat => exact {h with heartbeats := fun g hg => h.heartbeats g (mem_of_mem_erase hg)}
  all_goals exact h

theorem Inv.step (h : Inv s) (hbeat : ∀ g, e.1 = .heartbeat g → e.2) (ht : step s e = some t) : Inv t := by
  obtain ⟨m, ok⟩ := e
  obtain ⟨hen, rfl⟩ := ite_some_none_eq_some.mp ht
  have htimers := h.toTimers.fired m
  have hreconnect := htimers.scheduleReconnect
  have hone := h.one
  have hcount := h.beat
  cases m with
  | connect g opened =>
    simp only [handle]
    split_ifs
    · exact {htimers with one := by grind [fired], beat := hcount}
    · exact {htimers with
        websocket := nofun, interval := fun _ => rfl, one := by grind [fired, enabled], beat := hcount}
    · exact hreconnect _
  | heartbeat g =>
    simp only [handle, show ok = true from hbeat g rfl, sendFrame_true]
    split_ifs
    · exact {htimers with one := hone, beat := by grind [fired]}
    · have hheartbeats := htimers.heartbeats
      split
      · exact {h with heartbeats := by grind, beat := by grind [fired]}
      · grind [fired, enabled]
    · exact hreconnect _
  | lost | reconnect | close | invalidSession => exact hreconnect _
  | upgrade accepted =>
    cases accepted with
    | false => exact hreconnect _
    | true =>
      have hconn : s.conn := by grind [enabled]
      exact {h with websocket := fun _ => hconn}
  | ping | heartbeatRequest => exact h.sendFrame ok
  | hello interval =>
    have hheartbeats := h.heartbeats
    have hwebsocket := h.websocket
    refine Inv.sendFrame ?_ ok
    exact {h with
      heartbeats := by grind [fired]
      interval := by grind [fired, enabled]
      beat := by grind [fired, enabled]}
  | heartbeatAck => exact {h with}
  | dispatch n ready => cases ready <;> exact {h with}

/-- What Discord has not sent yet is asked for again with the session and the seq. -/
theorem session_kept (es : List (Message × Bool)) (s : State) (h : run step {} es = some s)
    (hbeat : ∀ e ∈ es, ∀ g, e.1 = .heartbeat g → e.2) :
    s.crashed = false ∧ s.connects.count s.generation = (if s.conn then 0 else 1) ∧
    s.heartbeats.count s.generation ≤ 1 ∧
    ∀ m ok t, step s (m, ok) = some t → resumable s → m ≠ .invalidSession false →
      (∀ code ∈ forgetCodes, m ≠ .close code) → (∀ n ready, m ≠ .dispatch n ready) →
      t.sessionId = s.sessionId ∧ t.resumeUrl = s.resumeUrl ∧ t.seq = s.seq ∧
      ∀ i, m = .hello i → t.sent = s.sent ++ [some (s.sessionId, s.seq)] := by
  have hinv : Inv s := run_invariant_forall Inv.step
    ⟨⟨by simp, by simp, by simp, by simp, rfl⟩, rfl, Nat.le_refl _⟩ hbeat h
  refine ⟨hinv.running, hinv.one, by grind [hinv.beat],
    fun m ok t ht hresumable hinvalid hclose hdispatch => ?_⟩
  obtain ⟨hen, rfl⟩ := ite_some_none_eq_some.mp ht
  cases m <;> grind [handle, fired, sendFrame, scheduleReconnect, close, resumable]

def lostAfterReady : List (Message × Bool) :=
  [.connect 0 true, .upgrade true, .hello 41250, .dispatch (some 1) (some (some "session", some "url")),
    .heartbeat 0, .lost].map (·, true)

theorem session_kept_lost : ∃ s, run step {} lostAfterReady = some s ∧ s.crashed = false ∧
    s.seq = some 1 ∧ s.connects = [1] := by
  obtain ⟨s, hs, hseq⟩ : ∃ s, run step {} lostAfterReady = some s ∧ s.seq = some 1 ∧ s.connects = [1] := by
    decide +kernel
  exact ⟨s, hs, (session_kept _ s hs (by simp [lostAfterReady])).1, hseq⟩

/-- The heartbeat that cannot be sent has no interval for the next. -/
theorem heartbeat_crashes :
    (run step {} (lostAfterReady.take 3 ++ [(.heartbeat 0, false)])).any (·.crashed) := by
  decide +kernel

end Converger.DiscordGateway
