import Converger.GuardedRuns
import Converger.WatermarkTracker

/-!
# Turns of an agent

An agent follows conversations over one connection that may be lost at any time. The server numbers
what is stored, sends user turns while the connection is up, acknowledges the agent's own sends and,
after a reconnect, sends again everything above the watermarks of `hello`. Whatever is on its way
arrives in any order. No turn is dispatched twice; and none is missed as long as neither a loss of the
connection nor a request for the history meets a turn that a later number has overtaken, and nothing
overtakes a turn by more than the window of the tracker.
-/
namespace Converger.AgentTurns
open KeyedLists WatermarkTracker

/-! ### The agent -/

inductive Sender where
  | user | bot
  deriving DecidableEq, Repr

/-- What `isMessageFrame` tells apart. -/
inductive Body where
  | message (sender : Sender)
  | other
  deriving DecidableEq, Repr

structure Frame where
  seq : Option ℕ
  body : Body
  deriving DecidableEq, Repr

/-- The enveloped frames that reach the tracker, the collectors of histories or the turns. -/
inductive Inbound where
  | ack (seq : Option ℕ)
  | replayTruncated (watermark : Option ℕ)
  | frame (f : Frame)
  deriving DecidableEq, Repr

def Inbound.seq : Inbound → Option ℕ
  | .ack n => n
  | .replayTruncated _ => none
  | .frame f => f.seq

/-- The tracker, the number up to which the history of a conversation is being collected, and the
turns dispatched so far. -/
structure Agent where
  tracker : Tracker
  histories : List (String × ℕ) := []
  dispatched : List (String × Frame) := []

def isTurn (includeBotTurns : Bool) (f : Frame) : Bool :=
  match f.body with
  | .message .user => true
  | .message .bot => includeBotTurns
  | .other => false

namespace Agent

variable (includeBotTurns : Bool)

def dispatch (a : Agent) (c : String) (f : Frame) : Agent :=
  if isTurn includeBotTurns f then {a with dispatched := a.dispatched ++ [(c, f)]} else a

def collect (a : Agent) (c : String) (n bound : ℕ) : Agent :=
  {a with
    tracker := (a.tracker.record c n).2
    histories := if bound ≤ n then delete c a.histories else a.histories}

/-- A numbered frame outside of a history: seen before, or perhaps a turn. -/
def receive (a : Agent) (c : String) (n : ℕ) (f : Frame) : Agent :=
  let recorded := {a with tracker := (a.tracker.record c n).2}
  if (a.tracker.record c n).1 then recorded.dispatch includeBotTurns c f else recorded

def onFrame (a : Agent) (c : String) (f : Frame) : Agent :=
  match f.seq, a.histories.lookup c with
  | none, _ => a.dispatch includeBotTurns c f
  | some n, some bound =>
    if n ≤ bound then a.collect c n bound else a.receive includeBotTurns c n f
  | some n, none => a.receive includeBotTurns c n f

/-- The end of a truncated replay ends the history, or the rest is asked for. -/
def onReplayTruncated (a : Agent) (c : String) (watermark : Option ℕ) : Agent :=
  if (a.histories.lookup c).isSome then {a with histories := delete c a.histories}
  else if watermark.isSome then {a with tracker := a.tracker.touch c}
  else a

def onEnveloped (a : Agent) (c : String) : Inbound → Agent
  | .ack none => a
  | .ack (some n) => {a with tracker := (a.tracker.record c n).2}
  | .replayTruncated watermark => a.onReplayTruncated c watermark
  | .frame f => a.onFrame includeBotTurns c f

/-- `#history`: unless one is being collected, the frames up to the highest number are asked for. -/
def history (a : Agent) (c : String) : Agent :=
  if (a.histories.lookup c).isSome || a.tracker.get c = 0 then a
  else
    {a with
      tracker := a.tracker.touch c
      histories := (c, a.tracker.get c) :: a.histories}

end Agent

/-! ### The system -/

structure Stored where
  conversationId : String
  seq : ℕ
  body : Body
  deriving DecidableEq, Repr

namespace Stored

def frame (x : Stored) : Frame := ⟨some x.seq, x.body⟩

def envelope (x : Stored) : String × Frame := (x.conversationId, x.frame)

end Stored

/-- What the server may send for a conversation: an acknowledgement of a message from the bot side,
what is stored, or a frame without a number that is no message. -/
def Sent (stored : List Stored) (c : String) : Inbound → Prop
  | .ack seq => ∀ n ∈ seq, (⟨c, n, .message .bot⟩ : Stored) ∈ stored
  | .replayTruncated _ => True
  | .frame f => (∀ n ∈ f.seq, (⟨c, n, f.body⟩ : Stored) ∈ stored) ∧ (f.seq = none → f.body = .other)

instance (stored : List Stored) (c : String) : ∀ m, Decidable (Sent stored c m)
  | .ack seq => inferInstanceAs (Decidable (∀ n ∈ seq, (⟨c, n, .message .bot⟩ : Stored) ∈ stored))
  | .replayTruncated _ => .isTrue trivial
  | .frame f => inferInstanceAs (Decidable
      ((∀ n ∈ f.seq, (⟨c, n, f.body⟩ : Stored) ∈ stored) ∧ (f.seq = none → f.body = .other)))

/-- The highest number of each conversation, what is stored, the agent, and what is on its way to it
while it is connected. -/
structure State where
  lastSeq : String → ℕ
  stored : List Stored
  agent : Agent
  link : Option (List (String × Inbound))

/-- The server's answer to the watermarks of `hello`. -/
def replay (stored : List Stored) (watermarks : List (String × ℕ)) : List (String × Inbound) :=
  (stored.filter fun x => (watermarks.lookup x.conversationId).any (· < x.seq)).map fun x =>
    (x.conversationId, .frame x.frame)

inductive Event where
  | store (c : String) (body : Body)
  | send (c : String) (m : Inbound)
  | deliver (i : ℕ)
  | disconnect
  | connect
  | history (c : String)
  | historyDone (c : String)
  | enqueue (c : String)

def Event.conversations : Event → List String
  | .store c _ | .send c _ | .history c | .historyDone c | .enqueue c => [c]
  | .deliver _ | .disconnect | .connect => []

namespace State

def arriving (s : State) (i : ℕ) : Option (String × Inbound) := s.link.bind (·[i]?)

/-- What is stored is sent on at once if it is a turn of a user and the agent is connected. -/
def store (s : State) (c : String) (body : Body) : State :=
  let x : Stored := ⟨c, s.lastSeq c + 1, body⟩
  {s with
    lastSeq := Function.update s.lastSeq c (s.lastSeq c + 1)
    stored := s.stored ++ [x]
    link := if body = .message .user then s.link.map (· ++ [(c, .frame x.frame)]) else s.link}

end State

def step (includeBotTurns : Bool) (s : State) : Event → Option State
  | .store c body => some (s.store c body)
  | .send c m => s.link.bind fun l =>
    if Sent s.stored c m then some {s with link := some (l ++ [(c, m)])} else none
  | .deliver i => (s.arriving i).map fun e =>
    {s with
      link := s.link.map (·.eraseIdx i)
      agent := s.agent.onEnveloped includeBotTurns e.1 e.2}
  | .disconnect => if s.link.isSome then some {s with link := none} else none
  | .connect =>
    if s.link.isSome then none
    else some {s with link := some (replay s.stored s.agent.tracker.snapshot)}
  | .history c => some {s with agent := s.agent.history c}
  | .historyDone c => some {s with agent := {s.agent with histories := delete c s.agent.histories}}
  | .enqueue c => some {s with agent := {s.agent with tracker := s.agent.tracker.touch c}}

/-! ### Turns -/

namespace State

def dispatches (s : State) (x : Stored) : ℕ := s.agent.dispatched.count x.envelope

/-- The watermark that the next `hello` has for a conversation. -/
def watermark (s : State) (c : String) : ℕ := s.agent.tracker.get c

def Turn (s : State) (c : String) (start : ℕ) (x : Stored) : Prop :=
  x ∈ s.stored ∧ x.conversationId = c ∧ x.body = .message .user ∧ start < x.seq

def Pending (s : State) (c : String) (start : ℕ) (x : Stored) : Prop :=
  s.Turn c start x ∧ x.envelope ∉ s.agent.dispatched

instance (s : State) (c : String) (start : ℕ) (x : Stored) : Decidable (s.Pending c start x) :=
  inferInstanceAs (Decidable ((x ∈ s.stored ∧ x.conversationId = c ∧ x.body = .message .user ∧ start < x.seq) ∧
      x.envelope ∉ s.agent.dispatched))

def NoneOvertaken (s : State) (c : String) (start : ℕ) : Prop :=
  ∀ x ∈ s.stored, s.Pending c start x → s.watermark c ≤ x.seq

end State

/-- The connection is lost, or the history asked for, only while no turn is overtaken; and what arrives
overtakes a turn by at most the window. -/
def Orderly (c : String) (start : ℕ) (s : State) : Event → Prop
  | .disconnect => s.NoneOvertaken c start
  | .history c' => c' = c → s.NoneOvertaken c start
  | .deliver i => ∀ e ∈ s.arriving i, e.1 = c → ∀ n ∈ e.2.seq,
      ∀ x ∈ s.stored, s.Pending c start x → n ≤ x.seq + window
  | .store _ _ | .send _ _ | .connect | .historyDone _ | .enqueue _ => True

instance (c : String) (start : ℕ) (s : State) : Decidable (s.NoneOvertaken c start) :=
  inferInstanceAs (Decidable (∀ x ∈ s.stored, s.Pending c start x → s.watermark c ≤ x.seq))

instance (c : String) (start : ℕ) (s : State) : ∀ e, Decidable (Orderly c start s e)
  | .disconnect => inferInstanceAs (Decidable (s.NoneOvertaken c start))
  | .history c' => inferInstanceAs (Decidable (c' = c → s.NoneOvertaken c start))
  | .deliver i => inferInstanceAs (Decidable (∀ e ∈ s.arriving i, e.1 = c → ∀ n ∈ e.2.seq,
      ∀ x ∈ s.stored, s.Pending c start x → n ≤ x.seq + window))
  | .store _ _ | .send _ _ | .connect | .historyDone _ | .enqueue _ => .isTrue trivial

/-! ### What a frame does to the agent -/

section
variable {b : Bool} {a : Agent} {c k : String} {m : Inbound} {f : Frame} {n : ℕ}

theorem tracker_dispatch (b : Bool) (a : Agent) (c : String) (f : Frame) :
    (a.dispatch b c f).tracker = a.tracker := by
  unfold Agent.dispatch
  split <;> rfl

theorem histories_dispatch (b : Bool) (a : Agent) (c : String) (f : Frame) :
    (a.dispatch b c f).histories = a.histories := by
  unfold Agent.dispatch
  split <;> rfl

theorem tracker_receive (b : Bool) (a : Agent) (c : String) (n : ℕ) (f : Frame) :
    (a.receive b c n f).tracker = (a.tracker.record c n).2 := by
  unfold Agent.receive
  split
  · exact tracker_dispatch ..
  · rfl

theorem histories_receive (b : Bool) (a : Agent) (c : String) (n : ℕ) (f : Frame) :
    (a.receive b c n f).histories = a.histories := by
  unfold Agent.receive
  split
  · exact histories_dispatch ..
  · rfl

theorem onFrame_of_none (h : f.seq = none) : a.onFrame b c f = a.dispatch b c f := by
  unfold Agent.onFrame
  rw [h]

theorem onFrame_of_seq (h : f.seq = some n) :
    (∃ bound, a.histories.lookup c = some bound ∧ n ≤ bound ∧
      a.onFrame b c f = a.collect c n bound) ∨ a.onFrame b c f = a.receive b c n f := by
  unfold Agent.onFrame
  rw [h]
  cases a.histories.lookup c with
  | none => exact .inr rfl
  | some bound =>
    by_cases hn : n ≤ bound
    · exact .inl ⟨bound, rfl, hn, if_pos hn⟩
    · exact .inr (if_neg hn)

theorem onReplayTruncated_spec (a : Agent) (c : String) (watermark : Option ℕ) :
    ((a.onReplayTruncated c watermark).tracker = a.tracker ∨
      (a.onReplayTruncated c watermark).tracker = a.tracker.touch c) ∧
    ((a.onReplayTruncated c watermark).histories = a.histories ∨
      (a.onReplayTruncated c watermark).histories = delete c a.histories) ∧
    (a.onReplayTruncated c watermark).dispatched = a.dispatched := by
  unfold Agent.onReplayTruncated
  split
  · exact ⟨.inl rfl, .inr rfl, rfl⟩
  · split
    · exact ⟨.inr rfl, .inl rfl, rfl⟩
    · exact ⟨.inl rfl, .inl rfl, rfl⟩

theorem tracker_onEnveloped_of_seq (h : m.seq = some n) :
    (a.onEnveloped b c m).tracker = (a.tracker.record c n).2 := by
  cases m with
  | ack seq =>
    cases h
    rfl
  | replayTruncated watermark => cases h
  | frame f =>
    change (a.onFrame b c f).tracker = _
    rcases onFrame_of_seq h with ⟨bound, -, -, heq⟩ | heq
    · rw [heq, Agent.collect]
    · rw [heq, tracker_receive]

theorem tracker_onEnveloped_of_none (h : m.seq = none) :
    (a.onEnveloped b c m).tracker = a.tracker ∨
      (a.onEnveloped b c m).tracker = a.tracker.touch c := by
  cases m with
  | ack seq =>
    cases h
    exact .inl rfl
  | replayTruncated watermark => exact (onReplayTruncated_spec a c watermark).1
  | frame f =>
    rw [Agent.onEnveloped, onFrame_of_none h]
    exact .inl (tracker_dispatch ..)

theorem histories_onEnveloped (b : Bool) (a : Agent) (c : String) (m : Inbound) :
    (a.onEnveloped b c m).histories = a.histories ∨
      (a.onEnveloped b c m).histories = delete c a.histories := by
  cases m with
  | ack seq => cases seq <;> exact .inl rfl
  | replayTruncated watermark => exact (onReplayTruncated_spec a c watermark).2.1
  | frame f =>
    rw [Agent.onEnveloped]
    cases hseq : f.seq with
    | none =>
      rw [onFrame_of_none hseq]
      exact .inl (histories_dispatch ..)
    | some n =>
      rcases onFrame_of_seq (a := a) (b := b) (c := c) hseq with ⟨bound, -, -, heq⟩ | heq
      · rw [heq, Agent.collect]
        split
        · exact .inr rfl
        · exact .inl rfl
      · rw [heq]
        exact .inl (histories_receive ..)

theorem lookup_of_delete {α : Type} {histories : List (String × α)} {bound : α}
    (h : (delete c histories).lookup k = some bound) : histories.lookup k = some bound := by
  rw [lookup_delete] at h
  split at h
  · cases h
  · exact h

theorem lookup_of_onEnveloped {bound : ℕ} (h : (a.onEnveloped b c m).histories.lookup k = some bound) :
    a.histories.lookup k = some bound := by
  rcases histories_onEnveloped b a c m with heq | heq
  · rwa [heq] at h
  · rw [heq] at h
    exact lookup_of_delete h

theorem dispatched_receive (b : Bool) (a : Agent) (c : String) (n : ℕ) (f : Frame) :
    (a.receive b c n f).dispatched =
      if (a.tracker.record c n).1 ∧ isTurn b f then a.dispatched ++ [(c, f)] else a.dispatched := by
  unfold Agent.receive Agent.dispatch
  by_cases hfresh : (a.tracker.record c n).1 = true
  · by_cases hturn : isTurn b f = true
    · simp [hfresh, hturn]
    · simp [hfresh, hturn]
  · simp [hfresh]

theorem dispatched_onEnveloped (b : Bool) (a : Agent) (c : String) (m : Inbound) :
    (a.onEnveloped b c m).dispatched = a.dispatched ∨
      ∃ f, m = .frame f ∧ isTurn b f = true ∧
        (a.onEnveloped b c m).dispatched = a.dispatched ++ [(c, f)] ∧
        ∀ n, f.seq = some n → (a.tracker.record c n).1 = true := by
  cases m with
  | ack seq => cases seq <;> exact .inl rfl
  | replayTruncated watermark => exact .inl (onReplayTruncated_spec a c watermark).2.2
  | frame f =>
    rw [Agent.onEnveloped]
    cases hseq : f.seq with
    | none =>
      rw [onFrame_of_none hseq, Agent.dispatch]
      split
      · rename_i hturn
        refine .inr ⟨f, rfl, hturn, rfl, fun n hn => ?_⟩
        cases hseq.symm.trans hn
      · exact .inl rfl
    | some n =>
      rcases onFrame_of_seq (a := a) (b := b) (c := c) hseq with ⟨bound, -, -, heq⟩ | heq
      · rw [heq]
        exact .inl rfl
      · rw [heq, dispatched_receive]
        split
        · rename_i h
          refine .inr ⟨f, rfl, h.2, rfl, fun n' hn' => ?_⟩
          cases hseq.symm.trans hn'
          exact h.1
        · exact .inl rfl

theorem dispatched_of_turn (hturn : isTurn b f = true) (hseq : f.seq = some n)
    (hbound : ∀ bound, a.histories.lookup c = some bound → bound < n)
    (hfresh : (a.tracker.record c n).1 = true) :
    (a.onEnveloped b c (.frame f)).dispatched = a.dispatched ++ [(c, f)] := by
  rw [Agent.onEnveloped]
  rcases onFrame_of_seq (a := a) (b := b) (c := c) hseq with ⟨bound, hlookup, hle, -⟩ | heq
  · have hlt := hbound bound hlookup
    omega
  · rw [heq, dispatched_receive, if_pos ⟨hfresh, hturn⟩]

end

end Converger.AgentTurns
