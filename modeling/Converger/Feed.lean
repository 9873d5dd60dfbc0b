import Converger.Pagination
import Mathlib.Data.Finset.Basic

/-!
# The ordered feed of one conversation

`ConvergerWeb.Protocol.Feed`: a connection remembers the highest `seq` it delivered,
replays what lies after a watermark, drops live activities it already has, reads the
missing range before a live activity that is ahead, and never echoes its own turns.

`deliver` is specified by a log that pairs every activity it is handed with the frame
it produced, or with `none` where the activity was skipped.
-/
namespace Converger.ProtocolFeed
open List Option Pagination

universe u
variable {V : Type u} {as : List Activity} {a : Activity}

/-- The `prepare` callback of a feed: a routed channel's middleware. It rewrites the
text and metadata of an activity or halts it, and never renumbers it. -/
structure Prepare where
  run : Activity → Option Activity
  run_seq : ∀ a b, run a = some b → b.seq = a.seq

/-- A feed, rendering frames for a viewer of type `V`. -/
structure Feed (V : Type u) where
  conversationId : Uuid
  userId : V
  prepare : Option Prepare := none
  lastSeq : ℕ := 0
  own : Finset ℕ := ∅

/-- A frame for the connection. `Frames.activity/3` renders an activity from nothing
but these arguments. -/
inductive Frame (V : Type u) where
  | activity (activity : Activity) (viewer : V) (live : Bool)
  | replayTruncated (watermark headSeq : ℕ)
  deriving DecidableEq

def Frame.seq : Frame V → Option ℕ
  | .activity a _ _ => some a.seq
  | .replayTruncated _ _ => none

/-- `prepare/3`: an activity that already went through the middleware is passed on. -/
def prepare (feed : Feed V) (a : Activity) (prepared : Bool) : Option Activity :=
  match feed.prepare, prepared with
  | none, _ => some a
  | some _, true => some a
  | some p, false => p.run a

/-- One round of the reduction in `deliver`. Frames are accumulated in reverse. -/
def deliverOne (live prepared : Bool) (acc : List (Frame V) × Feed V) (a : Activity) :
    List (Frame V) × Feed V :=
  let feed := acc.2
  let advanced := {feed with lastSeq := max feed.lastSeq a.seq}
  if a.seq ∈ feed.own then (acc.1, {advanced with own := feed.own.erase a.seq})
  else match prepare feed a prepared with
    | some b => (.activity b feed.userId live :: acc.1, advanced)
    | none => (acc.1, advanced)

def deliver (feed : Feed V) (activities : List Activity) (live : Bool) (prepared : Bool := false) :
    List (Frame V) × Feed V :=
  let r := activities.foldl (deliverOne live prepared) ([], feed)
  (r.1.reverse, r.2)

def own (feed : Feed V) (seq : ℕ) : Feed V :=
  if seq ≤ feed.lastSeq then feed else {feed with own := insert seq feed.own}

@[simp] theorem own_conversationId (feed : Feed V) (seq : ℕ) :
    (own feed seq).conversationId = feed.conversationId := by
  unfold own
  split_ifs <;> rfl

@[simp] theorem own_prepare (feed : Feed V) (seq : ℕ) : (own feed seq).prepare = feed.prepare := by
  unfold own
  split_ifs <;> rfl

@[simp] theorem own_lastSeq (feed : Feed V) (seq : ℕ) : (own feed seq).lastSeq = feed.lastSeq := by
  unfold own
  split_ifs <;> rfl

variable {feed : Feed V} {n : ℕ}

theorem mem_own {seq : ℕ} (h : n ∈ (own feed seq).own) : n = seq ∨ n ∈ feed.own := by
  unfold own at h
  split_ifs at h
  · exact .inr h
  · exact Finset.mem_insert.mp h

def seek (feed : Feed V) (seq : ℕ) : Feed V :=
  {feed with lastSeq := max feed.lastSeq seq, own := feed.own.filter fun n => ¬ n ≤ seq}

/-- A `new_activity` payload: a canonical activity, or a map without an integer `seq`. -/
inductive Payload where
  | canonical (activity : Activity)
  | unnumbered
  deriving DecidableEq

/-- The missing range as `live` reads it. -/
def readGap (c : Config) (rows : List Activity) (feed : Feed V) (seq : ℕ) : List Activity :=
  (pageActivitiesSince c rows feed.conversationId (.seq feed.lastSeq)
    (.int ((seq : ℤ) - feed.lastSeq - 1))).1

def live (c : Config) (rows : List Activity) (feed : Feed V) (payload : Payload)
    (prepared : Bool) : List (Frame V) × Feed V :=
  match payload with
  | .unnumbered => ([], feed)
  | .canonical a =>
    if a.seq ≤ feed.lastSeq then ([], feed)
    else if a.seq = feed.lastSeq + 1 then deliver feed [a] true prepared
    else
      let gap := deliver feed (readGap c rows feed a.seq) true
      let r := deliver gap.2 [a] true prepared
      (gap.1 ++ r.1, r.2)

/-! ## What `deliver` does with each activity it is handed -/

def advance (feed : Feed V) (a : Activity) : Feed V :=
  {feed with lastSeq := max feed.lastSeq a.seq, own := feed.own.erase a.seq}

/-- The frame an activity becomes; `none` for an own turn or a halted activity. -/
def render (feed : Feed V) (live prepared : Bool) (a : Activity) : Option (Frame V) :=
  if a.seq ∈ feed.own then none
  else (prepare feed a prepared).map fun b => .activity b feed.userId live

/-- Every activity handed to `deliver`, in order, with what became of it. -/
def deliverLog (feed : Feed V) (live prepared : Bool) :
    List Activity → List (Activity × Option (Frame V))
  | [] => []
  | a :: as => (a, render feed live prepared a) :: deliverLog (advance feed a) live prepared as

theorem deliverOne_eq (live prepared : Bool) (fs : List (Frame V)) (feed : Feed V) (a : Activity) :
    deliverOne live prepared (fs, feed) a =
      ((render feed live prepared a).toList ++ fs, advance feed a) := by
  by_cases h : a.seq ∈ feed.own
  · simp [deliverOne, render, advance, h]
  · cases hp : prepare feed a prepared <;>
      simp [deliverOne, render, advance, h, hp, Finset.erase_eq_of_notMem]

private theorem foldl_deliverOne (live prepared : Bool) (as : List Activity)
    (fs : List (Frame V)) (feed : Feed V) :
    as.foldl (deliverOne live prepared) (fs, feed) =
      (((deliverLog feed live prepared as).filterMap Prod.snd).reverse ++ fs,
        as.foldl advance feed) := by
  induction as generalizing fs feed with
  | nil => rfl
  | cons a as ih =>
    rw [foldl_cons, deliverOne_eq, ih, deliverLog, foldl_cons]
    cases render feed live prepared a <;> simp

/-- The frames `deliver` returns are those of its log, in order. -/
theorem deliver_eq (feed : Feed V) (as : List Activity) (live prepared : Bool) :
    deliver feed as live prepared =
      ((deliverLog feed live prepared as).filterMap Prod.snd, as.foldl advance feed) := by
  simp [deliver, foldl_deliverOne]

theorem deliverLog_map_fst (feed : Feed V) (live prepared : Bool) (as : List Activity) :
    (deliverLog feed live prepared as).map Prod.fst = as := by
  induction as generalizing feed with
  | nil => rfl
  | cons a as ih => simp [deliverLog, ih]

theorem deliverLog_append (feed : Feed V) (live prepared : Bool) (as bs : List Activity) :
    deliverLog feed live prepared (as ++ bs) =
      deliverLog feed live prepared as ++
        deliverLog (as.foldl advance feed) live prepared bs := by
  induction as generalizing feed with
  | nil => rfl
  | cons a as ih => simp [deliverLog, ih]

@[simp] theorem foldl_advance_conversationId (feed : Feed V) (as : List Activity) :
    (as.foldl advance feed).conversationId = feed.conversationId := by
  induction as generalizing feed with
  | nil => rfl
  | cons a as ih => simp [ih, advance]

@[simp] theorem foldl_advance_userId (feed : Feed V) (as : List Activity) :
    (as.foldl advance feed).userId = feed.userId := by
  induction as generalizing feed with
  | nil => rfl
  | cons a as ih => simp [ih, advance]

@[simp] theorem foldl_advance_prepare (feed : Feed V) (as : List Activity) :
    (as.foldl advance feed).prepare = feed.prepare := by
  induction as generalizing feed with
  | nil => rfl
  | cons a as ih => simp [ih, advance]

theorem mem_foldl_advance_own : n ∈ (as.foldl advance feed).own ↔ n ∈ feed.own ∧ ∀ a ∈ as, a.seq ≠ n := by
  induction as generalizing feed with
  | nil => simp
  | cons a as ih =>
    simp only [foldl_cons, ih, advance, Finset.mem_erase, forall_mem_cons]
    tauto

theorem foldl_advance_lastSeq_le :
    (as.foldl advance feed).lastSeq ≤ n ↔ feed.lastSeq ≤ n ∧ ∀ a ∈ as, a.seq ≤ n := by
  induction as generalizing feed with
  | nil => simp
  | cons a as ih => simp [ih, advance, and_assoc]

/-- Handing over activities in increasing order leaves the position at the last one. -/
theorem foldl_advance_lastSeq_concat (feed : Feed V) (hp : feed.lastSeq ≤ a.seq)
    (h : ∀ b ∈ as, b.seq ≤ a.seq) : ((as ++ [a]).foldl advance feed).lastSeq = a.seq := by
  rw [foldl_append, foldl_cons, foldl_nil]
  exact max_eq_right (foldl_advance_lastSeq_le.mpr ⟨hp, h⟩)

/-- Activities handed over earlier do not change what becomes of an activity with
another number. -/
theorem render_foldl_advance (h : ∀ b ∈ as, b.seq ≠ a.seq) (live prepared : Bool) :
    render (as.foldl advance feed) live prepared a = render feed live prepared a := by
  simp only [render, prepare, mem_foldl_advance_own, foldl_advance_userId, foldl_advance_prepare,
    and_iff_left h]

/-- On activities with distinct numbers the log renders each of them by the feed as it
was at the start. -/
theorem deliverLog_eq_map (h : as.Pairwise fun a b => a.seq ≠ b.seq) (live prepared : Bool) :
    deliverLog feed live prepared as = as.map fun a => (a, render feed live prepared a) := by
  induction as generalizing feed with
  | nil => rfl
  | cons a as ih =>
    obtain ⟨ha, has⟩ := pairwise_cons.mp h
    simp only [deliverLog, map_cons, List.cons.injEq, true_and]
    rw [ih has]
    apply map_congr_left
    intro b hb
    have hne : ∀ x ∈ [a], x.seq ≠ b.seq := by simpa using ha b hb
    exact congrArg _ (render_foldl_advance hne live prepared)

theorem render_seq {live prepared : Bool} {f : Frame V}
    (h : render feed live prepared a = some f) : f.seq = some a.seq := by
  simp only [render] at h
  split_ifs at h
  obtain ⟨b, hb, rfl⟩ := map_eq_some_iff.mp h
  suffices b.seq = a.seq by simp [Frame.seq, this]
  simp only [prepare] at hb
  split at hb
  · exact (some.inj hb) ▸ rfl
  · exact (some.inj hb) ▸ rfl
  · exact Prepare.run_seq _ _ _ hb

/-! ## What `live` hands to `deliver` -/

def between (rows : List Activity) (conversationId : Uuid) (p s : ℕ) : List Activity :=
  (activitiesAfter rows conversationId (some p)).filter fun a => a.seq < s

/-- The gap before `s` in closed form: the first rows after the position, as many as
the difference of the numbers, capped at the largest page. -/
def gap (c : Config) (rows : List Activity) (feed : Feed V) (s : ℕ) : List Activity :=
  (activitiesAfter rows feed.conversationId (some feed.lastSeq)).take
    (min (s - feed.lastSeq - 1) c.activityMaxLimit)

theorem readGap_eq (c : Config) (rows : List Activity) {s : ℕ}
    (h : feed.lastSeq + 1 < s) : readGap c rows feed s = gap c rows feed s := by
  have hcast : (s : ℤ) - feed.lastSeq - 1 = ((s - feed.lastSeq - 1 : ℕ) : ℤ) := by omega
  rw [readGap, pageActivitiesSince_fst, hcast, clampLimit_natCast c (by omega)]
  rfl

/-- What a live activity makes of the feed: nothing when it is at or below the
position, otherwise the gap and then the activity itself are handed to `deliver`. -/
def liveLog (c : Config) (rows : List Activity) (feed : Feed V) (a : Activity)
    (prepared : Bool) : List (Activity × Option (Frame V)) :=
  if a.seq ≤ feed.lastSeq then []
  else deliverLog feed true false (gap c rows feed a.seq) ++
    [(a, render ((gap c rows feed a.seq).foldl advance feed) true prepared a)]

theorem live_eq (c : Config) (rows : List Activity) (feed : Feed V) (a : Activity)
    (prepared : Bool) :
    live c rows feed (.canonical a) prepared =
      ((liveLog c rows feed a prepared).filterMap Prod.snd,
        ((liveLog c rows feed a prepared).map Prod.fst).foldl advance feed) := by
  by_cases h₁ : a.seq ≤ feed.lastSeq
  · simp [live, liveLog, h₁]
  by_cases h₂ : a.seq = feed.lastSeq + 1
  · -- the next number: the gap is empty
    have hg : gap c rows feed a.seq = [] := by simp [gap, h₂]
    simp only [live, liveLog, if_neg h₁, if_pos h₂, hg]
    simp [deliver_eq, deliverLog]
  · have hr := readGap_eq c rows (show feed.lastSeq + 1 < a.seq by omega)
    simp [live, liveLog, h₁, h₂, hr, deliver_eq, deliverLog, deliverLog_map_fst, filterMap_append]

theorem liveLog_map_fst (c : Config) (rows : List Activity)
    (prepared : Bool) (h : feed.lastSeq < a.seq) :
    (liveLog c rows feed a prepared).map Prod.fst = gap c rows feed a.seq ++ [a] := by
  simp [liveLog, not_le.mpr h, deliverLog_map_fst]

end Converger.ProtocolFeed
