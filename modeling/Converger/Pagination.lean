import Converger.Activity
import Converger.OrderedPages
import Converger.Text

/-!
# Bounded activity queries

`Pagination.clamp_limit/2` and `Activities.page_activities_since/3`: one page of a
conversation's activities after a watermark position, read with one row too many to
know whether more exist.
-/
namespace Converger.Pagination
open OrderedPages

/-- `config :converger, :pagination`. A page holds at least one activity. -/
structure Config where
  defaultLimit : ℕ := 50
  maxLimit : ℕ := 500
  activityDefaultLimit : ℕ := 100
  activityMaxLimit : ℕ := 1000
  wsReplayLimit : ℕ := 100
  activityMaxLimit_pos : 0 < activityMaxLimit := by decide
  wsReplayLimit_pos : 0 < wsReplayLimit := by decide

inductive Kind where
  | default | activity
  deriving DecidableEq

/-- A page size as a caller passes it: absent, a number, or a query parameter. -/
inductive Requested where
  | none
  | int (n : ℤ)
  | text (s : String)
  deriving DecidableEq

def Config.limitFor (c : Config) : Kind → ℕ
  | .activity => c.activityDefaultLimit
  | .default => c.defaultLimit

def Config.maxFor (c : Config) : Kind → ℕ
  | .activity => c.activityMaxLimit
  | .default => c.maxLimit

def clampInt (c : Config) (n : ℤ) (kind : Kind) : ℕ :=
  if 0 < n then min n.toNat (c.maxFor kind) else c.limitFor kind

/-- `clamp_limit/2`: a missing, malformed or non-positive size becomes the default,
a larger one the maximum. -/
def clampLimit (c : Config) (requested : Requested) (kind : Kind) : ℕ :=
  match requested with
  | .none => c.limitFor kind
  | .int n => clampInt c n kind
  | .text s => match Text.integerParse (Text.trim s.toList) with
    | some (n, []) => clampInt c n kind
    | _ => c.limitFor kind

theorem clampLimit_natCast (c : Config) {n : ℕ} (hn : 0 < n) :
    clampLimit c (.int n) .activity = min n c.activityMaxLimit := by
  simp [clampLimit, clampInt, Config.maxFor, hn]

example : clampLimit {} (.text " 20 ") .activity = 20 ∧
    clampLimit {} (.text "20x") .activity = 100 ∧ clampLimit {} (.int 5000) .activity = 1000 := by
  decide

/-- A decoded watermark position. An activity id is given as `Ecto.UUID.cast/1`
returns it. -/
inductive Position where
  | start
  | seq (n : ℕ)
  | activityId (id : Option Uuid)
  deriving DecidableEq

def ofConversation (conversationId : Uuid) (rows : List Activity) : List Activity :=
  rows.filter fun a => a.conversationId = conversationId

/-- `seq_of/2`: the `seq` of an activity of the conversation, if it is known. -/
def seqOf (rows : List Activity) (conversationId : Uuid) (id : Option Uuid) : Option ℕ :=
  id.bind fun id => ((ofConversation conversationId rows).find? fun a => a.id = id).map Activity.seq

def resolvePosition (rows : List Activity) (conversationId : Uuid) : Position → Option ℕ
  | .start => none
  | .seq n => some n
  | .activityId id => seqOf rows conversationId id

/-- `page_activities_since/3`: the page and whether more activities exist. -/
def pageActivitiesSince (c : Config) (rows : List Activity) (conversationId : Uuid)
    (position : Position) (limit : Requested) : List Activity × Bool :=
  page Activity.seq (resolvePosition rows conversationId position) (clampLimit c limit .activity)
    (ofConversation conversationId rows)

/-- The activities of a conversation after a position, in order: what an unbounded
query would return. -/
def activitiesAfter (rows : List Activity) (conversationId : Uuid) (p : Option ℕ) :
    List Activity :=
  after Activity.seq p (ofConversation conversationId rows)

/-- A transcript: the stored activities of a conversation have distinct numbers. -/
def DistinctSeqs (conversationId : Uuid) (rows : List Activity) : Prop :=
  ((ofConversation conversationId rows).map Activity.seq).Nodup

instance (conversationId : Uuid) (rows : List Activity) :
    Decidable (DistinctSeqs conversationId rows) :=
  inferInstanceAs (Decidable (List.Nodup _))

variable {rows : List Activity} {conversationId : Uuid} {a : Activity}

@[simp] theorem mem_ofConversation :
    a ∈ ofConversation conversationId rows ↔ a ∈ rows ∧ a.conversationId = conversationId := by
  simp [ofConversation]

theorem mem_activitiesAfter {conversationId p : ℕ} :
    a ∈ activitiesAfter rows conversationId (some p) ↔
      (a ∈ rows ∧ a.conversationId = conversationId) ∧ p < a.seq := by
  simp [activitiesAfter, mem_after]

theorem activitiesAfter_pairwise {p : Option ℕ} (h : DistinctSeqs conversationId rows) :
    (activitiesAfter rows conversationId p).Pairwise fun a b => a.seq < b.seq :=
  after_pairwise h

theorem pageActivitiesSince_fst (c : Config) (rows : List Activity) (conversationId : Uuid)
    (position : Position) (limit : Requested) :
    (pageActivitiesSince c rows conversationId position limit).1 =
      (activitiesAfter rows conversationId (resolvePosition rows conversationId position)).take
        (clampLimit c limit .activity) :=
  page_fst _

theorem pageActivitiesSince_snd (c : Config) (rows : List Activity) (conversationId : Uuid)
    (position : Position) (limit : Requested) :
    (pageActivitiesSince c rows conversationId position limit).2 =
      decide (clampLimit c limit .activity < (activitiesAfter rows conversationId
          (resolvePosition rows conversationId position)).length) :=
  page_snd _

end Converger.Pagination
