/-
# HighLoad.Feed.Scores — Redis with the scores it is sent

The feeds are modelled as sets ordered by the times of the posts. Redis orders them by doubles: the score
of `ZADD` is `timestamp()` of the time. `execScored` is the meaning of the commands over such sets. As long
as the times that are scored lie between October 1697 and March 2242, nobody can tell the two apart: in
every interleaving of the handlers and the workers all commands get the same replies, and the feeds hold
the same posts in the same order (`scores_represent_times`).
-/
import HighLoad.Feed.Cache
import HighLoad.Lib.Simulation
import HighLoad.Timestamp

namespace HighLoad.Feed

open SortedSet

/-- The stores, with sorted sets of doubles beside what is no sorted set. -/
structure ScoredWorld where
  rest : World
  zsets : FeedKey → SortedSet ℚ Uuid

namespace ScoredWorld

variable {v : ScoredWorld}

/-- Replace one sorted set. -/
def modifyZset (v : ScoredWorld) (key : FeedKey) (f : SortedSet ℚ Uuid → SortedSet ℚ Uuid) :
    ScoredWorld :=
  { v with zsets := Function.update v.zsets key (f (v.zsets key)) }

end ScoredWorld

/-- What a command does to sorted sets that are scored by doubles. -/
def execScored (order : RowOrder) : Handler Command PyError ScoredWorld
  | _, .zadd key time member, v =>
      time.timestamp.map fun score => ((), v.modifyZset key fun z => z.add score member)
  | _, .zrem key members, v => .ok ((), v.modifyZset key fun z => z.removeAll members)
  | _, .zremrangebyrank key start stop, v =>
      .ok ((), v.modifyZset key fun z => z.removeRangeByRank start stop)
  | _, .zrange key start stop, v => .ok ((v.zsets key).range start stop, v)
  | _, .zrevrange key start stop, v => .ok ((v.zsets key).revRange start stop, v)
  | _, .existsZset key, v => .ok ((v.zsets key).exists, v)
  | _, .deleteZset key, v => .ok ((), v.modifyZset key fun _ => SortedSet.empty)
  | _, .rename source target, v =>
      if (v.zsets source).exists then
        .ok ((), (v.modifyZset target fun _ => v.zsets source).modifyZset source
          fun _ => SortedSet.empty)
      else .error (.redisError "no such key")
  | _, c, v => (exec order _ c v.rest).map fun r => (r.1, { v with rest := r.2 })

/-- The world without its sorted sets. -/
def World.withoutZsets (w : World) : World :=
  { w with redis := { w.redis with zsets := fun _ => SortedSet.empty } }

/-- The times that doubles tell apart. -/
def resolvedTimes : Set DateTime := {t | t.Resolved}

/-- The same stores, the sorted sets by doubles. -/
structure Represents (w : World) (v : ScoredWorld) : Prop where
  rest : v.rest = w.withoutZsets
  scored : ∀ key, (w.redis.zsets key).Rescored DateTime.score (v.zsets key)
  resolved : ∀ key, (w.redis.zsets key).ScoresIn resolvedTimes

/-- The command scores by a time that doubles tell apart, if by any. -/
def scoresResolved : (β : Type) → Command β → World → Bool
  | _, .zadd _ time _, _ => time.Resolved
  | _, _, _ => true

theorem score_strictMonoOn : StrictMonoOn DateTime.score resolvedTimes :=
  fun _ hs _ ht hlt => DateTime.score_lt_of_resolved hs ht hlt

theorem timestamp_of_resolved {t : DateTime} (h : t.Resolved) : t.timestamp = .ok t.score := by
  refine DateTime.timestamp_eq_ok_iff.mpr fun hfirst => ?_
  have hordinal := DateTime.toordinal_eq_one_iff.mpr hfirst
  have hlow := h.1
  have hhour := t.hour_lt
  have hminute := t.minute_lt
  have hsecond := t.second_lt
  unfold DateTime.seconds at hlow
  omega

variable {w : World} {v : ScoredWorld}

/-- Stores without feeds represent each other. -/
theorem represents_initial (users : List Uuid) :
    Represents (World.ofUsers users) ⟨World.ofUsers users, fun _ => SortedSet.empty⟩ where
  rest := rfl
  scored _ := rescored_empty
  resolved _ _ he := absurd he not_mem_empty

/-- One set is replaced on both sides. -/
theorem Represents.modifyZset (h : Represents w v) {key : FeedKey} {f : FeedSet → FeedSet}
    {g : SortedSet ℚ Uuid → SortedSet ℚ Uuid}
    (hscored : (f (w.redis.zsets key)).Rescored DateTime.score (g (v.zsets key)))
    (hresolved : (f (w.redis.zsets key)).ScoresIn resolvedTimes) :
    Represents (w.modifyZset key f) (v.modifyZset key g) where
  rest := h.rest
  scored key' := by
    show Rescored _ (Function.update w.redis.zsets key _ key') (Function.update v.zsets key _ key')
    by_cases hkey : key' = key
    · subst hkey
      rw [Function.update_self, Function.update_self]
      exact hscored
    · rw [Function.update_of_ne hkey, Function.update_of_ne hkey]
      exact h.scored key'
  resolved key' := by
    show ScoresIn _ (Function.update w.redis.zsets key _ key')
    by_cases hkey : key' = key
    · subst hkey
      rw [Function.update_self]
      exact hresolved
    · rw [Function.update_of_ne hkey]
      exact h.resolved key'

/-- A command on other data acts on the rest of the world. -/
theorem Represents.rest_step {order : RowOrder} (h : Represents w v) {β : Type} {c : Command β}
    (hscored : execScored order β c v
      = (exec order β c v.rest).map fun r => (r.1, { v with rest := r.2 }))
    (hrest : (exec order).issue c w.withoutZsets
      = (((exec order).issue c w).1, ((exec order).issue c w).2.withoutZsets))
    (hzsets : ((exec order).issue c w).2.redis.zsets = w.redis.zsets) :
    ((execScored order).issue c v).1 = ((exec order).issue c w).1 ∧
      Represents ((exec order).issue c w).2 ((execScored order).issue c v).2 := by
  have hissue : (execScored order).issue c v = (((exec order).issue c w).1,
      { v with rest := ((exec order).issue c w).2.withoutZsets }) := by
    rw [← h.rest] at hrest
    unfold Handler.issue at hrest ⊢
    rw [hscored]
    cases hexec : exec order β c v.rest with
    | ok r =>
        rw [hexec] at hrest
        obtain ⟨hanswer, hworld⟩ := Prod.mk.inj hrest
        exact Prod.ext hanswer (congrArg (ScoredWorld.mk · v.zsets) hworld)
    | error e =>
        rw [hexec] at hrest
        obtain ⟨hanswer, hworld⟩ := Prod.mk.inj hrest
        exact Prod.ext hanswer (congrArg (ScoredWorld.mk · v.zsets) hworld)
  rw [hissue]
  exact ⟨rfl, ⟨rfl, fun key => by rw [hzsets]; exact h.scored key, fun key => by
    rw [hzsets]; exact h.resolved key⟩⟩

/-- A command that replaces a sorted set. -/
theorem Represents.write_step {order : RowOrder} (h : Represents w v) {c : Command Unit} {key : FeedKey}
    {f : FeedSet → FeedSet} {g : SortedSet ℚ Uuid → SortedSet ℚ Uuid}
    (hexec : exec order Unit c w = .ok ((), w.modifyZset key f))
    (hscored : execScored order Unit c v = .ok ((), v.modifyZset key g))
    (hrescored : (f (w.redis.zsets key)).Rescored DateTime.score (g (v.zsets key)))
    (hresolved : (f (w.redis.zsets key)).ScoresIn resolvedTimes) :
    ((execScored order).issue c v).1 = ((exec order).issue c w).1 ∧
      Represents ((exec order).issue c w).2 ((execScored order).issue c v).2 := by
  rw [Handler.issue_of_ok hexec, Handler.issue_of_ok hscored]
  exact ⟨rfl, h.modifyZset hrescored hresolved⟩

/-- **The step lemma**: a command gets the same reply over either world. -/
theorem exec_simulated (order : RowOrder) :
    (exec order).Simulated (execScored order) scoresResolved Represents := by
  intro β c w v hA h
  cases c with
  | zadd key time member =>
      -- a time that doubles tell apart has a score
      have htime : time.Resolved := of_decide_eq_true hA
      have hscored : execScored order Unit (.zadd key time member) v
          = .ok ((), v.modifyZset key fun z => z.add time.score member) := by
        show time.timestamp.map _ = _
        rw [timestamp_of_resolved htime]
        rfl
      exact h.write_step rfl hscored ((h.scored key).add score_strictMonoOn (h.resolved key) htime member)
        ((h.resolved key).add htime member)
  | zrem key members =>
      exact h.write_step rfl rfl ((h.scored key).removeAll members) fun e he =>
        h.resolved key e (mem_removeAll.mp he).1
  | zremrangebyrank key start stop =>
      exact h.write_step rfl rfl ((h.scored key).removeRangeByRank start stop) fun e he =>
        h.resolved key e (mem_of_mem_removeRangeByRank he)
  | zrange key start stop =>
      exact ⟨congrArg Except.ok ((h.scored key).range_eq start stop), h⟩
  | zrevrange key start stop =>
      exact ⟨congrArg Except.ok ((h.scored key).revRange_eq start stop), h⟩
  | existsZset key => exact ⟨congrArg Except.ok (h.scored key).exists_eq, h⟩
  | deleteZset key =>
      exact h.write_step rfl rfl rescored_empty fun e he => absurd he not_mem_empty
  | rename source target =>
      -- the source is there on both sides, or on neither
      have hsame := (h.scored source).exists_eq
      cases hexists : (w.redis.zsets source).exists with
      | true =>
          have hmoved : Represents (w.modifyZset target fun _ => w.redis.zsets source)
              (v.modifyZset target fun _ => v.zsets source) :=
            h.modifyZset (h.scored source) (h.resolved source)
          rw [Handler.issue_of_ok (show exec order Unit (.rename source target) w = .ok ((), _) from
              if_pos hexists),
            Handler.issue_of_ok (show execScored order Unit (.rename source target) v = .ok ((), _) from
              if_pos (hsame.trans hexists))]
          exact ⟨rfl, hmoved.modifyZset (f := fun _ => SortedSet.empty) (g := fun _ => SortedSet.empty)
            rescored_empty fun e he => absurd he not_mem_empty⟩
      | false =>
          rw [Handler.issue_of_error (show exec order Unit (.rename source target) w = .error _ from
              if_neg (by rw [hexists]; decide)),
            Handler.issue_of_error (show execScored order Unit (.rename source target) v = .error _ from
              if_neg (by rw [hsame, hexists]; decide))]
          exact ⟨rfl, h⟩
  | insertPost authorId text id now =>
      have hexec : ∀ u : World, exec order _ (.insertPost authorId text id now) u
          = (u.db.insertPost authorId text id now).map fun r => (r.1, { u with db := r.2 }) := fun _ => rfl
      refine h.rest_step rfl ?_ ?_ <;> unfold Handler.issue <;> simp only [hexec, World.withoutZsets] <;>
        cases w.db.insertPost authorId text id now <;> rfl
  | insertFriendship userId friendId =>
      have hexec : ∀ u : World, exec order _ (.insertFriendship userId friendId) u
          = (u.db.insertFriendship userId friendId).map fun db => ((), { u with db := db }) := fun _ => rfl
      refine h.rest_step rfl ?_ ?_ <;> unfold Handler.issue <;> simp only [hexec, World.withoutZsets] <;>
        cases w.db.insertFriendship userId friendId <;> rfl
  | _ => exact h.rest_step rfl rfl rfl

/-- **The times stand for the scores.** Where the calls of the handlers and the workers score posts of
these centuries only, their run over the sets of times is a run over the sets of doubles, command by command
with the same replies, and what the feeds hold at the end is the same. -/
theorem scores_represent_times {α : Type} (order : RowOrder) (threads : List (Py α)) (w : World)
    (v : ScoredWorld) (h : Represents w v) (schedule : List Nat)
    (hscores : Pool.Meets (exec order) scoresResolved ⟨threads, w⟩ schedule)
    (final : Pool Command PyError World α)
    (hrun : HighLoad.exec (Pool.step (exec order)) schedule ⟨threads, w⟩ = some final) :
    ∃ v', HighLoad.exec (Pool.step (execScored order)) schedule ⟨threads, v⟩
        = some ⟨final.threads, v'⟩ ∧
      Represents final.state v' ∧
      ∀ userId, (v'.zsets (.feed userId)).entries.map Entry.member
        = (final.state.feed userId).entries.map Entry.member := by
  obtain ⟨v', hrun', hfinal⟩ := Pool.exec_simulated (exec_simulated order) h hscores hrun
  exact ⟨v', hrun', hfinal, fun userId => (hfinal.scored (.feed userId)).map_member⟩

end HighLoad.Feed
