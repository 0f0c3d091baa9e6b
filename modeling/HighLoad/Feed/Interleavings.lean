/-
# HighLoad.Feed.Interleavings — handlers running at the same time

Calls of the handlers as the threads of a pool over one world: a step is one SQL statement or one Redis
command of one of them. `only_rebuildFeed`, `only_setFriend` and `only_createPost` list the commands a
call may issue, for whatever is to be shown about each of them.
-/
import HighLoad.Feed.Sequential
import HighLoad.Lib.Interleave

namespace HighLoad.Feed

open Prog

variable {cfg : Settings} {P : (β : Type) → Command β → Prop}

/-- Calls that start together. -/
def together {S : Type} (cfg : Settings) (calls : List Call) (s : S) :
    Pool Command PyError S Response :=
  ⟨calls.map (Call.program cfg), s⟩

theorem together_thread {S : Type} {calls : List Call} {s : S} {i : Nat} {q : Py Response}
    (h : (together cfg calls s).threads[i]? = some q) : ∃ c ∈ calls, c.program cfg = q := by
  have h' : (calls.map (Call.program cfg))[i]? = some q := h
  rw [List.getElem?_map] at h'
  obtain ⟨c, hc, rfl⟩ := Option.map_eq_some_iff.mp h'
  exact ⟨c, List.mem_of_getElem? hc, rfl⟩

/-- The post is in the feed. -/
def World.inFeed (w : World) (u id : Uuid) : Bool := (w.feed u).entries.any fun e => e.member = id

theorem World.inFeed_iff {w : World} {u id : Uuid} : w.inFeed u id = true ↔ (w.feed u).Has id := by
  unfold World.inFeed SortedSet.Has
  simp

/-- RENAME that succeeds found its source. -/
theorem exec_rename {order : RowOrder} {source target : FeedKey} {b : Unit} {w w' : World}
    (h : exec order Unit (.rename source target) w = .ok (b, w')) :
    (w.redis.zsets source).exists = true ∧
      (w.modifyZset target fun _ => w.redis.zsets source).modifyZset source
        (fun _ => SortedSet.empty) = w' := by
  have h' : (if (w.redis.zsets source).exists = true then
      Except.ok ((), (w.modifyZset target fun _ => w.redis.zsets source).modifyZset source
        fun _ => SortedSet.empty)
      else .error (PyError.redisError "no such key")) = .ok (b, w') := h
  split at h'
  · rename_i hsource
    exact ⟨hsource, (Prod.mk.inj (Except.ok.inj h')).2⟩
  · cases h'

theorem zsets_modifyZset (w : World) (key k : FeedKey) (g : FeedSet → FeedSet) :
    (w.modifyZset key g).redis.zsets k
      = if k = key then g (w.redis.zsets key) else w.redis.zsets k :=
  Function.update_apply _ _ _ _

/-- An operation that adds no member adds none to any sorted set. -/
theorem has_of_modifyZset {w : World} {key k : FeedKey} {g : FeedSet → FeedSet} {id : Uuid}
    (hg : ∀ m, (g (w.redis.zsets key)).Has m → (w.redis.zsets key).Has m)
    (h : ((w.modifyZset key g).redis.zsets k).Has id) : (w.redis.zsets k).Has id := by
  rw [zsets_modifyZset] at h
  split_ifs at h with hkey
  · rw [hkey]
    exact hg id h
  · exact h

/-- The commands that put rows into a sorted set. -/
theorem cacheRow_only {key : FeedKey} {rows : List PostRow} (hzadd : ∀ t id, P Unit (.zadd key t id))
    (hhset : ∀ id m, P Unit (.hset id m)) (hexpire : ∀ id n, P Unit (.expire id n)) :
    ∀ c ∈ rows.flatMap (cacheRow key), P Unit c := by
  intro c hc
  obtain ⟨row, -, hc⟩ := List.mem_flatMap.mp hc
  simp only [cacheRow, List.mem_cons, List.not_mem_nil, or_false] at hc
  obtain rfl | rfl | rfl := hc
  · exact hzadd _ _
  · exact hhset _ _
  · exact hexpire _ _

theorem only_rebuildFeed {u nonce : Uuid}
    (hselect : ∀ n, P _ (.selectFriendPosts u n))
    (hzadd : ∀ t id, P _ (.zadd (.rebuild u nonce) t id))
    (hhset : ∀ id m, P _ (.hset id m)) (hexpire : ∀ id n, P _ (.expire id n))
    (hrename : P _ (.rename (.rebuild u nonce) (.feed u)))
    (hdelete : P _ (.deleteZset (.feed u))) (hcleanup : P _ (.deleteZset (.rebuild u nonce))) :
    (rebuildFeed cfg u nonce).Only P := by
  unfold rebuildFeed rebuildFeedForUser
  refine Only.bind (Only.bind (only_call (hselect _)) fun rows => ?_) fun n => trivial
  split
  · exact Only.bind (only_call hdelete) fun _ => trivial
  · refine Only.bind (Only.tryFinally ?_ (only_call hcleanup)) fun _ => trivial
    exact Only.bind (only_pipeline (cacheRow_only hzadd hhset hexpire)) fun _ => only_call hrename

theorem only_setFriend {u v : Uuid}
    (hexists : P _ (.userExists v)) (hinsert : P _ (.insertFriendship u v))
    (hselect : ∀ ids n, P _ (.selectPosts ids n))
    (hzadd : ∀ t id, P _ (.zadd (.feed u) t id))
    (hhset : ∀ id m, P _ (.hset id m)) (hexpire : ∀ id n, P _ (.expire id n))
    (htrim : P _ (trimFeed cfg.feedMaxSize u)) : (setFriend cfg u v).Only P := by
  unfold setFriend addFriendPostsToFeed
  split
  · exact trivial
  · refine Only.bind (only_call hexists) fun b => ?_
    split
    · exact trivial
    · refine Only.bind (only_call hinsert) fun _ => ?_
      refine Only.bind (Only.bind (only_call (hselect _ _)) fun rows => ?_) fun _ => trivial
      split
      · exact trivial
      · refine Only.bind (only_pipeline ?_) fun _ => trivial
        intro c hc
        obtain hc | hc := List.mem_append.mp hc
        · exact cacheRow_only hzadd hhset hexpire c hc
        · obtain rfl := List.mem_singleton.mp hc
          exact htrim

theorem announceCreated_synchronous (hsync : Synchronous cfg) (user : Uuid) (text : String)
    (row : PostRow) : announceCreated cfg user text row = fanOutPost cfg row.id user row.createdAt := by
  unfold announceCreated
  rw [if_neg hsync.transport, hsync.fanout]
  rfl

theorem only_createPost (hsync : Synchronous cfg) {author : Uuid} {text : String} {id : Uuid}
    {now : DateTime} (hinsert : P _ (.insertPost author text id now))
    (hhset : ∀ id' m, P _ (.hset id' m)) (hexpire : ∀ id' n, P _ (.expire id' n))
    (hselect : P _ (.selectFollowers author))
    (hzadd : ∀ v t id', P _ (.zadd (.feed v) t id')) (htrim : ∀ v, P _ (trimFeed cfg.feedMaxSize v)) :
    (createPost cfg author text id now).Only P := by
  unfold createPost storePostHash
  refine Only.bind (only_call hinsert) fun row => ?_
  cases row with
  | none => exact trivial
  | some row =>
      simp only [announceCreated_synchronous hsync]
      unfold fanOutPost getFollowers
      refine Only.bind (Only.bind (only_pipeline ?_) fun _ => trivial) fun _ => ?_
      · simp only [List.mem_cons, List.not_mem_nil, or_false, forall_eq_or_imp, forall_eq]
        exact ⟨hhset _ _, hexpire _ _⟩
      · refine Only.bind (Only.bind (only_call hselect) fun followers => ?_) fun _ => trivial
        split
        · exact trivial
        · refine Only.bind (only_pipeline ?_) fun _ => trivial
          intro c hc
          obtain ⟨v, -, hc⟩ := List.mem_flatMap.mp hc
          simp only [List.mem_cons, List.not_mem_nil, or_false] at hc
          obtain rfl | rfl := hc
          · exact hzadd _ _ _
          · exact htrim _

end HighLoad.Feed
