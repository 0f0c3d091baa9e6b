/-
# HighLoad.Feed.CacheSpecs — what each cache function does

One lemma for each function of the cache: run alone and without faults it returns this value and
leaves the stores in that state. The state is written with a few operations on the world (`mapFeeds`,
`cacheRows`, `rebuilt`, `cacheFlags`), whose effect on a feed, on a post hash and on a flag is said
once; nothing later unfolds a program of the cache again.

A rebuild starts from an absent temporary key (`NoTemp`): every rebuild deletes its own.
-/
import HighLoad.Feed.Cache
import HighLoad.Lib.PointUpdate

namespace HighLoad.Feed

open Prog

variable {order : RowOrder} {cfg : Settings} {w : World}

/-- The world after a command without a reply. -/
def effect (order : RowOrder) (w : World) (c : Command Unit) : World :=
  match exec order Unit c w with
  | .ok r => r.2
  | .error _ => w

/-- A command without a reply that raises in no state. -/
def NeverRaises (order : RowOrder) (c : Command Unit) : Prop :=
  ∀ w, exec order Unit c w = .ok ((), effect order w c)

/-- The entry of a row in a sorted set. -/
def PostRow.entry (row : PostRow) : Entry DateTime Uuid := ⟨row.createdAt, row.id⟩

/-- `ZADD` and the trim to the `cap` topmost members. -/
def pushed (cap : Nat) (t : DateTime) (id : Uuid) (z : FeedSet) : FeedSet :=
  (z.add t id).removeRangeByRank 0 (-((cap : Int) + 1))

/-! ## Operations on the world -/

namespace World

/-- Change the feeds of some users. -/
def mapFeeds (w : World) (users : List Uuid) (f : FeedSet → FeedSet) : World :=
  { w with redis := { w.redis with
      zsets := fun k =>
        match k with
        | .feed u => if u ∈ users then f (w.feed u) else w.feed u
        | .rebuild u n => w.redis.zsets (.rebuild u n) } }

/-- Put rows into a sorted set and their bodies into Redis. -/
def cacheRows (w : World) (key : FeedKey) (rows : List PostRow) : World :=
  { w with redis := { w.redis with
      zsets := Function.update w.redis.zsets key
        ((w.redis.zsets key).addAll (rows.map PostRow.entry))
      posts := PointUpdate.writeAll PostRow.id (fun r => some (rowToPostHash r)) rows
        w.redis.posts } }

/-- Replace a feed by rows and put their bodies into Redis. -/
def rebuilt (w : World) (userId : Uuid) (rows : List PostRow) : World :=
  { w with redis := { w.redis with
      zsets := Function.update w.redis.zsets (.feed userId)
        (SortedSet.empty.addAll (rows.map PostRow.entry))
      posts := PointUpdate.writeAll PostRow.id (fun r => some (rowToPostHash r)) rows
        w.redis.posts } }

/-- Cache the celebrity flags of some users. -/
def cacheFlags (w : World) (flag : Uuid → Bool) (users : List Uuid) : World :=
  { w with redis := { w.redis with
      celebrity := PointUpdate.writeAll id (fun a => some (flagValue (flag a))) users
        w.redis.celebrity } }

/-- No temporary key exists. -/
def NoTemp (w : World) : Prop := ∀ u n, w.redis.zsets (.rebuild u n) = SortedSet.empty

/-- A read that would rebuild the feed under this nonce finds the temporary key absent. -/
def Fresh (w : World) (u nonce : Uuid) : Prop :=
  (w.feed u).exists = false → w.redis.zsets (.rebuild u nonce) = SortedSet.empty

theorem NoTemp.fresh {w : World} (h : w.NoTemp) (u nonce : Uuid) : w.Fresh u nonce :=
  fun _ => h u nonce

@[simp] theorem feed_mapFeeds (w : World) (users : List Uuid) (f : FeedSet → FeedSet) (u : Uuid) :
    (w.mapFeeds users f).feed u = if u ∈ users then f (w.feed u) else w.feed u := rfl

@[simp] theorem feed_modifyZset (w : World) (v : Uuid) (f : FeedSet → FeedSet) (u : Uuid) :
    (w.modifyZset (.feed v) f).feed u = if u = v then f (w.feed u) else w.feed u := by
  unfold feed modifyZset
  by_cases h : u = v
  · subst h
    simp
  · simp [h]

@[simp] theorem feed_rebuilt (w : World) (v : Uuid) (rows : List PostRow) (u : Uuid) :
    (w.rebuilt v rows).feed u
      = if u = v then SortedSet.empty.addAll (rows.map PostRow.entry) else w.feed u := by
  unfold feed rebuilt
  by_cases h : u = v
  · subst h
    simp
  · simp [h]

@[simp] theorem feed_cacheRows (w : World) (v : Uuid) (rows : List PostRow) (u : Uuid) :
    (w.cacheRows (.feed v) rows).feed u
      = if u = v then (w.feed u).addAll (rows.map PostRow.entry) else w.feed u := by
  unfold feed cacheRows
  by_cases h : u = v
  · subst h
    simp
  · simp [h]

@[simp] theorem feed_setPost (w : World) (id : Uuid) (h : Option PostHash) (u : Uuid) :
    (w.setPost id h).feed u = w.feed u := rfl

theorem modifyZset_modifyZset (w : World) (key : FeedKey) (f g : FeedSet → FeedSet) :
    (w.modifyZset key f).modifyZset key g = w.modifyZset key (g ∘ f) := by
  simp [modifyZset]

/-- Changing the feeds of distinct users one after the other. -/
theorem foldl_modifyZset {users : List Uuid} (h : users.Nodup) (f : FeedSet → FeedSet) (w : World) :
    users.foldl (fun w u => w.modifyZset (.feed u) f) w = w.mapFeeds users f := by
  induction users generalizing w with
  | nil =>
      refine World.ext rfl (Redis.ext (funext fun k => ?_) rfl rfl) rfl rfl
      cases k <;> simp [mapFeeds, feed]
  | cons v users ih =>
      obtain ⟨hv, husers⟩ := List.nodup_cons.mp h
      rw [List.foldl_cons, ih husers]
      refine World.ext rfl (Redis.ext (funext fun k => ?_) rfl rfl) rfl rfl
      cases k with
      | rebuild u n => simp [mapFeeds, modifyZset]
      | feed u =>
          by_cases huv : u = v
          · subst huv
            simp [mapFeeds, modifyZset, feed, hv]
          · simp [mapFeeds, modifyZset, feed, huv]

/-- The commands that cache rows, one after the other. -/
theorem foldl_cacheRow (order : RowOrder) (key : FeedKey) (rows : List PostRow) (w : World) :
    (rows.flatMap (cacheRow key)).foldl (effect order) w = w.cacheRows key rows := by
  induction rows generalizing w with
  | nil => simp [cacheRows]
  | cons row rows ih =>
      rw [List.flatMap_cons, List.foldl_append, ih]
      simp [cacheRow, effect, exec, cacheRows, modifyZset, setPost, PostRow.entry, SortedSet.addAll_cons,
        PointUpdate.writeAll_cons]

/-- A flag that is in the cache stays; the flags of `users` are written. -/
theorem celebrity_cacheFlags (w : World) (flag : Uuid → Bool) (users : List Uuid) (a : Uuid) :
    (w.cacheFlags flag users).redis.celebrity a
      = if a ∈ users then some (flagValue (flag a)) else w.redis.celebrity a :=
  PointUpdate.writeAll_eq_ite (f := fun a => some (flagValue (flag a)))

theorem foldl_set (order : RowOrder) (flag : Uuid → Bool) (ex : Int) (users : List Uuid)
    (w : World) :
    (users.map fun u => Command.set u (flagValue (flag u)) ex).foldl (effect order) w
      = w.cacheFlags flag users := by
  induction users generalizing w with
  | nil => rfl
  | cons u users ih =>
      rw [List.map_cons, List.foldl_cons, ih]
      rfl

end World

/-! ## Pipelines -/

/-- A pipeline of writes that never raise. -/
theorem run_writes {cs : List (Command Unit)} (hcs : ∀ c ∈ cs, NeverRaises order c) (w : World) :
    (pipeline cs : Py (List Unit)).run (exec order) w
      = (.ok (cs.map fun _ => ()), cs.foldl (effect order) w) :=
  run_pipeline_writes (f := fun c w => effect order w c) hcs w

theorem neverRaises_cacheRow {key : FeedKey} {rows : List PostRow} :
    ∀ c ∈ rows.flatMap (cacheRow key), NeverRaises order c := by
  intro c hc
  obtain ⟨row, -, hc⟩ := List.mem_flatMap.mp hc
  simp only [cacheRow, List.mem_cons, List.not_mem_nil, or_false] at hc
  rcases hc with rfl | rfl | rfl <;> exact fun _ => rfl

/-! ## Post hashes -/

theorem run_storePostHash (postId : Uuid) (text : String) (authorId : Uuid) (createdAt : DateTime)
    (w : World) :
    (storePostHash postId text authorId createdAt).run (exec order) w
      = (.ok (), w.setPost postId (some ⟨text, authorId, createdAt.isoformat⟩)) := by
  unfold storePostHash
  rw [run_bind_of_ok (run_writes ?_ w)]
  · rfl
  · intro c hc
    simp only [List.mem_cons, List.not_mem_nil, or_false] at hc
    rcases hc with rfl | rfl <;> exact fun _ => rfl

theorem run_deletePostHash (postId : Uuid) (w : World) :
    (deletePostHash postId).run (exec order) w = (.ok (), w.setPost postId none) := rfl

/-! ## Writing the feeds -/

/-- The feeds of the followers of an author change. -/
theorem mapFeeds_of_isEmpty {users : List Uuid} (h : users.isEmpty = true) (w : World)
    (f : FeedSet → FeedSet) : w.mapFeeds users f = w := by
  rw [List.isEmpty_iff.mp h]
  refine World.ext rfl (Redis.ext (funext fun k => ?_) rfl rfl) rfl rfl
  cases k <;> simp [World.mapFeeds, World.feed]

theorem run_getFollowers (authorId : Uuid) (w : World) :
    (getFollowers authorId).run (exec order) w = (.ok (w.db.followers authorId), w) := rfl

/-- **Fan-out pushes the post into the feed of every follower.** -/
theorem run_fanOutPost (postId authorId : Uuid) (createdAt : DateTime) (w : World) :
    (fanOutPost cfg postId authorId createdAt).run (exec order) w
      = (.ok (), w.mapFeeds (w.db.followers authorId)
          (pushed cfg.feedMaxSize createdAt postId)) := by
  unfold fanOutPost
  rw [run_bind_of_ok (run_getFollowers authorId w)]
  split_ifs with hempty
  · rw [mapFeeds_of_isEmpty hempty]
    rfl
  · rw [run_bind_of_ok (run_writes ?_ w)]
    · rw [List.foldl_flatMap, ← World.foldl_modifyZset (w.db.followers_nodup authorId)]
      simp only [List.foldl_cons, List.foldl_nil]
      show (Except.ok (), _) = (Except.ok (), _)
      congr
      funext w u
      exact World.modifyZset_modifyZset w (.feed u) (fun z => z.add createdAt postId)
        fun z => z.removeRangeByRank 0 (-((cfg.feedMaxSize : Int) + 1))
    · intro c hc
      obtain ⟨u, -, hc⟩ := List.mem_flatMap.mp hc
      simp only [List.mem_cons, List.not_mem_nil, or_false] at hc
      rcases hc with rfl | rfl <;> exact fun _ => rfl

/-- **Removal takes the post out of the feed of every follower.** -/
theorem run_removePostFromAllFeeds (postId authorId : Uuid) (w : World) :
    (removePostFromAllFeeds postId authorId).run (exec order) w
      = (.ok (), w.mapFeeds (w.db.followers authorId) fun z => z.removeAll [postId]) := by
  unfold removePostFromAllFeeds
  rw [run_bind_of_ok (run_getFollowers authorId w)]
  split_ifs with hempty
  · rw [mapFeeds_of_isEmpty hempty]
    rfl
  · rw [run_bind_of_ok (run_writes ?_ w)]
    · rw [List.foldl_map, ← World.foldl_modifyZset (w.db.followers_nodup authorId)]
      rfl
    · intro c hc
      obtain ⟨u, -, rfl⟩ := List.mem_map.mp hc
      exact fun _ => rfl

/-- The rows that `add_friend_posts_to_feed` selects. -/
def friendRows (order : RowOrder) (cfg : Settings) (w : World) (friendId : Uuid) : List PostRow :=
  w.db.recentPosts order [friendId] cfg.feedMaxSize

/-- The world after the posts of a friend were added. -/
def World.befriended (order : RowOrder) (cfg : Settings) (w : World) (userId friendId : Uuid) :
    World :=
  if (friendRows order cfg w friendId).isEmpty then w
  else
    (w.cacheRows (.feed userId) (friendRows order cfg w friendId)).modifyZset (.feed userId)
      fun z => z.removeRangeByRank 0 (-((cfg.feedMaxSize : Int) + 1))

theorem run_addFriendPostsToFeed (userId friendId : Uuid) (w : World) :
    (addFriendPostsToFeed cfg userId friendId).run (exec order) w
      = (.ok (), w.befriended order cfg userId friendId) := by
  unfold addFriendPostsToFeed World.befriended
  rw [run_bind_of_ok (show (call (.selectPosts [friendId] cfg.feedMaxSize) : Py _).run (exec order) w
    = (.ok (friendRows order cfg w friendId), w) from rfl)]
  split_ifs with hempty
  · rfl
  · rw [run_bind_of_ok (run_writes ?_ w)]
    · rw [List.foldl_append, World.foldl_cacheRow]
      rfl
    · intro c hc
      rcases List.mem_append.mp hc with hc | hc
      · exact neverRaises_cacheRow c hc
      · rw [List.mem_singleton.mp hc]
        exact fun _ => rfl

@[simp] theorem World.befriended_db (userId friendId : Uuid) :
    (w.befriended order cfg userId friendId).db = w.db := by
  unfold World.befriended
  split_ifs <;> rfl

@[simp] theorem World.befriended_temp (userId friendId v n : Uuid) :
    (w.befriended order cfg userId friendId).redis.zsets (.rebuild v n)
      = w.redis.zsets (.rebuild v n) := by
  unfold World.befriended
  split_ifs
  · rfl
  · simp [World.modifyZset, World.cacheRows]

/-- The members of a feed whose hash names the author. -/
def postsByHash (w : World) (userId authorId : Uuid) : List Uuid :=
  ((w.feed userId).entries.map Entry.member).filter fun id =>
    (w.redis.posts id).map PostHash.authorId = some authorId

/-- Pairs of elements and their images, those selected by the image. -/
theorem filterMap_zip_map {α β : Type} (l : List α) (f : α → β) (p : β → Bool) :
    (l.zip (l.map f)).filterMap (fun q => if p q.2 then some q.1 else none)
      = l.filter fun a => p (f a) := by
  induction l with
  | nil => rfl
  | cons a l ih =>
      rw [List.map_cons, List.zip_cons_cons, List.filterMap_cons, ih, List.filter_cons]
      cases p (f a) <;> rfl

/-- **Unfriending removes the posts whose hash names the friend.** -/
theorem run_removeFriendPostsFromFeed (userId friendId : Uuid) (w : World) :
    (removeFriendPostsFromFeed userId friendId).run (exec order) w
      = (.ok (), w.modifyZset (.feed userId)
          fun z => z.removeAll (postsByHash w userId friendId)) := by
  have hnone : ∀ {ids : List Uuid}, ids = [] →
      w.modifyZset (.feed userId) (fun z => z.removeAll ids) = w := by
    rintro ids rfl
    refine World.ext rfl (Redis.ext (funext fun k => ?_) rfl rfl) rfl rfl
    simp [World.modifyZset]
  unfold removeFriendPostsFromFeed
  have hrange : (call (.zrange (.feed userId) 0 (-1)) : Py _).run (exec order) w
      = (.ok ((w.feed userId).entries.map Entry.member), w) := by
    rw [← SortedSet.range_all]
    rfl
  rw [run_bind_of_ok hrange]
  split_ifs with hempty
  · rw [hnone]
    · rfl
    · unfold postsByHash
      rw [List.isEmpty_iff.mp hempty]
      rfl
  · have hauthors := run_pipeline_reads (h := exec order) (c := Command.hgetAuthorId) (s := w)
      (r := fun id => (w.redis.posts id).map PostHash.authorId) (fun _ => rfl)
      ((w.feed userId).entries.map Entry.member)
    rw [run_bind_of_ok hauthors]
    have hremove := filterMap_zip_map ((w.feed userId).entries.map Entry.member)
      (fun id => (w.redis.posts id).map PostHash.authorId) fun a => a = some friendId
    simp only [decide_eq_true_eq] at hremove
    simp only [hremove]
    split_ifs with hnoneRemoved
    · rw [hnone]
      · rfl
      · exact List.isEmpty_iff.mp hnoneRemoved
    · rfl

/-! ## Rebuild -/

/-- The rows that a rebuild selects. -/
def rebuildRows (order : RowOrder) (cfg : Settings) (w : World) (userId : Uuid) : List PostRow :=
  w.db.recentFriendPosts order userId cfg.feedMaxSize

/-- Renaming the temporary key, when rows were put into it, replaces the feed by them. -/
theorem exec_rename_cacheRows {userId nonce : Uuid} {rows : List PostRow} (hrows : rows ≠ [])
    (htemp : w.redis.zsets (.rebuild userId nonce) = SortedSet.empty) :
    exec order Unit (.rename (.rebuild userId nonce) (.feed userId))
        (w.cacheRows (.rebuild userId nonce) rows) = .ok ((), w.rebuilt userId rows) := by
  have hexists : ((w.cacheRows (.rebuild userId nonce) rows).redis.zsets
      (.rebuild userId nonce)).exists = true := by
    simp only [World.cacheRows, Function.update_self]
    refine SortedSet.exists_addAll _ ?_
    rwa [Ne, List.map_eq_nil_iff]
  simp only [exec, hexists, if_true]
  congr 2
  refine World.ext rfl (Redis.ext (funext fun k => ?_) rfl rfl) rfl rfl
  -- the feed has the rows, the temporary key is gone, the other keys are untouched
  by_cases htmp : k = .rebuild userId nonce
  · subst htmp
    simp [World.modifyZset, World.rebuilt, htemp]
  · by_cases hfeed : k = .feed userId
    · subst hfeed
      simp [World.modifyZset, World.cacheRows, World.rebuilt, htemp]
    · simp [World.modifyZset, World.cacheRows, World.rebuilt, htmp, hfeed]

/-- **A rebuild replaces the feed by the rows it selects.** -/
theorem run_rebuildFeedForUser (userId nonce : Uuid) (w : World)
    (htemp : w.redis.zsets (.rebuild userId nonce) = SortedSet.empty) :
    (rebuildFeedForUser cfg userId nonce).run (exec order) w
      = (.ok (rebuildRows order cfg w userId).length,
          w.rebuilt userId (rebuildRows order cfg w userId)) := by
  unfold rebuildFeedForUser
  rw [run_bind_of_ok (show (call (.selectFriendPosts userId cfg.feedMaxSize) : Py _).run
    (exec order) w = (.ok (rebuildRows order cfg w userId), w) from rfl)]
  split_ifs with hempty
  · rw [List.isEmpty_iff.mp hempty]
    rfl
  · have hswap : (swapFeed userId nonce (rebuildRows order cfg w userId)).run (exec order) w
        = (.ok (), w.rebuilt userId (rebuildRows order cfg w userId)) := by
      unfold swapFeed
      rw [run_bind_of_ok (run_writes neverRaises_cacheRow w), World.foldl_cacheRow]
      refine run_call_of_ok (exec_rename_cacheRows ?_ htemp)
      rwa [Ne, ← List.isEmpty_iff]
    have hdelete : ∀ w : World, (call (.deleteZset (.rebuild userId nonce)) : Py Unit).run
        (exec order) w
          = (.ok (), w.modifyZset (.rebuild userId nonce) fun _ => SortedSet.empty) := fun _ => rfl
    have hfinally := run_tryFinally hdelete (swapFeed userId nonce (rebuildRows order cfg w userId)) w
    have hgone : (w.rebuilt userId (rebuildRows order cfg w userId)).modifyZset
        (.rebuild userId nonce) (fun _ => SortedSet.empty)
          = w.rebuilt userId (rebuildRows order cfg w userId) := by
      refine World.ext rfl (Redis.ext (funext fun k => ?_) rfl rfl) rfl rfl
      by_cases htmp : k = .rebuild userId nonce
      · subst htmp
        simp [World.modifyZset, World.rebuilt, htemp]
      · simp [World.modifyZset, htmp]
    rw [hswap] at hfinally
    simp only [hgone] at hfinally
    rw [run_bind_of_ok hfinally]
    rfl

end HighLoad.Feed
