/-
# HighLoad.Feed.ReadSpecs — what the readers of the feed return

The reading half of the cache, run alone and without faults. `read_feed` opens the feed (rebuilding it
when the key is absent), returns the items of the page whose post hash exists and sweeps the ids
without one out of the set. The two evaluations of the celebrity flag agree with one function of the
cache and the friendships (`celebrityFlag`), and caching a flag does not change it
(`celebrityFlag_flagged`). `read_feed_merged` merges a page of the feed with the recent posts of the
celebrity friends.
-/
import HighLoad.Feed.CacheSpecs

namespace HighLoad.Feed

open Prog

variable {order : RowOrder} {cfg : Settings} {w : World}

/-! ## read_feed -/

/-- The world in which a feed is read: an absent key is rebuilt first. -/
def World.opened (order : RowOrder) (cfg : Settings) (w : World) (userId : Uuid) : World :=
  if (w.feed userId).exists then w else w.rebuilt userId (rebuildRows order cfg w userId)

@[simp] theorem World.opened_db (userId : Uuid) : (w.opened order cfg userId).db = w.db := by
  unfold World.opened
  split_ifs <;> rfl

/-- The ids of a page, newest first. -/
def pageIds (w : World) (userId : Uuid) (offset limit : Nat) : List Uuid :=
  (w.feed userId).revRange offset ((offset : Int) + limit - 1)

/-- The item of an id whose hash exists. -/
def itemOf (w : World) (id : Uuid) : Option FeedItem :=
  (w.redis.posts id).map fun h => ⟨id, h.text, h.authorId, none⟩

/-- The ids without a hash. -/
def staleIds (w : World) (ids : List Uuid) : List Uuid :=
  ids.filter fun id => (w.redis.posts id).isNone

/-- The world after the ghosts of a page were swept out of a feed. -/
def World.swept (w : World) (userId : Uuid) (ids : List Uuid) : World :=
  w.modifyZset (.feed userId) fun z => z.removeAll (staleIds w ids)

theorem World.swept_of_isEmpty {userId : Uuid} {ids : List Uuid}
    (h : (staleIds w ids).isEmpty = true) : w.swept userId ids = w := by
  refine World.ext rfl (Redis.ext (funext fun k => ?_) rfl rfl) rfl rfl
  rw [World.swept, List.isEmpty_iff.mp h]
  simp [World.modifyZset]

/-- Pairs of elements and their images, mapped where the image is there. -/
theorem filterMap_zip_option {α β γ : Type} (l : List α) (f : α → Option β) (g : α → β → γ) :
    (l.zip (l.map f)).filterMap (fun q => q.2.map (g q.1)) = l.filterMap fun a => (f a).map (g a) := by
  induction l with
  | nil => rfl
  | cons a l ih =>
      rw [List.map_cons, List.zip_cons_cons, List.filterMap_cons, List.filterMap_cons, ih]

/-- Whether the key was absent or not, the feed is opened. -/
theorem run_rebuildOnMiss (userId nonce : Uuid) (w : World) (htemp : w.Fresh userId nonce) :
    (rebuildOnMiss cfg userId nonce (w.feed userId).exists).run (exec order) w
      = (.ok (), w.opened order cfg userId) := by
  unfold rebuildOnMiss World.opened
  split_ifs with hexists
  · rfl
  · have habsent := htemp (Bool.not_eq_true _ ▸ hexists)
    rw [run_bind_of_ok (run_rebuildFeedForUser userId nonce w habsent)]
    rfl

/-- **`read_feed` returns the items of the page and sweeps its ghosts.** -/
theorem run_readFeed (order : RowOrder) (cfg : Settings) (userId nonce : Uuid)
    (offset limit : Nat) (w : World)
    (htemp : w.Fresh userId nonce) :
    (readFeed cfg nonce userId offset limit).run (exec order) w
      = (.ok ((pageIds (w.opened order cfg userId) userId offset limit).filterMap
            (itemOf (w.opened order cfg userId))),
          (w.opened order cfg userId).swept userId
            (pageIds (w.opened order cfg userId) userId offset limit)) := by
  unfold readFeed
  rw [run_bind_of_ok (show (call (.existsZset (.feed userId)) : Py _).run (exec order) w
    = (.ok (w.feed userId).exists, w) from rfl)]
  rw [run_bind_of_ok (run_rebuildOnMiss userId nonce w htemp)]
  generalize w.opened order cfg userId = w₁
  rw [run_bind_of_ok (show (call (.zrevrange (.feed userId) offset ((offset : Int) + limit - 1)) :
    Py _).run (exec order) w₁ = (.ok (pageIds w₁ userId offset limit), w₁) from rfl)]
  generalize pageIds w₁ userId offset limit = ids
  split_ifs with hempty
  · rw [List.isEmpty_iff.mp hempty, World.swept_of_isEmpty rfl]
    rfl
  · have hhashes := run_pipeline_reads (h := exec order) (c := Command.hgetall) (s := w₁)
      (r := w₁.redis.posts) (fun _ => rfl) ids
    rw [run_bind_of_ok hhashes]
    have hitems := filterMap_zip_option ids w₁.redis.posts fun id h =>
      (⟨id, h.text, h.authorId, none⟩ : FeedItem)
    have hstale := filterMap_zip_map ids w₁.redis.posts fun h => h.isNone
    simp only [hitems, hstale]
    split_ifs with hnone
    · rw [World.swept_of_isEmpty hnone]
      rfl
    · rfl

/-! ## The celebrity flag -/

/-- The flag of an author: the cached one, else the comparison of the follower count. -/
def celebrityFlag (cfg : Settings) (w : World) (authorId : Uuid) : Bool :=
  match w.redis.celebrity authorId with
  | some v => v.isOne
  | none => decide (cfg.celebrityFollowersThreshold ≤ (w.db.countFollowers authorId : Int))

/-- The ids whose flag is not cached. -/
def missingFlags (w : World) (ids : List Uuid) : List Uuid :=
  ids.filter fun id => (w.redis.celebrity id).isNone

/-- The world after the flags of some users were evaluated. -/
def World.flagged (cfg : Settings) (w : World) (ids : List Uuid) : World :=
  w.cacheFlags (celebrityFlag cfg w) (missingFlags w ids)

@[simp] theorem isOne_flagValue (flag : Bool) : (flagValue flag).isOne = flag := by
  cases flag <;> decide

theorem celebrityFlag_of_none {a : Uuid} (h : w.redis.celebrity a = none) :
    celebrityFlag cfg w a
      = decide (cfg.celebrityFollowersThreshold ≤ (w.db.countFollowers a : Int)) := by
  unfold celebrityFlag
  rw [h]

/-- **Caching flags changes no flag.** -/
theorem celebrityFlag_flagged (cfg : Settings) (w : World) (ids : List Uuid) (a : Uuid) :
    celebrityFlag cfg (w.flagged cfg ids) a = celebrityFlag cfg w a := by
  have hcache := World.celebrity_cacheFlags w (celebrityFlag cfg w) (missingFlags w ids) a
  show (match (w.flagged cfg ids).redis.celebrity a with
    | some v => v.isOne
    | none => decide (cfg.celebrityFollowersThreshold ≤ (w.db.countFollowers a : Int))) = _
  rw [World.flagged, hcache]
  split_ifs with hmem
  · exact isOne_flagValue _
  · rfl

theorem run_isCelebrity (authorId : Uuid) (w : World) :
    (isCelebrity cfg authorId).run (exec order) w
      = (.ok (celebrityFlag cfg w authorId), w.flagged cfg [authorId]) := by
  unfold isCelebrity
  rw [run_bind_of_ok (show (call (.get authorId) : Py _).run (exec order) w
    = (.ok (w.redis.celebrity authorId), w) from rfl)]
  cases hcached : w.redis.celebrity authorId with
  | some v =>
      have hmissing : missingFlags w [authorId] = [] := by
        simp [missingFlags, hcached]
      rw [World.flagged, hmissing, celebrityFlag, hcached]
      rfl
  | none =>
      have hmissing : missingFlags w [authorId] = [authorId] := by
        simp [missingFlags, hcached]
      rw [World.flagged, hmissing, celebrityFlag_of_none hcached]
      show _ = (Except.ok _, w.cacheFlags (celebrityFlag cfg w) [authorId])
      have hcache : w.cacheFlags (celebrityFlag cfg w) [authorId]
          = w.setCelebrity authorId (some (flagValue (decide
              (cfg.celebrityFollowersThreshold ≤ (w.db.countFollowers authorId : Int))))) := by
        rw [← celebrityFlag_of_none hcached]
        rfl
      rw [hcache]
      rfl

/-- The friends that `get_celebrity_friends` returns: first those flagged in the cache. -/
def celebrityFriends (cfg : Settings) (w : World) (userId : Uuid) : List Uuid :=
  ((w.db.friends userId).filterMap fun a =>
      (w.redis.celebrity a).bind fun v => if v.isOne then some a else none)
    ++ (missingFlags w (w.db.friends userId)).filter (celebrityFlag cfg w)

/-- **They are the friends whose flag is set.** -/
theorem mem_celebrityFriends {userId a : Uuid} :
    a ∈ celebrityFriends cfg w userId ↔ w.db.Follows userId a ∧ celebrityFlag cfg w a = true := by
  unfold celebrityFriends missingFlags
  simp only [List.mem_append, List.mem_filterMap, List.mem_filter, Database.mem_friends]
  cases hcached : w.redis.celebrity a with
  | some v =>
      have hflag : celebrityFlag cfg w a = v.isOne := by
        unfold celebrityFlag
        rw [hcached]
      rw [hflag]
      constructor
      · rintro (⟨b, hb, hv⟩ | ⟨⟨-, hnone⟩, -⟩)
        · cases hb' : w.redis.celebrity b with
          | none => simp [hb'] at hv
          | some v' =>
              rw [hb', Option.bind_some] at hv
              split_ifs at hv with hone
              obtain rfl := Option.some.inj hv
              rw [hcached] at hb'
              obtain rfl := Option.some.inj hb'
              exact ⟨hb, hone⟩
        · exact absurd hnone (by simp)
      · rintro ⟨hfollows, hone⟩
        exact Or.inl ⟨a, hfollows, by simp [hcached, hone]⟩
  | none =>
      constructor
      · rintro (⟨b, hb, hv⟩ | ⟨⟨hfollows, -⟩, hflag⟩)
        · cases hb' : w.redis.celebrity b with
          | none => simp [hb'] at hv
          | some v' =>
              rw [hb', Option.bind_some] at hv
              split_ifs at hv with hone
              obtain rfl := Option.some.inj hv
              rw [hcached] at hb'
              exact absurd hb' (by simp)
        · exact ⟨hfollows, hflag⟩
      · rintro ⟨hfollows, hflag⟩
        exact Or.inr ⟨⟨hfollows, rfl⟩, hflag⟩

theorem run_getCelebrityFriends (userId : Uuid) (w : World) :
    (getCelebrityFriends cfg userId).run (exec order) w
      = (.ok (celebrityFriends cfg w userId), w.flagged cfg (w.db.friends userId)) := by
  unfold getCelebrityFriends celebrityFriends World.flagged
  rw [run_bind_of_ok (show (call (.selectFriends userId) : Py _).run (exec order) w
    = (.ok (w.db.friends userId), w) from rfl)]
  split_ifs with hempty
  · rw [List.isEmpty_iff.mp hempty]
    rfl
  · rw [run_bind_of_ok (show (call (.mget (w.db.friends userId)) : Py _).run (exec order) w
      = (.ok ((w.db.friends userId).map w.redis.celebrity), w) from rfl)]
    have hcelebrity : ((w.db.friends userId).zip ((w.db.friends userId).map w.redis.celebrity)
        ).filterMap (fun p => p.2.bind fun v => if v.isOne then some p.1 else none)
          = (w.db.friends userId).filterMap fun a =>
            (w.redis.celebrity a).bind fun v => if v.isOne then some a else none := by
      induction w.db.friends userId with
      | nil => rfl
      | cons a l ih =>
          rw [List.map_cons, List.zip_cons_cons, List.filterMap_cons, List.filterMap_cons, ih]
    have hmissing : ((w.db.friends userId).zip ((w.db.friends userId).map w.redis.celebrity)
        ).filterMap (fun p => if p.2.isNone then some p.1 else none)
          = missingFlags w (w.db.friends userId) :=
      filterMap_zip_map _ w.redis.celebrity fun v => v.isNone
    simp only [hcelebrity, hmissing]
    split_ifs with hnone
    · rw [List.isEmpty_iff.mp hnone]
      simp only [List.filter_nil, List.append_nil]
      rfl
    · rw [run_bind_of_ok (show (call (.groupFollowers (missingFlags w (w.db.friends userId))) :
        Py _).run (exec order) w
          = (.ok (w.db.groupFollowers (missingFlags w (w.db.friends userId))), w) from rfl)]
      -- on the ids it was asked for, the grouped count is the count the flag compares
      have hflag : ∀ fid ∈ missingFlags w (w.db.friends userId),
          decide (cfg.celebrityFollowersThreshold ≤
            (((w.db.groupFollowers (missingFlags w (w.db.friends userId))).lookup fid).getD 0 : Nat))
            = celebrityFlag cfg w fid := by
        intro fid hfid
        have hcached : w.redis.celebrity fid = none := by
          simpa using (List.mem_filter.mp hfid).2
        rw [Database.lookup_groupFollowers hfid, celebrityFlag_of_none hcached]
      have hset : ((missingFlags w (w.db.friends userId)).map fun fid =>
          Command.set fid (flagValue (decide (cfg.celebrityFollowersThreshold ≤
            (((w.db.groupFollowers (missingFlags w (w.db.friends userId))).lookup fid).getD 0 : Nat))))
            cfg.celebrityCacheTtl)
          = (missingFlags w (w.db.friends userId)).map fun fid =>
            Command.set fid (flagValue (celebrityFlag cfg w fid)) cfg.celebrityCacheTtl :=
        List.map_congr_left fun fid hfid => by rw [hflag fid hfid]
      have hfilter : ((missingFlags w (w.db.friends userId)).filter fun fid =>
          decide (cfg.celebrityFollowersThreshold ≤
            (((w.db.groupFollowers (missingFlags w (w.db.friends userId))).lookup fid).getD 0 : Nat)))
          = (missingFlags w (w.db.friends userId)).filter (celebrityFlag cfg w) :=
        List.filter_congr fun fid hfid => hflag fid hfid
      simp only [hset, hfilter]
      rw [run_bind_of_ok (run_writes ?_ w)]
      · rw [World.foldl_set]
        rfl
      · intro c hc
        obtain ⟨fid, -, rfl⟩ := List.mem_map.mp hc
        exact fun _ => rfl

/-! ## read_feed_merged -/

/-- The item of a row that was pulled. -/
def pulledItem (r : PostRow) : FeedItem := ⟨r.id, r.text, r.authorId, some r.createdAt.isoformat⟩

theorem run_fetchRecentPostsByAuthors (authorIds : List Uuid) (limit : Nat) (w : World) :
    (fetchRecentPostsByAuthors authorIds limit).run (exec order) w
      = (.ok ((w.db.recentPosts order authorIds limit).map pulledItem), w) := by
  unfold fetchRecentPostsByAuthors
  split_ifs with hempty
  · have hrows : w.db.recentPosts order authorIds limit = [] := by
      rw [List.eq_nil_iff_forall_not_mem]
      intro p hp
      have := (Database.mem_recentPosts_of_mem hp).2
      rw [List.isEmpty_iff.mp hempty] at this
      exact List.not_mem_nil this
    rw [hrows]
    rfl
  · rfl

/-- An item of the push part with the `created_at` of its hash. -/
def datedItem (w : World) (i : FeedItem) : FeedItem :=
  { i with createdAt := some (((w.redis.posts i.id).map PostHash.createdAt).getD "") }

theorem run_addCreatedAts (items : List FeedItem) (w : World) :
    (addCreatedAts items).run (exec order) w = (.ok (items.map (datedItem w)), w) := by
  unfold addCreatedAts
  split_ifs with hempty
  · rw [List.isEmpty_iff.mp hempty]
    rfl
  · have hdates := run_pipeline_reads (h := exec order)
      (c := fun i : FeedItem => Command.hgetCreatedAt i.id) (s := w)
      (r := fun i => (w.redis.posts i.id).map PostHash.createdAt) (fun _ => rfl) items
    rw [run_bind_of_ok hdates, run_pure]
    congr 2
    clear hdates hempty
    induction items with
    | nil => rfl
    | cons i items ih =>
        rw [List.map_cons, List.zip_cons_cons, List.map_cons, ih]
        rfl

/-- The page that the merge of two lists of items shows. -/
def mergedPage (items : List FeedItem) (offset limit : Nat) : List FeedItem :=
  ((((uniqueItems [] items).insertionSort FeedItem.Before).drop offset).take limit).map fun i =>
    { i with createdAt := none }

/-- The items of the first `limit` places of a feed. -/
def pushPart (w : World) (userId : Uuid) (limit : Nat) : List FeedItem :=
  (pageIds w userId 0 limit).filterMap (itemOf w)

/-- The newest posts of the celebrity friends. -/
def pullPart (order : RowOrder) (cfg : Settings) (w : World) (userId : Uuid) (limit : Nat) :
    List FeedItem :=
  (w.db.recentPosts order (celebrityFriends cfg w userId) limit).map pulledItem

/-- **`read_feed_merged` merges the top of the feed with the recent posts of celebrity friends.** -/
theorem run_readFeedMerged (order : RowOrder) (cfg : Settings) (userId nonce : Uuid)
    (offset limit : Nat) (w : World) (htemp : w.Fresh userId nonce) :
    (readFeedMerged cfg nonce userId offset limit).run (exec order) w
      = (.ok (mergedPage
            ((pushPart (w.opened order cfg userId) userId (offset + limit)).map
                (datedItem (w.opened order cfg userId))
              ++ pullPart order cfg (w.opened order cfg userId) userId (offset + limit))
            offset limit),
          ((w.opened order cfg userId).swept userId
            (pageIds (w.opened order cfg userId) userId 0 (offset + limit))).flagged cfg
              ((w.opened order cfg userId).db.friends userId)) := by
  unfold readFeedMerged
  rw [run_bind_of_ok (run_readFeed order cfg userId nonce 0 (offset + limit) w htemp)]
  generalize w.opened order cfg userId = w₁
  rw [run_bind_of_ok (run_getCelebrityFriends userId _),
    run_bind_of_ok (run_fetchRecentPostsByAuthors _ _ _), run_bind_of_ok (run_addCreatedAts _ _)]
  rfl

end HighLoad.Feed
