/-
# HighLoad.Feed.Complete — feeds that hold every post of a friend

The invariant of the deferred fan-outs while everything fits into the feeds: the members that have a row
are posts of friends, every post has its hash, and every post of a friend is in the feed unless it is
excused, because its event is still to be handled or because it will be pulled. Calls of the handlers
keep it (`Complete.call`); what a worker's step does to it is left to the transports.
-/
import HighLoad.Feed.Effects
import HighLoad.Feed.Merged

namespace HighLoad.Feed

open Prog TopN

variable {order : RowOrder} {cfg : Settings} {w : World} {u : Uuid} {ids ids' : List Uuid}
  {excused excused' : PostRow → Prop}

/-- Every feed holds the posts of the friends of its user. `ids` are the ids that posts have had, and
there is room for all of them. -/
structure Complete (cfg : Settings) (ids : List Uuid) (excused : PostRow → Prop) (w : World) :
    Prop where
  noTemp : w.NoTemp
  hashes : ∀ p ∈ w.db.posts, w.redis.posts p.id = some (rowToPostHash p)
  few : ids.length ≤ cfg.feedMaxSize
  rows : ∀ p ∈ w.db.posts, p.id ∈ ids
  members : ∀ v, ∀ e ∈ (w.feed v).entries, e.member ∈ ids
  agrees : ∀ v, ∀ e ∈ (w.feed v).entries, ∀ p ∈ w.db.posts, p.id = e.member →
    p.entry = e ∧ w.db.Follows v p.authorId
  full : ∀ v, ∀ p ∈ w.db.posts, w.db.Follows v p.authorId → p.entry ∈ (w.feed v).entries ∨ excused p

/-- Without posts there is nothing to be complete about. -/
theorem complete_initial (cfg : Settings) (users : List Uuid) (excused : PostRow → Prop) :
    Complete cfg [] excused (World.ofUsers users) where
  noTemp _ _ := rfl
  hashes _ hp := absurd hp List.not_mem_nil
  few := Nat.zero_le _
  rows _ hp := absurd hp List.not_mem_nil
  members _ _ he := absurd he SortedSet.not_mem_empty
  agrees _ _ he := absurd he SortedSet.not_mem_empty
  full _ _ hp := absurd hp List.not_mem_nil

/-! ## Room -/

theorem Complete.length_posts (h : Complete cfg ids excused w) :
    w.db.posts.length ≤ cfg.feedMaxSize := by
  have hsub : w.db.posts.map PostRow.id ⊆ ids := by
    intro id hid
    obtain ⟨p, hp, rfl⟩ := List.mem_map.mp hid
    exact h.rows p hp
  have hle := (List.subperm_of_subset w.db.posts_pkey hsub).length_le
  rw [List.length_map] at hle
  exact hle.trans h.few

theorem Complete.length_friendPosts (h : Complete cfg ids excused w) (v : Uuid) :
    (friendPosts w.db v).length ≤ cfg.feedMaxSize :=
  (List.length_filter_le _ _).trans h.length_posts

/-- A rebuild of a complete feed has every post of a friend. -/
theorem mem_feed_rebuilt (order : RowOrder) (hroomy : (friendPosts w.db u).length ≤ cfg.feedMaxSize)
    {e : Entry DateTime Uuid} :
    e ∈ ((w.rebuilt u (rebuildRows order cfg w u)).feed u).entries ↔
      ∃ p ∈ w.db.posts, p.entry = e ∧ w.db.Follows u p.authorId := by
  have hfeed := feedSet_rebuilt order cfg w u (Or.inr hroomy) u
  rw [if_pos rfl] at hfeed
  have hall : newest w.db u cfg.feedMaxSize = entrySet (friendPosts w.db u) := by
    refine top_eq_self ?_
    rwa [card_friendPosts]
  have hmem : e ∈ (w.rebuilt u (rebuildRows order cfg w u)).feedSet u ↔
      e ∈ entrySet (friendPosts w.db u) := by
    rw [hfeed, hall]
  rw [World.feedSet, List.mem_toFinset] at hmem
  rw [hmem, mem_entrySet]
  constructor
  · rintro ⟨p, hp, rfl⟩
    exact ⟨p, (mem_friendPosts.mp hp).1, rfl, (mem_friendPosts.mp hp).2⟩
  · rintro ⟨p, hp, rfl, hfollows⟩
    exact ⟨p, mem_friendPosts.mpr ⟨hp, hfollows⟩, rfl⟩

/-! ## What calls take and what they keep -/

/-- What stays in a feed over a call, if it is a post, is by somebody its user still follows. -/
theorem Complete.unfollowed (order : RowOrder) (cfg : Settings) (h : Complete cfg ids excused w)
    (c : Call) {v : Uuid} {e : Entry DateTime Uuid} (he : e ∈ ((w.after order cfg c).feed v).entries)
    {p : PostRow} (hp : p ∈ w.db.posts) (hid : p.id = e.member)
    (hfollows : w.db.Follows v p.authorId) : (w.after order cfg c).db.Follows v p.authorId := by
  cases c with
  | createPost user text id now =>
      rcases run_createPost_cases order cfg user text id now w with
        ⟨err, hrun⟩ | ⟨db, -, -, hfriends, hrun⟩
      · rw [after_eq hrun]
        exact hfollows
      · rw [after_eq hrun]
        unfold World.announcedCreated
        unfold Database.Follows at hfollows ⊢
        rw [← hfriends] at hfollows
        split_ifs <;> exact hfollows
  | updatePost user id text =>
      rcases run_updatePost_cases order user id text w with hrun | ⟨q, -, rfl, rfl, hrun⟩
      · rw [after_eq hrun]
        exact hfollows
      · rw [after_eq hrun]
        exact Database.follows_updatePost.mpr hfollows
  | deletePost user id now =>
      rcases run_deletePost_cases order cfg user id now w with ⟨-, hrun⟩ | ⟨q, -, rfl, rfl, hrun⟩
      · rw [after_eq hrun]
        exact hfollows
      · rw [after_eq hrun]
        unfold World.announcedDeleted
        split_ifs <;> exact Database.follows_deletePost.mpr hfollows
  | setFriend user friend =>
      rcases run_setFriend_cases order cfg user friend w with
        ⟨err, -, hrun⟩ | ⟨db, -, -, -, hsets, hrun⟩
      · rw [after_eq hrun]
        exact hfollows
      · rw [after_eq hrun]
        rw [World.befriended_db]
        exact (hsets v _).mpr (Or.inl hfollows)
  | deleteFriend user friend =>
      rw [after_eq (run_deleteFriend order user friend w)] at he ⊢
      refine Database.follows_deleteFriendship.mpr ⟨hfollows, ?_⟩
      rintro ⟨rfl, hauthor⟩
      unfold World.unfriended at he
      rw [World.feed_modifyZset, if_pos rfl, SortedSet.mem_removeAll] at he
      refine he.2 (List.mem_filter.mpr ⟨List.mem_map_of_mem he.1, ?_⟩)
      show decide (Option.map PostHash.authorId (w.redis.posts e.member) = some friend) = true
      rw [← hid, h.hashes p hp, ← hauthor]
      simp [rowToPostHash]
  | rebuildFeed user nonce =>
      rw [after_eq (run_rebuildFeed order cfg user nonce w h.noTemp)]
      exact hfollows
  | getFeed user nonce offset limit =>
      rcases run_getFeed_cases order cfg user nonce offset limit w h.noTemp with
        ⟨err, hrun⟩ | ⟨posts, page, fs, -, -, hrun⟩
      · rw [after_eq hrun]
        exact hfollows
      · rw [after_eq hrun]
        show (w.opened order cfg user).db.Follows v p.authorId
        rw [World.opened_db]
        exact hfollows

/-- The posts of a new friend are added, and nothing is trimmed. -/
theorem Complete.mem_befriended (order : RowOrder) (h : Complete cfg ids excused w) {db : Database}
    {user friend : Uuid} (hposts : db.posts = w.db.posts) {p : PostRow} (hp : p ∈ w.db.posts)
    (hwhy : p.authorId = friend ∨ p.entry ∈ (w.feed user).entries) :
    p.entry ∈ (((w.withDb db).befriended order cfg user friend).feed user).entries := by
  have hrows : ∀ r, r ∈ friendRows order cfg (w.withDb db) friend ↔
      r ∈ w.db.posts ∧ r.authorId = friend := by
    intro r
    have hfits : (db.posts.filter fun p => p.authorId ∈ [friend]).length ≤ cfg.feedMaxSize := by
      rw [hposts]
      exact (List.length_filter_le _ _).trans h.length_posts
    unfold friendRows Database.recentPosts
    show r ∈ (order.sort (db.posts.filter fun p => p.authorId ∈ [friend])).take _ ↔ _
    rw [List.take_of_length_le (by rwa [(order.perm _).length_eq]), (order.perm _).mem_iff,
      List.mem_filter, hposts]
    simp
  unfold World.befriended
  split_ifs with hempty
  · rcases hwhy with hauthor | hmem
    · have hrow := (hrows p).mpr ⟨hp, hauthor⟩
      rw [List.isEmpty_iff.mp hempty] at hrow
      exact absurd hrow List.not_mem_nil
    · exact hmem
  · have hids : ((friendRows order cfg (w.withDb db) friend).map PostRow.id).Nodup :=
      Database.recentPosts_nodup db order [friend] cfg.feedMaxSize
    have hmembers : (((friendRows order cfg (w.withDb db) friend).map PostRow.entry).map
        Entry.member).Nodup := by
      rw [List.map_map]
      exact hids
    rw [World.feed_modifyZset, if_pos rfl, World.feed_cacheRows, if_pos rfl,
      SortedSet.trim_of_length_le]
    · rw [SortedSet.mem_addAll hmembers]
      by_cases hrow : p ∈ friendRows order cfg (w.withDb db) friend
      · exact Or.inl (List.mem_map_of_mem hrow)
      · right
        refine ⟨hwhy.resolve_left fun hauthor => hrow ((hrows p).mpr ⟨hp, hauthor⟩), fun hmem => ?_⟩
        rw [List.map_map] at hmem
        obtain ⟨r, hr, hid⟩ := List.mem_map.mp hmem
        obtain rfl := w.db.eq_of_id_eq ((hrows r).mp hr).1 hp hid
        exact hrow hr
    · refine (SortedSet.length_le_of_subset fun m hm => ?_).trans h.few
      obtain ⟨e, he, rfl⟩ := hm
      rcases SortedSet.mem_of_mem_addAll he with hrow | hold
      · obtain ⟨r, hr, rfl⟩ := List.mem_map.mp hrow
        exact h.rows r ((hrows r).mp hr).1
      · exact h.members user e hold

/-- Opening a feed leaves every post its hash. -/
theorem Complete.hash_opened (order : RowOrder) (h : Complete cfg ids excused w) {p : PostRow}
    (hp : p ∈ w.db.posts) :
    (w.opened order cfg u).redis.posts p.id = some (rowToPostHash p) := by
  have hp' : p ∈ (w.opened order cfg u).db.posts := by
    rw [World.opened_db]
    exact hp
  rcases (effects_opened order cfg h.noTemp u).live p hp' with hrow | ⟨-, hsame⟩
  · exact hrow
  · rw [hsame, h.hashes p hp]

/-- A rebuild reads the posts of every friend. -/
theorem Complete.mem_rebuilt (order : RowOrder) (h : Complete cfg ids excused w) {q : PostRow}
    (hq : q ∈ w.db.posts) {v : Uuid} (hfollows : w.db.Follows v q.authorId)
    (hmem : q.entry ∈ (w.feed v).entries) (user : Uuid) :
    q.entry ∈ ((w.rebuilt user (rebuildRows order cfg w user)).feed v).entries := by
  by_cases hv : v = user
  · subst hv
    exact (mem_feed_rebuilt order (h.length_friendPosts v)).mpr ⟨q, hq, rfl, hfollows⟩
  · rw [World.feed_rebuilt, if_neg hv]
    exact hmem

theorem Complete.mem_opened (order : RowOrder) (h : Complete cfg ids excused w) {q : PostRow}
    (hq : q ∈ w.db.posts) {v : Uuid} (hfollows : w.db.Follows v q.authorId)
    (hmem : q.entry ∈ (w.feed v).entries) (user : Uuid) :
    q.entry ∈ ((w.opened order cfg user).feed v).entries := by
  unfold World.opened
  split_ifs
  · exact hmem
  · exact h.mem_rebuilt order hq hfollows hmem user

/-- A post has a hash, so that no read sweeps it out. -/
theorem mem_swept {v : Uuid} {q : PostRow}
    (hhash : w.redis.posts q.id = some (rowToPostHash q)) (hmem : q.entry ∈ (w.feed v).entries)
    (user : Uuid) (page : List Uuid) : q.entry ∈ ((w.swept user page).feed v).entries := by
  unfold World.swept
  rw [World.feed_modifyZset]
  split_ifs
  · refine SortedSet.mem_removeAll.mpr ⟨hmem, fun hstale => ?_⟩
    have hnone := (List.mem_filter.mp hstale).2
    change (w.redis.posts q.id).isNone = true at hnone
    rw [hhash] at hnone
    exact Bool.false_ne_true hnone
  · exact hmem

/-- Breaking a friendship takes out the posts whose hash names the former friend. -/
theorem Complete.mem_unfriended (h : Complete cfg ids excused w) {q : PostRow}
    (hq : q ∈ w.db.posts) {user friend v : Uuid} (hother : ¬ (v = user ∧ q.authorId = friend))
    (hmem : q.entry ∈ (w.feed v).entries) {db : Database} :
    q.entry ∈ (((w.withDb db).unfriended user friend).feed v).entries := by
  unfold World.unfriended
  rw [World.feed_modifyZset]
  split_ifs with hv
  · refine SortedSet.mem_removeAll.mpr ⟨hmem, fun hremoved => hother ⟨hv, ?_⟩⟩
    have hhash := (List.mem_filter.mp hremoved).2
    change decide (Option.map PostHash.authorId (w.redis.posts q.id) = some friend) = true at hhash
    rw [h.hashes q hq] at hhash
    exact Option.some.inj (of_decide_eq_true hhash)
  · exact hmem

/-- **What a call keeps and adds**: a post of a friend stays in the feed, and one of a new friend gets
into it. -/
theorem Complete.kept (order : RowOrder) (hdef : Deferred cfg) (h : Complete cfg ids excused w)
    (c : Call) {p q : PostRow} (hq : q ∈ w.db.posts) (hentry : q.entry = p.entry)
    (hauthor : q.authorId = p.authorId) {v : Uuid}
    (hfollows : (w.after order cfg c).db.Follows v p.authorId)
    (hfeed : w.db.Follows v q.authorId → q.entry ∈ (w.feed v).entries) :
    p.entry ∈ ((w.after order cfg c).feed v).entries := by
  rw [← hentry]
  rw [← hauthor] at hfollows
  cases c with
  | createPost user text id now =>
      rcases run_createPost_cases order cfg user text id now w with
        ⟨err, hrun⟩ | ⟨db, -, -, hfriends, hrun⟩
      · rw [after_eq hrun] at hfollows ⊢
        exact hfeed hfollows
      · rw [after_eq hrun] at hfollows ⊢
        obtain ⟨hdb, hredis⟩ := announcedCreated_deferred hdef ((w.withDb db).setPost id
          (some (rowToPostHash ⟨id, user, text, now⟩))) user text ⟨id, user, text, now⟩
        rw [hdb] at hfollows
        unfold World.feed
        rw [hredis]
        refine hfeed ?_
        unfold Database.Follows at hfollows ⊢
        rw [← hfriends]
        exact hfollows
  | updatePost user id text =>
      rcases run_updatePost_cases order user id text w with hrun | ⟨r, -, rfl, rfl, hrun⟩
      · rw [after_eq hrun] at hfollows ⊢
        exact hfeed hfollows
      · rw [after_eq hrun] at hfollows ⊢
        exact hfeed (Database.follows_updatePost.mp hfollows)
  | deletePost user id now =>
      rcases run_deletePost_cases order cfg user id now w with ⟨-, hrun⟩ | ⟨r, -, rfl, rfl, hrun⟩
      · rw [after_eq hrun] at hfollows ⊢
        exact hfeed hfollows
      · rw [after_eq hrun] at hfollows ⊢
        obtain ⟨hdb, hredis⟩ := announcedDeleted_deferred hdef
          ((w.withDb (w.db.deletePost r.id r.authorId).2).setPost r.id none) r.authorId r.id now
        rw [hdb] at hfollows
        unfold World.feed
        rw [hredis]
        exact hfeed (Database.follows_deletePost.mp hfollows)
  | setFriend user friend =>
      rcases run_setFriend_cases order cfg user friend w with
        ⟨err, -, hrun⟩ | ⟨db, -, -, hposts, hsets, hrun⟩
      · rw [after_eq hrun] at hfollows ⊢
        exact hfeed hfollows
      · rw [after_eq hrun] at hfollows ⊢
        rw [World.befriended_db] at hfollows
        by_cases hv : v = user
        · subst hv
          refine h.mem_befriended order hposts hq ?_
          rcases (hsets v _).mp hfollows with hold | ⟨-, hfriend⟩
          · exact Or.inr (hfeed hold)
          · exact Or.inl hfriend
        · have hold := hfeed (((hsets v _).mp hfollows).resolve_right fun hself => hv hself.1)
          rw [feed_befriended_of_ne hv]
          exact hold
  | deleteFriend user friend =>
      rw [after_eq (run_deleteFriend order user friend w)] at hfollows ⊢
      obtain ⟨hold, hnot⟩ := Database.follows_deleteFriendship.mp hfollows
      exact h.mem_unfriended hq hnot (hfeed hold)
  | rebuildFeed user nonce =>
      rw [after_eq (run_rebuildFeed order cfg user nonce w h.noTemp)] at hfollows ⊢
      exact h.mem_rebuilt order hq hfollows (hfeed hfollows) user
  | getFeed user nonce offset limit =>
      rcases run_getFeed_cases order cfg user nonce offset limit w h.noTemp with
        ⟨err, hrun⟩ | ⟨posts, page, fs, -, -, hrun⟩
      · rw [after_eq hrun] at hfollows ⊢
        exact hfeed hfollows
      · rw [after_eq hrun] at hfollows ⊢
        change (w.opened order cfg user).db.Follows v q.authorId at hfollows
        rw [World.opened_db] at hfollows
        exact mem_swept (h.hash_opened order hq) (h.mem_opened order hq hfollows (hfeed hfollows) user)
          user page

/-- **Calls keep the feeds complete**, when ids are fresh and new posts are excused. -/
theorem Complete.call (order : RowOrder) (hdef : Deferred cfg) (h : Complete cfg ids excused w)
    (c : Call) (hsub : ids ⊆ ids') (hfew : ids'.length ≤ cfg.feedMaxSize)
    (hcreates : ∀ p ∈ (w.after order cfg c).db.posts, (∃ text, c = .createPost p.authorId text p.id
      p.createdAt) → (∃ q ∈ w.db.posts, q.entry = p.entry ∧ q.authorId = p.authorId) ∨
        (p.id ∉ ids ∧ p.id ∈ ids' ∧ excused' p))
    (hexcused : ∀ q ∈ w.db.posts, ∀ p ∈ (w.after order cfg c).db.posts, q.entry = p.entry →
      q.authorId = p.authorId → excused q → excused' p) :
    Complete cfg ids' excused' (w.after order cfg c) := by
  have heffects := c.effects order cfg hdef h.noTemp
  have hrows : ∀ p ∈ (w.after order cfg c).db.posts,
      (∃ q ∈ w.db.posts, q.entry = p.entry ∧ q.authorId = p.authorId) ∨
        (p.id ∉ ids ∧ p.id ∈ ids' ∧ excused' p) := fun p hp =>
    (c.rows order cfg h.noTemp hp).elim Or.inl (hcreates p hp)
  refine
    { noTemp := heffects.noTemp
      hashes := fun p hp => ?_
      few := hfew
      rows := fun p hp => ?_
      members := fun v e he => ?_
      agrees := fun v e he p hp hid => ?_
      full := fun v p hp hfollows => ?_ }
  · rcases heffects.live p hp with hrow | ⟨hold, hsame⟩
    · exact hrow
    · rw [hsame, h.hashes p hold]
  · rcases hrows p hp with ⟨q, hq, hentry, -⟩ | ⟨-, hnew, -⟩
    · have hid : q.id = p.id := congrArg Entry.member hentry
      exact hid ▸ hsub (h.rows q hq)
    · exact hnew
  · rcases heffects.added v e he with hold | ⟨p, hp, rfl, -⟩
    · exact hsub (h.members v e hold)
    · rcases hrows p hp with ⟨q, hq, hentry, -⟩ | ⟨-, hnew, -⟩
      · have hid : q.id = p.id := congrArg Entry.member hentry
        exact (hid ▸ hsub (h.rows q hq) : p.id ∈ ids')
      · exact hnew
  · rcases heffects.added v e he with hold | ⟨r, hr, rfl, hfollows⟩
    · rcases hrows p hp with ⟨q, hq, hentry, hauthor⟩ | ⟨hfresh, -, -⟩
      · have hqid : q.id = e.member := (congrArg Entry.member hentry).trans hid
        obtain ⟨heq, hfollows⟩ := h.agrees v e hold q hq hqid
        refine ⟨hentry.symm.trans heq, ?_⟩
        rw [← hauthor]
        exact h.unfollowed order cfg c he hq hqid hfollows
      · exact absurd (hid ▸ h.members v e hold) hfresh
    · have heq : p = r := Database.eq_of_id_eq _ hp hr hid
      rw [heq]
      exact ⟨rfl, hfollows⟩
  · rcases hrows p hp with ⟨q, hq, hentry, hauthor⟩ | ⟨-, -, hnew⟩
    · by_cases hex : excused q
      · exact Or.inr (hexcused q hq p hp hentry hauthor hex)
      · left
        refine h.kept order hdef c hq hentry hauthor hfollows fun hold => ?_
        exact (h.full v q hq hold).resolve_right hex
    · exact Or.inr hnew

/-! ## What events do -/

/-- Completeness depends on the tables, the feeds and the hashes only. -/
theorem Complete.congr {w' : World} (h : Complete cfg ids excused w) (hdb : w'.db = w.db)
    (hzsets : w'.redis.zsets = w.redis.zsets) (hposts : w'.redis.posts = w.redis.posts) :
    Complete cfg ids excused w' where
  noTemp := by unfold World.NoTemp; rw [hzsets]; exact h.noTemp
  hashes := by rw [hdb, hposts]; exact h.hashes
  few := h.few
  rows := by rw [hdb]; exact h.rows
  members := by unfold World.feed; rw [hzsets]; exact h.members
  agrees := by unfold World.feed; rw [hdb, hzsets]; exact h.agrees
  full := by unfold World.feed; rw [hdb, hzsets]; exact h.full

theorem Complete.mono (h : Complete cfg ids excused w)
    (hexcused : ∀ p ∈ w.db.posts, excused p → excused' p) : Complete cfg ids excused' w :=
  { h with full := fun v p hp hfollows => (h.full v p hp hfollows).imp_right (hexcused p hp) }

/-- Pushing a post to the followers of its author excuses it no longer. -/
theorem Complete.pushed (h : Complete cfg ids excused w) {t : DateTime} {id author : Uuid}
    (hid : id ∈ ids) (hrow : ∀ p ∈ w.db.posts, p.id = id → p.entry = ⟨t, id⟩ ∧ p.authorId = author)
    (hexcused : ∀ p ∈ w.db.posts, p.id ≠ id → excused p → excused' p) :
    Complete cfg ids excused'
      (w.mapFeeds (w.db.followers author) (Feed.pushed cfg.feedMaxSize t id)) := by
  have hmem : ∀ v e, e ∈ ((w.mapFeeds (w.db.followers author)
      (Feed.pushed cfg.feedMaxSize t id)).feed v).entries ↔
        if w.db.Follows v author then e = ⟨t, id⟩ ∨ (e ∈ (w.feed v).entries ∧ e.member ≠ id)
        else e ∈ (w.feed v).entries := by
    intro v e
    rw [World.feed_mapFeeds]
    by_cases hv : w.db.Follows v author
    · rw [if_pos (Database.mem_followers.mpr hv), if_pos hv, Feed.pushed,
        SortedSet.trim_of_length_le, SortedSet.mem_add]
      refine (SortedSet.length_le_of_subset fun m hm => ?_).trans h.few
      obtain ⟨f, hf, rfl⟩ := hm
      rcases SortedSet.mem_add.mp hf with rfl | ⟨hold, -⟩
      · exact hid
      · exact h.members v f hold
    · rw [if_neg fun hf => hv (Database.mem_followers.mp hf), if_neg hv]
  refine
    { noTemp := h.noTemp
      hashes := h.hashes
      few := h.few
      rows := h.rows
      members := fun v e he => ?_
      agrees := fun v e he p hp hpid => ?_
      full := fun v p hp hfollows => ?_ }
  · rw [hmem] at he
    split_ifs at he
    · rcases he with rfl | ⟨hold, -⟩
      · exact hid
      · exact h.members v e hold
    · exact h.members v e he
  · rw [hmem] at he
    split_ifs at he with hv
    · rcases he with rfl | ⟨hold, -⟩
      · obtain ⟨hentry, hauthor⟩ := hrow p hp hpid
        exact ⟨hentry, hauthor ▸ hv⟩
      · exact h.agrees v e hold p hp hpid
    · exact h.agrees v e he p hp hpid
  · rw [hmem]
    by_cases hpid : p.id = id
    · obtain ⟨hentry, hauthor⟩ := hrow p hp hpid
      have hf : w.db.Follows v author := hauthor ▸ hfollows
      rw [if_pos hf]
      exact Or.inl (Or.inl hentry)
    · refine (h.full v p hp hfollows).imp (fun hold => ?_) (hexcused p hp hpid)
      split_ifs
      · exact Or.inr ⟨hold, hpid⟩
      · exact hold

/-- Removing an id without a row takes no post from a feed. -/
theorem Complete.removed (h : Complete cfg ids excused w) {id : Uuid} (users : List Uuid)
    (hgone : ∀ p ∈ w.db.posts, p.id ≠ id) :
    Complete cfg ids excused (w.mapFeeds users fun z => z.removeAll [id]) := by
  have hold : ∀ v e, e ∈ ((w.mapFeeds users fun z => z.removeAll [id]).feed v).entries →
      e ∈ (w.feed v).entries := by
    intro v e he
    rw [World.feed_mapFeeds] at he
    split_ifs at he
    · exact (SortedSet.mem_removeAll.mp he).1
    · exact he
  refine
    { noTemp := h.noTemp
      hashes := h.hashes
      few := h.few
      rows := h.rows
      members := fun v e he => h.members v e (hold v e he)
      agrees := fun v e he => h.agrees v e (hold v e he)
      full := fun v p hp hfollows => (h.full v p hp hfollows).imp_left fun hmem => ?_ }
  rw [World.feed_mapFeeds]
  split_ifs
  · exact SortedSet.mem_removeAll.mpr ⟨hmem, fun hid => hgone p hp (List.mem_singleton.mp hid)⟩
  · exact hmem

/-- Writing the hash of a row anew. -/
theorem Complete.stored (h : Complete cfg ids excused w) {id : Uuid} {hash : PostHash}
    (hrow : ∀ p ∈ w.db.posts, p.id = id → hash = rowToPostHash p) :
    Complete cfg ids excused (w.setPost id (some hash)) :=
  { h with
    hashes := fun p hp => by
      show Function.update w.redis.posts id (some hash) p.id = _
      by_cases hid : p.id = id
      · rw [hid, Function.update_self, hrow p hp hid]
      · rw [Function.update_of_ne hid]
        exact h.hashes p hp }

/-- Reading a complete feed opens a complete feed. -/
theorem Complete.opened (order : RowOrder) (h : Complete cfg ids excused w) {p : PostRow}
    (hp : p ∈ w.db.posts) (hfollows : w.db.Follows u p.authorId) (hex : ¬ excused p) :
    p.entry ∈ ((w.opened order cfg u).feed u).entries := by
  unfold World.opened
  split_ifs
  · exact (h.full u p hp hfollows).resolve_right hex
  · exact (mem_feed_rebuilt order (h.length_friendPosts u)).mpr ⟨p, hp, rfl, hfollows⟩

/-- The members of an opened feed that have a row are posts of friends. -/
theorem Complete.agrees_opened (order : RowOrder) (h : Complete cfg ids excused w)
    {e : Entry DateTime Uuid} (he : e ∈ ((w.opened order cfg u).feed u).entries) {p : PostRow}
    (hp : p ∈ w.db.posts) (hid : p.id = e.member) : p.entry = e ∧ w.db.Follows u p.authorId := by
  unfold World.opened at he
  split_ifs at he
  · exact h.agrees u e he p hp hid
  · obtain ⟨q, hq, rfl, hfollows⟩ := (mem_feed_rebuilt order (h.length_friendPosts u)).mp he
    obtain rfl := w.db.eq_of_id_eq hp hq hid
    exact ⟨rfl, hfollows⟩

theorem Complete.members_opened (order : RowOrder) (h : Complete cfg ids excused w)
    {e : Entry DateTime Uuid} (he : e ∈ ((w.opened order cfg u).feed u).entries) : e.member ∈ ids := by
  unfold World.opened at he
  split_ifs at he
  · exact h.members u e he
  · obtain ⟨q, hq, rfl, -⟩ := (mem_feed_rebuilt order (h.length_friendPosts u)).mp he
    exact h.rows q hq

end HighLoad.Feed
