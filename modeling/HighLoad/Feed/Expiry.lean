/-
# HighLoad.Feed.Expiry — post hashes that vanish

A post hash expires after a day and is evicted when Redis runs full, while the id stays in the feeds.
An unfriending finds the posts of the former friend by their hashes, so an id whose hash is gone stays
behind. That is harmless as long as nothing writes the hash anew: a read drops ids without a hash. The
feeds show friends only in every run in which no call writes the hash of a post that is held in the
feed of a user who does not follow its author (`read_feed_friends_only`).
-/
import HighLoad.Feed.Refinement

namespace HighLoad.Feed

open Prog

variable {order : RowOrder} {cfg : Settings} {w : World} {u : Uuid}

/-! ## Runs with expiry -/

/-- A call of a handler, or the loss of a post hash. -/
inductive Event where
  | call (c : Call)
  | expire (id : Uuid)

def World.happens (order : RowOrder) (cfg : Settings) (w : World) : Event → World
  | .call c => w.after order cfg c
  | .expire id => w.setPost id none

def World.happensAll (order : RowOrder) (cfg : Settings) (w : World) (events : List Event) : World :=
  events.foldl (World.happens order cfg) w

/-- Every post that a read returns is by a friend of the reader. -/
def FriendsOnly (order : RowOrder) (cfg : Settings) (w : World) : Prop :=
  ∀ (v nonce : Uuid) (offset limit : Nat) (items : List FeedItem),
    ((readFeed cfg nonce v offset limit).run (exec order) w).1 = .ok items →
      ∀ i ∈ items, w.db.Follows v i.authorUserId

/-- The post is in the feed of a user who does not follow its author. -/
def Stray (w : World) (id author : Uuid) : Prop :=
  ∃ v, (∃ e ∈ (w.feed v).entries, e.member = id) ∧ ¬ w.db.Follows v author

/-- The call writes the hash of a stray post. -/
def Event.Revives (order : RowOrder) (cfg : Settings) (w : World) : Event → Prop
  | .call (.createPost user _ id _) => Stray w id user
  | .call (.updatePost user id _) =>
      (∃ p ∈ w.db.posts, p.id = id ∧ p.authorId = user) ∧ Stray w id user
  | .call (.setFriend user friend) =>
      ∃ p ∈ w.db.recentPosts order [friend] cfg.feedMaxSize, ∃ v ≠ user,
        (∃ e ∈ (w.feed v).entries, e.member = p.id) ∧ ¬ w.db.Follows v friend
  | .call (.rebuildFeed user _) => ∃ p ∈ rebuildRows order cfg w user, Stray w p.id p.authorId
  | .call (.getFeed user _ _ _) =>
      (w.feed user).exists = false ∧ ∃ p ∈ rebuildRows order cfg w user, Stray w p.id p.authorId
  | _ => False

/-! ## The invariant -/

/-- A hash belongs to a row, and a member of a feed that has a hash is a post of a friend. -/
structure Sound (w : World) : Prop where
  noTemp : w.NoTemp
  hashes : ∀ id h, w.redis.posts id = some h → ∃ p ∈ w.db.posts, p.id = id ∧ p.authorId = h.authorId
  feeds : ∀ v, ∀ e ∈ (w.feed v).entries, ∀ h, w.redis.posts e.member = some h →
    w.db.Follows v h.authorId

theorem sound_initial (users : List Uuid) : Sound (World.ofUsers users) where
  noTemp _ _ := rfl
  hashes _ _ h := absurd h (by simp [World.ofUsers, Redis.empty])
  feeds _ e he := absurd he SortedSet.not_mem_empty

theorem mem_of_mem_pushed {cap : Nat} {t : DateTime} {id : Uuid} {z : FeedSet}
    {e : Entry DateTime Uuid} (h : e ∈ (pushed cap t id z).entries) :
    e = ⟨t, id⟩ ∨ e ∈ z.entries := by
  rcases SortedSet.mem_add.mp (SortedSet.mem_of_mem_trim h) with rfl | ⟨hold, -⟩
  · exact Or.inl rfl
  · exact Or.inr hold

/-- The hashes after rows were cached. -/
theorem writeAll_row_cases {rows : List PostRow} {posts : Uuid → Option PostHash} {id : Uuid}
    {h : PostHash} (hids : (rows.map PostRow.id).Nodup)
    (hhash : PointUpdate.writeAll PostRow.id (fun r => some (rowToPostHash r)) rows posts id
      = some h) : (∃ r ∈ rows, r.id = id ∧ h = rowToPostHash r) ∨ posts id = some h := by
  by_cases hmem : ∃ r ∈ rows, r.id = id
  · obtain ⟨r, hr, rfl⟩ := hmem
    rw [PointUpdate.writeAll_of_mem hids hr] at hhash
    exact Or.inl ⟨r, hr, rfl, (Option.some.inj hhash).symm⟩
  · rw [PointUpdate.writeAll_of_not_mem fun r hr hid => hmem ⟨r, hr, hid⟩] at hhash
    exact Or.inr hhash

/-! ## What each event keeps -/

theorem Sound.created (hsync : Synchronous cfg) (h : Sound w) {db : Database} {row : PostRow}
    (hposts : db.posts = w.db.posts ++ [row]) (hfriends : db.friendships = w.db.friendships)
    (text : String) (hstray : ¬ Stray w row.id row.authorId) :
    Sound (((w.withDb db).setPost row.id (some (rowToPostHash row))).announcedCreated cfg
      row.authorId text row) := by
  have hfollows : ∀ v a, db.Follows v a ↔ w.db.Follows v a := Database.follows_congr hfriends
  have hafter : ((w.withDb db).setPost row.id (some (rowToPostHash row))).announcedCreated cfg
      row.authorId text row
        = ((w.withDb db).setPost row.id (some (rowToPostHash row))).mapFeeds
            (db.followers row.authorId) (pushed cfg.feedMaxSize row.createdAt row.id) :=
    announcedCreated_synchronous hsync _ _ _ _
  rw [hafter]
  refine
    { noTemp := h.noTemp
      hashes := fun id hash hhash => ?_
      feeds := fun v e he hash hhash => ?_ }
  · change Function.update w.redis.posts row.id (some (rowToPostHash row)) id = some hash at hhash
    show ∃ p ∈ db.posts, _
    rw [hposts]
    by_cases hid : id = row.id
    · subst hid
      rw [Function.update_self] at hhash
      obtain rfl := Option.some.inj hhash
      exact ⟨row, by simp, rfl, rfl⟩
    · rw [Function.update_of_ne hid] at hhash
      obtain ⟨p, hp, hpid, hauthor⟩ := h.hashes id hash hhash
      exact ⟨p, List.mem_append_left _ hp, hpid, hauthor⟩
  · change Function.update w.redis.posts row.id (some (rowToPostHash row)) e.member = some hash at hhash
    show db.Follows v hash.authorId
    rw [hfollows]
    rw [World.feed_mapFeeds] at he
    have hold : e ∈ (w.feed v).entries ∨ (v ∈ db.followers row.authorId ∧ e = row.entry) := by
      split_ifs at he with hv
      · rcases mem_of_mem_pushed he with rfl | hold
        · exact Or.inr ⟨hv, rfl⟩
        · exact Or.inl hold
      · exact Or.inl he
    by_cases hid : e.member = row.id
    · -- the new hash: only followers of the author hold the id
      rw [hid, Function.update_self] at hhash
      obtain rfl := Option.some.inj hhash
      rcases hold with hold | ⟨hv, -⟩
      · by_contra hnot
        exact hstray ⟨v, ⟨e, hold, hid⟩, hnot⟩
      · exact (hfollows v row.authorId).mp (Database.mem_followers.mp hv)
    · rw [Function.update_of_ne hid] at hhash
      rcases hold with hold | ⟨-, rfl⟩
      · exact h.feeds v e hold hash hhash
      · exact absurd rfl hid

theorem Sound.updated (h : Sound w) (text : String) {p : PostRow} (hp : p ∈ w.db.posts)
    (hstray : ¬ Stray w p.id p.authorId) :
    Sound ((w.withDb (w.db.updatePost text p.id p.authorId).2).setPost p.id
      (some (rowToPostHash { p with text := text }))) where
  noTemp := h.noTemp
  hashes id hash hhash := by
    change Function.update w.redis.posts p.id _ id = some hash at hhash
    have hkept : ∀ q ∈ w.db.posts, ∃ q' ∈ (w.db.updatePost text p.id p.authorId).2.posts,
        q'.id = q.id ∧ q'.authorId = q.authorId := fun q hq =>
      ⟨_, Database.mem_updatePost.mpr ⟨q, hq, rfl⟩, Database.setText_id _ _ _ _,
        Database.setText_authorId _ _ _ _⟩
    by_cases hid : id = p.id
    · subst hid
      rw [Function.update_self] at hhash
      obtain rfl := Option.some.inj hhash
      exact hkept p hp
    · rw [Function.update_of_ne hid] at hhash
      obtain ⟨q, hq, rfl, hauthor⟩ := h.hashes id hash hhash
      obtain ⟨q', hq', hid', hauthor'⟩ := hkept q hq
      exact ⟨q', hq', hid', hauthor'.trans hauthor⟩
  feeds v e he hash hhash := by
    change Function.update w.redis.posts p.id _ e.member = some hash at hhash
    change e ∈ (w.feed v).entries at he
    refine Database.follows_updatePost.mpr ?_
    by_cases hid : e.member = p.id
    · rw [hid, Function.update_self] at hhash
      obtain rfl := Option.some.inj hhash
      by_contra hnot
      exact hstray ⟨v, ⟨e, he, hid⟩, hnot⟩
    · rw [Function.update_of_ne hid] at hhash
      exact h.feeds v e he hash hhash

/-- Losing a hash, or a row with its hash. -/
theorem Sound.deleted (hsync : Synchronous cfg) (h : Sound w) {p : PostRow} (hp : p ∈ w.db.posts)
    (now : DateTime) :
    Sound (((w.withDb (w.db.deletePost p.id p.authorId).2).setPost p.id none).announcedDeleted cfg
      p.authorId p.id now) := by
  unfold World.announcedDeleted
  rw [if_neg hsync.transport, hsync.fanout, if_neg Bool.false_ne_true]
  refine
    { noTemp := h.noTemp
      hashes := fun id hash hhash => ?_
      feeds := fun v e he hash hhash => ?_ }
  · change Function.update w.redis.posts p.id none id = some hash at hhash
    by_cases hid : id = p.id
    · rw [hid, Function.update_self] at hhash
      exact absurd hhash (by simp)
    · rw [Function.update_of_ne hid] at hhash
      obtain ⟨q, hq, rfl, hauthor⟩ := h.hashes id hash hhash
      exact ⟨q, (Database.mem_deletePost_of_mem hp rfl rfl).mpr ⟨hq, hid⟩, rfl, hauthor⟩
  · change Function.update w.redis.posts p.id none e.member = some hash at hhash
    have hmem : e ∈ (w.feed v).entries := by
      rw [World.feed_mapFeeds] at he
      split_ifs at he
      · exact (SortedSet.mem_removeAll.mp he).1
      · exact he
    by_cases hid : e.member = p.id
    · rw [hid, Function.update_self] at hhash
      exact absurd hhash (by simp)
    · rw [Function.update_of_ne hid] at hhash
      exact Database.follows_deletePost.mpr (h.feeds v e hmem hash hhash)

theorem Sound.expired (h : Sound w) (id : Uuid) : Sound (w.setPost id none) where
  noTemp := h.noTemp
  hashes id' hash hhash := by
    change Function.update w.redis.posts id none id' = some hash at hhash
    by_cases hid : id' = id
    · rw [hid, Function.update_self] at hhash
      exact absurd hhash (by simp)
    · rw [Function.update_of_ne hid] at hhash
      exact h.hashes id' hash hhash
  feeds v e he hash hhash := by
    change Function.update w.redis.posts id none e.member = some hash at hhash
    by_cases hid : e.member = id
    · rw [hid, Function.update_self] at hhash
      exact absurd hhash (by simp)
    · rw [Function.update_of_ne hid] at hhash
      exact h.feeds v e he hash hhash

theorem Sound.befriended (order : RowOrder) (cfg : Settings) (h : Sound w) {db : Database}
    {user friend : Uuid} (hposts : db.posts = w.db.posts)
    (hfollows : ∀ v a, db.Follows v a ↔ w.db.Follows v a ∨ (v = user ∧ a = friend))
    (hstray : ∀ p ∈ w.db.recentPosts order [friend] cfg.feedMaxSize, ∀ v ≠ user,
      (∃ e ∈ (w.feed v).entries, e.member = p.id) → w.db.Follows v friend) :
    Sound ((w.withDb db).befriended order cfg user friend) := by
  have hrows : friendRows order cfg (w.withDb db) friend
      = w.db.recentPosts order [friend] cfg.feedMaxSize := by
    unfold friendRows Database.recentPosts
    show (order.sort (db.posts.filter fun p => p.authorId ∈ [friend])).take _ = _
    rw [hposts]
  have hauthor : ∀ p ∈ w.db.recentPosts order [friend] cfg.feedMaxSize, p.authorId = friend :=
    fun p hp => List.mem_singleton.mp (Database.mem_recentPosts_of_mem hp).2
  have hids := Database.recentPosts_nodup w.db order [friend] cfg.feedMaxSize
  unfold World.befriended
  rw [hrows]
  split_ifs with hempty
  · exact
      { noTemp := h.noTemp
        hashes := fun id hash hhash => hposts ▸ h.hashes id hash hhash
        feeds := fun v e he hash hhash => (hfollows v _).mpr (Or.inl (h.feeds v e he hash hhash)) }
  · refine
      { noTemp := fun v n => ?_
        hashes := fun id hash hhash => ?_
        feeds := fun v e he hash hhash => (hfollows v _).mpr ?_ }
    · simp [World.modifyZset, World.cacheRows, World.withDb, h.noTemp v n]
    · show ∃ p ∈ db.posts, _
      rw [hposts]
      rcases writeAll_row_cases hids hhash with ⟨r, hr, rfl, rfl⟩ | hold
      · exact ⟨r, (Database.mem_recentPosts_of_mem hr).1, rfl, rfl⟩
      · exact h.hashes id hash hold
    · by_cases hv : v = user
      · subst hv
        rw [World.feed_modifyZset, if_pos rfl, World.feed_cacheRows, if_pos rfl] at he
        have hentry := SortedSet.mem_of_mem_addAll (SortedSet.mem_of_mem_trim he)
        rcases writeAll_row_cases hids hhash with ⟨r, hr, -, rfl⟩ | hold
        · exact Or.inr ⟨rfl, hauthor r hr⟩
        · rcases hentry with hrow | hmem
          · -- a row that was added has its own hash
            obtain ⟨r, hr, rfl⟩ := List.mem_map.mp hrow
            change PointUpdate.writeAll PostRow.id (fun r => some (rowToPostHash r))
              (w.db.recentPosts order [friend] cfg.feedMaxSize) w.redis.posts r.id = some hash at hhash
            rw [PointUpdate.writeAll_of_mem hids hr] at hhash
            obtain rfl := Option.some.inj hhash
            exact Or.inr ⟨rfl, hauthor r hr⟩
          · exact Or.inl (h.feeds v e hmem hash hold)
      · rw [World.feed_modifyZset, if_neg hv, World.feed_cacheRows, if_neg hv] at he
        left
        rcases writeAll_row_cases hids hhash with ⟨r, hr, hid, rfl⟩ | hold
        · have hfriend := hstray r hr v hv ⟨e, he, hid.symm⟩
          rw [← hauthor r hr] at hfriend
          exact hfriend
        · exact h.feeds v e he hash hold

/-- An unfriending removes what it finds by the hashes, and the rest has no hash. -/
theorem Sound.unfriended (h : Sound w) (user friend : Uuid) :
    Sound ((w.withDb (w.db.deleteFriendship user friend)).unfriended user friend) where
  noTemp v n := by simp [World.unfriended, World.modifyZset, World.withDb, h.noTemp v n]
  hashes := h.hashes
  feeds v e he hash hhash := by
    change w.redis.posts e.member = some hash at hhash
    refine Database.follows_deleteFriendship.mpr ?_
    unfold World.unfriended at he
    rw [World.feed_modifyZset] at he
    by_cases hv : v = user
    · subst hv
      rw [if_pos rfl, SortedSet.mem_removeAll] at he
      refine ⟨h.feeds v e he.1 hash hhash, ?_⟩
      rintro ⟨-, hauthor⟩
      refine he.2 (List.mem_filter.mpr ⟨List.mem_map_of_mem he.1, ?_⟩)
      show decide (Option.map PostHash.authorId (w.redis.posts e.member) = some friend) = true
      rw [hhash, ← hauthor]
      simp
    · rw [if_neg hv] at he
      exact ⟨h.feeds v e he hash hhash, fun hself => hv hself.1⟩

/-- What a rebuild puts into a feed has the hash of its row, the post of a friend. -/
theorem authors_rebuilt (order : RowOrder) (cfg : Settings) {v : Uuid} {e : Entry DateTime Uuid}
    (he : e ∈ ((w.rebuilt v (rebuildRows order cfg w v)).feed v).entries) {hash : PostHash}
    (hhash : (w.rebuilt v (rebuildRows order cfg w v)).redis.posts e.member = some hash) :
    w.db.Follows v hash.authorId := by
  have hids : ((rebuildRows order cfg w v).map PostRow.id).Nodup :=
    Database.recentFriendPosts_nodup w.db order v cfg.feedMaxSize
  rw [World.feed_rebuilt, if_pos rfl] at he
  rcases SortedSet.mem_of_mem_addAll he with hrow | hnone
  · obtain ⟨r, hr, rfl⟩ := List.mem_map.mp hrow
    change PointUpdate.writeAll PostRow.id (fun r => some (rowToPostHash r))
      (rebuildRows order cfg w v) w.redis.posts r.id = some hash at hhash
    rw [PointUpdate.writeAll_of_mem hids hr] at hhash
    obtain rfl := Option.some.inj hhash
    exact (Database.mem_recentFriendPosts_of_mem hr).2
  · exact absurd hnone SortedSet.not_mem_empty

theorem Sound.rebuilt (order : RowOrder) (cfg : Settings) (h : Sound w) (user : Uuid)
    (hstray : ∀ p ∈ rebuildRows order cfg w user, ¬ Stray w p.id p.authorId) :
    Sound (w.rebuilt user (rebuildRows order cfg w user)) := by
  have hids : ((rebuildRows order cfg w user).map PostRow.id).Nodup :=
    Database.recentFriendPosts_nodup w.db order user cfg.feedMaxSize
  refine
    { noTemp := fun v n => by simp [World.rebuilt, h.noTemp v n]
      hashes := fun id hash hhash => ?_
      feeds := fun v e he hash hhash => ?_ }
  · rcases writeAll_row_cases hids hhash with ⟨r, hr, rfl, rfl⟩ | hold
    · exact ⟨r, (Database.mem_recentFriendPosts_of_mem hr).1, rfl, rfl⟩
    · exact h.hashes id hash hold
  · show w.db.Follows v hash.authorId
    by_cases hv : v = user
    · subst hv
      exact authors_rebuilt order cfg he hhash
    · rw [World.feed_rebuilt, if_neg hv] at he
      rcases writeAll_row_cases hids hhash with ⟨r, hr, hid, rfl⟩ | hold
      · by_contra hnot
        exact hstray r hr ⟨v, ⟨e, he, hid.symm⟩, hnot⟩
      · exact h.feeds v e he hash hold

theorem Sound.swept (h : Sound w) (user : Uuid) (ids : List Uuid) : Sound (w.swept user ids) where
  noTemp v n := by simp [World.swept, World.modifyZset, h.noTemp v n]
  hashes := h.hashes
  feeds v e he hash hhash := by
    unfold World.swept at he
    rw [World.feed_modifyZset] at he
    split_ifs at he
    · exact h.feeds v e (SortedSet.mem_removeAll.mp he).1 hash hhash
    · exact h.feeds v e he hash hhash

/-- **The step lemma.** -/
theorem Sound.step (order : RowOrder) (cfg : Settings) (hsync : Synchronous cfg) (h : Sound w)
    {e : Event} (he : ¬ e.Revives order cfg w) : Sound (w.happens order cfg e) := by
  cases e with
  | expire id => exact h.expired id
  | call c =>
      show Sound (w.after order cfg c)
      cases c with
      | createPost user text id now =>
          rcases run_createPost_cases order cfg user text id now w with
            ⟨err, hrun⟩ | ⟨db, -, hposts, hfriends, hrun⟩
          · rw [after_eq hrun]
            exact h
          · rw [after_eq hrun]
            exact Sound.created hsync h hposts hfriends text he
      | updatePost user id text =>
          rcases run_updatePost_cases order user id text w with hrun | ⟨p, hp, rfl, rfl, hrun⟩
          · rw [after_eq hrun]
            exact h
          · rw [after_eq hrun]
            exact h.updated text hp fun hstray => he ⟨⟨p, hp, rfl, rfl⟩, hstray⟩
      | deletePost user id now =>
          rcases run_deletePost_cases order cfg user id now w with
            ⟨-, hrun⟩ | ⟨p, hp, rfl, rfl, hrun⟩
          · rw [after_eq hrun]
            exact h
          · rw [after_eq hrun]
            exact h.deleted hsync hp now
      | setFriend user friend =>
          rcases run_setFriend_cases order cfg user friend w with
            ⟨err, -, hrun⟩ | ⟨db, -, -, hposts, hfollows, hrun⟩
          · rw [after_eq hrun]
            exact h
          · rw [after_eq hrun]
            refine h.befriended order cfg hposts hfollows fun p hp v hv hmem => ?_
            by_contra hnot
            exact he ⟨p, hp, v, hv, hmem, hnot⟩
      | deleteFriend user friend =>
          rw [after_eq (run_deleteFriend order user friend w)]
          exact h.unfriended user friend
      | rebuildFeed user nonce =>
          rw [after_eq (run_rebuildFeed order cfg user nonce w h.noTemp)]
          exact h.rebuilt order cfg user fun p hp hstray => he ⟨p, hp, hstray⟩
      | getFeed user nonce offset limit =>
          rcases run_getFeed_cases order cfg user nonce offset limit w h.noTemp with
            ⟨err, hrun⟩ | ⟨posts, ids, fs, -, -, hrun⟩
          · rw [after_eq hrun]
            exact h
          · rw [after_eq hrun]
            have hopened : Sound (w.opened order cfg user) := by
              unfold World.opened
              split_ifs with hexists
              · exact h
              · refine h.rebuilt order cfg user fun p hp hstray => he ⟨?_, p, hp, hstray⟩
                exact Bool.eq_false_iff.mpr hexists
            have hswept := hopened.swept user ids
            exact
              { noTemp := hswept.noTemp
                hashes := hswept.hashes
                feeds := hswept.feeds }

/-! ## What readers see -/

/-- **Whose posts a read returns**: authors of the hashes in the feed or, when it is rebuilt, friends. -/
theorem authors_shown {P : Uuid → Prop} {v nonce : Uuid} (hfresh : w.Fresh v nonce)
    (hfeed : ∀ e ∈ (w.feed v).entries, ∀ hash, w.redis.posts e.member = some hash → P hash.authorId)
    (hfriends : ∀ a, w.db.Follows v a → P a) {offset limit : Nat} {items : List FeedItem}
    (hread : ((readFeed cfg nonce v offset limit).run (exec order) w).1 = .ok items) :
    ∀ i ∈ items, P i.authorUserId := by
  intro i hi
  rw [run_readFeed order cfg v nonce offset limit w hfresh] at hread
  obtain rfl := Except.ok.inj hread
  obtain ⟨m, hm, hitem⟩ := List.mem_filterMap.mp hi
  obtain ⟨hash, hhash, rfl⟩ := Option.map_eq_some_iff.mp hitem
  obtain ⟨e, he, rfl⟩ := exists_entry_of_mem_pageIds hm
  show P hash.authorId
  unfold World.opened at he hhash
  split_ifs at he hhash with hexists
  · exact hfeed e he hash hhash
  · exact hfriends _ (authors_rebuilt order cfg he hhash)

theorem Sound.friendsOnly (h : Sound w) : FriendsOnly order cfg w := by
  intro v nonce offset limit items hread
  exact authors_shown (h.noTemp.fresh v nonce) (h.feeds v) (fun _ hfollows => hfollows) hread

theorem happensAll_append (w : World) (pre : List Event) (e : Event) :
    w.happensAll order cfg (pre ++ [e]) = (w.happensAll order cfg pre).happens order cfg e := by
  simp [World.happensAll]

/-- **Feeds show friends only, whatever hashes vanish**, as long as no call writes the hash of a post
that the feed of a user who does not follow its author still holds. -/
theorem read_feed_friends_only (order : RowOrder) (cfg : Settings) (hsync : Synchronous cfg)
    (users : List Uuid) (events : List Event)
    (hevents : ∀ pre e, pre ++ [e] <+: events →
      ¬ e.Revives order cfg ((World.ofUsers users).happensAll order cfg pre)) :
    ∀ pre, pre <+: events → FriendsOnly order cfg ((World.ofUsers users).happensAll order cfg pre) := by
  intro pre hpre
  refine Sound.friendsOnly ?_
  induction pre using List.reverseRecOn with
  | nil => exact sound_initial users
  | append_singleton pre e ih =>
      rw [happensAll_append]
      exact (ih ((List.prefix_append pre [e]).trans hpre)).step order cfg hsync (hevents pre e hpre)

/-- User 2's post loses its hash, user 1 unfriends user 2, and user 2 edits the post. -/
def editAfterExpiry : List Event :=
  [.call (.setFriend (.ofNat 1) (.ofNat 2)),
    .call (.createPost (.ofNat 2) "a" (.ofNat 11) (noonOf 1 first_day)),
    .expire (.ofNat 11),
    .call (.deleteFriend (.ofNat 1) (.ofNat 2)),
    .call (.updatePost (.ofNat 2) (.ofNat 11) "b")]

/-- The edit brings the post back into the feed of the former friend. -/
theorem expiry_revives_post :
    ¬ ∀ (cfg : Settings) (users : List Uuid) (events : List Event), Synchronous cfg →
      ∀ pre, pre <+: events →
        FriendsOnly someOrder cfg ((World.ofUsers users).happensAll someOrder cfg pre) := by
  intro h
  have hfriends := h {} [.ofNat 1, .ofNat 2] editAfterExpiry ⟨by decide, rfl⟩ editAfterExpiry
    (List.prefix_refl _)
  have hfollows := hfriends (.ofNat 1) (.ofNat 0) 0 1 [⟨.ofNat 11, "b", .ofNat 2, none⟩] rfl _
    List.mem_cons_self
  exact absurd hfollows (by decide +kernel)

/-- User 1 unfriends user 2, whose post has lost its hash, and reads the feed. -/
def readAfterExpiry : List Event :=
  [.call (.setFriend (.ofNat 1) (.ofNat 2)),
    .call (.createPost (.ofNat 2) "a" (.ofNat 11) (noonOf 1 first_day)),
    .expire (.ofNat 11),
    .call (.deleteFriend (.ofNat 1) (.ofNat 2)),
    .call (.getFeed (.ofNat 1) (.ofNat 99) 0 10)]

/-- The id stays in the feed of the former follower, and nothing brings its hash back. -/
theorem read_feed_friends_only_readAfterExpiry :
    FriendsOnly someOrder {}
      ((World.ofUsers [.ofNat 1, .ofNat 2]).happensAll someOrder {} readAfterExpiry) := by
  refine read_feed_friends_only someOrder {} ⟨by decide, rfl⟩ [.ofNat 1, .ofNat 2] readAfterExpiry
    (fun pre e hpre => ?_) _ (List.prefix_refl _)
  rcases eq_of_prefix_cons hpre with ⟨rfl, rfl⟩ | ⟨pre₁, rfl, hpre₁⟩
  · -- no post to copy
    rintro ⟨p, hp, -⟩
    exact absurd (Database.mem_recentPosts_of_mem hp).1 List.not_mem_nil
  rcases eq_of_prefix_cons hpre₁ with ⟨rfl, rfl⟩ | ⟨pre₂, rfl, hpre₂⟩
  · -- all feeds are empty
    rintro ⟨v, ⟨e, he, -⟩, -⟩
    exact SortedSet.not_mem_empty he
  rcases eq_of_prefix_cons hpre₂ with ⟨rfl, rfl⟩ | ⟨pre₃, rfl, hpre₃⟩
  · exact id
  rcases eq_of_prefix_cons hpre₃ with ⟨rfl, rfl⟩ | ⟨pre₄, rfl, hpre₄⟩
  · exact id
  obtain ⟨rfl, rfl⟩ := eq_of_prefix_singleton hpre₄
  rintro ⟨hmissing, -⟩
  revert hmissing
  decide +kernel

end HighLoad.Feed
