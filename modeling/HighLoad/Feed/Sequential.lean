/-
# HighLoad.Feed.Sequential — calls one after the other with synchronous fan-out

Complete calls of the handlers, each run to its end before the next, with `feed_transport` not rabbitmq
and `feed_fanout_async` off. The invariant `Windowed` says that every feed is the window of the newest
posts of its user's friends and that every post has an up-to-date hash. Creations, edits, new
friendships, rebuilds and reads keep it whatever the number of posts (`Windowed.grow`); removals keep it
where the window had room for all posts (`Windowed.shrink`), since nothing refills a window.
-/
import HighLoad.Feed.HandlerSpecs
import HighLoad.Feed.Window

namespace HighLoad.Feed

open Prog TopN

variable {order : RowOrder} {cfg : Settings} {w : World} {u : Uuid} {U : Set Uuid}

/-! ## Calls -/

/-- A call of a handler, with what it draws from its surroundings. -/
inductive Call where
  | createPost (user : Uuid) (text : String) (id : Uuid) (now : DateTime)
  | updatePost (user id : Uuid) (text : String)
  | deletePost (user id : Uuid) (now : DateTime)
  | setFriend (user friend : Uuid)
  | deleteFriend (user friend : Uuid)
  | rebuildFeed (user nonce : Uuid)
  | getFeed (user nonce : Uuid) (offset limit : Int)

/-- The program of a call. -/
def Call.program (cfg : Settings) : Call → Py Response
  | .createPost user text id now => Feed.createPost cfg user text id now
  | .updatePost user id text => Feed.updatePost user id text
  | .deletePost user id now => Feed.deletePost cfg user id now
  | .setFriend user friend => Feed.setFriend cfg user friend
  | .deleteFriend user friend => Feed.deleteFriend user friend
  | .rebuildFeed user nonce => Feed.rebuildFeed cfg user nonce
  | .getFeed user nonce offset limit => Feed.getFeed cfg user nonce offset limit

/-- The world after a call, whether it returned or raised. -/
def World.after (order : RowOrder) (cfg : Settings) (w : World) (c : Call) : World :=
  ((c.program cfg).run (exec order) w).2

/-- The world after calls one after the other. -/
def World.afterAll (order : RowOrder) (cfg : Settings) (w : World) (calls : List Call) : World :=
  calls.foldl (World.after order cfg) w

/-- Fan-out by the handlers themselves. -/
structure Synchronous (cfg : Settings) : Prop where
  transport : cfg.feedTransport ≠ "rabbitmq"
  fanout : cfg.feedFanoutAsync = false

/-- The call takes nothing out of a feed. -/
def Call.grows : Call → Bool
  | .deletePost _ _ _ => false
  | .deleteFriend _ _ => false
  | _ => true

/-! ## The invariant -/

/-- Every window has room for all posts of the user's friends. -/
def Roomy (cfg : Settings) (db : Database) : Prop :=
  ∀ u, (friendPosts db u).length ≤ cfg.feedMaxSize

/-- The feeds of some users are the windows of the newest posts of their friends, and the hashes are
the rows. -/
structure Windowed (cfg : Settings) (U : Set Uuid) (w : World) : Prop where
  noTemp : w.NoTemp
  feeds : ∀ u ∈ U, w.feedSet u = newest w.db u cfg.feedMaxSize
  hashes : ∀ p ∈ w.db.posts, w.redis.posts p.id = some (rowToPostHash p)

theorem mem_newest {db : Database} {n : Nat} {e : Entry DateTime Uuid} (h : e ∈ newest db u n) :
    ∃ p ∈ db.posts, db.Follows u p.authorId ∧ p.entry = e := by
  obtain ⟨p, hp, he⟩ := mem_entrySet.mp (top_subset _ _ h)
  exact ⟨p, (mem_friendPosts.mp hp).1, (mem_friendPosts.mp hp).2, he⟩

theorem newest_of_roomy {db : Database} (h : Roomy cfg db) (u : Uuid) :
    newest db u cfg.feedMaxSize = entrySet (friendPosts db u) := by
  refine top_eq_self ?_
  rw [card_friendPosts]
  exact h u

theorem newest_congr {db db' : Database} {n : Nat}
    (h : entrySet (friendPosts db' u) = entrySet (friendPosts db u)) :
    newest db' u n = newest db u n := by
  rw [newest, newest, h]

/-- The entry of a member of a feed is that of a post. -/
theorem Windowed.mem_feed (h : Windowed cfg U w) (hu : u ∈ U) {e : Entry DateTime Uuid}
    (he : e ∈ (w.feed u).entries) : ∃ p ∈ w.db.posts, w.db.Follows u p.authorId ∧ p.entry = e := by
  have hmem : e ∈ w.feedSet u := List.mem_toFinset.mpr he
  rw [h.feeds u hu] at hmem
  exact mem_newest hmem

/-- Every member of a feed has a hash. -/
theorem Windowed.not_mem_staleIds (h : Windowed cfg U w) (hu : u ∈ U) {e : Entry DateTime Uuid}
    (he : e ∈ (w.feed u).entries) (ids : List Uuid) : e.member ∉ staleIds w ids := by
  obtain ⟨p, hp, -, rfl⟩ := h.mem_feed hu he
  have hhash := h.hashes p hp
  intro hstale
  have hnone := (List.mem_filter.mp hstale).2
  change (w.redis.posts p.id).isNone = true at hnone
  rw [hhash] at hnone
  exact absurd hnone Bool.false_ne_true

/-! ## Calls that add -/

theorem windowed_initial (cfg : Settings) (U : Set Uuid) (users : List Uuid) :
    Windowed cfg U (World.ofUsers users) where
  noTemp _ _ := rfl
  feeds u _ := by
    have hempty : friendPosts (World.ofUsers users).db u = [] := rfl
    rw [newest, hempty]
    rfl
  hashes p hp := absurd hp List.not_mem_nil

theorem announcedCreated_synchronous (hsync : Synchronous cfg) (w : World) (user : Uuid)
    (text : String) (row : PostRow) :
    w.announcedCreated cfg user text row
      = w.mapFeeds (w.db.followers user) (pushed cfg.feedMaxSize row.createdAt row.id) := by
  unfold World.announcedCreated
  rw [if_neg hsync.transport, hsync.fanout]
  rfl

/-- A new post is pushed into the feeds of its author's followers. -/
theorem Windowed.created (hsync : Synchronous cfg) (h : Windowed cfg U w) {db : Database}
    {row : PostRow} (hposts : db.posts = w.db.posts ++ [row])
    (hfriends : db.friendships = w.db.friendships) (text : String) :
    Windowed cfg U (((w.withDb db).setPost row.id (some (rowToPostHash row))).announcedCreated cfg
      row.authorId text row) := by
  have hnewId : ∀ p ∈ w.db.posts, p.id ≠ row.id := Database.ne_id_of_append hposts
  have hfollows : ∀ v a, db.Follows v a ↔ w.db.Follows v a := Database.follows_congr hfriends
  have hafter : ((w.withDb db).setPost row.id (some (rowToPostHash row))).announcedCreated cfg
      row.authorId text row
        = ((w.withDb db).setPost row.id (some (rowToPostHash row))).mapFeeds
            (db.followers row.authorId) (pushed cfg.feedMaxSize row.createdAt row.id) :=
    announcedCreated_synchronous hsync _ _ _ _
  rw [hafter]
  refine
    { noTemp := h.noTemp
      feeds := ?_
      hashes := ?_ }
  · intro v hvU
    have hfriendPosts : friendPosts db v
        = friendPosts w.db v ++ if w.db.Follows v row.authorId then [row] else [] := by
      unfold friendPosts
      rw [hposts, List.filter_append]
      congr 1
      · exact List.filter_congr fun p _ => decide_eq_decide.mpr (hfollows v p.authorId)
      · by_cases hv : w.db.Follows v row.authorId
        · rw [if_pos hv, List.filter_cons_of_pos (by simpa [hfollows] using hv), List.filter_nil]
        · rw [if_neg hv, List.filter_cons_of_neg (by simpa [hfollows] using hv), List.filter_nil]
    show (World.feed _ v).entries.toFinset = newest db v cfg.feedMaxSize
    rw [World.feed_mapFeeds, newest, hfriendPosts]
    by_cases hv : w.db.Follows v row.authorId
    · have hfollower : v ∈ db.followers row.authorId :=
        Database.mem_followers.mpr ((hfollows v _).mpr hv)
      have hset : entrySet (friendPosts w.db v ++ [row])
          = insert row.entry (entrySet (friendPosts w.db v)) := by
        ext e
        simp only [mem_entrySet, Finset.mem_insert, List.mem_append, List.mem_singleton]
        constructor
        · rintro ⟨p, hp | rfl, rfl⟩
          · exact Or.inr ⟨p, hp, rfl⟩
          · exact Or.inl rfl
        · rintro (rfl | ⟨p, hp, rfl⟩)
          · exact ⟨row, Or.inr rfl, rfl⟩
          · exact ⟨p, Or.inl hp, rfl⟩
      rw [if_pos hfollower, if_pos hv, hset, ← top_insert_top, toFinset_pushed]
      · have hold := h.feeds v hvU
        rw [newest] at hold
        rw [← hold]
        rfl
      · intro e he
        obtain ⟨p, hp, -, rfl⟩ := h.mem_feed hvU he
        exact hnewId p hp
    · have hfollower : v ∉ db.followers row.authorId := fun hmem =>
        hv ((hfollows v _).mp (Database.mem_followers.mp hmem))
      rw [if_neg hfollower, if_neg hv, List.append_nil]
      exact h.feeds v hvU
  · intro p hp
    have hp' : p ∈ w.db.posts ++ [row] := by
      rw [← hposts]
      exact hp
    show Function.update w.redis.posts row.id (some (rowToPostHash row)) p.id = _
    rcases List.mem_append.mp hp' with hold | hnew
    · rw [Function.update_of_ne (hnewId p hold)]
      exact h.hashes p hold
    · rw [List.mem_singleton.mp hnew, Function.update_self]

/-- An edit changes neither ids nor times. -/
theorem friendPosts_updatePost (db : Database) (text : String) (id user : Uuid) (u : Uuid) :
    entrySet (friendPosts (db.updatePost text id user).2 u) = entrySet (friendPosts db u) := by
  have hentry : ∀ p, (Database.setText text id user p).entry = p.entry := fun p => by
    simp [PostRow.entry]
  ext e
  simp only [mem_entrySet, mem_friendPosts, Database.mem_updatePost,
    Database.follows_updatePost]
  constructor
  · rintro ⟨q, ⟨⟨p, hp, rfl⟩, hfollows⟩, rfl⟩
    exact ⟨p, ⟨hp, by simpa using hfollows⟩, (hentry p).symm⟩
  · rintro ⟨p, ⟨hp, hfollows⟩, rfl⟩
    exact ⟨_, ⟨⟨p, hp, rfl⟩, by simpa using hfollows⟩, hentry p⟩

theorem Windowed.updated (h : Windowed cfg U w) (text : String) {id user : Uuid} {p : PostRow}
    (hp : p ∈ w.db.posts) (hid : p.id = id) (hauthor : p.authorId = user) :
    Windowed cfg U ((w.withDb (w.db.updatePost text id user).2).setPost id
      (some (rowToPostHash { p with text := text }))) where
  noTemp := h.noTemp
  feeds v hv := (h.feeds v hv).trans (newest_congr (friendPosts_updatePost w.db text id user v)).symm
  hashes := by
    intro q' hq'
    obtain ⟨q, hq, rfl⟩ := Database.mem_updatePost.mp hq'
    show Function.update w.redis.posts id _ (Database.setText text id user q).id = _
    rw [Database.setText_id]
    by_cases hqid : q.id = id
    · have heq : q = p := w.db.eq_of_id_eq hq hp (hqid.trans hid.symm)
      subst heq
      rw [Database.setText, if_pos ⟨hid, hauthor⟩, hqid, Function.update_self]
    · rw [Function.update_of_ne hqid, Database.setText, if_neg fun h => hqid h.1]
      exact h.hashes q hq

/-- Writing the hashes of rows of the database leaves up-to-date hashes. -/
theorem writeAll_row {rows : List PostRow} {posts : Uuid → Option PostHash} {p : PostRow}
    (hids : (rows.map PostRow.id).Nodup) (hrows : ∀ r ∈ rows, r ∈ w.db.posts) (hp : p ∈ w.db.posts)
    (hhash : posts p.id = some (rowToPostHash p)) :
    PointUpdate.writeAll PostRow.id (fun r => some (rowToPostHash r)) rows posts p.id
      = some (rowToPostHash p) := by
  by_cases hmem : p ∈ rows
  · exact PointUpdate.writeAll_of_mem hids hmem
  · rw [PointUpdate.writeAll_of_not_mem, hhash]
    intro r hr hid
    exact hmem (w.db.eq_of_id_eq (hrows r hr) hp hid ▸ hr)

/-- The rows of one friend that a query selects are a window of the posts of that friend, when all
posts of the friends fit. -/
theorem entrySet_recentPosts_of_follows {db : Database} {user friend : Uuid} {n : Nat}
    (hfriend : db.Follows user friend) (hfit : DistinctTimes db ∨ (friendPosts db user).length ≤ n) :
    entrySet (db.recentPosts order [friend] n)
      = top n (entrySet (db.posts.filter fun p => p.authorId = friend)) := by
  refine entrySet_recentPosts friend _ (hfit.imp_right fun hroomy => ?_)
  refine le_trans ?_ hroomy
  refine (List.monotone_filter_right _ fun p hp => ?_).length_le
  have hauthor : p.authorId = friend := by simpa using hp
  simpa [hauthor] using hfriend

/-! ### The posts of a new friend -/

theorem feed_befriended_of_ne {v user friend : Uuid} (hv : v ≠ user) :
    (w.befriended order cfg user friend).feed v = w.feed v := by
  unfold World.befriended
  split_ifs
  · rfl
  · rw [World.feed_modifyZset, if_neg hv, World.feed_cacheRows, if_neg hv]

/-- The posts of a new friend are merged into a feed of rows of the database. -/
theorem feedSet_befriended {user friend : Uuid} (hcap : (w.feedSet user).card ≤ cfg.feedMaxSize)
    (hfeed : ∀ e ∈ (w.feed user).entries, ∃ q ∈ w.db.posts, q.entry = e) :
    (w.befriended order cfg user friend).feedSet user
      = top cfg.feedMaxSize (w.feedSet user ∪ entrySet (friendRows order cfg w friend)) := by
  unfold World.befriended
  split_ifs with hempty
  · have hnone : entrySet (friendRows order cfg w friend) = ∅ := by
      rw [List.isEmpty_iff.mp hempty]
      rfl
    rw [hnone, Finset.union_empty, top_eq_self hcap]
  · have hids : ((friendRows order cfg w friend).map PostRow.id).Nodup :=
      Database.recentPosts_nodup w.db order [friend] cfg.feedMaxSize
    have hagree : ∀ e ∈ (w.feed user).entries,
        ∀ p ∈ friendRows order cfg w friend, p.id = e.member → p.entry = e := by
      intro e he p hp hid
      obtain ⟨q, hq, rfl⟩ := hfeed e he
      rw [w.db.eq_of_id_eq (Database.mem_recentPosts_of_mem hp).1 hq hid]
    show (World.feed _ user).entries.toFinset = _
    rw [World.feed_modifyZset, if_pos rfl, World.feed_cacheRows, if_pos rfl, toFinset_trim]
    congr 1
    exact toFinset_addAll hids hagree

/-- A hash of a row is up to date still, and the rows of the new friend have theirs. -/
theorem posts_befriended {user friend : Uuid} {p : PostRow} (hp : p ∈ w.db.posts)
    (hhash : w.redis.posts p.id = some (rowToPostHash p) ∨ p ∈ friendRows order cfg w friend) :
    (w.befriended order cfg user friend).redis.posts p.id = some (rowToPostHash p) := by
  have hids : ((friendRows order cfg w friend).map PostRow.id).Nodup :=
    Database.recentPosts_nodup w.db order [friend] cfg.feedMaxSize
  unfold World.befriended
  split_ifs with hempty
  · refine hhash.resolve_right fun hrow => ?_
    rw [List.isEmpty_iff.mp hempty] at hrow
    exact absurd hrow List.not_mem_nil
  · show PointUpdate.writeAll PostRow.id (fun r => some (rowToPostHash r))
      (friendRows order cfg w friend) w.redis.posts p.id = _
    rcases hhash with hold | hrow
    · exact writeAll_row hids (fun r hr => (Database.mem_recentPosts_of_mem hr).1) hp hold
    · exact PointUpdate.writeAll_of_mem hids hrow

/-- The posts of a new friend are merged into the window. -/
theorem Windowed.befriended (h : Windowed cfg U w) {db : Database} {user friend : Uuid}
    (hposts : db.posts = w.db.posts)
    (hfollows : ∀ v a, db.Follows v a ↔ w.db.Follows v a ∨ (v = user ∧ a = friend))
    (hfit : DistinctTimes db ∨ Roomy cfg db) :
    Windowed cfg U ((w.withDb db).befriended order cfg user friend) := by
  have hwindow : entrySet (db.recentPosts order [friend] cfg.feedMaxSize)
      = top cfg.feedMaxSize (entrySet (db.posts.filter fun p => p.authorId = friend)) := by
    exact entrySet_recentPosts_of_follows ((hfollows user friend).mpr (Or.inr ⟨rfl, rfl⟩))
      (hfit.imp_right fun hroomy => hroomy user)
  have hother : ∀ v, v ≠ user → newest db v cfg.feedMaxSize = newest w.db v cfg.feedMaxSize := by
    intro v hv
    refine newest_congr ?_
    ext e
    simp only [mem_entrySet, mem_friendPosts, hposts, hfollows, hv, false_and, or_false]
  have hself : entrySet (friendPosts db user) = entrySet (friendPosts w.db user)
      ∪ entrySet (db.posts.filter fun p => p.authorId = friend) := by
    ext e
    simp only [mem_entrySet, mem_friendPosts, Finset.mem_union, List.mem_filter, hposts, hfollows,
      decide_eq_true_eq, true_and]
    constructor
    · rintro ⟨p, ⟨hp, hf | hf⟩, rfl⟩
      · exact Or.inl ⟨p, ⟨hp, hf⟩, rfl⟩
      · exact Or.inr ⟨p, ⟨hp, hf⟩, rfl⟩
    · rintro (⟨p, ⟨hp, hf⟩, rfl⟩ | ⟨p, ⟨hp, hf⟩, rfl⟩)
      · exact ⟨p, ⟨hp, Or.inl hf⟩, rfl⟩
      · exact ⟨p, ⟨hp, Or.inr hf⟩, rfl⟩
  have hmerged : user ∈ U → top cfg.feedMaxSize (w.feedSet user
      ∪ entrySet (db.recentPosts order [friend] cfg.feedMaxSize))
        = newest db user cfg.feedMaxSize := by
    intro hU
    rw [h.feeds user hU, hwindow, newest, top_union_top, ← hself, newest]
  have hrows : ∀ e ∈ (w.feed user).entries, user ∈ U → ∃ q ∈ db.posts, q.entry = e := by
    intro e he hU
    obtain ⟨q, hq, -, heq⟩ := h.mem_feed hU he
    exact ⟨q, hposts ▸ hq, heq⟩
  refine
    { noTemp := fun v n => ?_
      feeds := fun v hvU => ?_
      hashes := fun p hp => ?_ }
  · rw [World.befriended_temp]
    exact h.noTemp v n
  · rw [World.befriended_db]
    by_cases hv : v = user
    · subst hv
      have hcap : (w.feedSet v).card ≤ cfg.feedMaxSize := by
        rw [h.feeds v hvU, card_newest]
        exact Nat.min_le_left _ _
      exact (feedSet_befriended (w := w.withDb db) hcap fun e he => hrows e he hvU).trans (hmerged hvU)
    · show (World.feed _ v).entries.toFinset = newest db v cfg.feedMaxSize
      rw [feed_befriended_of_ne hv, hother v hv]
      exact h.feeds v hvU
  · rw [World.befriended_db] at hp
    exact posts_befriended hp (Or.inl (h.hashes p (hposts ▸ hp)))

/-- A rebuild writes the window. -/
theorem feedSet_rebuilt (order : RowOrder) (cfg : Settings) (w : World) (user : Uuid)
    (hfit : DistinctTimes w.db ∨ (friendPosts w.db user).length ≤ cfg.feedMaxSize) (v : Uuid) :
    (w.rebuilt user (rebuildRows order cfg w user)).feedSet v
      = if v = user then newest w.db user cfg.feedMaxSize else w.feedSet v := by
  unfold World.feedSet
  rw [World.feed_rebuilt]
  by_cases hv : v = user
  · have hadded := toFinset_addAll (z := SortedSet.empty)
      (Database.recentFriendPosts_nodup w.db order user cfg.feedMaxSize)
      (fun e he => absurd he SortedSet.not_mem_empty)
    have hnone : (SortedSet.empty : FeedSet).entries.toFinset = ∅ := rfl
    rw [hnone, Finset.empty_union, entrySet_recentFriendPosts cfg.feedMaxSize hfit] at hadded
    rw [if_pos hv, if_pos hv]
    exact hadded
  · rw [if_neg hv, if_neg hv]

theorem Windowed.rebuilt (h : Windowed cfg U w) (user : Uuid)
    (hfit : DistinctTimes w.db ∨ Roomy cfg w.db) :
    Windowed cfg U (w.rebuilt user (rebuildRows order cfg w user)) where
  noTemp v n := by simp [World.rebuilt, h.noTemp v n]
  feeds v hvU := by
    rw [feedSet_rebuilt order cfg w user (hfit.imp_right fun hroomy => hroomy user)]
    by_cases hv : v = user
    · rw [if_pos hv, hv]
      rfl
    · rw [if_neg hv]
      exact h.feeds v hvU
  hashes p hp := writeAll_row (Database.recentFriendPosts_nodup w.db order user cfg.feedMaxSize)
    (fun r hr => (Database.mem_recentFriendPosts_of_mem hr).1) hp (h.hashes p hp)

theorem Windowed.opened (order : RowOrder) (h : Windowed cfg U w) (user : Uuid)
    (hfit : DistinctTimes w.db ∨ Roomy cfg w.db) : Windowed cfg U (w.opened order cfg user) := by
  unfold World.opened
  split_ifs
  · exact h
  · exact h.rebuilt user hfit

/-- Reading a page of a window sweeps nothing out of it. -/
theorem Windowed.feedSet_swept (h : Windowed cfg U w) {v : Uuid} (hvU : v ∈ U) (user : Uuid)
    (ids : List Uuid) : (w.swept user ids).feedSet v = w.feedSet v := by
  unfold World.swept World.feedSet
  rw [World.feed_modifyZset]
  by_cases hv : v = user
  · subst hv
    rw [if_pos rfl, toFinset_removeAll, Finset.filter_true_of_mem]
    intro e he
    exact h.not_mem_staleIds hvU (List.mem_toFinset.mp he) ids
  · rw [if_neg hv]

theorem Windowed.swept (h : Windowed cfg U w) (user : Uuid) (ids : List Uuid) :
    Windowed cfg U (w.swept user ids) where
  noTemp v n := by simp [World.swept, World.modifyZset, h.noTemp v n]
  feeds v hvU := (h.feedSet_swept hvU user ids).trans (h.feeds v hvU)
  hashes := h.hashes

/-! ## Calls that remove -/

/-- The posts that are left for a user after a deletion. -/
theorem entrySet_deletePost {p : PostRow} (hp : p ∈ w.db.posts) {id user : Uuid} (hid : p.id = id)
    (hauthor : p.authorId = user) (v : Uuid) :
    entrySet (friendPosts (w.db.deletePost id user).2 v)
      = (entrySet (friendPosts w.db v)).filter fun e => e.member ≠ id := by
  ext e
  simp only [mem_entrySet, mem_friendPosts, Finset.mem_filter, Database.follows_deletePost,
    Database.mem_deletePost_of_mem hp hid hauthor]
  constructor
  · rintro ⟨q, ⟨⟨hq, hne⟩, hfollows⟩, rfl⟩
    exact ⟨⟨q, ⟨hq, hfollows⟩, rfl⟩, hne⟩
  · rintro ⟨⟨q, ⟨hq, hfollows⟩, rfl⟩, hne⟩
    exact ⟨q, ⟨⟨hq, hne⟩, hfollows⟩, rfl⟩

/-- **A deletion takes the post out of the windows**, and nothing takes its place. -/
theorem Windowed.feedSet_deleted (hsync : Synchronous cfg) (h : Windowed cfg U w) {p : PostRow}
    (hp : p ∈ w.db.posts) {id user : Uuid} (hid : p.id = id) (hauthor : p.authorId = user)
    (now : DateTime) {v : Uuid} (hvU : v ∈ U) :
    (((w.withDb (w.db.deletePost id user).2).setPost id none).announcedDeleted cfg user id
      now).feedSet v = (newest w.db v cfg.feedMaxSize).filter fun e => e.member ≠ id := by
  unfold World.announcedDeleted
  rw [if_neg hsync.transport, hsync.fanout, if_neg Bool.false_ne_true]
  show (World.feed _ v).entries.toFinset = _
  rw [World.feed_mapFeeds, ← h.feeds v hvU]
  change (if v ∈ w.db.followers user then (w.feed v).removeAll [id] else w.feed v).entries.toFinset = _
  by_cases hv : v ∈ w.db.followers user
  · have hremove := toFinset_removeAll (w.feed v) [id]
    rw [if_pos hv]
    refine hremove.trans (Finset.filter_congr fun e _ => ?_)
    simp
  · -- no feed but those of the followers has a post of the author
    rw [if_neg hv]
    refine (Finset.filter_true_of_mem fun e he => ?_).symm
    obtain ⟨q, hq, hfollows, rfl⟩ := h.mem_feed hvU (List.mem_toFinset.mp he)
    intro hqid
    rw [w.db.eq_of_id_eq hq hp (hqid.trans hid.symm), hauthor] at hfollows
    exact hv (Database.mem_followers.mpr hfollows)

theorem hashes_deleted (hsync : Synchronous cfg) (h : Windowed cfg U w) {p : PostRow}
    (hp : p ∈ w.db.posts) {id user : Uuid} (hid : p.id = id) (hauthor : p.authorId = user)
    (now : DateTime) {q : PostRow} (hq : q ∈ (w.db.deletePost id user).2.posts) :
    (((w.withDb (w.db.deletePost id user).2).setPost id none).announcedDeleted cfg user id
      now).redis.posts q.id = some (rowToPostHash q) := by
  unfold World.announcedDeleted
  rw [if_neg hsync.transport, hsync.fanout, if_neg Bool.false_ne_true]
  obtain ⟨hq, hne⟩ := (Database.mem_deletePost_of_mem hp hid hauthor).mp hq
  show Function.update w.redis.posts id none q.id = _
  rw [Function.update_of_ne hne]
  exact h.hashes q hq

theorem noTemp_deleted (hsync : Synchronous cfg) (h : w.NoTemp) (db : Database) (id user : Uuid)
    (now : DateTime) :
    (((w.withDb db).setPost id none).announcedDeleted cfg user id now).NoTemp := by
  unfold World.announcedDeleted
  rw [if_neg hsync.transport, hsync.fanout, if_neg Bool.false_ne_true]
  exact h

/-- The world of an unfriending knows the posts of the friend by their hashes. -/
theorem Windowed.feedSet_unfriended (h : Windowed cfg U w) (user friend : Uuid) {v : Uuid}
    (hvU : v ∈ U) :
    ((w.withDb (w.db.deleteFriendship user friend)).unfriended user friend).feedSet v
      = (newest w.db v cfg.feedMaxSize).filter fun e =>
        ¬ (v = user ∧ ∃ p ∈ w.db.posts, p.authorId = friend ∧ p.entry = e) := by
  unfold World.unfriended World.feedSet
  rw [World.feed_modifyZset, ← h.feeds v hvU]
  by_cases hv : v = user
  · subst hv
    rw [if_pos rfl, toFinset_removeAll]
    refine Finset.filter_congr fun e he => not_congr ?_
    have he' : e ∈ (w.feed v).entries := List.mem_toFinset.mp he
    obtain ⟨p, hp, -, rfl⟩ := h.mem_feed hvU he'
    have hhash := h.hashes p hp
    unfold postsByHash
    rw [List.mem_filter, decide_eq_true_eq]
    constructor
    · rintro ⟨-, hauthor⟩
      change Option.map PostHash.authorId (w.redis.posts p.id) = some friend at hauthor
      rw [hhash] at hauthor
      exact ⟨rfl, p, hp, Option.some.inj hauthor, rfl⟩
    · rintro ⟨-, q, hq, hauthor, hentry⟩
      obtain rfl := entry_inj hq hp hentry
      refine ⟨List.mem_map_of_mem he', ?_⟩
      show Option.map PostHash.authorId (w.redis.posts q.id) = some friend
      rw [hhash, ← hauthor]
      rfl
  · rw [if_neg hv]
    refine (Finset.filter_true_of_mem fun e _ => ?_).symm
    rintro ⟨rfl, -⟩
    exact hv rfl

theorem entrySet_deleteFriendship (db : Database) (user friend v : Uuid) :
    entrySet (friendPosts (db.deleteFriendship user friend) v)
      = (entrySet (friendPosts db v)).filter fun e =>
        ¬ (v = user ∧ ∃ p ∈ db.posts, p.authorId = friend ∧ p.entry = e) := by
  ext e
  simp only [mem_entrySet, mem_friendPosts, Finset.mem_filter, Database.follows_deleteFriendship,
    Database.deleteFriendship_posts]
  constructor
  · rintro ⟨p, ⟨hp, hfollows, hnot⟩, rfl⟩
    refine ⟨⟨p, ⟨hp, hfollows⟩, rfl⟩, ?_⟩
    rintro ⟨rfl, q, hq, hauthor, hentry⟩
    obtain rfl := entry_inj hq hp hentry
    exact hnot ⟨rfl, hauthor⟩
  · rintro ⟨⟨p, ⟨hp, hfollows⟩, rfl⟩, hnot⟩
    exact ⟨p, ⟨hp, hfollows, fun hself => hnot ⟨hself.1, p, hp, hself.2, rfl⟩⟩, rfl⟩

/-! ## Runs -/

theorem after_eq {c : Call} {r : Except PyError Response} {w' : World}
    (h : (c.program cfg).run (exec order) w = (r, w')) : w.after order cfg c = w' := by
  rw [World.after, h]

/-- **The step lemma for calls that add.** -/
theorem Windowed.grow (hsync : Synchronous cfg) (h : Windowed cfg U w) {c : Call}
    (hc : c.grows = true) (hfit : DistinctTimes (w.after order cfg c).db ∨
      Roomy cfg (w.after order cfg c).db) : Windowed cfg U (w.after order cfg c) := by
  cases c with
  | createPost user text id now =>
      rcases run_createPost_cases order cfg user text id now w with
        ⟨e, hrun⟩ | ⟨db, -, hposts, hfriends, hrun⟩
      · rw [after_eq hrun]
        exact h
      · rw [after_eq hrun]
        exact Windowed.created hsync h hposts hfriends text
  | updatePost user id text =>
      rcases run_updatePost_cases order user id text w with hrun | ⟨p, hp, hid, hauthor, hrun⟩
      · rw [after_eq hrun]
        exact h
      · rw [after_eq hrun]
        exact h.updated text hp hid hauthor
  | deletePost user id now => exact absurd hc Bool.false_ne_true
  | setFriend user friend =>
      rcases run_setFriend_cases order cfg user friend w with
        ⟨e, -, hrun⟩ | ⟨db, -, -, hposts, hfollows, hrun⟩
      · rw [after_eq hrun]
        exact h
      · rw [after_eq hrun] at hfit ⊢
        refine h.befriended hposts hfollows ?_
        rw [World.befriended_db] at hfit
        exact hfit
  | deleteFriend user friend => exact absurd hc Bool.false_ne_true
  | rebuildFeed user nonce =>
      have hrun := run_rebuildFeed order cfg user nonce w h.noTemp
      rw [after_eq hrun] at hfit ⊢
      exact h.rebuilt user hfit
  | getFeed user nonce offset limit =>
      rcases run_getFeed_cases order cfg user nonce offset limit w h.noTemp with
        ⟨e, hrun⟩ | ⟨posts, ids, fs, -, hnone, hrun⟩
      · rw [after_eq hrun]
        exact h
      · obtain rfl := hnone hsync.transport
        rw [after_eq hrun] at hfit ⊢
        have hdb : (((w.opened order cfg user).swept user ids).flagged cfg []).db = w.db :=
          World.opened_db user
        rw [hdb] at hfit
        have hswept := (h.opened order user hfit).swept user ids
        exact
          { noTemp := hswept.noTemp
            feeds := hswept.feeds
            hashes := hswept.hashes }

/-- The entries that a call takes from a user: a deleted post, or the posts of a former friend. -/
def Call.Takes (c : Call) (db : Database) (v : Uuid) (e : Entry DateTime Uuid) : Prop :=
  match c with
  | .deletePost user id _ => ∃ p ∈ db.posts, p.id = id ∧ p.authorId = user ∧ p.entry = e
  | .deleteFriend user friend => v = user ∧ ∃ p ∈ db.posts, p.authorId = friend ∧ p.entry = e
  | _ => False

instance (c : Call) (db : Database) (v : Uuid) (e : Entry DateTime Uuid) :
    Decidable (c.Takes db v e) :=
  match c with
  | .deletePost user id _ => inferInstanceAs
      (Decidable (∃ p ∈ db.posts, p.id = id ∧ p.authorId = user ∧ p.entry = e))
  | .deleteFriend user friend => inferInstanceAs
      (Decidable (v = user ∧ ∃ p ∈ db.posts, p.authorId = friend ∧ p.entry = e))
  | .createPost _ _ _ _ => isFalse fun h => h
  | .updatePost _ _ _ => isFalse fun h => h
  | .setFriend _ _ => isFalse fun h => h
  | .rebuildFeed _ _ => isFalse fun h => h
  | .getFeed _ _ _ _ => isFalse fun h => h

/-- **What a removal does**: it takes its entries from the feeds and from the posts of the friends, and
keeps the hashes of the posts that are left. -/
theorem Windowed.take (order : RowOrder) (hsync : Synchronous cfg) (h : Windowed cfg U w) {c : Call}
    (hc : c.grows = false) :
    (∀ v ∈ U, (w.after order cfg c).feedSet v
        = (newest w.db v cfg.feedMaxSize).filter fun e => ¬ c.Takes w.db v e) ∧
      (∀ v, entrySet (friendPosts (w.after order cfg c).db v)
        = (entrySet (friendPosts w.db v)).filter fun e => ¬ c.Takes w.db v e) ∧
      (w.after order cfg c).NoTemp ∧
      ∀ p ∈ (w.after order cfg c).db.posts,
        p ∈ w.db.posts ∧ (w.after order cfg c).redis.posts p.id = some (rowToPostHash p) := by
  cases c with
  | deletePost user id now =>
      rcases run_deletePost_cases order cfg user id now w with
        ⟨hnone, hrun⟩ | ⟨p, hp, hid, hauthor, hrun⟩
      · have htakes : ∀ e v, ¬ (Call.deletePost user id now).Takes w.db v e := by
          rintro e v ⟨p, hp, hid, hauthor, -⟩
          exact hnone p hp ⟨hid, hauthor⟩
        rw [after_eq hrun]
        refine ⟨fun v hvU => ?_, fun v => ?_, h.noTemp, fun p hp => ⟨hp, h.hashes p hp⟩⟩
        · rw [Finset.filter_true_of_mem fun e _ => htakes e v]
          exact h.feeds v hvU
        · rw [Finset.filter_true_of_mem fun e _ => htakes e v]
      · have htakes : ∀ e ∈ entrySet w.db.posts, ∀ v,
            (Call.deletePost user id now).Takes w.db v e ↔ e.member = id := by
          intro e he v
          obtain ⟨q, hq, rfl⟩ := mem_entrySet.mp he
          constructor
          · rintro ⟨r, -, hrid, -, hentry⟩
            rw [← hentry]
            exact hrid
          · intro hqid
            obtain rfl := w.db.eq_of_id_eq hq hp (hqid.trans hid.symm)
            exact ⟨q, hq, hid, hauthor, rfl⟩
        have hdb : (((w.withDb (w.db.deletePost id user).2).setPost id none).announcedDeleted cfg user
            id now).db = (w.db.deletePost id user).2 := by
          unfold World.announcedDeleted
          split_ifs <;> rfl
        rw [after_eq hrun, hdb]
        refine ⟨fun v hvU => ?_, fun v => ?_, noTemp_deleted hsync h.noTemp _ id user now, fun q hq =>
          ⟨((Database.mem_deletePost_of_mem hp hid hauthor).mp hq).1,
            hashes_deleted hsync h hp hid hauthor now hq⟩⟩
        · rw [h.feedSet_deleted hsync hp hid hauthor now hvU]
          refine Finset.filter_congr fun e he => not_congr (htakes e ?_ v).symm
          obtain ⟨q, hq, -, rfl⟩ := mem_newest he
          exact mem_entrySet.mpr ⟨q, hq, rfl⟩
        · rw [entrySet_deletePost hp hid hauthor]
          refine Finset.filter_congr fun e he => not_congr (htakes e ?_ v).symm
          obtain ⟨q, hq, rfl⟩ := mem_entrySet.mp he
          exact mem_entrySet.mpr ⟨q, (mem_friendPosts.mp hq).1, rfl⟩
  | deleteFriend user friend =>
      rw [after_eq (run_deleteFriend order user friend w)]
      refine ⟨fun v hvU => ?_, fun v => ?_, ?_, fun p hp => ⟨hp, h.hashes p hp⟩⟩
      · rw [h.feedSet_unfriended user friend hvU]
        exact Finset.filter_congr fun e _ => Iff.rfl
      · exact (entrySet_deleteFriendship w.db user friend v).trans
          (Finset.filter_congr fun e _ => Iff.rfl)
      · intro v n
        simp [World.unfriended, World.modifyZset, World.withDb, h.noTemp v n]
  | createPost user text id now => exact absurd hc.symm Bool.false_ne_true
  | updatePost user id text => exact absurd hc.symm Bool.false_ne_true
  | setFriend user friend => exact absurd hc.symm Bool.false_ne_true
  | rebuildFeed user nonce => exact absurd hc.symm Bool.false_ne_true
  | getFeed user nonce offset limit => exact absurd hc.symm Bool.false_ne_true

end HighLoad.Feed
