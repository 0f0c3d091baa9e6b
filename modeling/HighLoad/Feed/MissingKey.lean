/-
# HighLoad.Feed.MissingKey — a feed that is missing is filled before it is read

A read takes an absent key for a cache miss and rebuilds the feed. But the fan-out of a new post and the
posts of a new friend create the key too, with nothing but themselves in it, and the next read finds a
feed. Posts from before are hidden then, exactly unless nothing was written, or what was written fills
the window of the newest posts by itself (`missing_key_iff`).
-/
import HighLoad.Feed.Merged

namespace HighLoad.Feed

open Prog TopN Paging

variable {order : RowOrder} {cfg : Settings} {w w₀ : World} {u nonce : Uuid}

/-! ## Reading any window -/

/-- **The items of a feed that is the window of a selection of the posts.** -/
theorem window_items {s : PostRow → Bool} {cap : Nat}
    (hfeed : w.feedSet u = top cap (entrySet (w.db.posts.filter s)))
    (hhash : ∀ p ∈ w.db.posts, p.entry ∈ w.feedSet u →
      w.redis.posts p.id = some (rowToPostHash p)) (offset : Nat) {limit : Nat} (hlimit : 1 ≤ limit) :
    (pageIds w u offset limit).filterMap (itemOf w)
      = (((((w.db.posts.filter s).insertionSort Newer).take cap).drop offset).take limit).map
          itemOfRow := by
  have hmem : ∀ p, p ∈ ((w.db.posts.filter s).insertionSort Newer).take cap ↔
      p ∈ w.db.posts ∧ p.entry ∈ w.feedSet u := by
    intro p
    rw [mem_take_sorted, hfeed]
  have hdesc : ((((w.db.posts.filter s).insertionSort Newer).take cap).map
      PostRow.entry).Pairwise (· > ·) := by
    rw [List.map_take]
    exact (sorted_descending w.db s).sublist (List.take_sublist _ _)
  have hreverse : (w.feed u).entries.reverse
      = (((w.db.posts.filter s).insertionSort Newer).take cap).map PostRow.entry := by
    refine SortedSet.reverse_entries_eq (hdesc.imp fun hgt => hgt.le)
      (hdesc.imp fun hgt => hgt.ne') fun e => ?_
    rw [List.mem_map]
    constructor
    · intro he
      have hset : e ∈ w.feedSet u := List.mem_toFinset.mpr he
      have htop := hset
      rw [hfeed] at htop
      obtain ⟨p, hp, rfl⟩ := mem_entrySet.mp (top_subset _ _ htop)
      exact ⟨p, (hmem p).mpr ⟨List.mem_of_mem_filter hp, hset⟩, rfl⟩
    · rintro ⟨p, hp, rfl⟩
      exact List.mem_toFinset.mp ((hmem p).mp hp).2
  have hmembers : w.members u
      = (((w.db.posts.filter s).insertionSort Newer).take cap).map PostRow.id := by
    unfold World.members
    rw [hreverse, List.map_map]
    rfl
  rw [pageIds_eq w u offset hlimit, hmembers, page, ← List.map_drop, ← List.map_take,
    List.filterMap_map, ← List.filterMap_eq_map]
  refine List.filterMap_congr fun p hp => ?_
  have hp' := (hmem p).mp (List.mem_of_mem_drop (List.mem_of_mem_take hp))
  exact itemOf_row (hhash p hp'.1 hp'.2)

/-- A whole window. -/
theorem window_page {s : PostRow → Bool} {cap : Nat}
    (hfeed : w.feedSet u = top cap (entrySet (w.db.posts.filter s)))
    (hhash : ∀ p ∈ w.db.posts, p.entry ∈ w.feedSet u →
      w.redis.posts p.id = some (rowToPostHash p)) :
    (pageIds w u 0 cap).filterMap (itemOf w)
      = (((w.db.posts.filter s).insertionSort Newer).take cap).map itemOfRow := by
  rcases Nat.eq_zero_or_pos cap with rfl | hcap
  · -- `ZREVRANGE 0 -1` is the whole feed, which is empty
    have hempty : pageIds w u 0 0 = [] := by
      rw [List.eq_nil_iff_forall_not_mem]
      intro m hm
      obtain ⟨e, he, -⟩ := exists_entry_of_mem_pageIds hm
      have hset : e ∈ w.feedSet u := List.mem_toFinset.mpr he
      rw [hfeed, top_zero] at hset
      exact Finset.notMem_empty _ hset
    rw [hempty]
    rfl
  · rw [window_items hfeed hhash 0 hcap, List.drop_zero, List.take_take, min_self]

/-! ## What the calls fill in -/

/-- A new post by a friend of the user, or a new friend of theirs. -/
def Call.Fills (u : Uuid) (w : World) : Call → Prop
  | .createPost user _ _ _ => w.db.Follows u user
  | .setFriend user _ => user = u
  | _ => False

/-- The users that the calls name as friends. -/
def namedFriends (calls : List Call) : List Uuid :=
  calls.filterMap fun c =>
    match c with
    | .setFriend _ friend => some friend
    | _ => none

/-- The calls write the post: it is new, or by a user they name as a friend. -/
def Filled (w₀ : World) (calls : List Call) (p : PostRow) : Prop :=
  p ∉ w₀.db.posts ∨ (p.authorId ∈ namedFriends calls ∧ p.authorId ∈ w₀.db.users)

instance (w₀ : World) (calls : List Call) : DecidablePred (Filled w₀ calls) :=
  fun _ => inferInstanceAs (Decidable (_ ∨ (_ ∧ _)))

/-- The posts of friends that the calls wrote. -/
def filledPosts (w₀ : World) (calls : List Call) (db : Database) (u : Uuid) : List PostRow :=
  db.posts.filter fun p => db.Follows u p.authorId ∧ Filled w₀ calls p

theorem mem_filledPosts {calls : List Call} {db : Database} {p : PostRow} :
    p ∈ filledPosts w₀ calls db u ↔
      p ∈ db.posts ∧ db.Follows u p.authorId ∧ Filled w₀ calls p := by
  simp [filledPosts]

/-- The feed is the window of the posts that were written since the key went missing. -/
structure Filling (cfg : Settings) (w₀ : World) (u nonce : Uuid) (calls : List Call) (w : World) :
    Prop where
  temp : w.redis.zsets (.rebuild u nonce) = SortedSet.empty
  users : w.db.users = w₀.db.users
  posts : ∀ p ∈ w₀.db.posts, p ∈ w.db.posts
  feed : w.feedSet u = top cfg.feedMaxSize (entrySet (filledPosts w₀ calls w.db u))
  hashes : ∀ p ∈ w.db.posts, p.entry ∈ w.feedSet u → w.redis.posts p.id = some (rowToPostHash p)

theorem feedSet_of_absent (h : (w.feed u).exists = false) : w.feedSet u = ∅ := by
  unfold World.feedSet
  rw [List.toFinset_eq_empty_iff]
  by_contra hne
  obtain ⟨e, he⟩ := List.exists_mem_of_ne_nil _ hne
  exact Bool.false_ne_true (h.symm.trans (SortedSet.exists_iff.mpr ⟨e, he⟩))

theorem filling_initial (cfg : Settings) (habsent : (w₀.feed u).exists = false)
    (htemp : w₀.redis.zsets (.rebuild u nonce) = SortedSet.empty) : Filling cfg w₀ u nonce [] w₀ where
  temp := htemp
  users := rfl
  posts _ hp := hp
  feed := by
    have hnone : filledPosts w₀ [] w₀.db u = [] := by
      rw [List.eq_nil_iff_forall_not_mem]
      intro p hp
      obtain ⟨hmem, -, hnew | ⟨hnamed, -⟩⟩ := mem_filledPosts.mp hp
      · exact hnew hmem
      · exact List.not_mem_nil hnamed
    rw [hnone, feedSet_of_absent habsent]
    rfl
  hashes p hp he := by
    rw [feedSet_of_absent habsent] at he
    exact absurd he (Finset.notMem_empty _)

theorem namedFriends_append (calls : List Call) (c : Call) :
    namedFriends (calls ++ [c]) = namedFriends calls ++ namedFriends [c] := by
  simp [namedFriends]

/-- The entries of a feed that is being filled are those of posts. -/
theorem Filling.mem_feed {calls : List Call} (h : Filling cfg w₀ u nonce calls w)
    {e : Entry DateTime Uuid} (he : e ∈ w.feedSet u) : ∃ p ∈ w.db.posts, p.entry = e := by
  rw [h.feed] at he
  obtain ⟨p, hp, rfl⟩ := mem_entrySet.mp (top_subset _ _ he)
  exact ⟨p, (mem_filledPosts.mp hp).1, rfl⟩

/-- A new post by a friend. -/
theorem Filling.created (hsync : Synchronous cfg) {calls : List Call}
    (h : Filling cfg w₀ u nonce calls w) {db : Database} {row : PostRow}
    (husers : db.users = w.db.users) (hposts : db.posts = w.db.posts ++ [row])
    (hfriends : db.friendships = w.db.friendships) (text : String) (id : Uuid) (now : DateTime)
    (hfollows : w.db.Follows u row.authorId) :
    Filling cfg w₀ u nonce (calls ++ [.createPost row.authorId text id now])
      (((w.withDb db).setPost row.id (some (rowToPostHash row))).announcedCreated cfg row.authorId
        text row) := by
  have hnewId : ∀ p ∈ w.db.posts, p.id ≠ row.id := Database.ne_id_of_append hposts
  have hsame : ∀ v a, db.Follows v a ↔ w.db.Follows v a := Database.follows_congr hfriends
  have hafter : ((w.withDb db).setPost row.id (some (rowToPostHash row))).announcedCreated cfg
      row.authorId text row
        = ((w.withDb db).setPost row.id (some (rowToPostHash row))).mapFeeds
            (db.followers row.authorId) (pushed cfg.feedMaxSize row.createdAt row.id) :=
    announcedCreated_synchronous hsync _ _ _ _
  have hfilled : ∀ p, Filled w₀ (calls ++ [.createPost row.authorId text id now]) p ↔
      Filled w₀ calls p := by
    intro p
    unfold Filled
    rw [namedFriends_append]
    simp [namedFriends]
  have hset : entrySet (filledPosts w₀ (calls ++ [.createPost row.authorId text id now]) db u)
      = insert row.entry (entrySet (filledPosts w₀ calls w.db u)) := by
    ext e
    simp only [mem_entrySet, mem_filledPosts, Finset.mem_insert, hposts, hsame, hfilled,
      List.mem_append, List.mem_singleton]
    constructor
    · rintro ⟨p, ⟨hp | rfl, hrest⟩, rfl⟩
      · exact Or.inr ⟨p, ⟨hp, hrest⟩, rfl⟩
      · exact Or.inl rfl
    · rintro (rfl | ⟨p, ⟨hp, hrest⟩, rfl⟩)
      · -- the id of the row was free
        refine ⟨row, ⟨Or.inr rfl, hfollows, Or.inl fun hold => ?_⟩, rfl⟩
        exact hnewId row (h.posts row hold) rfl
      · exact ⟨p, ⟨Or.inl hp, hrest⟩, rfl⟩
  have hfollower : u ∈ db.followers row.authorId :=
    Database.mem_followers.mpr ((hsame u _).mpr hfollows)
  have hfeed : (((w.withDb db).setPost row.id (some (rowToPostHash row))).mapFeeds
      (db.followers row.authorId) (pushed cfg.feedMaxSize row.createdAt row.id)).feedSet u
        = top cfg.feedMaxSize (insert row.entry (w.feedSet u)) := by
    show (World.feed _ u).entries.toFinset = _
    rw [World.feed_mapFeeds, if_pos hfollower]
    refine toFinset_pushed fun e he => ?_
    obtain ⟨p, hp, rfl⟩ := h.mem_feed (List.mem_toFinset.mpr he)
    exact hnewId p hp
  rw [hafter]
  refine
    { temp := h.temp
      users := husers.trans h.users
      posts := fun p hp => ?_
      feed := ?_
      hashes := fun p hp he => ?_ }
  · show p ∈ db.posts
    rw [hposts]
    exact List.mem_append_left _ (h.posts p hp)
  · show _ = top cfg.feedMaxSize (entrySet (filledPosts w₀ _ db u))
    rw [hfeed, hset, h.feed, top_insert_top]
  · change p ∈ db.posts at hp
    rw [hposts] at hp
    rw [hfeed] at he
    show Function.update w.redis.posts row.id (some (rowToPostHash row)) p.id = _
    rcases List.mem_append.mp hp with hold | hnew
    · rw [Function.update_of_ne (hnewId p hold)]
      rcases Finset.mem_insert.mp (top_subset _ _ he) with heq | hmem
      · exact absurd (congrArg Entry.member heq) (hnewId p hold)
      · exact h.hashes p hold hmem
    · rw [List.mem_singleton.mp hnew, Function.update_self]

/-- The posts of a friend that the user named. -/
theorem Filling.befriended (order : RowOrder) {calls : List Call}
    (h : Filling cfg w₀ u nonce calls w) {db : Database} {friend : Uuid}
    (hfriend : friend ∈ w.db.users) (husers : db.users = w.db.users)
    (hposts : db.posts = w.db.posts)
    (hfollows : ∀ v a, db.Follows v a ↔ w.db.Follows v a ∨ (v = u ∧ a = friend))
    (hfit : DistinctTimes db ∨ (friendPosts db u).length ≤ cfg.feedMaxSize) :
    Filling cfg w₀ u nonce (calls ++ [.setFriend u friend])
      ((w.withDb db).befriended order cfg u friend) := by
  have hwindow : entrySet (db.recentPosts order [friend] cfg.feedMaxSize)
      = top cfg.feedMaxSize (entrySet (db.posts.filter fun p => p.authorId = friend)) := by
    exact entrySet_recentPosts_of_follows ((hfollows u friend).mpr (Or.inr ⟨rfl, rfl⟩)) hfit
  have hset : entrySet (filledPosts w₀ (calls ++ [.setFriend u friend]) db u)
      = entrySet (filledPosts w₀ calls w.db u)
        ∪ entrySet (db.posts.filter fun p => p.authorId = friend) := by
    ext e
    simp only [mem_entrySet, mem_filledPosts, Finset.mem_union, List.mem_filter, hposts, hfollows,
      decide_eq_true_eq, true_and]
    constructor
    · rintro ⟨p, ⟨hp, hf, hfill⟩, rfl⟩
      by_cases hauthor : p.authorId = friend
      · exact Or.inr ⟨p, ⟨hp, hauthor⟩, rfl⟩
      · refine Or.inl ⟨p, ⟨hp, hf.resolve_right hauthor, ?_⟩, rfl⟩
        refine hfill.imp_right fun hnamed => ⟨?_, hnamed.2⟩
        have hmem := hnamed.1
        rw [namedFriends_append, List.mem_append] at hmem
        exact hmem.resolve_right fun hlast => hauthor (List.mem_singleton.mp hlast)
    · rintro (⟨p, ⟨hp, hf, hfill⟩, rfl⟩ | ⟨p, ⟨hp, hauthor⟩, rfl⟩)
      · refine ⟨p, ⟨hp, Or.inl hf, hfill.imp_right fun hnamed => ⟨?_, hnamed.2⟩⟩, rfl⟩
        rw [namedFriends_append]
        exact List.mem_append_left _ hnamed.1
      · refine ⟨p, ⟨hp, Or.inr hauthor, Or.inr ⟨?_, ?_⟩⟩, rfl⟩
        · rw [namedFriends_append, hauthor]
          exact List.mem_append_right _ List.mem_cons_self
        · rwa [hauthor, ← h.users]
  have hmerged : top cfg.feedMaxSize (w.feedSet u
      ∪ entrySet (db.recentPosts order [friend] cfg.feedMaxSize))
        = top cfg.feedMaxSize (entrySet (filledPosts w₀ (calls ++ [.setFriend u friend]) db u)) := by
    rw [h.feed, hwindow, top_union_top, hset]
  have hcap : (w.feedSet u).card ≤ cfg.feedMaxSize := by
    rw [h.feed, card_top]
    exact Nat.min_le_left _ _
  have hrows : ∀ e ∈ (w.feed u).entries, ∃ q ∈ db.posts, q.entry = e := by
    intro e he
    obtain ⟨q, hq, heq⟩ := h.mem_feed (List.mem_toFinset.mpr he)
    exact ⟨q, hposts ▸ hq, heq⟩
  have hfeed : ((w.withDb db).befriended order cfg u friend).feedSet u
      = top cfg.feedMaxSize (w.feedSet u
        ∪ entrySet (db.recentPosts order [friend] cfg.feedMaxSize)) :=
    feedSet_befriended (w := w.withDb db) hcap hrows
  refine
    { temp := ?_
      users := ?_
      posts := fun p hp => ?_
      feed := ?_
      hashes := fun p hp he => ?_ }
  · rw [World.befriended_temp]
    exact h.temp
  · rw [World.befriended_db]
    exact husers.trans h.users
  · rw [World.befriended_db]
    exact hposts ▸ h.posts p hp
  · rw [World.befriended_db]
    exact hfeed.trans hmerged
  · rw [World.befriended_db] at hp
    rw [hfeed] at he
    refine posts_befriended hp ?_
    rcases Finset.mem_union.mp (top_subset _ _ he) with hold | hrow
    · exact Or.inl (h.hashes p (hposts ▸ hp) hold)
    · obtain ⟨r, hr, heq⟩ := mem_entrySet.mp hrow
      obtain rfl := db.eq_of_id_eq (Database.mem_recentPosts_of_mem hr).1 hp
        (congrArg Entry.member heq)
      exact Or.inr hr

/-- A call that raised wrote nothing, and named nobody who is followed. -/
theorem Filling.raised {calls : List Call} (h : Filling cfg w₀ u nonce calls w) {c : Call}
    (hnamed : ∀ a ∈ namedFriends [c], a ∈ w.db.users → ¬ w.db.Follows u a) :
    Filling cfg w₀ u nonce (calls ++ [c]) w := by
  have hsame : filledPosts w₀ (calls ++ [c]) w.db u = filledPosts w₀ calls w.db u := by
    refine List.filter_congr fun p _ => decide_eq_decide.mpr (and_congr_right fun hf => ?_)
    unfold Filled
    rw [namedFriends_append, List.mem_append]
    refine or_congr_right ⟨fun hmem => ⟨hmem.1.resolve_right fun hlast => ?_, hmem.2⟩, fun hmem =>
      ⟨Or.inl hmem.1, hmem.2⟩⟩
    exact hnamed _ hlast (h.users ▸ hmem.2) hf
  exact
    { temp := h.temp
      users := h.users
      posts := h.posts
      feed := by rw [hsame]; exact h.feed
      hashes := h.hashes }

/-- **The step lemma.** -/
theorem Filling.step (order : RowOrder) (hsync : Synchronous cfg) {calls : List Call}
    (h : Filling cfg w₀ u nonce calls w) {c : Call} (hc : c.Fills u w)
    (hfit : DistinctTimes (w.after order cfg c).db ∨
      (friendPosts (w.after order cfg c).db u).length ≤ cfg.feedMaxSize) :
    Filling cfg w₀ u nonce (calls ++ [c]) (w.after order cfg c) := by
  cases c with
  | createPost user text id now =>
      rcases run_createPost_cases order cfg user text id now w with
        ⟨e, hrun⟩ | ⟨db, husers, hposts, hfriends, hrun⟩
      · rw [after_eq hrun]
        exact h.raised fun a ha => absurd ha List.not_mem_nil
      · rw [after_eq hrun]
        exact h.created hsync husers hposts hfriends text id now hc
  | setFriend user friend =>
      obtain rfl : user = u := hc
      rcases run_setFriend_cases order cfg user friend w with
        ⟨e, hnot, hrun⟩ | ⟨db, hfriend, husers, hposts, hfollows, hrun⟩
      · rw [after_eq hrun]
        refine h.raised fun a ha husers => ?_
        obtain rfl := List.mem_singleton.mp ha
        exact hnot husers
      · rw [after_eq hrun] at hfit ⊢
        refine h.befriended order hfriend husers hposts hfollows ?_
        rw [World.befriended_db] at hfit
        exact hfit
  | updatePost user id text => exact absurd hc fun h => h
  | deletePost user id now => exact absurd hc fun h => h
  | deleteFriend user friend => exact absurd hc fun h => h
  | rebuildFeed user nonce => exact absurd hc fun h => h
  | getFeed user nonce offset limit => exact absurd hc fun h => h

/-- **The run lemma.** -/
theorem filling_run (order : RowOrder) (hsync : Synchronous cfg)
    (habsent : (w₀.feed u).exists = false)
    (htemp : w₀.redis.zsets (.rebuild u nonce) = SortedSet.empty) (calls : List Call)
    (hcalls : ∀ pre c, pre ++ [c] <+: calls → c.Fills u (w₀.afterAll order cfg pre))
    (hfit : ∀ pre, pre <+: calls → DistinctTimes (w₀.afterAll order cfg pre).db ∨
      (friendPosts (w₀.afterAll order cfg pre).db u).length ≤ cfg.feedMaxSize) :
    ∀ pre, pre <+: calls → Filling cfg w₀ u nonce pre (w₀.afterAll order cfg pre) := by
  intro pre
  induction pre using List.reverseRecOn with
  | nil => exact fun _ => filling_initial cfg habsent htemp
  | append_singleton pre c ih =>
      intro hpre
      have hfit' := hfit _ hpre
      rw [afterAll_append] at hfit' ⊢
      exact (ih ((List.prefix_append pre [c]).trans hpre)).step order hsync (hcalls pre c hpre) hfit'

/-! ## The next read -/

/-- The next read shows the newest posts of the friends. -/
def ReadsNewest (order : RowOrder) (cfg : Settings) (w : World) (u nonce : Uuid) : Prop :=
  ((readFeed cfg nonce u 0 cfg.feedMaxSize).run (exec order) w).1
    = .ok (((sortedPosts w.db u).take cfg.feedMaxSize).map itemOfRow)

/-- A feed that was not filled is rebuilt. -/
theorem readsNewest_of_absent (order : RowOrder) (habsent : (w.feed u).exists = false)
    (htemp : w.redis.zsets (.rebuild u nonce) = SortedSet.empty)
    (hfit : DistinctTimes w.db ∨ (friendPosts w.db u).length ≤ cfg.feedMaxSize) :
    ReadsNewest order cfg w u nonce := by
  have hopened : w.opened order cfg u = w.rebuilt u (rebuildRows order cfg w u) := by
    rw [World.opened, habsent]
    rfl
  have hids : ((rebuildRows order cfg w u).map PostRow.id).Nodup :=
    Database.recentFriendPosts_nodup w.db order u cfg.feedMaxSize
  have hfeed := feedSet_rebuilt order cfg w u hfit u
  rw [if_pos rfl] at hfeed
  have hhash : ∀ p ∈ (w.rebuilt u (rebuildRows order cfg w u)).db.posts,
      p.entry ∈ (w.rebuilt u (rebuildRows order cfg w u)).feedSet u →
        (w.rebuilt u (rebuildRows order cfg w u)).redis.posts p.id = some (rowToPostHash p) := by
    intro p hp he
    have hrows : entrySet (rebuildRows order cfg w u) = newest w.db u cfg.feedMaxSize :=
      entrySet_recentFriendPosts cfg.feedMaxSize hfit
    rw [hfeed, ← hrows] at he
    obtain ⟨r, hr, heq⟩ := mem_entrySet.mp he
    obtain rfl := entry_inj (Database.mem_recentFriendPosts_of_mem hr).1 hp heq
    exact PointUpdate.writeAll_of_mem hids hr
  have hitems : (pageIds (w.rebuilt u (rebuildRows order cfg w u)) u 0 cfg.feedMaxSize).filterMap
      (itemOf (w.rebuilt u (rebuildRows order cfg w u)))
        = ((sortedPosts w.db u).take cfg.feedMaxSize).map itemOfRow :=
    window_page (s := fun p => decide (w.db.Follows u p.authorId)) hfeed hhash
  rw [ReadsNewest, run_readFeed order cfg u nonce 0 cfg.feedMaxSize w (fun _ => htemp), hopened,
    hitems]

/-- A feed that was filled is read as it is. -/
theorem Filling.readsNewest_iff (order : RowOrder) {calls : List Call}
    (h : Filling cfg w₀ u nonce calls w) (hexists : (w.feed u).exists = true) :
    ReadsNewest order cfg w u nonce ↔
      ∀ p ∈ friendPosts w.db u, p.entry ∈ newest w.db u cfg.feedMaxSize → Filled w₀ calls p := by
  have hopened : w.opened order cfg u = w := by rw [World.opened, if_pos hexists]
  have hfresh : w.Fresh u nonce := fun habsent => absurd hexists (Bool.eq_false_iff.mp habsent)
  have hitems : (pageIds w u 0 cfg.feedMaxSize).filterMap (itemOf w)
      = (((filledPosts w₀ calls w.db u).insertionSort Newer).take cfg.feedMaxSize).map itemOfRow :=
    window_page h.feed h.hashes
  have hsub : entrySet (filledPosts w₀ calls w.db u) ⊆ entrySet (friendPosts w.db u) := by
    intro e he
    obtain ⟨p, hp, rfl⟩ := mem_entrySet.mp he
    obtain ⟨hmem, hfollows, -⟩ := mem_filledPosts.mp hp
    exact mem_entrySet.mpr ⟨p, mem_friendPosts.mpr ⟨hmem, hfollows⟩, rfl⟩
  rw [ReadsNewest, run_readFeed order cfg u nonce 0 cfg.feedMaxSize w hfresh, hopened, hitems]
  constructor
  · intro hread p hp hnewest
    -- the post is shown, and only filled posts are
    have hshown : p ∈ (sortedPosts w.db u).take cfg.feedMaxSize :=
      mem_take_sorted.mpr ⟨(mem_friendPosts.mp hp).1, hnewest⟩
    have hitem := List.mem_map_of_mem (f := itemOfRow) hshown
    rw [← Except.ok.inj hread] at hitem
    obtain ⟨q, hq, heq⟩ := List.mem_map.mp hitem
    have hq' := (List.mem_insertionSort _).mp (List.mem_of_mem_take hq)
    obtain ⟨hmem, -, hfilled⟩ := mem_filledPosts.mp hq'
    obtain rfl := w.db.eq_of_id_eq hmem (mem_friendPosts.mp hp).1 (congrArg FeedItem.id heq)
    exact hfilled
  · intro hfilled
    have htop : newest w.db u cfg.feedMaxSize ⊆ entrySet (filledPosts w₀ calls w.db u) := by
      intro e he
      obtain ⟨p, hp, hfollows, rfl⟩ := mem_newest he
      have hfill := hfilled p (mem_friendPosts.mpr ⟨hp, hfollows⟩) he
      exact mem_entrySet.mpr ⟨p, mem_filledPosts.mpr ⟨hp, hfollows, hfill⟩, rfl⟩
    have hsame := top_eq_of_between htop hsub
    refine congrArg (fun l => Except.ok (List.map itemOfRow l)) ?_
    refine take_sorted_ext fun p => ?_
    have hleft : p ∈ ((filledPosts w₀ calls w.db u).insertionSort Newer).take cfg.feedMaxSize ↔
        p ∈ w.db.posts ∧ p.entry ∈ top cfg.feedMaxSize (entrySet (filledPosts w₀ calls w.db u)) :=
      mem_take_sorted
    have hright : p ∈ (sortedPosts w.db u).take cfg.feedMaxSize ↔
        p ∈ w.db.posts ∧ p.entry ∈ top cfg.feedMaxSize (entrySet (friendPosts w.db u)) :=
      mem_take_sorted
    rw [hsame] at hleft
    exact hleft.trans hright.symm

/-- **A missing feed is answered by a rebuild exactly when the calls before the read wrote nothing into
it**, or wrote all of the newest posts. -/
theorem missing_key_iff (order : RowOrder) (cfg : Settings) (hsync : Synchronous cfg) (w₀ : World)
    (u nonce : Uuid) (habsent : (w₀.feed u).exists = false)
    (htemp : w₀.redis.zsets (.rebuild u nonce) = SortedSet.empty) (calls : List Call)
    (hcalls : ∀ pre c, pre ++ [c] <+: calls → c.Fills u (w₀.afterAll order cfg pre))
    (hfit : ∀ pre, pre <+: calls → DistinctTimes (w₀.afterAll order cfg pre).db ∨
      (friendPosts (w₀.afterAll order cfg pre).db u).length ≤ cfg.feedMaxSize) :
    ReadsNewest order cfg (w₀.afterAll order cfg calls) u nonce ↔
      (∀ p ∈ friendPosts (w₀.afterAll order cfg calls).db u, ¬ Filled w₀ calls p) ∨
      ∀ p ∈ friendPosts (w₀.afterAll order cfg calls).db u,
        p.entry ∈ newest (w₀.afterAll order cfg calls).db u cfg.feedMaxSize → Filled w₀ calls p := by
  have h := filling_run order hsync habsent htemp calls hcalls hfit calls (List.prefix_refl _)
  have hfit' := hfit calls (List.prefix_refl _)
  by_cases hexists : ((w₀.afterAll order cfg calls).feed u).exists = true
  · rw [h.readsNewest_iff order hexists]
    refine ⟨Or.inr, fun hor => hor.elim (fun hnone => ?_) id⟩
    -- something is in the feed, so something was filled in
    obtain ⟨e, he⟩ := SortedSet.exists_iff.mp hexists
    have hset : e ∈ (w₀.afterAll order cfg calls).feedSet u := List.mem_toFinset.mpr he
    rw [h.feed] at hset
    obtain ⟨p, hp, -⟩ := mem_entrySet.mp (top_subset _ _ hset)
    obtain ⟨hmem, hfollows, hfilled⟩ := mem_filledPosts.mp hp
    exact absurd hfilled (hnone p (mem_friendPosts.mpr ⟨hmem, hfollows⟩))
  · have habsent' := Bool.eq_false_iff.mpr hexists
    refine ⟨fun _ => ?_, fun _ => readsNewest_of_absent order habsent' h.temp hfit'⟩
    have hempty := h.feed
    rw [feedSet_of_absent habsent'] at hempty
    have hcard := congrArg Finset.card hempty
    rw [Finset.card_empty, card_top] at hcard
    rcases Nat.eq_zero_or_pos cfg.feedMaxSize with hzero | hpos
    · right
      intro p _ hnewest
      rw [hzero, newest, top_zero] at hnewest
      exact absurd hnewest (Finset.notMem_empty _)
    · left
      intro p hp hfilled
      have hmem : p.entry ∈ entrySet (filledPosts w₀ calls (w₀.afterAll order cfg calls).db u) :=
        mem_entrySet.mpr ⟨p, mem_filledPosts.mpr ⟨(mem_friendPosts.mp hp).1,
          (mem_friendPosts.mp hp).2, hfilled⟩, rfl⟩
      have hpos' := Finset.card_pos.mpr ⟨_, hmem⟩
      omega

/-- User 1 follows user 2, who has a post, and Redis has been flushed. -/
def flushed : World :=
  { (World.ofUsers [.ofNat 1, .ofNat 2]).afterAll someOrder {}
      [.setFriend (.ofNat 1) (.ofNat 2),
        .createPost (.ofNat 2) "a" (.ofNat 11) (noonOf 1 first_day)] with
    redis := Redis.empty }

/-- User 2 writes another post. -/
def anotherPost : List Call :=
  [.createPost (.ofNat 2) "b" (.ofNat 12) (noonOf 2 second_day)]

theorem anotherPost_fills : ∀ pre c, pre ++ [c] <+: anotherPost →
    c.Fills (.ofNat 1) (flushed.afterAll someOrder {} pre) := by
  intro pre c hpre
  obtain ⟨rfl, rfl⟩ := eq_of_prefix_singleton hpre
  show flushed.db.Follows (.ofNat 1) (.ofNat 2)
  decide +kernel

theorem anotherPost_times : ∀ pre ∈ anotherPost.inits,
    DistinctTimes (flushed.afterAll someOrder {} pre).db := by
  decide +kernel

/-- The new post creates the key, and the old one is hidden. -/
theorem newPost_hides_old :
    ¬ ∀ (cfg : Settings) (w₀ : World) (u nonce : Uuid) (calls : List Call), Synchronous cfg →
      (w₀.feed u).exists = false → w₀.redis.zsets (.rebuild u nonce) = SortedSet.empty →
      (∀ pre c, pre ++ [c] <+: calls → c.Fills u (w₀.afterAll someOrder cfg pre)) →
      (∀ pre, pre <+: calls → DistinctTimes (w₀.afterAll someOrder cfg pre).db) →
        ReadsNewest someOrder cfg (w₀.afterAll someOrder cfg calls) u nonce := by
  intro h
  have hread := h {} flushed (.ofNat 1) (.ofNat 0) anotherPost ⟨by decide, rfl⟩ rfl rfl
    anotherPost_fills fun pre hpre => anotherPost_times pre ((List.mem_inits pre _).mpr hpre)
  have hshown : ((readFeed {} (.ofNat 0) (.ofNat 1) 0 1000).run (exec someOrder)
      (flushed.afterAll someOrder {} anotherPost)).1
        = .ok [⟨.ofNat 12, "b", .ofNat 2, none⟩] := rfl
  have hboth := Except.ok.inj (hshown.symm.trans hread)
  exact absurd (congrArg List.length hboth) (by decide +kernel)

/-- User 2 has a post, nobody follows anybody, and Redis is empty. -/
def unfollowed : World :=
  { (World.ofUsers [.ofNat 1, .ofNat 2]).afterAll someOrder {}
      [.createPost (.ofNat 2) "a" (.ofNat 11) (noonOf 1 first_day)] with
    redis := Redis.empty }

/-- User 1 adds user 2, who writes another post. -/
def followThenPost : List Call :=
  [.setFriend (.ofNat 1) (.ofNat 2),
    .createPost (.ofNat 2) "b" (.ofNat 12) (noonOf 2 second_day)]

theorem followThenPost_times : ∀ pre ∈ followThenPost.inits,
    DistinctTimes (unfollowed.afterAll someOrder {} pre).db := by
  decide +kernel

/-- The key is created by the two calls, and holds the old post beside the new one. -/
theorem missing_key_iff_followThenPost :
    ReadsNewest someOrder {} (unfollowed.afterAll someOrder {} followThenPost) (.ofNat 1) (.ofNat 0) := by
  have hfills : ∀ pre c, pre ++ [c] <+: followThenPost →
      c.Fills (.ofNat 1) (unfollowed.afterAll someOrder {} pre) := by
    intro pre c hpre
    rcases eq_of_prefix_cons hpre with ⟨rfl, rfl⟩ | ⟨pre', rfl, hrest⟩
    · rfl
    · obtain ⟨rfl, rfl⟩ := eq_of_prefix_singleton hrest
      show (unfollowed.afterAll someOrder {} [.setFriend (.ofNat 1) (.ofNat 2)]).db.Follows
        (.ofNat 1) (.ofNat 2)
      decide +kernel
  refine (missing_key_iff someOrder {} ⟨by decide, rfl⟩ unfollowed (.ofNat 1) (.ofNat 0) rfl rfl
    followThenPost hfills fun pre hpre =>
      Or.inl (followThenPost_times pre ((List.mem_inits pre _).mpr hpre))).mpr (Or.inr ?_)
  decide +kernel

end HighLoad.Feed
