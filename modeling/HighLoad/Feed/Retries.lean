/-
# HighLoad.Feed.Retries — handling an event again

Both workers deliver at least once: a handling that raised or crashed is started again from wherever the
first one left the stores, in the middle of a pipeline too. `redelivery_absorbed`: however often that
happens, the handling that ends leaves the stores as it would have left them alone, and the followers
have got its notifications, some of them more than once.
-/
import HighLoad.Feed.Concurrent
import HighLoad.Feed.Hybrid
import HighLoad.Feed.Pagination
import HighLoad.Feed.Window
import HighLoad.Lib.Retry

namespace HighLoad.Feed

open Prog TopN

variable {order : RowOrder} {cfg : Settings} {w w' : World}

/-! ## Pushing twice -/

theorem add_add (z : FeedSet) (t : DateTime) (id : Uuid) : (z.add t id).add t id = z.add t id := by
  refine SortedSet.ext_mem fun e => ?_
  rw [SortedSet.mem_add, SortedSet.mem_add]
  constructor
  · rintro (h | ⟨h, -⟩)
    · exact Or.inl h
    · exact h
  · rintro (h | h)
    · exact Or.inl h
    · exact Or.inr ⟨Or.inr h, h.2⟩

/-- A `ZADD` before the push changes nothing. -/
theorem pushed_add (cap : Nat) (t : DateTime) (id : Uuid) (z : FeedSet) :
    pushed cap t id (z.add t id) = pushed cap t id z := by
  rw [pushed, add_add, ← pushed]

/-- **Pushing a post twice is pushing it once**, also when the trim has removed it. -/
theorem pushed_pushed (cap : Nat) (t : DateTime) (id : Uuid) (z : FeedSet) :
    pushed cap t id (pushed cap t id z) = pushed cap t id z := by
  set A := (z.add t id).entries.toFinset with hA
  have hself : (⟨t, id⟩ : Entry DateTime Uuid) ∈ A := by simp [hA]
  have honly : ∀ e ∈ A, e.member = id → e = ⟨t, id⟩ := by
    intro e he hid
    rcases SortedSet.mem_add.mp (List.mem_toFinset.mp he) with h | h
    · exact h
    · exact absurd hid h.2
  have honce : (pushed cap t id z).entries.toFinset = top cap A := toFinset_trim _ cap
  -- the second `ZADD` puts the entry back
  have hagain : ((pushed cap t id z).add t id).entries.toFinset = insert ⟨t, id⟩ (top cap A) := by
    ext e
    rw [List.mem_toFinset, SortedSet.mem_add, Finset.mem_insert, ← honce, List.mem_toFinset]
    constructor
    · rintro (h | ⟨h, -⟩)
      · exact Or.inl h
      · exact Or.inr h
    · rintro (h | h)
      · exact Or.inl h
      · have hmem : e ∈ A := top_subset cap A (honce ▸ List.mem_toFinset.mpr h)
        by_cases hid : e.member = id
        · exact Or.inl (honly e hmem hid)
        · exact Or.inr ⟨h, hid⟩
  refine feed_eq_iff.mpr ?_
  rw [pushed, toFinset_trim, hagain, top_insert_top, Finset.insert_eq_self.mpr hself, honce]

theorem removeAll_removeAll (z : FeedSet) (ids : List Uuid) :
    (z.removeAll ids).removeAll ids = z.removeAll ids := by
  refine SortedSet.ext_mem fun e => ?_
  rw [SortedSet.mem_removeAll, SortedSet.mem_removeAll]
  exact ⟨fun h => h.1, fun h => ⟨h, h.2⟩⟩

/-! ## Changing the feeds of followers -/

/-- On the way from `w` to `w.mapFeeds users f`: only the feeds of `users` have changed, so that `f` still
leads to the same, and some of `news` have been published. -/
structure Underway (f : FeedSet → FeedSet) (users : List Uuid) (news : List Publication)
    (w w' : World) : Prop where
  db : w'.db = w.db
  stream : w'.stream = w.stream
  posts : w'.redis.posts = w.redis.posts
  celebrity : w'.redis.celebrity = w.redis.celebrity
  temps : ∀ u m, w'.redis.zsets (.rebuild u m) = w.redis.zsets (.rebuild u m)
  feeds : ∀ u ∈ users, f (w'.feed u) = f (w.feed u)
  others : ∀ u, u ∉ users → w'.feed u = w.feed u
  published : ∃ repeated, w'.published = w.published ++ repeated ∧ ∀ p ∈ repeated, p ∈ news

namespace Underway

variable {f : FeedSet → FeedSet} {users : List Uuid} {news : List Publication}

theorem refl (w : World) : Underway f users news w w :=
  ⟨rfl, rfl, rfl, rfl, fun _ _ => rfl, fun _ _ => rfl, fun _ _ => rfl, [], (List.append_nil _).symm,
    fun _ h => absurd h List.not_mem_nil⟩

/-- A write to one of the feeds. -/
theorem modifyZset (h : Underway f users news w w') {u : Uuid} (hu : u ∈ users)
    {g : FeedSet → FeedSet} (hg : ∀ z, f (g z) = f z) :
    Underway f users news w (w'.modifyZset (.feed u) g) where
  db := h.db
  stream := h.stream
  posts := h.posts
  celebrity := h.celebrity
  temps v m := by
    rw [zsets_modifyZset, if_neg (by simp)]
    exact h.temps v m
  feeds v hv := by
    rw [World.feed_modifyZset]
    split_ifs with heq
    · rw [hg, h.feeds v hv]
    · exact h.feeds v hv
  others v hv := by
    have hne : v ≠ u := fun heq => hv (heq.symm ▸ hu)
    rw [World.feed_modifyZset, if_neg hne, h.others v hv]
  published := h.published

/-- A publication of one of the news. -/
theorem publish (h : Underway f users news w w') {p : Publication} (hp : p ∈ news) :
    Underway f users news w { w' with published := w'.published ++ [p] } where
  db := h.db
  stream := h.stream
  posts := h.posts
  celebrity := h.celebrity
  temps := h.temps
  feeds := h.feeds
  others := h.others
  published := by
    obtain ⟨repeated, heq, hnews⟩ := h.published
    refine ⟨repeated ++ [p], ?_, ?_⟩
    · show w'.published ++ [p] = _
      rw [heq, List.append_assoc]
    · exact List.forall_mem_append.mpr ⟨hnews, List.forall_mem_singleton.mpr hp⟩

/-- The way leads to the same world. -/
theorem mapFeeds_eq (h : Underway f users news w w') :
    w'.mapFeeds users f = { w.mapFeeds users f with published := w'.published } := by
  refine World.ext h.db (Redis.ext (funext fun key => ?_) h.posts h.celebrity) h.stream rfl
  cases key with
  | feed u =>
      show (w'.mapFeeds users f).feed u = (w.mapFeeds users f).feed u
      rw [World.feed_mapFeeds, World.feed_mapFeeds]
      split_ifs with hu
      · exact h.feeds u hu
      · exact h.others u hu
  | rebuild u m => exact h.temps u m

/-- The last world is on the way, if `f` may be applied twice. -/
theorem of_mapFeeds (h : Underway f users news w w') (hf : ∀ z, f (f z) = f z) :
    Underway f users news w (w'.mapFeeds users f) where
  db := h.db
  stream := h.stream
  posts := h.posts
  celebrity := h.celebrity
  temps := h.temps
  feeds u hu := by
    rw [World.feed_mapFeeds, if_pos hu, hf, h.feeds u hu]
  others u hu := by
    rw [World.feed_mapFeeds, if_neg hu, h.others u hu]
  published := h.published

end Underway

/-- A fan-out is underway at all of its commands. -/
theorem along_fanOutPost {users : List Uuid} {news : List Publication} {id author : Uuid} {t : DateTime}
    (h : Underway (pushed cfg.feedMaxSize t id) users news w w') (husers : users = w'.db.followers author) :
    (fanOutPost cfg id author t).Along (exec order)
      (Underway (pushed cfg.feedMaxSize t id) users news w) w' := by
  unfold fanOutPost
  refine (along_read h rfl).bind_of_ok (run_getFollowers author w') ?_
  rw [← husers]
  split_ifs
  · exact along_pure h
  · have hpipeline : (pipeline (users.flatMap fun u => [.zadd (.feed u) t id, trimFeed cfg.feedMaxSize u])
        : Py (List Unit)).Along (exec order) (Underway (pushed cfg.feedMaxSize t id) users news w) w' := by
      refine along_pipeline (f := fun c w => effect order w c) (fun c hc w => ?_) fun pre hpre =>
        foldl_blocks (fun u hu w₁ hw₁ block hblock => ?_) h hpre
      · obtain ⟨u, -, hc⟩ := List.mem_flatMap.mp hc
        simp only [List.mem_cons, List.not_mem_nil, or_false] at hc
        rcases hc with rfl | rfl <;> rfl
      · -- nothing, the `ZADD`, or the trim behind it
        rcases List.prefix_cons_iff.mp hblock with rfl | ⟨rest, rfl, hrest⟩
        · exact hw₁
        · rcases List.prefix_cons_iff.mp hrest with rfl | ⟨rest', rfl, hrest'⟩
          · exact hw₁.modifyZset hu (pushed_add cfg.feedMaxSize t id)
          · obtain rfl := List.prefix_nil.mp hrest'
            have hboth : (w₁.modifyZset (.feed u) fun z => z.add t id).modifyZset (.feed u)
                (fun z => z.removeRangeByRank 0 (-((cfg.feedMaxSize : Int) + 1)))
                  = w₁.modifyZset (.feed u) (pushed cfg.feedMaxSize t id) :=
              World.modifyZset_modifyZset ..
            have hpushed := hw₁.modifyZset hu (pushed_pushed cfg.feedMaxSize t id)
            rw [← hboth] at hpushed
            exact hpushed
    exact hpipeline.bind fun _ _ => along_pure hpipeline.last

/-- So is a removal. -/
theorem along_removePostFromAllFeeds {users : List Uuid} {news : List Publication} {id author : Uuid}
    (h : Underway (fun z => z.removeAll [id]) users news w w') (husers : users = w'.db.followers author) :
    (removePostFromAllFeeds id author).Along (exec order)
      (Underway (fun z => z.removeAll [id]) users news w) w' := by
  unfold removePostFromAllFeeds
  refine (along_read h rfl).bind_of_ok (run_getFollowers author w') ?_
  rw [← husers]
  split_ifs
  · exact along_pure h
  · have hpipeline : (pipeline (users.map fun u => .zrem (.feed u) [id]) : Py (List Unit)).Along (exec order)
        (Underway (fun z => z.removeAll [id]) users news w) w' := by
      refine along_pipeline (f := fun c w => effect order w c) (fun c hc w => ?_) fun pre hpre =>
        List.foldlRecOn pre _ h fun w₁ hw₁ c hc => ?_
      · obtain ⟨u, -, rfl⟩ := List.mem_map.mp hc
        rfl
      · obtain ⟨u, hu, rfl⟩ := List.mem_map.mp (hpre.subset hc)
        exact hw₁.modifyZset hu fun z => removeAll_removeAll z [id]
    exact hpipeline.bind fun _ _ => along_pure hpipeline.last

/-- And the notifications behind a fan-out. -/
theorem along_notifyFollowers {f : FeedSet → FeedSet} {users : List Uuid} {body : PostEvent}
    (h : Underway f users (w'.notifications cfg body) w w') :
    (notifyFollowers cfg body).Along (exec order) (Underway f users (w'.notifications cfg body) w) w' := by
  unfold notifyFollowers
  refine (along_read h rfl).bind_of_ok (run_getFollowers body.authorId w') ?_
  split_ifs
  · exact along_pure h
  · have htext : (notificationText body).Along (exec order)
        (Underway f users (w'.notifications cfg body) w) w' := by
      unfold notificationText
      split_ifs
      · exact along_pure h
      · exact (along_read h rfl).bind_of_ok rfl (along_pure h)
    refine htext.bind_of_ok (run_notificationText body w') ?_
    have hpipeline : (pipeline ((w'.db.followers body.authorId).map
        (publishWsEvent cfg (postNew body (w'.notifiedText body)))) : Py (List Unit)).Along (exec order)
          (Underway f users (w'.notifications cfg body) w) w' := by
      refine along_pipeline (f := fun c w => effect order w c) (fun c hc w => ?_) fun pre hpre =>
        List.foldlRecOn pre _ h fun w₁ hw₁ c hc => ?_
      · obtain ⟨u, -, rfl⟩ := List.mem_map.mp hc
        rfl
      · obtain ⟨u, hu, rfl⟩ := List.mem_map.mp (hpre.subset hc)
        exact hw₁.publish (List.mem_map.mpr ⟨u, hu, rfl⟩)
    exact hpipeline.bind fun _ _ => along_pure hpipeline.last

/-! ## A created event -/

theorem along_storeBody (body : PostEvent) (w : World) :
    (storeBody body).Along (exec order) (fun w' => w' = w ∨ w' = w.storedBody body) w := by
  unfold storeBody World.storedBody
  split_ifs
  · unfold storePostHash
    have hpipeline : (pipeline [.hset body.postId ⟨body.bodyText, body.authorId, body.createdAt.isoformat⟩,
        .expire body.postId postHashTtlSeconds] : Py (List Unit)).Along (exec order)
          (fun w' => w' = w ∨
            w' = w.setPost body.postId (some ⟨body.bodyText, body.authorId, body.createdAt.isoformat⟩)) w := by
      refine along_pipeline (f := fun c w => effect order w c) (fun c hc w => ?_) fun pre hpre => ?_
      · simp only [List.mem_cons, List.not_mem_nil, or_false] at hc
        rcases hc with rfl | rfl <;> rfl
      · rcases List.prefix_cons_iff.mp hpre with rfl | ⟨rest, rfl, hrest⟩
        · exact Or.inl rfl
        · rcases List.prefix_cons_iff.mp hrest with rfl | ⟨rest', rfl, hrest'⟩
          · exact Or.inr rfl
          · obtain rfl := List.prefix_nil.mp hrest'
            exact Or.inr rfl
    exact hpipeline.bind fun _ _ => along_pure hpipeline.last
  · exact along_pure (Or.inl rfl)

theorem along_isCelebrity (author : Uuid) (w : World) :
    (isCelebrity cfg author).Along (exec order) (fun w' => w' = w ∨ w' = w.flagged cfg [author]) w := by
  have hlast : ((isCelebrity cfg author).run (exec order) w).2 = w.flagged cfg [author] := by
    rw [run_isCelebrity]
  have hget : (call (.get author) : Py (Option RedisValue)).run (exec order) w
      = (.ok (w.redis.celebrity author), w) := rfl
  have hcount : (followersCount author).run (exec order) w = (.ok (w.db.countFollowers author), w) := rfl
  unfold isCelebrity at hlast ⊢
  refine Along.bind_of_ok (along_read (Or.inl rfl) rfl) hget ?_
  cases hcached : w.redis.celebrity author with
  | some v => exact along_pure (Or.inl rfl)
  | none =>
      rw [run_bind_of_ok hget, hcached] at hlast
      refine Along.bind_of_ok (along_read (Or.inl rfl) rfl) hcount ?_
      have hset : (call (.set author
          (flagValue (decide (cfg.celebrityFollowersThreshold ≤ (w.db.countFollowers author : Int))))
          cfg.celebrityCacheTtl) : Py Unit).Along (exec order)
            (fun w' => w' = w ∨ w' = w.flagged cfg [author]) w :=
        along_call (Or.inl rfl) (Or.inr hlast)
      exact hset.bind fun _ _ => along_pure hset.last

/-- Storing the body again changes nothing. -/
theorem storedBody_eq_self {body : PostEvent} (h : w'.redis.posts = (w.storedBody body).redis.posts) :
    w'.storedBody body = w' := by
  unfold World.storedBody at h ⊢
  split_ifs at h ⊢ with htext
  · have hpost : w'.redis.posts body.postId
        = some ⟨body.bodyText, body.authorId, body.createdAt.isoformat⟩ := by
      rw [h]
      exact Function.update_self ..
    refine World.ext rfl (Redis.ext rfl ?_ rfl) rfl rfl
    show Function.update w'.redis.posts body.postId _ = w'.redis.posts
    rw [← hpost, Function.update_eq_self]
  · rfl

/-- A cached flag is not cached again. -/
theorem flagged_eq_self {author : Uuid}
    (h : w'.redis.celebrity = (w.flagged cfg [author]).redis.celebrity) :
    w'.flagged cfg [author] = w' := by
  have hcached : w'.redis.celebrity author ≠ none := by
    rw [h, World.flagged, World.celebrity_cacheFlags]
    split_ifs with hmissing
    · simp
    · intro hnone
      exact hmissing (by simp [missingFlags, hnone])
  have hmissing : missingFlags w' [author] = [] := by
    obtain ⟨v, hv⟩ := Option.ne_none_iff_exists'.mp hcached
    simp [missingFlags, hv]
  rw [World.flagged, hmissing]
  exact World.ext rfl (Redis.ext rfl rfl rfl) rfl rfl

/-- The text of the notifications is the same before and behind the storing of the body. -/
theorem notifications_of_posts {body : PostEvent} (hdb : w'.db = w.db)
    (hposts : w'.redis.posts = (w.storedBody body).redis.posts) :
    w'.notifications cfg body = w.notifications cfg body := by
  have htext : w'.notifiedText body = w.notifiedText body := by
    unfold World.notifiedText
    unfold World.storedBody at hposts
    split_ifs at hposts ⊢ with htext
    · rfl
    · rw [hposts]
  unfold World.notifications
  rw [hdb, htext]

/-! ## Deliveries -/

/-- What a handling publishes. -/
def Delivery.news (cfg : Settings) : Delivery → World → List Publication
  | .event _, _ => []
  | .message body, w =>
      if body.eventType = "created" ∧ celebrityFlag cfg w body.authorId = false then
        w.notifications cfg body
      else []

theorem news_message (body : PostEvent) (w : World) :
    (Delivery.message body).news cfg w
      = if body.eventType = "created" ∧ celebrityFlag cfg w body.authorId = false then
          w.notifications cfg body
        else [] := rfl

/-- The stores after a handling that nothing cuts off. -/
def Delivery.handled (order : RowOrder) (cfg : Settings) (d : Delivery) (w : World) : World :=
  ((d.program cfg).run (exec order) w).2

/-- From `w'` the handling ends as from `w`, but for notifications that are published again. -/
structure Retriable (order : RowOrder) (cfg : Settings) (d : Delivery) (w w' : World) : Prop where
  news : d.news cfg w' = d.news cfg w
  published : ∃ repeated, w'.published = w.published ++ repeated ∧ ∀ p ∈ repeated, p ∈ d.news cfg w
  handled : d.handled order cfg w'
    = { d.handled order cfg w with published := w'.published ++ d.news cfg w }

theorem Retriable.trans {d : Delivery} {w'' : World} (h : Retriable order cfg d w w')
    (h' : Retriable order cfg d w' w'') : Retriable order cfg d w w'' where
  news := h'.news.trans h.news
  published := by
    obtain ⟨repeated, heq, hmem⟩ := h.published
    obtain ⟨repeated', heq', hmem'⟩ := h'.published
    refine ⟨repeated ++ repeated', ?_, List.forall_mem_append.mpr ⟨hmem, fun p hp => ?_⟩⟩
    · rw [heq', heq, List.append_assoc]
    · exact h.news ▸ hmem' p hp
  handled := by
    rw [h'.handled, h.handled, h.news]

theorem handled_message (body : PostEvent) (w : World) :
    (Delivery.message body).handled order cfg w
      = if body.eventType = "created" then w.handledCreated cfg body
        else if body.eventType = "deleted" then
          w.mapFeeds (w.db.followers body.authorId) fun z => z.removeAll [body.postId]
        else w := by
  unfold Delivery.handled Delivery.program
  rw [run_bind_of_ok (run_handleMessage body w)]
  rfl

theorem handled_event (e : StreamEvent) (w : World) :
    (Delivery.event e).handled order cfg w
      = if e.eventType = "created" then
          w.mapFeeds (w.db.followers e.authorId) (pushed cfg.feedMaxSize e.createdAt e.postId)
        else if e.eventType = "deleted" then
          w.mapFeeds (w.db.followers e.authorId) fun z => z.removeAll [e.postId]
        else w := by
  unfold Delivery.handled Delivery.program
  rw [run_bind_of_ok (run_handleEvent e w)]
  rfl

/-- The publications of a handling. -/
theorem published_handled (d : Delivery) (w : World) :
    (d.handled order cfg w).published = w.published ++ d.news cfg w := by
  cases d with
  | event e =>
      rw [handled_event]
      split_ifs <;> exact (List.append_nil _).symm
  | message body =>
      rw [handled_message, news_message]
      have hflag : celebrityFlag cfg (w.storedBody body) body.authorId
          = celebrityFlag cfg w body.authorId := celebrityFlag_storedBody w body body.authorId
      have hstored : (w.storedBody body).published = w.published := by
        unfold World.storedBody
        split_ifs <;> rfl
      have hdb : (w.storedBody body).db = w.db := by
        unfold World.storedBody
        split_ifs <;> rfl
      by_cases hcreated : body.eventType = "created"
      · rw [if_pos hcreated]
        unfold World.handledCreated
        rw [hflag]
        cases hcelebrity : celebrityFlag cfg w body.authorId with
        | true =>
            rw [if_pos rfl, if_neg (by simp)]
            show (w.storedBody body).published = _
            rw [hstored, List.append_nil]
        | false =>
            have hsame : ((w.storedBody body).flagged cfg [body.authorId]).notifications cfg body
                = w.notifications cfg body := notifications_of_posts hdb rfl
            rw [if_neg (by simp), if_pos ⟨hcreated, rfl⟩, ← hsame, ← hstored]
            rfl
      · have hno : ¬ (body.eventType = "created" ∧ celebrityFlag cfg w body.authorId = false) :=
          fun h => hcreated h.1
        rw [if_neg hcreated, if_neg hno]
        split_ifs <;> exact (List.append_nil _).symm

theorem Retriable.refl (order : RowOrder) (cfg : Settings) (d : Delivery) (w : World) :
    Retriable order cfg d w w where
  news := rfl
  published := ⟨[], (List.append_nil _).symm, fun _ h => absurd h List.not_mem_nil⟩
  handled := by
    rw [← published_handled]

/-- A handling that only changes feeds. -/
theorem retriable_of_mapFeeds {d : Delivery} {f : FeedSet → FeedSet} {author : Uuid}
    (hd : ∀ w, d.handled order cfg w = w.mapFeeds (w.db.followers author) f)
    (hnews : ∀ w, d.news cfg w = []) (h : Underway f (w.db.followers author) [] w w') :
    Retriable order cfg d w w' where
  news := (hnews w').trans (hnews w).symm
  published := by
    obtain ⟨repeated, heq, hmem⟩ := h.published
    exact ⟨repeated, heq, fun p hp => absurd (hmem p hp) List.not_mem_nil⟩
  handled := by
    rw [hd, hd, hnews, List.append_nil, h.db, h.mapFeeds_eq]

/-- **A created event may be handled again from every state of its handling.** -/
theorem along_handleCreated {body : PostEvent} (hcreated : body.eventType = "created") (w : World) :
    (handleCreated cfg body).Along (exec order) (Retriable order cfg (.message body) w) w := by
  set w₁ := w.storedBody body with hw₁
  set w₂ := w₁.flagged cfg [body.authorId] with hw₂
  have hdb : w₁.db = w.db := by
    rw [hw₁]
    unfold World.storedBody
    split_ifs <;> rfl
  have hpublished : w₁.published = w.published := by
    rw [hw₁]
    unfold World.storedBody
    split_ifs <;> rfl
  have hflag₁ : celebrityFlag cfg w₁ body.authorId = celebrityFlag cfg w body.authorId :=
    celebrityFlag_storedBody w body body.authorId
  -- a state with the body stored and, unless it is the first such state, the flag cached
  have hlater : ∀ w', w'.db = w.db → w'.redis.posts = w₁.redis.posts →
      celebrityFlag cfg w' body.authorId = celebrityFlag cfg w body.authorId →
      Delivery.news cfg (.message body) w' = Delivery.news cfg (.message body) w := by
    intro w' hdb' hposts hflag
    rw [news_message, news_message, hflag, notifications_of_posts hdb' hposts]
  have hsame : ∀ w', w'.db = w.db → w'.redis.posts = w₁.redis.posts → w'.published = w.published →
      celebrityFlag cfg w' body.authorId = celebrityFlag cfg w body.authorId →
      w'.flagged cfg [body.authorId] = w₂ → Retriable order cfg (.message body) w w' := by
    intro w' hdb' hposts hpub hflag hflagged
    refine ⟨hlater w' hdb' hposts hflag, ⟨[], ?_, fun _ h => absurd h List.not_mem_nil⟩, ?_⟩
    · rw [hpub, List.append_nil]
    · have hhandled : Delivery.handled order cfg (.message body) w'
          = Delivery.handled order cfg (.message body) w := by
        rw [handled_message, handled_message, if_pos hcreated, if_pos hcreated]
        unfold World.handledCreated
        rw [storedBody_eq_self hposts, hflag, hflagged, ← hw₁, hflag₁, ← hw₂]
      rw [hhandled, hpub, ← published_handled]
  have hfirst : Retriable order cfg (.message body) w w := .refl order cfg _ w
  have hsecond : Retriable order cfg (.message body) w w₁ := hsame w₁ hdb rfl hpublished hflag₁ rfl
  have hflag₂ : celebrityFlag cfg w₂ body.authorId = celebrityFlag cfg w body.authorId :=
    (celebrityFlag_flagged cfg w₁ [body.authorId] body.authorId).trans hflag₁
  have hthird : Retriable order cfg (.message body) w w₂ :=
    hsame w₂ hdb rfl hpublished hflag₂ (flagged_eq_self rfl)
  -- a state of the fan-out or of the notifications
  have hway : celebrityFlag cfg w body.authorId = false → ∀ w',
      Underway (pushed cfg.feedMaxSize body.createdAt body.postId) (w₂.db.followers body.authorId)
        (w₂.notifications cfg body) w₂ w' → Retriable order cfg (.message body) w w' := by
    intro hordinary w' h
    have hflag : celebrityFlag cfg w' body.authorId = celebrityFlag cfg w body.authorId := by
      rw [← hflag₂]
      unfold celebrityFlag
      rw [h.celebrity, h.db]
    have hsent : w₂.notifications cfg body = w.notifications cfg body := notifications_of_posts hdb rfl
    have hagain : w'.notifications cfg body = w.notifications cfg body :=
      notifications_of_posts (h.db.trans hdb) h.posts
    have hnews : Delivery.news cfg (.message body) w = w.notifications cfg body := by
      rw [news_message, if_pos ⟨hcreated, hordinary⟩]
    refine ⟨hlater w' (h.db.trans hdb) h.posts hflag, ?_, ?_⟩
    · obtain ⟨repeated, heq, hmem⟩ := h.published
      refine ⟨repeated, heq.trans (congrArg (· ++ repeated) hpublished), fun p hp => ?_⟩
      rw [hnews, ← hsent]
      exact hmem p hp
    · have hmapped := h.mapFeeds_eq
      rw [handled_message, handled_message, if_pos hcreated, if_pos hcreated, hnews]
      unfold World.handledCreated
      rw [storedBody_eq_self h.posts, hflag, hordinary, ← hw₁, hflag₁, hordinary,
        if_neg Bool.false_ne_true, if_neg Bool.false_ne_true, flagged_eq_self h.celebrity, ← hw₂]
      unfold World.materialized
      rw [h.db, hmapped, hagain]
  unfold handleCreated
  refine ((along_storeBody body w).mono ?_).bind_of_ok (run_storeBody body w) ?_
  · rintro w' (rfl | rfl)
    · exact hfirst
    · exact hsecond
  refine ((along_isCelebrity body.authorId w₁).mono ?_).bind_of_ok (run_isCelebrity body.authorId w₁) ?_
  · rintro w' (rfl | rfl)
    · exact hsecond
    · exact hthird
  rw [hflag₁]
  cases hordinary : celebrityFlag cfg w body.authorId with
  | true => exact along_pure hthird
  | false =>
      have hfan : (fanOutPost cfg body.postId body.authorId body.createdAt).Along (exec order)
          (Underway (pushed cfg.feedMaxSize body.createdAt body.postId) (w₂.db.followers body.authorId)
            (w₂.notifications cfg body) w₂) w₂ :=
        along_fanOutPost (Underway.refl w₂) rfl
      refine (hfan.mono (hway hordinary)).bind_of_ok (run_fanOutPost _ _ _ w₂) ?_
      exact (along_notifyFollowers ((Underway.refl w₂).of_mapFeeds (pushed_pushed _ _ _))).mono
        (hway hordinary)

/-- **Any delivery may be handled again from every state of its handling.** -/
theorem along_program (d : Delivery) (w : World) :
    (d.program cfg).Along (exec order) (Retriable order cfg d w) w := by
  have hrefl := Retriable.refl order cfg d w
  cases d with
  | event e =>
      have hhandle : (handleEvent cfg e).Along (exec order) (Retriable order cfg (.event e) w) w := by
        unfold handleEvent
        split_ifs with hcreated hdeleted
        · exact (along_fanOutPost (Underway.refl w) rfl).mono fun w' h => retriable_of_mapFeeds
            (fun w => by rw [handled_event, if_pos hcreated]) (fun _ => rfl) h
        · exact (along_removePostFromAllFeeds (Underway.refl w) rfl).mono fun w' h =>
            retriable_of_mapFeeds (fun w => by rw [handled_event, if_neg hcreated, if_pos hdeleted])
              (fun _ => rfl) h
        · exact along_pure hrefl
      exact hhandle.bind fun _ _ => along_pure hhandle.last
  | message body =>
      have hhandle : (handleMessage cfg body).Along (exec order)
          (Retriable order cfg (.message body) w) w := by
        unfold handleMessage
        split_ifs with hcreated hdeleted
        · exact along_handleCreated hcreated w
        · exact (along_removePostFromAllFeeds (Underway.refl w) rfl).mono fun w' h =>
            retriable_of_mapFeeds (fun w => by rw [handled_message, if_neg hcreated, if_pos hdeleted])
              (fun w => by rw [news_message, if_neg fun h => hcreated h.1]) h
        · exact along_pure hrefl
      exact hhandle.bind fun _ _ => along_pure hhandle.last

theorem run_program (d : Delivery) (w : World) :
    (d.program cfg).run (exec order) w = (.ok .ok, d.handled order cfg w) := by
  unfold Delivery.handled
  cases d with
  | event e =>
      unfold Delivery.program
      rw [run_bind_of_ok (run_handleEvent e w)]
      rfl
  | message body =>
      unfold Delivery.program
      rw [run_bind_of_ok (run_handleMessage body w)]
      rfl

/-- **Redelivery is absorbed.** However often a handling was cut off, in whatever state, the one that is
not leaves the stores as it would have left them alone; its notifications are published, and those that
had been published before are published again. -/
theorem redelivery_absorbed (order : RowOrder) (cfg : Settings) (d : Delivery) {w w' : World}
    (h : (d.program cfg).Attempts (exec order) w w') :
    (d.handled order cfg w).published = w.published ++ d.news cfg w ∧
      ∃ repeated, (∀ p ∈ repeated, p ∈ d.news cfg w) ∧
        (d.program cfg).run (exec order) w' = (.ok .ok, { d.handled order cfg w with
          published := w.published ++ repeated ++ d.news cfg w }) := by
  have hretriable : Retriable order cfg d w w' :=
    h.keeps (Retriable.refl order cfg d) (fun _ _ _ h h' => h.trans h') (along_program d)
  obtain ⟨repeated, heq, hmem⟩ := hretriable.published
  refine ⟨published_handled d w, repeated, hmem, ?_⟩
  rw [run_program, hretriable.handled, heq]

/-- A created event. -/
def newPost : Delivery :=
  .message ⟨"created", .ofNat 11, .ofNat 2, some "a", noonOf 1 first_day⟩

/-- User 2 with the follower 1. -/
def followed : World :=
  (World.ofUsers [.ofNat 1, .ofNat 2]).afterAll someOrder {} [.setFriend (.ofNat 1) (.ofNat 2)]

/-- The handling crashes behind the `HSET`, and once more before its first command. -/
theorem newPost_crashes : (newPost.program {}).Attempts (exec someOrder) followed
    (followed.setPost (.ofNat 11) (some ⟨"a", .ofNat 2, (noonOf 1 first_day).isoformat⟩)) := by
  have hfirst : (newPost.program {}).Visits (exec someOrder) followed
      (followed.setPost (.ofNat 11) (some ⟨"a", .ofNat 2, (noonOf 1 first_day).isoformat⟩)) :=
    Or.inr (Or.inl rfl)
  exact .tail (.single hfirst) (Or.inl rfl)

theorem redelivery_absorbed_newPost : ∃ repeated, (∀ p ∈ repeated, p ∈ newPost.news {} followed) ∧
    (newPost.program {}).run (exec someOrder)
        (followed.setPost (.ofNat 11) (some ⟨"a", .ofNat 2, (noonOf 1 first_day).isoformat⟩))
      = (.ok .ok, { newPost.handled someOrder {} followed with
          published := followed.published ++ repeated ++ newPost.news {} followed }) :=
  (redelivery_absorbed someOrder {} newPost newPost_crashes).2

end HighLoad.Feed
