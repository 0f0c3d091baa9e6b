/-
# HighLoad.Feed.Audience — who gets to see a post

Handlers and workers run at the same time, command by command. `Followed` says whose posts a user may see:
those of the users whom the user has followed before or adds in one of the calls. Whatever interleaves,
the feeds hold posts of such authors only, and so do the answers of `/post/feed`
(`followers_only`): a rebuild, a fan-out or a celebrity flag that is out of date may show a post too long
or too late, never to a stranger.
-/
import HighLoad.Feed.Convergence
import HighLoad.Feed.Merged
import HighLoad.Feed.Pagination
import HighLoad.Feed.Rabbit
import HighLoad.Lib.Keeps

namespace HighLoad.Feed

open Prog

/-- The user whose feed is built under the key. -/
def FeedKey.reader : FeedKey → Uuid
  | .feed userId => userId
  | .rebuild userId _ => userId

/-- The post is said to be by this author: by the stores, by a call or by an event. -/
inductive Authored (calls : List Call) (deliveries : List Delivery) (w : World) : Uuid → Uuid → Prop
  | row {p : PostRow} (hp : p ∈ w.db.posts) : Authored calls deliveries w p.id p.authorId
  | hash {id : Uuid} {h : PostHash} (hh : w.redis.posts id = some h) :
      Authored calls deliveries w id h.authorId
  | created {user : Uuid} {text : String} {id : Uuid} {now : DateTime}
      (hc : .createPost user text id now ∈ calls) : Authored calls deliveries w id user
  | event {e : StreamEvent} (hd : .event e ∈ deliveries) (hkind : e.eventType = "created") :
      Authored calls deliveries w e.postId e.authorId
  | message {body : PostEvent} (hd : .message body ∈ deliveries) (hkind : body.eventType = "created") :
      Authored calls deliveries w body.postId body.authorId

/-- The user has followed the author before, or adds them. -/
def Followed (before : Uuid → Uuid → Prop) (calls : List Call) (user author : Uuid) : Prop :=
  before user author ∨ .setFriend user author ∈ calls

variable {order : RowOrder} {cfg : Settings} {F A : Uuid → Uuid → Prop}

/-- The stores under `F`, who may see whom, and `A`, which post is by whom. -/
structure Guarded (F A : Uuid → Uuid → Prop) (w : World) : Prop where
  friends : ∀ user friend, w.db.Follows user friend → F user friend
  rows : ∀ p ∈ w.db.posts, A p.id p.authorId
  hashes : ∀ id h, w.redis.posts id = some h → A id h.authorId
  feeds : ∀ key id, (w.redis.zsets key).Has id → ∃ author, A id author ∧ F key.reader author

/-! ## Commands -/

/-- What a command must meet to keep the stores guarded. -/
def Command.Permitted (F A : Uuid → Uuid → Prop) {β : Type} : Command β → Prop
  | .insertPost user _ id _ => A id user
  | .insertFriendship user friend => F user friend
  | .hset id h => A id h.authorId
  | .zadd key _ id => ∃ author, A id author ∧ F key.reader author
  | .rename source target => source.reader = target.reader
  | _ => True

/-- A change of one sorted set that adds nothing else than what is permitted. -/
theorem Guarded.modifyZset {w : World} (hw : Guarded F A w) {key : FeedKey} {f : FeedSet → FeedSet}
    (hf : ∀ id, (f (w.redis.zsets key)).Has id → ∃ author, A id author ∧ F key.reader author) :
    Guarded F A (w.modifyZset key f) := by
  refine ⟨hw.friends, hw.rows, hw.hashes, fun key' id hid => ?_⟩
  have hset : (Function.update w.redis.zsets key (f (w.redis.zsets key)) key').Has id := hid
  by_cases heq : key' = key
  · subst heq
    rw [Function.update_self] at hset
    exact hf id hset
  · rw [Function.update_of_ne heq] at hset
    exact hw.feeds key' id hset

theorem Guarded.emptied {w : World} (hw : Guarded F A w) (key : FeedKey) :
    Guarded F A (w.modifyZset key fun _ => SortedSet.empty) :=
  hw.modifyZset fun _ hm => absurd hm SortedSet.not_has_empty

theorem Guarded.setPost {w : World} (hw : Guarded F A w) {id : Uuid} {found : Option PostHash}
    (hfound : ∀ h, found = some h → A id h.authorId) : Guarded F A (w.setPost id found) := by
  refine ⟨hw.friends, hw.rows, fun id' h hh => ?_, hw.feeds⟩
  have hset : Function.update w.redis.posts id found id' = some h := hh
  by_cases heq : id' = id
  · subst heq
    rw [Function.update_self] at hset
    exact hfound h hset
  · rw [Function.update_of_ne heq] at hset
    exact hw.hashes id' h hset

theorem Guarded.insertPost {w : World} (hw : Guarded F A w) {user id : Uuid} (hA : A id user)
    (text : String) (now : DateTime) :
    Guarded F A ((exec order).issue (.insertPost user text id now) w).2 := by
  simp only [Handler.issue, exec]
  rcases w.db.insertPost_cases user text id now with ⟨e, heq⟩ | ⟨db', heq, -, hposts, hfriends⟩
  · rw [heq]
    exact hw
  · rw [heq]
    refine ⟨fun u f h => hw.friends u f ((Database.follows_congr hfriends u f).mp h), fun p hp => ?_,
      hw.hashes, hw.feeds⟩
    have hp' : p ∈ db'.posts := hp
    rw [hposts] at hp'
    rcases List.mem_append.mp hp' with hp' | hp'
    · exact hw.rows p hp'
    · rw [List.mem_singleton.mp hp']
      exact hA

theorem Guarded.insertFriendship {w : World} (hw : Guarded F A w) {user friend : Uuid}
    (hF : F user friend) :
    Guarded F A ((exec order).issue (.insertFriendship user friend) w).2 := by
  simp only [Handler.issue, exec]
  rcases w.db.insertFriendship_cases user friend with ⟨e, -, heq⟩ | ⟨db', heq, -, hposts, hfollows⟩
  · rw [heq]
    exact hw
  · rw [heq]
    refine ⟨fun u f h => ?_, fun p hp => hw.rows p (hposts ▸ hp), hw.hashes, hw.feeds⟩
    rcases (hfollows u f).mp h with h | ⟨rfl, rfl⟩
    · exact hw.friends u f h
    · exact hF

/-- **Every permitted command keeps the stores guarded.** -/
theorem Guarded.issue {β : Type} {c : Command β} (hc : c.Permitted F A) {w : World}
    (hw : Guarded F A w) : Guarded F A ((exec order).issue c w).2 := by
  cases c with
  | insertPost user text id now => exact hw.insertPost hc text now
  | updatePost text id user =>
      refine ⟨hw.friends, fun p hp => ?_, hw.hashes, hw.feeds⟩
      obtain ⟨q, hq, rfl⟩ := Database.mem_updatePost.mp hp
      rw [Database.setText_id, Database.setText_authorId]
      exact hw.rows q hq
  | deletePost id user =>
      exact ⟨hw.friends, fun p hp => hw.rows p (List.mem_filter.mp hp).1, hw.hashes, hw.feeds⟩
  | insertFriendship user friend => exact hw.insertFriendship hc
  | deleteFriendship user friend =>
      exact ⟨fun u f h => hw.friends u f (Database.follows_deleteFriendship.mp h).1, hw.rows, hw.hashes,
        hw.feeds⟩
  | zadd key score id =>
      show Guarded F A (w.modifyZset key fun z => z.add score id)
      refine hw.modifyZset fun m hm => ?_
      rcases SortedSet.has_add.mp hm with rfl | hm
      · exact hc
      · exact hw.feeds key m hm
  | zrem key ids =>
      show Guarded F A (w.modifyZset key fun z => z.removeAll ids)
      exact hw.modifyZset fun m hm => hw.feeds key m (SortedSet.has_removeAll.mp hm).1
  | zremrangebyrank key start stop =>
      show Guarded F A (w.modifyZset key fun z => z.removeRangeByRank start stop)
      exact hw.modifyZset fun m hm => hw.feeds key m hm.of_removeRangeByRank
  | deleteZset key =>
      show Guarded F A (w.modifyZset key fun _ => SortedSet.empty)
      exact hw.emptied key
  | rename source target =>
      simp only [Handler.issue, exec]
      split_ifs
      · have hmoved : Guarded F A (w.modifyZset target fun _ => w.redis.zsets source) := by
          refine hw.modifyZset fun m hm => ?_
          obtain ⟨author, hA, hF⟩ := hw.feeds source m hm
          have hreader : source.reader = target.reader := hc
          exact ⟨author, hA, hreader ▸ hF⟩
        exact hmoved.emptied source
      · exact hw
  | hset id h => exact hw.setPost fun h' hh => Option.some.inj hh ▸ hc
  | deleteHash id => exact hw.setPost fun h hh => absurd hh.symm (Option.some_ne_none h)
  | _ => exact ⟨hw.friends, hw.rows, hw.hashes, hw.feeds⟩

/-! ## Functions -/

/-- The program keeps the stores guarded; its answer satisfies `Q`. -/
def Guards (order : RowOrder) (F A : Uuid → Uuid → Prop) {α : Type} (Q : α → Prop) (p : Py α) : Prop :=
  p.Keeps (exec order) (Guarded F A) Q

theorem guards_reply {β : Type} {c : Command β} {Q : β → Prop} (hc : c.Permitted F A)
    (hreply : ∀ w, Guarded F A w → ∀ a, ((exec order).issue c w).1 = .ok a → Q a) :
    Guards order F A Q (call c) :=
  keeps_call (fun _ hw => hw.issue hc) hreply

theorem guards_call {β : Type} {c : Command β} (hc : c.Permitted F A) :
    Guards order F A (fun _ => True) (call c) :=
  guards_reply hc fun _ _ _ _ => trivial

theorem guards_each {β : Type} {cs : List (Command β)} (hcs : ∀ c ∈ cs, c.Permitted F A) :
    Guards order F A (fun _ => True) (pipeline cs) :=
  (keeps_pipeline (P := fun _ _ => True) fun c hc => guards_call (hcs c hc)).mono fun _ _ => trivial

/-- Followers may see the author. -/
theorem guards_getFollowers (author : Uuid) :
    Guards order F A (fun followers => ∀ u ∈ followers, F u author) (getFollowers author) := by
  refine guards_reply trivial fun w hw followers hreply u hu => ?_
  obtain rfl := Except.ok.inj hreply
  exact hw.friends u author (Database.mem_followers.mp hu)

theorem guards_selectFriends (userId : Uuid) :
    Guards order F A (fun friends => ∀ a ∈ friends, F userId a) (call (.selectFriends userId)) := by
  refine guards_reply trivial fun w hw friends hreply a ha => ?_
  obtain rfl := Except.ok.inj hreply
  exact hw.friends userId a (Database.mem_friends.mp ha)

/-- Rows that the user may see. -/
def VisibleRows (F A : Uuid → Uuid → Prop) (userId : Uuid) (rows : List PostRow) : Prop :=
  ∀ p ∈ rows, A p.id p.authorId ∧ F userId p.authorId

theorem guards_selectPosts {userId : Uuid} {authorIds : List Uuid} (hF : ∀ a ∈ authorIds, F userId a)
    (limit : Nat) :
    Guards order F A (VisibleRows F A userId) (call (.selectPosts authorIds limit)) := by
  refine guards_reply trivial fun w hw rows hreply p hp => ?_
  obtain rfl := Except.ok.inj hreply
  obtain ⟨hrow, hauthor⟩ := Database.mem_recentPosts_of_mem hp
  exact ⟨hw.rows p hrow, hF p.authorId hauthor⟩

theorem guards_selectFriendPosts (userId : Uuid) (limit : Nat) :
    Guards order F A (VisibleRows F A userId) (call (.selectFriendPosts userId limit)) := by
  refine guards_reply trivial fun w hw rows hreply p hp => ?_
  obtain rfl := Except.ok.inj hreply
  obtain ⟨hrow, hfollows⟩ := Database.mem_recentFriendPosts_of_mem hp
  exact ⟨hw.rows p hrow, hw.friends userId p.authorId hfollows⟩

theorem permitted_cacheRows (key : FeedKey) {rows : List PostRow}
    (hrows : VisibleRows F A key.reader rows) : ∀ c ∈ rows.flatMap (cacheRow key), c.Permitted F A := by
  intro c hc
  obtain ⟨row, hrow, hc⟩ := List.mem_flatMap.mp hc
  simp only [cacheRow, List.mem_cons, List.not_mem_nil, or_false] at hc
  obtain rfl | rfl | rfl := hc
  · exact ⟨row.authorId, hrows row hrow⟩
  · exact (hrows row hrow).1
  · trivial

theorem guards_storePostHash {postId authorId : Uuid} (hA : A postId authorId) (text : String)
    (createdAt : DateTime) :
    Guards order F A (fun _ => True) (storePostHash postId text authorId createdAt) := by
  unfold storePostHash
  refine Keeps.bind (guards_each fun c hc => ?_) fun _ _ => keeps_pure trivial
  simp only [List.mem_cons, List.not_mem_nil, or_false] at hc
  obtain rfl | rfl := hc
  · exact hA
  · trivial

theorem guards_fanOutPost {postId authorId : Uuid} (hA : A postId authorId) (createdAt : DateTime) :
    Guards order F A (fun _ => True) (fanOutPost cfg postId authorId createdAt) := by
  unfold fanOutPost
  refine Keeps.bind (guards_getFollowers authorId) fun followers hfollowers => ?_
  split
  · exact keeps_pure trivial
  · refine Keeps.bind (guards_each fun c hc => ?_) fun _ _ => keeps_pure trivial
    obtain ⟨follower, hfollower, hc⟩ := List.mem_flatMap.mp hc
    simp only [List.mem_cons, List.not_mem_nil, or_false] at hc
    obtain rfl | rfl := hc
    · exact ⟨authorId, hA, hfollowers follower hfollower⟩
    · trivial

theorem guards_removePostFromAllFeeds (postId authorId : Uuid) :
    Guards order F A (fun _ => True) (removePostFromAllFeeds postId authorId) := by
  unfold removePostFromAllFeeds
  refine Keeps.bind (guards_getFollowers authorId) fun followers _ => ?_
  split
  · exact keeps_pure trivial
  · refine Keeps.bind (guards_each fun c hc => ?_) fun _ _ => keeps_pure trivial
    obtain ⟨follower, -, rfl⟩ := List.mem_map.mp hc
    trivial

theorem guards_addFriendPostsToFeed {userId friendId : Uuid} (hF : F userId friendId) :
    Guards order F A (fun _ => True) (addFriendPostsToFeed cfg userId friendId) := by
  have hauthors : ∀ a ∈ [friendId], F userId a := fun a ha => List.mem_singleton.mp ha ▸ hF
  unfold addFriendPostsToFeed
  refine Keeps.bind (guards_selectPosts hauthors _) fun rows hrows => ?_
  split
  · exact keeps_pure trivial
  · refine Keeps.bind (guards_each fun c hc => ?_) fun _ _ => keeps_pure trivial
    obtain hc | hc := List.mem_append.mp hc
    · exact permitted_cacheRows (.feed userId) hrows c hc
    · rw [List.mem_singleton.mp hc]
      trivial

theorem guards_removeFriendPostsFromFeed (userId friendId : Uuid) :
    Guards order F A (fun _ => True) (removeFriendPostsFromFeed userId friendId) := by
  unfold removeFriendPostsFromFeed
  refine Keeps.bind (guards_call trivial) fun postIds _ => ?_
  split
  · exact keeps_pure trivial
  · refine Keeps.bind (guards_each fun c hc => ?_) fun authors _ => ?_
    · obtain ⟨id, -, rfl⟩ := List.mem_map.mp hc
      trivial
    · dsimp only
      split
      · exact keeps_pure trivial
      · exact guards_call trivial

theorem guards_rebuildFeedForUser (userId nonce : Uuid) :
    Guards order F A (fun _ => True) (rebuildFeedForUser cfg userId nonce) := by
  unfold rebuildFeedForUser swapFeed
  refine Keeps.bind (guards_selectFriendPosts userId _) fun rows hrows => ?_
  split
  · exact Keeps.bind (guards_call trivial) fun _ _ => keeps_pure trivial
  · refine Keeps.bind (R := fun _ => True) (Keeps.tryFinally ?_ (guards_call trivial)) fun _ _ =>
      keeps_pure trivial
    refine Keeps.bind (guards_each ?_) fun _ _ => guards_call rfl
    exact permitted_cacheRows (.rebuild userId nonce) hrows

theorem guards_isCelebrity (authorId : Uuid) :
    Guards order F A (fun _ => True) (isCelebrity cfg authorId) := by
  unfold isCelebrity followersCount
  refine Keeps.bind (guards_call trivial) fun cached _ => ?_
  cases cached with
  | some v => exact keeps_pure trivial
  | none =>
      refine Keeps.bind (guards_call trivial) fun cnt _ => ?_
      exact Keeps.bind (guards_call trivial) fun _ _ => keeps_pure trivial

theorem guards_getCelebrityFriends (userId : Uuid) :
    Guards order F A (fun authors => ∀ a ∈ authors, F userId a) (getCelebrityFriends cfg userId) := by
  unfold getCelebrityFriends
  refine Keeps.bind (guards_selectFriends userId) fun friendIds hfriends => ?_
  split
  · exact keeps_pure fun a ha => absurd ha List.not_mem_nil
  · refine Keeps.bind (guards_call trivial) fun cached _ => ?_
    have hcached : ∀ a ∈ (friendIds.zip cached).filterMap fun p =>
        p.2.bind fun v => if v.isOne then some p.1 else none, F userId a := by
      intro a ha
      obtain ⟨p, hp, hflag⟩ := List.mem_filterMap.mp ha
      obtain ⟨v, -, hv⟩ := Option.bind_eq_some_iff.mp hflag
      split_ifs at hv
      obtain rfl := Option.some.inj hv
      exact hfriends p.1 (List.of_mem_zip hp).1
    dsimp only
    split
    · exact keeps_pure hcached
    · refine Keeps.bind (guards_call trivial) fun cntById _ => ?_
      refine Keeps.bind (guards_each fun c hc => ?_) fun _ _ => keeps_pure fun a ha => ?_
      · obtain ⟨fid, -, rfl⟩ := List.mem_map.mp hc
        trivial
      · rcases List.mem_append.mp ha with ha | ha
        · exact hcached a ha
        · obtain ⟨p, hp, hmissing⟩ := List.mem_filterMap.mp (List.mem_filter.mp ha).1
          split_ifs at hmissing
          obtain rfl := Option.some.inj hmissing
          exact hfriends p.1 (List.of_mem_zip hp).1

theorem guards_notifyFollowers (body : PostEvent) :
    Guards order F A (fun _ => True) (notifyFollowers cfg body) := by
  unfold notifyFollowers getFollowers
  refine Keeps.bind (guards_call trivial) fun followers _ => ?_
  split
  · exact keeps_pure trivial
  · refine Keeps.bind (R := fun _ => True) ?_ fun text _ => ?_
    · unfold notificationText
      split
      · exact keeps_pure trivial
      · exact Keeps.bind (guards_call trivial) fun cached _ => keeps_pure trivial
    · refine Keeps.bind (guards_each fun c hc => ?_) fun _ _ => keeps_pure trivial
      obtain ⟨follower, -, rfl⟩ := List.mem_map.mp hc
      trivial

/-! ### Those that answer -/

/-- Items that the user may see. -/
def VisibleItems (F A : Uuid → Uuid → Prop) (userId : Uuid) (items : List FeedItem) : Prop :=
  ∀ i ∈ items, A i.id i.authorUserId ∧ F userId i.authorUserId

theorem visibleItems_nil (userId : Uuid) : VisibleItems F A userId [] :=
  fun _ hi => absurd hi List.not_mem_nil

theorem guards_pageIds (userId : Uuid) (offset limit : Nat) :
    Guards order F A (fun ids => ∀ id ∈ ids, ∃ author, A id author ∧ F userId author)
      (call (.zrevrange (.feed userId) offset ((offset : Int) + limit - 1))) := by
  refine guards_reply trivial fun w hw ids hreply id hid => ?_
  obtain rfl := Except.ok.inj hreply
  exact hw.feeds (.feed userId) id (exists_entry_of_mem_pageIds hid)

theorem guards_hgetall (id : Uuid) :
    Guards order F A (fun found => ∀ h, found = some h → A id h.authorId) (call (.hgetall id)) := by
  refine guards_reply trivial fun w hw found hreply h hh => ?_
  obtain rfl := Except.ok.inj hreply
  exact hw.hashes id h hh

/-- A member of the feed is by someone whom the user may see, and the hash names that author: one post
has one author. -/
theorem guards_readPage (hone : ∀ id a b, A id a → A id b → a = b) (userId : Uuid)
    (offset limit : Nat) :
    Guards order F A (VisibleItems F A userId) (readPage userId offset limit) := by
  unfold readPage
  refine Keeps.bind (guards_pageIds userId _ _) fun postIds hids => ?_
  split
  · exact keeps_pure (visibleItems_nil userId)
  · refine Keeps.bind (keeps_pipeline (P := fun c found =>
      ∀ id, c = .hgetall id → ∀ h, found = some h → A id h.authorId) fun c hc => ?_)
      fun hashes hhashes => ?_
    · obtain ⟨id, -, rfl⟩ := List.mem_map.mp hc
      refine (guards_hgetall id).mono fun found hfound id' heq => ?_
      obtain rfl := Command.hgetall.inj heq
      exact hfound
    · have hitems : VisibleItems F A userId ((postIds.zip hashes).filterMap fun p =>
          p.2.map fun h => (⟨p.1, h.text, h.authorId, none⟩ : FeedItem)) := by
        intro i hi
        obtain ⟨p, hp, hitem⟩ := List.mem_filterMap.mp hi
        obtain ⟨h, hh, rfl⟩ := Option.map_eq_some_iff.mp hitem
        rw [List.forall₂_map_left_iff] at hhashes
        have hauthor : A p.1 h.authorId := (List.forall₂_iff_zip.mp hhashes).2 hp p.1 rfl h hh
        obtain ⟨author, hA, hF⟩ := hids p.1 (List.of_mem_zip hp).1
        exact ⟨hauthor, hone p.1 author h.authorId hA hauthor ▸ hF⟩
      dsimp only
      split
      · exact keeps_pure hitems
      · exact Keeps.bind (guards_call trivial) fun _ _ => keeps_pure hitems

theorem guards_readFeed (hone : ∀ id a b, A id a → A id b → a = b) (nonce userId : Uuid)
    (offset limit : Nat) :
    Guards order F A (VisibleItems F A userId) (readFeed cfg nonce userId offset limit) := by
  rw [readFeed_eq]
  refine Keeps.bind (guards_call trivial) fun found _ => Keeps.bind (R := fun _ => True) ?_ fun _ _ =>
    guards_readPage hone userId offset limit
  unfold rebuildOnMiss
  split
  · exact keeps_pure trivial
  · exact Keeps.bind (guards_rebuildFeedForUser _ _) fun _ _ => keeps_pure trivial

theorem guards_fetchRecentPostsByAuthors {userId : Uuid} {authorIds : List Uuid}
    (hF : ∀ a ∈ authorIds, F userId a) (limit : Nat) :
    Guards order F A (VisibleItems F A userId) (fetchRecentPostsByAuthors authorIds limit) := by
  unfold fetchRecentPostsByAuthors
  split
  · exact keeps_pure (visibleItems_nil userId)
  · refine Keeps.bind (guards_selectPosts hF _) fun rows hrows => keeps_pure fun i hi => ?_
    obtain ⟨row, hrow, rfl⟩ := List.mem_map.mp hi
    exact hrows row hrow

theorem guards_addCreatedAts {userId : Uuid} {items : List FeedItem}
    (hitems : VisibleItems F A userId items) :
    Guards order F A (VisibleItems F A userId) (addCreatedAts items) := by
  unfold addCreatedAts
  split
  · exact keeps_pure (visibleItems_nil userId)
  · refine Keeps.bind (guards_each fun c hc => ?_) fun createdAts _ => keeps_pure fun i hi => ?_
    · obtain ⟨item, -, rfl⟩ := List.mem_map.mp hc
      trivial
    · obtain ⟨p, hp, rfl⟩ := List.mem_map.mp hi
      exact hitems p.1 (List.of_mem_zip hp).1

theorem guards_readFeedMerged (hone : ∀ id a b, A id a → A id b → a = b) (nonce userId : Uuid)
    (offset limit : Nat) :
    Guards order F A (VisibleItems F A userId) (readFeedMerged cfg nonce userId offset limit) := by
  rw [readFeedMerged_eq]
  refine Keeps.bind (guards_readFeed hone _ _ _ _) fun pushPart hpush => ?_
  unfold mergePage
  refine Keeps.bind (guards_getCelebrityFriends userId) fun authors hauthors => ?_
  refine Keeps.bind (guards_fetchRecentPostsByAuthors hauthors _) fun pullPart hpull => ?_
  refine Keeps.bind (guards_addCreatedAts hpush) fun dated hdated => keeps_pure fun i hi => ?_
  -- the merge picks items of the two parts
  obtain ⟨j, hj, rfl⟩ := List.mem_map.mp hi
  have hsorted := List.mem_of_mem_drop (List.mem_of_mem_take hj)
  have hunique := (mem_of_mem_uniqueItems ((List.mem_insertionSort _).mp hsorted)).1
  rcases List.mem_append.mp hunique with h | h
  · exact hdated j h
  · exact hpull j h

/-- An answer that shows the user only what the user may see. -/
def VisibleTo (F A : Uuid → Uuid → Prop) (userId : Uuid) : Response → Prop
  | .posts posts => ∀ p ∈ posts, A p.id p.authorUserId ∧ F userId p.authorUserId
  | _ => True

theorem guards_getFeed (hone : ∀ id a b, A id a → A id b → a = b) (user nonce : Uuid)
    (offset limit : Int) :
    Guards order F A (VisibleTo F A user) (Feed.getFeed cfg user nonce offset limit) := by
  have hread : ∀ offset limit : Nat,
      Guards order F A (VisibleItems F A user) (readItems cfg nonce user offset limit) := by
    intro offset limit
    unfold readItems
    split
    · exact guards_readFeedMerged hone _ _ _ _
    · exact guards_readFeed hone _ _ _ _
  unfold Feed.getFeed
  split
  · exact keeps_raise _
  · refine Keeps.bind (hread _ _) fun items hitems => keeps_pure fun p hp => ?_
    obtain ⟨i, hi, rfl⟩ := List.mem_map.mp hp
    exact hitems i hi

/-! ## Calls and deliveries -/

/-- What the call adds is permitted. -/
def Call.Permitted (F A : Uuid → Uuid → Prop) : Call → Prop
  | .createPost user _ id _ => A id user
  | .setFriend user friend => F user friend
  | _ => True

/-- What the delivery adds is permitted. -/
def Delivery.Permitted (A : Uuid → Uuid → Prop) : Delivery → Prop
  | .event e => e.eventType = "created" → A e.postId e.authorId
  | .message body => body.eventType = "created" → A body.postId body.authorId

/-- The row that is returned is the one that was inserted. -/
theorem guards_insertPost {user id : Uuid} (hA : A id user) (text : String) (now : DateTime) :
    Guards order F A (fun row => ∀ p, row = some p → p.id = id) (call (.insertPost user text id now)) := by
  refine guards_reply hA fun w _ row hrow p hp => ?_
  simp only [Handler.issue, exec] at hrow
  rcases w.db.insertPost_cases user text id now with ⟨e, heq⟩ | ⟨db', heq, -, -, -⟩
  · rw [heq] at hrow
    cases hrow
  · rw [heq] at hrow
    obtain rfl := Except.ok.inj hrow
    obtain rfl := Option.some.inj hp
    rfl

/-- An update returns a row if the user is the author. -/
theorem guards_updatePost (user id : Uuid) (text : String) :
    Guards order F A (fun row => row ≠ none → A id user) (call (.updatePost text id user)) := by
  refine guards_reply trivial fun w hw row hrow hsome => ?_
  obtain rfl := Except.ok.inj hrow
  rcases w.db.updatePost_cases text id user with ⟨hnone, -⟩ | ⟨p, hp, rfl, rfl, -⟩
  · exact absurd hnone hsome
  · exact hw.rows p hp

theorem guards_announceCreated {user : Uuid} {row : PostRow} (hA : A row.id user) (text : String) :
    Guards order F A (fun _ => True) (announceCreated cfg user text row) := by
  unfold announceCreated publishPostEvent
  split
  · exact guards_call trivial
  · split
    · exact guards_call trivial
    · exact guards_fanOutPost hA _

theorem guards_announceDeleted (user id : Uuid) (now : DateTime) :
    Guards order F A (fun _ => True) (announceDeleted cfg user id now) := by
  unfold announceDeleted publishPostEvent
  split
  · exact guards_call trivial
  · split
    · exact guards_call trivial
    · exact guards_removePostFromAllFeeds _ _

/-- The handlers that write. -/
theorem guards_writer {c : Call} (hc : c.Permitted F A)
    (hwriter : ∀ user nonce offset limit, c ≠ .getFeed user nonce offset limit) :
    Guards order F A (fun _ => True) (c.program cfg) := by
  cases c with
  | createPost user text id now =>
      refine Keeps.bind (guards_insertPost hc text now) fun row hrow => ?_
      cases row with
      | none => exact keeps_raise _
      | some row =>
          have hA : A row.id user := hrow row rfl ▸ hc
          exact Keeps.bind (guards_storePostHash hA _ _) fun _ _ =>
            Keeps.bind (guards_announceCreated hA _) fun _ _ => keeps_pure trivial
  | updatePost user id text =>
      refine Keeps.bind (guards_updatePost user id text) fun row hrow => ?_
      cases row with
      | none => exact keeps_raise _
      | some row =>
          exact Keeps.bind (guards_storePostHash (hrow (Option.some_ne_none row)) _ _) fun _ _ =>
            keeps_pure trivial
  | deletePost user id now =>
      refine Keeps.bind (guards_call trivial) fun row _ => ?_
      cases row with
      | none => exact keeps_raise _
      | some row =>
          exact Keeps.bind (guards_call trivial) fun _ _ =>
            Keeps.bind (guards_announceDeleted _ _ _) fun _ _ => keeps_pure trivial
  | setFriend user friend =>
      show Guards order F A (fun _ => True) (Feed.setFriend cfg user friend)
      unfold Feed.setFriend
      split
      · exact keeps_raise _
      · refine Keeps.bind (guards_call trivial) fun found _ => ?_
        split
        · exact keeps_raise _
        · exact Keeps.bind (guards_call hc) fun _ _ =>
            Keeps.bind (guards_addFriendPostsToFeed hc) fun _ _ => keeps_pure trivial
  | deleteFriend user friend =>
      exact Keeps.bind (guards_call trivial) fun _ _ =>
        Keeps.bind (guards_removeFriendPostsFromFeed _ _) fun _ _ => keeps_pure trivial
  | rebuildFeed user nonce =>
      exact Keeps.bind (guards_rebuildFeedForUser _ _) fun _ _ => keeps_pure trivial
  | getFeed user nonce offset limit => exact absurd rfl (hwriter user nonce offset limit)

/-- **The handlers show a feed to its reader only what the reader may see.** -/
theorem guards_callProgram (hone : ∀ id a b, A id a → A id b → a = b) {c : Call}
    (hc : c.Permitted F A) :
    Guards order F A (fun response => ∀ user nonce offset limit,
      c = .getFeed user nonce offset limit → VisibleTo F A user response) (c.program cfg) := by
  by_cases hread : ∃ user nonce offset limit, c = .getFeed user nonce offset limit
  · obtain ⟨user, nonce, offset, limit, rfl⟩ := hread
    refine (guards_getFeed hone user nonce offset limit).mono fun response hvisible _ _ _ _ heq => ?_
    cases heq
    exact hvisible
  · have hwriter : ∀ user nonce offset limit, c ≠ .getFeed user nonce offset limit :=
      fun user nonce offset limit heq => hread ⟨user, nonce, offset, limit, heq⟩
    exact (guards_writer hc hwriter).mono fun _ _ user nonce offset limit heq =>
      absurd heq (hwriter user nonce offset limit)

/-- **The workers hand a post to followers only.** -/
theorem guards_deliveryProgram {d : Delivery} (hd : d.Permitted A) :
    Guards order F A (fun _ => True) (d.program cfg) := by
  cases d with
  | event e =>
      refine Keeps.bind (R := fun _ => True) ?_ fun _ _ => keeps_pure trivial
      unfold handleEvent
      split
      · rename_i hkind
        exact guards_fanOutPost (hd hkind) _
      · split
        · exact guards_removePostFromAllFeeds _ _
        · exact keeps_pure trivial
  | message body =>
      refine Keeps.bind (R := fun _ => True) ?_ fun _ _ => keeps_pure trivial
      unfold handleMessage
      split
      · rename_i hkind
        have hA : A body.postId body.authorId := hd hkind
        have hstore : Guards order F A (fun _ => True) (storeBody body) := by
          unfold storeBody
          split
          · exact guards_storePostHash hA _ _
          · exact keeps_pure trivial
        unfold handleCreated
        refine Keeps.bind hstore fun _ _ => Keeps.bind (guards_isCelebrity _) fun celebrity _ => ?_
        split
        · exact keeps_pure trivial
        · exact Keeps.bind (guards_fanOutPost hA _) fun _ _ => guards_notifyFollowers body
      · split
        · exact guards_removePostFromAllFeeds _ _
        · exact keeps_pure trivial

theorem Guarded.mono {F' : Uuid → Uuid → Prop} {w : World} (hw : Guarded F A w)
    (hF : ∀ user author, F user author → F' user author) : Guarded F' A w where
  friends := fun user friend h => hF _ _ (hw.friends user friend h)
  rows := hw.rows
  hashes := hw.hashes
  feeds := fun key id hid => (hw.feeds key id hid).imp fun _ h => ⟨h.1, hF _ _ h.2⟩

/-- **Followers only**: however calls and deliveries interleave, whichever of them are cut off, a feed
holds posts of authors whom its reader has followed before or adds in a call, and every answer of
`/post/feed` shows its reader such posts only, under the name of their author. -/
theorem followers_only (order : RowOrder) (cfg : Settings) (calls : List Call)
    (deliveries : List Delivery) (w : World) (before : Uuid → Uuid → Prop)
    (hstart : Guarded before (Authored calls deliveries w) w)
    (hone : ∀ id a b, Authored calls deliveries w id a → Authored calls deliveries w id b → a = b)
    {schedule : List Nat} {final : Pool Command PyError World Response}
    (hrun : HighLoad.exec (Pool.step (exec order)) schedule (concurrently cfg calls deliveries w)
      = some final) :
    Guarded (Followed before calls) (Authored calls deliveries w) final.state ∧
      ∀ i user nonce offset limit response, calls[i]? = some (.getFeed user nonce offset limit) →
        final.outcome i = some (.ok response) →
          VisibleTo (Followed before calls) (Authored calls deliveries w) user response := by
  have hcalls : ∀ c ∈ calls, c.Permitted (Followed before calls) (Authored calls deliveries w) := by
    intro c hc
    cases c with
    | createPost user text id now => exact .created hc
    | setFriend user friend => exact .inr hc
    | _ => trivial
  have hdeliveries : ∀ d ∈ deliveries, d.Permitted (Authored calls deliveries w) := by
    intro d hd
    cases d with
    | event e => exact fun hkind => .event hd hkind
    | message body => exact fun hkind => .message hd hkind
  have hstart' : Guarded (Followed before calls) (Authored calls deliveries w) w :=
    hstart.mono fun _ _ h => Or.inl h
  have hrun' := Pool.keeps_each (Q := fun i response => ∀ user nonce offset limit,
      calls[i]? = some (.getFeed user nonce offset limit) →
        VisibleTo (Followed before calls) (Authored calls deliveries w) user response)
    hstart' (fun i q hq => ?_) hrun
  · exact ⟨hrun'.1, fun i user nonce offset limit response hi hout =>
      hrun'.2 i response hout user nonce offset limit hi⟩
  · rcases concurrently_thread hq with ⟨c, hi, rfl⟩ | ⟨hnone, d, hd, rfl⟩
    · refine (guards_callProgram hone (hcalls c (List.mem_of_getElem? hi))).mono
        fun response hvisible user nonce offset limit hget => ?_
      exact hvisible user nonce offset limit (Option.some.inj (hi.symm.trans hget))
    · refine (guards_deliveryProgram (hdeliveries d hd)).mono
        fun response _ user nonce offset limit hget => ?_
      rw [hnone] at hget
      cases hget

/-- User 1 leaves user 2 while a post of user 2 is on its way. -/
def leavesMeanwhile : List Call :=
  [.deleteFriend (.ofNat 1) (.ofNat 2), .getFeed (.ofNat 1) (.ofNat 99) 0 10]

def postOnItsWay : List Delivery :=
  [.message ⟨"created", .ofNat 14, .ofNat 2, some "b", noonOf 1 first_day⟩]

/-- The followers are read before user 1 leaves, the post is pushed and shown afterwards. -/
def pushedToFormerFollower : List Nat := [2, 2, 2, 2, 2, 2, 0, 0, 2, 2, 1, 1, 1, 1, 1]

theorem pushedToFormerFollower_runs : (HighLoad.exec (Pool.step (exec someOrder)) pushedToFormerFollower
    (concurrently rabbitSettings leavesMeanwhile postOnItsWay oneFollower)).isSome = true := by
  decide +kernel

theorem followers_only_pushedToFormerFollower :
    VisibleTo (Followed oneFollower.db.Follows leavesMeanwhile)
      (Authored leavesMeanwhile postOnItsWay oneFollower) (.ofNat 1)
      (.posts [⟨.ofNat 14, "b", .ofNat 2⟩]) := by
  have htwo : ∀ id a, Authored leavesMeanwhile postOnItsWay oneFollower id a → a = .ofNat 2 := by
    intro id a h
    cases h with
    | row hp => exact absurd hp List.not_mem_nil
    | @hash _ h hh =>
        have hnone : none = some h := hh
        cases hnone
    | created hc => simp [leavesMeanwhile] at hc
    | event hd => simp [postOnItsWay] at hd
    | message hd =>
        simp only [postOnItsWay, List.mem_singleton, Delivery.message.injEq] at hd
        rw [hd]
  have hstart : Guarded oneFollower.db.Follows (Authored leavesMeanwhile postOnItsWay oneFollower)
      oneFollower :=
    ⟨fun _ _ h => h, fun _ hp => .row hp, fun _ _ hh => .hash hh, fun _ _ hid =>
      absurd hid SortedSet.not_has_empty⟩
  have houtcome : ((HighLoad.exec (Pool.step (exec someOrder)) pushedToFormerFollower
      (concurrently rabbitSettings leavesMeanwhile postOnItsWay oneFollower)).get
        pushedToFormerFollower_runs).outcome 1 = some (.ok (.posts [⟨.ofNat 14, "b", .ofNat 2⟩])) := by
    decide +kernel
  exact (followers_only someOrder rabbitSettings leavesMeanwhile postOnItsWay oneFollower
    oneFollower.db.Follows hstart
    (fun id a b ha hb => (htwo id a ha).trans (htwo id b hb).symm)
    (Option.some_get pushedToFormerFollower_runs).symm).2 1 (.ofNat 1) (.ofNat 99) 0 10 _ rfl houtcome

end HighLoad.Feed
