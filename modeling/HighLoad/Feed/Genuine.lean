/-
# HighLoad.Feed.Genuine — nothing is invented

Handlers and workers run at the same time, command by command, and copy authors and texts between the
tables, the post hashes and the events. `Given` says which texts a post was given by its author: it is in
the stores or in an event at the start, or it came with the creation or with an update of the author's
own post. Whatever interleaves, the tables, the hashes, the published events and the answers of the feed
hold nothing else (`nothing_invented`).
-/
import HighLoad.Feed.Concurrent
import HighLoad.Feed.Merged
import HighLoad.Lib.Keeps

namespace HighLoad.Feed

open Prog

/-- The author has given the post this text. -/
inductive Given (calls : List Call) (deliveries : List Delivery) (w : World) :
    Uuid → Uuid → String → Prop
  | row {p : PostRow} (hp : p ∈ w.db.posts) : Given calls deliveries w p.id p.authorId p.text
  | hash {id : Uuid} {h : PostHash} (hh : w.redis.posts id = some h) :
      Given calls deliveries w id h.authorId h.text
  | created {user : Uuid} {text : String} {id : Uuid} {now : DateTime}
      (hc : .createPost user text id now ∈ calls) : Given calls deliveries w id user text
  | updated {user id : Uuid} {text old : String} (hc : .updatePost user id text ∈ calls)
      (hold : Given calls deliveries w id user old) : Given calls deliveries w id user text
  | delivered {body : PostEvent} (hd : .message body ∈ deliveries)
      (hkind : body.eventType = "created") (htext : body.bodyText ≠ "") :
      Given calls deliveries w body.postId body.authorId body.bodyText
  | published {m : Publication} {body : PostEvent} (hm : m ∈ w.published)
      (hpayload : m.payload = .event body) (hkind : body.eventType = "created")
      (htext : body.bodyText ≠ "") : Given calls deliveries w body.postId body.authorId body.bodyText

variable {order : RowOrder} {cfg : Settings} {G : Uuid → Uuid → String → Prop}

/-- The text that an event of a creation carries, if it carries one, is one that `G` allows. -/
def PostEvent.Honest (G : Uuid → Uuid → String → Prop) (body : PostEvent) : Prop :=
  body.eventType = "created" → body.bodyText ≠ "" → G body.postId body.authorId body.bodyText

/-- The tables, the hashes and the events hold what `G` allows. -/
structure Genuine (G : Uuid → Uuid → String → Prop) (w : World) : Prop where
  rows : ∀ p ∈ w.db.posts, G p.id p.authorId p.text
  hashes : ∀ id h, w.redis.posts id = some h → G id h.authorId h.text
  events : ∀ m ∈ w.published, ∀ body, m.payload = .event body → body.Honest G

/-- An item of a feed that `G` allows. -/
def GenuineItem (G : Uuid → Uuid → String → Prop) (i : FeedItem) : Prop := G i.id i.authorUserId i.text

/-- An answer whose posts `G` allows. -/
def GenuineAnswer (G : Uuid → Uuid → String → Prop) : Response → Prop
  | .posts posts => ∀ p ∈ posts, G p.id p.authorUserId p.text
  | _ => True

/-! ## Commands -/

/-- The command gives a row, a hash or an event its text. -/
def Command.writesText {β : Type} : Command β → Bool
  | .insertPost _ _ _ _ => true
  | .updatePost _ _ _ => true
  | .hset _ _ => true
  | .publish _ (.event _) _ => true
  | _ => false

theorem Genuine.congr {w w' : World} (h : Genuine G w) (hposts : w'.db.posts = w.db.posts)
    (hhashes : w'.redis.posts = w.redis.posts) (hevents : w'.published = w.published) :
    Genuine G w' where
  rows := hposts ▸ h.rows
  hashes := hhashes ▸ h.hashes
  events := hevents ▸ h.events

theorem Genuine.insertFriendship {w : World} {user friend : Uuid} (hw : Genuine G w) :
    Genuine G ((exec order).issue (.insertFriendship user friend) w).2 := by
  simp only [Handler.issue, exec]
  rcases w.db.insertFriendship_cases user friend with ⟨e, -, heq⟩ | ⟨db', heq, -, hposts, -⟩
  · rw [heq]
    exact hw
  · rw [heq]
    exact hw.congr hposts rfl rfl

/-- Every other command leaves the texts alone, or deletes some. -/
theorem Genuine.issue {β : Type} {c : Command β} (hc : c.writesText = false) {w : World}
    (hw : Genuine G w) : Genuine G ((exec order).issue c w).2 := by
  cases c with
  | insertPost => cases hc
  | updatePost => cases hc
  | hset => cases hc
  | deletePost id author =>
      exact ⟨fun p hp => hw.rows p (List.mem_filter.mp hp).1, hw.hashes, hw.events⟩
  | insertFriendship user friend => exact hw.insertFriendship
  | deleteHash id =>
      refine ⟨hw.rows, fun id' h hh => ?_, hw.events⟩
      by_cases heq : id' = id
      · subst heq
        simp [Handler.issue, exec, World.setPost] at hh
      · refine hw.hashes id' h ?_
        simpa [Handler.issue, exec, World.setPost, heq] using hh
  | rename source target =>
      simp only [Handler.issue, exec]
      split_ifs
      · exact hw.congr rfl rfl rfl
      · exact hw
  | publish routingKey payload persistent =>
      cases payload with
      | event body => cases hc
      | notification n =>
          refine ⟨hw.rows, hw.hashes, fun m hm body hpayload => ?_⟩
          rcases List.mem_append.mp hm with hm | hm
          · exact hw.events m hm body hpayload
          · rw [List.mem_singleton.mp hm] at hpayload
            cases hpayload
  | _ => exact hw.congr rfl rfl rfl

theorem genuine_hset {id : Uuid} {h : PostHash} (hG : G id h.authorId h.text) {w : World}
    (hw : Genuine G w) : Genuine G ((exec order).issue (.hset id h) w).2 := by
  refine ⟨hw.rows, fun id' h' hh => ?_, hw.events⟩
  by_cases heq : id' = id
  · subst heq
    obtain rfl : h = h' := by simpa [Handler.issue, exec, World.setPost] using hh
    exact hG
  · refine hw.hashes id' h' ?_
    simpa [Handler.issue, exec, World.setPost, heq] using hh

theorem genuine_publish {body : PostEvent} (hbody : body.Honest G) (routingKey : String)
    (persistent : Bool) {w : World} (hw : Genuine G w) :
    Genuine G ((exec order).issue (.publish routingKey (.event body) persistent) w).2 := by
  refine ⟨hw.rows, hw.hashes, fun m hm body' hpayload => ?_⟩
  rcases List.mem_append.mp hm with hm | hm
  · exact hw.events m hm body' hpayload
  · rw [List.mem_singleton.mp hm] at hpayload
    obtain rfl := Payload.event.inj hpayload
    exact hbody

/-! ## Functions -/

/-- The program keeps the stores genuine; its answer satisfies `Q`. -/
def Copies (order : RowOrder) (G : Uuid → Uuid → String → Prop) {α : Type} (Q : α → Prop) (p : Py α) :
    Prop := p.Keeps (exec order) (Genuine G) Q

/-- A command that writes no text. -/
theorem copies_call {β : Type} {c : Command β} (hc : c.writesText = false) :
    Copies order G (fun _ => True) (call c) :=
  keeps_call (fun _ hw => hw.issue hc) fun _ _ _ _ => trivial

theorem copies_each {β : Type} {cs : List (Command β)}
    (hcs : ∀ c ∈ cs, Copies order G (fun _ => True) (call c)) :
    Copies order G (fun _ => True) (pipeline cs) :=
  (keeps_pipeline (P := fun _ _ => True) hcs).mono fun _ _ => trivial

theorem copies_pipeline {β : Type} {cs : List (Command β)} (hcs : ∀ c ∈ cs, c.writesText = false) :
    Copies order G (fun _ => True) (pipeline cs) :=
  copies_each fun c hc => copies_call (hcs c hc)

/-- Rows that `G` allows. -/
def GenuineRows (G : Uuid → Uuid → String → Prop) (rows : List PostRow) : Prop :=
  ∀ p ∈ rows, G p.id p.authorId p.text

theorem copies_selectPosts (authorIds : List Uuid) (limit : Nat) :
    Copies order G (GenuineRows G) (call (.selectPosts authorIds limit)) := by
  refine keeps_call (fun _ hw => hw.issue rfl) fun w hw rows hrows p hp => ?_
  obtain rfl := Except.ok.inj hrows
  exact hw.rows p (Database.mem_recentPosts_of_mem hp).1

theorem copies_selectFriendPosts (userId : Uuid) (limit : Nat) :
    Copies order G (GenuineRows G) (call (.selectFriendPosts userId limit)) := by
  refine keeps_call (fun _ hw => hw.issue rfl) fun w hw rows hrows p hp => ?_
  obtain rfl := Except.ok.inj hrows
  exact hw.rows p (Database.mem_recentFriendPosts_of_mem hp).1

theorem copies_hset {id : Uuid} {h : PostHash} (hG : G id h.authorId h.text) :
    Copies order G (fun _ => True) (call (.hset id h)) :=
  keeps_call (fun _ hw => genuine_hset hG hw) fun _ _ _ _ => trivial

theorem copies_cacheRows {rows : List PostRow} (hrows : GenuineRows G rows) (key : FeedKey) :
    ∀ c ∈ rows.flatMap (cacheRow key), Copies order G (fun _ => True) (call c) := by
  intro c hc
  obtain ⟨row, hrow, hc⟩ := List.mem_flatMap.mp hc
  simp only [cacheRow, List.mem_cons, List.not_mem_nil, or_false] at hc
  obtain rfl | rfl | rfl := hc
  · exact copies_call rfl
  · exact copies_hset (hrows row hrow)
  · exact copies_call rfl

theorem copies_storePostHash {postId authorId : Uuid} {text : String} (hG : G postId authorId text)
    (createdAt : DateTime) :
    Copies order G (fun _ => True) (storePostHash postId text authorId createdAt) := by
  unfold storePostHash
  refine Keeps.bind (copies_each fun c hc => ?_) fun _ _ => keeps_pure trivial
  simp only [List.mem_cons, List.not_mem_nil, or_false] at hc
  obtain rfl | rfl := hc
  · exact copies_hset hG
  · exact copies_call rfl

/-! ### Those that write no text -/

theorem copies_fanOutPost (postId authorId : Uuid) (createdAt : DateTime) :
    Copies order G (fun _ => True) (fanOutPost cfg postId authorId createdAt) := by
  unfold fanOutPost getFollowers
  refine Keeps.bind (copies_call rfl) fun followers _ => ?_
  split
  · exact keeps_pure trivial
  · refine Keeps.bind (copies_pipeline fun c hc => ?_) fun _ _ => keeps_pure trivial
    obtain ⟨follower, -, hc⟩ := List.mem_flatMap.mp hc
    simp only [List.mem_cons, List.not_mem_nil, or_false] at hc
    obtain rfl | rfl := hc <;> rfl

theorem copies_removePostFromAllFeeds (postId authorId : Uuid) :
    Copies order G (fun _ => True) (removePostFromAllFeeds postId authorId) := by
  unfold removePostFromAllFeeds getFollowers
  refine Keeps.bind (copies_call rfl) fun followers _ => ?_
  split
  · exact keeps_pure trivial
  · refine Keeps.bind (copies_pipeline fun c hc => ?_) fun _ _ => keeps_pure trivial
    obtain ⟨follower, -, rfl⟩ := List.mem_map.mp hc
    rfl

theorem copies_removeFriendPostsFromFeed (userId friendId : Uuid) :
    Copies order G (fun _ => True) (removeFriendPostsFromFeed userId friendId) := by
  unfold removeFriendPostsFromFeed
  refine Keeps.bind (copies_call rfl) fun postIds _ => ?_
  split
  · exact keeps_pure trivial
  · refine Keeps.bind (copies_pipeline fun c hc => ?_) fun authors _ => ?_
    · obtain ⟨id, -, rfl⟩ := List.mem_map.mp hc
      rfl
    · dsimp only
      split
      · exact keeps_pure trivial
      · exact copies_call rfl

theorem copies_isCelebrity (authorId : Uuid) :
    Copies order G (fun _ => True) (isCelebrity cfg authorId) := by
  unfold isCelebrity followersCount
  refine Keeps.bind (copies_call rfl) fun cached _ => ?_
  cases cached with
  | some v => exact keeps_pure trivial
  | none =>
      refine Keeps.bind (copies_call rfl) fun cnt _ => ?_
      exact Keeps.bind (copies_call rfl) fun _ _ => keeps_pure trivial

theorem copies_getCelebrityFriends (userId : Uuid) :
    Copies order G (fun _ => True) (getCelebrityFriends cfg userId) := by
  unfold getCelebrityFriends
  refine Keeps.bind (copies_call rfl) fun friendIds _ => ?_
  split
  · exact keeps_pure trivial
  · refine Keeps.bind (copies_call rfl) fun cached _ => ?_
    dsimp only
    split
    · exact keeps_pure trivial
    · refine Keeps.bind (copies_call rfl) fun cntById _ => ?_
      refine Keeps.bind (copies_pipeline fun c hc => ?_) fun _ _ => keeps_pure trivial
      obtain ⟨fid, -, rfl⟩ := List.mem_map.mp hc
      rfl

theorem copies_notifyFollowers (body : PostEvent) :
    Copies order G (fun _ => True) (notifyFollowers cfg body) := by
  unfold notifyFollowers getFollowers
  refine Keeps.bind (copies_call rfl) fun followers _ => ?_
  split
  · exact keeps_pure trivial
  · refine Keeps.bind (R := fun _ => True) ?_ fun text _ => ?_
    · unfold notificationText
      split
      · exact keeps_pure trivial
      · exact Keeps.bind (copies_call rfl) fun cached _ => keeps_pure trivial
    · refine Keeps.bind (copies_pipeline fun c hc => ?_) fun _ _ => keeps_pure trivial
      obtain ⟨follower, -, rfl⟩ := List.mem_map.mp hc
      rfl

/-! ### Those that copy rows -/

theorem copies_addFriendPostsToFeed (userId friendId : Uuid) :
    Copies order G (fun _ => True) (addFriendPostsToFeed cfg userId friendId) := by
  unfold addFriendPostsToFeed
  refine Keeps.bind (copies_selectPosts _ _) fun rows hrows => ?_
  split
  · exact keeps_pure trivial
  · refine Keeps.bind (copies_each fun c hc => ?_) fun _ _ => keeps_pure trivial
    obtain hc | hc := List.mem_append.mp hc
    · exact copies_cacheRows hrows _ c hc
    · rw [List.mem_singleton.mp hc]
      exact copies_call rfl

theorem copies_rebuildFeedForUser (userId nonce : Uuid) :
    Copies order G (fun _ => True) (rebuildFeedForUser cfg userId nonce) := by
  unfold rebuildFeedForUser swapFeed
  refine Keeps.bind (copies_selectFriendPosts _ _) fun rows hrows => ?_
  split
  · exact Keeps.bind (copies_call rfl) fun _ _ => keeps_pure trivial
  · refine Keeps.bind (R := fun _ => True) (Keeps.tryFinally ?_ (copies_call rfl)) fun _ _ =>
      keeps_pure trivial
    exact Keeps.bind (copies_each (copies_cacheRows hrows _)) fun _ _ => copies_call rfl

/-! ### Those that answer -/

theorem copies_hgetall (id : Uuid) :
    Copies order G (fun found => ∀ h, found = some h → G id h.authorId h.text) (call (.hgetall id)) := by
  refine keeps_call (fun _ hw => hw.issue rfl) fun w hw found hfound h hh => ?_
  obtain rfl := Except.ok.inj hfound
  exact hw.hashes id h hh

/-- The items of a page have the authors and the texts of the hashes. -/
theorem copies_readPage (userId : Uuid) (offset limit : Nat) :
    Copies order G (fun items => ∀ i ∈ items, GenuineItem G i) (readPage userId offset limit) := by
  unfold readPage
  refine Keeps.bind (copies_call rfl) fun postIds _ => ?_
  split
  · exact keeps_pure fun i hi => absurd hi List.not_mem_nil
  · refine Keeps.bind (keeps_pipeline (P := fun c found =>
      ∀ id, c = .hgetall id → ∀ h, found = some h → G id h.authorId h.text) fun c hc => ?_)
      fun hashes hhashes => ?_
    · obtain ⟨id, -, rfl⟩ := List.mem_map.mp hc
      refine (copies_hgetall id).mono fun found hfound id' heq => ?_
      obtain rfl := Command.hgetall.inj heq
      exact hfound
    · have hitems : ∀ i ∈ (postIds.zip hashes).filterMap fun p =>
          p.2.map fun h => (⟨p.1, h.text, h.authorId, none⟩ : FeedItem), GenuineItem G i := by
        intro i hi
        obtain ⟨p, hp, hitem⟩ := List.mem_filterMap.mp hi
        obtain ⟨h, hh, rfl⟩ := Option.map_eq_some_iff.mp hitem
        rw [List.forall₂_map_left_iff] at hhashes
        exact (List.forall₂_iff_zip.mp hhashes).2 hp p.1 rfl h hh
      dsimp only
      split
      · exact keeps_pure hitems
      · exact Keeps.bind (copies_call rfl) fun _ _ => keeps_pure hitems

theorem copies_readFeed (nonce userId : Uuid) (offset limit : Nat) :
    Copies order G (fun items => ∀ i ∈ items, GenuineItem G i)
      (readFeed cfg nonce userId offset limit) := by
  rw [readFeed_eq]
  refine Keeps.bind (copies_call rfl) fun found _ => Keeps.bind (R := fun _ => True) ?_ fun _ _ =>
    copies_readPage userId offset limit
  unfold rebuildOnMiss
  split
  · exact keeps_pure trivial
  · exact Keeps.bind (copies_rebuildFeedForUser _ _) fun _ _ => keeps_pure trivial

theorem copies_fetchRecentPostsByAuthors (authorIds : List Uuid) (limit : Nat) :
    Copies order G (fun items => ∀ i ∈ items, GenuineItem G i)
      (fetchRecentPostsByAuthors authorIds limit) := by
  unfold fetchRecentPostsByAuthors
  split
  · exact keeps_pure fun i hi => absurd hi List.not_mem_nil
  · refine Keeps.bind (copies_selectPosts _ _) fun rows hrows => keeps_pure fun i hi => ?_
    obtain ⟨row, hrow, rfl⟩ := List.mem_map.mp hi
    exact hrows row hrow

theorem copies_addCreatedAts {items : List FeedItem} (hitems : ∀ i ∈ items, GenuineItem G i) :
    Copies order G (fun items => ∀ i ∈ items, GenuineItem G i) (addCreatedAts items) := by
  unfold addCreatedAts
  split
  · exact keeps_pure fun i hi => absurd hi List.not_mem_nil
  · refine Keeps.bind (copies_pipeline fun c hc => ?_) fun createdAts _ => keeps_pure fun i hi => ?_
    · obtain ⟨item, -, rfl⟩ := List.mem_map.mp hc
      rfl
    · obtain ⟨p, hp, rfl⟩ := List.mem_map.mp hi
      exact hitems p.1 (List.of_mem_zip hp).1

theorem copies_readFeedMerged (nonce userId : Uuid) (offset limit : Nat) :
    Copies order G (fun items => ∀ i ∈ items, GenuineItem G i)
      (readFeedMerged cfg nonce userId offset limit) := by
  rw [readFeedMerged_eq]
  refine Keeps.bind (copies_readFeed _ _ _ _) fun pushPart hpush => ?_
  unfold mergePage
  refine Keeps.bind (copies_getCelebrityFriends userId) fun authors _ => ?_
  refine Keeps.bind (copies_fetchRecentPostsByAuthors _ _) fun pullPart hpull => ?_
  refine Keeps.bind (copies_addCreatedAts hpush) fun dated hdated => keeps_pure fun i hi => ?_
  -- the merge picks items, it makes none
  obtain ⟨j, hj, rfl⟩ := List.mem_map.mp hi
  have hsorted := List.mem_of_mem_drop (List.mem_of_mem_take hj)
  have hunique := (mem_of_mem_uniqueItems ((List.mem_insertionSort _).mp hsorted)).1
  rcases List.mem_append.mp hunique with h | h
  · exact hdated j h
  · exact hpull j h

theorem copies_readItems (nonce userId : Uuid) (offset limit : Nat) :
    Copies order G (fun items => ∀ i ∈ items, GenuineItem G i)
      (readItems cfg nonce userId offset limit) := by
  unfold readItems
  split
  · exact copies_readFeedMerged _ _ _ _
  · exact copies_readFeed _ _ _ _

/-! ## Calls and deliveries -/

/-- What a call gives to a post, `G` allows. -/
def Call.Honest (G : Uuid → Uuid → String → Prop) : Call → Prop
  | .createPost user text id _ => G id user text
  | .updatePost user id text => ∀ old, G id user old → G id user text
  | _ => True

/-- What a delivery gives to a post, `G` allows. -/
def Delivery.Honest (G : Uuid → Uuid → String → Prop) : Delivery → Prop
  | .event _ => True
  | .message body => body.Honest G

theorem copies_insertPost {user id : Uuid} {text : String} (hG : G id user text) (now : DateTime) :
    Copies order G (fun row => ∀ p, row = some p → p.id = id) (call (.insertPost user text id now)) := by
  refine keeps_call (fun w hw => ?_) fun w _ row hrow p hp => ?_
  · simp only [Handler.issue, exec]
    rcases w.db.insertPost_cases user text id now with ⟨e, heq⟩ | ⟨db', heq, -, hposts, -⟩
    · rw [heq]
      exact hw
    · rw [heq]
      refine ⟨fun p hp => ?_, hw.hashes, hw.events⟩
      have hp' : p ∈ db'.posts := hp
      rw [hposts] at hp'
      rcases List.mem_append.mp hp' with hp' | hp'
      · exact hw.rows p hp'
      · rw [List.mem_singleton.mp hp']
        exact hG
  · simp only [Handler.issue, exec] at hrow
    rcases w.db.insertPost_cases user text id now with ⟨e, heq⟩ | ⟨db', heq, -, -, -⟩
    · rw [heq] at hrow
      cases hrow
    · rw [heq] at hrow
      obtain rfl := Except.ok.inj hrow
      obtain rfl := Option.some.inj hp
      rfl

/-- An update reaches a post of its user only. -/
theorem copies_updatePost {user id : Uuid} {text : String} (hG : ∀ old, G id user old → G id user text) :
    Copies order G (fun row => row ≠ none → G id user text) (call (.updatePost text id user)) := by
  refine keeps_call (fun w hw => ⟨fun p hp => ?_, hw.hashes, hw.events⟩) fun w hw row hrow hsome => ?_
  · obtain ⟨q, hq, rfl⟩ := Database.mem_updatePost.mp hp
    have hold := hw.rows q hq
    unfold Database.setText
    split_ifs with howned
    · obtain ⟨rfl, rfl⟩ := howned
      exact hG q.text hold
    · exact hold
  · obtain rfl := Except.ok.inj hrow
    rcases w.db.updatePost_cases text id user with ⟨hnone, -⟩ | ⟨p, hp, rfl, rfl, -⟩
    · exact absurd hnone hsome
    · exact hG p.text (hw.rows p hp)

theorem copies_publishTask {body : PostEvent} (hbody : body.Honest G) :
    Copies order G (fun _ => True) (publishTask cfg body) :=
  keeps_call (fun _ hw => genuine_publish hbody _ _ hw) fun _ _ _ _ => trivial

theorem copies_announceCreated {user : Uuid} {text : String} {row : PostRow}
    (hG : G row.id user text) : Copies order G (fun _ => True) (announceCreated cfg user text row) := by
  unfold announceCreated publishPostEvent
  split
  · exact copies_publishTask fun _ _ => hG
  · split
    · exact copies_call rfl
    · exact copies_fanOutPost _ _ _

theorem copies_announceDeleted (user id : Uuid) (now : DateTime) :
    Copies order G (fun _ => True) (announceDeleted cfg user id now) := by
  have hdeleted : ¬ "deleted" = "created" := by decide
  unfold announceDeleted publishPostEvent
  split
  · exact copies_publishTask fun hkind => absurd hkind hdeleted
  · split
    · exact copies_call rfl
    · exact copies_removePostFromAllFeeds _ _

/-- **The handlers copy.** -/
theorem copies_callProgram {c : Call} (hc : c.Honest G) :
    Copies order G (GenuineAnswer G) (c.program cfg) := by
  cases c with
  | createPost user text id now =>
      refine Keeps.bind (copies_insertPost hc now) fun row hrow => ?_
      cases row with
      | none => exact keeps_raise _
      | some row =>
          have hG : G row.id user text := hrow row rfl ▸ hc
          exact Keeps.bind (copies_storePostHash hG _) fun _ _ =>
            Keeps.bind (copies_announceCreated hG) fun _ _ => keeps_pure trivial
  | updatePost user id text =>
      refine Keeps.bind (copies_updatePost hc) fun row hrow => ?_
      cases row with
      | none => exact keeps_raise _
      | some row =>
          exact Keeps.bind (copies_storePostHash (hrow (Option.some_ne_none row)) _) fun _ _ =>
            keeps_pure trivial
  | deletePost user id now =>
      refine Keeps.bind (copies_call rfl) fun row _ => ?_
      cases row with
      | none => exact keeps_raise _
      | some row =>
          exact Keeps.bind (copies_call rfl) fun _ _ =>
            Keeps.bind (copies_announceDeleted _ _ _) fun _ _ => keeps_pure trivial
  | setFriend user friend =>
      show Copies order G (GenuineAnswer G) (Feed.setFriend cfg user friend)
      unfold Feed.setFriend
      split
      · exact keeps_raise _
      · refine Keeps.bind (copies_call rfl) fun found _ => ?_
        split
        · exact keeps_raise _
        · exact Keeps.bind (copies_call rfl) fun _ _ =>
            Keeps.bind (copies_addFriendPostsToFeed _ _) fun _ _ => keeps_pure trivial
  | deleteFriend user friend =>
      exact Keeps.bind (copies_call rfl) fun _ _ =>
        Keeps.bind (copies_removeFriendPostsFromFeed _ _) fun _ _ => keeps_pure trivial
  | rebuildFeed user nonce =>
      exact Keeps.bind (copies_rebuildFeedForUser _ _) fun _ _ => keeps_pure trivial
  | getFeed user nonce offset limit =>
      show Copies order G (GenuineAnswer G) (Feed.getFeed cfg user nonce offset limit)
      unfold Feed.getFeed
      split
      · exact keeps_raise _
      · refine Keeps.bind (copies_readItems _ _ _ _) fun items hitems => keeps_pure fun p hp => ?_
        obtain ⟨i, hi, rfl⟩ := List.mem_map.mp hp
        exact hitems i hi

/-- **The workers copy.** -/
theorem copies_deliveryProgram {d : Delivery} (hd : d.Honest G) :
    Copies order G (GenuineAnswer G) (d.program cfg) := by
  cases d with
  | event e =>
      refine Keeps.bind (R := fun _ => True) ?_ fun _ _ => keeps_pure trivial
      unfold handleEvent
      split
      · exact copies_fanOutPost _ _ _
      · split
        · exact copies_removePostFromAllFeeds _ _
        · exact keeps_pure trivial
  | message body =>
      refine Keeps.bind (R := fun _ => True) ?_ fun _ _ => keeps_pure trivial
      unfold handleMessage
      split
      · rename_i hkind
        have hstore : Copies order G (fun _ => True) (storeBody body) := by
          unfold storeBody
          split
          · rename_i htext
            exact copies_storePostHash (hd hkind htext) _
          · exact keeps_pure trivial
        unfold handleCreated
        refine Keeps.bind hstore fun _ _ => Keeps.bind (copies_isCelebrity _) fun celebrity _ => ?_
        split
        · exact keeps_pure trivial
        · exact Keeps.bind (copies_fanOutPost _ _ _) fun _ _ => copies_notifyFollowers body
      · split
        · exact copies_removePostFromAllFeeds _ _
        · exact keeps_pure trivial

/-- **Nothing is invented**: however calls and deliveries interleave, whichever of them are cut off, the
tables, the hashes, the events and the answers name an author and a text that this author has given the
post. -/
theorem nothing_invented (order : RowOrder) (cfg : Settings) (calls : List Call)
    (deliveries : List Delivery) (w : World) {schedule : List Nat}
    {final : Pool Command PyError World Response}
    (hrun : HighLoad.exec (Pool.step (exec order)) schedule (concurrently cfg calls deliveries w)
      = some final) :
    Genuine (Given calls deliveries w) final.state ∧
      ∀ i response, final.outcome i = some (.ok response) →
        GenuineAnswer (Given calls deliveries w) response := by
  have hstart : Genuine (Given calls deliveries w) w :=
    ⟨fun p hp => .row hp, fun id h hh => .hash hh, fun m hm body hpayload hkind htext =>
      .published hm hpayload hkind htext⟩
  refine Pool.keeps hstart (fun q hq => ?_) hrun
  rcases List.mem_append.mp hq with hq | hq
  · obtain ⟨c, hc, rfl⟩ := List.mem_map.mp hq
    refine copies_callProgram ?_
    cases c with
    | createPost user text id now => exact .created hc
    | updatePost user id text => exact fun old hold => .updated hc hold
    | _ => trivial
  · obtain ⟨d, hd, rfl⟩ := List.mem_map.mp hq
    refine copies_deliveryProgram ?_
    cases d with
    | event e => trivial
    | message body => exact fun hkind htext => .delivered hd hkind htext

/-- User 2 posts while user 1 adds user 2 and reads the feed. -/
def postFriendRead : List Call :=
  [.createPost (.ofNat 2) "hello" (.ofNat 14) (noonOf 1 first_day), .setFriend (.ofNat 1) (.ofNat 2),
    .getFeed (.ofNat 1) (.ofNat 99) 0 10]

/-- The feed is read between the `ZADD` and the trim of the new friend's posts. -/
def readBeforeTrim : List Nat := [0, 1, 1, 0, 1, 0, 1, 2, 1, 2, 2]

theorem readBeforeTrim_runs : (HighLoad.exec (Pool.step (exec someOrder)) readBeforeTrim
    (concurrently {} postFriendRead [] (World.ofUsers [.ofNat 1, .ofNat 2]))).isSome = true := by
  decide +kernel

theorem nothing_invented_readBeforeTrim :
    GenuineAnswer (Given postFriendRead [] (World.ofUsers [.ofNat 1, .ofNat 2]))
      (.posts [⟨.ofNat 14, "hello", .ofNat 2⟩]) := by
  have houtcome : ((HighLoad.exec (Pool.step (exec someOrder)) readBeforeTrim
      (concurrently {} postFriendRead [] (World.ofUsers [.ofNat 1, .ofNat 2]))).get
        readBeforeTrim_runs).outcome 2 = some (.ok (.posts [⟨.ofNat 14, "hello", .ofNat 2⟩])) := by
    decide +kernel
  exact (nothing_invented someOrder {} postFriendRead [] (World.ofUsers [.ofNat 1, .ofNat 2])
    (Option.some_get readBeforeTrim_runs).symm).2 2 _ houtcome

end HighLoad.Feed
