/-
# HighLoad.Feed.Concurrent — handlers and workers at the same time

Calls of the handlers and deliveries at the two workers as the threads of one pool, with a lemma for each
function of the cache, the routes and the workers that says which commands it issues. The five
statements that write to the tables, ZADD and RENAME are told apart; everything else is `Plain`. Only
those five and RENAME may raise, so a function without them returns. A property of programs that is kept by sequencing and that plain programs
have is a property of every thread, once the functions have it that are not plain
(`Compositional.callProgram`, `Compositional.deliveryProgram`).
-/
import HighLoad.Feed.Interleavings
import HighLoad.Lib.Within

namespace HighLoad.Feed

open Prog

variable {order : RowOrder} {cfg : Settings}

/-! ## Calls and deliveries -/

/-- What a worker is handed: an event of the stream or a message of the materializer's queue. -/
inductive Delivery where
  | event (e : StreamEvent)
  | message (body : PostEvent)

/-- The handling of a delivery; the response stands for its end. -/
def Delivery.program (cfg : Settings) : Delivery → Py Response
  | .event e => handleEvent cfg e >>= fun _ => pure .ok
  | .message body => handleMessage cfg body >>= fun _ => pure .ok

/-- Calls and deliveries that start together. -/
def concurrently (cfg : Settings) (calls : List Call) (deliveries : List Delivery) (w : World) :
    Pool Command PyError World Response :=
  ⟨calls.map (Call.program cfg) ++ deliveries.map (Delivery.program cfg), w⟩

/-- A thread runs the call with its number, or a delivery. -/
theorem concurrently_thread {calls : List Call} {deliveries : List Delivery} {w : World} {i : Nat}
    {q : Py Response} (hq : (concurrently cfg calls deliveries w).threads[i]? = some q) :
    (∃ c, calls[i]? = some c ∧ c.program cfg = q) ∨
      (calls[i]? = none ∧ ∃ d ∈ deliveries, d.program cfg = q) := by
  have hq' : (calls.map (Call.program cfg) ++ deliveries.map (Delivery.program cfg))[i]? = some q := hq
  rw [List.getElem?_append] at hq'
  split at hq'
  · rw [List.getElem?_map] at hq'
    exact Or.inl (Option.map_eq_some_iff.mp hq')
  · rename_i hlong
    rw [List.length_map, not_lt] at hlong
    rw [List.getElem?_map] at hq'
    obtain ⟨d, hd, rfl⟩ := Option.map_eq_some_iff.mp hq'
    exact Or.inr ⟨List.getElem?_eq_none hlong, d, List.mem_of_getElem? hd, rfl⟩

/-- The temporary key under which a call may build a feed. -/
def Call.rebuildKey : Call → Option FeedKey
  | .rebuildFeed user nonce => some (.rebuild user nonce)
  | .getFeed user nonce _ _ => some (.rebuild user nonce)
  | _ => none

/-! ## Kinds of commands -/

/-- The statement writes to the tables. -/
def Command.writesTables {β : Type} : Command β → Bool
  | .insertPost _ _ _ _ => true
  | .updatePost _ _ _ => true
  | .deletePost _ _ => true
  | .insertFriendship _ _ => true
  | .deleteFriendship _ _ => true
  | _ => false

def Command.isRename {β : Type} : Command β → Bool
  | .rename _ _ => true
  | _ => false

/-- The sorted set that gains members, if one may. -/
def Command.target {β : Type} : Command β → Option FeedKey
  | .zadd key _ _ => some key
  | .rename _ key => some key
  | _ => none

/-- A command that leaves the tables alone. -/
def Reads (β : Type) (c : Command β) : Prop := c.writesTables = false

/-- One that moreover cannot raise. -/
def Calm (β : Type) (c : Command β) : Prop := c.writesTables = false ∧ c.isRename = false

/-- One that moreover adds nothing to a sorted set. -/
def Plain (β : Type) (c : Command β) : Prop := c.writesTables = false ∧ c.target = none

theorem Plain.calm {β : Type} {c : Command β} (hc : Plain β c) : Calm β c := by
  refine ⟨hc.1, ?_⟩
  cases c with
  | rename => cases hc.2
  | _ => rfl

theorem Calm.total {β : Type} {c : Command β} (hc : Calm β c) : (exec order).Total c := by
  intro w
  obtain ⟨htables, hrename⟩ := hc
  cases c with
  | insertPost => cases htables
  | updatePost => cases htables
  | deletePost => cases htables
  | insertFriendship => cases htables
  | deleteFriendship => cases htables
  | rename => cases hrename
  | _ => exact ⟨_, rfl⟩

theorem Reads.db {β : Type} {c : Command β} (hc : Reads β c) (w : World) :
    ((exec order).issue c w).2.db = w.db := by
  unfold Reads at hc
  cases c with
  | insertPost => cases hc
  | updatePost => cases hc
  | deletePost => cases hc
  | insertFriendship => cases hc
  | deleteFriendship => cases hc
  | rename source target =>
      simp only [Handler.issue, exec]
      split_ifs <;> rfl
  | _ => rfl

/-! ## What the functions issue -/

theorem plain_call {β : Type} {c : Command β} (hc : Plain β c) :
    (call c : Py β).Within (exec order) Plain Returns :=
  within_call hc hc.calm.total

theorem plain_pipeline {β : Type} {cs : List (Command β)} (hcs : ∀ c ∈ cs, Plain β c) :
    (pipeline cs : Py (List β)).Within (exec order) Plain Returns :=
  within_pipeline fun c hc => ⟨hcs c hc, (hcs c hc).calm.total⟩

theorem calm_of_plain {α : Type} {p : Py α} {Q : Except PyError α → Prop}
    (hp : p.Within (exec order) Plain Q) : p.Within (exec order) Calm Q :=
  hp.mono (fun _ _ hc => hc.calm) fun _ hr => hr

theorem reads_of_calm {α : Type} {p : Py α} {Q : Except PyError α → Prop}
    (hp : p.Within (exec order) Calm Q) : p.Within (exec order) Reads Q :=
  hp.mono (fun _ _ hc => hc.1) fun _ hr => hr

/-! ### Without ZADD -/

theorem plain_storePostHash (postId : Uuid) (text : String) (authorId : Uuid) (createdAt : DateTime) :
    (storePostHash postId text authorId createdAt).Within (exec order) Plain Returns := by
  unfold storePostHash
  refine (plain_pipeline fun c hc => ?_).then fun _ => within_pure ()
  simp only [List.mem_cons, List.not_mem_nil, or_false] at hc
  obtain rfl | rfl := hc <;> exact ⟨rfl, rfl⟩

theorem plain_removePostFromAllFeeds (postId authorId : Uuid) :
    (removePostFromAllFeeds postId authorId).Within (exec order) Plain Returns := by
  unfold removePostFromAllFeeds getFollowers
  refine (plain_call ⟨rfl, rfl⟩).then fun followers => ?_
  split
  · exact within_pure ()
  · refine (plain_pipeline fun c hc => ?_).then fun _ => within_pure ()
    obtain ⟨follower, -, rfl⟩ := List.mem_map.mp hc
    exact ⟨rfl, rfl⟩

theorem plain_removeFriendPostsFromFeed (userId friendId : Uuid) :
    (removeFriendPostsFromFeed userId friendId).Within (exec order) Plain Returns := by
  unfold removeFriendPostsFromFeed
  refine (plain_call ⟨rfl, rfl⟩).then fun postIds => ?_
  split
  · exact within_pure ()
  · refine (plain_pipeline fun c hc => ?_).then fun authors => ?_
    · obtain ⟨id, -, rfl⟩ := List.mem_map.mp hc
      exact ⟨rfl, rfl⟩
    · dsimp only
      split
      · exact within_pure ()
      · exact plain_call ⟨rfl, rfl⟩

theorem plain_isCelebrity (authorId : Uuid) :
    (isCelebrity cfg authorId).Within (exec order) Plain Returns := by
  unfold isCelebrity followersCount
  refine (plain_call ⟨rfl, rfl⟩).then fun cached => ?_
  cases cached with
  | some v => exact within_pure _
  | none =>
      refine (plain_call ⟨rfl, rfl⟩).then fun cnt => ?_
      exact (plain_call ⟨rfl, rfl⟩).then fun _ => within_pure _

theorem plain_getCelebrityFriends (userId : Uuid) :
    (getCelebrityFriends cfg userId).Within (exec order) Plain Returns := by
  unfold getCelebrityFriends
  refine (plain_call ⟨rfl, rfl⟩).then fun friendIds => ?_
  split
  · exact within_pure []
  · refine (plain_call ⟨rfl, rfl⟩).then fun cached => ?_
    dsimp only
    split
    · exact within_pure _
    · refine (plain_call ⟨rfl, rfl⟩).then fun cntById => ?_
      refine (plain_pipeline fun c hc => ?_).then fun _ => within_pure _
      obtain ⟨fid, -, rfl⟩ := List.mem_map.mp hc
      exact ⟨rfl, rfl⟩

theorem plain_fetchRecentPostsByAuthors (authorIds : List Uuid) (limit : Nat) :
    (fetchRecentPostsByAuthors authorIds limit).Within (exec order) Plain Returns := by
  unfold fetchRecentPostsByAuthors
  split
  · exact within_pure []
  · exact (plain_call ⟨rfl, rfl⟩).then fun rows => within_pure _

theorem plain_addCreatedAts (items : List FeedItem) :
    (addCreatedAts items).Within (exec order) Plain Returns := by
  unfold addCreatedAts
  split
  · exact within_pure []
  · refine (plain_pipeline fun c hc => ?_).then fun createdAts => within_pure _
    obtain ⟨item, -, rfl⟩ := List.mem_map.mp hc
    exact ⟨rfl, rfl⟩

/-- What `read_feed` does once the feed is there. -/
def readPage (userId : Uuid) (offset limit : Nat) : Py (List FeedItem) := do
  let postIds ← call (.zrevrange (.feed userId) offset ((offset : Int) + limit - 1))
  if postIds.isEmpty then pure []
  else do
    let hashes ← pipeline (postIds.map .hgetall)
    let result := (postIds.zip hashes).filterMap fun p =>
      p.2.map fun h => (⟨p.1, h.text, h.authorId, none⟩ : FeedItem)
    let staleIds := (postIds.zip hashes).filterMap fun p => if p.2.isNone then some p.1 else none
    if staleIds.isEmpty then pure result
    else do
      call (.zrem (.feed userId) staleIds)
      pure result

theorem readFeed_eq (cfg : Settings) (nonce userId : Uuid) (offset limit : Nat) :
    readFeed cfg nonce userId offset limit = (call (.existsZset (.feed userId)) >>= fun found =>
      rebuildOnMiss cfg userId nonce found >>= fun _ => readPage userId offset limit) := rfl

theorem plain_readPage (userId : Uuid) (offset limit : Nat) :
    (readPage userId offset limit).Within (exec order) Plain Returns := by
  unfold readPage
  refine (plain_call ⟨rfl, rfl⟩).then fun postIds => ?_
  split
  · exact within_pure []
  · refine (plain_pipeline fun c hc => ?_).then fun hashes => ?_
    · obtain ⟨id, -, rfl⟩ := List.mem_map.mp hc
      exact ⟨rfl, rfl⟩
    · dsimp only
      split
      · exact within_pure _
      · exact (plain_call ⟨rfl, rfl⟩).then fun _ => within_pure _

/-- What `read_feed_merged` does with the push part. -/
def mergePage (cfg : Settings) (userId : Uuid) (offset limit : Nat) (pushPart : List FeedItem) :
    Py (List FeedItem) := do
  let celebrityAuthors ← getCelebrityFriends cfg userId
  let pullPart ← fetchRecentPostsByAuthors celebrityAuthors (offset + limit)
  let dated ← addCreatedAts pushPart
  let unique := uniqueItems [] (dated ++ pullPart)
  let sorted := unique.insertionSort FeedItem.Before
  pure (((sorted.drop offset).take limit).map fun i => { i with createdAt := none })

theorem readFeedMerged_eq (cfg : Settings) (nonce userId : Uuid) (offset limit : Nat) :
    readFeedMerged cfg nonce userId offset limit
      = (readFeed cfg nonce userId 0 (offset + limit) >>= mergePage cfg userId offset limit) := rfl

theorem plain_mergePage (userId : Uuid) (offset limit : Nat) (pushPart : List FeedItem) :
    (mergePage cfg userId offset limit pushPart).Within (exec order) Plain Returns := by
  unfold mergePage
  refine (plain_getCelebrityFriends userId).then fun celebrityAuthors => ?_
  refine (plain_fetchRecentPostsByAuthors _ _).then fun pullPart => ?_
  exact (plain_addCreatedAts pushPart).then fun dated => within_pure _

theorem plain_announceDeleted (user id : Uuid) (now : DateTime) :
    (announceDeleted cfg user id now).Within (exec order) Plain Returns := by
  unfold announceDeleted publishTask publishPostEvent
  split
  · exact plain_call ⟨rfl, rfl⟩
  · split
    · exact plain_call ⟨rfl, rfl⟩
    · exact plain_removePostFromAllFeeds _ _

theorem plain_storeBody (body : PostEvent) :
    (storeBody body).Within (exec order) Plain Returns := by
  unfold storeBody
  split
  · exact plain_storePostHash _ _ _ _
  · exact within_pure ()

theorem plain_notifyFollowers (body : PostEvent) :
    (notifyFollowers cfg body).Within (exec order) Plain Returns := by
  unfold notifyFollowers getFollowers
  refine (plain_call ⟨rfl, rfl⟩).then fun followers => ?_
  split
  · exact within_pure ()
  · refine Within.then ?_ fun text => ?_
    · unfold notificationText
      split
      · exact within_pure _
      · exact (plain_call ⟨rfl, rfl⟩).then fun cached => within_pure _
    · refine (plain_pipeline fun c hc => ?_).then fun _ => within_pure ()
      obtain ⟨follower, -, rfl⟩ := List.mem_map.mp hc
      exact ⟨rfl, rfl⟩

/-! ### With ZADD -/

section

variable {P : (β : Type) → Command β → Prop} (hplain : ∀ β c, Plain β c → P β c)

include hplain

theorem within_fanOutPost (postId authorId : Uuid) (createdAt : DateTime)
    (hzadd : ∀ v t id, P Unit (.zadd (.feed v) t id)) :
    (fanOutPost cfg postId authorId createdAt).Within (exec order) P Returns := by
  unfold fanOutPost getFollowers
  refine (within_call (hplain _ _ ⟨rfl, rfl⟩) fun _ => ⟨_, rfl⟩).then fun followers => ?_
  split
  · exact within_pure ()
  · refine (within_pipeline fun c hc => ?_).then fun _ => within_pure ()
    obtain ⟨follower, -, hc⟩ := List.mem_flatMap.mp hc
    simp only [List.mem_cons, List.not_mem_nil, or_false] at hc
    obtain rfl | rfl := hc
    · exact ⟨hzadd _ _ _, fun _ => ⟨_, rfl⟩⟩
    · exact ⟨hplain _ _ ⟨rfl, rfl⟩, fun _ => ⟨_, rfl⟩⟩

theorem within_cacheRow {key : FeedKey} (hzadd : ∀ t id, P Unit (.zadd key t id))
    (rows : List PostRow) :
    ∀ c ∈ rows.flatMap (cacheRow key), P Unit c ∧ (exec order).Total c :=
  cacheRow_only (P := fun β c => P β c ∧ (exec order).Total c)
    (fun _ _ => ⟨hzadd _ _, fun _ => ⟨_, rfl⟩⟩)
    (fun _ _ => ⟨hplain _ _ ⟨rfl, rfl⟩, fun _ => ⟨_, rfl⟩⟩)
    fun _ _ => ⟨hplain _ _ ⟨rfl, rfl⟩, fun _ => ⟨_, rfl⟩⟩

theorem within_addFriendPostsToFeed (userId friendId : Uuid)
    (hzadd : ∀ t id, P Unit (.zadd (.feed userId) t id)) :
    (addFriendPostsToFeed cfg userId friendId).Within (exec order) P Returns := by
  unfold addFriendPostsToFeed
  refine (within_call (hplain _ _ ⟨rfl, rfl⟩) fun _ => ⟨_, rfl⟩).then fun rows => ?_
  split
  · exact within_pure ()
  · refine (within_pipeline fun c hc => ?_).then fun _ => within_pure ()
    obtain hc | hc := List.mem_append.mp hc
    · exact within_cacheRow hplain hzadd rows c hc
    · rw [List.mem_singleton.mp hc]
      exact ⟨hplain _ _ ⟨rfl, rfl⟩, fun _ => ⟨_, rfl⟩⟩

theorem within_rebuildFeedForUser (userId nonce : Uuid)
    (hzadd : ∀ t id, P Unit (.zadd (.rebuild userId nonce) t id))
    (hrename : P Unit (.rename (.rebuild userId nonce) (.feed userId))) :
    (rebuildFeedForUser cfg userId nonce).Within (exec order) P fun _ => True := by
  have hdelete : ∀ key, (call (.deleteZset key) : Py Unit).Within (exec order) P Returns :=
    fun key => within_call (hplain _ _ ⟨rfl, rfl⟩) fun _ => ⟨_, rfl⟩
  unfold rebuildFeedForUser
  refine (within_call (hplain _ _ ⟨rfl, rfl⟩) fun _ => ⟨_, rfl⟩).then fun rows => ?_
  split
  · exact ((hdelete _).then fun _ => within_pure 0).forget
  · refine (Within.tryFinally ?_ (hdelete _)).andThen fun _ => (within_pure rows.length).forget
    exact (within_pipeline (within_cacheRow hplain hzadd rows)).then fun _ => within_attempt hrename

end

theorem calm_fanOutPost (postId authorId : Uuid) (createdAt : DateTime) :
    (fanOutPost cfg postId authorId createdAt).Within (exec order) Calm Returns :=
  within_fanOutPost (fun _ _ hc => hc.calm) _ _ _ fun _ _ _ => ⟨rfl, rfl⟩

theorem calm_addFriendPostsToFeed (userId friendId : Uuid) :
    (addFriendPostsToFeed cfg userId friendId).Within (exec order) Calm Returns :=
  within_addFriendPostsToFeed (fun _ _ hc => hc.calm) _ _ fun _ _ => ⟨rfl, rfl⟩

theorem calm_announceCreated (user : Uuid) (text : String) (row : PostRow) :
    (announceCreated cfg user text row).Within (exec order) Calm Returns := by
  unfold announceCreated publishTask publishPostEvent
  split
  · exact calm_of_plain (plain_call ⟨rfl, rfl⟩)
  · split
    · exact calm_of_plain (plain_call ⟨rfl, rfl⟩)
    · exact calm_fanOutPost _ _ _

/-! ## Every thread -/

/-- A property of programs that is kept by sequencing and that plain programs have. -/
structure Compositional (order : RowOrder) (X : (α : Type) → Py α → Prop) : Prop where
  plain : ∀ {α : Type} {p : Py α} {Q : Except PyError α → Prop},
    p.Within (exec order) Plain Q → X α p
  bind : ∀ {α β : Type} {p : Py α} {k : α → Py β}, X α p → (∀ a, X β (k a)) → X β (p >>= k)

/-- What may be said about each command is such a property. -/
theorem compositional_within {P : (β : Type) → Command β → Prop} (hplain : ∀ β c, Plain β c → P β c) :
    Compositional order fun _ p => p.Within (exec order) P fun _ => True where
  plain hp := hp.mono hplain fun _ _ => trivial
  bind hp hk := hp.andThen hk

namespace Compositional

variable {X : (α : Type) → Py α → Prop} (hX : Compositional order X)

include hX

theorem pure {α : Type} (a : α) : X α (Pure.pure a) := hX.plain (Q := Returns) (within_pure a)

theorem raise {α : Type} (e : PyError) : X α (.raise e) := hX.plain (Q := fun _ => True) trivial

theorem call {β : Type} {c : Command β} (hc : Plain β c) : X β (Prog.call c) :=
  hX.plain (plain_call hc)

theorem readItems (nonce userId : Uuid) (offset limit : Nat)
    (hrebuild : X Nat (rebuildFeedForUser cfg userId nonce)) :
    X _ (Feed.readItems cfg nonce userId offset limit) := by
  have hfeed : ∀ offset limit, X _ (readFeed cfg nonce userId offset limit) := by
    intro offset limit
    rw [readFeed_eq]
    refine hX.bind (hX.call ⟨rfl, rfl⟩) fun found => hX.bind ?_ fun _ => hX.plain (plain_readPage _ _ _)
    unfold rebuildOnMiss
    split
    · exact hX.pure ()
    · exact hX.bind hrebuild fun _ => hX.pure ()
  unfold Feed.readItems
  split
  · rw [readFeedMerged_eq]
    exact hX.bind (hfeed _ _) fun pushPart => hX.plain (plain_mergePage _ _ _ _)
  · exact hfeed offset limit

variable (hfanOut : ∀ postId authorId createdAt, X Unit (fanOutPost cfg postId authorId createdAt))

include hfanOut

/-- The programs of the calls have the property. -/
theorem callProgram (c : Call)
    (hwrite : ∀ {β : Type} {c : Command β}, c.writesTables = true → X β (Prog.call c))
    (hbefriend : ∀ userId friendId, X Unit (addFriendPostsToFeed cfg userId friendId))
    (hrebuild : ∀ userId nonce, c.rebuildKey = some (.rebuild userId nonce) →
      X Nat (rebuildFeedForUser cfg userId nonce)) : X Response (c.program cfg) := by
  cases c with
  | createPost user text id now =>
      refine hX.bind (hwrite rfl) fun row => ?_
      cases row with
      | none => exact hX.raise _
      | some row =>
          refine hX.bind (hX.plain (plain_storePostHash _ _ _ _)) fun _ =>
            hX.bind ?_ fun _ => hX.pure _
          unfold announceCreated publishTask publishPostEvent
          split
          · exact hX.call ⟨rfl, rfl⟩
          · split
            · exact hX.call ⟨rfl, rfl⟩
            · exact hfanOut _ _ _
  | updatePost user id text =>
      refine hX.bind (hwrite rfl) fun row => ?_
      cases row with
      | none => exact hX.raise _
      | some row => exact hX.bind (hX.plain (plain_storePostHash _ _ _ _)) fun _ => hX.pure _
  | deletePost user id now =>
      refine hX.bind (hwrite rfl) fun row => ?_
      cases row with
      | none => exact hX.raise _
      | some row =>
          refine hX.bind (hX.call ⟨rfl, rfl⟩) fun _ => ?_
          exact hX.bind (hX.plain (plain_announceDeleted _ _ _)) fun _ => hX.pure _
  | setFriend user friend =>
      show X Response (Feed.setFriend cfg user friend)
      unfold Feed.setFriend
      split
      · exact hX.raise _
      · refine hX.bind (hX.call ⟨rfl, rfl⟩) fun found => ?_
        split
        · exact hX.raise _
        · refine hX.bind (hwrite rfl) fun _ => ?_
          exact hX.bind (hbefriend _ _) fun _ => hX.pure _
  | deleteFriend user friend =>
      refine hX.bind (hwrite rfl) fun _ => ?_
      exact hX.bind (hX.plain (plain_removeFriendPostsFromFeed _ _)) fun _ => hX.pure _
  | rebuildFeed user nonce => exact hX.bind (hrebuild _ _ rfl) fun n => hX.pure _
  | getFeed user nonce offset limit =>
      show X Response (Feed.getFeed cfg user nonce offset limit)
      unfold Feed.getFeed
      split
      · exact hX.raise _
      · exact hX.bind (hX.readItems _ _ _ _ (hrebuild _ _ rfl)) fun items => hX.pure _

/-- The programs of the deliveries have the property. -/
theorem deliveryProgram (d : Delivery) : X Response (d.program cfg) := by
  cases d with
  | event e =>
      refine hX.bind ?_ fun _ => hX.pure _
      unfold handleEvent
      split
      · exact hfanOut _ _ _
      · split
        · exact hX.plain (plain_removePostFromAllFeeds _ _)
        · exact hX.pure ()
  | message body =>
      refine hX.bind ?_ fun _ => hX.pure _
      unfold handleMessage
      split
      · unfold handleCreated
        refine hX.bind (hX.plain (plain_storeBody body)) fun _ => ?_
        refine hX.bind (hX.plain (plain_isCelebrity _)) fun celebrity => ?_
        split
        · exact hX.pure ()
        · exact hX.bind (hfanOut _ _ _) fun _ => hX.plain (plain_notifyFollowers body)
      · split
        · exact hX.plain (plain_removePostFromAllFeeds _ _)
        · exact hX.pure ()

end Compositional

end HighLoad.Feed
