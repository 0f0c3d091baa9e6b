/-
# HighLoad.Feed.Cache — the feed cache and the celebrity flag

The functions of `feed_cache.py` and of `services/celebrity.py` as programs over the stores, one
command for each `await` on a store; the commands of a pipeline are separate, since the pipelines are
opened with `transaction=False`. A nonce and the settings are arguments.
-/
import HighLoad.Feed.Store
import Mathlib.Data.List.Sort

namespace HighLoad.Feed

open Prog

/-- `POST_HASH_TTL_SECONDS`: 30 days. -/
def postHashTtlSeconds : Nat := 30 * 24 * 3600

/-- `_row_to_post_hash`. -/
def rowToPostHash (row : PostRow) : PostHash := ⟨row.text, row.authorId, row.createdAt.isoformat⟩

/-- An item of a feed; `_created_at` is absent until the merge needs it. -/
structure FeedItem where
  id : Uuid
  text : String
  authorUserId : Uuid
  createdAt : Option String
  deriving DecidableEq

/-- The arguments that keep the `cap` topmost members. -/
def trimFeed (cap : Nat) (userId : Uuid) : Command Unit :=
  .zremrangebyrank (.feed userId) 0 (-((cap : Int) + 1))

/-! ## Post hashes -/

def storePostHash (postId : Uuid) (text : String) (authorId : Uuid) (createdAt : DateTime) :
    Py Unit := do
  let _ ← pipeline
    [.hset postId ⟨text, authorId, createdAt.isoformat⟩, .expire postId postHashTtlSeconds]
  pure ()

def deletePostHash (postId : Uuid) : Py Unit := call (.deleteHash postId)

def getFollowers (authorId : Uuid) : Py (List Uuid) := call (.selectFollowers authorId)

/-! ## The celebrity flag -/

/-- The string a flag is cached as. -/
def flagValue (flag : Bool) : RedisValue := .str (if flag then "1" else "0")

def followersCount (authorId : Uuid) : Py Nat := call (.countFollowers authorId)

def isCelebrity (cfg : Settings) (authorId : Uuid) : Py Bool := do
  let cached ← call (.get authorId)
  match cached with
  | some v => pure v.isOne
  | none => do
      let cnt ← followersCount authorId
      let flag := decide (cfg.celebrityFollowersThreshold ≤ cnt)
      call (.set authorId (flagValue flag) cfg.celebrityCacheTtl)
      pure flag

def getCelebrityFriends (cfg : Settings) (userId : Uuid) : Py (List Uuid) := do
  let friendIds ← call (.selectFriends userId)
  if friendIds.isEmpty then pure []
  else do
    let cached ← call (.mget friendIds)
    let celebrityIds := (friendIds.zip cached).filterMap fun p =>
      p.2.bind fun v => if v.isOne then some p.1 else none
    let missingInCache := (friendIds.zip cached).filterMap fun p =>
      if p.2.isNone then some p.1 else none
    if missingInCache.isEmpty then pure celebrityIds
    else do
      let cntById ← call (.groupFollowers missingInCache)
      let isCeleb := fun fid : Uuid =>
        decide (cfg.celebrityFollowersThreshold ≤ ((cntById.lookup fid).getD 0 : Nat))
      let _ ← pipeline (missingInCache.map fun fid =>
        .set fid (flagValue (isCeleb fid)) cfg.celebrityCacheTtl)
      pure (celebrityIds ++ missingInCache.filter isCeleb)

def fetchRecentPostsByAuthors (authorIds : List Uuid) (limit : Nat) : Py (List FeedItem) :=
  if authorIds.isEmpty then pure []
  else do
    let rows ← call (.selectPosts authorIds limit)
    pure (rows.map fun r => ⟨r.id, r.text, r.authorId, some r.createdAt.isoformat⟩)

/-! ## Writing the feeds -/

def fanOutPost (cfg : Settings) (postId authorId : Uuid) (createdAt : DateTime) : Py Unit := do
  let followers ← getFollowers authorId
  if followers.isEmpty then pure ()
  else do
    let _ ← pipeline (followers.flatMap fun followerId =>
      [.zadd (.feed followerId) createdAt postId, trimFeed cfg.feedMaxSize followerId])
    pure ()

def publishPostEvent (eventType : String) (postId authorId : Uuid) (createdAt : DateTime) :
    Py Unit :=
  call (.xadd ⟨eventType, postId, authorId, createdAt⟩)

def removePostFromAllFeeds (postId authorId : Uuid) : Py Unit := do
  let followers ← getFollowers authorId
  if followers.isEmpty then pure ()
  else do
    let _ ← pipeline (followers.map fun followerId => .zrem (.feed followerId) [postId])
    pure ()

/-- The commands that put one row into a sorted set and its body into Redis. -/
def cacheRow (key : FeedKey) (row : PostRow) : List (Command Unit) :=
  [.zadd key row.createdAt row.id, .hset row.id (rowToPostHash row),
    .expire row.id postHashTtlSeconds]

def addFriendPostsToFeed (cfg : Settings) (userId friendId : Uuid) : Py Unit := do
  let rows ← call (.selectPosts [friendId] cfg.feedMaxSize)
  if rows.isEmpty then pure ()
  else do
    let _ ← pipeline (rows.flatMap (cacheRow (.feed userId)) ++ [trimFeed cfg.feedMaxSize userId])
    pure ()

def removeFriendPostsFromFeed (userId friendId : Uuid) : Py Unit := do
  let postIds ← call (.zrange (.feed userId) 0 (-1))
  if postIds.isEmpty then pure ()
  else do
    let authors ← pipeline (postIds.map .hgetAuthorId)
    let toRemove := (postIds.zip authors).filterMap fun p =>
      if p.2 = some friendId then some p.1 else none
    if toRemove.isEmpty then pure ()
    else call (.zrem (.feed userId) toRemove)

/-- Fill the temporary key and put it in the place of the feed. -/
def swapFeed (userId nonce : Uuid) (rows : List PostRow) : Py Unit := do
  let _ ← pipeline (rows.flatMap (cacheRow (.rebuild userId nonce)))
  call (.rename (.rebuild userId nonce) (.feed userId))

def rebuildFeedForUser (cfg : Settings) (userId nonce : Uuid) : Py Nat := do
  let rows ← call (.selectFriendPosts userId cfg.feedMaxSize)
  if rows.isEmpty then do
    call (.deleteZset (.feed userId))
    pure 0
  else do
    (swapFeed userId nonce rows).tryFinally (call (.deleteZset (.rebuild userId nonce)))
    pure rows.length

/-! ## Reading the feeds -/

/-- `if not exists: await rebuild_feed_for_user(redis, user_id)`. -/
def rebuildOnMiss (cfg : Settings) (userId nonce : Uuid) («exists» : Bool) : Py Unit :=
  if «exists» then pure ()
  else do
    let _ ← rebuildFeedForUser cfg userId nonce
    pure ()

def readFeed (cfg : Settings) (nonce userId : Uuid) (offset limit : Nat) : Py (List FeedItem) := do
  let «exists» ← call (.existsZset (.feed userId))
  rebuildOnMiss cfg userId nonce «exists»
  let postIds ← call (.zrevrange (.feed userId) offset ((offset : Int) + limit - 1))
  if postIds.isEmpty then pure []
  else do
    let hashes ← pipeline (postIds.map .hgetall)
    let result := (postIds.zip hashes).filterMap fun p =>
      p.2.map fun h => (⟨p.1, h.text, h.authorId, none⟩ : FeedItem)
    let staleIds := (postIds.zip hashes).filterMap fun p => if p.2.isNone then some p.1 else none
    if staleIds.isEmpty then pure result
    else do
      call (.zrem (.feed userId) staleIds)
      pure result

/-- The items whose id was not seen before. -/
def uniqueItems : List Uuid → List FeedItem → List FeedItem
  | _, [] => []
  | seen, item :: items =>
      if item.id ∈ seen then uniqueItems seen items
      else item :: uniqueItems (item.id :: seen) items

/-- The sort key `i.get("_created_at", "")`. -/
def FeedItem.sortKey (i : FeedItem) : String := i.createdAt.getD ""

/-- The order of `sort(key=…, reverse=True)`, which is stable. -/
def FeedItem.Before (i j : FeedItem) : Prop := j.sortKey ≤ i.sortKey

instance : DecidableRel FeedItem.Before := fun i j =>
  inferInstanceAs (Decidable (j.sortKey ≤ i.sortKey))

/-- The push part with `_created_at` from the post hashes. -/
def addCreatedAts (pushPart : List FeedItem) : Py (List FeedItem) :=
  if pushPart.isEmpty then pure []
  else do
    let createdAts ← pipeline (pushPart.map fun item => .hgetCreatedAt item.id)
    pure ((pushPart.zip createdAts).map fun p => { p.1 with createdAt := some (p.2.getD "") })

def readFeedMerged (cfg : Settings) (nonce userId : Uuid) (offset limit : Nat) :
    Py (List FeedItem) := do
  let pushPart ← readFeed cfg nonce userId 0 (offset + limit)
  let celebrityAuthors ← getCelebrityFriends cfg userId
  let pullPart ← fetchRecentPostsByAuthors celebrityAuthors (offset + limit)
  let dated ← addCreatedAts pushPart
  let unique := uniqueItems [] (dated ++ pullPart)
  let sorted := unique.insertionSort FeedItem.Before
  pure (((sorted.drop offset).take limit).map fun i => { i with createdAt := none })

end HighLoad.Feed
