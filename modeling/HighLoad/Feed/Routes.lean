/-
# HighLoad.Feed.Routes — the HTTP handlers and the workers

The handlers of `routes/posts.py` and `routes/friends.py`, and the message handlers of the two
workers. What a handler draws from its surroundings is an argument: the id and the time the server
gives a new row, the clock, the nonce of a rebuild.
-/
import HighLoad.Feed.Cache

namespace HighLoad.Feed

open Prog

/-- `Post` of the response models. -/
structure Post where
  id : Uuid
  text : String
  authorUserId : Uuid
  deriving DecidableEq

/-- The body of a response. -/
inductive Response where
  | postId (id : Uuid)
  | ok
  | loaded (postsLoaded : Nat)
  | posts (posts : List Post)
  deriving DecidableEq

/-! ## Posts -/

/-- `RabbitClient.publish` of a task for the materializer. -/
def publishTask (cfg : Settings) (event : PostEvent) : Py Unit :=
  call (.publish cfg.rabbitmqMaterializeRoutingKey (.event event) true)

def postNotOwned : PyError := .httpException 404 "Post not found or not owned by user"

/-- How `create_post` has the post fanned out. -/
def announceCreated (cfg : Settings) (currentUser : Uuid) (text : String) (row : PostRow) : Py Unit :=
  if cfg.feedTransport = "rabbitmq" then
    publishTask cfg ⟨"created", row.id, currentUser, some text, row.createdAt⟩
  else if cfg.feedFanoutAsync then
    publishPostEvent "created" row.id currentUser row.createdAt
  else
    fanOutPost cfg row.id currentUser row.createdAt

/-- How `delete_post` has the post removed from the feeds. -/
def announceDeleted (cfg : Settings) (currentUser id : Uuid) (now : DateTime) : Py Unit :=
  if cfg.feedTransport = "rabbitmq" then
    publishTask cfg ⟨"deleted", id, currentUser, none, now⟩
  else if cfg.feedFanoutAsync then
    publishPostEvent "deleted" id currentUser now
  else
    removePostFromAllFeeds id currentUser

def createPost (cfg : Settings) (currentUser : Uuid) (text : String) (id : Uuid) (now : DateTime) :
    Py Response := do
  let row ← call (.insertPost currentUser text id now)
  match row with
  | none => raise (.httpException 500 "Failed to create post")
  | some row => do
      storePostHash row.id text currentUser row.createdAt
      announceCreated cfg currentUser text row
      pure (.postId row.id)

def updatePost (currentUser id : Uuid) (text : String) : Py Response := do
  let row ← call (.updatePost text id currentUser)
  match row with
  | none => raise postNotOwned
  | some row => do
      storePostHash id text currentUser row.createdAt
      pure .ok

def deletePost (cfg : Settings) (currentUser id : Uuid) (now : DateTime) : Py Response := do
  let row ← call (.deletePost id currentUser)
  match row with
  | none => raise postNotOwned
  | some _ => do
      deletePostHash id
      announceDeleted cfg currentUser id now
      pure .ok

/-- `Post(id=UUID(item["id"]), …)`. -/
def FeedItem.toPost (i : FeedItem) : Post := ⟨i.id, i.text, i.authorUserId⟩

/-- The reader of the transport. -/
def readItems (cfg : Settings) (nonce userId : Uuid) (offset limit : Nat) : Py (List FeedItem) :=
  if cfg.feedTransport = "rabbitmq" then readFeedMerged cfg nonce userId offset limit
  else readFeed cfg nonce userId offset limit

def getFeed (cfg : Settings) (currentUser nonce : Uuid) (offset limit : Int) : Py Response :=
  if offset < 0 ∨ limit < 1 ∨ 1000 < limit then raise .requestValidationError
  else do
    let items ← readItems cfg nonce currentUser offset.toNat limit.toNat
    pure (.posts (items.map FeedItem.toPost))

def rebuildFeed (cfg : Settings) (currentUser nonce : Uuid) : Py Response := do
  let added ← rebuildFeedForUser cfg currentUser nonce
  pure (.loaded added)

/-! ## Friends -/

def setFriend (cfg : Settings) (currentUser userId : Uuid) : Py Response :=
  if userId = currentUser then raise (.httpException 400 "Cannot befriend yourself")
  else do
    let «exists» ← call (.userExists userId)
    if !«exists» then raise (.httpException 404 "Target user not found")
    else do
      call (.insertFriendship currentUser userId)
      addFriendPostsToFeed cfg currentUser userId
      pure .ok

def deleteFriend (currentUser userId : Uuid) : Py Response := do
  call (.deleteFriendship currentUser userId)
  removeFriendPostsFromFeed currentUser userId
  pure .ok

/-! ## The Redis Streams worker -/

/-- `_handle_event` on an event whose fields are well formed. -/
def handleEvent (cfg : Settings) (event : StreamEvent) : Py Unit :=
  if event.eventType = "created" then
    fanOutPost cfg event.postId event.authorId event.createdAt
  else if event.eventType = "deleted" then
    removePostFromAllFeeds event.postId event.authorId
  else pure ()

/-! ## The RabbitMQ worker -/

/-- `user_routing_key`. -/
def userRoutingKey (cfg : Settings) (userId : Uuid) : String :=
  cfg.rabbitmqUserRoutingPrefix ++ "." ++ userId.str

/-- `text[:200]`. -/
def textPreview (text : String) : String := String.ofList (text.toList.take 200)

/-- `body.get("text") or ""`. -/
def PostEvent.bodyText (body : PostEvent) : String := body.text.getD ""

/-- Store the body that came with the event. -/
def storeBody (body : PostEvent) : Py Unit :=
  if body.bodyText ≠ "" then
    storePostHash body.postId body.bodyText body.authorId body.createdAt
  else pure ()

/-- The text of the notification: that of the event, else that of the hash. -/
def notificationText (body : PostEvent) : Py String :=
  if body.bodyText ≠ "" then pure body.bodyText
  else do
    let cached ← call (.hgetText body.postId)
    pure (cached.getD "")

/-- The payload for the followers' sockets. -/
def postNew (body : PostEvent) (text : String) : PostNew :=
  ⟨"post.new", body.postId, body.authorId, textPreview text, body.createdAt.isoformat⟩

def publishWsEvent (cfg : Settings) (payload : PostNew) (follower : Uuid) : Command Unit :=
  .publish (userRoutingKey cfg follower) (.notification payload) false

/-- The targeted notifications. -/
def notifyFollowers (cfg : Settings) (body : PostEvent) : Py Unit := do
  let followers ← getFollowers body.authorId
  if followers.isEmpty then pure ()
  else do
    let text ← notificationText body
    let _ ← pipeline (followers.map (publishWsEvent cfg (postNew body text)))
    pure ()

def handleCreated (cfg : Settings) (body : PostEvent) : Py Unit := do
  storeBody body
  let celebrity ← isCelebrity cfg body.authorId
  if celebrity then pure ()
  else do
    fanOutPost cfg body.postId body.authorId body.createdAt
    notifyFollowers cfg body

def handleDeleted (body : PostEvent) : Py Unit :=
  removePostFromAllFeeds body.postId body.authorId

/-- `_handle_message` on a well-formed body. -/
def handleMessage (cfg : Settings) (body : PostEvent) : Py Unit :=
  if body.eventType = "created" then handleCreated cfg body
  else if body.eventType = "deleted" then handleDeleted body
  else pure ()

end HighLoad.Feed
