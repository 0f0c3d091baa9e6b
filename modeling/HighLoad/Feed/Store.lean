/-
# HighLoad.Feed.Store — the stores behind the feed and their commands

The state that the handlers and the workers share: the master database, Redis, the Redis Stream of
fan-out events and the RabbitMQ exchange. `Command` lists every statement and every Redis or AMQP
command they issue, with the type of its reply; `exec` is what a command does.

Redis keys are typed by what they hold: `feed:{id}` and the temporary `feed:{id}:rebuild:{nonce}` are
sorted sets, `post:{id}` is a hash whose three fields are always written together, `celebrity:{id}` is
a string. Expiry is not part of a command: keys vanish by steps of the environment.

A sorted set is ordered by the `created_at` of the posts, where Redis orders it by the doubles that their
`timestamp()` returns. For posts between October 1697 and March 2242 this is the same, reply by reply
(`HighLoad.Feed.Scores`); later ones can share a double although their times differ.
-/
import HighLoad.Feed.Database
import HighLoad.Lib.Prog
import HighLoad.Lib.SortedSet
import Mathlib.Logic.Function.Basic

namespace HighLoad.Feed

/-! ## Settings -/

/-- The settings of the feed. -/
structure Settings where
  feedMaxSize : Nat := 1000
  feedFanoutAsync : Bool := false
  feedTransport : String := "redis_streams"
  rabbitmqMaterializeRoutingKey : String := "feed.materialize"
  rabbitmqUserRoutingPrefix : String := "feed.user"
  celebrityFollowersThreshold : Int := 10000
  celebrityCacheTtl : Int := 300

/-! ## Redis -/

/-- `feed:{user_id}` and `feed:{user_id}:rebuild:{nonce}`. -/
inductive FeedKey where
  | feed (userId : Uuid)
  | rebuild (userId nonce : Uuid)
  deriving DecidableEq

/-- A feed: post ids in the order of `created_at`. -/
abbrev FeedSet := SortedSet DateTime Uuid

/-- The hash `post:{id}`. -/
structure PostHash where
  text : String
  authorId : Uuid
  createdAt : String
  deriving DecidableEq

/-- A string value, as the client returns it with and without `decode_responses`. -/
inductive RedisValue where
  | str (s : String)
  | bytes (b : List UInt8)
  deriving DecidableEq

/-- `val == b"1" or val == "1"`. -/
def RedisValue.isOne : RedisValue → Bool
  | .str s => s == "1"
  | .bytes b => b == [49]

/-- The keys of Redis; an absent sorted set is the empty one. -/
@[ext] structure Redis where
  zsets : FeedKey → FeedSet
  posts : Uuid → Option PostHash
  celebrity : Uuid → Option RedisValue

/-- Redis without keys. -/
def Redis.empty : Redis where
  zsets _ := SortedSet.empty
  posts _ := none
  celebrity _ := none

/-! ## Messages -/

/-- An entry of the Redis Stream. -/
structure StreamEvent where
  eventType : String
  postId : Uuid
  authorId : Uuid
  createdAt : DateTime

/-- The body of a message for the materializer; `text` is absent from a deletion. -/
structure PostEvent where
  eventType : String
  postId : Uuid
  authorId : Uuid
  text : Option String
  createdAt : DateTime

/-- The payload pushed to a WebSocket. -/
structure PostNew where
  type : String
  postId : Uuid
  authorId : Uuid
  textPreview : String
  createdAt : String
  deriving DecidableEq

/-- What `RabbitClient.publish` is given to serialize. -/
inductive Payload where
  | event (e : PostEvent)
  | notification (n : PostNew)

/-- A message published to the topic exchange. -/
structure Publication where
  routingKey : String
  payload : Payload
  persistent : Bool

/-! ## The world -/

/-- The stores. -/
@[ext] structure World where
  db : Database
  redis : Redis
  stream : List StreamEvent
  published : List Publication

namespace World

/-- Users, and nothing else. -/
def ofUsers (users : List Uuid) : World where
  db := Database.ofUsers users
  redis := Redis.empty
  stream := []
  published := []

/-- The feed of a user. -/
def feed (w : World) (userId : Uuid) : FeedSet := w.redis.zsets (.feed userId)

/-- Replace one sorted set. -/
def modifyZset (w : World) (key : FeedKey) (f : FeedSet → FeedSet) : World :=
  { w with redis := { w.redis with
      zsets := Function.update w.redis.zsets key (f (w.redis.zsets key)) } }

/-- Write or delete one post hash. -/
def setPost (w : World) (id : Uuid) (h : Option PostHash) : World :=
  { w with redis := { w.redis with posts := Function.update w.redis.posts id h } }

/-- Write or delete one celebrity flag. -/
def setCelebrity (w : World) (id : Uuid) (v : Option RedisValue) : World :=
  { w with redis := { w.redis with celebrity := Function.update w.redis.celebrity id v } }

end World

/-! ## Commands -/

/-- The statements and commands, indexed by their reply. -/
inductive Command : Type → Type where
  -- SQL on the master
  | insertPost (authorId : Uuid) (text : String) (id : Uuid) (now : DateTime) :
      Command (Option PostRow)
  | updatePost (text : String) (id authorId : Uuid) : Command (Option PostRow)
  | deletePost (id authorId : Uuid) : Command (Option PostRow)
  | userExists (id : Uuid) : Command Bool
  | insertFriendship (userId friendId : Uuid) : Command Unit
  | deleteFriendship (userId friendId : Uuid) : Command Unit
  | selectFollowers (authorId : Uuid) : Command (List Uuid)
  | selectFriends (userId : Uuid) : Command (List Uuid)
  | countFollowers (authorId : Uuid) : Command Nat
  | groupFollowers (authorIds : List Uuid) : Command (List (Uuid × Nat))
  | selectPosts (authorIds : List Uuid) (limit : Nat) : Command (List PostRow)
  | selectFriendPosts (userId : Uuid) (limit : Nat) : Command (List PostRow)
  -- sorted sets; the score that is sent is `score.timestamp()`
  | zadd (key : FeedKey) (score : DateTime) (member : Uuid) : Command Unit
  | zrem (key : FeedKey) (members : List Uuid) : Command Unit
  | zremrangebyrank (key : FeedKey) (start stop : Int) : Command Unit
  | zrange (key : FeedKey) (start stop : Int) : Command (List Uuid)
  | zrevrange (key : FeedKey) (start stop : Int) : Command (List Uuid)
  | existsZset (key : FeedKey) : Command Bool
  | deleteZset (key : FeedKey) : Command Unit
  | rename (source target : FeedKey) : Command Unit
  -- hashes
  | hset (id : Uuid) (mapping : PostHash) : Command Unit
  | hgetall (id : Uuid) : Command (Option PostHash)
  | hgetText (id : Uuid) : Command (Option String)
  | hgetAuthorId (id : Uuid) : Command (Option Uuid)
  | hgetCreatedAt (id : Uuid) : Command (Option String)
  | expire (id : Uuid) (seconds : Nat) : Command Unit
  | deleteHash (id : Uuid) : Command Unit
  -- strings
  | get (id : Uuid) : Command (Option RedisValue)
  | mget (ids : List Uuid) : Command (List (Option RedisValue))
  | set (id : Uuid) (value : RedisValue) (ex : Int) : Command Unit
  -- events
  | xadd (event : StreamEvent) : Command Unit
  | publish (routingKey : String) (payload : Payload) (persistent : Bool) : Command Unit

/-- What a command does. Only the three writes of the database and RENAME can raise here; every other
exception is a fault of the environment. -/
def exec (order : RowOrder) : Handler Command PyError World
  | _, .insertPost authorId text id now, w =>
      (w.db.insertPost authorId text id now).map fun r => (r.1, { w with db := r.2 })
  | _, .updatePost text id authorId, w =>
      .ok ((w.db.updatePost text id authorId).1,
        { w with db := (w.db.updatePost text id authorId).2 })
  | _, .deletePost id authorId, w =>
      .ok ((w.db.deletePost id authorId).1, { w with db := (w.db.deletePost id authorId).2 })
  | _, .userExists id, w => .ok (w.db.userExists id, w)
  | _, .insertFriendship userId friendId, w =>
      (w.db.insertFriendship userId friendId).map fun db => ((), { w with db := db })
  | _, .deleteFriendship userId friendId, w =>
      .ok ((), { w with db := w.db.deleteFriendship userId friendId })
  | _, .selectFollowers authorId, w => .ok (w.db.followers authorId, w)
  | _, .selectFriends userId, w => .ok (w.db.friends userId, w)
  | _, .countFollowers authorId, w => .ok (w.db.countFollowers authorId, w)
  | _, .groupFollowers authorIds, w => .ok (w.db.groupFollowers authorIds, w)
  | _, .selectPosts authorIds limit, w => .ok (w.db.recentPosts order authorIds limit, w)
  | _, .selectFriendPosts userId limit, w => .ok (w.db.recentFriendPosts order userId limit, w)
  | _, .zadd key score member, w => .ok ((), w.modifyZset key fun z => z.add score member)
  | _, .zrem key members, w => .ok ((), w.modifyZset key fun z => z.removeAll members)
  | _, .zremrangebyrank key start stop, w =>
      .ok ((), w.modifyZset key fun z => z.removeRangeByRank start stop)
  | _, .zrange key start stop, w => .ok ((w.redis.zsets key).range start stop, w)
  | _, .zrevrange key start stop, w => .ok ((w.redis.zsets key).revRange start stop, w)
  | _, .existsZset key, w => .ok ((w.redis.zsets key).exists, w)
  | _, .deleteZset key, w => .ok ((), w.modifyZset key fun _ => SortedSet.empty)
  | _, .rename source target, w =>
      if (w.redis.zsets source).exists then
        .ok ((), (w.modifyZset target fun _ => w.redis.zsets source).modifyZset source
          fun _ => SortedSet.empty)
      else .error (.redisError "no such key")
  | _, .hset id mapping, w => .ok ((), w.setPost id (some mapping))
  | _, .hgetall id, w => .ok (w.redis.posts id, w)
  | _, .hgetText id, w => .ok ((w.redis.posts id).map PostHash.text, w)
  | _, .hgetAuthorId id, w => .ok ((w.redis.posts id).map PostHash.authorId, w)
  | _, .hgetCreatedAt id, w => .ok ((w.redis.posts id).map PostHash.createdAt, w)
  | _, .expire _ _, w => .ok ((), w)
  | _, .deleteHash id, w => .ok ((), w.setPost id none)
  | _, .get id, w => .ok (w.redis.celebrity id, w)
  | _, .mget ids, w => .ok (ids.map w.redis.celebrity, w)
  | _, .set id value _, w => .ok ((), w.setCelebrity id (some value))
  | _, .xadd event, w => .ok ((), { w with stream := w.stream ++ [event] })
  | _, .publish routingKey payload persistent, w =>
      .ok ((), { w with published := w.published ++ [⟨routingKey, payload, persistent⟩] })

/-- A program over the stores. -/
abbrev Py (α : Type) := Prog Command PyError α

end HighLoad.Feed
