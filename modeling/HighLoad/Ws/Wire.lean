/-
# HighLoad.Ws.Wire — events and notifications as bytes

`RabbitClient.publish` writes a payload with `_dumps`; the worker of the durable queue and the bridge
read the bytes with `json.loads`. Every payload comes back as it was published, whatever characters the
text of the post has, and no two payloads share their bytes (`payload_bytes`). So what the handlers do
with bytes is what they do with the payloads themselves (`bytes_handled`), in which form the queue of the
materializer and the deliveries to the sockets are studied.
-/
import HighLoad.Feed.Materializer
import HighLoad.Json
import HighLoad.Ws.Delivery

namespace HighLoad.Ws.Wire

open Feed (Fields eventTime Payload PostEvent PostNew Publication Py Settings bodyUuid bodyUuid_str bodyCreatedAt
  bodyCreatedAt_isoformat handleBody handleCreated handleCreatedBody handleDeleted handleDeletedBody
  handleMessage)
open Feed.Materializer (RawBody handleRaw)
open Delivery (Document Message messageOf)
open Prog

/-! ## Writing -/

/-- The dict given to `RabbitClient.publish`, ids by their strings (`_UUIDEncoder`). -/
def fieldsOf : Payload → Fields
  | .event e =>
      [("event_type", e.eventType), ("post_id", e.postId.str), ("author_id", e.authorId.str)] ++
        e.text.toList.map (("text", ·)) ++ [("created_at", eventTime e.eventType e.createdAt)]
  | .notification n =>
      [("type", n.type), ("post_id", n.postId.str), ("author_id", n.authorId.str),
        ("text_preview", n.textPreview), ("created_at", n.createdAt)]

/-- `_dumps(payload)`. -/
def dumps (p : Payload) : List UInt8 := Json.encodeUtf8 (Json.dumps (fieldsOf p))

/-! ## Reading -/

/-- A text, when the value is one. -/
def asText : Json → Option String
  | .str s => some s
  | _ => none

/-- The members of a dict that are texts. -/
def texts (fields : List (String × Json)) : Fields :=
  fields.filterMap fun kv => (asText kv.2).map (kv.1, ·)

/-- `bool(value)`. -/
def truthy : Json → Bool
  | .null => false
  | .bool b => b
  | .number literal => ((literal.takeWhile fun c => c ≠ 'e' && c ≠ 'E').any fun c =>
      c.isAlpha || '1' ≤ c && c ≤ '9')
  | .str s => s ≠ ""
  | .arr items => !items.isEmpty
  | .obj fields => !fields.isEmpty

/-- A value of `text` that `hset` is given, `body.get("text") or ""`, and that is no text. -/
def unstorable (value : Json) : Bool := truthy value && (asText value).isNone

/-- The body of a message of the durable queue. A value that is no text serves as an id, a time or a type
as little as a missing one, and as a text when it is empty (`null`, `0`, `[]`). Redis takes no other as
the text of a created event, except for a number, which it would store: here that raises too. -/
def bodyOf (raw : List UInt8) : RawBody :=
  match Json.loads raw with
  | some (.obj fields) =>
      if (texts fields).lookup "event_type" = some "created" ∧
          (fields.lookup "text").any unstorable = true then .malformed raw
      else .json (texts fields)
  | _ => .malformed raw

/-- The body of the loop of the bridge up to the push, on the bytes of a message that `json.loads` does not
find too deep: what is pushed to whom, nothing when the message is dropped. -/
def consume (routingKey : String) (raw : List UInt8) : Option (Uuid × Json) :=
  match Json.loads raw with
  | none => none
  | some payload => (consumedFor routingKey).map fun userId => (userId, payload)

/-- The value that a published payload is. -/
def valueOf (p : Payload) : Json := .obj (Json.members (fieldsOf p))

/-! ## The bytes of a payload -/

theorem nodup_fieldsOf (p : Payload) : ((fieldsOf p).map Prod.fst).Nodup := by
  cases p with
  | event e => cases h : e.text <;> simp [fieldsOf, h]
  | notification n => simp [fieldsOf]

/-- What was published is read back. -/
theorem loads_dumps (p : Payload) : Json.loads (dumps p) = some (valueOf p) :=
  Json.loads_encode_dumps (nodup_fieldsOf p)

theorem texts_members (fields : Fields) : texts (Json.members fields) = fields := by
  unfold texts Json.members
  rw [List.filterMap_map]
  exact List.filterMap_some

/-- All the values of a payload are texts. -/
theorem any_unstorable_members (fields : Fields) (key : String) :
    ((Json.members fields).lookup key).any unstorable = false := by
  induction fields with
  | nil => rfl
  | cons kv kvs ih =>
      show (((kv.1, Json.str kv.2) :: Json.members kvs).lookup key).any unstorable = false
      rw [List.lookup_cons]
      split
      · exact Bool.and_false _
      · exact ih

theorem bodyOf_dumps (p : Payload) : bodyOf (dumps p) = .json (fieldsOf p) := by
  unfold bodyOf
  rw [loads_dumps, valueOf]
  dsimp only
  rw [texts_members, any_unstorable_members, if_neg fun h => Bool.false_ne_true h.2]

theorem str_injective {u v : Uuid} (h : u.str = v.str) : u = v := by
  have hparse := Uuid.parse_str u
  rw [h, Uuid.parse_str] at hparse
  exact (Option.some.inj hparse).symm

theorem isoformat_injective {s t : DateTime} (h : s.isoformat = t.isoformat) : s = t := by
  have hparse := DateTime.fromisoformat_isoformat s
  rw [h, DateTime.fromisoformat_isoformat] at hparse
  exact (Option.some.inj hparse).symm

/-- The times of events of one type differ in their texts. -/
theorem eventTime_injective {eventType : String} {s t : DateTime}
    (h : eventTime eventType s = eventTime eventType t) : s = t := by
  unfold eventTime at h
  split_ifs at h
  · have htext := congrArg String.toList h
    rw [String.toList_append, String.toList_append] at htext
    exact isoformat_injective (String.toList_injective (List.append_cancel_right htext))
  · exact isoformat_injective h

/-- A payload is known by its fields. -/
theorem fieldsOf_injective : Function.Injective fieldsOf := by
  intro p q h
  cases p with
  | event e =>
      cases q with
      | event e' =>
          obtain ⟨type, post, author, text, created⟩ := e
          obtain ⟨type', post', author', text', created'⟩ := e'
          cases text <;> cases text' <;>
            simp only [fieldsOf, Option.toList_none, Option.toList_some, List.map_nil, List.map_cons,
              List.cons_append, List.nil_append, List.cons.injEq, Prod.mk.injEq, true_and, and_true,
              reduceCtorEq, and_false] at h
          · obtain ⟨rfl, hpost, hauthor, hcreated⟩ := h
            rw [str_injective hpost, str_injective hauthor, eventTime_injective hcreated]
          · obtain ⟨rfl, hpost, hauthor, rfl, hcreated⟩ := h
            rw [str_injective hpost, str_injective hauthor, eventTime_injective hcreated]
      | notification n => simp [fieldsOf] at h
  | notification n =>
      cases q with
      | event e => simp [fieldsOf] at h
      | notification n' =>
          obtain ⟨type, post, author, preview, created⟩ := n
          obtain ⟨type', post', author', preview', created'⟩ := n'
          simp only [fieldsOf, List.cons.injEq, Prod.mk.injEq, true_and, and_true] at h
          obtain ⟨rfl, hpost, hauthor, rfl, rfl⟩ := h
          rw [str_injective hpost, str_injective hauthor]

/-- **Payloads survive the wire**: the bytes are printable ASCII, they are read back as what was
published, and no other payload has them. -/
theorem payload_bytes (p : Payload) :
    (∀ b ∈ dumps p, 0x20 ≤ b.toNat ∧ b.toNat ≤ 0x7e) ∧ Json.loads (dumps p) = some (valueOf p) ∧
      ∀ q, dumps q = dumps p → q = p := by
  refine ⟨Json.encodeUtf8_printable (Json.printable_dumps _), loads_dumps p, fun q hq => ?_⟩
  have hbody := bodyOf_dumps q
  rw [hq, bodyOf_dumps] at hbody
  exact (fieldsOf_injective (RawBody.json.inj hbody)).symm

/-! ## The handlers -/

/-- A created event, from its bytes. -/
theorem handleCreatedBody_fieldsOf (cfg : Settings) (e : PostEvent) (h : e.eventType = "created") :
    handleCreatedBody cfg (fieldsOf (.event e)) = handleCreated cfg e := by
  obtain ⟨type, post, author, text, created⟩ := e
  obtain rfl : type = "created" := h
  have hpost : bodyUuid (fieldsOf (.event ⟨"created", post, author, text, created⟩)) "post_id" = pure post :=
    bodyUuid_str rfl
  have hauthor : bodyUuid (fieldsOf (.event ⟨"created", post, author, text, created⟩)) "author_id"
      = pure author :=
    bodyUuid_str rfl
  have hcreated : bodyCreatedAt (fieldsOf (.event ⟨"created", post, author, text, created⟩))
      = pure created := by
    refine bodyCreatedAt_isoformat ?_
    cases text <;> rfl
  have htext : (fieldsOf (.event ⟨"created", post, author, text, created⟩)).lookup "text" = text := by
    cases text <;> rfl
  unfold handleCreatedBody
  rw [hpost, pure_bind_eq, hauthor, pure_bind_eq, hcreated, pure_bind_eq, htext]

theorem handleDeletedBody_fieldsOf (e : PostEvent) :
    handleDeletedBody (fieldsOf (.event e)) = handleDeleted e := by
  have hpost : bodyUuid (fieldsOf (.event e)) "post_id" = pure e.postId := bodyUuid_str rfl
  have hauthor : bodyUuid (fieldsOf (.event e)) "author_id" = pure e.authorId := bodyUuid_str rfl
  unfold handleDeletedBody
  rw [hpost, pure_bind_eq, hauthor, pure_bind_eq]
  rfl

/-- **The bytes are handled as the payloads are**: the worker does with the bytes of an event what
`_handle_message` does with the event, and the bridge pushes from the bytes of a publication the
published payload, to whom it pushes the publication. -/
theorem bytes_handled (cfg : Settings) :
    (∀ e : PostEvent, handleRaw cfg (bodyOf (dumps (.event e))) = handleMessage cfg e) ∧
      ∀ p : Publication, consume p.routingKey (dumps p.payload)
        = (messageOf p).target.map fun target => (target.1, valueOf p.payload) := by
  constructor
  · intro e
    have htype : (fieldsOf (.event e)).lookup "event_type" = some e.eventType := rfl
    rw [bodyOf_dumps]
    show handleBody cfg (fieldsOf (.event e)) = handleMessage cfg e
    unfold handleBody handleMessage
    rw [htype, handleDeletedBody_fieldsOf]
    by_cases hcreated : e.eventType = "created"
    · rw [if_pos (congrArg some hcreated), if_pos hcreated, handleCreatedBody_fieldsOf cfg e hcreated]
    · rw [if_neg (fun h => hcreated (Option.some.inj h)), if_neg hcreated]
      simp only [Option.some.injEq]
  · intro p
    unfold consume
    rw [loads_dumps]
    show (consumedFor p.routingKey).map _ = ((consumedFor p.routingKey).map _).map _
    rw [Option.map_map]
    rfl

end HighLoad.Ws.Wire
