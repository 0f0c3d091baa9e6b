/-
# HighLoad.Dialogs.Sharding — chat ids and shard routing (`app/dialogs/sharding.py`)

`computeChatId` hashes an unordered pair of users to a 32-byte chat id; `shardForChat` routes a chat
id to a shard index by its first eight bytes modulo the number of shards. The facts the rest of the
dialog store uses: the chat id is symmetric, its payload determines the unordered pair, and routing
never fails on a chat id and a positive number of shards (`shardForChat_eq`).
-/
import HighLoad.Base

namespace HighLoad.Dialogs

/-- `_CHAT_ID_HASH_VERSION = b"v1"`. -/
def chatIdHashVersion : List UInt8 := [0x76, 0x31]

/-- `_SEPARATOR = b"|"`. -/
def separator : List UInt8 := [0x7c]

/-- A chat id: the 32 bytes of a SHA-256 digest. -/
structure ChatId where
  bytes : List UInt8
  length_bytes : bytes.length = 32
  deriving DecidableEq

/-- The bytes `compute_chat_id` hashes: the two users in ascending order, behind the version. -/
def chatIdPayload (userA userB : Uuid) : List UInt8 :=
  let (lo, hi) := if userA.int ≤ userB.int then (userA, userB) else (userB, userA)
  chatIdHashVersion ++ separator ++ lo.bytes ++ separator ++ hi.bytes

/-- `compute_chat_id(user_a, user_b)`. Irreducible: no proof should look into a digest. -/
@[irreducible] def computeChatId (userA userB : Uuid) : ChatId where
  bytes := Sha256.sha256 (chatIdPayload userA userB)
  length_bytes := Sha256.length_sha256 _

/-- `int.from_bytes(chat_id[:8], "big")`. -/
def bucket (chatId : List UInt8) : Nat :=
  Radix.ofDigits 256 ((chatId.take 8).map UInt8.toNat)

/-- `shard_for_chat(chat_id, n_shards)`. -/
def shardForChat (chatId : List UInt8) (nShards : Int) : Except PyError Nat :=
  if nShards ≤ 0 then
    .error (.valueError "n_shards must be positive")
  else if chatId.length < 8 then
    .error (.valueError "chat_id is too short, expected >= 8 bytes")
  else
    .ok ((bucket chatId : Int) % nShards).toNat

/-! ## The chat id of a pair -/

/-- The payload does not depend on the order of the two users. -/
theorem chatIdPayload_comm (a b : Uuid) : chatIdPayload a b = chatIdPayload b a := by
  simp only [chatIdPayload]
  rcases lt_trichotomy a.int b.int with h | h | h
  · rw [if_pos (by omega), if_neg (by omega)]
  · rw [Uuid.ext h]
  · rw [if_neg (by omega), if_pos (by omega)]

/-- `chat_id(A, B) == chat_id(B, A)`. -/
theorem computeChatId_comm (a b : Uuid) : computeChatId a b = computeChatId b a := by
  simp only [computeChatId, chatIdPayload_comm a b]

/-- The two fixed-length blocks of a payload can be read back from it. -/
theorem payload_blocks_inj {lo hi lo' hi' : Uuid}
    (h : chatIdHashVersion ++ separator ++ lo.bytes ++ separator ++ hi.bytes
      = chatIdHashVersion ++ separator ++ lo'.bytes ++ separator ++ hi'.bytes) :
    lo = lo' ∧ hi = hi' := by
  have h1 := List.append_inj h (by simp)
  have h2 := List.append_inj (List.append_cancel_right h1.1) (by simp)
  exact ⟨Uuid.bytes_injective h2.2, Uuid.bytes_injective h1.2⟩

/-- **The payload determines the unordered pair of users.** -/
theorem chatIdPayload_inj {a b c d : Uuid} (h : chatIdPayload a b = chatIdPayload c d) :
    (a = c ∧ b = d) ∨ (a = d ∧ b = c) := by
  simp only [chatIdPayload] at h
  split_ifs at h
  · exact Or.inl (payload_blocks_inj h)
  · exact Or.inr (payload_blocks_inj h)
  · exact Or.inr (payload_blocks_inj h).symm
  · exact Or.inl (payload_blocks_inj h).symm

/-! ## Routing -/

/-- The shard index of a chat among `n` shards. -/
def route (chatId : ChatId) (n : Nat) : Nat := bucket chatId.bytes % n

theorem route_lt (chatId : ChatId) {n : Nat} (hn : 0 < n) : route chatId n < n :=
  Nat.mod_lt _ hn

/-- **Routing is total on chat ids.** -/
theorem shardForChat_eq (chatId : ChatId) {n : Nat} (hn : 0 < n) :
    shardForChat chatId.bytes (n : Int) = .ok (route chatId n) := by
  have hpos : ¬ ((n : Int) ≤ 0) := by omega
  have hlen : ¬ (chatId.bytes.length < 8) := by rw [chatId.length_bytes]; omega
  simp only [shardForChat, if_neg hpos, if_neg hlen, route]
  norm_cast

end HighLoad.Dialogs
