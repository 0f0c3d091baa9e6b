/-
# HighLoad.Dialogs.Log — the sharded store as one log of messages

What the dialog store is for: every message ever sent, in one sequence. `conversation` is the page a
reader should see of it: the messages between two users in either direction, newest first, a later
send first among equal timestamps. On a cluster with one fixed layout and no dual-write, `list`
returns exactly that page (`list_eq_conversation`), although each shard numbers its rows by itself.
-/
import HighLoad.Dialogs.PgRepository

namespace HighLoad.Dialogs

open DialogsCluster

/-! ## The log -/

/-- One `send(from_id, to_id, text)` call, with the message id it draws and the time it is stored. -/
structure SendArgs where
  fromId : Uuid
  toId : Uuid
  text : String
  messageId : Uuid
  createdAt : DateTime

namespace SendArgs

/-- The columns stored for the call. -/
def stored (s : SendArgs) : StoredMessage :=
  ⟨newMessage s.fromId s.toId s.text s.messageId, s.createdAt⟩

/-- The call itself. -/
def run (s : SendArgs) : ClusterM Unit :=
  send s.fromId s.toId s.text s.messageId fun _ => s.createdAt

@[simp] theorem chatId_stored (s : SendArgs) :
    s.stored.message.chatId = computeChatId s.fromId s.toId := rfl

@[simp] theorem messageId_stored (s : SendArgs) : s.stored.messageId = s.messageId := rfl

/-- The call goes from one of the two users to the other. -/
def Between (a b : Uuid) (s : SendArgs) : Prop :=
  (s.fromId = a ∧ s.toId = b) ∨ (s.fromId = b ∧ s.toId = a)

instance (a b : Uuid) : DecidablePred (Between a b) := fun _ =>
  inferInstanceAs (Decidable (_ ∨ _))

/-- What a reader sees of the call. -/
def toDTO (s : SendArgs) : DialogMessageDTO where
  fromUserId := s.fromId
  toUserId := s.toId
  text := s.text
  createdAt := s.createdAt

end SendArgs

/-- The calls made so far, in order. `uuid4()` draws a new message id for each of them. -/
structure Log where
  sends : List SendArgs
  fresh : (sends.map SendArgs.messageId).Nodup

/-- The page `[offset, offset + limit)` of the messages between two users: newest first, and the
later call first where timestamps are equal. -/
def Log.conversation (log : Log) (a b : Uuid) (limit offset : Nat) : List DialogMessageDTO :=
  let messages := log.sends.zipIdx.filter fun s => s.1.Between a b
  let sorted := messages.insertionSort
    (TieBreak.Newest SendArgs.createdAt Prod.fst Prod.snd)
  ((sorted.drop offset).take limit).map fun s => s.1.toDTO

/-- A cluster of `N` empty shards with `read_n = write_n = n` and no dual-write. -/
def fresh (N n : Nat) : DialogsCluster where
  pools := List.replicate N SerialTable.empty
  readN := n
  writeN := n
  dualWrite := false

theorem shard_fresh (N n i : Nat) : (fresh N n).shard i = SerialTable.empty := by
  unfold fresh shard
  rw [List.getD_eq_getElem?_getD, List.getElem?_replicate]
  split_ifs <;> rfl

/-! ## Each shard holds its part of the log -/

/-- The shards hold the calls `sends`, each shard those routed to it, in order. -/
structure Holds (N n : Nat) (c : DialogsCluster) (sends : List SendArgs) : Prop where
  nShards : c.nShards = N
  readN : c.readN = n
  writeN : c.writeN = n
  dualWrite : c.dualWrite = false
  rows : ∀ i < N, (c.shard i).rows.map SerialRow.val
    = (sends.filter fun s => route (computeChatId s.fromId s.toId) n = i).map SendArgs.stored

section Refinement

variable {N n : Nat}

theorem holds_fresh (N n : Nat) : Holds N n (fresh N n) [] where
  nShards := by simp [fresh, DialogsCluster.nShards]
  readN := rfl
  writeN := rfl
  dualWrite := rfl
  rows := by
    intro i _
    rw [shard_fresh]
    rfl

/-- A call with a new message id adds its message to the shard it is routed to, and changes nothing
else. -/
theorem Holds.send {c : DialogsCluster} {sends : List SendArgs} (h : Holds N n c sends)
    (h1 : 1 ≤ n) (hN : n ≤ N) {s : SendArgs} (hnew : s.messageId ∉ sends.map SendArgs.messageId) :
    ∃ c', s.run c = .ok () c' ∧ Holds N n c' (sends ++ [s]) := by
  obtain ⟨idx, hidx⟩ : ∃ idx, idx = route (computeChatId s.fromId s.toId) n := ⟨_, rfl⟩
  have hlt : idx < N := hidx ▸ (route_lt _ h1).trans_le hN
  have hpools : c.writePoolsForChat (computeChatId s.fromId s.toId) = .ok [idx] := by
    have hn : n ≤ c.nShards := h.nShards ▸ hN
    rw [writePoolsForChat_eq h.readN h1 hn h.writeN h1 hn, h.dualWrite]
    simp [hidx]
  have hfree : (c.shard idx).contains s.messageId = false := by
    rw [← Bool.not_eq_true, SerialTable.contains_iff]
    rintro ⟨r, hr, hid⟩
    have hmem : r.val ∈ (c.shard idx).rows.map SerialRow.val := List.mem_map_of_mem hr
    rw [h.rows idx hlt] at hmem
    obtain ⟨s', hs', heq⟩ := List.mem_map.mp hmem
    refine hnew (List.mem_map.mpr ⟨s', List.mem_of_mem_filter hs', ?_⟩)
    rw [← hid, ← heq]
    rfl
  refine ⟨c.insertMessage idx s.stored, ?_, ?_⟩
  · rw [SendArgs.run, send_eq hpools, insertAll_singleton, SendArgs.stored]
  · refine
      { nShards := by simp [h.nShards]
        readN := h.readN
        writeN := h.writeN
        dualWrite := h.dualWrite
        rows := ?_ }
    intro i hi
    rw [List.filter_append, List.map_append, ← h.rows i hi]
    by_cases hii : idx = i
    · subst hii
      rw [insertMessage, shard_modifyShard_self (h.nShards ▸ hlt),
        SerialTable.rows_insert_of_not_contains hfree]
      simp [← hidx]
    · rw [insertMessage, shard_modifyShard_ne hii]
      simp [← hidx, hii]

/-- **The run lemma**: after any sequence of calls each shard holds its part of the log. -/
theorem Holds.run {c : DialogsCluster} {done sends : List SendArgs} (h : Holds N n c done)
    (h1 : 1 ≤ n) (hN : n ≤ N) (hfresh : ((done ++ sends).map SendArgs.messageId).Nodup) :
    ∃ c', sends.forM SendArgs.run c = .ok () c' ∧ Holds N n c' (done ++ sends) := by
  induction sends generalizing c done with
  | nil => exact ⟨c, rfl, by rwa [List.append_nil]⟩
  | cons s sends ih =>
      have hnew : s.messageId ∉ done.map SendArgs.messageId := by
        intro hmem
        rw [List.map_append, List.nodup_append] at hfresh
        exact hfresh.2.2 _ hmem _ List.mem_cons_self rfl
      obtain ⟨c₁, hs, hholds⟩ := h.send h1 hN hnew
      obtain ⟨c', hrest, hfinal⟩ := ih hholds (by simpa using hfresh)
      refine ⟨c', ?_, by simpa using hfinal⟩
      show (s.run >>= fun _ => sends.forM SendArgs.run) c = _
      rw [bind_eq_of_ok hs]
      exact hrest

/-- Two calls share a chat exactly when they are between the same two users, unless SHA-256 collides
on their payloads. -/
theorem chatId_eq_iff_between {a b : Uuid} {s : SendArgs}
    (hcoll : computeChatId s.fromId s.toId = computeChatId a b →
      chatIdPayload s.fromId s.toId = chatIdPayload a b) :
    computeChatId s.fromId s.toId = computeChatId a b ↔ s.Between a b := by
  constructor
  · intro h
    exact chatIdPayload_inj (hcoll h)
  · rintro (⟨ha, hb⟩ | ⟨ha, hb⟩)
    · rw [ha, hb]
    · rw [ha, hb, computeChatId_comm]

/-- The rows of a chat on its shard carry the messages between the two users, in order. -/
theorem Holds.chat_rows {c : DialogsCluster} {sends : List SendArgs} (h : Holds N n c sends)
    (h1 : 1 ≤ n) (hN : n ≤ N) {a b : Uuid}
    (hcoll : ∀ s ∈ sends, computeChatId s.fromId s.toId = computeChatId a b →
      chatIdPayload s.fromId s.toId = chatIdPayload a b) :
    ((c.shard (route (computeChatId a b) n)).rows.filter
      fun r => r.val.message.chatId = computeChatId a b).map SerialRow.val
      = (sends.filter fun s => s.Between a b).map SendArgs.stored := by
  have hlt : route (computeChatId a b) n < N := (route_lt _ h1).trans_le hN
  have hfilter : ((c.shard (route (computeChatId a b) n)).rows.filter
      fun r => r.val.message.chatId = computeChatId a b).map SerialRow.val
      = ((c.shard (route (computeChatId a b) n)).rows.map SerialRow.val).filter
        fun m => m.message.chatId = computeChatId a b := by
    rw [List.filter_map]
    rfl
  rw [hfilter, h.rows _ hlt, List.filter_map, List.filter_filter]
  congr 1
  refine List.filter_congr fun s hs => ?_
  rw [Bool.eq_iff_iff, Bool.and_eq_true, Function.comp_apply, SendArgs.chatId_stored,
    decide_eq_true_eq, decide_eq_true_eq, decide_eq_true_eq, ← chatId_eq_iff_between (hcoll s hs)]
  constructor
  · exact And.left
  · intro heq
    exact ⟨heq, by rw [heq]⟩

/-- The page `list` selects is the page of the conversation. -/
theorem Holds.list_eq {c : DialogsCluster} {log : Log} (h : Holds N n c log.sends) (h1 : 1 ≤ n)
    (hN : n ≤ N) {a b : Uuid}
    (hcoll : ∀ s ∈ log.sends, computeChatId s.fromId s.toId = computeChatId a b →
      chatIdPayload s.fromId s.toId = chatIdPayload a b) (limit offset : Nat) :
    list c a b limit offset = .ok (log.conversation a b limit offset) := by
  have hread : c.readPoolForChat (computeChatId a b) = .ok (route (computeChatId a b) n) :=
    readPoolForChat_eq h.readN h1 (h.nShards ▸ hN) _
  -- both pages are cut from the same contents, numbered by the shard and by the log
  have hsame : (((c.shard (route (computeChatId a b) n)).rows.filter
      fun r => r.val.message.chatId = computeChatId a b).insertionSort newestFirst).map
        SerialRow.val
      = ((log.sends.zipIdx.filter fun s => s.1.Between a b).insertionSort
        (TieBreak.Newest StoredMessage.createdAt (fun s => s.1.stored) Prod.snd)).map
          fun s => s.1.stored := by
    refine TieBreak.map_insertionSort_newest_congr ?_ ?_ ?_
    · exact (c.shard _).ascending.sublist List.filter_sublist
    · refine List.Pairwise.sublist List.filter_sublist ?_
      have hnum : (log.sends.zipIdx.map Prod.snd).Pairwise (· < ·) := by
        rw [List.zipIdx_map_snd]
        exact List.pairwise_lt_range'
      exact List.pairwise_map.mp hnum
    · rw [h.chat_rows h1 hN hcoll]
      have hfst : (log.sends.zipIdx.filter fun s => s.1.Between a b).map Prod.fst
          = log.sends.filter fun s => s.Between a b := by
        conv_rhs => rw [← List.zipIdx_map_fst 0 log.sends]
        rw [List.filter_map]
        rfl
      rw [← hfst, List.map_map]
      rfl
  have hdto : ∀ l : List Row, l.map (fun r => r.val.toDTO)
      = (l.map SerialRow.val).map StoredMessage.toDTO := by
    intro l
    rw [List.map_map]
    rfl
  rw [Dialogs.list_eq hread, selectMessages, hdto, List.map_take, List.map_drop, hsame, ← List.map_drop,
    ← List.map_take, List.map_map]
  rfl

/-- **The sharded store refines the log.** Whatever was sent between anyone at any times, `list`
returns the page of the conversation, and the same page from either end of it. -/
theorem list_eq_conversation (h1 : 1 ≤ n) (hN : n ≤ N) (log : Log) (a b : Uuid)
    (hcoll : ∀ s ∈ log.sends, computeChatId s.fromId s.toId = computeChatId a b →
      chatIdPayload s.fromId s.toId = chatIdPayload a b) (limit offset : Nat) :
    ∃ c, log.sends.forM SendArgs.run (fresh N n) = .ok () c ∧
      list c a b limit offset = list c b a limit offset ∧
      list c a b limit offset = .ok (log.conversation a b limit offset) := by
  obtain ⟨c, hrun, hholds⟩ := (holds_fresh N n).run h1 hN (by simpa using log.fresh)
  exact ⟨c, hrun, list_comm c a b limit offset, hholds.list_eq h1 hN hcoll limit offset⟩

end Refinement

/-- Nine o'clock on a day of January. -/
def nineOnDay (day : Nat) (h : 1 ≤ day ∧ day ≤ 31) : DateTime where
  year := 2025
  month := 1
  day := day
  hour := 9
  minute := 0
  second := 0
  microsecond := 0
  day_range := h

/-- Two messages between the users 1 and 2 and one to the user 3, all at the same time. -/
def morningLog : Log where
  sends :=
    [⟨.ofNat 1, .ofNat 2, "a", .ofNat 11, nineOnDay 1 first_day⟩,
      ⟨.ofNat 1, .ofNat 3, "b", .ofNat 12, nineOnDay 1 first_day⟩,
      ⟨.ofNat 2, .ofNat 1, "c", .ofNat 13, nineOnDay 1 first_day⟩]
  fresh := by decide

/-- The two users see their two messages, the later one first. -/
theorem list_morningLog :
    ∃ c, morningLog.sends.forM SendArgs.run (fresh 3 2) = .ok () c ∧
      list c (.ofNat 1) (.ofNat 2) 10 0 = list c (.ofNat 2) (.ofNat 1) 10 0 ∧
      list c (.ofNat 1) (.ofNat 2) 10 0
        = .ok (morningLog.conversation (.ofNat 1) (.ofNat 2) 10 0) := by
  refine list_eq_conversation (by decide) (by decide) morningLog _ _ ?_ 10 0
  have hcoll : ∀ s ∈ morningLog.sends,
      computeChatId s.fromId s.toId = computeChatId (.ofNat 1) (.ofNat 2) →
        chatIdPayload s.fromId s.toId = chatIdPayload (.ofNat 1) (.ofNat 2) := by
    decide +kernel
  exact hcoll

example : (morningLog.conversation (.ofNat 1) (.ofNat 2) 10 0).map DialogMessageDTO.text
    = ["c", "a"] := by
  decide +kernel

end HighLoad.Dialogs
