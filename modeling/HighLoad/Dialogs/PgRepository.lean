/-
# HighLoad.Dialogs.PgRepository — `send` and `list` (`app/dialogs/pg_repository.py`)

`send` evaluates its write pools once and then inserts the message into each of them; `list` reads
one page of a chat from the read pool, newest first. `message_id` is the `uuid4()` the call draws
and `now` is what `DEFAULT now()` gives on each shard.
-/
import HighLoad.Dialogs.Cluster
import HighLoad.Lib.TieBreak

namespace HighLoad.Dialogs

/-- The message a `send(from_id, to_id, text)` call builds. -/
def newMessage (fromId toId : Uuid) (text : String) (messageId : Uuid) : Message where
  messageId := messageId
  chatId := computeChatId fromId toId
  senderId := fromId
  recipientId := toId
  body := text

/-- `INSERT INTO messages … ON CONFLICT (message_id) DO NOTHING` on one shard. -/
def DialogsCluster.insertMessage (c : DialogsCluster) (idx : Nat) (m : StoredMessage) :
    DialogsCluster :=
  c.modifyShard idx fun t => t.insert m

/-- The INSERTs of a message into the pools of a list, in their order. -/
def DialogsCluster.insertAll (c : DialogsCluster) (pools : List Nat) (m : Message)
    (now : Nat → DateTime) : DialogsCluster :=
  pools.foldl (fun c idx => c.insertMessage idx ⟨m, now idx⟩) c

theorem DialogsCluster.insertAll_singleton (c : DialogsCluster) (idx : Nat) (m : Message)
    (now : Nat → DateTime) : c.insertAll [idx] m now = c.insertMessage idx ⟨m, now idx⟩ := rfl

/-- `PgDialogRepository.send(from_id, to_id, text)`. -/
def send (fromId toId : Uuid) (text : String) (messageId : Uuid) (now : Nat → DateTime) :
    ClusterM Unit := do
  let m := newMessage fromId toId text messageId
  let pools ← liftExcept ((← get).writePoolsForChat m.chatId)
  modify fun c => c.insertAll pools m now

/-- A call whose pools are known inserts its message into each of them. -/
theorem send_eq {c : DialogsCluster} {fromId toId : Uuid} {pools : List Nat}
    (h : c.writePoolsForChat (computeChatId fromId toId) = .ok pools) (text : String)
    (messageId : Uuid) (now : Nat → DateTime) :
    send fromId toId text messageId now c
      = .ok () (c.insertAll pools (newMessage fromId toId text messageId) now) := by
  have hpools : liftExcept (c.writePoolsForChat (newMessage fromId toId text messageId).chatId) c
      = .ok pools c := liftExcept_of_ok h c
  simp only [send]
  rw [bind_eq_of_ok (get_eq c), bind_eq_of_ok hpools]
  rfl

/-- `ORDER BY created_at DESC, id DESC`. -/
abbrev newestFirst : Row → Row → Prop :=
  TieBreak.Newest StoredMessage.createdAt SerialRow.val SerialRow.id

/-- `SELECT … WHERE chat_id = $1 ORDER BY created_at DESC, id DESC LIMIT $2 OFFSET $3`. -/
def selectMessages (t : Shard) (chatId : ChatId) (limit offset : Nat) : List Row :=
  (((t.rows.filter fun r => r.val.message.chatId = chatId).insertionSort newestFirst).drop
    offset).take limit

/-- `DialogMessageDTO`. -/
structure DialogMessageDTO where
  fromUserId : Uuid
  toUserId : Uuid
  text : String
  createdAt : DateTime
  deriving DecidableEq

/-- The DTO of a row. -/
def StoredMessage.toDTO (m : StoredMessage) : DialogMessageDTO where
  fromUserId := m.message.senderId
  toUserId := m.message.recipientId
  text := m.message.body
  createdAt := m.createdAt

/-- The rows `PgDialogRepository.list(user_a, user_b, limit, offset)` fetches. -/
def fetchMessages (c : DialogsCluster) (userA userB : Uuid) (limit offset : Nat) :
    Except PyError (List Row) := do
  let chatId := computeChatId userA userB
  let idx ← c.readPoolForChat chatId
  return selectMessages (c.shard idx) chatId limit offset

/-- `PgDialogRepository.list(user_a, user_b, limit, offset)`. -/
def list (c : DialogsCluster) (userA userB : Uuid) (limit offset : Nat) :
    Except PyError (List DialogMessageDTO) := do
  let rows ← fetchMessages c userA userB limit offset
  return rows.map fun r => r.val.toDTO

theorem fetchMessages_eq {c : DialogsCluster} {userA userB : Uuid} {idx : Nat}
    (h : c.readPoolForChat (computeChatId userA userB) = .ok idx) (limit offset : Nat) :
    fetchMessages c userA userB limit offset
      = .ok (selectMessages (c.shard idx) (computeChatId userA userB) limit offset) := by
  simp only [fetchMessages, h]
  rfl

theorem list_eq {c : DialogsCluster} {userA userB : Uuid} {idx : Nat}
    (h : c.readPoolForChat (computeChatId userA userB) = .ok idx) (limit offset : Nat) :
    list c userA userB limit offset = .ok ((selectMessages (c.shard idx)
      (computeChatId userA userB) limit offset).map fun r => r.val.toDTO) := by
  simp only [list, fetchMessages_eq h]
  rfl

/-- `list` shows both users the same page. -/
theorem list_comm (c : DialogsCluster) (userA userB : Uuid) (limit offset : Nat) :
    list c userA userB limit offset = list c userB userA limit offset := by
  simp only [list, fetchMessages, computeChatId_comm userA userB]

/-! ## What a shard stores -/

/-- Shard `i` stores the message `m`. -/
def DialogsCluster.Stores (c : DialogsCluster) (i : Nat) (m : Message) : Prop :=
  ∃ r ∈ (c.shard i).rows, r.val.message = m

namespace DialogsCluster

@[simp] theorem nShards_insertMessage (c : DialogsCluster) (idx : Nat) (m : StoredMessage) :
    (c.insertMessage idx m).nShards = c.nShards := nShards_modifyShard _ _ _

@[simp] theorem readN_insertMessage (c : DialogsCluster) (idx : Nat) (m : StoredMessage) :
    (c.insertMessage idx m).readN = c.readN := rfl

@[simp] theorem writeN_insertMessage (c : DialogsCluster) (idx : Nat) (m : StoredMessage) :
    (c.insertMessage idx m).writeN = c.writeN := rfl

@[simp] theorem dualWrite_insertMessage (c : DialogsCluster) (idx : Nat) (m : StoredMessage) :
    (c.insertMessage idx m).dualWrite = c.dualWrite := rfl

/-- **Everything an INSERT does**: the rows of the other shards stay, and the shard itself keeps its
rows and gains the new one when the message id was free there. -/
theorem mem_rows_insertMessage {c : DialogsCluster} {idx i : Nat} {m : StoredMessage} {r : Row} :
    r ∈ ((c.insertMessage idx m).shard i).rows ↔
      r ∈ (c.shard i).rows ∨
        (i = idx ∧ idx < c.nShards ∧ (c.shard idx).contains m.messageId = false ∧
          r = ⟨(c.shard idx).nextId, m⟩) := by
  by_cases hi : idx = i
  · subst hi
    by_cases hlt : idx < c.nShards
    · rw [insertMessage, shard_modifyShard_self hlt, SerialTable.mem_rows_insert]
      simp [hlt]
    · have hnot : r ∉ ((c.insertMessage idx m).shard idx).rows := fun h =>
        hlt (by simpa using lt_nShards_of_mem_rows h)
      have hnot' : r ∉ (c.shard idx).rows := fun h => hlt (lt_nShards_of_mem_rows h)
      simp [hnot, hnot', hlt]
  · rw [insertMessage, shard_modifyShard_ne hi]
    simp [Ne.symm hi]

theorem Stores.lt_nShards {c : DialogsCluster} {i : Nat} {m : Message} (h : c.Stores i m) :
    i < c.nShards := by
  obtain ⟨r, hr, -⟩ := h
  exact lt_nShards_of_mem_rows hr

/-- An INSERT never removes a message. -/
theorem Stores.insertMessage {c : DialogsCluster} {i : Nat} {m : Message} (h : c.Stores i m)
    (idx : Nat) (x : StoredMessage) : (c.insertMessage idx x).Stores i m := by
  obtain ⟨r, hr, hm⟩ := h
  exact ⟨r, mem_rows_insertMessage.mpr (Or.inl hr), hm⟩

/-- What an INSERT makes a shard store: what it stored before, or the inserted message. -/
theorem stores_of_stores_insertMessage {c : DialogsCluster} {idx i : Nat} {x : StoredMessage}
    {m : Message} (h : (c.insertMessage idx x).Stores i m) :
    c.Stores i m ∨ (i = idx ∧ m = x.message) := by
  obtain ⟨r, hr, rfl⟩ := h
  rcases mem_rows_insertMessage.mp hr with hr | ⟨rfl, -, -, rfl⟩
  · exact Or.inl ⟨r, hr, rfl⟩
  · exact Or.inr ⟨rfl, rfl⟩

/-- Message ids identify messages across the whole cluster: copies carry the same content. -/
def CopiesAgree (c : DialogsCluster) : Prop :=
  ∀ ⦃i j : Nat⦄ ⦃m m' : Message⦄, c.Stores i m → c.Stores j m' → m.messageId = m'.messageId →
    m = m'

/-- After an INSERT the shard stores the message, when a conflicting row can only be a copy of it. -/
theorem stores_insertMessage_self {c : DialogsCluster} {idx : Nat} {x : StoredMessage}
    (hlt : idx < c.nShards)
    (hcopy : ∀ m, c.Stores idx m → m.messageId = x.message.messageId → m = x.message) :
    (c.insertMessage idx x).Stores idx x.message := by
  cases hc : (c.shard idx).contains x.messageId with
  | false => exact ⟨_, mem_rows_insertMessage.mpr (Or.inr ⟨rfl, hlt, hc, rfl⟩), rfl⟩
  | true =>
      obtain ⟨r, hr, hid⟩ := (SerialTable.contains_iff _ _).mp hc
      have hm : r.val.message = x.message := hcopy _ ⟨r, hr, rfl⟩ hid
      exact ⟨r, mem_rows_insertMessage.mpr (Or.inl hr), hm⟩

/-- A message id is on a shard exactly when some message with that id is stored there. -/
theorem contains_iff_stores {c : DialogsCluster} {i : Nat} {id : Uuid} :
    (c.shard i).contains id = true ↔ ∃ m, c.Stores i m ∧ m.messageId = id := by
  rw [SerialTable.contains_iff]
  constructor
  · rintro ⟨r, hr, hid⟩
    exact ⟨_, ⟨r, hr, rfl⟩, hid⟩
  · rintro ⟨m, ⟨r, hr, rfl⟩, hid⟩
    exact ⟨r, hr, hid⟩

/-! ## What a whole `send` stores -/

theorem nShards_insertAll (c : DialogsCluster) (pools : List Nat) (m : Message)
    (now : Nat → DateTime) : (c.insertAll pools m now).nShards = c.nShards := by
  induction pools generalizing c with
  | nil => rfl
  | cons idx pools ih => exact (ih _).trans (nShards_insertMessage _ _ _)

theorem flags_insertAll (c : DialogsCluster) (pools : List Nat) (m : Message)
    (now : Nat → DateTime) :
    (c.insertAll pools m now).readN = c.readN ∧ (c.insertAll pools m now).writeN = c.writeN ∧
      (c.insertAll pools m now).dualWrite = c.dualWrite := by
  induction pools generalizing c with
  | nil => exact ⟨rfl, rfl, rfl⟩
  | cons idx pools ih => exact ih (c.insertMessage idx ⟨m, now idx⟩)

/-- A message can be inserted beside rows of its own id only when these are copies of it. -/
def OnlyCopies (c : DialogsCluster) (m : Message) : Prop :=
  ∀ i m', c.Stores i m' → m'.messageId = m.messageId → m' = m

theorem OnlyCopies.insertMessage {c : DialogsCluster} {m : Message} (h : c.OnlyCopies m)
    (idx : Nat) (t : DateTime) : (c.insertMessage idx ⟨m, t⟩).OnlyCopies m := by
  intro i m' hm' hid
  rcases stores_of_stores_insertMessage hm' with hm' | ⟨-, hm'⟩
  · exact h i m' hm' hid
  · exact hm'

/-- **What the INSERTs of a message leave stored**: everything that was, and the message on each of
the pools. -/
theorem stores_insertAll {c : DialogsCluster} {pools : List Nat} {m x : Message} {i : Nat}
    (h : c.OnlyCopies m) (now : Nat → DateTime) :
    (c.insertAll pools m now).Stores i x ↔
      c.Stores i x ∨ (x = m ∧ i ∈ pools ∧ i < c.nShards) := by
  induction pools generalizing c with
  | nil => simp [insertAll]
  | cons idx pools ih =>
      have hrest := ih (h.insertMessage idx (now idx))
      rw [nShards_insertMessage] at hrest
      show ((c.insertMessage idx ⟨m, now idx⟩).insertAll pools m now).Stores i x ↔ _
      rw [hrest]
      constructor
      · rintro (hx | ⟨hxm, hi, hlt⟩)
        · rcases stores_of_stores_insertMessage hx with hx' | ⟨hi, hxm⟩
          · exact Or.inl hx'
          · have hlt := hx.lt_nShards
            rw [nShards_insertMessage] at hlt
            exact Or.inr ⟨hxm, hi ▸ List.mem_cons_self, hlt⟩
        · exact Or.inr ⟨hxm, List.mem_cons_of_mem idx hi, hlt⟩
      · rintro (hx | ⟨hxm, hi, hlt⟩)
        · exact Or.inl (hx.insertMessage idx _)
        · rcases List.mem_cons.mp hi with hi | hi
          · subst hi hxm
            exact Or.inl (stores_insertMessage_self hlt fun m' hm' hid => h i m' hm' hid)
          · exact Or.inr ⟨hxm, hi, hlt⟩

/-- A message id that no shard holds leaves room for the message. -/
theorem onlyCopies_of_not_contains {c : DialogsCluster} {m : Message}
    (h : ∀ i, (c.shard i).contains m.messageId = false) : c.OnlyCopies m := by
  intro i m' hm' hid
  have hc : (c.shard i).contains m.messageId = true := contains_iff_stores.mpr ⟨m', hm', hid⟩
  rw [h i] at hc
  exact absurd hc Bool.false_ne_true

end DialogsCluster

/-! ## What `list` returns -/

theorem mem_selectMessages_of_length_le {t : Shard} {chatId : ChatId} {limit : Nat}
    (hlimit : t.rows.length ≤ limit) {r : Row} :
    r ∈ selectMessages t chatId limit 0 ↔ r ∈ t.rows ∧ r.val.message.chatId = chatId := by
  have hlen : ((t.rows.filter fun r => r.val.message.chatId = chatId).insertionSort
      newestFirst).length ≤ limit := by
    rw [List.length_insertionSort]
    exact (List.length_filter_le _ _).trans hlimit
  rw [selectMessages, List.drop_zero, List.take_of_length_le hlen, List.mem_insertionSort]
  simp

/-- `list` for a chat returns the message `m`, with a limit that holds all rows of the shard. -/
def DialogsCluster.Lists (c : DialogsCluster) (m : Message) : Prop :=
  ∃ idx, c.readPoolForChat m.chatId = .ok idx ∧
    ∃ r ∈ selectMessages (c.shard idx) m.chatId (c.shard idx).rows.length 0, r.val.message = m

/-- `list` returns exactly the messages stored on the shard it reads. -/
theorem DialogsCluster.lists_iff {c : DialogsCluster} {m : Message} {idx : Nat}
    (h : c.readPoolForChat m.chatId = .ok idx) : c.Lists m ↔ c.Stores idx m := by
  constructor
  · rintro ⟨idx', hidx', r, hr, hm⟩
    obtain rfl : idx' = idx := Except.ok.inj (hidx'.symm.trans h)
    exact ⟨r, ((mem_selectMessages_of_length_le le_rfl).mp hr).1, hm⟩
  · rintro ⟨r, hr, rfl⟩
    exact ⟨idx, h, r, (mem_selectMessages_of_length_le le_rfl).mpr ⟨hr, rfl⟩, rfl⟩

end HighLoad.Dialogs
