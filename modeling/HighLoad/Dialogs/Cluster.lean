/-
# HighLoad.Dialogs.Cluster — the shards and the routing flags (`app/dialogs/cluster.py`)

`DialogsCluster` holds the shards in the order of the settings (a pool is named by its index) and
the three flags that route reads and writes. Methods that change the class run in `ClusterM`, whose
state survives an exception, as the class attributes do: `reconfigure` assigns the flags before it
validates them.

Below the methods: what the validator accepts (`Valid`) and what routing answers on an accepted
configuration (`readPoolForChat_eq`, `writePoolsForChat_eq`).
-/
import HighLoad.Dialogs.Sharding
import HighLoad.Lib.SerialTable

namespace HighLoad.Dialogs

/-- A message as `send` builds it, before it is stored. -/
structure Message where
  messageId : Uuid
  chatId : ChatId
  senderId : Uuid
  recipientId : Uuid
  body : String
  deriving DecidableEq

/-- The columns of a row of `messages` other than the serial id. -/
structure StoredMessage where
  message : Message
  createdAt : DateTime
  deriving DecidableEq

/-- The column `message_id UUID NOT NULL UNIQUE`. -/
def StoredMessage.messageId (m : StoredMessage) : Uuid := m.message.messageId

/-- The table `messages` of one shard. -/
abbrev Shard := SerialTable StoredMessage.messageId

/-- A row of `messages`. -/
abbrev Row := SerialRow StoredMessage

/-- The class attributes of `DialogsCluster`. -/
structure DialogsCluster where
  pools : List Shard
  readN : Int
  writeN : Int
  dualWrite : Bool

/-- A method that may raise; assignments made before the exception stay. -/
abbrev ClusterM := EStateM PyError DialogsCluster

/-- A computation that raises or returns without touching the class. -/
def liftExcept {α : Type} (x : Except PyError α) : ClusterM α := fun c =>
  match x with
  | .ok a => .ok a c
  | .error e => .error e c

/-- A computation continues from where its first part returned. -/
theorem bind_eq_of_ok {α β : Type} {x : ClusterM α} {f : α → ClusterM β} {a : α}
    {c c' : DialogsCluster} (h : x c = .ok a c') : (x >>= f) c = f a c' := by
  show EStateM.bind x f c = f a c'
  simp only [EStateM.bind, h]

/-- A computation whose first part raises, raises. -/
theorem bind_eq_of_error {α β : Type} {x : ClusterM α} {f : α → ClusterM β} {e : PyError}
    {c c' : DialogsCluster} (h : x c = .error e c') : (x >>= f) c = .error e c' := by
  show EStateM.bind x f c = .error e c'
  simp only [EStateM.bind, h]

theorem get_eq (c : DialogsCluster) : (get : ClusterM DialogsCluster) c = .ok c c := rfl

theorem liftExcept_of_ok {α : Type} {x : Except PyError α} {a : α} (h : x = .ok a)
    (c : DialogsCluster) : liftExcept x c = .ok a c := by
  rw [h]
  rfl

theorem liftExcept_ok_iff {α : Type} {x : Except PyError α} {a : α} {c c' : DialogsCluster} :
    liftExcept x c = .ok a c' ↔ x = .ok a ∧ c' = c := by
  cases x with
  | error e => simp [liftExcept]
  | ok b => simp [liftExcept, eq_comm]

namespace DialogsCluster

/-- `n_shards()`. -/
def nShards (c : DialogsCluster) : Nat := c.pools.length

/-- The table behind a pool; pools that do not exist hold nothing. -/
def shard (c : DialogsCluster) (idx : Nat) : Shard := c.pools.getD idx SerialTable.empty

/-- One statement on one shard. -/
def modifyShard (c : DialogsCluster) (idx : Nat) (f : Shard → Shard) : DialogsCluster :=
  { c with pools := c.pools.modify idx f }

/-- `cls._pools[idx]`. -/
def pool (c : DialogsCluster) (idx : Nat) : Except PyError Nat :=
  if idx < c.nShards then .ok idx else .error (.indexError "list index out of range")

/-- One turn of the validation loop. -/
def checkRange (c : DialogsCluster) (name : String) (value : Int) : Except PyError Unit :=
  let n := c.nShards
  if 1 ≤ value ∧ value ≤ n then .ok ()
  else .error (.runtimeError s!"{name}={value} вне [1, {n}] — проверь настройки кластера")

/-- `_validate_resharding_state()`. -/
def validateReshardingState (c : DialogsCluster) : Except PyError Unit := do
  c.checkRange "read_n" c.readN
  c.checkRange "write_n" c.writeN

/-- The assignments of `reconfigure`; `none` leaves a flag as it is. -/
def assign (c : DialogsCluster) (readN writeN : Option Int) (dualWrite : Option Bool) :
    DialogsCluster :=
  { c with
    readN := readN.getD c.readN
    writeN := writeN.getD c.writeN
    dualWrite := dualWrite.getD c.dualWrite }

/-- `reconfigure(read_n=…, write_n=…, dual_write=…)`. -/
def reconfigure (readN writeN : Option Int) (dualWrite : Option Bool) : ClusterM Unit := do
  modify fun c => c.assign readN writeN dualWrite
  liftExcept (← get).validateReshardingState

/-- The exception of the methods that need `connect()` first. -/
def notInitialised : PyError := .runtimeError "DialogsCluster не инициализирован"

/-- `read_pool_for_chat(chat_id)`. -/
def readPoolForChat (c : DialogsCluster) (chatId : ChatId) : Except PyError Nat :=
  if c.pools.isEmpty then .error notInitialised
  else do
    let idx ← shardForChat chatId.bytes c.readN
    c.pool idx

/-- `write_pools_for_chat(chat_id)`. -/
def writePoolsForChat (c : DialogsCluster) (chatId : ChatId) : Except PyError (List Nat) :=
  if c.pools.isEmpty then .error notInitialised
  else do
    let primaryIdx ← shardForChat chatId.bytes c.writeN
    if !c.dualWrite then
      return [← c.pool primaryIdx]
    let secondaryIdx ← shardForChat chatId.bytes c.readN
    if primaryIdx = secondaryIdx then
      return [← c.pool primaryIdx]
    return [← c.pool secondaryIdx, ← c.pool primaryIdx]

/-- `pool_by_index(shard_idx)`. -/
def poolByIndex (c : DialogsCluster) (shardIdx : Nat) : Except PyError Nat :=
  if c.pools.isEmpty then .error notInitialised
  else
    let n := c.nShards
    if shardIdx < n then .ok shardIdx
    else .error (.valueError s!"shard_idx {shardIdx} вне [0, {n})")

/-! ## Shards under statements -/

@[simp] theorem nShards_modifyShard (c : DialogsCluster) (idx : Nat) (f : Shard → Shard) :
    (c.modifyShard idx f).nShards = c.nShards := by
  simp [nShards, modifyShard]

@[simp] theorem readN_modifyShard (c : DialogsCluster) (idx : Nat) (f : Shard → Shard) :
    (c.modifyShard idx f).readN = c.readN := rfl

@[simp] theorem writeN_modifyShard (c : DialogsCluster) (idx : Nat) (f : Shard → Shard) :
    (c.modifyShard idx f).writeN = c.writeN := rfl

@[simp] theorem dualWrite_modifyShard (c : DialogsCluster) (idx : Nat) (f : Shard → Shard) :
    (c.modifyShard idx f).dualWrite = c.dualWrite := rfl

theorem shard_modifyShard_self {c : DialogsCluster} {idx : Nat} (h : idx < c.nShards)
    (f : Shard → Shard) : (c.modifyShard idx f).shard idx = f (c.shard idx) := by
  simp [shard, modifyShard, List.getD_eq_getElem?_getD, List.getElem?_eq_getElem h]

theorem shard_modifyShard_ne {c : DialogsCluster} {idx i : Nat} (h : idx ≠ i)
    (f : Shard → Shard) : (c.modifyShard idx f).shard i = c.shard i := by
  simp [shard, modifyShard, List.getD_eq_getElem?_getD, h]

theorem shard_eq_getElem {c : DialogsCluster} {i : Nat} (h : i < c.pools.length) :
    c.shard i = c.pools[i] := by
  simp [shard, List.getD_eq_getElem?_getD, h]

/-- Pools that do not exist hold no rows. -/
theorem lt_nShards_of_mem_rows {c : DialogsCluster} {i : Nat} {r : Row}
    (h : r ∈ (c.shard i).rows) : i < c.nShards := by
  by_contra hi
  have hnone : c.shard i = SerialTable.empty := by
    simp [shard, List.getD_eq_getElem?_getD, List.getElem?_eq_none (Nat.le_of_not_lt hi)]
  rw [hnone] at h
  simp [SerialTable.empty] at h

/-! ## Accepted configurations -/

/-- What `_validate_resharding_state` accepts. -/
structure Valid (c : DialogsCluster) : Prop where
  readN : 1 ≤ c.readN ∧ c.readN ≤ c.nShards
  writeN : 1 ≤ c.writeN ∧ c.writeN ≤ c.nShards

theorem checkRange_ok_iff (c : DialogsCluster) (name : String) (value : Int) :
    c.checkRange name value = .ok () ↔ 1 ≤ value ∧ value ≤ c.nShards := by
  simp only [checkRange]
  split_ifs with h <;> simp [h]

theorem validateReshardingState_ok_iff (c : DialogsCluster) :
    c.validateReshardingState = .ok () ↔ c.Valid := by
  constructor
  · intro h
    simp only [validateReshardingState, bind, Except.bind] at h
    split at h
    · exact absurd h (by simp)
    · rename_i hread
      exact ⟨(c.checkRange_ok_iff _ _).mp hread, (c.checkRange_ok_iff _ _).mp h⟩
  · intro h
    simp only [validateReshardingState, bind, Except.bind,
      (c.checkRange_ok_iff "read_n" c.readN).mpr h.readN]
    exact (c.checkRange_ok_iff _ _).mpr h.writeN

/-- `reconfigure` returns exactly on the configurations the validator accepts. -/
theorem reconfigure_ok_iff (c c' : DialogsCluster) (r w : Option Int) (d : Option Bool) :
    reconfigure r w d c = .ok () c' ↔ c' = c.assign r w d ∧ (c.assign r w d).Valid := by
  have hrun : reconfigure r w d c
      = liftExcept (c.assign r w d).validateReshardingState (c.assign r w d) := rfl
  rw [hrun, liftExcept_ok_iff, validateReshardingState_ok_iff, and_comm]

section Routing

variable {c : DialogsCluster} {r w : Nat}

theorem pools_isEmpty_of_lt {i : Nat} (h : i < c.nShards) : c.pools.isEmpty = false := by
  simp only [nShards] at h
  cases hp : c.pools with
  | nil => rw [hp] at h; simp at h
  | cons p ps => rfl

theorem pool_eq {i : Nat} (h : i < c.nShards) : c.pool i = .ok i := by
  simp [pool, h]

theorem poolByIndex_eq {i : Nat} (h : i < c.nShards) : c.poolByIndex i = .ok i := by
  simp [poolByIndex, pools_isEmpty_of_lt h, h]

/-- The reader's shard: the chat's route among `read_n` shards. -/
theorem readPoolForChat_eq (hr : c.readN = r) (h1 : 1 ≤ r) (hN : r ≤ c.nShards)
    (chatId : ChatId) : c.readPoolForChat chatId = .ok (route chatId r) := by
  have hlt : route chatId r < c.nShards := (route_lt chatId h1).trans_le hN
  simp only [readPoolForChat, pools_isEmpty_of_lt hlt, hr, shardForChat_eq chatId h1]
  exact pool_eq hlt

/-- The writer's shards: the route among `write_n` shards, behind the route among `read_n` shards
when dual-write is on and the two differ. -/
theorem writePoolsForChat_eq (hr : c.readN = r) (hr1 : 1 ≤ r) (hrN : r ≤ c.nShards)
    (hw : c.writeN = w) (hw1 : 1 ≤ w) (hwN : w ≤ c.nShards) (chatId : ChatId) :
    c.writePoolsForChat chatId = .ok
      (if c.dualWrite = true ∧ route chatId w ≠ route chatId r then
        [route chatId r, route chatId w]
      else [route chatId w]) := by
  have hrl : route chatId r < c.nShards := (route_lt chatId hr1).trans_le hrN
  have hwl : route chatId w < c.nShards := (route_lt chatId hw1).trans_le hwN
  simp only [writePoolsForChat, pools_isEmpty_of_lt hrl, hr, hw, shardForChat_eq chatId hr1,
    shardForChat_eq chatId hw1, pool_eq hrl, pool_eq hwl, bind, Except.bind, pure, Except.pure]
  cases c.dualWrite with
  | false => simp
  | true => by_cases heq : route chatId w = route chatId r <;> simp [heq]

end Routing

/-- The shards an accepted configuration writes a chat to. -/
def writeRoutes (c : DialogsCluster) (chatId : ChatId) : List Nat :=
  let r := route chatId c.readN.toNat
  let w := route chatId c.writeN.toNat
  if c.dualWrite = true ∧ w ≠ r then [r, w] else [w]

theorem Valid.readN_toNat {c : DialogsCluster} (h : c.Valid) : c.readN = (c.readN.toNat : Int) :=
  (Int.toNat_of_nonneg (by have := h.readN.1; omega)).symm

theorem Valid.writeN_toNat {c : DialogsCluster} (h : c.Valid) :
    c.writeN = (c.writeN.toNat : Int) :=
  (Int.toNat_of_nonneg (by have := h.writeN.1; omega)).symm

/-- **Reads are routed on every accepted configuration.** -/
theorem Valid.readPoolForChat {c : DialogsCluster} (h : c.Valid) (chatId : ChatId) :
    c.readPoolForChat chatId = .ok (route chatId c.readN.toNat) := by
  have := h.readN
  exact readPoolForChat_eq h.readN_toNat (by omega) (by omega) chatId

/-- **Writes are routed on every accepted configuration.** -/
theorem Valid.writePoolsForChat {c : DialogsCluster} (h : c.Valid) (chatId : ChatId) :
    c.writePoolsForChat chatId = .ok (c.writeRoutes chatId) := by
  have := h.readN
  have := h.writeN
  exact writePoolsForChat_eq h.readN_toNat (by omega) (by omega) h.writeN_toNat (by omega)
    (by omega) chatId

theorem Valid.lt_of_mem_writeRoutes {c : DialogsCluster} (h : c.Valid) {chatId : ChatId} {i : Nat}
    (hi : i ∈ c.writeRoutes chatId) : i < c.nShards := by
  have hr := h.readN
  have hw := h.writeN
  have hrl : route chatId c.readN.toNat < c.readN.toNat := route_lt chatId (by omega)
  have hwl : route chatId c.writeN.toNat < c.writeN.toNat := route_lt chatId (by omega)
  simp only [writeRoutes] at hi
  split_ifs at hi <;> simp only [List.mem_cons, List.not_mem_nil, or_false] at hi <;> omega

end DialogsCluster

end HighLoad.Dialogs
