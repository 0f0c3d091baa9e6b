/-
# HighLoad.Dialogs.ReadYourWrites — which configurations show a reader its own writes

The validator bounds `read_n` and `write_n` and relates them to nothing. A write goes to the shard
`write_n` names, and to the shard `read_n` names only under dual-write, so a reader finds what was
just written exactly when dual-write is on or the two counts route the chat to one shard
(`send_then_list`).
-/
import HighLoad.Dialogs.Log

namespace HighLoad.Dialogs

open DialogsCluster

/-- Dual-write is on, or `read_n` and `write_n` name the same shard for the chat. -/
def DialogsCluster.SeesWrites (c : DialogsCluster) (chatId : ChatId) : Prop :=
  c.dualWrite = true ∨ shardForChat chatId.bytes c.readN = shardForChat chatId.bytes c.writeN

theorem DialogsCluster.Valid.shardForChat_readN {c : DialogsCluster} (h : c.Valid)
    (chatId : ChatId) : shardForChat chatId.bytes c.readN = .ok (route chatId c.readN.toNat) := by
  have := h.readN.1
  rw [h.readN_toNat, shardForChat_eq chatId (by omega)]
  rfl

theorem DialogsCluster.Valid.shardForChat_writeN {c : DialogsCluster} (h : c.Valid)
    (chatId : ChatId) : shardForChat chatId.bytes c.writeN = .ok (route chatId c.writeN.toNat) := by
  have := h.writeN.1
  rw [h.writeN_toNat, shardForChat_eq chatId (by omega)]
  rfl

theorem DialogsCluster.Valid.seesWrites_iff {c : DialogsCluster} (h : c.Valid) (chatId : ChatId) :
    c.SeesWrites chatId ↔
      c.dualWrite = true ∨ route chatId c.readN.toNat = route chatId c.writeN.toNat := by
  unfold DialogsCluster.SeesWrites
  rw [h.shardForChat_readN, h.shardForChat_writeN, Except.ok.injEq]

/-- The reader's shard is among the writer's shards exactly when the chat sees its writes. -/
theorem DialogsCluster.Valid.read_mem_writeRoutes_iff {c : DialogsCluster} (h : c.Valid)
    (chatId : ChatId) :
    route chatId c.readN.toNat ∈ c.writeRoutes chatId ↔ c.SeesWrites chatId := by
  rw [h.seesWrites_iff]
  unfold writeRoutes
  cases c.dualWrite with
  | false => simp
  | true =>
      by_cases heq : route chatId c.writeN.toNat = route chatId c.readN.toNat
      · simp [heq]
      · simp [heq]

/-- The rows a reader of the chat fetches contain the message, whichever of the two users asks. -/
def Shows (c : DialogsCluster) (userA userB : Uuid) (m : Message) (limit : Nat) : Prop :=
  ∃ rows, fetchMessages c userA userB limit 0 = .ok rows ∧ ∃ row ∈ rows, row.val.message = m

theorem shows_iff_stores {c : DialogsCluster} {a b : Uuid} {m : Message} {idx limit : Nat}
    (hread : c.readPoolForChat (computeChatId a b) = .ok idx)
    (hchat : m.chatId = computeChatId a b) (hlimit : (c.shard idx).rows.length ≤ limit) :
    Shows c a b m limit ↔ c.Stores idx m := by
  unfold Shows
  rw [fetchMessages_eq hread]
  constructor
  · rintro ⟨rows, hrows, row, hrow, hm⟩
    rw [← Except.ok.inj hrows] at hrow
    exact ⟨row, ((mem_selectMessages_of_length_le hlimit).mp hrow).1, hm⟩
  · rintro ⟨row, hrow, hm⟩
    refine ⟨_, rfl, row, (mem_selectMessages_of_length_le hlimit).mpr ⟨hrow, ?_⟩, hm⟩
    rw [hm, hchat]

/-- **Read your writes.** On every configuration `reconfigure` accepts, the reader's shard is among
the writer's shards, and a message that was just sent is listed to both its users, exactly when
dual-write is on or the two counts name one shard for the chat. -/
theorem send_then_list {c₀ c : DialogsCluster} {readN writeN : Option Int} {dualWrite : Option Bool}
    (hc : reconfigure readN writeN dualWrite c₀ = .ok () c) (a b : Uuid) (text : String)
    {messageId : Uuid} (hnew : ∀ i, (c.shard i).contains messageId = false)
    (now : Nat → DateTime) :
    ∃ idx pools c', c.readPoolForChat (computeChatId a b) = .ok idx ∧
      c.writePoolsForChat (computeChatId a b) = .ok pools ∧
      send a b text messageId now c = .ok () c' ∧
      (idx ∈ pools ↔ c.SeesWrites (computeChatId a b)) ∧
      ∀ limit, (c'.shard idx).rows.length ≤ limit →
        (Shows c' a b (newMessage a b text messageId) limit
          ↔ c.SeesWrites (computeChatId a b)) ∧
        (Shows c' b a (newMessage a b text messageId) limit
          ↔ c.SeesWrites (computeChatId a b)) := by
  obtain ⟨hassign, hvalid⟩ := (reconfigure_ok_iff _ _ _ _ _).mp hc
  rw [← hassign] at hvalid
  have hread := hvalid.readPoolForChat (computeChatId a b)
  have hwrite := hvalid.writePoolsForChat (computeChatId a b)
  have hmem := hvalid.read_mem_writeRoutes_iff (computeChatId a b)
  set m := newMessage a b text messageId with hm
  set c' := c.insertAll (c.writeRoutes (computeChatId a b)) m now with hc'
  -- after the call the reader's shard stores the message exactly when it was written there
  have hstores : c'.Stores (route (computeChatId a b) c.readN.toNat) m ↔
      c.SeesWrites (computeChatId a b) := by
    rw [hc', stores_insertAll (onlyCopies_of_not_contains hnew) now, ← hmem]
    constructor
    · rintro (hold | ⟨-, hin, -⟩)
      · have hcont := contains_iff_stores.mpr ⟨m, hold, rfl⟩
        rw [hm, newMessage, hnew] at hcont
        exact absurd hcont Bool.false_ne_true
      · exact hin
    · intro hin
      exact Or.inr ⟨rfl, hin, hvalid.lt_of_mem_writeRoutes hin⟩
  have hread' : c'.readPoolForChat (computeChatId a b)
      = .ok (route (computeChatId a b) c.readN.toNat) := by
    have hflags := flags_insertAll c (c.writeRoutes (computeChatId a b)) m now
    have hn := nShards_insertAll c (c.writeRoutes (computeChatId a b)) m now
    have hvalid' : c'.Valid :=
      { readN := by rw [hc', hflags.1, hn]; exact hvalid.readN
        writeN := by rw [hc', hflags.2.1, hn]; exact hvalid.writeN }
    rw [hvalid'.readPoolForChat, hc', hflags.1]
  refine ⟨_, _, c', hread, hwrite, send_eq hwrite text messageId now, hmem, ?_⟩
  intro limit hlimit
  refine ⟨(shows_iff_stores hread' rfl hlimit).trans hstores, ?_⟩
  rw [computeChatId_comm a b] at hread'
  rw [computeChatId_comm a b] at hlimit hstores ⊢
  refine (shows_iff_stores hread' ?_ hlimit).trans hstores
  rw [hm, newMessage]
  exact computeChatId_comm a b

/-- Three empty shards, read among the first two, written among all three, without dual-write. -/
def splitCluster : DialogsCluster := { fresh 3 3 with readN := 2 }

/-- `reconfigure` accepts `splitCluster`, and a message sent there is not listed. -/
theorem splitCluster_hides_write :
    ∃ c', reconfigure (some 2) (some 3) (some false) (fresh 3 3) = .ok () splitCluster ∧
      splitCluster.readPoolForChat (computeChatId (.ofNat 1) (.ofNat 2)) = .ok 1 ∧
      splitCluster.writePoolsForChat (computeChatId (.ofNat 1) (.ofNat 2)) = .ok [2] ∧
      send (.ofNat 1) (.ofNat 2) "hi" (.ofNat 11) (fun _ => nineOnDay 1 first_day) splitCluster
        = .ok () c' ∧
      list c' (.ofNat 1) (.ofNat 2) 10 0 = .ok [] := by
  have hwrite : splitCluster.writePoolsForChat (computeChatId (.ofNat 1) (.ofNat 2)) = .ok [2] := by
    decide +kernel
  refine ⟨_, ?_, by decide +kernel, hwrite, send_eq hwrite _ _ _, by decide +kernel⟩
  refine (reconfigure_ok_iff _ _ _ _ _).mpr ⟨rfl, ?_⟩
  exact { readN := by decide, writeN := by decide }

/-- The same shards and counts, with dual-write. -/
def dualCluster : DialogsCluster := { splitCluster with dualWrite := true }

/-- On `dualCluster` the message is listed. -/
theorem dualCluster_shows_write :
    ∃ idx pools c', dualCluster.readPoolForChat (computeChatId (.ofNat 1) (.ofNat 2)) = .ok idx ∧
      dualCluster.writePoolsForChat (computeChatId (.ofNat 1) (.ofNat 2)) = .ok pools ∧
      send (.ofNat 1) (.ofNat 2) "hi" (.ofNat 11) (fun _ => nineOnDay 1 first_day) dualCluster
        = .ok () c' ∧
      idx ∈ pools ∧
      Shows c' (.ofNat 1) (.ofNat 2) (newMessage (.ofNat 1) (.ofNat 2) "hi" (.ofNat 11))
        (c'.shard idx).rows.length := by
  have haccept : reconfigure (some 2) (some 3) (some true) (fresh 3 3) = .ok () dualCluster :=
    (reconfigure_ok_iff _ _ _ _ _).mpr ⟨rfl, { readN := by decide, writeN := by decide }⟩
  have hempty : ∀ i, (dualCluster.shard i).contains (.ofNat 11) = false := by
    intro i
    rw [show dualCluster.shard i = SerialTable.empty from shard_fresh 3 3 i]
    rfl
  obtain ⟨idx, pools, c', hread, hwrite, hsend, hmem, hshow⟩ :=
    send_then_list haccept (.ofNat 1) (.ofNat 2) "hi" hempty fun _ => nineOnDay 1 first_day
  have hsees : dualCluster.SeesWrites (computeChatId (.ofNat 1) (.ofNat 2)) := Or.inl rfl
  exact ⟨idx, pools, c', hread, hwrite, hsend, hmem.mpr hsees, (hshow _ le_rfl).1.mpr hsees⟩

end HighLoad.Dialogs
