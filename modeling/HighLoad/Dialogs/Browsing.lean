/-
# HighLoad.Dialogs.Browsing — paging through a dialog while messages arrive

A client pages through a dialog with offsets `0, L, 2L, …` until a page is short, and messages are
sent between its calls. An INSERT only pushes the older rows down, whatever `created_at` it carries
(`rows_sublist_insert`, `TieBreak.insertionSort_sublist`); so a row that is not on the pages so far
stands at the next offset or behind it (`mem_drop_sorted_send`), and a client may see a row twice but
misses none (`browse_shows_old`).
-/
import HighLoad.Dialogs.Log

namespace HighLoad.Dialogs

open DialogsCluster

/-- What happens to the store while the client pages: somebody sends, or the client asks for its next
page. -/
inductive Event where
  | sent (s : SendArgs)
  | nextPage

/-- The pages that the client fetches in a sequence of events, up to the first one shorter than `L`.
`k` is the number of pages it has. -/
def browse (a b : Uuid) (L : Nat) :
    Nat → List Event → DialogsCluster → Except PyError (List (List Row))
  | _, [], _ => .ok []
  | k, .sent s :: events, c =>
      match s.run c with
      | .ok _ c' => browse a b L k events c'
      | .error e _ => .error e
  | k, .nextPage :: events, c => do
      let page ← fetchMessages c a b L (k * L)
      if page.length < L then return [page]
      else return page :: (← browse a b L (k + 1) events c)

/-- The client has come to the end of the dialog. -/
def Finished (L : Nat) (pages : List (List Row)) : Prop := ∃ page ∈ pages, page.length < L

/-! ## One configuration -/

/-- The cluster reads and writes `n` shards and is not in dual-write. -/
structure Steady (n : Nat) (c : DialogsCluster) : Prop where
  readN : c.readN = n
  writeN : c.writeN = n
  dualWrite : c.dualWrite = false
  pos : 1 ≤ n
  le : n ≤ c.nShards

variable {n L k : Nat} {c : DialogsCluster} {a b : Uuid}

/-- The rows of a dialog as `list` orders them. -/
def sortedRows (c : DialogsCluster) (n : Nat) (chatId : ChatId) : List Row :=
  ((c.shard (route chatId n)).rows.filter fun r => r.val.message.chatId = chatId).insertionSort
    newestFirst

theorem mem_sortedRows {chatId : ChatId} {r : Row} : r ∈ sortedRows c n chatId ↔
    r ∈ (c.shard (route chatId n)).rows ∧ r.val.message.chatId = chatId := by
  rw [sortedRows, List.mem_insertionSort]
  simp

theorem Steady.fetch (h : Steady n c) (a b : Uuid) (limit offset : Nat) :
    fetchMessages c a b limit offset
      = .ok (((sortedRows c n (computeChatId a b)).drop offset).take limit) := by
  rw [fetchMessages_eq (readPoolForChat_eq h.readN h.pos h.le _)]
  rfl

/-- A send inserts one row on the shard of its chat. -/
theorem Steady.send (h : Steady n c) (s : SendArgs) :
    s.run c = .ok () (c.insertMessage (route (computeChatId s.fromId s.toId) n) s.stored) := by
  have hpools := writePoolsForChat_eq h.readN h.pos h.le h.writeN h.pos h.le
    (computeChatId s.fromId s.toId)
  rw [h.dualWrite] at hpools
  rw [SendArgs.run, send_eq hpools]
  rfl

theorem Steady.insertMessage (h : Steady n c) (idx : Nat) (m : StoredMessage) :
    Steady n (c.insertMessage idx m) where
  readN := h.readN
  writeN := h.writeN
  dualWrite := h.dualWrite
  pos := h.pos
  le := by
    rw [nShards_insertMessage]
    exact h.le

/-- **The step lemma**: an INSERT moves no row towards the top of its dialog. -/
theorem mem_drop_sorted_send (h : Steady n c) (idx : Nat) (m : StoredMessage) (chatId : ChatId)
    {offset : Nat} {r : Row} (hr : r ∈ (sortedRows c n chatId).drop offset) :
    r ∈ (sortedRows (c.insertMessage idx m) n chatId).drop offset := by
  have hrows : (c.shard (route chatId n)).rows.Sublist
      ((c.insertMessage idx m).shard (route chatId n)).rows := by
    by_cases hidx : idx = route chatId n
    · subst hidx
      have hlt : route chatId n < c.nShards := (route_lt _ h.pos).trans_le h.le
      rw [DialogsCluster.insertMessage, shard_modifyShard_self hlt]
      exact SerialTable.rows_sublist_insert _ _
    · rw [DialogsCluster.insertMessage, shard_modifyShard_ne hidx]
  have hascending : (((c.insertMessage idx m).shard (route chatId n)).rows.filter
      fun r => r.val.message.chatId = chatId).Pairwise fun r r' => r.id < r'.id :=
    ((c.insertMessage idx m).shard (route chatId n)).ascending.sublist List.filter_sublist
  have hsorted : (sortedRows c n chatId).Sublist (sortedRows (c.insertMessage idx m) n chatId) :=
    TieBreak.insertionSort_sublist hascending (hrows.filter _)
  exact (hsorted.drop offset).subset hr

/-- The run lemma: the rows that stand at the next offset or behind it are on the pages that follow, if
the client comes to the end. -/
theorem browse_shows (h : Steady n c) (events : List Event) :
    ∃ pages, browse a b L k events c = .ok pages ∧
      (Finished L pages → ∀ r ∈ (sortedRows c n (computeChatId a b)).drop (k * L),
        ∃ page ∈ pages, r ∈ page) := by
  induction events generalizing k c with
  | nil => exact ⟨[], rfl, fun ⟨page, hpage, _⟩ => absurd hpage List.not_mem_nil⟩
  | cons event events ih =>
      cases event with
      | sent s =>
          obtain ⟨pages, hpages, hshows⟩ :=
            ih (k := k) (h.insertMessage (route (computeChatId s.fromId s.toId) n) s.stored)
          refine ⟨pages, ?_, fun hend r hr => ?_⟩
          · simp only [browse, h.send s]
            exact hpages
          · exact hshows hend r (mem_drop_sorted_send h _ s.stored _ hr)
      | nextPage =>
          obtain ⟨pages, hpages, hshows⟩ := ih (k := k + 1) h
          have hpage := h.fetch a b L (k * L)
          generalize sortedRows c n (computeChatId a b) = rows at hshows hpage ⊢
          have hsplit : rows.drop (k * L) = (rows.drop (k * L)).take L ++ rows.drop ((k + 1) * L) := by
            rw [Nat.succ_mul, ← List.drop_drop, List.take_append_drop]
          by_cases hshort : ((rows.drop (k * L)).take L).length < L
          · -- behind a short page there is nothing
            refine ⟨[(rows.drop (k * L)).take L], ?_, fun _ r hr => ⟨_, List.mem_cons_self, ?_⟩⟩
            · simp only [browse, hpage]
              exact if_pos hshort
            · rw [List.length_take] at hshort
              rwa [List.take_of_length_le (by omega)]
          · refine ⟨(rows.drop (k * L)).take L :: pages, ?_, fun hend r hr => ?_⟩
            · simp only [browse, hpage, hpages]
              exact if_neg hshort
            · obtain ⟨page, hmem, hless⟩ := hend
              rw [hsplit, List.mem_append] at hr
              rcases hr with hr | hr
              · exact ⟨_, List.mem_cons_self, hr⟩
              · have hend' : Finished L pages := by
                  rcases List.mem_cons.mp hmem with rfl | hmem
                  · exact absurd hless hshort
                  · exact ⟨page, hmem, hless⟩
                obtain ⟨page', hmem', hr'⟩ := hshows hend' r hr
                exact ⟨page', List.mem_cons_of_mem _ hmem', hr'⟩

/-- **Paging skips no message that was there before the first call**, whoever sends what in between. -/
theorem browse_shows_old (n L : Nat) (c : DialogsCluster) (a b : Uuid) (events : List Event)
    (h : Steady n c) :
    ∃ pages, browse a b L 0 events c = .ok pages ∧
      (Finished L pages → ∀ r ∈ (c.shard (route (computeChatId a b) n)).rows,
        r.val.message.chatId = computeChatId a b → ∃ page ∈ pages, r ∈ page) := by
  obtain ⟨pages, hpages, hshows⟩ := browse_shows (L := L) (k := 0) h (a := a) (b := b) events
  refine ⟨pages, hpages, fun hend r hr hchat => hshows hend r ?_⟩
  rw [Nat.zero_mul, List.drop_zero]
  exact mem_sortedRows.mpr ⟨hr, hchat⟩

/-- A dialog of two messages, on the shard of its chat. -/
def startedDialog : DialogsCluster :=
  ((fresh 3 2).insertMessage (route (computeChatId (.ofNat 1) (.ofNat 2)) 2)
    (SendArgs.stored ⟨.ofNat 1, .ofNat 2, "a", .ofNat 11, nineOnDay 1 first_day⟩)).insertMessage
      (route (computeChatId (.ofNat 1) (.ofNat 2)) 2)
      (SendArgs.stored ⟨.ofNat 2, .ofNat 1, "b", .ofNat 12, nineOnDay 2 second_day⟩)

/-- Pages of one message; the newest message comes between the first page and the second. -/
def answeredMeanwhile : List Event :=
  [.nextPage, .sent ⟨.ofNat 2, .ofNat 1, "c", .ofNat 13, nineOnDay 3 third_day⟩, .nextPage, .nextPage,
    .nextPage]

theorem steady_startedDialog : Steady 2 startedDialog where
  readN := rfl
  writeN := rfl
  dualWrite := rfl
  pos := by decide
  le := by decide +kernel

/-- The second message is shown twice, the first one on the third page. -/
theorem browse_shows_old_answeredMeanwhile :
    ∃ pages, browse (.ofNat 1) (.ofNat 2) 1 0 answeredMeanwhile startedDialog = .ok pages ∧
      pages.length = 4 ∧ ∀ messageId ∈ [Uuid.ofNat 11, .ofNat 12], ∃ page ∈ pages, ∃ r ∈ page,
        r.val.messageId = messageId := by
  obtain ⟨pages, hpages, hshows⟩ := browse_shows_old 2 1 startedDialog (.ofNat 1) (.ofNat 2)
    answeredMeanwhile steady_startedDialog
  have hrun : ((browse (.ofNat 1) (.ofNat 2) 1 0 answeredMeanwhile startedDialog).map
      fun pages => (pages.length, pages.any fun page => decide (page.length < 1))) = .ok (4, true) := by
    decide +kernel
  rw [hpages] at hrun
  obtain ⟨hlength, hshort⟩ := Prod.mk.inj (Except.ok.inj hrun)
  obtain ⟨page, hpage, hless⟩ := List.any_eq_true.mp hshort
  have hold := hshows ⟨page, hpage, of_decide_eq_true hless⟩
  refine ⟨pages, hpages, hlength, fun messageId hid => ?_⟩
  have hrow : ∀ messageId ∈ [Uuid.ofNat 11, .ofNat 12],
      ∃ r ∈ (startedDialog.shard (route (computeChatId (.ofNat 1) (.ofNat 2)) 2)).rows,
        r.val.message.chatId = computeChatId (.ofNat 1) (.ofNat 2) ∧ r.val.messageId = messageId := by
    decide +kernel
  obtain ⟨r, hr, hchat, rfl⟩ := hrow messageId hid
  obtain ⟨page', hpage', hr'⟩ := hold r hr hchat
  exact ⟨page', hpage', r, hr', rfl⟩

end HighLoad.Dialogs
