/-
# HighLoad.Dialogs.Backfill — the exact effect of `cmd_backfill`

On shards with any contents, without writers around it, a backfill adds to each shard exactly the
messages that are absent there and have a copy on a scanned shard that the new layout routes to it
(`Backfilled`), and of several such copies it takes the one on the lowest shard (`Donates`). The loop
inserts into shards it has scanned or will scan; `Progress` is the invariant that this does not
disturb. From it follow the effect of a whole run, and of a run that was stopped after any await and
started again (`cmdBackfill_effect`). After a backfill verify finds nothing missing, and a passed
verify makes switching reads safe (`verify_gates_switch`).
-/
import HighLoad.Dialogs.Layout

namespace HighLoad.Dialogs

open DialogsCluster Relation

/-! ## The rows a backfill adds -/

/-- `v` is the copy that backfill brings to shard `d`: of the copies of its message on the first
`oldN` shards that `n` routes to `d`, the one on the lowest shard. -/
structure Donates (n oldN : Nat) (c : DialogsCluster) (d : Nat) (v : StoredMessage) : Prop where
  target : route v.message.chatId n = d
  lowest : ∃ s < oldN, (c.shard s).Has v ∧ ∀ s' < s, ∀ r ∈ (c.shard s').rows,
    r.val.messageId = v.messageId → route r.val.message.chatId n ≠ d

/-- The message `id` has a copy on a scanned shard that `n` routes to `d`. -/
def HasCopyFor (n oldN : Nat) (c : DialogsCluster) (d : Nat) (id : Uuid) : Prop :=
  ∃ s < oldN, ∃ r ∈ (c.shard s).rows, r.val.messageId = id ∧ route r.val.message.chatId n = d

/-- What a complete backfill does: the flags and every row stay, and each shard gains one row for
each message that is absent there and has a copy for it. -/
structure Backfilled (n oldN : Nat) (c c' : DialogsCluster) : Prop where
  nShards : c'.nShards = c.nShards
  readN : c'.readN = c.readN
  writeN : c'.writeN = c.writeN
  dualWrite : c'.dualWrite = c.dualWrite
  adds : ∀ d, ∃ new : List Row, (c'.shard d).rows = (c.shard d).rows ++ new ∧
    (∀ r ∈ new, (c.shard d).contains r.val.messageId = false ∧ Donates n oldN c d r.val) ∧
    ∀ id, (c.shard d).contains id = false → HasCopyFor n oldN c d id →
      ∃! r, r ∈ new ∧ r.val.messageId = id

section

variable {n oldN : Nat} {c c' c₀ : DialogsCluster} {d : Nat}

/-- There is one donor at most. -/
theorem Donates.eq {v v' : StoredMessage} (h : Donates n oldN c d v) (h' : Donates n oldN c d v')
    (hid : v.messageId = v'.messageId) : v = v' := by
  obtain ⟨s, -, ⟨r, hr, rfl⟩, hlow⟩ := h.lowest
  obtain ⟨s', -, ⟨r', hr', rfl⟩, hlow'⟩ := h'.lowest
  rcases lt_trichotomy s s' with hlt | rfl | hlt
  · exact absurd h.target (hlow' s hlt r hr hid)
  · rw [(c.shard s).row_eq_of_key_eq hr hr' hid]
  · exact absurd h'.target (hlow s' hlt r' hr' hid.symm)

theorem contains_of_mem {t : Shard} {r : Row} (h : r ∈ t.rows) :
    t.contains r.val.messageId = true :=
  (t.contains_iff _).mpr ⟨r, h, rfl⟩

theorem contains_of_subset {t t' : Shard} {id : Uuid} (h : t.rows ⊆ t'.rows)
    (hid : t.contains id = true) : t'.contains id = true := by
  obtain ⟨r, hr, rfl⟩ := (t.contains_iff _).mp hid
  exact contains_of_mem (h hr)

/-- A message that is absent has no row. -/
theorem not_mem_of_not_contains {t : Shard} {r : Row}
    (h : t.contains r.val.messageId = false) : r ∉ t.rows := by
  intro hr
  rw [contains_of_mem hr] at h
  exact absurd h (by decide)

/-- The rows behind the old ones carry ids that the old ones do not. -/
theorem not_contains_of_mem_new {t t' : Shard} {new : List Row} (h : t'.rows = t.rows ++ new)
    {r : Row} (hr : r ∈ new) : t.contains r.val.messageId = false := by
  rw [Bool.eq_false_iff]
  intro hcontains
  obtain ⟨r', hr', hid⟩ := (t.contains_iff _).mp hcontains
  have hmem' : r' ∈ t'.rows := by rw [h]; exact List.mem_append_left new hr'
  have hmem : r ∈ t'.rows := by rw [h]; exact List.mem_append_right _ hr
  have hsame : r' = r := t'.row_eq_of_key_eq hmem' hmem hid
  have hasc := t'.ascending
  rw [h, List.pairwise_append] at hasc
  have hlt := hasc.2.2 r' hr' r hr
  rw [hsame] at hlt
  omega

/-- The messages of a shard after a backfill. -/
theorem Backfilled.has_iff (h : Backfilled n oldN c c') (d : Nat) (v : StoredMessage) :
    (c'.shard d).Has v ↔ (c.shard d).Has v ∨
      ((c.shard d).contains v.messageId = false ∧ Donates n oldN c d v) := by
  obtain ⟨new, hrows, hnew, hall⟩ := h.adds d
  constructor
  · rintro ⟨r, hr, rfl⟩
    rw [hrows] at hr
    rcases List.mem_append.mp hr with hr | hr
    · exact Or.inl ⟨r, hr, rfl⟩
    · exact Or.inr (hnew r hr)
  · rintro (⟨r, hr, rfl⟩ | ⟨habsent, hdon⟩)
    · refine ⟨r, ?_, rfl⟩
      rw [hrows]
      exact List.mem_append_left new hr
    · obtain ⟨s, hs, ⟨r, hr, rfl⟩, -⟩ := hdon.lowest
      obtain ⟨r', ⟨hr', hid⟩, -⟩ := hall r.val.messageId habsent ⟨s, hs, r, hr, rfl, hdon.target⟩
      refine ⟨r', ?_, (hnew r' hr').2.eq hdon hid⟩
      rw [hrows]
      exact List.mem_append_right _ hr'

/-! ## The loop invariant -/

/-- Where a backfill that started from `c₀` stands: it has kept every row, added donors only, and
the target of every row that the scan has passed holds its message. -/
structure Progress (n oldN : Nat) (c₀ : DialogsCluster) (b : Backfill) (c : DialogsCluster) :
    Prop where
  newN_eq : b.newN = n
  oldN_eq : b.oldN = oldN
  nShards : c.nShards = c₀.nShards
  readN : c.readN = c₀.readN
  writeN : c.writeN = c₀.writeN
  dualWrite : c.dualWrite = c₀.dualWrite
  keeps : ∀ i, (c₀.shard i).rows <+: (c.shard i).rows
  adds : ∀ i, ∀ r ∈ (c.shard i).rows, r ∈ (c₀.shard i).rows ∨ Donates n oldN c₀ i r.val
  page_src : b.page ≠ [] → b.srcIdx < oldN
  page_rows : ∀ r ∈ b.page, r ∈ (c.shard b.srcIdx).rows
  covered : ∀ s < oldN, ∀ r ∈ (c₀.shard s).rows, b.Ahead s r ∨
    (c.shard (route r.val.message.chatId n)).contains r.val.messageId = true

theorem progress_start (n oldN : Nat) (c : DialogsCluster) :
    Progress n oldN c (Backfill.start n oldN) c where
  newN_eq := rfl
  oldN_eq := rfl
  nShards := rfl
  readN := rfl
  writeN := rfl
  dualWrite := rfl
  keeps := fun _ => List.prefix_rfl
  adds := fun _ _ hr => Or.inl hr
  page_src := fun h => absurd rfl h
  page_rows := fun _ hr => absurd hr List.not_mem_nil
  covered := by
    intro s _ r hr
    left
    rcases Nat.eq_zero_or_pos s with rfl | hs
    · exact Or.inr ⟨rfl, Or.inl ((c.shard 0).bounds r hr).1⟩
    · exact Or.inl hs

/-- An INSERT appends. -/
theorem rows_prefix_copied (n src : Nat) (c : DialogsCluster) (row : Row) (i : Nat) :
    (c.shard i).rows <+: ((copied n src c row).shard i).rows := by
  simp only [copied]
  split_ifs with h
  · exact List.prefix_rfl
  · by_cases hi : route row.val.message.chatId n = i
    · subst hi
      by_cases hlt : route row.val.message.chatId n < c.nShards
      · rw [DialogsCluster.insertMessage, shard_modifyShard_self hlt]
        cases hc : (c.shard (route row.val.message.chatId n)).contains row.val.messageId with
        | true =>
            rw [SerialTable.rows_insert_of_contains hc]
        | false =>
            rw [SerialTable.rows_insert_of_not_contains hc]
            exact List.prefix_append _ _
      · -- a shard that does not exist holds no row
        have hnil : (c.shard (route row.val.message.chatId n)).rows = [] :=
          List.eq_nil_iff_forall_not_mem.mpr fun r hr => hlt (lt_nShards_of_mem_rows hr)
        rw [hnil]
        exact List.nil_prefix
    · rw [DialogsCluster.insertMessage, shard_modifyShard_ne hi]

/-- Once a row has been handled, its message is present on its target. -/
theorem contains_copied {src : Nat} {row : Row} (h1 : 1 ≤ n) (hN : n ≤ c.nShards)
    (hrow : row ∈ (c.shard src).rows) :
    ((copied n src c row).shard (route row.val.message.chatId n)).contains row.val.messageId
      = true := by
  simp only [copied]
  split_ifs with h
  · rw [h]
    exact contains_of_mem hrow
  · have hlt : route row.val.message.chatId n < c.nShards := (route_lt _ h1).trans_le hN
    rw [DialogsCluster.insertMessage, shard_modifyShard_self hlt, SerialTable.contains_insert]
    simp [StoredMessage.messageId]

/-- Handling one row of the page keeps the invariant. -/
theorem Progress.copied {b : Backfill} {row : Row} {rest : List Row}
    (h : Progress n oldN c₀ b c) (h1 : 1 ≤ n) (hN : n ≤ c₀.nShards) (hpage : b.page = row :: rest) :
    Progress n oldN c₀ { b with page := rest } (Dialogs.copied n b.srcIdx c row) := by
  have hrow : row ∈ (c.shard b.srcIdx).rows := h.page_rows row (by rw [hpage]; exact List.mem_cons_self)
  have hsrc : b.srcIdx < oldN := h.page_src (by rw [hpage]; exact List.cons_ne_nil _ _)
  have hcopies : Copies n c (Dialogs.copied n b.srcIdx c row) := copies_copied hrow
  have happends := rows_prefix_copied n b.srcIdx c row
  refine
    { newN_eq := h.newN_eq
      oldN_eq := h.oldN_eq
      nShards := hcopies.nShards.trans h.nShards
      readN := hcopies.readN.trans h.readN
      writeN := hcopies.writeN.trans h.writeN
      dualWrite := hcopies.dualWrite.trans h.dualWrite
      keeps := fun i => (h.keeps i).trans (happends i)
      adds := ?_
      page_src := fun _ => hsrc
      page_rows := fun r hr => hcopies.keeps
        (h.page_rows r (by rw [hpage]; exact List.mem_cons_of_mem row hr))
      covered := ?_ }
  · intro i r hr
    by_cases hdst : route row.val.message.chatId n = b.srcIdx
    · rw [Dialogs.copied, if_pos hdst] at hr
      exact h.adds i r hr
    · rw [Dialogs.copied, if_neg hdst] at hr
      rcases mem_rows_insertMessage.mp hr with hr | ⟨rfl, -, habsent, rfl⟩
      · exact h.adds i r hr
      · -- the row was there from the start: what backfill added to this shard is routed to it
        have hrow₀ : row ∈ (c₀.shard b.srcIdx).rows := by
          rcases h.adds _ row hrow with hrow₀ | hdon
          · exact hrow₀
          · exact absurd hdon.target hdst
        refine Or.inr ⟨rfl, b.srcIdx, hsrc, ⟨row, hrow₀, rfl⟩, ?_⟩
        intro s' hs' r' hr' hid hroute
        -- a lower shard has been passed, so its copy would be on the target already
        rcases h.covered s' (hs'.trans hsrc) r' hr' with hahead | hcontains
        · rcases hahead with hlt | ⟨heq, -⟩ <;> omega
        · rw [hroute, hid] at hcontains
          have habsent' : (c.shard (route row.val.message.chatId n)).contains
            row.val.messageId = false := habsent
          rw [hcontains] at habsent'
          exact absurd habsent' (by decide)
  · intro s hs r hr
    rcases h.covered s hs r hr with hahead | hcontains
    · rcases hahead with hlt | ⟨heq, hid | hmem⟩
      · exact Or.inl (Or.inl hlt)
      · exact Or.inl (Or.inr ⟨heq, Or.inl hid⟩)
      · rw [hpage] at hmem
        rcases List.mem_cons.mp hmem with rfl | hmem
        · exact Or.inr (contains_copied h1 (by rw [h.nShards]; exact hN) hrow)
        · exact Or.inl (Or.inr ⟨heq, Or.inr hmem⟩)
    · exact Or.inr (contains_of_subset (happends _).subset hcontains)

/-- **The step lemma**: every await keeps the invariant, and the last one leaves nothing ahead. -/
theorem Progress.step {b : Backfill} {ob : Option Backfill} (h : Progress n oldN c₀ b c)
    (h1 : 1 ≤ n) (hN : n ≤ c₀.nShards) (hold : oldN ≤ c₀.nShards)
    (hstep : backfillStep b c = .ok ob c') :
    match ob with
    | some b' => Progress n oldN c₀ b' c'
    | none => c' = c ∧ ∀ s < oldN, ∀ r, ¬ b.Ahead s r := by
  have holdb : b.oldN ≤ c.nShards := by rw [h.oldN_eq, h.nShards]; exact hold
  have hNc : n ≤ c.nShards := by rw [h.nShards]; exact hN
  rcases backfillStep_inv h.newN_eq h1 hNc holdb hstep with ⟨row, rest, hpage, rfl, rfl⟩ |
    ⟨hpage, hsrc, hnil, rfl, rfl⟩ | ⟨hpage, hsrc, last, hlast, rfl, rfl⟩ | ⟨hpage, hsrc, rfl, rfl⟩
  · exact h.copied h1 hN hpage
  · refine { h with
      page_src := fun hne => absurd hpage hne
      page_rows := fun r hr => absurd (hpage ▸ hr) List.not_mem_nil
      covered := ?_ }
    intro s hs r hr
    rcases h.covered s hs r hr with hahead | hcontains
    · left
      rcases hahead with hlt | ⟨heq, hid | hmem⟩
      · rcases Nat.lt_or_eq_of_le (Nat.succ_le_of_lt hlt) with hlt' | heq'
        · exact Or.inl hlt'
        · exact Or.inr ⟨heq', Or.inl ((c₀.shard s).bounds r hr).1⟩
      · -- the page after `last_id` is empty, so no row of this shard is past it
        have hr' : r ∈ (c'.shard b.srcIdx).rows := heq ▸ (h.keeps s).subset hr
        have hle := SerialTable.le_of_page_eq_nil (by decide) hnil hr'
        omega
      · rw [hpage] at hmem
        exact absurd hmem List.not_mem_nil
    · exact Or.inr hcontains
  · refine { h with
      page_src := fun _ => h.oldN_eq ▸ hsrc
      page_rows := fun r hr => (SerialTable.mem_of_mem_page hr).1
      covered := ?_ }
    intro s hs r hr
    rcases h.covered s hs r hr with hahead | hcontains
    · left
      rcases hahead with hlt | ⟨heq, hid | hmem⟩
      · exact Or.inl hlt
      · subst heq
        rcases SerialTable.page_covers hlast ((h.keeps _).subset hr) hid with hmem | hlt
        · exact Or.inr ⟨rfl, Or.inr hmem⟩
        · exact Or.inr ⟨rfl, Or.inl hlt⟩
      · rw [hpage] at hmem
        exact absurd hmem List.not_mem_nil
    · exact Or.inr hcontains
  · refine ⟨rfl, ?_⟩
    intro s hs r hahead
    have holdN := h.oldN_eq
    rcases hahead with hlt | ⟨heq, -⟩ <;> omega

/-- When nothing is ahead any more, the effect is complete. -/
theorem Progress.backfilled {b : Backfill} (h : Progress n oldN c₀ b c)
    (hdone : ∀ s < oldN, ∀ r, ¬ b.Ahead s r) : Backfilled n oldN c₀ c where
  nShards := h.nShards
  readN := h.readN
  writeN := h.writeN
  dualWrite := h.dualWrite
  adds := by
    intro d
    obtain ⟨new, hnew⟩ := h.keeps d
    refine ⟨new, hnew.symm, ?_, ?_⟩
    · intro r hr
      have habsent := not_contains_of_mem_new hnew.symm hr
      have hmem : r ∈ (c.shard d).rows := by rw [← hnew]; exact List.mem_append_right _ hr
      refine ⟨habsent, ?_⟩
      rcases h.adds d r hmem with hold | hdon
      · exact absurd hold (not_mem_of_not_contains habsent)
      · exact hdon
    · rintro id habsent ⟨s, hs, r, hr, rfl, rfl⟩
      rcases h.covered s hs r hr with hahead | hcontains
      · exact absurd hahead (hdone s hs r)
      · obtain ⟨r', hr', hid⟩ := ((c.shard _).contains_iff _).mp hcontains
        have hr'' := hr'
        rw [← hnew] at hr''
        rcases List.mem_append.mp hr'' with hold | hmem
        · have hpresent := contains_of_mem hold
          have hid' : r'.val.messageId = r.val.messageId := hid
          rw [hid', habsent] at hpresent
          exact absurd hpresent (by decide)
        · refine ⟨r', ⟨hmem, hid⟩, ?_⟩
          rintro r'' ⟨hr'', hid''⟩
          have hmem'' : r'' ∈ (c.shard (route r.val.message.chatId n)).rows := by
            rw [← hnew]
            exact List.mem_append_right _ hr''
          exact (c.shard _).row_eq_of_key_eq hmem'' hr' (hid''.trans hid.symm)

/-- The run lemma. -/
theorem BackfillRun.backfilled {b : Backfill} (hrun : BackfillRun b c c')
    (h : Progress n oldN c₀ b c) (h1 : 1 ≤ n) (hN : n ≤ c₀.nShards) (hold : oldN ≤ c₀.nShards) :
    ∃ b', Progress n oldN c₀ b' c' ∧ ∀ s < oldN, ∀ r, ¬ b'.Ahead s r := by
  induction hrun with
  | @done b c c' hstep =>
      obtain ⟨rfl, hdone⟩ := h.step h1 hN hold hstep
      exact ⟨b, h, hdone⟩
  | step hstep _ ih => exact ih (h.step h1 hN hold hstep)

/-! ## Stopping and starting again -/

/-- One await of a running backfill. -/
def Awaits (x y : Backfill × DialogsCluster) : Prop :=
  backfillStep x.1 x.2 = .ok (some y.1) y.2

/-- Where a backfill can be stopped. -/
theorem progress_of_awaits {b : Backfill} (h1 : 1 ≤ n) (hN : n ≤ c₀.nShards)
    (hold : oldN ≤ c₀.nShards)
    (h : ReflTransGen Awaits (Backfill.start n oldN, c₀) (b, c)) : Progress n oldN c₀ b c := by
  have hgen : ∀ y, ReflTransGen Awaits (Backfill.start n oldN, c₀) y →
      Progress n oldN c₀ y.1 y.2 := by
    intro y hy
    induction hy with
    | refl => exact progress_start n oldN c₀
    | tail _ hstep ih => exact ih.step h1 hN hold hstep
  exact hgen (b, c) h

/-- A complete backfill of any contents returns and has its effect. -/
theorem cmdBackfill_backfilled (hdual : c.dualWrite = true) (hread : c.readN = oldN) (h1 : 1 ≤ n)
    (hN : n ≤ c.nShards) (hold : oldN ≤ c.nShards) :
    ∃ c', cmdBackfill n c = .ok () c' ∧ BackfillRun (Backfill.start n oldN) c c' ∧
      ∃ b, Progress n oldN c b c' ∧ ∀ s < oldN, ∀ r, ¬ b.Ahead s r := by
  obtain ⟨c', hok, hrun⟩ := cmdBackfill_eq_steps hdual hread h1 hN hold
  exact ⟨c', hok, hrun, hrun.backfilled (progress_start n oldN c) h1 hN hold⟩

/-- While a message is absent from a shard, a started backfill has changed none of its donors. -/
theorem Progress.donates_iff {b : Backfill} (h : Progress n oldN c₀ b c) {v : StoredMessage}
    (habsent : (c.shard d).contains v.messageId = false) :
    Donates n oldN c d v ↔ Donates n oldN c₀ d v := by
  -- a copy that `n` routes to `d` and that backfill has added is on `d`
  have hback : ∀ s, ∀ r ∈ (c.shard s).rows, r.val.messageId = v.messageId →
      route r.val.message.chatId n = d → r ∈ (c₀.shard s).rows := by
    intro s r hr hid hroute
    rcases h.adds s r hr with hr | hdon
    · exact hr
    · have hsd : s = d := hdon.target.symm.trans hroute
      subst hsd
      rw [← hid, contains_of_mem hr] at habsent
      exact absurd habsent (by decide)
  constructor
  · rintro ⟨htarget, s, hs, ⟨r, hr, rfl⟩, hlow⟩
    refine ⟨htarget, s, hs, ⟨r, hback s r hr rfl htarget, rfl⟩, ?_⟩
    intro s' hs' r' hr' hid
    exact hlow s' hs' r' ((h.keeps s').subset hr') hid
  · rintro ⟨htarget, s, hs, ⟨r, hr, rfl⟩, hlow⟩
    refine ⟨htarget, s, hs, ⟨r, (h.keeps s).subset hr, rfl⟩, ?_⟩
    intro s' hs' r' hr' hid hroute
    exact hlow s' hs' r' (hback s' r' hr' hid hroute) hid hroute

/-- **Starting a stopped backfill again gives the messages of one complete run.** -/
theorem Progress.restart {b : Backfill} {c₂ : DialogsCluster} (h : Progress n oldN c₀ b c)
    (hfull : Backfilled n oldN c₀ c') (hagain : Backfilled n oldN c c₂) (d : Nat)
    (v : StoredMessage) : (c₂.shard d).Has v ↔ (c'.shard d).Has v := by
  rw [hagain.has_iff, hfull.has_iff]
  constructor
  · rintro (⟨r, hr, rfl⟩ | ⟨habsent, hdon⟩)
    · rcases h.adds d r hr with hr₀ | hdon
      · exact Or.inl ⟨r, hr₀, rfl⟩
      · cases hc : (c₀.shard d).contains r.val.messageId with
        | false => exact Or.inr ⟨rfl, hdon⟩
        | true =>
            -- the id was there from the start, so this is that row
            obtain ⟨r₀, hr₀, hid⟩ := ((c₀.shard d).contains_iff _).mp hc
            have hsame := (c.shard d).row_eq_of_key_eq ((h.keeps d).subset hr₀) hr hid
            exact Or.inl ⟨r₀, hr₀, by rw [hsame]⟩
    · refine Or.inr ⟨?_, (h.donates_iff habsent).mp hdon⟩
      rw [Bool.eq_false_iff]
      intro hcontains
      rw [contains_of_subset (h.keeps d).subset hcontains] at habsent
      exact absurd habsent (by decide)
  · rintro (⟨r, hr, rfl⟩ | ⟨habsent, hdon⟩)
    · exact Or.inl ⟨r, (h.keeps d).subset hr, rfl⟩
    · cases hc : (c.shard d).contains v.messageId with
      | false => exact Or.inr ⟨rfl, (h.donates_iff hc).mpr hdon⟩
      | true =>
          obtain ⟨r, hr, hid⟩ := ((c.shard d).contains_iff _).mp hc
          have hid' : r.val.messageId = v.messageId := hid
          rcases h.adds d r hr with hr₀ | hdon'
          · have hpresent := contains_of_mem hr₀
            rw [hid', habsent] at hpresent
            exact absurd hpresent (by decide)
          · exact Or.inl ⟨r, hr, hdon'.eq hdon hid'⟩

/-- A second backfill adds nothing. -/
theorem Backfilled.rows_eq_of_has {c₂ : DialogsCluster} (h : Backfilled n oldN c' c₂)
    (hsame : ∀ d v, (c₂.shard d).Has v ↔ (c'.shard d).Has v) (d : Nat) :
    (c₂.shard d).rows = (c'.shard d).rows := by
  obtain ⟨new, hrows, hnew, -⟩ := h.adds d
  have hnil : new = [] := by
    refine List.eq_nil_iff_forall_not_mem.mpr ?_
    intro r hr
    have hmem : r ∈ (c₂.shard d).rows := by rw [hrows]; exact List.mem_append_right _ hr
    obtain ⟨r', hr', hval⟩ := (hsame d r.val).mp ⟨r, hmem, rfl⟩
    have habsent := (hnew r hr).1
    rw [← hval, contains_of_mem hr'] at habsent
    exact absurd habsent (by decide)
  rw [hrows, hnil, List.append_nil]

/-- **The exact effect of backfill.** After finitely many awaits it returns; it adds to each shard one
row for each message that is absent there and has a copy for it, and nothing else; stopped after any
await and started again it leaves the same messages, and run twice the same rows. -/
theorem cmdBackfill_effect (hdual : c.dualWrite = true) (hread : c.readN = oldN) (h1 : 1 ≤ n)
    (hN : n ≤ c.nShards) (hold : oldN ≤ c.nShards) :
    ∃ c', cmdBackfill n c = .ok () c' ∧ BackfillRun (Backfill.start n oldN) c c' ∧
      Backfilled n oldN c c' ∧
      (∀ b c₁, ReflTransGen Awaits (Backfill.start n oldN, c) (b, c₁) →
        ∃ c₂, cmdBackfill n c₁ = .ok () c₂ ∧ ∀ d, (c.shard d).rows <+: (c₂.shard d).rows ∧
          ∀ v, (c₂.shard d).Has v ↔ (c'.shard d).Has v) ∧
      ∃ c₂, cmdBackfill n c' = .ok () c₂ ∧ ∀ d, (c₂.shard d).rows = (c'.shard d).rows := by
  obtain ⟨c', hrun, hends, b, hprog, hdone⟩ := cmdBackfill_backfilled hdual hread h1 hN hold
  have hfull := hprog.backfilled hdone
  -- a second run, from wherever the first one was left
  have hagain : ∀ b₁ c₁, Progress n oldN c b₁ c₁ → ∃ c₂, cmdBackfill n c₁ = .ok () c₂ ∧
      Backfilled n oldN c₁ c₂ := by
    intro b₁ c₁ hprog₁
    obtain ⟨c₂, hrun₂, -, b₂, hprog₂, hdone₂⟩ := cmdBackfill_backfilled
      (hprog₁.dualWrite.trans hdual) (hprog₁.readN.trans hread) h1
      (by rw [hprog₁.nShards]; exact hN) (by rw [hprog₁.nShards]; exact hold)
    exact ⟨c₂, hrun₂, hprog₂.backfilled hdone₂⟩
  refine ⟨c', hrun, hends, hfull, ?_, ?_⟩
  · intro b₁ c₁ hawaits
    have hprog₁ := progress_of_awaits h1 hN hold hawaits
    obtain ⟨c₂, hrun₂, hfull₂⟩ := hagain b₁ c₁ hprog₁
    refine ⟨c₂, hrun₂, fun d => ⟨?_, hprog₁.restart hfull hfull₂ d⟩⟩
    obtain ⟨new, hrows, -⟩ := hfull₂.adds d
    exact (hprog₁.keeps d).trans ⟨new, hrows.symm⟩
  · obtain ⟨c₂, hrun₂, hfull₂⟩ := hagain b c' hprog
    exact ⟨c₂, hrun₂, hfull₂.rows_eq_of_has (hprog.restart hfull hfull₂)⟩

/-! ## Verify as a gate -/

/-- Equal message ids come with equal chat ids, on whichever shards. -/
def ChatsAgree (c : DialogsCluster) : Prop :=
  ∀ i j, ∀ r ∈ (c.shard i).rows, ∀ r' ∈ (c.shard j).rows,
    r.val.messageId = r'.val.messageId → r.val.message.chatId = r'.val.message.chatId

/-- Every row of the first `oldN` shards passes the check of verify when nothing is ahead. -/
theorem Progress.copiedTo {b : Backfill} (h : Progress n oldN c₀ b c)
    (hdone : ∀ s < oldN, ∀ r, ¬ b.Ahead s r) {s : Nat} (hs : s < oldN) {r : Row}
    (hr : r ∈ (c.shard s).rows) : CopiedTo c n s r := by
  rcases h.adds s r hr with hr₀ | hdon
  · rcases h.covered s hs r hr₀ with hahead | hcontains
    · exact absurd hahead (hdone s hs r)
    · exact Or.inr hcontains
  · exact Or.inl hdon.target

/-- **Verify gates the switch of reads.** When it passes, a switch that returns loses no message of
any chat from its read shard; and after a complete backfill it passes. -/
theorem verify_gates_switch {r : Nat} (hagree : ChatsAgree c) (hread : c.readN = r) (hr1 : 1 ≤ r)
    (hr : r ≤ c.nShards) (h1 : 1 ≤ n) (hN : n ≤ c.nShards) :
    (cmdVerify c n = .ok () → ∀ c', cmdSwitchRead n c = .ok () c' → ∀ chatId,
        ∃ i j, c.readPoolForChat chatId = .ok i ∧ c'.readPoolForChat chatId = .ok j ∧
          ∀ row ∈ (c.shard i).rows, row.val.message.chatId = chatId →
            ∃ row' ∈ (c'.shard j).rows, row'.val.messageId = row.val.messageId ∧
              row'.val.message.chatId = chatId) ∧
      (c.dualWrite = true → ∃ c', cmdBackfill n c = .ok () c' ∧ cmdVerify c' n = .ok ()) := by
  constructor
  · intro hverify c' hswitch chatId
    obtain ⟨rfl, -⟩ := (reconfigure_ok_iff _ _ _ _ _).mp hswitch
    refine ⟨route chatId r, route chatId n, readPoolForChat_eq hread hr1 hr chatId,
      readPoolForChat_eq (c := c.assign (some (n : Int)) none none) rfl h1 hN chatId, ?_⟩
    intro row hrow hchat
    have hpass := (cmdVerify_ok_iff hread hr h1 hN).mp hverify _ (route_lt chatId hr1) row hrow
    rcases hpass with hplace | hcontains
    · -- the chat does not move
      refine ⟨row, ?_, rfl, hchat⟩
      rw [hchat] at hplace
      rw [hplace]
      exact hrow
    · rw [hchat] at hcontains
      obtain ⟨row', hrow', hid⟩ := ((c.shard _).contains_iff _).mp hcontains
      exact ⟨row', hrow', hid, (hagree _ _ row' hrow' row hrow hid).trans hchat⟩
  · intro hdual
    obtain ⟨c', hrun, -, b, hprog, hdone⟩ := cmdBackfill_backfilled hdual hread h1 hN hr
    refine ⟨c', hrun, (cmdVerify_ok_iff (hprog.readN.trans hread) (by rw [hprog.nShards]; exact hr)
      h1 (by rw [hprog.nShards]; exact hN)).mpr ?_⟩
    intro s hs row hrow
    exact hprog.copiedTo hdone hs hrow

end

/-- Dual-write on two shards that hold one message between them, on the shard that one shard less
would not read. -/
def halfMoved : DialogsCluster := { onLastShard with writeN := 1, dualWrite := true }

theorem cmdBackfill_effect_halfMoved :
    ∃ c', cmdBackfill (1 : Nat) halfMoved = .ok () c' ∧
      BackfillRun (Backfill.start (1 : Nat) 2) halfMoved c' ∧ Backfilled 1 2 halfMoved c' ∧
      (∀ b c₁, ReflTransGen Awaits (Backfill.start (1 : Nat) 2, halfMoved) (b, c₁) →
        ∃ c₂, cmdBackfill (1 : Nat) c₁ = .ok () c₂ ∧ ∀ d,
          (halfMoved.shard d).rows <+: (c₂.shard d).rows ∧
          ∀ v, (c₂.shard d).Has v ↔ (c'.shard d).Has v) ∧
      ∃ c₂, cmdBackfill (1 : Nat) c' = .ok () c₂ ∧ ∀ d, (c₂.shard d).rows = (c'.shard d).rows :=
  cmdBackfill_effect rfl rfl (by decide) (by decide) (by decide)

/-- That layout with the copy in place. -/
def copiedOver : DialogsCluster := halfMoved.insertMessage 0 firstMessage

theorem val_copiedOver (i : Nat) : ∀ r ∈ (copiedOver.shard i).rows, r.val = firstMessage := by
  have hfirst : ∀ i < 2, ∀ r ∈ (copiedOver.shard i).rows, r.val = firstMessage := by decide +kernel
  exact fun r hr => hfirst i (lt_nShards_of_mem_rows hr) r hr

theorem chatsAgree_copiedOver : ChatsAgree copiedOver := by
  intro i j r hr r' hr' _
  rw [val_copiedOver i r hr, val_copiedOver j r' hr']

/-- Verify passes, and the switch moves the chat from the second shard to the first. -/
theorem verify_gates_copiedOver :
    ∃ c', cmdSwitchRead (1 : Nat) copiedOver = .ok () c' ∧
      copiedOver.readPoolForChat firstMessage.message.chatId = .ok 1 ∧
      c'.readPoolForChat firstMessage.message.chatId = .ok 0 ∧
      ∃ row' ∈ (c'.shard 0).rows, row'.val.messageId = firstMessage.messageId ∧
        row'.val.message.chatId = firstMessage.message.chatId := by
  have hverify : cmdVerify copiedOver (1 : Nat) = .ok () := by decide +kernel
  have hswitch : cmdSwitchRead (1 : Nat) copiedOver
      = .ok () (copiedOver.assign (some ((1 : Nat) : Int)) none none) := rfl
  have hbefore : copiedOver.readPoolForChat firstMessage.message.chatId = .ok 1 := by decide +kernel
  have hafter : (copiedOver.assign (some ((1 : Nat) : Int)) none none).readPoolForChat
      firstMessage.message.chatId = .ok 0 := by
    decide +kernel
  obtain ⟨i, j, hi, hj, hrows⟩ := (verify_gates_switch chatsAgree_copiedOver rfl (r := 2) (n := 1)
    (by decide) (by decide) (by decide) (by decide)).1 hverify _ hswitch firstMessage.message.chatId
  obtain rfl := Except.ok.inj (hi.symm.trans hbefore)
  obtain rfl := Except.ok.inj (hj.symm.trans hafter)
  have hstored : (copiedOver.shard 1).rows.any (fun r => decide (r.val = firstMessage)) = true := by
    decide +kernel
  obtain ⟨row, hrow, hval⟩ := List.any_eq_true.mp hstored
  have hval' : row.val = firstMessage := of_decide_eq_true hval
  have hfound := hrows row hrow (by rw [hval'])
  rw [hval'] at hfound
  exact ⟨_, hswitch, hbefore, hafter, hfound⟩

end HighLoad.Dialogs
