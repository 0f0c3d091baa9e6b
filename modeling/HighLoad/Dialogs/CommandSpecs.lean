/-
# HighLoad.Dialogs.CommandSpecs — what each resharding command does to the shards

One specification for each command, on a cluster with `n` in `[1, N]`, so that no later proof opens
a command again:

* `backfillStep_cases` — the four things one await of backfill can do;
* `Copies` — what any part of a backfill does to the rows: it keeps them all and adds copies on their
  target shards only;
* `TailCovered` — the scan invariant: a row is on its target, or exempt, or still ahead of the scan;
* `cmdVerify_ok_iff` — when verify passes;
* `cmdCleanup_spec` — which rows cleanup leaves.
-/
import HighLoad.Dialogs.Protocol
import Mathlib.Algebra.GroupWithZero.Nat

namespace HighLoad.Dialogs

open DialogsCluster

/-! ## Loops in `ClusterM` -/

/-- A loop whose turns never raise while `P` holds is the fold of what its turns do. -/
theorem forM_eq_foldl {α : Type} {l : List α} {g : α → ClusterM Unit}
    {f : DialogsCluster → α → DialogsCluster} {P : DialogsCluster → Prop}
    (hstep : ∀ a ∈ l, ∀ c, P c → g a c = .ok () (f c a) ∧ P (f c a)) {c : DialogsCluster}
    (hc : P c) : l.forM g c = .ok () (l.foldl f c) ∧ P (l.foldl f c) := by
  induction l generalizing c with
  | nil => exact ⟨rfl, hc⟩
  | cons a l ih =>
      obtain ⟨hrun, hP⟩ := hstep a List.mem_cons_self c hc
      have hrest := ih (fun b hb => hstep b (List.mem_cons_of_mem a hb)) hP
      refine ⟨?_, hrest.2⟩
      show ((g a) >>= fun _ => l.forM g) c = _
      rw [bind_eq_of_ok hrun]
      exact hrest.1

/-! ## Copies -/

/-- The cluster after `cmd_backfill` has handled one fetched row of shard `src`. -/
def copied (n src : Nat) (c : DialogsCluster) (row : Row) : DialogsCluster :=
  let dst := route row.val.message.chatId n
  if dst = src then c else c.insertMessage dst row.val

theorem copyRow_eq {c : DialogsCluster} {n : Nat} (h1 : 1 ≤ n) (hN : n ≤ c.nShards) (src : Nat)
    (row : Row) : copyRow n src row c = .ok () (copied n src c row) := by
  have hlt : route row.val.message.chatId n < c.nShards := (route_lt _ h1).trans_le hN
  rw [copyRow, bind_eq_of_ok (liftExcept_of_ok (shardForChat_eq _ h1) c), copied]
  split_ifs with h
  · rfl
  · rw [bind_eq_of_ok (get_eq c), bind_eq_of_ok (liftExcept_of_ok (poolByIndex_eq hlt) c)]
    rfl

/-- `c'` arises from `c` by copying stored messages to the shards `n` routes them to. -/
structure Copies (n : Nat) (c c' : DialogsCluster) : Prop where
  nShards : c'.nShards = c.nShards
  readN : c'.readN = c.readN
  writeN : c'.writeN = c.writeN
  dualWrite : c'.dualWrite = c.dualWrite
  keeps : ∀ ⦃i : Nat⦄ ⦃r : Row⦄, r ∈ (c.shard i).rows → r ∈ (c'.shard i).rows
  adds : ∀ ⦃i : Nat⦄ ⦃r : Row⦄, r ∈ (c'.shard i).rows → r ∈ (c.shard i).rows ∨
    (i = route r.val.message.chatId n ∧ ∃ j, ∃ r' ∈ (c.shard j).rows, r'.val = r.val)

namespace Copies

variable {n : Nat} {c c' c'' : DialogsCluster}

theorem refl (n : Nat) (c : DialogsCluster) : Copies n c c where
  nShards := rfl
  readN := rfl
  writeN := rfl
  dualWrite := rfl
  keeps := fun _ _ h => h
  adds := fun _ _ h => Or.inl h

theorem trans (h : Copies n c c') (h' : Copies n c' c'') : Copies n c c'' where
  nShards := h'.nShards.trans h.nShards
  readN := h'.readN.trans h.readN
  writeN := h'.writeN.trans h.writeN
  dualWrite := h'.dualWrite.trans h.dualWrite
  keeps := fun _ _ hr => h'.keeps (h.keeps hr)
  adds := by
    intro i r hr
    rcases h'.adds hr with hr | ⟨hi, j, r', hr', hval⟩
    · exact h.adds hr
    · rcases h.adds hr' with hr' | ⟨-, k, r'', hr'', hval'⟩
      · exact Or.inr ⟨hi, j, r', hr', hval⟩
      · exact Or.inr ⟨hi, k, r'', hr'', hval'.trans hval⟩

theorem stores (h : Copies n c c') {i : Nat} {m : Message} (hm : c.Stores i m) :
    c'.Stores i m := by
  obtain ⟨r, hr, rfl⟩ := hm
  exact ⟨r, h.keeps hr, rfl⟩

theorem stores_inv (h : Copies n c c') {i : Nat} {m : Message} (hm : c'.Stores i m) :
    c.Stores i m ∨ (i = route m.chatId n ∧ ∃ j, c.Stores j m) := by
  obtain ⟨r, hr, rfl⟩ := hm
  rcases h.adds hr with hr | ⟨hi, j, r', hr', hval⟩
  · exact Or.inl ⟨r, hr, rfl⟩
  · exact Or.inr ⟨hi, j, r', hr', by rw [hval]⟩

/-- Copying brings no message into the cluster. -/
theorem exists_stores (h : Copies n c c') {i : Nat} {m : Message} (hm : c'.Stores i m) :
    ∃ j, c.Stores j m := by
  rcases h.stores_inv hm with hm | ⟨-, hj⟩
  · exact ⟨i, hm⟩
  · exact hj

theorem copiesAgree (h : Copies n c c') (hc : c.CopiesAgree) : c'.CopiesAgree := by
  intro i j m m' hm hm' hid
  obtain ⟨k, hk⟩ := h.exists_stores hm
  obtain ⟨l, hl⟩ := h.exists_stores hm'
  exact hc hk hl hid

end Copies

/-- Copying one row of some shard is a `Copies` step. -/
theorem copies_copied {n src j : Nat} {c : DialogsCluster} {row : Row}
    (hrow : row ∈ (c.shard j).rows) : Copies n c (copied n src c row) := by
  simp only [copied]
  split_ifs with h
  · exact Copies.refl n c
  · exact
      { nShards := nShards_insertMessage _ _ _
        readN := rfl
        writeN := rfl
        dualWrite := rfl
        keeps := fun _ _ hr => mem_rows_insertMessage.mpr (Or.inl hr)
        adds := by
          intro i r hr
          rcases mem_rows_insertMessage.mp hr with hr | ⟨rfl, -, -, rfl⟩
          · exact Or.inl hr
          · exact Or.inr ⟨rfl, j, row, hrow, rfl⟩ }

/-- Once a row has been handled, its message is on its target shard. -/
theorem stores_copied {n src : Nat} {c : DialogsCluster} {row : Row} (h1 : 1 ≤ n)
    (hN : n ≤ c.nShards) (hagree : c.CopiesAgree) (hrow : row ∈ (c.shard src).rows) :
    (copied n src c row).Stores (route row.val.message.chatId n) row.val.message := by
  simp only [copied]
  split_ifs with h
  · rw [h]
    exact ⟨row, hrow, rfl⟩
  · exact stores_insertMessage_self ((route_lt _ h1).trans_le hN)
      fun m hm hid => hagree hm ⟨row, hrow, rfl⟩ hid

/-! ## One await of backfill -/

/-- **What one await of backfill can do**: handle a row of the page, leave an exhausted shard, fetch
the next page, or return. It never raises. -/
theorem backfillStep_cases {b : Backfill} {c : DialogsCluster} {n : Nat} (hn : b.newN = n)
    (h1 : 1 ≤ n) (hN : n ≤ c.nShards) (hold : b.oldN ≤ c.nShards) :
    (∃ row rest, b.page = row :: rest ∧
      backfillStep b c = .ok (some { b with page := rest }) (copied n b.srcIdx c row)) ∨
    (b.page = [] ∧ b.srcIdx < b.oldN ∧ (c.shard b.srcIdx).page b.lastId batch = [] ∧
      backfillStep b c = .ok (some { b with srcIdx := b.srcIdx + 1, lastId := 0 }) c) ∨
    (b.page = [] ∧ b.srcIdx < b.oldN ∧
      ∃ last, ((c.shard b.srcIdx).page b.lastId batch).getLast? = some last ∧
        backfillStep b c = .ok (some { b with
          lastId := last.id, page := (c.shard b.srcIdx).page b.lastId batch }) c) ∨
    (b.page = [] ∧ b.oldN ≤ b.srcIdx ∧ backfillStep b c = .ok none c) := by
  obtain ⟨newN, oldN, srcIdx, lastId, page⟩ := b
  obtain rfl : newN = n := hn
  cases page with
  | cons row rest =>
      refine Or.inl ⟨row, rest, rfl, ?_⟩
      simp only [backfillStep, bind, EStateM.bind, copyRow_eq h1 hN]
      rfl
  | nil =>
      refine Or.inr ?_
      by_cases hsrc : srcIdx < oldN
      · have hlt : srcIdx < c.nShards := hsrc.trans_le hold
        cases hlast : ((c.shard srcIdx).page lastId batch).getLast? with
        | none =>
            refine Or.inl ⟨rfl, hsrc, List.getLast?_eq_none_iff.mp hlast, ?_⟩
            simp only [backfillStep, if_pos hsrc]
            rw [bind_eq_of_ok (get_eq c), bind_eq_of_ok (liftExcept_of_ok (poolByIndex_eq hlt) c),
              bind_eq_of_ok (get_eq c)]
            simp only [hlast]
            rfl
        | some last =>
            refine Or.inr (Or.inl ⟨rfl, hsrc, last, rfl, ?_⟩)
            simp only [backfillStep, if_pos hsrc]
            rw [bind_eq_of_ok (get_eq c), bind_eq_of_ok (liftExcept_of_ok (poolByIndex_eq hlt) c),
              bind_eq_of_ok (get_eq c)]
            simp only [hlast]
            rfl
      · refine Or.inr (Or.inr ⟨rfl, not_lt.mp hsrc, ?_⟩)
        simp only [backfillStep, if_neg hsrc]
        rfl

/-- The same, read off an await that has returned. -/
theorem backfillStep_inv {b : Backfill} {ob : Option Backfill} {c c' : DialogsCluster} {n : Nat}
    (hn : b.newN = n) (h1 : 1 ≤ n) (hN : n ≤ c.nShards) (hold : b.oldN ≤ c.nShards)
    (hstep : backfillStep b c = .ok ob c') :
    (∃ row rest, b.page = row :: rest ∧ ob = some { b with page := rest } ∧
      c' = copied n b.srcIdx c row) ∨
    (b.page = [] ∧ b.srcIdx < b.oldN ∧ (c.shard b.srcIdx).page b.lastId batch = [] ∧
      ob = some { b with srcIdx := b.srcIdx + 1, lastId := 0 } ∧ c' = c) ∨
    (b.page = [] ∧ b.srcIdx < b.oldN ∧
      ∃ last, ((c.shard b.srcIdx).page b.lastId batch).getLast? = some last ∧
        ob = some { b with
          lastId := last.id, page := (c.shard b.srcIdx).page b.lastId batch } ∧ c' = c) ∨
    (b.page = [] ∧ b.oldN ≤ b.srcIdx ∧ ob = none ∧ c' = c) := by
  rcases backfillStep_cases hn h1 hN hold with ⟨row, rest, hpage, hok⟩ |
    ⟨hpage, hsrc, hnil, hok⟩ | ⟨hpage, hsrc, last, hlast, hok⟩ | ⟨hpage, hsrc, hok⟩
  · rw [hok] at hstep
    cases hstep
    exact Or.inl ⟨row, rest, hpage, rfl, rfl⟩
  · rw [hok] at hstep
    cases hstep
    exact Or.inr (Or.inl ⟨hpage, hsrc, hnil, rfl, rfl⟩)
  · rw [hok] at hstep
    cases hstep
    exact Or.inr (Or.inr (Or.inl ⟨hpage, hsrc, last, hlast, rfl, rfl⟩))
  · rw [hok] at hstep
    cases hstep
    exact Or.inr (Or.inr (Or.inr ⟨hpage, hsrc, rfl, rfl⟩))

/-! ## The scan invariant -/

/-- The scan has still to reach row `r` of shard `s`. -/
def Backfill.Ahead (b : Backfill) (s : Nat) (r : Row) : Prop :=
  b.srcIdx < s ∨ (b.srcIdx = s ∧ (b.lastId < r.id ∨ r ∈ b.page))

/-- Every row of the first `oldN` shards has its message on the shard `n` routes it to, or its
message is exempt, or the scan is still to come to it. -/
def TailCovered (n oldN : Nat) (exempt : Message → Prop) (ahead : Nat → Row → Prop)
    (c : DialogsCluster) : Prop :=
  ∀ s < oldN, ∀ r ∈ (c.shard s).rows,
    c.Stores (route r.val.message.chatId n) r.val.message ∨ exempt r.val.message ∨ ahead s r

/-- The locals of a running backfill that the scan invariant leans on. -/
structure Backfill.Scans (b : Backfill) (n oldN : Nat) (exempt : Message → Prop)
    (c : DialogsCluster) : Prop where
  newN_eq : b.newN = n
  oldN_eq : b.oldN = oldN
  page_rows : ∀ r ∈ b.page, r ∈ (c.shard b.srcIdx).rows
  covered : TailCovered n oldN exempt b.Ahead c

/-- When the loops are entered, every row is ahead of the scan. -/
theorem Backfill.scans_start (n oldN : Nat) (exempt : Message → Prop) (c : DialogsCluster) :
    (Backfill.start n oldN).Scans n oldN exempt c where
  newN_eq := rfl
  oldN_eq := rfl
  page_rows := by simp [Backfill.start]
  covered := by
    intro s _ r hr
    refine Or.inr (Or.inr ?_)
    rcases Nat.eq_zero_or_pos s with rfl | hs
    · exact Or.inr ⟨rfl, Or.inl ((c.shard 0).bounds r hr).1⟩
    · exact Or.inl hs

/-- Handling one row of the page keeps the scan invariant: the row is on its target afterwards, and
rows that appear on a shard meanwhile are on their target already. -/
theorem tailCovered_copied {n oldN : Nat} {exempt : Message → Prop} {b : Backfill}
    {c : DialogsCluster} {row : Row} {rest : List Row} (h1 : 1 ≤ n) (hN : n ≤ c.nShards)
    (hagree : c.CopiesAgree) (hpage : b.page = row :: rest)
    (hrow : row ∈ (c.shard b.srcIdx).rows) (h : TailCovered n oldN exempt b.Ahead c) :
    TailCovered n oldN exempt { b with page := rest : Backfill }.Ahead (copied n b.srcIdx c row) := by
  have hcopies : Copies n c (copied n b.srcIdx c row) := copies_copied hrow
  intro s hs r hr
  rcases hcopies.adds hr with hr' | ⟨hi, -⟩
  · rcases h s hs r hr' with ht | hex | hahead
    · exact Or.inl (hcopies.stores ht)
    · exact Or.inr (Or.inl hex)
    · rcases hahead with hlt | ⟨heq, hid | hmem⟩
      · exact Or.inr (Or.inr (Or.inl hlt))
      · exact Or.inr (Or.inr (Or.inr ⟨heq, Or.inl hid⟩))
      · rw [hpage] at hmem
        rcases List.mem_cons.mp hmem with rfl | hmem
        · exact Or.inl (stores_copied h1 hN hagree hrow)
        · exact Or.inr (Or.inr (Or.inr ⟨heq, Or.inr hmem⟩))
  · exact Or.inl (hi ▸ ⟨r, hr, rfl⟩)

/-- **The scan invariant is kept by every await of backfill**, and leaves nothing ahead when the
command returns. -/
theorem Backfill.Scans.step {n oldN : Nat} {exempt : Message → Prop} {b : Backfill}
    {c : DialogsCluster} (h : b.Scans n oldN exempt c) (h1 : 1 ≤ n) (hN : n ≤ c.nShards)
    (hold : oldN ≤ c.nShards) (hagree : c.CopiesAgree) :
    ∃ ob c', backfillStep b c = .ok ob c' ∧ Copies n c c' ∧
      match ob with
      | some b' => b'.Scans n oldN exempt c'
      | none => TailCovered n oldN exempt (fun _ _ => False) c' := by
  have hold' : b.oldN ≤ c.nShards := h.oldN_eq ▸ hold
  rcases backfillStep_cases h.newN_eq h1 hN hold' with ⟨row, rest, hpage, hstep⟩ |
    ⟨hpage, hsrc, hnil, hstep⟩ | ⟨hpage, hsrc, last, hlast, hstep⟩ | ⟨hpage, hsrc, hstep⟩
  · have hrow : row ∈ (c.shard b.srcIdx).rows := h.page_rows row (by rw [hpage]; exact List.mem_cons_self)
    refine ⟨_, _, hstep, copies_copied hrow, ?_⟩
    exact
      { newN_eq := h.newN_eq
        oldN_eq := h.oldN_eq
        page_rows := fun r hr => (copies_copied hrow).keeps
          (h.page_rows r (by rw [hpage]; exact List.mem_cons_of_mem row hr))
        covered := tailCovered_copied h1 hN hagree hpage hrow h.covered }
  · refine ⟨_, _, hstep, Copies.refl n c, ?_⟩
    refine
      { newN_eq := h.newN_eq
        oldN_eq := h.oldN_eq
        page_rows := by simp [hpage]
        covered := ?_ }
    intro s hs r hr
    rcases h.covered s hs r hr with ht | hex | hahead
    · exact Or.inl ht
    · exact Or.inr (Or.inl hex)
    · refine Or.inr (Or.inr ?_)
      rcases hahead with hlt | ⟨heq, hid | hmem⟩
      · rcases Nat.lt_or_eq_of_le (Nat.succ_le_of_lt hlt) with hlt' | heq'
        · exact Or.inl hlt'
        · exact Or.inr ⟨heq', Or.inl ((c.shard s).bounds r hr).1⟩
      · -- the page after `last_id` is empty, so no row of this shard is past it
        have hr' : r ∈ (c.shard b.srcIdx).rows := heq ▸ hr
        have := SerialTable.le_of_page_eq_nil (by decide) hnil hr'
        omega
      · rw [hpage] at hmem
        exact absurd hmem List.not_mem_nil
  · refine ⟨_, _, hstep, Copies.refl n c, ?_⟩
    refine
      { newN_eq := h.newN_eq
        oldN_eq := h.oldN_eq
        page_rows := fun r hr => (SerialTable.mem_of_mem_page hr).1
        covered := ?_ }
    intro s hs r hr
    rcases h.covered s hs r hr with ht | hex | hahead
    · exact Or.inl ht
    · exact Or.inr (Or.inl hex)
    · refine Or.inr (Or.inr ?_)
      rcases hahead with hlt | ⟨heq, hid | hmem⟩
      · exact Or.inl hlt
      · subst heq
        rcases SerialTable.page_covers hlast hr hid with hmem | hlt
        · exact Or.inr ⟨rfl, Or.inr hmem⟩
        · exact Or.inr ⟨rfl, Or.inl hlt⟩
      · rw [hpage] at hmem
        exact absurd hmem List.not_mem_nil
  · refine ⟨_, _, hstep, Copies.refl n c, ?_⟩
    intro s hs r hr
    rcases h.covered s hs r hr with ht | hex | hahead
    · exact Or.inl ht
    · exact Or.inr (Or.inl hex)
    · have := h.oldN_eq
      rcases hahead with hlt | ⟨heq, -⟩ <;> omega

/-! ## A complete backfill -/

/-- `b` runs from `c` to its return in `c'` with nothing in between its awaits. -/
inductive BackfillRun : Backfill → DialogsCluster → DialogsCluster → Prop
  | done {b : Backfill} {c c' : DialogsCluster} :
      backfillStep b c = .ok none c' → BackfillRun b c c'
  | step {b b' : Backfill} {c c' c'' : DialogsCluster} :
      backfillStep b c = .ok (some b') c' → BackfillRun b' c' c'' → BackfillRun b c c''

/-- The run lemma: what the awaits of backfill keep, a complete backfill keeps, and it leaves no row
without a copy on its target. -/
theorem BackfillRun.spec {n oldN : Nat} {exempt : Message → Prop} {b : Backfill}
    {c c' : DialogsCluster} (hrun : BackfillRun b c c') (h : b.Scans n oldN exempt c) (h1 : 1 ≤ n)
    (hN : n ≤ c.nShards) (hold : oldN ≤ c.nShards) (hagree : c.CopiesAgree) :
    Copies n c c' ∧ TailCovered n oldN exempt (fun _ _ => False) c' := by
  induction hrun with
  | @done b c c' hstep =>
      obtain ⟨ob, c₁, hstep', hcopies, hnext⟩ := h.step h1 hN hold hagree
      rw [hstep] at hstep'
      cases hstep'
      exact ⟨hcopies, hnext⟩
  | @step b b' c c' c'' hstep _ ih =>
      obtain ⟨ob, c₁, hstep', hcopies, hnext⟩ := h.step h1 hN hold hagree
      rw [hstep] at hstep'
      cases hstep'
      have hrest := ih hnext (by rw [hcopies.nShards]; exact hN) (by rw [hcopies.nShards]; exact hold)
        (hcopies.copiesAgree hagree)
      exact ⟨hcopies.trans hrest.1, hrest.2⟩

@[simp] theorem nShards_copied (n src : Nat) (c : DialogsCluster) (row : Row) :
    (copied n src c row).nShards = c.nShards := by
  simp only [copied]
  split_ifs <;> simp

/-- Copying out of a shard does not change that shard. -/
theorem shard_copied_self (n src : Nat) (c : DialogsCluster) (row : Row) :
    (copied n src c row).shard src = c.shard src := by
  simp only [copied]
  split_ifs with h
  · rfl
  · exact shard_modifyShard_ne h _

theorem foldl_copied (n src : Nat) (rows : List Row) (c : DialogsCluster) :
    (rows.foldl (copied n src) c).nShards = c.nShards ∧
      (rows.foldl (copied n src) c).shard src = c.shard src := by
  induction rows generalizing c with
  | nil => exact ⟨rfl, rfl⟩
  | cons row rows ih =>
      have h := ih (copied n src c row)
      rw [nShards_copied, shard_copied_self] at h
      exact h

section Complete

variable {n oldN : Nat}

/-- The awaits that handle the rows of a page. -/
theorem backfillRun_page (h1 : 1 ≤ n) {src lastId : Nat} {rows : List Row}
    {c c' : DialogsCluster} (hN : n ≤ c.nShards)
    (h : BackfillRun ⟨n, oldN, src, lastId, []⟩ (rows.foldl (copied n src) c) c') :
    BackfillRun ⟨n, oldN, src, lastId, rows⟩ c c' := by
  induction rows generalizing c with
  | nil => exact h
  | cons row rows ih =>
      have hnext : BackfillRun ⟨n, oldN, src, lastId, rows⟩ (copied n src c row) c' :=
        ih (by rw [nShards_copied]; exact hN) h
      refine BackfillRun.step ?_ hnext
      show (copyRow n src row >>= fun _ => _) c = _
      rw [bind_eq_of_ok (copyRow_eq h1 hN src row)]
      rfl

/-- An empty page ends the loop of a shard. -/
theorem backfillPages_nil {src fuel lastId : Nat} {c : DialogsCluster} (hlt : src < c.nShards)
    (hlast : ((c.shard src).page lastId batch).getLast? = none) :
    backfillPages n src (fuel + 1) lastId c = .ok () c := by
  rw [backfillPages, bind_eq_of_ok (get_eq c),
    bind_eq_of_ok (liftExcept_of_ok (poolByIndex_eq hlt) c), bind_eq_of_ok (get_eq c)]
  simp only [hlast]
  rfl

/-- A page with rows is copied, and the loop goes on behind its last row. -/
theorem backfillPages_page {src fuel lastId : Nat} {c : DialogsCluster} {last : Row}
    (hlt : src < c.nShards) (hlast : ((c.shard src).page lastId batch).getLast? = some last) :
    backfillPages n src (fuel + 1) lastId c
      = (((c.shard src).page lastId batch).forM (copyRow n src) >>= fun _ =>
          backfillPages n src fuel last.id) c := by
  rw [backfillPages, bind_eq_of_ok (get_eq c),
    bind_eq_of_ok (liftExcept_of_ok (poolByIndex_eq hlt) c), bind_eq_of_ok (get_eq c)]
  simp only [hlast]

/-- The page loop of one shard returns, and is the awaits up to the next shard. -/
theorem backfillPages_run (h1 : 1 ≤ n) {src : Nat} (hsrc : src < oldN) {fuel lastId : Nat}
    {c : DialogsCluster} (hN : n ≤ c.nShards) (hold : oldN ≤ c.nShards)
    (hfuel : (c.shard src).remaining lastId < fuel) :
    ∃ c₁, backfillPages n src fuel lastId c = .ok () c₁ ∧ c₁.nShards = c.nShards ∧
      ∀ c', BackfillRun ⟨n, oldN, src + 1, 0, []⟩ c₁ c' →
        BackfillRun ⟨n, oldN, src, lastId, []⟩ c c' := by
  induction fuel generalizing lastId c with
  | zero => omega
  | succ fuel ih =>
      have hlt : src < c.nShards := hsrc.trans_le hold
      rcases backfillStep_cases (b := ⟨n, oldN, src, lastId, []⟩) rfl h1 hN hold with
        ⟨row, rest, hpage, -⟩ | ⟨-, -, hnil, hstep⟩ | ⟨-, -, last, hlast, hstep⟩ | ⟨-, hle, -⟩
      · exact absurd hpage (by simp)
      · exact ⟨c, backfillPages_nil hlt (List.getLast?_eq_none_iff.mpr hnil), rfl,
          fun c' h => BackfillRun.step hstep h⟩
      · set rows := (c.shard src).page lastId batch with hrows
        obtain ⟨hn₁, hs₁⟩ := foldl_copied n src rows c
        have hcopy : rows.forM (copyRow n src) c = .ok () (rows.foldl (copied n src) c) :=
          (forM_eq_foldl (P := fun c => n ≤ c.nShards)
            (fun row _ c hc => ⟨copyRow_eq h1 hc src row, by rw [nShards_copied]; exact hc⟩) hN).1
        have hless : ((rows.foldl (copied n src) c).shard src).remaining last.id < fuel := by
          rw [hs₁]
          have := SerialTable.remaining_lt_of_mem_page (List.mem_of_getLast? hlast)
          omega
        obtain ⟨c₁, hloop, hn₂, hrest⟩ := ih (by rw [hn₁]; exact hN) (by rw [hn₁]; exact hold) hless
        refine ⟨c₁, ?_, hn₂.trans hn₁, fun c' h => ?_⟩
        · exact (backfillPages_page hlt hlast).trans ((bind_eq_of_ok hcopy).trans hloop)
        · exact BackfillRun.step hstep (backfillRun_page h1 hN (hrest c' h))
      · exact absurd hle (not_le.mpr hsrc)

/-- The loop over the remaining source shards returns, and is the awaits up to the return. -/
theorem backfillShards_run (h1 : 1 ≤ n) {k m : Nat} (hk : k + m = oldN) {c : DialogsCluster}
    (hN : n ≤ c.nShards) (hold : oldN ≤ c.nShards) :
    ∃ c', (List.range' k m).forM (backfillShard n) c = .ok () c' ∧
      BackfillRun ⟨n, oldN, k, 0, []⟩ c c' := by
  induction m generalizing k c with
  | zero =>
      refine ⟨c, rfl, BackfillRun.done ?_⟩
      simp only [backfillStep, if_neg (show ¬ k < oldN by omega)]
      rfl
  | succ m ih =>
      obtain ⟨c₁, hpages, hn₁, hjoin⟩ := backfillPages_run h1 (show k < oldN by omega) hN hold
        (Nat.lt_succ_of_le ((c.shard k).remaining_le_length 0))
      obtain ⟨c', hloop, hrest⟩ := ih (k := k + 1) (by omega) (c := c₁) (by rw [hn₁]; exact hN)
        (by rw [hn₁]; exact hold)
      refine ⟨c', ?_, hjoin c' hrest⟩
      have hshard : backfillShard n k c = .ok () c₁ := by
        rw [backfillShard, bind_eq_of_ok (get_eq c)]
        exact hpages
      show (backfillShard n k >>= fun _ => (List.range' (k + 1) m).forM (backfillShard n)) c = _
      rw [bind_eq_of_ok hshard]
      exact hloop

end Complete

/-- **`cmdBackfill` is its awaits, run to the end.** With dual-write on it returns. -/
theorem cmdBackfill_eq_steps {n oldN : Nat} {c : DialogsCluster} (hdual : c.dualWrite = true)
    (hread : c.readN = oldN) (h1 : 1 ≤ n) (hN : n ≤ c.nShards) (hold : oldN ≤ c.nShards) :
    ∃ c', cmdBackfill n c = .ok () c' ∧ BackfillRun (Backfill.start n oldN) c c' := by
  obtain ⟨c', hloop, hrun⟩ := backfillShards_run h1 (Nat.zero_add oldN) hN hold
  refine ⟨c', ?_, hrun⟩
  rw [cmdBackfill, bind_eq_of_ok (get_eq c)]
  simp only [hdual, Bool.not_true, Bool.false_eq_true, if_false]
  rw [bind_eq_of_ok (get_eq c), hread, Int.toNat_natCast, List.range_eq_range']
  exact hloop

/-- Without dual-write, backfill raises and does nothing. -/
theorem cmdBackfill_guard {n : Int} {c : DialogsCluster} (hdual : c.dualWrite = false) :
    cmdBackfill n c = .error backfillGuard c := by
  rw [cmdBackfill, bind_eq_of_ok (get_eq c)]
  simp only [hdual, Bool.not_false, if_true]
  rfl

/-! ## Verify -/

/-- What verify asks of a row of shard `src`: it is in place, or its id is on its target. -/
def CopiedTo (c : DialogsCluster) (n src : Nat) (row : Row) : Prop :=
  route row.val.message.chatId n = src ∨
    (c.shard (route row.val.message.chatId n)).contains row.val.messageId = true

instance (c : DialogsCluster) (n src : Nat) (row : Row) : Decidable (CopiedTo c n src row) :=
  inferInstanceAs (Decidable (_ ∨ _))

/-- One row counts as missing or not. -/
def missingCount (c : DialogsCluster) (n src : Nat) (row : Row) : Nat :=
  if CopiedTo c n src row then 0 else 1

/-- A loop that adds to a counter and never raises returns the sum. -/
theorem foldlM_eq_sum {α : Type} {f : Nat → α → Except PyError Nat} {w : α → Nat} {l : List α}
    (h : ∀ a ∈ l, ∀ k, f k a = .ok (k + w a)) (k : Nat) :
    l.foldlM f k = .ok (k + (l.map w).sum) := by
  induction l generalizing k with
  | nil => rfl
  | cons a l ih =>
      rw [List.foldlM_cons, h a List.mem_cons_self]
      show List.foldlM f (k + w a) l = _
      rw [ih fun b hb => h b (List.mem_cons_of_mem a hb)]
      simp [Nat.add_assoc]

theorem verifyRow_eq {c : DialogsCluster} {n : Nat} (h1 : 1 ≤ n) (hN : n ≤ c.nShards)
    (src missing : Nat) (row : Row) :
    verifyRow c n src missing row = .ok (missing + missingCount c n src row) := by
  have hlt : route row.val.message.chatId n < c.nShards := (route_lt _ h1).trans_le hN
  simp only [verifyRow, shardForChat_eq _ h1, missingCount, CopiedTo, bind, Except.bind]
  by_cases hsrc : route row.val.message.chatId n = src
  · simp [hsrc, pure, Except.pure]
  · rw [if_neg hsrc, poolByIndex_eq hlt]
    by_cases hc : (c.shard (route row.val.message.chatId n)).contains row.val.messageId = true
    · simp [hc, pure, Except.pure]
    · simp [hsrc, hc, pure, Except.pure]

/-- **When verify passes**: every row of the shards it reads is in place or copied to its target. -/
theorem cmdVerify_ok_iff {c : DialogsCluster} {n r : Nat} (hread : c.readN = r)
    (hr : r ≤ c.nShards) (h1 : 1 ≤ n) (hN : n ≤ c.nShards) :
    cmdVerify c n = .ok () ↔ ∀ src < r, ∀ row ∈ (c.shard src).rows, CopiedTo c n src row := by
  have hshard : ∀ src ∈ List.range r, ∀ k, verifyShard c n k src
      = .ok (k + ((c.shard src).rows.map (missingCount c n src)).sum) := by
    intro src hsrc k
    have hlt : src < c.nShards := (List.mem_range.mp hsrc).trans_le hr
    simp only [verifyShard, poolByIndex_eq hlt, bind, Except.bind]
    exact foldlM_eq_sum (fun row _ k => verifyRow_eq h1 hN src k row) k
  have htotal := foldlM_eq_sum hshard 0
  rw [Nat.zero_add] at htotal
  simp only [cmdVerify, hread, Int.toNat_natCast, htotal, bind, Except.bind]
  have hzero : ((List.range r).map fun src =>
      ((c.shard src).rows.map (missingCount c n src)).sum).sum = 0 ↔
      ∀ src < r, ∀ row ∈ (c.shard src).rows, CopiedTo c n src row := by
    simp [List.sum_eq_zero_iff_forall_eq_nat, missingCount]
  rw [← hzero]
  split_ifs with h
  · simp only [ne_eq] at h
    simp [h]
  · simp only [ne_eq, not_not] at h
    simp [h, pure, Except.pure]

/-! ## Cleanup -/

/-- The row is routed to its own shard. -/
def inPlace (n idx : Nat) (row : Row) : Bool := route row.val.message.chatId n = idx

theorem idsToDelete_eq {n : Nat} (h1 : 1 ≤ n) (idx : Nat) (rows : List Row) :
    idsToDelete n idx rows
      = .ok ((rows.filter fun row => !inPlace n idx row).map SerialRow.id) := by
  have hgen : ∀ ids : List Nat, rows.foldlM (fun ids row => do
      let newIdx ← shardForChat row.val.message.chatId.bytes n
      return if newIdx ≠ idx then ids ++ [row.id] else ids) ids
      = (.ok (ids ++ (rows.filter fun row => !inPlace n idx row).map SerialRow.id) :
        Except PyError (List Nat)) := by
    induction rows with
    | nil => intro ids; simp; rfl
    | cons row rows ih =>
        intro ids
        rw [List.foldlM_cons]
        simp only [shardForChat_eq _ h1, bind, Except.bind, pure, Except.pure] at ih ⊢
        rw [ih]
        by_cases hp : route row.val.message.chatId n = idx
        · simp [hp, inPlace]
        · simp [hp, inPlace]
  exact (hgen []).trans (by simp)

/-- The cluster after the turn of cleanup on one shard. -/
def cleaned (n : Nat) (c : DialogsCluster) (idx : Nat) : DialogsCluster :=
  c.modifyShard idx fun t =>
    t.deleteIds ((t.rows.filter fun row => !inPlace n idx row).map SerialRow.id)

theorem modifyShard_id (c : DialogsCluster) (idx : Nat) : c.modifyShard idx (fun t => t) = c := by
  show { c with pools := c.pools.modify idx id } = c
  rw [List.modify_id]

theorem cleanupShard_eq {c : DialogsCluster} {n idx : Nat} (h1 : 1 ≤ n) (hidx : idx < c.nShards) :
    cleanupShard n idx c = .ok () (cleaned n c idx) := by
  rw [cleanupShard, bind_eq_of_ok (get_eq c),
    bind_eq_of_ok (liftExcept_of_ok (poolByIndex_eq hidx) c), bind_eq_of_ok (get_eq c),
    bind_eq_of_ok (liftExcept_of_ok (idsToDelete_eq h1 idx (c.shard idx).rows) c)]
  have hcleaned : cleaned n c idx = c.modifyShard idx fun t =>
      t.deleteIds (((c.shard idx).rows.filter fun row => !inPlace n idx row).map SerialRow.id) := by
    simp only [cleaned, modifyShard, shard]
    congr 1
    refine List.ext_getElem? fun i => ?_
    rw [List.getElem?_modify, List.getElem?_modify]
    by_cases hi : idx = i
    · subst hi
      cases hget : c.pools[idx]? with
      | none => rfl
      | some t => simp [List.getD_eq_getElem?_getD, hget]
    · simp [hi]
  rw [hcleaned]
  cases hids : ((c.shard idx).rows.filter fun row => !inPlace n idx row).map SerialRow.id with
  | nil =>
      simp only [SerialTable.deleteIds_nil, modifyShard_id]
      rfl
  | cons id ids => rfl

@[simp] theorem nShards_cleaned (n : Nat) (c : DialogsCluster) (idx : Nat) :
    (cleaned n c idx).nShards = c.nShards := nShards_modifyShard _ _ _

theorem mem_rows_cleaned {n : Nat} {c : DialogsCluster} {idx i : Nat} {row : Row} :
    row ∈ ((cleaned n c idx).shard i).rows ↔
      row ∈ (c.shard i).rows ∧ (i = idx → route row.val.message.chatId n = i) := by
  by_cases hi : idx = i
  · subst hi
    by_cases hlt : idx < c.nShards
    · rw [cleaned, shard_modifyShard_self hlt, SerialTable.mem_rows_deleteIds_filter]
      simp [inPlace]
    · have hnot : row ∉ ((cleaned n c idx).shard idx).rows := fun h =>
        hlt (by simpa using lt_nShards_of_mem_rows h)
      have hnot' : row ∉ (c.shard idx).rows := fun h => hlt (lt_nShards_of_mem_rows h)
      simp [hnot, hnot']
  · rw [cleaned, shard_modifyShard_ne hi]
    simp [Ne.symm hi]

/-- **Which rows cleanup leaves**: on the first `n` shards the rows `n` routes there, on the other
shards everything. With dual-write off it returns. -/
theorem cmdCleanup_spec {n : Nat} {c : DialogsCluster} (hdual : c.dualWrite = false) (h1 : 1 ≤ n)
    (hN : n ≤ c.nShards) :
    ∃ c', cmdCleanup n c = .ok () c' ∧ c'.nShards = c.nShards ∧ c'.readN = c.readN ∧
      c'.writeN = c.writeN ∧ c'.dualWrite = c.dualWrite ∧
      ∀ i row, row ∈ (c'.shard i).rows ↔
        row ∈ (c.shard i).rows ∧ (i < n → route row.val.message.chatId n = i) := by
  have hloop := (forM_eq_foldl (g := cleanupShard n) (f := cleaned n) (l := List.range n)
    (P := fun c => n ≤ c.nShards) (c := c) (fun idx hidx c hc =>
      ⟨cleanupShard_eq h1 ((List.mem_range.mp hidx).trans_le hc),
        by rw [nShards_cleaned]; exact hc⟩) hN).1
  have hfold : ∀ (l : List Nat) (c : DialogsCluster),
      (l.foldl (cleaned n) c).nShards = c.nShards ∧ (l.foldl (cleaned n) c).readN = c.readN ∧
      (l.foldl (cleaned n) c).writeN = c.writeN ∧
      (l.foldl (cleaned n) c).dualWrite = c.dualWrite ∧
      ∀ i row, row ∈ ((l.foldl (cleaned n) c).shard i).rows ↔
        row ∈ (c.shard i).rows ∧ (i ∈ l → route row.val.message.chatId n = i) := by
    intro l
    induction l with
    | nil => intro c; simp
    | cons idx l ih =>
        intro c
        obtain ⟨hn, hr, hw, hd, hrows⟩ := ih (cleaned n c idx)
        refine ⟨hn.trans (nShards_cleaned _ _ _), hr, hw, hd, fun i row => ?_⟩
        rw [List.foldl_cons, hrows, mem_rows_cleaned, List.mem_cons]
        tauto
  obtain ⟨hn, hr, hw, hd, hrows⟩ := hfold (List.range n) c
  refine ⟨_, ?_, hn, hr, hw, hd, fun i row => by rw [hrows, List.mem_range]⟩
  rw [cmdCleanup, bind_eq_of_ok (get_eq c)]
  simp only [hdual, Bool.false_eq_true, if_false]
  rw [Int.toNat_natCast]
  exact hloop

/-- With dual-write on, cleanup raises and deletes nothing. -/
theorem cmdCleanup_guard {n : Int} {c : DialogsCluster} (hdual : c.dualWrite = true) :
    cmdCleanup n c = .error cleanupGuard c := by
  rw [cmdCleanup, bind_eq_of_ok (get_eq c)]
  simp only [hdual, if_true]
  rfl

end HighLoad.Dialogs
