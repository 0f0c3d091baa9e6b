/-
# HighLoad.Dialogs.Layout — what cleanup leaves when the layout shrinks

The four stages before cleanup, run on a cluster at rest, and then `cmd_cleanup(new_n)`. Cleanup goes
over the first `new_n` shards only, so a row that the old layout kept on a later shard stays there:
the cluster ends with every row on its target and every message stored once exactly when no such row
was there at the start (`cleanup_places_iff`).
-/
import HighLoad.Dialogs.Pipeline

namespace HighLoad.Dialogs

open DialogsCluster

/-- The stages of the script before its last one, for `new_n`. -/
def stagesBeforeCleanup (newN : Int) : ClusterM Unit := do
  cmdEnableDualWrite newN
  cmdBackfill newN
  cmdSwitchRead newN
  cmdDisableDualWrite

/-- Every row is on the shard `n` routes it to, and every message id of `c` is stored once. -/
structure Cleaned (n : Nat) (c c' : DialogsCluster) : Prop where
  placed : ∀ i, ∀ r ∈ (c'.shard i).rows, route r.val.message.chatId n = i
  once : ∀ i, ∀ r ∈ (c.shard i).rows, ∃ j, ∃ s ∈ (c'.shard j).rows,
    s.val.messageId = r.val.messageId ∧
      ∀ k, ∀ t ∈ (c'.shard k).rows, t.val.messageId = r.val.messageId → k = j ∧ t = s

section

variable {N old new : Nat} {c : DialogsCluster}

theorem Settled.copiesAgree (h : Settled N old c) : c.CopiesAgree := by
  rintro i j m m' ⟨r, hr, rfl⟩ ⟨r', hr', rfl⟩ hid
  rw [(h.once i j r hr r' hr' hid).2]

/-- **What the stages before cleanup leave**: the rows that were there, copies on their targets only,
and a copy of every row on its target. -/
theorem Settled.stages (h : Settled N old c) (hold : 1 ≤ old) (hnew : 1 ≤ new) (hoN : old ≤ N)
    (hnN : new ≤ N) :
    ∃ c', stagesBeforeCleanup new c = .ok () c' ∧ c'.nShards = N ∧ c'.dualWrite = false ∧
      (∀ i r, r ∈ (c.shard i).rows → r ∈ (c'.shard i).rows) ∧
      (∀ i r, r ∈ (c'.shard i).rows → r ∈ (c.shard i).rows ∨
        (i = route r.val.message.chatId new ∧ ∃ j, ∃ r' ∈ (c.shard j).rows, r'.val = r.val)) ∧
      ∀ i r, r ∈ (c.shard i).rows →
        c'.Stores (route r.val.message.chatId new) r.val.message := by
  have hn := h.nShards
  have hr := h.readN
  -- dual-write is switched on
  set c₀ := c.assign none (some (new : Int)) (some true) with hc₀
  have hn₀ : c₀.nShards = N := hn
  have hr₀ : c₀.readN = old := hr
  have hvalid₀ : c₀.Valid :=
    { readN := by rw [hr₀, hn₀]; omega
      writeN := by
        show (1 : Int) ≤ new ∧ (new : Int) ≤ c₀.nShards
        rw [hn₀]
        omega }
  have hrun₀ : cmdEnableDualWrite new c = .ok () c₀ :=
    (reconfigure_ok_iff _ _ _ _ _).mpr ⟨rfl, hvalid₀⟩
  -- backfill copies what moves
  obtain ⟨c₁, hrun₁, hsteps⟩ := cmdBackfill_eq_steps (c := c₀) rfl hr₀ hnew
    (by rw [hn₀]; exact hnN) (by rw [hn₀]; exact hoN)
  have hagree : c₀.CopiesAgree := h.copiesAgree
  obtain ⟨hcopies, hcovered⟩ := hsteps.spec
    (Backfill.scans_start new old (fun _ => False) c₀) hnew (by rw [hn₀]; exact hnN)
    (by rw [hn₀]; exact hoN) hagree
  have hn₁ : c₁.nShards = N := hcopies.nShards.trans hn₀
  have hw₁ : c₁.writeN = new := hcopies.writeN
  -- reads are switched, then dual-write is switched off
  set c₂ := c₁.assign (some (new : Int)) none none with hc₂
  have hvalid₂ : c₂.Valid :=
    { readN := by
        show (1 : Int) ≤ new ∧ (new : Int) ≤ c₁.nShards
        rw [hn₁]
        omega
      writeN := by
        show 1 ≤ c₁.writeN ∧ c₁.writeN ≤ c₁.nShards
        rw [hw₁, hn₁]
        omega }
  have hrun₂ : cmdSwitchRead new c₁ = .ok () c₂ :=
    (reconfigure_ok_iff _ _ _ _ _).mpr ⟨rfl, hvalid₂⟩
  have hrun₃ : cmdDisableDualWrite c₂ = .ok () (c₂.assign none none (some false)) :=
    (reconfigure_ok_iff _ _ _ _ _).mpr ⟨rfl, ⟨hvalid₂.readN, hvalid₂.writeN⟩⟩
  refine ⟨c₂.assign none none (some false), ?_, hn₁, rfl, ?_, ?_, ?_⟩
  · rw [stagesBeforeCleanup, bind_eq_of_ok hrun₀, bind_eq_of_ok hrun₁, bind_eq_of_ok hrun₂]
    exact hrun₃
  · intro i r hrow
    exact hcopies.keeps hrow
  · intro i r hrow
    exact hcopies.adds hrow
  · intro i r hrow
    have hi : i < old := by
      rw [h.placed i r.val.message ⟨r, hrow, rfl⟩]
      exact route_lt _ hold
    rcases hcovered i hi r (hcopies.keeps hrow) with hst | hex | hahead
    · exact hst
    · exact absurd hex not_false
    · exact absurd hahead not_false

/-- A row on a shard past the layout is not where the layout routes it. -/
theorem not_cleaned_of_mem {c c' : DialogsCluster} (hnew : 1 ≤ new) {i : Nat} (hi : new ≤ i)
    {r : Row} (hr : r ∈ (c'.shard i).rows) : ¬ Cleaned new c c' := by
  intro hclean
  have hroute := hclean.placed i r hr
  have hlt := route_lt r.val.message.chatId hnew
  omega

/-- The five stages on a cluster at rest return. They leave the rows past the new layout alone, and
when there are none they leave every message once, on its target. -/
theorem Settled.cleanup (h : Settled N old c) (hold : 1 ≤ old) (hnew : 1 ≤ new) (hoN : old ≤ N)
    (hnN : new ≤ N) :
    ∃ c₁ c₂, stagesBeforeCleanup new c = .ok () c₁ ∧ cmdCleanup new c₁ = .ok () c₂ ∧
      (∀ i r, new ≤ i → r ∈ (c.shard i).rows → r ∈ (c₂.shard i).rows) ∧
      ((∀ i, new ≤ i → (c.shard i).rows = []) → Cleaned new c₁ c₂) := by
  obtain ⟨c₁, hrun₁, hn₁, hdual₁, hkeeps, hadds, hcovered⟩ := h.stages hold hnew hoN hnN
  obtain ⟨c₂, hrun₂, -, -, -, -, hrows⟩ := cmdCleanup_spec hdual₁ hnew (by rw [hn₁]; exact hnN)
  -- every row before cleanup carries the value of a row at the start
  have horigin : ∀ i r, r ∈ (c₁.shard i).rows → ∃ j, ∃ r' ∈ (c.shard j).rows, r'.val = r.val := by
    intro i r hr
    rcases hadds i r hr with hr | ⟨-, hj⟩
    · exact ⟨i, r, hr, rfl⟩
    · exact hj
  refine ⟨c₁, c₂, hrun₁, hrun₂, ?_, ?_⟩
  · intro i r hi hr
    exact (hrows i r).mpr ⟨hkeeps i r hr, fun hlt => absurd hlt (not_lt.mpr hi)⟩
  · intro hempty
    have hplaced : ∀ i, ∀ r ∈ (c₂.shard i).rows, route r.val.message.chatId new = i := by
      intro i r hr
      obtain ⟨hr₁, hin⟩ := (hrows i r).mp hr
      by_cases hi : i < new
      · exact hin hi
      · rcases hadds i r hr₁ with hr₀ | ⟨hroute, -⟩
        · rw [hempty i (not_lt.mp hi)] at hr₀
          exact absurd hr₀ List.not_mem_nil
        · exact hroute.symm
    refine ⟨hplaced, ?_⟩
    intro i r hr
    obtain ⟨j, r₀, hr₀, hval⟩ := horigin i r hr
    obtain ⟨s, hs, hsm⟩ := hcovered j r₀ hr₀
    have hsid : s.val.messageId = r.val.messageId := by
      unfold StoredMessage.messageId
      rw [hsm, hval]
    have hchat : s.val.message.chatId = r₀.val.message.chatId := by rw [hsm]
    have hs₂ : s ∈ (c₂.shard (route r₀.val.message.chatId new)).rows :=
      (hrows _ s).mpr ⟨hs, fun _ => by rw [hchat]⟩
    refine ⟨_, s, hs₂, hsid, ?_⟩
    intro k t ht htid
    obtain ⟨l, t₀, ht₀, htval⟩ := horigin k t ((hrows k t).mp ht).1
    -- the two rows at the start have one id, so they are one row
    have hid : t₀.val.messageId = r₀.val.messageId := by rw [htval, htid, hval]
    have hsame : t₀ = r₀ := (h.once l j t₀ ht₀ r₀ hr₀ hid).2
    have hk : k = route r₀.val.message.chatId new := by
      rw [← hplaced k t ht, ← htval, hsame]
    subst hk
    refine ⟨rfl, (c₂.shard _).row_eq_of_key_eq ht hs₂ ?_⟩
    exact htid.trans hsid.symm

/-- **Cleanup leaves each row on its target alone exactly when no row was on a shard past the new
layout.** -/
theorem cleanup_places_iff (hc : Settled N old c) (hold : 1 ≤ old) (hnew : 1 ≤ new) (hoN : old ≤ N)
    (hnN : new ≤ N) :
    ∃ c₁ c₂, stagesBeforeCleanup new c = .ok () c₁ ∧ cmdCleanup new c₁ = .ok () c₂ ∧
      (Cleaned new c₁ c₂ ↔ ∀ i, new ≤ i → (c.shard i).rows = []) := by
  obtain ⟨c₁, c₂, hrun₁, hrun₂, hpast, hplaces⟩ := hc.cleanup hold hnew hoN hnN
  refine ⟨c₁, c₂, hrun₁, hrun₂, ?_, hplaces⟩
  intro hclean i hi
  refine List.eq_nil_iff_forall_not_mem.mpr ?_
  intro r hr
  exact not_cleaned_of_mem hnew hi (hpast i r hi hr) hclean

end

/-- A cluster with one message on its shard is at rest. -/
theorem settled_insertMessage {N n i : Nat} {m : StoredMessage}
    (hroute : route m.message.chatId n = i) : Settled N n ((fresh N n).insertMessage i m) where
  nShards := by
    rw [nShards_insertMessage]
    simp [fresh, DialogsCluster.nShards]
  readN := rfl
  writeN := rfl
  dualWrite := rfl
  placed := by
    rintro j _ ⟨r, hr, rfl⟩
    rcases mem_rows_insertMessage.mp hr with hr | ⟨rfl, -, -, rfl⟩
    · rw [shard_fresh] at hr
      exact absurd hr List.not_mem_nil
    · exact hroute.symm
  once := by
    intro j k r hr r' hr' hid
    rcases mem_rows_insertMessage.mp hr with hr | ⟨rfl, -, -, rfl⟩
    · rw [shard_fresh] at hr
      exact absurd hr List.not_mem_nil
    · rcases mem_rows_insertMessage.mp hr' with hr' | ⟨rfl, -, -, rfl⟩
      · rw [shard_fresh] at hr'
        exact absurd hr' List.not_mem_nil
      · exact ⟨rfl, rfl⟩

/-- A message of the first two users. -/
def firstMessage : StoredMessage :=
  ⟨newMessage (.ofNat 1) (.ofNat 2) "a" (.ofNat 11), nineOnDay 1 first_day⟩

/-- Two shards, and the message on the second. -/
def onLastShard : DialogsCluster := (fresh 2 2).insertMessage 1 firstMessage

theorem settled_onLastShard : Settled 2 2 onLastShard :=
  settled_insertMessage (by decide +kernel)

/-- Two shards in use with the message on the second, and a third one. -/
def beforeGrowth : DialogsCluster := (fresh 3 2).insertMessage 1 firstMessage

theorem settled_beforeGrowth : Settled 3 2 beforeGrowth :=
  settled_insertMessage (by decide +kernel)

/-- Growing that layout moves the row to the third shard. -/
theorem cleanup_places_beforeGrowth :
    (((beforeGrowth.shard 1).rows.map fun r => r.val) = [firstMessage] ∧
      route firstMessage.message.chatId 3 = 2) ∧
    ∃ c₁ c₂, stagesBeforeCleanup (3 : Nat) beforeGrowth = .ok () c₁ ∧
      cmdCleanup (3 : Nat) c₁ = .ok () c₂ ∧ Cleaned 3 c₁ c₂ := by
  obtain ⟨c₁, c₂, hrun₁, hrun₂, hcleaned⟩ :=
    cleanup_places_iff settled_beforeGrowth (N := 3) (by decide) (show 1 ≤ 3 by decide) (by decide)
      (by decide)
  refine ⟨by decide +kernel, c₁, c₂, hrun₁, hrun₂, hcleaned.mpr fun i hi => ?_⟩
  have hshards : beforeGrowth.nShards = 3 := settled_beforeGrowth.nShards
  refine List.eq_nil_iff_forall_not_mem.mpr fun r hr => ?_
  have hlt := lt_nShards_of_mem_rows hr
  omega

/-- **Shrinking it to one shard leaves the row on the second shard.** -/
theorem shrink_keeps_oldRow :
    Settled 2 2 onLastShard ∧
      ∃ c₁ c₂, stagesBeforeCleanup (1 : Nat) onLastShard = .ok () c₁ ∧
        cmdCleanup (1 : Nat) c₁ = .ok () c₂ ∧ ¬ Cleaned 1 c₁ c₂ := by
  have hone : 1 ≤ 1 := le_refl 1
  obtain ⟨c₁, c₂, hrun₁, hrun₂, hpast, -⟩ :=
    settled_onLastShard.cleanup (by decide) hone (by decide) (by decide)
  refine ⟨settled_onLastShard, c₁, c₂, hrun₁, hrun₂, ?_⟩
  have hrows : (onLastShard.shard 1).rows ≠ [] := by decide +kernel
  obtain ⟨r, hr⟩ := List.exists_mem_of_ne_nil _ hrows
  exact not_cleaned_of_mem hone hone (hpast 1 r hone hr)

end HighLoad.Dialogs
