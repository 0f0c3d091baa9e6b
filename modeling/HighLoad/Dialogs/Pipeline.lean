/-
# HighLoad.Dialogs.Pipeline — resharding loses and duplicates nothing

The documented procedure, run by an operator while `send` calls start, insert and return in any
order around it. In every state of every such run no command has raised, every message whose `send`
has returned is on the shard its chat is read from, and once the script is done it is stored once in
the whole cluster, on its new shard (`pipeline_safe`).
-/
import HighLoad.Dialogs.Phases
import HighLoad.Dialogs.Log

namespace HighLoad.Dialogs

open DialogsCluster

/-- A cluster at rest: one layout, no dual-write, and every message stored once, on its shard. -/
structure Settled (N n : Nat) (c : DialogsCluster) : Prop where
  nShards : c.nShards = N
  readN : c.readN = n
  writeN : c.writeN = n
  dualWrite : c.dualWrite = false
  placed : ∀ i m, c.Stores i m → i = route m.chatId n
  once : ∀ i j, ∀ r ∈ (c.shard i).rows, ∀ r' ∈ (c.shard j).rows,
    r.val.messageId = r'.val.messageId → i = j ∧ r = r'

theorem settled_fresh (N n : Nat) : Settled N n (fresh N n) where
  nShards := by simp [fresh, DialogsCluster.nShards]
  readN := rfl
  writeN := rfl
  dualWrite := rfl
  placed := by
    rintro i m ⟨r, hr, -⟩
    rw [shard_fresh] at hr
    exact absurd hr List.not_mem_nil
  once := by
    intro i j r hr
    rw [shard_fresh] at hr
    exact absurd hr List.not_mem_nil

/-- The message is stored once in the whole cluster, on shard `i`. -/
def DialogsCluster.StoredOnce (c : DialogsCluster) (i : Nat) (m : Message) : Prop :=
  ∃ r ∈ (c.shard i).rows, r.val.message = m ∧
    ∀ j, ∀ r' ∈ (c.shard j).rows, r'.val.messageId = m.messageId → j = i ∧ r' = r

/-- The messages counted as returned at the start are those the cluster stores. -/
theorem mem_acked_start {c : DialogsCluster} {script : List Command} {m : Message} :
    m ∈ (System.start c script).acked ↔ ∃ i, c.Stores i m := by
  unfold System.start
  simp only [List.mem_flatMap, List.mem_map]
  constructor
  · rintro ⟨t, ht, r, hr, hm⟩
    obtain ⟨i, hi, rfl⟩ := List.mem_iff_getElem.mp ht
    rw [← shard_eq_getElem hi] at hr
    exact ⟨i, r, hr, hm⟩
  · rintro ⟨i, r, hr, hm⟩
    have hi : i < c.pools.length := lt_nShards_of_mem_rows hr
    rw [shard_eq_getElem hi] at hr
    exact ⟨c.pools[i], List.getElem_mem hi, r, hr, hm⟩

section

variable {N old new : Nat} {c : DialogsCluster} {s : System}

/-- A cluster at rest is in the first phase. -/
theorem Settled.phaseInv (hc : Settled N old c) (new : Nat) (script : List Command) :
    PhaseInv N old new .initial (System.start c script) where
  runs :=
    { nShards := hc.nShards
      readN := hc.readN
      writeN := hc.writeN
      dualWrite := hc.dualWrite }
  raised := rfl
  running := by simp [System.start]
  stored_known := fun i m hm => System.mem_known.mpr (Or.inl (mem_acked_start.mpr ⟨i, hm⟩))
  agree := by
    intro m hm m' hm' hid
    have hstored : ∀ x ∈ (System.start c script).known, ∃ i, c.Stores i x := by
      intro x hx
      rcases System.mem_known.mp hx with hx | ⟨p, hp, -⟩
      · exact mem_acked_start.mp hx
      · exact absurd hp List.not_mem_nil
    obtain ⟨i, r, hr, rfl⟩ := hstored m hm
    obtain ⟨j, r', hr', rfl⟩ := hstored m' hm'
    rw [(hc.once i j r hr r' hr' hid).2]
  calls := fun p hp => absurd hp List.not_mem_nil
  acked := by
    intro m hm
    obtain ⟨i, hi⟩ := mem_acked_start.mp hm
    exact hc.placed i m hi ▸ hi
  placed := hc.placed
  scan := fun b hb => absurd hb (by simp [System.start])
  tail := fun hφ => absurd hφ (by decide)

/-- **The run lemma**: in every state of a run the invariant of some phase holds, and the rest of the
script leads from there to where the script leads. -/
theorem Settled.run (hc : Settled N old c) (hold : 1 ≤ old) (hnew : 1 ≤ new) (hoN : old ≤ N)
    (hnN : new ≤ N) {script : List Command} {goal : Phase}
    (hscript : Admits new .initial script goal) {acts : List Action}
    (h : exec (System.step true) acts (System.start c script) = some s) :
    ∃ φ, Admits new φ.settled s.script goal ∧ PhaseInv N old new φ s := by
  refine exec_invariant (P := fun s =>
    ∃ φ, Admits new φ.settled s.script goal ∧ PhaseInv N old new φ s) ?_ ?_ h
  · rintro a - t t' ⟨φ, hadmits, hinv⟩ hstep
    exact hinv.step hold hnew hoN hnN hadmits hstep
  · exact ⟨.initial, hscript, hc.phaseInv new script⟩

/-- The documented procedure leads from the first phase to the last. -/
theorem admits_pipeline (new : Nat) : Admits new .initial (pipeline new) .cleaned := by
  unfold Admits pipeline
  simp [Phase.advance]

/-- After cleanup nothing is left of the old layout. -/
theorem PhaseInv.storedOnce (h : PhaseInv N old new .cleaned s) (hold : 1 ≤ old) (hle : old ≤ new)
    {m : Message} (hm : m ∈ s.acked) : s.cluster.StoredOnce (route m.chatId new) m := by
  obtain ⟨r, hr, hrm⟩ := h.acked m hm
  refine ⟨r, hr, hrm, ?_⟩
  intro j r' hr' hid
  have hsame : r'.val.message = m :=
    h.agree _ (h.stored_known j _ ⟨r', hr', rfl⟩) m (System.mem_known.mpr (Or.inl hm)) hid
  have hj : j = route m.chatId new := by
    rcases h.placed j _ ⟨r', hr', rfl⟩ with hj | ⟨hge, hj⟩
    · rw [hj, hsame]
    · have hlt := route_lt r'.val.message.chatId hold
      omega
  refine ⟨hj, ?_⟩
  subst hj
  refine (s.cluster.shard _).row_eq_of_key_eq hr' hr ?_
  unfold StoredMessage.messageId
  rw [hsame, hrm]

/-- **Resharding loses and duplicates nothing.** -/
theorem pipeline_safe (hold : 1 ≤ old) (hle : old ≤ new) (hnN : new ≤ N) (hc : Settled N old c)
    {acts : List Action}
    (h : exec (System.step true) acts (System.start c (pipeline new)) = some s) :
    s.raised = none ∧
      (∀ m ∈ s.acked, ∃ idx, s.cluster.readPoolForChat m.chatId = .ok idx ∧
        s.cluster.Stores idx m) ∧
      (s.script = [] → s.running = none →
        ∀ m ∈ s.acked, s.cluster.StoredOnce (route m.chatId new) m) := by
  have hnew : 1 ≤ new := hold.trans hle
  have hoN : old ≤ N := hle.trans hnN
  obtain ⟨φ, hadmits, hinv⟩ := hc.run hold hnew hoN hnN (admits_pipeline new) h
  refine ⟨hinv.raised, ?_, ?_⟩
  · intro m hm
    exact ⟨_, hinv.runs.readPoolForChat hold hnew hoN hnN m.chatId, hinv.acked m hm⟩
  · intro hdone hrun m hm
    rw [hdone] at hadmits
    have hset : φ.settled = .cleaned := Option.some.inj hadmits
    obtain rfl : φ = .cleaned := by
      cases φ with
      | copying => exact absurd hset (by decide)
      | _ => exact hset
    exact hinv.storedOnce hold hle hm

end

/-- A run from two to three shards: two messages before it, one that starts before the backfill and
ends in the middle of it. -/
def reshardingRun : List Action :=
  [.send (.ofNat 1) (.ofNat 2) "a" (.ofNat 11), .insert 0 (nineOnDay 1 first_day), .sendReturns 0,
    .send (.ofNat 1) (.ofNat 5) "b" (.ofNat 12), .insert 0 (nineOnDay 2 second_day), .sendReturns 0,
    .command, .send (.ofNat 2) (.ofNat 1) "c" (.ofNat 13), .command, .backfill, .backfill,
    .insert 0 (nineOnDay 3 third_day), .backfill, .backfill, .backfill, .insert 0 (nineOnDay 3 third_day),
    .sendReturns 0, .backfill, .backfill, .backfill, .backfill, .command, .command, .command, .command]

/-- The run goes through and leaves the three messages stored once, on their new shards. -/
theorem reshardingRun_safe :
    ∃ s, exec (System.step true) reshardingRun (System.start (fresh 3 2) (pipeline 3)) = some s ∧
      s.acked.map Message.body = ["a", "b", "c"] ∧
      ∀ m ∈ s.acked, s.cluster.StoredOnce (route m.chatId 3) m := by
  have hrun : ((exec (System.step true) reshardingRun
      (System.start (fresh 3 2) (pipeline 3))).map fun s =>
        (s.script, s.running.isNone, s.acked.map Message.body))
      = some ([], true, ["a", "b", "c"]) := by
    decide +kernel
  obtain ⟨s, hs, heq⟩ := Option.map_eq_some_iff.mp hrun
  simp only [Prod.mk.injEq, Option.isNone_iff_eq_none] at heq
  exact ⟨s, hs, heq.2.2, (pipeline_safe (by decide) (by decide) (by decide) (settled_fresh 3 2)
    hs).2.2 heq.1 heq.2.1⟩

end HighLoad.Dialogs
