/-
# HighLoad.Dialogs.Chain — one resharding after another

A cluster that has grown grows again: the operator runs the documented procedure for a list of shard
counts, one after the other, while `send` calls start, insert and return in any order around all of
it. Cleanup ends where the next resharding begins (`PhaseInv.restart`), calls in flight included, so
the invariant of a single resharding carries over the whole list (`reshardings_safe`).
-/
import HighLoad.Dialogs.Pipeline

namespace HighLoad.Dialogs

open DialogsCluster

/-- The operator's script for a list of shard counts. -/
def reshardings (counts : List Nat) : List Command := counts.flatMap fun n => pipeline n

section

variable {N old new : Nat} {φ : Phase} {c : DialogsCluster} {s s' : System}

/-! ## The script seen by one resharding -/

namespace System

/-- The state with another script. -/
def withScript (s : System) (script : List Command) : System := { s with script := script }

/-- A command finds the same cluster whatever stands behind it in the script. -/
theorem runCommand_withScript (cmd : Command) (rest later : List Command)
    (h : ((s.withScript rest).runCommand cmd).raised = none) :
    (s.withScript (rest ++ later)).runCommand cmd
      = ((s.withScript rest).runCommand cmd).withScript
          (((s.withScript rest).runCommand cmd).script ++ later) := by
  cases cmd with
  | backfill n =>
      unfold runCommand startBackfill at h ⊢
      cases hdual : s.cluster.dualWrite with
      | true => simp_all [withScript]
      | false => simp [withScript, hdual, abort] at h
  | _ =>
      unfold runCommand at h ⊢
      simp only [withScript] at h ⊢
      split at h
      · simp_all
      · simp [abort] at h

/-- A step of the whole script is a step of its first part, as long as that part has the next command
and does not raise. -/
theorem step_withScript {a : Action} {script later : List Command} (hs : s.script = script ++ later)
    (hnext : a = .command → script ≠ []) (h : step true a s = some s') :
    ∃ t, step true a (s.withScript script) = some t ∧
      (t.raised = none → s' = t.withScript (t.script ++ later)) := by
  cases a with
  | send fromId toId text messageId =>
      have h' : s.beginSend fromId toId text messageId = some s' := h
      have hid : messageId ∉ s.usedIds := by
        intro hmem
        simp only [beginSend, if_pos hmem] at h'
        exact absurd h' (by simp)
      have hid' : messageId ∉ (s.withScript script).usedIds := hid
      simp only [beginSend, if_neg hid] at h'
      cases hpools : s.cluster.writePoolsForChat (newMessage fromId toId text messageId).chatId with
      | ok pools =>
          rw [hpools] at h'
          obtain rfl := Option.some.inj h'
          refine ⟨{ s.withScript script with
            inflight := s.inflight ++ [⟨newMessage fromId toId text messageId, pools⟩] }, ?_, fun _ => ?_⟩
          · show (s.withScript script).beginSend fromId toId text messageId = some _
            simp only [beginSend, if_neg hid']
            simp only [withScript, hpools]
          · simp [withScript, hs]
      | error e =>
          rw [hpools] at h'
          obtain rfl := Option.some.inj h'
          refine ⟨s.withScript script, ?_, fun _ => ?_⟩
          · show (s.withScript script).beginSend fromId toId text messageId = some _
            simp only [beginSend, if_neg hid']
            simp only [withScript, hpools]
          · simp [withScript, ← hs]
  | insert call now =>
      obtain ⟨m, idx, rest, hcall, rfl⟩ := runInsert_cases h
      refine ⟨{ s.withScript script with
        cluster := s.cluster.insertMessage idx ⟨m, now⟩
        inflight := s.inflight.set call ⟨m, rest⟩ }, ?_, fun _ => ?_⟩
      · show (s.withScript script).runInsert call now = some _
        simp only [runInsert, withScript, hcall]
      · simp [withScript, hs]
  | sendReturns call =>
      obtain ⟨m, hcall, rfl⟩ := endSend_cases h
      refine ⟨{ s.withScript script with
        inflight := s.inflight.eraseIdx call, acked := s.acked ++ [m] }, ?_, fun _ => ?_⟩
      · show (s.withScript script).endSend call = some _
        simp only [endSend, withScript, hcall]
      · simp [withScript, hs]
  | command =>
      obtain ⟨cmd, rest, hrun, hscript, hquiet, rfl⟩ := nextCommand_cases h
      obtain ⟨cmd', rest', rfl⟩ := List.exists_cons_of_ne_nil (hnext rfl)
      rw [hs] at hscript
      obtain ⟨rfl, rfl⟩ := List.cons.inj hscript
      refine ⟨(s.withScript rest').runCommand cmd', ?_, fun hraised => ?_⟩
      · show (s.withScript (cmd' :: rest')).nextCommand true = _
        unfold nextCommand
        simp only [withScript, hrun]
        rw [if_neg]
        intro hbusy
        simp only [Bool.and_eq_true, Bool.not_eq_true'] at hbusy
        rw [hquiet rfl hbusy.2] at hbusy
        simp at hbusy
      · exact runCommand_withScript cmd' rest' later hraised
  | backfill =>
      obtain ⟨b, hrun, ⟨ob, c, hok, rfl⟩ | ⟨e, c, herr, rfl⟩⟩ := awaitBackfill_cases h
      · refine ⟨{ s.withScript script with cluster := c, running := ob }, ?_, fun _ => ?_⟩
        · show (s.withScript script).awaitBackfill = some _
          simp only [awaitBackfill, withScript, hrun, hok]
        · simp [withScript, hs]
      · refine ⟨(s.withScript script).abort c e, ?_, fun hraised => ?_⟩
        · show (s.withScript script).awaitBackfill = some _
          simp only [awaitBackfill, withScript, hrun, herr]
        · simp [abort] at hraised

end System

theorem PhaseInv.withScript (h : PhaseInv N old new φ s) (script : List Command) :
    PhaseInv N old new φ (s.withScript script) :=
  ⟨h.runs, h.raised, h.running, h.stored_known, h.agree, h.calls, h.acked, h.placed, h.scan, h.tail⟩

/-! ## From one resharding to the next -/

/-- **After cleanup the next resharding may begin**, with the calls in flight that there are. -/
theorem PhaseInv.restart (h : PhaseInv N old new .cleaned s) (hold : 1 ≤ old) (hle : old ≤ new)
    (next : Nat) : PhaseInv N new next .initial s where
  runs :=
    { nShards := h.runs.nShards
      readN := h.runs.readN
      writeN := h.runs.writeN
      dualWrite := h.runs.dualWrite }
  raised := h.raised
  running := by
    rw [h.running]
    simp
  stored_known := h.stored_known
  agree := h.agree
  calls := h.calls
  acked := h.acked
  placed := by
    intro i m hm
    rcases h.placed i m hm with hi | ⟨hge, hi⟩
    · exact hi
    · -- the old layout has no shard behind the new one
      have hlt := route_lt m.chatId hold
      omega
  scan := by
    intro b hb
    have hcopying := h.running.mp (by rw [hb]; rfl)
    exact absurd hcopying (by decide)
  tail := fun hφ => absurd hφ (by decide)

/-- The shard counts still to come, from the one in place: none smaller than the one before it, none
larger than the cluster. -/
structure Plan (N old : Nat) (counts : List Nat) : Prop where
  pos : 1 ≤ old
  grows : List.IsChain (· ≤ ·) (old :: counts)
  fits : ∀ n ∈ old :: counts, n ≤ N

theorem Plan.tail {counts : List Nat} (h : Plan N old (new :: counts)) : Plan N new counts where
  pos := h.pos.trans (List.isChain_cons_cons.mp h.grows).1
  grows := (List.isChain_cons_cons.mp h.grows).2
  fits n hn := h.fits n (List.mem_cons_of_mem old hn)

/-- **What holds between and within reshardings**: the invariant of the current one, whose commands
stand before those of the counts still to come. -/
structure ChainInv (N last : Nat) (s : System) (old new : Nat) (φ : Phase) (script : List Command)
    (counts : List Nat) : Prop where
  plan : Plan N old (new :: counts)
  inv : PhaseInv N old new φ s
  admits : Admits new φ.settled script .cleaned
  script_eq : s.script = script ++ reshardings counts
  last_eq : (new :: counts).getLast (List.cons_ne_nil _ _) = last

/-- Cleanup done, the next resharding is the current one. -/
theorem ChainInv.next {last n : Nat} {counts : List Nat}
    (h : ChainInv N last s old new φ [] (n :: counts)) :
    ChainInv N last s new n .initial (pipeline n) counts where
  plan := h.plan.tail
  inv := by
    have hset : φ.settled = .cleaned := Option.some.inj h.admits
    obtain rfl : φ = .cleaned := by
      cases φ with
      | copying => exact absurd hset (by decide)
      | _ => exact hset
    exact h.inv.restart h.plan.pos (List.isChain_cons_cons.mp h.plan.grows).1 n
  admits := admits_pipeline n
  script_eq := by
    rw [h.script_eq]
    simp [reshardings]
  last_eq := by
    rw [← h.last_eq]
    simp

/-- A step within a resharding. -/
theorem ChainInv.stepWithin {last : Nat} {counts : List Nat} {script : List Command}
    (h : ChainInv N last s old new φ script counts) {a : Action} (hnext : a = .command → script ≠ [])
    (hstep : System.step true a s = some s') :
    ∃ φ' script', ChainInv N last s' old new φ' script' counts := by
  have hle := (List.isChain_cons_cons.mp h.plan.grows).1
  have hnN : new ≤ N := h.plan.fits new (List.mem_cons_of_mem old List.mem_cons_self)
  obtain ⟨t, ht, heq⟩ := System.step_withScript h.script_eq hnext hstep
  obtain ⟨φ', hadmits, hinv⟩ := (h.inv.withScript script).step h.plan.pos (h.plan.pos.trans hle)
    (hle.trans hnN) hnN h.admits ht
  obtain rfl := heq hinv.raised
  exact ⟨φ', t.script,
    { plan := h.plan
      inv := hinv.withScript _
      admits := hadmits
      script_eq := rfl
      last_eq := h.last_eq }⟩

/-- **The step lemma**: a step stays within a resharding or begins the next one. -/
theorem ChainInv.step {last : Nat} {counts : List Nat} {script : List Command}
    (h : ChainInv N last s old new φ script counts) {a : Action}
    (hstep : System.step true a s = some s') :
    ∃ old' new' φ' script' counts', ChainInv N last s' old' new' φ' script' counts' := by
  by_cases hnext : a = .command → script ≠ []
  · obtain ⟨φ', script', h'⟩ := h.stepWithin hnext hstep
    exact ⟨old, new, φ', script', counts, h'⟩
  · rw [Classical.not_imp, not_not] at hnext
    obtain ⟨rfl, rfl⟩ := hnext
    cases counts with
    | nil =>
        -- no command is left
        obtain ⟨cmd, rest, -, hscript, -⟩ := System.nextCommand_cases hstep
        rw [h.script_eq] at hscript
        exact absurd hscript (by simp [reshardings])
    | cons n counts =>
        obtain ⟨φ', script', h'⟩ := h.next.stepWithin (fun _ => by simp [pipeline]) hstep
        exact ⟨new, n, φ', script', counts, h'⟩

/-- The run lemma. -/
theorem Settled.chain (hc : Settled N old c) {counts : List Nat} (hplan : Plan N old (new :: counts))
    {acts : List Action}
    (h : exec (System.step true) acts (System.start c (reshardings (new :: counts))) = some s) :
    ∃ old' new' φ script rest, ChainInv N ((new :: counts).getLast (List.cons_ne_nil _ _)) s
      old' new' φ script rest := by
  refine exec_invariant (P := fun s => ∃ old' new' φ script rest,
    ChainInv N ((new :: counts).getLast (List.cons_ne_nil _ _)) s old' new' φ script rest) ?_ ?_ h
  · rintro a - t t' ⟨old', new', φ, script, rest, hinv⟩ hstep
    exact hinv.step hstep
  · exact ⟨old, new, .initial, pipeline new, counts,
      { plan := hplan
        inv := hc.phaseInv new _
        admits := admits_pipeline new
        script_eq := rfl
        last_eq := rfl }⟩

/-- **A cluster may grow as often as one likes**: in every state of a run of reshardings no command
has raised and every message whose `send` has returned is on the shard its chat is read from; at the
end each is stored once in the whole cluster, on its shard of the last layout. -/
theorem reshardings_safe (hc : Settled N old c) {counts : List Nat}
    (hplan : Plan N old (new :: counts)) {acts : List Action}
    (h : exec (System.step true) acts (System.start c (reshardings (new :: counts))) = some s) :
    s.raised = none ∧
      (∀ m ∈ s.acked, ∃ idx, s.cluster.readPoolForChat m.chatId = .ok idx ∧
        s.cluster.Stores idx m) ∧
      (s.script = [] → s.running = none → ∀ m ∈ s.acked,
        s.cluster.StoredOnce (route m.chatId ((new :: counts).getLast (List.cons_ne_nil _ _))) m) := by
  obtain ⟨old', new', φ, script, rest, hinv⟩ := hc.chain hplan h
  have hle := (List.isChain_cons_cons.mp hinv.plan.grows).1
  have hnN : new' ≤ N := hinv.plan.fits new' (List.mem_cons_of_mem old' List.mem_cons_self)
  refine ⟨hinv.inv.raised, ?_, ?_⟩
  · intro m hm
    exact ⟨_, hinv.inv.runs.readPoolForChat hinv.plan.pos (hinv.plan.pos.trans hle) (hle.trans hnN)
      hnN m.chatId, hinv.inv.acked m hm⟩
  · intro hdone hrun m hm
    have hempty := hinv.script_eq.symm.trans hdone
    obtain ⟨hscript, hrest⟩ := List.append_eq_nil_iff.mp hempty
    have hrest' : rest = [] := by
      cases rest with
      | nil => rfl
      | cons n rest => exact absurd hrest (by simp [reshardings, pipeline])
    subst hscript hrest'
    have hset : φ.settled = .cleaned := Option.some.inj hinv.admits
    obtain rfl : φ = .cleaned := by
      cases φ with
      | copying =>
          have hsome := hinv.inv.running.mpr rfl
          rw [hrun] at hsome
          exact absurd hsome (by simp)
      | _ => exact hset
    have hlast : new' = (new :: counts).getLast (List.cons_ne_nil _ _) := by
      rw [← hinv.last_eq]
      rfl
    rw [← hlast]
    exact hinv.inv.storedOnce hinv.plan.pos hle hm

end

/-- From one shard to two and on to three, with a message before the first cleanup. -/
def twoReshardings : List Action :=
  [.send (.ofNat 1) (.ofNat 2) "a" (.ofNat 11), .insert 0 (nineOnDay 1 first_day), .sendReturns 0,
    .command, .command, .backfill, .backfill, .backfill, .backfill, .command, .command, .command,
    .send (.ofNat 1) (.ofNat 5) "b" (.ofNat 12), .insert 0 (nineOnDay 2 second_day), .sendReturns 0,
    .command, .command, .command, .backfill, .backfill, .backfill, .backfill, .backfill, .backfill,
    .backfill, .backfill, .command, .command, .command, .command]

/-- The run goes through and leaves both messages stored once, on their shards of three. -/
theorem twoReshardings_safe :
    ∃ s, exec (System.step true) twoReshardings (System.start (fresh 3 1) (reshardings [2, 3])) = some s ∧
      s.acked.map Message.body = ["a", "b"] ∧
      ∀ m ∈ s.acked, s.cluster.StoredOnce (route m.chatId 3) m := by
  have hrun : ((exec (System.step true) twoReshardings
      (System.start (fresh 3 1) (reshardings [2, 3]))).map fun s =>
        (s.script, s.running.isNone, s.acked.map Message.body)) = some ([], true, ["a", "b"]) := by
    decide +kernel
  obtain ⟨s, hs, heq⟩ := Option.map_eq_some_iff.mp hrun
  simp only [Prod.mk.injEq, Option.isNone_iff_eq_none] at heq
  have hplan : Plan 3 1 [2, 3] := ⟨by decide, by decide, by decide⟩
  exact ⟨s, hs, heq.2.2, (reshardings_safe (settled_fresh 3 1) hplan hs).2.2 heq.1 heq.2.1⟩

end HighLoad.Dialogs
