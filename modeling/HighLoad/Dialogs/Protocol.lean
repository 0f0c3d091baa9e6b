/-
# HighLoad.Dialogs.Protocol — resharding with concurrent `send` calls

The system the two halves of the dialog store form at run time: an operator who runs a script of
resharding commands in order and stops at the first exception, and any number of `send` calls. A
`send` evaluates its write pools when it starts and then runs one INSERT at a time; a running
`cmd_backfill` takes one await at a time; every other command is one step.

`quiet` selects the discipline of the integration test: no `send` is in flight when a command other
than backfill runs. `uuid4()` is modelled by its purpose: a new message id is one that no row, no
call in flight and no returned call carries.
-/
import HighLoad.Dialogs.Resharding
import HighLoad.Lib.Schedule

namespace HighLoad.Dialogs

open DialogsCluster

/-- A `send` call in flight: its message and the pools it has still to write. -/
structure SendCall where
  message : Message
  pools : List Nat

/-- The cluster, the calls in flight, the messages whose `send` has returned, and the operator. -/
structure System where
  cluster : DialogsCluster
  inflight : List SendCall
  acked : List Message
  script : List Command
  running : Option Backfill
  raised : Option PyError

/-- What the environment may let happen next. -/
inductive Action where
  | send (fromId toId : Uuid) (text : String) (messageId : Uuid)
  | insert (call : Nat) (now : DateTime)
  | sendReturns (call : Nat)
  | command
  | backfill

namespace System

/-- The message ids in use. -/
def usedIds (s : System) : List Uuid :=
  s.cluster.pools.flatMap (fun t => t.rows.map fun r => r.val.messageId)
    ++ s.inflight.map (fun p => p.message.messageId) ++ s.acked.map (fun m => m.messageId)

/-- The operator stops: the command that ran raised `e`. -/
def abort (s : System) (c : DialogsCluster) (e : PyError) : System :=
  { s with cluster := c, script := [], running := none, raised := some e }

/-- The operator starts `cmd_backfill(new_n)`. -/
def startBackfill (s : System) (newN : Int) : System :=
  if s.cluster.dualWrite then
    { s with running := some (Backfill.start newN s.cluster.readN.toNat) }
  else
    s.abort s.cluster backfillGuard

/-- The operator runs the command `cmd`, which is taken off the script already. -/
def runCommand (s : System) (cmd : Command) : System :=
  match cmd with
  | .backfill newN => s.startBackfill newN
  | cmd =>
      match cmd.run s.cluster with
      | .ok _ c => { s with cluster := c }
      | .error e c => s.abort c e

/-- Whether a command is `backfill`, the one that may run beside `send` calls. -/
def isBackfill : Command → Bool
  | .backfill _ => true
  | _ => false

/-- A `send` call starts: it draws its message id and evaluates its write pools. -/
def beginSend (s : System) (fromId toId : Uuid) (text : String) (messageId : Uuid) :
    Option System :=
  let m := newMessage fromId toId text messageId
  if messageId ∈ s.usedIds then none
  else
    match s.cluster.writePoolsForChat m.chatId with
    | .ok pools => some { s with inflight := s.inflight ++ [⟨m, pools⟩] }
    | .error _ => some s

/-- A call in flight inserts its message into its next pool. -/
def runInsert (s : System) (call : Nat) (now : DateTime) : Option System :=
  match s.inflight[call]? with
  | some ⟨m, idx :: rest⟩ =>
      some { s with
        cluster := s.cluster.insertMessage idx ⟨m, now⟩
        inflight := s.inflight.set call ⟨m, rest⟩ }
  | _ => none

/-- A call with no pool left returns. -/
def endSend (s : System) (call : Nat) : Option System :=
  match s.inflight[call]? with
  | some ⟨m, []⟩ =>
      some { s with inflight := s.inflight.eraseIdx call, acked := s.acked ++ [m] }
  | _ => none

/-- The operator takes the next command of the script. -/
def nextCommand (quiet : Bool) (s : System) : Option System :=
  match s.running, s.script with
  | none, cmd :: rest =>
      if quiet && !s.inflight.isEmpty && !isBackfill cmd then none
      else some ({ s with script := rest }.runCommand cmd)
  | _, _ => none

/-- The running backfill takes its next await. -/
def awaitBackfill (s : System) : Option System :=
  match s.running with
  | none => none
  | some b =>
      match backfillStep b s.cluster with
      | .ok b' c => some { s with cluster := c, running := b' }
      | .error e c => some (s.abort c e)

/-- One step of the system. -/
def step (quiet : Bool) : Action → System → Option System
  | .send fromId toId text messageId, s => s.beginSend fromId toId text messageId
  | .insert call now, s => s.runInsert call now
  | .sendReturns call, s => s.endSend call
  | .command, s => s.nextCommand quiet
  | .backfill, s => s.awaitBackfill

/-- The system before the operator's script: a cluster whose rows were all sent and returned. -/
def start (c : DialogsCluster) (script : List Command) : System where
  cluster := c
  inflight := []
  acked := c.pools.flatMap fun t => t.rows.map fun r => r.val.message
  script := script
  running := none
  raised := none

/-- The messages of the system: those returned and those in flight. -/
def known (s : System) : List Message := s.acked ++ s.inflight.map SendCall.message

/-! ## What a step can do -/

section Cases

variable {s s' : System}

/-- A `send` starts with a new message id and the pools of the moment. -/
theorem beginSend_cases {fromId toId messageId : Uuid} {text : String}
    (h : s.beginSend fromId toId text messageId = some s') (hv : s.cluster.Valid) :
    messageId ∉ s.usedIds ∧
      s' = { s with inflight := s.inflight ++ [⟨newMessage fromId toId text messageId,
        s.cluster.writeRoutes (newMessage fromId toId text messageId).chatId⟩] } := by
  unfold beginSend at h
  simp only [hv.writePoolsForChat] at h
  split_ifs at h with hid
  exact ⟨hid, (Option.some.inj h).symm⟩

/-- An INSERT writes the next pool of one call. -/
theorem runInsert_cases {call : Nat} {now : DateTime} (h : s.runInsert call now = some s') :
    ∃ m idx rest, s.inflight[call]? = some ⟨m, idx :: rest⟩ ∧
      s' = { s with
        cluster := s.cluster.insertMessage idx ⟨m, now⟩
        inflight := s.inflight.set call ⟨m, rest⟩ } := by
  unfold runInsert at h
  split at h
  · rename_i m idx rest hcall
    exact ⟨m, idx, rest, hcall, (Option.some.inj h).symm⟩
  · exact absurd h (by simp)

/-- A call returns once it has no pool left to write. -/
theorem endSend_cases {call : Nat} (h : s.endSend call = some s') :
    ∃ m, s.inflight[call]? = some ⟨m, []⟩ ∧
      s' = { s with inflight := s.inflight.eraseIdx call, acked := s.acked ++ [m] } := by
  unfold endSend at h
  split at h
  · rename_i m hcall
    exact ⟨m, hcall, (Option.some.inj h).symm⟩
  · exact absurd h (by simp)

/-- The next command of the script runs when none is running; under the discipline of the test, a
command other than backfill finds no call in flight. -/
theorem nextCommand_cases {quiet : Bool} (h : s.nextCommand quiet = some s') :
    ∃ cmd rest, s.running = none ∧ s.script = cmd :: rest ∧
      (quiet = true → isBackfill cmd = false → s.inflight = []) ∧
      s' = { s with script := rest }.runCommand cmd := by
  unfold nextCommand at h
  split at h
  · rename_i cmd rest hrunning hscript
    split_ifs at h with hq
    refine ⟨cmd, rest, hrunning, hscript, ?_, (Option.some.inj h).symm⟩
    rintro rfl hcmd
    simpa [hcmd] using hq
  · exact absurd h (by simp)

/-- A running backfill takes its next await. -/
theorem awaitBackfill_cases (h : s.awaitBackfill = some s') :
    ∃ b, s.running = some b ∧
      ((∃ ob c, backfillStep b s.cluster = .ok ob c ∧
          s' = { s with cluster := c, running := ob }) ∨
        ∃ e c, backfillStep b s.cluster = .error e c ∧ s' = s.abort c e) := by
  unfold awaitBackfill at h
  split at h
  · exact absurd h (by simp)
  · rename_i b hrunning
    refine ⟨b, hrunning, ?_⟩
    split at h
    · rename_i ob c hstep
      exact Or.inl ⟨ob, c, hstep, (Option.some.inj h).symm⟩
    · rename_i e c hstep
      exact Or.inr ⟨e, c, hstep, (Option.some.inj h).symm⟩

/-- An await that does not raise changes the cluster and the locals of the command only. -/
theorem awaitBackfill_of_ok {b : Backfill} {ob : Option Backfill} {c : DialogsCluster}
    (h : s.awaitBackfill = some s') (hrun : s.running = some b)
    (hok : backfillStep b s.cluster = .ok ob c) : s' = { s with cluster := c, running := ob } := by
  obtain ⟨b', hrun', ⟨ob', c', hok', hs'⟩ | ⟨e, c', herr, -⟩⟩ := awaitBackfill_cases h
  · obtain rfl : b = b' := Option.some.inj (hrun.symm.trans hrun')
    rw [hok] at hok'
    cases hok'
    exact hs'
  · obtain rfl : b = b' := Option.some.inj (hrun.symm.trans hrun')
    rw [hok] at herr
    cases herr

/-- A command that returns leaves the operator where it was, with the cluster of the command. -/
theorem runCommand_of_ok {cmd : Command} {c : DialogsCluster} (hcmd : isBackfill cmd = false)
    (h : cmd.run s.cluster = .ok () c) : s.runCommand cmd = { s with cluster := c } := by
  cases cmd with
  | backfill n => exact absurd hcmd (by simp [isBackfill])
  | _ =>
      unfold runCommand
      simp only [h]

end Cases

/-- Writing to one more pool changes no message. -/
theorem map_message_set {l : List SendCall} {call : Nat} {m : Message} {pools rest : List Nat}
    (h : l[call]? = some ⟨m, pools⟩) :
    (l.set call ⟨m, rest⟩).map SendCall.message = l.map SendCall.message := by
  have hlen : call < l.length := (List.getElem?_eq_some_iff.mp h).1
  refine List.ext_getElem? fun i => ?_
  rw [List.getElem?_map, List.getElem?_map, List.getElem?_set]
  split_ifs with hi
  · rw [← hi, h]
    rfl
  · rfl

/-- A call other than the one that writes stays as it is. -/
theorem mem_set_or_eq {l : List SendCall} {call : Nat} {p q : SendCall} (h : l[call]? = some p)
    {p' : SendCall} (hp' : p' ∈ l) : p' = p ∨ p' ∈ l.set call q := by
  obtain ⟨i, hi, rfl⟩ := List.mem_iff_getElem.mp hp'
  by_cases hic : call = i
  · subst hic
    rw [List.getElem?_eq_getElem hi] at h
    exact Or.inl (Option.some.inj h)
  · refine Or.inr (List.mem_iff_getElem.mpr ⟨i, by rwa [List.length_set], ?_⟩)
    rw [List.getElem_set_ne hic]

/-- A call other than the one that returns stays in flight. -/
theorem mem_eraseIdx_or_eq {l : List SendCall} {call : Nat} {p : SendCall}
    (h : l[call]? = some p) {p' : SendCall} (hp' : p' ∈ l) : p' = p ∨ p' ∈ l.eraseIdx call := by
  obtain ⟨i, hi, rfl⟩ := List.mem_iff_getElem.mp hp'
  by_cases hic : call = i
  · subst hic
    rw [List.getElem?_eq_getElem hi] at h
    exact Or.inl (Option.some.inj h)
  · exact Or.inr (List.mem_eraseIdx_iff_getElem.mpr ⟨i, hi, Ne.symm hic, rfl⟩)

theorem mem_known {s : System} {m : Message} :
    m ∈ s.known ↔ m ∈ s.acked ∨ ∃ p ∈ s.inflight, p.message = m := by
  simp [known]

/-- A message id that is not in use is on no shard, in no call and on no returned message. -/
theorem not_mem_usedIds {s : System} {id : Uuid} (h : id ∉ s.usedIds) :
    (∀ i m, s.cluster.Stores i m → m.messageId ≠ id) ∧ ∀ m ∈ s.known, m.messageId ≠ id := by
  simp only [usedIds, List.mem_append, not_or] at h
  obtain ⟨⟨hrows, hcalls⟩, hacked⟩ := h
  constructor
  · rintro i m ⟨r, hr, rfl⟩ rfl
    have hi : i < s.cluster.pools.length := lt_nShards_of_mem_rows hr
    rw [shard_eq_getElem hi] at hr
    exact hrows (List.mem_flatMap.mpr ⟨_, List.getElem_mem hi, List.mem_map_of_mem hr⟩)
  · intro m hm hid
    rcases mem_known.mp hm with hm | ⟨p, hp, rfl⟩
    · exact hacked (hid ▸ List.mem_map_of_mem hm)
    · exact hcalls (List.mem_map.mpr ⟨p, hp, hid⟩)

end System

/-- The documented resharding procedure. -/
def pipeline (newN : Int) : List Command :=
  [.enableDualWrite newN, .backfill newN, .verify newN, .switchRead newN, .disableDualWrite,
    .cleanup newN]

end HighLoad.Dialogs
