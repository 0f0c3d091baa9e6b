/-
# HighLoad.Dialogs.Cli — one process per resharding command (`_main` of `scripts/resharding.py`)

The documented procedure runs every command as an invocation of the script, the integration test runs
the sequence on one connected `DialogsCluster`. An invocation takes its flags from the settings, and the
flags that a command sets end with its process. The two agree on every sequence in which each command
that reads a flag finds the settings' flag equal to the one the sequence has set
(`invocations_agree`); the documented sequence is none of these (`documentedSequence_raises`).
-/
import HighLoad.Dialogs.Config
import HighLoad.Dialogs.CommandSpecs

namespace HighLoad.Dialogs

open DialogsCluster

/-! ## An invocation -/

/-- What ends an invocation early: an exception of the command, or `SystemExit`. -/
inductive Exit where
  | raised (e : PyError)
  | systemExit (message : String)
  deriving DecidableEq

/-- The name of a command in `_ALL_COMMANDS`. -/
def Command.name : Command → String
  | .enableDualWrite _ => "enable-dual-write"
  | .backfill _ => "backfill"
  | .verify _ => "verify"
  | .switchRead _ => "switch-read"
  | .disableDualWrite => "disable-dual-write"
  | .cleanup _ => "cleanup"

/-- The option `--new-n`, which `disable-dual-write` does not read. -/
def Command.newN : Command → Option Int
  | .enableDualWrite newN | .backfill newN | .verify newN | .switchRead newN | .cleanup newN =>
      some newN
  | .disableDualWrite => none

/-- `_dispatch(command, new_n)`. -/
def dispatch (cmd : Command) : EStateM Exit DialogsCluster Unit :=
  match cmd.newN with
  | none => EStateM.adaptExcept Exit.raised cmd.run
  | some newN =>
      if newN ≤ 0 then throw (.systemExit s!"--new-n обязателен для {cmd.name}")
      else EStateM.adaptExcept Exit.raised cmd.run

/-- `connect()` in a process that reaches every server of the settings and finds the rows `shards`. -/
def connectTo (settings : ClusterSettings) (shards : List Shard) : ClusterM Unit := do
  modify fun _ => connected settings shards
  liftExcept (← get).validateReshardingState

theorem connect_eq_connectTo {servers : String → Option Shard} {settings : ClusterSettings}
    {shards : List Shard} (h : connectPools servers settings = .ok shards) (c : DialogsCluster) :
    connect servers settings c = connectTo settings shards c := by
  unfold connect
  rw [bind_eq_of_ok (liftExcept_of_ok h c)]
  rfl

/-- `_main()`: connect, dispatch, disconnect. The process leaves nothing but the rows. -/
def main (settings : ClusterSettings) (cmd : Command) (shards : List Shard) :
    Except Exit Unit × List Shard :=
  match connectTo settings shards unconnected with
  | .error e _ => (.error (.raised e), shards)
  | .ok _ c =>
      match dispatch cmd c with
      | .ok _ c' => (.ok (), c'.pools)
      | .error e c' => (.error e, c'.pools)

/-- One invocation per command, up to the first that raises: its position, and the rows left. -/
def invocations (settings : ClusterSettings) : List Command → List Shard → Option Nat × List Shard
  | [], shards => (none, shards)
  | cmd :: rest, shards =>
      match main settings cmd shards with
      | (.error _, left) => (some 0, left)
      | (.ok _, left) =>
          ((invocations settings rest left).1.map (· + 1), (invocations settings rest left).2)

/-- The commands on one connected cluster, up to the first that raises. -/
def inProcess : List Command → DialogsCluster → Option Nat × List Shard
  | [], c => (none, c.pools)
  | cmd :: rest, c =>
      match cmd.run c with
      | .error _ c' => (some 0, c'.pools)
      | .ok _ c' => ((inProcess rest c').1.map (· + 1), (inProcess rest c').2)

/-! ## Flags that are read -/

/-- A shard that is read holds a row. -/
def HasRows (c : DialogsCluster) : Prop := ∃ i < c.readN.toNat, (c.shard i).rows ≠ []

/-- The flags that a command reads are those of the settings; and an argument that the command line
refuses is one at which the command raises. -/
def FlagsKept (settings : ClusterSettings) (c : DialogsCluster) : Command → Prop
  | .enableDualWrite _ | .switchRead _ | .disableDualWrite => True
  | .backfill newN =>
      if 0 < newN then
        (connected settings c.pools).dualWrite = c.dualWrite ∧
          (c.dualWrite = true → (connected settings c.pools).readN = c.readN)
      else c.dualWrite = true → HasRows c
  | .verify newN =>
      if 0 < newN then (connected settings c.pools).readN = c.readN else HasRows c
  | .cleanup newN =>
      if 0 < newN then (connected settings c.pools).dualWrite = c.dualWrite
      else c.dualWrite = true

/-- Every command of the sequence that is reached finds its flags. -/
def KeepsFlags (settings : ClusterSettings) : List Command → DialogsCluster → Prop
  | [], _ => True
  | cmd :: rest, c =>
      FlagsKept settings c cmd ∧ ∀ c', cmd.run c = .ok () c' → KeepsFlags settings rest c'

/-! ## Work on the rows -/

/-- The same rows under other flags. -/
def DialogsCluster.SameRows (c c₁ : DialogsCluster) : Prop := c₁.pools = c.pools

/-- A computation that neither reads nor writes a flag, and opens and closes no pool. -/
structure OnRows {α : Type} (x : ClusterM α) : Prop where
  ok : ∀ {c c' : DialogsCluster} {a : α}, x c = .ok a c' →
    (c' = { c with pools := c'.pools } ∧ c'.nShards = c.nShards) ∧
      ∀ c₁, c.SameRows c₁ → ∃ c₁', x c₁ = .ok a c₁' ∧ c'.SameRows c₁'
  error : ∀ {c c' : DialogsCluster} {e : PyError}, x c = .error e c' →
    (c' = { c with pools := c'.pools } ∧ c'.nShards = c.nShards) ∧
      ∀ c₁, c.SameRows c₁ → ∃ c₁', x c₁ = .error e c₁' ∧ c'.SameRows c₁'

theorem onRows_liftExcept {α : Type} (x : Except PyError α) : OnRows (liftExcept x) := by
  cases x with
  | ok a =>
      refine ⟨?_, ?_⟩
      · intro c c' b h
        cases h
        exact ⟨⟨rfl, rfl⟩, fun c₁ h => ⟨c₁, rfl, h⟩⟩
      · intro c c' e h
        cases h
  | error e =>
      refine ⟨?_, ?_⟩
      · intro c c' b h
        cases h
      · intro c c' b h
        cases h
        exact ⟨⟨rfl, rfl⟩, fun c₁ h => ⟨c₁, rfl, h⟩⟩

theorem onRows_pure {α : Type} (a : α) : OnRows (pure a : ClusterM α) :=
  onRows_liftExcept (.ok a)

theorem onRows_bind {α β : Type} {x : ClusterM α} {f : α → ClusterM β} (hx : OnRows x)
    (hf : ∀ a, OnRows (f a)) : OnRows (x >>= f) := by
  refine ⟨?_, ?_⟩
  · intro c c' b h
    cases hrun : x c with
    | error e c₂ =>
        rw [bind_eq_of_error hrun] at h
        cases h
    | ok a c₂ =>
        rw [bind_eq_of_ok hrun] at h
        obtain ⟨⟨hflags, hn⟩, hsame⟩ := hx.ok hrun
        obtain ⟨⟨hflags', hn'⟩, hsame'⟩ := (hf a).ok h
        refine ⟨⟨?_, hn'.trans hn⟩, ?_⟩
        · rw [hflags', hflags]
        · intro c₁ h₁
          obtain ⟨c₃, hrun₁, h₃⟩ := hsame c₁ h₁
          rw [bind_eq_of_ok hrun₁]
          exact hsame' c₃ h₃
  · intro c c' e h
    cases hrun : x c with
    | error e₂ c₂ =>
        rw [bind_eq_of_error hrun] at h
        cases h
        obtain ⟨hkeep, hsame⟩ := hx.error hrun
        refine ⟨hkeep, ?_⟩
        intro c₁ h₁
        obtain ⟨c₃, hrun₁, h₃⟩ := hsame c₁ h₁
        exact ⟨c₃, bind_eq_of_error hrun₁, h₃⟩
    | ok a c₂ =>
        rw [bind_eq_of_ok hrun] at h
        obtain ⟨⟨hflags, hn⟩, hsame⟩ := hx.ok hrun
        obtain ⟨⟨hflags', hn'⟩, hsame'⟩ := (hf a).error h
        refine ⟨⟨?_, hn'.trans hn⟩, ?_⟩
        · rw [hflags', hflags]
        · intro c₁ h₁
          obtain ⟨c₃, hrun₁, h₃⟩ := hsame c₁ h₁
          rw [bind_eq_of_ok hrun₁]
          exact hsame' c₃ h₃

/-- A computation may read the rows. -/
theorem onRows_get {α : Type} {f : DialogsCluster → ClusterM α} (hf : ∀ c, OnRows (f c))
    (hsame : ∀ c c₁, c.SameRows c₁ → f c₁ = f c) : OnRows (get >>= f) := by
  refine ⟨?_, ?_⟩
  · intro c c' a h
    rw [bind_eq_of_ok (get_eq c)] at h
    refine ⟨((hf c).ok h).1, ?_⟩
    intro c₁ h₁
    rw [bind_eq_of_ok (get_eq c₁), hsame c c₁ h₁]
    exact ((hf c).ok h).2 c₁ h₁
  · intro c c' e h
    rw [bind_eq_of_ok (get_eq c)] at h
    refine ⟨((hf c).error h).1, ?_⟩
    intro c₁ h₁
    rw [bind_eq_of_ok (get_eq c₁), hsame c c₁ h₁]
    exact ((hf c).error h).2 c₁ h₁

theorem onRows_modifyShard (idx : Nat) (f : Shard → Shard) :
    OnRows (modify fun c => c.modifyShard idx f) := by
  refine ⟨?_, ?_⟩
  · intro c c' a h
    cases h
    refine ⟨⟨rfl, nShards_modifyShard c idx f⟩, ?_⟩
    intro c₁ h₁
    refine ⟨c₁.modifyShard idx f, rfl, ?_⟩
    show c₁.pools.modify idx f = c.pools.modify idx f
    rw [h₁]
  · intro c c' e h
    cases h

theorem onRows_forM {α : Type} {f : α → ClusterM Unit} (hf : ∀ a, OnRows (f a)) (l : List α) :
    OnRows (l.forM f) := by
  induction l with
  | nil => exact onRows_pure ()
  | cons a l ih => exact onRows_bind (hf a) fun _ => ih

theorem DialogsCluster.SameRows.poolByIndex {c c₁ : DialogsCluster} (h : c.SameRows c₁) (idx : Nat) :
    c₁.poolByIndex idx = c.poolByIndex idx := by
  unfold DialogsCluster.poolByIndex nShards
  rw [h]

theorem DialogsCluster.SameRows.shard {c c₁ : DialogsCluster} (h : c.SameRows c₁) (idx : Nat) :
    c₁.shard idx = c.shard idx := by
  unfold DialogsCluster.shard
  rw [h]

theorem onRows_copyRow (newN : Int) (srcIdx : Nat) (row : Row) : OnRows (copyRow newN srcIdx row) := by
  unfold copyRow
  apply onRows_bind (onRows_liftExcept _)
  intro newIdx
  split_ifs
  · exact onRows_pure ()
  · apply onRows_get
    · intro c
      apply onRows_bind (onRows_liftExcept _)
      exact fun dst => onRows_modifyShard dst _
    · intro c c₁ h
      rw [h.poolByIndex]

theorem onRows_backfillPages (newN : Int) (srcIdx fuel : Nat) :
    ∀ lastId, OnRows (backfillPages newN srcIdx fuel lastId) := by
  induction fuel with
  | zero => exact fun _ => onRows_liftExcept (.error unfinished)
  | succ fuel ih =>
      intro lastId
      unfold backfillPages
      apply onRows_get
      · intro c
        apply onRows_bind (onRows_liftExcept _)
        intro src
        apply onRows_get
        · intro c
          dsimp only
          split
          · exact onRows_pure ()
          · exact onRows_bind (onRows_forM (onRows_copyRow newN srcIdx) _) fun _ => ih _
        · intro c c₁ h
          rw [h.shard]
      · intro c c₁ h
        rw [h.poolByIndex]

theorem onRows_backfillShard (newN : Int) (srcIdx : Nat) : OnRows (backfillShard newN srcIdx) := by
  unfold backfillShard
  apply onRows_get
  · exact fun c => onRows_backfillPages newN srcIdx _ 0
  · intro c c₁ h
    rw [h.shard]

theorem onRows_cleanupShard (newN : Int) (shardIdx : Nat) : OnRows (cleanupShard newN shardIdx) := by
  unfold cleanupShard
  apply onRows_get
  · intro c
    apply onRows_bind (onRows_liftExcept _)
    intro idx
    apply onRows_get
    · intro c
      apply onRows_bind (onRows_liftExcept _)
      intro ids
      split_ifs
      · exact onRows_modifyShard idx _
      · exact onRows_pure ()
    · intro c c₁ h
      rw [h.shard]
  · intro c c₁ h
    rw [h.poolByIndex]

/-! ## A command under other flags -/

section Commands

variable {settings : ClusterSettings} {c c' c₁ : DialogsCluster} {n : Int}

theorem flagsKept_backfill (hn : 0 < n) : FlagsKept settings c (.backfill n) ↔
    (connected settings c.pools).dualWrite = c.dualWrite ∧
      (c.dualWrite = true → (connected settings c.pools).readN = c.readN) := by
  simp only [FlagsKept, if_pos hn]

theorem cmdBackfill_loop (hdual : c.dualWrite = true) : cmdBackfill n c
    = (List.range c.readN.toNat).forM (backfillShard n) c := by
  rw [cmdBackfill, bind_eq_of_ok (get_eq c)]
  simp only [hdual, Bool.not_true, Bool.false_eq_true, if_false]
  rw [bind_eq_of_ok (get_eq c)]

theorem cmdCleanup_loop (hdual : c.dualWrite = false) : cmdCleanup n c
    = (List.range n.toNat).forM (cleanupShard n) c := by
  rw [cmdCleanup, bind_eq_of_ok (get_eq c)]
  simp only [hdual, Bool.false_eq_true, if_false]

theorem DialogsCluster.Valid.of_rows (h : c.Valid) (hflags : c' = { c with pools := c'.pools })
    (hn : c'.nShards = c.nShards) : c'.Valid := by
  have hread : c'.readN = c.readN := by
    rw [hflags]
  have hwrite : c'.writeN = c.writeN := by
    rw [hflags]
  constructor
  · rw [hread, hn]
    exact h.readN
  · rw [hwrite, hn]
    exact h.writeN

/-- A command that returns leaves accepted flags, and as many shards as there were. -/
theorem Command.keeps_valid {cmd : Command} (hc : c.Valid) (h : cmd.run c = .ok () c') :
    c'.Valid ∧ c'.nShards = c.nShards := by
  have hassign : ∀ {r w : Option Int} {d : Option Bool}, reconfigure r w d c = .ok () c' →
      c'.Valid ∧ c'.nShards = c.nShards := by
    intro r w d hrun
    obtain ⟨rfl, hvalid⟩ := (reconfigure_ok_iff c c' r w d).mp hrun
    exact ⟨hvalid, rfl⟩
  cases cmd with
  | enableDualWrite newN => exact hassign h
  | switchRead newN => exact hassign h
  | disableDualWrite => exact hassign h
  | verify newN =>
      obtain ⟨-, rfl⟩ := liftExcept_ok_iff.mp h
      exact ⟨hc, rfl⟩
  | backfill newN =>
      have hrun : cmdBackfill newN c = .ok () c' := h
      cases hdual : c.dualWrite with
      | false =>
          rw [cmdBackfill_guard hdual] at hrun
          cases hrun
      | true =>
          rw [cmdBackfill_loop hdual] at hrun
          obtain ⟨⟨hflags, hn⟩, -⟩ := (onRows_forM (onRows_backfillShard newN) _).ok hrun
          exact ⟨hc.of_rows hflags hn, hn⟩
  | cleanup newN =>
      have hrun : cmdCleanup newN c = .ok () c' := h
      cases hdual : c.dualWrite with
      | true =>
          rw [cmdCleanup_guard hdual] at hrun
          cases hrun
      | false =>
          rw [cmdCleanup_loop hdual] at hrun
          obtain ⟨⟨hflags, hn⟩, -⟩ := (onRows_forM (onRows_cleanupShard newN) _).ok hrun
          exact ⟨hc.of_rows hflags hn, hn⟩

/-- Both return or both raise, and the rows are the same. -/
def Agree (r : EStateM.Result PyError DialogsCluster Unit)
    (r₁ : EStateM.Result Exit DialogsCluster Unit) : Prop :=
  match r, r₁ with
  | .ok _ c, .ok _ c₁ => c.SameRows c₁
  | .error _ c, .error _ c₁ => c.SameRows c₁
  | _, _ => False

/-- The outcome of a command in an invocation. -/
def exitOf (r : EStateM.Result PyError DialogsCluster Unit) : EStateM.Result Exit DialogsCluster Unit :=
  match r with
  | .ok a c => .ok a c
  | .error e c => .error (.raised e) c

theorem dispatch_of_nonpos (cmd : Command) (hcmd : cmd.newN = some n) (hn : n ≤ 0)
    (c : DialogsCluster) : ∃ e, dispatch cmd c = .error e c := by
  refine ⟨.systemExit s!"--new-n обязателен для {cmd.name}", ?_⟩
  unfold dispatch
  rw [hcmd]
  exact congrFun (if_pos hn) c

theorem dispatch_of_pos {cmd : Command} (hcmd : ∀ n, cmd.newN = some n → 0 < n)
    (c : DialogsCluster) : dispatch cmd c = exitOf (cmd.run c) := by
  have hadapt : EStateM.adaptExcept Exit.raised cmd.run c = exitOf (cmd.run c) := by
    unfold EStateM.adaptExcept exitOf
    cases cmd.run c <;> rfl
  unfold dispatch
  cases hnew : cmd.newN with
  | none => exact hadapt
  | some n =>
      exact (congrFun (if_neg (not_le.mpr (hcmd n hnew))) c).trans hadapt

theorem OnRows.agree {x : ClusterM Unit} (hx : OnRows x) (h : c.SameRows c₁) :
    Agree (x c) (exitOf (x c₁)) := by
  cases hrun : x c with
  | ok a c' =>
      obtain ⟨c₂, hrun₁, hsame⟩ := (hx.ok hrun).2 c₁ h
      rw [hrun₁]
      exact hsame
  | error e c' =>
      obtain ⟨c₂, hrun₁, hsame⟩ := (hx.error hrun).2 c₁ h
      rw [hrun₁]
      exact hsame

/-- Two assignments agree when the validator accepts both or neither. -/
theorem agree_reconfigure {r w : Option Int} {d : Option Bool} (h : c.SameRows c₁)
    (hiff : (c.assign r w d).Valid ↔ (c₁.assign r w d).Valid) :
    Agree (reconfigure r w d c) (exitOf (reconfigure r w d c₁)) := by
  show Agree (liftExcept (c.assign r w d).validateReshardingState (c.assign r w d))
    (exitOf (liftExcept (c₁.assign r w d).validateReshardingState (c₁.assign r w d)))
  rcases ConfigCall.validate_cases (c.assign r w d) with ⟨hvalid, hok⟩ | ⟨hnot, e, herror⟩
  · rcases ConfigCall.validate_cases (c₁.assign r w d) with ⟨-, hok₁⟩ | ⟨hnot₁, -⟩
    · rw [hok, hok₁]
      exact h
    · exact absurd (hiff.mp hvalid) hnot₁
  · rcases ConfigCall.validate_cases (c₁.assign r w d) with ⟨hvalid₁, -⟩ | ⟨-, e₁, herror₁⟩
    · exact absurd (hiff.mpr hvalid₁) hnot
    · rw [herror, herror₁]
      exact h

theorem DialogsCluster.SameRows.nShards (h : c.SameRows c₁) : c₁.nShards = c.nShards :=
  congrArg List.length h

theorem valid_assign_writeN (hc : c.Valid) (d : Option Bool) :
    (c.assign none (some n) d).Valid ↔ 1 ≤ n ∧ n ≤ c.nShards :=
  ⟨fun h => h.writeN, fun h => ⟨hc.readN, h⟩⟩

theorem valid_assign_readN (hc : c.Valid) :
    (c.assign (some n) none none).Valid ↔ 1 ≤ n ∧ n ≤ c.nShards :=
  ⟨fun h => h.readN, fun h => ⟨h, hc.writeN⟩⟩

/-- A command that assigns `n` and validates: for `n ≤ 0` the command line refuses what the validator
refuses, and the rows stay. -/
theorem Command.agree_assigning {cmd : Command} {r w : Option Int} {d : Option Bool}
    (hrun : cmd.run = reconfigure r w d) (hcmd : cmd.newN = some n) (h : c.SameRows c₁)
    (hvalid : (c.assign r w d).Valid ↔ 1 ≤ n ∧ n ≤ c.nShards)
    (hvalid₁ : (c₁.assign r w d).Valid ↔ 1 ≤ n ∧ n ≤ c₁.nShards) :
    Agree (cmd.run c) (dispatch cmd c₁) := by
  have hiff : (c.assign r w d).Valid ↔ (c₁.assign r w d).Valid := by
    rw [hvalid, hvalid₁, h.nShards]
  rw [hrun]
  rcases le_or_gt n 0 with hn | hn
  · obtain ⟨e, he⟩ := dispatch_of_nonpos cmd hcmd hn c₁
    rw [he]
    show Agree (liftExcept (c.assign r w d).validateReshardingState (c.assign r w d)) _
    rcases ConfigCall.validate_cases (c.assign r w d) with ⟨haccepted, -⟩ | ⟨-, e', herror⟩
    · have hpos := (hvalid.mp haccepted).1
      omega
    · rw [herror]
      exact h
  · have hpos : ∀ m, cmd.newN = some m → 0 < m := by
      intro m hm
      rw [hcmd] at hm
      obtain rfl := Option.some.inj hm
      exact hn
    rw [dispatch_of_pos hpos, hrun]
    exact agree_reconfigure h hiff

/-! ### Arguments that the command line refuses -/

theorem shardForChat_nonpos (hn : n ≤ 0) (chatId : List UInt8) :
    ∃ e, shardForChat chatId n = .error e :=
  ⟨_, if_pos hn⟩

theorem copyRow_nonpos (hn : n ≤ 0) (src : Nat) (row : Row) (c : DialogsCluster) :
    ∃ e, copyRow n src row c = .error e c := by
  obtain ⟨e, he⟩ := shardForChat_nonpos hn row.val.message.chatId.bytes
  refine ⟨e, ?_⟩
  unfold copyRow
  apply bind_eq_of_error
  rw [he]
  rfl

theorem poolByIndex_inj {i src : Nat} (h : c.poolByIndex i = .ok src) : src = i := by
  unfold DialogsCluster.poolByIndex at h
  split at h
  · cases h
  · dsimp only at h
    split at h
    · exact (Except.ok.inj h).symm
    · cases h

/-- On one shard the copy then returns without a row and raises at the first. -/
theorem backfillShard_nonpos (hn : n ≤ 0) (i : Nat) (c : DialogsCluster) :
    (backfillShard n i c = .ok () c ∧ (c.shard i).rows = []) ∨
      ∃ e, backfillShard n i c = .error e c := by
  have hshard : backfillShard n i c = backfillPages n i ((c.shard i).rows.length + 1) 0 c := by
    rw [backfillShard, bind_eq_of_ok (get_eq c)]
  rw [hshard, backfillPages, bind_eq_of_ok (get_eq c)]
  cases hpool : c.poolByIndex i with
  | error e => exact Or.inr ⟨e, bind_eq_of_error rfl⟩
  | ok src =>
      obtain rfl := poolByIndex_inj hpool
      rw [bind_eq_of_ok (liftExcept_of_ok rfl c), bind_eq_of_ok (get_eq c)]
      cases hlast : ((c.shard src).page 0 batch).getLast? with
      | none =>
          refine Or.inl ⟨rfl, ?_⟩
          rw [List.eq_nil_iff_forall_not_mem]
          intro row hrow
          have hle := SerialTable.le_of_page_eq_nil (by decide : 0 < batch)
            (List.getLast?_eq_none_iff.mp hlast) hrow
          have hpos := ((c.shard src).bounds row hrow).1
          omega
      | some last =>
          refine Or.inr ?_
          cases hpage : (c.shard src).page 0 batch with
          | nil =>
              rw [hpage] at hlast
              cases hlast
          | cons row rest =>
              obtain ⟨e, he⟩ := copyRow_nonpos hn src row c
              refine ⟨e, ?_⟩
              apply bind_eq_of_error
              apply bind_eq_of_error
              exact he

theorem backfillLoop_nonpos (hn : n ≤ 0) (l : List Nat) (c : DialogsCluster) :
    (l.forM (backfillShard n) c = .ok () c ∧ ∀ i ∈ l, (c.shard i).rows = []) ∨
      ∃ e, l.forM (backfillShard n) c = .error e c := by
  induction l with
  | nil => exact Or.inl ⟨rfl, fun i hi => absurd hi List.not_mem_nil⟩
  | cons i l ih =>
      rcases backfillShard_nonpos hn i c with ⟨hok, hnil⟩ | ⟨e, he⟩
      · have hcons : (i :: l).forM (backfillShard n) c = l.forM (backfillShard n) c :=
          bind_eq_of_ok hok
        rw [hcons]
        rcases ih with ⟨hrest, hnone⟩ | herror
        · exact Or.inl ⟨hrest, List.forall_mem_cons.mpr ⟨hnil, hnone⟩⟩
        · exact Or.inr herror
      · exact Or.inr ⟨e, bind_eq_of_error he⟩

theorem cmdBackfill_nonpos (hn : n ≤ 0) (h : c.dualWrite = true → HasRows c) :
    ∃ e, cmdBackfill n c = .error e c := by
  cases hdual : c.dualWrite with
  | false => exact ⟨_, cmdBackfill_guard hdual⟩
  | true =>
      rw [cmdBackfill_loop hdual]
      rcases backfillLoop_nonpos hn (List.range c.readN.toNat) c with ⟨-, hnone⟩ | herror
      · obtain ⟨i, hi, hrows⟩ := h hdual
        exact absurd (hnone i (List.mem_range.mpr hi)) hrows
      · exact herror

/-- A fold that some element stops does not return. -/
theorem foldlM_ne_ok {α β : Type} {f : β → α → Except PyError β} {l : List α} {a : α} (ha : a ∈ l)
    (hf : ∀ b b', f b a ≠ .ok b') (b b' : β) : l.foldlM f b ≠ .ok b' := by
  induction l generalizing b with
  | nil => cases ha
  | cons x l ih =>
      rw [List.foldlM_cons]
      intro h
      cases hx : f b x with
      | error e =>
          rw [hx] at h
          cases h
      | ok b₁ =>
          rw [hx] at h
          rcases List.mem_cons.mp ha with rfl | hmem
          · exact hf b b₁ hx
          · exact ih hmem b₁ h

theorem cmdVerify_nonpos (hn : n ≤ 0) (h : HasRows c) : ∃ e, cmdVerify c n = .error e := by
  obtain ⟨i, hi, hrows⟩ := h
  obtain ⟨row, hrow⟩ := List.exists_mem_of_ne_nil _ hrows
  have hrowStops : ∀ b b', verifyRow c n i b row ≠ .ok b' := by
    intro b b' hok
    obtain ⟨e, he⟩ := shardForChat_nonpos hn row.val.message.chatId.bytes
    unfold verifyRow at hok
    rw [he] at hok
    cases hok
  have hstops : ∀ b b', verifyShard c n b i ≠ .ok b' := by
    intro b b' hok
    unfold verifyShard at hok
    cases hpool : c.poolByIndex i with
    | error e =>
        rw [hpool] at hok
        cases hok
    | ok src =>
        obtain rfl := poolByIndex_inj hpool
        rw [hpool] at hok
        exact foldlM_ne_ok hrow hrowStops b b' hok
  unfold cmdVerify
  cases hloop : (List.range c.readN.toNat).foldlM (verifyShard c n) 0 with
  | error e => exact ⟨e, rfl⟩
  | ok missing => exact absurd hloop (foldlM_ne_ok (List.mem_range.mpr hi) hstops 0 missing)

/-- Verify reads the rows and `read_n`. -/
theorem cmdVerify_congr (h : c.SameRows c₁) (hread : c₁.readN = c.readN) :
    cmdVerify c₁ n = cmdVerify c n := by
  obtain ⟨pools, r, w, d⟩ := c
  obtain ⟨pools₁, r₁, w₁, d₁⟩ := c₁
  obtain rfl : pools₁ = pools := h
  obtain rfl : r₁ = r := hread
  rfl

/-- **A command that finds its flags does in an invocation what it does in the sequence.** -/
theorem FlagsKept.agree {cmd : Command} (h : FlagsKept settings c cmd) (hc : c.Valid)
    (hown : (connected settings c.pools).Valid) :
    Agree (cmd.run c) (dispatch cmd (connected settings c.pools)) := by
  have hsame : c.SameRows (connected settings c.pools) := rfl
  cases cmd with
  | enableDualWrite newN =>
      exact Command.agree_assigning rfl rfl hsame (valid_assign_writeN hc _) (valid_assign_writeN hown _)
  | switchRead newN =>
      exact Command.agree_assigning rfl rfl hsame (valid_assign_readN hc) (valid_assign_readN hown)
  | disableDualWrite =>
      rw [dispatch_of_pos (by rintro n ⟨⟩)]
      exact agree_reconfigure hsame ⟨fun _ => ⟨hown.readN, hown.writeN⟩, fun _ => ⟨hc.readN, hc.writeN⟩⟩
  | backfill newN =>
      rcases le_or_gt newN 0 with hn | hn
      · have hrows : c.dualWrite = true → HasRows c := by
          simpa only [FlagsKept, if_neg (not_lt.mpr hn)] using h
        obtain ⟨e, he⟩ := dispatch_of_nonpos (.backfill newN) rfl hn
          (connected settings c.pools)
        obtain ⟨e', he'⟩ := cmdBackfill_nonpos hn hrows
        rw [he]
        show Agree (cmdBackfill newN c) _
        rw [he']
        exact hsame
      · obtain ⟨hdualEq, hreadEq⟩ := (flagsKept_backfill hn).mp h
        rw [dispatch_of_pos (by rintro n ⟨⟩; exact hn)]
        show Agree (cmdBackfill newN c) (exitOf (cmdBackfill newN (connected settings c.pools)))
        cases hdual : c.dualWrite with
        | false =>
            rw [cmdBackfill_guard hdual, cmdBackfill_guard (hdualEq.trans hdual)]
            exact hsame
        | true =>
            rw [cmdBackfill_loop hdual, cmdBackfill_loop (hdualEq.trans hdual), hreadEq hdual]
            exact (onRows_forM (onRows_backfillShard newN) _).agree hsame
  | verify newN =>
      rcases le_or_gt newN 0 with hn | hn
      · have hrows : HasRows c := by
          simpa only [FlagsKept, if_neg (not_lt.mpr hn)] using h
        obtain ⟨e, he⟩ := dispatch_of_nonpos (.verify newN) rfl hn
          (connected settings c.pools)
        obtain ⟨e', he'⟩ := cmdVerify_nonpos hn hrows
        rw [he]
        show Agree (liftExcept (cmdVerify c newN) c) _
        rw [he']
        exact hsame
      · have hreadEq : (connected settings c.pools).readN = c.readN := by
          simpa only [FlagsKept, if_pos hn] using h
        rw [dispatch_of_pos (by rintro n ⟨⟩; exact hn)]
        show Agree (liftExcept (cmdVerify c newN) c)
          (exitOf (liftExcept (cmdVerify (connected settings c.pools) newN)
            (connected settings c.pools)))
        rw [cmdVerify_congr hsame hreadEq]
        cases cmdVerify c newN <;> exact hsame
  | cleanup newN =>
      rcases le_or_gt newN 0 with hn | hn
      · have hdual : c.dualWrite = true := by
          simpa only [FlagsKept, if_neg (not_lt.mpr hn)] using h
        obtain ⟨e, he⟩ := dispatch_of_nonpos (.cleanup newN) rfl hn
          (connected settings c.pools)
        rw [he]
        show Agree (cmdCleanup newN c) _
        rw [cmdCleanup_guard hdual]
        exact hsame
      · have hdualEq : (connected settings c.pools).dualWrite = c.dualWrite := by
          simpa only [FlagsKept, if_pos hn] using h
        rw [dispatch_of_pos (by rintro n ⟨⟩; exact hn)]
        show Agree (cmdCleanup newN c) (exitOf (cmdCleanup newN (connected settings c.pools)))
        cases hdual : c.dualWrite with
        | true =>
            rw [cmdCleanup_guard hdual, cmdCleanup_guard (hdualEq.trans hdual)]
            exact hsame
        | false =>
            rw [cmdCleanup_loop hdual, cmdCleanup_loop (hdualEq.trans hdual)]
            exact (onRows_forM (onRows_cleanupShard newN) _).agree hsame

end Commands

/-! ## The sequence -/

section Sequence

variable {settings : ClusterSettings} {c : DialogsCluster}

/-- `connect` returns with the attributes that it assigns, when the validator accepts them. -/
theorem connect_ok_iff {servers : String → Option Shard} :
    connect servers settings unconnected = .ok () c ↔
      ∃ shards, connectPools servers settings = .ok shards ∧ c = connected settings shards ∧
        c.Valid := by
  constructor
  · intro h
    cases hpools : connectPools servers settings with
    | error e =>
        unfold connect at h
        have herror : liftExcept (connectPools servers settings) unconnected = .error e unconnected := by
          rw [hpools]
          rfl
        rw [bind_eq_of_error herror] at h
        cases h
    | ok shards =>
        rw [connect_eq_connectTo hpools] at h
        have hval : liftExcept (connected settings shards).validateReshardingState
            (connected settings shards) = .ok () c := h
        obtain ⟨hok, rfl⟩ := liftExcept_ok_iff.mp hval
        exact ⟨shards, rfl, rfl, (validateReshardingState_ok_iff _).mp hok⟩
  · rintro ⟨shards, hpools, rfl, hvalid⟩
    rw [connect_eq_connectTo hpools]
    exact liftExcept_of_ok ((validateReshardingState_ok_iff _).mpr hvalid) _

theorem main_eq {shards : List Shard} (h : (connected settings shards).Valid) (cmd : Command) :
    main settings cmd shards = match dispatch cmd (connected settings shards) with
      | .ok _ c' => (.ok (), c'.pools)
      | .error e c' => (.error e, c'.pools) := by
  have hconnect : connectTo settings shards unconnected = .ok () (connected settings shards) :=
    liftExcept_of_ok ((validateReshardingState_ok_iff _).mpr h) _
  unfold main
  rw [hconnect]

/-- Whether the settings are accepted depends on the number of shards only. -/
theorem connected_valid {shards shards' : List Shard} (hlen : shards'.length = shards.length)
    (h : (connected settings shards).Valid) : (connected settings shards').Valid := by
  have hread : (connected settings shards').readN = (connected settings shards).readN := by
    unfold connected
    rw [hlen]
  have hwrite : (connected settings shards').writeN = (connected settings shards).writeN := by
    unfold connected
    rw [hlen]
  have hn : (connected settings shards').nShards = (connected settings shards).nShards := hlen
  constructor
  · rw [hread, hn]
    exact h.readN
  · rw [hwrite, hn]
    exact h.writeN

/-- The run lemma. -/
theorem KeepsFlags.agree {cmds : List Command} (h : KeepsFlags settings cmds c) (hc : c.Valid)
    (hown : (connected settings c.pools).Valid) :
    invocations settings cmds c.pools = inProcess cmds c := by
  induction cmds generalizing c with
  | nil => rfl
  | cons cmd rest ih =>
      obtain ⟨hflags, hrest⟩ := h
      have hagree := hflags.agree hc hown
      unfold invocations inProcess
      rw [main_eq hown]
      cases hrun : cmd.run c with
      | error e c' =>
          rw [hrun] at hagree
          cases hown' : dispatch cmd (connected settings c.pools) with
          | ok u c₁ =>
              rw [hown'] at hagree
              exact hagree.elim
          | error e₁ c₁ =>
              rw [hown'] at hagree
              exact congrArg (Prod.mk (some 0)) hagree
      | ok u c' =>
          rw [hrun] at hagree
          cases hown' : dispatch cmd (connected settings c.pools) with
          | error e₁ c₁ =>
              rw [hown'] at hagree
              exact hagree.elim
          | ok u₁ c₁ =>
              rw [hown'] at hagree
              have hpools : c₁.pools = c'.pools := hagree
              obtain ⟨hc', hn⟩ := cmd.keeps_valid hc hrun
              have hnext := ih (hrest c' hrun) hc' (connected_valid hn hown)
              show ((invocations settings rest c₁.pools).1.map (· + 1),
                (invocations settings rest c₁.pools).2) = _
              rw [hpools, hnext]

end Sequence

/-- **The invocations do what the sequence does** on one connected cluster, as long as every command
finds the flags that it reads. -/
theorem invocations_agree (servers : String → Option Shard) (settings : ClusterSettings)
    (c : DialogsCluster) (hconnect : connect servers settings unconnected = .ok () c)
    (cmds : List Command) (hkeeps : KeepsFlags settings cmds c) :
    invocations settings cmds c.pools = inProcess cmds c := by
  obtain ⟨shards, -, rfl, hvalid⟩ := connect_ok_iff.mp hconnect
  exact hkeeps.agree hvalid hvalid

/-- Three shards of which two are in use. -/
def thirdShardAdded : ClusterSettings := ⟨"dsn0,dsn1,dsn2", 2, 2, false⟩

/-- The documented sequence. -/
def documentedSequence : List Command :=
  [.enableDualWrite 3, .backfill 3, .verify 3, .switchRead 3, .disableDualWrite, .cleanup 3]

/-- The second invocation of the documented sequence finds dual-write off, and raises. -/
theorem documentedSequence_raises :
    ¬ ∀ (servers : String → Option Shard) (settings : ClusterSettings) (c : DialogsCluster),
      connect servers settings unconnected = .ok () c → ∀ cmds : List Command,
        invocations settings cmds c.pools = inProcess cmds c := by
  intro h
  have hrun : (match connect (fun _ => some SerialTable.empty) thirdShardAdded unconnected with
      | .ok _ c => decide ((invocations thirdShardAdded documentedSequence c.pools).1
          ≠ (inProcess documentedSequence c).1)
      | .error _ _ => false) = true := by
    decide +kernel
  cases hc : connect (fun _ => some SerialTable.empty) thirdShardAdded unconnected with
  | error e c =>
      rw [hc] at hrun
      cases hrun
  | ok u c =>
      rw [hc] at hrun
      exact of_decide_eq_true hrun (congrArg Prod.fst (h _ _ c hc documentedSequence))

/-- The same shards, with the flags of the window in the settings. -/
def windowSettings : ClusterSettings := ⟨"dsn0,dsn1,dsn2", 2, 3, true⟩

/-- A message of two users who write each other on the second of two shards. -/
def storedMessage : StoredMessage := ⟨newMessage (.ofNat 1) (.ofNat 2) "a" (.ofNat 11), nineOnDay 1 first_day⟩

/-- The servers behind the three addresses; the second has the message. -/
def stockedServers (dsn : String) : Option Shard :=
  some (if dsn = "dsn1" then SerialTable.empty.insert storedMessage else SerialTable.empty)

/-- The rows of each shard, counted. -/
def rowCounts (pools : List Shard) : List Nat := pools.map fun t => t.rows.length

theorem invocations_agree_window : ∃ c,
    connect stockedServers windowSettings unconnected = .ok () c ∧ rowCounts c.pools = [0, 1, 0] ∧
      invocations windowSettings [.enableDualWrite 3, .backfill 3] c.pools
        = inProcess [.enableDualWrite 3, .backfill 3] c ∧
      rowCounts (inProcess [.enableDualWrite 3, .backfill 3] c).2 = [0, 1, 1] := by
  have hrun : (match connect stockedServers windowSettings unconnected with
      | .ok _ c => decide (rowCounts c.pools = [0, 1, 0]
          ∧ rowCounts (inProcess [.enableDualWrite 3, .backfill 3] c).2 = [0, 1, 1])
      | .error _ _ => false) = true := by
    decide +kernel
  cases hc : connect stockedServers windowSettings unconnected with
  | error e c =>
      rw [hc] at hrun
      cases hrun
  | ok u c =>
      rw [hc] at hrun
      obtain ⟨hbefore, hafter⟩ := of_decide_eq_true hrun
      obtain ⟨shards, -, rfl, -⟩ := connect_ok_iff.mp hc
      refine ⟨_, rfl, hbefore, invocations_agree _ windowSettings _ hc _ ⟨trivial, ?_⟩, hafter⟩
      intro c' hc'
      obtain ⟨rfl, -⟩ := (reconfigure_ok_iff _ c' none (some 3) (some true)).mp hc'
      refine ⟨?_, fun _ _ => trivial⟩
      exact (flagsKept_backfill (by decide)).mpr ⟨rfl, fun _ => rfl⟩

end HighLoad.Dialogs
