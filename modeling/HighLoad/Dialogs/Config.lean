/-
# HighLoad.Dialogs.Config — configuration changes that raise

`connect` and `reconfigure` assign the class attributes first and validate them afterwards, so a call
that the validator rejects leaves its assignments behind. `rejections_harmless_iff` says for which
sequences of calls that never shows: those in which every call either raises before it assigns
anything, or assigns an accepted configuration, or assigns what is there already.
-/
import HighLoad.Dialogs.Resharding
import HighLoad.Dialogs.Log
import HighLoad.TextParse

namespace HighLoad.Dialogs

open DialogsCluster

/-- `_parse_shard_dsns(raw)`. -/
def parseShardDsns (raw : String) : List String :=
  ((raw.toList.splitOn ',').map fun entry => String.ofList (strip entry)).filter (· ≠ "")

/-- The settings that `connect()` reads. -/
structure ClusterSettings where
  dialogsShards : String
  dialogsReadN : Int
  dialogsWriteN : Int
  dialogsDualWrite : Bool

/-- `asyncpg.create_pool` on each DSN in turn; the first shard that cannot be reached ends it. -/
def openPools (servers : String → Option Shard) : Nat → List String → Except PyError (List Shard)
  | _, [] => .ok []
  | idx, dsn :: dsns =>
      match servers dsn with
      | none => .error (.runtimeError s!"Не удалось подключиться к шарду {idx}")
      | some pool => (openPools servers (idx + 1) dsns).map (pool :: ·)

/-- The pools of `connect()`, before anything is assigned. -/
def connectPools (servers : String → Option Shard) (settings : ClusterSettings) :
    Except PyError (List Shard) :=
  if (parseShardDsns settings.dialogsShards).isEmpty then
    .error (.runtimeError "DIALOGS_SHARDS пуст — невозможно инициализировать кластер диалогов")
  else openPools servers 0 (parseShardDsns settings.dialogsShards)

/-- The attributes that `connect()` assigns; `settings.dialogs_read_n or n`. -/
def connected (settings : ClusterSettings) (pools : List Shard) : DialogsCluster where
  pools := pools
  readN := if settings.dialogsReadN = 0 then pools.length else settings.dialogsReadN
  writeN := if settings.dialogsWriteN = 0 then pools.length else settings.dialogsWriteN
  dualWrite := settings.dialogsDualWrite

/-- `connect()`. -/
def connect (servers : String → Option Shard) (settings : ClusterSettings) : ClusterM Unit := do
  let pools ← liftExcept (connectPools servers settings)
  modify fun _ => connected settings pools
  liftExcept (← get).validateReshardingState

/-- The calls that change the configuration. -/
inductive ConfigCall where
  | connect (servers : String → Option Shard) (settings : ClusterSettings)
  | reconfigure (readN writeN : Option Int) (dualWrite : Option Bool)
  | enableDualWrite (newN : Int)
  | switchRead (newN : Int)

namespace ConfigCall

/-- One call. -/
def run : ConfigCall → ClusterM Unit
  | .connect servers settings => Dialogs.connect servers settings
  | .reconfigure readN writeN dualWrite => DialogsCluster.reconfigure readN writeN dualWrite
  | .enableDualWrite newN => cmdEnableDualWrite newN
  | .switchRead newN => cmdSwitchRead newN

/-- What the call assigns before it validates; nothing when it raises earlier. -/
def assigned (c : DialogsCluster) : ConfigCall → Option DialogsCluster
  | .connect servers settings =>
      match connectPools servers settings with
      | .ok pools => some (connected settings pools)
      | .error _ => none
  | .reconfigure readN writeN dualWrite => some (c.assign readN writeN dualWrite)
  | .enableDualWrite newN => some (c.assign none (some newN) (some true))
  | .switchRead newN => some (c.assign (some newN) none none)

/-- The call assigns nothing, or what the validator accepts, or what is there already. -/
def Harmless (c : DialogsCluster) (call : ConfigCall) : Prop :=
  ∀ c', call.assigned c = some c' → c'.Valid ∨ c' = c

/-- The class attributes after a call, whether it returned or raised. -/
def after (c : DialogsCluster) (call : ConfigCall) : DialogsCluster :=
  match call.run c with
  | .ok _ c' => c'
  | .error _ c' => c'

/-- Every call assigns and then validates. -/
theorem run_cases (c : DialogsCluster) (call : ConfigCall) :
    (call.assigned c = none ∧ ∃ e, call.run c = .error e c) ∨
      ∃ c', call.assigned c = some c' ∧
        call.run c = liftExcept c'.validateReshardingState c' := by
  cases call with
  | connect servers settings =>
      cases hpools : connectPools servers settings with
      | error e =>
          refine Or.inl ⟨?_, e, ?_⟩
          · simp only [assigned, hpools]
          · show Dialogs.connect servers settings c = _
            unfold Dialogs.connect
            apply bind_eq_of_error
            rw [hpools]
            rfl
      | ok pools =>
          refine Or.inr ⟨connected settings pools, ?_, ?_⟩
          · simp only [assigned, hpools]
          · show Dialogs.connect servers settings c = _
            unfold Dialogs.connect
            rw [bind_eq_of_ok (liftExcept_of_ok hpools c)]
            rfl
  | reconfigure readN writeN dualWrite => exact Or.inr ⟨_, rfl, rfl⟩
  | enableDualWrite newN => exact Or.inr ⟨_, rfl, rfl⟩
  | switchRead newN => exact Or.inr ⟨_, rfl, rfl⟩

/-- The validator returns on an accepted configuration and raises on any other. -/
theorem validate_cases (c' : DialogsCluster) :
    (c'.Valid ∧ liftExcept c'.validateReshardingState c' = .ok () c') ∨
      (¬ c'.Valid ∧ ∃ e, liftExcept c'.validateReshardingState c' = .error e c') := by
  cases hval : c'.validateReshardingState with
  | ok u =>
      exact Or.inl ⟨(validateReshardingState_ok_iff c').mp hval, rfl⟩
  | error e =>
      refine Or.inr ⟨?_, e, rfl⟩
      intro hvalid
      rw [(validateReshardingState_ok_iff c').mpr hvalid] at hval
      exact absurd hval (by simp)

/-- **A call leaves the class alone whenever it raises, exactly when it is harmless.** -/
theorem keeps_iff_harmless (c : DialogsCluster) (call : ConfigCall) :
    (∀ e c', call.run c = .error e c' → c' = c) ↔ call.Harmless c := by
  unfold Harmless
  rcases run_cases c call with ⟨hnone, e, hrun⟩ | ⟨c', hsome, hrun⟩
  · rw [hnone, hrun]
    simp
  · rw [hsome, hrun]
    rcases validate_cases c' with ⟨hvalid, hok⟩ | ⟨hnot, e, herror⟩
    · rw [hok]
      simp [hvalid]
    · rw [herror]
      simp [hnot]

/-- A harmless call leads from pools that are closed or a valid configuration to the same. -/
theorem Harmless.valid_after {c : DialogsCluster} {call : ConfigCall} (h : call.Harmless c)
    (hc : c.pools = [] ∨ c.Valid) : (call.after c).pools = [] ∨ (call.after c).Valid := by
  unfold after
  rcases run_cases c call with ⟨-, e, hrun⟩ | ⟨c', hsome, hrun⟩
  · rw [hrun]
    exact hc
  · have hafter : (match call.run c with
        | .ok _ c' => c'
        | .error _ c' => c') = c' := by
      rw [hrun]
      rcases validate_cases c' with ⟨-, hok⟩ | ⟨-, e, herror⟩
      · rw [hok]
      · rw [herror]
    rw [hafter]
    rcases h c' hsome with hvalid | rfl
    · exact Or.inr hvalid
    · exact hc

end ConfigCall

/-- The class attributes before `connect()`. -/
def unconnected : DialogsCluster where
  pools := []
  readN := 0
  writeN := 0
  dualWrite := false

/-- The class attributes after a sequence of calls. -/
def configured (calls : List ConfigCall) : DialogsCluster :=
  calls.foldl ConfigCall.after unconnected

/-- Reads and writes of every chat are routed to pools of the cluster. -/
def RoutesAll (c : DialogsCluster) : Prop :=
  ∀ chatId, (∃ i < c.nShards, c.readPoolForChat chatId = .ok i) ∧
    ∃ is, c.writePoolsForChat chatId = .ok is ∧ ∀ i ∈ is, i < c.nShards

/-- No call of the sequence that raises changes the class, and wherever the pools are open every chat
is routed. -/
def RejectionsHarmless (calls : List ConfigCall) : Prop :=
  (∀ pre call, pre ++ [call] <+: calls →
      ∀ e c', call.run (configured pre) = .error e c' → c' = configured pre) ∧
    ∀ pre, pre <+: calls → (configured pre).pools ≠ [] → RoutesAll (configured pre)

theorem DialogsCluster.Valid.routesAll {c : DialogsCluster} (h : c.Valid) : RoutesAll c := by
  intro chatId
  have hread := h.readN
  have hlt : route chatId c.readN.toNat < c.readN.toNat := route_lt chatId (by omega)
  refine ⟨⟨_, by omega, h.readPoolForChat chatId⟩, _, h.writePoolsForChat chatId, ?_⟩
  exact fun i hi => h.lt_of_mem_writeRoutes hi

/-- The run lemma: harmless calls keep the pools closed or the configuration valid. -/
theorem configured_valid {calls : List ConfigCall}
    (h : ∀ pre call, pre ++ [call] <+: calls → call.Harmless (configured pre)) :
    (configured calls).pools = [] ∨ (configured calls).Valid := by
  induction calls using List.reverseRecOn with
  | nil => exact Or.inl rfl
  | append_singleton calls call ih =>
      have hrest := ih fun pre call' hpre => h pre call' (hpre.trans (List.prefix_append _ _))
      have hlast := h calls call (List.prefix_refl _)
      unfold configured at hrest hlast ⊢
      rw [List.foldl_append]
      exact hlast.valid_after hrest

/-- **Rejected configuration changes are harmless exactly when every call is.** -/
theorem rejections_harmless_iff (calls : List ConfigCall) :
    RejectionsHarmless calls ↔
      ∀ pre call, pre ++ [call] <+: calls → call.Harmless (configured pre) := by
  constructor
  · rintro ⟨hkeeps, -⟩ pre call hpre
    exact (call.keeps_iff_harmless _).mp (hkeeps pre call hpre)
  · intro h
    refine ⟨fun pre call hpre => (call.keeps_iff_harmless _).mpr (h pre call hpre), ?_⟩
    intro pre hpre hopen
    rcases configured_valid fun pre' call hpre' => h pre' call (hpre'.trans hpre) with hclosed | hvalid
    · exact absurd hclosed hopen
    · exact hvalid.routesAll

/-- Two reachable shards and the default flags. -/
def twoShards : ClusterSettings := ⟨"dsn0,dsn1", 0, 0, false⟩

/-- `connect()`, then the call that the test expects to be rejected. -/
theorem rejectedReadN_sticks :
    ¬ RejectionsHarmless [.connect (fun _ => some SerialTable.empty) twoShards,
      .reconfigure (some 99) none none] := by
  intro h
  have hkeeps := h.1 [.connect (fun _ => some SerialTable.empty) twoShards]
    (.reconfigure (some 99) none none) (List.prefix_refl _)
  have hread : (configured [.connect (fun _ => some SerialTable.empty) twoShards]).readN ≠ 99 := by
    decide +kernel
  rcases ConfigCall.validate_cases ((configured [.connect (fun _ => some SerialTable.empty)
    twoShards]).assign (some 99) none none) with ⟨hvalid, -⟩ | ⟨-, e, herror⟩
  · have hle := hvalid.readN.2
    have hn : (configured [.connect (fun _ => some SerialTable.empty) twoShards]).nShards = 2 := by
      decide +kernel
    have hn' : ((configured [.connect (fun _ => some SerialTable.empty) twoShards]).assign
        (some 99) none none).nShards = 2 := hn
    rw [hn'] at hle
    exact absurd hle (by decide)
  · have heq := hkeeps e _ herror
    exact hread (congrArg DialogsCluster.readN heq).symm

end HighLoad.Dialogs
