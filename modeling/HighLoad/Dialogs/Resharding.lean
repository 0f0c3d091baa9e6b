/-
# HighLoad.Dialogs.Resharding — the resharding commands (`scripts/resharding.py`)

Six commands move a cluster from one shard count to another. Those that only set flags or read are
single steps. `cmdBackfill` is given twice: as the nested loops of the source, run without
interference, and as `backfillStep`, one await at a time (one page SELECT or one row copy), for runs
in which `send` calls fall between the awaits. `cmdBackfill_eq_steps` says that the loops are the
steps run to the end.
-/
import HighLoad.Dialogs.PgRepository

namespace HighLoad.Dialogs

open DialogsCluster

/-- `BATCH = 500`. -/
def batch : Nat := 500

/-! ## The commands -/

/-- `cmd_enable_dual_write(new_n)`. -/
def cmdEnableDualWrite (newN : Int) : ClusterM Unit :=
  reconfigure none (some newN) (some true)

/-- The guard of `cmd_backfill`. -/
def backfillGuard : PyError := .runtimeError
  "backfill можно запускать только при включённом dual-write — иначе живые INSERT'ы в окне будут потеряны"

/-- The copy of one fetched row in `cmd_backfill`: skipped when the row is already in place. -/
def copyRow (newN : Int) (srcIdx : Nat) (row : Row) : ClusterM Unit := do
  let newIdx ← liftExcept (shardForChat row.val.message.chatId.bytes newN)
  if newIdx = srcIdx then
    return
  let dst ← liftExcept ((← get).poolByIndex newIdx)
  modify fun c => c.insertMessage dst row.val

/-- A loop that has not come to its end; no exception of the source. -/
def unfinished : PyError := .runtimeError "cmd_backfill has not come to its end"

/-- The page loop of `cmd_backfill` on one shard. A page that is not empty moves `last_id` past at
least one of the shard's rows, so `fuel` above their number never runs out (`backfillPages_run`); to run
out of it is not to return. -/
def backfillPages (newN : Int) (srcIdx : Nat) : Nat → Nat → ClusterM Unit
  | 0, _ => throw unfinished
  | fuel + 1, lastId => do
      let src ← liftExcept ((← get).poolByIndex srcIdx)
      let rows := ((← get).shard src).page lastId batch
      match rows.getLast? with
      | none => return
      | some last =>
          rows.forM (copyRow newN srcIdx)
          backfillPages newN srcIdx fuel last.id

/-- The copy of one source shard in `cmd_backfill`. -/
def backfillShard (newN : Int) (srcIdx : Nat) : ClusterM Unit := do
  backfillPages newN srcIdx (((← get).shard srcIdx).rows.length + 1) 0

/-- `cmd_backfill(new_n)`. -/
def cmdBackfill (newN : Int) : ClusterM Unit := do
  if !(← get).dualWrite then
    throw backfillGuard
  let oldN := (← get).readN.toNat
  (List.range oldN).forM (backfillShard newN)

/-- The missing-copies count of `cmd_verify` after one more row. -/
def verifyRow (c : DialogsCluster) (newN : Int) (srcIdx missing : Nat) (row : Row) :
    Except PyError Nat := do
  let newIdx ← shardForChat row.val.message.chatId.bytes newN
  if newIdx = srcIdx then
    return missing
  let dst ← c.poolByIndex newIdx
  return if (c.shard dst).contains row.val.messageId then missing else missing + 1

/-- The missing-copies count of `cmd_verify` after one more shard. -/
def verifyShard (c : DialogsCluster) (newN : Int) (missing srcIdx : Nat) : Except PyError Nat := do
  let src ← c.poolByIndex srcIdx
  (c.shard src).rows.foldlM (verifyRow c newN srcIdx) missing

/-- `cmd_verify(new_n)`; it only reads. -/
def cmdVerify (c : DialogsCluster) (newN : Int) : Except PyError Unit := do
  let missing ← (List.range c.readN.toNat).foldlM (verifyShard c newN) 0
  if missing ≠ 0 then
    throw (.runtimeError s!"verify: {missing} сообщений отсутствуют на новых шардах")

/-- `cmd_switch_read(new_n)`. -/
def cmdSwitchRead (newN : Int) : ClusterM Unit :=
  reconfigure (some newN) none none

/-- `cmd_disable_dual_write()`. -/
def cmdDisableDualWrite : ClusterM Unit :=
  reconfigure none none (some false)

/-- The guard of `cmd_cleanup`. -/
def cleanupGuard : PyError := .runtimeError
  "cleanup нельзя запускать при включённом dual-write — иначе мы удалим только что записанные сообщения"

/-- `cmd_cleanup` collects the ids of the rows of one shard that `new_n` routes elsewhere. -/
def idsToDelete (newN : Int) (shardIdx : Nat) (rows : List Row) : Except PyError (List Nat) :=
  rows.foldlM (fun ids row => do
    let newIdx ← shardForChat row.val.message.chatId.bytes newN
    return if newIdx ≠ shardIdx then ids ++ [row.id] else ids) []

/-- The turn of `cmd_cleanup` on one shard. -/
def cleanupShard (newN : Int) (shardIdx : Nat) : ClusterM Unit := do
  let idx ← liftExcept ((← get).poolByIndex shardIdx)
  let ids ← liftExcept (idsToDelete newN shardIdx ((← get).shard idx).rows)
  if !ids.isEmpty then
    modify fun c => c.modifyShard idx fun t => t.deleteIds ids

/-- `cmd_cleanup(new_n)`. -/
def cmdCleanup (newN : Int) : ClusterM Unit := do
  if (← get).dualWrite then
    throw cleanupGuard
  (List.range newN.toNat).forM (cleanupShard newN)

/-- The commands `_dispatch` knows, with the argument of each. -/
inductive Command where
  | enableDualWrite (newN : Int)
  | backfill (newN : Int)
  | verify (newN : Int)
  | switchRead (newN : Int)
  | disableDualWrite
  | cleanup (newN : Int)
  deriving DecidableEq

/-- One command, run to its end or to its exception. -/
def Command.run : Command → ClusterM Unit
  | .enableDualWrite newN => cmdEnableDualWrite newN
  | .backfill newN => cmdBackfill newN
  | .verify newN => do liftExcept (cmdVerify (← get) newN)
  | .switchRead newN => cmdSwitchRead newN
  | .disableDualWrite => cmdDisableDualWrite
  | .cleanup newN => cmdCleanup newN

/-! ## Backfill, one await at a time -/

/-- The locals of a running `cmd_backfill(new_n)`. An empty page means that the next await is the
SELECT of a page. -/
structure Backfill where
  newN : Int
  oldN : Nat
  srcIdx : Nat
  lastId : Nat
  page : List Row

/-- The locals when the loops are entered. -/
def Backfill.start (newN : Int) (oldN : Nat) : Backfill where
  newN := newN
  oldN := oldN
  srcIdx := 0
  lastId := 0
  page := []

/-- One await of `cmd_backfill`; `none` means that the command has returned. -/
def backfillStep (b : Backfill) : ClusterM (Option Backfill) :=
  match b.page with
  | row :: rest => do
      copyRow b.newN b.srcIdx row
      return some { b with page := rest }
  | [] =>
      if b.srcIdx < b.oldN then do
        let src ← liftExcept ((← get).poolByIndex b.srcIdx)
        let rows := ((← get).shard src).page b.lastId batch
        match rows.getLast? with
        | none => return some { b with srcIdx := b.srcIdx + 1, lastId := 0 }
        | some last => return some { b with lastId := last.id, page := rows }
      else
        return none

end HighLoad.Dialogs
