/-
# HighLoad.Lifespan — the start and the stop of the process (`app/main.py`)

`lifespan` opens the pools, the clients and the channels one after the other, serves, and closes them in
the opposite order: `Database`, `RedisClient`, `DialogsCluster`, `DialogRepositoryHolder`,
`RabbitClient` and `RabbitWsBridge`, with the class attributes that keep what they opened. Any await may
raise.

What is open is always what some attribute refers to (`Holds`). So requests find everything initialised
(`Ready`), and the process leaves nothing open exactly when it came to serve and every pool could be
closed; else `lifespan_outcome` says what is left.
-/
import HighLoad.Dialogs.Config
import HighLoad.Lib.Triple
import HighLoad.Replicas

namespace HighLoad.Lifespan

open Prog Dialogs

/-! ## The process -/

/-- What is opened and closed. -/
inductive Resource where
  | database (pool : Replicas.Pool)
  | redis
  | shard (idx : Nat) (dsn : String)
  | tarantool
  | rabbit
  | bridgeChannel
  | consumer
  deriving DecidableEq

/-- The implementations of `DialogRepository`. -/
inductive Backend where
  | tarantool
  | postgres
  deriving DecidableEq

/-- The settings that start and stop read. -/
structure Settings where
  databaseHost : Replicas.SlaveHost
  databaseSlaveHosts : String
  cluster : ClusterSettings
  dialogsBackend : String
  feedTransport : String

/-- The class attributes. `shardPools` are the pools of `cluster`; the publisher's channel and exchange
are set together. -/
structure Attributes where
  database : Replicas.Database
  client : Option Resource
  cluster : DialogsCluster
  shardPools : List Resource
  tarantoolPool : Option Resource
  repository : Option Backend
  connection : Option Resource
  publisherExchange : Bool
  bridgeChannel : Option Resource
  consumerTask : Option Resource

/-- The imports of the modules. -/
def Attributes.start : Attributes where
  database := Replicas.System.start.db
  client := none
  cluster := ⟨[], 0, 0, false⟩
  shardPools := []
  tarantoolPool := none
  repository := none
  connection := none
  publisherExchange := false
  bridgeChannel := none
  consumerTask := none

namespace Attributes

/-- `RedisClient.get()`. -/
def getClient (a : Attributes) : Except PyError Resource :=
  match a.client with
  | none => .error (.runtimeError "Redis client не инициализирован")
  | some client => .ok client

/-- `DialogRepositoryHolder.get()`. -/
def getRepository (a : Attributes) : Except PyError Backend :=
  match a.repository with
  | none => .error
      (.runtimeError "DialogRepository не инициализирован — забыт вызов setup() в lifespan?")
  | some repository => .ok repository

/-- The exception of `RabbitClient.connection()` and `RabbitClient.exchange()`. -/
def notConnected : PyError := .runtimeError "RabbitClient is not connected"

/-- `RabbitClient.connection()`. -/
def getConnection (a : Attributes) : Except PyError Resource :=
  match a.connection with
  | none => .error notConnected
  | some connection => .ok connection

/-- `RabbitClient.exchange()`. -/
def getExchange (a : Attributes) : Except PyError Unit :=
  if a.publisherExchange then .ok () else .error notConnected

/-- What the attributes refer to, in the order in which it is closed. -/
def held (a : Attributes) : List Resource :=
  a.consumerTask.toList ++ a.bridgeChannel.toList ++ a.connection.toList ++ a.tarantoolPool.toList ++
    a.shardPools ++ a.client.toList ++
    (a.database.masterPool.toList ++ a.database.slavePools).map .database

end Attributes

/-- The process: the attributes, what is open, whose closing has raised, the attributes at the `yield`
with what was open then, and how the awaits to come end. -/
structure Process where
  attributes : Attributes
  opened : List Resource
  refused : List Resource
  served : Option (Attributes × List Resource)
  faults : List (Option PyError)

/-- A process that begins. -/
def Process.start (faults : List (Option PyError)) : Process := ⟨.start, [], [], none, faults⟩

/-- What the functions do: an await that opens something, one that closes it, another one; the start and
the end of a task; reading and assigning attributes; the `yield`. -/
inductive Command : Type → Type
  | acquire (r : Resource) : Command Unit
  | release (r : Resource) : Command Unit
  | await : Command Unit
  | createTask (r : Resource) : Command Unit
  | cancelTask (r : Resource) : Command Unit
  | get : Command Attributes
  | set (f : Attributes → Attributes) : Command Unit
  | serve : Command Unit

/-- An await that has this effect unless it raises, and the other one when it does. -/
def attempt (s done failed : Process) : Except PyError Unit × Process :=
  match s.faults.headD none with
  | none => (.ok (), { done with faults := s.faults.tail })
  | some e => (.error e, { failed with faults := s.faults.tail })

/-- The commands. A pool that cannot be opened is not open, one that cannot be closed still is. -/
def service : Service Command PyError Process
  | _, .acquire r, s => attempt s { s with opened := r :: s.opened } s
  | _, .release r, s =>
      attempt s { s with opened := s.opened.erase r } { s with refused := s.refused ++ [r] }
  | _, .await, s => attempt s s s
  | _, .createTask r, s => (.ok (), { s with opened := r :: s.opened })
  | _, .cancelTask r, s => (.ok (), { s with opened := s.opened.erase r })
  | _, .get, s => (.ok s.attributes, s)
  | _, .set f, s => (.ok (), { s with attributes := f s.attributes })
  | _, .serve, s =>
      let yielded := { s with served := some (s.attributes, s.opened) }
      attempt s yielded yielded

/-- A coroutine of start or stop. -/
abbrev Py := Prog Command PyError

/-- Close these, one at a time. -/
def releaseAll : List Resource → Py Unit
  | [] => pure ()
  | r :: rs => do
      call (Command.release r)
      releaseAll rs

/-! ## `Database` -/

/-- The `try` block of one slave. -/
def connectSlave (pool : Replicas.Pool) : Py Unit := do
  call (Command.acquire (.database pool))
  call (Command.set fun a => { a with database :=
    { a.database with slavePools := a.database.slavePools ++ [pool] } })

/-- The loop over the slaves; one that cannot be reached is left out. -/
def connectSlaves : Nat → List Replicas.SlaveHost → Py Unit
  | _, [] => pure ()
  | n, host :: hosts => do
      (connectSlave ⟨n, host⟩).tryExcept fun _ => pure ()
      connectSlaves (n + 1) hosts

/-- The addresses of the slaves, and the loop over them. -/
def connectHosts (databaseSlaveHosts : String) : Py Unit :=
  match Replicas.parseSlaveHosts databaseSlaveHosts with
  | .error e => raise e
  | .ok hosts => connectSlaves 1 hosts

/-- `Database.connect()`. -/
def connectDatabase (settings : Settings) : Py Unit := do
  call (Command.acquire (.database ⟨0, settings.databaseHost⟩))
  call (Command.set fun a => { a with database :=
    { a.database with masterPool := some ⟨0, settings.databaseHost⟩, slavePools := [] } })
  connectHosts settings.databaseSlaveHosts
  call (Command.set fun a => { a with database := { a.database with
    slaveCycle :=
      if a.database.slavePools = [] then a.database.slaveCycle else some (a.database.slavePools, 0) } })

/-- `if cls._master_pool: …`. -/
def disconnectMaster : Option Replicas.Pool → Py Unit
  | none => pure ()
  | some pool => do
      call (Command.release (.database pool))
      call (Command.set fun a => { a with database := { a.database with masterPool := none } })

/-- `Database.disconnect()`. -/
def disconnectDatabase : Py Unit := do
  let a ← call Command.get
  disconnectMaster a.database.masterPool
  releaseAll (a.database.slavePools.map .database)
  call (Command.set fun a =>
    { a with database := { a.database with slavePools := [], slaveCycle := none } })

/-! ## `RedisClient` -/

/-- `RedisClient.connect()`: the client is assigned once it has been pinged. -/
def connectRedis : Py Unit := do
  call (Command.acquire .redis)
  call (Command.set fun a => { a with client := some .redis })

/-- `RedisClient.disconnect()`. -/
def disconnectRedis : Py Unit := do
  let a ← call Command.get
  match a.client with
  | none => pure ()
  | some client => do
      call (Command.release client)
      call (Command.set fun a => { a with client := none })

/-! ## `DialogsCluster` -/

/-- The `except` block of a shard that cannot be reached. -/
def giveUp (idx : Nat) (pools : List Resource) (_ : PyError) : Py Unit := do
  releaseAll pools
  raise (.runtimeError s!"Не удалось подключиться к шарду {idx}")

/-- The loop over the DSNs; the first shard that cannot be reached closes the pools behind it. -/
def connectShards : Nat → List Resource → List String → Py (List Resource)
  | _, pools, [] => pure pools
  | idx, pools, dsn :: dsns => do
      (call (Command.acquire (.shard idx dsn))).tryExcept (giveUp idx pools)
      connectShards (idx + 1) (pools ++ [.shard idx dsn]) dsns

/-- `_validate_resharding_state()`. -/
def validate (c : DialogsCluster) : Py Unit :=
  match c.validateReshardingState with
  | .error e => raise e
  | .ok _ => pure ()

/-- `DialogsCluster.connect()`; `servers` are the tables behind the DSNs. -/
def connectCluster (servers : String → Shard) (settings : ClusterSettings) : Py Unit := do
  let dsns := parseShardDsns settings.dialogsShards
  if dsns.isEmpty then
    raise (.runtimeError "DIALOGS_SHARDS пуст — невозможно инициализировать кластер диалогов")
  else do
    let pools ← connectShards 0 [] dsns
    call (Command.set fun a =>
      { a with cluster := connected settings (dsns.map servers), shardPools := pools })
    validate (connected settings (dsns.map servers))

/-- `DialogsCluster.disconnect()`: the flags stay. -/
def disconnectCluster : Py Unit := do
  let a ← call Command.get
  releaseAll a.shardPools
  call (Command.set fun a => { a with cluster := { a.cluster with pools := [] }, shardPools := [] })

/-! ## `DialogRepositoryHolder` -/

/-- The repository of a value of `DIALOGS_BACKEND`. -/
def backendOf (dialogsBackend : String) : Option Backend :=
  if dialogsBackend.toLower = "tarantool" then some .tarantool
  else if dialogsBackend.toLower = "postgres" then some .postgres
  else none

/-- `DialogRepositoryHolder.setup()`, with `TarantoolPool.start()`. -/
def setupRepository (settings : Settings) : Py Unit :=
  match backendOf settings.dialogsBackend with
  | some .tarantool => do
      call (Command.acquire .tarantool)
      call (Command.set fun a =>
        { a with tarantoolPool := some .tarantool, repository := some .tarantool })
  | some .postgres => call (Command.set fun a => { a with repository := some .postgres })
  | none =>
      let backend := settings.dialogsBackend.toLower
      raise (.runtimeError (s!"Неизвестный DIALOGS_BACKEND: '{backend}'. " ++
        "Допустимые значения: 'postgres', 'tarantool'."))

/-- `if cls._tarantool_pool is not None: …`, with `TarantoolPool.stop()`. -/
def stopTarantool : Option Resource → Py Unit
  | none => pure ()
  | some pool => do
      call (Command.release pool)
      call (Command.set fun a => { a with tarantoolPool := none })

/-- `DialogRepositoryHolder.teardown()`. -/
def teardownRepository : Py Unit := do
  let a ← call Command.get
  stopTarantool a.tarantoolPool
  call (Command.set fun a => { a with repository := none })

/-! ## `RabbitClient` and `RabbitWsBridge` -/

/-- `RabbitClient.connect()`, when nobody else connects: the channel, its QoS, the exchange. -/
def connectRabbit : Py Unit := do
  let a ← call Command.get
  if a.connection.isSome then pure ()
  else do
    call (Command.acquire .rabbit)
    call (Command.set fun a => { a with connection := some .rabbit })
    call Command.await
    call Command.await
    call Command.await
    call (Command.set fun a => { a with publisherExchange := true })

/-- `RabbitClient.disconnect()`. -/
def disconnectRabbit : Py Unit := do
  let a ← call Command.get
  match a.connection with
  | none => pure ()
  | some connection =>
      (call (Command.release connection)).tryFinally
        (call (Command.set fun a => { a with connection := none, publisherExchange := false }))

/-- `RabbitWsBridge.start(RabbitClient.connection())`: its channel, the QoS, the exchange, the queue. -/
def startBridge : Py Unit := do
  let a ← call Command.get
  match a.getConnection with
  | .error e => raise e
  | .ok _ => do
      call (Command.acquire .bridgeChannel)
      call Command.await
      call Command.await
      call Command.await
      call (Command.set fun a => { a with bridgeChannel := some .bridgeChannel })
      call (Command.createTask .consumer)
      call (Command.set fun a => { a with consumerTask := some .consumer })

/-- The task is cancelled; what it raises is swallowed. -/
def stopConsumer : Option Resource → Py Unit
  | none => pure ()
  | some task => call (Command.cancelTask task)

def closeChannel : Option Resource → Py Unit
  | none => pure ()
  | some channel => call (Command.release channel)

/-- `RabbitWsBridge.stop()`. -/
def stopBridge : Py Unit := do
  let a ← call Command.get
  stopConsumer a.consumerTask
  closeChannel a.bridgeChannel
  call (Command.set fun a => { a with bridgeChannel := none, consumerTask := none })

/-! ## `lifespan` -/

/-- `if settings.feed_transport == "rabbitmq": …`; the answer is `bridge is not None`. -/
def startRabbit (settings : Settings) : Py Bool :=
  if settings.feedTransport = "rabbitmq" then do
    connectRabbit
    startBridge
    return true
  else return false

/-- What `lifespan` does before the `yield`. -/
def startup (servers : String → Shard) (settings : Settings) : Py Bool := do
  connectDatabase settings
  connectRedis
  connectCluster servers settings.cluster
  setupRepository settings
  startRabbit settings

/-- `if bridge is not None: …`. -/
def shutdownRabbit : Bool → Py Unit
  | false => pure ()
  | true => do
      stopBridge
      disconnectRabbit

/-- The `finally` block. -/
def shutdown (bridge : Bool) : Py Unit := do
  shutdownRabbit bridge
  teardownRepository
  disconnectCluster
  disconnectRedis
  disconnectDatabase

/-- `lifespan(app)`. -/
def lifespan (servers : String → Shard) (settings : Settings) : Py Unit := do
  let bridge ← startup servers settings
  (call Command.serve).tryFinally (shutdown bridge)

/-! ## What is open -/

variable {v : Option (Attributes × List Resource)} {a : Attributes} {l rest : List Resource}
  {r : Resource} {s s' : Process} {α : Type}

/-- The attributes are `a`, open is exactly what `l` lists, and no closing has raised. -/
def Holds (v : Option (Attributes × List Resource)) (a : Attributes) (l : List Resource)
    (s : Process) : Prop :=
  s.attributes = a ∧ s.opened.Perm l ∧ s.refused = [] ∧ s.served = v

/-- The closing of one of `own` has raised: it and those behind it are open, and so are the `rest`. -/
def Stuck (v : Option (Attributes × List Resource)) (own rest : List Resource) (s : Process) : Prop :=
  ∃ before r after, own = before ++ r :: after ∧ s.opened.Perm (r :: after ++ rest) ∧
    s.refused = [r] ∧ s.served = v

theorem Holds.perm (h : Holds v a l s) {l' : List Resource} (hl : l.Perm l') : Holds v a l' s :=
  ⟨h.1, h.2.1.trans hl, h.2.2⟩

theorem Stuck.append_right {own₁ own₂ : List Resource} (h : Stuck v own₁ (own₂ ++ rest) s) :
    Stuck v (own₁ ++ own₂) rest s := by
  obtain ⟨before, r, after, rfl, hopened, href, hserved⟩ := h
  refine ⟨before, r, after ++ own₂, by simp, ?_, href, hserved⟩
  simpa using hopened

theorem Stuck.append_left {own₁ own₂ : List Resource} (h : Stuck v own₂ rest s) :
    Stuck v (own₁ ++ own₂) rest s := by
  obtain ⟨before, r, after, rfl, hopened, href, hserved⟩ := h
  exact ⟨own₁ ++ before, r, after, by simp, hopened, href, hserved⟩

theorem attempt_ok {done failed : Process} (h : attempt s done failed = (.ok (), s')) :
    s' = { done with faults := s.faults.tail } := by
  unfold attempt at h
  cases hf : s.faults.headD none with
  | none =>
      rw [hf] at h
      exact (Prod.mk.inj h).2.symm
  | some e =>
      rw [hf] at h
      cases (Prod.mk.inj h).1

theorem attempt_error {done failed : Process} {e : PyError}
    (h : attempt s done failed = (.error e, s')) : s' = { failed with faults := s.faults.tail } := by
  unfold attempt at h
  cases hf : s.faults.headD none with
  | none =>
      rw [hf] at h
      cases (Prod.mk.inj h).1
  | some e =>
      rw [hf] at h
      exact (Prod.mk.inj h).2.symm

/-! ### The commands -/

theorem triple_acquire : Triple service (Holds v a l) (call (Command.acquire r))
    (fun _ => Holds v a (r :: l)) (fun _ => Holds v a l) := by
  refine triple_call (fun s _ s' hs h => ?_) fun s e s' hs h => ?_
  · rw [attempt_ok h]
    exact ⟨hs.1, hs.2.1.cons r, hs.2.2⟩
  · rw [attempt_error h]
    exact hs

theorem triple_release : Triple service (Holds v a (r :: rest)) (call (Command.release r))
    (fun _ => Holds v a rest) (fun _ => Stuck v [r] rest) := by
  refine triple_call (fun s _ s' hs h => ?_) fun s e s' hs h => ?_
  · rw [attempt_ok h]
    refine ⟨hs.1, ?_, hs.2.2⟩
    have hperm := hs.2.1.erase r
    rwa [List.erase_cons_head] at hperm
  · rw [attempt_error h]
    refine ⟨[], r, [], rfl, hs.2.1, ?_, hs.2.2.2⟩
    show s.refused ++ [r] = [r]
    rw [hs.2.2.1, List.nil_append]

theorem triple_await : Triple service (Holds v a l) (call Command.await)
    (fun _ => Holds v a l) (fun _ => Holds v a l) := by
  refine triple_call (fun s _ s' hs h => ?_) fun s e s' hs h => ?_
  · rw [attempt_ok h]
    exact hs
  · rw [attempt_error h]
    exact hs

theorem triple_createTask {E : PyError → Process → Prop} :
    Triple service (Holds v a l) (call (Command.createTask r)) (fun _ => Holds v a (r :: l)) E := by
  refine triple_call (fun s _ s' hs h => ?_) fun s e s' _ h => ?_
  · rw [← (Prod.mk.inj h).2]
    exact ⟨hs.1, hs.2.1.cons r, hs.2.2⟩
  · cases (Prod.mk.inj h).1

theorem triple_cancelTask {E : PyError → Process → Prop} :
    Triple service (Holds v a (r :: l)) (call (Command.cancelTask r)) (fun _ => Holds v a l) E := by
  refine triple_call (fun s _ s' hs h => ?_) fun s e s' _ h => ?_
  · rw [← (Prod.mk.inj h).2]
    refine ⟨hs.1, ?_, hs.2.2⟩
    have hperm := hs.2.1.erase r
    rwa [List.erase_cons_head] at hperm
  · cases (Prod.mk.inj h).1

theorem triple_set {f : Attributes → Attributes} {E : PyError → Process → Prop} :
    Triple service (Holds v a l) (call (Command.set f)) (fun _ => Holds v (f a) l) E := by
  refine triple_call (fun s _ s' hs h => ?_) fun s e s' _ h => ?_
  · rw [← (Prod.mk.inj h).2]
    exact ⟨congrArg f hs.1, hs.2⟩
  · cases (Prod.mk.inj h).1

/-- A program that begins by reading the attributes. -/
theorem triple_get {k : Attributes → Py α} {Q : α → Process → Prop} {E : PyError → Process → Prop}
    (hk : Triple service (Holds v a l) (k a) Q E) :
    Triple service (Holds v a l) (call Command.get >>= k) Q E := by
  intro s hs
  have hget : (call Command.get : Py Attributes).perform service s = (.ok a, s) := by
    rw [perform_call, ← hs.1]
    rfl
  rw [perform_bind_of_ok hget]
  exact hk s hs

/-! ## Closing -/

theorem releaseAll_spec (own rest : List Resource) : Triple service (Holds v a (own ++ rest))
    (releaseAll own) (fun _ => Holds v a rest) (fun _ => Stuck v own rest) := by
  induction own with
  | nil => exact triple_pure fun _ hs => hs
  | cons r own ih =>
      refine (triple_release.imp_error fun _ s hs => ?_).bind fun _ => ih.imp_error fun _ s hs => ?_
      · exact hs.append_right
      · have hleft : Stuck v ([r] ++ own) rest s := hs.append_left
        exact hleft

/-- Closing one part and then the next. -/
theorem triple_parts {p q : Py Unit} (a' : Attributes) {a'' : Attributes} {own₁ own₂ : List Resource}
    (hp : Triple service (Holds v a (own₁ ++ (own₂ ++ rest))) p (fun _ => Holds v a' (own₂ ++ rest))
      (fun _ => Stuck v own₁ (own₂ ++ rest)))
    (hq : Triple service (Holds v a' (own₂ ++ rest)) q (fun _ => Holds v a'' rest)
      (fun _ => Stuck v own₂ rest)) :
    Triple service (Holds v a (own₁ ++ own₂ ++ rest)) (p >>= fun _ => q) (fun _ => Holds v a'' rest)
      (fun _ => Stuck v (own₁ ++ own₂) rest) := by
  refine ((hp.of_pre fun s hs => ?_).imp_error fun _ s hs => ?_).bind fun _ =>
    hq.imp_error fun _ s hs => hs.append_left
  · rwa [List.append_assoc] at hs
  · exact hs.append_right

theorem stopBridge_spec (a : Attributes) (rest : List Resource) :
    Triple service (Holds v a (a.consumerTask.toList ++ a.bridgeChannel.toList ++ rest)) stopBridge
      (fun _ => Holds v { a with bridgeChannel := none, consumerTask := none } rest)
      (fun _ => Stuck v (a.consumerTask.toList ++ a.bridgeChannel.toList) rest) := by
  refine triple_get (triple_parts a ?_ ?_)
  · cases a.consumerTask with
    | none => exact triple_pure fun _ hs => hs
    | some task => exact triple_cancelTask
  · refine Triple.bind ?_ fun _ => triple_set
    cases a.bridgeChannel with
    | none => exact triple_pure fun _ hs => hs
    | some channel => exact triple_release

theorem disconnectRabbit_spec {connection : Resource} (h : a.connection = some connection)
    (rest : List Resource) : Triple service (Holds v a (a.connection.toList ++ rest)) disconnectRabbit
      (fun _ => Holds v { a with connection := none, publisherExchange := false } rest)
      (fun _ => Stuck v a.connection.toList rest) := by
  refine triple_get ?_
  rw [h]
  refine triple_release.tryFinally (fun _ => triple_set) fun e => ?_
  -- the attributes are reset although the connection is not closed
  refine triple_call (fun s _ s' hs heq => ?_) fun s e s' _ heq => ?_
  · rw [← (Prod.mk.inj heq).2]
    exact hs
  · cases (Prod.mk.inj heq).1

theorem teardownRepository_spec (a : Attributes) (rest : List Resource) :
    Triple service (Holds v a (a.tarantoolPool.toList ++ rest)) teardownRepository
      (fun _ => Holds v { a with tarantoolPool := none, repository := none } rest)
      (fun _ => Stuck v a.tarantoolPool.toList rest) := by
  refine triple_get ?_
  cases h : a.tarantoolPool with
  | none =>
      refine Triple.bind (R := fun _ => Holds v a rest) (triple_pure fun _ hs => hs) fun _ => ?_
      refine triple_set.imp_ok fun _ s hs => ?_
      rwa [← h]
  | some pool => exact (triple_release.bind fun _ => triple_set).bind fun _ => triple_set

theorem disconnectCluster_spec (a : Attributes) (rest : List Resource) :
    Triple service (Holds v a (a.shardPools ++ rest)) disconnectCluster
      (fun _ => Holds v { a with cluster := { a.cluster with pools := [] }, shardPools := [] } rest)
      (fun _ => Stuck v a.shardPools rest) :=
  triple_get ((releaseAll_spec _ rest).bind fun _ => triple_set)

theorem disconnectRedis_spec (a : Attributes) (rest : List Resource) :
    Triple service (Holds v a (a.client.toList ++ rest)) disconnectRedis
      (fun _ => Holds v { a with client := none } rest) (fun _ => Stuck v a.client.toList rest) := by
  refine triple_get ?_
  cases h : a.client with
  | none =>
      refine triple_pure fun s hs => ?_
      rwa [← h]
  | some client => exact triple_release.bind fun _ => triple_set

theorem disconnectDatabase_spec (a : Attributes) (rest : List Resource) :
    Triple service
      (Holds v a ((a.database.masterPool.toList ++ a.database.slavePools).map .database ++ rest))
      disconnectDatabase (fun _ => Holds v { a with database := ⟨none, [], none⟩ } rest)
      (fun _ =>
        Stuck v ((a.database.masterPool.toList ++ a.database.slavePools).map .database) rest) := by
  rw [List.map_append]
  refine triple_get (triple_parts { a with database := { a.database with masterPool := none } } ?_ ?_)
  · cases h : a.database.masterPool with
    | none =>
        refine triple_pure fun s hs => ?_
        rwa [← h]
    | some pool => exact triple_release.bind fun _ => triple_set
  · exact (releaseAll_spec _ rest).bind fun _ => triple_set

/-- Nothing is initialised any more. -/
structure Attributes.Closed (a : Attributes) : Prop where
  master : a.database = ⟨none, [], none⟩
  client : a.client = none
  cluster : a.cluster.pools = []
  repository : a.repository = none
  rabbit : a.connection = none ∧ a.publisherExchange = false
  held : a.held = []

/-- **The `finally` block** closes what the attributes refer to, or gets stuck. -/
theorem shutdown_spec {bridge : Bool} (hbridge : if bridge then a.connection.isSome = true else
      a.consumerTask = none ∧ a.bridgeChannel = none ∧ a.connection = none ∧
        a.publisherExchange = false) :
    Triple service (Holds v a a.held) (shutdown bridge) (fun _ s => ∃ a', a'.Closed ∧ Holds v a' [] s)
      (fun _ => Stuck v a.held []) := by
  have hheld : a.held = (a.consumerTask.toList ++ a.bridgeChannel.toList ++ a.connection.toList) ++
      (a.tarantoolPool.toList ++ (a.shardPools ++ (a.client.toList ++
        (a.database.masterPool.toList ++ a.database.slavePools).map .database))) := by
    simp only [Attributes.held, List.append_assoc]
  -- without RabbitMQ the first part is empty
  obtain ⟨a', hrabbit, hsame⟩ : ∃ a' : Attributes, (∀ rest, Triple service
      (Holds v a (a.consumerTask.toList ++ a.bridgeChannel.toList ++ a.connection.toList ++ rest))
      (shutdownRabbit bridge) (fun _ => Holds v a' rest) (fun _ =>
        Stuck v (a.consumerTask.toList ++ a.bridgeChannel.toList ++ a.connection.toList) rest)) ∧
      a' = { a with connection := none, publisherExchange := false, bridgeChannel := none,
                    consumerTask := none } := by
    cases bridge with
    | false =>
        obtain ⟨htask, hchannel, hconnection, hexchange⟩ := hbridge
        refine ⟨a, fun rest => ?_, ?_⟩
        · rw [htask, hchannel, hconnection]
          exact triple_pure fun _ hs => hs
        · cases a
          dsimp only at htask hchannel hconnection hexchange
          rw [htask, hchannel, hconnection, hexchange]
    | true =>
        obtain ⟨connection, hconnection⟩ := Option.isSome_iff_exists.mp hbridge
        exact ⟨_, fun rest => triple_parts _ (stopBridge_spec a _)
          (disconnectRabbit_spec (a := { a with bridgeChannel := none, consumerTask := none })
            hconnection rest), rfl⟩
  subst hsame
  have hclose := triple_parts _ (hrabbit _) (triple_parts _ (teardownRepository_spec _ _)
    (triple_parts _ (disconnectCluster_spec _ _) (triple_parts _ (disconnectRedis_spec _ _)
      (disconnectDatabase_spec _ []))))
  rw [List.append_nil, ← hheld] at hclose
  exact hclose.imp_ok fun _ s hs => ⟨_, ⟨rfl, rfl, rfl, rfl, ⟨rfl, rfl⟩, rfl⟩, hs⟩

/-! ## Opening -/

/-- The process has not come to serve, and the pool of the master is open. -/
def Leaks (master : Replicas.SlaveHost) (s : Process) : Prop :=
  s.served = none ∧ .database ⟨0, master⟩ ∈ s.opened

theorem Holds.leaks {master : Replicas.SlaveHost} (h : Holds none a l s)
    (hmem : .database ⟨0, master⟩ ∈ l) : Leaks master s :=
  ⟨h.2.2.2, h.2.1.mem_iff.mpr hmem⟩

theorem mem_held {pool : Replicas.Pool} (h : a.database.masterPool = some pool) :
    Resource.database pool ∈ a.held := by
  simp [Attributes.held, h]

/-! The start, once the pool of the master is open: an await that raises leaks it. -/

theorem triple_awaitLeaks {master : Replicas.SlaveHost} (hmem : .database ⟨0, master⟩ ∈ l) :
    Triple service (Holds none a l) (call Command.await) (fun _ => Holds none a l)
      (fun _ => Leaks master) :=
  triple_await.imp_error fun _ _ hs => hs.leaks hmem

theorem triple_acquireLeaks {master : Replicas.SlaveHost} (hmem : .database ⟨0, master⟩ ∈ l) :
    Triple service (Holds none a l) (call (Command.acquire r)) (fun _ => Holds none a (r :: l))
      (fun _ => Leaks master) :=
  triple_acquire.imp_error fun _ _ hs => hs.leaks hmem

/-- Before the first await, which will not raise. -/
def Begins (s : Process) : Prop := Holds none .start [] s ∧ s.faults.headD none = none

/-- The attributes once `Database.connect()` has got the pool of the master and those of `slaves`. -/
def Attributes.withPools (master : Replicas.SlaveHost) (slaves : List Replicas.Pool)
    (slaveCycle : Option (List Replicas.Pool × Nat)) : Attributes :=
  { Attributes.start with database := ⟨some ⟨0, master⟩, slaves, slaveCycle⟩ }

variable {master : Replicas.SlaveHost} {slaves : List Replicas.Pool}
  {slaveCycle : Option (List Replicas.Pool × Nat)}

theorem held_withPools : (Attributes.withPools master slaves slaveCycle).held
    = .database ⟨0, master⟩ :: slaves.map .database := rfl

theorem connectSlaves_spec (n : Nat) (hosts : List Replicas.SlaveHost) {E : PyError → Process → Prop} :
    Triple service (fun s => ∃ slaves, Holds none (.withPools master slaves none)
        (Attributes.withPools master slaves none).held s)
      (connectSlaves n hosts) (fun _ s => ∃ slaves, Holds none (.withPools master slaves none)
        (Attributes.withPools master slaves none).held s) E := by
  induction hosts generalizing n with
  | nil => exact triple_pure fun _ hs => hs
  | cons host hosts ih =>
      refine Triple.bind ?_ fun _ => ih (n + 1)
      refine triple_exists fun slaves => Triple.tryExcept (triple_acquire.bind fun _ =>
        triple_set.imp_ok fun _ s hs => ⟨slaves ++ [⟨n, host⟩], hs.perm ?_⟩) fun e => triple_pure fun s hs => ⟨slaves, hs⟩
      simp only [held_withPools, List.map_append, List.map_cons, List.map_nil]
      exact (List.Perm.swap _ _ _).trans ((List.perm_append_singleton _ _).symm.cons _)

/-- The round-robin of these slaves. -/
def cycleOf (slaves : List Replicas.Pool) : Option (List Replicas.Pool × Nat) :=
  if slaves = [] then none else some (slaves, 0)

theorem connectDatabase_spec (settings : Settings) :
    Triple service Begins (connectDatabase settings)
      (fun _ s => ∃ slaves, Holds none (.withPools settings.databaseHost slaves (cycleOf slaves))
        (Attributes.withPools settings.databaseHost slaves (cycleOf slaves)).held s)
      (fun _ => Leaks settings.databaseHost) := by
  set master := settings.databaseHost with hmaster
  have hacquire : Triple service Begins (call (Command.acquire (.database ⟨0, master⟩)))
      (fun _ => Holds none .start [.database ⟨0, master⟩]) (fun _ => Leaks master) := by
    intro s hs
    rcases triple_acquire s hs.1 with hok | ⟨e, s', hrun, -⟩
    · exact Or.inl hok
    · rw [perform_call] at hrun
      have hnone : attempt s { s with opened := .database ⟨0, master⟩ :: s.opened } s
          = (.error e, s') := hrun
      unfold attempt at hnone
      rw [hs.2] at hnone
      cases (Prod.mk.inj hnone).1
  refine hacquire.bind fun _ => triple_set.bind fun _ => Triple.bind (R := fun _ s =>
    ∃ slaves, Holds none (.withPools master slaves none)
      (Attributes.withPools master slaves none).held s) ?_ fun _ => ?_
  · unfold connectHosts
    cases Replicas.parseSlaveHosts settings.databaseSlaveHosts with
    | error e => exact triple_raise fun s hs => hs.leaks List.mem_cons_self
    | ok hosts =>
        exact (connectSlaves_spec 1 hosts).of_pre fun s hs => ⟨[], hs⟩
  · exact triple_exists fun slaves => triple_set.imp_ok fun _ s hs => ⟨slaves, hs⟩

theorem connectRedis_spec (hclient : a.client = none)
    (hmaster : a.database.masterPool = some ⟨0, master⟩) :
    Triple service (Holds none a a.held) connectRedis
      (fun _ => Holds none { a with client := some .redis } { a with client := some .redis }.held)
      (fun _ => Leaks master) := by
  refine (triple_acquireLeaks (mem_held hmaster)).bind fun _ =>
    triple_set.imp_ok fun _ s hs => hs.perm ?_
  refine List.perm_iff_count.mpr fun x => ?_
  simp only [Attributes.held, hclient, Option.toList_none, Option.toList_some, List.count_append,
    List.count_cons, List.count_nil]
  omega

theorem giveUp_spec (idx : Nat) (pools : List Resource) (e : PyError) {Q : Unit → Process → Prop}
    (hmaster : .database ⟨0, master⟩ ∈ rest) :
    Triple service (Holds none a (pools ++ rest)) (giveUp idx pools e) Q (fun _ => Leaks master) := by
  refine ((releaseAll_spec pools rest).imp_error fun _ s hs => ?_).bind fun _ =>
    triple_raise fun s hs => hs.leaks hmaster
  obtain ⟨before, r, after, -, hopened, -, hserved⟩ := hs
  exact ⟨hserved, hopened.mem_iff.mpr (List.mem_append_right _ hmaster)⟩

theorem connectShards_spec (idx : Nat) (pools : List Resource) (dsns : List String)
    (hmaster : .database ⟨0, master⟩ ∈ rest) :
    Triple service (Holds none a (pools ++ rest)) (connectShards idx pools dsns)
      (fun pools' s => pools'.length = pools.length + dsns.length ∧ Holds none a (pools' ++ rest) s)
      (fun _ => Leaks master) := by
  induction dsns generalizing idx pools with
  | nil => exact triple_pure fun _ hs => ⟨rfl, hs⟩
  | cons dsn dsns ih =>
      refine Triple.bind (Triple.tryExcept triple_acquire fun e => giveUp_spec idx pools e hmaster)
        fun _ => ((ih (idx + 1) (pools ++ [.shard idx dsn])).of_pre fun s hs => hs.perm ?_).imp_ok
          fun pools' s hs => ⟨?_, hs.2⟩
      · exact (List.perm_append_singleton _ _).symm.append_right rest
      · rw [hs.1, List.length_append, List.length_singleton, List.length_cons]
        omega

/-- The cluster that the dialogs are routed by, and the pools behind it. -/
def Attributes.withCluster (a : Attributes) (c : DialogsCluster) (pools : List Resource) : Attributes :=
  { a with cluster := c, shardPools := pools }

theorem connectCluster_spec (servers : String → Shard) (settings : ClusterSettings)
    (hpools : a.shardPools = []) (hmaster : a.database.masterPool = some ⟨0, master⟩) :
    Triple service (Holds none a a.held) (connectCluster servers settings)
      (fun _ s => ∃ c pools, (c.Valid ∧ c.nShards = pools.length) ∧
        Holds none (a.withCluster c pools) (a.withCluster c pools).held s)
      (fun _ => Leaks master) := by
  unfold connectCluster
  dsimp only
  split_ifs with hempty
  · exact triple_raise fun s hs => hs.leaks (mem_held hmaster)
  · refine (connectShards_spec 0 [] (parseShardDsns settings.dialogsShards) (mem_held hmaster)).bind
      fun pools => ?_
    set c := connected settings ((parseShardDsns settings.dialogsShards).map servers) with hc
    refine Triple.bind (R := fun _ s => pools.length = (parseShardDsns settings.dialogsShards).length ∧
      Holds none (a.withCluster c pools) (a.withCluster c pools).held s) ?_ fun _ => ?_
    · intro s hs
      have hlength : pools.length = (parseShardDsns settings.dialogsShards).length := by
        rw [hs.1, List.length_nil, Nat.zero_add]
      refine triple_set.imp_ok (fun _ t ht => ⟨hlength, ht.perm ?_⟩) s hs.2
      refine List.perm_iff_count.mpr fun x => ?_
      simp only [Attributes.held, Attributes.withCluster, hpools, List.count_append, List.count_nil]
      omega
    · unfold validate
      cases hvalid : c.validateReshardingState with
      | error e => exact triple_raise fun s hs => hs.2.leaks (mem_held hmaster)
      | ok _ =>
          refine triple_pure fun s hs => ⟨c, pools, ⟨?_, ?_⟩, hs.2⟩
          · exact (DialogsCluster.validateReshardingState_ok_iff c).mp hvalid
          · rw [hs.1, hc]
            exact List.length_map _

theorem setupRepository_spec (settings : Settings) (htarantool : a.tarantoolPool = none)
    (hmaster : a.database.masterPool = some ⟨0, master⟩) :
    Triple service (Holds none a a.held) (setupRepository settings)
      (fun _ s => ∃ backend pool, (backendOf settings.dialogsBackend = some backend ∧
          (backend = .tarantool → pool = some .tarantool)) ∧
        Holds none { a with tarantoolPool := pool, repository := some backend }
          { a with tarantoolPool := pool, repository := some backend }.held s)
      (fun _ => Leaks master) := by
  unfold setupRepository
  cases hbackend : backendOf settings.dialogsBackend with
  | none => exact triple_raise fun s hs => hs.leaks (mem_held hmaster)
  | some backend =>
      cases backend with
      | postgres =>
          refine triple_set.imp_ok fun _ s hs => ⟨.postgres, none, ⟨rfl, nofun⟩, ?_⟩
          rw [← htarantool]
          exact hs
      | tarantool =>
          refine (triple_acquireLeaks (mem_held hmaster)).bind fun _ =>
            triple_set.imp_ok fun _ s hs =>
              ⟨.tarantool, some .tarantool, ⟨rfl, fun _ => rfl⟩, hs.perm ?_⟩
          refine List.perm_iff_count.mpr fun x => ?_
          simp only [Attributes.held, htarantool, Option.toList_none, Option.toList_some,
            List.count_append, List.count_cons, List.count_nil]
          omega

/-- What `lifespan` sets up when the transport is RabbitMQ. -/
def Attributes.withRabbit (a : Attributes) : Attributes :=
  { a with connection := some .rabbit, publisherExchange := true, bridgeChannel := some .bridgeChannel,
           consumerTask := some .consumer }

theorem connectRabbit_spec (hconnection : a.connection = none) (hmem : .database ⟨0, master⟩ ∈ l) :
    Triple service (Holds none a l) connectRabbit
      (fun _ => Holds none { a with connection := some .rabbit, publisherExchange := true } (.rabbit :: l))
      (fun _ => Leaks master) := by
  have hmem' : .database ⟨0, master⟩ ∈ .rabbit :: l := List.mem_cons_of_mem _ hmem
  have hnone : ¬ a.connection.isSome = true := by simp [hconnection]
  refine triple_get ?_
  rw [if_neg hnone]
  exact (triple_acquireLeaks hmem).bind fun _ => triple_set.bind fun _ =>
    (triple_awaitLeaks hmem').bind fun _ => (triple_awaitLeaks hmem').bind fun _ =>
      (triple_awaitLeaks hmem').bind fun _ => triple_set

theorem startBridge_spec (hconnection : a.connection = some .rabbit)
    (hmem : .database ⟨0, master⟩ ∈ l) :
    Triple service (Holds none a l) startBridge
      (fun _ => Holds none { a with bridgeChannel := some .bridgeChannel, consumerTask := some .consumer }
        (.consumer :: .bridgeChannel :: l)) (fun _ => Leaks master) := by
  have hmem' : .database ⟨0, master⟩ ∈ .bridgeChannel :: l := List.mem_cons_of_mem _ hmem
  have hget : a.getConnection = .ok .rabbit := by rw [Attributes.getConnection, hconnection]
  refine triple_get ?_
  rw [hget]
  exact (triple_acquireLeaks hmem).bind fun _ => (triple_awaitLeaks hmem').bind fun _ =>
    (triple_awaitLeaks hmem').bind fun _ => (triple_awaitLeaks hmem').bind fun _ =>
      triple_set.bind fun _ => triple_createTask.bind fun _ => triple_set

/-- The last part of the start. -/
theorem startRabbit_spec (settings : Settings) (hfresh : a.connection = none ∧
      a.bridgeChannel = none ∧ a.consumerTask = none)
    (hmaster : a.database.masterPool = some ⟨0, master⟩) :
    Triple service (Holds none a a.held) (startRabbit settings)
      (fun bridge s => (bridge = true ↔ settings.feedTransport = "rabbitmq") ∧
        Holds none (if bridge then a.withRabbit else a) (if bridge then a.withRabbit else a).held s)
      (fun _ => Leaks master) := by
  obtain ⟨hconnection, hchannel, htask⟩ := hfresh
  have hmem := mem_held hmaster
  unfold startRabbit
  split_ifs with htransport
  · refine (connectRabbit_spec hconnection hmem).bind fun _ =>
      (startBridge_spec rfl (List.mem_cons_of_mem _ hmem)).bind fun _ => triple_pure fun s hs => ?_
    refine ⟨iff_of_true rfl htransport, hs.perm (List.perm_iff_count.mpr fun x => ?_)⟩
    simp only [Attributes.held, Attributes.withRabbit, hconnection, hchannel, htask, if_true,
      Option.toList_none, Option.toList_some, List.count_append, List.count_cons, List.count_nil]
    omega
  · exact triple_pure fun s hs => ⟨iff_of_false Bool.false_ne_true htransport, hs⟩

/-- What requests find while the process serves; the resources are those that are open. -/
structure Ready (settings : Settings) (a : Attributes) (rs : List Resource) : Prop where
  held : rs.Perm a.held
  master : a.database.masterConnection = .ok ⟨0, settings.databaseHost⟩ ∧
    Resource.database ⟨0, settings.databaseHost⟩ ∈ rs
  reads : ∃ pool db, a.database.slaveConnection = .ok (pool, db) ∧ Resource.database pool ∈ rs
  redis : a.getClient = .ok .redis ∧ Resource.redis ∈ rs
  chats : a.cluster.Valid ∧ a.cluster.nShards = a.shardPools.length
  repository : ∃ backend, backendOf settings.dialogsBackend = some backend ∧
    a.getRepository = .ok backend ∧ (backend = .tarantool → Resource.tarantool ∈ rs)
  rabbit : settings.feedTransport = "rabbitmq" → a.getConnection = .ok .rabbit ∧
    a.getExchange = .ok () ∧ Resource.bridgeChannel ∈ rs ∧ Resource.consumer ∈ rs

theorem Ready.of_perm {settings : Settings} {rs rs' : List Resource} (h : Ready settings a rs)
    (hperm : rs'.Perm rs) : Ready settings a rs' where
  held := hperm.trans h.held
  master := ⟨h.master.1, hperm.mem_iff.mpr h.master.2⟩
  reads := by
    obtain ⟨pool, db, hreads, hmem⟩ := h.reads
    exact ⟨pool, db, hreads, hperm.mem_iff.mpr hmem⟩
  redis := ⟨h.redis.1, hperm.mem_iff.mpr h.redis.2⟩
  chats := h.chats
  repository := by
    obtain ⟨backend, hbackend, hget, hmem⟩ := h.repository
    exact ⟨backend, hbackend, hget, fun heq => hperm.mem_iff.mpr (hmem heq)⟩
  rabbit htransport := by
    obtain ⟨hconnection, hexchange, hchannel, htask⟩ := h.rabbit htransport
    exact ⟨hconnection, hexchange, hperm.mem_iff.mpr hchannel, hperm.mem_iff.mpr htask⟩

/-- A read gets a pool of a slave, or that of the master when there are none. -/
theorem reads_ready (hmaster : a.database.masterPool = some ⟨0, master⟩)
    (hcycle : a.database.slaveCycle = cycleOf a.database.slavePools) :
    ∃ pool db, a.database.slaveConnection = .ok (pool, db) ∧ Resource.database pool ∈ a.held := by
  by_cases hslaves : a.database.slavePools = []
  · refine ⟨⟨0, master⟩, a.database, ?_, mem_held hmaster⟩
    rw [Replicas.Database.slaveConnection, if_pos hslaves, Replicas.Database.masterConnection, hmaster]
    rfl
  · obtain ⟨pool, hpool⟩ := RoundRobin.exists_turn hslaves 0
    refine ⟨pool, { a.database with slaveCycle := some (a.database.slavePools, 1) }, ?_, ?_⟩
    · rw [Replicas.Database.slaveConnection, if_neg hslaves, Replicas.Database.getNextSlavePool, hcycle,
        cycleOf, if_neg hslaves]
      dsimp only
      rw [hpool]
    · have hmem : pool ∈ a.database.slavePools := List.mem_of_getElem? hpool
      simp [Attributes.held, hmem]

theorem ready_of {settings : Settings} {backend : Backend}
    (hmaster : a.database.masterPool = some ⟨0, settings.databaseHost⟩)
    (hcycle : a.database.slaveCycle = cycleOf a.database.slavePools) (hclient : a.client = some .redis)
    (hchats : a.cluster.Valid ∧ a.cluster.nShards = a.shardPools.length)
    (hbackend : backendOf settings.dialogsBackend = some backend)
    (hrepository : a.repository = some backend)
    (hpool : backend = .tarantool → a.tarantoolPool = some .tarantool)
    (hrabbit : settings.feedTransport = "rabbitmq" → a.connection = some .rabbit ∧
      a.publisherExchange = true ∧ a.bridgeChannel = some .bridgeChannel ∧
        a.consumerTask = some .consumer) : Ready settings a a.held where
  held := List.Perm.refl _
  master := ⟨by rw [Replicas.Database.masterConnection, hmaster], mem_held hmaster⟩
  reads := reads_ready hmaster hcycle
  redis := ⟨by rw [Attributes.getClient, hclient], by simp [Attributes.held, hclient]⟩
  chats := hchats
  repository := by
    refine ⟨backend, hbackend, by rw [Attributes.getRepository, hrepository], fun heq => ?_⟩
    simp [Attributes.held, hpool heq]
  rabbit htransport := by
    obtain ⟨hconnection, hexchange, hchannel, htask⟩ := hrabbit htransport
    refine ⟨by rw [Attributes.getConnection, hconnection], ?_, ?_, ?_⟩
    · rw [Attributes.getExchange, if_pos hexchange]
    · simp [Attributes.held, hchannel]
    · simp [Attributes.held, htask]

/-- **A start that returns has initialised everything**; one that raises behind the pool of the master
leaves that pool open. -/
theorem startup_spec (servers : String → Shard) (settings : Settings) :
    Triple service Begins (startup servers settings)
      (fun bridge s => ∃ a, (Ready settings a a.held ∧ (if bridge then a.connection.isSome = true else
          a.consumerTask = none ∧ a.bridgeChannel = none ∧ a.connection = none ∧
            a.publisherExchange = false)) ∧ Holds none a a.held s)
      (fun _ => Leaks settings.databaseHost) := by
  refine (connectDatabase_spec settings).bind fun _ => triple_exists fun slaves => ?_
  refine (connectRedis_spec rfl rfl).bind fun _ => ?_
  refine (connectCluster_spec servers settings.cluster rfl rfl).bind fun _ =>
    triple_exists fun c => triple_exists fun pools => triple_and fun hcluster => ?_
  refine (setupRepository_spec settings rfl rfl).bind fun _ => triple_exists fun backend =>
    triple_exists fun pool => triple_and fun hbackend => ?_
  refine (startRabbit_spec settings ⟨rfl, rfl, rfl⟩ rfl).imp_ok fun bridge s hs => ?_
  obtain ⟨htransport, hs⟩ := hs
  cases bridge with
  | false =>
      refine ⟨_, ⟨ready_of rfl rfl rfl hcluster hbackend.1 rfl hbackend.2 fun heq => ?_, ?_⟩, hs⟩
      · exact absurd (htransport.mpr heq) Bool.false_ne_true
      · exact ⟨rfl, rfl, rfl, rfl⟩
  | true =>
      refine ⟨_, ⟨ready_of rfl rfl rfl hcluster hbackend.1 rfl hbackend.2 fun _ => ?_, ?_⟩, hs⟩
      · exact ⟨rfl, rfl, rfl, rfl⟩
      · exact rfl

/-! ## The process, from its start to its end -/

theorem triple_serve : Triple service (Holds none a l) (call Command.serve)
    (fun _ s => ∃ rs, rs.Perm l ∧ Holds (some (a, rs)) a l s)
    (fun _ s => ∃ rs, rs.Perm l ∧ Holds (some (a, rs)) a l s) := by
  refine triple_call (fun s _ s' hs h => ?_) fun s e s' hs h => ?_
  · rw [attempt_ok h]
    exact ⟨s.opened, hs.2.1, hs.1, hs.2.1, hs.2.2.1, by rw [← hs.1]⟩
  · rw [attempt_error h]
    exact ⟨s.opened, hs.2.1, hs.1, hs.2.1, hs.2.2.1, by rw [← hs.1]⟩

/-- Everything that was open is closed. -/
def Clean (s : Process) : Prop := s.refused = [] ∧ s.opened = [] ∧ s.attributes.Closed

/-- A closing has raised; it and what would have been closed behind it is still open. -/
def Interrupted (a : Attributes) (s : Process) : Prop :=
  ∃ before c after, a.held = before ++ c :: after ∧ s.refused = [c] ∧ s.opened.Perm (c :: after)

/-- The process has served, ready for it, and has ended in this way. -/
def Served (settings : Settings) (ended : Attributes → Process → Prop) (s : Process) : Prop :=
  ∃ a rs, s.served = some (a, rs) ∧ Ready settings a rs ∧ ended a s

theorem lifespan_spec (servers : String → Shard) (settings : Settings) :
    Triple service Begins (lifespan servers settings)
      (fun _ => Served settings fun _ => Clean)
      (fun _ s => Served settings (fun a s => Clean s ∨ Interrupted a s) s ∨
        Leaks settings.databaseHost s) := by
  refine ((startup_spec servers settings).imp_error fun _ s hs => Or.inr hs).bind fun bridge =>
    triple_exists fun a => triple_and fun ⟨hready, hbridge⟩ => ?_
  have hshutdown : Triple service (fun s => ∃ rs, rs.Perm a.held ∧ Holds (some (a, rs)) a a.held s)
      (shutdown bridge) (fun _ => Served settings fun _ => Clean)
      (fun _ => Served settings Interrupted) := by
    refine triple_exists fun rs => triple_and fun hperm =>
      ((shutdown_spec hbridge).imp_ok ?_).imp_error ?_
    · rintro _ s ⟨a', hclosed, rfl, hopened, href, hserved⟩
      exact ⟨a, rs, hserved, hready.of_perm hperm, href, hopened.eq_nil, hclosed⟩
    · rintro _ s ⟨before, c, after, hheld, hopened, href, hserved⟩
      rw [List.append_nil] at hopened
      exact ⟨a, rs, hserved, hready.of_perm hperm, before, c, after, hheld, href, hopened⟩
  have hraises : ∀ s, Served settings Interrupted s →
      Served settings (fun a s => Clean s ∨ Interrupted a s) s ∨ Leaks settings.databaseHost s := by
    rintro s ⟨a, rs, hserved, hready, hended⟩
    exact Or.inl ⟨a, rs, hserved, hready, Or.inr hended⟩
  refine triple_serve.tryFinally (fun _ => hshutdown.imp_error fun _ => hraises) fun e =>
    (hshutdown.imp_error fun _ => hraises).imp_ok ?_
  rintro _ s ⟨a, rs, hserved, hready, hended⟩
  exact Or.inl ⟨a, rs, hserved, hready, Or.inl hended⟩

/-- A process whose first await raises. -/
theorem lifespan_refused (servers : String → Shard) (settings : Settings) (e : PyError)
    (faults : List (Option PyError)) :
    (lifespan servers settings).perform service (.start (some e :: faults))
      = (.error e, .start faults) := by
  have hacquire : (connectDatabase settings).perform service (.start (some e :: faults))
      = (.error e, .start faults) := by
    refine perform_bind_of_error ?_
    rw [perform_call]
    rfl
  exact perform_bind_of_error (perform_bind_of_error hacquire)

/-- **The life of a process**, whichever awaits raise. Either it has come to serve: everything was
initialised then, and the end has closed everything, or up to the first closing that raised. Or it has
not come to serve: it has raised, and leaves nothing open only if the very first await did. -/
theorem lifespan_outcome (servers : String → Shard) (settings : Settings)
    (faults : List (Option PyError)) :
    let out := (lifespan servers settings).perform service (.start faults)
    Served settings (fun a s => Clean s ∨ (Interrupted a s ∧ ∃ e, out.1 = .error e)) out.2 ∨
      (out.2.served = none ∧ (∃ e, out.1 = .error e) ∧
        (out.2.opened = [] ↔ ∃ e, faults.head? = some (some e))) := by
  intro out
  rcases hfaults : faults.headD none with _ | e
  · have hbegins : Begins (.start faults) := ⟨⟨rfl, List.Perm.refl _, rfl, rfl⟩, hfaults⟩
    have hfirst : ¬ ∃ e, faults.head? = some (some e) := by
      rintro ⟨e, he⟩
      rw [List.headD_eq_head?_getD, he] at hfaults
      cases hfaults
    rcases lifespan_spec servers settings _ hbegins with ⟨_, s, hrun, hserved⟩ | ⟨e, s, hrun, hended⟩
    · obtain ⟨a, rs, hserved, hready, hclean⟩ := hserved
      refine Or.inl ⟨a, rs, ?_, hready, Or.inl ?_⟩
      · rwa [show out = _ from hrun]
      · rwa [show out = _ from hrun]
    · rw [show out = _ from hrun]
      rcases hended with ⟨a, rs, hserved, hready, hended⟩ | ⟨hserved, hmem⟩
      · exact Or.inl ⟨a, rs, hserved, hready, hended.imp_right fun h => ⟨h, e, rfl⟩⟩
      · refine Or.inr ⟨hserved, ⟨e, rfl⟩, iff_of_false (fun hempty => ?_) hfirst⟩
        rw [hempty] at hmem
        exact absurd hmem List.not_mem_nil
  · obtain ⟨rest, rfl⟩ : ∃ rest, faults = some e :: rest := by
      cases faults with
      | nil => cases hfaults
      | cons fault rest => exact ⟨rest, congrArg (· :: rest) hfaults⟩
    rw [show out = _ from lifespan_refused servers settings e rest]
    exact Or.inr ⟨rfl, ⟨e, rfl⟩, iff_of_true rfl ⟨e, rfl⟩⟩

/-- One slave, two shards, Tarantool and RabbitMQ. -/
def tarantoolSettings : Settings where
  databaseHost := ⟨"localhost".toList, 5432⟩
  databaseSlaveHosts := "localhost:5433"
  cluster := ⟨"shard0,shard1", 0, 0, false⟩
  dialogsBackend := "Tarantool"
  feedTransport := "rabbitmq"

/-- The process with these settings, its awaits ending in this way. -/
def tarantoolProcess (faults : List (Option PyError)) : Process :=
  ((lifespan (fun _ => SerialTable.empty) tarantoolSettings).perform service (.start faults)).2

/-! Without faults everything is closed; when the connection to RabbitMQ cannot be, the six resources
that would be closed behind it stay open, too. -/

example : (tarantoolProcess []).served.isSome = true ∧ (tarantoolProcess []).opened = [] := by
  decide +kernel

example : (tarantoolProcess (List.replicate 16 none ++ [some (.amqpError "closed")])).refused
      = [.rabbit] ∧
    (tarantoolProcess (List.replicate 16 none ++ [some (.amqpError "closed")])).opened.length = 7 := by
  decide +kernel

end HighLoad.Lifespan
