/-
# HighLoad.Ws.Delivery — notifications on their way to the sockets (`app/ws/rabbit_bridge.py`)

A created event is handled once and leaves one publication for each follower. The exchange puts a copy
into the queue of every instance bound to its key; each instance consumes its queue one message at a
time and pushes what parses to the sockets of the user it names, sending to one after the other and
removing those whose send fails. `System` runs the publications, the consumers and the awaits of their
pushes in any order. `followers_notified_once` follows one notification for one socket through it: it is
pending, queued, about to be sent or received, and exactly one of these.

The loop survives a body that is no JSON, but not one that is nested too deeply for `json.loads`: that
raises no `ValueError`, and what is queued behind it is never consumed (`tooDeep_ends_loop`). A document
that `send_json` cannot write costs the user of its key the sockets.
-/
import HighLoad.Feed.Refinement
import HighLoad.Ws.ConnectionManager
import HighLoad.Ws.Routing

namespace HighLoad.Ws.Delivery

open Feed (Payload PostNew PostEvent Publication Settings World)

/-! ## Messages -/

/-- A JSON document: a payload that was published, or any other, by its text and whether `send_json` can
write it (a lone surrogate, for one, has no UTF-8 form). -/
inductive Document where
  | payload (p : Payload)
  | other (text : String) (writable : Bool)

/-- `send_json` can write the document. -/
def Document.writable : Document → Bool
  | .payload _ => true
  | .other _ writable => writable

/-- The body of a message: a document, bytes that are no JSON, or bytes that are nested too deeply for
`json.loads`, JSON or not. -/
inductive Body where
  | json (document : Document)
  | malformed (bytes : List UInt8)
  | tooDeep (bytes : List UInt8)

/-- `json.loads(message.body)`. A `RecursionError` is a `RuntimeError`. -/
def Body.loads : Body → Except PyError Document
  | .json document => .ok document
  | .malformed _ => .error (.valueError "Expecting value")
  | .tooDeep _ => .error (.runtimeError "maximum recursion depth exceeded")

/-- The body is not nested too deeply. -/
def Body.shallow : Body → Bool
  | .json _ => true
  | .malformed _ => true
  | .tooDeep _ => false

/-- A message in a queue. -/
structure Message where
  routingKey : String
  body : Body

/-- `UUID(parts[2])`. -/
def parseUserId (part : List Char) : Except PyError Uuid :=
  match Uuid.parse (String.ofList part) with
  | some userId => .ok userId
  | none => .error (.valueError "badly formed hexadecimal UUID string")

/-- The body of the loop in `_consume_loop` up to the push: what is pushed to whom, nothing when the
message is dropped, or an exception that ends the loop. -/
def Message.consume (m : Message) : Except PyError (Option (Uuid × Document)) :=
  match m.body.loads with
  | .error (.valueError _) => .ok none
  | .error e => .error e
  | .ok document =>
      match m.routingKey.toList.splitOn '.' with
      | [_, _, part] =>
          match parseUserId part with
          | .error (.valueError _) => .ok none
          | .error e => .error e
          | .ok userId => .ok (some (userId, document))
      | _ => .ok none

/-- The document of a message and the user of its key, when both parse. -/
def Message.target (m : Message) : Option (Uuid × Document) :=
  match m.body with
  | .json document => (consumedFor m.routingKey).map fun userId => (userId, document)
  | .malformed _ => none
  | .tooDeep _ => none

theorem target_json {routingKey : String} {document document' : Document} {u : Uuid}
    (h : Message.target ⟨routingKey, .json document⟩ = some (u, document')) :
    consumedFor routingKey = some u ∧ document = document' := by
  obtain ⟨v, hv, heq⟩ := Option.map_eq_some_iff.mp h
  obtain ⟨rfl, rfl⟩ := Prod.mk.inj heq
  exact ⟨hv, rfl⟩

/-- The message is pushed to the user, and no send of it can succeed. -/
def Message.unsendableTo (m : Message) (u : Uuid) : Prop :=
  ∃ document, m.target = some (u, document) ∧ document.writable = false

/-- **Nothing but too deep a body ends the loop**, and what parses goes to the user of its key. -/
theorem consume_eq (m : Message) (hbody : m.body.shallow = true) : m.consume = .ok m.target := by
  unfold Message.consume Message.target consumedFor
  cases hm : m.body with
  | malformed bytes => rfl
  | tooDeep bytes =>
      rw [hm] at hbody
      cases hbody
  | json document =>
      dsimp only [Body.loads]
      generalize m.routingKey.toList.splitOn '.' = parts
      match parts with
      | [] => rfl
      | [_] => rfl
      | [_, _] => rfl
      | [_, _, part] =>
          dsimp only [parseUserId]
          cases Uuid.parse (String.ofList part) <;> rfl
      | _ :: _ :: _ :: _ :: _ => rfl

/-- The document is this notification. -/
def Document.isNew (n : PostNew) : Document → Bool
  | .payload (.notification n') => n' = n
  | _ => false

/-- The message carries this notification. -/
def Message.carries (n : PostNew) (m : Message) : Bool :=
  match m.body with
  | .json document => document.isNew n
  | .malformed _ => false
  | .tooDeep _ => false

/-- The message is about the post. -/
def Message.about (postId : Uuid) (m : Message) : Prop :=
  ∃ n, m.body = .json (.payload (.notification n)) ∧ n.postId = postId

/-! ## Instances -/

/-- Where the consumer of an instance stands: between two messages, or at an await of a push. -/
inductive Phase where
  | idle
  | sending (userId : Uuid) (document : Document) (rest broken : List WebSocket)
  | dropping (userId : Uuid) (broken : List WebSocket)
  | unbinding (userId : Uuid) (broken : List WebSocket)

/-- The consumer is between two messages. -/
def Phase.isIdle : Phase → Bool
  | .idle => true
  | _ => false

theorem Phase.isIdle_iff {phase : Phase} : phase.isIdle = true ↔ phase = .idle := by
  cases phase <;> simp [Phase.isIdle]

/-- A push begins: without sockets it returns at once. -/
def Phase.pushing (userId : Uuid) (document : Document) (sockets : List WebSocket) : Phase :=
  if sockets = [] then .idle else .sending userId document sockets []

/-- An instance: the registry, the bindings of its queue, the queue, the consumer, and what its sockets
have received. -/
structure Instance where
  conns : Conns
  bindings : Finset String
  queue : List Message
  phase : Phase
  ended : Bool
  received : List (WebSocket × Document)

namespace Instance

/-- The broker puts a copy of a message into the queue if it has a binding equal to the key. -/
def route (inst : Instance) (m : Message) : Instance :=
  if m.routingKey ∈ inst.bindings then { inst with queue := inst.queue ++ [m] } else inst

/-- The consumer takes the next message; `sockets` is the snapshot of a push, in the order in which it
meets them. -/
def take (inst : Instance) (sockets : List WebSocket) : Option Instance :=
  match inst.ended, inst.phase, inst.queue with
  | false, .idle, m :: queue =>
      match m.consume with
      | .error _ => some { inst with queue := queue, ended := true }
      | .ok none => some { inst with queue := queue }
      | .ok (some (userId, document)) =>
          if sockets.Nodup ∧ sockets.toFinset = inst.conns.sockets userId then
            some { inst with queue := queue, phase := .pushing userId document sockets }
          else none
  | _, _, _ => none

/-- The next await of a push completes: a send, which raises unless `ok`, the removal of a broken
socket, or the unbinding behind the last one, whose exception is swallowed. -/
def resume (routingPrefix : String) (inst : Instance) (ok : Bool) : Option Instance :=
  match inst.phase with
  | .idle => none
  | .sending userId document (ws :: rest) broken =>
      some (if ok then { inst with
          phase := .sending userId document rest broken
          received := inst.received ++ [(ws, document)] }
        else { inst with phase := .sending userId document rest (broken ++ [ws]) })
  | .sending userId _ [] broken => some { inst with phase := .dropping userId broken }
  | .dropping _ [] => some { inst with phase := .idle }
  | .dropping userId (ws :: broken) =>
      some { inst with
        conns := (inst.conns.disconnect userId ws).2
        phase := if (inst.conns.disconnect userId ws).1 then .unbinding userId broken
          else .dropping userId broken }
  | .unbinding userId broken =>
      some { inst with
        bindings := if ok then inst.bindings.erase (userRoutingKey routingPrefix userId)
          else inst.bindings
        phase := .dropping userId broken }

/-- How often a socket has received a notification. -/
def timesReceived (inst : Instance) (ws : WebSocket) (n : PostNew) : Nat :=
  inst.received.countP fun r => r.1 = ws && r.2.isNew n

end Instance

/-! ## The system -/

/-- The publications that have not reached the exchange, and the instances. -/
structure System where
  pending : List Publication
  instances : List Instance

/-- The message of a publication. -/
def messageOf (p : Publication) : Message := ⟨p.routingKey, .json (.payload p.payload)⟩

/-- What happens next. -/
inductive Action where
  | publish (k : Nat)
  | take (i : Nat) (sockets : List WebSocket)
  | resume (i : Nat) (ok : Bool)

namespace System

/-- The send to a working socket succeeds if the document can be written at all. -/
def sends (works : Nat → WebSocket → Bool) (i : Nat) (ok : Bool) (inst : Instance) : Bool :=
  match inst.phase with
  | .sending _ document (ws :: _) _ => document.writable && (works i ws || ok)
  | _ => ok

/-- One step: a publication reaches the exchange, or a consumer goes on. -/
def step (routingPrefix : String) (works : Nat → WebSocket → Bool) (a : Action) (s : System) :
    Option System :=
  match a with
  | .publish k =>
      (s.pending[k]?).map fun p =>
        ⟨s.pending.eraseIdx k, s.instances.map fun inst => inst.route (messageOf p)⟩
  | .take i sockets =>
      (s.instances[i]?).bind fun inst => (inst.take sockets).map fun inst' =>
        { s with instances := s.instances.set i inst' }
  | .resume i ok =>
      (s.instances[i]?).bind fun inst =>
        (inst.resume routingPrefix (sends works i ok inst)).map fun inst' =>
          { s with instances := s.instances.set i inst' }

/-- All publications, queues and pushes are done with. -/
def Drained (s : System) : Prop :=
  (s.pending.isEmpty && s.instances.all fun inst => inst.queue.isEmpty && inst.phase.isIdle) = true

instance (s : System) : Decidable s.Drained := inferInstanceAs (Decidable (_ = true))

theorem drained_iff {s : System} :
    s.Drained ↔ s.pending = [] ∧ ∀ inst ∈ s.instances, inst.queue = [] ∧ inst.phase = .idle := by
  simp [Drained, Phase.isIdle_iff]

end System

/-! ## Following one notification -/

/-- How often a push has still to send a notification to a socket. -/
def Phase.toSend (n : PostNew) (ws : WebSocket) : Phase → Nat
  | .sending _ document rest _ => if document.isNew n then rest.count ws else 0
  | _ => 0

theorem toSend_pushing (n : PostNew) (ws : WebSocket) (u : Uuid) (document : Document)
    (sockets : List WebSocket) : (Phase.pushing u document sockets).toSend n ws
      = if document.isNew n then sockets.count ws else 0 := by
  unfold Phase.pushing
  by_cases hempty : sockets = []
  · simp [hempty, Phase.toSend]
  · rw [if_neg hempty]
    rfl

/-- The sockets whose send failed and that are still registered. -/
def Phase.broken : Phase → List WebSocket
  | .idle => []
  | .sending _ _ _ broken => broken
  | .dropping _ broken => broken
  | .unbinding _ broken => broken

section

variable {routingPrefix : String} {followers : List Uuid} {n : PostNew} {works : WebSocket → Bool}
  {pending : List Publication} {start inst inst' : Instance}

/-- The publications for a user that have not reached the exchange. -/
def pendingFor (routingPrefix : String) (pending : List Publication) (u : Uuid) : Nat :=
  pending.countP fun p => p.routingKey = userRoutingKey routingPrefix u

/-- The copies for a user in a queue. -/
def Instance.queuedFor (routingPrefix : String) (n : PostNew) (inst : Instance) (u : Uuid) : Nat :=
  inst.queue.countP fun m => m.carries n && m.routingKey = userRoutingKey routingPrefix u

/-- **The invariant of an instance** that began as `start`, beside what is pending: working sockets and
their bindings stay, the notification goes to followers only, and for each working socket of a follower
it is in exactly one place. -/
structure Tracks (routingPrefix : String) (followers : List Uuid) (n : PostNew)
    (works : WebSocket → Bool) (pending : List Publication) (start inst : Instance) : Prop where
  running : inst.ended = false
  shallow : ∀ m ∈ inst.queue, m.body.shallow = true
  sendable : ∀ m ∈ inst.queue, ∀ u, m.unsendableTo u → ∀ ws ∈ start.conns.sockets u, works ws = false
  writable : ∀ u document rest broken, inst.phase = .sending u document rest broken →
    document.writable = false → ∀ ws ∈ rest, works ws = false
  sockets : ∀ u, inst.conns.sockets u ⊆ start.conns.sockets u
  working : ∀ u, ∀ ws ∈ start.conns.sockets u, works ws = true → ws ∈ inst.conns.sockets u
  broken : ∀ ws ∈ inst.phase.broken, works ws = false
  last : ∀ u broken, inst.phase = .unbinding u broken → inst.conns.sockets u = ∅
  bound : ∀ u, ∀ ws ∈ start.conns.sockets u, works ws = true →
    userRoutingKey routingPrefix u ∈ inst.bindings
  queued : ∀ m ∈ inst.queue, m.carries n = true →
    ∃ u ∈ followers, m.routingKey = userRoutingKey routingPrefix u
  pushed : ∀ u document rest broken, inst.phase = .sending u document rest broken →
    document.isNew n = true → u ∈ followers ∧ ∀ ws ∈ rest, ws ∈ start.conns.sockets u
  received : ∀ r ∈ inst.received, r.2.isNew n = true →
    ∃ u ∈ followers, r.1 ∈ start.conns.sockets u
  once : ∀ u ∈ followers, ∀ ws ∈ start.conns.sockets u, works ws = true →
    pendingFor routingPrefix pending u + inst.queuedFor routingPrefix n u + inst.phase.toSend n ws
      + inst.timesReceived ws n = 1

theorem consumedFor_key (hbegins : routingPrefix.toList.count '.' = 1) (u : Uuid) :
    consumedFor (userRoutingKey routingPrefix u) = some u :=
  (routed_iff routingPrefix u).mpr hbegins

theorem key_injective (hbegins : routingPrefix.toList.count '.' = 1) {u v : Uuid}
    (h : userRoutingKey routingPrefix u = userRoutingKey routingPrefix v) : u = v := by
  have hu := consumedFor_key hbegins u
  rw [h, consumedFor_key hbegins v] at hu
  exact (Option.some.inj hu).symm

/-- A pending publication of the notification for a follower. -/
def Announces (routingPrefix : String) (followers : List Uuid) (n : PostNew) (p : Publication) : Prop :=
  p.payload = .notification n ∧ ∃ u ∈ followers, p.routingKey = userRoutingKey routingPrefix u

theorem Announces.carries {p : Publication} (hp : Announces routingPrefix followers n p) :
    (messageOf p).carries n = true := by
  unfold messageOf Message.carries
  rw [hp.1]
  exact decide_eq_true rfl

/-- What the service publishes can be written. -/
theorem messageOf_sendable (p : Publication) (u : Uuid) : ¬ (messageOf p).unsendableTo u := by
  rintro ⟨document, htarget, hwritable⟩
  obtain ⟨-, rfl⟩ := target_json htarget
  cases hwritable

/-- A publication that leaves the list of those pending. -/
theorem pendingFor_eraseIdx {k : Nat} {p : Publication} (hp : pending[k]? = some p) (u : Uuid) :
    pendingFor routingPrefix pending u = pendingFor routingPrefix (pending.eraseIdx k) u
      + if p.routingKey = userRoutingKey routingPrefix u then 1 else 0 := by
  unfold pendingFor
  obtain ⟨hk, rfl⟩ := List.getElem?_eq_some_iff.mp hp
  rw [← (List.getElem_cons_eraseIdx_perm hk).countP_eq, List.countP_cons]
  simp

/-- **The exchange routes a publication.** -/
theorem Tracks.route (h : Tracks routingPrefix followers n works pending start inst) {k : Nat}
    {p : Publication} (hp : pending[k]? = some p) (hannounces : Announces routingPrefix followers n p) :
    Tracks routingPrefix followers n works (pending.eraseIdx k) start (inst.route (messageOf p)) := by
  have hcarries := hannounces.carries
  have honce : ∀ u ∈ followers, ∀ ws ∈ start.conns.sockets u, works ws = true →
      pendingFor routingPrefix (pending.eraseIdx k) u
        + (inst.route (messageOf p)).queuedFor routingPrefix n u + inst.phase.toSend n ws
        + inst.timesReceived ws n = 1 := by
    intro u hu ws hws hworks
    rw [← h.once u hu ws hws hworks, pendingFor_eraseIdx hp]
    unfold Instance.queuedFor Instance.route
    by_cases hkey : p.routingKey = userRoutingKey routingPrefix u
    · have hbound : (messageOf p).routingKey ∈ inst.bindings := by
        show p.routingKey ∈ inst.bindings
        rw [hkey]
        exact h.bound u ws hws hworks
      rw [if_pos hkey, if_pos hbound, List.countP_append, List.countP_singleton]
      have hmessage : (messageOf p).routingKey = userRoutingKey routingPrefix u := hkey
      simp only [hcarries, hmessage, decide_true, Bool.and_self, if_true]
      omega
    · rw [if_neg hkey]
      split_ifs
      · have hmessage : ¬ (messageOf p).routingKey = userRoutingKey routingPrefix u := hkey
        simp [List.countP_append, hmessage]
      · rfl
  unfold Instance.route at honce ⊢
  split_ifs at honce ⊢ with hbound
  · refine { h with shallow := ?_, sendable := ?_, queued := ?_, once := honce }
    · intro m hm
      rcases List.mem_append.mp hm with hm | hm
      · exact h.shallow m hm
      · rw [List.mem_singleton.mp hm]
        rfl
    · intro m hm
      rcases List.mem_append.mp hm with hm | hm
      · exact h.sendable m hm
      · rw [List.mem_singleton.mp hm]
        exact fun u hu => absurd hu (messageOf_sendable p u)
    · intro m hm hcarried
      rcases List.mem_append.mp hm with hm | hm
      · exact h.queued m hm hcarried
      · rw [List.mem_singleton.mp hm]
        exact hannounces.2
  · exact { h with once := honce }

/-- **What the consumer does with the next message**: drop it, or push it to the user of its key. -/
theorem take_cases {sockets : List WebSocket}
    (hshallow : ∀ m ∈ inst.queue, m.body.shallow = true) (h : inst.take sockets = some inst') :
    inst.phase = .idle ∧ ∃ m queue, inst.queue = m :: queue ∧
      ((((∃ bytes, m.body = .malformed bytes) ∨ consumedFor m.routingKey = none) ∧
          inst' = { inst with queue := queue }) ∨
        ∃ u document, m.body = .json document ∧ consumedFor m.routingKey = some u ∧
          sockets.Nodup ∧ sockets.toFinset = inst.conns.sockets u ∧
          inst' = { inst with queue := queue, phase := .pushing u document sockets }) := by
  unfold Instance.take at h
  split at h
  case h_2 => cases h
  case h_1 m queue hended hphase hqueue =>
    have hm : m.body.shallow = true := hshallow m (by rw [hqueue]; exact List.mem_cons_self)
    refine ⟨hphase, m, queue, hqueue, ?_⟩
    rw [consume_eq m hm, Message.target] at h
    cases hbody : m.body with
    | tooDeep bytes =>
        rw [hbody] at hm
        cases hm
    | malformed bytes =>
        rw [hbody] at h
        exact Or.inl ⟨Or.inl ⟨bytes, rfl⟩, (Option.some.inj h).symm⟩
    | json document =>
        rw [hbody] at h
        cases huser : consumedFor m.routingKey with
        | none =>
            rw [huser] at h
            exact Or.inl ⟨Or.inr rfl, (Option.some.inj h).symm⟩
        | some u =>
            simp only [huser, Option.map_some] at h
            by_cases hsnapshot : sockets.Nodup ∧ sockets.toFinset = inst.conns.sockets u
            case neg =>
              rw [if_neg hsnapshot] at h
              cases h
            rw [if_pos hsnapshot] at h
            exact Or.inr ⟨u, document, rfl, rfl, hsnapshot.1, hsnapshot.2,
              (Option.some.inj h).symm⟩

/-- **The consumer takes a message.** -/
theorem Tracks.take (hbegins : routingPrefix.toList.count '.' = 1)
    (howner : ∀ u v ws, ws ∈ start.conns.sockets u → ws ∈ start.conns.sockets v → u = v)
    (h : Tracks routingPrefix followers n works pending start inst) {sockets : List WebSocket}
    (htake : inst.take sockets = some inst') :
    Tracks routingPrefix followers n works pending start inst' := by
  obtain ⟨hphase, m, queue, hqueue, hcase⟩ := take_cases h.shallow htake
  have hbehind : queue ⊆ inst.queue := by
    rw [hqueue]
    exact List.subset_cons_self m queue
  have hqueued : ∀ m' ∈ queue, m'.carries n = true →
      ∃ u ∈ followers, m'.routingKey = userRoutingKey routingPrefix u := fun m' hm' =>
    h.queued m' (hbehind hm')
  -- the message taken is counted for `u` exactly when it carries the notification under its key
  have hcount : ∀ u, inst.queuedFor routingPrefix n u
      = (queue.countP fun m => m.carries n && m.routingKey = userRoutingKey routingPrefix u)
        + if m.carries n = true ∧ m.routingKey = userRoutingKey routingPrefix u then 1 else 0 := by
    intro u
    unfold Instance.queuedFor
    rw [hqueue, List.countP_cons]
    simp
  obtain ⟨hdropped, rfl⟩ | ⟨v, document, hbody, hv, hnodup, hsnapshot, rfl⟩ := hcase
  · -- a message that is dropped does not carry the notification
    have hnot : m.carries n = false := by
      rw [Bool.eq_false_iff]
      intro hcarries
      rcases hdropped with ⟨bytes, hbytes⟩ | hnone
      · unfold Message.carries at hcarries
        rw [hbytes] at hcarries
        cases hcarries
      · obtain ⟨u, -, hkey⟩ := h.queued m (by rw [hqueue]; exact List.mem_cons_self) hcarries
        rw [hkey, consumedFor_key hbegins] at hnone
        cases hnone
    refine { h with
      shallow := fun m' hm' => h.shallow m' (hbehind hm')
      sendable := fun m' hm' => h.sendable m' (hbehind hm')
      queued := hqueued
      once := fun u hu ws hws hworks => ?_ }
    rw [← h.once u hu ws hws hworks, hcount u, hnot]
    simp [Instance.queuedFor, Instance.timesReceived]
  · have hcarries : m.carries n = document.isNew n := by
      unfold Message.carries
      rw [hbody]
    have hfollower : document.isNew n = true →
        v ∈ followers ∧ m.routingKey = userRoutingKey routingPrefix v := by
      intro hnew
      obtain ⟨u, hu, hkey⟩ := h.queued m (by rw [hqueue]; exact List.mem_cons_self)
        (hcarries.trans hnew)
      rw [hkey, consumedFor_key hbegins] at hv
      obtain rfl := Option.some.inj hv
      exact ⟨hu, hkey⟩
    have hmem : ∀ ws, ws ∈ sockets ↔ ws ∈ inst.conns.sockets v := fun ws => by
      rw [← hsnapshot, List.mem_toFinset]
    refine
      { running := h.running
        shallow := fun m' hm' => h.shallow m' (hbehind hm')
        sendable := fun m' hm' => h.sendable m' (hbehind hm')
        writable := ?_
        sockets := h.sockets
        working := h.working
        broken := ?_
        last := ?_
        bound := h.bound
        queued := hqueued
        pushed := ?_
        received := h.received
        once := ?_ }
    · intro u document' rest broken hsending hnot ws hws
      simp only [Phase.pushing] at hsending
      split_ifs at hsending
      cases hsending
      have htarget : m.target = some (v, document) := by
        rw [Message.target, hbody, hv]
        rfl
      exact h.sendable m (by rw [hqueue]; exact List.mem_cons_self) v ⟨document, htarget, hnot⟩ ws
        (h.sockets v ((hmem ws).mp hws))
    · intro ws hws
      simp only [Phase.pushing] at hws
      split_ifs at hws <;> exact absurd hws List.not_mem_nil
    · intro u broken hunbinding
      simp only [Phase.pushing] at hunbinding
      split_ifs at hunbinding
    · intro u document' rest broken hsending hnew
      simp only [Phase.pushing] at hsending
      split_ifs at hsending
      cases hsending
      exact ⟨(hfollower hnew).1, fun ws hws => h.sockets v ((hmem ws).mp hws)⟩
    · intro u hu ws hws hworks
      rw [← h.once u hu ws hws hworks, hcount u, hphase, hcarries]
      have hsend : (Phase.pushing v document sockets).toSend n ws
          = if document.isNew n = true ∧ m.routingKey = userRoutingKey routingPrefix u
              then 1 else 0 := by
        rw [toSend_pushing]
        by_cases hnew : document.isNew n = true
        · obtain ⟨-, hkey⟩ := hfollower hnew
          by_cases huser : u = v
          · subst huser
            rw [if_pos hnew, if_pos ⟨hnew, hkey⟩]
            exact List.count_eq_one_of_mem hnodup ((hmem ws).mpr (h.working u ws hws hworks))
          · -- the socket is not one of another user's
            have hother : ws ∉ sockets := fun hws' =>
              huser (howner u v ws hws (h.sockets v ((hmem ws).mp hws')))
            rw [if_pos hnew, List.count_eq_zero_of_not_mem hother, if_neg]
            rintro ⟨-, hkey'⟩
            exact huser (key_injective hbegins (hkey'.symm.trans hkey))
        · rw [if_neg hnew, if_neg fun hboth => hnew hboth.1]
      show _ + _ + (Phase.pushing v document sockets).toSend n ws + _ = _
      rw [hsend]
      simp only [Instance.queuedFor, Instance.timesReceived, Phase.toSend]
      omega

/-- `is_last` is decided when the user has no socket left. -/
theorem sockets_of_last {conns : Conns} {u : Uuid} {ws : WebSocket}
    (h : (conns.disconnect u ws).1 = true) : (conns.disconnect u ws).2.sockets u = ∅ := by
  unfold Conns.disconnect at h ⊢
  cases hu : conns.lookup u with
  | none => simp [hu] at h
  | some s =>
      simp only [hu] at h ⊢
      split_ifs at h ⊢
      exact Conns.sockets_erase_self conns u

/-- The sends that are left of a push, and those done: the next send is one or the other. -/
theorem Tracks.sent (h : Tracks routingPrefix followers n works pending start inst) {u : Uuid}
    {document : Document} {ws : WebSocket} {rest broken : List WebSocket}
    (hphase : inst.phase = .sending u document (ws :: rest) broken) :
    Tracks routingPrefix followers n works pending start { inst with
      phase := .sending u document rest broken
      received := inst.received ++ [(ws, document)] } := by
  have hpushed := h.pushed u document (ws :: rest) broken hphase
  have hwritable := h.writable u document (ws :: rest) broken hphase
  refine
    { running := h.running
      shallow := h.shallow
      sendable := h.sendable
      writable := fun _ _ _ _ hsending hnot ws' hws' => by
        cases hsending
        exact hwritable hnot ws' (List.mem_cons_of_mem ws hws')
      sockets := h.sockets
      working := h.working
      broken := fun ws' hws' => h.broken ws' (by rw [hphase]; exact hws')
      last := fun _ _ hunbinding => by cases hunbinding
      bound := h.bound
      queued := h.queued
      pushed := ?_
      received := ?_
      once := ?_ }
  · rintro v document' rest' broken' hsending hnew
    cases hsending
    exact ⟨(hpushed hnew).1, fun ws' hws' => (hpushed hnew).2 ws' (List.mem_cons_of_mem ws hws')⟩
  · intro r hr hnew
    rcases List.mem_append.mp hr with hr | hr
    · exact h.received r hr hnew
    · rw [List.mem_singleton.mp hr] at hnew ⊢
      exact ⟨u, (hpushed hnew).1, (hpushed hnew).2 ws List.mem_cons_self⟩
  · intro v hv ws' hws' hworks
    rw [← h.once v hv ws' hws' hworks, hphase]
    simp only [Instance.queuedFor, Instance.timesReceived, Phase.toSend, List.countP_append,
      List.countP_singleton, List.count_cons]
    by_cases hnew : document.isNew n = true
    · by_cases hsame : ws = ws'
      · simp [hnew, hsame]
        omega
      · simp [hnew, hsame]
    · simp [hnew]

/-- A send that raises is one to a socket that does not work. -/
theorem Tracks.failed (h : Tracks routingPrefix followers n works pending start inst) {u : Uuid}
    {document : Document} {ws : WebSocket} {rest broken : List WebSocket}
    (hphase : inst.phase = .sending u document (ws :: rest) broken) (hbroken : works ws = false) :
    Tracks routingPrefix followers n works pending start { inst with
      phase := .sending u document rest (broken ++ [ws]) } := by
  have hpushed := h.pushed u document (ws :: rest) broken hphase
  have hwritable := h.writable u document (ws :: rest) broken hphase
  refine
    { running := h.running
      shallow := h.shallow
      sendable := h.sendable
      writable := fun _ _ _ _ hsending hnot ws' hws' => by
        cases hsending
        exact hwritable hnot ws' (List.mem_cons_of_mem ws hws')
      sockets := h.sockets
      working := h.working
      broken := ?_
      last := fun _ _ hunbinding => by cases hunbinding
      bound := h.bound
      queued := h.queued
      pushed := ?_
      received := h.received
      once := ?_ }
  · intro ws' hws'
    rcases List.mem_append.mp hws' with hws' | hws'
    · exact h.broken ws' (by rw [hphase]; exact hws')
    · rw [List.mem_singleton.mp hws']
      exact hbroken
  · rintro v document' rest' broken' hsending hnew
    cases hsending
    exact ⟨(hpushed hnew).1, fun ws' hws' => (hpushed hnew).2 ws' (List.mem_cons_of_mem ws hws')⟩
  · intro v hv ws' hws' hworks
    have hne : ws ≠ ws' := by
      rintro rfl
      rw [hworks] at hbroken
      cases hbroken
    rw [← h.once v hv ws' hws' hworks, hphase]
    simp [Instance.queuedFor, Instance.timesReceived, Phase.toSend, hne]

/-- What the removal of a broken socket leaves of the registry. -/
theorem Tracks.dropped (h : Tracks routingPrefix followers n works pending start inst) {u : Uuid}
    {ws : WebSocket} {broken : List WebSocket} (hphase : inst.phase = .dropping u (ws :: broken)) :
    Tracks routingPrefix followers n works pending start { inst with
      conns := (inst.conns.disconnect u ws).2
      phase := if (inst.conns.disconnect u ws).1 then .unbinding u broken
        else .dropping u broken } := by
  have hbroken : works ws = false := h.broken ws (by rw [hphase]; exact List.mem_cons_self)
  have hrest : ∀ ws' ∈ broken, works ws' = false := fun ws' hws' =>
    h.broken ws' (by rw [hphase]; exact List.mem_cons_of_mem ws hws')
  have honce := h.once
  rw [hphase] at honce
  refine
    { running := h.running
      shallow := h.shallow
      sendable := h.sendable
      writable := ?_
      sockets := ?_
      working := ?_
      broken := ?_
      last := ?_
      bound := h.bound
      queued := h.queued
      pushed := ?_
      received := h.received
      once := ?_ }
  · intro v document rest broken' hsending
    dsimp only at hsending
    split_ifs at hsending
  · intro v ws' hws'
    exact h.sockets v (Conns.mem_sockets_disconnect.mp hws').2
  · intro v ws' hws' hworks
    refine Conns.mem_sockets_disconnect.mpr ⟨?_, h.working v ws' hws' hworks⟩
    rintro ⟨-, rfl⟩
    rw [hworks] at hbroken
    cases hbroken
  · intro ws' hws'
    dsimp only at hws'
    split_ifs at hws' <;> exact hrest ws' hws'
  · intro v broken' hunbinding
    dsimp only at hunbinding
    split_ifs at hunbinding with hlast
    cases hunbinding
    exact sockets_of_last hlast
  · intro v document rest broken' hsending
    dsimp only at hsending
    split_ifs at hsending
  · intro v hv ws' hws' hworks
    rw [← honce v hv ws' hws' hworks]
    split_ifs <;> rfl

/-- Unbinding a user without sockets leaves the bindings of those with working ones. -/
theorem Tracks.unbound (hbegins : routingPrefix.toList.count '.' = 1)
    (h : Tracks routingPrefix followers n works pending start inst) {u : Uuid}
    {broken : List WebSocket} (hphase : inst.phase = .unbinding u broken) (ok : Bool) :
    Tracks routingPrefix followers n works pending start { inst with
      bindings := if ok then inst.bindings.erase (userRoutingKey routingPrefix u)
        else inst.bindings
      phase := .dropping u broken } := by
  have honce := h.once
  rw [hphase] at honce
  refine { h with
    writable := fun _ _ _ _ hsending => by cases hsending
    broken := fun ws hws => h.broken ws (by rw [hphase]; exact hws)
    last := fun _ _ hunbinding => by cases hunbinding
    bound := ?_
    pushed := fun _ _ _ _ hsending => by cases hsending
    once := honce }
  intro v ws hws hworks
  have hbound := h.bound v ws hws hworks
  dsimp only
  split_ifs
  · refine Finset.mem_erase.mpr ⟨fun hkey => ?_, hbound⟩
    -- `u` has no socket left, `v` has a working one
    obtain rfl := key_injective hbegins hkey
    have hmem := h.working v ws hws hworks
    rw [h.last v broken hphase] at hmem
    exact absurd hmem (Finset.notMem_empty ws)
  · exact hbound

/-- **The next await of a push completes.** -/
theorem Tracks.resume (hbegins : routingPrefix.toList.count '.' = 1)
    (h : Tracks routingPrefix followers n works pending start inst) {ok : Bool}
    (hsends : ∀ u document ws rest broken, inst.phase = .sending u document (ws :: rest) broken →
      document.writable = true → works ws = true → ok = true)
    (hresume : inst.resume routingPrefix ok = some inst') :
    Tracks routingPrefix followers n works pending start inst' := by
  have honce := h.once
  unfold Instance.resume at hresume
  split at hresume
  case h_1 => cases hresume
  case h_2 u document ws rest broken hphase =>
    obtain rfl := Option.some.inj hresume
    cases hok : ok with
    | true => exact h.sent hphase
    | false =>
        refine h.failed hphase ?_
        by_contra hworks
        have hworks : works ws = true := (Bool.not_eq_false _).mp hworks
        cases hwritable : document.writable with
        | true =>
            have htrue := hsends u document ws rest broken hphase hwritable hworks
            rw [hok] at htrue
            cases htrue
        | false =>
            have hfalse := h.writable u document (ws :: rest) broken hphase hwritable ws
              List.mem_cons_self
            rw [hworks] at hfalse
            cases hfalse
  case h_3 u document broken hphase =>
    obtain rfl := Option.some.inj hresume
    rw [hphase] at honce
    refine { h with
      writable := fun _ _ _ _ hsending => by cases hsending
      broken := fun ws hws => h.broken ws (by rw [hphase]; exact hws)
      last := fun _ _ hunbinding => by cases hunbinding
      pushed := fun _ _ _ _ hsending => by cases hsending
      once := fun v hv ws hws hworks => ?_ }
    rw [← honce v hv ws hws hworks]
    simp [Instance.queuedFor, Instance.timesReceived, Phase.toSend]
  case h_4 u hphase =>
    obtain rfl := Option.some.inj hresume
    rw [hphase] at honce
    exact { h with
      writable := fun _ _ _ _ hsending => by cases hsending
      broken := fun ws hws => absurd hws List.not_mem_nil
      last := fun _ _ hunbinding => by cases hunbinding
      pushed := fun _ _ _ _ hsending => by cases hsending
      once := honce }
  case h_5 u ws broken hphase =>
    obtain rfl := Option.some.inj hresume
    exact h.dropped hphase
  case h_6 u broken hphase =>
    obtain rfl := Option.some.inj hresume
    exact h.unbound hbegins hphase ok

end

/-! ## The run -/

namespace Instance

/-- The bindings of the queue agree with the registry. -/
def BindingsAgree (routingPrefix : String) (inst : Instance) : Prop :=
  ∀ key, key ∈ inst.bindings ↔
    ∃ u, key = userRoutingKey routingPrefix u ∧ inst.conns.sockets u ≠ ∅

/-- An instance between two messages, whatever is in its queue: the bindings agree with the registry,
and a socket is registered for one user. -/
structure Ready (routingPrefix : String) (inst : Instance) : Prop where
  agree : inst.BindingsAgree routingPrefix
  owner : ∀ u v ws, ws ∈ inst.conns.sockets u → ws ∈ inst.conns.sockets v → u = v
  idle : inst.phase = .idle
  running : inst.ended = false
  received : inst.received = []

end Instance

variable {routingPrefix : String} {followers : List Uuid} {n : PostNew}
  {works watched : Nat → WebSocket → Bool} {start s s' : System}

/-- The invariant of a run: what is pending announces the notification, and every instance is tracked,
for the sockets that are watched. -/
structure Delivering (routingPrefix : String) (followers : List Uuid) (n : PostNew)
    (watched : Nat → WebSocket → Bool) (start s : System) : Prop where
  pending : ∀ p ∈ s.pending, Announces routingPrefix followers n p
  tracks : ∀ (i : Nat) (inst : Instance), s.instances[i]? = some inst →
    ∃ first, start.instances[i]? = some first ∧
      Tracks routingPrefix followers n (watched i) s.pending first inst

/-- A step of instance `i` that keeps it tracked. -/
theorem Delivering.set (h : Delivering routingPrefix followers n watched start s) {i : Nat}
    {inst inst' : Instance} (hi : s.instances[i]? = some inst)
    (hinst : ∀ first, start.instances[i]? = some first →
      Tracks routingPrefix followers n (watched i) s.pending first inst →
      Tracks routingPrefix followers n (watched i) s.pending first inst') :
    Delivering routingPrefix followers n watched start
      { s with instances := s.instances.set i inst' } := by
  refine ⟨h.pending, fun j inst₁ hj => ?_⟩
  dsimp only at hj
  rw [List.getElem?_set] at hj
  split_ifs at hj with hij hlt
  · obtain rfl := Option.some.inj hj
    subst hij
    obtain ⟨first, hfirst, htracks⟩ := h.tracks i inst hi
    exact ⟨first, hfirst, hinst first hfirst htracks⟩
  · exact h.tracks j inst₁ hj

/-- **The step lemma.** -/
theorem Delivering.step (hbegins : routingPrefix.toList.count '.' = 1)
    (hready : ∀ inst ∈ start.instances, inst.Ready routingPrefix)
    (hwatched : ∀ i ws, watched i ws = true → works i ws = true)
    (h : Delivering routingPrefix followers n watched start s) {a : Action}
    (hstep : System.step routingPrefix works a s = some s') :
    Delivering routingPrefix followers n watched start s' := by
  cases a with
  | publish k =>
      obtain ⟨p, hp, rfl⟩ := Option.map_eq_some_iff.mp hstep
      have hannounces := h.pending p (List.mem_of_getElem? hp)
      refine ⟨fun q hq => h.pending q (List.mem_of_mem_eraseIdx hq), fun i inst hi => ?_⟩
      dsimp only at hi
      rw [List.getElem?_map] at hi
      obtain ⟨inst₁, hi₁, rfl⟩ := Option.map_eq_some_iff.mp hi
      obtain ⟨first, hfirst, htracks⟩ := h.tracks i inst₁ hi₁
      exact ⟨first, hfirst, htracks.route hp hannounces⟩
  | take i sockets =>
      obtain ⟨inst, hi, hmap⟩ := Option.bind_eq_some_iff.mp hstep
      obtain ⟨inst', htake, rfl⟩ := Option.map_eq_some_iff.mp hmap
      refine h.set hi fun first hfirst htracks => ?_
      exact htracks.take hbegins (hready first (List.mem_of_getElem? hfirst)).owner htake
  | resume i ok =>
      obtain ⟨inst, hi, hmap⟩ := Option.bind_eq_some_iff.mp hstep
      obtain ⟨inst', hresume, rfl⟩ := Option.map_eq_some_iff.mp hmap
      refine h.set hi fun first _ htracks => htracks.resume hbegins ?_ hresume
      intro u document ws rest broken hphase hwritable hws
      rw [System.sends, hphase]
      show (document.writable && (works i ws || ok)) = true
      rw [hwritable, hwatched i ws hws, Bool.true_or, Bool.true_and]

/-- The notification of an event. -/
def notification (w : World) (body : PostEvent) : PostNew :=
  Feed.postNew body ((w.storedBody body).notifiedText body)

/-- What handling a created event publishes. -/
def publishedBy (order : Feed.RowOrder) (cfg : Settings) (body : PostEvent) (w : World) :
    List Publication :=
  ((Feed.handleCreated cfg body).run (Feed.exec order) w).2.published.drop w.published.length

/-- An ordinary author's event is published once for each follower. -/
theorem publishedBy_eq (order : Feed.RowOrder) (cfg : Settings) (body : PostEvent) (w : World)
    (hordinary : Feed.celebrityFlag cfg w body.authorId = false) :
    publishedBy order cfg body w = (w.db.followers body.authorId).map fun follower =>
      ⟨userRoutingKey cfg.rabbitmqUserRoutingPrefix follower,
        .notification (notification w body), false⟩ := by
  unfold publishedBy
  have hflag : Feed.celebrityFlag cfg (w.storedBody body) body.authorId = false := by
    rw [← hordinary]
    unfold Feed.World.storedBody
    split_ifs <;> rfl
  have hdb : (w.storedBody body).db = w.db ∧ (w.storedBody body).published = w.published := by
    unfold Feed.World.storedBody
    split_ifs <;> exact ⟨rfl, rfl⟩
  rw [Feed.run_handleCreated, Feed.World.handledCreated, hflag, if_neg Bool.false_ne_true]
  show ((w.storedBody body).published ++ _).drop w.published.length = _
  rw [hdb.2, List.drop_left]
  show ((w.storedBody body).db.followers body.authorId).map _ = _
  rw [hdb.1]
  rfl

/-- The system in which the event was handled and nothing of it has reached the exchange. -/
def announced (order : Feed.RowOrder) (cfg : Settings) (w : World) (body : PostEvent)
    (instances : List Instance) : System :=
  ⟨publishedBy order cfg body w, instances⟩

/-- The working sockets of the followers. -/
def followersSockets (works : Nat → WebSocket → Bool) (followers : List Uuid)
    (instances : List Instance) (i : Nat) (ws : WebSocket) : Bool :=
  works i ws && (instances[i]?).any fun inst => followers.any fun u => ws ∈ inst.conns.sockets u

theorem followersSockets_iff {instances : List Instance} {i : Nat} {inst : Instance}
    (hi : instances[i]? = some inst) {ws : WebSocket} :
    followersSockets works followers instances i ws = true ↔
      works i ws = true ∧ ∃ u ∈ followers, ws ∈ inst.conns.sockets u := by
  simp [followersSockets, hi]

theorem delivering_announced (order : Feed.RowOrder) (cfg : Settings) (w : World) (body : PostEvent)
    (hbegins : cfg.rabbitmqUserRoutingPrefix.toList.count '.' = 1)
    (hordinary : Feed.celebrityFlag cfg w body.authorId = false) (instances : List Instance)
    (hready : ∀ inst ∈ instances, inst.Ready cfg.rabbitmqUserRoutingPrefix)
    (hothers : ∀ inst ∈ instances, ∀ m ∈ inst.queue, ¬ m.about body.postId)
    (hshallow : ∀ inst ∈ instances, ∀ m ∈ inst.queue, m.body.shallow = true)
    (hsendable : ∀ (i : Nat) (inst : Instance), instances[i]? = some inst → ∀ m ∈ inst.queue,
      ∀ u, w.db.Follows u body.authorId → m.unsendableTo u →
        ∀ ws ∈ inst.conns.sockets u, works i ws = false) :
    Delivering cfg.rabbitmqUserRoutingPrefix (w.db.followers body.authorId) (notification w body)
      (followersSockets works (w.db.followers body.authorId) instances)
      (announced order cfg w body instances) (announced order cfg w body instances) := by
  have hpublished := publishedBy_eq order cfg body w hordinary
  refine ⟨fun p hp => ?_, fun i inst hi => ⟨inst, hi, ?_⟩⟩
  · show Announces _ _ _ p
    unfold announced at hp
    rw [hpublished] at hp
    obtain ⟨u, hu, rfl⟩ := List.mem_map.mp hp
    exact ⟨rfl, u, hu, rfl⟩
  · have hmem : inst ∈ instances := List.mem_of_getElem? hi
    obtain ⟨hagree, howner, hidle, hrunning, hreceived⟩ := hready inst hmem
    have hqueue : ∀ m ∈ inst.queue, m.carries (notification w body) = false := by
      intro m hm
      rw [Bool.eq_false_iff]
      intro hcarries
      refine hothers inst hmem m hm ⟨notification w body, ?_, rfl⟩
      unfold Message.carries at hcarries
      split at hcarries
      · rename_i document hbody
        rw [hbody]
        unfold Document.isNew at hcarries
        split at hcarries
        · rw [of_decide_eq_true hcarries]
        · cases hcarries
      · cases hcarries
      · cases hcarries
    refine
      { running := hrunning
        shallow := hshallow inst hmem
        sendable := ?_
        writable := fun _ _ _ _ hsending => by rw [hidle] at hsending; cases hsending
        sockets := fun _ => Finset.Subset.refl _
        working := fun _ _ hws _ => hws
        broken := fun ws hws => by rw [hidle] at hws; exact absurd hws List.not_mem_nil
        last := fun _ _ hunbinding => by rw [hidle] at hunbinding; cases hunbinding
        bound := fun u ws hws _ => (hagree _).mpr ⟨u, rfl, Finset.ne_empty_of_mem hws⟩
        queued := fun m hm hcarries => by rw [hqueue m hm] at hcarries; cases hcarries
        pushed := fun _ _ _ _ hsending => by rw [hidle] at hsending; cases hsending
        received := fun r hr => by rw [hreceived] at hr; exact absurd hr List.not_mem_nil
        once := ?_ }
    · -- a socket of a follower is no other user's
      intro m hm u hu ws hws
      rw [Bool.eq_false_iff, ne_eq, followersSockets_iff (show instances[i]? = some inst from hi)]
      rintro ⟨hworks, v, hv, hws'⟩
      obtain rfl := howner u v ws hws hws'
      rw [hsendable i inst hi m hm u (Feed.Database.mem_followers.mp hv) hu ws hws] at hworks
      cases hworks
    intro u hu ws _ _
    -- the notification is pending, and nowhere else
    have hpending : pendingFor cfg.rabbitmqUserRoutingPrefix (publishedBy order cfg body w) u = 1 := by
      unfold pendingFor
      rw [hpublished, List.countP_map]
      have hcount : (w.db.followers body.authorId).countP ((fun p : Publication => decide
            (p.routingKey = userRoutingKey cfg.rabbitmqUserRoutingPrefix u)) ∘ fun follower =>
          ⟨userRoutingKey cfg.rabbitmqUserRoutingPrefix follower,
            .notification (notification w body), false⟩)
          = (w.db.followers body.authorId).count u := by
        rw [List.count]
        refine List.countP_congr fun v _ => ?_
        simp only [Function.comp_apply, decide_eq_true_eq, beq_iff_eq]
        exact ⟨key_injective hbegins, fun heq => by rw [heq]⟩
      rw [hcount]
      exact List.count_eq_one_of_mem (w.db.followers_nodup body.authorId) hu
    have hnotQueued : inst.queuedFor cfg.rabbitmqUserRoutingPrefix (notification w body) u = 0 := by
      unfold Instance.queuedFor
      rw [List.countP_eq_zero]
      intro m hm
      rw [hqueue m hm]
      simp
    show pendingFor _ (publishedBy order cfg body w) u + _ + _ + _ = 1
    rw [hpending, hnotQueued, hidle]
    simp [Phase.toSend, Instance.timesReceived, hreceived]

/-- **A run that is not drained can go on**: no message and no push is stuck. -/
theorem Delivering.can_step (h : Delivering routingPrefix followers n watched start s)
    (hnot : ¬ s.Drained) : ∃ a s', System.step routingPrefix works a s = some s' := by
  cases hpending : s.pending with
  | cons p pending => exact ⟨.publish 0, _, by simp only [System.step, hpending]; rfl⟩
  | nil =>
      have hbusy : ∃ inst ∈ s.instances, ¬ (inst.queue = [] ∧ inst.phase = .idle) := by
        by_contra hall
        push Not at hall
        exact hnot (System.drained_iff.mpr ⟨hpending, hall⟩)
      obtain ⟨inst, hinst, hno⟩ := hbusy
      obtain ⟨i, hlt, hi⟩ := List.getElem_of_mem hinst
      have hget : s.instances[i]? = some inst := List.getElem?_eq_some_iff.mpr ⟨hlt, hi⟩
      obtain ⟨first, -, htracks⟩ := h.tracks i inst hget
      by_cases hphase : inst.phase = .idle
      · cases hqueue : inst.queue with
        | nil => exact absurd ⟨hqueue, hphase⟩ hno
        | cons m queue =>
            -- the snapshot of the push, if there is one
            obtain ⟨sockets, inst', htake⟩ : ∃ sockets inst', inst.take sockets = some inst' := by
              unfold Instance.take
              rw [htracks.running, hphase, hqueue]
              dsimp only
              have hm := htracks.shallow m (by rw [hqueue]; exact List.mem_cons_self)
              rw [consume_eq m hm, Message.target]
              cases m.body with
              | malformed bytes => exact ⟨[], _, rfl⟩
              | tooDeep bytes => exact ⟨[], _, rfl⟩
              | json document =>
                  cases consumedFor m.routingKey with
                  | none => exact ⟨[], _, rfl⟩
                  | some u =>
                      exact ⟨(inst.conns.sockets u).toList, _,
                        if_pos ⟨Finset.nodup_toList _, Finset.toList_toFinset _⟩⟩
            exact ⟨.take i sockets, _, by simp only [System.step, hget, Option.bind_some, htake]; rfl⟩
      · obtain ⟨inst', hresume⟩ : ∃ inst',
            inst.resume routingPrefix (System.sends works i true inst) = some inst' := by
          unfold Instance.resume
          split
          · rename_i hidle
            exact absurd hidle hphase
          all_goals exact ⟨_, rfl⟩
        exact ⟨.resume i true, _, by simp only [System.step, hget, Option.bind_some, hresume]; rfl⟩

/-- **Every open, working socket of a follower receives the notification exactly once**, on whatever
instance, and no socket of another user receives it, when no body in the queues is nested too deeply and
no document for a working socket of a follower is one that cannot be written. No consumer loop ends,
whatever else is queued and whichever sockets break, and a run that is not drained can go on. -/
theorem followers_notified_once (order : Feed.RowOrder) (cfg : Settings) (w : World) (body : PostEvent)
    (hbegins : cfg.rabbitmqUserRoutingPrefix.toList.count '.' = 1)
    (hordinary : Feed.celebrityFlag cfg w body.authorId = false) (instances : List Instance)
    (hready : ∀ inst ∈ instances, inst.Ready cfg.rabbitmqUserRoutingPrefix)
    (hothers : ∀ inst ∈ instances, ∀ m ∈ inst.queue, ¬ m.about body.postId)
    (works : Nat → WebSocket → Bool)
    (hshallow : ∀ inst ∈ instances, ∀ m ∈ inst.queue, m.body.shallow = true)
    (hsendable : ∀ (i : Nat) (inst : Instance), instances[i]? = some inst → ∀ m ∈ inst.queue,
      ∀ u, w.db.Follows u body.authorId → m.unsendableTo u →
        ∀ ws ∈ inst.conns.sockets u, works i ws = false)
    (acts : List Action) (final : System)
    (hrun : exec (System.step cfg.rabbitmqUserRoutingPrefix works) acts
      (announced order cfg w body instances) = some final) :
    (∀ inst ∈ final.instances, inst.ended = false) ∧
      (¬ final.Drained → ∃ a next,
        System.step cfg.rabbitmqUserRoutingPrefix works a final = some next) ∧
      (final.Drained → ∀ (i : Nat) (inst : Instance), final.instances[i]? = some inst →
        ∃ first, instances[i]? = some first ∧ ∀ u, ∀ ws ∈ first.conns.sockets u,
          (w.db.Follows u body.authorId → works i ws = true →
            inst.timesReceived ws (notification w body) = 1) ∧
          (¬ w.db.Follows u body.authorId → inst.timesReceived ws (notification w body) = 0)) := by
  have hwatched : ∀ i ws, followersSockets works (w.db.followers body.authorId) instances i ws = true →
      works i ws = true := fun _ _ h => (Bool.and_eq_true_iff.mp h).1
  have hfinal : Delivering cfg.rabbitmqUserRoutingPrefix (w.db.followers body.authorId)
      (notification w body) (followersSockets works (w.db.followers body.authorId) instances)
      (announced order cfg w body instances) final :=
    exec_invariant (P := Delivering cfg.rabbitmqUserRoutingPrefix (w.db.followers body.authorId)
        (notification w body) (followersSockets works (w.db.followers body.authorId) instances)
        (announced order cfg w body instances))
      (fun _ _ _ _ h hstep => h.step hbegins hready hwatched hstep)
      (delivering_announced order cfg w body hbegins hordinary instances hready hothers hshallow
        hsendable) hrun
  refine ⟨fun inst hinst => ?_, hfinal.can_step, fun hdrained i inst hinst => ?_⟩
  · obtain ⟨i, hi⟩ := List.mem_iff_getElem?.mp hinst
    obtain ⟨first, -, htracks⟩ := hfinal.tracks i inst hi
    exact htracks.running
  obtain ⟨first, hfirst, htracks⟩ := hfinal.tracks i inst hinst
  refine ⟨first, hfirst, fun u ws hws => ⟨fun hfollows hworks => ?_, fun hnot => ?_⟩⟩
  · obtain ⟨hpending, hqueues⟩ := System.drained_iff.mp hdrained
    obtain ⟨hqueue, hidle⟩ := hqueues inst (List.mem_of_getElem? hinst)
    have hfollower := Feed.Database.mem_followers.mpr hfollows
    have honce := htracks.once u hfollower ws hws
      ((followersSockets_iff hfirst).mpr ⟨hworks, u, hfollower, hws⟩)
    rw [hpending, hidle] at honce
    simpa [pendingFor, Instance.queuedFor, Phase.toSend, hqueue] using honce
  · unfold Instance.timesReceived
    rw [List.countP_eq_zero]
    intro r hr hmatch
    obtain ⟨hsocket, hnew⟩ := Bool.and_eq_true_iff.mp hmatch
    obtain ⟨v, hv, hmem⟩ := htracks.received r hr hnew
    rw [of_decide_eq_true hsocket] at hmem
    obtain rfl := (hready first (List.mem_of_getElem? hfirst)).owner u v ws hws hmem
    exact hnot (Feed.Database.mem_followers.mp hv)

/-! ## Two instances -/

/-- An instance with one socket. -/
def oneSocket (u : Uuid) (ws : WebSocket) (queue : List Message) : Instance where
  conns := ((∅ : Conns).connect u ws).2
  bindings := {userRoutingKey "feed.user" u}
  queue := queue
  phase := .idle
  ended := false
  received := []

theorem oneSocket_ready (u : Uuid) (ws : WebSocket) (queue : List Message) :
    (oneSocket u ws queue).Ready "feed.user" := by
  have hmem : ∀ v ws', ws' ∈ (oneSocket u ws queue).conns.sockets v ↔ v = u ∧ ws' = ws := by
    intro v ws'
    show ws' ∈ ((∅ : Conns).connect u ws).2.sockets v ↔ _
    rw [Conns.mem_sockets_connect]
    simp [Conns.sockets]
  refine ⟨fun key => ?_, fun v v' ws' hv hv' => ?_, rfl, rfl, rfl⟩
  · show key ∈ ({userRoutingKey "feed.user" u} : Finset String) ↔ _
    rw [Finset.mem_singleton]
    constructor
    · rintro rfl
      exact ⟨u, rfl, Finset.ne_empty_of_mem ((hmem u ws).mpr ⟨rfl, rfl⟩)⟩
    · rintro ⟨v, rfl, hne⟩
      obtain ⟨ws', hws'⟩ := Finset.nonempty_iff_ne_empty.mpr hne
      rw [((hmem v ws').mp hws').1]
  · rw [((hmem v ws').mp hv).1, ((hmem v' ws').mp hv').1]

/-- The world in which user 2, whom user 1 follows, has the post. -/
def postWorld : World :=
  (World.ofUsers [.ofNat 1, .ofNat 2]).afterAll Feed.someOrder {} Feed.threePosts

def newPost : PostEvent := ⟨"created", .ofNat 14, .ofNat 2, some "d", Feed.noonOf 4 fourth_day⟩

/-- Socket 7 is the follower's, on the first instance; the author has socket 9 on the other. -/
def twoInstances (queue queue' : List Message) : List Instance :=
  [oneSocket (.ofNat 1) 7 queue, oneSocket (.ofNat 2) 9 queue']

theorem twoInstances_ready {queue queue' : List Message} :
    ∀ inst ∈ twoInstances queue queue', inst.Ready "feed.user" := by
  intro inst hinst
  simp only [twoInstances, List.mem_cons, List.not_mem_nil, or_false] at hinst
  obtain rfl | rfl := hinst <;> exact oneSocket_ready _ _ _

/-- User 2, whom user 1 follows, has created the post. -/
def announcedPost (queue queue' : List Message) : System :=
  announced Feed.someOrder {} postWorld newPost (twoInstances queue queue')

/-- For the author, who follows nobody: a document with a lone surrogate. -/
def surrogateMessage : List Message :=
  [⟨userRoutingKey "feed.user" (.ofNat 2), .json (.other "\"\\ud800\"" false)⟩]

/-- Bytes that are no JSON, a document under a key with too few parts, one under a key that names no
user, and another one for the follower. -/
def otherMessages : List Message :=
  [⟨"feed.user", .malformed [0]⟩, ⟨"feed", .json (.other "[]" true)⟩,
    ⟨"feed.user.nobody", .json (.other "[]" true)⟩,
    ⟨userRoutingKey "feed.user" (.ofNat 1), .json (.other "1" true)⟩]

theorem otherMessages_others {inst : Instance}
    (hinst : inst ∈ twoInstances otherMessages surrogateMessage) :
    ∀ m ∈ inst.queue, ¬ m.about newPost.postId ∧ m.body.shallow = true := by
  intro m hm
  simp only [twoInstances, List.mem_cons, List.not_mem_nil, or_false] at hinst
  obtain rfl | rfl := hinst
  · simp only [oneSocket, otherMessages, List.mem_cons, List.not_mem_nil, or_false] at hm
    obtain rfl | rfl | rfl | rfl := hm <;>
      exact ⟨fun ⟨_, hbody, _⟩ => (by cases hbody), rfl⟩
  · obtain rfl := List.mem_singleton.mp hm
    exact ⟨fun ⟨_, hbody, _⟩ => (by cases hbody), rfl⟩

/-- What cannot be written is not for the follower. -/
theorem otherMessages_sendable {inst : Instance}
    (hinst : inst ∈ twoInstances otherMessages surrogateMessage) {m : Message} (hm : m ∈ inst.queue)
    {u : Uuid} (hu : m.unsendableTo u) : u = .ofNat 2 := by
  obtain ⟨document, htarget, hwritable⟩ := hu
  simp only [twoInstances, List.mem_cons, List.not_mem_nil, or_false] at hinst
  obtain rfl | rfl := hinst
  · simp only [oneSocket, otherMessages, List.mem_cons, List.not_mem_nil, or_false] at hm
    obtain rfl | rfl | rfl | rfl := hm
    · cases htarget
    all_goals
      obtain ⟨-, rfl⟩ := target_json htarget
      cases hwritable
  · obtain rfl := List.mem_singleton.mp hm
    obtain ⟨hkey, -⟩ := target_json htarget
    rw [consumedFor_key (by decide)] at hkey
    exact (Option.some.inj hkey).symm

/-- The publication comes while the loop is busy with the other messages; then both pushes run to their
end, while the author loses the socket. -/
def drainedRun : List Action :=
  [.take 0 [], .take 0 [], .take 1 [9], .publish 0, .take 0 [], .resume 1 true, .take 0 [7],
    .resume 0 true, .resume 1 true, .resume 0 true, .resume 1 true, .resume 0 true, .resume 1 true,
    .take 0 [7], .resume 0 true, .resume 1 true, .resume 0 true, .resume 0 true]

theorem drainedRun_runs : (exec (System.step "feed.user" fun _ _ => true) drainedRun
    (announcedPost otherMessages surrogateMessage)).isSome = true := by
  decide +kernel

theorem drainedRun_instance : (((exec (System.step "feed.user" fun _ _ => true) drainedRun
    (announcedPost otherMessages surrogateMessage)).get drainedRun_runs).instances[0]?).isSome
      = true := by
  decide +kernel

theorem followers_notified_once_otherMessages :
    ((((exec (System.step "feed.user" fun _ _ => true) drainedRun
      (announcedPost otherMessages surrogateMessage)).get drainedRun_runs).instances[0]?).get
        drainedRun_instance).timesReceived 7 (notification postWorld newPost) = 1 := by
  obtain ⟨-, -, hsockets⟩ := followers_notified_once Feed.someOrder {} postWorld newPost
    (by decide) (by decide +kernel) (twoInstances otherMessages surrogateMessage) twoInstances_ready
    (fun _ hinst m hm => (otherMessages_others hinst m hm).1) (fun _ _ => true)
    (fun _ hinst m hm => (otherMessages_others hinst m hm).2)
    (fun i inst hi m hm u hfollows hu => by
      rw [otherMessages_sendable (List.mem_of_getElem? hi) hm hu] at hfollows
      exact absurd hfollows (by decide +kernel))
    drainedRun _ (Option.some_get drainedRun_runs).symm
  obtain ⟨first, hfirst, hreceived⟩ := hsockets (by decide +kernel) 0 _
    (Option.some_get drainedRun_instance).symm
  obtain rfl := Option.some.inj hfirst
  exact (hreceived (.ofNat 1) 7 (by decide +kernel)).1 (by decide +kernel) rfl

/-! ## Too deep a body -/

/-- A system goes no further when nothing is pending and every consumer is between two messages, with an
empty queue or a loop that has ended. -/
theorem System.step_eq_none {s : System} (hpending : s.pending = [])
    (hinstances : ∀ inst ∈ s.instances,
      inst.phase.isIdle = true ∧ (inst.ended = true ∨ inst.queue.isEmpty = true)) (a : Action) :
    System.step routingPrefix works a s = none := by
  cases a with
  | publish k => simp only [System.step, hpending, List.getElem?_nil, Option.map_none]
  | take i sockets =>
      cases hi : s.instances[i]? with
      | none => simp only [System.step, hi, Option.bind_none]
      | some inst =>
          obtain ⟨-, hend⟩ := hinstances inst (List.mem_of_getElem? hi)
          have htake : inst.take sockets = none := by
            unfold Instance.take
            split
            case h_2 => rfl
            case h_1 m queue hended hidle hqueue =>
              rw [hended, hqueue] at hend
              simp at hend
          simp only [System.step, hi, Option.bind_some, htake, Option.map_none]
  | resume i ok =>
      cases hi : s.instances[i]? with
      | none => simp only [System.step, hi, Option.bind_none]
      | some inst =>
          have hidle := Phase.isIdle_iff.mp (hinstances inst (List.mem_of_getElem? hi)).1
          simp only [System.step, hi, Option.bind_some, Instance.resume, hidle, Option.map_none]

/-- A thousand opening brackets. -/
def deepMessages : List Message := [⟨"feed.user", .tooDeep (List.replicate 1000 0x5b)⟩]

theorem deepMessages_others {queue queue' : List Message} (hqueue : queue ⊆ deepMessages)
    (hqueue' : queue' ⊆ deepMessages) {inst : Instance} (hinst : inst ∈ twoInstances queue queue') :
    ∀ m ∈ inst.queue, ¬ m.about newPost.postId := by
  rintro m hm ⟨n, hbody, -⟩
  have hdeep : m ∈ deepMessages := by
    simp only [twoInstances, List.mem_cons, List.not_mem_nil, or_false] at hinst
    obtain rfl | rfl := hinst
    · exact hqueue hm
    · exact hqueue' hm
  rw [List.mem_singleton.mp hdeep] at hbody
  cases hbody

/-- The system is drained, and a loop has ended. -/
def endedDrained (s : System) : Bool :=
  s.Drained && s.instances.any Instance.ended

/-- Nothing is left to happen, and the first instance has not sent the notification to the socket. -/
def lostFor (ws : WebSocket) (n : PostNew) (s : System) : Bool :=
  s.pending.isEmpty &&
    s.instances.all (fun inst => inst.phase.isIdle && (inst.ended || inst.queue.isEmpty)) &&
    (s.instances[0]?).all fun inst => inst.timesReceived ws n = 0

/-- The notification is delivered, and the loop of the author's instance ends. -/
def endedRun : List Action :=
  [.take 1 [], .publish 0, .take 0 [7], .resume 0 true, .resume 0 true, .resume 0 true]

/-- **Too deep a body ends the loop**: on the author's instance the queues are drained and the loop has
ended, on the follower's the notification behind it is never consumed. -/
theorem tooDeep_ends_loop :
    postWorld.db.Follows (.ofNat 1) newPost.authorId ∧
    ((∀ inst ∈ twoInstances [] deepMessages,
        inst.Ready "feed.user" ∧ ∀ m ∈ inst.queue, ¬ m.about newPost.postId) ∧
      ∃ acts final, exec (System.step "feed.user" fun _ _ => true) acts
        (announcedPost [] deepMessages) = some final ∧
        final.Drained ∧ ∃ inst ∈ final.instances, inst.ended = true) ∧
    ((∀ inst ∈ twoInstances deepMessages [],
        inst.Ready "feed.user" ∧ ∀ m ∈ inst.queue, ¬ m.about newPost.postId) ∧
      ∃ acts final, exec (System.step "feed.user" fun _ _ => true) acts
        (announcedPost deepMessages []) = some final ∧
        (∀ a, System.step "feed.user" (fun _ _ => true) a final = none) ∧
        ∀ inst, final.instances[0]? = some inst →
          inst.timesReceived 7 (notification postWorld newPost) = 0) := by
  refine ⟨by decide +kernel, ⟨fun inst hinst => ⟨twoInstances_ready inst hinst,
      deepMessages_others (List.nil_subset _) (List.Subset.refl _) hinst⟩, ?_⟩,
    fun inst hinst => ⟨twoInstances_ready inst hinst,
      deepMessages_others (List.Subset.refl _) (List.nil_subset _) hinst⟩, ?_⟩
  · have hruns : (exec (System.step "feed.user" fun _ _ => true) endedRun
        (announcedPost [] deepMessages)).any endedDrained = true := by
      decide +kernel
    obtain ⟨final, hfinal, hended⟩ := (Option.any_eq_true _ _).mp hruns
    obtain ⟨hdrained, hany⟩ := Bool.and_eq_true_iff.mp hended
    exact ⟨endedRun, final, hfinal, of_decide_eq_true hdrained, List.any_eq_true.mp hany⟩
  · have hruns : (exec (System.step "feed.user" fun _ _ => true) [.take 0 [], .publish 0]
        (announcedPost deepMessages [])).any (lostFor 7 (notification postWorld newPost)) = true := by
      decide +kernel
    obtain ⟨final, hfinal, hlost⟩ := (Option.any_eq_true _ _).mp hruns
    simp only [lostFor, Bool.and_eq_true, List.all_eq_true, Bool.or_eq_true] at hlost
    obtain ⟨⟨hpending, hall⟩, hzero⟩ := hlost
    refine ⟨_, final, hfinal,
      System.step_eq_none (List.isEmpty_iff.mp hpending) hall, fun inst hinst => ?_⟩
    rw [hinst] at hzero
    exact of_decide_eq_true hzero

end HighLoad.Ws.Delivery
