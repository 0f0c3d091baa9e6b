/-
# HighLoad.Ws.Sessions — the handlers behind the registry (`app/routes/ws_feed.py`)

`feed_ws` runs once for each socket: it authenticates, accepts, registers, receives until the peer
leaves, falls silent or an await raises, and unregisters in its `finally` block. Any number of handlers
run at once, beside the pushes of the bridge, and any await may be cancelled. `Point` names the await a
handler is at.

The registry never outgrows the handlers: a registered socket belongs to a handler that authenticated
as the user and has yet to unregister, or that a cancellation cut off outside the `try` block
(`registry_of_handlers`). When every handler has ended otherwise, nothing is left in it, and each
`is_first` had its `is_last` (`handlers_clean_up`).
-/
import HighLoad.Users.Auth
import HighLoad.Ws.ConnectionManager

namespace HighLoad.Ws

open HighLoad.Users

/-! ## The handler -/

/-- `WS_CLOSE_IDLE` and `WS_CLOSE_INTERNAL`. -/
def wsCloseIdle : Nat := 4408

def wsCloseInternal : Nat := 1011

/-- How an await ends: it returns, `wait_for` times out, or it raises `WebSocketDisconnect`, another
exception or `CancelledError`. -/
inductive Outcome where
  | ok
  | timeout
  | disconnect
  | error
  | cancelled
  deriving DecidableEq

/-- The await a handler of `feed_ws` is at. The first three are the branch of an invalid token;
`binding` and `unbinding` await the callback with this number; `abandoned` is a handler that was cut off
before `manager.disconnect` could run. -/
inductive Point where
  | acceptUnauthorized
  | sendUnauthorized
  | closeUnauthorized
  | accept (userId : Uuid)
  | connecting (userId : Uuid)
  | binding (userId : Uuid) (seq : Nat)
  | receive (userId : Uuid)
  | closing (userId : Uuid) (code : Nat)
  | heartbeat (userId : Uuid)
  | disconnecting (userId : Uuid)
  | unbinding (userId : Uuid) (seq : Nat)
  | ended
  | abandoned (userId : Uuid)
  deriving DecidableEq

namespace Point

/-- The point after an await that does not concern the registry; `none` when it cannot end so. -/
def next : Point → Outcome → Option Point
  | _, .timeout => none
  | .acceptUnauthorized, .ok => some .sendUnauthorized
  | .acceptUnauthorized, _ => some .ended
  | .sendUnauthorized, .ok => some .closeUnauthorized
  | .sendUnauthorized, _ => some .ended
  | .closeUnauthorized, _ => some .ended
  | .accept u, .ok => some (.connecting u)
  | .accept _, _ => some .ended
  | .receive u, .ok => some (.receive u)
  -- `except WebSocketDisconnect`, and a cancellation, which no `except` catches
  | .receive u, .disconnect => some (.heartbeat u)
  | .receive u, .cancelled => some (.heartbeat u)
  | .receive u, .error => some (.closing u wsCloseInternal)
  -- only the close of an idle socket is inside the `try` block
  | .closing u code, .error =>
      if code = wsCloseIdle then some (.closing u wsCloseInternal) else some (.heartbeat u)
  | .closing u _, _ => some (.heartbeat u)
  -- `suppress(asyncio.CancelledError, Exception)`
  | .heartbeat u, _ => some (.disconnecting u)
  | _, _ => none

/-- `asyncio.wait_for` gives up on a silent client. -/
def nextIdle : Point → Option Point
  | .receive u => some (.closing u wsCloseIdle)
  | _ => none

/-- The user that a handler acts for. -/
def user : Point → Option Uuid
  | .accept u | .connecting u | .binding u _ | .receive u | .closing u _ | .heartbeat u
  | .disconnecting u | .unbinding u _ | .abandoned u => some u
  | _ => none

/-- The handler has registered its socket and not unregistered it. -/
def Registered (u : Uuid) : Point → Prop
  | .binding v _ | .receive v | .closing v _ | .heartbeat v | .disconnecting v | .abandoned v => v = u
  | _ => False

variable {p q : Point} {o : Outcome} {u : Uuid}

theorem Registered.user_eq (h : p.Registered u) : p.user = some u := by
  cases p <;> first | exact congrArg some h | exact absurd h id

/-- An await that does not concern the registry leaves the handler registered or not, as it was, and
acting for the same user or ended. -/
theorem next_spec (h : p.next o = some q) :
    (∀ u, q.Registered u ↔ p.Registered u) ∧ ∀ u, q.user = some u → p.user = some u := by
  cases p <;> cases o <;>
    first
    | (obtain rfl := Option.some.inj h; simp [Registered, user])
    | (simp only [next] at h; split_ifs at h <;> obtain rfl := Option.some.inj h <;>
        simp [Registered, user])
    | cases h

theorem nextIdle_spec (h : p.nextIdle = some q) :
    (∀ u, q.Registered u ↔ p.Registered u) ∧ ∀ u, q.user = some u → p.user = some u := by
  cases p <;> first | (obtain rfl := Option.some.inj h; simp [Registered, user]) | cases h

end Point

/-! ## All handlers of an instance -/

/-- The manager, where the handler of each socket is, and the token and the time its socket was opened
with. -/
structure Sessions (Token : Type) where
  manager : System
  point : WebSocket → Option Point
  opened : WebSocket → Option (Token × Nat)

/-- What happens next: a socket is opened, the await of a handler ends, the bridge pushes, or a callback
or a push of the manager takes a step. -/
inductive SessionAction (Token : Type) where
  | opens (ws : WebSocket) (token : Token) (now : Nat)
  | resume (ws : WebSocket) (outcome : Outcome)
  | push (userId : Uuid) (sockets : List WebSocket)
  | task (i : Nat) (sent : Bool)

namespace Sessions

variable {Token : Type}

def start : Sessions Token := ⟨System.start, fun _ => none, fun _ => none⟩

/-- The callback with this number has not returned. -/
def Runs (s : System) (u : Uuid) (seq : Nat) : Prop :=
  ∃ task ∈ s.tasks, match task with
    | .callback cb _ => cb.userId = u ∧ cb.seq = seq
    | _ => False

instance (s : System) (u : Uuid) (seq : Nat) : Decidable (Runs s u seq) :=
  have : DecidablePred fun task : Task => match task with
      | .callback cb _ => cb.userId = u ∧ cb.seq = seq
      | _ => False := fun task =>
    match task with
    | .callback _ _ => inferInstanceAs (Decidable (_ ∧ _))
    | .sending .. => isFalse id
    | .dropping .. => isFalse id
  inferInstanceAs (Decidable (∃ task ∈ s.tasks, _))

/-- The first await of `feed_ws`. -/
def firstPoint (jwt : Jwt Token) (token : Token) (now : Nat) : Point :=
  match authenticateWs jwt now token with
  | none => .acceptUnauthorized
  | some userId => .accept userId

/-- A handler goes to another point. -/
def goto (s : Sessions Token) (ws : WebSocket) (p : Point) : Sessions Token :=
  { s with point := Function.update s.point ws (some p) }

/-- The await of a handler ends. -/
def resume (s : Sessions Token) (ws : WebSocket) (o : Outcome) : Point → Option (Sessions Token)
  -- `manager.connect`: the lock, then the callback
  | .connecting u =>
      if o = .ok then
        (System.step (.connect u ws) s.manager).map fun m =>
          { s.goto ws (if (s.manager.conns.connect u ws).1
              then .binding u (s.manager.decisionsOf u).length else .receive u) with manager := m }
      else if o = .cancelled then some (s.goto ws .ended)
      else none
  | .binding u seq =>
      if o = .ok ∧ ¬ Runs s.manager u seq then some (s.goto ws (.receive u))
      else if o = .cancelled then some (s.goto ws (.abandoned u))
      else none
  -- `manager.disconnect`: the lock, then the callback
  | .disconnecting u =>
      if o = .ok then
        (System.step (.disconnect u ws) s.manager).map fun m =>
          { s.goto ws (if (s.manager.conns.disconnect u ws).1
              then .unbinding u (s.manager.decisionsOf u).length else .ended) with manager := m }
      else if o = .cancelled then some (s.goto ws (.abandoned u))
      else none
  | .unbinding u seq =>
      if (o = .ok ∧ ¬ Runs s.manager u seq) ∨ o = .cancelled then some (s.goto ws .ended) else none
  | p => (if o = .timeout then p.nextIdle else p.next o).map (s.goto ws)

/-- One step of the instance. -/
def step (jwt : Jwt Token) : SessionAction Token → Sessions Token → Option (Sessions Token)
  | .opens ws token now, s =>
      if s.point ws = none then
        some { s.goto ws (firstPoint jwt token now) with
          opened := Function.update s.opened ws (some (token, now)) }
      else none
  | .resume ws o, s => (s.point ws).bind (s.resume ws o)
  | .push u sockets, s => (System.step (.push u sockets) s.manager).map fun m => { s with manager := m }
  | .task i sent, s => (System.step (.resume i sent) s.manager).map fun m => { s with manager := m }

/-! ## What the steps of the manager do -/

section

variable {m m' : System} {u : Uuid} {ws : WebSocket}

/-- A push takes its snapshot and leaves the registry alone. -/
theorem push_registry {sockets : List WebSocket} (h : System.step (.push u sockets) m = some m') :
    m.SameRegistry m' := by
  simp only [System.step] at h
  by_cases hsnap : sockets.Nodup ∧ sockets.toFinset = m.conns.sockets u
  · rw [if_pos hsnap] at h
    obtain rfl := Option.some.inj h
    exact ⟨rfl, rfl, rfl⟩
  · rw [if_neg hsnap] at h
    cases h

/-- A task of the manager removes one socket at most. -/
theorem resume_registry {i : Nat} {sent : Bool} (h : System.step (.resume i sent) m = some m') :
    m.SameRegistry m' ∨ ∃ u ws, (m.unregistered u ws).SameRegistry m' := by
  simp only [System.step] at h
  cases htask : m.tasks[i]? with
  | none =>
      rw [htask] at h
      cases h
  | some task =>
      rw [htask] at h
      obtain rfl := Option.some.inj h
      cases task with
      | callback cb broken =>
          left
          by_cases hcb : cb.applied
          · simp only [System.advance, if_pos hcb]
            exact ⟨rfl, rfl, rfl⟩
          · simp only [System.advance, if_neg hcb]
            exact ⟨rfl, rfl, rfl⟩
      | sending u rest broken => cases rest <;> exact Or.inl ⟨rfl, rfl, rfl⟩
      | dropping u broken =>
          cases broken with
          | nil => exact Or.inl ⟨rfl, rfl, rfl⟩
          | cons ws broken => exact Or.inr ⟨u, ws, rfl, rfl, rfl⟩

/-- The sends that a task has left after its next step, it had left before. -/
theorem advance_sending {sent : Bool} {task : Task} {rest broken : List WebSocket}
    (h : (m.advance sent task).1 = some (.sending u rest broken)) (hws : ws ∈ rest) :
    ∃ rest' broken', task = .sending u rest' broken' ∧ ws ∈ rest' := by
  cases task with
  | callback cb broken' =>
      simp only [System.advance] at h
      split_ifs at h <;> cases h
  | sending v rest' broken' =>
      cases rest' with
      | nil => cases h
      | cons x rest' =>
          obtain ⟨rfl, rfl, -⟩ := Task.sending.inj (Option.some.inj h)
          exact ⟨x :: rest', broken', rfl, List.mem_cons_of_mem x hws⟩
  | dropping v broken' =>
      cases broken' with
      | nil => cases h
      | cons x broken' =>
          simp only [System.advance, System.disconnectWith] at h
          split_ifs at h <;> cases h

/-- **A push sends to registered sockets only**: what any push has left to send to was left before the
step, or is registered for its user. -/
theorem sending_of_step {a : System.Action} (h : System.step a m = some m')
    {rest broken : List WebSocket} (htask : .sending u rest broken ∈ m'.tasks) (hws : ws ∈ rest) :
    (∃ rest' broken', .sending u rest' broken' ∈ m.tasks ∧ ws ∈ rest') ∨
      ws ∈ m.conns.sockets u := by
  cases a with
  | connect v x =>
      obtain rfl := Option.some.inj h
      rcases List.mem_append.mp htask with hold | hnew
      · exact Or.inl ⟨rest, broken, hold, hws⟩
      · split_ifs at hnew with hfirst
        · cases List.mem_singleton.mp hnew
        · cases hnew
  | disconnect v x =>
      obtain rfl := Option.some.inj h
      rcases List.mem_append.mp htask with hold | hnew
      · exact Or.inl ⟨rest, broken, hold, hws⟩
      · simp only [System.disconnectWith] at hnew
        split_ifs at hnew with hlast
        · cases List.mem_singleton.mp hnew
        · cases hnew
  | push v sockets =>
      simp only [System.step] at h
      by_cases hsnap : sockets.Nodup ∧ sockets.toFinset = m.conns.sockets v
      swap
      · rw [if_neg hsnap] at h
        cases h
      rw [if_pos hsnap] at h
      obtain rfl := Option.some.inj h
      rcases List.mem_append.mp htask with hold | hnew
      · exact Or.inl ⟨rest, broken, hold, hws⟩
      · split_ifs at hnew with hempty
        · cases hnew
        · obtain ⟨rfl, rfl, -⟩ := Task.sending.inj (List.mem_singleton.mp hnew)
          rw [← hsnap.2]
          exact Or.inr (List.mem_toFinset.mpr hws)
  | resume i sent =>
      simp only [System.step] at h
      cases hi : m.tasks[i]? with
      | none =>
          rw [hi] at h
          cases h
      | some task =>
          rw [hi] at h
          obtain rfl := Option.some.inj h
          left
          rcases List.mem_append.mp htask with hrest | hafter
          · rcases List.mem_append.mp hrest with hbefore | hnow
            · exact ⟨rest, broken, List.mem_of_mem_take hbefore, hws⟩
            · obtain ⟨rest', broken', rfl, hws'⟩ :=
                advance_sending (Option.mem_toList.mp hnow) hws
              exact ⟨rest', broken', List.mem_of_getElem? hi, hws'⟩
          · exact ⟨rest, broken, List.mem_of_mem_drop hafter, hws⟩

end

/-! ## The invariant -/

variable {jwt : Jwt Token}

/-- The socket was opened with a token of this user. -/
def Authentic (jwt : Jwt Token) (s : Sessions Token) (ws : WebSocket) (u : Uuid) : Prop :=
  ∃ token now, s.opened ws = some (token, now) ∧ authenticateWs jwt now token = some u

/-- The invariant: registered sockets have handlers that have yet to unregister them, and handlers and
pushes act for the users their sockets were opened by. -/
structure Held (jwt : Jwt Token) (s : Sessions Token) : Prop where
  consistent : s.manager.Consistent
  known : ∀ ws, s.point ws = none → s.opened ws = none
  authentic : ∀ ws p u, s.point ws = some p → p.user = some u → s.Authentic jwt ws u
  registry : ∀ u ws, ws ∈ s.manager.conns.sockets u → ∃ p, s.point ws = some p ∧ p.Registered u
  joined : ∀ u ws p, s.point ws = some p → p.Registered u → ⟨(u, ws), true⟩ ∈ s.manager.steps
  pushed : ∀ u rest broken, .sending u rest broken ∈ s.manager.tasks → ∀ ws ∈ rest,
    s.Authentic jwt ws u

theorem held_start (jwt : Jwt Token) : Held jwt start where
  consistent := System.consistent_start
  known _ _ := rfl
  authentic ws p u h _ := by cases h
  registry u ws h := by simp [start, System.start, Conns.sockets] at h
  joined u ws p h _ := by cases h
  pushed u rest broken h := by cases h

variable {s s' : Sessions Token}

/-- The manager takes a step of its own: nothing, or the removal of one socket. -/
theorem Held.manager (h : Held jwt s) {a : System.Action} {m : System}
    (hstep : System.step a s.manager = some m)
    (hregistry : s.manager.SameRegistry m ∨ ∃ u ws, (s.manager.unregistered u ws).SameRegistry m) :
    Held jwt { s with manager := m } := by
  have hsub : ∀ v x, x ∈ m.conns.sockets v → x ∈ s.manager.conns.sockets v := by
    intro v x hx
    rcases hregistry with hsame | ⟨u, ws, hsame⟩
    · rwa [hsame.conns] at hx
    · rw [hsame.conns] at hx
      exact (Conns.mem_sockets_disconnect.mp hx).2
  have hsteps : ∀ e ∈ s.manager.steps, e ∈ m.steps := by
    intro e he
    rcases hregistry with hsame | ⟨u, ws, hsame⟩
    · rwa [hsame.steps]
    · rw [hsame.steps]
      exact List.mem_cons_of_mem _ he
  refine ⟨?_, h.known, h.authentic, fun v x hx => h.registry v x (hsub v x hx),
    fun v x p hp hreg => hsteps _ (h.joined v x p hp hreg), ?_⟩
  · rcases hregistry with hsame | ⟨u, ws, hsame⟩
    · exact h.consistent.of_same hsame
    · exact (h.consistent.unregistered u ws).of_same hsame
  · intro v rest broken htask x hx
    rcases sending_of_step hstep htask hx with ⟨rest', broken', hold, hx'⟩ | hreg
    · exact h.pushed v rest' broken' hold x hx'
    · obtain ⟨p, hp, hp'⟩ := h.registry v x hreg
      exact h.authentic x p v hp hp'.user_eq

/-- A handler goes to another point, as registered as before. -/
theorem Held.goto (h : Held jwt s) {ws : WebSocket} {p q : Point} (hp : s.point ws = some p)
    (hregistered : ∀ u, q.Registered u ↔ p.Registered u) (huser : ∀ u, q.user = some u → p.user = some u) :
    Held jwt (s.goto ws q) where
  consistent := h.consistent
  known x hx := by
    simp only [Sessions.goto, Function.update_apply] at hx
    split_ifs at hx
    exact h.known x hx
  authentic x r u hr hu := by
    simp only [Sessions.goto, Function.update_apply] at hr
    split_ifs at hr with heq
    · obtain rfl := Option.some.inj hr
      rw [heq]
      exact h.authentic ws p u hp (huser u hu)
    · exact h.authentic x r u hr hu
  registry u x hx := by
    obtain ⟨r, hr, hreg⟩ := h.registry u x hx
    by_cases heq : x = ws
    · subst heq
      obtain rfl := Option.some.inj (hp.symm.trans hr)
      exact ⟨q, Function.update_self .., (hregistered u).mpr hreg⟩
    · exact ⟨r, (Function.update_of_ne heq ..).trans hr, hreg⟩
  joined u x r hr hreg := by
    simp only [Sessions.goto, Function.update_apply] at hr
    split_ifs at hr with heq
    · obtain rfl := Option.some.inj hr
      rw [heq]
      exact h.joined u ws p hp ((hregistered u).mp hreg)
    · exact h.joined u x r hr hreg
  pushed := h.pushed

/-- The locked section of `manager.connect`. -/
theorem Held.connect (h : Held jwt s) {ws : WebSocket} {u : Uuid} (hp : s.point ws = some (.connecting u))
    {q : Point} (hq : q.user = some u) (hregistered : q.Registered u) {m : System}
    (hstep : System.step (.connect u ws) s.manager = some m) :
    Held jwt { s.goto ws q with manager := m } := by
  obtain rfl := Option.some.inj hstep
  have honly : ∀ v, q.Registered v → v = u := fun v hv =>
    Option.some.inj (hv.user_eq.symm.trans hq)
  refine ⟨?_, ?_, ?_, ?_, ?_, ?_⟩
  · exact (h.consistent.registered u ws).of_same ⟨rfl, rfl, rfl⟩
  · intro x hx
    simp only [Sessions.goto, Function.update_apply] at hx
    split_ifs at hx
    exact h.known x hx
  · intro x r v hr hv
    simp only [Sessions.goto, Function.update_apply] at hr
    split_ifs at hr with heq
    · obtain rfl := Option.some.inj hr
      obtain rfl := Option.some.inj (hv.symm.trans hq)
      rw [heq]
      exact h.authentic ws _ v hp rfl
    · exact h.authentic x r v hr hv
  · intro v x hx
    rcases Conns.mem_sockets_connect.mp hx with ⟨rfl, rfl⟩ | hold
    · exact ⟨q, Function.update_self .., hregistered⟩
    · obtain ⟨r, hr, hreg⟩ := h.registry v x hold
      have hne : x ≠ ws := by
        rintro rfl
        obtain rfl := Option.some.inj (hp.symm.trans hr)
        exact hreg
      exact ⟨r, (Function.update_of_ne hne ..).trans hr, hreg⟩
  · intro v x r hr hreg
    simp only [Sessions.goto, Function.update_apply] at hr
    split_ifs at hr with heq
    · obtain rfl := Option.some.inj hr
      rw [heq, honly v hreg]
      exact List.mem_cons_self
    · exact List.mem_cons_of_mem _ (h.joined v x r hr hreg)
  · intro v rest broken htask x hx
    rcases sending_of_step hstep htask hx with ⟨rest', broken', hold, hx'⟩ | hreg
    · exact h.pushed v rest' broken' hold x hx'
    · obtain ⟨r, hr, hr'⟩ := h.registry v x hreg
      exact h.authentic x r v hr hr'.user_eq

/-- The locked section of `manager.disconnect`. -/
theorem Held.disconnect (h : Held jwt s) {ws : WebSocket} {u : Uuid}
    (hp : s.point ws = some (.disconnecting u)) {q : Point} (hq : ∀ v, q.user = some v → v = u)
    (hregistered : ∀ v, ¬ q.Registered v) {m : System}
    (hstep : System.step (.disconnect u ws) s.manager = some m) :
    Held jwt { s.goto ws q with manager := m } := by
  obtain rfl := Option.some.inj hstep
  refine ⟨?_, ?_, ?_, ?_, ?_, ?_⟩
  · exact (h.consistent.unregistered u ws).of_same ⟨rfl, rfl, rfl⟩
  · intro x hx
    simp only [Sessions.goto, Function.update_apply] at hx
    split_ifs at hx
    exact h.known x hx
  · intro x r v hr hv
    simp only [Sessions.goto, Function.update_apply] at hr
    split_ifs at hr with heq
    · obtain rfl := Option.some.inj hr
      rw [heq, hq v hv]
      exact h.authentic ws _ u hp rfl
    · exact h.authentic x r v hr hv
  · intro v x hx
    obtain ⟨hne, hold⟩ := Conns.mem_sockets_disconnect.mp hx
    obtain ⟨r, hr, hreg⟩ := h.registry v x hold
    have hother : x ≠ ws := by
      rintro rfl
      obtain rfl := Option.some.inj (hp.symm.trans hr)
      exact hne ⟨hreg.symm, rfl⟩
    exact ⟨r, (Function.update_of_ne hother ..).trans hr, hreg⟩
  · intro v x r hr hreg
    simp only [Sessions.goto, Function.update_apply] at hr
    split_ifs at hr with heq
    · obtain rfl := Option.some.inj hr
      exact absurd hreg (hregistered v)
    · exact List.mem_cons_of_mem _ (h.joined v x r hr hreg)
  · intro v rest broken htask x hx
    rcases sending_of_step hstep htask hx with ⟨rest', broken', hold, hx'⟩ | hreg
    · exact h.pushed v rest' broken' hold x hx'
    · obtain ⟨r, hr, hr'⟩ := h.registry v x hreg
      exact h.authentic x r v hr hr'.user_eq

/-- A new socket. -/
theorem Held.opens (h : Held jwt s) {ws : WebSocket} (hfree : s.point ws = none) (token : Token)
    (now : Nat) : Held jwt { s.goto ws (firstPoint jwt token now) with
      opened := Function.update s.opened ws (some (token, now)) } := by
  have hfirst : ∀ u, (firstPoint jwt token now).user = some u → authenticateWs jwt now token = some u := by
    intro u hu
    unfold firstPoint at hu
    cases hauth : authenticateWs jwt now token with
    | none =>
        rw [hauth] at hu
        cases hu
    | some v =>
        rw [hauth] at hu
        exact hu
  have hkeeps : ∀ x u, s.Authentic jwt x u → Authentic jwt { s.goto ws (firstPoint jwt token now) with
      opened := Function.update s.opened ws (some (token, now)) } x u := by
    rintro x u ⟨token', now', hopened, hauth⟩
    refine ⟨token', now', ?_, hauth⟩
    refine (Function.update_of_ne ?_ ..).trans hopened
    rintro rfl
    rw [h.known x hfree] at hopened
    cases hopened
  refine ⟨h.consistent, ?_, ?_, ?_, ?_, fun u rest broken htask x hx =>
    hkeeps x u (h.pushed u rest broken htask x hx)⟩
  · intro x hx
    simp only [Sessions.goto, Function.update_apply] at hx ⊢
    split_ifs at hx ⊢
    exact h.known x hx
  · intro x p u hp hu
    simp only [Sessions.goto, Function.update_apply] at hp
    split_ifs at hp with heq
    · obtain rfl := Option.some.inj hp
      rw [heq]
      exact ⟨token, now, Function.update_self .., hfirst u hu⟩
    · exact hkeeps x u (h.authentic x p u hp hu)
  · intro u x hx
    obtain ⟨p, hp, hreg⟩ := h.registry u x hx
    have hne : x ≠ ws := by
      rintro rfl
      rw [hfree] at hp
      cases hp
    exact ⟨p, (Function.update_of_ne hne ..).trans hp, hreg⟩
  · intro u x p hp hreg
    simp only [Sessions.goto, Function.update_apply] at hp
    split_ifs at hp with heq
    · obtain rfl := Option.some.inj hp
      unfold firstPoint at hreg
      cases hauth : authenticateWs jwt now token <;> rw [hauth] at hreg <;> exact absurd hreg id
    · exact h.joined u x p hp hreg

/-- Whatever an await does, it is this handler that goes on. -/
theorem resume_goto {ws : WebSocket} {o : Outcome} {p : Point} (h : s.resume ws o p = some s') :
    ∃ q m, s' = { s.goto ws q with manager := m } := by
  cases p with
  | connecting u =>
      simp only [Sessions.resume] at h
      by_cases hok : o = .ok
      · rw [if_pos hok] at h
        obtain ⟨m, -, rfl⟩ := Option.map_eq_some_iff.mp h
        exact ⟨_, m, rfl⟩
      · rw [if_neg hok] at h
        split_ifs at h
        obtain rfl := Option.some.inj h
        exact ⟨_, s.manager, rfl⟩
  | disconnecting u =>
      simp only [Sessions.resume] at h
      by_cases hok : o = .ok
      · rw [if_pos hok] at h
        obtain ⟨m, -, rfl⟩ := Option.map_eq_some_iff.mp h
        exact ⟨_, m, rfl⟩
      · rw [if_neg hok] at h
        split_ifs at h
        obtain rfl := Option.some.inj h
        exact ⟨_, s.manager, rfl⟩
  | binding u seq | unbinding u seq =>
      simp only [Sessions.resume] at h
      split_ifs at h <;>
      · obtain rfl := Option.some.inj h
        exact ⟨_, s.manager, rfl⟩
  | acceptUnauthorized | sendUnauthorized | closeUnauthorized | accept u | receive u | closing u code
  | heartbeat u | ended | abandoned u =>
      obtain ⟨q, -, rfl⟩ := Option.map_eq_some_iff.mp h
      exact ⟨q, s.manager, rfl⟩

/-- **The step lemma**, for the awaits of the handlers. -/
theorem Held.resume (h : Held jwt s) {ws : WebSocket} {o : Outcome} {p : Point}
    (hp : s.point ws = some p) (hstep : s.resume ws o p = some s') : Held jwt s' := by
  -- the points whose awaits do not concern the registry
  have hplain : ∀ {r}, (if o = .timeout then p.nextIdle else p.next o) = some r →
      Held jwt (s.goto ws r) := by
    intro r hr
    split_ifs at hr
    · exact h.goto hp (Point.nextIdle_spec hr).1 (Point.nextIdle_spec hr).2
    · exact h.goto hp (Point.next_spec hr).1 (Point.next_spec hr).2
  cases p with
  | connecting u =>
      simp only [Sessions.resume] at hstep
      by_cases hok : o = .ok
      · rw [if_pos hok] at hstep
        obtain ⟨m, hm, rfl⟩ := Option.map_eq_some_iff.mp hstep
        refine h.connect hp ?_ ?_ hm <;> split_ifs <;> rfl
      · rw [if_neg hok] at hstep
        split_ifs at hstep
        obtain rfl := Option.some.inj hstep
        exact h.goto hp (fun _ => Iff.rfl) fun _ hu => by cases hu
  | binding u seq =>
      simp only [Sessions.resume] at hstep
      split_ifs at hstep
      · obtain rfl := Option.some.inj hstep
        exact h.goto hp (fun _ => Iff.rfl) fun _ hu => hu
      · obtain rfl := Option.some.inj hstep
        exact h.goto hp (fun _ => Iff.rfl) fun _ hu => hu
  | disconnecting u =>
      simp only [Sessions.resume] at hstep
      by_cases hok : o = .ok
      · rw [if_pos hok] at hstep
        obtain ⟨m, hm, rfl⟩ := Option.map_eq_some_iff.mp hstep
        refine h.disconnect hp ?_ ?_ hm
        · intro v hv
          split_ifs at hv
          · exact (Option.some.inj hv).symm
          · cases hv
        · intro v
          split_ifs <;> exact id
      · rw [if_neg hok] at hstep
        split_ifs at hstep
        obtain rfl := Option.some.inj hstep
        exact h.goto hp (fun _ => Iff.rfl) fun _ hu => hu
  | unbinding u seq =>
      simp only [Sessions.resume] at hstep
      split_ifs at hstep
      obtain rfl := Option.some.inj hstep
      exact h.goto hp (fun _ => Iff.rfl) fun _ hu => by cases hu
  | acceptUnauthorized | sendUnauthorized | closeUnauthorized | accept u | receive u | closing u code
  | heartbeat u | ended | abandoned u =>
      obtain ⟨r, hr, rfl⟩ := Option.map_eq_some_iff.mp hstep
      exact hplain hr

/-- **The step lemma.** -/
theorem Held.step (h : Held jwt s) {a : SessionAction Token} (hstep : step jwt a s = some s') :
    Held jwt s' := by
  cases a with
  | opens ws token now =>
      simp only [Sessions.step] at hstep
      split_ifs at hstep with hfree
      obtain rfl := Option.some.inj hstep
      exact h.opens hfree token now
  | resume ws o =>
      obtain ⟨p, hp, hresume⟩ := Option.bind_eq_some_iff.mp hstep
      exact h.resume hp hresume
  | push u sockets =>
      obtain ⟨m, hm, rfl⟩ := Option.map_eq_some_iff.mp hstep
      exact h.manager hm (Or.inl (push_registry hm))
  | task i sent =>
      obtain ⟨m, hm, rfl⟩ := Option.map_eq_some_iff.mp hstep
      exact h.manager hm (resume_registry hm)

/-- The run lemma. -/
theorem held_of_exec {acts : List (SessionAction Token)} (h : exec (step jwt) acts start = some s) :
    Held jwt s :=
  exec_invariant (fun _ _ _ _ ht hstep => ht.step hstep) (held_start jwt) h

/-- A socket that nobody opened has no handler. -/
theorem point_eq_none {acts : List (SessionAction Token)} (h : exec (step jwt) acts start = some s)
    {ws : WebSocket} (hws : ∀ token now, SessionAction.opens ws token now ∉ acts) : s.point ws = none := by
  refine exec_invariant (P := fun s => s.point ws = none) ?_ rfl h
  intro a ha t t' ht hstep
  have hgoto : ∀ {x p}, t.point x ≠ none → (t.goto x p).point ws = none := by
    intro x p hx
    refine (Function.update_of_ne ?_ ..).trans ht
    rintro rfl
    exact hx ht
  cases a with
  | opens x token now =>
      simp only [Sessions.step] at hstep
      split_ifs at hstep
      obtain rfl := Option.some.inj hstep
      refine (Function.update_of_ne ?_ ..).trans ht
      rintro rfl
      exact hws token now ha
  | resume x o =>
      obtain ⟨p, hp, hresume⟩ := Option.bind_eq_some_iff.mp hstep
      obtain ⟨q, m, rfl⟩ := resume_goto hresume
      exact hgoto (by rw [hp]; exact Option.some_ne_none p)
  | push u sockets =>
      obtain ⟨m, -, rfl⟩ := Option.map_eq_some_iff.mp hstep
      exact ht
  | task i sent =>
      obtain ⟨m, -, rfl⟩ := Option.map_eq_some_iff.mp hstep
      exact ht

/-! ## The main results -/

variable {acts : List (SessionAction Token)}

/-- **The registry is the handlers'**: a registered socket was opened with a token of its user and has a
handler between `manager.connect` and the locked section of `manager.disconnect`, or one that was
cancelled there; such a handler's socket is registered unless a push found it broken and removed it; and
what is pushed to a user goes to sockets that were opened with a token of that user. -/
theorem registry_of_handlers (h : exec (step jwt) acts start = some s) (u : Uuid) (ws : WebSocket) :
    (ws ∈ s.manager.conns.sockets u →
      (∃ p, s.point ws = some p ∧ p.Registered u) ∧ s.Authentic jwt ws u) ∧
      (∀ p, s.point ws = some p → p.Registered u →
        ws ∈ s.manager.conns.sockets u ∨ ⟨(u, ws), false⟩ ∈ s.manager.steps) ∧
      ∀ rest broken, .sending u rest broken ∈ s.manager.tasks → ws ∈ rest → s.Authentic jwt ws u := by
  have hheld := held_of_exec h
  refine ⟨fun hws => ?_, fun p hp hreg => ?_, fun rest broken htask hws =>
    hheld.pushed u rest broken htask ws hws⟩
  · obtain ⟨p, hp, hreg⟩ := hheld.registry u ws hws
    exact ⟨⟨p, hp, hreg⟩, hheld.authentic ws p u hp hreg.user_eq⟩
  · rw [hheld.consistent.latest u ws]
    have hjoined := hheld.joined u ws p hp hreg
    have hfound : (s.manager.steps.find? fun e => e.pair = (u, ws)).isSome :=
      List.find?_isSome.mpr ⟨_, hjoined, by simp⟩
    obtain ⟨e, he⟩ := Option.isSome_iff_exists.mp hfound
    have hpair : e.pair = (u, ws) := by simpa using List.find?_some he
    obtain ⟨pair, adds⟩ := e
    rw [he]
    cases adds with
    | true => exact Or.inl rfl
    | false =>
        obtain rfl : pair = (u, ws) := hpair
        exact Or.inr (List.mem_of_find?_eq_some he)

/-- One tab: it connects, is pushed to while it is bound, sends a pong and leaves. -/
def oneTab : List (SessionAction Payload) :=
  [.opens 7 ⟨some (Uuid.ofNat 1).str, 3600⟩ 0, .resume 7 .ok, .resume 7 .ok, .task 0 true, .task 0 true,
    .task 0 true, .resume 7 .ok, .push (.ofNat 1) [7], .resume 7 .ok, .resume 7 .disconnect,
    .resume 7 .cancelled, .resume 7 .ok, .resume 7 .cancelled]

theorem registry_of_oneTab : ∃ s, exec (step plainJwt) (oneTab.take 9) start = some s ∧
    7 ∈ s.manager.conns.sockets (.ofNat 1) ∧ s.Authentic plainJwt 7 (.ofNat 1) := by
  have hrun : (exec (step plainJwt) (oneTab.take 9) start).map
      (fun s => decide (7 ∈ s.manager.conns.sockets (.ofNat 1))) = some true := by decide +kernel
  obtain ⟨s, hs, hmem⟩ := Option.map_eq_some_iff.mp hrun
  have hsocket : 7 ∈ s.manager.conns.sockets (.ofNat 1) := of_decide_eq_true hmem
  exact ⟨s, hs, hsocket, ((registry_of_handlers hs _ _).1 hsocket).2⟩

/-- **Handlers clean up after themselves**: when every handler has ended and none was cut off before it
could unregister, the registry is empty, and every decision to bind a user was followed by one to
unbind. -/
theorem handlers_clean_up (h : exec (step jwt) acts start = some s)
    (hended : ∀ ws p, s.point ws = some p → p = .ended) :
    s.manager.conns.activeUsers = [] ∧ s.manager.conns.totalConnections = 0 ∧
      ∀ u, s.manager.conns.sockets u = ∅ ∧
        (s.manager.decisionsOf u).count true = (s.manager.decisionsOf u).count false := by
  have hheld := held_of_exec h
  have hempty : ∀ u, s.manager.conns.sockets u = ∅ := by
    intro u
    refine Finset.eq_empty_of_forall_notMem fun ws hws => ?_
    obtain ⟨p, hp, hreg⟩ := hheld.registry u ws hws
    obtain rfl := hended ws p hp
    exact hreg
  refine ⟨?_, ?_, fun u => ⟨hempty u, ?_⟩⟩
  · refine List.eq_nil_iff_forall_not_mem.mpr fun u hu => ?_
    exact (hheld.consistent.noEmpty.mem_activeUsers_iff u).mp hu (hempty u)
  · have hcard : s.manager.conns.totalConnections = (∅ : Finset (Uuid × WebSocket)).card :=
      Conns.totalConnections_eq_card fun u ws => by simp [hempty u]
    rwa [Finset.card_empty] at hcard
  · have hcount := System.count_alternating (s.manager.decisionsOf u).length
    rw [← hheld.consistent.alternate u] at hcount
    have heven := (hheld.consistent.parity u).not.mpr (by simp [hempty u])
    rw [hcount.1, hcount.2]
    omega

theorem handlers_clean_up_oneTab : ∃ s, exec (step plainJwt) oneTab start = some s ∧
    s.manager.conns.activeUsers = [] ∧ s.manager.conns.totalConnections = 0 := by
  have hrun : (exec (step plainJwt) oneTab start).map (·.point 7) = some (some .ended) := by
    decide +kernel
  obtain ⟨s, hs, hpoint⟩ := Option.map_eq_some_iff.mp hrun
  have hended : ∀ ws p, s.point ws = some p → p = .ended := by
    intro ws p hp
    by_cases hws : ws = 7
    · subst hws
      exact Option.some.inj (hp.symm.trans hpoint)
    · rw [point_eq_none hs fun token now hmem => ?_] at hp
      · cases hp
      · simp [oneTab, hws] at hmem
  obtain ⟨hactive, htotal, -⟩ := handlers_clean_up hs hended
  exact ⟨s, hs, hactive, htotal⟩

end Sessions

end HighLoad.Ws
