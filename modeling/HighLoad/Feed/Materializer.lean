/-
# HighLoad.Feed.Materializer — the competing workers of the durable queue

`feed_worker_rmq._consume_loop` as a program over the commands of an AMQP channel, run by any number of
workers on the queue `feed.materialize`. A message of the queue is in one place at a time: ready,
prefetched by a consumer, taken by its loop, or acknowledged. Redelivery does not keep the order of a
queue, so the broker may hand out any ready message.

Whatever raises, crashes or shuts down, no message gets lost: one that is not acknowledged is ready or
held by a running worker, an acknowledged one was handled completely (`materialize_keeps`), and every
message whose handling can return can still be acknowledged (`materialize_recovers`).
-/
import HighLoad.Feed.SortKey

namespace HighLoad.Feed.Materializer

open Prog

/-! ## The worker -/

/-- The bytes of a message, as far as the worker reads them: the members of a JSON object that are texts,
or bytes at which the handling raises before its first command. -/
inductive RawBody where
  | malformed (bytes : List UInt8)
  | json (body : Fields)
  deriving DecidableEq

/-- `_handle_message(redis, raw)`. -/
def handleRaw (cfg : Settings) : RawBody → Py Unit
  | .malformed _ => raise (.valueError "Expecting value")
  | .json body => handleBody cfg body

/-- The commands of the loop. A message is named by its number in the order of publication; the handling
of one message is one command. -/
inductive WorkerCommand : Type → Type where
  | next : WorkerCommand Nat
  | isShutdown : WorkerCommand Bool
  | handleMessage (message : Nat) : WorkerCommand Unit
  | ack (message : Nat) : WorkerCommand Unit
  | nack (message : Nat) : WorkerCommand Unit

/-- A program of a worker. -/
abbrev Worker (α : Type) := Prog WorkerCommand PyError α

/-- `async for message in it: …`, with fuel for the loop. A message that finds the shutdown flag set is
neither acknowledged nor rejected. -/
def consumeLoop : Nat → Worker (Option Unit)
  | 0 => pure none
  | fuel + 1 => do
      let message ← call .next
      let stop ← call .isShutdown
      if stop then pure (some ())
      else do
        tryExcept (do call (.handleMessage message); call (.ack message))
          fun _ => call (.nack message)
        consumeLoop fuel

/-! ## The broker -/

/-- Where a message of the queue is. -/
inductive Place where
  | ready
  | buffered (consumer : Nat)
  | taken (consumer : Nat)
  | acked
  deriving DecidableEq

/-- An execution of `_handle_message` that returned. -/
structure Handling where
  message : Nat
  replies : List (Reply Command PyError)

/-- The queue, and the executions of the handler that returned. -/
structure Broker where
  published : List RawBody
  place : Nat → Place
  handled : List Handling

namespace Broker

def initial : Broker := ⟨[], fun _ => .ready, []⟩

/-- A message goes to another place. -/
def move (b : Broker) (i : Nat) (p : Place) : Broker :=
  { b with place := Function.update b.place i p }

/-- The consumer has the message. -/
def Holds (b : Broker) (consumer i : Nat) : Prop :=
  b.place i = .buffered consumer ∨ b.place i = .taken consumer

instance (b : Broker) (consumer i : Nat) : Decidable (b.Holds consumer i) :=
  inferInstanceAs (Decidable (_ ∨ _))

/-- The messages a consumer has and has not settled. -/
def heldBy (b : Broker) (consumer : Nat) : Finset Nat :=
  (Finset.range b.published.length).filter (b.Holds consumer)

/-- The channel of a consumer closes: what it has is ready again. -/
def requeue (b : Broker) (consumer : Nat) : Broker :=
  { b with place := fun i => if b.Holds consumer i then .ready else b.place i }

/-- The prefetch limit lets the broker deliver one more message; 0 is no limit. -/
def MayDeliver (prefetch : Nat) (b : Broker) (consumer : Nat) : Prop :=
  prefetch = 0 ∨ (b.heldBy consumer).card < prefetch

end Broker

/-- What a command of a consumer does. Settling may take effect and raise nevertheless. -/
def Happens (cfg : Settings) (consumer : Nat) :
    {β : Type} → WorkerCommand β → Broker → Except PyError β → Broker → Prop
  | _, .next, b, r, b' =>
      (∃ i, i < b.published.length ∧ b.place i = .buffered consumer ∧ r = .ok i ∧
        b' = b.move i (.taken consumer)) ∨ ((∃ e, r = .error e) ∧ b' = b)
  | _, .isShutdown, b, _, b' => b' = b
  | _, .handleMessage i, b, r, b' => ∃ body replies, b.published[i]? = some body ∧
      Performs (handleRaw cfg body) replies r ∧
      b' = { b with
        handled := match r with
          | .ok _ => b.handled ++ [⟨i, replies⟩]
          | .error _ => b.handled }
  | _, .ack i, b, r, b' =>
      (b.place i = .taken consumer ∧ b' = b.move i .acked) ∨ ((∃ e, r = .error e) ∧ b' = b)
  | _, .nack i, b, r, b' =>
      (b.place i = .taken consumer ∧ b' = b.move i .ready) ∨ ((∃ e, r = .error e) ∧ b' = b)

/-- The worker processes that run, and the queue. -/
structure System where
  workers : Nat → Option (Worker (Option Unit))
  broker : Broker

def System.initial : System := ⟨fun _ => none, Broker.initial⟩

/-- One step of anybody. A worker stops when it crashes, ends or loses its connection. -/
inductive Step (cfg : Settings) (prefetch : Nat) : System → System → Prop
  | publish (s : System) (body : RawBody) :
      Step cfg prefetch s
        { s with broker := { s.broker with published := s.broker.published ++ [body] } }
  | start (s : System) (w fuel : Nat) (hidle : s.workers w = none) :
      Step cfg prefetch s { s with workers := Function.update s.workers w (some (consumeLoop fuel)) }
  | deliver (s : System) (w i : Nat) (hruns : s.workers w ≠ none)
      (hi : i < s.broker.published.length) (hready : s.broker.place i = .ready)
      (hmay : s.broker.MayDeliver prefetch w) :
      Step cfg prefetch s { s with broker := s.broker.move i (.buffered w) }
  | command (s : System) (w : Nat) {β : Type} (c : WorkerCommand β)
      (next : Except PyError β → Worker (Option Unit)) (r : Except PyError β) (b' : Broker)
      (hworker : s.workers w = some (.cmd c next)) (h : Happens cfg w c s.broker r b') :
      Step cfg prefetch s ⟨Function.update s.workers w (some (next r)), b'⟩
  | stop (s : System) (w : Nat) :
      Step cfg prefetch s ⟨Function.update s.workers w none, s.broker.requeue w⟩

/-- The states of the runs from an empty queue. -/
def Reachable (cfg : Settings) (prefetch : Nat) (s : System) : Prop :=
  Relation.ReflTransGen (Step cfg prefetch) System.initial s

/-! ## The worker acknowledges only what it handled -/

/-- What a worker can know of a message. -/
inductive Fact where
  | delivered (i : Nat)
  | handled (i : Nat)

/-- A message is handled when it was delivered, and acknowledged when its handling returned. -/
def acksHandled : Discipline WorkerCommand PyError Fact where
  needs
    | .handleMessage i => {.delivered i}
    | .ack i => {.handled i}
    | _ => ∅
  learns
    | .next, .ok i => {.delivered i}
    | .handleMessage i, .ok _ => {.handled i}
    | _, _ => ∅

theorem heeds_consumeLoop (fuel : Nat) {H : Set Fact} : Heeds acksHandled (consumeLoop fuel) H := by
  induction fuel generalizing H with
  | zero => trivial
  | succ fuel ih =>
      refine heeds_call_bind (Set.empty_subset _) fun message => ?_
      refine heeds_bind (heeds_call (Set.empty_subset _)) fun stop => ?_
      cases stop with
      | true => trivial
      | false =>
          refine heeds_bind (heeds_tryExcept ?_ fun _ => heeds_call (Set.empty_subset _)) fun _ => ih
          refine heeds_call_bind ?_ fun _ => heeds_call Set.subset_union_right
          exact Set.subset_union_right

/-! ## Moving messages -/

namespace Broker

variable {b b' : Broker} {i j v w : Nat} {p : Place}

theorem place_move (b : Broker) (i : Nat) (p : Place) (j : Nat) :
    (b.move i p).place j = if j = i then p else b.place j :=
  Function.update_apply b.place i p j

theorem holds_move_of_ne (hj : j ≠ i) : (b.move i p).Holds w j ↔ b.Holds w j := by
  unfold Holds
  rw [place_move, if_neg hj]

theorem place_requeue (b : Broker) (v j : Nat) :
    (b.requeue v).place j = if b.Holds v j then .ready else b.place j := rfl

theorem holds_requeue : (b.requeue v).Holds w j ↔ b.Holds w j ∧ w ≠ v := by
  have hplace := place_requeue b v j
  by_cases hv : b.Holds v j
  · rw [if_pos hv] at hplace
    constructor
    · rintro (h | h) <;> rw [hplace] at h <;> cases h
    · rintro ⟨hw, hne⟩
      rcases hv with hv | hv <;> rcases hw with hw | hw <;> rw [hv] at hw <;> cases hw <;>
        exact absurd rfl hne
  · rw [if_neg hv] at hplace
    have hsame : (b.requeue v).Holds w j ↔ b.Holds w j := by
      unfold Holds
      rw [hplace]
    rw [hsame]
    refine ⟨fun hw => ⟨hw, ?_⟩, fun hw => hw.1⟩
    rintro rfl
    exact hv hw

theorem mem_heldBy : i ∈ b.heldBy w ↔ i < b.published.length ∧ b.Holds w i := by
  simp [heldBy]

/-- A consumer that gets no message holds no more of them. -/
theorem card_heldBy_le (hpub : b'.published.length = b.published.length)
    (h : ∀ i, b'.Holds w i → b.Holds w i) : (b'.heldBy w).card ≤ (b.heldBy w).card := by
  refine Finset.card_le_card fun i hi => ?_
  rw [mem_heldBy] at hi ⊢
  exact ⟨hpub ▸ hi.1, h i hi.2⟩

/-- What is true of a queue. -/
def facts (b : Broker) : Set Fact
  | .delivered i => i < b.published.length
  | .handled i => ∃ x ∈ b.handled, x.message = i

end Broker

/-! ## Nothing is lost -/

variable {cfg : Settings} {prefetch : Nat}

/-- The invariant of the queue. -/
structure Queued (cfg : Settings) (prefetch : Nat) (b : Broker) : Prop where
  known : ∀ i, b.place i ≠ .ready → i < b.published.length
  bounded : prefetch ≠ 0 → ∀ w, (b.heldBy w).card ≤ prefetch
  acked : ∀ i, b.place i = .acked → ∃ x ∈ b.handled, x.message = i
  handled : ∀ x ∈ b.handled, ∃ body, b.published[x.message]? = some body ∧
    Performs (handleRaw cfg body) x.replies (.ok ())

theorem queued_initial (cfg : Settings) (prefetch : Nat) : Queued cfg prefetch Broker.initial where
  known i hi := absurd rfl hi
  bounded _ w := by
    have hnone : Broker.initial.heldBy w = ∅ := Finset.filter_empty _
    rw [hnone, Finset.card_empty]
    exact Nat.zero_le prefetch
  acked i hi := by simp [Broker.initial] at hi
  handled x hx := absurd hx List.not_mem_nil

section

variable {b : Broker} {w i : Nat}

theorem Queued.publish (h : Queued cfg prefetch b) (body : RawBody) :
    Queued cfg prefetch { b with published := b.published ++ [body] } where
  known j hj := by
    rw [List.length_append]
    exact Nat.lt_add_right _ (h.known j hj)
  bounded hp v := by
    refine (Finset.card_le_card fun j hj => ?_).trans (h.bounded hp v)
    -- the new message is ready
    obtain ⟨-, hholds⟩ := Broker.mem_heldBy.mp hj
    refine Broker.mem_heldBy.mpr ⟨h.known j ?_, hholds⟩
    intro hready
    change b.place j = _ ∨ b.place j = _ at hholds
    rw [hready] at hholds
    rcases hholds with hholds | hholds <;> cases hholds
  acked := h.acked
  handled x hx := by
    obtain ⟨body', hbody, hperforms⟩ := h.handled x hx
    refine ⟨body', ?_, hperforms⟩
    rw [List.getElem?_append_left (List.getElem?_eq_some_iff.mp hbody).1]
    exact hbody

/-- A message moves to a place that nobody holds, or stays with the consumer that holds it. -/
theorem Queued.move (h : Queued cfg prefetch b) (hi : i < b.published.length) {p : Place}
    (hheld : ∀ v, p = .buffered v ∨ p = .taken v → b.Holds v i)
    (hacked : p = .acked → ∃ x ∈ b.handled, x.message = i) : Queued cfg prefetch (b.move i p) where
  known j hj := by
    rw [Broker.place_move] at hj
    split_ifs at hj with heq
    · rw [heq]
      exact hi
    · exact h.known j hj
  bounded hp v := by
    have hle : ((b.move i p).heldBy v).card ≤ (b.heldBy v).card := by
      refine Broker.card_heldBy_le rfl fun j hj => ?_
      by_cases heq : j = i
      · subst heq
        unfold Broker.Holds at hj
        rw [Broker.place_move, if_pos rfl] at hj
        exact hheld v hj
      · exact (Broker.holds_move_of_ne heq).mp hj
    exact hle.trans (h.bounded hp v)
  acked j hj := by
    rw [Broker.place_move] at hj
    split_ifs at hj with heq
    · rw [heq]
      exact hacked hj
    · exact h.acked j hj
  handled := h.handled

theorem Queued.deliver (h : Queued cfg prefetch b) (hi : i < b.published.length)
    (hready : b.place i = .ready) (hmay : b.MayDeliver prefetch w) :
    Queued cfg prefetch (b.move i (.buffered w)) where
  known j hj := by
    rw [Broker.place_move] at hj
    split_ifs at hj with heq
    · rw [heq]
      exact hi
    · exact h.known j hj
  bounded hp v := by
    by_cases hv : v = w
    · subst hv
      have hsub : (b.move i (.buffered v)).heldBy v ⊆ insert i (b.heldBy v) := by
        intro j hj
        obtain ⟨hlt, hholds⟩ := Broker.mem_heldBy.mp hj
        by_cases heq : j = i
        · exact Finset.mem_insert.mpr (Or.inl heq)
        · exact Finset.mem_insert_of_mem
            (Broker.mem_heldBy.mpr ⟨hlt, (Broker.holds_move_of_ne heq).mp hholds⟩)
      have hcard := (Finset.card_le_card hsub).trans (Finset.card_insert_le i (b.heldBy v))
      rcases hmay with hzero | hlt
      · exact absurd hzero hp
      · omega
    · have hle : ((b.move i (.buffered w)).heldBy v).card ≤ (b.heldBy v).card := by
        refine Broker.card_heldBy_le rfl fun j hj => ?_
        by_cases heq : j = i
        · subst heq
          unfold Broker.Holds at hj
          rw [Broker.place_move, if_pos rfl] at hj
          rcases hj with hj | hj
          · exact absurd (Place.buffered.inj hj).symm hv
          · cases hj
        · exact (Broker.holds_move_of_ne heq).mp hj
      exact hle.trans (h.bounded hp v)
  acked j hj := by
    rw [Broker.place_move] at hj
    split_ifs at hj
    exact h.acked j hj
  handled := h.handled

theorem Queued.requeue (h : Queued cfg prefetch b) (w : Nat) : Queued cfg prefetch (b.requeue w) where
  known j hj := by
    refine h.known j fun hready => hj ?_
    show (if b.Holds w j then Place.ready else b.place j) = _
    rw [hready, ite_self]
  bounded hp v := by
    have hle : ((b.requeue w).heldBy v).card ≤ (b.heldBy v).card :=
      Broker.card_heldBy_le rfl fun j hj => (Broker.holds_requeue.mp hj).1
    exact hle.trans (h.bounded hp v)
  acked j hj := by
    refine h.acked j ?_
    change (if b.Holds w j then Place.ready else b.place j) = _ at hj
    split_ifs at hj
    exact hj
  handled := h.handled

/-- What a command leaves: the invariant of the queue, and whatever the reply establishes. -/
theorem Queued.happens {β : Type} {c : WorkerCommand β} {b' : Broker} {r : Except PyError β}
    (h : Queued cfg prefetch b) (hneeds : acksHandled.needs c ⊆ b.facts)
    (hc : Happens cfg w c b r b') :
    Queued cfg prefetch b' ∧ b.facts ∪ acksHandled.learns c r ⊆ b'.facts := by
  cases c with
  | next =>
      rcases hc with ⟨i, hi, hplace, rfl, rfl⟩ | ⟨⟨e, rfl⟩, rfl⟩
      · refine ⟨h.move hi ?_ (fun hp => by cases hp), Set.union_subset ?_ ?_⟩
        · rintro v (hv | hv)
          · cases hv
          · obtain rfl := Place.taken.inj hv
            exact Or.inl hplace
        · exact fun f hf => by cases f <;> exact hf
        · exact Set.singleton_subset_iff.mpr hi
      · exact ⟨h, Set.union_subset subset_rfl (Set.empty_subset _)⟩
  | isShutdown =>
      have hlearns : acksHandled.learns WorkerCommand.isShutdown r = ∅ := by cases r <;> rfl
      rw [hlearns, Set.union_empty]
      obtain rfl := hc
      exact ⟨h, subset_rfl⟩
  | handleMessage i =>
      obtain ⟨body, replies, hbody, hperforms, rfl⟩ := hc
      cases r with
      | ok u =>
          refine ⟨{ h with acked := ?_, handled := ?_ }, Set.union_subset ?_ ?_⟩
          · intro j hj
            obtain ⟨x, hx, rfl⟩ := h.acked j hj
            exact ⟨x, List.mem_append_left _ hx, rfl⟩
          · intro x hx
            rcases List.mem_append.mp hx with hx | hx
            · exact h.handled x hx
            · rw [List.mem_singleton.mp hx]
              exact ⟨body, hbody, hperforms⟩
          · intro f hf
            cases f with
            | delivered j => exact hf
            | handled j =>
                obtain ⟨x, hx, rfl⟩ := hf
                exact ⟨x, List.mem_append_left _ hx, rfl⟩
          · exact Set.singleton_subset_iff.mpr ⟨_, List.mem_append_right _ List.mem_cons_self, rfl⟩
      | error e =>
          exact ⟨h, Set.union_subset subset_rfl (Set.empty_subset _)⟩
  | ack i =>
      have hlearns : acksHandled.learns (WorkerCommand.ack i) r = ∅ := by cases r <;> rfl
      rw [hlearns, Set.union_empty]
      rcases hc with ⟨hplace, rfl⟩ | ⟨-, rfl⟩
      · have hi : i < b.published.length := h.known i (by rw [hplace]; exact fun hp => by cases hp)
        have hhandled : ∃ x ∈ b.handled, x.message = i := hneeds (Set.mem_singleton (Fact.handled i))
        refine ⟨h.move hi ?_ fun _ => hhandled, fun f hf => by cases f <;> exact hf⟩
        rintro v (hv | hv) <;> cases hv
      · exact ⟨h, subset_rfl⟩
  | nack i =>
      have hlearns : acksHandled.learns (WorkerCommand.nack i) r = ∅ := by cases r <;> rfl
      rw [hlearns, Set.union_empty]
      rcases hc with ⟨hplace, rfl⟩ | ⟨-, rfl⟩
      · have hi : i < b.published.length := h.known i (by rw [hplace]; exact fun hp => by cases hp)
        refine ⟨h.move hi ?_ (fun hp => by cases hp), fun f hf => by cases f <;> exact hf⟩
        rintro v (hv | hv) <;> cases hv
      · exact ⟨h, subset_rfl⟩

/-- A command of one consumer gives no message to another. -/
theorem Happens.holds {β : Type} {c : WorkerCommand β} {b' : Broker} {r : Except PyError β}
    (hc : Happens cfg w c b r b') {v : Nat} (hv : v ≠ w) (h : b'.Holds v i) : b.Holds v i := by
  have hmove : ∀ j p, (∀ u, p = .buffered u ∨ p = .taken u → u = w) → (b.move j p).Holds v i →
      b.Holds v i := by
    intro j p hp hholds
    by_cases heq : i = j
    · subst heq
      unfold Broker.Holds at hholds
      rw [Broker.place_move, if_pos rfl] at hholds
      exact absurd (hp v hholds) hv
    · exact (Broker.holds_move_of_ne heq).mp hholds
  cases c with
  | next =>
      rcases hc with ⟨j, -, -, -, rfl⟩ | ⟨-, rfl⟩
      · refine hmove j _ ?_ h
        rintro u (hu | hu)
        · cases hu
        · exact (Place.taken.inj hu).symm
      · exact h
  | isShutdown =>
      obtain rfl := hc
      exact h
  | handleMessage j =>
      obtain ⟨body, replies, -, -, rfl⟩ := hc
      exact h
  | ack j =>
      rcases hc with ⟨-, rfl⟩ | ⟨-, rfl⟩
      · exact hmove j _ (by rintro u (hu | hu) <;> cases hu) h
      · exact h
  | nack j =>
      rcases hc with ⟨-, rfl⟩ | ⟨-, rfl⟩
      · exact hmove j _ (by rintro u (hu | hu) <;> cases hu) h
      · exact h

end

/-- The invariant of the system. -/
structure Kept (cfg : Settings) (prefetch : Nat) (s : System) : Prop where
  queued : Queued cfg prefetch s.broker
  idle : ∀ w i, s.workers w = none → ¬ s.broker.Holds w i
  heeds : ∀ w p, s.workers w = some p → Heeds acksHandled p s.broker.facts

theorem kept_initial (cfg : Settings) (prefetch : Nat) : Kept cfg prefetch System.initial where
  queued := queued_initial cfg prefetch
  idle w i _ := by rintro (h | h) <;> cases h
  heeds w p hp := by simp [System.initial] at hp

/-- **The step lemma.** -/
theorem Kept.step {s s' : System} (h : Kept cfg prefetch s) (hs : Step cfg prefetch s s') :
    Kept cfg prefetch s' := by
  cases hs with
  | publish body =>
      refine ⟨h.queued.publish body, h.idle, fun w p hp => (h.heeds w p hp).mono fun f hf => ?_⟩
      cases f with
      | delivered i =>
          show i < (s.broker.published ++ [body]).length
          rw [List.length_append]
          exact Nat.lt_add_right _ hf
      | handled i => exact hf
  | start w fuel hidle =>
      refine ⟨h.queued, fun v i hv => h.idle v i ?_, fun v p hp => ?_⟩
      · simp only [Function.update_apply] at hv
        split_ifs at hv
        exact hv
      · simp only [Function.update_apply] at hp
        split_ifs at hp
        · rw [← Option.some.inj hp]
          exact heeds_consumeLoop fuel
        · exact h.heeds v p hp
  | deliver w i hruns hi hready hmay =>
      refine ⟨h.queued.deliver hi hready hmay, fun v j hv hholds => ?_,
        fun v p hp => (h.heeds v p hp).mono fun f hf => by cases f <;> exact hf⟩
      by_cases heq : j = i
      · subst heq
        change (s.broker.move j (.buffered w)).Holds v j at hholds
        unfold Broker.Holds at hholds
        rw [Broker.place_move, if_pos rfl] at hholds
        rcases hholds with hbuf | htaken
        · rw [Place.buffered.inj hbuf] at hruns
          exact hruns hv
        · cases htaken
      · exact h.idle v j hv ((Broker.holds_move_of_ne heq).mp hholds)
  | command w c next r b' hworker hc =>
      obtain ⟨hneeds, hnext⟩ := h.heeds w _ hworker
      obtain ⟨hqueued, hfacts⟩ := h.queued.happens hneeds hc
      refine ⟨hqueued, fun v i hv hholds => ?_, fun v p hp => ?_⟩
      · simp only [Function.update_apply] at hv
        split_ifs at hv with heq
        exact h.idle v i hv (hc.holds heq hholds)
      · simp only [Function.update_apply] at hp
        split_ifs at hp with heq
        · rw [← Option.some.inj hp]
          exact (hnext r).mono hfacts
        · exact (h.heeds v p hp).mono (Set.subset_union_left.trans hfacts)
  | stop w =>
      refine ⟨h.queued.requeue w, fun v i hv hholds => ?_, fun v p hp => ?_⟩
      · obtain ⟨hold, hne⟩ := Broker.holds_requeue.mp hholds
        simp only [Function.update_apply, if_neg hne] at hv
        exact h.idle v i hv hold
      · simp only [Function.update_apply] at hp
        split_ifs at hp
        exact (h.heeds v p hp).mono fun f hf => by cases f <;> exact hf

/-- The run lemma. -/
theorem Reachable.kept {s : System} (h : Reachable cfg prefetch s) : Kept cfg prefetch s := by
  induction h with
  | refl => exact kept_initial cfg prefetch
  | tail _ hstep ih => exact ih.step hstep

/-! ## A message that is ready again can be handled -/

/-- A message that one consumer at most holds is ready once the channel of that consumer closed. -/
theorem ready_after_requeue {b : Broker} {i : Nat} (h : b.place i ≠ .acked) :
    ∃ w, (b.requeue w).place i = .ready := by
  cases hplace : b.place i with
  | ready =>
      refine ⟨0, ?_⟩
      rw [Broker.place_requeue, hplace, ite_self]
  | buffered w =>
      refine ⟨w, ?_⟩
      have hholds : b.Holds w i := Or.inl hplace
      rw [Broker.place_requeue, if_pos hholds]
  | taken w =>
      refine ⟨w, ?_⟩
      have hholds : b.Holds w i := Or.inr hplace
      rw [Broker.place_requeue, if_pos hholds]
  | acked => exact absurd hplace h

/-- A command of a worker, seen from its program. -/
theorem step_of_worker (workers : Nat → Option (Worker (Option Unit))) (w : Nat) {β : Type}
    (c : WorkerCommand β) (next : Except PyError β → Worker (Option Unit)) (r : Except PyError β)
    {b b' : Broker} (h : Happens cfg w c b r b') :
    Step cfg prefetch ⟨Function.update workers w (some (.cmd c next)), b⟩
      ⟨Function.update workers w (some (next r)), b'⟩ := by
  have hstep : Step cfg prefetch ⟨Function.update workers w (some (.cmd c next)), b⟩ _ :=
    Step.command _ w c next r b' (Function.update_self ..) h
  rwa [Function.update_idem] at hstep

/-- **A new worker takes a ready message and acknowledges it**, when the handling returns. -/
theorem acked_by_new_worker {s : System} {w i : Nat} {body : RawBody}
    (hidle : s.workers w = none) (hfree : s.broker.heldBy w = ∅)
    (hbody : s.broker.published[i]? = some body) (hready : s.broker.place i = .ready)
    {replies : List (Reply Command PyError)}
    (hreturns : Performs (handleRaw cfg body) replies (.ok ())) :
    ∃ s', Relation.ReflTransGen (Step cfg prefetch) s s' ∧ s'.broker.place i = .acked ∧
      s'.broker.published = s.broker.published := by
  have hi : i < s.broker.published.length := (List.getElem?_eq_some_iff.mp hbody).1
  have hmay : s.broker.MayDeliver prefetch w := by
    unfold Broker.MayDeliver
    rw [hfree, Finset.card_empty]
    omega
  have hstart : Step cfg prefetch s _ := Step.start s w 1 hidle
  have hdeliver : Step cfg prefetch
      { s with workers := Function.update s.workers w (some (consumeLoop 1)) } _ :=
    Step.deliver _ w i (by simp) hi hready hmay
  -- the four commands of the loop: the next message, no shutdown, the handler, the acknowledgement
  have hnext : Happens cfg w .next (s.broker.move i (.buffered w)) (.ok i)
      ((s.broker.move i (.buffered w)).move i (.taken w)) :=
    Or.inl ⟨i, hi, by rw [Broker.place_move, if_pos rfl], rfl, rfl⟩
  have hshutdown : Happens cfg w .isShutdown ((s.broker.move i (.buffered w)).move i (.taken w))
      (.ok false) ((s.broker.move i (.buffered w)).move i (.taken w)) := rfl
  have hhandle : Happens cfg w (.handleMessage i)
      ((s.broker.move i (.buffered w)).move i (.taken w)) (.ok ())
      { (s.broker.move i (.buffered w)).move i (.taken w) with
        handled := s.broker.handled ++ [⟨i, replies⟩] } :=
    ⟨body, replies, hbody, hreturns, rfl⟩
  have hack : Happens cfg w (.ack i)
      { (s.broker.move i (.buffered w)).move i (.taken w) with
        handled := s.broker.handled ++ [⟨i, replies⟩] } (.ok ())
      (Broker.move { (s.broker.move i (.buffered w)).move i (.taken w) with
        handled := s.broker.handled ++ [⟨i, replies⟩] } i .acked) :=
    Or.inl ⟨Function.update_self .., rfl⟩
  refine ⟨⟨Function.update s.workers w (some (pure none)),
    Broker.move { (s.broker.move i (.buffered w)).move i (.taken w) with
      handled := s.broker.handled ++ [⟨i, replies⟩] } i .acked⟩, ?_, Function.update_self .., rfl⟩
  refine .head hstart (.head hdeliver (.head (step_of_worker s.workers w _ _ _ hnext)
    (.head (step_of_worker s.workers w _ _ _ hshutdown)
      (.head (step_of_worker s.workers w _ _ _ hhandle)
        (.single (step_of_worker s.workers w _ _ _ hack))))))

/-- The body of a deleted post. -/
def deletedBody (postId authorId : Uuid) : Fields :=
  [("event_type", "deleted"), ("post_id", postId.str), ("author_id", authorId.str)]

/-- The deletion of a post whose author has no followers is handled with one query. -/
theorem performs_deletedBody (cfg : Settings) (postId authorId : Uuid) :
    Performs (handleRaw cfg (.json (deletedBody postId authorId)))
      [⟨.selectFollowers authorId, .ok []⟩] (.ok ()) := by
  have hpost : bodyUuid (deletedBody postId authorId) "post_id" = pure postId := bodyUuid_str rfl
  have hauthor : bodyUuid (deletedBody postId authorId) "author_id" = pure authorId := bodyUuid_str rfl
  have hcreated : (deletedBody postId authorId).lookup "event_type" ≠ some "created" := by
    simp [deletedBody]
  have hdeleted : (deletedBody postId authorId).lookup "event_type" = some "deleted" := rfl
  have hhandle : handleBody cfg (deletedBody postId authorId)
      = removePostFromAllFeeds postId authorId := by
    unfold handleBody
    rw [if_neg hcreated, if_pos hdeleted]
    unfold handleDeletedBody
    rw [hpost, pure_bind_eq, hauthor, pure_bind_eq]
  show Performs (handleBody cfg (deletedBody postId authorId)) _ _
  rw [hhandle]
  exact .cmd _ _ _ (.ret ())

/-- One published message and no worker. -/
def onePublished : System :=
  ⟨fun _ => none, ⟨[.json (deletedBody (.ofNat 7) (.ofNat 1))], fun _ => .ready, []⟩⟩

theorem reachable_onePublished (cfg : Settings) (prefetch : Nat) :
    Reachable cfg prefetch onePublished :=
  .single (Step.publish System.initial (.json (deletedBody (.ofNat 7) (.ofNat 1))))

/-! ## The queue -/

/-- **The durable queue loses nothing**, whatever raises, crashes or shuts down and however many workers
compete: a message that is not acknowledged is ready or held by one running worker; one that is was
handled completely; and no worker holds more messages than the prefetch limit allows. -/
theorem materialize_keeps {s : System} (h : Reachable cfg prefetch s) :
    (∀ i < s.broker.published.length,
      s.broker.place i = .ready ∨
      (∃ w, s.workers w ≠ none ∧ s.broker.Holds w i ∧ ∀ v, s.broker.Holds v i → v = w) ∨
      (s.broker.place i = .acked ∧ ∃ x ∈ s.broker.handled, x.message = i ∧
        ∃ body, s.broker.published[i]? = some body ∧
          Performs (handleRaw cfg body) x.replies (.ok ()))) ∧
      (prefetch ≠ 0 → ∀ w, (s.broker.heldBy w).card ≤ prefetch) := by
  have hkept := h.kept
  refine ⟨fun i hi => ?_, hkept.queued.bounded⟩
  have hone : ∀ {v w}, s.broker.Holds v i → s.broker.Holds w i → v = w := by
    rintro v w (hv | hv) (hw | hw) <;> rw [hv] at hw <;> cases hw <;> rfl
  cases hplace : s.broker.place i with
  | ready => exact Or.inl rfl
  | buffered w =>
      have hholds : s.broker.Holds w i := Or.inl hplace
      exact Or.inr (Or.inl ⟨w, fun hw => hkept.idle w i hw hholds, hholds, fun v hv => hone hv hholds⟩)
  | taken w =>
      have hholds : s.broker.Holds w i := Or.inr hplace
      exact Or.inr (Or.inl ⟨w, fun hw => hkept.idle w i hw hholds, hholds, fun v hv => hone hv hholds⟩)
  | acked =>
      obtain ⟨x, hx, rfl⟩ := hkept.queued.acked i hplace
      exact Or.inr (Or.inr ⟨rfl, x, hx, rfl, hkept.queued.handled x hx⟩)

/-- The one message of this queue is acknowledged in the end, and was handled. -/
theorem deletedPost_kept : ∃ s, Reachable {} 16 s ∧ s.broker.place 0 = .acked ∧
    ∃ x ∈ s.broker.handled, x.message = 0 := by
  have hfree : onePublished.broker.heldBy 0 = ∅ := by
    rw [Finset.eq_empty_iff_forall_notMem]
    rintro j hj
    rcases (Broker.mem_heldBy.mp hj).2 with h | h <;> cases h
  have hidle : onePublished.workers 0 = none := rfl
  have hready : onePublished.broker.place 0 = .ready := rfl
  have hbody : onePublished.broker.published[0]? = some _ := rfl
  have hhandled : ∃ s, Relation.ReflTransGen (Step {} 16) onePublished s ∧ s.broker.place 0 = .acked ∧
      s.broker.published = onePublished.broker.published :=
    acked_by_new_worker hidle hfree hbody hready (performs_deletedBody {} (.ofNat 7) (.ofNat 1))
  obtain ⟨s, hrun, hacked, hpub⟩ := hhandled
  have hreach : Reachable {} 16 s := (reachable_onePublished {} 16).trans hrun
  have hlen : 0 < s.broker.published.length := by
    rw [hpub]
    exact Nat.one_pos
  refine ⟨s, hreach, hacked, ?_⟩
  rcases (materialize_keeps hreach).1 0 hlen with h | ⟨w, -, h, -⟩ | ⟨-, x, hx, hmessage, -⟩
  · rw [hacked] at h
    cases h
  · rcases h with h | h <;> rw [hacked] at h <;> cases h
  · exact ⟨x, hx, hmessage⟩

/-- A message on which the handler always raises stays in the queue for good. -/
theorem poisoned_never_acked {s : System} (h : Reachable cfg prefetch s) {i : Nat} {body : RawBody}
    (hbody : s.broker.published[i]? = some body)
    (hpoisoned : ∀ replies, ¬ Performs (handleRaw cfg body) replies (.ok ())) :
    s.broker.place i ≠ .acked := by
  intro hplace
  obtain ⟨x, hx, rfl⟩ := h.kept.queued.acked i hplace
  obtain ⟨body', hbody', hperforms⟩ := h.kept.queued.handled x hx
  obtain rfl := Option.some.inj (hbody.symm.trans hbody')
  exact hpoisoned _ hperforms

/-- **No message gets stuck**: from every state there are steps after which it is acknowledged, if its
handling can return. -/
theorem materialize_recovers {s : System} {i : Nat} {body : RawBody}
    (hbody : s.broker.published[i]? = some body) {replies : List (Reply Command PyError)}
    (hreturns : Performs (handleRaw cfg body) replies (.ok ())) :
    ∃ s', Relation.ReflTransGen (Step cfg prefetch) s s' ∧ s'.broker.place i = .acked ∧
      s'.broker.published = s.broker.published := by
  by_cases hacked : s.broker.place i = .acked
  · exact ⟨s, .refl, hacked, rfl⟩
  obtain ⟨w, hready⟩ := ready_after_requeue hacked
  have hfree : (s.broker.requeue w).heldBy w = ∅ := by
    rw [Finset.eq_empty_iff_forall_notMem]
    intro j hj
    exact (Broker.holds_requeue.mp (Broker.mem_heldBy.mp hj).2).2 rfl
  have hidle : (⟨Function.update s.workers w none, s.broker.requeue w⟩ : System).workers w = none :=
    Function.update_self ..
  obtain ⟨s', hrun, hdone, hpub⟩ := acked_by_new_worker hidle hfree hbody hready hreturns
  exact ⟨s', .head (Step.stop s w) hrun, hdone, hpub⟩

theorem deletedPost_recovers : ∃ s, Relation.ReflTransGen (Step {} 16) onePublished s ∧
    s.broker.place 0 = .acked ∧ s.broker.published = onePublished.broker.published :=
  have hbody : onePublished.broker.published[0]? = some _ := rfl
  materialize_recovers hbody (performs_deletedBody {} (.ofNat 7) (.ofNat 1))

end HighLoad.Feed.Materializer
