/-
# HighLoad.Feed.StreamWorker — the worker of the Redis Stream

`feed_worker.py` as programs over the commands of a consumer group: `_handle_event` on raw fields,
`_drain_entries`, `_recover_pending` and the main loop. `_recover_pending` reads its consumer's pending
list behind a cursor that only grows, so it meets every entry once although the list shrinks under it
(`recoverPending_once`). Whatever is added to the stream, raises or crashes, an entry that was delivered
stays pending until it is acknowledged, and the worker acknowledges nothing that it has not handled
(`no_event_lost`).
-/
import HighLoad.Feed.Routes
import HighLoad.Lib.Faults
import HighLoad.TextParse
import Mathlib.Logic.Relation

namespace HighLoad.Feed

open Prog

/-! ## The handler -/

/-- The fields of a stream entry. -/
abbrev Fields := List (String × String)

/-- `_handle_event(redis, fields)`. -/
def handleFields (cfg : Settings) (fields : Fields) : Py Unit :=
  match (fields.lookup "post_id").bind Uuid.parse, (fields.lookup "author_id").bind Uuid.parse with
  | some postId, some authorId =>
      if (fields.lookup "event_type").getD "" = "created" then
        match fields.lookup "created_at" with
        | none => raise (.keyError "created_at")
        | some text =>
            match DateTime.fromisoformat text with
            | none => raise (.valueError "Invalid isoformat string")
            | some createdAt => fanOutPost cfg postId authorId createdAt
      else if (fields.lookup "event_type").getD "" = "deleted" then
        removePostFromAllFeeds postId authorId
      else pure ()
  | _, _ => pure ()

/-- `created_at.isoformat()` of an event: the time of a row, or `datetime.now(timezone.utc)` of a deletion,
whose text ends in the offset. -/
def eventTime (eventType : String) (createdAt : DateTime) : String :=
  if eventType = "deleted" then createdAt.isoformat ++ "+00:00" else createdAt.isoformat

/-- The fields that `publish_post_event` writes. -/
def StreamEvent.fields (e : StreamEvent) : Fields :=
  [("event_type", e.eventType), ("post_id", e.postId.str), ("author_id", e.authorId.str),
    ("created_at", eventTime e.eventType e.createdAt)]

/-- **The worker reads back what the routes publish.** -/
theorem handleFields_fields (cfg : Settings) (e : StreamEvent) :
    handleFields cfg e.fields = handleEvent cfg e := by
  have htype : e.fields.lookup "event_type" = some e.eventType := rfl
  have hpost : e.fields.lookup "post_id" = some e.postId.str := rfl
  have hauthor : e.fields.lookup "author_id" = some e.authorId.str := rfl
  have htime : e.fields.lookup "created_at" = some (eventTime e.eventType e.createdAt) := rfl
  unfold handleFields handleEvent
  simp only [htype, hpost, hauthor, htime, Option.bind_some, Uuid.parse_str, Option.getD_some]
  by_cases hcreated : e.eventType = "created"
  · have hnaive : eventTime e.eventType e.createdAt = e.createdAt.isoformat :=
      if_neg (by rw [hcreated]; decide)
    simp only [if_pos hcreated, hnaive, DateTime.fromisoformat_isoformat]
  · simp only [if_neg hcreated]

/-! ## The consumer group -/

/-- An entry of the stream. Its id is a pair of a millisecond and a sequence number; only the order of
ids matters. -/
structure StreamEntry where
  id : Nat
  fields : Fields
  deriving DecidableEq

/-- An execution of `_handle_event` that returned. -/
structure Handling where
  entry : StreamEntry
  replies : List (Reply Command PyError)

/-- The stream and the group `feed_workers` with its one consumer. Besides what Redis stores, it
records what the worker did: its calls of `_handle_event`, those that returned, and what it
acknowledged. -/
structure Group where
  entries : List StreamEntry
  created : Bool
  lastDelivered : Nat
  pending : List StreamEntry
  acked : List StreamEntry
  calls : List StreamEntry
  handled : List Handling

namespace Group

/-- No stream and no group. -/
def initial : Group where
  entries := []
  created := false
  lastDelivered := 0
  pending := []
  acked := []
  calls := []
  handled := []

/-- The entries behind a cursor, at most `batch` of them. -/
def behind (batch cursor : Nat) (es : List StreamEntry) : List StreamEntry :=
  (es.filter fun e => cursor < e.id).take batch

/-- `XREADGROUP … STREAMS stream >` hands out the next entries: the group remembers the last of them,
and they are pending. -/
def deliver (batch : Nat) (g : Group) : Group :=
  { g with
    lastDelivered := ((behind batch g.lastDelivered g.entries).getLast?.map
      StreamEntry.id).getD g.lastDelivered
    pending := g.pending ++ behind batch g.lastDelivered g.entries }

/-- `XACK`. -/
def ack (g : Group) (e : StreamEntry) : Group :=
  { g with pending := g.pending.filter fun x => x.id ≠ e.id, acked := g.acked ++ [e] }

end Group

/-- The commands of the worker; the handling of one event is one of them. -/
inductive WorkerCommand : Type → Type where
  | xgroupCreate : WorkerCommand Unit
  | readPending (batch cursor : Nat) : WorkerCommand (List StreamEntry)
  | readNew (batch : Nat) : WorkerCommand (List StreamEntry)
  | handleEvent (e : StreamEntry) : WorkerCommand Unit
  | xack (e : StreamEntry) : WorkerCommand Unit
  | isShutdown : WorkerCommand Bool

/-- A program of the worker. -/
abbrev Worker (α : Type) := Prog WorkerCommand PyError α

def busyGroup : PyError := .redisError "BUSYGROUP Consumer Group name already exists"

def ensureGroup : Worker Unit :=
  (call .xgroupCreate).tryExcept fun e => if e = busyGroup then pure () else raise e

def drainEntries : List StreamEntry → Worker Unit
  | [] => pure ()
  | e :: entries => do
      tryExcept (do call (.handleEvent e); call (.xack e)) fun _ => pure ()
      drainEntries entries

/-- `XREADGROUP` whose exceptions are caught: `none` when it raised. -/
def tryRead (c : WorkerCommand (List StreamEntry)) : Worker (Option (List StreamEntry)) :=
  tryExcept (do let entries ← call c; pure (some entries)) fun _ => pure none

/-- `_recover_pending`, with fuel for its `while True`; `none` when the fuel is used up. -/
def recoverPending (batch : Nat) : Nat → Nat → Worker (Option Unit)
  | 0, _ => pure none
  | fuel + 1, cursor => do
      let messages ← tryRead (.readPending batch cursor)
      match messages with
      | none => pure (some ())
      | some entries => do
          drainEntries entries
          match entries.getLast? with
          | none => pure (some ())
          | some last => recoverPending batch fuel last.id

/-- The main loop. -/
def mainLoop (batch : Nat) : Nat → Worker (Option Unit)
  | 0 => pure none
  | fuel + 1 => do
      let stop ← call .isShutdown
      if stop then pure (some ())
      else do
        let messages ← tryRead (.readNew batch)
        drainEntries (messages.getD [])
        mainLoop batch fuel

/-- `_process_loop`. -/
def processLoop (batch fuel : Nat) : Worker (Option Unit) := do
  ensureGroup
  let recovered ← recoverPending batch fuel 0
  match recovered with
  | none => pure none
  | some _ => mainLoop batch fuel

/-! ## Recovery -/

section Recovery

variable {batch : Nat} {raisesHandle raisesAck : StreamEntry → Bool}

/-- The consumer alone with its pending list: reads succeed, and the handling and the acknowledgement
of some entries raise. -/
def alone (raisesHandle raisesAck : StreamEntry → Bool) : Service WorkerCommand PyError Group
  | _, .xgroupCreate, g => (.ok (), { g with created := true })
  | _, .readPending batch cursor, g => (.ok (Group.behind batch cursor g.pending), g)
  | _, .readNew batch, g => (.ok (Group.behind batch g.lastDelivered g.entries), g.deliver batch)
  | _, .handleEvent e, g =>
      (if raisesHandle e then .error (.redisError "handler") else .ok (),
        { g with calls := g.calls ++ [e] })
  | _, .xack e, g =>
      if raisesAck e then (.error (.redisError "XACK"), g) else (.ok (), g.ack e)
  | _, .isShutdown, g => (.ok false, g)

/-- The group after a part of its pending list was handled. -/
def Group.worked (g : Group) (done pending acked : List StreamEntry) : Group :=
  { g with calls := g.calls ++ done, pending := pending, acked := g.acked ++ acked }

/-- Entries that stay pending. -/
def stuck (raisesHandle raisesAck : StreamEntry → Bool) (e : StreamEntry) : Bool :=
  raisesHandle e || raisesAck e

/-- One turn of the loop of `_drain_entries`. -/
theorem perform_handleOne (g : Group) (e : StreamEntry) :
    (tryExcept (do call (.handleEvent e); call (.xack e)) fun _ => pure () : Worker Unit).perform
        (alone raisesHandle raisesAck) g
      = (.ok (), if stuck raisesHandle raisesAck e then { g with calls := g.calls ++ [e] }
          else { g with calls := g.calls ++ [e] }.ack e) := by
  have hhandle := perform_call (h := alone raisesHandle raisesAck) (ε := PyError)
    (WorkerCommand.handleEvent e) g
  have hack := perform_call (h := alone raisesHandle raisesAck) (ε := PyError)
    (WorkerCommand.xack e) { g with calls := g.calls ++ [e] }
  simp only [alone] at hhandle hack
  cases hraises : raisesHandle e with
  | true =>
      rw [hraises, if_pos rfl] at hhandle
      rw [perform_tryExcept_of_error (perform_bind_of_error hhandle), stuck, hraises]
      rfl
  | false =>
      rw [hraises] at hhandle
      cases hraisesAck : raisesAck e with
      | true =>
          rw [hraisesAck, if_pos rfl] at hack
          have hbody := (perform_bind_of_ok (k := fun _ => call (.xack e)) hhandle).trans hack
          rw [perform_tryExcept_of_error hbody, stuck, hraises, hraisesAck]
          rfl
      | false =>
          rw [hraisesAck] at hack
          have hbody := (perform_bind_of_ok (k := fun _ => call (.xack e)) hhandle).trans hack
          rw [perform_tryExcept_of_ok hbody, stuck, hraises, hraisesAck]
          rfl

/-- Acknowledging an entry takes it alone out of the pending list. -/
theorem filter_ne_id {before after : List StreamEntry} {e : StreamEntry}
    (hids : ((before ++ e :: after).map StreamEntry.id).Nodup) :
    (before ++ e :: after).filter (fun x => x.id ≠ e.id) = before ++ after := by
  rw [List.map_append, List.map_cons, List.nodup_append, List.nodup_cons] at hids
  obtain ⟨-, ⟨hafter, -⟩, hbefore⟩ := hids
  rw [List.filter_append, List.filter_cons_of_neg (by simp)]
  congr 1
  · rw [List.filter_eq_self]
    intro x hx
    have hne := hbefore x.id (List.mem_map_of_mem hx) e.id List.mem_cons_self
    simpa using hne
  · rw [List.filter_eq_self]
    intro x hx
    have hne : x.id ≠ e.id := fun heq => hafter (heq ▸ List.mem_map_of_mem hx)
    simpa using hne

/-- `_drain_entries` handles each entry once and leaves pending those that raise. -/
theorem perform_drainEntries (raisesHandle raisesAck : StreamEntry → Bool) (g : Group)
    (before entries after : List StreamEntry)
    (hpending : g.pending = before ++ entries ++ after)
    (hids : (g.pending.map StreamEntry.id).Nodup) :
    (drainEntries entries).perform (alone raisesHandle raisesAck) g
      = (.ok (), g.worked entries
          (before ++ entries.filter (stuck raisesHandle raisesAck) ++ after)
          (entries.filter fun e => !stuck raisesHandle raisesAck e)) := by
  induction entries generalizing g before with
  | nil =>
      have hsame : g.worked [] (before ++ [] ++ after) [] = g := by
        rw [Group.worked, ← hpending, List.append_nil, List.append_nil]
      rw [List.filter_nil, List.filter_nil, hsame]
      rfl
  | cons e entries ih =>
      rw [drainEntries, perform_bind_of_ok (perform_handleOne g e)]
      cases hstuck : stuck raisesHandle raisesAck e with
      | true =>
          have hrest := ih { g with calls := g.calls ++ [e] } (before ++ [e]) (by simp [hpending])
            hids
          rw [if_pos rfl, hrest]
          simp [Group.worked, hstuck]
      | false =>
          have hfilter : g.pending.filter (fun x => x.id ≠ e.id) = before ++ (entries ++ after) := by
            rw [hpending, List.append_assoc, List.cons_append]
            refine filter_ne_id ?_
            rw [hpending, List.append_assoc, List.cons_append] at hids
            exact hids
          have hrest := ih ({ g with calls := g.calls ++ [e] }.ack e) before
            (by rw [Group.ack, hfilter, List.append_assoc])
            (hids.sublist (List.filter_sublist.map _))
          rw [if_neg Bool.false_ne_true, hrest]
          simp [Group.worked, Group.ack, hstuck]

/-- Entries up to the cursor are not read again. -/
theorem behind_append {before rest : List StreamEntry} {cursor : Nat}
    (hbefore : ∀ e ∈ before, e.id ≤ cursor) (hrest : ∀ e ∈ rest, cursor < e.id) :
    Group.behind batch cursor (before ++ rest) = rest.take batch := by
  have hnone : before.filter (fun e => decide (cursor < e.id)) = [] := by
    rw [List.filter_eq_nil_iff]
    intro e he
    simpa using hbefore e he
  have hall : rest.filter (fun e => decide (cursor < e.id)) = rest := by
    rw [List.filter_eq_self]
    intro e he
    simpa using hrest e he
  rw [Group.behind, List.filter_append, hnone, hall, List.nil_append]

/-- The last entry of a batch is the next cursor: the batch is up to it, the rest behind it. -/
theorem cursor_between {n : Nat} {l : List StreamEntry} {last : StreamEntry}
    (hids : (l.map StreamEntry.id).Pairwise (· < ·)) (hlast : (l.take n).getLast? = some last) :
    (∀ e ∈ l.take n, e.id ≤ last.id) ∧ ∀ e ∈ l.drop n, last.id < e.id := by
  obtain ⟨first, hfirst⟩ := List.getLast?_eq_some_iff.mp hlast
  rw [← List.take_append_drop n l, List.map_append, List.pairwise_append] at hids
  obtain ⟨htake, -, hcross⟩ := hids
  have hmem : last ∈ l.take n := List.mem_of_getLast? hlast
  rw [hfirst, List.map_append, List.pairwise_append] at htake
  constructor
  · intro e he
    rw [hfirst, List.mem_append, List.mem_singleton] at he
    rcases he with he | rfl
    · exact (htake.2.2 e.id (List.mem_map_of_mem he) last.id List.mem_cons_self).le
    · exact le_refl _
  · intro e he
    exact hcross last.id (List.mem_map_of_mem hmem) e.id (List.mem_map_of_mem he)

/-- **The step lemma of recovery**: behind the cursor stands what was not handled yet, before it what
raised. -/
theorem perform_recoverPending (raisesHandle raisesAck : StreamEntry → Bool) (hbatch : 1 ≤ batch)
    (fuel cursor : Nat) (g : Group)
    (before rest : List StreamEntry) (hpending : g.pending = before ++ rest)
    (hids : (g.pending.map StreamEntry.id).Pairwise (· < ·))
    (hbefore : ∀ e ∈ before, e.id ≤ cursor) (hrest : ∀ e ∈ rest, cursor < e.id)
    (hfuel : rest.length < fuel) :
    (recoverPending batch fuel cursor).perform (alone raisesHandle raisesAck) g
      = (.ok (some ()), g.worked rest (before ++ rest.filter (stuck raisesHandle raisesAck))
          (rest.filter fun e => !stuck raisesHandle raisesAck e)) := by
  induction fuel generalizing cursor g before rest with
  | zero => omega
  | succ fuel ih =>
      have hbehind : Group.behind batch cursor g.pending = rest.take batch := by
        rw [hpending]
        exact behind_append hbefore hrest
      have hread : (tryRead (.readPending batch cursor)).perform (alone raisesHandle raisesAck) g
          = (.ok (some (rest.take batch)), g) := by
        have hcall := perform_call (h := alone raisesHandle raisesAck) (ε := PyError)
          (WorkerCommand.readPending batch cursor) g
        simp only [alone, hbehind] at hcall
        exact perform_tryExcept_of_ok (perform_bind_of_ok hcall)
      have hnodup : (g.pending.map StreamEntry.id).Nodup := hids.imp fun hlt => Nat.ne_of_lt hlt
      have hdrain := perform_drainEntries raisesHandle raisesAck g
        before (rest.take batch) (rest.drop batch)
        (by rw [hpending, List.append_assoc, List.take_append_drop]) hnodup
      rw [recoverPending, perform_bind_of_ok hread]
      show ((drainEntries (rest.take batch) >>= _).perform _ g) = _
      rw [perform_bind_of_ok hdrain]
      cases hlast : (rest.take batch).getLast? with
      | none =>
          have hnil : rest = [] := by
            rcases List.take_eq_nil_iff.mp (List.getLast?_eq_none_iff.mp hlast) with hzero | hnil
            · omega
            · exact hnil
          subst hnil
          simp
      | some last =>
          have hrestIds : (rest.map StreamEntry.id).Pairwise (· < ·) := by
            rw [hpending, List.map_append, List.pairwise_append] at hids
            exact hids.2.1
          obtain ⟨htake, hdrop⟩ := cursor_between hrestIds hlast
          have hmemLast : last ∈ rest.take batch := List.mem_of_getLast? hlast
          have hcursor := hrest last (List.mem_of_mem_take hmemLast)
          have hlength : (rest.drop batch).length < fuel := by
            have hpos : 0 < rest.length := List.length_pos_of_mem (List.mem_of_mem_take hmemLast)
            rw [List.length_drop]
            omega
          have hnext := ih last.id
            (g.worked (rest.take batch) (before ++ (rest.take batch).filter
              (stuck raisesHandle raisesAck) ++ rest.drop batch)
              ((rest.take batch).filter fun e => !stuck raisesHandle raisesAck e))
            (before ++ (rest.take batch).filter (stuck raisesHandle raisesAck)) (rest.drop batch)
            rfl ?_ ?_ hdrop hlength
          · refine hnext.trans ?_
            have hsplit : ∀ p : StreamEntry → Bool, rest.filter p
                = (rest.take batch).filter p ++ (rest.drop batch).filter p := fun p => by
              rw [← List.filter_append, List.take_append_drop]
            simp only [Group.worked, List.append_assoc, List.take_append_drop, hsplit]
          · refine hids.sublist (List.Sublist.map _ ?_)
            rw [hpending, List.append_assoc]
            refine (List.Sublist.refl before).append ?_
            conv_rhs => rw [← List.take_append_drop batch rest]
            exact List.filter_sublist.append_right _
          · intro e he
            rcases List.mem_append.mp he with he | he
            · exact (hbefore e he).trans hcursor.le
            · exact htake e (List.mem_filter.mp he).1

/-- **`_recover_pending` ends, handles every pending entry once, in the order of their ids, and leaves
pending those whose handling or acknowledgement raised.** -/
theorem recoverPending_once (batch fuel : Nat) (raisesHandle raisesAck : StreamEntry → Bool)
    (g : Group) (hbatch : 1 ≤ batch) (hpos : ∀ e ∈ g.pending, 0 < e.id)
    (hids : (g.pending.map StreamEntry.id).Pairwise (· < ·)) (hfuel : g.pending.length < fuel) :
    ∃ g', (recoverPending batch fuel 0).perform (alone raisesHandle raisesAck) g
        = (.ok (some ()), g') ∧
      g'.calls = g.calls ++ g.pending ∧
      g'.pending = g.pending.filter (fun e => raisesHandle e || raisesAck e) := by
  have hrun := perform_recoverPending raisesHandle raisesAck
    hbatch fuel 0 g [] g.pending rfl hids (fun e he => absurd he List.not_mem_nil) hpos hfuel
  exact ⟨_, hrun, rfl, rfl⟩

/-- Three pending entries in batches of two, one of them poisoned. -/
theorem recoverPending_once_poisoned :
    ∃ g', (recoverPending 2 4 0).perform (alone (fun e => e.id = 2) fun _ => false)
        { Group.initial with pending := [⟨1, []⟩, ⟨2, []⟩, ⟨3, []⟩] } = (.ok (some ()), g') ∧
      g'.calls = [⟨1, []⟩, ⟨2, []⟩, ⟨3, []⟩] ∧
      g'.pending = ([⟨1, []⟩, ⟨2, []⟩, ⟨3, []⟩] : List StreamEntry).filter
        (fun e => decide (e.id = 2) || false) :=
  recoverPending_once 2 4 (fun e => e.id = 2) (fun _ => false)
    { Group.initial with pending := [⟨1, []⟩, ⟨2, []⟩, ⟨3, []⟩] } (by decide) (by decide) (by decide)
    (by decide)

end Recovery

/-! ## Runs with faults, crashes and restarts -/

/-- What a command can do: it takes effect and returns, or it raises with or without an effect. The
handling of an event is some execution of `_handle_event`, whatever the stores reply. -/
def Happens (cfg : Settings) : {β : Type} → WorkerCommand β → Group → Except PyError β → Group → Prop
  | _, .xgroupCreate, g, r, g' =>
      (g.created = true ∧ r = .error busyGroup ∧ g' = g) ∨
        (g.created = false ∧ g' = { g with created := true, lastDelivered := 0 }) ∨
        (∃ e, r = .error e ∧ g' = g)
  | _, .readPending batch cursor, g, r, g' =>
      (r = .ok (Group.behind batch cursor g.pending) ∨ ∃ e, r = .error e) ∧ g' = g
  | _, .readNew batch, g, r, g' =>
      (g.created = true ∧ g' = g.deliver batch ∧
        (r = .ok (Group.behind batch g.lastDelivered g.entries) ∨ ∃ e, r = .error e)) ∨
        ((∃ e, r = .error e) ∧ g' = g)
  | _, .handleEvent e, g, r, g' => ∃ replies, Performs (handleFields cfg e.fields) replies r ∧
      g' = { g with
        calls := g.calls ++ [e]
        handled := match r with
          | .ok _ => g.handled ++ [⟨e, replies⟩]
          | .error _ => g.handled }
  | _, .xack e, g, r, g' => g' = g.ack e ∨ ((∃ err, r = .error err) ∧ g' = g)
  | _, .isShutdown, g, _, g' => g' = g

/-- The worker process, when one runs, and the group. -/
structure System where
  worker : Option (Worker (Option Unit))
  group : Group

/-- One step of anybody. A worker that crashed or ended is started again under the same consumer
name. -/
inductive Step (cfg : Settings) (batch : Nat) : System → System → Prop
  | xadd (s : System) (id : Nat) (fields : Fields) (hpos : 0 < id)
      (hid : ∀ e ∈ s.group.entries, e.id < id) :
      Step cfg batch s { s with group := { s.group with entries := s.group.entries ++ [⟨id, fields⟩] } }
  | start (g : Group) (fuel : Nat) :
      Step cfg batch ⟨none, g⟩ ⟨some (processLoop batch fuel), g⟩
  | command {β : Type} (c : WorkerCommand β) (next : Except PyError β → Worker (Option Unit))
      (g g' : Group) (r : Except PyError β) (h : Happens cfg c g r g') :
      Step cfg batch ⟨some (.cmd c next), g⟩ ⟨some (next r), g'⟩
  | crash (s : System) : Step cfg batch s { s with worker := none }

/-- The states of the runs from an empty stream. -/
def Reachable (cfg : Settings) (batch : Nat) (s : System) : Prop :=
  Relation.ReflTransGen (Step cfg batch) ⟨none, Group.initial⟩ s

/-! ## The worker acknowledges only what it handled -/

/-- What a worker can know of an entry. -/
inductive Fact where
  | read (e : StreamEntry)
  | handled (e : StreamEntry)

/-- An event is handled when a read returned it, and acknowledged when its handling returned. -/
def acksHandled : Discipline WorkerCommand PyError Fact where
  needs
    | .handleEvent e => {.read e}
    | .xack e => {.handled e}
    | _ => ∅
  learns
    | .readPending _ _, .ok entries => {f | ∃ e ∈ entries, f = .read e}
    | .readNew _, .ok entries => {f | ∃ e ∈ entries, f = .read e}
    | .handleEvent e, .ok _ => {.handled e}
    | _, _ => ∅

section Heeds

variable {H : Set Fact}

theorem heeds_drainEntries {entries : List StreamEntry} (hread : ∀ e ∈ entries, Fact.read e ∈ H) :
    Heeds acksHandled (drainEntries entries) H := by
  induction entries with
  | nil => trivial
  | cons e entries ih =>
      have hrest := ih fun x hx => hread x (List.mem_cons_of_mem e hx)
      refine heeds_bind (heeds_tryExcept ?_ fun _ => trivial) fun _ => hrest
      refine heeds_call_bind ?_ fun _ => heeds_call Set.subset_union_right
      exact Set.singleton_subset_iff.mpr (hread e List.mem_cons_self)

/-- What is done with the entries of a read may rely on their having been read. -/
theorem heeds_tryRead_bind {α : Type} {c : WorkerCommand (List StreamEntry)}
    {k : Option (List StreamEntry) → Worker α} (hc : acksHandled.needs c ⊆ H)
    (hlearns : ∀ entries, acksHandled.learns c (.ok entries) = {f | ∃ e ∈ entries, f = .read e})
    (hnone : Heeds acksHandled (k none) H)
    (hsome : ∀ (entries : List StreamEntry) (H' : Set Fact), H ⊆ H' →
      (∀ e ∈ entries, Fact.read e ∈ H') → Heeds acksHandled (k (some entries)) H') :
    Heeds acksHandled (tryRead c >>= k) H := by
  refine ⟨hc, fun r => ?_⟩
  cases r with
  | ok entries =>
      refine hsome entries _ Set.subset_union_left fun e he => Or.inr ?_
      rw [hlearns]
      exact ⟨e, he, rfl⟩
  | error e => exact hnone.mono Set.subset_union_left

theorem heeds_recoverPending (batch fuel cursor : Nat) :
    Heeds acksHandled (recoverPending batch fuel cursor) H := by
  induction fuel generalizing cursor H with
  | zero => trivial
  | succ fuel ih =>
      refine heeds_tryRead_bind (Set.empty_subset _) (fun _ => rfl) trivial
        fun entries H' _ hread => ?_
      refine heeds_bind (heeds_drainEntries hread) fun _ => ?_
      cases entries.getLast? with
      | none => trivial
      | some last => exact ih last.id

theorem heeds_mainLoop (batch fuel : Nat) : Heeds acksHandled (mainLoop batch fuel) H := by
  induction fuel generalizing H with
  | zero => trivial
  | succ fuel ih =>
      refine heeds_bind (heeds_call (Set.empty_subset _)) fun stop => ?_
      cases stop with
      | true => trivial
      | false =>
          refine heeds_tryRead_bind (Set.empty_subset _) (fun _ => rfl) ?_
            fun entries H' _ hread => ?_
          · exact heeds_bind (heeds_drainEntries fun e he => absurd he List.not_mem_nil) fun _ => ih
          · exact heeds_bind (heeds_drainEntries hread) fun _ => ih

theorem heeds_processLoop (batch fuel : Nat) : Heeds acksHandled (processLoop batch fuel) H := by
  refine heeds_bind ?_ fun _ => heeds_bind (heeds_recoverPending batch fuel 0) fun recovered => ?_
  · refine heeds_tryExcept (heeds_call (Set.empty_subset _)) fun e => ?_
    by_cases hbusy : e = busyGroup
    · rw [if_pos hbusy]
      trivial
    · rw [if_neg hbusy]
      trivial
  · cases recovered with
    | none => trivial
    | some _ => exact heeds_mainLoop batch fuel

end Heeds

/-! ## Nothing is lost -/

/-- What is true of a group. -/
def Group.facts (g : Group) : Set Fact
  | .read e => e ∈ g.entries
  | .handled e => ∃ x ∈ g.handled, x.entry = e

/-- The invariant of the system. -/
structure Kept (cfg : Settings) (s : System) : Prop where
  positive : ∀ e ∈ s.group.entries, 0 < e.id
  ascending : s.group.entries.Pairwise fun e f => e.id < f.id
  last : s.group.lastDelivered = 0 ∨ ∃ e ∈ s.group.entries, e.id = s.group.lastDelivered
  delivered : ∀ e ∈ s.group.entries, e.id ≤ s.group.lastDelivered →
    e ∈ s.group.pending ∨ e ∈ s.group.acked
  pending : ∀ e ∈ s.group.pending, e ∈ s.group.entries
  acked : ∀ e ∈ s.group.acked, ∃ x ∈ s.group.handled, x.entry = e
  handled : ∀ x ∈ s.group.handled, x.entry ∈ s.group.entries ∧
    Performs (handleFields cfg x.entry.fields) x.replies (.ok ())
  heeds : ∀ p ∈ s.worker, Heeds acksHandled p s.group.facts

theorem kept_initial (cfg : Settings) : Kept cfg ⟨none, Group.initial⟩ where
  positive e he := absurd he List.not_mem_nil
  ascending := List.Pairwise.nil
  last := Or.inl rfl
  delivered e he := absurd he List.not_mem_nil
  pending e he := absurd he List.not_mem_nil
  acked e he := absurd he List.not_mem_nil
  handled x hx := absurd hx List.not_mem_nil
  heeds p hp := by simp at hp

theorem eq_of_id_eq {g : Group} (h : g.entries.Pairwise fun e f => e.id < f.id) {e f : StreamEntry}
    (he : e ∈ g.entries) (hf : f ∈ g.entries) (hid : e.id = f.id) : e = f := by
  have hnodup : (g.entries.map StreamEntry.id).Nodup := by
    rw [List.nodup_iff_pairwise_ne, List.pairwise_map]
    exact h.imp fun hlt => Nat.ne_of_lt hlt
  exact List.inj_on_of_nodup_map hnodup he hf hid

/-- **What a delivery passes over is pending**: the entries up to the new last one were delivered
before, or are in the batch. -/
theorem mem_behind_of_le {batch last : Nat} {es : List StreamEntry} {e x : StreamEntry}
    (hes : es.Pairwise fun e f => e.id < f.id)
    (hlast : (Group.behind batch last es).getLast? = some x) (he : e ∈ es) (hle : e.id ≤ x.id) :
    e.id ≤ last ∨ e ∈ Group.behind batch last es := by
  by_cases hold : e.id ≤ last
  · exact Or.inl hold
  · right
    have hmem : e ∈ es.filter fun e => decide (last < e.id) := by
      rw [List.mem_filter]
      exact ⟨he, by simpa using hold⟩
    have hsorted : (es.filter fun e => decide (last < e.id)).Pairwise fun e f => e.id < f.id :=
      hes.sublist List.filter_sublist
    rw [← List.take_append_drop batch (es.filter fun e => decide (last < e.id)),
      List.pairwise_append] at hsorted
    rw [← List.take_append_drop batch (es.filter fun e => decide (last < e.id)),
      List.mem_append] at hmem
    rcases hmem with hmem | hmem
    · exact hmem
    · have hlt := hsorted.2.2 x (List.mem_of_getLast? hlast) e hmem
      omega

theorem Group.deliver_eq_of_none {batch : Nat} {g : Group}
    (h : (Group.behind batch g.lastDelivered g.entries).getLast? = none) : g.deliver batch = g := by
  rw [deliver, h, List.getLast?_eq_none_iff.mp h, List.append_nil]
  rfl

/-- A delivery keeps the invariant of the group. -/
theorem Kept.deliver {cfg : Settings} {batch : Nat} {s : System} (h : Kept cfg s) :
    Kept cfg { s with group := s.group.deliver batch } := by
  cases hlast : (Group.behind batch s.group.lastDelivered s.group.entries).getLast? with
  | none =>
      rw [Group.deliver_eq_of_none hlast]
      exact h
  | some x =>
      have hid : (s.group.deliver batch).lastDelivered = x.id := by
        rw [Group.deliver, hlast]
        rfl
      have hx : x ∈ s.group.entries :=
        (List.mem_filter.mp (List.mem_of_mem_take (List.mem_of_getLast? hlast))).1
      exact
        { positive := h.positive
          ascending := h.ascending
          last := Or.inr ⟨x, hx, hid.symm⟩
          delivered := by
            intro e he hle
            have hle' : e.id ≤ x.id := hid ▸ hle
            rcases mem_behind_of_le h.ascending hlast he hle' with hold | hnew
            · rcases h.delivered e he hold with hpending | hacked
              · exact Or.inl (List.mem_append_left _ hpending)
              · exact Or.inr hacked
            · exact Or.inl (List.mem_append_right _ hnew)
          pending := by
            intro e he
            rcases List.mem_append.mp he with he | he
            · exact h.pending e he
            · exact (List.mem_filter.mp (List.mem_of_mem_take he)).1
          acked := h.acked
          handled := h.handled
          heeds := h.heeds }

/-- An acknowledgement of a handled entry keeps the invariant of the group. -/
theorem Kept.ack {cfg : Settings} {s : System} (h : Kept cfg s) {e : StreamEntry}
    (he : ∃ x ∈ s.group.handled, x.entry = e) : Kept cfg { s with group := s.group.ack e } where
  positive := h.positive
  ascending := h.ascending
  last := h.last
  delivered := by
    intro x hx hle
    by_cases hid : x.id = e.id
    · right
      obtain ⟨y, hy, rfl⟩ := he
      rw [eq_of_id_eq h.ascending hx (h.handled y hy).1 hid]
      exact List.mem_append_right _ List.mem_cons_self
    · rcases h.delivered x hx hle with hpending | hacked
      · left
        exact List.mem_filter.mpr ⟨hpending, by simpa using hid⟩
      · exact Or.inr (List.mem_append_left _ hacked)
  pending x hx := h.pending x (List.mem_filter.mp hx).1
  acked := by
    intro x hx
    rcases List.mem_append.mp hx with hx | hx
    · exact h.acked x hx
    · rw [List.mem_singleton.mp hx]
      exact he
  handled := h.handled
  heeds := h.heeds

/-- The worker goes on from a group in which no fewer facts hold than it knows. -/
theorem Kept.withWorker {cfg : Settings} {w w' : Option (Worker (Option Unit))} {g : Group}
    (h : Kept cfg ⟨w, g⟩) (hheeds : ∀ p ∈ w', Heeds acksHandled p g.facts) : Kept cfg ⟨w', g⟩ where
  positive := h.positive
  ascending := h.ascending
  last := h.last
  delivered := h.delivered
  pending := h.pending
  acked := h.acked
  handled := h.handled
  heeds := hheeds

/-- What a command leaves: the invariant of the group, and whatever the reply establishes. -/
theorem Kept.happens {cfg : Settings} {β : Type} {c : WorkerCommand β} {g g' : Group}
    {r : Except PyError β} (h : Kept cfg ⟨none, g⟩) (hneeds : acksHandled.needs c ⊆ g.facts)
    (hc : Happens cfg c g r g') :
    Kept cfg ⟨none, g'⟩ ∧ g.facts ∪ acksHandled.learns c r ⊆ g'.facts := by
  cases c with
  | xgroupCreate =>
      have hlearns : acksHandled.learns WorkerCommand.xgroupCreate r = ∅ := by cases r <;> rfl
      rw [hlearns, Set.union_empty]
      rcases hc with ⟨-, -, rfl⟩ | ⟨-, rfl⟩ | ⟨-, -, rfl⟩
      · exact ⟨h, subset_rfl⟩
      · refine ⟨?_, fun f hf => by cases f <;> exact hf⟩
        exact
          { positive := h.positive
            ascending := h.ascending
            last := Or.inl rfl
            delivered := fun e he hle => absurd (h.positive e he) (Nat.not_lt.mpr hle)
            pending := h.pending
            acked := h.acked
            handled := h.handled
            heeds := fun p hp => by simp at hp }
      · exact ⟨h, subset_rfl⟩
  | readPending batch cursor =>
      obtain ⟨hr, rfl⟩ := hc
      refine ⟨h, Set.union_subset subset_rfl ?_⟩
      rcases hr with rfl | ⟨e, rfl⟩
      · rintro f ⟨e, he, rfl⟩
        exact h.pending e (List.mem_filter.mp (List.mem_of_mem_take he)).1
      · exact Set.empty_subset _
  | readNew batch =>
      rcases hc with ⟨-, rfl, hr⟩ | ⟨⟨e, rfl⟩, rfl⟩
      · refine ⟨h.deliver, Set.union_subset (fun f hf => by cases f <;> exact hf) ?_⟩
        rcases hr with rfl | ⟨e, rfl⟩
        · rintro f ⟨e, he, rfl⟩
          exact (List.mem_filter.mp (List.mem_of_mem_take he)).1
        · exact Set.empty_subset _
      · exact ⟨h, Set.union_subset subset_rfl (Set.empty_subset _)⟩
  | handleEvent e =>
      have hentry : e ∈ g.entries := hneeds (Set.mem_singleton (Fact.read e))
      obtain ⟨replies, hperforms, rfl⟩ := hc
      cases r with
      | ok u =>
          refine ⟨?_, Set.union_subset ?_ ?_⟩
          · exact
              { positive := h.positive
                ascending := h.ascending
                last := h.last
                delivered := h.delivered
                pending := h.pending
                acked := by
                  intro x hx
                  obtain ⟨y, hy, rfl⟩ := h.acked x hx
                  exact ⟨y, List.mem_append_left _ hy, rfl⟩
                handled := by
                  intro x hx
                  rcases List.mem_append.mp hx with hx | hx
                  · exact h.handled x hx
                  · rw [List.mem_singleton.mp hx]
                    exact ⟨hentry, hperforms⟩
                heeds := fun p hp => by simp at hp }
          · intro f hf
            cases f with
            | read x => exact hf
            | handled x =>
                obtain ⟨y, hy, rfl⟩ := hf
                exact ⟨y, List.mem_append_left _ hy, rfl⟩
          · exact Set.singleton_subset_iff.mpr ⟨_, List.mem_append_right _ List.mem_cons_self, rfl⟩
      | error err =>
          refine ⟨?_, Set.union_subset (fun f hf => by cases f <;> exact hf) (Set.empty_subset _)⟩
          exact
            { positive := h.positive
              ascending := h.ascending
              last := h.last
              delivered := h.delivered
              pending := h.pending
              acked := h.acked
              handled := h.handled
              heeds := fun p hp => by simp at hp }
  | xack e =>
      have hlearns : acksHandled.learns (WorkerCommand.xack e) r = ∅ := by cases r <;> rfl
      rw [hlearns, Set.union_empty]
      rcases hc with rfl | ⟨-, rfl⟩
      · have hhandled : ∃ x ∈ g.handled, x.entry = e := hneeds (Set.mem_singleton (Fact.handled e))
        exact ⟨h.ack hhandled, fun f hf => by cases f <;> exact hf⟩
      · exact ⟨h, subset_rfl⟩
  | isShutdown =>
      have hlearns : acksHandled.learns WorkerCommand.isShutdown r = ∅ := by cases r <;> rfl
      rw [hlearns, Set.union_empty]
      obtain rfl := hc
      exact ⟨h, subset_rfl⟩

/-- **The step lemma.** -/
theorem Kept.step {cfg : Settings} {batch : Nat} {s s' : System} (h : Kept cfg s)
    (hs : Step cfg batch s s') : Kept cfg s' := by
  cases hs with
  | xadd _ id fields hpos hid =>
      have hfacts : s.group.facts
          ⊆ Group.facts { s.group with entries := s.group.entries ++ [⟨id, fields⟩] } := by
        intro f hf
        cases f with
        | read x => exact List.mem_append_left _ hf
        | handled x => exact hf
      exact
        { positive := by
            intro e he
            rcases List.mem_append.mp he with he | he
            · exact h.positive e he
            · rw [List.mem_singleton.mp he]
              exact hpos
          ascending := by
            rw [List.pairwise_append]
            refine ⟨h.ascending, List.pairwise_singleton _ _, fun e he f hf => ?_⟩
            rw [List.mem_singleton.mp hf]
            exact hid e he
          last := by
            rcases h.last with hzero | ⟨e, he, hlast⟩
            · exact Or.inl hzero
            · exact Or.inr ⟨e, List.mem_append_left _ he, hlast⟩
          delivered := by
            intro e he hle
            rcases List.mem_append.mp he with he | he
            · exact h.delivered e he hle
            · -- the new entry is behind the last one that was delivered
              rw [List.mem_singleton.mp he] at hle
              change id ≤ s.group.lastDelivered at hle
              rcases h.last with hzero | ⟨x, hx, hlast⟩
              · omega
              · have := hid x hx
                omega
          pending := fun e he => List.mem_append_left _ (h.pending e he)
          acked := h.acked
          handled := fun x hx => ⟨List.mem_append_left _ (h.handled x hx).1, (h.handled x hx).2⟩
          heeds := fun p hp => (h.heeds p hp).mono hfacts }
  | start g fuel =>
      refine h.withWorker fun p hp => ?_
      rw [← Option.some.inj hp]
      exact heeds_processLoop batch fuel
  | command c next g g' r hc =>
      obtain ⟨hneeds, hnext⟩ := h.heeds _ rfl
      have hgroup : Kept cfg ⟨none, g⟩ := h.withWorker fun p hp => by simp at hp
      obtain ⟨hkept, hfacts⟩ := hgroup.happens hneeds hc
      refine hkept.withWorker fun p hp => ?_
      rw [← Option.some.inj hp]
      exact (hnext r).mono hfacts
  | crash => exact h.withWorker fun p hp => by simp at hp

/-- The run lemma. -/
theorem Reachable.kept {cfg : Settings} {batch : Nat} {s : System} (h : Reachable cfg batch s) :
    Kept cfg s := by
  induction h with
  | refl => exact kept_initial cfg
  | tail _ hs ih => exact ih.step hs

/-- `_handle_event` returned because it rejected the event, or because it carried it out. -/
inductive Settled (cfg : Settings) (fields : Fields) : List (Reply Command PyError) → Prop
  | malformed (h : (fields.lookup "post_id").bind Uuid.parse = none ∨
      (fields.lookup "author_id").bind Uuid.parse = none) : Settled cfg fields []
  | unknownType (h : (fields.lookup "event_type").getD "" ≠ "created" ∧
      (fields.lookup "event_type").getD "" ≠ "deleted") : Settled cfg fields []
  | fannedOut (postId authorId : Uuid) (createdAt : DateTime) (followers : List Uuid)
      (hpost : (fields.lookup "post_id").bind Uuid.parse = some postId)
      (hauthor : (fields.lookup "author_id").bind Uuid.parse = some authorId)
      (htype : fields.lookup "event_type" = some "created")
      (hcreated : (fields.lookup "created_at").bind DateTime.fromisoformat = some createdAt) :
      Settled cfg fields (⟨Command.selectFollowers authorId, .ok followers⟩ ::
        (followers.flatMap fun f =>
          [Command.zadd (.feed f) createdAt postId, trimFeed cfg.feedMaxSize f]).map
            fun c => ⟨c, .ok ()⟩)
  | removed (postId authorId : Uuid) (followers : List Uuid)
      (hpost : (fields.lookup "post_id").bind Uuid.parse = some postId)
      (hauthor : (fields.lookup "author_id").bind Uuid.parse = some authorId)
      (htype : fields.lookup "event_type" = some "deleted") :
      Settled cfg fields (⟨Command.selectFollowers authorId, .ok followers⟩ ::
        (followers.map fun f => Command.zrem (.feed f) [postId]).map fun c => ⟨c, .ok ()⟩)

/-- A pipeline over the followers that returned carried out its commands for each of them. -/
theorem performs_followers_ok {authorId : Uuid} (cmds : List Uuid → List (Command Unit))
    (hnil : cmds [] = []) {replies : List (Reply Command PyError)} {u : Unit}
    (h : Performs (do
        let followers ← getFollowers authorId
        if followers.isEmpty then pure ()
        else do
          let _ ← pipeline (cmds followers)
          pure ()) replies (.ok u)) :
    ∃ followers, replies = ⟨Command.selectFollowers authorId, .ok followers⟩ ::
      (cmds followers).map fun c => ⟨c, .ok ()⟩ := by
  obtain ⟨first, second, followers, rfl, hfirst, hsecond⟩ := performs_bind_ok h
  refine ⟨followers, ?_⟩
  rw [performs_call_ok hfirst]
  by_cases hempty : followers.isEmpty = true
  · rw [if_pos hempty] at hsecond
    rw [List.isEmpty_iff.mp hempty, hnil]
    cases hsecond
    rfl
  · rw [if_neg hempty] at hsecond
    obtain ⟨third, fourth, bs, rfl, hthird, hfourth⟩ := performs_bind_ok hsecond
    cases hfourth
    rw [performs_pipeline_ok hthird, List.append_nil]
    rfl

/-- A fan-out that returned reached every follower. -/
theorem performs_fanOutPost_ok {cfg : Settings} {postId authorId : Uuid} {createdAt : DateTime}
    {replies : List (Reply Command PyError)} {u : Unit}
    (h : Performs (fanOutPost cfg postId authorId createdAt) replies (.ok u)) :
    ∃ followers, replies = ⟨Command.selectFollowers authorId, .ok followers⟩ ::
      (followers.flatMap fun f =>
        [Command.zadd (.feed f) createdAt postId, trimFeed cfg.feedMaxSize f]).map
          fun c => ⟨c, .ok ()⟩ :=
  performs_followers_ok (fun followers => followers.flatMap fun f =>
    [Command.zadd (.feed f) createdAt postId, trimFeed cfg.feedMaxSize f]) rfl h

/-- So did a removal. -/
theorem performs_removePostFromAllFeeds_ok {postId authorId : Uuid}
    {replies : List (Reply Command PyError)} {u : Unit}
    (h : Performs (removePostFromAllFeeds postId authorId) replies (.ok u)) :
    ∃ followers, replies = ⟨Command.selectFollowers authorId, .ok followers⟩ ::
      (followers.map fun f => Command.zrem (.feed f) [postId]).map fun c => ⟨c, .ok ()⟩ :=
  performs_followers_ok (fun followers =>
    followers.map fun f => Command.zrem (.feed f) [postId]) rfl h

/-- **An execution of `_handle_event` that returned settled the event.** -/
theorem settled_of_performs {cfg : Settings} {fields : Fields}
    {replies : List (Reply Command PyError)}
    (h : Performs (handleFields cfg fields) replies (.ok ())) : Settled cfg fields replies := by
  unfold handleFields at h
  cases hpost : (fields.lookup "post_id").bind Uuid.parse with
  | none =>
      rw [hpost] at h
      cases h
      exact .malformed (Or.inl hpost)
  | some postId =>
      cases hauthor : (fields.lookup "author_id").bind Uuid.parse with
      | none =>
          rw [hpost, hauthor] at h
          cases h
          exact .malformed (Or.inr hauthor)
      | some authorId =>
          simp only [hpost, hauthor] at h
          -- a type other than the default "" comes from the fields
          have htype : ∀ t, t ≠ "" → (fields.lookup "event_type").getD "" = t →
              fields.lookup "event_type" = some t := by
            intro t ht heq
            cases hlookup : fields.lookup "event_type" with
            | none =>
                rw [hlookup] at heq
                exact absurd heq.symm ht
            | some t' =>
                rw [hlookup] at heq
                rw [← heq]
                rfl
          by_cases hcreated : (fields.lookup "event_type").getD "" = "created"
          · rw [if_pos hcreated] at h
            cases hat : fields.lookup "created_at" with
            | none =>
                rw [hat] at h
                cases h
            | some text =>
                simp only [hat] at h
                cases hparse : DateTime.fromisoformat text with
                | none =>
                    rw [hparse] at h
                    cases h
                | some createdAt =>
                    simp only [hparse] at h
                    obtain ⟨followers, rfl⟩ := performs_fanOutPost_ok h
                    exact .fannedOut postId authorId createdAt followers hpost hauthor
                      (htype _ (by decide) hcreated) (by rw [hat]; exact hparse)
          · rw [if_neg hcreated] at h
            by_cases hdeleted : (fields.lookup "event_type").getD "" = "deleted"
            · rw [if_pos hdeleted] at h
              obtain ⟨followers, rfl⟩ := performs_removePostFromAllFeeds_ok h
              exact .removed postId authorId followers hpost hauthor (htype _ (by decide) hdeleted)
            · rw [if_neg hdeleted] at h
              cases h
              exact .unknownType ⟨hcreated, hdeleted⟩

/-- **The worker loses no event.** In every reachable state an entry of the stream is not yet
delivered, or pending, or acknowledged; and what is acknowledged was handled by an execution that
returned, having rejected the event or reached every follower. -/
theorem no_event_lost (cfg : Settings) (batch : Nat) (s : System) (h : Reachable cfg batch s)
    (e : StreamEntry) (he : e ∈ s.group.entries) :
    (s.group.lastDelivered < e.id ∨ e ∈ s.group.pending ∨ e ∈ s.group.acked) ∧
      (e ∈ s.group.acked → ∃ replies, ⟨e, replies⟩ ∈ s.group.handled ∧
        Performs (handleFields cfg e.fields) replies (.ok ()) ∧ Settled cfg e.fields replies) := by
  have hkept := h.kept
  refine ⟨?_, fun hacked => ?_⟩
  · by_cases hle : e.id ≤ s.group.lastDelivered
    · exact Or.inr (hkept.delivered e he hle)
    · exact Or.inl (Nat.lt_of_not_le hle)
  · obtain ⟨⟨entry, replies⟩, hx, rfl⟩ := hkept.acked e hacked
    have hperforms := (hkept.handled _ hx).2
    exact ⟨replies, hx, hperforms, settled_of_performs hperforms⟩

/-- Noon on the first day of 2024. -/
def newYear : DateTime :=
  { year := 2024, month := 1, day := 1, hour := 12, minute := 0, second := 0, microsecond := 0
    year_range := year_range_2024, month_range := january_range, day_range := first_day
    hour_lt := noon_lt_midnight, minute_lt := zero_lt_sixty, second_lt := zero_lt_sixty
    microsecond_lt := zero_lt_million }

/-- A created event of author 2. -/
def pushedEntry : StreamEntry :=
  ⟨5, StreamEvent.fields ⟨"created", .ofNat 14, .ofNat 2, newYear⟩⟩

/-- What `_handle_event` gets for it: one follower, and the replies of the pipeline. -/
def pushedReplies : List (Reply Command PyError) :=
  [⟨.selectFollowers (.ofNat 2), .ok [.ofNat 1]⟩,
    ⟨.zadd (.feed (.ofNat 1)) newYear (.ofNat 14), .ok ()⟩,
    ⟨trimFeed 1000 (.ofNat 1), .ok ()⟩]

/-- A worker that runs its next command. -/
theorem Reachable.command {cfg : Settings} {batch : Nat} {β : Type} {c : WorkerCommand β}
    {next : Except PyError β → Worker (Option Unit)} {g g' : Group} {r : Except PyError β}
    (h : Reachable cfg batch ⟨some (.cmd c next), g⟩) (hhappens : Happens cfg c g r g') :
    Reachable cfg batch ⟨some (next r), g'⟩ :=
  h.tail (.command c next g g' r hhappens)

/-- The event is delivered, its handling raises, the worker crashes and is started again; the event is
read again from the pending list, handled and acknowledged. -/
theorem no_event_lost_redelivered : ∃ s, Reachable {} 100 s ∧ s.group.acked = [pushedEntry] ∧
    s.group.calls = [pushedEntry, pushedEntry] ∧
    ∃ replies, ⟨pushedEntry, replies⟩ ∈ s.group.handled ∧
      Performs (handleFields {} pushedEntry.fields) replies (.ok ()) ∧
      Settled {} pushedEntry.fields replies := by
  have hraises : Performs (handleFields {} pushedEntry.fields)
      [⟨.selectFollowers (.ofNat 2), .error (.databaseError "gone")⟩] (.error (.databaseError "gone")) := by
    unfold pushedEntry
    rw [handleFields_fields]
    exact .cmd _ _ _ (.raise _)
  have hreturns : Performs (handleFields {} pushedEntry.fields) pushedReplies (.ok ()) := by
    unfold pushedEntry
    rw [handleFields_fields]
    exact .cmd _ _ _ (.cmd _ _ _ (.cmd _ _ _ (.ret _)))
  have hadded : Reachable {} 100 ⟨none, { Group.initial with entries := [pushedEntry] }⟩ :=
    .single (.xadd ⟨none, Group.initial⟩ 5 _ (by decide) fun e he => absurd he List.not_mem_nil)
  have hstarted := hadded.tail (.start _ 3)
  have hcreated := Reachable.command (r := .ok ()) hstarted (Or.inr (Or.inl ⟨rfl, rfl⟩))
  have hrecovered := Reachable.command (r := .ok []) hcreated ⟨Or.inl rfl, rfl⟩
  have hstop := Reachable.command (r := .ok false) hrecovered rfl
  have hread := Reachable.command (r := .ok [pushedEntry]) hstop (Or.inl ⟨rfl, rfl, Or.inl rfl⟩)
  have hfailed := Reachable.command (r := .error _) hread ⟨_, hraises, rfl⟩
  have hrestarted := (hfailed.tail (.crash _)).tail (.start _ 3)
  have hbusy := Reachable.command (r := .error busyGroup) hrestarted (Or.inl ⟨rfl, rfl, rfl⟩)
  have hreread := Reachable.command (r := .ok [pushedEntry]) hbusy ⟨Or.inl rfl, rfl⟩
  have hhandled := Reachable.command (r := .ok ()) hreread ⟨_, hreturns, rfl⟩
  have hacked := Reachable.command (r := .ok ()) hhandled (Or.inl rfl)
  exact ⟨_, hacked, rfl, rfl,
    (no_event_lost {} 100 _ hacked pushedEntry List.mem_cons_self).2 List.mem_cons_self⟩

end HighLoad.Feed
