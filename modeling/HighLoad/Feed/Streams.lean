/-
# HighLoad.Feed.Streams — fan-out over a Redis Stream

Complete calls of the handlers, interleaved with complete executions of the worker on published events,
in any order and any number of times. Creations and deletions of a post may be handled in the wrong
order, so ids without a row get into the feeds; they are never shown, because a hash exists exactly for
the posts in the database, and they do not displace a post while everything ever created fits into a
feed (`streams_converge`).
-/
import HighLoad.Feed.Complete
import HighLoad.Feed.OneFault

namespace HighLoad.Feed

open Prog Paging

variable {order : RowOrder} {cfg : Settings} {w : World} {u : Uuid}

/-! ## Runs -/

/-- Fan-out by the stream worker. -/
structure Asynchronous (cfg : Settings) : Prop where
  transport : cfg.feedTransport ≠ "rabbitmq"
  fanout : cfg.feedFanoutAsync = true

theorem Asynchronous.deferred (h : Asynchronous cfg) : Deferred cfg := Or.inr h.fanout

/-- The stores, and the events that were handled at least once. -/
structure Fanout where
  world : World
  handled : List Nat

/-- A call of a handler, or the worker's execution of one published event. -/
inductive FanoutStep where
  | call (c : Call)
  | handle (n : Nat)

/-- The world after the worker handled an event. -/
def World.afterEvent (order : RowOrder) (cfg : Settings) (w : World) (event : StreamEvent) : World :=
  ((handleEvent cfg event).run (exec order) w).2

def Fanout.step (order : RowOrder) (cfg : Settings) (b : Fanout) : FanoutStep → Fanout
  | .call c => { b with world := b.world.after order cfg c }
  | .handle n =>
      match b.world.stream[n]? with
      | none => b
      | some event => ⟨b.world.afterEvent order cfg event, n :: b.handled⟩

def Fanout.run (order : RowOrder) (cfg : Settings) (b : Fanout) (steps : List FanoutStep) : Fanout :=
  steps.foldl (Fanout.step order cfg) b

/-- Users, and nothing else. -/
def Fanout.ofUsers (users : List Uuid) : Fanout := ⟨World.ofUsers users, []⟩

/-- Every published event was handled. -/
def Fanout.Quiescent (b : Fanout) : Prop := ∀ n < b.world.stream.length, n ∈ b.handled

/-- The ids that the server draws for new posts. -/
def drawnIds (steps : List FanoutStep) : List Uuid :=
  steps.filterMap fun s =>
    match s with
    | .call (.createPost _ _ id _) => some id
    | _ => none

/-- The ids of the posts that were created. -/
def createdIds (stream : List StreamEvent) : List Uuid :=
  (stream.filter fun e => e.eventType = "created").map StreamEvent.postId

/-- No creation of the post was handled. -/
def Unhandled (b : Fanout) (id : Uuid) : Prop :=
  ∀ n event, b.world.stream[n]? = some event → event.eventType = "created" → event.postId = id →
    n ∉ b.handled

theorem Fanout.run_append (b : Fanout) (pre : List FanoutStep) (s : FanoutStep) :
    b.run order cfg (pre ++ [s]) = (b.run order cfg pre).step order cfg s := by
  simp [Fanout.run]

/-- An event that was not published is not handled. -/
theorem Fanout.step_handle (order : RowOrder) (cfg : Settings) (b : Fanout) (n : Nat) :
    (b.world.stream[n]? = none ∧ b.step order cfg (.handle n) = b) ∨
      ∃ event, b.world.stream[n]? = some event ∧
        b.step order cfg (.handle n) = ⟨b.world.afterEvent order cfg event, n :: b.handled⟩ := by
  cases hevent : b.world.stream[n]? with
  | none => exact Or.inl ⟨rfl, by simp [Fanout.step, hevent]⟩
  | some event => exact Or.inr ⟨event, rfl, by simp [Fanout.step, hevent]⟩

theorem afterEvent_eq (order : RowOrder) (cfg : Settings) (w : World) (event : StreamEvent) :
    w.afterEvent order cfg event =
      if event.eventType = "created" then
        w.mapFeeds (w.db.followers event.authorId)
          (pushed cfg.feedMaxSize event.createdAt event.postId)
      else if event.eventType = "deleted" then
        w.mapFeeds (w.db.followers event.authorId) fun z => z.removeAll [event.postId]
      else w := by
  rw [World.afterEvent, run_handleEvent]

/-- The worker changes neither tables nor hashes nor the stream. -/
theorem afterEvent_rest (order : RowOrder) (cfg : Settings) (w : World) (event : StreamEvent) :
    (w.afterEvent order cfg event).db = w.db ∧
      (w.afterEvent order cfg event).redis.posts = w.redis.posts ∧
      (w.afterEvent order cfg event).stream = w.stream := by
  rw [afterEvent_eq]
  split_ifs <;> exact ⟨rfl, rfl, rfl⟩

/-- What a call publishes. -/
inductive Publishes (w w' : World) : Call → Prop where
  | nothing {c : Call} (hstream : w'.stream = w.stream)
      (hposts : ∀ p ∈ w'.db.posts, ∃ q ∈ w.db.posts, q.entry = p.entry ∧ q.authorId = p.authorId) :
      Publishes w w' c
  | creation {user : Uuid} {text : String} {id : Uuid} {now : DateTime}
      (hstream : w'.stream = w.stream ++ [⟨"created", id, user, now⟩])
      (hposts : w'.db.posts = w.db.posts ++ [⟨id, user, text, now⟩]) :
      Publishes w w' (.createPost user text id now)
  | deletion {user id : Uuid} {now : DateTime}
      (hstream : w'.stream = w.stream ++ [⟨"deleted", id, user, now⟩])
      (howned : ∃ p ∈ w.db.posts, p.id = id)
      (hposts : ∀ p, p ∈ w'.db.posts ↔ p ∈ w.db.posts ∧ p.id ≠ id) :
      Publishes w w' (.deletePost user id now)

theorem publishes_nothing {w' : World} {c : Call} (hstream : w'.stream = w.stream)
    (hposts : w'.db.posts = w.db.posts) : Publishes w w' c :=
  .nothing hstream fun p hp => ⟨p, hposts ▸ hp, rfl, rfl⟩

theorem Call.publishesEvent (order : RowOrder) (hasync : Asynchronous cfg) (htemp : w.NoTemp)
    (c : Call) : Publishes w (w.after order cfg c) c := by
  cases c with
  | createPost user text id now =>
      rcases run_createPost_cases order cfg user text id now w with
        ⟨e, hrun⟩ | ⟨db, -, hposts, -, hrun⟩
      · rw [after_eq hrun]
        exact publishes_nothing rfl rfl
      · rw [after_eq hrun]
        unfold World.announcedCreated
        rw [if_neg hasync.transport, if_pos hasync.fanout]
        exact .creation rfl hposts
  | updatePost user id text =>
      rcases run_updatePost_cases order user id text w with hrun | ⟨p, -, rfl, rfl, hrun⟩
      · rw [after_eq hrun]
        exact publishes_nothing rfl rfl
      · rw [after_eq hrun]
        refine .nothing rfl fun q hq => ?_
        obtain ⟨r, hr, rfl⟩ := Database.mem_updatePost.mp hq
        exact ⟨r, hr, by simp [PostRow.entry], by simp⟩
  | deletePost user id now =>
      rcases run_deletePost_cases order cfg user id now w with ⟨-, hrun⟩ | ⟨p, hp, rfl, rfl, hrun⟩
      · rw [after_eq hrun]
        exact publishes_nothing rfl rfl
      · rw [after_eq hrun]
        unfold World.announcedDeleted
        rw [if_neg hasync.transport, if_pos hasync.fanout]
        exact .deletion rfl ⟨p, hp, rfl⟩ fun q => Database.mem_deletePost_of_mem hp rfl rfl
  | setFriend user friend =>
      rcases run_setFriend_cases order cfg user friend w with
        ⟨e, -, hrun⟩ | ⟨db, -, -, hposts, -, hrun⟩
      · rw [after_eq hrun]
        exact publishes_nothing rfl rfl
      · rw [after_eq hrun]
        unfold World.befriended
        split_ifs <;> exact publishes_nothing rfl hposts
  | deleteFriend user friend =>
      rw [after_eq (run_deleteFriend order user friend w)]
      exact publishes_nothing rfl rfl
  | rebuildFeed user nonce =>
      rw [after_eq (run_rebuildFeed order cfg user nonce w htemp)]
      exact publishes_nothing rfl rfl
  | getFeed user nonce offset limit =>
      rcases run_getFeed_cases order cfg user nonce offset limit w htemp with
        ⟨e, hrun⟩ | ⟨posts, ids, fs, -, -, hrun⟩
      · rw [after_eq hrun]
        exact publishes_nothing rfl rfl
      · rw [after_eq hrun]
        refine publishes_nothing ?_ ?_
        · show (w.opened order cfg user).stream = w.stream
          unfold World.opened
          split_ifs <;> rfl
        · show (w.opened order cfg user).db.posts = w.db.posts
          rw [World.opened_db]

/-! ## The invariant -/

/-- The feeds are complete up to unhandled creations, and hashes exist for the posts only. -/
structure Converging (cfg : Settings) (b : Fanout) : Prop where
  complete : Complete cfg (createdIds b.world.stream) (fun p => Unhandled b p.id) b.world
  dead : ∀ id, (∀ p ∈ b.world.db.posts, p.id ≠ id) → b.world.redis.posts id = none
  created : ∀ event ∈ b.world.stream, event.eventType = "created" → ∀ p ∈ b.world.db.posts,
    p.id = event.postId → p.entry = ⟨event.createdAt, event.postId⟩ ∧ p.authorId = event.authorId
  deleted : ∀ event ∈ b.world.stream, event.eventType = "deleted" →
    event.postId ∈ createdIds b.world.stream ∧ ∀ p ∈ b.world.db.posts, p.id ≠ event.postId
  published : ∀ p ∈ b.world.db.posts, ∃ event ∈ b.world.stream, event.eventType = "created" ∧
    event.postId = p.id
  handled : ∀ n ∈ b.handled, n < b.world.stream.length

theorem converging_initial (cfg : Settings) (users : List Uuid) :
    Converging cfg (Fanout.ofUsers users) where
  complete := complete_initial cfg users _
  dead _ _ := rfl
  created _ he := absurd he List.not_mem_nil
  deleted _ he := absurd he List.not_mem_nil
  published _ hp := absurd hp List.not_mem_nil
  handled _ hn := absurd hn List.not_mem_nil

theorem mem_createdIds {stream : List StreamEvent} {id : Uuid} :
    id ∈ createdIds stream ↔ ∃ e ∈ stream, e.eventType = "created" ∧ e.postId = id := by
  simp [createdIds, and_assoc]

/-- A step that publishes events of its own leaves the earlier ones where they were. -/
theorem getElem?_of_handled {stream more : List StreamEvent} {n : Nat} {event : StreamEvent}
    (hn : n < stream.length) (h : (stream ++ more)[n]? = some event) : stream[n]? = some event := by
  rwa [List.getElem?_append_left hn] at h

theorem createdIds_subset (stream more : List StreamEvent) :
    createdIds stream ⊆ createdIds (stream ++ more) := by
  intro id hid
  obtain ⟨e, he, hcreated⟩ := mem_createdIds.mp hid
  exact mem_createdIds.mpr ⟨e, List.mem_append_left more he, hcreated⟩

/-- The stream beside the posts: creations name posts as they are, deletions only posts that are
gone, and every post has its creation. -/
structure Logged (stream : List StreamEvent) (posts : List PostRow) : Prop where
  created : ∀ event ∈ stream, event.eventType = "created" → ∀ p ∈ posts, p.id = event.postId →
    p.entry = ⟨event.createdAt, event.postId⟩ ∧ p.authorId = event.authorId
  deleted : ∀ event ∈ stream, event.eventType = "deleted" →
    event.postId ∈ createdIds stream ∧ ∀ p ∈ posts, p.id ≠ event.postId
  published : ∀ p ∈ posts, ∃ event ∈ stream, event.eventType = "created" ∧ event.postId = p.id

namespace Logged

variable {stream : List StreamEvent} {posts posts' : List PostRow}

/-- A call that publishes nothing may change the texts of posts. -/
theorem congr (h : Logged stream posts) (hposts : ∀ p ∈ posts', ∃ q ∈ posts, q.entry = p.entry ∧
    q.authorId = p.authorId) : Logged stream posts' where
  created event he hcreated p hp hid := by
    obtain ⟨q, hq, hentry, hauthor⟩ := hposts p hp
    have hqid : q.id = p.id := congrArg Entry.member hentry
    obtain ⟨heq, hqauthor⟩ := h.created event he hcreated q hq (hqid.trans hid)
    exact ⟨hentry.symm.trans heq, hauthor.symm.trans hqauthor⟩
  deleted event he hdeleted := by
    obtain ⟨hmem, hnot⟩ := h.deleted event he hdeleted
    refine ⟨hmem, fun p hp => ?_⟩
    obtain ⟨q, hq, hentry, -⟩ := hposts p hp
    have hqid : q.id = p.id := congrArg Entry.member hentry
    exact hqid ▸ hnot q hq
  published p hp := by
    obtain ⟨q, hq, hentry, -⟩ := hposts p hp
    obtain ⟨event, he, hcreated, hid⟩ := h.published q hq
    exact ⟨event, he, hcreated, hid.trans (congrArg Entry.member hentry)⟩

theorem mem_createdIds (h : Logged stream posts) {p : PostRow} (hp : p ∈ posts) :
    p.id ∈ createdIds stream := by
  obtain ⟨event, he, hcreated, hid⟩ := h.published p hp
  exact Feed.mem_createdIds.mpr ⟨event, he, hcreated, hid⟩

/-- A creation is published behind everything, under an id that no creation has named. -/
theorem creation (h : Logged stream posts) {id user : Uuid} {text : String} {now : DateTime}
    (hnew : id ∉ createdIds stream) :
    Logged (stream ++ [⟨"created", id, user, now⟩]) (posts ++ [⟨id, user, text, now⟩]) where
  created event he hcreated p hp hid := by
    rcases List.mem_append.mp he with he | he <;> rcases List.mem_append.mp hp with hp | hp
    · exact h.created event he hcreated p hp hid
    · obtain rfl := List.mem_singleton.mp hp
      exact absurd (Feed.mem_createdIds.mpr ⟨event, he, hcreated, hid.symm⟩) hnew
    · obtain rfl := List.mem_singleton.mp he
      have hpid : p.id = id := hid
      exact absurd (hpid ▸ h.mem_createdIds hp) hnew
    · obtain rfl := List.mem_singleton.mp he
      obtain rfl := List.mem_singleton.mp hp
      exact ⟨rfl, rfl⟩
  deleted event he hdeleted := by
    rcases List.mem_append.mp he with he | he
    · obtain ⟨hmem, hnot⟩ := h.deleted event he hdeleted
      refine ⟨createdIds_subset _ _ hmem, fun p hp => ?_⟩
      rcases List.mem_append.mp hp with hp | hp
      · exact hnot p hp
      · obtain rfl := List.mem_singleton.mp hp
        intro hid
        have hpid : event.postId = id := hid.symm
        exact hnew (hpid ▸ hmem)
    · obtain rfl := List.mem_singleton.mp he
      have hwrong : "created" = "deleted" := hdeleted
      exact absurd hwrong (by decide)
  published p hp := by
    rcases List.mem_append.mp hp with hp | hp
    · obtain ⟨event, he, hrest⟩ := h.published p hp
      exact ⟨event, List.mem_append_left _ he, hrest⟩
    · obtain rfl := List.mem_singleton.mp hp
      exact ⟨_, List.mem_append_right _ List.mem_cons_self, rfl, rfl⟩

/-- A deletion is published behind the creation of its post. -/
theorem deletion (h : Logged stream posts) {id user : Uuid} {now : DateTime}
    (hid : id ∈ createdIds stream) (hposts : ∀ p, p ∈ posts' ↔ p ∈ posts ∧ p.id ≠ id) :
    Logged (stream ++ [⟨"deleted", id, user, now⟩]) posts' where
  created event he hcreated p hp hpid := by
    rcases List.mem_append.mp he with he | he
    · exact h.created event he hcreated p ((hposts p).mp hp).1 hpid
    · obtain rfl := List.mem_singleton.mp he
      have hwrong : "deleted" = "created" := hcreated
      exact absurd hwrong (by decide)
  deleted event he hdeleted := by
    rcases List.mem_append.mp he with he | he
    · obtain ⟨hmem, hnot⟩ := h.deleted event he hdeleted
      exact ⟨createdIds_subset _ _ hmem, fun p hp => hnot p ((hposts p).mp hp).1⟩
    · obtain rfl := List.mem_singleton.mp he
      exact ⟨createdIds_subset _ _ hid, fun p hp => ((hposts p).mp hp).2⟩
  published p hp := by
    obtain ⟨event, he, hrest⟩ := h.published p ((hposts p).mp hp).1
    exact ⟨event, List.mem_append_left _ he, hrest⟩

end Logged

/-- **A call of a handler.** -/
theorem Converging.call (order : RowOrder) (hasync : Asynchronous cfg) {b : Fanout}
    (h : Converging cfg b) (c : Call)
    (hfresh : ∀ user text id now, c = .createPost user text id now →
      id ∉ createdIds b.world.stream)
    (hfew : (createdIds (b.world.after order cfg c).stream).length ≤ cfg.feedMaxSize) :
    Converging cfg { b with world := b.world.after order cfg c } := by
  have htemp := h.complete.noTemp
  have hlogged : Logged b.world.stream b.world.db.posts := ⟨h.created, h.deleted, h.published⟩
  -- what the call publishes and which posts are new, in each of the three ways it can publish
  obtain ⟨more, hmore, hlogged', hcreates⟩ : ∃ more,
      (b.world.after order cfg c).stream = b.world.stream ++ more ∧
      Logged (b.world.after order cfg c).stream (b.world.after order cfg c).db.posts ∧
      ∀ p ∈ (b.world.after order cfg c).db.posts,
        (∃ q ∈ b.world.db.posts, q.entry = p.entry ∧ q.authorId = p.authorId) ∨
          (p.id ∉ createdIds b.world.stream ∧
            p.id ∈ createdIds (b.world.after order cfg c).stream) := by
    rcases c.publishesEvent order hasync htemp with
      ⟨hstream, hposts⟩ | @⟨user, text, id, now, hstream, hposts⟩ |
      @⟨user, id, now, hstream, ⟨gone, hgone, rfl⟩, hposts⟩
    · refine ⟨[], by rw [hstream, List.append_nil], ?_, fun p hp => Or.inl (hposts p hp)⟩
      rw [hstream]
      exact hlogged.congr hposts
    · have hnew := hfresh user text id now rfl
      refine ⟨_, hstream, ?_, fun p hp => ?_⟩
      · rw [hstream, hposts]
        exact hlogged.creation hnew
      · rw [hposts] at hp
        rcases List.mem_append.mp hp with hp | hp
        · exact Or.inl ⟨p, hp, rfl, rfl⟩
        · obtain rfl := List.mem_singleton.mp hp
          rw [hstream]
          exact Or.inr ⟨hnew, mem_createdIds.mpr
            ⟨_, List.mem_append_right _ List.mem_cons_self, rfl, rfl⟩⟩
    · refine ⟨_, hstream, ?_, fun p hp => Or.inl ⟨p, ((hposts p).mp hp).1, rfl, rfl⟩⟩
      rw [hstream]
      exact hlogged.deletion (h.complete.rows gone hgone) hposts
  have hunhandled : ∀ id, Unhandled b id →
      Unhandled { b with world := b.world.after order cfg c } id := by
    intro id hid n event hevent hcreated hpost hn
    change (b.world.after order cfg c).stream[n]? = some event at hevent
    rw [hmore] at hevent
    exact hid n event (getElem?_of_handled (h.handled n hn) hevent) hcreated hpost hn
  -- an id without a creation is the id of no handled event
  have hnobody : ∀ id, id ∉ createdIds b.world.stream →
      Unhandled { b with world := b.world.after order cfg c } id := by
    intro id hnew
    refine hunhandled id fun n event hevent hcreated hpost _ => ?_
    exact hnew (mem_createdIds.mpr ⟨event, List.mem_of_getElem? hevent, hcreated, hpost⟩)
  refine
    { complete := h.complete.call order hasync.deferred c ?_ hfew ?_ ?_
      dead := fun id hid => ?_
      created := hlogged'.created
      deleted := hlogged'.deleted
      published := hlogged'.published
      handled := fun n hn => ?_ }
  · show createdIds b.world.stream ⊆ createdIds (b.world.after order cfg c).stream
    rw [hmore]
    exact createdIds_subset _ _
  · intro p hp _
    exact (hcreates p hp).imp_right fun hnew => ⟨hnew.1, hnew.2, hnobody p.id hnew.1⟩
  · intro q _ p _ hentry _ hq
    have hid : q.id = p.id := congrArg Entry.member hentry
    exact hid ▸ hunhandled q.id hq
  · rcases (c.effects order cfg hasync.deferred htemp).dead id hid with hnone | ⟨hold, hsame⟩
    · exact hnone
    · show (b.world.after order cfg c).redis.posts id = none
      rw [hsame]
      exact h.dead id hold
  · show n < (b.world.after order cfg c).stream.length
    rw [hmore, List.length_append]
    exact Nat.lt_add_right _ (h.handled n hn)

/-- **The worker's execution of an event.** -/
theorem Converging.event (order : RowOrder) {b : Fanout} (h : Converging cfg b) {n : Nat}
    {event : StreamEvent} (hevent : b.world.stream[n]? = some event) :
    Converging cfg ⟨b.world.afterEvent order cfg event, n :: b.handled⟩ := by
  obtain ⟨hdb, hposts, hstream⟩ := afterEvent_rest order cfg b.world event
  have hmem := List.mem_of_getElem? hevent
  have hunhandled : ∀ id, ¬ (event.eventType = "created" ∧ event.postId = id) → Unhandled b id →
      Unhandled ⟨b.world.afterEvent order cfg event, n :: b.handled⟩ id := by
    intro id hnot hid m event' hevent' hcreated hpost hm
    change (b.world.afterEvent order cfg event).stream[m]? = some event' at hevent'
    rw [hstream] at hevent'
    rcases List.mem_cons.mp hm with rfl | hm
    · rw [hevent] at hevent'
      obtain rfl := Option.some.inj hevent'
      exact hnot ⟨hcreated, hpost⟩
    · exact hid m event' hevent' hcreated hpost hm
  have hcomplete : Complete cfg (createdIds b.world.stream)
      (fun p => Unhandled ⟨b.world.afterEvent order cfg event, n :: b.handled⟩ p.id)
      (b.world.afterEvent order cfg event) := by
    rw [afterEvent_eq] at hunhandled ⊢
    by_cases hcreated : event.eventType = "created"
    · rw [if_pos hcreated] at hunhandled ⊢
      refine h.complete.pushed (mem_createdIds.mpr ⟨event, hmem, hcreated, rfl⟩)
        (fun p hp hid => h.created event hmem hcreated p hp hid) fun p _ hid hex => ?_
      exact hunhandled p.id (fun hsame => hid hsame.2.symm) hex
    · rw [if_neg hcreated] at hunhandled ⊢
      by_cases hdeleted : event.eventType = "deleted"
      · rw [if_pos hdeleted] at hunhandled ⊢
        exact (h.complete.removed _ (h.deleted event hmem hdeleted).2).mono fun p _ hex =>
          hunhandled p.id (fun hsame => hcreated hsame.1) hex
      · rw [if_neg hdeleted] at hunhandled ⊢
        exact h.complete.mono fun p _ hex => hunhandled p.id (fun hsame => hcreated hsame.1) hex
  exact
    { complete := by
        show Complete cfg (createdIds (b.world.afterEvent order cfg event).stream) _ _
        rw [hstream]
        exact hcomplete
      dead := by
        show ∀ id, (∀ p ∈ (b.world.afterEvent order cfg event).db.posts, p.id ≠ id) →
          (b.world.afterEvent order cfg event).redis.posts id = none
        rw [hdb, hposts]
        exact h.dead
      created := by
        show ∀ e ∈ (b.world.afterEvent order cfg event).stream, _ →
          ∀ p ∈ (b.world.afterEvent order cfg event).db.posts, _
        rw [hstream, hdb]
        exact h.created
      deleted := by
        show ∀ e ∈ (b.world.afterEvent order cfg event).stream, _ →
          _ ∈ createdIds (b.world.afterEvent order cfg event).stream ∧
            ∀ p ∈ (b.world.afterEvent order cfg event).db.posts, _
        rw [hstream, hdb]
        exact h.deleted
      published := by
        show ∀ p ∈ (b.world.afterEvent order cfg event).db.posts,
          ∃ e ∈ (b.world.afterEvent order cfg event).stream, _
        rw [hstream, hdb]
        exact h.published
      handled := by
        intro m hm
        show m < (b.world.afterEvent order cfg event).stream.length
        rw [hstream]
        rcases List.mem_cons.mp hm with rfl | hm
        · exact (List.getElem?_eq_some_iff.mp hevent).1
        · exact h.handled m hm }

/-! ## Runs -/

/-- The stream only grows, by creations of the ids that were drawn. -/
theorem stream_step (order : RowOrder) (hasync : Asynchronous cfg) {b : Fanout}
    (htemp : b.world.NoTemp) (s : FanoutStep) :
    ∃ more, (b.step order cfg s).world.stream = b.world.stream ++ more ∧
      createdIds more ⊆ drawnIds [s] := by
  cases s with
  | call c =>
      show ∃ more, (b.world.after order cfg c).stream = _ ∧ _
      rcases c.publishesEvent order hasync htemp with ⟨hstream, -⟩ | ⟨hstream, -⟩ | ⟨hstream, -, -⟩
      · exact ⟨[], by rw [hstream, List.append_nil], List.nil_subset _⟩
      · exact ⟨_, hstream, List.Subset.refl _⟩
      · exact ⟨_, hstream, List.nil_subset _⟩
  | handle n =>
      rcases b.step_handle order cfg n with ⟨-, hstep⟩ | ⟨event, -, hstep⟩
      · exact ⟨[], by rw [hstep, List.append_nil], List.nil_subset _⟩
      · obtain ⟨-, -, hstream⟩ := afterEvent_rest order cfg b.world event
        exact ⟨[], by rw [hstep, hstream, List.append_nil], List.nil_subset _⟩

theorem createdIds_append (stream more : List StreamEvent) :
    createdIds (stream ++ more) = createdIds stream ++ createdIds more := by
  simp [createdIds]

theorem drawnIds_append (pre : List FanoutStep) (s : FanoutStep) :
    drawnIds (pre ++ [s]) = drawnIds pre ++ drawnIds [s] := by
  simp [drawnIds]

/-- **The run lemma.** -/
theorem converging_run (order : RowOrder) (hasync : Asynchronous cfg) (users : List Uuid)
    (steps : List FanoutStep) (hfresh : (drawnIds steps).Nodup)
    (hfew : ∀ pre, pre <+: steps →
      (createdIds ((Fanout.ofUsers users).run order cfg pre).world.stream).length
        ≤ cfg.feedMaxSize) :
    ∀ pre, pre <+: steps → Converging cfg ((Fanout.ofUsers users).run order cfg pre) ∧
      createdIds ((Fanout.ofUsers users).run order cfg pre).world.stream ⊆ drawnIds pre := by
  intro pre
  induction pre using List.reverseRecOn with
  | nil => exact fun _ => ⟨converging_initial cfg users, List.nil_subset _⟩
  | append_singleton pre s ih =>
      intro hpre
      obtain ⟨hbefore, hdrawn⟩ := ih ((List.prefix_append pre [s]).trans hpre)
      have hfew' := hfew _ hpre
      obtain ⟨more, hmore, hmoreIds⟩ := stream_step order hasync hbefore.complete.noTemp s
      have hids : createdIds (((Fanout.ofUsers users).run order cfg pre).step order cfg
          s).world.stream ⊆ drawnIds (pre ++ [s]) := by
        rw [hmore, createdIds_append, drawnIds_append]
        intro id hid
        rcases List.mem_append.mp hid with hid | hid
        · exact List.mem_append_left _ (hdrawn hid)
        · exact List.mem_append_right _ (hmoreIds hid)
      rw [Fanout.run_append] at hfew' ⊢
      refine ⟨?_, hids⟩
      cases s with
      | call c =>
          refine hbefore.call order hasync c (fun user text id now hc hold => ?_) hfew'
          subst hc
          -- the id would have been drawn twice
          have hnodup : (drawnIds (pre ++ [.call (.createPost user text id now)])).Nodup := by
            obtain ⟨rest, rfl⟩ := hpre
            have happend : drawnIds (pre ++ [.call (.createPost user text id now)] ++ rest)
                = drawnIds (pre ++ [.call (.createPost user text id now)]) ++ drawnIds rest := by
              simp [drawnIds]
            rw [happend] at hfresh
            exact (List.nodup_append.mp hfresh).1
          rw [drawnIds_append, List.nodup_append] at hnodup
          exact hnodup.2.2 id (hdrawn hold) id List.mem_cons_self rfl
      | handle n =>
          rcases Fanout.step_handle order cfg ((Fanout.ofUsers users).run order cfg pre) n with
            ⟨-, hstep⟩ | ⟨event, hevent, hstep⟩
          · rw [hstep]
            exact hbefore
          · rw [hstep]
            exact hbefore.event order hevent

/-! ## What readers see -/

/-- A page that is as long as the feed is the feed. -/
theorem pageIds_whole {k : Nat} (h : (w.members u).length ≤ k) : pageIds w u 0 k = w.members u := by
  rcases Nat.eq_zero_or_pos k with rfl | hk
  · have hnil : w.members u = [] := List.eq_nil_of_length_eq_zero (Nat.le_zero.mp h)
    rw [hnil, List.eq_nil_iff_forall_not_mem]
    intro m hm
    obtain ⟨e, he, rfl⟩ := exists_entry_of_mem_pageIds hm
    have hmem : e.member ∈ w.members u := List.mem_map_of_mem (List.mem_reverse.mpr he)
    rw [hnil] at hmem
    exact List.not_mem_nil hmem
  · rw [pageIds_eq w u 0 hk, page, List.drop_zero, List.take_of_length_le h]

/-- **A complete feed is read as the posts of the friends**, newest first, whatever else is in it. -/
theorem Complete.read (order : RowOrder) {ids : List Uuid} {excused : PostRow → Prop}
    (h : Complete cfg ids excused w)
    (hdead : ∀ id, (∀ p ∈ w.db.posts, p.id ≠ id) → w.redis.posts id = none)
    (hex : ∀ p ∈ w.db.posts, ¬ excused p) (u nonce : Uuid) :
    ((readFeed cfg nonce u 0 cfg.feedMaxSize).run (exec order) w).1
      = .ok ((sortedPosts w.db u).map itemOfRow) := by
  have hdb : (w.opened order cfg u).db = w.db := World.opened_db u
  have hlen : ((w.opened order cfg u).members u).length ≤ cfg.feedMaxSize := by
    refine le_trans ?_ h.few
    refine (List.subperm_of_subset (nodup_members _ u) fun m hm => ?_).length_le
    obtain ⟨e, he, rfl⟩ := List.mem_map.mp hm
    exact h.members_opened order (List.mem_reverse.mp he)
  have hhash : ∀ id, (w.opened order cfg u).hasHash id = true ↔ ∃ p ∈ w.db.posts, p.id = id := by
    intro id
    constructor
    · intro hsome
      by_contra hnone
      have hid : ∀ p ∈ (w.opened order cfg u).db.posts, p.id ≠ id := by
        rw [hdb]
        exact fun p hp hpid => hnone ⟨p, hp, hpid⟩
      have hgone : (w.opened order cfg u).redis.posts id = none := by
        rcases (effects_opened order cfg h.noTemp u).dead id hid with hgone | ⟨hold, hsame⟩
        · exact hgone
        · rw [hsame]
          exact hdead id hold
      unfold World.hasHash at hsome
      rw [hgone] at hsome
      exact Bool.false_ne_true hsome
    · rintro ⟨p, hp, rfl⟩
      unfold World.hasHash
      rw [h.hash_opened order hp]
      rfl
  -- the members with a hash are the posts of the friends
  have hlive : ((w.opened order cfg u).feed u).entries.reverse.filter
      (fun e => (w.opened order cfg u).hasHash e.member) = (sortedPosts w.db u).map PostRow.entry := by
    refine TopN.eq_of_descending ?_ (sortedPosts_descending w.db u) fun e => ?_
    · exact (reverse_descending _ u).sublist List.filter_sublist
    · rw [List.mem_filter, List.mem_reverse, hhash, List.mem_map]
      constructor
      · rintro ⟨he, p, hp, hid⟩
        obtain ⟨hentry, hfollows⟩ := h.agrees_opened order he hp hid
        exact ⟨p, mem_sortedPosts.mpr ⟨hp, hfollows⟩, hentry⟩
      · rintro ⟨p, hp, rfl⟩
        obtain ⟨hrow, hfollows⟩ := mem_sortedPosts.mp hp
        exact ⟨h.opened order hrow hfollows (hex p hrow), p, hrow, rfl⟩
  have hmembers : ((w.opened order cfg u).members u).filter (w.opened order cfg u).hasHash
      = (sortedPosts w.db u).map PostRow.id := by
    unfold World.members
    rw [List.filter_map]
    have hcomp : ((w.opened order cfg u).hasHash ∘ Entry.member (σ := DateTime))
        = fun e => (w.opened order cfg u).hasHash e.member := rfl
    rw [hcomp, hlive, List.map_map]
    rfl
  rw [run_readFeed order cfg u nonce 0 cfg.feedMaxSize w (h.noTemp.fresh u nonce),
    pageIds_whole hlen, filterMap_itemOf, hmembers, List.filterMap_map]
  refine congrArg Except.ok ?_
  rw [← List.filterMap_eq_map]
  refine List.filterMap_congr fun p hp => ?_
  exact itemOf_row (h.hash_opened order (mem_sortedPosts.mp hp).1)

/-- **Fan-out over the stream converges**, whatever the order and the number of deliveries: a deleted
post is never read again, and when every event was handled the feeds are the posts of the friends. -/
theorem streams_converge (order : RowOrder) (cfg : Settings) (hasync : Asynchronous cfg)
    (users : List Uuid) (steps : List FanoutStep) (hfresh : (drawnIds steps).Nodup)
    (hfew : ∀ pre, pre <+: steps →
      (createdIds ((Fanout.ofUsers users).run order cfg pre).world.stream).length
        ≤ cfg.feedMaxSize) :
    (∀ pre user id now behind, pre ++ .call (.deletePost user id now) :: behind <+: steps →
      (∃ p ∈ ((Fanout.ofUsers users).run order cfg pre).world.db.posts,
        p.id = id ∧ p.authorId = user) →
      NeverRead order cfg ((Fanout.ofUsers users).run order cfg
        (pre ++ .call (.deletePost user id now) :: behind)).world id) ∧
    ∀ pre, pre <+: steps → ((Fanout.ofUsers users).run order cfg pre).Quiescent →
      ∀ u nonce : Uuid,
        ((readFeed cfg nonce u 0 cfg.feedMaxSize).run (exec order)
            ((Fanout.ofUsers users).run order cfg pre).world).1
          = .ok ((sortedPosts ((Fanout.ofUsers users).run order cfg pre).world.db u).map
              itemOfRow) := by
  have hrun := converging_run order hasync users steps hfresh hfew
  constructor
  · intro pre user id now behind hsteps howned
    -- the deletion is in the stream, and stays there
    have hdeleted : ∀ more, more <+: behind → ∃ event ∈ ((Fanout.ofUsers users).run order cfg
        (pre ++ .call (.deletePost user id now) :: more)).world.stream,
          event.eventType = "deleted" ∧ event.postId = id := by
      intro more
      induction more using List.reverseRecOn with
      | nil =>
          intro _
          have hbefore := (hrun pre ((List.prefix_append pre _).trans hsteps)).1
          rw [Fanout.run_append]
          show ∃ event ∈ (World.after order cfg _ _).stream, _
          rcases (Call.deletePost user id now).publishesEvent order hasync
            hbefore.complete.noTemp with ⟨hstream, hposts⟩ | ⟨hstream, -⟩ | ⟨hstream, -, -⟩
          · obtain ⟨p, hp, rfl, rfl⟩ := howned
            rcases run_deletePost_cases order cfg p.authorId p.id now
              ((Fanout.ofUsers users).run order cfg pre).world with ⟨hnone, -⟩ | ⟨q, -, -, -, hdone⟩
            · exact absurd ⟨rfl, rfl⟩ (hnone p hp)
            · rw [after_eq hdone]
              unfold World.announcedDeleted
              rw [if_neg hasync.transport, if_pos hasync.fanout]
              exact ⟨_, List.mem_append_right _ List.mem_cons_self, rfl, rfl⟩
          · rw [hstream]
            exact ⟨_, List.mem_append_right _ List.mem_cons_self, rfl, rfl⟩
      | append_singleton more s ih =>
          intro hmore
          obtain ⟨event, he, hrest⟩ := ih ((List.prefix_append more [s]).trans hmore)
          have hpre : pre ++ .call (.deletePost user id now) :: more <+: steps := by
            refine List.IsPrefix.trans ?_ hsteps
            exact (List.prefix_append_right_inj pre).mpr
              (List.cons_prefix_cons.mpr ⟨rfl, (List.prefix_append more [s]).trans hmore⟩)
          obtain ⟨new, hstream, -⟩ := stream_step order hasync (hrun _ hpre).1.complete.noTemp s
          rw [← List.cons_append, ← List.append_assoc, Fanout.run_append, hstream]
          exact ⟨event, List.mem_append_left _ he, hrest⟩
    obtain ⟨event, he, htype, rfl⟩ := hdeleted behind (List.prefix_refl _)
    have h := (hrun _ hsteps).1
    have hgone := (h.deleted event he htype).2
    exact neverRead_of hgone (Or.inl (h.dead _ hgone))
  · intro pre hpre hquiet u nonce
    have h := (hrun pre hpre).1
    refine h.complete.read order h.dead (fun p hp hex => ?_) u nonce
    obtain ⟨event, he, hcreated, hid⟩ := h.published p hp
    obtain ⟨n, hn, hget⟩ := List.mem_iff_getElem.mp he
    exact hex n event (by rw [List.getElem?_eq_getElem hn, hget]) hcreated hid (hquiet n hn)

/-- Fan-out by a background task. -/
def inBackground : Settings := { feedFanoutAsync := true }

/-- User 1 follows user 2, who writes a post; the worker handles its creation twice. -/
def handledTwice : List FanoutStep :=
  [.call (.setFriend (.ofNat 1) (.ofNat 2)),
    .call (.createPost (.ofNat 2) "a" (.ofNat 11) (noonOf 1 first_day)), .handle 0, .handle 0]

theorem handledTwice_few : ∀ pre ∈ handledTwice.inits,
    (createdIds ((Fanout.ofUsers [.ofNat 1, .ofNat 2]).run someOrder inBackground
      pre).world.stream).length ≤ 1000 := by
  decide +kernel

theorem streams_converge_handledTwice :
    ((readFeed inBackground (.ofNat 0) (.ofNat 1) 0 1000).run (exec someOrder)
        ((Fanout.ofUsers [.ofNat 1, .ofNat 2]).run someOrder inBackground handledTwice).world).1
      = .ok ((sortedPosts ((Fanout.ofUsers [.ofNat 1, .ofNat 2]).run someOrder inBackground
          handledTwice).world.db (.ofNat 1)).map itemOfRow) := by
  refine (streams_converge someOrder inBackground ⟨by decide, rfl⟩ [.ofNat 1, .ofNat 2] handledTwice
    (by decide) (fun pre hpre => handledTwice_few pre ((List.mem_inits pre _).mpr hpre))).2
    handledTwice (List.prefix_refl _) ?_ (.ofNat 1) (.ofNat 0)
  unfold Fanout.Quiescent
  decide +kernel

end HighLoad.Feed
