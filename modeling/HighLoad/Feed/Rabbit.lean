/-
# HighLoad.Feed.Rabbit — fan-out over RabbitMQ

Complete calls of the handlers, interleaved with complete executions of the worker on the tasks they
published, in any order and any number of times. The worker writes the body that a creation carries, as
old as it may be: the texts stay current exactly as long as it is not outdated (`texts_converge`), and a
deleted post stays away once it was cleared and its creation is not handled again
(`deleted_stays_away`).
-/
import HighLoad.Feed.Effects
import HighLoad.Feed.Merged

namespace HighLoad.Feed

open Prog

variable {order : RowOrder} {cfg : Settings} {w : World} {u : Uuid}

/-! ## Runs -/

/-- The stores, and the tasks that were handled at least once. -/
structure Broker where
  world : World
  handled : List Nat

/-- A call of a handler, the worker's execution of one published task, or the expiry of a flag. -/
inductive BrokerStep where
  | call (c : Call)
  | handle (n : Nat)
  | expireFlag (author : Uuid)

/-- The world after the worker handled a task. -/
def World.afterTask (order : RowOrder) (cfg : Settings) (w : World) (body : PostEvent) : World :=
  ((handleMessage cfg body).run (exec order) w).2

def Broker.step (order : RowOrder) (cfg : Settings) (b : Broker) : BrokerStep → Broker
  | .call c => { b with world := b.world.after order cfg c }
  | .handle n =>
      match (b.world.tasks cfg)[n]? with
      | none => b
      | some body => ⟨b.world.afterTask order cfg body, n :: b.handled⟩
  | .expireFlag author => { b with world := b.world.setCelebrity author none }

def Broker.run (order : RowOrder) (cfg : Settings) (b : Broker) (steps : List BrokerStep) : Broker :=
  steps.foldl (Broker.step order cfg) b

/-- Users, and nothing else. -/
def Broker.ofUsers (users : List Uuid) : Broker := ⟨World.ofUsers users, []⟩

/-- Every published task was handled. -/
def Broker.Quiescent (cfg : Settings) (b : Broker) : Prop :=
  ∀ n < (b.world.tasks cfg).length, n ∈ b.handled

/-- The tasks are handled in the order of their publication, each once or more. -/
def InOrder (steps : List BrokerStep) : Prop :=
  (steps.filterMap fun s =>
    match s with
    | .handle n => some n
    | _ => none).Pairwise (· ≤ ·)

theorem Broker.run_append (b : Broker) (pre : List BrokerStep) (s : BrokerStep) :
    b.run order cfg (pre ++ [s]) = (b.run order cfg pre).step order cfg s := by
  simp [Broker.run]

/-- A task that was not published is not handled. -/
theorem Broker.step_handle (order : RowOrder) (cfg : Settings) (b : Broker) (n : Nat) :
    ((b.world.tasks cfg)[n]? = none ∧ b.step order cfg (.handle n) = b) ∨
      ∃ body, (b.world.tasks cfg)[n]? = some body ∧
        b.step order cfg (.handle n) = ⟨b.world.afterTask order cfg body, n :: b.handled⟩ := by
  cases htask : (b.world.tasks cfg)[n]? with
  | none => exact Or.inl ⟨rfl, by simp [Broker.step, htask]⟩
  | some body => exact Or.inr ⟨body, rfl, by simp [Broker.step, htask]⟩

/-! ## What a task does -/

/-- The hash that a task writes. -/
def PostEvent.hash (body : PostEvent) : PostHash :=
  ⟨body.bodyText, body.authorId, body.createdAt.isoformat⟩

/-- The worker stores the body of this task. -/
def PostEvent.Stores (body : PostEvent) : Prop := body.eventType = "created" ∧ body.bodyText ≠ ""

instance (body : PostEvent) : Decidable body.Stores := inferInstanceAs (Decidable (_ ∧ _))

theorem afterTask_eq (order : RowOrder) (cfg : Settings) (w : World) (body : PostEvent) :
    w.afterTask order cfg body =
      if body.eventType = "created" then w.handledCreated cfg body
      else if body.eventType = "deleted" then
        w.mapFeeds (w.db.followers body.authorId) fun z => z.removeAll [body.postId]
      else w := by
  rw [World.afterTask, run_handleMessage]

/-- The worker changes no table. -/
@[simp] theorem afterTask_db (w : World) (body : PostEvent) :
    (w.afterTask order cfg body).db = w.db := by
  rw [afterTask_eq]
  split_ifs
  · unfold World.handledCreated World.storedBody
    split_ifs <;> rfl
  · rfl
  · rfl

/-- The worker writes one hash at most. -/
theorem afterTask_posts (w : World) (body : PostEvent) :
    (w.afterTask order cfg body).redis.posts
      = if body.Stores then Function.update w.redis.posts body.postId (some body.hash)
        else w.redis.posts := by
  have hhandled : (w.handledCreated cfg body).redis.posts = (w.storedBody body).redis.posts := by
    unfold World.handledCreated
    split_ifs <;> rfl
  rw [afterTask_eq]
  by_cases hcreated : body.eventType = "created"
  · rw [if_pos hcreated, hhandled, World.storedBody]
    by_cases htext : body.bodyText ≠ ""
    · rw [if_pos htext, if_pos ⟨hcreated, htext⟩]
      rfl
    · rw [if_neg htext, if_neg fun hstores => htext hstores.2]
  · have hnot : ¬ body.Stores := fun hstores => hcreated hstores.1
    rw [if_neg hcreated, if_neg hnot]
    split_ifs <;> rfl

theorem noTemp_afterTask (h : w.NoTemp) (body : PostEvent) :
    (w.afterTask order cfg body).NoTemp := by
  rw [afterTask_eq]
  split_ifs
  · unfold World.handledCreated World.storedBody
    split_ifs <;> exact h
  · exact h
  · exact h

/-- A creation pushes its post to followers of the author at most. -/
theorem mem_feed_afterTask_created {body : PostEvent} (hcreated : body.eventType = "created")
    {v : Uuid} {e : Entry DateTime Uuid} (he : e ∈ ((w.afterTask order cfg body).feed v).entries) :
    e ∈ (w.feed v).entries ∨
      (e = ⟨body.createdAt, body.postId⟩ ∧ w.db.Follows v body.authorId) := by
  rw [afterTask_eq, if_pos hcreated] at he
  have hfeed : ∀ v, (w.storedBody body).feed v = w.feed v := by
    intro v
    unfold World.storedBody
    split_ifs <;> rfl
  have hdb : (w.storedBody body).db = w.db := by
    unfold World.storedBody
    split_ifs <;> rfl
  unfold World.handledCreated at he
  split_ifs at he
  · exact Or.inl (hfeed v ▸ he)
  · change e ∈ (if v ∈ (w.storedBody body).db.followers body.authorId then
      pushed cfg.feedMaxSize body.createdAt body.postId ((w.storedBody body).feed v)
        else (w.storedBody body).feed v).entries at he
    rw [hfeed, hdb] at he
    split_ifs at he with hv
    · rcases SortedSet.mem_add.mp (SortedSet.mem_of_mem_trim he) with rfl | ⟨hold, -⟩
      · exact Or.inr ⟨rfl, Database.mem_followers.mp hv⟩
      · exact Or.inl hold
    · exact Or.inl he

/-- A task of another kind only removes, a deletion from the feeds of the author's followers. -/
theorem mem_feed_afterTask_other {body : PostEvent} (hcreated : body.eventType ≠ "created")
    {v : Uuid} {e : Entry DateTime Uuid} (he : e ∈ ((w.afterTask order cfg body).feed v).entries) :
    e ∈ (w.feed v).entries ∧
      ¬ (body.eventType = "deleted" ∧ e.member = body.postId ∧ w.db.Follows v body.authorId) := by
  rw [afterTask_eq, if_neg hcreated] at he
  split_ifs at he with hdeleted
  · rw [World.feed_mapFeeds] at he
    split_ifs at he with hv
    · obtain ⟨hold, hne⟩ := SortedSet.mem_removeAll.mp he
      exact ⟨hold, fun h => hne (h.2.1 ▸ List.mem_cons_self)⟩
    · exact ⟨he, fun h => hv (Database.mem_followers.mpr h.2.2)⟩
  · exact ⟨he, fun h => hdeleted h.1⟩

/-! ## Texts -/

/-- The cached texts are those of the rows. -/
def TextsCurrent (w : World) : Prop :=
  ∀ p ∈ w.db.posts, ∀ h, w.redis.posts p.id = some h → h.text = p.text

/-- The task carries a text that its post no longer has. -/
def PostEvent.Outdated (w : World) (body : PostEvent) : Prop :=
  body.Stores ∧ ∃ p ∈ w.db.posts, p.id = body.postId ∧ p.text ≠ body.bodyText

theorem TextsCurrent.call (order : RowOrder) (cfg : Settings) (hdef : Deferred cfg) (htemp : w.NoTemp)
    (h : TextsCurrent w) (c : Call) : TextsCurrent (w.after order cfg c) := by
  intro p hp hash hhash
  rcases (c.effects order cfg hdef htemp).live p hp with hrow | ⟨hold, hsame⟩
  · rw [hrow] at hhash
    rw [← Option.some.inj hhash]
    rfl
  · exact h p hold hash (hsame ▸ hhash)

theorem TextsCurrent.task (order : RowOrder) (cfg : Settings) (h : TextsCurrent w) {body : PostEvent}
    (hbody : ¬ body.Outdated w) : TextsCurrent (w.afterTask order cfg body) := by
  intro p hp hash hhash
  rw [afterTask_db] at hp
  rw [afterTask_posts] at hhash
  split_ifs at hhash with hstores
  · by_cases hid : p.id = body.postId
    · rw [hid, Function.update_self] at hhash
      rw [← Option.some.inj hhash]
      by_contra hne
      exact hbody ⟨hstores, p, hp, hid, fun heq => hne heq.symm⟩
    · rw [Function.update_of_ne hid] at hhash
      exact h p hp hash hhash
  · exact h p hp hash hhash

/-- **The cached texts converge to the texts in the database**, as long as the worker handles no
creation whose post has been edited since. -/
theorem texts_converge (order : RowOrder) (cfg : Settings) (hrabbit : cfg.feedTransport = "rabbitmq")
    (users : List Uuid) (steps : List BrokerStep)
    (hsteps : ∀ pre n body, pre ++ [.handle n] <+: steps →
      (((Broker.ofUsers users).run order cfg pre).world.tasks cfg)[n]? = some body →
        ¬ body.Outdated ((Broker.ofUsers users).run order cfg pre).world) :
    ∀ pre, pre <+: steps → ((Broker.ofUsers users).run order cfg pre).Quiescent cfg →
      TextsCurrent ((Broker.ofUsers users).run order cfg pre).world := by
  intro pre hpre
  suffices hinv : ((Broker.ofUsers users).run order cfg pre).world.NoTemp ∧
      TextsCurrent ((Broker.ofUsers users).run order cfg pre).world from fun _ => hinv.2
  induction pre using List.reverseRecOn with
  | nil => exact ⟨fun _ _ => rfl, fun p hp => absurd hp List.not_mem_nil⟩
  | append_singleton pre s ih =>
      obtain ⟨htemp, htexts⟩ := ih ((List.prefix_append pre [s]).trans hpre)
      rw [Broker.run_append]
      cases s with
      | call c =>
          exact ⟨(c.effects order cfg (Or.inl hrabbit) htemp).noTemp,
            htexts.call order cfg (Or.inl hrabbit) htemp c⟩
      | handle n =>
          rcases Broker.step_handle order cfg ((Broker.ofUsers users).run order cfg pre) n with
            ⟨-, hstep⟩ | ⟨body, htask, hstep⟩
          · rw [hstep]
            exact ⟨htemp, htexts⟩
          · rw [hstep]
            exact ⟨noTemp_afterTask htemp body,
              htexts.task order cfg (hsteps pre n body hpre htask)⟩
      | expireFlag author => exact ⟨htemp, htexts⟩

/-- The post is edited before the worker gets to its creation. -/
def editedEarly : List BrokerStep :=
  [.call (.createPost (.ofNat 1) "a" (.ofNat 11) (noonOf 1 first_day)),
    .call (.updatePost (.ofNat 1) (.ofNat 11) "b"), .handle 0]

/-- The settings of the RabbitMQ transport. -/
def rabbitSettings : Settings := { feedTransport := "rabbitmq" }

/-- The creation brings the first text back. -/
theorem lateCreation_restores_text :
    ¬ ∀ (cfg : Settings) (users : List Uuid) (steps : List BrokerStep),
      cfg.feedTransport = "rabbitmq" → InOrder steps →
        ((Broker.ofUsers users).run someOrder cfg steps).Quiescent cfg →
          TextsCurrent ((Broker.ofUsers users).run someOrder cfg steps).world := by
  intro h
  have hquiet : ((Broker.ofUsers [.ofNat 1]).run someOrder rabbitSettings editedEarly).Quiescent
      rabbitSettings := by
    unfold Broker.Quiescent
    decide +kernel
  have htexts := h rabbitSettings [.ofNat 1] editedEarly rfl (by unfold InOrder; decide) hquiet
  have htext := htexts ⟨.ofNat 11, .ofNat 1, "b", noonOf 1 first_day⟩ (by decide +kernel)
    ⟨"a", .ofNat 1, (noonOf 1 first_day).isoformat⟩ (by decide +kernel)
  exact absurd htext (by decide)

/-- The worker gets to the creation before the post is edited. -/
def handledEarly : List BrokerStep :=
  [.call (.createPost (.ofNat 1) "a" (.ofNat 11) (noonOf 1 first_day)), .handle 0,
    .call (.updatePost (.ofNat 1) (.ofNat 11) "b")]

theorem texts_converge_handledEarly :
    TextsCurrent ((Broker.ofUsers [.ofNat 1]).run someOrder rabbitSettings handledEarly).world := by
  refine texts_converge someOrder rabbitSettings rfl [.ofNat 1] handledEarly ?_ handledEarly
    (List.prefix_refl _) ?_
  · intro pre n body hpre htask
    rcases eq_of_prefix_cons hpre with ⟨-, hcall⟩ | ⟨pre', rfl, hrest⟩
    · exact absurd hcall (by simp)
    · rcases eq_of_prefix_cons hrest with ⟨rfl, hn⟩ | ⟨pre'', -, hrest'⟩
      · obtain rfl := BrokerStep.handle.inj hn
        have hbody : body
            = ⟨"created", .ofNat 11, .ofNat 1, some "a", noonOf 1 first_day⟩ :=
          (Option.some.inj htask).symm
        rw [hbody]
        rintro ⟨-, p, hp, -, hne⟩
        obtain rfl := List.mem_singleton.mp hp
        exact hne rfl
      · obtain ⟨-, hcall⟩ := eq_of_prefix_singleton hrest'
        exact absurd hcall (by simp)
  · unfold Broker.Quiescent
    decide +kernel

/-! ## Deleted posts -/

/-- No merged read of any feed returns the post. -/
def NeverMerged (order : RowOrder) (cfg : Settings) (w : World) (id : Uuid) : Prop :=
  ∀ (v nonce : Uuid) (offset limit : Nat) (items : List FeedItem), w.Fresh v nonce →
    ((readFeedMerged cfg nonce v offset limit).run (exec order) w).1 = .ok items →
      ∀ i ∈ items, i.id ≠ id

/-- The post has no row, and no hash or no feed. -/
def Gone (w : World) (id : Uuid) : Prop :=
  (∀ p ∈ w.db.posts, p.id ≠ id) ∧
    (w.redis.posts id = none ∨ ∀ v, ∀ e ∈ (w.feed v).entries, e.member ≠ id)

/-- The step removes what is left of the post: it deletes the row with the hash, or it is the handling
of the deletion while only followers of the author have the post in their feeds. -/
def Broker.Clears (cfg : Settings) (b : Broker) (id : Uuid) : BrokerStep → Prop
  | .call (.deletePost user id' _) => id' = id ∧ ∃ p ∈ b.world.db.posts, p.id = id ∧ p.authorId = user
  | .handle n => (∀ p ∈ b.world.db.posts, p.id ≠ id) ∧
      ∃ body, (b.world.tasks cfg)[n]? = some body ∧ body.eventType = "deleted" ∧ body.postId = id ∧
        ∀ v, ∀ e ∈ (b.world.feed v).entries, e.member = id → b.world.db.Follows v body.authorId
  | _ => False

/-- The step handles the creation of the post, or creates a post under its id. -/
def Broker.Reposts (cfg : Settings) (b : Broker) (id : Uuid) : BrokerStep → Prop
  | .call (.createPost _ _ id' _) => id' = id
  | .handle n => ∃ body, (b.world.tasks cfg)[n]? = some body ∧ body.eventType = "created" ∧
      body.postId = id
  | _ => False

theorem mem_mergedPage {items : List FeedItem} {offset limit : Nat} {i : FeedItem}
    (h : i ∈ mergedPage items offset limit) :
    ∃ j ∈ items, i = { j with createdAt := none } := by
  obtain ⟨j, hj, rfl⟩ := List.mem_map.mp h
  have hmem := (List.mem_insertionSort _).mp (List.mem_of_mem_drop (List.mem_of_mem_take hj))
  exact ⟨j, (mem_of_mem_uniqueItems hmem).1, rfl⟩

theorem Gone.neverMerged {id : Uuid} (h : Gone w id) : NeverMerged order cfg w id := by
  intro v nonce offset limit items hfresh hread i hi
  rw [run_readFeedMerged order cfg v nonce offset limit w hfresh] at hread
  obtain rfl := Except.ok.inj hread
  obtain ⟨j, hj, rfl⟩ := mem_mergedPage hi
  show j.id ≠ id
  rcases List.mem_append.mp hj with hpush | hpull
  · obtain ⟨k, hk, rfl⟩ := List.mem_map.mp hpush
    exact shown_ne h.1 h.2 v 0 (offset + limit) k hk
  · obtain ⟨r, hr, rfl⟩ := List.mem_map.mp hpull
    have hrow := (Database.mem_recentPosts_of_mem hr).1
    rw [World.opened_db] at hrow
    exact h.1 r hrow

theorem Gone.call (order : RowOrder) (cfg : Settings) (hdef : Deferred cfg) (htemp : w.NoTemp)
    {id : Uuid} (h : Gone w id) {c : Call} (hc : ∀ user text now, c ≠ .createPost user text id now) :
    Gone (w.after order cfg c) id := by
  have heffects := c.effects order cfg hdef htemp
  have hrows : ∀ p ∈ (w.after order cfg c).db.posts, p.id ≠ id := by
    intro p hp hid
    rcases c.rows order cfg htemp hp with ⟨q, hq, hentry, -⟩ | ⟨text, hcreate⟩
    · exact h.1 q hq ((congrArg Entry.member hentry).trans hid)
    · exact hc _ _ _ (hid ▸ hcreate)
  refine ⟨hrows, ?_⟩
  rcases heffects.dead id hrows with hnone | ⟨-, hsame⟩
  · exact Or.inl hnone
  · rw [hsame]
    refine h.2.imp_right fun hfeeds v e he => ?_
    rcases heffects.added v e he with hold | ⟨p, hp, rfl, -⟩
    · exact hfeeds v e hold
    · exact hrows p hp

theorem Gone.task (order : RowOrder) (cfg : Settings) {id : Uuid} (h : Gone w id) {body : PostEvent}
    (hbody : ¬ (body.eventType = "created" ∧ body.postId = id)) :
    Gone (w.afterTask order cfg body) id := by
  refine ⟨fun p hp => h.1 p (by rwa [afterTask_db] at hp), ?_⟩
  have hsame : (w.afterTask order cfg body).redis.posts id = w.redis.posts id := by
    rw [afterTask_posts]
    split_ifs with hstores
    · exact Function.update_of_ne (fun hid => hbody ⟨hstores.1, hid.symm⟩) _ _
    · rfl
  rw [hsame]
  refine h.2.imp_right fun hfeeds v e he => ?_
  by_cases hcreated : body.eventType = "created"
  · rcases mem_feed_afterTask_created hcreated he with hold | ⟨rfl, -⟩
    · exact hfeeds v e hold
    · exact fun hid => hbody ⟨hcreated, hid⟩
  · exact hfeeds v e (mem_feed_afterTask_other hcreated he).1

/-- A step that clears the post leaves it gone. -/
theorem Broker.Clears.gone (order : RowOrder) {b : Broker} (hdef : Deferred cfg) {id : Uuid}
    {s : BrokerStep} (h : b.Clears cfg id s) : Gone (b.step order cfg s).world id := by
  cases s with
  | call c =>
      cases c with
      | deletePost user id' now =>
          obtain ⟨rfl, p, hp, rfl, rfl⟩ := h
          show Gone (b.world.after order cfg (.deletePost p.authorId p.id now)) p.id
          rcases run_deletePost_cases order cfg p.authorId p.id now b.world with
            ⟨hnone, -⟩ | ⟨q, hq, hid, -, hrun⟩
          · exact absurd ⟨rfl, rfl⟩ (hnone p hp)
          · rw [after_eq hrun]
            obtain ⟨hdb, hredis⟩ := announcedDeleted_deferred hdef
              ((b.world.withDb (b.world.db.deletePost p.id p.authorId).2).setPost p.id none)
              p.authorId p.id now
            refine ⟨fun r hr => ?_, Or.inl ?_⟩
            · rw [hdb] at hr
              exact ((Database.mem_deletePost_of_mem hp rfl rfl).mp hr).2
            · rw [hredis]
              exact Function.update_self _ _ _
      | createPost user text id' now => exact absurd h fun h => h
      | updatePost user id' text => exact absurd h fun h => h
      | setFriend user friend => exact absurd h fun h => h
      | deleteFriend user friend => exact absurd h fun h => h
      | rebuildFeed user nonce => exact absurd h fun h => h
      | getFeed user nonce offset limit => exact absurd h fun h => h
  | handle n =>
      obtain ⟨hrows, body, htask, hdeleted, rfl, hfollowers⟩ := h
      rcases b.step_handle order cfg n with ⟨hnone, -⟩ | ⟨body', htask', hstep⟩
      · rw [htask] at hnone
        exact absurd hnone (by simp)
      · rw [htask] at htask'
        obtain rfl := Option.some.inj htask'
        rw [hstep]
        have hcreated : body.eventType ≠ "created" := by
          rw [hdeleted]
          decide
        refine ⟨fun p hp => hrows p (by rwa [afterTask_db] at hp), Or.inr fun v e he hid => ?_⟩
        obtain ⟨hold, hnot⟩ := mem_feed_afterTask_other hcreated he
        exact hnot ⟨hdeleted, hid, hfollowers v e hold hid⟩
  | expireFlag author => exact absurd h fun h => h

/-- No temporary key outlives a step. -/
theorem Broker.noTemp_step (order : RowOrder) (hdef : Deferred cfg) {b : Broker}
    (h : b.world.NoTemp) (s : BrokerStep) : (b.step order cfg s).world.NoTemp := by
  cases s with
  | call c => exact (c.effects order cfg hdef h).noTemp
  | handle n =>
      rcases b.step_handle order cfg n with ⟨-, hstep⟩ | ⟨body, -, hstep⟩
      · rw [hstep]
        exact h
      · rw [hstep]
        exact noTemp_afterTask h body
  | expireFlag author => exact h

theorem Broker.noTemp_run (order : RowOrder) (hdef : Deferred cfg) (users : List Uuid)
    (steps : List BrokerStep) : ((Broker.ofUsers users).run order cfg steps).world.NoTemp := by
  induction steps using List.reverseRecOn with
  | nil => exact fun _ _ => rfl
  | append_singleton pre s ih =>
      rw [Broker.run_append]
      exact Broker.noTemp_step order hdef ih s

/-- **A deleted post stays away** once it was cleared, by its deletion or by the handling of its
deletion, and its creation is not handled after that. -/
theorem deleted_stays_away (order : RowOrder) (cfg : Settings)
    (hrabbit : cfg.feedTransport = "rabbitmq") (users : List Uuid) (id : Uuid)
    (before : List BrokerStep) (s : BrokerStep) (behind : List BrokerStep)
    (hclears : ((Broker.ofUsers users).run order cfg before).Clears cfg id s)
    (hbehind : ∀ pre t, pre ++ [t] <+: behind →
      ¬ ((Broker.ofUsers users).run order cfg (before ++ s :: pre)).Reposts cfg id t) :
    NeverMerged order cfg ((Broker.ofUsers users).run order cfg (before ++ s :: behind)).world id := by
  refine Gone.neverMerged ?_
  have hrun : ∀ pre, pre <+: behind →
      Gone ((Broker.ofUsers users).run order cfg (before ++ s :: pre)).world id := by
    intro pre
    induction pre using List.reverseRecOn with
    | nil =>
        intro _
        rw [Broker.run_append]
        exact hclears.gone order (Or.inl hrabbit)
    | append_singleton pre t ih =>
        intro hpre
        have hgone := ih ((List.prefix_append pre [t]).trans hpre)
        have hnot := hbehind pre t hpre
        have htemp := Broker.noTemp_run order (Or.inl hrabbit) users (before ++ s :: pre)
        rw [← List.cons_append, ← List.append_assoc, Broker.run_append]
        cases t with
        | call c =>
            refine hgone.call order cfg (Or.inl hrabbit) htemp fun user text now hc => hnot ?_
            rw [hc]
            rfl
        | handle n =>
            rcases Broker.step_handle order cfg
              ((Broker.ofUsers users).run order cfg (before ++ s :: pre)) n with
              ⟨-, hstep⟩ | ⟨body, htask, hstep⟩
            · rw [hstep]
              exact hgone
            · rw [hstep]
              exact hgone.task order cfg fun hcreated => hnot ⟨body, htask, hcreated⟩
        | expireFlag author => exact hgone
  exact hrun behind (List.prefix_refl _)

/-- User 1 follows user 2, whose post is created and deleted; the worker handles the deletion first. -/
def deletionFirst : List BrokerStep :=
  [.call (.setFriend (.ofNat 1) (.ofNat 2)),
    .call (.createPost (.ofNat 2) "a" (.ofNat 11) (noonOf 1 first_day)),
    .call (.deletePost (.ofNat 2) (.ofNat 11) (noonOf 2 second_day)), .handle 1, .handle 0]

/-- The creation brings the deleted post back. -/
theorem lateCreation_restores_post :
    ¬ ∀ (cfg : Settings) (users : List Uuid) (steps : List BrokerStep) (user id : Uuid)
      (now : DateTime), cfg.feedTransport = "rabbitmq" →
        BrokerStep.call (.deletePost user id now) ∈ steps →
          (∀ p ∈ ((Broker.ofUsers users).run someOrder cfg steps).world.db.posts, p.id ≠ id) →
            ((Broker.ofUsers users).run someOrder cfg steps).Quiescent cfg →
              NeverMerged someOrder cfg ((Broker.ofUsers users).run someOrder cfg steps).world id := by
  intro h
  have hquiet : ((Broker.ofUsers [.ofNat 1, .ofNat 2]).run someOrder rabbitSettings
      deletionFirst).Quiescent rabbitSettings := by
    unfold Broker.Quiescent
    decide +kernel
  have hnever := h rabbitSettings [.ofNat 1, .ofNat 2] deletionFirst (.ofNat 2) (.ofNat 11)
    (noonOf 2 second_day) rfl (by simp [deletionFirst]) (by decide +kernel) hquiet
  exact hnever (.ofNat 1) (.ofNat 0) 0 1 [⟨.ofNat 11, "a", .ofNat 2, none⟩] (fun _ => rfl) rfl _
    List.mem_cons_self rfl

/-- User 1 follows user 2, whose post the worker pushes. -/
def postPushed : List BrokerStep :=
  [.call (.setFriend (.ofNat 1) (.ofNat 2)),
    .call (.createPost (.ofNat 2) "a" (.ofNat 11) (noonOf 1 first_day)), .handle 0]

theorem deleted_stays_away_lateDeletion :
    ((Broker.ofUsers [.ofNat 1, .ofNat 2]).run someOrder rabbitSettings (postPushed
        ++ .call (.deletePost (.ofNat 2) (.ofNat 11) (noonOf 2 second_day)) ::
          [.handle 1])).Quiescent rabbitSettings ∧
      NeverMerged someOrder rabbitSettings ((Broker.ofUsers [.ofNat 1, .ofNat 2]).run someOrder
        rabbitSettings (postPushed
          ++ .call (.deletePost (.ofNat 2) (.ofNat 11) (noonOf 2 second_day)) ::
            [.handle 1])).world (.ofNat 11) := by
  refine ⟨?_, deleted_stays_away someOrder rabbitSettings rfl [.ofNat 1, .ofNat 2] (.ofNat 11) _ _
    [.handle 1] ⟨rfl, ⟨.ofNat 11, .ofNat 2, "a", noonOf 1 first_day⟩, ?_, rfl, rfl⟩ ?_⟩
  · unfold Broker.Quiescent
    decide +kernel
  · decide +kernel
  · intro pre t hpre
    obtain ⟨rfl, rfl⟩ := eq_of_prefix_singleton hpre
    rintro ⟨body, htask, hcreated, -⟩
    have hbody : body = ⟨"deleted", .ofNat 11, .ofNat 2, none, noonOf 2 second_day⟩ :=
      (Option.some.inj htask).symm
    rw [hbody] at hcreated
    exact absurd hcreated (by decide)

end HighLoad.Feed
