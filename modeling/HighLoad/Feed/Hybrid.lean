/-
# HighLoad.Feed.Hybrid — push for ordinary authors, pull for celebrities

The worker evaluates the celebrity flag when it handles a creation, the reader when it merges. A post
that the worker left to the readers is seen as long as its author is still flagged at the read
(`hybrid_shows_friends`); when the author has lost followers in between, nobody shows it.
-/
import HighLoad.Feed.Complete
import HighLoad.Feed.Rabbit
import Mathlib.Tactic.IntervalCases

namespace HighLoad.Feed

open Prog Paging

variable {order : RowOrder} {cfg : Settings} {w : World} {u : Uuid}

/-! ## Tasks -/

/-- No task of the post was handled. -/
def Pending (cfg : Settings) (b : Broker) (id : Uuid) : Prop :=
  ∀ n body, (b.world.tasks cfg)[n]? = some body → body.postId = id → n ∉ b.handled

/-- The call neither edits nor deletes a post. -/
def Call.KeepsPosts : Call → Prop
  | .updatePost _ _ _ => False
  | .deletePost _ _ _ => False
  | _ => True

/-- The step handles a task of an author who is flagged, so that nothing is pushed. -/
def Broker.Skips (cfg : Settings) (b : Broker) (author : Uuid) : BrokerStep → Prop
  | .handle n => ∃ body, (b.world.tasks cfg)[n]? = some body ∧ body.authorId = author ∧
      celebrityFlag cfg b.world author = true
  | _ => False

/-- A step of the run skipped the author. -/
def Skipped (order : RowOrder) (cfg : Settings) (users : List Uuid) (steps : List BrokerStep)
    (author : Uuid) : Prop :=
  ∃ pre s, pre ++ [s] <+: steps ∧ ((Broker.ofUsers users).run order cfg pre).Skips cfg author s

/-- The task that announces a row. -/
def PostRow.task (r : PostRow) : PostEvent := ⟨"created", r.id, r.authorId, some r.text, r.createdAt⟩

/-- A call publishes one task for each post it creates, and there is at most one such post. -/
theorem Call.publishes (order : RowOrder) (hrabbit : cfg.feedTransport = "rabbitmq")
    (htemp : w.NoTemp) {c : Call} (hc : c.KeepsPosts) :
    ∃ rows, (w.after order cfg c).db.posts = w.db.posts ++ rows ∧
      (w.after order cfg c).tasks cfg = w.tasks cfg ++ rows.map PostRow.task := by
  have hnothing : ∀ {w' : World}, w'.db.posts = w.db.posts → w'.tasks cfg = w.tasks cfg →
      ∃ rows, w'.db.posts = w.db.posts ++ rows ∧
        w'.tasks cfg = w.tasks cfg ++ rows.map PostRow.task := fun hposts htasks =>
    ⟨[], hposts.trans (List.append_nil _).symm, htasks.trans (List.append_nil _).symm⟩
  cases c with
  | createPost user text id now =>
      rcases run_createPost_cases order cfg user text id now w with
        ⟨e, hrun⟩ | ⟨db, -, hposts, -, hrun⟩
      · rw [after_eq hrun]
        exact hnothing rfl rfl
      · rw [after_eq hrun]
        refine ⟨[⟨id, user, text, now⟩], ?_, ?_⟩
        · unfold World.announcedCreated
          rw [if_pos hrabbit]
          exact hposts
        · unfold World.announcedCreated
          rw [if_pos hrabbit]
          simp [World.tasks, World.setPost, World.withDb, PostRow.task]
  | updatePost user id text => exact absurd hc fun h => h
  | deletePost user id now => exact absurd hc fun h => h
  | setFriend user friend =>
      rcases run_setFriend_cases order cfg user friend w with
        ⟨e, -, hrun⟩ | ⟨db, -, -, hposts, -, hrun⟩
      · rw [after_eq hrun]
        exact hnothing rfl rfl
      · rw [after_eq hrun]
        unfold World.befriended
        split_ifs
        · exact hnothing hposts rfl
        · exact hnothing hposts rfl
  | deleteFriend user friend =>
      rw [after_eq (run_deleteFriend order user friend w)]
      exact hnothing rfl rfl
  | rebuildFeed user nonce =>
      rw [after_eq (run_rebuildFeed order cfg user nonce w htemp)]
      exact hnothing rfl rfl
  | getFeed user nonce offset limit =>
      rcases run_getFeed_cases order cfg user nonce offset limit w htemp with
        ⟨e, hrun⟩ | ⟨posts, ids, fs, -, -, hrun⟩
      · rw [after_eq hrun]
        exact hnothing rfl rfl
      · rw [after_eq hrun]
        apply hnothing
        · show (w.opened order cfg user).db.posts = w.db.posts
          rw [World.opened_db]
        · show (w.opened order cfg user).tasks cfg = w.tasks cfg
          unfold World.opened
          split_ifs <;> rfl

/-- The worker publishes notifications, but no task. -/
theorem tasks_afterTask (w : World) (body : PostEvent) :
    (w.afterTask order cfg body).tasks cfg = w.tasks cfg := by
  have hstored : (w.storedBody body).tasks cfg = w.tasks cfg := by
    unfold World.storedBody
    split_ifs <;> rfl
  rw [afterTask_eq]
  split_ifs
  · unfold World.handledCreated
    split_ifs
    · exact hstored
    · rw [← hstored]
      simp [World.materialized, World.tasks, World.notifications, World.flagged, World.cacheFlags,
        World.mapFeeds]
  · rfl
  · rfl

/-! ## The invariant -/

/-- Every post of a friend is in the feed, or its task is pending, or its author was skipped. -/
structure Hybrid (cfg : Settings) (skipped : Uuid → Prop) (b : Broker) : Prop where
  complete : Complete cfg (b.world.db.posts.map PostRow.id)
    (fun p => Pending cfg b p.id ∨ skipped p.authorId) b.world
  tasks : ∀ body ∈ b.world.tasks cfg, body.eventType = "created" ∧ ∃ p ∈ b.world.db.posts,
    p.entry = ⟨body.createdAt, body.postId⟩ ∧ p.authorId = body.authorId ∧ body.text = some p.text
  published : ∀ p ∈ b.world.db.posts, ∃ body ∈ b.world.tasks cfg, body.postId = p.id
  handled : ∀ n ∈ b.handled, n < (b.world.tasks cfg).length

theorem hybrid_initial (cfg : Settings) (users : List Uuid) (skipped : Uuid → Prop) :
    Hybrid cfg skipped (Broker.ofUsers users) where
  complete := complete_initial cfg users _
  tasks _ hbody := absurd hbody List.not_mem_nil
  published _ hp := absurd hp List.not_mem_nil
  handled _ hn := absurd hn List.not_mem_nil

theorem Hybrid.mono {skipped skipped' : Uuid → Prop} {b : Broker} (h : Hybrid cfg skipped b)
    (hsub : ∀ a, skipped a → skipped' a) : Hybrid cfg skipped' b :=
  { h with complete := h.complete.mono fun _ _ hex => hex.imp_right (hsub _) }

/-- A call of a handler. -/
theorem Hybrid.call (order : RowOrder) (hrabbit : cfg.feedTransport = "rabbitmq")
    {skipped : Uuid → Prop} {b : Broker} (h : Hybrid cfg skipped b) {c : Call} (hc : c.KeepsPosts)
    (hfew : (b.world.after order cfg c).db.posts.length ≤ cfg.feedMaxSize) :
    Hybrid cfg skipped { b with world := b.world.after order cfg c } := by
  have hfew' : ((b.world.after order cfg c).db.posts.map PostRow.id).length ≤ cfg.feedMaxSize := by
    rwa [List.length_map]
  obtain ⟨rows, hposts, htasks⟩ := c.publishes order hrabbit h.complete.noTemp hc
  have hold : ∀ n body, ((b.world.after order cfg c).tasks cfg)[n]? = some body → n ∈ b.handled →
      (b.world.tasks cfg)[n]? = some body := by
    intro n body hbody hn
    rw [htasks, List.getElem?_append_left (h.handled n hn)] at hbody
    exact hbody
  have hfresh : ∀ r ∈ rows, r.id ∉ b.world.db.posts.map PostRow.id := by
    intro r hr hmem
    obtain ⟨p, hp, hid⟩ := List.mem_map.mp hmem
    exact Database.ne_id_of_mem_append hposts p hp r hr hid
  refine
    { complete := h.complete.call order (Or.inl hrabbit) c ?_ hfew' ?_ ?_
      tasks := ?_
      published := ?_
      handled := ?_ }
  · show b.world.db.posts.map PostRow.id ⊆ (b.world.after order cfg c).db.posts.map PostRow.id
    rw [hposts, List.map_append]
    exact List.subset_append_left _ _
  · intro p hp _
    have hmem : p.id ∈ (b.world.after order cfg c).db.posts.map PostRow.id := List.mem_map_of_mem hp
    rw [hposts] at hp
    rcases List.mem_append.mp hp with hp | hp
    · exact Or.inl ⟨p, hp, rfl, rfl⟩
    · -- a new post is pending: no handled task names it
      refine Or.inr ⟨hfresh p hp, hmem, Or.inl fun n body hbody hid hn => ?_⟩
      obtain ⟨-, q, hq, hentry, -⟩ := h.tasks body (List.mem_of_getElem? (hold n body hbody hn))
      have hqid : q.id = body.postId := congrArg Entry.member hentry
      exact hfresh p hp (List.mem_map.mpr ⟨q, hq, hqid.trans hid⟩)
  · intro q _ p _ hentry hauthor hex
    have hid : q.id = p.id := congrArg Entry.member hentry
    refine hex.imp (fun hq n body hbody hpid hn => ?_) fun hskip => hauthor ▸ hskip
    exact hq n body (hold n body hbody hn) (hpid.trans hid.symm) hn
  · intro body hbody
    change body ∈ (b.world.after order cfg c).tasks cfg at hbody
    show _ ∧ ∃ p ∈ (b.world.after order cfg c).db.posts, _
    rw [htasks] at hbody
    rw [hposts]
    rcases List.mem_append.mp hbody with hbody | hbody
    · obtain ⟨htype, p, hp, hrest⟩ := h.tasks body hbody
      exact ⟨htype, p, List.mem_append_left _ hp, hrest⟩
    · obtain ⟨r, hr, rfl⟩ := List.mem_map.mp hbody
      exact ⟨rfl, r, List.mem_append_right _ hr, rfl, rfl, rfl⟩
  · intro p hp
    change p ∈ (b.world.after order cfg c).db.posts at hp
    show ∃ body ∈ (b.world.after order cfg c).tasks cfg, _
    rw [hposts] at hp
    rw [htasks]
    rcases List.mem_append.mp hp with hp | hp
    · obtain ⟨body, hbody, hid⟩ := h.published p hp
      exact ⟨body, List.mem_append_left _ hbody, hid⟩
    · exact ⟨p.task, List.mem_append_right _ (List.mem_map_of_mem hp), rfl⟩
  · intro n hn
    show n < ((b.world.after order cfg c).tasks cfg).length
    rw [htasks, List.length_append]
    exact Nat.lt_add_right _ (h.handled n hn)

theorem celebrityFlag_storedBody (w : World) (body : PostEvent) (a : Uuid) :
    celebrityFlag cfg (w.storedBody body) a = celebrityFlag cfg w a := by
  unfold World.storedBody
  split_ifs <;> rfl

/-- **The handling of a creation** ends the post's excuse, unless its author is skipped. -/
theorem Hybrid.task (order : RowOrder) {skipped : Uuid → Prop} {b : Broker}
    (h : Hybrid cfg skipped b) {n : Nat} {body : PostEvent}
    (htask : (b.world.tasks cfg)[n]? = some body) :
    Hybrid cfg (fun a => skipped a ∨ (a = body.authorId ∧ celebrityFlag cfg b.world a = true))
      ⟨b.world.afterTask order cfg body, n :: b.handled⟩ := by
  have hmem := List.mem_of_getElem? htask
  obtain ⟨htype, row, hrow, hentry, hauthor, htext⟩ := h.tasks body hmem
  have hid : row.id = body.postId := congrArg Entry.member hentry
  have htime : row.createdAt = body.createdAt := congrArg Entry.score hentry
  have hunique : ∀ p ∈ b.world.db.posts, p.id = body.postId → p = row := fun p hp hpid =>
    b.world.db.eq_of_id_eq hp hrow (hpid.trans hid.symm)
  have hpending : ∀ id, id ≠ body.postId → Pending cfg b id →
      Pending cfg ⟨b.world.afterTask order cfg body, n :: b.handled⟩ id := by
    intro id hne hp m body' hbody' hid' hm
    change ((b.world.afterTask order cfg body).tasks cfg)[m]? = some body' at hbody'
    rw [tasks_afterTask] at hbody'
    rcases List.mem_cons.mp hm with rfl | hm
    · rw [htask] at hbody'
      obtain rfl := Option.some.inj hbody'
      exact hne hid'.symm
    · exact hp m body' hbody' hid' hm
  have hstored : Complete cfg (b.world.db.posts.map PostRow.id)
      (fun p => Pending cfg b p.id ∨ skipped p.authorId) (b.world.storedBody body) := by
    unfold World.storedBody
    split_ifs
    · refine h.complete.stored fun p hp hpid => ?_
      have hbodyText : body.bodyText = row.text := by
        unfold PostEvent.bodyText
        rw [htext]
        rfl
      rw [hunique p hp hpid, rowToPostHash, hbodyText, htime, hauthor]
    · exact h.complete
  have hstoredDb : (b.world.storedBody body).db = b.world.db := by
    unfold World.storedBody
    split_ifs <;> rfl
  have hcomplete : Complete cfg (b.world.db.posts.map PostRow.id)
      (fun p => Pending cfg ⟨b.world.afterTask order cfg body, n :: b.handled⟩ p.id ∨
        (skipped p.authorId ∨
          (p.authorId = body.authorId ∧ celebrityFlag cfg b.world p.authorId = true)))
      (b.world.afterTask order cfg body) := by
    rw [afterTask_eq, if_pos htype] at hpending ⊢
    unfold World.handledCreated at hpending ⊢
    rw [celebrityFlag_storedBody] at hpending ⊢
    by_cases hflag : celebrityFlag cfg b.world body.authorId = true
    · rw [if_pos hflag] at hpending ⊢
      refine (hstored.mono fun p hp hex => ?_).congr rfl rfl rfl
      rw [hstoredDb] at hp
      by_cases hpid : p.id = body.postId
      · have hpauthor : p.authorId = body.authorId := hunique p hp hpid ▸ hauthor
        exact Or.inr (Or.inr ⟨hpauthor, hpauthor ▸ hflag⟩)
      · exact hex.imp (hpending p.id hpid) Or.inl
    · rw [if_neg hflag] at hpending ⊢
      refine Complete.congr (w := (b.world.storedBody body).mapFeeds
        ((b.world.storedBody body).db.followers body.authorId)
          (Feed.pushed cfg.feedMaxSize body.createdAt body.postId)) ?_ rfl rfl rfl
      refine hstored.pushed ?_ (fun p hp hpid => ?_) fun p _ hpid hex => ?_
      · rw [← hid]
        exact List.mem_map_of_mem hrow
      · rw [hstoredDb] at hp
        rw [hunique p hp hpid]
        exact ⟨hentry, hauthor⟩
      · exact hex.imp (hpending p.id hpid) Or.inl
  exact
    { complete := by
        show Complete cfg ((b.world.afterTask order cfg body).db.posts.map PostRow.id) _ _
        rw [afterTask_db]
        exact hcomplete
      tasks := by
        show ∀ body' ∈ (b.world.afterTask order cfg body).tasks cfg, _
        rw [tasks_afterTask, afterTask_db]
        exact h.tasks
      published := by
        show ∀ p ∈ (b.world.afterTask order cfg body).db.posts, _
        rw [tasks_afterTask, afterTask_db]
        exact h.published
      handled := by
        intro m hm
        show m < ((b.world.afterTask order cfg body).tasks cfg).length
        rw [tasks_afterTask]
        rcases List.mem_cons.mp hm with rfl | hm
        · exact (List.getElem?_eq_some_iff.mp htask).1
        · exact h.handled m hm }

theorem Hybrid.expireFlag {skipped : Uuid → Prop} {b : Broker} (h : Hybrid cfg skipped b)
    (author : Uuid) : Hybrid cfg skipped { b with world := b.world.setCelebrity author none } where
  complete := h.complete.congr rfl rfl rfl
  tasks := h.tasks
  published := h.published
  handled := h.handled

/-- **The run lemma.** -/
theorem hybrid_run (order : RowOrder) (hrabbit : cfg.feedTransport = "rabbitmq") (users : List Uuid)
    (steps : List BrokerStep) (hcalls : ∀ c, .call c ∈ steps → c.KeepsPosts)
    (hfew : ∀ pre, pre <+: steps →
      ((Broker.ofUsers users).run order cfg pre).world.db.posts.length ≤ cfg.feedMaxSize) :
    ∀ pre, pre <+: steps → Hybrid cfg (Skipped order cfg users pre)
      ((Broker.ofUsers users).run order cfg pre) := by
  intro pre
  induction pre using List.reverseRecOn with
  | nil => exact fun _ => hybrid_initial cfg users _
  | append_singleton pre s ih =>
      intro hpre
      have hbefore := ih ((List.prefix_append pre [s]).trans hpre)
      have hgrow : ∀ a, Skipped order cfg users pre a → Skipped order cfg users (pre ++ [s]) a := by
        rintro a ⟨pre', t, hpre', hskips⟩
        exact ⟨pre', t, hpre'.trans (List.prefix_append pre [s]), hskips⟩
      have hfew' := hfew _ hpre
      rw [Broker.run_append] at hfew' ⊢
      cases s with
      | call c =>
          have hc := hcalls c (hpre.subset (by simp))
          exact (hbefore.call order hrabbit hc hfew').mono hgrow
      | handle n =>
          rcases Broker.step_handle order cfg ((Broker.ofUsers users).run order cfg pre) n with
            ⟨-, hstep⟩ | ⟨body, htask, hstep⟩
          · rw [hstep]
            exact hbefore.mono hgrow
          · rw [hstep]
            refine (hbefore.task order htask).mono fun a ha => ?_
            rcases ha with hold | ⟨rfl, hflag⟩
            · exact hgrow a hold
            · exact ⟨pre, .handle n, List.prefix_refl _, body, htask, rfl, hflag⟩
      | expireFlag author => exact (hbefore.expireFlag author).mono hgrow

/-! ## The merged read -/

theorem celebrityFlag_opened (order : RowOrder) (cfg : Settings) (w : World) (u a : Uuid) :
    celebrityFlag cfg (w.opened order cfg u) a = celebrityFlag cfg w a := by
  unfold World.opened
  split_ifs <;> rfl

/-- The posts of a flagged friend are pulled, when the page is as long as there are posts of friends. -/
theorem mem_pulled (order : RowOrder) {k : Nat} (hk : (friendPosts w.db u).length ≤ k) {q : PostRow}
    (hq : q ∈ friendPosts w.db u) (hflag : celebrityFlag cfg w q.authorId = true) :
    pulledItem q ∈ pullPart order cfg (w.opened order cfg u) u (0 + k) := by
  have hdb : (w.opened order cfg u).db = w.db := World.opened_db u
  refine List.mem_map_of_mem ?_
  have hfits : (w.db.posts.filter fun r =>
      r.authorId ∈ celebrityFriends cfg (w.opened order cfg u) u).length ≤ 0 + k := by
    rw [Nat.zero_add]
    refine le_trans (List.monotone_filter_right _ fun r hr => ?_).length_le hk
    have hceleb := (mem_celebrityFriends.mp (of_decide_eq_true hr)).1
    rw [hdb] at hceleb
    exact decide_eq_true hceleb
  unfold Database.recentPosts
  rw [hdb, List.take_of_length_le (by rwa [(order.perm _).length_eq]), (order.perm _).mem_iff,
    List.mem_filter]
  refine ⟨(mem_friendPosts.mp hq).1, decide_eq_true (mem_celebrityFriends.mpr ⟨?_, ?_⟩)⟩
  · rw [hdb]
    exact (mem_friendPosts.mp hq).2
  · rw [celebrityFlag_opened]
    exact hflag

/-- Items that are posts of friends all fit into a page as long as there are such posts. -/
theorem mem_sorted_unique {db : Database} {items : List FeedItem} {k : Nat}
    (hall : ∀ i ∈ items, ∃ q ∈ friendPosts db u, pulledItem q = i)
    (hk : (friendPosts db u).length ≤ k) {p : PostRow} (hp : p ∈ friendPosts db u)
    (hin : pulledItem p ∈ items) :
    pulledItem p ∈ (((uniqueItems [] items).insertionSort FeedItem.Before).drop 0).take k := by
  -- there are no more different items than posts of friends
  have hunique : (uniqueItems [] items).length ≤ k := by
    refine le_trans ?_ hk
    rw [← List.length_map pulledItem]
    refine (List.subperm_of_subset (nodup_uniqueItems [] items) fun i hi => ?_).length_le
    obtain ⟨q, hq, rfl⟩ := hall i (mem_of_mem_uniqueItems hi).1
    exact List.mem_map_of_mem hq
  rw [List.drop_zero, List.take_of_length_le (by rwa [List.length_insertionSort]),
    List.mem_insertionSort]
  obtain ⟨j, hj, hjid⟩ := exists_mem_uniqueItems hin List.not_mem_nil
  obtain ⟨q, hq, rfl⟩ := hall j (mem_of_mem_uniqueItems hj).1
  obtain rfl := db.eq_of_id_eq (mem_friendPosts.mp hq).1 (mem_friendPosts.mp hp).1 hjid
  exact hj

/-- **What a merged read contains**: the posts of friends that are in the feed or whose author is
flagged, when the page is as long as there are such posts. -/
theorem mem_merged_read (order : RowOrder) {excused : PostRow → Prop}
    (h : Complete cfg (w.db.posts.map PostRow.id) excused w) (nonce : Uuid) {k : Nat}
    (hk : (friendPosts w.db u).length ≤ k) {p : PostRow} (hp : p ∈ friendPosts w.db u)
    (hex : excused p → celebrityFlag cfg w p.authorId = true) :
    ∃ items, ((readFeedMerged cfg nonce u 0 k).run (exec order) w).1 = .ok items ∧
      itemOfRow p ∈ items := by
  obtain ⟨hrow, hfollows⟩ := mem_friendPosts.mp hp
  have hk' : 1 ≤ k := le_trans (List.length_pos_of_mem hp) hk
  have hdb : (w.opened order cfg u).db = w.db := World.opened_db u
  have hmember : ∀ e ∈ ((w.opened order cfg u).feed u).entries,
      ∃ q ∈ friendPosts w.db u, q.entry = e := by
    intro e he
    obtain ⟨q, hq, hqid⟩ := List.mem_map.mp (h.members_opened order he)
    obtain ⟨hentry, hqfollows⟩ := h.agrees_opened order he hq hqid
    exact ⟨q, mem_friendPosts.mpr ⟨hq, hqfollows⟩, hentry⟩
  have hlen : ((w.opened order cfg u).members u).length ≤ k := by
    refine le_trans ?_ hk
    rw [← List.length_map PostRow.id]
    refine (List.subperm_of_subset (nodup_members _ u) fun m hm => ?_).length_le
    obtain ⟨e, he, rfl⟩ := List.mem_map.mp hm
    obtain ⟨q, hq, rfl⟩ := hmember e (List.mem_reverse.mp he)
    exact List.mem_map.mpr ⟨q, hq, rfl⟩
  have hitem : ∀ q ∈ w.db.posts, itemOf (w.opened order cfg u) q.id = some (itemOfRow q) ∧
      datedItem (w.opened order cfg u) (itemOfRow q) = pulledItem q := fun q hq =>
    ⟨itemOf_row (h.hash_opened order hq), datedItem_row (h.hash_opened order hq)⟩
  have hpush : p.entry ∈ ((w.opened order cfg u).feed u).entries →
      pulledItem p ∈ (pushPart (w.opened order cfg u) u (0 + k)).map
        (datedItem (w.opened order cfg u)) := by
    intro hmem
    refine List.mem_map.mpr ⟨itemOfRow p, List.mem_filterMap.mpr ⟨p.id, ?_, (hitem p hrow).1⟩,
      (hitem p hrow).2⟩
    rw [Nat.zero_add, pageIds_eq _ u 0 hk', page, List.drop_zero, List.take_of_length_le hlen]
    exact List.mem_map_of_mem (List.mem_reverse.mpr hmem)
  have hall : ∀ i ∈ (pushPart (w.opened order cfg u) u (0 + k)).map
      (datedItem (w.opened order cfg u)) ++ pullPart order cfg (w.opened order cfg u) u (0 + k),
        ∃ q ∈ friendPosts w.db u, pulledItem q = i := by
    intro i hi
    rcases List.mem_append.mp hi with hi | hi
    · obtain ⟨j, hj, rfl⟩ := List.mem_map.mp hi
      obtain ⟨m, hm, hmitem⟩ := List.mem_filterMap.mp hj
      obtain ⟨e, he, rfl⟩ := exists_entry_of_mem_pageIds hm
      obtain ⟨q, hq, rfl⟩ := hmember e he
      have hq' := (mem_friendPosts.mp hq).1
      have hsome : itemOf (w.opened order cfg u) q.entry.member = some (itemOfRow q) := (hitem q hq').1
      rw [hsome] at hmitem
      obtain rfl := Option.some.inj hmitem
      exact ⟨q, hq, (hitem q hq').2.symm⟩
    · obtain ⟨r, hr, rfl⟩ := List.mem_map.mp hi
      obtain ⟨hrmem, hrceleb⟩ := Database.mem_recentPosts_of_mem hr
      have hrfollows := (mem_celebrityFriends.mp hrceleb).1
      rw [hdb] at hrmem hrfollows
      exact ⟨r, mem_friendPosts.mpr ⟨hrmem, hrfollows⟩, rfl⟩
  have hin : pulledItem p ∈ (pushPart (w.opened order cfg u) u (0 + k)).map
      (datedItem (w.opened order cfg u)) ++ pullPart order cfg (w.opened order cfg u) u (0 + k) := by
    by_cases hexp : excused p
    · exact List.mem_append_right _ (mem_pulled order hk hp (hex hexp))
    · exact List.mem_append_left _ (hpush (h.opened order hrow hfollows hexp))
  rw [run_readFeedMerged order cfg u nonce 0 k w (h.noTemp.fresh u nonce)]
  exact ⟨_, rfl, List.mem_map.mpr ⟨pulledItem p, by
    rw [Nat.zero_add] at hall hin ⊢
    exact mem_sorted_unique hall hk hp hin, rfl⟩⟩

/-- **The hybrid shows every friend's post** when the authors that the worker skipped are still flagged
at the read. -/
theorem hybrid_shows_friends (order : RowOrder) (cfg : Settings)
    (hrabbit : cfg.feedTransport = "rabbitmq") (users : List Uuid) (steps : List BrokerStep)
    (hcalls : ∀ c, .call c ∈ steps → c.KeepsPosts)
    (hfew : ∀ pre, pre <+: steps →
      ((Broker.ofUsers users).run order cfg pre).world.db.posts.length ≤ cfg.feedMaxSize)
    (hquiet : ((Broker.ofUsers users).run order cfg steps).Quiescent cfg)
    (hflags : ∀ a, Skipped order cfg users steps a →
      celebrityFlag cfg ((Broker.ofUsers users).run order cfg steps).world a = true)
    (u nonce : Uuid) (k : Nat)
    (hk : (friendPosts ((Broker.ofUsers users).run order cfg steps).world.db u).length ≤ k) :
    ∀ p ∈ friendPosts ((Broker.ofUsers users).run order cfg steps).world.db u,
      ∃ items, ((readFeedMerged cfg nonce u 0 k).run (exec order)
          ((Broker.ofUsers users).run order cfg steps).world).1 = .ok items ∧
        itemOfRow p ∈ items := by
  intro p hp
  have h := hybrid_run order hrabbit users steps hcalls hfew steps (List.prefix_refl _)
  refine mem_merged_read order h.complete nonce hk hp fun hex => ?_
  rcases hex with hpending | hskipped
  · -- its task was handled
    obtain ⟨body, hbody, hid⟩ := h.published p (mem_friendPosts.mp hp).1
    obtain ⟨n, hn, hget⟩ := List.mem_iff_getElem.mp hbody
    exact absurd (hquiet n hn) (hpending n body (by rw [List.getElem?_eq_getElem hn, hget]) hid)
  · exact hflags _ hskipped

/-- Two followers make a celebrity. -/
def twoFollowers : Settings := { feedTransport := "rabbitmq", celebrityFollowersThreshold := 2 }

/-- User 1 follows users 2 and 3, user 3 follows user 2. Both write a post, and when the worker has
skipped user 2 the other follower leaves. -/
def followerLeaves : List BrokerStep :=
  [.call (.setFriend (.ofNat 1) (.ofNat 2)), .call (.setFriend (.ofNat 3) (.ofNat 2)),
    .call (.setFriend (.ofNat 1) (.ofNat 3)),
    .call (.createPost (.ofNat 3) "b" (.ofNat 12) (noonOf 1 first_day)), .handle 0,
    .call (.createPost (.ofNat 2) "a" (.ofNat 11) (noonOf 2 second_day)), .handle 1,
    .call (.deleteFriend (.ofNat 3) (.ofNat 2)), .expireFlag (.ofNat 2)]

theorem followerLeaves_few : ∀ pre ∈ followerLeaves.inits,
    ((Broker.ofUsers [.ofNat 1, .ofNat 2, .ofNat 3]).run someOrder twoFollowers
      pre).world.db.posts.length ≤ 1000 := by
  decide +kernel

/-- The post of user 2 was not pushed and is not pulled. -/
theorem lostCelebrity_hides_post :
    ¬ ∀ (cfg : Settings) (users : List Uuid) (steps : List BrokerStep),
      cfg.feedTransport = "rabbitmq" → InOrder steps → (∀ c, .call c ∈ steps → c.KeepsPosts) →
      (∀ pre, pre <+: steps →
        ((Broker.ofUsers users).run someOrder cfg pre).world.db.posts.length ≤ cfg.feedMaxSize) →
      ((Broker.ofUsers users).run someOrder cfg steps).Quiescent cfg → ∀ (u nonce : Uuid) (k : Nat),
        (friendPosts ((Broker.ofUsers users).run someOrder cfg steps).world.db u).length ≤ k →
        ∀ p ∈ friendPosts ((Broker.ofUsers users).run someOrder cfg steps).world.db u,
          ∃ items, ((readFeedMerged cfg nonce u 0 k).run (exec someOrder)
              ((Broker.ofUsers users).run someOrder cfg steps).world).1 = .ok items ∧
            itemOfRow p ∈ items := by
  intro h
  have hcalls : ∀ c, .call c ∈ followerLeaves → c.KeepsPosts := by
    intro c hc
    simp only [followerLeaves, List.mem_cons, BrokerStep.call.injEq, List.not_mem_nil, or_false,
      reduceCtorEq, false_or] at hc
    rcases hc with rfl | rfl | rfl | rfl | rfl | rfl <;> trivial
  have hquiet : ((Broker.ofUsers [.ofNat 1, .ofNat 2, .ofNat 3]).run someOrder twoFollowers
      followerLeaves).Quiescent twoFollowers := by
    unfold Broker.Quiescent
    decide +kernel
  obtain ⟨items, hread, hitem⟩ := h twoFollowers [.ofNat 1, .ofNat 2, .ofNat 3] followerLeaves rfl
    (by unfold InOrder; decide) hcalls
    (fun pre hpre => followerLeaves_few pre ((List.mem_inits pre _).mpr hpre)) hquiet (.ofNat 1)
    (.ofNat 0) 2 (by decide +kernel) ⟨.ofNat 11, .ofNat 2, "a", noonOf 2 second_day⟩
    (by decide +kernel)
  have hshown : ((readFeedMerged twoFollowers (.ofNat 0) (.ofNat 1) 0 2).run (exec someOrder)
      ((Broker.ofUsers [.ofNat 1, .ofNat 2, .ofNat 3]).run someOrder twoFollowers
        followerLeaves).world).1 = .ok [⟨.ofNat 12, "b", .ofNat 3, none⟩] := by
    decide +kernel
  obtain rfl := Except.ok.inj (hshown.symm.trans hread)
  exact absurd hitem (by decide)

/-- The run before the other follower leaves. -/
def followersStay : List BrokerStep := followerLeaves.take 7

theorem followersStay_few : ∀ pre ∈ followersStay.inits,
    ((Broker.ofUsers [.ofNat 1, .ofNat 2, .ofNat 3]).run someOrder twoFollowers
      pre).world.db.posts.length ≤ 1000 := by
  decide +kernel

/-- The worker skips user 2 only. -/
theorem followersStay_skipped {a : Uuid}
    (h : Skipped someOrder twoFollowers [.ofNat 1, .ofNat 2, .ofNat 3] followersStay a) :
    a = .ofNat 2 := by
  obtain ⟨pre, s, ⟨rest, hsteps⟩, hskips⟩ := h
  have hpre : pre = followersStay.take pre.length := by
    rw [← hsteps, List.append_assoc, List.take_left']
    rfl
  have hs : followersStay[pre.length]? = some s := by
    rw [← hsteps, List.append_assoc, List.getElem?_append_right (le_refl _), Nat.sub_self]
    rfl
  have hlength : pre.length < 7 := (List.getElem?_eq_some_iff.mp hs).1
  rw [hpre] at hskips
  generalize pre.length = n at hs hlength hskips
  interval_cases n <;> obtain rfl := Option.some.inj hs
  any_goals exact absurd hskips id
  · -- user 3 has no follower but user 1
    obtain ⟨body, htask, rfl, hflag⟩ := hskips
    obtain rfl := Option.some.inj htask
    exact absurd hflag (by decide +kernel)
  · obtain ⟨body, htask, rfl, -⟩ := hskips
    obtain rfl := Option.some.inj htask
    rfl

theorem hybrid_shows_friends_followersStay :
    Skipped someOrder twoFollowers [.ofNat 1, .ofNat 2, .ofNat 3] followersStay (.ofNat 2) ∧
      ∃ items, ((readFeedMerged twoFollowers (.ofNat 0) (.ofNat 1) 0 2).run (exec someOrder)
          ((Broker.ofUsers [.ofNat 1, .ofNat 2, .ofNat 3]).run someOrder twoFollowers
            followersStay).world).1 = .ok items ∧
        itemOfRow ⟨.ofNat 11, .ofNat 2, "a", noonOf 2 second_day⟩ ∈ items := by
  refine ⟨⟨followersStay.take 6, .handle 1, List.prefix_refl _,
    ⟨"created", .ofNat 11, .ofNat 2, some "a", noonOf 2 second_day⟩, rfl, rfl,
    by decide +kernel⟩, ?_⟩
  refine hybrid_shows_friends someOrder twoFollowers rfl [.ofNat 1, .ofNat 2, .ofNat 3]
    followersStay ?_ (fun pre hpre => followersStay_few pre ((List.mem_inits pre _).mpr hpre)) ?_ ?_
    (.ofNat 1) (.ofNat 0) 2 (by decide +kernel) _ (by decide +kernel)
  · intro c hc
    simp only [followersStay, followerLeaves, List.take_succ_cons, List.take_zero, List.mem_cons,
      BrokerStep.call.injEq, List.not_mem_nil, or_false, reduceCtorEq, false_or] at hc
    rcases hc with rfl | rfl | rfl | rfl | rfl <;> trivial
  · unfold Broker.Quiescent
    decide +kernel
  · intro a ha
    rw [followersStay_skipped ha]
    decide +kernel

end HighLoad.Feed
