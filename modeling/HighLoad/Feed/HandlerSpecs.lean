/-
# HighLoad.Feed.HandlerSpecs — what each handler does

One lemma for each handler of the routes and of the workers, run to completion: either it raises and
leaves the stores as they were, or it returns and leaves them in a state written with the operations
of the cache. The invariants of the feed are proved from these lemmas alone.
-/
import HighLoad.Feed.ReadSpecs
import HighLoad.Feed.Routes

namespace HighLoad.Feed

open Prog

variable {order : RowOrder} {cfg : Settings} {w : World}

namespace World

/-- The world with other tables. -/
def withDb (w : World) (db : Database) : World := { w with db := db }

/-- The world after `create_post` announced a row. -/
def announcedCreated (cfg : Settings) (w : World) (user : Uuid) (text : String) (row : PostRow) :
    World :=
  if cfg.feedTransport = "rabbitmq" then
    { w with published := w.published ++ [⟨cfg.rabbitmqMaterializeRoutingKey,
        .event ⟨"created", row.id, user, some text, row.createdAt⟩, true⟩] }
  else if cfg.feedFanoutAsync then
    { w with stream := w.stream ++ [⟨"created", row.id, user, row.createdAt⟩] }
  else w.mapFeeds (w.db.followers user) (pushed cfg.feedMaxSize row.createdAt row.id)

/-- The world after `delete_post` announced a deletion. -/
def announcedDeleted (cfg : Settings) (w : World) (user id : Uuid) (now : DateTime) : World :=
  if cfg.feedTransport = "rabbitmq" then
    { w with published := w.published ++ [⟨cfg.rabbitmqMaterializeRoutingKey,
        .event ⟨"deleted", id, user, none, now⟩, true⟩] }
  else if cfg.feedFanoutAsync then
    { w with stream := w.stream ++ [⟨"deleted", id, user, now⟩] }
  else w.mapFeeds (w.db.followers user) fun z => z.removeAll [id]

/-- The world after the posts that a feed attributes to an author were removed from it. -/
def unfriended (w : World) (userId friendId : Uuid) : World :=
  w.modifyZset (.feed userId) fun z => z.removeAll (postsByHash w userId friendId)

/-- The world after the worker stored the body of an event. -/
def storedBody (w : World) (body : PostEvent) : World :=
  if body.bodyText ≠ "" then
    w.setPost body.postId (some ⟨body.bodyText, body.authorId, body.createdAt.isoformat⟩)
  else w

/-- The text that goes into the notifications of an event. -/
def notifiedText (w : World) (body : PostEvent) : String :=
  if body.bodyText ≠ "" then body.bodyText
  else ((w.redis.posts body.postId).map PostHash.text).getD ""

/-- The notifications of an event for its author's followers. -/
def notifications (cfg : Settings) (w : World) (body : PostEvent) : List Publication :=
  (w.db.followers body.authorId).map fun follower =>
    ⟨userRoutingKey cfg follower,
      .notification (postNew body (w.notifiedText body)), false⟩

/-- The world after the worker pushed an event to the followers. -/
def materialized (cfg : Settings) (w : World) (body : PostEvent) : World :=
  { w.mapFeeds (w.db.followers body.authorId)
      (pushed cfg.feedMaxSize body.createdAt body.postId) with
    published := w.published ++ w.notifications cfg body }

/-- The world after the worker handled a creation. -/
def handledCreated (cfg : Settings) (w : World) (body : PostEvent) : World :=
  if celebrityFlag cfg (w.storedBody body) body.authorId then
    (w.storedBody body).flagged cfg [body.authorId]
  else ((w.storedBody body).flagged cfg [body.authorId]).materialized cfg body

/-- The tasks published for the materializer, in order. -/
def tasks (cfg : Settings) (w : World) : List PostEvent :=
  w.published.filterMap fun m =>
    match m.payload with
    | .event e => if m.routingKey = cfg.rabbitmqMaterializeRoutingKey then some e else none
    | .notification _ => none

end World

/-! ## Posts -/

theorem run_announceCreated (user : Uuid) (text : String) (row : PostRow) (w : World) :
    (announceCreated cfg user text row).run (exec order) w
      = (.ok (), w.announcedCreated cfg user text row) := by
  unfold announceCreated World.announcedCreated
  split_ifs with hrabbit hasync
  · rfl
  · rfl
  · exact run_fanOutPost _ _ _ _

theorem run_announceDeleted (user id : Uuid) (now : DateTime) (w : World) :
    (announceDeleted cfg user id now).run (exec order) w
      = (.ok (), w.announcedDeleted cfg user id now) := by
  unfold announceDeleted World.announcedDeleted
  split_ifs with hrabbit hasync
  · rfl
  · rfl
  · exact run_removePostFromAllFeeds _ _ _

/-- **`create_post`** raises, or inserts the row, stores its body and announces it. -/
theorem run_createPost_cases (order : RowOrder) (cfg : Settings)
    (user : Uuid) (text : String) (id : Uuid) (now : DateTime) (w : World) :
    (∃ e, (createPost cfg user text id now).run (exec order) w = (.error e, w)) ∨
      ∃ db, db.users = w.db.users ∧ db.posts = w.db.posts ++ [⟨id, user, text, now⟩] ∧
        db.friendships = w.db.friendships ∧
        (createPost cfg user text id now).run (exec order) w
          = (.ok (.postId id), ((w.withDb db).setPost id
              (some (rowToPostHash ⟨id, user, text, now⟩))).announcedCreated cfg user text
                ⟨id, user, text, now⟩) := by
  unfold createPost
  rcases w.db.insertPost_cases user text id now with ⟨e, herror⟩ | ⟨db, hok, husers, hposts, hfriends⟩
  · have hcall : exec order _ (.insertPost user text id now) w = .error e := by
      show ((w.db.insertPost user text id now).map _) = _
      rw [herror]
      rfl
    exact Or.inl ⟨e, run_bind_of_error (run_call_of_error hcall)⟩
  · have hcall : exec order _ (.insertPost user text id now) w
        = .ok (some ⟨id, user, text, now⟩, w.withDb db) := by
      show ((w.db.insertPost user text id now).map _) = _
      rw [hok]
      rfl
    refine Or.inr ⟨db, husers, hposts, hfriends, ?_⟩
    rw [run_bind_of_ok (run_call_of_ok hcall)]
    show (_ >>= fun _ => _ : Py Response).run (exec order) _ = _
    rw [run_bind_of_ok (run_storePostHash id text user now _),
      run_bind_of_ok (run_announceCreated _ _ _ _)]
    rfl

/-- **`update_post`** raises, or updates the row of its author and stores the new body. -/
theorem run_updatePost_cases (order : RowOrder)
    (user id : Uuid) (text : String) (w : World) :
    (updatePost user id text).run (exec order) w = (.error postNotOwned, w) ∨
      ∃ p ∈ w.db.posts, p.id = id ∧ p.authorId = user ∧
        (updatePost user id text).run (exec order) w
          = (.ok .ok, (w.withDb (w.db.updatePost text id user).2).setPost id
              (some (rowToPostHash { p with text := text }))) := by
  unfold updatePost
  have hcall : (call (.updatePost text id user) : Py _).run (exec order) w
      = (.ok (w.db.updatePost text id user).1, w.withDb (w.db.updatePost text id user).2) := rfl
  rw [run_bind_of_ok hcall]
  rcases w.db.updatePost_cases text id user with ⟨hrow, hdb⟩ | ⟨p, hp, hid, hauthor, hrow⟩
  · refine Or.inl ?_
    rw [hrow, hdb]
    rfl
  · refine Or.inr ⟨p, hp, hid, hauthor, ?_⟩
    rw [hrow]
    show (_ >>= fun _ => _ : Py Response).run (exec order) _ = _
    rw [run_bind_of_ok (run_storePostHash _ _ _ _ _)]
    simp only [run_pure, rowToPostHash, hauthor]

/-- **`delete_post`** raises, or deletes the row of its author and its body and announces it. -/
theorem run_deletePost_cases (order : RowOrder) (cfg : Settings)
    (user id : Uuid) (now : DateTime) (w : World) :
    ((∀ p ∈ w.db.posts, ¬ (p.id = id ∧ p.authorId = user)) ∧
        (deletePost cfg user id now).run (exec order) w = (.error postNotOwned, w)) ∨
      ∃ p ∈ w.db.posts, p.id = id ∧ p.authorId = user ∧
        (deletePost cfg user id now).run (exec order) w
          = (.ok .ok, ((w.withDb (w.db.deletePost id user).2).setPost id none).announcedDeleted
              cfg user id now) := by
  unfold deletePost
  have hcall : (call (.deletePost id user) : Py _).run (exec order) w
      = (.ok (w.db.deletePost id user).1, w.withDb (w.db.deletePost id user).2) := rfl
  rw [run_bind_of_ok hcall]
  rcases w.db.deletePost_cases id user with ⟨hrow, hdb⟩ | ⟨p, hp, hid, hauthor, hrow⟩
  · refine Or.inl ⟨fun p hp howned => List.find?_eq_none.mp hrow p hp (by simpa using howned), ?_⟩
    rw [hrow, hdb]
    rfl
  · refine Or.inr ⟨p, hp, hid, hauthor, ?_⟩
    rw [hrow]
    show (_ >>= fun _ => _ : Py Response).run (exec order) _ = _
    rw [run_bind_of_ok (run_deletePostHash _ _), run_bind_of_ok (run_announceDeleted _ _ _ _)]
    rfl

/-- **`rebuild_feed`** returns the number of rows it put into the feed. -/
theorem run_rebuildFeed (order : RowOrder) (cfg : Settings)
    (user nonce : Uuid) (w : World) (htemp : w.NoTemp) :
    (rebuildFeed cfg user nonce).run (exec order) w
      = (.ok (.loaded (rebuildRows order cfg w user).length),
          w.rebuilt user (rebuildRows order cfg w user)) := by
  unfold rebuildFeed
  rw [run_bind_of_ok (run_rebuildFeedForUser user nonce w (htemp user nonce))]
  rfl

/-- **`get_feed`** raises, or opens the feed and sweeps a page; with RabbitMQ it also evaluates the
flags of the friends. -/
theorem run_getFeed_cases (order : RowOrder) (cfg : Settings)
    (user nonce : Uuid) (offset limit : Int) (w : World) (htemp : w.NoTemp) :
    (∃ e, (getFeed cfg user nonce offset limit).run (exec order) w = (.error e, w)) ∨
      ∃ posts ids fs, (∀ a ∈ fs, w.db.Follows user a) ∧
        (cfg.feedTransport ≠ "rabbitmq" → fs = []) ∧
        (getFeed cfg user nonce offset limit).run (exec order) w
          = (.ok (.posts posts), ((w.opened order cfg user).swept user ids).flagged cfg fs) := by
  unfold getFeed
  split_ifs with hquery
  · exact Or.inl ⟨_, rfl⟩
  · refine Or.inr ?_
    by_cases hrabbit : cfg.feedTransport = "rabbitmq"
    · have hread := run_readFeedMerged order cfg user nonce offset.toNat
        limit.toNat w (htemp.fresh user nonce)
      rw [World.opened_db] at hread
      rw [readItems, if_pos hrabbit, run_bind_of_ok hread, run_pure]
      exact ⟨_, _, w.db.friends user, fun a ha => Database.mem_friends.mp ha,
        fun h => absurd hrabbit h, rfl⟩
    · have hread := run_readFeed order cfg user nonce offset.toNat limit.toNat w
        (htemp.fresh user nonce)
      rw [readItems, if_neg hrabbit, run_bind_of_ok hread, run_pure]
      exact ⟨_, _, [], fun a ha => absurd ha List.not_mem_nil, fun _ => rfl, rfl⟩

/-! ## Friends -/

/-- **`set_friend`** raises, or adds the friendship and then the friend's posts. -/
theorem run_setFriend_cases (order : RowOrder) (cfg : Settings)
    (user friend : Uuid) (w : World) :
    (∃ e, (friend ∈ w.db.users → ¬ w.db.Follows user friend) ∧
        (setFriend cfg user friend).run (exec order) w = (.error e, w)) ∨
      ∃ db, friend ∈ w.db.users ∧ db.users = w.db.users ∧ db.posts = w.db.posts ∧
        (∀ u a, db.Follows u a ↔ w.db.Follows u a ∨ (u = user ∧ a = friend)) ∧
        (setFriend cfg user friend).run (exec order) w
          = (.ok .ok, (w.withDb db).befriended order cfg user friend) := by
  unfold setFriend
  split_ifs with hself
  · exact Or.inl ⟨_, fun _ hfollows => Database.ne_of_follows hfollows hself.symm, rfl⟩
  · rw [run_bind_of_ok (show (call (.userExists friend) : Py _).run (exec order) w
      = (.ok (w.db.userExists friend), w) from rfl)]
    split_ifs with hexists
    · refine Or.inl ⟨_, fun hfriend => ?_, rfl⟩
      simp [Database.userExists, hfriend] at hexists
    · rcases w.db.insertFriendship_cases user friend with
        ⟨e, hnot, herror⟩ | ⟨db, hok, husers, hposts, hfollows⟩
      · have hcall : exec order _ (.insertFriendship user friend) w = .error e := by
          show ((w.db.insertFriendship user friend).map _) = _
          rw [herror]
          rfl
        exact Or.inl ⟨e, fun _ => hnot, run_bind_of_error (run_call_of_error hcall)⟩
      · have hcall : exec order _ (.insertFriendship user friend) w = .ok ((), w.withDb db) := by
          show ((w.db.insertFriendship user friend).map _) = _
          rw [hok]
          rfl
        have hfriend : friend ∈ w.db.users := by
          simpa [Database.userExists] using hexists
        refine Or.inr ⟨db, hfriend, husers, hposts, hfollows, ?_⟩
        rw [run_bind_of_ok (run_call_of_ok hcall),
          run_bind_of_ok (run_addFriendPostsToFeed user friend _)]
        rfl

/-- **`delete_friend`** deletes the friendship and then the friend's posts. -/
theorem run_deleteFriend (order : RowOrder)
    (user friend : Uuid) (w : World) :
    (deleteFriend user friend).run (exec order) w
      = (.ok .ok, (w.withDb (w.db.deleteFriendship user friend)).unfriended user friend) := by
  unfold deleteFriend
  rw [run_bind_of_ok (show (call (.deleteFriendship user friend) : Py _).run (exec order) w
    = (.ok (), w.withDb (w.db.deleteFriendship user friend)) from rfl),
    run_bind_of_ok (run_removeFriendPostsFromFeed user friend _)]
  rfl

/-! ## The workers -/

/-- **`_handle_event`** pushes a creation and removes a deletion. -/
theorem run_handleEvent (event : StreamEvent) (w : World) :
    (handleEvent cfg event).run (exec order) w
      = (.ok (),
          if event.eventType = "created" then
            w.mapFeeds (w.db.followers event.authorId)
              (pushed cfg.feedMaxSize event.createdAt event.postId)
          else if event.eventType = "deleted" then
            w.mapFeeds (w.db.followers event.authorId) fun z => z.removeAll [event.postId]
          else w) := by
  unfold handleEvent
  split_ifs with hcreated hdeleted
  · exact run_fanOutPost _ _ _ _
  · exact run_removePostFromAllFeeds _ _ _
  · rfl

theorem run_storeBody (body : PostEvent) (w : World) :
    (storeBody body).run (exec order) w = (.ok (), w.storedBody body) := by
  unfold storeBody World.storedBody
  by_cases htext : body.bodyText ≠ ""
  · rw [if_pos htext, if_pos htext]
    exact run_storePostHash _ _ _ _ _
  · rw [if_neg htext, if_neg htext]
    rfl

theorem run_notificationText (body : PostEvent) (w : World) :
    (notificationText body).run (exec order) w = (.ok (w.notifiedText body), w) := by
  unfold notificationText World.notifiedText
  by_cases htext : body.bodyText ≠ ""
  · rw [if_pos htext, if_pos htext]
    rfl
  · rw [if_neg htext, if_neg htext]
    rfl

theorem foldl_publishWsEvent (order : RowOrder) (payload : PostNew) (users : List Uuid) (w : World) :
    (users.map (publishWsEvent cfg payload)).foldl (effect order) w
      = { w with published := w.published ++ users.map fun u =>
            ⟨userRoutingKey cfg u, .notification payload, false⟩ } := by
  induction users generalizing w with
  | nil => simp
  | cons u users ih =>
      rw [List.map_cons, List.foldl_cons, ih]
      simp [effect, exec, publishWsEvent]

theorem run_notifyFollowers (body : PostEvent) (w : World) :
    (notifyFollowers cfg body).run (exec order) w
      = (.ok (), { w with published := w.published ++ w.notifications cfg body }) := by
  unfold notifyFollowers World.notifications
  rw [run_bind_of_ok (run_getFollowers body.authorId w)]
  split_ifs with hempty
  · rw [List.isEmpty_iff.mp hempty]
    simp
  · rw [run_bind_of_ok (run_notificationText body w), run_bind_of_ok (run_writes ?_ w),
      foldl_publishWsEvent, run_pure]
    intro c hc
    obtain ⟨u, -, rfl⟩ := List.mem_map.mp hc
    exact fun _ => rfl

/-- **`_handle_created`** stores the body, evaluates the flag and, for an ordinary author, pushes the
post and notifies the followers. -/
theorem run_handleCreated (body : PostEvent) (w : World) :
    (handleCreated cfg body).run (exec order) w = (.ok (), w.handledCreated cfg body) := by
  unfold handleCreated World.handledCreated
  rw [run_bind_of_ok (run_storeBody body w), run_bind_of_ok (run_isCelebrity body.authorId _)]
  split_ifs with hflag
  · rfl
  · rw [run_bind_of_ok (run_fanOutPost _ _ _ _), run_notifyFollowers]
    rfl

/-- **`_handle_message`** dispatches on the event type. -/
theorem run_handleMessage (body : PostEvent) (w : World) :
    (handleMessage cfg body).run (exec order) w
      = (.ok (),
          if body.eventType = "created" then w.handledCreated cfg body
          else if body.eventType = "deleted" then
            w.mapFeeds (w.db.followers body.authorId) fun z => z.removeAll [body.postId]
          else w) := by
  unfold handleMessage
  split_ifs with hcreated hdeleted
  · exact run_handleCreated body w
  · exact run_removePostFromAllFeeds _ _ _
  · rfl

end HighLoad.Feed
