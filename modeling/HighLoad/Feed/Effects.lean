/-
# HighLoad.Feed.Effects — what a call does when a worker fans out

With a transport that defers the fan-out a call of a handler writes post hashes of rows only, and puts
into a feed nothing but posts of the friends of its user (`Call.effects`). The invariants of the
asynchronous transports are derived from this and from what a worker does with one event.
-/
import HighLoad.Feed.Refinement

namespace HighLoad.Feed

open Prog

variable {order : RowOrder} {cfg : Settings} {w w' : World} {u : Uuid}

/-- Fan-out is left to a worker. -/
def Deferred (cfg : Settings) : Prop := cfg.feedTransport = "rabbitmq" ∨ cfg.feedFanoutAsync = true

/-- What a call does to the hashes and the feeds. -/
structure Effects (w w' : World) : Prop where
  noTemp : w'.NoTemp
  live : ∀ p ∈ w'.db.posts, w'.redis.posts p.id = some (rowToPostHash p) ∨
    (p ∈ w.db.posts ∧ w'.redis.posts p.id = w.redis.posts p.id)
  dead : ∀ id, (∀ p ∈ w'.db.posts, p.id ≠ id) → w'.redis.posts id = none ∨
    ((∀ p ∈ w.db.posts, p.id ≠ id) ∧ w'.redis.posts id = w.redis.posts id)
  added : ∀ v, ∀ e ∈ (w'.feed v).entries, e ∈ (w.feed v).entries ∨
    ∃ p ∈ w'.db.posts, p.entry = e ∧ w'.db.Follows v p.authorId

theorem Effects.refl (htemp : w.NoTemp) : Effects w w where
  noTemp := htemp
  live _ hp := Or.inr ⟨hp, rfl⟩
  dead _ hid := Or.inr ⟨hid, rfl⟩
  added _ _ he := Or.inl he

/-- An announcement touches neither the tables nor Redis. -/
theorem announcedCreated_deferred (hdef : Deferred cfg) (w : World) (user : Uuid) (text : String)
    (row : PostRow) :
    (w.announcedCreated cfg user text row).db = w.db ∧
      (w.announcedCreated cfg user text row).redis = w.redis := by
  unfold World.announcedCreated
  split_ifs with hrabbit hasync
  · exact ⟨rfl, rfl⟩
  · exact ⟨rfl, rfl⟩
  · exact absurd hdef (not_or.mpr ⟨hrabbit, hasync⟩)

theorem announcedDeleted_deferred (hdef : Deferred cfg) (w : World) (user id : Uuid)
    (now : DateTime) :
    (w.announcedDeleted cfg user id now).db = w.db ∧
      (w.announcedDeleted cfg user id now).redis = w.redis := by
  unfold World.announcedDeleted
  split_ifs with hrabbit hasync
  · exact ⟨rfl, rfl⟩
  · exact ⟨rfl, rfl⟩
  · exact absurd hdef (not_or.mpr ⟨hrabbit, hasync⟩)

/-- Effects depend on the tables and on Redis only. -/
theorem Effects.congr {w₁ w₂ : World} (h : Effects w w₁) (hdb : w₂.db = w₁.db)
    (hredis : w₂.redis = w₁.redis) : Effects w w₂ where
  noTemp := by unfold World.NoTemp; rw [hredis]; exact h.noTemp
  live := by rw [hdb, hredis]; exact h.live
  dead := by rw [hdb, hredis]; exact h.dead
  added := by
    unfold World.feed
    rw [hdb, hredis]
    exact h.added

theorem effects_created (htemp : w.NoTemp) {db : Database} {row : PostRow}
    (hposts : db.posts = w.db.posts ++ [row]) :
    Effects w ((w.withDb db).setPost row.id (some (rowToPostHash row))) where
  noTemp := htemp
  live p hp := by
    change p ∈ db.posts at hp
    show Function.update w.redis.posts row.id (some (rowToPostHash row)) p.id = _ ∨ _
    by_cases hid : p.id = row.id
    · have hrow : row ∈ db.posts := by
        rw [hposts]
        exact List.mem_append_right _ List.mem_cons_self
      rw [db.eq_of_id_eq hp hrow hid, Function.update_self]
      exact Or.inl rfl
    · rw [hposts] at hp
      rcases List.mem_append.mp hp with hold | hnew
      · exact Or.inr ⟨hold, Function.update_of_ne hid _ _⟩
      · exact absurd (congrArg PostRow.id (List.mem_singleton.mp hnew)) hid
  dead id hid := by
    have hmem : ∀ p ∈ w.db.posts ++ [row], p.id ≠ id := hposts ▸ hid
    right
    refine ⟨fun p hp => hmem p (List.mem_append_left _ hp), ?_⟩
    exact Function.update_of_ne (hmem row (by simp)).symm _ _
  added _ _ he := Or.inl he

theorem effects_updated (htemp : w.NoTemp) (text : String) {p : PostRow} (hp : p ∈ w.db.posts) :
    Effects w ((w.withDb (w.db.updatePost text p.id p.authorId).2).setPost p.id
      (some (rowToPostHash { p with text := text }))) where
  noTemp := htemp
  live q' hq' := by
    obtain ⟨q, hq, rfl⟩ := Database.mem_updatePost.mp hq'
    show Function.update w.redis.posts p.id _ (Database.setText text p.id p.authorId q).id = _ ∨ _
    rw [Database.setText_id]
    by_cases hqid : q.id = p.id
    · obtain rfl := w.db.eq_of_id_eq hq hp hqid
      rw [Database.setText, if_pos ⟨rfl, rfl⟩, Function.update_self]
      exact Or.inl rfl
    · rw [Database.setText, if_neg fun h => hqid h.1]
      exact Or.inr ⟨hq, Function.update_of_ne hqid _ _⟩
  dead id hid := by
    have hmem : ∀ q ∈ w.db.posts, q.id ≠ id := by
      intro q hq
      have hne := hid _ (Database.mem_updatePost.mpr ⟨q, hq, rfl⟩)
      rwa [Database.setText_id] at hne
    exact Or.inr ⟨hmem, Function.update_of_ne (hmem p hp).symm _ _⟩
  added _ _ he := Or.inl he

theorem effects_deleted (htemp : w.NoTemp) {p : PostRow} (hp : p ∈ w.db.posts) :
    Effects w ((w.withDb (w.db.deletePost p.id p.authorId).2).setPost p.id none) where
  noTemp := htemp
  live q hq := by
    obtain ⟨hq, hne⟩ := (Database.mem_deletePost_of_mem hp rfl rfl).mp hq
    exact Or.inr ⟨hq, Function.update_of_ne hne _ _⟩
  dead id hid := by
    by_cases heq : id = p.id
    · subst heq
      exact Or.inl (Function.update_self _ _ _)
    · right
      refine ⟨fun q hq hqid => ?_, Function.update_of_ne heq _ _⟩
      exact hid q ((Database.mem_deletePost_of_mem hp rfl rfl).mpr
        ⟨hq, fun hsame => heq (hqid.symm.trans hsame)⟩) hqid
  added _ _ he := Or.inl he

/-- Writing the hashes of rows. -/
theorem writeAll_live {rows : List PostRow} {posts : Uuid → Option PostHash} {p : PostRow}
    (hids : (rows.map PostRow.id).Nodup) (hrows : ∀ r ∈ rows, r ∈ w.db.posts) (hp : p ∈ w.db.posts) :
    PointUpdate.writeAll PostRow.id (fun r => some (rowToPostHash r)) rows posts p.id
        = some (rowToPostHash p) ∨
      PointUpdate.writeAll PostRow.id (fun r => some (rowToPostHash r)) rows posts p.id
        = posts p.id := by
  by_cases hmem : p ∈ rows
  · exact Or.inl (PointUpdate.writeAll_of_mem hids hmem)
  · refine Or.inr (PointUpdate.writeAll_of_not_mem fun r hr hid => ?_)
    exact hmem (w.db.eq_of_id_eq (hrows r hr) hp hid ▸ hr)

theorem effects_befriended (order : RowOrder) (cfg : Settings) (htemp : w.NoTemp) {db : Database}
    {user friend : Uuid} (hposts : db.posts = w.db.posts)
    (hfollows : ∀ v a, db.Follows v a ↔ w.db.Follows v a ∨ (v = user ∧ a = friend)) :
    Effects w ((w.withDb db).befriended order cfg user friend) := by
  have hrows : ∀ r ∈ friendRows order cfg (w.withDb db) friend,
      r ∈ db.posts ∧ r.authorId = friend := fun r hr =>
    ⟨(Database.mem_recentPosts_of_mem hr).1,
      List.mem_singleton.mp (Database.mem_recentPosts_of_mem hr).2⟩
  have hids : ((friendRows order cfg (w.withDb db) friend).map PostRow.id).Nodup :=
    Database.recentPosts_nodup db order [friend] cfg.feedMaxSize
  unfold World.befriended
  split_ifs
  · exact
      { noTemp := htemp
        live := fun p hp => Or.inr ⟨hposts ▸ hp, rfl⟩
        dead := fun id hid => Or.inr ⟨hposts ▸ hid, rfl⟩
        added := fun _ _ he => Or.inl he }
  · refine
      { noTemp := fun v n => ?_
        live := fun p hp => ?_
        dead := fun id hid => ?_
        added := fun v e he => ?_ }
    · simp [World.modifyZset, World.cacheRows, World.withDb, htemp v n]
    · have hp' : p ∈ w.db.posts := hposts ▸ hp
      exact (writeAll_live hids (fun r hr => hposts ▸ (hrows r hr).1) hp').imp_right fun h => ⟨hp', h⟩
    · refine Or.inr ⟨hposts ▸ hid, ?_⟩
      exact PointUpdate.writeAll_of_not_mem fun r hr => hid r (hrows r hr).1
    · by_cases hv : v = user
      · subst hv
        rw [World.feed_modifyZset, if_pos rfl, World.feed_cacheRows, if_pos rfl] at he
        rcases SortedSet.mem_of_mem_addAll (SortedSet.mem_of_mem_trim he) with hrow | hold
        · obtain ⟨r, hr, rfl⟩ := List.mem_map.mp hrow
          exact Or.inr ⟨r, (hrows r hr).1, rfl, (hfollows v _).mpr (Or.inr ⟨rfl, (hrows r hr).2⟩)⟩
        · exact Or.inl hold
      · rw [World.feed_modifyZset, if_neg hv, World.feed_cacheRows, if_neg hv] at he
        exact Or.inl he

theorem effects_rebuilt (order : RowOrder) (cfg : Settings) (htemp : w.NoTemp) (user : Uuid) :
    Effects w (w.rebuilt user (rebuildRows order cfg w user)) := by
  have hrows : ∀ r ∈ rebuildRows order cfg w user, r ∈ w.db.posts ∧ w.db.Follows user r.authorId :=
    fun r hr => Database.mem_recentFriendPosts_of_mem hr
  have hids : ((rebuildRows order cfg w user).map PostRow.id).Nodup :=
    Database.recentFriendPosts_nodup w.db order user cfg.feedMaxSize
  refine
    { noTemp := fun v n => by simp [World.rebuilt, htemp v n]
      live := fun p hp => ?_
      dead := fun id hid => ?_
      added := fun v e he => ?_ }
  · exact (writeAll_live hids (fun r hr => (hrows r hr).1) hp).imp_right fun h => ⟨hp, h⟩
  · exact Or.inr ⟨hid, PointUpdate.writeAll_of_not_mem fun r hr => hid r (hrows r hr).1⟩
  · rw [World.feed_rebuilt] at he
    by_cases hv : v = user
    · subst hv
      rw [if_pos rfl] at he
      rcases SortedSet.mem_of_mem_addAll he with hrow | hnone
      · obtain ⟨r, hr, rfl⟩ := List.mem_map.mp hrow
        exact Or.inr ⟨r, (hrows r hr).1, rfl, (hrows r hr).2⟩
      · exact absurd hnone SortedSet.not_mem_empty
    · rw [if_neg hv] at he
      exact Or.inl he

theorem effects_opened (order : RowOrder) (cfg : Settings) (htemp : w.NoTemp) (user : Uuid) :
    Effects w (w.opened order cfg user) := by
  unfold World.opened
  split_ifs
  · exact Effects.refl htemp
  · exact effects_rebuilt order cfg htemp user

/-- Removing members from a feed after a step. -/
theorem Effects.removed (h : Effects w w') (user : Uuid) (ids : List Uuid) :
    Effects w (w'.modifyZset (.feed user) fun z => z.removeAll ids) where
  noTemp v n := by simp [World.modifyZset, h.noTemp v n]
  live := h.live
  dead := h.dead
  added v e he := by
    rw [World.feed_modifyZset] at he
    refine h.added v e ?_
    split_ifs at he
    · exact (SortedSet.mem_removeAll.mp he).1
    · exact he

/-- **What any call does**, when the fan-out is deferred. -/
theorem Call.effects (order : RowOrder) (cfg : Settings) (hdef : Deferred cfg) (htemp : w.NoTemp)
    (c : Call) : Effects w (w.after order cfg c) := by
  cases c with
  | createPost user text id now =>
      rcases run_createPost_cases order cfg user text id now w with
        ⟨e, hrun⟩ | ⟨db, -, hposts, -, hrun⟩
      · rw [after_eq hrun]
        exact Effects.refl htemp
      · rw [after_eq hrun]
        obtain ⟨hdb, hredis⟩ := announcedCreated_deferred hdef ((w.withDb db).setPost id
          (some (rowToPostHash ⟨id, user, text, now⟩))) user text ⟨id, user, text, now⟩
        exact (effects_created htemp hposts).congr hdb hredis
  | updatePost user id text =>
      rcases run_updatePost_cases order user id text w with hrun | ⟨p, hp, rfl, rfl, hrun⟩
      · rw [after_eq hrun]
        exact Effects.refl htemp
      · rw [after_eq hrun]
        exact effects_updated htemp text hp
  | deletePost user id now =>
      rcases run_deletePost_cases order cfg user id now w with ⟨-, hrun⟩ | ⟨p, hp, rfl, rfl, hrun⟩
      · rw [after_eq hrun]
        exact Effects.refl htemp
      · rw [after_eq hrun]
        obtain ⟨hdb, hredis⟩ := announcedDeleted_deferred hdef
          ((w.withDb (w.db.deletePost p.id p.authorId).2).setPost p.id none) p.authorId p.id now
        exact (effects_deleted htemp hp).congr hdb hredis
  | setFriend user friend =>
      rcases run_setFriend_cases order cfg user friend w with
        ⟨e, -, hrun⟩ | ⟨db, -, -, hposts, hfollows, hrun⟩
      · rw [after_eq hrun]
        exact Effects.refl htemp
      · rw [after_eq hrun]
        exact effects_befriended order cfg htemp hposts hfollows
  | deleteFriend user friend =>
      rw [after_eq (run_deleteFriend order user friend w)]
      have hsame : Effects w (w.withDb (w.db.deleteFriendship user friend)) :=
        { noTemp := htemp
          live := fun p hp => Or.inr ⟨hp, rfl⟩
          dead := fun id hid => Or.inr ⟨hid, rfl⟩
          added := fun _ _ he => Or.inl he }
      exact hsame.removed user _
  | rebuildFeed user nonce =>
      rw [after_eq (run_rebuildFeed order cfg user nonce w htemp)]
      exact effects_rebuilt order cfg htemp user
  | getFeed user nonce offset limit =>
      rcases run_getFeed_cases order cfg user nonce offset limit w htemp with
        ⟨e, hrun⟩ | ⟨posts, ids, fs, -, -, hrun⟩
      · rw [after_eq hrun]
        exact Effects.refl htemp
      · rw [after_eq hrun]
        have hswept := (effects_opened order cfg htemp user).removed user
          (staleIds (w.opened order cfg user) ids)
        exact
          { noTemp := hswept.noTemp
            live := hswept.live
            dead := hswept.dead
            added := hswept.added }

/-- Rows stem from creations, and edits keep their ids, authors and times. -/
theorem Call.rows (order : RowOrder) (cfg : Settings) (htemp : w.NoTemp) (c : Call) {p : PostRow}
    (hp : p ∈ (w.after order cfg c).db.posts) :
    (∃ q ∈ w.db.posts, q.entry = p.entry ∧ q.authorId = p.authorId) ∨
      ∃ text, c = .createPost p.authorId text p.id p.createdAt := by
  have hold : ∀ {p : PostRow}, p ∈ w.db.posts →
      (∃ q ∈ w.db.posts, q.entry = p.entry ∧ q.authorId = p.authorId) ∨
        ∃ text, c = .createPost p.authorId text p.id p.createdAt :=
    fun hp => Or.inl ⟨_, hp, rfl, rfl⟩
  cases c with
  | createPost user text id now =>
      rcases run_createPost_cases order cfg user text id now w with
        ⟨e, hrun⟩ | ⟨db, -, hposts, -, hrun⟩
      · rw [after_eq hrun] at hp
        exact hold hp
      · rw [after_eq hrun] at hp
        have hdb : (((w.withDb db).setPost id (some (rowToPostHash
            ⟨id, user, text, now⟩))).announcedCreated cfg user text ⟨id, user, text, now⟩).db = db := by
          unfold World.announcedCreated
          split_ifs <;> rfl
        rw [hdb, hposts] at hp
        rcases List.mem_append.mp hp with hp | hp
        · exact hold hp
        · obtain rfl := List.mem_singleton.mp hp
          exact Or.inr ⟨text, rfl⟩
  | updatePost user id text =>
      rcases run_updatePost_cases order user id text w with hrun | ⟨q, -, rfl, rfl, hrun⟩
      · rw [after_eq hrun] at hp
        exact hold hp
      · rw [after_eq hrun] at hp
        obtain ⟨r, hr, rfl⟩ := Database.mem_updatePost.mp hp
        exact Or.inl ⟨r, hr, by simp [PostRow.entry], by simp⟩
  | deletePost user id now =>
      rcases run_deletePost_cases order cfg user id now w with ⟨-, hrun⟩ | ⟨q, hq, rfl, rfl, hrun⟩
      · rw [after_eq hrun] at hp
        exact hold hp
      · rw [after_eq hrun] at hp
        have hdb : (((w.withDb (w.db.deletePost q.id q.authorId).2).setPost q.id
            none).announcedDeleted cfg q.authorId q.id now).db
              = (w.db.deletePost q.id q.authorId).2 := by
          unfold World.announcedDeleted
          split_ifs <;> rfl
        rw [hdb] at hp
        exact hold ((Database.mem_deletePost_of_mem hq rfl rfl).mp hp).1
  | setFriend user friend =>
      rcases run_setFriend_cases order cfg user friend w with
        ⟨e, -, hrun⟩ | ⟨db, -, -, hposts, -, hrun⟩
      · rw [after_eq hrun] at hp
        exact hold hp
      · rw [after_eq hrun] at hp
        rw [World.befriended_db] at hp
        exact hold (hposts ▸ hp)
  | deleteFriend user friend =>
      rw [after_eq (run_deleteFriend order user friend w)] at hp
      exact hold hp
  | rebuildFeed user nonce =>
      rw [after_eq (run_rebuildFeed order cfg user nonce w htemp)] at hp
      exact hold hp
  | getFeed user nonce offset limit =>
      rcases run_getFeed_cases order cfg user nonce offset limit w htemp with
        ⟨e, hrun⟩ | ⟨posts, ids, fs, -, -, hrun⟩
      · rw [after_eq hrun] at hp
        exact hold hp
      · rw [after_eq hrun] at hp
        change p ∈ (w.opened order cfg user).db.posts at hp
        rw [World.opened_db] at hp
        exact hold hp

end HighLoad.Feed
