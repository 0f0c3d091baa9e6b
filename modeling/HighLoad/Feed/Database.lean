/-
# HighLoad.Feed.Database — the posts and friendships tables

The master database under the feed: users, posts and the directed friendships of the migration, with
its primary keys and its check constraint as fields. Every statement the handlers and the workers
run is a function here: INSERT may raise and leaves the tables alone then, UPDATE and DELETE return
the row they touched, SELECT returns rows.

`ORDER BY created_at DESC` leaves the order of rows with one timestamp to the server: a `RowOrder` is
any such choice.
-/
import HighLoad.Text
import Mathlib.Data.List.Dedup
import Mathlib.Data.List.Nodup

namespace HighLoad.Feed

/-- A row of `posts`. -/
structure PostRow where
  id : Uuid
  authorId : Uuid
  text : String
  createdAt : DateTime
  deriving DecidableEq

/-- A row of `friendships`: `user_id` has added `friend_id`. -/
structure Friendship where
  userId : Uuid
  friendId : Uuid
  deriving DecidableEq

/-- The tables under the feed. -/
structure Database where
  users : List Uuid
  posts : List PostRow
  friendships : List Friendship
  posts_pkey : (posts.map PostRow.id).Nodup
  friendships_pkey : friendships.Nodup
  no_self_friendship : ∀ f ∈ friendships, f.userId ≠ f.friendId

/-- What the server makes of `ORDER BY created_at DESC`. -/
structure RowOrder where
  sort : List PostRow → List PostRow
  perm : ∀ rows, (sort rows).Perm rows
  descending : ∀ rows, (sort rows).Pairwise fun p q => q.createdAt ≤ p.createdAt

namespace Database

/-- A database with users and without posts or friendships. -/
def ofUsers (users : List Uuid) : Database where
  users := users
  posts := []
  friendships := []
  posts_pkey := List.nodup_nil
  friendships_pkey := List.nodup_nil
  no_self_friendship _ h := absurd h List.not_mem_nil

/-- `user` has added `friend`. -/
def Follows (db : Database) (user friend : Uuid) : Prop := ⟨user, friend⟩ ∈ db.friendships

instance (db : Database) (user friend : Uuid) : Decidable (db.Follows user friend) :=
  inferInstanceAs (Decidable (_ ∈ _))

theorem ne_of_follows {db : Database} {user friend : Uuid} (h : db.Follows user friend) :
    user ≠ friend :=
  db.no_self_friendship _ h

theorem follows_congr {db db' : Database} (h : db'.friendships = db.friendships)
    (user friend : Uuid) : db'.Follows user friend ↔ db.Follows user friend := by
  unfold Follows
  rw [h]

/-- Rows that come to others have ids of their own. -/
theorem ne_id_of_mem_append {db : Database} {rows news : List PostRow}
    (h : db.posts = rows ++ news) : ∀ p ∈ rows, ∀ q ∈ news, p.id ≠ q.id := by
  have hkey := db.posts_pkey
  rw [h, List.map_append, List.nodup_append] at hkey
  exact fun p hp q hq => hkey.2.2 p.id (List.mem_map_of_mem hp) q.id (List.mem_map_of_mem hq)

theorem ne_id_of_append {db : Database} {rows : List PostRow} {row : PostRow}
    (h : db.posts = rows ++ [row]) : ∀ p ∈ rows, p.id ≠ row.id := fun p hp =>
  ne_id_of_mem_append h p hp row List.mem_cons_self

/-- An id names one row. -/
theorem eq_of_id_eq (db : Database) {p q : PostRow} (hp : p ∈ db.posts) (hq : q ∈ db.posts)
    (h : p.id = q.id) : p = q :=
  List.inj_on_of_nodup_map db.posts_pkey hp hq h

/-! ## Writes -/

/-- `INSERT INTO posts (author_id, text) VALUES ($1, $2) RETURNING id, created_at`: the server draws
`id` and `created_at`. -/
def insertPost (db : Database) (authorId : Uuid) (text : String) (id : Uuid) (now : DateTime) :
    Except PyError (Option PostRow × Database) :=
  if authorId ∉ db.users then
    .error (.integrityError ("insert or update on table \"posts\" violates foreign key " ++
      "constraint \"posts_author_id_fkey\""))
  else if h : id ∈ db.posts.map PostRow.id then
    .error (.integrityError "duplicate key value violates unique constraint \"posts_pkey\"")
  else
    .ok (some ⟨id, authorId, text, now⟩,
      { db with
        posts := db.posts ++ [⟨id, authorId, text, now⟩]
        posts_pkey := by
          rw [List.map_append, List.nodup_append]
          refine ⟨db.posts_pkey, List.nodup_singleton _, ?_⟩
          rintro a ha b hb rfl
          rw [List.map_singleton, List.mem_singleton] at hb
          rw [hb] at ha
          exact h ha })

/-- The row after `SET text` if it is the row `id` of `authorId`. -/
def setText (text : String) (id authorId : Uuid) (p : PostRow) : PostRow :=
  if p.id = id ∧ p.authorId = authorId then { p with text := text } else p

@[simp] theorem setText_id (text : String) (id authorId : Uuid) (p : PostRow) :
    (setText text id authorId p).id = p.id := by
  unfold setText
  split_ifs <;> rfl

@[simp] theorem setText_authorId (text : String) (id authorId : Uuid) (p : PostRow) :
    (setText text id authorId p).authorId = p.authorId := by
  unfold setText
  split_ifs <;> rfl

@[simp] theorem setText_createdAt (text : String) (id authorId : Uuid) (p : PostRow) :
    (setText text id authorId p).createdAt = p.createdAt := by
  unfold setText
  split_ifs <;> rfl

/-- `UPDATE posts SET text = $1 WHERE id = $2 AND author_id = $3 RETURNING id, created_at`. -/
def updatePost (db : Database) (text : String) (id authorId : Uuid) : Option PostRow × Database :=
  ((db.posts.map (setText text id authorId)).find? fun p => p.id = id ∧ p.authorId = authorId,
    { db with
      posts := db.posts.map (setText text id authorId)
      posts_pkey := by
        rw [List.map_map]
        have hids : PostRow.id ∘ setText text id authorId = PostRow.id :=
          funext fun p => setText_id text id authorId p
        rw [hids]
        exact db.posts_pkey })

/-- `DELETE FROM posts WHERE id = $1 AND author_id = $2 RETURNING id`. -/
def deletePost (db : Database) (id authorId : Uuid) : Option PostRow × Database :=
  (db.posts.find? fun p => p.id = id ∧ p.authorId = authorId,
    { db with
      posts := db.posts.filter fun p => ¬ (p.id = id ∧ p.authorId = authorId)
      posts_pkey := db.posts_pkey.sublist (List.filter_sublist.map _) })

/-- `SELECT 1 FROM users WHERE id = $1`. -/
def userExists (db : Database) (id : Uuid) : Bool := id ∈ db.users

/-- `INSERT INTO friendships (user_id, friend_id) VALUES ($1, $2) ON CONFLICT (user_id, friend_id)
DO NOTHING`. -/
def insertFriendship (db : Database) (userId friendId : Uuid) : Except PyError Database :=
  if hself : userId = friendId then
    .error (.integrityError ("new row for relation \"friendships\" violates check constraint " ++
      "\"no_self_friendship\""))
  else if h : ⟨userId, friendId⟩ ∈ db.friendships then .ok db
  else if userId ∉ db.users then
    .error (.integrityError ("insert or update on table \"friendships\" violates foreign key " ++
      "constraint \"friendships_user_id_fkey\""))
  else if friendId ∉ db.users then
    .error (.integrityError ("insert or update on table \"friendships\" violates foreign key " ++
      "constraint \"friendships_friend_id_fkey\""))
  else
    .ok { db with
      friendships := db.friendships ++ [⟨userId, friendId⟩]
      friendships_pkey := by
        rw [List.nodup_append]
        refine ⟨db.friendships_pkey, List.nodup_singleton _, ?_⟩
        rintro a ha b hb rfl
        exact h (List.mem_singleton.mp hb ▸ ha)
      no_self_friendship := by
        intro f hf
        rcases List.mem_append.mp hf with hf | hf
        · exact db.no_self_friendship f hf
        · rw [List.mem_singleton.mp hf]
          exact hself }

/-- `DELETE FROM friendships WHERE user_id = $1 AND friend_id = $2`. -/
def deleteFriendship (db : Database) (userId friendId : Uuid) : Database :=
  { db with
    friendships := db.friendships.filter fun f => f ≠ ⟨userId, friendId⟩
    friendships_pkey := db.friendships_pkey.sublist List.filter_sublist
    no_self_friendship := fun f hf => db.no_self_friendship f (List.mem_filter.mp hf).1 }

/-! ## Reads -/

/-- `SELECT user_id FROM friendships WHERE friend_id = $1`. -/
def followers (db : Database) (authorId : Uuid) : List Uuid :=
  (db.friendships.filter fun f => f.friendId = authorId).map Friendship.userId

/-- `SELECT friend_id FROM friendships WHERE user_id = $1`. -/
def friends (db : Database) (userId : Uuid) : List Uuid :=
  (db.friendships.filter fun f => f.userId = userId).map Friendship.friendId

/-- `SELECT COUNT(*) FROM friendships WHERE friend_id = $1`. -/
def countFollowers (db : Database) (authorId : Uuid) : Nat :=
  (db.friendships.filter fun f => f.friendId = authorId).length

/-- `SELECT friend_id, COUNT(*) FROM friendships WHERE friend_id = ANY($1) GROUP BY friend_id`: one
row for each id that occurs. -/
def groupFollowers (db : Database) (authorIds : List Uuid) : List (Uuid × Nat) :=
  ((db.friendships.filter fun f => f.friendId ∈ authorIds).map Friendship.friendId).dedup.map
    fun id => (id, db.countFollowers id)

/-- `SELECT … FROM posts WHERE author_id = ANY($1) ORDER BY created_at DESC LIMIT $2`. -/
def recentPosts (db : Database) (order : RowOrder) (authorIds : List Uuid) (limit : Nat) :
    List PostRow :=
  (order.sort (db.posts.filter fun p => p.authorId ∈ authorIds)).take limit

/-- `posts p INNER JOIN friendships f ON f.friend_id = p.author_id WHERE f.user_id = $1`. -/
def joinFriends (db : Database) (userId : Uuid) : List PostRow :=
  db.posts.flatMap fun p =>
    (db.friendships.filter fun f => f.friendId = p.authorId ∧ f.userId = userId).map fun _ => p

/-- `SELECT … FROM` that join `ORDER BY p.created_at DESC LIMIT $2`. -/
def recentFriendPosts (db : Database) (order : RowOrder) (userId : Uuid) (limit : Nat) :
    List PostRow :=
  (order.sort (db.joinFriends userId)).take limit

/-! ## What the statements do -/

section Specs

variable {db db' : Database} {p q : PostRow} {id authorId userId friendId user friend : Uuid}
  {text : String} {now : DateTime} {order : RowOrder} {limit : Nat}

/-- INSERT raises or appends its row. -/
theorem insertPost_cases (db : Database) (authorId : Uuid) (text : String) (id : Uuid)
    (now : DateTime) :
    (∃ e, db.insertPost authorId text id now = .error e) ∨
      ∃ db', db.insertPost authorId text id now = .ok (some ⟨id, authorId, text, now⟩, db') ∧
        db'.users = db.users ∧ db'.posts = db.posts ++ [⟨id, authorId, text, now⟩] ∧
        db'.friendships = db.friendships := by
  unfold insertPost
  by_cases huser : authorId ∈ db.users
  · rw [if_neg (not_not_intro huser)]
    by_cases hid : id ∈ db.posts.map PostRow.id
    · rw [dif_pos hid]
      exact Or.inl ⟨_, rfl⟩
    · rw [dif_neg hid]
      exact Or.inr ⟨_, rfl, rfl, rfl, rfl⟩
  · rw [if_pos huser]
    exact Or.inl ⟨_, rfl⟩

/-- INSERT of a friendship raises or makes it one of the friendships. -/
theorem insertFriendship_cases (db : Database) (userId friendId : Uuid) :
    (∃ e, ¬ db.Follows userId friendId ∧ db.insertFriendship userId friendId = .error e) ∨
      ∃ db', db.insertFriendship userId friendId = .ok db' ∧
        db'.users = db.users ∧ db'.posts = db.posts ∧
        ∀ user friend, db'.Follows user friend ↔
          db.Follows user friend ∨ (user = userId ∧ friend = friendId) := by
  unfold insertFriendship
  split
  · rename_i hself
    exact Or.inl ⟨_, fun hfollows => ne_of_follows hfollows hself, rfl⟩
  · split
    · rename_i hmem
      refine Or.inr ⟨db, rfl, rfl, rfl, fun user friend => ?_⟩
      constructor
      · exact Or.inl
      · rintro (h | ⟨rfl, rfl⟩)
        · exact h
        · exact hmem
    · rename_i hnot
      split
      · exact Or.inl ⟨_, hnot, rfl⟩
      · split
        · exact Or.inl ⟨_, hnot, rfl⟩
        · refine Or.inr ⟨_, rfl, rfl, rfl, fun user friend => ?_⟩
          simp [Follows]

@[simp] theorem deleteFriendship_posts : (db.deleteFriendship userId friendId).posts = db.posts := rfl

@[simp] theorem follows_deleteFriendship :
    (db.deleteFriendship userId friendId).Follows user friend ↔
      db.Follows user friend ∧ ¬ (user = userId ∧ friend = friendId) := by
  unfold Follows deleteFriendship
  simp only [List.mem_filter, decide_eq_true_eq, ne_eq, Friendship.mk.injEq]

/-- UPDATE returns the updated row exactly when the author has the post. -/
theorem updatePost_cases (db : Database) (text : String) (id authorId : Uuid) :
    ((db.updatePost text id authorId).1 = none ∧ (db.updatePost text id authorId).2 = db) ∨
      ∃ p ∈ db.posts, p.id = id ∧ p.authorId = authorId ∧
        (db.updatePost text id authorId).1 = some { p with text := text } := by
  by_cases hrow : ∃ p ∈ db.posts, p.id = id ∧ p.authorId = authorId
  · obtain ⟨p, hp, hid, hauthor⟩ := hrow
    refine Or.inr ⟨p, hp, hid, hauthor, ?_⟩
    -- the row found has the id of `p`, and ids are unique
    cases hfind : (db.updatePost text id authorId).1 with
    | none =>
        have hnone := List.find?_eq_none.mp hfind (setText text id authorId p)
          (List.mem_map_of_mem hp)
        simp [hid, hauthor] at hnone
    | some q =>
        have hq := List.mem_of_find?_eq_some hfind
        have hqid : q.id = id ∧ q.authorId = authorId := by
          simpa using List.find?_some hfind
        have hset : setText text id authorId p ∈ (db.updatePost text id authorId).2.posts :=
          List.mem_map_of_mem hp
        have heq : q = setText text id authorId p :=
          eq_of_id_eq _ hq hset (by rw [setText_id, hqid.1, hid])
        rw [heq, setText, if_pos ⟨hid, hauthor⟩]
  · have hno : ∀ p ∈ db.posts, ¬ (p.id = id ∧ p.authorId = authorId) := fun p hp h =>
      hrow ⟨p, hp, h⟩
    have hmap : db.posts.map (setText text id authorId) = db.posts := by
      conv_rhs => rw [← List.map_id db.posts]
      refine List.map_congr_left fun p hp => ?_
      rw [setText, if_neg (hno p hp)]
      rfl
    refine Or.inl ⟨?_, ?_⟩
    · show (db.posts.map (setText text id authorId)).find? _ = none
      rw [hmap, List.find?_eq_none]
      intro p hp h
      exact hno p hp (of_decide_eq_true h)
    · unfold updatePost
      simp only [hmap]

theorem mem_updatePost : q ∈ (db.updatePost text id authorId).2.posts ↔
    ∃ p ∈ db.posts, setText text id authorId p = q :=
  List.mem_map

@[simp] theorem follows_updatePost :
    (db.updatePost text id authorId).2.Follows user friend ↔ db.Follows user friend := Iff.rfl

/-- DELETE returns the row exactly when the author has the post. -/
theorem deletePost_cases (db : Database) (id authorId : Uuid) :
    ((db.deletePost id authorId).1 = none ∧ (db.deletePost id authorId).2 = db) ∨
      ∃ p ∈ db.posts, p.id = id ∧ p.authorId = authorId ∧
        (db.deletePost id authorId).1 = some p := by
  cases hfind : (db.deletePost id authorId).1 with
  | none =>
      have hno : ∀ p ∈ db.posts, ¬ (p.id = id ∧ p.authorId = authorId) := by
        intro p hp h
        exact List.find?_eq_none.mp hfind p hp (decide_eq_true h)
      have hfilter : (db.posts.filter fun p => ¬ (p.id = id ∧ p.authorId = authorId)) = db.posts := by
        rw [List.filter_eq_self]
        exact fun p hp => decide_eq_true (hno p hp)
      refine Or.inl ⟨rfl, ?_⟩
      unfold deletePost
      simp only [hfilter]
  | some p =>
      have hp := List.mem_of_find?_eq_some hfind
      have hid : p.id = id ∧ p.authorId = authorId := by
        simpa using List.find?_some hfind
      exact Or.inr ⟨p, hp, hid.1, hid.2, rfl⟩

theorem mem_deletePost : p ∈ (db.deletePost id authorId).2.posts ↔
    p ∈ db.posts ∧ ¬ (p.id = id ∧ p.authorId = authorId) := by
  unfold deletePost
  rw [List.mem_filter, decide_eq_true_eq]

/-- When the author has the post, DELETE leaves the posts with another id. -/
theorem mem_deletePost_of_mem (hp : p ∈ db.posts) (hid : p.id = id) (hauthor : p.authorId = authorId) :
    q ∈ (db.deletePost id authorId).2.posts ↔ q ∈ db.posts ∧ q.id ≠ id := by
  rw [mem_deletePost]
  refine and_congr_right fun hq => ?_
  constructor
  · intro h hqid
    have heq : q = p := db.eq_of_id_eq hq hp (hqid.trans hid.symm)
    exact h ⟨hqid, heq ▸ hauthor⟩
  · exact fun h h' => h h'.1

@[simp] theorem follows_deletePost :
    (db.deletePost id authorId).2.Follows user friend ↔ db.Follows user friend := Iff.rfl

@[simp] theorem mem_followers : user ∈ db.followers authorId ↔ db.Follows user authorId := by
  unfold followers Follows
  rw [List.mem_map]
  constructor
  · rintro ⟨f, hf, rfl⟩
    obtain ⟨hmem, hauthor⟩ := List.mem_filter.mp hf
    have : f = ⟨f.userId, authorId⟩ := by
      rw [← of_decide_eq_true hauthor]
    exact this ▸ hmem
  · intro h
    exact ⟨_, List.mem_filter.mpr ⟨h, decide_eq_true rfl⟩, rfl⟩

@[simp] theorem mem_friends : friend ∈ db.friends userId ↔ db.Follows userId friend := by
  unfold friends Follows
  rw [List.mem_map]
  constructor
  · rintro ⟨f, hf, rfl⟩
    obtain ⟨hmem, huser⟩ := List.mem_filter.mp hf
    have : f = ⟨userId, f.friendId⟩ := by
      rw [← of_decide_eq_true huser]
    exact this ▸ hmem
  · intro h
    exact ⟨_, List.mem_filter.mpr ⟨h, decide_eq_true rfl⟩, rfl⟩

/-- A follower is listed once. -/
theorem followers_nodup (db : Database) (authorId : Uuid) : (db.followers authorId).Nodup := by
  unfold followers
  refine List.Nodup.map_on ?_ (db.friendships_pkey.filter _)
  intro f hf g hg h
  have hf' := of_decide_eq_true (List.mem_filter.mp hf).2
  have hg' := of_decide_eq_true (List.mem_filter.mp hg).2
  cases f
  cases g
  simp_all

/-- A row of the join for each post of a friend. -/
theorem joinFriends_eq (db : Database) (userId : Uuid) :
    db.joinFriends userId = db.posts.filter fun p => db.Follows userId p.authorId := by
  have hrow : ∀ p : PostRow,
      (db.friendships.filter fun f => f.friendId = p.authorId ∧ f.userId = userId)
        = if db.Follows userId p.authorId then [⟨userId, p.authorId⟩] else [] := by
    intro p
    have hcongr : (db.friendships.filter fun f => f.friendId = p.authorId ∧ f.userId = userId)
        = db.friendships.filter fun f => f = ⟨userId, p.authorId⟩ := by
      refine List.filter_congr fun f _ => ?_
      cases f
      simp [and_comm]
    rw [hcongr, List.filter_eq, db.friendships_pkey.count]
    split_ifs with h h' h'
    · rfl
    · exact absurd h h'
    · exact absurd h' h
    · rfl
  unfold joinFriends
  simp only [hrow]
  induction db.posts with
  | nil => rfl
  | cons p ps ih =>
      rw [List.flatMap_cons, ih]
      by_cases h : db.Follows userId p.authorId
      · simp [h]
      · simp [h]

theorem mem_joinFriends :
    p ∈ db.joinFriends userId ↔ p ∈ db.posts ∧ db.Follows userId p.authorId := by
  simp [joinFriends_eq]

theorem mem_recentPosts_of_mem {authorIds : List Uuid}
    (h : p ∈ db.recentPosts order authorIds limit) : p ∈ db.posts ∧ p.authorId ∈ authorIds := by
  have hp := (order.perm _).mem_iff.mp (List.mem_of_mem_take h)
  simpa using hp

/-- The selected rows have different ids. -/
theorem recentPosts_nodup (db : Database) (order : RowOrder) (authorIds : List Uuid) (limit : Nat) :
    ((db.recentPosts order authorIds limit).map PostRow.id).Nodup := by
  unfold recentPosts
  refine List.Nodup.sublist ((List.take_sublist _ _).map _) ?_
  rw [((order.perm _).map PostRow.id).nodup_iff]
  exact db.posts_pkey.sublist (List.filter_sublist.map _)

theorem recentFriendPosts_nodup (db : Database) (order : RowOrder) (userId : Uuid) (limit : Nat) :
    ((db.recentFriendPosts order userId limit).map PostRow.id).Nodup := by
  unfold recentFriendPosts
  refine List.Nodup.sublist ((List.take_sublist _ _).map _) ?_
  rw [((order.perm _).map PostRow.id).nodup_iff, joinFriends_eq]
  exact db.posts_pkey.sublist (List.filter_sublist.map _)

theorem mem_recentFriendPosts_of_mem (h : p ∈ db.recentFriendPosts order userId limit) :
    p ∈ db.posts ∧ db.Follows userId p.authorId :=
  mem_joinFriends.mp ((order.perm _).mem_iff.mp (List.mem_of_mem_take h))

/-- The group of an id counts its followers; an id without a group has none. -/
theorem lookup_groupFollowers {authorIds : List Uuid} (h : id ∈ authorIds) :
    ((db.groupFollowers authorIds).lookup id).getD 0 = db.countFollowers id := by
  unfold groupFollowers
  have hlookup : ∀ ids : List Uuid, ((ids.map fun a => (a, db.countFollowers a)).lookup id)
      = if id ∈ ids then some (db.countFollowers id) else none := by
    intro ids
    induction ids with
    | nil => rfl
    | cons a ids ih =>
        rw [List.map_cons, List.lookup_cons, ih]
        by_cases ha : id = a
        · simp [ha]
        · simp [ha, beq_false_of_ne ha]
  rw [hlookup]
  split_ifs with hmem
  · rfl
  · -- no friendship points to `id`
    have hnone : (db.friendships.filter fun f => f.friendId = id) = [] := by
      rw [List.filter_eq_nil_iff]
      intro f hf hfid
      refine hmem (List.mem_dedup.mpr (List.mem_map.mpr ⟨f, List.mem_filter.mpr ⟨hf, ?_⟩, ?_⟩))
      · simpa [of_decide_eq_true hfid] using h
      · exact of_decide_eq_true hfid
    rw [countFollowers, hnone]
    rfl

end Specs

end Database

end HighLoad.Feed
