/-
# HighLoad.Feed.Window — the newest posts of a user's friends

`newest db u n` are the `n` newest posts of the friends of `u`, as entries of a sorted set. The queries
with `ORDER BY created_at DESC LIMIT n` select such windows, whatever the server does with rows of one
`created_at`, when no two posts share theirs or the limit cuts nothing off (`entries_select`); and the
trimming writes of the cache keep them (`toFinset_trim`, `toFinset_pushed`).
-/
import HighLoad.Feed.CacheSpecs
import HighLoad.Lib.TopN

namespace HighLoad.Feed

open TopN

variable {order : RowOrder} {cfg : Settings} {w : World} {db : Database} {u : Uuid} {cap : Nat}

/-! ## Windows of the database -/

/-- The entries of rows. -/
def entrySet (rows : List PostRow) : Finset (Entry DateTime Uuid) :=
  (rows.map PostRow.entry).toFinset

@[simp] theorem mem_entrySet {rows : List PostRow} {e : Entry DateTime Uuid} :
    e ∈ entrySet rows ↔ ∃ p ∈ rows, p.entry = e := by
  simp [entrySet]

/-- The posts of the friends of a user. -/
def friendPosts (db : Database) (u : Uuid) : List PostRow :=
  db.posts.filter fun p => db.Follows u p.authorId

@[simp] theorem mem_friendPosts {p : PostRow} :
    p ∈ friendPosts db u ↔ p ∈ db.posts ∧ db.Follows u p.authorId := by
  simp [friendPosts]

/-- The `n` newest posts of the friends of a user. -/
def newest (db : Database) (u : Uuid) (n : Nat) : Finset (Entry DateTime Uuid) :=
  top n (entrySet (friendPosts db u))

/-- No two posts share their `created_at`. -/
def DistinctTimes (db : Database) : Prop :=
  ∀ p ∈ db.posts, ∀ q ∈ db.posts, p.createdAt = q.createdAt → p = q

theorem entry_inj {p q : PostRow} (hp : p ∈ db.posts) (hq : q ∈ db.posts)
    (h : p.entry = q.entry) : p = q :=
  db.eq_of_id_eq hp hq (congrArg Entry.member h)

/-- A selection of rows has as many entries as rows. -/
theorem nodup_entries {rows : List PostRow} (h : (rows.map PostRow.id).Nodup) :
    (rows.map PostRow.entry).Nodup := by
  have hids : ((rows.map PostRow.entry).map Entry.member).Nodup := by
    rw [List.map_map]
    exact h
  exact List.Nodup.of_map _ hids

theorem card_entrySet {rows : List PostRow} (h : (rows.map PostRow.id).Nodup) :
    (entrySet rows).card = rows.length := by
  rw [entrySet, List.toFinset_card_of_nodup (nodup_entries h), List.length_map]

theorem nodup_ids_filter (db : Database) (p : PostRow → Bool) :
    ((db.posts.filter p).map PostRow.id).Nodup :=
  db.posts_pkey.sublist (List.filter_sublist.map _)

theorem card_friendPosts (db : Database) (u : Uuid) :
    (entrySet (friendPosts db u)).card = (friendPosts db u).length :=
  card_entrySet (nodup_ids_filter db _)

theorem card_newest (db : Database) (u : Uuid) (n : Nat) :
    (newest db u n).card = min n (friendPosts db u).length := by
  rw [newest, card_top, card_friendPosts]

/-- **What `ORDER BY created_at DESC LIMIT n` selects**: a window, when the times are distinct or the
rows fit. -/
theorem entries_select {rows : List PostRow} (hids : (rows.map PostRow.id).Nodup) (n : Nat)
    (h : (∀ p ∈ rows, ∀ q ∈ rows, p.createdAt = q.createdAt → p = q) ∨ rows.length ≤ n) :
    entrySet ((order.sort rows).take n) = top n (entrySet rows) := by
  have hperm := order.perm rows
  rcases h with htimes | hfits
  · have hnodup : (order.sort rows).Nodup := by
      rw [hperm.nodup_iff]
      exact List.Nodup.of_map _ hids
    have hsorted : ((order.sort rows).map PostRow.entry).Pairwise (· > ·) := by
      rw [List.pairwise_map]
      refine ((order.descending rows).and hnodup).imp_of_mem fun {p q} hp hq hpq => ?_
      have hne : q.createdAt ≠ p.createdAt := fun heq =>
        hpq.2 (htimes p (hperm.mem_iff.mp hp) q (hperm.mem_iff.mp hq) heq.symm)
      have hlt : q.createdAt < p.createdAt := lt_of_le_of_ne hpq.1 hne
      have hle : q.entry ≤ p.entry := Entry.le_def.mpr (Or.inl hlt)
      exact lt_of_le_of_ne hle fun heq => hne (congrArg Entry.score heq)
    ext e
    have htake := mem_take_iff_top (a := e) hsorted n
    rw [← List.map_take] at htake
    rw [entrySet, List.mem_toFinset, htake, entrySet,
      List.toFinset_eq_of_perm _ _ (hperm.map PostRow.entry)]
  · rw [List.take_of_length_le (by rwa [hperm.length_eq]), top_eq_self]
    · exact List.toFinset_eq_of_perm _ _ (hperm.map PostRow.entry)
    · rwa [card_entrySet hids]

/-- The rows of a rebuild are the window. -/
theorem entrySet_recentFriendPosts (n : Nat)
    (h : DistinctTimes db ∨ (friendPosts db u).length ≤ n) :
    entrySet (db.recentFriendPosts order u n) = newest db u n := by
  have hrows : db.joinFriends u = friendPosts db u := Database.joinFriends_eq db u
  unfold Database.recentFriendPosts newest
  rw [hrows]
  refine entries_select (nodup_ids_filter db _) n (h.imp_left fun htimes p hp q hq => ?_)
  exact htimes p (mem_friendPosts.mp hp).1 q (mem_friendPosts.mp hq).1

/-- The rows of an author that `set_friend` selects are their window. -/
theorem entrySet_recentPosts (friend : Uuid) (n : Nat)
    (h : DistinctTimes db ∨ (db.posts.filter fun p => p.authorId = friend).length ≤ n) :
    entrySet (db.recentPosts order [friend] n)
      = top n (entrySet (db.posts.filter fun p => p.authorId = friend)) := by
  have hrows : (db.posts.filter fun p => p.authorId ∈ [friend])
      = db.posts.filter fun p => p.authorId = friend :=
    List.filter_congr fun p _ => by simp
  unfold Database.recentPosts
  rw [hrows]
  refine entries_select (nodup_ids_filter db _) n (h.imp_left fun htimes p hp q hq => ?_)
  exact htimes p (List.mem_filter.mp hp).1 q (List.mem_filter.mp hq).1

/-! ## Windows in a sorted set -/

/-- The entries of a feed. -/
def World.feedSet (w : World) (u : Uuid) : Finset (Entry DateTime Uuid) :=
  (w.feed u).entries.toFinset

theorem strictly_ascending (z : FeedSet) : z.entries.Pairwise (· < ·) :=
  (z.ascending.and z.nodup).imp fun h => lt_of_le_of_ne h.1 h.2

theorem toFinset_trim (z : FeedSet) (cap : Nat) :
    (z.removeRangeByRank 0 (-((cap : Int) + 1))).entries.toFinset = top cap z.entries.toFinset := by
  ext e
  rw [List.mem_toFinset, SortedSet.entries_trim, mem_drop_iff_top (strictly_ascending z)]

/-- `ZADD` of rows that agree with the entries of the set. -/
theorem toFinset_addAll {z : FeedSet} {rows : List PostRow} (hids : (rows.map PostRow.id).Nodup)
    (hagree : ∀ e ∈ z.entries, ∀ p ∈ rows, p.id = e.member → p.entry = e) :
    (z.addAll (rows.map PostRow.entry)).entries.toFinset = z.entries.toFinset ∪ entrySet rows := by
  have hmembers : ((rows.map PostRow.entry).map Entry.member).Nodup := by
    rw [List.map_map]
    exact hids
  ext e
  rw [List.mem_toFinset, SortedSet.mem_addAll hmembers, Finset.mem_union, List.mem_toFinset,
    mem_entrySet, List.mem_map]
  constructor
  · rintro (hrow | ⟨hold, -⟩)
    · exact Or.inr hrow
    · exact Or.inl hold
  · rintro (hold | hrow)
    · by_cases hmem : e.member ∈ (rows.map PostRow.entry).map Entry.member
      · rw [List.map_map] at hmem
        obtain ⟨p, hp, hid⟩ := List.mem_map.mp hmem
        exact Or.inl ⟨p, hp, hagree e hold p hp hid⟩
      · exact Or.inr ⟨hold, hmem⟩
    · exact Or.inl hrow

/-- **A push keeps the window**: `ZADD` of a new member and the trim. -/
theorem toFinset_pushed {z : FeedSet} {t : DateTime} {id : Uuid}
    (hnew : ∀ e ∈ z.entries, e.member ≠ id) :
    (pushed cap t id z).entries.toFinset = top cap (insert ⟨t, id⟩ z.entries.toFinset) := by
  rw [pushed, toFinset_trim]
  congr 1
  ext e
  rw [List.mem_toFinset, SortedSet.mem_add, Finset.mem_insert, List.mem_toFinset]
  constructor
  · rintro (rfl | ⟨hold, -⟩)
    · exact Or.inl rfl
    · exact Or.inr hold
  · rintro (rfl | hold)
    · exact Or.inl rfl
    · exact Or.inr ⟨hold, hnew e hold⟩

theorem toFinset_removeAll (z : FeedSet) (ids : List Uuid) :
    (z.removeAll ids).entries.toFinset = z.entries.toFinset.filter fun e => e.member ∉ ids := by
  ext e
  simp

/-- A sorted set is determined by the set of its entries. -/
theorem feed_eq_iff {z z' : FeedSet} : z = z' ↔ z.entries.toFinset = z'.entries.toFinset := by
  constructor
  · rintro rfl
    rfl
  · intro h
    refine SortedSet.ext_mem fun e => ?_
    rw [← List.mem_toFinset, h, List.mem_toFinset]

end HighLoad.Feed
