/-
# HighLoad.Feed.Merged — the merged feed is one sorted list

`read_feed_merged` fetches the first `offset + limit` posts of the feed and as many of the celebrity
friends, drops what it saw twice and sorts by the timestamp strings. With posts of distinct times the
window it cuts out is that of the union of all of them (`merged_window_exact`): the greatest elements of
a union are among the greatest of its parts, and the strings sort as the timestamps do.
-/
import HighLoad.Feed.Refinement
import HighLoad.TextParse

namespace HighLoad.Feed

open Prog TopN Paging

variable {order : RowOrder} {cfg : Settings} {w : World} {db : Database} {u : Uuid}

/-! ## The list that the windows are cut from -/

/-- Every member of the feed has the hash and the score of its row. -/
def World.Backed (w : World) (u : Uuid) : Prop :=
  ∀ e ∈ (w.feed u).entries, ∃ p ∈ w.db.posts, p.entry = e ∧
    w.redis.posts p.id = some (rowToPostHash p)

/-- The post is pulled at every read. -/
def Pulled (cfg : Settings) (w : World) (u : Uuid) (p : PostRow) : Prop :=
  w.db.Follows u p.authorId ∧ celebrityFlag cfg w p.authorId = true

instance (cfg : Settings) (w : World) (u : Uuid) : DecidablePred (Pulled cfg w u) :=
  fun _ => inferInstanceAs (Decidable (_ ∧ _))

/-- The posts of the feed and of the celebrity friends, newest first. -/
def mergedPosts (cfg : Settings) (w : World) (u : Uuid) : List PostRow :=
  (w.db.posts.filter fun p => p.entry ∈ (w.feed u).entries ∨ Pulled cfg w u p).insertionSort Newer

theorem nodup_of_descending {l : List PostRow} (h : (l.map PostRow.entry).Pairwise (· > ·)) :
    l.Nodup :=
  List.Nodup.of_map PostRow.entry (h.imp fun hgt => hgt.ne')

/-- Lists of posts that descend are equal when they have the same members. -/
theorem descending_ext {l l' : List PostRow} (hl : (l.map PostRow.entry).Pairwise (· > ·))
    (hl' : (l'.map PostRow.entry).Pairwise (· > ·)) (h : ∀ p, p ∈ l ↔ p ∈ l') : l = l' := by
  refine ((List.perm_ext_iff_of_nodup (nodup_of_descending hl) (nodup_of_descending hl')).mpr
    h).eq_of_pairwise ?_ (List.pairwise_map.mp hl) (List.pairwise_map.mp hl')
  exact fun p q _ _ hpq hqp => absurd hpq (lt_asymm hqp)

/-- Two such selections begin alike when their first posts are the same. -/
theorem take_sorted_ext {s s' : PostRow → Bool} {k k' : Nat}
    (h : ∀ p, p ∈ ((db.posts.filter s).insertionSort Newer).take k ↔
      p ∈ ((db.posts.filter s').insertionSort Newer).take k') :
    ((db.posts.filter s).insertionSort Newer).take k
      = ((db.posts.filter s').insertionSort Newer).take k' := by
  refine descending_ext ?_ ?_ h
  · rw [List.map_take]
    exact (sorted_descending db s).sublist (List.take_sublist _ _)
  · rw [List.map_take]
    exact (sorted_descending db s').sublist (List.take_sublist _ _)

/-- The greatest entries of a selection are those of the first posts of the sorted selection. -/
theorem mem_take_sorted {s : PostRow → Bool} {k : Nat} {p : PostRow} :
    p ∈ ((db.posts.filter s).insertionSort Newer).take k ↔
      p ∈ db.posts ∧ p.entry ∈ top k (entrySet (db.posts.filter s)) := by
  have hsorted := sorted_descending db s
  have hperm := List.perm_insertionSort Newer (db.posts.filter s)
  have hset : (((db.posts.filter s).insertionSort Newer).map PostRow.entry).toFinset
      = entrySet (db.posts.filter s) :=
    List.toFinset_eq_of_perm _ _ (hperm.map PostRow.entry)
  have hmem : ∀ q ∈ ((db.posts.filter s).insertionSort Newer), q ∈ db.posts := fun q hq =>
    List.mem_of_mem_filter ((List.mem_insertionSort _).mp hq)
  have htop := mem_take_iff_top (a := p.entry) hsorted k
  rw [hset, ← List.map_take] at htop
  rw [← htop]
  constructor
  · exact fun hp => ⟨hmem p (List.mem_of_mem_take hp), List.mem_map_of_mem hp⟩
  · rintro ⟨hp, hentry⟩
    obtain ⟨q, hq, heq⟩ := List.mem_map.mp hentry
    obtain rfl := entry_inj (hmem q (List.mem_of_mem_take hq)) hp heq
    exact hq

/-! ## Dropping repetitions and sorting by the strings -/

theorem mem_of_mem_uniqueItems {seen : List Uuid} {items : List FeedItem} {i : FeedItem}
    (h : i ∈ uniqueItems seen items) : i ∈ items ∧ i.id ∉ seen := by
  induction items generalizing seen with
  | nil => exact absurd h List.not_mem_nil
  | cons item items ih =>
      rw [uniqueItems] at h
      split_ifs at h with hseen
      · exact ⟨List.mem_cons_of_mem _ (ih h).1, (ih h).2⟩
      · rcases List.mem_cons.mp h with rfl | h
        · exact ⟨List.mem_cons_self, hseen⟩
        · obtain ⟨hmem, hnot⟩ := ih h
          exact ⟨List.mem_cons_of_mem _ hmem, fun hold => hnot (List.mem_cons_of_mem _ hold)⟩

theorem exists_mem_uniqueItems {seen : List Uuid} {items : List FeedItem} {i : FeedItem}
    (h : i ∈ items) (hnew : i.id ∉ seen) : ∃ j ∈ uniqueItems seen items, j.id = i.id := by
  induction items generalizing seen with
  | nil => exact absurd h List.not_mem_nil
  | cons item items ih =>
      rw [uniqueItems]
      split_ifs with hseen
      · rcases List.mem_cons.mp h with rfl | h
        · exact absurd hseen hnew
        · exact ih h hnew
      · by_cases hid : item.id = i.id
        · exact ⟨item, List.mem_cons_self, hid⟩
        · have hmem : i ∈ items := by
            rcases List.mem_cons.mp h with rfl | h
            · exact absurd rfl hid
            · exact h
          have hnew' : i.id ∉ item.id :: seen := by
            rw [List.mem_cons, not_or]
            exact ⟨fun heq => hid heq.symm, hnew⟩
          obtain ⟨j, hj, hjid⟩ := ih hmem hnew'
          exact ⟨j, List.mem_cons_of_mem _ hj, hjid⟩

theorem nodup_uniqueItems (seen : List Uuid) (items : List FeedItem) :
    (uniqueItems seen items).Nodup := by
  induction items generalizing seen with
  | nil => exact List.nodup_nil
  | cons item items ih =>
      rw [uniqueItems]
      split_ifs with hseen
      · exact ih seen
      · refine List.nodup_cons.mpr ⟨fun hmem => ?_, ih _⟩
        exact (mem_of_mem_uniqueItems hmem).2 List.mem_cons_self

theorem pulledItem_inj {p q : PostRow} (hp : p ∈ db.posts) (hq : q ∈ db.posts)
    (h : pulledItem p = pulledItem q) : p = q :=
  db.eq_of_id_eq hp hq (congrArg FeedItem.id h)

theorem isoformat_le_iff {s t : DateTime} : s.isoformat ≤ t.isoformat ↔ s ≤ t := by
  rw [← not_lt, ← not_lt, DateTime.isoformat_lt_iff]

/-- **The items of posts, each once and sorted by the strings, are the sorted posts.** -/
theorem sorted_uniqueItems (htimes : DistinctTimes db) {items : List FeedItem}
    (hitems : ∀ i ∈ items, ∃ p ∈ db.posts, pulledItem p = i) :
    (uniqueItems [] items).insertionSort FeedItem.Before
      = ((db.posts.filter fun p => pulledItem p ∈ items).insertionSort Newer).map pulledItem := by
  have hmem : ∀ i, i ∈ uniqueItems [] items ↔ i ∈ items := by
    intro i
    refine ⟨fun hi => (mem_of_mem_uniqueItems hi).1, fun hi => ?_⟩
    obtain ⟨j, hj, hid⟩ := exists_mem_uniqueItems hi List.not_mem_nil
    obtain ⟨p, hp, rfl⟩ := hitems i hi
    obtain ⟨q, hq, rfl⟩ := hitems j (mem_of_mem_uniqueItems hj).1
    obtain rfl := db.eq_of_id_eq hq hp hid
    exact hj
  have hsortedMem : ∀ p, p ∈ ((db.posts.filter fun p => pulledItem p ∈ items).insertionSort Newer) ↔
      p ∈ db.posts ∧ pulledItem p ∈ items := by
    intro p
    rw [List.mem_insertionSort, List.mem_filter, decide_eq_true_iff]
  have hdesc := List.pairwise_map.mp (sorted_descending db fun p => decide (pulledItem p ∈ items))
  have hnodup : (((db.posts.filter fun p => pulledItem p ∈ items).insertionSort Newer).map
      pulledItem).Nodup := by
    refine List.Nodup.map_on (fun p hp q hq heq => ?_)
      (nodup_of_descending (sorted_descending db _))
    exact pulledItem_inj ((hsortedMem p).mp hp).1 ((hsortedMem q).mp hq).1 heq
  have hperm : ((uniqueItems [] items).insertionSort FeedItem.Before).Perm
      (((db.posts.filter fun p => pulledItem p ∈ items).insertionSort Newer).map pulledItem) := by
    refine (List.perm_insertionSort _ _).trans
      ((List.perm_ext_iff_of_nodup (nodup_uniqueItems _ _) hnodup).mpr fun i => ?_)
    rw [hmem, List.mem_map]
    constructor
    · intro hi
      obtain ⟨p, hp, rfl⟩ := hitems i hi
      exact ⟨p, (hsortedMem p).mpr ⟨hp, hi⟩, rfl⟩
    · rintro ⟨p, hp, rfl⟩
      exact ((hsortedMem p).mp hp).2
  have htotal : Std.Total FeedItem.Before := ⟨fun i j => le_total j.sortKey i.sortKey⟩
  have htrans : IsTrans FeedItem FeedItem.Before := ⟨fun _ _ _ hij hjk => le_trans hjk hij⟩
  refine hperm.eq_of_pairwise ?_ (List.pairwise_insertionSort _ _) ?_
  · -- distinct times have distinct strings
    intro i j hi hj hij hji
    obtain ⟨p, hp, rfl⟩ := hitems i ((hmem i).mp ((List.mem_insertionSort _).mp hi))
    obtain ⟨q, hq, rfl⟩ := List.mem_map.mp hj
    have htime : p.createdAt = q.createdAt :=
      le_antisymm (isoformat_le_iff.mp hji) (isoformat_le_iff.mp hij)
    rw [htimes p hp q ((hsortedMem q).mp hq).1 htime]
  · rw [List.pairwise_map]
    refine hdesc.imp fun {p q} hgt => ?_
    have hle : q.createdAt ≤ p.createdAt := by
      rcases Entry.le_def.mp (le_of_lt hgt) with hlt | ⟨heq, -⟩
      · exact le_of_lt hlt
      · exact le_of_eq heq
    exact isoformat_le_iff.mpr hle

/-! ## The two parts -/

theorem reverse_descending (w : World) (u : Uuid) : (w.feed u).entries.reverse.Pairwise (· > ·) :=
  List.pairwise_reverse.mpr (strictly_ascending _)

/-- The item of a member of a feed is that of its row. -/
theorem itemOf_row {p : PostRow} (hhash : w.redis.posts p.id = some (rowToPostHash p)) :
    itemOf w p.id = some (itemOfRow p) := by
  rw [itemOf, hhash]
  rfl

theorem datedItem_row {p : PostRow} (hhash : w.redis.posts p.id = some (rowToPostHash p)) :
    datedItem w (itemOfRow p) = pulledItem p := by
  have hdate : w.redis.posts (itemOfRow p).id = some (rowToPostHash p) := hhash
  rw [datedItem, hdate]
  rfl

/-- The push part are the items of the greatest entries of the feed. -/
theorem mem_pushPart (hbacked : w.Backed u) {k : Nat} (hk : 1 ≤ k) {i : FeedItem} :
    i ∈ (pushPart w u k).map (datedItem w) ↔
      ∃ p ∈ w.db.posts, p.entry ∈ top k (w.feedSet u) ∧ pulledItem p = i := by
  have htop : ∀ e, e ∈ (w.feed u).entries.reverse.take k ↔ e ∈ top k (w.feedSet u) := by
    intro e
    rw [mem_take_iff_top (reverse_descending w u), List.toFinset_reverse]
    rfl
  have hids : pageIds w u 0 k = ((w.feed u).entries.reverse.take k).map Entry.member := by
    rw [pageIds_eq w u 0 hk, page, List.drop_zero, World.members, List.map_take]
  rw [pushPart, hids, List.mem_map]
  constructor
  · rintro ⟨j, hj, rfl⟩
    obtain ⟨m, hm, hitem⟩ := List.mem_filterMap.mp hj
    obtain ⟨e, he, rfl⟩ := List.mem_map.mp hm
    obtain ⟨p, hp, rfl, hhash⟩ := hbacked e (List.mem_reverse.mp (List.mem_of_mem_take he))
    have hrow : itemOf w p.entry.member = some (itemOfRow p) := itemOf_row hhash
    rw [hrow] at hitem
    obtain rfl := Option.some.inj hitem
    exact ⟨p, hp, (htop _).mp he, (datedItem_row hhash).symm⟩
  · rintro ⟨p, hp, hentry, rfl⟩
    have he := (htop _).mpr hentry
    obtain ⟨q, hq, heq, hhash⟩ := hbacked _ (List.mem_reverse.mp (List.mem_of_mem_take he))
    obtain rfl := entry_inj hq hp heq
    exact ⟨itemOfRow q, List.mem_filterMap.mpr ⟨q.id, List.mem_map.mpr ⟨q.entry, he, rfl⟩,
      itemOf_row hhash⟩, datedItem_row hhash⟩

/-- The pull part are the items of the greatest entries of the celebrity friends. -/
theorem mem_pullPart (order : RowOrder) (htimes : DistinctTimes w.db) {k : Nat} {i : FeedItem} :
    i ∈ pullPart order cfg w u k ↔
      ∃ p ∈ w.db.posts, p.entry ∈ top k (entrySet (w.db.posts.filter fun p => Pulled cfg w u p)) ∧
        pulledItem p = i := by
  have hrows : (w.db.posts.filter fun p => p.authorId ∈ celebrityFriends cfg w u)
      = w.db.posts.filter fun p => Pulled cfg w u p :=
    List.filter_congr fun p _ => decide_eq_decide.mpr mem_celebrityFriends
  have hset : entrySet (w.db.recentPosts order (celebrityFriends cfg w u) k)
      = top k (entrySet (w.db.posts.filter fun p => Pulled cfg w u p)) := by
    unfold Database.recentPosts
    rw [hrows]
    refine entries_select (nodup_ids_filter w.db _) k (Or.inl fun p hp q hq => ?_)
    exact htimes p (List.mem_filter.mp hp).1 q (List.mem_filter.mp hq).1
  rw [pullPart, List.mem_map, ← hset]
  constructor
  · rintro ⟨p, hp, rfl⟩
    exact ⟨p, (Database.mem_recentPosts_of_mem hp).1, mem_entrySet.mpr ⟨p, hp, rfl⟩, rfl⟩
  · rintro ⟨p, hp, hentry, rfl⟩
    obtain ⟨q, hq, heq⟩ := mem_entrySet.mp hentry
    obtain rfl := entry_inj (Database.mem_recentPosts_of_mem hq).1 hp heq
    exact ⟨q, hq, rfl⟩

/-- The posts of the merged list are those of the feed and those that are pulled. -/
theorem entrySet_merged (hbacked : w.Backed u) :
    entrySet (w.db.posts.filter fun p => p.entry ∈ (w.feed u).entries ∨ Pulled cfg w u p)
      = w.feedSet u ∪ entrySet (w.db.posts.filter fun p => Pulled cfg w u p) := by
  ext e
  rw [Finset.mem_union, mem_entrySet, mem_entrySet, World.feedSet, List.mem_toFinset]
  constructor
  · rintro ⟨p, hp, rfl⟩
    obtain ⟨hp, hwhy⟩ := List.mem_filter.mp hp
    rcases of_decide_eq_true hwhy with hfeed | hpulled
    · exact Or.inl hfeed
    · exact Or.inr ⟨p, List.mem_filter.mpr ⟨hp, decide_eq_true hpulled⟩, rfl⟩
  · rintro (hfeed | ⟨p, hp, rfl⟩)
    · obtain ⟨p, hp, rfl, -⟩ := hbacked e hfeed
      exact ⟨p, List.mem_filter.mpr ⟨hp, decide_eq_true (Or.inl hfeed)⟩, rfl⟩
    · obtain ⟨hp, hpulled⟩ := List.mem_filter.mp hp
      exact ⟨p, List.mem_filter.mpr ⟨hp, decide_eq_true (Or.inr (of_decide_eq_true hpulled))⟩, rfl⟩

/-- **The first posts of what was fetched are the first posts of the merged list.** -/
theorem take_fetched (hbacked : w.Backed u) (htimes : DistinctTimes w.db) {k : Nat} (hk : 1 ≤ k) :
    ((w.db.posts.filter fun p => pulledItem p ∈
        (pushPart w u k).map (datedItem w) ++ pullPart order cfg w u k).insertionSort Newer).take k
      = (mergedPosts cfg w u).take k := by
  have hset : entrySet (w.db.posts.filter fun p => pulledItem p ∈
        (pushPart w u k).map (datedItem w) ++ pullPart order cfg w u k)
      = top k (w.feedSet u) ∪ top k (entrySet (w.db.posts.filter fun p => Pulled cfg w u p)) := by
    ext e
    rw [mem_entrySet, Finset.mem_union]
    constructor
    · rintro ⟨p, hp, rfl⟩
      obtain ⟨hp, hmem⟩ := List.mem_filter.mp hp
      rcases List.mem_append.mp (of_decide_eq_true hmem) with hpush | hpull
      · obtain ⟨q, hq, hentry, heq⟩ := (mem_pushPart hbacked hk).mp hpush
        exact Or.inl (pulledItem_inj hq hp heq ▸ hentry)
      · obtain ⟨q, hq, hentry, heq⟩ := (mem_pullPart order htimes).mp hpull
        exact Or.inr (pulledItem_inj hq hp heq ▸ hentry)
    · rintro (hpush | hpull)
      · obtain ⟨p, hp, rfl, -⟩ := hbacked e (List.mem_toFinset.mp (top_subset k _ hpush))
        have hitem := (mem_pushPart hbacked hk).mpr ⟨p, hp, hpush, rfl⟩
        exact ⟨p, List.mem_filter.mpr ⟨hp, decide_eq_true (List.mem_append_left _ hitem)⟩, rfl⟩
      · obtain ⟨p, hp, rfl⟩ := mem_entrySet.mp (top_subset k _ hpull)
        have hp' := List.mem_of_mem_filter hp
        have hitem := (mem_pullPart order htimes).mpr ⟨p, hp', hpull, rfl⟩
        exact ⟨p, List.mem_filter.mpr ⟨hp', decide_eq_true (List.mem_append_right _ hitem)⟩, rfl⟩
  refine take_sorted_ext fun p => ?_
  rw [mem_take_sorted, mem_take_sorted, hset, entrySet_merged hbacked, top_union_top]

/-! ## The windows -/

/-- A feed whose members all have a hash is not swept. -/
theorem swept_backed (hbacked : w.Backed u) (limit : Nat) : w.swept u (pageIds w u 0 limit) = w := by
  refine World.swept_of_isEmpty ?_
  rw [List.isEmpty_iff, staleIds, List.filter_eq_nil_iff]
  intro m hm hnone
  obtain ⟨e, he, rfl⟩ := exists_entry_of_mem_pageIds hm
  obtain ⟨p, -, rfl, hhash⟩ := hbacked e he
  have hsome : w.redis.posts p.entry.member = some (rowToPostHash p) := hhash
  rw [hsome] at hnone
  exact Bool.false_ne_true hnone

/-- **A merged read cuts its window out of the merged list** and caches the flags it evaluated. -/
theorem run_merged (order : RowOrder) (cfg : Settings) (hexists : (w.feed u).exists = true)
    (hbacked : w.Backed u) (htimes : DistinctTimes w.db) (nonce : Uuid) (offset : Nat) {limit : Nat}
    (hlimit : 1 ≤ limit) :
    (readFeedMerged cfg nonce u offset limit).run (exec order) w
      = (.ok ((((mergedPosts cfg w u).drop offset).take limit).map itemOfRow),
          w.flagged cfg (w.db.friends u)) := by
  have htemp : w.Fresh u nonce := fun habsent => absurd hexists (Bool.eq_false_iff.mp habsent)
  have hopened : w.opened order cfg u = w := by rw [World.opened, if_pos hexists]
  have hk : 1 ≤ offset + limit := by omega
  have hitems : ∀ i ∈ (pushPart w u (offset + limit)).map (datedItem w)
      ++ pullPart order cfg w u (offset + limit), ∃ p ∈ w.db.posts, pulledItem p = i := by
    intro i hi
    rcases List.mem_append.mp hi with hpush | hpull
    · obtain ⟨p, hp, -, heq⟩ := (mem_pushPart hbacked hk).mp hpush
      exact ⟨p, hp, heq⟩
    · obtain ⟨p, hp, -, heq⟩ := (mem_pullPart order htimes).mp hpull
      exact ⟨p, hp, heq⟩
  have hwindow : ∀ l : List PostRow, (l.drop offset).take limit
      = (l.take (offset + limit)).drop offset := by
    intro l
    rw [List.drop_take, Nat.add_sub_cancel_left]
  rw [run_readFeedMerged order cfg u nonce offset limit w htemp, hopened, swept_backed hbacked]
  refine Prod.ext (congrArg Except.ok ?_) rfl
  rw [mergedPage, sorted_uniqueItems htimes hitems, ← List.map_drop, ← List.map_take, List.map_map,
    hwindow, take_fetched hbacked htimes hk, ← hwindow]
  rfl

/-- The answers to merged reads with these nonces and offsets, one after the other. -/
def mergedReads (order : RowOrder) (cfg : Settings) (u : Uuid) (limit : Nat) :
    List (Uuid × Nat) → World → List (Except PyError (List FeedItem))
  | [], _ => []
  | c :: cs, w =>
      ((readFeedMerged cfg c.1 u c.2 limit).run (exec order) w).1 ::
        mergedReads order cfg u limit cs ((readFeedMerged cfg c.1 u c.2 limit).run (exec order) w).2

/-- Cached flags do not change the merged list. -/
theorem mergedPosts_flagged (cfg : Settings) (w : World) (u : Uuid) (ids : List Uuid) :
    mergedPosts cfg (w.flagged cfg ids) u = mergedPosts cfg w u := by
  have hpulled : ∀ p, Pulled cfg (w.flagged cfg ids) u p ↔ Pulled cfg w u p := by
    intro p
    unfold Pulled
    rw [celebrityFlag_flagged]
    exact Iff.rfl
  unfold mergedPosts
  simp only [hpulled]
  rfl

theorem mergedReads_eq (order : RowOrder) (hexists : (w.feed u).exists = true) (hbacked : w.Backed u)
    (htimes : DistinctTimes w.db) {limit : Nat} (hlimit : 1 ≤ limit) (cs : List (Uuid × Nat)) :
    mergedReads order cfg u limit cs w
      = cs.map fun c => .ok ((((mergedPosts cfg w u).drop c.2).take limit).map itemOfRow) := by
  induction cs generalizing w with
  | nil => rfl
  | cons c cs ih =>
      have hrun := run_merged order cfg hexists hbacked htimes c.1 c.2 hlimit
      have hrest := ih (w := w.flagged cfg (w.db.friends u)) hexists hbacked htimes
      rw [mergedPosts_flagged] at hrest
      rw [mergedReads, hrun, hrest, List.map_cons]

/-- Without celebrity friends the merged list is the feed. -/
theorem mergedPosts_of_plain (hbacked : w.Backed u) (hplain : ∀ p, ¬ Pulled cfg w u p) :
    (mergedPosts cfg w u).map PostRow.entry = (w.feed u).entries.reverse := by
  have hdesc : ((mergedPosts cfg w u).map PostRow.entry).Pairwise (· > ·) := sorted_descending w.db _
  refine (SortedSet.reverse_entries_eq (hdesc.imp fun hgt => hgt.le) (hdesc.imp fun hgt => hgt.ne')
    fun e => ?_).symm
  rw [List.mem_map]
  constructor
  · intro he
    obtain ⟨p, hp, rfl, -⟩ := hbacked e he
    refine ⟨p, ?_, rfl⟩
    rw [mergedPosts, List.mem_insertionSort, List.mem_filter]
    exact ⟨hp, decide_eq_true (Or.inl he)⟩
  · rintro ⟨p, hp, rfl⟩
    rw [mergedPosts, List.mem_insertionSort, List.mem_filter] at hp
    rcases of_decide_eq_true hp.2 with hfeed | hpulled
    · exact hfeed
    · exact absurd hpulled (hplain p)

theorem run_plain (order : RowOrder) (hexists : (w.feed u).exists = true) (hbacked : w.Backed u)
    (hplain : ∀ p, ¬ Pulled cfg w u p) (nonce : Uuid) (offset : Nat) {limit : Nat}
    (hlimit : 1 ≤ limit) :
    ((readFeed cfg nonce u offset limit).run (exec order) w).1
      = .ok ((((mergedPosts cfg w u).drop offset).take limit).map itemOfRow) := by
  have htemp : w.Fresh u nonce := fun habsent => absurd hexists (Bool.eq_false_iff.mp habsent)
  have hopened : w.opened order cfg u = w := by rw [World.opened, if_pos hexists]
  have hmembers : w.members u = (mergedPosts cfg w u).map PostRow.id := by
    unfold World.members
    rw [← mergedPosts_of_plain hbacked hplain, List.map_map]
    rfl
  rw [run_readFeed order cfg u nonce offset limit w htemp, hopened, pageIds_eq w u offset hlimit,
    hmembers, page, ← List.map_drop, ← List.map_take, List.filterMap_map]
  refine congrArg Except.ok ?_
  rw [← List.filterMap_eq_map]
  refine List.filterMap_congr fun p hp => ?_
  have hmem := List.mem_of_mem_drop (List.mem_of_mem_take hp)
  have hentry : p.entry ∈ (w.feed u).entries := by
    rw [← List.mem_reverse, ← mergedPosts_of_plain hbacked hplain]
    exact List.mem_map_of_mem hmem
  obtain ⟨q, hq, heq, hhash⟩ := hbacked _ hentry
  rw [mergedPosts, List.mem_insertionSort] at hmem
  obtain rfl := entry_inj hq (List.mem_of_mem_filter hmem) heq
  exact itemOf_row hhash

/-- **The merged window is exact.** Each read is its slice of the merged list, consecutive reads
partition the list, and without celebrity friends a merged read is a read of the feed. -/
theorem merged_window_exact (order : RowOrder) (cfg : Settings) (w : World) (u : Uuid)
    (hexists : (w.feed u).exists = true) (hbacked : w.Backed u) (htimes : DistinctTimes w.db) :
    (∀ (nonce : Uuid) (offset limit : Nat), 1 ≤ limit →
      ((readFeedMerged cfg nonce u offset limit).run (exec order) w).1
        = .ok ((((mergedPosts cfg w u).drop offset).take limit).map itemOfRow)) ∧
    (∀ (nonce : Nat → Uuid) (limit n : Nat), 1 ≤ limit → (mergedPosts cfg w u).length ≤ n * limit →
      ∃ pages : List (List FeedItem),
        mergedReads order cfg u limit ((List.range n).map fun k => (nonce k, k * limit)) w
          = pages.map Except.ok ∧
        pages.flatten = (mergedPosts cfg w u).map itemOfRow) ∧
    ((∀ a, w.db.Follows u a → celebrityFlag cfg w a = false) →
      ∀ (nonce : Uuid) (offset limit : Nat), 1 ≤ limit →
        ((readFeedMerged cfg nonce u offset limit).run (exec order) w).1
          = ((readFeed cfg nonce u offset limit).run (exec order) w).1) := by
  refine ⟨fun nonce offset limit hlimit => ?_, fun nonce limit n hlimit hn => ?_,
    fun hflags nonce offset limit hlimit => ?_⟩
  · rw [run_merged order cfg hexists hbacked htimes nonce offset hlimit]
  · refine ⟨(List.range n).map fun k => (page (k * limit) limit (mergedPosts cfg w u)).map itemOfRow,
      ?_, ?_⟩
    · rw [mergedReads_eq order hexists hbacked htimes hlimit, List.map_map, List.map_map]
      rfl
    · have hpages := flatMap_page n limit (mergedPosts cfg w u)
      rw [List.take_of_length_le hn] at hpages
      conv_rhs => rw [← hpages]
      rw [List.map_flatMap]
      rfl
  · have hplain : ∀ p, ¬ Pulled cfg w u p := by
      rintro p ⟨hfollows, hflag⟩
      rw [hflags _ hfollows] at hflag
      exact Bool.false_ne_true hflag
    rw [run_merged order cfg hexists hbacked htimes nonce offset hlimit,
      run_plain order hexists hbacked hplain nonce offset hlimit]

/-- Feeds of two posts, and one follower makes a celebrity. -/
def shortFeeds : Settings := { feedMaxSize := 2, celebrityFollowersThreshold := 1 }

/-- User 2 is a celebrity: all three posts are pulled, and the newer two are in the feed as well. -/
theorem merged_window_exact_threePosts :
    (mergedPosts shortFeeds ((World.ofUsers [.ofNat 1, .ofNat 2]).afterAll someOrder shortFeeds
        threePosts) (.ofNat 1)).map PostRow.id = [.ofNat 13, .ofNat 12, .ofNat 11] ∧
      ((readFeedMerged shortFeeds (.ofNat 0) (.ofNat 1) 1 2).run (exec someOrder)
          ((World.ofUsers [.ofNat 1, .ofNat 2]).afterAll someOrder shortFeeds threePosts)).1
        = .ok ((((mergedPosts shortFeeds ((World.ofUsers [.ofNat 1, .ofNat 2]).afterAll someOrder
            shortFeeds threePosts) (.ofNat 1)).drop 1).take 2).map itemOfRow) ∧
      ∃ pages : List (List FeedItem),
        mergedReads someOrder shortFeeds (.ofNat 1) 2
            ((List.range 2).map fun k => (.ofNat k, k * 2))
            ((World.ofUsers [.ofNat 1, .ofNat 2]).afterAll someOrder shortFeeds threePosts)
          = pages.map Except.ok ∧
        pages.flatten = (mergedPosts shortFeeds ((World.ofUsers [.ofNat 1, .ofNat 2]).afterAll
          someOrder shortFeeds threePosts) (.ofNat 1)).map itemOfRow := by
  have hbacked : ((World.ofUsers [.ofNat 1, .ofNat 2]).afterAll someOrder shortFeeds
      threePosts).Backed (.ofNat 1) := by
    unfold World.Backed
    decide +kernel
  have htimes : DistinctTimes ((World.ofUsers [.ofNat 1, .ofNat 2]).afterAll someOrder shortFeeds
      threePosts).db := by
    decide +kernel
  obtain ⟨hslice, hpages, -⟩ :=
    merged_window_exact someOrder shortFeeds _ (.ofNat 1) rfl hbacked htimes
  exact ⟨by decide +kernel, hslice (.ofNat 0) 1 2 (by decide),
    hpages .ofNat 2 2 (by decide) (by decide +kernel)⟩

end HighLoad.Feed
