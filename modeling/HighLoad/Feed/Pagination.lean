/-
# HighLoad.Feed.Pagination — reading a feed page by page

`read_feed` takes ids without a post hash out of the sorted set while its callers go on by offset.
`pagination_exact_iff` says for which feeds that never shows: those in which every ghost that stands
before a live post is on its page, and that are not swept empty before a rebuild brings posts back.
-/
import HighLoad.Feed.ReadSpecs
import HighLoad.Lib.Paging

namespace HighLoad.Feed

open Prog Paging

variable {order : RowOrder} {cfg : Settings} {w : World} {u : Uuid} {L : Nat}

/-! ## A page of the feed -/

/-- The members of a feed, newest first. -/
def World.members (w : World) (u : Uuid) : List Uuid := (w.feed u).entries.reverse.map Entry.member

/-- The post has a hash. -/
def World.hasHash (w : World) (id : Uuid) : Bool := (w.redis.posts id).isSome

theorem nodup_members (w : World) (u : Uuid) : (w.members u).Nodup := by
  unfold World.members
  rw [List.map_reverse, List.nodup_reverse]
  exact (w.feed u).unique

theorem pageIds_eq (w : World) (u : Uuid) (offset : Nat) (hL : 1 ≤ L) :
    pageIds w u offset L = page offset L (w.members u) :=
  SortedSet.revRange_page _ offset hL

/-- The ids of a page are members of the feed. -/
theorem exists_entry_of_mem_pageIds {offset limit : Nat} {m : Uuid}
    (h : m ∈ pageIds w u offset limit) : ∃ e ∈ (w.feed u).entries, e.member = m := by
  unfold pageIds SortedSet.revRange slice at h
  have hmem := List.mem_of_mem_drop (List.mem_of_mem_take h)
  simpa using hmem

theorem filterMap_itemOf (w : World) (ids : List Uuid) :
    ids.filterMap (itemOf w) = (ids.filter w.hasHash).filterMap (itemOf w) := by
  rw [List.filterMap_filter]
  refine List.filterMap_congr fun id _ => ?_
  cases hpost : w.redis.posts id <;> simp [itemOf, World.hasHash, hpost]

/-- A post without a row is not shown when it has no hash, or is in no feed. -/
theorem shown_ne {id : Uuid} (hgone : ∀ q ∈ w.db.posts, q.id ≠ id)
    (h : w.redis.posts id = none ∨ ∀ v, ∀ e ∈ (w.feed v).entries, e.member ≠ id)
    (v : Uuid) (offset limit : Nat) :
    ∀ i ∈ (pageIds (w.opened order cfg v) v offset limit).filterMap
      (itemOf (w.opened order cfg v)), i.id ≠ id := by
  intro i hi hid
  obtain ⟨m, hm, hitem⟩ := List.mem_filterMap.mp hi
  obtain ⟨post, hpost, rfl⟩ := Option.map_eq_some_iff.mp hitem
  obtain rfl : m = id := hid
  -- a rebuild writes neither the hash nor the member
  have hrows : ∀ r ∈ rebuildRows order cfg w v, r.id ≠ m := fun r hr =>
    hgone r (Database.mem_recentFriendPosts_of_mem hr).1
  have hsame : (w.opened order cfg v).redis.posts m = w.redis.posts m := by
    unfold World.opened
    split_ifs
    · rfl
    · exact PointUpdate.writeAll_of_not_mem hrows
  rcases h with hnone | hfeeds
  · rw [hsame, hnone] at hpost
    exact absurd hpost (by simp)
  · obtain ⟨e, he, heq⟩ := exists_entry_of_mem_pageIds hm
    unfold World.opened at he
    split_ifs at he
    · exact hfeeds v e he heq
    · rw [World.feed_rebuilt, if_pos rfl] at he
      rcases SortedSet.mem_of_mem_addAll he with he | he
      · obtain ⟨r, hr, rfl⟩ := List.mem_map.mp he
        exact hrows r hr heq
      · exact SortedSet.not_mem_empty he

/-- In a list without repetitions, removing the dead elements of a page sweeps it. -/
theorem filter_eq_sweep {α : Type} [DecidableEq α] {live : α → Bool} {M : List α} (hM : M.Nodup)
    (offset L : Nat) :
    (M.filter fun a => decide (live a = true ∨ a ∉ page offset L M)) = sweep live offset L M := by
  have hparts : M = M.take offset ++ (page offset L M ++ M.drop (offset + L)) := by
    rw [page, ← List.drop_drop, List.take_append_drop, List.take_append_drop]
  have hnodup := hM
  rw [hparts, List.nodup_append, List.nodup_append] at hnodup
  obtain ⟨-, ⟨-, -, hpage⟩, hfirst⟩ := hnodup
  have hbefore : ∀ a ∈ M.take offset, a ∉ page offset L M := fun a ha ha' =>
    hfirst a ha a (List.mem_append_left _ ha') rfl
  have hbehind : ∀ a ∈ M.drop (offset + L), a ∉ page offset L M := fun a ha ha' =>
    hpage a ha' a ha rfl
  conv_lhs =>
    rw [show (M.filter fun a => decide (live a = true ∨ a ∉ page offset L M))
      = (M.take offset ++ (page offset L M ++ M.drop (offset + L))).filter
        fun a => decide (live a = true ∨ a ∉ page offset L M) from by rw [← hparts]]
  rw [List.filter_append, List.filter_append, sweep, shown, List.append_assoc]
  congr 1
  · rw [List.filter_eq_self]
    intro a ha
    simp [hbefore a ha]
  · congr 1
    · refine List.filter_congr fun a ha => ?_
      simp [ha]
    · rw [List.filter_eq_self]
      intro a ha
      simp [hbehind a ha]

/-- The members after the ghosts of a page were swept out. -/
theorem members_swept (w : World) (u : Uuid) (offset : Nat) (hL : 1 ≤ L) :
    (w.swept u (pageIds w u offset L)).members u = sweep w.hasHash offset L (w.members u) := by
  rw [← filter_eq_sweep (nodup_members w u) offset L, pageIds_eq w u offset hL]
  unfold World.swept World.members
  rw [World.feed_modifyZset, if_pos rfl, SortedSet.removeAll, ← List.filter_reverse,
    List.filter_map]
  congr 1
  refine List.filter_congr fun e _ => ?_
  simp only [staleIds, List.mem_filter, World.hasHash, Function.comp_apply]
  refine decide_eq_decide.mpr ?_
  rw [not_and_or, Option.isNone_iff_eq_none, ← ne_eq, ← Option.isSome_iff_ne_none, or_comm]

@[simp] theorem hasHash_swept (w : World) (u : Uuid) (ids : List Uuid) :
    (w.swept u ids).hasHash = w.hasHash := rfl

@[simp] theorem itemOf_swept (w : World) (u : Uuid) (ids : List Uuid) :
    itemOf (w.swept u ids) = itemOf w := rfl

/-! ## Sequences of reads -/

/-- One `read_feed(user_id, offset, limit)`; the first component is the nonce that a rebuild would
draw. -/
def readAt (order : RowOrder) (cfg : Settings) (u : Uuid) (L : Nat) (w : World)
    (call : Uuid × Nat) : Except PyError (List FeedItem) × World :=
  (readFeed cfg call.1 u call.2 L).run (exec order) w

/-- The outcomes of reads one after the other. -/
def reads (order : RowOrder) (cfg : Settings) (u : Uuid) (L : Nat) :
    List (Uuid × Nat) → World → List (Except PyError (List FeedItem))
  | [], _ => []
  | c :: cs, w => (readAt order cfg u L w c).1 :: reads order cfg u L cs (readAt order cfg u L w c).2

/-- Pages `0, 1, …, n - 1`, read until the offset has passed the cardinality, yield the items of the
members with a hash, in descending order; and a page read any number of times is the same page each
time. -/
def PaginationExact (order : RowOrder) (cfg : Settings) (u : Uuid) (L : Nat) (w : World) : Prop :=
  (∀ (nonce : Nat → Uuid) (n : Nat), (w.members u).length ≤ n * L →
    ∃ pages : List (List FeedItem),
      reads order cfg u L ((List.range n).map fun k => (nonce k, k * L)) w = pages.map Except.ok ∧
        pages.flatten = (w.members u).filterMap (itemOf w)) ∧
    ∀ (nonce : Nat → Uuid) (k n : Nat), ∃ items : List FeedItem,
      reads order cfg u L ((List.range n).map fun i => (nonce i, k * L)) w
        = List.replicate n (.ok items)

/-- The rows a rebuild would select, and the temporary keys, are not touched by reads. -/
theorem noTemp_swept (h : w.NoTemp) (u : Uuid) (ids : List Uuid) : (w.swept u ids).NoTemp := by
  intro v n
  simp [World.swept, World.modifyZset, h v n]

/-- A read of a feed that exists. -/
theorem readAt_of_exists (htemp : w.NoTemp) (hL : 1 ≤ L) (hexists : (w.feed u).exists = true)
    (c : Uuid × Nat) :
    readAt order cfg u L w c = (.ok ((shown w.hasHash c.2 L (w.members u)).filterMap (itemOf w)),
      w.swept u (pageIds w u c.2 L)) := by
  have hopened : w.opened order cfg u = w := by rw [World.opened, if_pos hexists]
  rw [readAt, run_readFeed order cfg u c.1 c.2 L w (htemp.fresh u c.1), hopened, filterMap_itemOf,
    pageIds_eq w u c.2 hL]
  rfl

/-- A read of a feed that does not exist and that a rebuild leaves empty. -/
theorem readAt_of_empty (htemp : w.NoTemp) (hexists : (w.feed u).exists = false)
    (hrows : rebuildRows order cfg w u = []) (c : Uuid × Nat) :
    readAt order cfg u L w c = (.ok [], w.rebuilt u []) := by
  have hopened : w.opened order cfg u = w.rebuilt u [] := by
    rw [World.opened, hexists, hrows]
    rfl
  have hids : pageIds (w.rebuilt u []) u c.2 L = [] := by
    unfold pageIds
    rw [World.feed_rebuilt, if_pos rfl]
    unfold SortedSet.revRange slice
    simp [SortedSet.empty]
  rw [readAt, run_readFeed order cfg u c.1 c.2 L w (htemp.fresh u c.1), hopened, hids]
  rw [World.swept_of_isEmpty rfl]
  rfl

theorem members_eq_nil_iff : w.members u = [] ↔ (w.feed u).exists = false := by
  unfold World.members SortedSet.exists
  cases (w.feed u).entries <;> simp

/-- What every read keeps: the shape of the members, the hashes, and a reason why no rebuild brings
posts back. -/
structure Reading (order : RowOrder) (cfg : Settings) (u : Uuid) (L p : Nat) (A shownB : List Uuid)
    (w₀ w : World) : Prop where
  noTemp : w.NoTemp
  posts : w.redis.posts = w₀.redis.posts
  db : w.db = w₀.db
  gathered : ∃ B G, Gathered w₀.hasHash L p A B G (w.members u) ∧ B.filter w₀.hasHash = shownB
  stays : (∃ id ∈ w.members u, w₀.hasHash id = true) ∨ rebuildRows order cfg w₀ u = []

variable {w₀ : World} {p : Nat} {A shownB : List Uuid}

/-- **The step lemma**: a read shows the page of the start and keeps the invariant. -/
theorem Reading.read (h : Reading order cfg u L p A shownB w₀ w) (hL : 1 ≤ L) (nonce : Uuid)
    (k : Nat) {B : List Uuid} (hB : B.filter w₀.hasHash = shownB) :
    (readAt order cfg u L w (nonce, k * L)).1
        = .ok ((Gathered.shownAt w₀.hasHash L p A B k).filterMap (itemOf w₀)) ∧
      Reading order cfg u L p A shownB w₀ (readAt order cfg u L w (nonce, k * L)).2 := by
  obtain ⟨B', G, hgathered, hB'⟩ := h.gathered
  have hhash : w.hasHash = w₀.hasHash := by
    funext id
    simp only [World.hasHash, h.posts]
  have hitem : itemOf w = itemOf w₀ := by
    funext id
    simp only [itemOf, h.posts]
  have hsame : Gathered.shownAt w₀.hasHash L p A B' k = Gathered.shownAt w₀.hasHash L p A B k := by
    simp only [Gathered.shownAt, hB, hB']
  cases hexists : (w.feed u).exists with
  | true =>
      rw [readAt_of_exists h.noTemp hL hexists]
      refine ⟨?_, ?_⟩
      · show Except.ok _ = _
        rw [hhash, hitem, hgathered.shown k, hsame]
      · obtain ⟨B'', G'', hgathered'', hB''⟩ := hgathered.sweep k
        have hmembers : (w.swept u (pageIds w u (k * L) L)).members u
            = sweep w₀.hasHash (k * L) L (w.members u) := by
          rw [members_swept w u (k * L) hL, hhash]
        exact
          { noTemp := noTemp_swept h.noTemp u _
            posts := h.posts
            db := h.db
            gathered := ⟨B'', G'', by rw [hmembers]; exact hgathered'', hB''.trans hB'⟩
            stays := by
              rcases h.stays with ⟨id, hid, hlive⟩ | hrows
              · left
                refine ⟨id, ?_, hlive⟩
                rw [hmembers]
                have hmem : id ∈ (w.members u).filter w₀.hasHash := List.mem_filter.mpr ⟨hid, hlive⟩
                rw [← filter_sweep (k * L)] at hmem
                exact (List.mem_filter.mp hmem).1
              · exact Or.inr hrows }
  | false =>
      have hnil : w.members u = [] := members_eq_nil_iff.mpr hexists
      have hrows : rebuildRows order cfg w u = [] := by
        rcases h.stays with ⟨id, hid, -⟩ | hrows
        · rw [hnil] at hid
          exact absurd hid List.not_mem_nil
        · rw [rebuildRows, h.db]
          exact hrows
      rw [readAt_of_empty h.noTemp hexists hrows]
      have hparts := hgathered.parts
      rw [hnil] at hparts
      have hAB := List.append_eq_nil_iff.mp hparts.symm
      obtain ⟨rfl, rfl⟩ := List.append_eq_nil_iff.mp hAB.1
      have hmembers : (w.rebuilt u []).members u = [] := by
        unfold World.members
        rw [World.feed_rebuilt, if_pos rfl]
        rfl
      refine ⟨?_, ?_⟩
      · show Except.ok _ = _
        rw [← hsame]
        have hshown : Gathered.shownAt w₀.hasHash L p [] [] k = [] := by
          simp [Gathered.shownAt, page]
        rw [hshown]
        rfl
      · refine
          { noTemp := ?_
            posts := h.posts
            db := h.db
            gathered := ⟨[], [], ?_, hB'⟩
            stays := Or.inr (by rw [rebuildRows, ← h.db]; exact hrows) }
        · intro v n
          simp [World.rebuilt, h.noTemp v n]
        · show Gathered _ _ _ _ _ _ ((w.rebuilt u []).members u)
          rw [hmembers]
          exact
            { parts := rfl
              length := hgathered.length
              alive := hgathered.alive
              fits := Nat.zero_le _
              dead := fun a ha => absurd ha List.not_mem_nil }

/-- The run lemma: every read of a sequence shows the page of the start. -/
theorem Reading.reads (h : Reading order cfg u L p A shownB w₀ w) (hL : 1 ≤ L) {B : List Uuid}
    (hB : B.filter w₀.hasHash = shownB) {ι : Type} (calls : List ι) (nonce : ι → Uuid)
    (k : ι → Nat) :
    reads order cfg u L (calls.map fun i => (nonce i, k i * L)) w
      = calls.map fun i =>
        .ok ((Gathered.shownAt w₀.hasHash L p A B (k i)).filterMap (itemOf w₀)) := by
  induction calls generalizing w with
  | nil => rfl
  | cons i calls ih =>
      obtain ⟨hitems, hnext⟩ := h.read hL (nonce i) (k i) hB
      rw [List.map_cons, List.map_cons, Feed.reads, hitems, ih hnext]

/-- Feeds in which no ghost is in the way, and that reading does not rebuild. -/
theorem paginationExact_of_gathered (htemp : w.NoTemp) (hL : 1 ≤ L)
    (hghosts : DeadBeforeLiveOnPage w.hasHash L (w.members u))
    (hstays : (∃ id ∈ w.members u, w.hasHash id = true) ∨ rebuildRows order cfg w u = []) :
    PaginationExact order cfg u L w := by
  obtain ⟨p, A, B, G, hgathered⟩ := hghosts.gathered hL
  have hreading : Reading order cfg u L p A (B.filter w.hasHash) w w :=
    { noTemp := htemp
      posts := rfl
      db := rfl
      gathered := ⟨B, G, hgathered, rfl⟩
      stays := hstays }
  constructor
  · intro nonce n hn
    refine ⟨(List.range n).map fun k =>
      (Gathered.shownAt w.hasHash L p A B k).filterMap (itemOf w), ?_, ?_⟩
    · rw [hreading.reads hL rfl (List.range n) nonce fun k => k, List.map_map]
      rfl
    · rw [← List.flatMap_def]
      have hshown : ∀ k, Gathered.shownAt w.hasHash L p A B k
          = shown w.hasHash (k * L) L (w.members u) := fun k => (hgathered.shown k).symm
      simp only [hshown]
      rw [filterMap_itemOf, ← flatMap_shown hn, List.filterMap_flatMap]
  · intro nonce k n
    refine ⟨(Gathered.shownAt w.hasHash L p A B k).filterMap (itemOf w), ?_⟩
    rw [hreading.reads hL rfl (List.range n) nonce fun _ => k]
    rw [List.map_const', List.length_range]

/-! ## What exact pages say about a feed -/

theorem map_id_filterMap_itemOf (w : World) (ids : List Uuid) (h : ∀ id ∈ ids, w.hasHash id = true) :
    (ids.filterMap (itemOf w)).map FeedItem.id = ids := by
  induction ids with
  | nil => rfl
  | cons id ids ih =>
      have hid := h id List.mem_cons_self
      obtain ⟨post, hpost⟩ := Option.isSome_iff_exists.mp hid
      have hitem : itemOf w id = some ⟨id, post.text, post.authorId, none⟩ := by
        rw [itemOf, hpost]
        rfl
      rw [List.filterMap_cons_some hitem, List.map_cons,
        ih fun id' hid' => h id' (List.mem_cons_of_mem _ hid')]

/-- Reading one page again and again sweeps it each time. -/
theorem reads_page (htemp : w.NoTemp) (hL : 1 ≤ L)
    (hlive : ∃ id ∈ w.members u, w.hasHash id = true) (k n : Nat) (nonce : Nat → Uuid) :
    reads order cfg u L ((List.range n).map fun i => (nonce i, k * L)) w
      = (List.range n).map fun i => .ok ((shown w.hasHash (k * L) L
          ((sweep w.hasHash (k * L) L)^[i] (w.members u))).filterMap (itemOf w)) := by
  induction n generalizing w nonce with
  | zero => rfl
  | succ n ih =>
      have hexists : (w.feed u).exists = true := by
        obtain ⟨id, hid, -⟩ := hlive
        by_contra hno
        rw [members_eq_nil_iff.mpr (by simpa using hno)] at hid
        exact List.not_mem_nil hid
      have hmembers := members_swept w u (k * L) hL
      have hlive' : ∃ id ∈ (w.swept u (pageIds w u (k * L) L)).members u,
          (w.swept u (pageIds w u (k * L) L)).hasHash id = true := by
        obtain ⟨id, hid, hpost⟩ := hlive
        have hmem : id ∈ (w.members u).filter w.hasHash := List.mem_filter.mpr ⟨hid, hpost⟩
        rw [← filter_sweep (L := L) (k * L), ← hmembers] at hmem
        exact ⟨id, (List.mem_filter.mp hmem).1, hpost⟩
      have hnext := ih (noTemp_swept htemp u (pageIds w u (k * L) L)) hlive' fun i => nonce (i + 1)
      rw [List.range_succ_eq_map, List.map_cons, List.map_map, reads,
        readAt_of_exists htemp hL hexists, List.map_cons, List.map_map]
      congr 1
      refine hnext.trans (List.map_congr_left fun i _ => ?_)
      rw [hmembers]
      rfl

/-- After a rebuild a feed has the ids of the rows, each with a hash. -/
theorem mem_members_rebuilt (order : RowOrder) (cfg : Settings) (w : World) (u id : Uuid) :
    id ∈ (w.rebuilt u (rebuildRows order cfg w u)).members u
      ↔ ∃ r ∈ rebuildRows order cfg w u, r.id = id := by
  have hnodup : (((rebuildRows order cfg w u).map PostRow.entry).map Entry.member).Nodup := by
    rw [List.map_map]
    exact Database.recentFriendPosts_nodup w.db order u cfg.feedMaxSize
  simp only [World.members, World.feed_rebuilt, if_true, List.map_reverse, List.mem_reverse,
    List.mem_map, SortedSet.mem_addAll hnodup, SortedSet.not_mem_empty, false_and, or_false]
  constructor
  · rintro ⟨e, ⟨r, hr, rfl⟩, rfl⟩
    exact ⟨r, hr, rfl⟩
  · rintro ⟨r, hr, rfl⟩
    exact ⟨r.entry, ⟨r, hr, rfl⟩, rfl⟩

theorem posts_rebuilt {r : PostRow} (hr : r ∈ rebuildRows order cfg w u) :
    (w.rebuilt u (rebuildRows order cfg w u)).redis.posts r.id = some (rowToPostHash r) :=
  PointUpdate.writeAll_of_mem (Database.recentFriendPosts_nodup w.db order u cfg.feedMaxSize) hr

/-- A rebuild that finds posts shows some on the first page. -/
theorem readAt_rebuilt (hL : 1 ≤ L) (htemp : w.NoTemp) (hexists : (w.feed u).exists = false)
    (hrows : rebuildRows order cfg w u ≠ []) (nonce : Uuid) :
    ∃ items, items ≠ [] ∧ (readAt order cfg u L w (nonce, 0)).1 = .ok items := by
  have hopened : w.opened order cfg u = w.rebuilt u (rebuildRows order cfg w u) := by
    rw [World.opened, hexists]
    rfl
  rw [readAt, run_readFeed order cfg u nonce 0 L w (htemp.fresh u nonce), hopened]
  refine ⟨_, ?_, rfl⟩
  rw [pageIds_eq _ u 0 hL]
  have hmem := mem_members_rebuilt order cfg w u
  obtain ⟨r, hr⟩ := List.exists_mem_of_ne_nil _ hrows
  cases hmembers : (w.rebuilt u (rebuildRows order cfg w u)).members u with
  | nil =>
      have hid := (hmem r.id).mpr ⟨r, hr, rfl⟩
      rw [hmembers] at hid
      exact absurd hid List.not_mem_nil
  | cons id ids =>
      obtain ⟨q, hq, rfl⟩ := (hmem id).mp (by rw [hmembers]; exact List.mem_cons_self)
      have hitem : itemOf (w.rebuilt u (rebuildRows order cfg w u)) q.id
          = some ⟨q.id, q.text, q.authorId, none⟩ := by
        rw [itemOf, posts_rebuilt hq]
        rfl
      have hpage : page 0 L (q.id :: ids) = q.id :: ids.take (L - 1) := by
        rw [page, List.drop_zero, show L = L - 1 + 1 by omega, List.take_succ_cons]
        rfl
      rw [hpage, List.filterMap_cons_some hitem]
      exact List.cons_ne_nil _ _

/-- A feed of ghosts is read until it is gone, and then a rebuild brings posts back. -/
theorem reads_ghosts (hL : 1 ≤ L) (htemp : w.NoTemp)
    (hdead : ∀ id ∈ w.members u, w.hasHash id = false) (hrows : rebuildRows order cfg w u ≠ []) :
    ∃ n, ∀ nonce : Nat → Uuid, ∃ items, items ≠ [] ∧
      .ok items ∈ reads order cfg u L ((List.range n).map fun i => (nonce i, 0 * L)) w := by
  induction hn : (w.members u).length using Nat.strong_induction_on generalizing w with
  | _ n ih =>
      cases hexists : (w.feed u).exists with
      | false =>
          refine ⟨1, fun nonce => ?_⟩
          obtain ⟨items, hitems, hread⟩ := readAt_rebuilt hL htemp hexists hrows (nonce 0)
          refine ⟨items, hitems, ?_⟩
          rw [Nat.zero_mul, ← hread]
          exact List.mem_cons_self
      | true =>
          -- one page of ghosts less
          have hmembers := members_swept w u 0 hL
          rw [sweep, shown_of_dead hdead, List.take_zero, List.append_nil, List.nil_append, Nat.zero_add]
            at hmembers
          have hpos : 0 < (w.members u).length := by
            rw [List.length_pos_iff]
            intro hnil
            rw [members_eq_nil_iff.mp hnil] at hexists
            exact absurd hexists (by decide)
          obtain ⟨m, hm⟩ := ih ((w.swept u (pageIds w u 0 L)).members u).length
            (by rw [hmembers, List.length_drop]; omega) (noTemp_swept htemp u _)
            (fun id hid => hdead id (by rw [hmembers] at hid; exact List.mem_of_mem_drop hid))
            hrows rfl
          refine ⟨m + 1, fun nonce => ?_⟩
          obtain ⟨items, hitems, hmem⟩ := hm fun i => nonce (i + 1)
          refine ⟨items, hitems, ?_⟩
          rw [List.range_succ_eq_map, List.map_cons, List.map_map, reads,
            readAt_of_exists htemp hL hexists, Nat.zero_mul]
          refine List.mem_cons_of_mem _ ?_
          rw [Nat.zero_mul] at hmem
          exact hmem

/-- **Feeds read page by page without gaps or repetitions, and alike when a page is read again.**
They are those in which every ghost before a live post is on its page, and which a read does not
empty before a rebuild fills them. -/
theorem pagination_exact_iff (order : RowOrder) (cfg : Settings) (u : Uuid) (L : Nat) (w : World)
    (htemp : w.NoTemp) (hL : 1 ≤ L) (hexists : (w.feed u).exists = true) :
    PaginationExact order cfg u L w ↔
      DeadBeforeLiveOnPage w.hasHash L (w.members u) ∧
        ((∃ id ∈ w.members u, w.hasHash id = true) ∨ rebuildRows order cfg w u = []) := by
  constructor
  · rintro ⟨-, hagain⟩
    by_cases hlive : ∃ id ∈ w.members u, w.hasHash id = true
    · refine ⟨deadBeforeLiveOnPage_of_stable hL (nodup_members w u) fun k n => ?_, Or.inl hlive⟩
      obtain ⟨items, hitems⟩ := hagain (fun _ => u) k (n + 1)
      rw [reads_page htemp hL hlive] at hitems
      have hsame : ∀ i < n + 1, (shown w.hasHash (k * L) L
          ((sweep w.hasHash (k * L) L)^[i] (w.members u))).filterMap (itemOf w) = items := by
        intro i hi
        have hith := congrArg (fun l => l[i]?) hitems
        simp only [List.getElem?_map, List.getElem?_range hi, Option.map_some,
          List.getElem?_replicate, if_pos hi] at hith
        exact Except.ok.inj (Option.some.inj hith)
      -- the items of a page tell its ids
      have hids : ∀ M : List Uuid, ((shown w.hasHash (k * L) L M).filterMap (itemOf w)).map
          FeedItem.id = shown w.hasHash (k * L) L M := fun M =>
        map_id_filterMap_itemOf w _ fun id hid => (List.mem_filter.mp hid).2
      have hfirst := (hsame n (Nat.lt_succ_self n)).trans (hsame 0 (Nat.succ_pos n)).symm
      rw [← hids, hfirst, hids]
      rfl
    · push Not at hlive
      have hdead : ∀ id ∈ w.members u, w.hasHash id = false := fun id hid =>
        by simpa using hlive id hid
      refine ⟨fun i j a b _ _ hj _ hb => ?_, Or.inr ?_⟩
      · rw [hdead b (List.mem_of_getElem? hj)] at hb
        exact absurd hb (by decide)
      · by_contra hrows
        obtain ⟨n, hn⟩ := reads_ghosts hL htemp hdead hrows
        obtain ⟨items, hitems, hmem⟩ := hn fun _ => u
        obtain ⟨again, hagain⟩ := hagain (fun _ => u) 0 n
        rw [hagain] at hmem
        obtain ⟨hn0, hsame⟩ := List.mem_replicate.mp hmem
        obtain ⟨m, rfl⟩ := Nat.exists_eq_succ_of_ne_zero hn0
        -- the first read shows nothing
        rw [List.range_succ_eq_map, List.map_cons, reads, readAt_of_exists htemp hL hexists,
          List.replicate_succ] at hagain
        have hfirst := Except.ok.inj (List.cons.inj hagain).1
        rw [shown_of_dead hdead] at hfirst
        exact hitems ((Except.ok.inj hsame).trans hfirst.symm)
  · rintro ⟨hghosts, hstays⟩
    exact paginationExact_of_gathered htemp hL hghosts hstays

/-- Noon on a day of January 2024. -/
def noonOf (day : Nat) (h : 1 ≤ day ∧ day ≤ daysInMonth 2024 1) : DateTime :=
  { year := 2024, month := 1, day := day, hour := 12, minute := 0, second := 0, microsecond := 0
    month_range := january_range, day_range := h, minute_lt := zero_lt_sixty
    second_lt := zero_lt_sixty, microsecond_lt := zero_lt_million }

/-- A feed of one old post, and of one newer post that was deleted before its removal ran. -/
def ghostFeed (deleted : List (Entry DateTime Uuid)) : World where
  db := Database.ofUsers []
  redis :=
    { zsets := fun key =>
        if key = .feed (Uuid.ofNat 1) then
          SortedSet.empty.addAll (⟨noonOf 1 first_day, Uuid.ofNat 7⟩ :: deleted)
        else SortedSet.empty
      posts := fun id =>
        if id = Uuid.ofNat 7 then some ⟨"hi", Uuid.ofNat 2, "2024-01-01T00:00:00+00:00"⟩ else none
      celebrity := fun _ => none }
  stream := []
  published := []

/-- The database's order of rows with the same `created_at`: any. -/
def someOrder : RowOrder where
  sort rows := rows.insertionSort fun p q => q.createdAt ≤ p.createdAt
  perm rows := List.perm_insertionSort _ rows
  descending rows := List.pairwise_insertionSort _ rows

/-- The ghost goes with the first page, so that the post moves to the first rank and page 1 is
empty. -/
theorem ghostFeed_skips_post :
    ¬ PaginationExact someOrder {} (Uuid.ofNat 1) 1
      (ghostFeed [⟨noonOf 2 second_day, Uuid.ofNat 8⟩]) := by
  rintro ⟨hpages, -⟩
  obtain ⟨pages, hreads, hitems⟩ := hpages (fun _ => Uuid.ofNat 0) 2 (by decide)
  have hlost : reads someOrder {} (Uuid.ofNat 1) 1
      ((List.range 2).map fun k => (Uuid.ofNat 0, k * 1))
        (ghostFeed [⟨noonOf 2 second_day, Uuid.ofNat 8⟩]) = [.ok [], .ok []] := rfl
  rw [hlost] at hreads
  have hempty : pages = [[], []] := by
    have hinj : Function.Injective (Except.ok : List FeedItem → Except PyError (List FeedItem)) :=
      fun _ _ h => Except.ok.inj h
    have hmap : List.map (Except.ok : List FeedItem → Except PyError (List FeedItem)) [[], []]
        = pages.map Except.ok := hreads
    exact (hinj.list_map hmap).symm
  rw [hempty] at hitems
  exact absurd hitems (by decide)

/-- A feed of two full pages and a half: three posts with hashes, and two ids whose posts were deleted. -/
def mixedFeed : World where
  db := Database.ofUsers []
  redis :=
    { zsets := fun key =>
        if key = .feed (.ofNat 1) then
          SortedSet.empty.addAll [⟨noonOf 5 fifth_day, .ofNat 10⟩, ⟨noonOf 4 fourth_day, .ofNat 9⟩,
            ⟨noonOf 3 third_day, .ofNat 8⟩, ⟨noonOf 2 second_day, .ofNat 7⟩,
            ⟨noonOf 1 first_day, .ofNat 6⟩]
        else SortedSet.empty
      posts := fun id =>
        if id ∈ [Uuid.ofNat 10, .ofNat 9, .ofNat 7] then
          some ⟨"hi", .ofNat 2, "2024-01-01T00:00:00+00:00"⟩
        else none
      celebrity := fun _ => none }
  stream := []
  published := []

theorem mixedFeed_members : mixedFeed.members (.ofNat 1)
    = [.ofNat 10, .ofNat 9, .ofNat 8, .ofNat 7, .ofNat 6] := by
  decide +kernel

/-- Pages of two: the ghost on the second page stands before a live post of that page, the last one
before none. -/
theorem pagination_exact_mixedFeed : PaginationExact someOrder {} (.ofNat 1) 2 mixedFeed := by
  refine (pagination_exact_iff someOrder {} (.ofNat 1) 2 mixedFeed (fun _ _ => rfl) (by decide)
    (by decide +kernel)).mpr ⟨?_, Or.inl ⟨.ofNat 10, ?_, by decide +kernel⟩⟩
  · rw [mixedFeed_members]
    have hall : ∀ i < 5, ∀ j < 5, i < j →
        ∀ a ∈ ([.ofNat 10, .ofNat 9, .ofNat 8, .ofNat 7, .ofNat 6] : List Uuid)[i]?,
          ∀ b ∈ ([.ofNat 10, .ofNat 9, .ofNat 8, .ofNat 7, .ofNat 6] : List Uuid)[j]?,
            mixedFeed.hasHash a = false → mixedFeed.hasHash b = true → i / 2 = j / 2 := by
      decide +kernel
    intro i j a b hij ha hb
    have hj : j < 5 := (List.getElem?_eq_some_iff.mp hb).1
    exact hall i (hij.trans hj) j hj hij a ha b hb
  · rw [mixedFeed_members]
    exact List.mem_cons_self

end HighLoad.Feed
