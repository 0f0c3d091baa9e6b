/-
# HighLoad.Feed.Refinement — the feed cache refines the database

What the synchronous cache is for: a read shows the posts of the user's friends as they are in the
database. While no user's friends have more posts than fit into a feed it does, through any calls
(`read_feed_refines`). Without removals the feeds are the windows of the newest posts, however many
posts there are and in whatever order they came (`feeds_are_newest`). A removal leaves a gap in a window
that loses a post while another is left outside of it, unless the window loses all its posts: then the
next read finds no key and rebuilds the feed (`removal_refills_iff`).
-/
import HighLoad.Feed.Sequential
import HighLoad.Feed.Pagination

namespace HighLoad.Feed

open Prog TopN Paging

variable {order : RowOrder} {cfg : Settings} {w : World} {u : Uuid} {U : Set Uuid}

/-! ## The abstract feed -/

/-- Later, or at the same time with the greater id string. -/
def Newer (p q : PostRow) : Prop :=
  q.createdAt < p.createdAt ∨ (q.createdAt = p.createdAt ∧ q.id.str ≤ p.id.str)

instance : DecidableRel Newer := fun _ _ => inferInstanceAs (Decidable (_ ∨ (_ ∧ _)))

theorem newer_iff {p q : PostRow} : Newer p q ↔ q.entry ≤ p.entry := by
  have hid : q.id.str ≤ p.id.str ↔ q.id ≤ p.id := by
    rw [← not_lt, ← not_lt, Uuid.lt_iff_str_lt]
  rw [Newer, hid, Entry.le_def]
  rfl

instance : Std.Total Newer where
  total p q := by
    rw [newer_iff, newer_iff]
    exact le_total _ _

instance : IsTrans PostRow Newer where
  trans _ _ _ hpq hqr := newer_iff.mpr ((newer_iff.mp hqr).trans (newer_iff.mp hpq))

/-- The posts of a user's friends, newest first. -/
def sortedPosts (db : Database) (u : Uuid) : List PostRow :=
  (friendPosts db u).insertionSort Newer

/-- What a reader is shown of a post. -/
def itemOfRow (p : PostRow) : FeedItem := ⟨p.id, p.text, p.authorId, none⟩

theorem mem_sortedPosts {db : Database} {p : PostRow} :
    p ∈ sortedPosts db u ↔ p ∈ db.posts ∧ db.Follows u p.authorId := by
  rw [sortedPosts, List.mem_insertionSort, mem_friendPosts]

theorem length_sortedPosts (db : Database) (u : Uuid) :
    (sortedPosts db u).length = (friendPosts db u).length := List.length_insertionSort _ _

/-- A selection of the posts, sorted, descends strictly. -/
theorem sorted_descending (db : Database) (s : PostRow → Bool) :
    (((db.posts.filter s).insertionSort Newer).map PostRow.entry).Pairwise (· > ·) := by
  have hperm := List.perm_insertionSort Newer (db.posts.filter s)
  have hnodup : (((db.posts.filter s).insertionSort Newer).map PostRow.entry).Nodup := by
    rw [(hperm.map PostRow.entry).nodup_iff]
    exact nodup_entries (nodup_ids_filter db s)
  rw [List.pairwise_map]
  refine ((List.pairwise_insertionSort Newer (db.posts.filter s)).and
    (List.pairwise_map.mp hnodup)).imp fun {p q} h => ?_
  exact lt_of_le_of_ne (newer_iff.mp h.1) fun heq => h.2 heq.symm

theorem sortedPosts_descending (db : Database) (u : Uuid) :
    ((sortedPosts db u).map PostRow.entry).Pairwise (· > ·) :=
  sorted_descending db fun p => db.Follows u p.authorId

/-! ## What a read shows -/

/-- **A window, read from its end, is the top of the sorted posts.** -/
theorem Windowed.entries_reverse (h : Windowed cfg U w) (hu : u ∈ U) :
    (w.feed u).entries.reverse
      = ((sortedPosts w.db u).take cfg.feedMaxSize).map PostRow.entry := by
  have hsorted := sortedPosts_descending w.db u
  have htake : (((sortedPosts w.db u).take cfg.feedMaxSize).map PostRow.entry).Pairwise (· > ·) := by
    rw [List.map_take]
    exact hsorted.sublist (List.take_sublist _ _)
  refine SortedSet.reverse_entries_eq (htake.imp fun hgt => hgt.le)
    (htake.imp fun hgt => hgt.ne') fun e => ?_
  have hset : ((sortedPosts w.db u).map PostRow.entry).toFinset = entrySet (friendPosts w.db u) :=
    List.toFinset_eq_of_perm _ _
      ((List.perm_insertionSort Newer (friendPosts w.db u)).map PostRow.entry)
  rw [List.map_take, mem_take_iff_top hsorted, hset, ← List.mem_toFinset]
  have hfeed := h.feeds u hu
  unfold World.feedSet newest at hfeed
  rw [hfeed]

/-- **A read that opens a window** shows its page of posts, with their current texts. -/
theorem Windowed.read_opened (hopened : Windowed cfg U (w.opened order cfg u)) (hu : u ∈ U)
    (htemp : w.NoTemp) (nonce : Uuid) (offset : Nat) {limit : Nat} (hlimit : 1 ≤ limit) :
    ((readFeed cfg nonce u offset limit).run (exec order) w).1
      = .ok (((((sortedPosts w.db u).take cfg.feedMaxSize).drop offset).take limit).map
          itemOfRow) := by
  have hdb : (w.opened order cfg u).db = w.db := World.opened_db u
  have hmembers : (w.opened order cfg u).members u
      = ((sortedPosts w.db u).take cfg.feedMaxSize).map PostRow.id := by
    unfold World.members
    rw [hopened.entries_reverse hu, hdb, List.map_map]
    rfl
  rw [run_readFeed order cfg u nonce offset limit w (htemp.fresh u nonce),
    pageIds_eq _ u offset hlimit, hmembers, page, ← List.map_drop, ← List.map_take,
    List.filterMap_map]
  refine congrArg Except.ok ?_
  rw [← List.filterMap_eq_map]
  refine List.filterMap_congr fun p hp => ?_
  have hp' := mem_sortedPosts.mp
    (List.mem_of_mem_take (List.mem_of_mem_drop (List.mem_of_mem_take hp)))
  have hhash := hopened.hashes p (hdb ▸ hp'.1)
  show itemOf (w.opened order cfg u) p.id = some (itemOfRow p)
  rw [itemOf, hhash]
  rfl

theorem Windowed.read (order : RowOrder) (h : Windowed cfg U w) (hu : u ∈ U)
    (hfit : DistinctTimes w.db ∨ Roomy cfg w.db) (nonce : Uuid) (offset : Nat) {limit : Nat}
    (hlimit : 1 ≤ limit) :
    ((readFeed cfg nonce u offset limit).run (exec order) w).1
      = .ok (((((sortedPosts w.db u).take cfg.feedMaxSize).drop offset).take limit).map
          itemOfRow) :=
  (h.opened order u hfit).read_opened hu h.noTemp nonce offset hlimit

/-! ## Runs -/

theorem afterAll_append (w : World) (pre : List Call) (c : Call) :
    w.afterAll order cfg (pre ++ [c]) = (w.afterAll order cfg pre).after order cfg c := by
  simp [World.afterAll]

/-- The steps of a run are the first one and those of the rest. -/
theorem eq_of_prefix_cons {α : Type} {pre l : List α} {a b : α} (h : pre ++ [a] <+: b :: l) :
    (pre = [] ∧ a = b) ∨ ∃ pre', pre = b :: pre' ∧ pre' ++ [a] <+: l := by
  cases pre with
  | nil => exact Or.inl ⟨rfl, (List.cons_prefix_cons.mp h).1⟩
  | cons c pre =>
      obtain ⟨rfl, hrest⟩ := List.cons_prefix_cons.mp h
      exact Or.inr ⟨pre, rfl, hrest⟩

theorem eq_of_prefix_singleton {α : Type} {pre : List α} {a b : α} (h : pre ++ [a] <+: [b]) :
    pre = [] ∧ a = b := by
  rcases eq_of_prefix_cons h with hfirst | ⟨pre', -, hrest⟩
  · exact hfirst
  · exact absurd (List.prefix_nil.mp hrest) (by simp)

/-- When everything fits into the feeds, a removal keeps all windows. -/
theorem Windowed.shrink (hsync : Synchronous cfg) (h : Windowed cfg U w) {c : Call}
    (hc : c.grows = false) (hroomy : Roomy cfg w.db) : Windowed cfg U (w.after order cfg c) := by
  obtain ⟨hfeeds, hposts, htemp, hhashes⟩ := h.take order hsync hc
  refine
    { noTemp := htemp
      feeds := fun v hv => ?_
      hashes := fun p hp => (hhashes p hp).2 }
  have hroomy' : Roomy cfg (w.after order cfg c).db := by
    intro v
    rw [← card_friendPosts, hposts v]
    exact (Finset.card_filter_le _ _).trans ((card_friendPosts w.db v).trans_le (hroomy v))
  rw [hfeeds v hv, newest_of_roomy hroomy, newest_of_roomy hroomy', hposts v]

/-- **The run lemma.** -/
theorem Windowed.afterAll (order : RowOrder) (hsync : Synchronous cfg) (h : Windowed cfg U w)
    (calls : List Call) (hcalls : ∀ pre c, pre ++ [c] <+: calls →
      (c.grows = true ∧ (DistinctTimes (w.afterAll order cfg (pre ++ [c])).db ∨
          Roomy cfg (w.afterAll order cfg (pre ++ [c])).db)) ∨
        (c.grows = false ∧ Roomy cfg (w.afterAll order cfg pre).db)) :
    ∀ pre, pre <+: calls → Windowed cfg U (w.afterAll order cfg pre) := by
  intro pre
  induction pre using List.reverseRecOn with
  | nil => exact fun _ => h
  | append_singleton pre c ih =>
      intro hpre
      have hbefore := ih ((List.prefix_append pre [c]).trans hpre)
      have hc := hcalls pre c hpre
      rw [afterAll_append] at hc ⊢
      rcases hc with ⟨hgrows, hfit⟩ | ⟨htakes, hroomy⟩
      · exact hbefore.grow hsync hgrows hfit
      · exact hbefore.shrink hsync htakes hroomy

/-- **The synchronous cache refines the database.** While no user's friends have more posts than fit
into a feed, every read shows the page of their posts, newest first, with the current texts. -/
theorem read_feed_refines (order : RowOrder) (cfg : Settings) (hsync : Synchronous cfg)
    (users : List Uuid) (calls : List Call)
    (hroomy : ∀ pre, pre <+: calls → Roomy cfg ((World.ofUsers users).afterAll order cfg pre).db) :
    ∀ pre, pre <+: calls → ∀ (u nonce : Uuid) (offset limit : Nat), 1 ≤ limit →
      ((readFeed cfg nonce u offset limit).run (exec order)
          ((World.ofUsers users).afterAll order cfg pre)).1
        = .ok ((((sortedPosts ((World.ofUsers users).afterAll order cfg pre).db u).drop offset).take
            limit).map itemOfRow) := by
  intro pre hpre u nonce offset limit hlimit
  have hwindowed := (windowed_initial cfg Set.univ users).afterAll order hsync calls
    (fun pre c hpre => by
      cases hc : c.grows with
      | true => exact Or.inl ⟨rfl, Or.inr (hroomy _ hpre)⟩
      | false => exact Or.inr ⟨rfl, hroomy pre ((List.prefix_append pre [c]).trans hpre)⟩) pre hpre
  have hread := hwindowed.read order (Set.mem_univ u) (Or.inr (hroomy pre hpre)) nonce
    offset hlimit
  have hall := List.take_of_length_le ((length_sortedPosts _ u).trans_le (hroomy pre hpre u))
  rw [hall] at hread
  exact hread

/-- The calls of a run that only adds, with a new time for every post. -/
structure Growing (order : RowOrder) (cfg : Settings) (users : List Uuid) (calls : List Call) :
    Prop where
  grows : ∀ c ∈ calls, c.grows = true
  times : ∀ pre, pre <+: calls → DistinctTimes ((World.ofUsers users).afterAll order cfg pre).db

theorem Growing.windowed (hsync : Synchronous cfg) {users : List Uuid} {calls : List Call}
    (h : Growing order cfg users calls) {pre : List Call} (hpre : pre <+: calls) :
    Windowed cfg Set.univ ((World.ofUsers users).afterAll order cfg pre) := by
  refine (windowed_initial cfg Set.univ users).afterAll order hsync calls (fun pre c hpre => ?_) pre hpre
  have hmem : c ∈ calls := hpre.subset (List.mem_append_right _ List.mem_cons_self)
  exact Or.inl ⟨h.grows c hmem, Or.inl (h.times _ hpre)⟩

/-- **Without removals the feeds are the windows of the newest posts.** They depend on the posts and
the friendships, not on how these came about, and a rebuild changes no feed. -/
theorem feeds_are_newest (order : RowOrder) (cfg : Settings) (hsync : Synchronous cfg)
    (users : List Uuid) (calls : List Call) (h : Growing order cfg users calls) :
    (∀ pre, pre <+: calls → ∀ u,
      ((World.ofUsers users).afterAll order cfg pre).feedSet u
          = newest ((World.ofUsers users).afterAll order cfg pre).db u cfg.feedMaxSize ∧
        (((World.ofUsers users).afterAll order cfg pre).feedSet u).card
          = min cfg.feedMaxSize
            (friendPosts ((World.ofUsers users).afterAll order cfg pre).db u).length ∧
        ∀ nonce v, (((World.ofUsers users).afterAll order cfg pre).after order cfg
            (.rebuildFeed u nonce)).feed v
          = ((World.ofUsers users).afterAll order cfg pre).feed v) ∧
    ∀ (order' : RowOrder) (users' : List Uuid) (calls' : List Call),
      Growing order' cfg users' calls' →
      (∀ p, p ∈ ((World.ofUsers users).afterAll order cfg calls).db.posts ↔
        p ∈ ((World.ofUsers users').afterAll order' cfg calls').db.posts) →
      (∀ v a, ((World.ofUsers users).afterAll order cfg calls).db.Follows v a ↔
        ((World.ofUsers users').afterAll order' cfg calls').db.Follows v a) →
      ∀ u, ((World.ofUsers users).afterAll order cfg calls).feed u
        = ((World.ofUsers users').afterAll order' cfg calls').feed u := by
  constructor
  · intro pre hpre u
    have hwindowed := h.windowed hsync hpre
    have hfeed := hwindowed.feeds u (Set.mem_univ u)
    refine ⟨hfeed, ?_, fun nonce v => ?_⟩
    · rw [hfeed, card_newest]
    · rw [after_eq (run_rebuildFeed order cfg u nonce _ hwindowed.noTemp), feed_eq_iff]
      have hrebuilt := feedSet_rebuilt order cfg _ u (Or.inl (h.times pre hpre)) v
      refine hrebuilt.trans ?_
      by_cases hv : v = u
      · rw [if_pos hv, ← hfeed, hv]
        rfl
      · rw [if_neg hv]
        rfl
  · intro order' users' calls' h' hposts hfollows u
    have hfeed := (h.windowed hsync (List.prefix_refl calls)).feeds u (Set.mem_univ u)
    have hfeed' := (h'.windowed hsync (List.prefix_refl calls')).feeds u (Set.mem_univ u)
    rw [feed_eq_iff]
    refine hfeed.trans ((newest_congr ?_).trans hfeed'.symm)
    ext e
    simp only [mem_entrySet, mem_friendPosts, hposts, hfollows]

/-! ## Removals -/

variable {c : Call}

/-- The removal takes nothing out of the window of a user, or leaves nothing outside of it. -/
def Call.Spares (c : Call) (cfg : Settings) (db : Database) (v : Uuid) : Prop :=
  (∀ e ∈ newest db v cfg.feedMaxSize, ¬ c.Takes db v e) ∨
    ∀ e ∈ entrySet (friendPosts db v), ¬ c.Takes db v e → e ∈ newest db v cfg.feedMaxSize

/-- The removal takes everything out of the window of a user. -/
def Call.Empties (c : Call) (cfg : Settings) (db : Database) (v : Uuid) : Prop :=
  ∀ e ∈ newest db v cfg.feedMaxSize, c.Takes db v e

instance (cfg : Settings) (db : Database) (v : Uuid) : Decidable (c.Spares cfg db v) :=
  inferInstanceAs (Decidable ((∀ e ∈ newest db v cfg.feedMaxSize, ¬ c.Takes db v e) ∨
    ∀ e ∈ entrySet (friendPosts db v), ¬ c.Takes db v e → e ∈ newest db v cfg.feedMaxSize))

instance (cfg : Settings) (db : Database) (v : Uuid) : Decidable (c.Empties cfg db v) :=
  inferInstanceAs (Decidable (∀ e ∈ newest db v cfg.feedMaxSize, c.Takes db v e))

/-- A window that a removal spares stays exact. -/
theorem Windowed.spared (order : RowOrder) (hsync : Synchronous cfg) (h : Windowed cfg U w)
    (hc : c.grows = false) :
    Windowed cfg {v | v ∈ U ∧ c.Spares cfg w.db v} (w.after order cfg c) := by
  obtain ⟨hfeeds, hposts, htemp, hhashes⟩ := h.take order hsync hc
  refine
    { noTemp := htemp
      feeds := ?_
      hashes := fun p hp => (hhashes p hp).2 }
  rintro v ⟨hvU, hspares⟩
  rw [hfeeds v hvU, newest, newest, hposts v]
  exact filter_top_eq_iff.mpr hspares

/-- A window that a removal spares or empties is exact once it is opened. -/
theorem Windowed.refilled (order : RowOrder) (hsync : Synchronous cfg) (h : Windowed cfg U w)
    (hc : c.grows = false) (hu : u ∈ U) (htimes : DistinctTimes (w.after order cfg c).db)
    (hrefills : c.Spares cfg w.db u ∨ c.Empties cfg w.db u) :
    Windowed cfg {u} ((w.after order cfg c).opened order cfg u) := by
  have hopened := (h.spared order hsync hc).opened order u (Or.inl htimes)
  refine ⟨hopened.noTemp, ?_, hopened.hashes⟩
  rintro v rfl
  rcases hrefills with hspares | hempties
  · exact hopened.feeds v ⟨hu, hspares⟩
  · -- an empty set has no key, so the read rebuilds the feed
    have hnone : (w.after order cfg c).feedSet v = ∅ := by
      rw [(h.take order hsync hc).1 v hu]
      exact Finset.filter_eq_empty_iff.mpr fun e he => not_not.mpr (hempties e he)
    have habsent : ¬ ((w.after order cfg c).feed v).exists = true := by
      rw [SortedSet.exists_iff]
      rintro ⟨e, he⟩
      exact absurd (hnone ▸ List.mem_toFinset.mpr he) (Finset.notMem_empty e)
    have hrebuilt := feedSet_rebuilt order cfg (w.after order cfg c) v (Or.inl htimes) v
    rw [if_pos rfl] at hrebuilt
    unfold World.opened
    rw [if_neg habsent]
    exact hrebuilt

/-- A window with a gap: a read shows fewer posts than there are. -/
theorem Windowed.read_gap (order : RowOrder) (hsync : Synchronous cfg) (h : Windowed cfg U w)
    (hcap : 1 ≤ cfg.feedMaxSize) (hc : c.grows = false) (hu : u ∈ U)
    (hgap : ¬ (c.Spares cfg w.db u ∨ c.Empties cfg w.db u)) (nonce : Uuid) :
    ((readFeed cfg nonce u 0 cfg.feedMaxSize).run (exec order) (w.after order cfg c)).1
      ≠ .ok (((sortedPosts (w.after order cfg c).db u).take cfg.feedMaxSize).map itemOfRow) := by
  obtain ⟨hfeeds, hposts, htemp, -⟩ := h.take order hsync hc
  unfold Call.Spares Call.Empties at hgap
  push Not at hgap
  obtain ⟨⟨⟨e, he, hlost⟩, f, hf, hleft, hout⟩, g, hg, hkept⟩ := hgap
  -- something is left in the window, so the read does not rebuild it
  have hexists : ((w.after order cfg c).feed u).exists = true := by
    refine SortedSet.exists_iff.mpr ⟨g, List.mem_toFinset.mp ?_⟩
    show g ∈ (w.after order cfg c).feedSet u
    rw [hfeeds u hu]
    exact Finset.mem_filter.mpr ⟨hg, hkept⟩
  have hopened : (w.after order cfg c).opened order cfg u = w.after order cfg c := if_pos hexists
  have hshort : ((w.after order cfg c).members u).length
      < ((sortedPosts (w.after order cfg c).db u).take cfg.feedMaxSize).length := by
    have hmembers : ((w.after order cfg c).members u).length
        = ((w.after order cfg c).feedSet u).card := by
      unfold World.members World.feedSet
      rw [List.length_map, List.length_reverse, List.toFinset_card_of_nodup (SortedSet.nodup _)]
    have hall : ((sortedPosts (w.after order cfg c).db u).take cfg.feedMaxSize).length
        = (newest (w.after order cfg c).db u cfg.feedMaxSize).card := by
      rw [List.length_take, length_sortedPosts, card_newest]
    rw [hmembers, hall, hfeeds u hu, newest, newest, hposts u]
    exact card_filter_top_lt he (not_not.mpr hlost) hf hleft hout
  rw [run_readFeed order cfg u nonce 0 cfg.feedMaxSize _ (htemp.fresh u nonce), hopened,
    pageIds_eq _ u 0 hcap, page, List.drop_zero]
  intro hread
  have hlength := congrArg List.length (Except.ok.inj hread)
  rw [List.length_map] at hlength
  have hle := (List.length_filterMap_le (itemOf (w.after order cfg c))
    (((w.after order cfg c).members u).take cfg.feedMaxSize)).trans (List.length_take_le' _ _)
  omega

/-- **When removals refill the windows.** A removal takes its posts out of the feeds. The next read of a
feed shows the newest posts exactly when its window lost none, or none is left outside of it, or all of it
is gone, so that the read rebuilds it; then it shows them after whatever is added, too. A window that was
spared shows them without that read. -/
theorem removal_refills_iff (order : RowOrder) (cfg : Settings) (hsync : Synchronous cfg)
    (hcap : 1 ≤ cfg.feedMaxSize) (w : World) (h : Windowed cfg Set.univ w) (c : Call)
    (hc : c.grows = false) (htimes : DistinctTimes (w.after order cfg c).db) :
    (∀ v, (w.after order cfg c).feedSet v
      = (newest w.db v cfg.feedMaxSize).filter fun e => ¬ c.Takes w.db v e) ∧
    ∀ v nonce,
      (((readFeed cfg nonce v 0 cfg.feedMaxSize).run (exec order) (w.after order cfg c)).1
          = .ok (((sortedPosts (w.after order cfg c).db v).take cfg.feedMaxSize).map itemOfRow) ↔
        c.Spares cfg w.db v ∨ c.Empties cfg w.db v) ∧
      ∀ first : World,
        (first = ((readFeed cfg nonce v 0 cfg.feedMaxSize).run (exec order) (w.after order cfg c)).2 ∧
            (c.Spares cfg w.db v ∨ c.Empties cfg w.db v) ∨
          first = w.after order cfg c ∧ c.Spares cfg w.db v) →
        ∀ later : List Call, (∀ d ∈ later, d.grows = true) →
          (∀ pre, pre <+: later → DistinctTimes (first.afterAll order cfg pre).db) →
          ∀ pre, pre <+: later → ∀ nonce',
            ((readFeed cfg nonce' v 0 cfg.feedMaxSize).run (exec order) (first.afterAll order cfg pre)).1
              = .ok (((sortedPosts (first.afterAll order cfg pre).db v).take cfg.feedMaxSize).map
                  itemOfRow) := by
  have htemp := (h.take order hsync hc).2.2.1
  refine ⟨fun v => (h.take order hsync hc).1 v (Set.mem_univ v), fun v nonce => ⟨⟨fun hread => ?_, ?_⟩, ?_⟩⟩
  · by_contra hgap
    exact h.read_gap order hsync hcap hc (Set.mem_univ v) hgap nonce hread
  · intro hrefills
    have hread := (h.refilled order hsync hc (Set.mem_univ v) htimes hrefills).read_opened
      (Set.mem_singleton v) htemp nonce 0 hcap
    rw [List.drop_zero, List.take_take, Nat.min_self] at hread
    exact hread
  · intro first hfirst later hlater htimes' pre hpre nonce'
    have hwindowed : Windowed cfg {v} first := by
      rcases hfirst with ⟨rfl, hrefills⟩ | ⟨rfl, hspares⟩
      · rw [run_readFeed order cfg v nonce 0 cfg.feedMaxSize _ (htemp.fresh v nonce)]
        exact (h.refilled order hsync hc (Set.mem_univ v) htimes hrefills).swept v _
      · have hspared := h.spared order hsync hc
        refine ⟨hspared.noTemp, ?_, hspared.hashes⟩
        rintro u rfl
        exact hspared.feeds u ⟨Set.mem_univ u, hspares⟩
    have hthen := hwindowed.afterAll order hsync later
      (fun pre d hpre => Or.inl ⟨hlater d (hpre.subset (List.mem_append_right _ List.mem_cons_self)),
        Or.inl (htimes' _ hpre)⟩) pre hpre
    have hread := hthen.read order (Set.mem_singleton v) (Or.inl (htimes' pre hpre)) nonce' 0 hcap
    rw [List.drop_zero, List.take_take, Nat.min_self] at hread
    exact hread

/-! ## Three posts -/

/-- User 1 adds user 2, who writes three posts on three days. -/
def threePosts : List Call :=
  [.setFriend (.ofNat 1) (.ofNat 2),
    .createPost (.ofNat 2) "a" (.ofNat 11) (noonOf 1 first_day),
    .createPost (.ofNat 2) "b" (.ofNat 12) (noonOf 2 second_day),
    .createPost (.ofNat 2) "c" (.ofNat 13) (noonOf 3 third_day)]

/-- Feeds of two posts. -/
def twoPostFeeds : Settings := { feedMaxSize := 2 }

theorem twoPostFeeds_synchronous : Synchronous twoPostFeeds where
  transport := by decide
  fanout := rfl

instance (db : Database) : Decidable (DistinctTimes db) :=
  inferInstanceAs (Decidable (∀ p ∈ db.posts, ∀ q ∈ db.posts, p.createdAt = q.createdAt → p = q))

theorem threePosts_times : ∀ pre ∈ threePosts.inits, DistinctTimes
    ((World.ofUsers [.ofNat 1, .ofNat 2]).afterAll someOrder twoPostFeeds pre).db := by
  decide +kernel

theorem threePosts_growing : Growing someOrder twoPostFeeds [.ofNat 1, .ofNat 2] threePosts where
  grows := by decide
  times pre hpre := threePosts_times pre ((List.mem_inits pre threePosts).mpr hpre)

theorem feeds_are_newest_threePosts :
    ((World.ofUsers [.ofNat 1, .ofNat 2]).afterAll someOrder twoPostFeeds threePosts).feedSet
        (.ofNat 1)
      = newest ((World.ofUsers [.ofNat 1, .ofNat 2]).afterAll someOrder twoPostFeeds threePosts).db
        (.ofNat 1) 2 :=
  ((feeds_are_newest someOrder twoPostFeeds twoPostFeeds_synchronous _ _ threePosts_growing).1
    threePosts (List.prefix_refl _) (.ofNat 1)).1

theorem roomy_of_length_le {db : Database} (h : db.posts.length ≤ cfg.feedMaxSize) : Roomy cfg db :=
  fun _ => (List.length_filter_le _ _).trans h

theorem threePosts_length : ∀ pre ∈ threePosts.inits,
    ((World.ofUsers [.ofNat 1, .ofNat 2]).afterAll someOrder {} pre).db.posts.length ≤ 1000 := by
  decide +kernel

theorem read_feed_refines_threePosts :
    ((readFeed {} (.ofNat 0) (.ofNat 1) 1 1).run (exec someOrder)
        ((World.ofUsers [.ofNat 1, .ofNat 2]).afterAll someOrder {} threePosts)).1
      = .ok ((((sortedPosts ((World.ofUsers [.ofNat 1, .ofNat 2]).afterAll someOrder {}
          threePosts).db (.ofNat 1)).drop 1).take 1).map itemOfRow) :=
  read_feed_refines someOrder {} ⟨by decide, rfl⟩ [.ofNat 1, .ofNat 2] threePosts
    (fun pre hpre => roomy_of_length_le
      (threePosts_length pre ((List.mem_inits pre threePosts).mpr hpre)))
    threePosts (List.prefix_refl _) (.ofNat 1) (.ofNat 0) 1 1 (by decide)

/-- Deleting the newest of three posts leaves one in a feed that has room for two. -/
theorem removal_leaves_gap :
    ¬ ∀ (cfg : Settings) (w : World), Synchronous cfg → 1 ≤ cfg.feedMaxSize → DistinctTimes w.db →
      Windowed cfg Set.univ w → ∀ c : Call, c.grows = false → ∀ v nonce : Uuid,
        ((readFeed cfg nonce v 0 cfg.feedMaxSize).run (exec someOrder)
            (w.after someOrder cfg c)).1
          = .ok (((sortedPosts (w.after someOrder cfg c).db v).take cfg.feedMaxSize).map
              itemOfRow) := by
  intro h
  have hread := h twoPostFeeds
    ((World.ofUsers [.ofNat 1, .ofNat 2]).afterAll someOrder twoPostFeeds threePosts)
    twoPostFeeds_synchronous (by decide) (threePosts_growing.times threePosts (List.prefix_refl _))
    (threePosts_growing.windowed twoPostFeeds_synchronous (List.prefix_refl _))
    (.deletePost (.ofNat 2) (.ofNat 13) (noonOf 4 fourth_day)) rfl (.ofNat 1) (.ofNat 0)
  revert hread
  decide +kernel

/-- User 1 adds users 2 and 3; the window of two is filled by user 2, a post of user 3 is left outside. -/
def crowdedOut : List Call :=
  [.setFriend (.ofNat 1) (.ofNat 2), .setFriend (.ofNat 1) (.ofNat 3),
    .createPost (.ofNat 3) "x" (.ofNat 21) (noonOf 1 first_day),
    .createPost (.ofNat 2) "a" (.ofNat 11) (noonOf 2 second_day),
    .createPost (.ofNat 2) "b" (.ofNat 12) (noonOf 3 third_day)]

def crowdedWorld : World :=
  (World.ofUsers [.ofNat 1, .ofNat 2, .ofNat 3]).afterAll someOrder twoPostFeeds crowdedOut

theorem crowdedOut_times : ∀ pre ∈ crowdedOut.inits, DistinctTimes
    ((World.ofUsers [.ofNat 1, .ofNat 2, .ofNat 3]).afterAll someOrder twoPostFeeds pre).db := by
  decide +kernel

theorem crowdedOut_growing :
    Growing someOrder twoPostFeeds [.ofNat 1, .ofNat 2, .ofNat 3] crowdedOut where
  grows := by decide
  times pre hpre := crowdedOut_times pre ((List.mem_inits pre crowdedOut).mpr hpre)

/-- User 1 gives user 2 up and reads the feed, which is rebuilt; a new post of user 3 comes on top. -/
def rereadWorld : World :=
  ((readFeed twoPostFeeds (.ofNat 0) (.ofNat 1) 0 2).run (exec someOrder)
    (crowdedWorld.after someOrder twoPostFeeds (.deleteFriend (.ofNat 1) (.ofNat 2)))).2

def nextPost : List Call := [.createPost (.ofNat 3) "y" (.ofNat 22) (noonOf 4 fourth_day)]

theorem nextPost_times : ∀ pre ∈ nextPost.inits,
    DistinctTimes (rereadWorld.afterAll someOrder twoPostFeeds pre).db := by
  decide +kernel

theorem removal_refills_iff_crowdedOut :
    ((readFeed twoPostFeeds (.ofNat 0) (.ofNat 1) 0 2).run (exec someOrder)
        (crowdedWorld.after someOrder twoPostFeeds (.deleteFriend (.ofNat 1) (.ofNat 2)))).1
      = .ok (((sortedPosts (crowdedWorld.after someOrder twoPostFeeds
          (.deleteFriend (.ofNat 1) (.ofNat 2))).db (.ofNat 1)).take 2).map itemOfRow) ∧
    ((readFeed twoPostFeeds (.ofNat 0) (.ofNat 1) 0 2).run (exec someOrder)
        (rereadWorld.afterAll someOrder twoPostFeeds nextPost)).1
      = .ok (((sortedPosts (rereadWorld.afterAll someOrder twoPostFeeds nextPost).db (.ofNat 1)).take
          2).map itemOfRow) := by
  have hrefills := (removal_refills_iff someOrder twoPostFeeds twoPostFeeds_synchronous (by decide)
    crowdedWorld (crowdedOut_growing.windowed twoPostFeeds_synchronous (List.prefix_refl _))
    (.deleteFriend (.ofNat 1) (.ofNat 2)) rfl (by decide +kernel)).2 (.ofNat 1) (.ofNat 0)
  have hempties : Call.Empties (.deleteFriend (.ofNat 1) (.ofNat 2)) twoPostFeeds crowdedWorld.db
      (.ofNat 1) := by
    decide +kernel
  exact ⟨hrefills.1.mpr (Or.inr hempties),
    hrefills.2 rereadWorld (Or.inl ⟨rfl, Or.inr hempties⟩) nextPost (by decide)
      (fun pre hpre => nextPost_times pre ((List.mem_inits pre nextPost).mpr hpre)) nextPost
      (List.prefix_refl _) (.ofNat 0)⟩

end HighLoad.Feed
