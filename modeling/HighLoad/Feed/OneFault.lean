/-
# HighLoad.Feed.OneFault — runs in which one Redis command fails

A handler runs alone, and one Redis command of its choice raises: the commands before it took effect,
it and those it was sent with after it did not. A rebuild is all or nothing under such a fault
(`rebuild_all_or_nothing`). A deletion is not: its retry raises 404 before it reaches Redis, so that
what the first call left behind stays (`retried_deletion_iff`).
-/
import HighLoad.Feed.Refinement
import HighLoad.Lib.Faults

namespace HighLoad.Feed

open Prog TopN

variable {order : RowOrder} {cfg : Settings} {w : World} {u : Uuid}

/-! ## Faults -/

/-- The commands that the fault may hit: those of Redis, except the DELETE that cleans up after a
rebuild. -/
def Command.CanFail : {β : Type} → Command β → Bool
  | _, .insertPost _ _ _ _ => false
  | _, .updatePost _ _ _ => false
  | _, .deletePost _ _ => false
  | _, .userExists _ => false
  | _, .insertFriendship _ _ => false
  | _, .deleteFriendship _ _ => false
  | _, .selectFollowers _ => false
  | _, .selectFriends _ => false
  | _, .countFollowers _ => false
  | _, .groupFollowers _ => false
  | _, .selectPosts _ _ => false
  | _, .selectFriendPosts _ _ => false
  | _, .deleteZset (.rebuild _ _) => false
  | _, _ => true

def redisDown : PyError := .redisError "Connection lost"

/-- The stores, with the number of Redis commands that still succeed; `none` when no fault is to
come. -/
abbrev Faulty := Option Nat × World

/-- The stores with the fault: the command it hits raises and has no effect. -/
def faulty (order : RowOrder) : Service Command PyError Faulty := fun _ c s =>
  if c.CanFail = true ∧ s.1 = some 0 then (.error redisDown, (none, s.2))
  else
    match exec order _ c s.2 with
    | .ok r => (.ok r.1, (if c.CanFail then s.1.map (· - 1) else s.1, r.2))
    | .error e => (.error e, (if c.CanFail then s.1.map (· - 1) else s.1, s.2))

/-- A statement of the database is not hit. -/
theorem perform_sql {β : Type} {c : Command β} {b : β} {w' : World} (hc : c.CanFail = false)
    (hexec : exec order β c w = .ok (b, w')) (k : Option Nat) :
    (call c : Py β).perform (faulty order) (k, w) = (.ok b, (k, w')) := by
  rw [perform_call]
  simp [faulty, hc, hexec]

theorem perform_hit {β : Type} {c : Command β} (hc : c.CanFail = true) (w : World) :
    (call c : Py β).perform (faulty order) (some 0, w) = (.error redisDown, (none, w)) := by
  rw [perform_call]
  simp [faulty, hc]

theorem perform_spared {β : Type} {c : Command β} {b : β} {w' : World} (hc : c.CanFail = true)
    (hexec : exec order β c w = .ok (b, w')) {k : Option Nat} (hk : k ≠ some 0) :
    (call c : Py β).perform (faulty order) (k, w) = (.ok b, (k.map (· - 1), w')) := by
  rw [perform_call]
  simp [faulty, hc, hk, hexec]

/-- **A pipeline under the fault**: a prefix of its commands takes effect and it raises, or all of them
do and the fault is still to come. -/
theorem perform_pipeline_faulty {cs : List (Command Unit)} (hcs : ∀ c ∈ cs, c.CanFail = true)
    (hraises : ∀ c ∈ cs, NeverRaises order c) (k : Option Nat) (w : World) :
    (∃ n, n < cs.length ∧ k = some n ∧
      (pipeline cs : Py _).perform (faulty order) (k, w)
        = (.error redisDown, (none, (cs.take n).foldl (effect order) w))) ∨
    ((∀ n, k = some n → cs.length ≤ n) ∧
      (pipeline cs : Py _).perform (faulty order) (k, w)
        = (.ok (cs.map fun _ => ()), (k.map (· - cs.length), cs.foldl (effect order) w))) := by
  induction cs generalizing k w with
  | nil =>
      refine Or.inr ⟨fun n _ => Nat.zero_le n, ?_⟩
      cases k <;> rfl
  | cons c cs ih =>
      have hc := hcs c List.mem_cons_self
      by_cases hk : k = some 0
      · subst hk
        refine Or.inl ⟨0, Nat.succ_pos _, rfl, ?_⟩
        exact perform_bind_of_error (perform_hit hc w)
      · have hfirst := perform_spared hc (hraises c List.mem_cons_self w) hk
        have hbind : (pipeline (c :: cs) : Py _).perform (faulty order) (k, w)
            = (pipeline cs >>= fun bs => ret (() :: bs) : Py _).perform (faulty order)
              (k.map (· - 1), effect order w c) := perform_bind_of_ok hfirst
        rcases ih (fun d hd => hcs d (List.mem_cons_of_mem c hd))
          (fun d hd => hraises d (List.mem_cons_of_mem c hd)) (k.map (· - 1)) (effect order w c) with
          ⟨n, hn, hkn, hrest⟩ | ⟨hall, hrest⟩
        · obtain ⟨m, rfl, hm⟩ := Option.map_eq_some_iff.mp hkn
          have hpos : m ≠ 0 := fun hzero => hk (by rw [hzero])
          refine Or.inl ⟨m, ?_, rfl, ?_⟩
          · rw [List.length_cons]
            omega
          · rw [hbind, perform_bind_of_error hrest, show m = n + 1 by omega]
            rfl
        · refine Or.inr ⟨fun m hkm => ?_, ?_⟩
          · subst hkm
            have hpos : m ≠ 0 := fun hzero => hk (by rw [hzero])
            have hle := hall (m - 1) rfl
            rw [List.length_cons]
            omega
          · rw [hbind, perform_bind_of_ok hrest]
            cases k with
            | none => rfl
            | some m =>
                show (_, (some (m - 1 - cs.length), _)) = (_, (some (m - (cs.length + 1)), _))
                rw [Nat.sub_sub, Nat.add_comm 1]
                rfl

/-! ## Rebuilding a feed -/

/-- Sorted sets other than `key` are as they were. -/
def SameZsets (key : FeedKey) (w w' : World) : Prop :=
  w'.db = w.db ∧ ∀ k, k ≠ key → w'.redis.zsets k = w.redis.zsets k

/-- The commands that fill a sorted set leave the others alone. -/
theorem sameZsets_cacheRow {key : FeedKey} {rows : List PostRow} {cs : List (Command Unit)}
    (hcs : ∀ c ∈ cs, c ∈ rows.flatMap (cacheRow key)) (w : World) :
    SameZsets key w (cs.foldl (effect order) w) := by
  induction cs generalizing w with
  | nil => exact ⟨rfl, fun k _ => rfl⟩
  | cons c cs ih =>
      obtain ⟨hdb, hrest⟩ := ih (fun d hd => hcs d (List.mem_cons_of_mem c hd)) (effect order w c)
      have hc := hcs c List.mem_cons_self
      obtain ⟨row, -, hc⟩ := List.mem_flatMap.mp hc
      simp only [cacheRow, List.mem_cons, List.not_mem_nil, or_false] at hc
      have hfirst : SameZsets key w (effect order w c) := by
        rcases hc with rfl | rfl | rfl
        · exact ⟨rfl, fun k hk => Function.update_of_ne hk _ _⟩
        · exact ⟨rfl, fun k _ => rfl⟩
        · exact ⟨rfl, fun k _ => rfl⟩
      exact ⟨hdb.trans hfirst.1, fun k hk => (hrest k hk).trans (hfirst.2 k hk)⟩

/-- The exceptional and the normal end of filling the temporary key and renaming it. -/
theorem perform_swapFeed {userId nonce : Uuid} {rows : List PostRow} (hrows : rows ≠ [])
    (htemp : w.redis.zsets (.rebuild userId nonce) = SortedSet.empty) (k : Option Nat) :
    (∃ w', k ≠ none ∧ (swapFeed userId nonce rows).perform (faulty order) (k, w)
        = (.error redisDown, (none, w')) ∧ SameZsets (.rebuild userId nonce) w w') ∨
      ∃ k', (swapFeed userId nonce rows).perform (faulty order) (k, w)
        = (.ok (), (k', w.rebuilt userId rows)) := by
  unfold swapFeed
  have hcan : ∀ c ∈ rows.flatMap (cacheRow (.rebuild userId nonce)), c.CanFail = true := by
    intro c hc
    obtain ⟨row, -, hc⟩ := List.mem_flatMap.mp hc
    simp only [cacheRow, List.mem_cons, List.not_mem_nil, or_false] at hc
    rcases hc with rfl | rfl | rfl <;> rfl
  rcases perform_pipeline_faulty hcan neverRaises_cacheRow k w with ⟨n, -, rfl, hrun⟩ | ⟨-, hrun⟩
  · refine Or.inl ⟨_, Option.some_ne_none n, perform_bind_of_error hrun, ?_⟩
    exact sameZsets_cacheRow (fun c hc => List.mem_of_mem_take hc) w
  · rw [World.foldl_cacheRow] at hrun
    rw [perform_bind_of_ok hrun]
    generalize hk₁ : k.map (· - (rows.flatMap (cacheRow (.rebuild userId nonce))).length) = k₁
    by_cases hk : k₁ = some 0
    · subst hk
      obtain ⟨n, rfl, -⟩ := Option.map_eq_some_iff.mp hk₁
      refine Or.inl ⟨_, Option.some_ne_none n, perform_hit rfl _, ?_⟩
      exact ⟨rfl, fun key hkey => Function.update_of_ne hkey _ _⟩
    · exact Or.inr ⟨_, perform_spared rfl (exec_rename_cacheRows hrows htemp) hk⟩

/-- A rebuild under the fault: there is one to come, it raises and leaves all sorted sets as they were,
or it returns and has put the rows that it selected into the feed. -/
theorem perform_rebuildFeedForUser (order : RowOrder) (cfg : Settings) (userId nonce : Uuid)
    (k : Option Nat) (w : World)
    (htemp : w.redis.zsets (.rebuild userId nonce) = SortedSet.empty) :
    (∃ k' w', k ≠ none ∧ (rebuildFeedForUser cfg userId nonce).perform (faulty order) (k, w)
        = (.error redisDown, (k', w')) ∧ w'.db = w.db ∧ w'.redis.zsets = w.redis.zsets) ∨
      ∃ k', (rebuildFeedForUser cfg userId nonce).perform (faulty order) (k, w)
        = (.ok (rebuildRows order cfg w userId).length,
          (k', w.rebuilt userId (rebuildRows order cfg w userId))) := by
  unfold rebuildFeedForUser
  have hselect : (call (.selectFriendPosts userId cfg.feedMaxSize) : Py _).perform (faulty order)
      (k, w) = (.ok (rebuildRows order cfg w userId), (k, w)) := perform_sql rfl rfl k
  rw [perform_bind_of_ok hselect]
  generalize rebuildRows order cfg w userId = rows
  by_cases hempty : rows.isEmpty = true
  · obtain rfl := List.isEmpty_iff.mp hempty
    rw [if_pos hempty]
    by_cases hk : k = some 0
    · subst hk
      exact Or.inl ⟨_, _, Option.some_ne_none 0, perform_bind_of_error (perform_hit rfl w), rfl, rfl⟩
    · have hdelete : (call (.deleteZset (.feed userId)) : Py Unit).perform (faulty order) (k, w)
          = (.ok (), (k.map (· - 1), w.modifyZset (.feed userId) fun _ => SortedSet.empty)) :=
        perform_spared rfl rfl hk
      exact Or.inr ⟨_, perform_bind_of_ok hdelete⟩
  · rw [if_neg hempty]
    have hrows : rows ≠ [] := fun hnil => hempty (List.isEmpty_iff.mpr hnil)
    have hclean : ∀ s : Faulty, (call (.deleteZset (.rebuild userId nonce)) : Py Unit).perform
        (faulty order) s = (.ok (), (s.1, s.2.modifyZset (.rebuild userId nonce)
          fun _ => SortedSet.empty)) := fun s => perform_sql rfl rfl s.1
    have hfinally := perform_tryFinally hclean (swapFeed userId nonce rows) (k, w)
    rcases perform_swapFeed hrows htemp k with ⟨w', hfault, hrun, hdb, hsame⟩ | ⟨k', hrun⟩
    · rw [hrun] at hfinally
      refine Or.inl ⟨_, _, hfault, perform_bind_of_error hfinally, hdb, funext fun key => ?_⟩
      by_cases hkey : key = .rebuild userId nonce
      · rw [hkey, htemp]
        simp [World.modifyZset]
      · exact (Function.update_of_ne hkey _ _).trans (hsame key hkey)
    · rw [hrun] at hfinally
      have hgone : (w.rebuilt userId rows).modifyZset (.rebuild userId nonce)
          (fun _ => SortedSet.empty) = w.rebuilt userId rows := by
        refine World.ext rfl (Redis.ext (funext fun key => ?_) rfl rfl) rfl rfl
        by_cases hkey : key = .rebuild userId nonce
        · subst hkey
          simp [World.modifyZset, World.rebuilt, htemp]
        · simp [World.modifyZset, hkey]
      simp only [hgone] at hfinally
      exact Or.inr ⟨_, perform_bind_of_ok hfinally⟩

theorem length_rebuildRows (order : RowOrder) (cfg : Settings) (w : World) (u : Uuid) :
    (rebuildRows order cfg w u).length = min cfg.feedMaxSize (friendPosts w.db u).length := by
  have hrows : w.db.joinFriends u = friendPosts w.db u := Database.joinFriends_eq w.db u
  rw [rebuildRows, Database.recentFriendPosts, List.length_take, (order.perm _).length_eq, hrows]

theorem newest_min (db : Database) (u : Uuid) (n : Nat) :
    newest db u (min n (friendPosts db u).length) = newest db u n := by
  rcases Nat.le_total n (friendPosts db u).length with hle | hle
  · rw [Nat.min_eq_left hle]
  · rw [Nat.min_eq_right hle, newest, newest, top_eq_self (card_friendPosts db u).le,
      top_eq_self ((card_friendPosts db u).trans_le hle)]

/-- **A rebuild is all or nothing, and exact.** Whichever Redis command fails, or none: if the call
raises, all sorted sets are as before, the temporary one gone; if it returns `n`, the feed is the window
of the `n` newest posts, their hashes are their rows, and no other sorted set changed. Then a second
rebuild, faulty or not, changes no sorted set. -/
theorem rebuild_all_or_nothing (order : RowOrder) (cfg : Settings) (w : World) (u nonce : Uuid)
    (k : Option Nat) (htimes : DistinctTimes w.db)
    (htemp : w.redis.zsets (.rebuild u nonce) = SortedSet.empty) :
    ∃ r k' w', (rebuildFeedForUser cfg u nonce).perform (faulty order) (k, w) = (r, (k', w')) ∧
      w'.db = w.db ∧ w'.redis.zsets (.rebuild u nonce) = SortedSet.empty ∧
      (∀ e, r = .error e → ∀ key, w'.redis.zsets key = w.redis.zsets key) ∧
      (k = none → ∃ n, r = .ok n) ∧
      ∀ n, r = .ok n →
        n = min cfg.feedMaxSize (friendPosts w.db u).length ∧
        w'.feedSet u = newest w.db u n ∧
        (w'.feedSet u).card = n ∧
        (n = 0 → (w'.feed u).exists = false) ∧
        (∀ p ∈ w.db.posts, p.entry ∈ newest w.db u n →
          w'.redis.posts p.id = some (rowToPostHash p)) ∧
        (∀ key, key ≠ .feed u → w'.redis.zsets key = w.redis.zsets key) ∧
        ∀ (nonce' : Uuid) (k₂ : Option Nat), w'.redis.zsets (.rebuild u nonce') = SortedSet.empty →
          ∀ key, ((rebuildFeedForUser cfg u nonce').perform (faulty order)
            (k₂, w')).2.2.redis.zsets key = w'.redis.zsets key := by
  rcases perform_rebuildFeedForUser order cfg u nonce k w htemp with
    ⟨k', w', hfault, hrun, hdb, hsame⟩ | ⟨k', hrun⟩
  · refine ⟨_, k', w', hrun, hdb, by rw [hsame, htemp], fun _ _ key => by rw [hsame],
      fun hnone => absurd hnone hfault, fun n hn => ?_⟩
    exact absurd hn (by simp)
  · refine ⟨_, k', _, hrun, rfl, ?_, fun e he => absurd he (by simp), fun _ => ⟨_, rfl⟩, ?_⟩
    · simp [World.rebuilt, htemp]
    · intro n hn
      obtain rfl := Except.ok.inj hn
      have hn := length_rebuildRows order cfg w u
      have hfeed : (w.rebuilt u (rebuildRows order cfg w u)).feedSet u
          = newest w.db u cfg.feedMaxSize := by
        rw [feedSet_rebuilt order cfg w u (Or.inl htimes), if_pos rfl]
      have hcard : ((w.rebuilt u (rebuildRows order cfg w u)).feedSet u).card
          = (rebuildRows order cfg w u).length := by
        rw [hfeed, card_newest, hn]
      refine ⟨hn, ?_, hcard, ?_, ?_, ?_, ?_⟩
      · rw [hfeed, hn, newest_min]
      · intro hzero
        rw [hzero, Finset.card_eq_zero] at hcard
        rw [SortedSet.not_exists_iff, feed_eq_iff]
        exact hcard
      · intro p hp hmem
        rw [hn, newest_min] at hmem
        have hrow : p.entry ∈ entrySet (rebuildRows order cfg w u) := by
          rw [rebuildRows, entrySet_recentFriendPosts _ (Or.inl htimes)]
          exact hmem
        obtain ⟨q, hq, hentry⟩ := mem_entrySet.mp hrow
        have hqp := entry_inj (Database.mem_recentFriendPosts_of_mem hq).1 hp hentry
        rw [← hqp]
        exact posts_rebuilt hq
      · exact fun key hkey => Function.update_of_ne hkey _ _
      · intro nonce' k₂ htemp' key
        rcases perform_rebuildFeedForUser order cfg u nonce' k₂
          (w.rebuilt u (rebuildRows order cfg w u)) htemp' with
          ⟨k'', w'', -, hrun', -, hsame⟩ | ⟨k'', hrun'⟩
        · rw [hrun', hsame]
        · rw [hrun']
          by_cases hkey : key = .feed u
          · subst hkey
            show (World.feed _ u) = World.feed _ u
            rw [feed_eq_iff]
            have hagain := feedSet_rebuilt order cfg (w.rebuilt u (rebuildRows order cfg w u)) u
              (Or.inl htimes) u
            rw [if_pos rfl] at hagain
            exact hagain.trans hfeed.symm
          · exact Function.update_of_ne hkey _ _

/-- The temporary key is filled and the RENAME fails; the rebuild without a fault returns. -/
theorem rebuild_all_or_nothing_lateFault :
    (∃ r k' w', (rebuildFeedForUser {} (.ofNat 1) (.ofNat 0)).perform (faulty someOrder)
        (some 9, (World.ofUsers [.ofNat 1, .ofNat 2]).afterAll someOrder {} threePosts)
          = (r, (k', w')) ∧
      w'.redis.zsets (.rebuild (.ofNat 1) (.ofNat 0)) = SortedSet.empty) ∧
    ∃ n k' w', (rebuildFeedForUser {} (.ofNat 1) (.ofNat 0)).perform (faulty someOrder)
        (none, (World.ofUsers [.ofNat 1, .ofNat 2]).afterAll someOrder {} threePosts)
          = (.ok n, (k', w')) ∧ (w'.feedSet (.ofNat 1)).card = n := by
  have htimes : DistinctTimes ((World.ofUsers [.ofNat 1, .ofNat 2]).afterAll someOrder {}
      threePosts).db := by
    decide +kernel
  obtain ⟨r, k', w', hrun, -, htemp, -⟩ := rebuild_all_or_nothing someOrder {}
    ((World.ofUsers [.ofNat 1, .ofNat 2]).afterAll someOrder {} threePosts) (.ofNat 1) (.ofNat 0)
    (some 9) htimes rfl
  obtain ⟨r₀, k₀, w₀, hrun₀, -, -, -, hreturns, hexact⟩ := rebuild_all_or_nothing someOrder {}
    ((World.ofUsers [.ofNat 1, .ofNat 2]).afterAll someOrder {} threePosts) (.ofNat 1) (.ofNat 0)
    none htimes rfl
  obtain ⟨n, rfl⟩ := hreturns rfl
  exact ⟨⟨r, k', w', hrun, htemp⟩, n, k₀, w₀, hrun₀, (hexact n rfl).2.2.1⟩

/-! ## Deleting a post -/

/-- A `delete_post` of a post by its author, with its fault. -/
def World.deleteFaulty (order : RowOrder) (cfg : Settings) (p : PostRow) (w : World)
    (call : Option Nat × DateTime) : World :=
  ((deletePost cfg p.authorId p.id call.2).perform (faulty order) (call.1, w)).2.2

/-- No read of any feed returns the post. -/
def NeverRead (order : RowOrder) (cfg : Settings) (w : World) (id : Uuid) : Prop :=
  ∀ (v nonce : Uuid) (offset limit : Nat) (items : List FeedItem), w.Fresh v nonce →
    ((readFeed cfg nonce v offset limit).run (exec order) w).1 = .ok items →
      ∀ i ∈ items, i.id ≠ id

/-- Removing a post from feeds touches neither the tables nor the hashes. -/
theorem foldl_zrem {cs : List (Command Unit)} {id : Uuid}
    (hcs : ∀ c ∈ cs, ∃ v, c = .zrem (.feed v) [id]) (w : World) :
    (cs.foldl (effect order) w).db = w.db ∧
      (cs.foldl (effect order) w).redis.posts = w.redis.posts := by
  induction cs generalizing w with
  | nil => exact ⟨rfl, rfl⟩
  | cons c cs ih =>
      obtain ⟨v, rfl⟩ := hcs c List.mem_cons_self
      exact ih (fun d hd => hcs d (List.mem_cons_of_mem _ hd)) (effect order w (.zrem (.feed v) [id]))

/-- What the removal from the feeds leaves, wherever it stops. -/
theorem perform_removePostFromAllFeeds (order : RowOrder) (postId authorId : Uuid) (k : Option Nat)
    (w : World) :
    ((removePostFromAllFeeds postId authorId).perform (faulty order) (k, w)).2.2.db = w.db ∧
      ((removePostFromAllFeeds postId authorId).perform (faulty order) (k, w)).2.2.redis.posts
        = w.redis.posts := by
  unfold removePostFromAllFeeds getFollowers
  have hselect : (call (.selectFollowers authorId) : Py _).perform (faulty order) (k, w)
      = (.ok (w.db.followers authorId), (k, w)) := perform_sql rfl rfl k
  rw [perform_bind_of_ok hselect]
  generalize w.db.followers authorId = followers
  by_cases hempty : followers.isEmpty = true
  · rw [if_pos hempty]
    exact ⟨rfl, rfl⟩
  · rw [if_neg hempty]
    have hzrem : ∀ c ∈ followers.map fun f => Command.zrem (.feed f) [postId],
        ∃ v, c = .zrem (.feed v) [postId] := by
      intro c hc
      obtain ⟨v, -, rfl⟩ := List.mem_map.mp hc
      exact ⟨v, rfl⟩
    have hcan : ∀ c ∈ followers.map fun f => Command.zrem (.feed f) [postId], c.CanFail = true := by
      intro c hc
      obtain ⟨v, rfl⟩ := hzrem c hc
      rfl
    have hraises : ∀ c ∈ followers.map fun f => Command.zrem (.feed f) [postId],
        NeverRaises order c := by
      intro c hc
      obtain ⟨v, rfl⟩ := hzrem c hc
      exact fun _ => rfl
    rcases perform_pipeline_faulty hcan hraises k w with ⟨n, -, -, hrun⟩ | ⟨-, hrun⟩
    · rw [perform_bind_of_error hrun]
      exact foldl_zrem (fun c hc => hzrem c (List.mem_of_mem_take hc)) w
    · rw [perform_bind_of_ok hrun]
      exact foldl_zrem hzrem w

/-- The statement that every `delete_post` starts with. -/
theorem perform_deleteRow (order : RowOrder) (w : World) (p : PostRow) (k : Option Nat) :
    (call (.deletePost p.id p.authorId) : Py _).perform (faulty order) (k, w)
      = (.ok (w.db.deletePost p.id p.authorId).1,
        (k, w.withDb (w.db.deletePost p.id p.authorId).2)) := perform_sql rfl rfl k

theorem deletePost_some {p : PostRow} (hp : p ∈ w.db.posts) :
    ∃ q, (w.db.deletePost p.id p.authorId).1 = some q := by
  rcases w.db.deletePost_cases p.id p.authorId with ⟨hnone, -⟩ | ⟨q, -, -, -, hsome⟩
  · exact absurd (List.find?_eq_none.mp hnone p hp) (by simp)
  · exact ⟨q, hsome⟩

/-- A first call that is hit at the DELETE of the hash deletes the row and nothing else. -/
theorem deleteFaulty_hit {p : PostRow} (hp : p ∈ w.db.posts) (now : DateTime) :
    w.deleteFaulty order cfg p (some 0, now) = w.withDb (w.db.deletePost p.id p.authorId).2 := by
  obtain ⟨q, hrow⟩ := deletePost_some hp
  have hdelete := perform_deleteRow order w p (some 0)
  rw [hrow] at hdelete
  unfold World.deleteFaulty deletePost
  rw [perform_bind_of_ok hdelete]
  have hhash : (deletePostHash p.id).perform (faulty order)
      (some 0, w.withDb (w.db.deletePost p.id p.authorId).2)
        = (.error redisDown, (none, w.withDb (w.db.deletePost p.id p.authorId).2)) := perform_hit rfl _
  show (((deletePostHash p.id >>= fun _ => _ : Py Response)).perform (faulty order) _).2.2 = _
  rw [perform_bind_of_error hhash]

/-- A first call that is hit later deletes the row and the hash. -/
theorem deleteFaulty_late (order : RowOrder) (hsync : Synchronous cfg) {p : PostRow} (hp : p ∈ w.db.posts)
    {k : Option Nat} (hk : k ≠ some 0) (now : DateTime) :
    (w.deleteFaulty order cfg p (k, now)).db = (w.db.deletePost p.id p.authorId).2 ∧
      (w.deleteFaulty order cfg p (k, now)).redis.posts p.id = none := by
  obtain ⟨q, hrow⟩ := deletePost_some hp
  have hdelete := perform_deleteRow order w p k
  rw [hrow] at hdelete
  unfold World.deleteFaulty deletePost
  rw [perform_bind_of_ok hdelete]
  have hhash : (deletePostHash p.id).perform (faulty order)
      (k, w.withDb (w.db.deletePost p.id p.authorId).2)
        = (.ok (), (k.map (· - 1),
          (w.withDb (w.db.deletePost p.id p.authorId).2).setPost p.id none)) :=
    perform_spared rfl rfl hk
  have hannounce : announceDeleted cfg p.authorId p.id now
      = removePostFromAllFeeds p.id p.authorId := by
    unfold announceDeleted
    rw [if_neg hsync.transport, hsync.fanout]
    rfl
  show ((((deletePostHash p.id >>= fun _ => _ : Py Response)).perform (faulty order) _).2.2).db = _ ∧ _
  rw [perform_bind_of_ok hhash, hannounce]
  obtain ⟨hdb, hposts⟩ := perform_removePostFromAllFeeds order p.id p.authorId
    (k.map (· - 1)) ((w.withDb (w.db.deletePost p.id p.authorId).2).setPost p.id none)
  have hend : ∀ x : Except PyError Unit × Faulty,
      (resume (faulty order) (fun _ => (pure .ok : Py Response)) x).2 = x.2 := by
    rintro ⟨r, s⟩
    cases r <;> rfl
  rw [perform_bind, hend]
  refine ⟨hdb, ?_⟩
  rw [hposts]
  exact Function.update_self _ _ _

/-- A retry finds no row and raises before it reaches Redis. -/
theorem deleteFaulty_again {p : PostRow} (hgone : ∀ q ∈ w.db.posts, q.id ≠ p.id)
    (call : Option Nat × DateTime) : w.deleteFaulty order cfg p call = w := by
  have hdelete := perform_deleteRow order w p call.1
  rcases w.db.deletePost_cases p.id p.authorId with ⟨hnone, hsame⟩ | ⟨q, hq, hid, -, -⟩
  · rw [hnone, hsame] at hdelete
    unfold World.deleteFaulty deletePost
    rw [perform_bind_of_ok hdelete]
    rfl
  · exact absurd hid (hgone q hq)

theorem foldl_deleteFaulty_again {p : PostRow} (hgone : ∀ q ∈ w.db.posts, q.id ≠ p.id)
    (retries : List (Option Nat × DateTime)) :
    retries.foldl (World.deleteFaulty order cfg p) w = w := by
  induction retries with
  | nil => rfl
  | cons call retries ih => rw [List.foldl_cons, deleteFaulty_again hgone, ih]

/-- A post without a row is not read when it has no hash, or is in no feed. -/
theorem neverRead_of {id : Uuid} (hgone : ∀ q ∈ w.db.posts, q.id ≠ id)
    (h : w.redis.posts id = none ∨ ∀ v, ∀ e ∈ (w.feed v).entries, e.member ≠ id) :
    NeverRead order cfg w id := by
  intro v nonce offset limit items htemp hread
  rw [run_readFeed order cfg v nonce offset limit w htemp] at hread
  obtain rfl := Except.ok.inj hread
  exact shown_ne hgone h v offset limit

/-- A post with a hash that is in a feed is read from it. -/
theorem not_neverRead {id v : Uuid} {post : PostHash}
    (hpost : w.redis.posts id = some post) {e : Entry DateTime Uuid} (he : e ∈ (w.feed v).entries)
    (hid : e.member = id) : ¬ NeverRead order cfg w id := by
  intro h
  have hexists : (w.feed v).exists = true := SortedSet.exists_iff.mpr ⟨e, he⟩
  have hopened : w.opened order cfg v = w := by rw [World.opened, if_pos hexists]
  have htemp : w.Fresh v v := fun habsent => absurd hexists (Bool.eq_false_iff.mp habsent)
  have hread := run_readFeed order cfg v v 0 (w.members v).length w htemp
  have hpos : 1 ≤ (w.members v).length := by
    unfold World.members
    rw [List.length_map, List.length_reverse]
    exact List.length_pos_of_mem he
  rw [hopened, pageIds_eq w v 0 hpos, Paging.page, List.drop_zero, List.take_length] at hread
  have hitem : itemOf w id = some ⟨id, post.text, post.authorId, none⟩ := by
    rw [itemOf, hpost]
    rfl
  have hmember : id ∈ w.members v := by
    unfold World.members
    rw [← hid]
    exact List.mem_map_of_mem (List.mem_reverse.mpr he)
  have hmem := List.mem_filterMap.mpr ⟨id, hmember, hitem⟩
  exact h v v 0 (w.members v).length _ htemp (by rw [hread]) _ hmem rfl

/-- **A failed deletion can be completed by retrying exactly when the fault came behind the DELETE of
the hash**, or there is no hash, or no feed has the post. -/
theorem retried_deletion_iff (order : RowOrder) (cfg : Settings) (hsync : Synchronous cfg) (w : World)
    (p : PostRow) (hp : p ∈ w.db.posts) (k : Nat) (now last : DateTime)
    (retries : List (Option Nat × DateTime)) :
    NeverRead order cfg ((((some k, now) :: retries) ++ [(none, last)]).foldl
        (World.deleteFaulty order cfg p) w) p.id ↔
      (k = 0 → w.redis.posts p.id = none ∨ ∀ v, ∀ e ∈ (w.feed v).entries, e.member ≠ p.id) := by
  have hgone : ∀ q ∈ (w.db.deletePost p.id p.authorId).2.posts, q.id ≠ p.id := fun q hq =>
    ((Database.mem_deletePost_of_mem hp rfl rfl).mp hq).2
  rw [List.cons_append, List.foldl_cons]
  by_cases hk : k = 0
  · subst hk
    rw [deleteFaulty_hit hp, foldl_deleteFaulty_again hgone]
    constructor
    · intro h _
      by_contra hno
      rw [not_or] at hno
      obtain ⟨post, hpost⟩ := Option.ne_none_iff_exists'.mp hno.1
      obtain ⟨v, hv⟩ := not_forall.mp hno.2
      push Not at hv
      obtain ⟨e, he, hid⟩ := hv
      exact not_neverRead (w := w.withDb (w.db.deletePost p.id p.authorId).2) hpost he hid h
    · exact fun h => neverRead_of (w := w.withDb (w.db.deletePost p.id p.authorId).2) hgone
        (h rfl)
  · have hk' : some k ≠ some 0 := fun heq => hk (Option.some.inj heq)
    obtain ⟨hdb, hposts⟩ := deleteFaulty_late order hsync hp hk' now
    have hgone' : ∀ q ∈ (w.deleteFaulty order cfg p (some k, now)).db.posts, q.id ≠ p.id := by
      rw [hdb]
      exact hgone
    rw [foldl_deleteFaulty_again hgone']
    exact ⟨fun _ hzero => absurd hzero hk, fun _ => neverRead_of hgone' (Or.inl hposts)⟩

/-- The newest of `threePosts`. -/
def thirdPost : PostRow := ⟨.ofNat 13, .ofNat 2, "c", noonOf 3 third_day⟩

theorem thirdPost_mem : thirdPost ∈ ((World.ofUsers [.ofNat 1, .ofNat 2]).afterAll someOrder {}
    threePosts).db.posts := by
  decide +kernel

/-- The first call is hit at the DELETE of the hash; its repetition finds no row, and the follower
still reads the post. -/
theorem hashFault_defeats_retry :
    ¬ ∀ (cfg : Settings) (w : World) (p : PostRow), Synchronous cfg → p ∈ w.db.posts →
      ∀ (k : Nat) (now last : DateTime) (retries : List (Option Nat × DateTime)),
        NeverRead someOrder cfg ((((some k, now) :: retries) ++ [(none, last)]).foldl
          (World.deleteFaulty someOrder cfg p) w) p.id := by
  intro h
  have hnever := h {} ((World.ofUsers [.ofNat 1, .ofNat 2]).afterAll someOrder {} threePosts)
    thirdPost ⟨by decide, rfl⟩ thirdPost_mem 0 (noonOf 4 fourth_day) (noonOf 5 fifth_day) []
  have hread := hnever (.ofNat 1) (.ofNat 0) 0 1 [⟨.ofNat 13, "c", .ofNat 2, none⟩]
    (fun _ => rfl) rfl
  exact hread _ List.mem_cons_self rfl

theorem retried_deletion_iff_lateFault :
    NeverRead someOrder {} ([(some 1, noonOf 4 fourth_day), (none, noonOf 5 fifth_day)].foldl
      (World.deleteFaulty someOrder {} thirdPost)
        ((World.ofUsers [.ofNat 1, .ofNat 2]).afterAll someOrder {} threePosts)) (.ofNat 13) :=
  (retried_deletion_iff someOrder {} ⟨by decide, rfl⟩ _ thirdPost thirdPost_mem 1
    (noonOf 4 fourth_day) (noonOf 5 fifth_day) []).mpr fun h => absurd h (by decide)

end HighLoad.Feed
