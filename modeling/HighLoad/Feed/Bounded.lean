/-
# HighLoad.Feed.Bounded — feeds stay within their size, and temporary keys go

Whoever adds to a feed trims it before it ends, and whoever builds a feed under a temporary key deletes
that key in a `finally` block. With other calls and workers in between, neither shows a feed of the right
size at any moment of its own; but a thread that leaves a feed too long owes a trim, so no feed is too
long once nothing runs, and no temporary key is left then (`feeds_bounded`).

RENAME puts a temporary key in the place of a feed without a trim. What it holds has at most as many
entries as its thread has selected rows, since no other thread has the nonce (`budgeted_concurrently`).
-/
import HighLoad.Feed.Concurrent
import HighLoad.Feed.Pagination
import HighLoad.Lib.Debts

namespace HighLoad.Feed

open Prog

variable {order : RowOrder} {cfg : Settings} {w : World} {u v n : Uuid}

/-! ## What a command does to one sorted set -/

/-- Only its target can grow. -/
theorem length_zset_le (order : RowOrder) {β : Type} {c : Command β} {key : FeedKey}
    (hc : c.target ≠ some key) (w : World) : (((exec order).issue c w).2.redis.zsets key).entries.length
      ≤ (w.redis.zsets key).entries.length := by
  have hmodify : ∀ (k : FeedKey) (f : FeedSet → FeedSet),
      (∀ z : FeedSet, (f z).entries.length ≤ z.entries.length) →
      ((w.modifyZset k f).redis.zsets key).entries.length ≤ (w.redis.zsets key).entries.length := by
    intro k f hf
    rw [zsets_modifyZset]
    split_ifs with hkey
    · rw [hkey]
      exact hf _
    · exact le_refl _
  cases c with
  | zadd k t id =>
      have hne : key ≠ k := fun h => hc (by rw [h]; rfl)
      show ((w.modifyZset k _).redis.zsets key).entries.length ≤ _
      rw [zsets_modifyZset, if_neg hne]
  | zrem k ids => exact hmodify k _ fun z => z.length_removeAll_le ids
  | zremrangebyrank k start stop => exact hmodify k _ fun z => z.length_removeRangeByRank_le start stop
  | deleteZset k => exact hmodify k _ fun z => Nat.zero_le _
  | rename source target =>
      have hne : key ≠ target := fun h => hc (by rw [h]; rfl)
      simp only [Handler.issue, exec]
      split_ifs
      · rw [zsets_modifyZset]
        split_ifs
        · exact Nat.zero_le _
        · rw [zsets_modifyZset, if_neg hne]
      · exact le_refl _
  | insertPost author text id now =>
      simp only [Handler.issue, exec]
      cases w.db.insertPost author text id now <;> exact le_refl _
  | insertFriendship user friend =>
      simp only [Handler.issue, exec]
      cases w.db.insertFriendship user friend <;> exact le_refl _
  | _ => exact le_refl _

theorem target_of_writesTables {β : Type} {c : Command β} (hc : c.writesTables = true) :
    c.target = none := by
  cases c <;> first | rfl | cases hc

/-! ## Temporary keys -/

/-- The temporary key is absent. -/
def World.Absent (w : World) (key : FeedKey) : Prop := (w.redis.zsets key).entries = []

theorem keeps_absent {β : Type} {c : Command β} {key : FeedKey} (hc : c.target ≠ some key) :
    (exec order).Keeps (fun _ => True) (World.Absent · key) c := by
  intro w _ hw
  have hle := length_zset_le order hc w
  rw [show (w.redis.zsets key).entries = [] from hw] at hle
  exact List.length_eq_zero_iff.mp (Nat.le_zero.mp hle)

theorem restores_absent (key : FeedKey) :
    (exec order).Restores (fun _ => True) (World.Absent · key) (.deleteZset key) := by
  intro w _
  show ((w.modifyZset key fun _ => SortedSet.empty).redis.zsets key).entries = []
  rw [zsets_modifyZset, if_pos rfl]
  rfl

theorem compositional_honest (order : RowOrder) (I J : World → Prop)
    (hkeeps : ∀ {β : Type} {c : Command β}, c.target = none → (exec order).Keeps I J c) :
    Compositional order fun _ p => p.Honest (exec order) I J where
  plain hp := honest_of_within (hp.mono (fun _ _ hc => hkeeps hc.2) fun _ hr => hr)
  bind hp hk := hp.bind hk

/-- A single command without a target. -/
theorem honest_call {I J : World → Prop} {β : Type} {c : Command β}
    (hkeeps : (exec order).Keeps I J c) : (call c : Py β).Honest (exec order) I J :=
  honest_of_within (within_attempt hkeeps)

theorem honest_rebuild_absent (v m : Uuid) :
    (rebuildFeedForUser cfg v m).Honest (exec order) (fun _ => True)
      (World.Absent · (.rebuild u n)) := by
  have hkeeps : ∀ {β : Type} {c : Command β}, c.target = none →
      (exec order).Keeps (fun _ => True) (World.Absent · (.rebuild u n)) c := by
    intro β c hc
    refine keeps_absent ?_
    rw [hc]
    exact nofun
  by_cases hkey : FeedKey.rebuild v m = .rebuild u n
  · -- the key is deleted in the `finally` block
    unfold rebuildFeedForUser
    refine (honest_call (hkeeps rfl)).bind fun rows => ?_
    split
    · exact (honest_call (hkeeps rfl)).bind fun _ => trivial
    · refine Honest.bind ?_ fun _ => trivial
      rw [hkey]
      exact honest_tryFinally (owes_call (restores_absent _)) (honest_call (hkeeps rfl))
  · refine honest_of_within (within_rebuildFeedForUser (fun _ _ hc => hkeeps hc.2) v m ?_ ?_)
    · intro t id
      exact keeps_absent fun h => hkey (Option.some.inj h)
    · refine keeps_absent ?_
      rintro ⟨⟩

/-- Every thread deletes the temporary keys it fills. -/
theorem concurrently_honest_absent {calls : List Call} {deliveries : List Delivery} {w : World}
    (key : FeedKey) (hkey : ∀ v, key ≠ .feed v) (i : Nat) (q : Py Response)
    (hq : (concurrently cfg calls deliveries w).threads[i]? = some q) :
    q.Honest (exec order) (fun _ => True) (World.Absent · key) := by
  obtain ⟨u, n, rfl⟩ : ∃ u n, key = .rebuild u n := by
    cases key with
    | feed v => exact absurd rfl (hkey v)
    | rebuild u n => exact ⟨u, n, rfl⟩
  have hX := compositional_honest order (fun _ => True) (World.Absent · (.rebuild u n))
    fun hc => keeps_absent (by rw [hc]; exact nofun)
  have hfeed : ∀ (v : Uuid) t id, (exec order).Keeps (fun _ => True) (World.Absent · (.rebuild u n))
      (.zadd (.feed v) t id) := fun v t id => keeps_absent nofun
  have hplain : ∀ β (c : Command β), Plain β c → (exec order).Keeps (fun _ => True)
      (World.Absent · (.rebuild u n)) c := fun β c hc => keeps_absent (by rw [hc.2]; exact nofun)
  have hfanOut : ∀ postId authorId createdAt,
      (fanOutPost cfg postId authorId createdAt).Honest (exec order) (fun _ => True)
        (World.Absent · (.rebuild u n)) := fun _ _ _ =>
    honest_of_within (within_fanOutPost hplain _ _ _ hfeed)
  obtain ⟨c, -, rfl⟩ | ⟨-, d, -, rfl⟩ := concurrently_thread hq
  · refine hX.callProgram hfanOut c (fun hc => honest_call ?_) (fun userId friendId => ?_)
      fun userId nonce _ => honest_rebuild_absent userId nonce
    · exact keeps_absent (by rw [target_of_writesTables hc]; exact nofun)
    · exact honest_of_within (within_addFriendPostsToFeed hplain _ _ (hfeed userId))
  · exact hX.deliveryProgram hfanOut d

/-! ## What the temporary keys hold -/

/-- The number of entries under the temporary key. -/
def World.built (key : FeedKey) (w : World) : Nat := (w.redis.zsets key).entries.length

/-- How many entries a command adds to a sorted set by itself. -/
def Command.adds {β : Type} : Command β → Nat
  | .zadd _ _ _ => 1
  | _ => 0

theorem sum_adds_cacheRow (key : FeedKey) (rows : List PostRow) :
    ((rows.flatMap (cacheRow key)).map Command.adds).sum = rows.length := by
  induction rows with
  | nil => rfl
  | cons row rows ih =>
      rw [List.flatMap_cons, List.map_append, List.sum_append, ih]
      exact Nat.add_comm 1 rows.length

theorem built_cacheRow (order : RowOrder) (key : FeedKey) (rows : List PostRow) :
    ∀ c ∈ rows.flatMap (cacheRow key), ∀ w,
      World.built key ((exec order).issue c w).2 ≤ World.built key w + c.adds := by
  refine cacheRow_only (P := fun _ c => ∀ w,
    World.built key ((exec order).issue c w).2 ≤ World.built key w + c.adds) ?_ ?_ ?_
  · intro t id w
    show ((w.modifyZset key _).redis.zsets key).entries.length ≤ _
    rw [zsets_modifyZset, if_pos rfl]
    exact SortedSet.length_add_le _ t id
  · exact fun id m w => le_refl _
  · exact fun id m w => le_refl _

theorem compositional_spends (order : RowOrder) (key : FeedKey) :
    Compositional order fun _ p => p.Spends (exec order) (World.built key) 0 where
  plain hp := spends_of_within (hp.mono (fun _ c hc w => length_zset_le order (by rw [hc.2]; exact nofun) w)
    fun _ hr => hr)
  bind hp hk := hp.bind hk

/-- What the rebuild of a feed may add under the temporary key. -/
def Settings.rebuildCost (cfg : Settings) (key other : FeedKey) : Nat :=
  if other = key then cfg.feedMaxSize else 0

/-- A rebuild adds as many entries as the rows it selects. -/
theorem spends_rebuildFeedForUser (order : RowOrder) (cfg : Settings) {key : FeedKey}
    (hkey : ∀ v, key ≠ .feed v) (v m : Uuid) :
    (rebuildFeedForUser cfg v m).Spends (exec order) (World.built key)
      (cfg.rebuildCost key (.rebuild v m)) := by
  have hquiet : ∀ {β : Type} {c : Command β}, c.target ≠ some key → ∀ w,
      World.built key ((exec order).issue c w).2 ≤ World.built key w := fun hc w => length_zset_le order hc w
  have hrename : (Command.rename (.rebuild v m) (.feed v)).target ≠ some key := fun h =>
    hkey v (Option.some.inj h).symm
  have hcall : ∀ {c : Command Unit}, c.target ≠ some key →
      (call c : Py Unit).Spends (exec order) (World.built key) 0 := fun hc =>
    spends_of_within (within_attempt (hquiet hc))
  unfold Settings.rebuildCost
  split_ifs with heq
  · unfold rebuildFeedForUser
    refine spends_call_bind (hquiet nofun) fun w rows hrows => ?_
    have hlength : rows.length ≤ cfg.feedMaxSize := by
      obtain rfl : w.db.recentFriendPosts order v cfg.feedMaxSize = rows := Except.ok.inj hrows
      exact List.length_take_le _ _
    split
    · have hdelete := hcall (c := .deleteZset (.feed v)) nofun
      exact (hdelete.bind (m := 0) fun _ => spends_pure 0).mono (Nat.zero_le _)
    · have hpipeline := spends_pipeline (ε := PyError) (built_cacheRow order key rows)
      rw [sum_adds_cacheRow] at hpipeline
      have hswap : (swapFeed v m rows).Spends (exec order) (World.built key) (rows.length + 0) := by
        unfold swapFeed
        rw [heq]
        exact hpipeline.bind fun _ => heq ▸ hcall hrename
      have hdelete := hcall (c := .deleteZset (.rebuild v m)) nofun
      have hlast : (pure rows.length : Py Nat).Spends (exec order) (World.built key) 0 := spends_pure _
      exact ((hswap.tryFinally hdelete).bind fun _ => hlast).mono hlength
  · exact spends_of_within (within_rebuildFeedForUser
      (fun _ _ hc => hquiet (by rw [hc.2]; exact nofun)) v m
      (fun t id => hquiet fun h => heq (Option.some.inj h)) (hquiet hrename))

theorem spends_readItems (order : RowOrder) (cfg : Settings) {key : FeedKey}
    (hkey : ∀ v, key ≠ .feed v) (v m : Uuid)
    (offset limit : Nat) :
    (readItems cfg m v offset limit).Spends (exec order) (World.built key)
      (cfg.rebuildCost key (.rebuild v m)) := by
  have hX := compositional_spends order key
  have hfeed : ∀ offset limit, (readFeed cfg m v offset limit).Spends (exec order) (World.built key)
      (cfg.rebuildCost key (.rebuild v m)) := by
    intro offset limit
    rw [readFeed_eq]
    refine spends_call_bind (fun w => length_zset_le order (c := .existsZset (.feed v)) nofun w) fun _ found _ => ?_
    refine Spends.bind (m := 0) ?_ fun _ => hX.plain (plain_readPage _ _ _)
    unfold rebuildOnMiss
    split
    · exact spends_pure ()
    · exact (spends_rebuildFeedForUser order cfg hkey v m).bind (m := 0) fun _ => spends_pure ()
  unfold readItems
  split
  · rw [readFeedMerged_eq]
    exact (hfeed _ _).bind (m := 0) fun pushPart => hX.plain (plain_mergePage _ _ _ _)
  · exact hfeed offset limit

/-- A call adds to a temporary key at most as many entries as a feed may have, and only to its own. -/
theorem Call.spends (order : RowOrder) (cfg : Settings) {key : FeedKey} (hkey : ∀ v, key ≠ .feed v)
    (c : Call) :
    (c.program cfg).Spends (exec order) (World.built key)
      (if c.rebuildKey = some key then cfg.feedMaxSize else 0) := by
  have hX := compositional_spends order key
  by_cases hc : c.rebuildKey = some key
  · rw [if_pos hc]
    cases c with
    | rebuildFeed user nonce =>
        obtain rfl := Option.some.inj hc
        have hrebuild := spends_rebuildFeedForUser order cfg hkey user nonce
        rw [Settings.rebuildCost, if_pos rfl] at hrebuild
        exact hrebuild.bind (m := 0) fun n => spends_pure _
    | getFeed user nonce offset limit =>
        obtain rfl := Option.some.inj hc
        have hread := spends_readItems order cfg hkey user nonce offset.toNat
          limit.toNat
        rw [Settings.rebuildCost, if_pos rfl] at hread
        show (Feed.getFeed cfg user nonce offset limit).Spends _ _ _
        unfold Feed.getFeed
        split
        · exact trivial
        · exact hread.bind (m := 0) fun items => spends_pure _
    | createPost => cases hc
    | updatePost => cases hc
    | deletePost => cases hc
    | setFriend => cases hc
    | deleteFriend => cases hc
  · rw [if_neg hc]
    have hplain : ∀ β (c : Command β), Plain β c → ∀ w,
        World.built key ((exec order).issue c w).2 ≤ World.built key w := fun β c hc w =>
      length_zset_le order (by rw [hc.2]; exact nofun) w
    have hfeed : ∀ (v : Uuid) t id w,
        World.built key ((exec order).issue (.zadd (.feed v) t id) w).2 ≤ World.built key w :=
      fun v t id w => length_zset_le order (c := .zadd (.feed v) t id)
        (fun h => hkey v (Option.some.inj h).symm) w
    refine hX.callProgram (fun _ _ _ => ?_) c (fun hc => ?_) (fun userId friendId => ?_) ?_
    · exact spends_of_within (within_fanOutPost hplain _ _ _ hfeed)
    · refine spends_of_within (within_attempt fun w => length_zset_le order ?_ w)
      rw [target_of_writesTables hc]
      exact nofun
    · exact spends_of_within (within_addFriendPostsToFeed hplain _ _ (hfeed userId))
    · intro userId nonce hown
      have hrebuild := spends_rebuildFeedForUser order cfg hkey userId nonce
      rwa [Settings.rebuildCost, if_neg fun h => hc (hown.trans (congrArg some h))] at hrebuild

/-- Calls that draw different nonces fill different temporary keys. -/
theorem rebuildKey_injective {calls : List Call} (hnonces : (calls.filterMap Call.rebuildKey).Nodup)
    {i j : Nat} {c d : Call} {key : FeedKey} (hc : calls[i]? = some c) (hd : calls[j]? = some d)
    (hckey : c.rebuildKey = some key) (hdkey : d.rebuildKey = some key) : i = j := by
  have hpairs := List.pairwise_iff_getElem.mp (List.pairwise_filterMap.mp hnonces)
  obtain ⟨hi, rfl⟩ := List.getElem?_eq_some_iff.mp hc
  obtain ⟨hj, rfl⟩ := List.getElem?_eq_some_iff.mp hd
  by_contra hne
  obtain hlt | hlt := Nat.lt_or_gt_of_ne hne
  · exact hpairs i j hi hj hlt key hckey key hdkey rfl
  · exact hpairs j i hj hi hlt key hdkey key hckey rfl

/-- **A temporary key never holds more than a feed may.** -/
theorem budgeted_concurrently {calls : List Call} (deliveries : List Delivery) {key : FeedKey}
    (hkey : ∀ v, key ≠ .feed v) (hnonces : (calls.filterMap Call.rebuildKey).Nodup)
    (habsent : w.Absent key) :
    Pool.Budgeted (exec order) (World.built key) cfg.feedMaxSize
      (concurrently cfg calls deliveries w) := by
  refine ⟨fun i => if calls[i]?.bind Call.rebuildKey = some key then cfg.feedMaxSize else 0, ?_, ?_⟩
  · intro i q hq
    obtain ⟨c, hc, rfl⟩ | ⟨-, d, -, rfl⟩ := concurrently_thread hq
    · have hspends := c.spends order cfg hkey
      simp only [hc, Option.bind_some]
      exact hspends
    · have hfanOut : ∀ postId authorId createdAt,
          (fanOutPost cfg postId authorId createdAt).Spends (exec order) (World.built key) 0 := by
        intro postId authorId createdAt
        refine spends_of_within (within_fanOutPost (fun β c hc w => ?_) _ _ _ fun v t id w => ?_)
        · exact length_zset_le order (by rw [hc.2]; exact nofun) w
        · exact length_zset_le order (c := .zadd (.feed v) t id)
            (fun h => hkey v (Option.some.inj h).symm) w
      exact ((compositional_spends order key).deliveryProgram hfanOut d).mono (Nat.zero_le _)
  · have hzero : World.built key (concurrently cfg calls deliveries w).state = 0 :=
      List.length_eq_zero_iff.mpr habsent
    rw [hzero, Nat.zero_add]
    -- at most one thread has the nonce
    by_cases hone : ∃ i ∈ Finset.range (concurrently cfg calls deliveries w).threads.length,
        calls[i]?.bind Call.rebuildKey = some key
    · obtain ⟨i, hi, hikey⟩ := hone
      rw [Finset.sum_eq_single_of_mem i hi, if_pos hikey]
      intro j _ hji
      refine if_neg fun hjkey => hji ?_
      obtain ⟨c, hc, hckey⟩ := Option.bind_eq_some_iff.mp hjkey
      obtain ⟨d, hd, hdkey⟩ := Option.bind_eq_some_iff.mp hikey
      exact rebuildKey_injective hnonces hc hd hckey hdkey
    · rw [Finset.sum_eq_zero fun i hi => if_neg fun hikey => hone ⟨i, hi, hikey⟩]
      exact Nat.zero_le _

/-! ## Feeds -/

/-- The feed has at most `cap` entries. -/
def World.Fits (cap : Nat) (u : Uuid) (w : World) : Prop := (w.feed u).entries.length ≤ cap

/-- No temporary key has more than `cap` entries. -/
def World.TempsFit (cap : Nat) (w : World) : Prop := ∀ v m, World.built (.rebuild v m) w ≤ cap

section

variable {cap : Nat}

theorem keeps_fits {β : Type} {c : Command β} (hc : c.target ≠ some (.feed u)) :
    (exec order).Keeps (World.TempsFit cap) (World.Fits cap u) c := fun w _ hw =>
  (length_zset_le order hc w).trans hw

/-- Putting a temporary key in the place of a feed. -/
theorem keeps_fits_rename (v m v' : Uuid) :
    (exec order).Keeps (World.TempsFit cap) (World.Fits cap u) (.rename (.rebuild v m) (.feed v')) := by
  intro w htemps hw
  unfold World.Fits World.feed
  have hne : ¬ FeedKey.feed u = .rebuild v m := fun h => by cases h
  simp only [Handler.issue, exec]
  split_ifs
  · rw [zsets_modifyZset, if_neg hne, zsets_modifyZset]
    split_ifs
    · exact htemps v m
    · exact hw
  · exact hw

theorem restores_fits (cap : Nat) (u : Uuid) :
    (exec order).Restores (World.TempsFit cap) (World.Fits cap u) (trimFeed cap u) := by
  intro w _
  show ((w.modifyZset (.feed u) _).redis.zsets (.feed u)).entries.length ≤ cap
  rw [zsets_modifyZset, if_pos rfl]
  exact SortedSet.length_trim_le _ cap

end

/-- Every thread trims the feeds it adds to. -/
theorem concurrently_honest_fits {calls : List Call} {deliveries : List Delivery} {w : World} (u : Uuid)
    (i : Nat) (q : Py Response)
    (hq : (concurrently cfg calls deliveries w).threads[i]? = some q) :
    q.Honest (exec order) (World.TempsFit cfg.feedMaxSize) (World.Fits cfg.feedMaxSize u) := by
  set I := World.TempsFit cfg.feedMaxSize with hI
  set J := World.Fits cfg.feedMaxSize u with hJ
  have hplain : ∀ {β : Type} {c : Command β}, c.target = none → (exec order).Keeps I J c := fun hc =>
    keeps_fits (by rw [hc]; exact nofun)
  have hX := compositional_honest order I J hplain
  -- what a thread adds to a feed is trimmed by a later command of its pipeline
  have hrestores : (exec order).Restores I J (trimFeed cfg.feedMaxSize u) := restores_fits _ u
  have hblock : ∀ (v : Uuid) (cs : List (Command Unit)),
      (∀ c ∈ cs, c.target = none ∨ c.target = some (.feed v)) →
      Covered (exec order) I J (cs ++ [trimFeed cfg.feedMaxSize v]) := by
    intro v cs hcs
    by_cases hv : v = u
    · subst hv
      exact covered_concat hrestores cs
    · refine covered_of_keeps fun c hc => keeps_fits ?_
      have hne : some (FeedKey.feed v) ≠ some (.feed u) := fun h => hv (FeedKey.feed.inj (Option.some.inj h))
      obtain hc | hc := List.mem_append.mp hc
      · obtain hnone | hsome := hcs c hc
        · rw [hnone]
          exact nofun
        · rwa [hsome]
      · rw [List.mem_singleton.mp hc]
        exact nofun
  have hfanOut : ∀ postId authorId createdAt,
      (fanOutPost cfg postId authorId createdAt).Honest (exec order) I J := by
    intro postId authorId createdAt
    unfold fanOutPost getFollowers
    refine Honest.bind (honest_call (hplain rfl)) fun followers => ?_
    split
    · exact trivial
    · refine Honest.bind (honest_pipeline ?_ (covered_flatMap fun v _ => ?_)) fun _ => trivial
      · intro c hc
        obtain ⟨v, -, hc⟩ := List.mem_flatMap.mp hc
        simp only [List.mem_cons, List.not_mem_nil, or_false] at hc
        obtain rfl | rfl := hc <;> exact fun _ => ⟨_, rfl⟩
      · refine hblock v [.zadd (.feed v) createdAt postId] fun c hc => ?_
        rw [List.mem_singleton.mp hc]
        exact Or.inr rfl
  obtain ⟨c, -, rfl⟩ | ⟨-, d, -, rfl⟩ := concurrently_thread hq
  · refine hX.callProgram hfanOut c (fun hc => honest_call (hplain (target_of_writesTables hc)))
      (fun v friendId => ?_) fun v m _ => ?_
    · unfold addFriendPostsToFeed
      refine Honest.bind (honest_call (hplain rfl)) fun rows => ?_
      split
      · exact trivial
      · refine Honest.bind (honest_pipeline ?_ (hblock v _ ?_)) fun _ => trivial
        · intro c hc
          obtain hc | hc := List.mem_append.mp hc
          · exact cacheRow_only (P := fun _ c => (exec order).Total c) (fun _ _ _ => ⟨_, rfl⟩)
              (fun _ _ _ => ⟨_, rfl⟩) (fun _ _ _ => ⟨_, rfl⟩) c hc
          · rw [List.mem_singleton.mp hc]
            exact fun _ => ⟨_, rfl⟩
        · exact cacheRow_only (P := fun _ c => c.target = none ∨ c.target = some (.feed v))
            (fun _ _ => Or.inr rfl) (fun _ _ => Or.inl rfl) fun _ _ => Or.inl rfl
    · exact honest_of_within (within_rebuildFeedForUser (fun _ _ hc => hplain hc.2) v m
        (fun t id => keeps_fits nofun) (keeps_fits_rename v m v))
  · exact hX.deliveryProgram hfanOut d

/-! ## The run -/

section

variable {calls : List Call} {deliveries : List Delivery} {w : World} {schedule : List Nat}
  {final : Pool Command PyError World Response}

theorem absent_of_noTemp (htemp : w.NoTemp) (v m : Uuid) : w.Absent (.rebuild v m) := by
  unfold World.Absent
  rw [htemp v m]
  rfl

/-- When all threads have ended, nothing is left to be trimmed. -/
theorem fits_when_ended (htemp : w.NoTemp) (hfits : ∀ u, (w.feed u).entries.length ≤ cfg.feedMaxSize)
    (hnonces : (calls.filterMap Call.rebuildKey).Nodup)
    (hrun : HighLoad.exec (Pool.step (exec order)) schedule (concurrently cfg calls deliveries w)
      = some final)
    (hended : final.Ended) (u : Uuid) : (final.state.feed u).entries.length ≤ cfg.feedMaxSize := by
  have htemps : ∀ past rest now, schedule = past ++ rest →
      HighLoad.exec (Pool.step (exec order)) past (concurrently cfg calls deliveries w) = some now →
      World.TempsFit cfg.feedMaxSize now.state := fun past rest now _ hpast v m =>
    Pool.within_budget (budgeted_concurrently deliveries nofun hnonces (absent_of_noTemp htemp v m)) hpast
  have hsolvent := Pool.holds_or_owed ⟨concurrently_honest_fits u, Or.inl (hfits u)⟩ htemps hrun
  exact Pool.holds_when_ended hsolvent hended

end

/-- **Feeds stay within their size.** When all calls and deliveries have ended, whatever they did to each
other on the way, no feed is longer than `feed_max_size` and no temporary key is left. -/
theorem feeds_bounded (order : RowOrder) (cfg : Settings) (calls : List Call)
    (deliveries : List Delivery) (w : World) (htemp : w.NoTemp)
    (hfits : ∀ u, (w.feed u).entries.length ≤ cfg.feedMaxSize)
    (hnonces : (calls.filterMap Call.rebuildKey).Nodup) {schedule : List Nat}
    {final : Pool Command PyError World Response}
    (hrun : HighLoad.exec (Pool.step (exec order)) schedule (concurrently cfg calls deliveries w)
      = some final)
    (hended : final.Ended) :
    final.state.NoTemp ∧ ∀ u, (final.state.feed u).entries.length ≤ cfg.feedMaxSize := by
  refine ⟨fun v m => ?_, fits_when_ended htemp hfits hnonces hrun hended⟩
  have hstart : Pool.Solvent (exec order) (fun _ => True) (World.Absent · (.rebuild v m))
      (concurrently cfg calls deliveries w) :=
    ⟨concurrently_honest_absent _ nofun, Or.inl (absent_of_noTemp htemp v m)⟩
  have hsolvent := Pool.holds_or_owed hstart (fun _ _ _ _ _ => trivial) hrun
  have hempty : final.state.Absent (.rebuild v m) := Pool.holds_when_ended hsolvent hended
  refine SortedSet.ext_mem fun e => ?_
  rw [show (final.state.redis.zsets (.rebuild v m)).entries = [] from hempty]
  exact Iff.rfl

/-- Feeds of one post. -/
def onePost : Settings := { feedMaxSize := 1 }

/-- User 2, whom user 1 has added, creates two posts while user 1 has the feed rebuilt. -/
def postsAndRebuild : Pool Command PyError World Response :=
  concurrently onePost [.createPost (.ofNat 2) "a" (.ofNat 14) (noonOf 1 first_day),
      .createPost (.ofNat 2) "b" (.ofNat 15) (noonOf 2 second_day), .rebuildFeed (.ofNat 1) (.ofNat 99)]
    [] ((World.ofUsers [.ofNat 1, .ofNat 2]).afterAll someOrder onePost [.setFriend (.ofNat 1) (.ofNat 2)])

/-- Both posts are in the feed before either creation trims it, and RENAME falls in between. -/
def lateTrims : List Nat := [0, 0, 0, 0, 1, 1, 1, 1, 2, 0, 1, 2, 2, 2, 2, 0, 1, 2]

theorem lateTrims_runs : (HighLoad.exec (Pool.step (exec someOrder)) lateTrims postsAndRebuild).isSome
    = true := by
  decide +kernel

theorem feeds_bounded_lateTrims :
    (((HighLoad.exec (Pool.step (exec someOrder)) lateTrims postsAndRebuild).get
      lateTrims_runs).state.feed (.ofNat 1)).entries.length ≤ 1 :=
  (feeds_bounded someOrder onePost _ [] _ (fun _ _ => rfl) (fun _ => Nat.zero_le _) (by decide +kernel)
    (Option.some_get lateTrims_runs).symm (by decide +kernel)).2 (.ofNat 1)

end HighLoad.Feed
