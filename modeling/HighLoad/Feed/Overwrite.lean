/-
# HighLoad.Feed.Overwrite — a rebuild among fan-outs

A rebuild selects the posts of the friends, fills a temporary key and renames it over the feed. A post
whose fan-out reaches the feed between the SELECT and the RENAME is overwritten. When every post of the
calls that is in the feed is also in the temporary key at the RENAME (and none is there when an empty
selection deletes the feed), each post whose `create_post` returned is in the feed
(`created_posts_kept`).
-/
import HighLoad.Feed.Interleavings
import HighLoad.Feed.OneFault

namespace HighLoad.Feed

open Prog

variable {order : RowOrder} {cfg : Settings} {w : World} {u nonce : Uuid}
  {created known : List Uuid}

/-! ## What a rebuild may overwrite -/

/-- The RENAME finds the created posts of the feed in its source too, and a DEL finds none. -/
def keepsNew (u : Uuid) (created : List Uuid) : (β : Type) → Command β → World → Bool
  | _, .rename source target, w => target ≠ .feed u ||
      (w.feed u).entries.all fun e => !created.contains e.member ||
        (w.redis.zsets source).entries.any fun e' => e'.member = e.member
  | _, .deleteZset key, w =>
      key ≠ .feed u || (w.feed u).entries.all fun e => !created.contains e.member
  | _, _, _ => true

/-- The ids that may occur, what the start world has, and the members of the two keys. -/
structure Confined (w : World) (u nonce : Uuid) (known : List Uuid) (t : World) : Prop where
  posts : ∀ p ∈ t.db.posts, p.id ∈ known
  feed : ∀ id, (t.feed u).Has id → id ∈ known
  temp : ∀ id, (t.redis.zsets (.rebuild u nonce)).Has id → id ∈ known
  rows : ∀ p ∈ w.db.posts, p ∈ t.db.posts
  friends : ∀ a, w.db.Follows u a → t.db.Follows u a

/-- What each command keeps: that the world is confined, and the created posts of the feed. -/
def KeepsNew (w : World) (u nonce : Uuid) (created known : List Uuid) (t t' : World) : Prop :=
  Confined w u nonce known t → Confined w u nonce known t' ∧
    ∀ id ∈ created, (t.feed u).Has id → (t'.feed u).Has id

instance : Std.Refl (KeepsNew w u nonce created known) := ⟨fun _ h => ⟨h, fun _ _ hid => hid⟩⟩

instance : IsTrans World (KeepsNew w u nonce created known) where
  trans _ _ _ h h' hconf :=
    have ⟨hconf', hnew⟩ := h hconf
    have ⟨hconf'', hnew'⟩ := h' hconf'
    ⟨hconf'', fun id hid hmem => hnew' id hid (hnew id hid hmem)⟩

/-- The commands of the run. -/
def Planned (cap : Nat) (u nonce : Uuid) (known : List Uuid) : (β : Type) → Command β → Prop
  | _, .insertPost _ _ id _ => id ∈ known
  | _, .selectFollowers _ => True
  | _, .selectFriendPosts _ _ => True
  | _, .hset _ _ => True
  | _, .expire _ _ => True
  | _, .zadd _ _ id => id ∈ known
  | _, .zremrangebyrank _ start stop => start = 0 ∧ stop = -((cap : Int) + 1)
  | _, .rename source target => source = .rebuild u nonce ∧ target = .feed u
  | _, .deleteZset _ => True
  | _, _ => False

/-- An operation on a sorted set that adds known ids only keeps the world confined. -/
theorem Confined.modifyZset {t : World} (h : Confined w u nonce known t) (key : FeedKey)
    (g : FeedSet → FeedSet)
    (hg : ∀ id, (g (t.redis.zsets key)).Has id → (t.redis.zsets key).Has id ∨ id ∈ known) :
    Confined w u nonce known (t.modifyZset key g) := by
  have hkey : ∀ k, (∀ id, (t.redis.zsets k).Has id → id ∈ known) →
      ∀ id, ((t.modifyZset key g).redis.zsets k).Has id → id ∈ known := by
    intro k hk id hid
    rw [zsets_modifyZset] at hid
    split_ifs at hid with heq
    · subst heq
      exact (hg id hid).elim (hk id) fun hknown => hknown
    · exact hk id hid
  exact ⟨h.posts, hkey _ h.feed, hkey _ h.temp, h.rows, h.friends⟩

/-- **One command**: with room for all ids a trim takes nothing, and only an overwriting RENAME or DEL
loses a new post of the feed. -/
theorem keepsNew_step {cap : Nat} (hcap : known.length ≤ cap) {β : Type} {c : Command β} {t t' : World}
    {b : β} (hc : Planned cap u nonce known β c)
    (hA : keepsNew u created β c t = true)
    (hexec : exec order β c t = .ok (b, t')) : KeepsNew w u nonce created known t t' := by
  intro hconf
  cases c with
  | insertPost author text id now =>
      obtain ⟨e, he⟩ | ⟨db, hdb, -, hposts, hfriends⟩ :=
        Database.insertPost_cases t.db author text id now
      · simp [exec, he, Except.map] at hexec
      · obtain ⟨-, rfl⟩ : _ ∧ _ = t' := by simpa [exec, hdb, Except.map] using hexec
        refine ⟨⟨fun p hp => ?_, hconf.feed, hconf.temp, fun p hp => ?_, fun a ha => ?_⟩,
          fun _ _ hid => hid⟩
        · rw [hposts] at hp
          rcases List.mem_append.mp hp with hp | hp
          · exact hconf.posts p hp
          · rw [List.mem_singleton.mp hp]
            exact hc
        · rw [hposts]
          exact List.mem_append_left _ (hconf.rows p hp)
        · exact (Database.follows_congr hfriends _ _).mpr (hconf.friends a ha)
  | zadd key s id =>
      obtain ⟨-, rfl⟩ := Prod.mk.inj (Except.ok.inj hexec)
      refine ⟨hconf.modifyZset key _ fun id' hid' => ?_, fun id' _ hid' => ?_⟩
      · rcases SortedSet.has_add.mp hid' with rfl | hold
        · exact Or.inr hc
        · exact Or.inl hold
      · show ((t.modifyZset key _).redis.zsets (.feed u)).Has id'
        rw [zsets_modifyZset]
        split_ifs with hkey
        · subst hkey
          exact SortedSet.has_add.mpr (Or.inr hid')
        · exact hid'
  | zremrangebyrank key start stop =>
      obtain ⟨rfl, rfl⟩ := hc
      obtain ⟨-, rfl⟩ := Prod.mk.inj (Except.ok.inj hexec)
      refine ⟨hconf.modifyZset key _ fun id hid => Or.inl hid.of_removeRangeByRank, fun id _ hid => ?_⟩
      show ((t.modifyZset key _).redis.zsets (.feed u)).Has id
      rw [zsets_modifyZset]
      split_ifs with hkey
      · -- all members of the feed are known, so it fits
        subst hkey
        have hfits : (t.redis.zsets (.feed u)).entries.length ≤ cap :=
          (SortedSet.length_le_of_subset hconf.feed).trans hcap
        rw [SortedSet.trim_of_length_le hfits]
        exact hid
      · exact hid
  | rename source target =>
      obtain ⟨rfl, rfl⟩ := hc
      obtain ⟨-, rfl⟩ := exec_rename hexec
      have hconf₁ : Confined w u nonce known
          (t.modifyZset (.feed u) fun _ => t.redis.zsets (.rebuild u nonce)) :=
        hconf.modifyZset _ _ fun id hid => Or.inr (hconf.temp id hid)
      refine ⟨hconf₁.modifyZset _ _ fun id hid => absurd hid SortedSet.not_has_empty,
        fun id hnew hid => ?_⟩
      -- the feed is now what the temporary key was
      show ((World.modifyZset _ (.rebuild u nonce) _).redis.zsets (.feed u)).Has id
      rw [zsets_modifyZset, if_neg (by simp), zsets_modifyZset, if_pos rfl]
      obtain ⟨e, he, rfl⟩ := hid
      have hkept : ((t.feed u).entries.all fun e => !created.contains e.member ||
          (t.redis.zsets (.rebuild u nonce)).entries.any fun e' => e'.member = e.member) = true := by
        simpa [keepsNew] using hA
      have hmember := List.all_eq_true.mp hkept e he
      rw [List.contains_iff_mem.mpr hnew, Bool.not_true, Bool.false_or] at hmember
      obtain ⟨e', he', heq⟩ := List.any_eq_true.mp hmember
      exact ⟨e', he', of_decide_eq_true heq⟩
  | deleteZset key =>
      obtain ⟨-, rfl⟩ := Prod.mk.inj (Except.ok.inj hexec)
      refine ⟨hconf.modifyZset _ _ fun id hid => absurd hid SortedSet.not_has_empty,
        fun id hnew hid => ?_⟩
      show ((t.modifyZset key _).redis.zsets (.feed u)).Has id
      rw [zsets_modifyZset]
      split_ifs with hkey
      · subst hkey
        obtain ⟨e, he, rfl⟩ := hid
        have hkept : ((t.feed u).entries.all fun e => !created.contains e.member) = true := by
          simpa [keepsNew] using hA
        have hmember := List.all_eq_true.mp hkept e he
        rw [List.contains_iff_mem.mpr hnew] at hmember
        exact absurd hmember (by decide)
      · exact hid
  | hset id m =>
      obtain ⟨-, rfl⟩ := Prod.mk.inj (Except.ok.inj hexec)
      exact ⟨⟨hconf.posts, hconf.feed, hconf.temp, hconf.rows, hconf.friends⟩, fun _ _ hid => hid⟩
  | selectFollowers author =>
      obtain ⟨-, rfl⟩ := Prod.mk.inj (Except.ok.inj hexec)
      exact ⟨hconf, fun _ _ hid => hid⟩
  | selectFriendPosts user limit =>
      obtain ⟨-, rfl⟩ := Prod.mk.inj (Except.ok.inj hexec)
      exact ⟨hconf, fun _ _ hid => hid⟩
  | expire id n =>
      obtain ⟨-, rfl⟩ := Prod.mk.inj (Except.ok.inj hexec)
      exact ⟨hconf, fun _ _ hid => hid⟩
  | _ => exact hc.elim

/-! ## The threads -/

theorem ensures_planned {cap : Nat} (hcap : known.length ≤ cap) {α : Type} {q : Py α}
    (hq : q.Only (Planned cap u nonce known)) (t : World) :
    Ensures (exec order) (keepsNew u created) (KeepsNew w u nonce created known)
      (fun _ _ => True) q t := by
  apply ensures_of_only ?_ hq
  intro β c t b t' hc hA hstep
  exact keepsNew_step hcap hc hA hstep

/-- A rebuild that starts in a confined world. -/
theorem rebuildFeed_ensures (hcap : known.length ≤ cfg.feedMaxSize) {t : World}
    (ht : Confined w u nonce known t) :
    Ensures (exec order) (keepsNew u created) (KeepsNew w u nonce created known)
      (fun _ _ => True) (rebuildFeed cfg u nonce) t := by
  unfold rebuildFeed rebuildFeedForUser
  refine Ensures.bind (Q := fun _ _ => True) ?_ (fun _ _ _ => ensures_ret fun _ _ => trivial)
    fun _ _ _ => trivial
  -- the rows selected are known
  refine (ensures_call (Q := fun r _ => ∀ rows, r = .ok rows → ∀ row ∈ rows, row.id ∈ known)
    ?_ ?_).bind ?_ ?_
  · intro t₁ ht₁ hA rows t₂ ht₂
    refine ⟨keepsNew_step (c := Command.selectFriendPosts u cfg.feedMaxSize) hcap trivial hA ht₂, ?_⟩
    rintro _ _ rows' hrows row hrow
    obtain rfl := Except.ok.inj hrows
    obtain ⟨hrange, -⟩ := Prod.mk.inj (Except.ok.inj ht₂)
    rw [← hrange] at hrow
    exact (ht₁ ht).1.posts row (Database.mem_recentFriendPosts_of_mem hrow).1
  · intro t₁ _ _ e he
    cases he
  · intro rows t₁ hrows
    apply ensures_planned hcap
    split
    · exact Only.bind (only_call trivial) fun _ => trivial
    · refine Only.bind (Only.tryFinally ?_ (only_call trivial)) fun _ => trivial
      refine Only.bind (only_pipeline fun c hc => ?_) fun _ => only_call ⟨rfl, rfl⟩
      obtain ⟨row, hrow, hc⟩ := List.mem_flatMap.mp hc
      simp only [cacheRow, List.mem_cons, List.not_mem_nil, or_false] at hc
      obtain rfl | rfl | rfl := hc
      · exact hrows rows rfl row hrow
      · exact trivial
      · exact trivial
  · exact fun _ _ _ => trivial

/-- The post is in the feed, and new. -/
structure Arrived (w : World) (u nonce : Uuid) (created known : List Uuid) (id : Uuid) (t : World) : Prop where
  confined : Confined w u nonce known t
  created : id ∈ created
  member : (t.feed u).Has id

theorem Arrived.stays {id : Uuid} {t t' : World} (h : Arrived w u nonce created known id t)
    (hs : KeepsNew w u nonce created known t t') : Arrived w u nonce created known id t' :=
  ⟨(hs h.confined).1, h.created, (hs h.confined).2 id h.created h.member⟩

/-- The commands left of a fan-out: the post is in the feed, or its ZADD is to come. -/
structure FanningOut (cap : Nat) (w : World) (u nonce : Uuid) (created known : List Uuid) (id : Uuid)
    (cs : List (Command Unit)) (t : World) : Prop where
  confined : Confined w u nonce known t
  created : id ∈ created
  planned : ∀ c ∈ cs, (∃ v s, c = .zadd (.feed v) s id) ∨ ∃ v, c = trimFeed cap v
  member : (t.feed u).Has id ∨ ∃ s, .zadd (.feed u) s id ∈ cs

theorem FanningOut.stays {cap : Nat} {id : Uuid} {cs : List (Command Unit)} {t t' : World}
    (h : FanningOut cap w u nonce created known id cs t) (hs : KeepsNew w u nonce created known t t') :
    FanningOut cap w u nonce created known id cs t' :=
  ⟨(hs h.confined).1, h.created, h.planned, h.member.imp ((hs h.confined).2 id h.created) fun hc => hc⟩

theorem FanningOut.step {cap : Nat} (hcap : known.length ≤ cap) {id : Uuid} (hid : id ∈ known)
    {c : Command Unit} {cs : List (Command Unit)} {t : World}
    (h : FanningOut cap w u nonce created known id (c :: cs) t)
    (hA : keepsNew u created Unit c t = true) :
    ∃ t', exec order Unit c t = .ok ((), t') ∧ KeepsNew w u nonce created known t t' ∧
      FanningOut cap w u nonce created known id cs t' := by
  have hplanned := fun d hd => h.planned d (List.mem_cons_of_mem c hd)
  rcases h.planned c List.mem_cons_self with ⟨v, s, rfl⟩ | ⟨v, rfl⟩
  · have hstep : exec order Unit (.zadd (.feed v) s id) t
        = .ok ((), t.modifyZset (.feed v) fun z => z.add s id) := rfl
    have hkeeps : KeepsNew w u nonce created known t (t.modifyZset (.feed v) fun z => z.add s id) :=
      keepsNew_step hcap (c := Command.zadd (.feed v) s id) hid hA hstep
    refine ⟨_, hstep, hkeeps, (hkeeps h.confined).1, h.created, hplanned, ?_⟩
    by_cases huser : u = v
    · subst huser
      left
      rw [World.feed_modifyZset, if_pos rfl]
      exact SortedSet.has_add.mpr (Or.inl rfl)
    · refine h.member.imp ((hkeeps h.confined).2 id h.created) ?_
      rintro ⟨s', hs'⟩
      refine ⟨s', (List.mem_cons.mp hs').resolve_left fun heq => huser ?_⟩
      cases heq
      rfl
  · have hstep : exec order Unit (trimFeed cap v) t
        = .ok ((), t.modifyZset (.feed v) fun z => z.removeRangeByRank 0 (-((cap : Int) + 1))) := rfl
    have hkeeps : KeepsNew w u nonce created known t _ :=
      keepsNew_step hcap (c := trimFeed cap v) ⟨rfl, rfl⟩ hA hstep
    refine ⟨_, hstep, hkeeps, (hkeeps h.confined).1, h.created, hplanned, ?_⟩
    refine h.member.imp ((hkeeps h.confined).2 id h.created) ?_
    rintro ⟨s', hs'⟩
    exact ⟨s', (List.mem_cons.mp hs').resolve_left fun heq => by cases heq⟩

theorem fanOutPost_ensures (hcap : known.length ≤ cfg.feedMaxSize) {author id : Uuid} {now : DateTime}
    (hid : id ∈ known) (hfollows : w.db.Follows u author) {t : World}
    (ht : Confined w u nonce known t) (hcreated : id ∈ created) :
    Ensures (exec order) (keepsNew u created) (KeepsNew w u nonce created known)
      (fun r v => r = .ok () → Arrived w u nonce created known id v) (fanOutPost cfg id author now) t := by
  unfold fanOutPost getFollowers
  refine (ensures_call (Q := fun r v => Confined w u nonce known v ∧
    ∀ followers, r = .ok followers → u ∈ followers) ?_ ?_).bind ?_ ?_
  · intro t₁ ht₁ hA followers t₂ ht₂
    have hconf := (ht₁ ht).1
    have hkeeps : KeepsNew w u nonce created known t₁ t₂ :=
      keepsNew_step (c := Command.selectFollowers author) hcap trivial hA ht₂
    refine ⟨hkeeps, fun t₃ ht₃ => ⟨(ht₃ (hkeeps hconf).1).1, ?_⟩⟩
    rintro followers' hfollowers
    obtain rfl := Except.ok.inj hfollowers
    obtain ⟨hrange, -⟩ := Prod.mk.inj (Except.ok.inj ht₂)
    rw [← hrange, Database.mem_followers]
    exact hconf.friends author hfollows
  · intro t₁ _ _ e he
    cases he
  · rintro followers t₁ ⟨hconf, hfollowers⟩
    have hu := hfollowers followers rfl
    split
    · rename_i hempty
      rw [List.isEmpty_iff.mp hempty] at hu
      exact absurd hu List.not_mem_nil
    · refine (ensures_writes (FanningOut cfg.feedMaxSize w u nonce created known id)
        (fun _ _ _ h hs => h.stays hs) (fun _ _ _ h hA => h.step hcap hid hA)
        ⟨hconf, hcreated, ?_, Or.inr ⟨now, ?_⟩⟩).bind ?_ ?_
      · intro c hc
        obtain ⟨v, -, hc⟩ := List.mem_flatMap.mp hc
        simp only [List.mem_cons, List.not_mem_nil, or_false] at hc
        exact hc.imp (fun h => ⟨v, now, h⟩) fun h => ⟨v, h⟩
      · exact List.mem_flatMap.mpr ⟨u, hu, List.mem_cons_self⟩
      · rintro _ t₂ ⟨-, hdone⟩
        refine ensures_ret fun t₃ ht₃ _ => Arrived.stays ⟨hdone.confined, hdone.created, ?_⟩ ht₃
        exact hdone.member.resolve_right fun ⟨_, hmem⟩ => absurd hmem List.not_mem_nil
      · rintro e t₂ ⟨⟨_, h⟩, -⟩
        cases h
  · intro e t₁ _ h
    cases h

/-- A `create_post` that returns has its post in the feed. -/
theorem createPost_ensures (hsync : Synchronous cfg) (hcap : known.length ≤ cfg.feedMaxSize)
    {author id : Uuid} {text : String} {now : DateTime} (hid : id ∈ known)
    (hcreated : id ∉ w.db.posts.map PostRow.id → id ∈ created) (hfollows : w.db.Follows u author)
    {t : World} (ht : Confined w u nonce known t) :
    Ensures (exec order) (keepsNew u created) (KeepsNew w u nonce created known)
      (fun r v => ∀ id', r = .ok (.postId id') → (v.feed u).Has id')
      (createPost cfg author text id now) t := by
  unfold createPost
  -- the row
  refine (ensures_call (Q := fun r v => Confined w u nonce known v ∧ ∀ row, r = .ok (some row) →
    row.id = id ∧ id ∈ created) ?_ ?_).bind ?_ ?_
  · intro t₁ ht₁ hA row t₂ ht₂
    have hconf := (ht₁ ht).1
    have hkeeps : KeepsNew w u nonce created known t₁ t₂ :=
      keepsNew_step (c := Command.insertPost author text id now) hcap hid hA ht₂
    refine ⟨hkeeps, fun t₃ ht₃ => ⟨(ht₃ (hkeeps hconf).1).1, ?_⟩⟩
    rintro row' hrow
    obtain rfl := Except.ok.inj hrow
    obtain ⟨e, he⟩ | ⟨db, hdb, -, hposts, -⟩ := Database.insertPost_cases t₁.db author text id now
    · simp [exec, he, Except.map] at ht₂
    · obtain ⟨rfl, -⟩ : ⟨id, author, text, now⟩ = row' ∧ _ = t₂ := by
        simpa [exec, hdb, Except.map] using ht₂
      refine ⟨rfl, hcreated fun hold => ?_⟩
      -- the table has the id once
      obtain ⟨p, hp, hpid⟩ := List.mem_map.mp hold
      have hpkey := db.posts_pkey
      rw [hposts, List.map_append, List.nodup_append] at hpkey
      exact hpkey.2.2 id (List.mem_map.mpr ⟨p, hconf.rows p hp, hpid⟩) id List.mem_cons_self rfl
  · intro t₁ ht₁ _ e _ t₂ ht₂
    exact ⟨(ht₂ (ht₁ ht).1).1, fun _ h => by cases h⟩
  · rintro row t₁ ⟨hconf, hrow⟩
    cases row with
    | none => exact ensures_raise fun _ _ _ h => by cases h
    | some row =>
        obtain ⟨rfl, hnew⟩ := hrow row rfl
        -- the hash
        have hhash : (storePostHash row.id text author row.createdAt).Only
            (Planned cfg.feedMaxSize u nonce known) := by
          refine Only.bind (only_pipeline fun c hc => ?_) fun _ => trivial
          simp only [List.mem_cons, List.not_mem_nil, or_false] at hc
          obtain rfl | rfl := hc <;> exact trivial
        refine ((ensures_planned hcap hhash t₁).frame (J := Confined w u nonce known)
          (fun _ _ hJ hs => (hs hJ).1) hconf).bind ?_ ?_
        · rintro _ t₂ ⟨-, hconf'⟩
          rw [announceCreated_synchronous hsync]
          refine (fanOutPost_ensures hcap hid hfollows hconf' hnew).bind ?_ ?_
          · intro _ t₃ harrived
            refine ensures_ret fun t₄ ht₄ id' hid' => ?_
            cases hid'
            exact ((harrived rfl).stays ht₄).member
          · intro e t₃ _ id' h
            cases h
        · intro e t₂ _ id' h
          cases h
  · intro e t₁ _ id' h
    cases h

/-! ## The run -/

/-- The post a call would create. -/
def Call.createdId : Call → Option Uuid
  | .createPost _ _ id _ => some id
  | _ => none

/-- A `create_post` by a friend of `u`. -/
def Call.byFriendOf (db : Database) (u : Uuid) : Call → Prop
  | .createPost author _ _ _ => db.Follows u author
  | _ => False

/-- The ids of the members of the feed, of the posts and of those to be created. -/
def World.knownIds (w : World) (u : Uuid) (creates : List Call) : List Uuid :=
  ((w.feed u).entries.map Entry.member ++ w.db.posts.map PostRow.id ++
    creates.filterMap Call.createdId).dedup

/-- The ids to be created that no row has yet. -/
def World.newIds (w : World) (creates : List Call) : List Uuid :=
  (creates.filterMap Call.createdId).filter fun id => id ∉ w.db.posts.map PostRow.id

/-- **No post is lost to a rebuild** whose RENAME finds the created posts of the feed in the temporary
key and whose DEL of the feed finds none: each post whose `create_post` returned is in the feed. -/
theorem created_posts_kept (order : RowOrder) (cfg : Settings) (hsync : Synchronous cfg) (w : World)
    (u nonce : Uuid) (htemp : w.redis.zsets (.rebuild u nonce) = SortedSet.empty)
    (creates : List Call) (hcreates : ∀ c ∈ creates, c.byFriendOf w.db u)
    (hfew : (w.knownIds u creates).length ≤ cfg.feedMaxSize) (schedule : List Nat)
    (final : Pool Command PyError World Response)
    (hmeets : Pool.Meets (exec order) (keepsNew u (w.newIds creates))
      (together cfg (.rebuildFeed u nonce :: creates) w) schedule)
    (hrun : HighLoad.exec (Pool.step (exec order)) schedule
      (together cfg (.rebuildFeed u nonce :: creates) w) = some final)
    (i : Nat) (id : Uuid) (hreturned : final.outcome (i + 1) = some (.ok (.postId id))) :
    (final.state.feed u).Has id := by
  have hconf : Confined w u nonce (w.knownIds u creates) w := by
    refine ⟨fun p hp => ?_, fun m hm => ?_, fun m hm => ?_, fun _ hp => hp, fun _ ha => ha⟩
    · rw [World.knownIds, List.mem_dedup]
      exact List.mem_append_left _ (List.mem_append_right _ (List.mem_map_of_mem hp))
    · obtain ⟨e, he, rfl⟩ := hm
      rw [World.knownIds, List.mem_dedup]
      exact List.mem_append_left _ (List.mem_append_left _ (List.mem_map_of_mem he))
    · rw [htemp] at hm
      exact absurd hm SortedSet.not_has_empty
  have hstart : Pool.Ensured (exec order) (keepsNew u (w.newIds creates))
      (KeepsNew w u nonce (w.newIds creates) (w.knownIds u creates))
      (fun j r t => j ≠ 0 → ∀ id', r = .ok (.postId id') → (t.feed u).Has id')
      (together cfg (.rebuildFeed u nonce :: creates) w) := by
    intro j q hq
    cases j with
    | zero =>
        obtain rfl := Option.some.inj hq
        exact (rebuildFeed_ensures hfew hconf).mono fun _ _ _ hzero => absurd rfl hzero
    | succ j =>
        obtain ⟨c, hc, rfl⟩ :=
          together_thread (show (together cfg creates w).threads[j]? = some q from hq)
        have hfriend := hcreates c hc
        cases c with
        | createPost author text id' now =>
            have hknown : id' ∈ w.knownIds u creates := by
              rw [World.knownIds, List.mem_dedup]
              exact List.mem_append_right _ (List.mem_filterMap.mpr ⟨_, hc, rfl⟩)
            have hnew : id' ∉ w.db.posts.map PostRow.id → id' ∈ w.newIds creates := fun hfresh =>
              List.mem_filter.mpr ⟨List.mem_filterMap.mpr ⟨_, hc, rfl⟩, decide_eq_true hfresh⟩
            exact (createPost_ensures hsync hfew hknown hnew hfriend hconf).mono fun _ _ h _ => h
        | _ => exact hfriend.elim
  obtain ⟨-, hfinal⟩ := Pool.ensures_of_meets hstart hmeets hrun
  exact hfinal.ended hreturned (Nat.succ_ne_zero i) id rfl

/-! ## A RENAME over a new post -/

theorem threePosts_follows : ((World.ofUsers [.ofNat 1, .ofNat 2]).afterAll someOrder {}
    threePosts).db.Follows (.ofNat 1) (.ofNat 2) := by
  decide +kernel

/-- The feed of user 1 is rebuilt while user 2 creates a post. -/
def rebuildAndPost : Pool Command PyError World Response :=
  together {} [.rebuildFeed (.ofNat 1) (.ofNat 0),
    .createPost (.ofNat 2) "d" (.ofNat 14) (noonOf 4 fourth_day)]
    ((World.ofUsers [.ofNat 1, .ofNat 2]).afterAll someOrder {} threePosts)

/-- The rebuild selects the posts, the new post is fanned out, and the rebuild goes on. -/
def lateRename : List Nat := [0] ++ List.replicate 6 1 ++ List.replicate 11 0

theorem lateRename_runs :
    (HighLoad.exec (Pool.step (exec someOrder)) lateRename rebuildAndPost).isSome = true := by
  decide +kernel

/-- Both calls have returned, and the new post is not in the feed. -/
theorem lateRename_overwrites :
    ¬ ∀ (cfg : Settings) (w : World) (u nonce : Uuid) (creates : List Call), Synchronous cfg →
      w.redis.zsets (.rebuild u nonce) = SortedSet.empty → (∀ c ∈ creates, c.byFriendOf w.db u) →
      (w.knownIds u creates).length ≤ cfg.feedMaxSize →
      ∀ (schedule : List Nat) (final : Pool Command PyError World Response),
        HighLoad.exec (Pool.step (exec someOrder)) schedule
          (together cfg (.rebuildFeed u nonce :: creates) w) = some final →
        final.Returned → ∀ (i : Nat) (id : Uuid), final.outcome (i + 1) = some (.ok (.postId id)) →
          (final.state.feed u).Has id := by
  intro h
  have hhas := h {} ((World.ofUsers [.ofNat 1, .ofNat 2]).afterAll someOrder {} threePosts)
    (.ofNat 1) (.ofNat 0) [.createPost (.ofNat 2) "d" (.ofNat 14) (noonOf 4 fourth_day)]
    ⟨by decide, rfl⟩ rfl (fun c hc => by rw [List.mem_singleton.mp hc]; exact threePosts_follows)
    (by decide +kernel) lateRename _ (Option.some_get lateRename_runs).symm (by decide +kernel)
    0 (.ofNat 14) (by decide +kernel)
  have hmember := World.inFeed_iff.mpr hhas
  exact absurd hmember (by decide +kernel)

/-- The row and the hash of the post are there when the rebuild selects; the fan-out comes while the
temporary key is filled. -/
def earlyPost : List Nat := List.replicate 3 1 ++ List.replicate 4 0 ++ List.replicate 3 1 ++
  List.replicate 11 0

theorem earlyPost_runs :
    (HighLoad.exec (Pool.step (exec someOrder)) earlyPost rebuildAndPost).isSome = true := by
  decide +kernel

theorem created_posts_kept_earlyPost : (((HighLoad.exec (Pool.step (exec someOrder)) earlyPost
    rebuildAndPost).get earlyPost_runs).state.feed (.ofNat 1)).Has (.ofNat 14) :=
  created_posts_kept someOrder {} ⟨by decide, rfl⟩
    ((World.ofUsers [.ofNat 1, .ofNat 2]).afterAll someOrder {} threePosts) (.ofNat 1) (.ofNat 0) rfl
    [.createPost (.ofNat 2) "d" (.ofNat 14) (noonOf 4 fourth_day)]
    (fun c hc => by rw [List.mem_singleton.mp hc]; exact threePosts_follows) (by decide +kernel)
    earlyPost _ (Pool.Meets.of_meets (by decide +kernel)) (Option.some_get earlyPost_runs).symm 0
    (.ofNat 14) (by decide +kernel)

end HighLoad.Feed
