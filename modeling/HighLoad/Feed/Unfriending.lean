/-
# HighLoad.Feed.Unfriending — a friendship ends among fan-outs

`delete_friend` deletes the friendship, lists the feed once, asks for the author of each member and
removes those of the former friend. A fan-out or a friend fill that acts on the followers or the rows it
selected before can add a post behind that scan, and a hash written behind the question for its author
names the author too late. When neither happens, the feed is free of the former friend's posts
(`unfriending_wins`).
-/
import HighLoad.Feed.Interleavings
import HighLoad.Feed.Expiry

namespace HighLoad.Feed

open Prog

variable {order : RowOrder} {cfg : Settings} {u f : Uuid}

/-! ## The scan -/

/-- How far `delete_friend` is: whether it has listed the feed, and whose authors it has read. -/
structure Scan where
  listed : Bool := false
  read : List Uuid := []

/-- The notes of a scan of the feed of `u`. -/
def scans (u : Uuid) : (β : Type) → Command β → Scan → Scan
  | _, .zrange key _ _, scan => { scan with listed := scan.listed || key = .feed u }
  | _, .hgetAuthorId id, scan => { scan with read := id :: scan.read }
  | _, _, scan => scan

theorem listed_scans {β : Type} {c : Command β} {scan : Scan} (h : scan.listed = true) :
    (scans u β c scan).listed = true := by
  cases c with
  | zrange key start stop =>
      show (scan.listed || decide (key = .feed u)) = true
      rw [h, Bool.true_or]
  | _ => exact h

theorem read_scans {β : Type} {c : Command β} {scan : Scan} {id : Uuid} (h : id ∈ scan.read) :
    id ∈ (scans u β c scan).read := by
  cases c with
  | hgetAuthorId id' => exact List.mem_cons_of_mem id' h
  | _ => exact h

/-- The author the hash of a post names. -/
def World.hashAuthor (w : World) (id : Uuid) : Option Uuid := (w.redis.posts id).map PostHash.authorId

/-- No post comes into the feed once it was listed, and no member gets an author once it was asked. -/
def seenByScan (u : Uuid) : (β : Type) → Command β → World × Scan → Bool
  | _, .zadd key _ id, s => key ≠ .feed u || !s.2.listed || s.1.inFeed u id
  | _, .hset id m, s =>
      !(s.2.read.contains id) || !(s.1.inFeed u id) || s.1.hashAuthor id = some m.authorId
  | _, _, _ => true

/-- What no command of the run does: put a post into the feed once it was listed, or name `f` the author
of a member once that was asked. -/
structure StaysScanned (u f : Uuid) (s s' : World × Scan) : Prop where
  listed : s.2.listed = true → s'.2.listed = true
  read : ∀ id ∈ s.2.read, id ∈ s'.2.read
  members : s.2.listed = true → ∀ id, (s'.1.feed u).Has id → (s.1.feed u).Has id ∧
    (id ∈ s.2.read → s'.1.hashAuthor id = some f → s.1.hashAuthor id = some f)

instance : Std.Refl (StaysScanned u f) :=
  ⟨fun _ => ⟨id, fun _ => id, fun _ _ hid => ⟨hid, fun _ => id⟩⟩⟩

instance : IsTrans (World × Scan) (StaysScanned u f) where
  trans _ _ _ h h' := by
    refine ⟨h'.listed ∘ h.listed, fun id hid => h'.read id (h.read id hid), fun hlisted id hid => ?_⟩
    obtain ⟨hmid, hauthor'⟩ := h'.members (h.listed hlisted) id hid
    obtain ⟨hfirst, hauthor⟩ := h.members hlisted id hmid
    exact ⟨hfirst, fun hread hf => hauthor hread (hauthor' (h.read id hread) hf)⟩

/-- Not a RENAME. -/
def NoRename : (β : Type) → Command β → Prop
  | _, .rename _ _ => False
  | _, _ => True

/-- **One command**: only a late ZADD or a late HSET can undo what the scan has seen. -/
theorem staysScanned_step {β : Type} {c : Command β} {s s' : World × Scan} {b : β}
    (hc : NoRename β c) (hA : seenByScan u β c s = true)
    (hstep : noting (exec order) (scans u) β c s = .ok (b, s')) : StaysScanned u f s s' := by
  obtain ⟨w, scan⟩ := s
  obtain ⟨w', scan'⟩ := s'
  obtain ⟨hexec, hscan⟩ := noting_ok.mp hstep
  dsimp only at hexec hscan
  -- it is enough to follow the members and the hashes
  suffices scan.listed = true → ∀ id, (w'.feed u).Has id → (w.feed u).Has id ∧
      (id ∈ scan.read → w'.hashAuthor id = some f → w.hashAuthor id = some f) from
    ⟨fun h => hscan ▸ listed_scans h, fun id h => hscan ▸ read_scans h, this⟩
  intro hl id hid
  cases c with
  | rename => exact hc.elim
  | insertPost author text id' now =>
      obtain ⟨e, he⟩ | ⟨db, hdb, -⟩ := Database.insertPost_cases w.db author text id' now
      · simp [exec, he, Except.map] at hexec
      · obtain ⟨-, rfl⟩ : _ ∧ _ = w' := by simpa [exec, hdb, Except.map] using hexec
        exact ⟨hid, fun _ h => h⟩
  | insertFriendship user friend =>
      obtain ⟨e, -, he⟩ | ⟨db, hdb, -⟩ := Database.insertFriendship_cases w.db user friend
      · simp [exec, he, Except.map] at hexec
      · obtain rfl : _ = w' := by simpa [exec, hdb, Except.map] using hexec
        exact ⟨hid, fun _ h => h⟩
  | zadd key t id' =>
      obtain ⟨-, rfl⟩ := Prod.mk.inj (Except.ok.inj hexec)
      refine ⟨?_, fun _ h => h⟩
      -- after the listing, ZADD finds its member in the feed
      have hmember : key = .feed u → (w.feed u).Has id' := fun hkey =>
        World.inFeed_iff.mp (by simpa [seenByScan, hkey, hl] using hA)
      have hid' : ((w.modifyZset key fun z => z.add t id').redis.zsets (.feed u)).Has id := hid
      rw [zsets_modifyZset] at hid'
      split_ifs at hid' with hkey
      · subst hkey
        rcases SortedSet.has_add.mp hid' with rfl | hold
        · exact hmember rfl
        · exact hold
      · exact hid'
  | zrem key ids =>
      obtain ⟨-, rfl⟩ := Prod.mk.inj (Except.ok.inj hexec)
      exact ⟨has_of_modifyZset (fun m hm => (SortedSet.has_removeAll.mp hm).1) hid, fun _ h => h⟩
  | zremrangebyrank key start stop =>
      obtain ⟨-, rfl⟩ := Prod.mk.inj (Except.ok.inj hexec)
      exact ⟨has_of_modifyZset (fun m hm => hm.of_removeRangeByRank) hid, fun _ h => h⟩
  | deleteZset key =>
      obtain ⟨-, rfl⟩ := Prod.mk.inj (Except.ok.inj hexec)
      exact ⟨has_of_modifyZset (fun m hm => absurd hm SortedSet.not_has_empty) hid, fun _ h => h⟩
  | hset id' m =>
      obtain ⟨-, rfl⟩ := Prod.mk.inj (Except.ok.inj hexec)
      refine ⟨hid, fun hread hf => ?_⟩
      by_cases hsame : id = id'
      · subst hsame
        have hmember : w.inFeed u id = true := World.inFeed_iff.mpr hid
        have hnamed : w.hashAuthor id = some m.authorId := by
          simpa [seenByScan, hread, hmember] using hA
        rw [hnamed]
        simpa [World.hashAuthor, World.setPost] using hf
      · simpa [World.hashAuthor, World.setPost, Function.update_of_ne hsame] using hf
  | deleteHash id' =>
      obtain ⟨-, rfl⟩ := Prod.mk.inj (Except.ok.inj hexec)
      refine ⟨hid, fun _ hf => ?_⟩
      by_cases hsame : id = id'
      · simp [World.hashAuthor, World.setPost, hsame] at hf
      · simpa [World.hashAuthor, World.setPost, Function.update_of_ne hsame] using hf
  | _ =>
      obtain ⟨-, rfl⟩ := Prod.mk.inj (Except.ok.inj hexec)
      exact ⟨hid, fun _ h => h⟩

/-! ## The threads -/

/-- The listed members whose author was read; `f` is the author only of those with `X`. -/
structure Seen (u f : Uuid) (X : Uuid → Prop) (s : World × Scan) : Prop where
  listed : s.2.listed = true
  members : ∀ id, (s.1.feed u).Has id → id ∈ s.2.read ∧ (s.1.hashAuthor id = some f → X id)

theorem Seen.stays {X : Uuid → Prop} {s s' : World × Scan} (h : Seen u f X s)
    (hs : StaysScanned u f s s') : Seen u f X s' := by
  refine ⟨hs.listed h.listed, fun id hid => ?_⟩
  obtain ⟨hfirst, hauthor⟩ := hs.members h.listed id hid
  obtain ⟨hread, hX⟩ := h.members id hfirst
  exact ⟨hs.read id hread, fun hf => hX (hauthor hread hf)⟩

/-- What is known while the authors of the listed members are read. -/
structure Asking (u f : Uuid) (ids : List Uuid) (bs : List (Option Uuid))
    (cs : List (Command (Option Uuid))) (s : World × Scan) : Prop where
  listed : s.2.listed = true
  members : ∀ id, (s.1.feed u).Has id → id ∈ ids
  asked : ∃ pre rest, ids = pre ++ rest ∧ cs = rest.map .hgetAuthorId ∧ pre.length = bs.length ∧
    ∀ q ∈ pre.zip bs, q.1 ∈ s.2.read ∧
      ((s.1.feed u).Has q.1 → s.1.hashAuthor q.1 = some f → q.2 = some f)

theorem Asking.stays {ids : List Uuid} {bs : List (Option Uuid)}
    {cs : List (Command (Option Uuid))} {s s' : World × Scan} (h : Asking u f ids bs cs s)
    (hs : StaysScanned u f s s') : Asking u f ids bs cs s' := by
  obtain ⟨pre, rest, hids, hcs, hlen, hq⟩ := h.asked
  refine ⟨hs.listed h.listed, fun id hid => h.members id (hs.members h.listed id hid).1,
    pre, rest, hids, hcs, hlen, fun q hmem => ?_⟩
  obtain ⟨hread, hanswer⟩ := hq q hmem
  refine ⟨hs.read _ hread, fun hid hf => ?_⟩
  obtain ⟨hfirst, hauthor⟩ := hs.members h.listed _ hid
  exact hanswer hfirst (hauthor hread hf)

/-- One more author is read. -/
theorem Asking.step {ids : List Uuid} {bs : List (Option Uuid)} {c : Command (Option Uuid)}
    {cs : List (Command (Option Uuid))} {s : World × Scan} (h : Asking u f ids bs (c :: cs) s)
    (hA : seenByScan u _ c s = true) :
    ∃ b s', noting (exec order) (scans u) _ c s = .ok (b, s') ∧ StaysScanned u f s s' ∧
      Asking u f ids (bs ++ [b]) cs s' := by
  obtain ⟨pre, rest, hids, hcs, hlen, hq⟩ := h.asked
  cases rest with
  | nil => cases hcs
  | cons id rest =>
      obtain ⟨rfl, rfl⟩ := List.cons.inj hcs
      have hstep : noting (exec order) (scans u) _ (.hgetAuthorId id) s
          = .ok (s.1.hashAuthor id, (s.1, scans u _ (.hgetAuthorId id) s.2)) :=
        noting_ok.mpr ⟨rfl, rfl⟩
      have hstays := staysScanned_step (f := f) (c := Command.hgetAuthorId id) trivial hA hstep
      refine ⟨_, _, hstep, hstays, h.listed, h.members, pre ++ [id], rest, by simpa using hids, rfl,
        by simp [hlen], fun q hmem => ?_⟩
      rw [List.zip_append hlen, List.mem_append] at hmem
      rcases hmem with hmem | hmem
      · exact ⟨List.mem_cons_of_mem _ (hq q hmem).1, (hq q hmem).2⟩
      · obtain rfl : q = (id, s.1.hashAuthor id) := by simpa using hmem
        exact ⟨List.mem_cons_self, fun _ hf => hf⟩

/-- Once all authors are read, those to remove include every member by `f`. -/
theorem Asking.seen {ids : List Uuid} {bs : List (Option Uuid)} {s : World × Scan}
    (h : Asking u f ids bs [] s) :
    Seen u f (· ∈ (ids.zip bs).filterMap fun p => if p.2 = some f then some p.1 else none) s := by
  obtain ⟨pre, rest, rfl, hcs, hlen, hq⟩ := h.asked
  obtain rfl : rest = [] := List.map_eq_nil_iff.mp hcs.symm
  rw [List.append_nil] at h ⊢
  refine ⟨h.listed, fun id hid => ?_⟩
  obtain ⟨i, hi, rfl⟩ := List.getElem_of_mem (h.members id hid)
  have hi' : i < bs.length := hlen ▸ hi
  have hmem : (pre[i], bs[i]) ∈ pre.zip bs := by
    rw [← List.getElem_zip (h := by simpa [hlen] using hi)]
    exact List.getElem_mem _
  obtain ⟨hread, hanswer⟩ := hq _ hmem
  refine ⟨hread, fun hf => List.mem_filterMap.mpr ⟨_, hmem, ?_⟩⟩
  rw [if_pos (hanswer hid hf)]

theorem removeFriendPostsFromFeed_ensures (s : World × Scan) :
    Ensures (noting (exec order) (scans u)) (seenByScan u) (StaysScanned u f)
      (fun r t => r = .ok () → Seen u f (fun _ => False) t) (removeFriendPostsFromFeed u f) s := by
  unfold removeFriendPostsFromFeed
  -- the members
  refine (ensures_call (Q := fun r t => ∀ ids, r = .ok ids → Asking u f ids []
    (ids.map .hgetAuthorId) t) ?_ ?_).bind ?_ ?_
  · intro t _ hA ids t' ht'
    have hnot : NoRename _ (Command.zrange (.feed u) 0 (-1)) := by simp only [NoRename]
    refine ⟨staysScanned_step hnot hA ht', ?_⟩
    rintro v hv ids' hids
    obtain rfl := Except.ok.inj hids
    refine Asking.stays ?_ hv
    obtain ⟨hexec, hscan⟩ := noting_ok.mp ht'
    obtain ⟨hrange, hw⟩ := Prod.mk.inj (Except.ok.inj hexec)
    refine ⟨?_, fun id hid => ?_, [], ids, rfl, rfl, rfl, fun q hq => by simp at hq⟩
    · rw [hscan]
      simp [scans]
    · rw [← hrange]
      rw [← hw] at hid
      exact SortedSet.mem_range_all.mpr hid
  · intro t _ _ e he
    cases noting_error.mp he
  · intro ids t hasking
    replace hasking := hasking ids rfl
    split
    · rename_i hempty
      -- nothing was in the feed
      refine ensures_ret fun v hv _ => Seen.stays ⟨hasking.listed, fun id hid => ?_⟩ hv
      have hids := hasking.members id hid
      rw [List.isEmpty_iff.mp hempty] at hids
      exact absurd hids List.not_mem_nil
    · refine (ensures_pipeline (Asking u f ids) (fun _ _ _ _ h hs => h.stays hs)
        (fun _ _ _ _ h hA => h.step hA) hasking).bind ?_ ?_
      · rintro bs v ⟨rest, hrest, hseen⟩
        obtain rfl := Except.ok.inj hrest
        replace hseen := Asking.seen hseen
        rw [List.nil_append] at hseen
        generalize ((ids.zip bs).filterMap fun p => if p.2 = some f then some p.1 else none)
          = toRemove at hseen ⊢
        dsimp only
        split
        · rename_i hempty
          refine ensures_ret fun v' hv' _ => Seen.stays ⟨hseen.listed, fun id hid => ?_⟩ hv'
          obtain ⟨hread, hX⟩ := hseen.members id hid
          refine ⟨hread, fun hf => ?_⟩
          have hmem := hX hf
          rw [List.isEmpty_iff.mp hempty] at hmem
          exact absurd hmem List.not_mem_nil
        · refine ensures_call ?_ ?_
          · intro t' ht' hA _ u' hu'
            refine ⟨staysScanned_step (c := Command.zrem (.feed u) toRemove) trivial hA hu', ?_⟩
            intro v' hv' _
            refine Seen.stays ?_ hv'
            replace hseen := hseen.stays ht'
            obtain ⟨hexec, hscan⟩ := noting_ok.mp hu'
            obtain ⟨-, hw⟩ := Prod.mk.inj (Except.ok.inj hexec)
            refine ⟨hscan ▸ hseen.listed, fun id hid => ?_⟩
            rw [← hw, World.feed_modifyZset, if_pos rfl, SortedSet.has_removeAll] at hid
            obtain ⟨hread, hX⟩ := hseen.members id hid.1
            refine ⟨hscan ▸ hread, fun hf => hid.2 (hX ?_)⟩
            rw [← hw] at hf
            exact hf
          · intro t' _ _ e he
            cases noting_error.mp he
      · rintro e v ⟨rest, hrest, -⟩
        cases hrest
  · intro e t _ h
    cases h

/-- An unfriending that returns leaves no post of the former friend in the feed. -/
theorem deleteFriend_ensures (s : World × Scan) :
    Ensures (noting (exec order) (scans u)) (seenByScan u) (StaysScanned u f)
      (fun r t => r = .ok .ok → Seen u f (fun _ => False) t) (deleteFriend u f) s := by
  unfold deleteFriend
  refine (ensures_call (Q := fun _ _ => True) ?_ ?_).bind ?_ ?_
  · intro t _ hA _ t' ht'
    exact ⟨staysScanned_step (c := Command.deleteFriendship u f) trivial hA ht', fun _ _ => trivial⟩
  · exact fun _ _ _ _ _ _ _ => trivial
  · intro _ t _
    refine (removeFriendPostsFromFeed_ensures t).bind ?_ ?_
    · intro _ v hseen
      exact ensures_ret fun v' hv' _ => (hseen rfl).stays hv'
    · intro e v _ h
      cases h
  · intro e t _ h
    cases h

/-- The calls that may run beside: posts by `f`, and `u` befriending `f`. -/
def Call.feeds (u f : Uuid) : Call → Prop
  | .createPost author _ _ _ => author = f
  | .setFriend user friend => user = u ∧ friend = f
  | _ => False

theorem feeds_harmless (hsync : Synchronous cfg) {c : Call} (hc : c.feeds u f) :
    (c.program cfg).Only NoRename := by
  cases c with
  | createPost author text id now =>
      exact only_createPost hsync trivial (fun _ _ => trivial) (fun _ _ => trivial) trivial
        (fun _ _ _ => trivial) (fun _ => trivial)
  | setFriend user friend =>
      exact only_setFriend trivial trivial (fun _ _ => trivial) (fun _ _ => trivial)
        (fun _ _ => trivial) (fun _ _ => trivial) trivial
  | updatePost => exact hc.elim
  | deletePost => exact hc.elim
  | deleteFriend => exact hc.elim
  | rebuildFeed => exact hc.elim
  | getFeed => exact hc.elim

/-- No read of the feed of `u` returns a post by `f`. -/
def NeverShows (order : RowOrder) (cfg : Settings) (w : World) (u f : Uuid) : Prop :=
  ∀ (nonce : Uuid) (offset limit : Nat) (items : List FeedItem), w.Fresh u nonce →
    ((readFeed cfg nonce u offset limit).run (exec order) w).1 = .ok items →
      ∀ i ∈ items, i.authorUserId ≠ f

/-- **Unfriending wins over fan-outs and friend fills** none of whose ZADDs comes behind the listing of
the feed and none of whose HSETs comes behind the question for the author of a member. -/
theorem unfriending_wins (order : RowOrder) (cfg : Settings) (hsync : Synchronous cfg) (u f : Uuid)
    (others : List Call) (hothers : ∀ c ∈ others, c.feeds u f) (w : World) (schedule : List Nat)
    (final : Pool Command PyError (World × Scan) Response)
    (hmeets : Pool.Meets (noting (exec order) (scans u)) (seenByScan u)
      (together cfg (.deleteFriend u f :: others) (w, {})) schedule)
    (hrun : HighLoad.exec (Pool.step (noting (exec order) (scans u))) schedule
      (together cfg (.deleteFriend u f :: others) (w, {})) = some final)
    (hreturned : final.outcome 0 = some (.ok .ok)) (hfriend : ¬ final.state.1.db.Follows u f) :
    NeverShows order cfg final.state.1 u f := by
  have hstart : Pool.Ensured (noting (exec order) (scans u)) (seenByScan u) (StaysScanned u f)
      (fun i r t => i = 0 → r = .ok .ok → Seen u f (fun _ => False) t)
      (together cfg (.deleteFriend u f :: others) (w, {})) := by
    intro i q hq
    cases i with
    | zero =>
        obtain rfl := Option.some.inj hq
        exact (deleteFriend_ensures (w, {})).mono fun _ _ h _ => h
    | succ i =>
        obtain ⟨c, hc, rfl⟩ := together_thread
          (show (together cfg others (w, ({} : Scan))).threads[i]? = some q from hq)
        have hharmless : Ensures (noting (exec order) (scans u)) (seenByScan u) (StaysScanned u f)
            (fun _ _ => True) (c.program cfg) (w, {}) := by
          apply ensures_of_only ?_ (feeds_harmless hsync (hothers c hc))
          intro β d t b t' hd hA hstep
          exact staysScanned_step hd hA hstep
        exact hharmless.mono fun _ _ _ hzero => absurd hzero (Nat.succ_ne_zero i)
  obtain ⟨-, hfinal⟩ := Pool.ensures_of_meets hstart hmeets hrun
  have hseen : Seen u f (fun _ => False) final.state := hfinal.ended hreturned rfl rfl
  intro nonce offset limit items hfresh hread
  apply authors_shown (P := (· ≠ f)) hfresh ?_ ?_ hread
  · rintro e he hash hhash rfl
    refine (hseen.members e.member ⟨e, he, rfl⟩).2 ?_
    rw [World.hashAuthor, hhash]
    rfl
  · rintro a ha rfl
    exact hfriend ha

/-! ## A late fan-out -/

/-- User 1 unfriends user 2 while user 2 creates a post. -/
def unfriendingAndPost : Pool Command PyError (World × Scan) Response :=
  together {} [.deleteFriend (.ofNat 1) (.ofNat 2),
    .createPost (.ofNat 2) "d" (.ofNat 14) (noonOf 4 fourth_day)]
    ((World.ofUsers [.ofNat 1, .ofNat 2]).afterAll someOrder {} threePosts, {})

/-- The fan-out selects the followers, the unfriending runs, and the fan-out goes on. -/
def lateFanOut : List Nat := List.replicate 4 1 ++ List.replicate 6 0 ++ List.replicate 2 1

theorem lateFanOut_runs : (HighLoad.exec (Pool.step (noting (exec someOrder) (scans (.ofNat 1))))
    lateFanOut unfriendingAndPost).isSome = true := by
  decide +kernel

/-- Both calls have returned, and user 1 reads the post of the former friend. -/
theorem lateFanOut_shown :
    ¬ ∀ (cfg : Settings) (u f : Uuid) (others : List Call), Synchronous cfg →
      (∀ c ∈ others, c.feeds u f) → ∀ (w : World) (schedule : List Nat)
        (final : Pool Command PyError (World × Scan) Response),
        HighLoad.exec (Pool.step (noting (exec someOrder) (scans u))) schedule
          (together cfg (.deleteFriend u f :: others) (w, {})) = some final →
        final.Returned → ¬ final.state.1.db.Follows u f →
          NeverShows someOrder cfg final.state.1 u f := by
  intro h
  have hnever := h {} (.ofNat 1) (.ofNat 2)
    [.createPost (.ofNat 2) "d" (.ofNat 14) (noonOf 4 fourth_day)] ⟨by decide, rfl⟩
    (fun c hc => by rw [List.mem_singleton.mp hc]; rfl) _ lateFanOut _
    (Option.some_get lateFanOut_runs).symm (by decide +kernel) (by decide +kernel)
  exact hnever (.ofNat 0) 0 1 [⟨.ofNat 14, "d", .ofNat 2, none⟩] (fun _ => by rfl) (by rfl) _
    List.mem_cons_self rfl

/-- The friendship is deleted when the fan-out has selected the followers, and the feed is listed when
the post is in it. -/
def earlyFanOut : List Nat := List.replicate 4 1 ++ [0, 1, 0, 1] ++ List.replicate 5 0

theorem earlyFanOut_runs : (HighLoad.exec (Pool.step (noting (exec someOrder) (scans (.ofNat 1))))
    earlyFanOut unfriendingAndPost).isSome = true := by
  decide +kernel

theorem unfriending_wins_earlyFanOut : NeverShows someOrder {} ((HighLoad.exec
      (Pool.step (noting (exec someOrder) (scans (.ofNat 1)))) earlyFanOut
        unfriendingAndPost).get earlyFanOut_runs).state.1 (.ofNat 1) (.ofNat 2) :=
  unfriending_wins someOrder {} ⟨by decide, rfl⟩ (.ofNat 1) (.ofNat 2)
    [.createPost (.ofNat 2) "d" (.ofNat 14) (noonOf 4 fourth_day)]
    (fun c hc => by rw [List.mem_singleton.mp hc]; rfl) _ earlyFanOut _
    (Pool.Meets.of_meets (by decide +kernel)) (Option.some_get earlyFanOut_runs).symm
    (by decide +kernel) (by decide +kernel)

end HighLoad.Feed
