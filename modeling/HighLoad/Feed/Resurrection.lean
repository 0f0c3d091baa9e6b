/-
# HighLoad.Feed.Resurrection — a deletion among cache fills

`delete_post` deletes the row, then the hash, then the members. A rebuild or a friend fill that selected
the row before writes hash and members later, so it can bring the post back. It cannot when its HSET of
that hash comes before the DEL of `delete_post`: without row and hash no feed shows the post, whatever
set has it as a member (`deletion_wins`).
-/
import HighLoad.Feed.Interleavings
import HighLoad.Feed.OneFault

namespace HighLoad.Feed

open Prog

variable {order : RowOrder} {cfg : Settings} {p : Uuid}

/-- `rebuild_feed_for_user` and `set_friend`. -/
def Call.fills : Call → Bool
  | .rebuildFeed _ _ => true
  | .setFriend _ _ => true
  | _ => false

/-- The note whether the DEL of `delete_post` was issued. -/
def deletesHash (p : Uuid) : (β : Type) → Command β → Bool → Bool
  | _, .deleteHash id, noted => noted || id = p
  | _, _, noted => noted

/-- The hash of the post is not written once its DEL was issued. -/
def writtenInTime (p : Uuid) : (β : Type) → Command β → World × Bool → Bool
  | _, .hset id _, s => id ≠ p || !s.2
  | _, _, _ => true

/-- What no command of the run takes back: the DEL, the absence of the hash after it, and the absence
of the row. -/
structure StaysDeleted (p : Uuid) (s s' : World × Bool) : Prop where
  noted : s.2 = true → s'.2 = true
  hash : s.2 = true → s.1.redis.posts p = none → s'.1.redis.posts p = none
  row : (∀ q ∈ s.1.db.posts, q.id ≠ p) → ∀ q ∈ s'.1.db.posts, q.id ≠ p

instance : Std.Refl (StaysDeleted p) := ⟨fun _ => ⟨id, fun _ => id, id⟩⟩

instance : IsTrans (World × Bool) (StaysDeleted p) where
  trans _ _ _ h h' :=
    ⟨h'.noted ∘ h.noted, fun hn hp => h'.hash (h.noted hn) (h.hash hn hp), h'.row ∘ h.row⟩

/-- Deleted for good. -/
structure DeletedForGood (p : Uuid) (s : World × Bool) : Prop where
  noted : s.2 = true
  hash : s.1.redis.posts p = none
  row : ∀ q ∈ s.1.db.posts, q.id ≠ p

theorem DeletedForGood.stays {s s' : World × Bool} (h : DeletedForGood p s)
    (hs : StaysDeleted p s s') : DeletedForGood p s' :=
  ⟨hs.noted h.noted, hs.hash h.noted h.hash, hs.row h.row⟩

/-- Not the INSERT of a post. -/
def NoInsert : (β : Type) → Command β → Prop
  | _, .insertPost _ _ _ _ => False
  | _, _ => True

/-- **One command**: only a late HSET or the INSERT of a row can bring the post back. -/
theorem staysDeleted_step {β : Type} {c : Command β} {s s' : World × Bool} {b : β}
    (hc : NoInsert β c) (hA : writtenInTime p β c s = true)
    (hstep : noting (exec order) (deletesHash p) β c s = .ok (b, s')) : StaysDeleted p s s' := by
  obtain ⟨w, n⟩ := s
  obtain ⟨w', n'⟩ := s'
  obtain ⟨hexec, hn⟩ := noting_ok.mp hstep
  dsimp only at hexec hn
  subst hn
  have hnoted : n = true → deletesHash p β c n = true := by
    rintro rfl
    cases c <;> rfl
  -- it is enough to follow the hash and the rows
  suffices (n = true → w.redis.posts p = none → w'.redis.posts p = none) ∧
      ((∀ q ∈ w.db.posts, q.id ≠ p) → ∀ q ∈ w'.db.posts, q.id ≠ p) from
    ⟨hnoted, this.1, this.2⟩
  cases c with
  | insertPost => exact hc.elim
  | updatePost text id author =>
      obtain ⟨-, rfl⟩ := Prod.mk.inj (Except.ok.inj hexec)
      refine ⟨fun _ h => h, fun hrow q hq => ?_⟩
      obtain ⟨q', hq', rfl⟩ := Database.mem_updatePost.mp hq
      rw [Database.setText_id]
      exact hrow q' hq'
  | deletePost id author =>
      obtain ⟨-, rfl⟩ := Prod.mk.inj (Except.ok.inj hexec)
      exact ⟨fun _ h => h, fun hrow q hq => hrow q (Database.mem_deletePost.mp hq).1⟩
  | insertFriendship user friend =>
      obtain ⟨e, -, he⟩ | ⟨db, hdb, -, hposts, -⟩ := Database.insertFriendship_cases w.db user friend
      · simp [exec, he, Except.map] at hexec
      · obtain rfl : _ = w' := by simpa [exec, hdb, Except.map] using hexec
        refine ⟨fun _ => id, fun hrow q hq => hrow q ?_⟩
        rw [← hposts]
        exact hq
  | hset id m =>
      obtain ⟨-, rfl⟩ := Prod.mk.inj (Except.ok.inj hexec)
      refine ⟨fun hn hnone => ?_, fun h => h⟩
      -- a written hash is that of another post, for the DEL was issued before
      have hid : p ≠ id := fun h => by
        simp [writtenInTime, hn, h] at hA
      show Function.update w.redis.posts id (some m) p = none
      rw [Function.update_of_ne hid]
      exact hnone
  | deleteHash id =>
      obtain ⟨-, rfl⟩ := Prod.mk.inj (Except.ok.inj hexec)
      refine ⟨fun _ hnone => ?_, fun h => h⟩
      show Function.update w.redis.posts id none p = none
      rw [Function.update_apply]
      split_ifs
      · rfl
      · exact hnone
  | rename source target =>
      obtain ⟨-, rfl⟩ := exec_rename hexec
      exact ⟨fun _ => id, id⟩
  | _ =>
      obtain ⟨-, rfl⟩ := Prod.mk.inj (Except.ok.inj hexec)
      exact ⟨fun _ => id, id⟩

/-! ## The threads -/

theorem ensures_harmless {α : Type} {q : Py α} (hq : q.Only NoInsert) (s : World × Bool) :
    Ensures (noting (exec order) (deletesHash p)) (writtenInTime p) (StaysDeleted p)
      (fun _ _ => True) q s := by
  apply ensures_of_only ?_ hq
  intro β c t b t' hc hA hstep
  exact staysDeleted_step hc hA hstep

theorem fills_harmless {c : Call} (hc : c.fills = true) :
    (c.program cfg).Only NoInsert := by
  cases c with
  | rebuildFeed u nonce =>
      exact only_rebuildFeed (fun _ => trivial) (fun _ _ => trivial) (fun _ _ => trivial)
        (fun _ _ => trivial) trivial trivial trivial
  | setFriend u v =>
      exact only_setFriend trivial trivial (fun _ _ => trivial) (fun _ _ => trivial)
        (fun _ _ => trivial) (fun _ _ => trivial) trivial
  | createPost => cases hc
  | updatePost => cases hc
  | deletePost => cases hc
  | deleteFriend => cases hc
  | getFeed => cases hc

theorem announceDeleted_harmless {author id : Uuid} {now : DateTime} :
    (announceDeleted cfg author id now).Only NoInsert := by
  unfold announceDeleted publishTask publishPostEvent removePostFromAllFeeds getFollowers
  split
  · exact only_call trivial
  · split
    · exact only_call trivial
    · refine Only.bind (only_call trivial) fun followers => ?_
      split
      · exact trivial
      · refine Only.bind (only_pipeline ?_) fun _ => trivial
        intro c hc
        obtain ⟨v, -, rfl⟩ := List.mem_map.mp hc
        exact trivial

/-- A deletion that returns has the post gone. -/
theorem deletePost_ensures (author : Uuid) (now : DateTime) (s : World × Bool) :
    Ensures (noting (exec order) (deletesHash p)) (writtenInTime p) (StaysDeleted p)
      (fun r t => r = .ok .ok → DeletedForGood p t) (deletePost cfg author p now) s := by
  unfold deletePost
  -- the row
  refine (ensures_call (Q := fun r t => ∀ row, r = .ok (some row) → ∀ q ∈ t.1.db.posts, q.id ≠ p)
    ?_ ?_).bind ?_ ?_
  · intro t _ hA row t' ht'
    have hR := staysDeleted_step (c := Command.deletePost p author) trivial hA ht'
    refine ⟨hR, fun u hu row' hrow' => hu.row ?_⟩
    obtain ⟨hexec, -⟩ := noting_ok.mp ht'
    obtain ⟨hrow, hdb⟩ : (t.1.db.deletePost p author).1 = row ∧
        { t.1 with db := (t.1.db.deletePost p author).2 } = t'.1 := by simpa [exec] using hexec
    obtain rfl : row = some row' := Except.ok.inj hrow'
    obtain ⟨hnone, -⟩ | ⟨q, hq, hid, hauthor, -⟩ := Database.deletePost_cases t.1.db p author
    · rw [hnone] at hrow
      cases hrow
    · rw [← hdb]
      exact fun q' hq' => ((Database.mem_deletePost_of_mem hq hid hauthor).mp hq').2
  · rintro t - - e he u - row ⟨⟩
  · intro row t hrow
    cases row with
    | none => exact ensures_raise fun u _ h => by cases h
    | some row =>
        -- the hash
        refine (ensures_call (Q := fun _ t => DeletedForGood p t) ?_ ?_).bind ?_ ?_
        · intro u hu hA _ u' hu'
          have hR := staysDeleted_step (c := Command.deleteHash p) trivial hA hu'
          refine ⟨hR, fun v hv => DeletedForGood.stays ?_ hv⟩
          obtain ⟨hexec, hn⟩ := noting_ok.mp hu'
          obtain ⟨-, hw⟩ := Prod.mk.inj (Except.ok.inj hexec)
          refine ⟨?_, ?_, ?_⟩
          · rw [hn]
            simp [deletesHash]
          · rw [← hw]
            exact Function.update_self p none u.1.redis.posts
          · rw [← hw]
            exact hu.row (hrow row rfl)
        · intro u _ _ e he
          cases noting_error.mp he
        · intro _ u hu
          -- what is left does not matter
          refine ((ensures_harmless announceDeleted_harmless u).frame
            (fun _ _ hg hs => DeletedForGood.stays hg hs) hu).bind ?_ ?_
          · exact fun _ v hv => ensures_ret fun v' hv' _ => hv.2.stays hv'
          · intro e v _ h
            cases h
        · intro e u _ h
          cases h
  · intro e t _ h
    cases h

/-- **A deletion that has returned stays**, if no fill writes the hash after the DEL: no read of any
feed returns the post. -/
theorem deletion_wins (order : RowOrder) (cfg : Settings) (author p : Uuid) (now : DateTime)
    (fills : List Call) (hfills : ∀ c ∈ fills, c.fills = true) (w : World) (schedule : List Nat)
    (final : Pool Command PyError (World × Bool) Response)
    (hmeets : Pool.Meets (noting (exec order) (deletesHash p)) (writtenInTime p)
      (together cfg (.deletePost author p now :: fills) (w, false)) schedule)
    (hrun : HighLoad.exec (Pool.step (noting (exec order) (deletesHash p))) schedule
      (together cfg (.deletePost author p now :: fills) (w, false)) = some final)
    (hreturned : final.outcome 0 = some (.ok .ok)) : NeverRead order cfg final.state.1 p := by
  have hstart : Pool.Ensured (noting (exec order) (deletesHash p)) (writtenInTime p) (StaysDeleted p)
      (fun i r t => i = 0 → r = .ok .ok → DeletedForGood p t)
      (together cfg (.deletePost author p now :: fills) (w, false)) := by
    intro i q hq
    cases i with
    | zero =>
        obtain rfl := Option.some.inj hq
        exact (deletePost_ensures author now (w, false)).mono fun _ _ h _ => h
    | succ i =>
        obtain ⟨c, hc, rfl⟩ := together_thread
          (show (together cfg fills (w, false)).threads[i]? = some q from hq)
        exact (ensures_harmless (fills_harmless (hfills c hc)) (w, false)).mono
          fun _ _ _ hzero => absurd hzero (Nat.succ_ne_zero i)
  obtain ⟨-, hfinal⟩ := Pool.ensures_of_meets hstart hmeets hrun
  have hgone : DeletedForGood p final.state := hfinal.ended hreturned rfl rfl
  exact neverRead_of hgone.row (Or.inl hgone.hash)

/-! ## A late fill -/

/-- A rebuild selects the rows, the post is deleted, and the rebuild goes on. -/
def lateFill : List Nat := [1] ++ List.replicate 4 0 ++ List.replicate 11 1

/-- The author of `thirdPost` deletes it while the feed of the follower is rebuilt. -/
def deletionAndRebuild : Pool Command PyError (World × Bool) Response :=
  together {} [.deletePost (.ofNat 2) (.ofNat 13) (noonOf 4 fourth_day),
    .rebuildFeed (.ofNat 1) (.ofNat 0)]
    ((World.ofUsers [.ofNat 1, .ofNat 2]).afterAll someOrder {} threePosts, false)

theorem lateFill_runs : (HighLoad.exec (Pool.step (noting (exec someOrder) (deletesHash (.ofNat 13))))
    lateFill deletionAndRebuild).isSome = true := by
  decide +kernel

/-- Both calls have returned, and the follower reads the deleted post. -/
theorem lateFill_resurrects :
    ¬ ∀ (cfg : Settings) (author p : Uuid) (now : DateTime) (fills : List Call), Synchronous cfg →
      (∀ c ∈ fills, c.fills = true) → ∀ (w : World) (schedule : List Nat)
        (final : Pool Command PyError (World × Bool) Response),
        HighLoad.exec (Pool.step (noting (exec someOrder) (deletesHash p))) schedule
          (together cfg (.deletePost author p now :: fills) (w, false)) = some final →
        final.Returned → NeverRead someOrder cfg final.state.1 p := by
  intro h
  have hnever := h {} (.ofNat 2) (.ofNat 13) (noonOf 4 fourth_day)
    [.rebuildFeed (.ofNat 1) (.ofNat 0)] ⟨by decide, rfl⟩
    (fun c hc => by rw [List.mem_singleton.mp hc]; rfl) _ lateFill _
    (Option.some_get lateFill_runs).symm (by decide +kernel)
  have hhash : (((HighLoad.exec (Pool.step (noting (exec someOrder) (deletesHash (.ofNat 13))))
      lateFill deletionAndRebuild).get lateFill_runs).state.1.redis.posts (.ofNat 13)).isSome = true := by
    decide +kernel
  have hmember : (((HighLoad.exec (Pool.step (noting (exec someOrder) (deletesHash (.ofNat 13))))
      lateFill deletionAndRebuild).get lateFill_runs).state.1.feed (.ofNat 1)).entries.any
        (fun e => decide (e.member = .ofNat 13)) = true := by
    decide +kernel
  obtain ⟨post, hpost⟩ := Option.isSome_iff_exists.mp hhash
  obtain ⟨e, he, hid⟩ := List.any_eq_true.mp hmember
  exact not_neverRead hpost he (of_decide_eq_true hid) hnever

/-- The row is deleted when the rebuild has selected it, the hash when the temporary key is filled. -/
def earlyFill : List Nat := [1, 0] ++ List.replicate 9 1 ++ [0, 1, 0, 1, 0]

theorem earlyFill_runs : (HighLoad.exec (Pool.step (noting (exec someOrder) (deletesHash (.ofNat 13))))
    earlyFill deletionAndRebuild).isSome = true := by
  decide +kernel

theorem deletion_wins_earlyFill : NeverRead someOrder {} ((HighLoad.exec
      (Pool.step (noting (exec someOrder) (deletesHash (.ofNat 13)))) earlyFill
        deletionAndRebuild).get earlyFill_runs).state.1 (.ofNat 13) :=
  deletion_wins someOrder {} (.ofNat 2) (.ofNat 13) (noonOf 4 fourth_day)
    [.rebuildFeed (.ofNat 1) (.ofNat 0)] (fun c hc => by rw [List.mem_singleton.mp hc]; rfl) _ earlyFill _
    (Pool.Meets.of_meets (by decide +kernel)) (Option.some_get earlyFill_runs).symm (by decide +kernel)

end HighLoad.Feed
