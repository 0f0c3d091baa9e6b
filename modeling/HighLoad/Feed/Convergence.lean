/-
# HighLoad.Feed.Convergence — fan-outs at the same time

Any number of deliveries of created events, to any number of workers of both kinds, interleaved command
by command. A delivery that is cut off is a thread that is not scheduled any more, its redelivery another
thread. What a feed shows, its `feed_max_size` newest entries, is at all times that of the start with some
of the posts put in (`Extended`), and once each event has been handled to its end by someone, with all of
them (`fanouts_converge`), whatever the order of the commands was.
-/
import HighLoad.Feed.Bounded
import HighLoad.Feed.Window

namespace HighLoad.Feed

open Prog TopN

variable {order : RowOrder} {cfg : Settings} {w w' : World} {time : Uuid → DateTime}
  {P : Uuid → Finset (Entry DateTime Uuid)}

/-! ## What the threads do to the feeds -/

/-- The entries of the feeds have the times of their posts. -/
def Dated (time : Uuid → DateTime) (w : World) : Prop :=
  ∀ u, ∀ e ∈ w.feedSet u, e.score = time e.member

/-- Posts of `P` have been put into the windows of the feeds; followers and celebrities are the same. -/
structure Extended (cfg : Settings) (time : Uuid → DateTime) (P : Uuid → Finset (Entry DateTime Uuid))
    (w w' : World) : Prop where
  db : w'.db = w.db
  flags : ∀ a, celebrityFlag cfg w' a = celebrityFlag cfg w a
  dated : Dated time w → Dated time w'
  window : Dated time w → ∀ u, ∃ added ⊆ P u,
    top cfg.feedMaxSize (w'.feedSet u) = top cfg.feedMaxSize (w.feedSet u ∪ added)

/-- A command that leaves feeds, tables and flags alone. -/
theorem Extended.of_same (hdb : w'.db = w.db) (hfeeds : ∀ u, w'.feedSet u = w.feedSet u)
    (hflags : ∀ a, celebrityFlag cfg w' a = celebrityFlag cfg w a) : Extended cfg time P w w' where
  db := hdb
  flags := hflags
  dated h u e he := h u e (hfeeds u ▸ he)
  window _ u := ⟨∅, Finset.empty_subset _, by rw [hfeeds, Finset.union_empty]⟩

instance : Std.Refl (Extended cfg time P) where
  refl _ := .of_same rfl (fun _ => rfl) fun _ => rfl

instance : IsTrans World (Extended cfg time P) where
  trans w w' w'' h h' :=
    { db := h'.db.trans h.db
      flags := fun a => (h'.flags a).trans (h.flags a)
      dated := fun hw => h'.dated (h.dated hw)
      window := fun hw u => by
        obtain ⟨added, hadded, heq⟩ := h.window hw u
        obtain ⟨added', hadded', heq'⟩ := h'.window (h.dated hw) u
        refine ⟨added ∪ added', Finset.union_subset hadded hadded', ?_⟩
        rw [heq', top_union_of_eq heq, Finset.union_assoc] }

/-- `ZADD` of a post of `P`. -/
theorem extended_zadd {u : Uuid} {id : Uuid} (hP : (⟨time id, id⟩ : Entry DateTime Uuid) ∈ P u)
    (w : World) : Extended cfg time P w (w.modifyZset (.feed u) fun z => z.add (time id) id) := by
  have hfeed : ∀ v, Dated time w →
      (w.modifyZset (.feed u) fun z => z.add (time id) id).feedSet v
        = if v = u then insert ⟨time id, id⟩ (w.feedSet v) else w.feedSet v := by
    intro v hw
    unfold World.feedSet
    rw [World.feed_modifyZset]
    split_ifs
    · ext e
      rw [List.mem_toFinset, SortedSet.mem_add, Finset.mem_insert, List.mem_toFinset]
      refine or_congr_right' fun hne => ⟨And.left, fun he => ⟨he, fun hid => hne ?_⟩⟩
      -- the member is there already: with the same time
      have hscore := hw v e (List.mem_toFinset.mpr he)
      rw [hid] at hscore
      cases e
      simp_all
    · rfl
  refine ⟨rfl, fun _ => rfl, fun hw v e he => ?_, fun hw v => ?_⟩
  · rw [hfeed v hw] at he
    split_ifs at he
    · rcases Finset.mem_insert.mp he with rfl | he
      · rfl
      · exact hw v e he
    · exact hw v e he
  · rw [hfeed v hw]
    split_ifs with heq
    · subst heq
      exact ⟨{⟨time id, id⟩}, Finset.singleton_subset_iff.mpr hP, by rw [Finset.union_comm]; rfl⟩
    · exact ⟨∅, Finset.empty_subset _, by rw [Finset.union_empty]⟩

/-- The trim to the window. -/
theorem extended_trim (u : Uuid) (w : World) : Extended cfg time P w (w.modifyZset (.feed u)
    fun z => z.removeRangeByRank 0 (-((cfg.feedMaxSize : Int) + 1))) := by
  have hfeed : ∀ v, (w.modifyZset (.feed u)
      fun z => z.removeRangeByRank 0 (-((cfg.feedMaxSize : Int) + 1))).feedSet v
        = if v = u then top cfg.feedMaxSize (w.feedSet v) else w.feedSet v := by
    intro v
    unfold World.feedSet
    rw [World.feed_modifyZset]
    split_ifs
    · exact toFinset_trim _ _
    · rfl
  refine ⟨rfl, fun _ => rfl, fun hw v e he => ?_, fun hw v => ⟨∅, Finset.empty_subset _, ?_⟩⟩
  · rw [hfeed] at he
    split_ifs at he
    · exact hw v e (top_subset _ _ he)
    · exact hw v e he
  · rw [hfeed, Finset.union_empty]
    split_ifs
    · exact top_top _ _
    · rfl

/-- The post is in the window or below it: putting it in would change nothing. -/
def Placed (cfg : Settings) (e : Entry DateTime Uuid) (u : Uuid) (w : World) : Prop :=
  top cfg.feedMaxSize (insert e (w.feedSet u)) = top cfg.feedMaxSize (w.feedSet u)

theorem Placed.extended {e : Entry DateTime Uuid} {u : Uuid} (h : Placed cfg e u w)
    (hw : Dated time w) (hR : Extended cfg time P w w') : Placed cfg e u w' := by
  obtain ⟨added, -, heq⟩ := hR.window hw u
  exact top_insert_of_extended h heq

theorem placed_zadd (w : World) (u : Uuid) (t : DateTime) (id : Uuid) :
    Placed cfg ⟨t, id⟩ u (w.modifyZset (.feed u) fun z => z.add t id) := by
  have hmem : (⟨t, id⟩ : Entry DateTime Uuid)
      ∈ (w.modifyZset (.feed u) fun z => z.add t id).feedSet u := by
    unfold World.feedSet
    rw [World.feed_modifyZset, if_pos rfl]
    simp
  unfold Placed
  rw [Finset.insert_eq_self.mpr hmem]

/-! ## The functions of the workers -/

/-- No condition on the commands. -/
def always : (β : Type) → Command β → World → Bool := fun _ _ _ => true

/-- A command that extends the windows, if anything. -/
def Extends (order : RowOrder) (cfg : Settings) (time : Uuid → DateTime)
    (P : Uuid → Finset (Entry DateTime Uuid)) (β : Type) (c : Command β) : Prop :=
  ∀ w b w', exec order β c w = .ok (b, w') → Extended cfg time P w w'

theorem ensures_of_extends {α : Type} {p : Py α} {Q : Except PyError α → Prop}
    (hp : p.Within (exec order) (Extends order cfg time P) Q) :
    p.Ensures (exec order) always (Extended cfg time P) (fun r _ => Q r) w :=
  hp.ensures (fun _ _ t b t' hc hok => hc t b t' hok) w

/-- A command that reads. -/
theorem extends_read {β : Type} {c : Command β} (hc : ∀ w b w', exec order β c w = .ok (b, w') → w' = w) :
    Extends order cfg time P β c := by
  intro w b w' h
  rw [hc w b w' h]
  exact refl_of (Extended cfg time P) w

theorem extending_storeBody (body : PostEvent) :
    (storeBody body).Within (exec order) (Extends order cfg time P) Returns := by
  unfold storeBody storePostHash
  split_ifs
  · refine (within_pipeline fun c hc => ?_).then fun _ => within_pure ()
    simp only [List.mem_cons, List.not_mem_nil, or_false] at hc
    rcases hc with rfl | rfl
    · refine ⟨fun w b w' h => ?_, fun _ => ⟨(), rfl⟩⟩
      obtain ⟨-, rfl⟩ := Prod.mk.inj (Except.ok.inj h)
      exact .of_same rfl (fun _ => rfl) fun _ => rfl
    · exact ⟨extends_read fun w b w' h => (Prod.mk.inj (Except.ok.inj h)).2.symm, fun _ => ⟨(), rfl⟩⟩
  · exact within_pure ()

theorem extending_notifyFollowers (body : PostEvent) :
    (notifyFollowers cfg body).Within (exec order) (Extends order cfg time P) Returns := by
  have hselect : Extends order cfg time P _ (.selectFollowers body.authorId) :=
    extends_read fun w b w' h => (Prod.mk.inj (Except.ok.inj h)).2.symm
  have hhget : Extends order cfg time P _ (.hgetText body.postId) :=
    extends_read fun w b w' h => (Prod.mk.inj (Except.ok.inj h)).2.symm
  unfold notifyFollowers getFollowers
  refine (within_call hselect fun _ => ⟨_, rfl⟩).then fun followers => ?_
  split_ifs
  · exact within_pure ()
  · refine Within.then ?_ fun text => (within_pipeline fun c hc => ?_).then fun _ => within_pure ()
    · unfold notificationText
      split_ifs
      · exact within_pure _
      · exact (within_call hhget fun _ => ⟨_, rfl⟩).then fun cached => within_pure _
    · obtain ⟨u, -, rfl⟩ := List.mem_map.mp hc
      refine ⟨fun w b w' h => ?_, fun _ => ⟨(), rfl⟩⟩
      obtain ⟨-, rfl⟩ := Prod.mk.inj (Except.ok.inj h)
      exact .of_same rfl (fun _ => rfl) fun _ => rfl

/-- **The flag that a worker acts upon is the flag of the author**, whoever caches it meanwhile. -/
theorem ensures_isCelebrity (author : Uuid) (w : World) :
    (isCelebrity cfg author).Ensures (exec order) always (Extended cfg time P)
      (fun r v => r = .ok (celebrityFlag cfg v author)) w := by
  unfold isCelebrity
  refine (ensures_call (Q := fun r v => ∃ cached, r = .ok cached ∧ ∀ v', Extended cfg time P v v' →
    celebrityFlag cfg v' author = cached.elim
      (decide (cfg.celebrityFollowersThreshold ≤ (v'.db.countFollowers author : Int)))
      fun value => value.isOne) ?_ ?_).bind ?_ ?_
  · intro t _ _ cached t' h
    obtain ⟨rfl, rfl⟩ := Prod.mk.inj (Except.ok.inj h)
    refine ⟨refl_of (Extended cfg time P) _, fun v hv => ⟨_, rfl, fun v' hv' => ?_⟩⟩
    rw [hv'.flags, hv.flags, hv'.db, hv.db]
    unfold celebrityFlag
    cases t.redis.celebrity author <;> rfl
  · intro t _ _ e h
    cases h
  · rintro cached t ⟨_, heq, hflag⟩
    obtain rfl := Except.ok.inj heq
    cases cached with
    | some value => exact ensures_ret fun v hv => by rw [hflag v hv, Option.elim_some]
    | none =>
        -- nothing was cached: the flag is the comparison, then and later
        refine (ensures_call (Q := fun r v => r = .ok (v.db.countFollowers author) ∧
          ∀ v', Extended cfg time P v v' → celebrityFlag cfg v' author
            = decide (cfg.celebrityFollowersThreshold ≤ (v'.db.countFollowers author : Int))) ?_ ?_).bind ?_ ?_
        · intro t' ht' _ n t'' h
          obtain ⟨rfl, rfl⟩ := Prod.mk.inj (Except.ok.inj h)
          refine ⟨refl_of (Extended cfg time P) _, fun v hv => ⟨by rw [hv.db], fun v' hv' => ?_⟩⟩
          exact hflag v' (trans_of _ ht' (trans_of _ hv hv'))
        · intro t' _ _ e h
          cases h
        · rintro n t' ⟨heq', hflag'⟩
          obtain rfl := Except.ok.inj heq'
          refine (ensures_call (Q := fun r v => r = .ok () ∧ celebrityFlag cfg v author
            = decide (cfg.celebrityFollowersThreshold ≤ (t'.db.countFollowers author : Int))) ?_ ?_).bind ?_ ?_
          · intro t₁ ht₁ _ b t₂ h
            obtain ⟨-, rfl⟩ := Prod.mk.inj (Except.ok.inj h)
            have hsame : ∀ a, celebrityFlag cfg (t₁.setCelebrity author (some (flagValue
                (decide (cfg.celebrityFollowersThreshold ≤ (t'.db.countFollowers author : Int)))))) a
                  = celebrityFlag cfg t₁ a := by
              intro a
              by_cases ha : a = author
              · subst ha
                rw [hflag' t₁ ht₁, ht₁.db]
                unfold celebrityFlag World.setCelebrity
                dsimp only
                rw [Function.update_self]
                exact isOne_flagValue _
              · unfold celebrityFlag World.setCelebrity
                dsimp only
                rw [Function.update_of_ne ha]
            refine ⟨.of_same rfl (fun _ => rfl) hsame, fun v hv => ⟨rfl, ?_⟩⟩
            rw [hv.flags, hsame, hflag' t₁ ht₁, ht₁.db]
          · intro t₁ _ _ e h
            cases h
          · rintro _ v ⟨-, hv⟩
            refine ensures_ret fun v' hv' => ?_
            rw [hv'.flags, hv]
          · rintro e v ⟨heq, -⟩
            cases heq
        · rintro e t' ⟨heq', -⟩
          cases heq'
  · rintro e t ⟨_, heq, -⟩
    cases heq

/-- What is left of a fan-out: in each feed the post is placed, or is still to be put into it. -/
structure Pushing (cfg : Settings) (time : Uuid → DateTime) (followers : List Uuid) (id : Uuid)
    (cs : List (Command Unit)) (w : World) : Prop where
  dated : Dated time w
  left : ∀ c ∈ cs, ∃ u ∈ followers, c = .zadd (.feed u) (time id) id ∨ c = trimFeed cfg.feedMaxSize u
  feeds : ∀ u ∈ followers, Placed cfg ⟨time id, id⟩ u w ∨ .zadd (.feed u) (time id) id ∈ cs

/-- One write of a fan-out. -/
theorem Pushing.write {followers : List Uuid} {id : Uuid} {c : Command Unit} {cs : List (Command Unit)}
    (h : Pushing cfg time followers id (c :: cs) w)
    (hP : ∀ u ∈ followers, (⟨time id, id⟩ : Entry DateTime Uuid) ∈ P u) :
    ∃ w', exec order Unit c w = .ok ((), w') ∧ Extended cfg time P w w' ∧
      Pushing cfg time followers id cs w' := by
  obtain ⟨u, hu, hc⟩ := h.left c List.mem_cons_self
  have hleft := fun d hd => h.left d (List.mem_cons_of_mem c hd)
  rcases hc with rfl | rfl
  · have hR : Extended cfg time P w (w.modifyZset (.feed u) fun z => z.add (time id) id) :=
      extended_zadd (hP u hu) w
    refine ⟨_, rfl, hR, hR.dated h.dated, hleft, fun v hv => ?_⟩
    by_cases hvu : v = u
    · subst hvu
      exact Or.inl (placed_zadd w v (time id) id)
    · refine (h.feeds v hv).imp (fun hplaced => hplaced.extended h.dated hR) fun hmem => ?_
      rcases List.mem_cons.mp hmem with heq | hmem
      · simp only [Command.zadd.injEq, FeedKey.feed.injEq] at heq
        exact absurd heq.1 hvu
      · exact hmem
  · have hR : Extended cfg time P w (w.modifyZset (.feed u)
        fun z => z.removeRangeByRank 0 (-((cfg.feedMaxSize : Int) + 1))) := extended_trim u w
    refine ⟨_, rfl, hR, hR.dated h.dated, hleft, fun v hv => ?_⟩
    refine (h.feeds v hv).imp (fun hplaced => hplaced.extended h.dated hR) fun hmem => ?_
    rcases List.mem_cons.mp hmem with heq | hmem
    · cases heq
    · exact hmem

/-- **A fan-out places the post in the feeds of all followers**, whatever the others write to them. -/
theorem ensures_fanOutPost {id author : Uuid} (hdated : Dated time w)
    (hP : ∀ u ∈ w.db.followers author, (⟨time id, id⟩ : Entry DateTime Uuid) ∈ P u) :
    (fanOutPost cfg id author (time id)).Ensures (exec order) always (Extended cfg time P)
      (fun r v => Returns r ∧ ∀ u ∈ w.db.followers author, Placed cfg ⟨time id, id⟩ u v) w := by
  have hstable : ∀ v v', Dated time v → Extended cfg time P v v' →
      (∀ u ∈ w.db.followers author, Placed cfg ⟨time id, id⟩ u v) →
        ∀ u ∈ w.db.followers author, Placed cfg ⟨time id, id⟩ u v' := fun v v' hv hR hplaced u hu =>
    (hplaced u hu).extended hv hR
  unfold fanOutPost getFollowers
  refine (ensures_call (Q := fun r v => r = .ok (w.db.followers author) ∧ Dated time v) ?_ ?_).bind ?_ ?_
  · intro t ht _ followers t' h
    obtain ⟨rfl, rfl⟩ := Prod.mk.inj (Except.ok.inj h)
    refine ⟨refl_of (Extended cfg time P) _, fun v hv => ⟨by rw [ht.db], hv.dated (ht.dated hdated)⟩⟩
  · intro t _ _ e h
    cases h
  · rintro followers t ⟨heq, ht⟩
    obtain rfl := Except.ok.inj heq
    split_ifs with hempty
    · refine ensures_ret fun v _ => ⟨⟨(), rfl⟩, ?_⟩
      rw [List.isEmpty_iff.mp hempty]
      exact fun u hu => absurd hu List.not_mem_nil
    · refine (ensures_writes (Pushing cfg time (w.db.followers author) id) ?_ ?_ ?_).bind ?_ ?_
      · exact fun cs t₁ t₂ h hR => ⟨hR.dated h.dated, h.left, fun u hu =>
          (h.feeds u hu).imp_left fun hplaced => hplaced.extended h.dated hR⟩
      · exact fun c cs t₁ h _ => h.write hP
      · refine ⟨ht, fun c hc => ?_, fun u hu => Or.inr ?_⟩
        · obtain ⟨u, hu, hc⟩ := List.mem_flatMap.mp hc
          simp only [List.mem_cons, List.not_mem_nil, or_false] at hc
          exact ⟨u, hu, hc⟩
        · exact List.mem_flatMap.mpr ⟨u, hu, List.mem_cons_self⟩
      · rintro _ t₁ ⟨-, h⟩
        refine ensures_ret fun v hv => ⟨⟨(), rfl⟩, hstable t₁ v h.dated hv fun u hu => ?_⟩
        exact (h.feeds u hu).resolve_right List.not_mem_nil
      · rintro e t₁ ⟨⟨_, heq⟩, -⟩
        cases heq
  · rintro e t ⟨heq, -⟩
    cases heq

/-! ## Deliveries -/

namespace Delivery

def eventType : Delivery → String
  | .event e => e.eventType
  | .message body => body.eventType

def postId : Delivery → Uuid
  | .event e => e.postId
  | .message body => body.postId

def authorId : Delivery → Uuid
  | .event e => e.authorId
  | .message body => body.authorId

def createdAt : Delivery → DateTime
  | .event e => e.createdAt
  | .message body => body.createdAt

/-- The entry of the post in a feed. -/
def entry (d : Delivery) : Entry DateTime Uuid := ⟨d.createdAt, d.postId⟩

/-- The worker puts the post into the feeds of the author's followers. -/
def Pushes (cfg : Settings) (w : World) : Delivery → Prop
  | .event e => e.eventType = "created"
  | .message body => body.eventType = "created" ∧ celebrityFlag cfg w body.authorId = false

instance (cfg : Settings) (w : World) : (d : Delivery) → Decidable (d.Pushes cfg w)
  | .event _ => inferInstanceAs (Decidable (_ = _))
  | .message _ => inferInstanceAs (Decidable (_ ∧ _))

end Delivery

/-- The posts that reach the feed of a user. -/
def pushedTo (cfg : Settings) (w : World) (ds : List Delivery) (u : Uuid) :
    Finset (Entry DateTime Uuid) :=
  ((ds.filter fun d => d.Pushes cfg w ∧ u ∈ w.db.followers d.authorId).map Delivery.entry).toFinset

theorem mem_pushedTo {ds : List Delivery} {u : Uuid} {e : Entry DateTime Uuid} :
    e ∈ pushedTo cfg w ds u
      ↔ ∃ d ∈ ds, (d.Pushes cfg w ∧ u ∈ w.db.followers d.authorId) ∧ d.entry = e := by
  simp [pushedTo, and_assoc]

section

variable {author id : Uuid}

/-- The post is placed in the feeds of all followers, in a world that others may have extended. -/
def AllPlaced (cfg : Settings) (time : Uuid → DateTime) (P : Uuid → Finset (Entry DateTime Uuid))
    (w : World) (author id : Uuid) (v : World) : Prop :=
  Extended cfg time P w v ∧ ∀ u ∈ w.db.followers author, Placed cfg ⟨time id, id⟩ u v

theorem AllPlaced.extended (hdated : Dated time w) {v v' : World}
    (h : AllPlaced cfg time P w author id v) (hR : Extended cfg time P v v') :
    AllPlaced cfg time P w author id v' :=
  ⟨trans_of _ h.1 hR, fun u hu => (h.2 u hu).extended (h.1.dated hdated) hR⟩

/-- A fan-out that starts later. -/
theorem ensures_laterFanOut (hdated : Dated time w) {t : World} (ht : Extended cfg time P w t)
    (hP : ∀ u ∈ w.db.followers author, (⟨time id, id⟩ : Entry DateTime Uuid) ∈ P u) :
    (fanOutPost cfg id author (time id)).Ensures (exec order) always (Extended cfg time P)
      (fun r v => Returns r ∧ AllPlaced cfg time P w author id v) t := by
  have hsame : t.db.followers author = w.db.followers author := by rw [ht.db]
  refine ((ensures_fanOutPost (ht.dated hdated) (hsame ▸ hP)).frame (J := Extended cfg time P w)
    (fun _ _ h hR => trans_of _ h hR) ht).mono ?_
  rintro r v ⟨⟨hreturns, hplaced⟩, hv⟩
  exact ⟨hreturns, hv, hsame ▸ hplaced⟩

end

/-- **A delivery that has ended has placed its post** in the feeds of all followers. -/
theorem ensures_program {ds : List Delivery} {d : Delivery} (hd : d ∈ ds) (hdated : Dated time w)
    (hkind : d.eventType ≠ "deleted") (htime : d.createdAt = time d.postId) :
    (d.program cfg).Ensures (exec order) always (Extended cfg time (pushedTo cfg w ds))
      (fun _ v => d.Pushes cfg w → ∀ u ∈ w.db.followers d.authorId, Placed cfg d.entry u v) w := by
  have hentry : d.entry = ⟨time d.postId, d.postId⟩ := by rw [Delivery.entry, htime]
  have hP : d.Pushes cfg w → ∀ u ∈ w.db.followers d.authorId,
      (⟨time d.postId, d.postId⟩ : Entry DateTime Uuid) ∈ pushedTo cfg w ds u := fun hpushes u hu =>
    mem_pushedTo.mpr ⟨d, hd, ⟨hpushes, hu⟩, hentry⟩
  rw [hentry]
  have hrefl := refl_of (Extended cfg time (pushedTo cfg w ds)) w
  cases d with
  | event e =>
      dsimp only [Delivery.program, handleEvent]
      by_cases hcreated : e.eventType = "created"
      · have htime' : e.createdAt = time e.postId := htime
        rw [if_pos hcreated, htime']
        refine (ensures_laterFanOut hdated hrefl (hP hcreated)).bind ?_ ?_
        · rintro _ t ⟨-, ht⟩
          exact ensures_ret fun v hv _ => (ht.extended hdated hv).2
        · exact fun _ t ht _ => ht.2.2
      · have hkind' : e.eventType ≠ "deleted" := hkind
        rw [if_neg hcreated, if_neg hkind']
        exact ensures_ret fun _ _ hpushes => absurd hpushes hcreated
  | message body =>
      dsimp only [Delivery.program, handleMessage]
      by_cases hcreated : body.eventType = "created"
      · have htime' : body.createdAt = time body.postId := htime
        have hstore : (storeBody body).Ensures (exec order) always
            (Extended cfg time (pushedTo cfg w ds))
            (fun r v => Returns r ∧ Extended cfg time (pushedTo cfg w ds) w v) w :=
          (ensures_of_extends (extending_storeBody body)).frame (fun _ _ h hR => trans_of _ h hR) hrefl
        rw [if_pos hcreated]
        unfold handleCreated
        refine Ensures.bind (Q := fun r v => Returns r ∧ (celebrityFlag cfg w body.authorId = false →
          AllPlaced cfg time (pushedTo cfg w ds) w body.authorId body.postId v)) ?_ ?_ ?_
        · refine hstore.bind ?_ ?_
          · rintro _ t ⟨-, ht⟩
            refine ((ensures_isCelebrity body.authorId t).frame
              (J := Extended cfg time (pushedTo cfg w ds) w) (fun _ _ h hR => trans_of _ h hR) ht).bind ?_ ?_
            · rintro celebrity t ⟨heq, ht⟩
              have hflag : celebrity = celebrityFlag cfg w body.authorId := by
                rw [Except.ok.inj heq, ht.flags]
              subst hflag
              cases hordinary : celebrityFlag cfg w body.authorId with
              | true => exact ensures_ret fun v _ => ⟨⟨(), rfl⟩, fun h => absurd h (by simp)⟩
              | false =>
                  rw [htime', if_neg Bool.false_ne_true]
                  refine (ensures_laterFanOut hdated ht (hP ⟨hcreated, hordinary⟩)).bind ?_ ?_
                  · rintro _ t ⟨-, ht⟩
                    refine ((ensures_of_extends (extending_notifyFollowers body)).frame
                      (fun _ _ h hR => h.extended hdated hR) ht).mono ?_
                    rintro r v ⟨hreturns, hv⟩
                    exact ⟨hreturns, fun _ => hv⟩
                  · rintro e t ⟨⟨_, heq⟩, -⟩
                    cases heq
            · rintro e t ⟨heq, -⟩
              cases heq
          · rintro e t ⟨⟨_, heq⟩, -⟩
            cases heq
        · rintro _ t ⟨-, ht⟩
          exact ensures_ret fun v hv hpushes => ((ht hpushes.2).extended hdated hv).2
        · rintro e t ⟨⟨_, heq⟩, -⟩
          cases heq
      · have hkind' : body.eventType ≠ "deleted" := hkind
        rw [if_neg hcreated, if_neg hkind']
        exact ensures_ret fun _ _ hpushes => absurd hpushes.1 hcreated

/-! ## The run -/

/-- **Fan-outs converge.** At any time the windows of the feeds are those of the start with some of the
posts put in. Once each event has been handled to its end by someone, all posts that are pushed are in;
and when all deliveries have ended, the feeds are these windows and nothing else. -/
theorem fanouts_converge (order : RowOrder) (cfg : Settings) (ds : List Delivery) (w : World)
    (hkinds : ∀ d ∈ ds, d.eventType ≠ "deleted") (htimes : ∀ d ∈ ds, d.createdAt = time d.postId)
    (hdated : Dated time w) {schedule : List Nat} {final : Pool Command PyError World Response}
    (hrun : HighLoad.exec (Pool.step (exec order)) schedule (concurrently cfg [] ds w) = some final) :
    (∀ u, ∃ added ⊆ pushedTo cfg w ds u, top cfg.feedMaxSize (final.state.feedSet u)
        = top cfg.feedMaxSize (w.feedSet u ∪ added)) ∧
      ((∀ d ∈ ds, ∃ i, ds[i]? = some d ∧ (final.outcome i).isSome = true) →
        ∀ u, top cfg.feedMaxSize (final.state.feedSet u)
          = top cfg.feedMaxSize (w.feedSet u ∪ pushedTo cfg w ds u)) ∧
      (w.NoTemp → (∀ u, (w.feed u).entries.length ≤ cfg.feedMaxSize) → final.Ended →
        ∀ u, final.state.feedSet u = top cfg.feedMaxSize (w.feedSet u ∪ pushedTo cfg w ds u)) := by
  have hthread : ∀ {i : Nat} {q : Py Response}, (concurrently cfg [] ds w).threads[i]? = some q →
      ∃ d : Delivery, ds[i]? = some d ∧ d.program cfg = q := by
    intro i q hq
    have hq' : (ds.map (Delivery.program cfg))[i]? = some q := hq
    rw [List.getElem?_map] at hq'
    exact Option.map_eq_some_iff.mp hq'
  have hstart : Pool.Ensured (exec order) always (Extended cfg time (pushedTo cfg w ds))
      (fun i _ v => ∀ d, ds[i]? = some d → d.Pushes cfg w →
        ∀ u ∈ w.db.followers d.authorId, Placed cfg d.entry u v) (concurrently cfg [] ds w) := by
    intro i q hq
    obtain ⟨d, hd, rfl⟩ := hthread hq
    have hmem := List.mem_of_getElem? hd
    refine (ensures_program hmem hdated (hkinds d hmem) (htimes d hmem)).mono ?_
    intro r v hv d' hd'
    obtain rfl := Option.some.inj (hd.symm.trans hd')
    exact hv
  have hmeets : Pool.Meets (exec order) always (concurrently cfg [] ds w) schedule := by
    intro before i after p q _ _ _
    cases q <;> rfl
  obtain ⟨hR, hended⟩ := Pool.ensures_of_meets hstart hmeets hrun
  have hall : (∀ d ∈ ds, ∃ i, ds[i]? = some d ∧ (final.outcome i).isSome = true) →
      ∀ u, top cfg.feedMaxSize (final.state.feedSet u)
        = top cfg.feedMaxSize (w.feedSet u ∪ pushedTo cfg w ds u) := by
    intro hdone u
    obtain ⟨added, hadded, heq⟩ := hR.window hdated u
    -- the other posts are placed: putting them in changes nothing
    have hplaced : ∀ e ∈ pushedTo cfg w ds u, Placed cfg e u final.state := by
      intro e he
      obtain ⟨d, hd, ⟨hpushes, hu⟩, rfl⟩ := mem_pushedTo.mp he
      obtain ⟨i, hi, hout⟩ := hdone d hd
      obtain ⟨r, hr⟩ := Option.isSome_iff_exists.mp hout
      exact hended.ended hr d hi hpushes u hu
    calc top cfg.feedMaxSize (final.state.feedSet u)
        = top cfg.feedMaxSize (final.state.feedSet u ∪ pushedTo cfg w ds u) :=
          (top_union_of_forall hplaced).symm
      _ = top cfg.feedMaxSize (w.feedSet u ∪ added ∪ pushedTo cfg w ds u) := top_union_of_eq heq _
      _ = top cfg.feedMaxSize (w.feedSet u ∪ pushedTo cfg w ds u) := by
          rw [Finset.union_assoc, Finset.union_eq_right.mpr hadded]
  refine ⟨fun u => hR.window hdated u, hall, fun htemp hfits hends u => ?_⟩
  have hnonces : (([] : List Call).filterMap Call.rebuildKey).Nodup := List.nodup_nil
  have hsize := fits_when_ended htemp hfits hnonces hrun hends u
  have hcard : (final.state.feedSet u).card ≤ cfg.feedMaxSize :=
    (List.toFinset_card_le _).trans hsize
  rw [← hall (fun d hd => ?_) u, top_eq_self hcard]
  obtain ⟨i, hi⟩ := List.mem_iff_getElem?.mp hd
  obtain ⟨hlt, -⟩ := List.getElem?_eq_some_iff.mp hi
  have hlength : final.threads.length = ds.length := by
    rw [Pool.length_threads hrun]
    exact List.length_map _
  obtain ⟨q, hq⟩ : ∃ q, final.threads[i]? = some q :=
    ⟨_, List.getElem?_eq_getElem (by rwa [hlength])⟩
  refine ⟨i, hi, ?_⟩
  unfold Pool.outcome
  rw [hq]
  exact List.all_eq_true.mp hends q (List.mem_of_getElem? hq)

/-- User 1 has added user 2; Redis is empty. -/
def oneFollower : World where
  db :=
    { Database.ofUsers [.ofNat 1, .ofNat 2] with
      friendships := [⟨.ofNat 1, .ofNat 2⟩]
      friendships_pkey := List.nodup_singleton _
      no_self_friendship := by decide }
  redis := Redis.empty
  stream := []
  published := []

/-- Two posts, the first one delivered again. -/
def twoPosts : List Delivery :=
  [.event ⟨"created", .ofNat 14, .ofNat 2, noonOf 1 first_day⟩,
    .event ⟨"created", .ofNat 14, .ofNat 2, noonOf 1 first_day⟩,
    .message ⟨"created", .ofNat 15, .ofNat 2, some "b", noonOf 2 second_day⟩]

def twoPostTimes (id : Uuid) : DateTime :=
  if id = .ofNat 14 then noonOf 1 first_day else noonOf 2 second_day

/-- The first delivery crashes between its `ZADD` and the trim; the others overlap. -/
def crashedPush : List Nat := [0, 2, 2, 2, 2, 2, 0, 2, 1, 2, 1, 2, 1, 2, 2]

theorem crashedPush_runs : (HighLoad.exec (Pool.step (exec someOrder)) crashedPush
    (concurrently onePost [] twoPosts oneFollower)).isSome = true := by
  decide +kernel

theorem fanouts_converge_crashedPush :
    top 1 (((HighLoad.exec (Pool.step (exec someOrder)) crashedPush
        (concurrently onePost [] twoPosts oneFollower)).get crashedPush_runs).state.feedSet (.ofNat 1))
      = top 1 (oneFollower.feedSet (.ofNat 1) ∪ pushedTo onePost oneFollower twoPosts (.ofNat 1)) := by
  have htimes : ∀ d ∈ twoPosts, d.createdAt = twoPostTimes d.postId := by decide +kernel
  have hdone : ∀ d ∈ twoPosts, ∃ i, twoPosts[i]? = some d ∧
      ((((HighLoad.exec (Pool.step (exec someOrder)) crashedPush
        (concurrently onePost [] twoPosts oneFollower)).get crashedPush_runs).outcome i).isSome = true) := by
    intro d hd
    simp only [twoPosts, List.mem_cons, List.not_mem_nil, or_false] at hd
    rcases hd with rfl | rfl | rfl
    · exact ⟨1, rfl, by decide +kernel⟩
    · exact ⟨1, rfl, by decide +kernel⟩
    · exact ⟨2, rfl, by decide +kernel⟩
  exact (fanouts_converge someOrder onePost twoPosts oneFollower (by decide +kernel) htimes
    (fun _ _ he => absurd he (Finset.notMem_empty _)) (Option.some_get crashedPush_runs).symm).2.1
      hdone (.ofNat 1)

end HighLoad.Feed
