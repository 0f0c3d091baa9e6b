/-
# HighLoad.Feed.Celebrity — the two lookups of the celebrity flag agree

`is_celebrity` decides for the worker whether a post is pushed, `get_celebrity_friends` decides for the
reader whose posts are pulled. Both read one function of the cache and the friendships
(`celebrityFlag`) and only fill the cache with its values, so no order of lookups changes an answer.
-/
import HighLoad.Feed.ReadSpecs

namespace HighLoad.Feed

open Prog

variable {order : RowOrder} {cfg : Settings} {w : World}

/-- A lookup: of one author, or of all friends of a user. -/
inductive Lookup where
  | isCelebrity (authorId : Uuid)
  | getCelebrityFriends (userId : Uuid)

/-- The stores after one lookup. -/
def Lookup.after (order : RowOrder) (cfg : Settings) (w : World) : Lookup → World
  | .isCelebrity authorId => ((Feed.isCelebrity cfg authorId).run (exec order) w).2
  | .getCelebrityFriends userId => ((Feed.getCelebrityFriends cfg userId).run (exec order) w).2

/-- A lookup fills the cache for some users and does nothing else. -/
theorem Lookup.after_eq (order : RowOrder) (cfg : Settings) (w : World) (l : Lookup) :
    ∃ ids, l.after order cfg w = w.flagged cfg ids := by
  cases l with
  | isCelebrity authorId =>
      refine ⟨[authorId], ?_⟩
      show ((Feed.isCelebrity cfg authorId).run (exec order) w).2 = _
      rw [run_isCelebrity]
  | getCelebrityFriends userId =>
      refine ⟨w.db.friends userId, ?_⟩
      show ((Feed.getCelebrityFriends cfg userId).run (exec order) w).2 = _
      rw [run_getCelebrityFriends]

/-- **Any mixture of lookups** leaves the friendships and every flag as they were. -/
theorem lookups_keep (order : RowOrder) (cfg : Settings) (ls : List Lookup) (w : World) :
    (ls.foldl (Lookup.after order cfg) w).db = w.db ∧
      ∀ a, celebrityFlag cfg (ls.foldl (Lookup.after order cfg) w) a = celebrityFlag cfg w a := by
  induction ls generalizing w with
  | nil => exact ⟨rfl, fun _ => rfl⟩
  | cons l ls ih =>
      obtain ⟨ids, hafter⟩ := Lookup.after_eq order cfg w l
      obtain ⟨hdb, hflag⟩ := ih (l.after order cfg w)
      rw [List.foldl_cons]
      refine ⟨hdb.trans ?_, fun a => (hflag a).trans ?_⟩
      · rw [hafter]
        rfl
      · rw [hafter, celebrityFlag_flagged]

/-- A cached flag stays, a missing one is filled in. -/
theorem celebrity_flagged {ids : List Uuid} {a : Uuid} (ha : a ∈ ids) :
    (w.flagged cfg ids).redis.celebrity a
      = some ((w.redis.celebrity a).getD (flagValue (celebrityFlag cfg w a))) := by
  rw [World.flagged, World.celebrity_cacheFlags]
  cases hcached : w.redis.celebrity a with
  | some v =>
      have hnot : a ∉ missingFlags w ids := by
        simp [missingFlags, hcached]
      exact if_neg hnot
  | none =>
      have hmem : a ∈ missingFlags w ids := by
        simp [missingFlags, hcached, ha]
      exact if_pos hmem

/-- **The batch lookup agrees with the pointwise one**, in what it returns and in what it leaves in
the cache, before and after any mixture of lookups. -/
theorem celebrityLookups_agree (order : RowOrder) (cfg : Settings) (w : World) (userId : Uuid)
    (ls : List Lookup) :
    ∃ celebrities w', (getCelebrityFriends cfg userId).run (exec order)
        (ls.foldl (Lookup.after order cfg) w) = (.ok celebrities, w') ∧
      (∀ f, f ∈ celebrities ↔ w.db.Follows userId f ∧
        ((isCelebrity cfg f).run (exec order) w).1 = .ok true) ∧
      (∀ f, ((isCelebrity cfg f).run (exec order) (ls.foldl (Lookup.after order cfg) w)).1
        = ((isCelebrity cfg f).run (exec order) w).1) ∧
      ∀ f, w.db.Follows userId f → w'.redis.celebrity f
        = ((isCelebrity cfg f).run (exec order)
            (ls.foldl (Lookup.after order cfg) w)).2.redis.celebrity f := by
  obtain ⟨hdb, hflag⟩ := lookups_keep order cfg ls w
  generalize ls.foldl (Lookup.after order cfg) w = v at hdb hflag
  refine ⟨_, _, run_getCelebrityFriends userId v, ?_, ?_, ?_⟩
  · intro f
    rw [mem_celebrityFriends, hdb, hflag, run_isCelebrity]
    simp
  · intro f
    rw [run_isCelebrity, run_isCelebrity, hflag]
  · intro f hf
    have hfriend : f ∈ v.db.friends userId := by
      rw [hdb]
      exact Database.mem_friends.mpr hf
    rw [run_isCelebrity, celebrity_flagged hfriend, celebrity_flagged List.mem_cons_self]

end HighLoad.Feed
