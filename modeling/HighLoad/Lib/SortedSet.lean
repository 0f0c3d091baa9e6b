/-
# HighLoad.Lib.SortedSet — sets of members ordered by score

The sorted sets of Redis: each member once, with a score, kept in ascending order of score and, at
equal scores, of member. The type carries both invariants. The operations are those of the commands:

* `add` — `ZADD key score member`; a member that is there already moves to its new score;
* `removeAll` — `ZREM key member …`;
* `range`, `revRange` — `ZRANGE`, `ZREVRANGE`, with the index arithmetic of Redis;
* `removeRangeByRank` — `ZREMRANGEBYRANK`.

A set is determined by its entries (`ext_mem`), so what an operation does is said by its membership
lemma. An absent key is the empty set.
-/
import Mathlib.Data.List.Sort
import Mathlib.Data.Prod.Lex

namespace HighLoad

/-- A member with its score. -/
structure Entry (σ μ : Type*) where
  score : σ
  member : μ
  deriving DecidableEq

namespace Entry

variable {σ μ : Type*} [LinearOrder σ] [LinearOrder μ]

/-- Entries compare by score, then by member. -/
instance : LinearOrder (Entry σ μ) :=
  LinearOrder.lift' (fun e => toLex (e.score, e.member)) (by
    rintro ⟨s, m⟩ ⟨s', m'⟩ h
    have h' : (s, m) = (s', m') := toLex.injective h
    cases h'
    rfl)

theorem le_def {e f : Entry σ μ} :
    e ≤ f ↔ e.score < f.score ∨ (e.score = f.score ∧ e.member ≤ f.member) :=
  Prod.Lex.toLex_le_toLex

end Entry

/-! ## Index arithmetic -/

/-- The first index and the number of elements that the inclusive index range `start … stop` covers
in a list of `len` elements. Negative indices count from the end. -/
def clampRange (len : Nat) (start stop : Int) : Nat × Nat :=
  let s := max (if start < 0 then start + len else start) 0
  let e := if stop < 0 then stop + len else stop
  if e < s ∨ (len : Int) ≤ s then (0, 0)
  else (s.toNat, (min e (len - 1) - s + 1).toNat)

/-- The elements in an inclusive index range. -/
def slice {α : Type*} (l : List α) (start stop : Int) : List α :=
  let (first, count) := clampRange l.length start stop
  (l.drop first).take count

/-- The range `0 … -1` is the whole list. -/
theorem slice_all {α : Type*} (l : List α) : slice l 0 (-1) = l := by
  unfold slice clampRange
  cases l with
  | nil => rfl
  | cons a l =>
      have hstop : ((-1 : Int) + ((a :: l).length : Int)) = l.length := by
        simp only [List.length_cons]
        omega
      have hlt : ¬ ((l.length : Int) < 0 ∨ ((a :: l).length : Int) ≤ 0) := by
        simp only [List.length_cons]
        omega
      have hcount : (min (l.length : Int) (((a :: l).length : Int) - 1) - 0 + 1).toNat
          = (a :: l).length := by
        simp only [List.length_cons]
        omega
      simp only [show ¬ ((0 : Int) < 0) by omega, show ((-1 : Int) < 0) by omega, if_true, if_false,
        max_self, hstop, if_neg hlt, hcount]
      simp

/-- The range `offset … offset + limit - 1` is the page of `limit` elements at `offset`. -/
theorem slice_page {α : Type*} (l : List α) (offset : Nat) {limit : Nat} (h : 1 ≤ limit) :
    slice l offset (offset + limit - 1) = (l.drop offset).take limit := by
  unfold slice clampRange
  have hs : max (if (offset : Int) < 0 then (offset : Int) + l.length else offset) 0
      = (offset : Int) := by
    rw [if_neg (by omega)]
    omega
  simp only [hs, if_neg (show ¬ ((offset : Int) + limit - 1 < 0) by omega)]
  split_ifs with hout
  · have hle : l.length ≤ offset := by omega
    rw [List.drop_eq_nil_of_le hle]
    simp
  · have hlen : (l.drop offset).length = l.length - offset := List.length_drop
    rw [Int.toNat_natCast]
    refine List.take_eq_take_iff.mpr ?_
    rw [hlen]
    omega

/-- A set of members with scores, in ascending order. -/
structure SortedSet (σ μ : Type*) [LinearOrder σ] [LinearOrder μ] where
  entries : List (Entry σ μ)
  ascending : entries.Pairwise (· ≤ ·)
  unique : (entries.map Entry.member).Nodup

namespace SortedSet

variable {σ μ : Type*} [LinearOrder σ] [LinearOrder μ]

/-- The key that does not exist. -/
def empty : SortedSet σ μ where
  entries := []
  ascending := List.Pairwise.nil
  unique := List.nodup_nil

theorem nodup (z : SortedSet σ μ) : z.entries.Nodup := List.Nodup.of_map _ z.unique

/-- **A sorted set is determined by its entries.** -/
theorem ext_mem {z z' : SortedSet σ μ} (h : ∀ e, e ∈ z.entries ↔ e ∈ z'.entries) : z = z' := by
  have hperm : z.entries.Perm z'.entries :=
    (List.perm_ext_iff_of_nodup z.nodup z'.nodup).mpr h
  have heq : z.entries = z'.entries :=
    List.Perm.eq_of_pairwise' z.ascending z'.ascending hperm
  cases z
  cases z'
  cases heq
  rfl

/-- `EXISTS key`: sets that lose their last member cease to exist. -/
def «exists» (z : SortedSet σ μ) : Bool := !z.entries.isEmpty

theorem exists_iff {z : SortedSet σ μ} : z.exists = true ↔ ∃ e, e ∈ z.entries := by
  unfold «exists»
  cases z.entries with
  | nil => simp
  | cons e es => simp

theorem not_exists_iff {z : SortedSet σ μ} : z.exists = false ↔ z = empty := by
  constructor
  · intro h
    apply ext_mem
    intro e
    constructor
    · intro he
      rw [exists_iff.mpr ⟨e, he⟩] at h
      exact absurd h (by decide)
    · exact fun he => absurd he List.not_mem_nil
  · rintro rfl
    rfl

@[simp] theorem not_mem_empty {e : Entry σ μ} : e ∉ (empty : SortedSet σ μ).entries :=
  List.not_mem_nil

/-- The set has the member. -/
def Has (z : SortedSet σ μ) (m : μ) : Prop := ∃ e ∈ z.entries, e.member = m

@[simp] theorem not_has_empty {m : μ} : ¬ (empty : SortedSet σ μ).Has m := by
  rintro ⟨e, he, -⟩
  exact not_mem_empty he

/-- Read from the end, a set is any descending list without repetitions of its entries. -/
theorem reverse_entries_eq {z : SortedSet σ μ} {l : List (Entry σ μ)} (hsorted : l.Pairwise (· ≥ ·))
    (hnodup : l.Nodup) (h : ∀ e, e ∈ z.entries ↔ e ∈ l) : z.entries.reverse = l := by
  have hperm : z.entries.reverse.Perm l :=
    (List.reverse_perm _).trans ((List.perm_ext_iff_of_nodup z.nodup hnodup).mpr h)
  refine List.Perm.eq_of_pairwise' ?_ hsorted hperm
  exact List.pairwise_reverse.mpr z.ascending

/-! ## ZREM -/

/-- `ZREM key member …`. -/
def removeAll (z : SortedSet σ μ) (ms : List μ) : SortedSet σ μ where
  entries := z.entries.filter fun e => e.member ∉ ms
  ascending := z.ascending.sublist List.filter_sublist
  unique := z.unique.sublist (List.filter_sublist.map _)

@[simp] theorem mem_removeAll {z : SortedSet σ μ} {ms : List μ} {e : Entry σ μ} :
    e ∈ (z.removeAll ms).entries ↔ e ∈ z.entries ∧ e.member ∉ ms := by
  simp [removeAll]

@[simp] theorem has_removeAll {z : SortedSet σ μ} {ms : List μ} {m : μ} :
    (z.removeAll ms).Has m ↔ z.Has m ∧ m ∉ ms := by
  constructor
  · rintro ⟨e, he, rfl⟩
    obtain ⟨hz, hnot⟩ := mem_removeAll.mp he
    exact ⟨⟨e, hz, rfl⟩, hnot⟩
  · rintro ⟨⟨e, he, rfl⟩, hnot⟩
    exact ⟨e, mem_removeAll.mpr ⟨he, hnot⟩, rfl⟩

@[simp] theorem removeAll_nil (z : SortedSet σ μ) : z.removeAll [] = z := by
  apply ext_mem
  intro e
  simp

/-! ## ZADD -/

/-- `ZADD key score member`. -/
def add (z : SortedSet σ μ) (s : σ) (m : μ) : SortedSet σ μ where
  entries := (z.removeAll [m]).entries.orderedInsert (· ≤ ·) ⟨s, m⟩
  ascending := (z.removeAll [m]).ascending.orderedInsert _ _
  unique := by
    have hperm := ((z.removeAll [m]).entries.perm_orderedInsert (· ≤ ·) ⟨s, m⟩).map Entry.member
    rw [hperm.nodup_iff, List.map_cons, List.nodup_cons]
    refine ⟨?_, (z.removeAll [m]).unique⟩
    rw [List.mem_map]
    rintro ⟨e, he, hm⟩
    exact (mem_removeAll.mp he).2 (List.mem_singleton.mpr hm)

@[simp] theorem mem_add {z : SortedSet σ μ} {s : σ} {m : μ} {e : Entry σ μ} :
    e ∈ (z.add s m).entries ↔ e = ⟨s, m⟩ ∨ (e ∈ z.entries ∧ e.member ≠ m) := by
  simp [add]

@[simp] theorem has_add {z : SortedSet σ μ} {s : σ} {m m' : μ} :
    (z.add s m).Has m' ↔ m' = m ∨ z.Has m' := by
  constructor
  · rintro ⟨e, he, rfl⟩
    obtain rfl | ⟨hz, -⟩ := mem_add.mp he
    · exact Or.inl rfl
    · exact Or.inr ⟨e, hz, rfl⟩
  · intro h
    by_cases hm : m' = m
    · exact ⟨⟨s, m⟩, mem_add.mpr (Or.inl rfl), hm.symm⟩
    · obtain ⟨e, he, rfl⟩ := h.resolve_left hm
      exact ⟨e, mem_add.mpr (Or.inr ⟨he, hm⟩), rfl⟩

/-- `ZADD` of several entries, one after the other. -/
def addAll (z : SortedSet σ μ) (es : List (Entry σ μ)) : SortedSet σ μ :=
  es.foldl (fun z e => z.add e.score e.member) z

@[simp] theorem addAll_nil (z : SortedSet σ μ) : z.addAll [] = z := rfl

theorem addAll_cons (z : SortedSet σ μ) (e : Entry σ μ) (es : List (Entry σ μ)) :
    z.addAll (e :: es) = (z.add e.score e.member).addAll es := rfl

/-- Entries with different members are all added; they replace the entries with their members. -/
theorem mem_addAll {z : SortedSet σ μ} {es : List (Entry σ μ)} {e : Entry σ μ}
    (hes : (es.map Entry.member).Nodup) :
    e ∈ (z.addAll es).entries ↔ e ∈ es ∨ (e ∈ z.entries ∧ e.member ∉ es.map Entry.member) := by
  induction es generalizing z with
  | nil => simp
  | cons f fs ih =>
      rw [List.map_cons, List.nodup_cons] at hes
      obtain ⟨hf, hfs⟩ := hes
      rw [addAll_cons, ih hfs, mem_add, List.mem_cons, List.map_cons, List.mem_cons, not_or]
      constructor
      · rintro (h | ⟨rfl | ⟨hz, hne⟩, hnot⟩)
        · exact Or.inl (Or.inr h)
        · exact Or.inl (Or.inl rfl)
        · exact Or.inr ⟨hz, hne, hnot⟩
      · rintro ((rfl | h) | ⟨hz, hne, hnot⟩)
        · exact Or.inr ⟨Or.inl rfl, hf⟩
        · exact Or.inl h
        · exact Or.inr ⟨Or.inr ⟨hz, hne⟩, hnot⟩

/-- Whatever the members, an entry of the result was added or was there. -/
theorem mem_of_mem_addAll {z : SortedSet σ μ} {es : List (Entry σ μ)} {e : Entry σ μ}
    (h : e ∈ (z.addAll es).entries) : e ∈ es ∨ e ∈ z.entries := by
  induction es generalizing z with
  | nil => exact Or.inr h
  | cons f fs ih =>
      rcases ih h with h | h
      · exact Or.inl (List.mem_cons_of_mem f h)
      · rcases mem_add.mp h with rfl | ⟨hz, -⟩
        · exact Or.inl List.mem_cons_self
        · exact Or.inr hz

theorem exists_addAll (z : SortedSet σ μ) {es : List (Entry σ μ)} (hes : es ≠ []) :
    (z.addAll es).exists = true := by
  rw [exists_iff]
  induction es generalizing z with
  | nil => exact absurd rfl hes
  | cons f fs ih =>
      cases fs with
      | nil => exact ⟨_, mem_add.mpr (Or.inl rfl)⟩
      | cons g gs => exact ih (z.add f.score f.member) (List.cons_ne_nil g gs)

/-! ## Ranges -/

/-- `ZRANGE key start stop`. -/
def range (z : SortedSet σ μ) (start stop : Int) : List μ :=
  slice (z.entries.map Entry.member) start stop

/-- `ZREVRANGE key start stop`. -/
def revRange (z : SortedSet σ μ) (start stop : Int) : List μ :=
  slice (z.entries.reverse.map Entry.member) start stop

/-- `ZRANGE key 0 -1` returns all members. -/
theorem range_all (z : SortedSet σ μ) : z.range 0 (-1) = z.entries.map Entry.member :=
  slice_all _

theorem mem_range_all {z : SortedSet σ μ} {m : μ} : m ∈ z.range 0 (-1) ↔ z.Has m := by
  rw [range_all, List.mem_map]
  rfl

/-- The members at `offset … offset + limit - 1` from the top. -/
theorem revRange_page (z : SortedSet σ μ) (offset : Nat) {limit : Nat} (h : 1 ≤ limit) :
    z.revRange offset (offset + limit - 1)
      = ((z.entries.reverse.map Entry.member).drop offset).take limit :=
  slice_page _ offset h

/-- `ZREMRANGEBYRANK key start stop`. -/
def removeRangeByRank (z : SortedSet σ μ) (start stop : Int) : SortedSet σ μ :=
  let (first, count) := clampRange z.entries.length start stop
  have hsub : (z.entries.take first ++ z.entries.drop (first + count)).Sublist z.entries := by
    have hdrop : (z.entries.drop (first + count)).Sublist (z.entries.drop first) := by
      rw [← List.drop_drop]
      exact List.drop_sublist _ _
    calc (z.entries.take first ++ z.entries.drop (first + count)).Sublist
          (z.entries.take first ++ z.entries.drop first) := (List.Sublist.refl _).append hdrop
      _ = z.entries := List.take_append_drop _ _
  { entries := z.entries.take first ++ z.entries.drop (first + count)
    ascending := z.ascending.sublist hsub
    unique := z.unique.sublist (hsub.map _) }

theorem mem_of_mem_removeRangeByRank {z : SortedSet σ μ} {start stop : Int} {e : Entry σ μ}
    (he : e ∈ (z.removeRangeByRank start stop).entries) : e ∈ z.entries := by
  rcases List.mem_append.mp he with he | he
  · exact List.mem_of_mem_take he
  · exact List.mem_of_mem_drop he

theorem Has.of_removeRangeByRank {z : SortedSet σ μ} {start stop : Int} {m : μ}
    (h : (z.removeRangeByRank start stop).Has m) : z.Has m := by
  obtain ⟨e, he, rfl⟩ := h
  exact ⟨e, mem_of_mem_removeRangeByRank he, rfl⟩

/-- `ZREMRANGEBYRANK key 0 -(cap + 1)` keeps the `cap` topmost entries. -/
theorem entries_trim (z : SortedSet σ μ) (cap : Nat) :
    (z.removeRangeByRank 0 (-((cap : Int) + 1))).entries
      = z.entries.drop (z.entries.length - cap) := by
  have hrange : clampRange z.entries.length 0 (-((cap : Int) + 1))
      = (0, z.entries.length - cap) := by
    unfold clampRange
    simp only [show ¬ ((0 : Int) < 0) by omega, show -((cap : Int) + 1) < 0 by omega, if_true,
      if_false, max_self]
    split_ifs with hout
    · have hzero : z.entries.length - cap = 0 := by omega
      rw [hzero]
    · rw [Prod.mk.injEq]
      omega
  unfold removeRangeByRank
  simp only [hrange, List.take_zero, List.nil_append, Nat.zero_add]

/-- Nothing is trimmed from a set that fits. -/
theorem trim_of_length_le {z : SortedSet σ μ} {cap : Nat} (h : z.entries.length ≤ cap) :
    z.removeRangeByRank 0 (-((cap : Int) + 1)) = z := by
  refine ext_mem fun e => ?_
  rw [entries_trim, Nat.sub_eq_zero_of_le h, List.drop_zero]

theorem mem_of_mem_trim {z : SortedSet σ μ} {cap : Nat} {e : Entry σ μ}
    (h : e ∈ (z.removeRangeByRank 0 (-((cap : Int) + 1))).entries) : e ∈ z.entries := by
  rw [entries_trim] at h
  exact List.mem_of_mem_drop h

/-! ## Sizes -/

theorem length_removeAll_le (z : SortedSet σ μ) (ms : List μ) :
    (z.removeAll ms).entries.length ≤ z.entries.length :=
  List.length_filter_le _ _

theorem length_add_le (z : SortedSet σ μ) (s : σ) (m : μ) :
    (z.add s m).entries.length ≤ z.entries.length + 1 := by
  have hlength : (z.add s m).entries.length = (z.removeAll [m]).entries.length + 1 :=
    List.orderedInsert_length _ _ _
  rw [hlength]
  exact Nat.succ_le_succ (z.length_removeAll_le [m])

theorem length_removeRangeByRank_le (z : SortedSet σ μ) (start stop : Int) :
    (z.removeRangeByRank start stop).entries.length ≤ z.entries.length := by
  unfold removeRangeByRank
  simp only [List.length_append, List.length_take, List.length_drop]
  omega

/-- After the trim at most `cap` entries are left. -/
theorem length_trim_le (z : SortedSet σ μ) (cap : Nat) :
    (z.removeRangeByRank 0 (-((cap : Int) + 1))).entries.length ≤ cap := by
  rw [entries_trim, List.length_drop]
  omega

/-- A set whose members are all in a list is no larger than the list. -/
theorem length_le_of_subset {z : SortedSet σ μ} {l : List μ} (h : ∀ m, z.Has m → m ∈ l) :
    z.entries.length ≤ l.length := by
  have hsub : z.entries.map Entry.member ⊆ l := by
    intro m hm
    obtain ⟨e, he, rfl⟩ := List.mem_map.mp hm
    exact h _ ⟨e, he, rfl⟩
  have hlen := (List.subperm_of_subset z.unique hsub).length_le
  rwa [List.length_map] at hlen

/-! ## Other scores -/

section

variable {τ : Type*} [LinearOrder τ] {f : σ → τ} {z : SortedSet σ μ} {z' : SortedSet τ μ}

/-- The same set under other scores. -/
def Rescored (f : σ → τ) (z : SortedSet σ μ) (z' : SortedSet τ μ) : Prop :=
  z'.entries = z.entries.map fun e => ⟨f e.score, e.member⟩

/-- The scores of a set lie in `S`. -/
def ScoresIn (S : Set σ) (z : SortedSet σ μ) : Prop := ∀ e ∈ z.entries, e.score ∈ S

theorem rescored_empty : Rescored f (empty : SortedSet σ μ) empty := rfl

theorem Rescored.map_member (h : Rescored f z z') :
    z'.entries.map Entry.member = z.entries.map Entry.member := by
  rw [h, List.map_map]
  rfl

theorem Rescored.length_eq (h : Rescored f z z') : z'.entries.length = z.entries.length := by
  rw [h, List.length_map]

theorem Rescored.exists_eq (h : Rescored f z z') : z'.exists = z.exists := by
  unfold «exists»
  rw [h, List.isEmpty_map]

theorem Rescored.range_eq (h : Rescored f z z') (start stop : Int) :
    z'.range start stop = z.range start stop := by
  rw [range, range, h.map_member]

theorem Rescored.revRange_eq (h : Rescored f z z') (start stop : Int) :
    z'.revRange start stop = z.revRange start stop := by
  rw [revRange, revRange, List.map_reverse, List.map_reverse, h.map_member]

theorem Rescored.removeAll (h : Rescored f z z') (ms : List μ) :
    Rescored f (z.removeAll ms) (z'.removeAll ms) := by
  unfold Rescored SortedSet.removeAll
  dsimp only
  rw [h, List.filter_map]
  rfl

theorem Rescored.removeRangeByRank (h : Rescored f z z') (start stop : Int) :
    Rescored f (z.removeRangeByRank start stop) (z'.removeRangeByRank start stop) := by
  unfold Rescored SortedSet.removeRangeByRank
  rw [h.length_eq]
  dsimp only
  rw [h, List.map_append, List.map_take, List.map_drop]

/-- **Scores that are ordered alike sort alike.** -/
theorem rescored_of_mem {S : Set σ} (hf : StrictMonoOn f S) (hz : z.ScoresIn S)
    (h : ∀ e', e' ∈ z'.entries ↔ ∃ e ∈ z.entries, (⟨f e.score, e.member⟩ : Entry τ μ) = e') :
    Rescored f z z' := by
  have hmap : ∀ e ∈ z.entries, ∀ e' ∈ z.entries, e ≤ e' →
      (⟨f e.score, e.member⟩ : Entry τ μ) ≤ ⟨f e'.score, e'.member⟩ := by
    intro e he e' he' hle
    rw [Entry.le_def] at hle ⊢
    rcases hle with hlt | ⟨heq, hmember⟩
    · exact Or.inl (hf (hz e he) (hz e' he') hlt)
    · exact Or.inr ⟨congrArg f heq, hmember⟩
  have hsorted : (z.entries.map fun e => (⟨f e.score, e.member⟩ : Entry τ μ)).Pairwise (· ≤ ·) :=
    List.pairwise_map.mpr (z.ascending.imp_of_mem fun he he' hle => hmap _ he _ he' hle)
  have hnodup : (z.entries.map fun e => (⟨f e.score, e.member⟩ : Entry τ μ)).Nodup := by
    refine List.Nodup.of_map Entry.member ?_
    rw [List.map_map]
    exact z.unique
  refine List.Perm.eq_of_pairwise' z'.ascending hsorted ((List.perm_ext_iff_of_nodup z'.nodup hnodup).mpr
    fun e' => ?_)
  rw [h, List.mem_map]

theorem Rescored.mem_iff (h : Rescored f z z') {e' : Entry τ μ} :
    e' ∈ z'.entries ↔ ∃ e ∈ z.entries, (⟨f e.score, e.member⟩ : Entry τ μ) = e' := by
  rw [h, List.mem_map]

theorem ScoresIn.add {S : Set σ} (hz : z.ScoresIn S) {s : σ} (hs : s ∈ S) (m : μ) :
    (z.add s m).ScoresIn S := by
  intro e he
  rcases mem_add.mp he with rfl | ⟨he, -⟩
  · exact hs
  · exact hz e he

theorem Rescored.add {S : Set σ} (hf : StrictMonoOn f S) (hz : z.ScoresIn S) (h : Rescored f z z') {s : σ}
    (hs : s ∈ S) (m : μ) : Rescored f (z.add s m) (z'.add (f s) m) := by
  refine rescored_of_mem hf (hz.add hs m) fun e' => ?_
  simp only [mem_add, h.mem_iff]
  constructor
  · rintro (rfl | ⟨⟨e, he, rfl⟩, hne⟩)
    · exact ⟨⟨s, m⟩, Or.inl rfl, rfl⟩
    · exact ⟨e, Or.inr ⟨he, hne⟩, rfl⟩
  · rintro ⟨e, rfl | ⟨he, hne⟩, rfl⟩
    · exact Or.inl rfl
    · exact Or.inr ⟨⟨e, he, rfl⟩, hne⟩

end

end SortedSet

end HighLoad
