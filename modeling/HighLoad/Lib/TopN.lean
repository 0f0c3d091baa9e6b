/-
# HighLoad.Lib.TopN — the greatest elements of a finite set

`top k A` are the `k` greatest elements of `A` (all of them, if there are fewer). Whatever lies between
`top k A` and `A` has the same greatest elements (`top_eq_of_between`), so a window of the `k` greatest
can be kept while elements and other windows are merged into it (`top_union_top`). In a list in
ascending order the greatest elements are the last ones, in one in descending order the first
(`mem_drop_iff_top`, `mem_take_iff_top`).
-/
import Mathlib.Data.Finset.Card
import Mathlib.Data.Finset.Max

namespace HighLoad.TopN

variable {α : Type*} [LinearOrder α] {k : ℕ} {A B C : Finset α} {a : α}

/-- The `k` greatest elements: those with fewer than `k` greater ones. -/
def top (k : ℕ) (A : Finset α) : Finset α := A.filter fun a => (A.filter (a < ·)).card < k

theorem mem_top : a ∈ top k A ↔ a ∈ A ∧ (A.filter (a < ·)).card < k := by simp [top]

theorem top_subset (k : ℕ) (A : Finset α) : top k A ⊆ A := Finset.filter_subset _ _

@[simp] theorem top_zero (A : Finset α) : top 0 A = ∅ := by simp [top]

variable [DecidableEq α]

/-- A greatest element takes one of the places. -/
theorem top_insert_max {m : α} (hm : ∀ a ∈ A, a < m) (k : ℕ) :
    top (k + 1) (insert m A) = insert m (top k A) := by
  have hnot : m ∉ A := fun h => lt_irrefl m (hm m h)
  ext a
  rw [mem_top, Finset.mem_insert, Finset.mem_insert, mem_top]
  constructor
  · rintro ⟨rfl | ha, hcard⟩
    · exact Or.inl rfl
    · right
      rw [Finset.filter_insert, if_pos (hm a ha), Finset.card_insert_of_notMem
        fun h => hnot (Finset.mem_of_mem_filter m h)] at hcard
      exact ⟨ha, by omega⟩
  · rintro (rfl | ⟨ha, hcard⟩)
    · refine ⟨Or.inl rfl, ?_⟩
      have hnone : (insert a A).filter (a < ·) = ∅ := by
        rw [Finset.filter_eq_empty_iff]
        intro b hb
        rcases Finset.mem_insert.mp hb with rfl | hb
        · exact lt_irrefl b
        · exact lt_asymm (hm b hb)
      rw [hnone, Finset.card_empty]
      exact Nat.succ_pos k
    · refine ⟨Or.inr ha, ?_⟩
      rw [Finset.filter_insert, if_pos (hm a ha), Finset.card_insert_of_notMem
        fun h => hnot (Finset.mem_of_mem_filter m h)]
      omega

/-- **There are `k` of them**, if there are enough. -/
theorem card_top (k : ℕ) (A : Finset α) : (top k A).card = min k A.card := by
  induction A using Finset.induction_on_max generalizing k with
  | empty => simp [top]
  | insert m A hm ih =>
      have hnot : m ∉ A := fun h => lt_irrefl m (hm m h)
      cases k with
      | zero => simp
      | succ k =>
          rw [top_insert_max hm, Finset.card_insert_of_notMem fun h => hnot (top_subset k A h), ih,
            Finset.card_insert_of_notMem hnot]
          omega

theorem top_eq_self (h : A.card ≤ k) : top k A = A := by
  refine Finset.eq_of_subset_of_card_le (top_subset k A) ?_
  rw [card_top]
  omega

omit [DecidableEq α] in
/-- The greatest of the elements above one are greatest elements of all. -/
theorem top_filter_subset (k : ℕ) (A : Finset α) (a : α) :
    top k (A.filter (a < ·)) ⊆ (top k A).filter (a < ·) := by
  intro b hb
  obtain ⟨hmem, hcard⟩ := mem_top.mp hb
  obtain ⟨hbA, hab⟩ := Finset.mem_filter.mp hmem
  refine Finset.mem_filter.mpr ⟨mem_top.mpr ⟨hbA, ?_⟩, hab⟩
  have habove : (A.filter (a < ·)).filter (b < ·) = A.filter (b < ·) := by
    rw [Finset.filter_filter]
    refine Finset.filter_congr fun c _ => ?_
    exact ⟨And.right, fun hbc => ⟨hab.trans hbc, hbc⟩⟩
  rwa [habove] at hcard

/-- **What lies between the greatest elements and the set has the same greatest elements.** -/
theorem top_eq_of_between (htop : top k A ⊆ C) (hsub : C ⊆ A) : top k C = top k A := by
  ext a
  rw [mem_top, mem_top]
  constructor
  · rintro ⟨ha, hcard⟩
    refine ⟨hsub ha, ?_⟩
    by_contra hmany
    have hfull : (top k (A.filter (a < ·))).card = k := by
      rw [card_top]
      omega
    have hle := Finset.card_le_card
      ((top_filter_subset k A a).trans (Finset.filter_subset_filter (a < ·) htop))
    omega
  · rintro ⟨ha, hcard⟩
    have hle := Finset.card_le_card (Finset.filter_subset_filter (a < ·) hsub)
    exact ⟨htop (mem_top.mpr ⟨ha, hcard⟩), by omega⟩

omit [DecidableEq α] in
/-- The greatest elements of a part that are in it are greatest elements of the part. -/
theorem mem_top_of_subset (hsub : C ⊆ A) (ha : a ∈ C) (htop : a ∈ top k A) : a ∈ top k C := by
  have hle := Finset.card_le_card (Finset.filter_subset_filter (a < ·) hsub)
  have hcard := (mem_top.mp htop).2
  exact mem_top.mpr ⟨ha, by omega⟩

/-- **The merge law**: two windows hold the window of the union. -/
theorem top_union_top (k : ℕ) (A B : Finset α) : top k (top k A ∪ top k B) = top k (A ∪ B) := by
  refine top_eq_of_between (fun a ha => ?_) ?_
  · rcases Finset.mem_union.mp (top_subset k _ ha) with hA | hB
    · exact Finset.mem_union_left _ (mem_top_of_subset Finset.subset_union_left hA ha)
    · exact Finset.mem_union_right _ (mem_top_of_subset Finset.subset_union_right hB ha)
  · exact Finset.union_subset_union (top_subset k A) (top_subset k B)

theorem top_insert_top (k : ℕ) (A : Finset α) (a : α) :
    top k (insert a (top k A)) = top k (insert a A) := by
  refine top_eq_of_between (fun b hb => ?_) (Finset.insert_subset_insert a (top_subset k A))
  rcases Finset.mem_insert.mp (top_subset k _ hb) with rfl | hA
  · exact Finset.mem_insert_self _ _
  · exact Finset.mem_insert_of_mem (mem_top_of_subset (Finset.subset_insert a A) hA hb)

theorem top_top (k : ℕ) (A : Finset α) : top k (top k A) = top k A :=
  top_eq_of_between (Finset.Subset.refl _) (top_subset k A)

section

variable {p : α → Prop} [DecidablePred p]

/-- A window that lost one element while another is left outside of it has a gap. -/
theorem card_filter_top_lt {a b : α} (ha : a ∈ top k A) (hlost : ¬ p a) (hb : b ∈ A) (hleft : p b)
    (hout : b ∉ top k A) : ((top k A).filter p).card < (top k (A.filter p)).card := by
  have hwindow : ((top k A).filter p).card < min k A.card := by
    rw [← card_top]
    exact Finset.card_lt_card (Finset.filter_ssubset.mpr ⟨a, ha, hlost⟩)
  have hrest : ((top k A).filter p).card < (A.filter p).card := by
    refine Finset.card_lt_card ((Finset.ssubset_iff_of_subset
      (Finset.filter_subset_filter p (top_subset k A))).mpr ⟨b, Finset.mem_filter.mpr ⟨hb, hleft⟩, ?_⟩)
    exact fun h => hout (Finset.mem_filter.mp h).1
  rw [card_top]
  omega

/-- **What is left of a window is the window of what is left** exactly when nothing was taken out of the
window, or nothing is left outside of it. -/
theorem filter_top_eq_iff : (top k A).filter p = top k (A.filter p) ↔
    (∀ a ∈ top k A, p a) ∨ ∀ b ∈ A, p b → b ∈ top k A := by
  constructor
  · intro h
    by_contra hgap
    push Not at hgap
    obtain ⟨⟨a, ha, hlost⟩, b, hb, hleft, hout⟩ := hgap
    exact (card_filter_top_lt ha hlost hb hleft hout).ne (congrArg Finset.card h)
  · rintro (hkept | hinside)
    · rw [Finset.filter_true_of_mem hkept]
      refine (top_eq_of_between (fun a ha => ?_) (Finset.filter_subset p A)).symm
      exact Finset.mem_filter.mpr ⟨top_subset k A ha, hkept a ha⟩
    · have hsame : (top k A).filter p = A.filter p := by
        refine (Finset.filter_subset_filter p (top_subset k A)).antisymm fun b hb => ?_
        obtain ⟨hb, hleft⟩ := Finset.mem_filter.mp hb
        exact Finset.mem_filter.mpr ⟨hinside b hb hleft, hleft⟩
      have hcard : (A.filter p).card ≤ k := by
        rw [← hsame]
        have htop := card_top k A
        have hle := Finset.card_filter_le (top k A) p
        omega
      rw [hsame, top_eq_self hcard]

end

/-- What is put in does not see below the window. -/
theorem top_union_of_eq (h : top k A = top k B) (C : Finset α) : top k (A ∪ C) = top k (B ∪ C) := by
  rw [← top_union_top k A C, h, top_union_top]

/-- An element that does not change the window does not change a later one. -/
theorem top_insert_of_extended (ha : top k (insert a A) = top k A) (h : top k B = top k (A ∪ C)) :
    top k (insert a B) = top k B := by
  calc top k (insert a B) = top k (B ∪ {a}) := by rw [Finset.union_comm]; rfl
    _ = top k (A ∪ C ∪ {a}) := top_union_of_eq h {a}
    _ = top k (insert a A ∪ C) := by rw [Finset.union_comm, ← Finset.insert_eq, Finset.insert_union]
    _ = top k (A ∪ C) := top_union_of_eq ha C
    _ = top k B := h.symm

/-- Elements that each leave the window as it is leave it as it is together. -/
theorem top_union_of_forall (h : ∀ b ∈ B, top k (insert b A) = top k A) :
    top k (A ∪ B) = top k A := by
  induction B using Finset.induction_on with
  | empty => rw [Finset.union_empty]
  | insert b B _ ih =>
      have hrest := ih fun c hc => h c (Finset.mem_insert_of_mem hc)
      have hb := h b (Finset.mem_insert_self b B)
      rw [Finset.union_insert]
      exact (top_insert_of_extended hb rfl).trans hrest

/-! ## Lists in order -/

/-- The last elements of an ascending list are its greatest. -/
theorem mem_drop_iff_top {l : List α} (hl : l.Pairwise (· < ·)) (k : ℕ) :
    a ∈ l.drop (l.length - k) ↔ a ∈ top k l.toFinset := by
  induction l with
  | nil => simp [top]
  | cons x l ih =>
      obtain ⟨hx, hl'⟩ := List.pairwise_cons.mp hl
      have hcard : (l.toFinset).card = l.length :=
        List.toFinset_card_of_nodup (hl'.imp fun hlt => ne_of_lt hlt)
      have hxnot : x ∉ l.toFinset := fun h => lt_irrefl x (hx x (List.mem_toFinset.mp h))
      rw [List.toFinset_cons]
      by_cases hfits : l.length + 1 ≤ k
      · rw [List.length_cons, Nat.sub_eq_zero_of_le hfits, List.drop_zero, top_eq_self]
        · simp
        · rw [Finset.card_insert_of_notMem hxnot, hcard]
          exact hfits
      · -- the first element has the others above it
        have hdrop : (x :: l).drop ((x :: l).length - k) = l.drop (l.length - k) := by
          rw [List.length_cons, show l.length + 1 - k = l.length - k + 1 by omega,
            List.drop_succ_cons]
        rw [hdrop, ih hl', mem_top, mem_top]
        constructor
        · rintro ⟨ha, hless⟩
          have hxa := hx a (List.mem_toFinset.mp ha)
          refine ⟨Finset.mem_insert_of_mem ha, ?_⟩
          rwa [Finset.filter_insert, if_neg (lt_asymm hxa)]
        · rintro ⟨ha, hless⟩
          rcases Finset.mem_insert.mp ha with rfl | ha
          · exfalso
            have hall : l.toFinset.filter (a < ·) = l.toFinset := by
              rw [Finset.filter_eq_self]
              exact fun b hb => hx b (List.mem_toFinset.mp hb)
            rw [Finset.filter_insert, if_neg (lt_irrefl a), hall, hcard] at hless
            omega
          · have hxa := hx a (List.mem_toFinset.mp ha)
            rw [Finset.filter_insert, if_neg (lt_asymm hxa)] at hless
            exact ⟨ha, hless⟩

/-- The first elements of a descending list are its greatest. -/
theorem mem_take_iff_top {l : List α} (hl : l.Pairwise (· > ·)) (k : ℕ) :
    a ∈ l.take k ↔ a ∈ top k l.toFinset := by
  have hrev : l.reverse.Pairwise (· < ·) := List.pairwise_reverse.mpr hl
  have htop := mem_drop_iff_top (a := a) hrev k
  rw [List.length_reverse, List.toFinset_reverse, ← List.reverse_take, List.mem_reverse] at htop
  exact htop

omit [DecidableEq α] in
/-- A descending list is determined by its elements. -/
theorem eq_of_descending {l l' : List α} (hl : l.Pairwise (· > ·)) (hl' : l'.Pairwise (· > ·))
    (h : ∀ a, a ∈ l ↔ a ∈ l') : l = l' := by
  have hnodup : l.Nodup := hl.imp fun hgt => hgt.ne'
  have hnodup' : l'.Nodup := hl'.imp fun hgt => hgt.ne'
  refine ((List.perm_ext_iff_of_nodup hnodup hnodup').mpr h).eq_of_pairwise ?_ hl hl'
  exact fun a b _ _ hab hba => absurd hab (lt_asymm hba)

end HighLoad.TopN
