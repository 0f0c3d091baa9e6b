/-
# HighLoad.Lib.TieBreak — sorting numbered entries by a key, ties by number

A list whose entries carry strictly ascending numbers is sorted by a key of their content, descending,
and at equal keys by number, descending. The result depends on the contents only
(`map_insertionSort_newest`): two lists with the same contents in the same order sort to the same
contents, whatever numbers break their ties.
-/
import Mathlib.Data.List.Sort

namespace HighLoad.TieBreak

variable {α β γ κ : Type*} [LinearOrder κ]

/-- Descending by key, ties descending by number. -/
def Newest (key : α → κ) (val : β → α) (num : β → Nat) (x y : β) : Prop :=
  key (val y) < key (val x) ∨ (key (val y) = key (val x) ∧ num y ≤ num x)

instance (key : α → κ) (val : β → α) (num : β → Nat) : DecidableRel (Newest key val num) :=
  fun _ _ => inferInstanceAs (Decidable (_ ∨ (_ ∧ _)))

/-- Entries before which a lower-numbered entry `x` is inserted: those with a smaller key. -/
theorem newest_iff_of_num_lt (key : α → κ) (val : β → α) {num : β → Nat} {x y : β}
    (h : num x < num y) : Newest key val num x y ↔ key (val y) < key (val x) := by
  constructor
  · rintro (hlt | ⟨-, hle⟩)
    · exact hlt
    · omega
  · exact Or.inl

instance (key : α → κ) (val : β → α) (num : β → Nat) : Std.Total (Newest key val num) where
  total x y := by
    rcases lt_trichotomy (key (val x)) (key (val y)) with hlt | heq | hlt
    · exact Or.inr (Or.inl hlt)
    · rcases Nat.le_total (num x) (num y) with hle | hle
      · exact Or.inr (Or.inr ⟨heq, hle⟩)
      · exact Or.inl (Or.inr ⟨heq.symm, hle⟩)
    · exact Or.inl (Or.inl hlt)

instance (key : α → κ) (val : β → α) (num : β → Nat) : IsTrans β (Newest key val num) where
  trans := by
    rintro x y z (hxy | ⟨hxy, hnum⟩) (hyz | ⟨hyz, hnum'⟩)
    · exact Or.inl (hyz.trans hxy)
    · exact Or.inl (hyz ▸ hxy)
    · exact Or.inl (hxy ▸ hyz)
    · exact Or.inr ⟨hyz.trans hxy, hnum'.trans hnum⟩

theorem num_eq_of_newest {key : α → κ} {val : β → α} {num : β → Nat} {x y : β}
    (hxy : Newest key val num x y) (hyx : Newest key val num y x) : num x = num y := by
  rcases hxy with hxy | ⟨hxy, hnum⟩ <;> rcases hyx with hyx | ⟨hyx, hnum'⟩
  · exact absurd hyx (lt_asymm hxy)
  · exact absurd hyx (ne_of_gt hxy)
  · exact absurd hxy (ne_of_gt hyx)
  · exact Nat.le_antisymm hnum' hnum

/-- **New entries push the old ones down**: a part of a list sorts to a part of the sorted list. -/
theorem insertionSort_sublist {key : α → κ} {val : β → α} {num : β → Nat} {l l' : List β}
    (hl' : l'.Pairwise fun x y => num x < num y) (h : l.Sublist l') :
    (l.insertionSort (Newest key val num)).Sublist (l'.insertionSort (Newest key val num)) := by
  have hsubperm : (l.insertionSort (Newest key val num)).Subperm
      (l'.insertionSort (Newest key val num)) :=
    (List.perm_insertionSort _ l).subperm.trans
      (h.subperm.trans (List.perm_insertionSort _ l').symm.subperm)
  obtain ⟨part, hperm, hpart⟩ := hsubperm
  have hmem : ∀ x ∈ part, x ∈ l' := fun x hx => (List.mem_insertionSort _).mp (hpart.subset hx)
  have hnum : ∀ x ∈ l', ∀ y ∈ l', num x = num y → x = y := by
    have hnodup : (l'.map num).Nodup := by
      rw [List.nodup_iff_pairwise_ne, List.pairwise_map]
      exact hl'.imp fun hlt => Nat.ne_of_lt hlt
    exact fun x hx y hy heq => List.inj_on_of_nodup_map hnodup hx hy heq
  have heq : part = l.insertionSort (Newest key val num) := by
    refine hperm.eq_of_pairwise ?_ ((List.pairwise_insertionSort _ l').sublist hpart)
      (List.pairwise_insertionSort _ l)
    intro x y hx hy hxy hyx
    exact hnum x (hmem x hx) y (hmem y (hperm.symm.subset hy)) (num_eq_of_newest hxy hyx)
  rw [← heq]
  exact hpart

theorem map_orderedInsert_newest {key : α → κ} {val : β → α} {num : β → Nat} {x : β}
    {l : List β} (h : ∀ y ∈ l, num x < num y) :
    (l.orderedInsert (Newest key val num) x).map val
      = (l.map val).orderedInsert (fun a b => key b < key a) (val x) := by
  induction l with
  | nil => rfl
  | cons y l ih =>
      have hy := newest_iff_of_num_lt key val (h y List.mem_cons_self)
      have hrest := ih fun z hz => h z (List.mem_cons_of_mem y hz)
      by_cases hlt : key (val y) < key (val x)
      · simp [hy, hlt]
      · simp [hy, hlt, hrest]

/-- **Sorting ascending entries newest first depends on their contents only.** -/
theorem map_insertionSort_newest {key : α → κ} {val : β → α} {num : β → Nat} {l : List β}
    (h : l.Pairwise fun x y => num x < num y) :
    (l.insertionSort (Newest key val num)).map val
      = (l.map val).insertionSort fun a b => key b < key a := by
  induction l with
  | nil => rfl
  | cons x l ih =>
      obtain ⟨hx, hl⟩ := List.pairwise_cons.mp h
      have hmem : ∀ y ∈ l.insertionSort (Newest key val num), num x < num y := by
        intro y hy
        exact hx y ((List.mem_insertionSort _).mp hy)
      rw [List.insertionSort_cons, map_orderedInsert_newest hmem, ih hl, List.map_cons,
        List.insertionSort_cons]

/-- Two numberings of the same contents sort to the same contents. -/
theorem map_insertionSort_newest_congr {key : α → κ} {val : β → α} {num : β → Nat}
    {val' : γ → α} {num' : γ → Nat} {l : List β} {l' : List γ}
    (h : l.Pairwise fun x y => num x < num y) (h' : l'.Pairwise fun x y => num' x < num' y)
    (heq : l.map val = l'.map val') :
    (l.insertionSort (Newest key val num)).map val
      = (l'.insertionSort (Newest key val' num')).map val' := by
  rw [map_insertionSort_newest h, map_insertionSort_newest h', heq]

/-- **Two numberings of the same contents in different orders** sort to the same contents when they
agree on the order of the entries with equal keys. -/
theorem map_insertionSort_newest_of_perm {key : α → κ} {val : β → α} {num : β → Nat} {l l' : List β}
    (hl : l.Pairwise fun x y => num x < num y) (hval : (l.map val).Nodup)
    (hperm : (l.map val).Perm (l'.map val))
    (horder : ∀ x ∈ l, ∀ y ∈ l, ∀ x' ∈ l', ∀ y' ∈ l', val x' = val x → val y' = val y →
      key (val x) = key (val y) → num x < num y → num x' < num y') :
    (l.insertionSort (Newest key val num)).map val
      = (l'.insertionSort (Newest key val num)).map val := by
  -- the order of the contents that the first numbering gives
  have hsorted : ((l.insertionSort (Newest key val num)).map val).Pairwise fun a b =>
      ∃ x ∈ l, ∃ y ∈ l, val x = a ∧ val y = b ∧ Newest key val num x y := by
    rw [List.pairwise_map]
    refine (List.pairwise_insertionSort _ l).imp_of_mem ?_
    intro x y hx hy hxy
    exact ⟨x, (List.mem_insertionSort _).mp hx, y, (List.mem_insertionSort _).mp hy, rfl, rfl, hxy⟩
  have hsorted' : ((l'.insertionSort (Newest key val num)).map val).Pairwise fun a b =>
      ∃ x ∈ l, ∃ y ∈ l, val x = a ∧ val y = b ∧ Newest key val num x y := by
    rw [List.pairwise_map]
    refine (List.pairwise_insertionSort _ l').imp_of_mem ?_
    intro x' y' hx' hy' hxy'
    have hx'' := (List.mem_insertionSort _).mp hx'
    have hy'' := (List.mem_insertionSort _).mp hy'
    obtain ⟨x, hx, hvx⟩ := List.mem_map.mp (hperm.mem_iff.mpr (List.mem_map_of_mem hx''))
    obtain ⟨y, hy, hvy⟩ := List.mem_map.mp (hperm.mem_iff.mpr (List.mem_map_of_mem hy''))
    refine ⟨x, hx, y, hy, hvx, hvy, ?_⟩
    rcases hxy' with hlt | ⟨heq, hnum⟩
    · left
      rwa [hvx, hvy]
    · right
      rw [← hvx, ← hvy] at heq
      refine ⟨heq, not_lt.mp fun hlt => ?_⟩
      have hlt' := horder x hx y hy x' hx'' y' hy'' hvx.symm hvy.symm heq.symm hlt
      omega
  have hsame : ((l.insertionSort (Newest key val num)).map val).Perm
      ((l'.insertionSort (Newest key val num)).map val) :=
    ((List.perm_insertionSort _ l).map val).trans
      (hperm.trans ((List.perm_insertionSort _ l').map val).symm)
  refine hsame.eq_of_pairwise ?_ hsorted hsorted'
  rintro a b - - ⟨x, hx, y, hy, rfl, rfl, hxy⟩ ⟨y₁, hy₁, x₁, hx₁, hvy, hvx, hyx⟩
  obtain rfl : y₁ = y := List.inj_on_of_nodup_map hval hy₁ hy hvy
  obtain rfl : x₁ = x := List.inj_on_of_nodup_map hval hx₁ hx hvx
  have hnodup : (l.map num).Nodup := by
    rw [List.nodup_iff_pairwise_ne, List.pairwise_map]
    exact hl.imp fun hlt => Nat.ne_of_lt hlt
  rw [List.inj_on_of_nodup_map hnodup hx₁ hy₁ (num_eq_of_newest hxy hyx)]

end HighLoad.TieBreak
