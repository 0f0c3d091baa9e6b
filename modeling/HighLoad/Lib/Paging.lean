/-
# HighLoad.Lib.Paging — positional pages over a list that readers sweep

A list is read in pages by offset and limit; some of its elements are dead, a page shows the others,
and whoever reads a page removes its dead elements from the list. `Gathered` is the shape in which
sweeping disturbs no page: live pages, one page that mixes, and dead elements behind it
(`Gathered.sweep`, `Gathered.shown`). Conversely a page that shows the same however often it is read
has no live element behind it, if it has a dead one on it (`shown_stable`).
-/
import Mathlib.Data.List.Basic
import Mathlib.Data.List.Infix
import Mathlib.Data.List.Flatten
import Mathlib.Data.Nat.Find

namespace HighLoad.Paging

variable {α : Type*} {live : α → Bool} {L p : Nat} {A B G M : List α}

/-- The page of `L` elements at `offset`. -/
def page (offset L : Nat) (M : List α) : List α := (M.drop offset).take L

/-- What a reader is shown of a page. -/
def shown (live : α → Bool) (offset L : Nat) (M : List α) : List α :=
  (page offset L M).filter live

/-- The list after the dead elements of a page were removed. -/
def sweep (live : α → Bool) (offset L : Nat) (M : List α) : List α :=
  M.take offset ++ shown live offset L M ++ M.drop (offset + L)

/-- A list in three parts: `p` pages without a dead element, at most one page of live and dead ones,
and dead elements. -/
structure Gathered (live : α → Bool) (L p : Nat) (A B G M : List α) : Prop where
  parts : M = A ++ B ++ G
  length : A.length = p * L
  alive : ∀ a ∈ A, live a = true
  fits : B.length ≤ L
  dead : ∀ a ∈ G, live a = false

/-- All dead elements that stand before a live one share its page. -/
def DeadBeforeLiveOnPage (live : α → Bool) (L : Nat) (M : List α) : Prop :=
  ∀ i j a b, i < j → M[i]? = some a → M[j]? = some b → live a = false → live b = true →
    i / L = j / L

/-! ## Pages -/

/-- The pages one after the other are the list. -/
theorem flatMap_page (n L : Nat) (M : List α) :
    (List.range n).flatMap (fun k => page (k * L) L M) = M.take (n * L) := by
  induction n with
  | zero => simp
  | succ n ih =>
      rw [List.range_succ, List.flatMap_append, ih, Nat.succ_mul, List.take_add]
      simp [page]

theorem flatMap_shown {n : Nat} (h : M.length ≤ n * L) :
    (List.range n).flatMap (fun k => shown live (k * L) L M) = M.filter live := by
  have hmap : (List.range n).flatMap (fun k => shown live (k * L) L M)
      = ((List.range n).flatMap fun k => page (k * L) L M).filter live := by
    rw [List.filter_flatMap]
    rfl
  rw [hmap, flatMap_page, List.take_of_length_le h]

theorem shown_of_dead (h : ∀ a ∈ M, live a = false) (offset : Nat) : shown live offset L M = [] := by
  rw [shown, List.filter_eq_nil_iff]
  intro a ha
  rw [h a (List.mem_of_mem_drop (List.mem_of_mem_take ha))]
  decide

/-- The live elements of a list are not swept. -/
theorem filter_sweep (offset : Nat) : (sweep live offset L M).filter live = M.filter live := by
  have hparts : M = M.take offset ++ (page offset L M ++ M.drop (offset + L)) := by
    rw [page, ← List.drop_drop, List.take_append_drop, List.take_append_drop]
  conv_rhs => rw [hparts]
  simp [sweep, shown]

/-! ## Lists in which sweeping disturbs no page -/

namespace Gathered

/-- What page `k` shows of a gathered list. -/
def shownAt (live : α → Bool) (L p : Nat) (A B : List α) (k : Nat) : List α :=
  if k < p then page (k * L) L A else if k = p then B.filter live else []

theorem page_of_lt (h : Gathered live L p A B G M) {k : Nat} (hk : k < p) :
    page (k * L) L M = page (k * L) L A := by
  have hle : k * L + L ≤ A.length := by
    rw [h.length, ← Nat.succ_mul]
    exact Nat.mul_le_mul_right L hk
  have hdrop : L ≤ (A.drop (k * L)).length := by
    rw [List.length_drop]
    omega
  rw [page, page, h.parts, List.append_assoc, List.drop_append_of_le_length (by omega),
    List.take_append_of_le_length hdrop]

/-- The elements from page `p` on. -/
theorem drop_at (h : Gathered live L p A B G M) : M.drop (p * L) = B ++ G := by
  rw [h.parts, List.append_assoc, ← h.length, List.drop_left]

/-- From page `p + 1` on everything is dead. -/
theorem dead_of_mem_drop (h : Gathered live L p A B G M) {k : Nat} (hk : p < k) {a : α}
    (ha : a ∈ M.drop (k * L)) : live a = false := by
  have hle : p * L + L ≤ k * L := by
    rw [← Nat.succ_mul]
    exact Nat.mul_le_mul_right L hk
  have hsplit : M.drop (k * L) = (M.drop (p * L)).drop (k * L - p * L) := by
    rw [List.drop_drop]
    congr 1
    omega
  rw [hsplit, h.drop_at, List.drop_append] at ha
  have hnil : B.drop (k * L - p * L) = [] :=
    List.drop_eq_nil_of_le (h.fits.trans (by omega))
  rw [hnil, List.nil_append] at ha
  exact h.dead a (List.mem_of_mem_drop ha)

/-- **What each page shows.** -/
theorem shown (h : Gathered live L p A B G M) (k : Nat) :
    Paging.shown live (k * L) L M = shownAt live L p A B k := by
  unfold Paging.shown shownAt
  by_cases hlt : k < p
  · rw [if_pos hlt, h.page_of_lt hlt, List.filter_eq_self]
    intro a ha
    exact h.alive a (List.mem_of_mem_drop (List.mem_of_mem_take ha))
  · rw [if_neg hlt]
    by_cases heq : k = p
    · rw [if_pos heq, heq, page, h.drop_at, List.take_append, List.filter_append,
        List.take_of_length_le h.fits]
      have hdead : (G.take (L - B.length)).filter live = [] := by
        rw [List.filter_eq_nil_iff]
        intro a ha
        rw [h.dead a (List.mem_of_mem_take ha)]
        decide
      rw [hdead, List.append_nil]
    · rw [if_neg heq, List.filter_eq_nil_iff]
      intro a ha
      rw [h.dead_of_mem_drop (by omega) (List.mem_of_mem_take ha)]
      decide

/-- A swept page without a dead element leaves the list as it is. -/
theorem sweep_of_alive {offset : Nat} (h : ∀ a ∈ page offset L M, live a = true) :
    sweep live offset L M = M := by
  have hself : Paging.shown live offset L M = page offset L M := List.filter_eq_self.mpr h
  rw [sweep, hself, page, List.append_assoc, ← List.drop_drop, List.take_append_drop,
    List.take_append_drop]

/-- **Sweeping a page keeps the shape**, and what the mixed page shows. -/
theorem sweep (h : Gathered live L p A B G M) (k : Nat) :
    ∃ B' G', Gathered live L p A B' G' (Paging.sweep live (k * L) L M) ∧
      B'.filter live = B.filter live := by
  by_cases hlt : k < p
  · refine ⟨B, G, ?_, rfl⟩
    rw [sweep_of_alive]
    · exact h
    · intro a ha
      rw [h.page_of_lt hlt] at ha
      exact h.alive a (List.mem_of_mem_drop (List.mem_of_mem_take ha))
  · by_cases heq : k = p
    · subst heq
      refine ⟨B.filter live, (M.drop (k * L + L)), ?_, ?_⟩
      · have htake : M.take (k * L) = A := by
          rw [h.parts, List.append_assoc, ← h.length, List.take_left]
        have hshown : Paging.shown live (k * L) L M = B.filter live := by
          rw [h.shown k, shownAt, if_neg (lt_irrefl k), if_pos rfl]
        exact
          { parts := by rw [Paging.sweep, htake, hshown]
            length := h.length
            alive := h.alive
            fits := (List.length_filter_le _ _).trans h.fits
            dead := fun a ha => h.dead_of_mem_drop (Nat.lt_succ_self k)
              (by rw [Nat.succ_mul]; exact ha) }
      · simp
    · -- a page of dead elements behind the mixed one vanishes
      have hpk : p < k := by omega
      have hle : p * L + L ≤ k * L := by
        rw [← Nat.succ_mul]
        exact Nat.mul_le_mul_right L hpk
      have hshown : Paging.shown live (k * L) L M = [] := by
        rw [h.shown k, shownAt, if_neg hlt, if_neg heq]
      have hAB : (A ++ B).length ≤ k * L := by
        rw [List.length_append, h.length]
        have := h.fits
        omega
      have htake : M.take (k * L) = A ++ B ++ G.take (k * L - (A ++ B).length) := by
        rw [h.parts, List.take_append, List.take_of_length_le hAB]
      refine ⟨B, G.take (k * L - (A ++ B).length) ++ M.drop (k * L + L), ?_, rfl⟩
      exact
        { parts := by
            rw [Paging.sweep, hshown, List.append_nil, htake, List.append_assoc]
          length := h.length
          alive := h.alive
          fits := h.fits
          dead := by
            intro a ha
            rcases List.mem_append.mp ha with ha | ha
            · exact h.dead a (List.mem_of_mem_take ha)
            · refine h.dead_of_mem_drop (k := k + 1) (by omega) ?_
              rw [Nat.succ_mul]
              exact ha }

end Gathered

/-- A list whose dead elements before a live one share its page is gathered. -/
theorem DeadBeforeLiveOnPage.gathered (hL : 1 ≤ L) (h : DeadBeforeLiveOnPage live L M) :
    ∃ p A B G, Gathered live L p A B G M := by
  by_cases hnone : ∀ a ∈ M, live a = false
  · exact ⟨0, [], [], M, ⟨rfl, by simp, by simp, by simp, hnone⟩⟩
  · -- the page of the last live element
    have hexists : ∃ j : Nat, ∃ b, M[j]? = some b ∧ live b = true := by
      by_contra hno
      refine hnone fun a ha => ?_
      obtain ⟨j, hj⟩ := List.getElem?_of_mem ha
      by_contra hlive
      exact hno ⟨j, a, hj, by simpa using hlive⟩
    obtain ⟨j, ⟨b, hj, hb⟩, hlast⟩ : ∃ j : Nat, (∃ b, M[j]? = some b ∧ live b = true) ∧
        ∀ i : Nat, j < i → ¬ ∃ b, M[i]? = some b ∧ live b = true := by
      have hbound : ∀ j : Nat, (∃ b, M[j]? = some b ∧ live b = true) → j ≤ M.length := by
        rintro j ⟨b, hj, -⟩
        exact (List.getElem?_eq_some_iff.mp hj).1.le
      obtain ⟨j₀, hj₀⟩ := hexists
      classical
      refine ⟨Nat.findGreatest (fun j : Nat => ∃ b, M[j]? = some b ∧ live b = true) M.length, ?_, ?_⟩
      · exact Nat.findGreatest_spec
          (P := fun j : Nat => ∃ b, M[j]? = some b ∧ live b = true) (hbound j₀ hj₀) hj₀
      · intro i hi hlive
        exact Nat.findGreatest_is_greatest hi (hbound i hlive) hlive
    have hdiv := Nat.div_add_mod j L
    have hmod := Nat.mod_lt j (show 0 < L by omega)
    rw [Nat.mul_comm] at hdiv
    have hlt : j < M.length := (List.getElem?_eq_some_iff.mp hj).1
    refine ⟨j / L, M.take (j / L * L), (M.drop (j / L * L)).take L, M.drop (j / L * L + L), ?_⟩
    refine
      { parts := ?_
        length := ?_
        alive := ?_
        fits := List.length_take_le _ _
        dead := ?_ }
    · rw [List.append_assoc, ← List.drop_drop, List.take_append_drop, List.take_append_drop]
    · rw [List.length_take]
      omega
    · intro a ha
      obtain ⟨i, hi⟩ := List.getElem?_of_mem ha
      have hilt : i < j / L * L := by
        have := (List.getElem?_eq_some_iff.mp hi).1
        rw [List.length_take] at this
        omega
      rw [List.getElem?_take_of_lt hilt] at hi
      by_contra hlive
      have hpage := h i j a b (by omega) hi hj (by simpa using hlive) hb
      have hidiv := Nat.div_lt_of_lt_mul (by rwa [Nat.mul_comm] at hilt)
      omega
    · intro a ha
      obtain ⟨i, hi⟩ := List.getElem?_of_mem ha
      rw [List.getElem?_drop] at hi
      by_contra hlive
      exact hlast (j / L * L + L + i) (by omega) ⟨a, hi, by simpa using hlive⟩

/-! ## Pages that do not change when they are read again -/

/-- A first page with a dead element that shows the same however often it is read shows every live
element. -/
theorem filter_eq_of_stable {c : List α}
    (hstable : ∀ n, shown live 0 L ((sweep live 0 L)^[n] M) = c)
    (hdead : ∃ a ∈ page 0 L M, live a = false) : M.filter live = c := by
  induction hn : M.length using Nat.strong_induction_on generalizing M with
  | _ n ih =>
      have hfirst : shown live 0 L M = c := hstable 0
      have hnext : shown live 0 L (sweep live 0 L M) = c := hstable 1
      obtain ⟨a, ha, hlive⟩ := hdead
      have hless : (shown live 0 L M).length < (page 0 L M).length := by
        refine List.length_filter_lt_length_iff_exists.mpr ⟨a, ha, ?_⟩
        rw [hlive]
        decide
      have hpage : (page 0 L M).length = min L M.length := by simp [page]
      have hlen : (sweep live 0 L M).length = (shown live 0 L M).length + (M.length - L) := by
        simp [sweep]
      by_cases hdead' : ∃ a ∈ page 0 L (sweep live 0 L M), live a = false
      · have hrest := ih (sweep live 0 L M).length (by omega)
          (fun m => by rw [← Function.iterate_succ_apply]; exact hstable (m + 1)) hdead' rfl
        rw [← hrest, filter_sweep]
      · -- the page is all live and short, so nothing stands behind it
        push Not at hdead'
        have halive : ∀ a ∈ page 0 L (sweep live 0 L M), live a = true := fun a ha =>
          by simpa using hdead' a ha
        have hself : shown live 0 L (sweep live 0 L M) = page 0 L (sweep live 0 L M) :=
          List.filter_eq_self.mpr halive
        have hpage' : page 0 L (sweep live 0 L M) = c := by rw [← hself, hnext]
        have hshort : c.length < L := by
          rw [hfirst] at hless
          omega
        have hall : page 0 L (sweep live 0 L M) = sweep live 0 L M := by
          have hlen' : (page 0 L (sweep live 0 L M)).length = min L (sweep live 0 L M).length := by
            simp [page]
          rw [hpage'] at hlen'
          rw [page, List.drop_zero, List.take_of_length_le (by omega)]
        rw [← filter_sweep 0, ← hall, List.filter_eq_self.mpr halive, hpage']

/-- Sweeping a page sweeps the first page of what stands from it on. -/
theorem drop_sweep {offset : Nat} (h : offset ≤ M.length) :
    (sweep live offset L M).drop offset = sweep live 0 L (M.drop offset) := by
  have hlen : (M.take offset).length = offset := by
    rw [List.length_take]
    omega
  have hdrop : (M.take offset ++ (shown live offset L M ++ M.drop (offset + L))).drop offset
      = shown live offset L M ++ M.drop (offset + L) := by
    refine (List.drop_append_of_le_length hlen.ge).trans ?_
    rw [List.drop_of_length_le hlen.le, List.nil_append]
  rw [sweep, List.append_assoc, hdrop, sweep]
  simp [shown, page, List.drop_drop]

theorem take_sweep {offset : Nat} (h : offset ≤ M.length) :
    (sweep live offset L M).take offset = M.take offset := by
  have hlen : (M.take offset).length = offset := by
    rw [List.length_take]
    omega
  rw [sweep, List.append_assoc, List.take_append_of_le_length hlen.ge,
    List.take_of_length_le hlen.le]

theorem length_le_sweep {offset : Nat} (h : offset ≤ M.length) :
    offset ≤ (sweep live offset L M).length := by
  have hlen := (List.take_sublist offset (sweep live offset L M)).length_le
  rw [take_sweep h, List.length_take_of_le h] at hlen
  exact hlen

theorem drop_iterate_sweep {offset : Nat} (h : offset ≤ M.length) (n : Nat) :
    ((sweep live offset L)^[n] M).drop offset = (sweep live 0 L)^[n] (M.drop offset) := by
  induction n generalizing M with
  | zero => rfl
  | succ n ih =>
      rw [Function.iterate_succ_apply, Function.iterate_succ_apply, ih (length_le_sweep h),
        drop_sweep h]

/-- **A page with a dead element that shows the same however often it is read has every live element
that is not before it.** -/
theorem shown_stable {offset : Nat} {c : List α}
    (hstable : ∀ n, shown live offset L ((sweep live offset L)^[n] M) = c)
    (hdead : ∃ a ∈ page offset L M, live a = false) : (M.drop offset).filter live = c := by
  have hle : offset ≤ M.length := by
    obtain ⟨a, ha, -⟩ := hdead
    by_contra hlt
    rw [page, List.drop_eq_nil_of_le (by omega)] at ha
    simp at ha
  refine filter_eq_of_stable (L := L) (fun n => ?_) ?_
  · rw [← hstable n, ← drop_iterate_sweep hle]
    simp [shown, page]
  · simpa [page] using hdead

/-- Lists without repetitions whose pages do not change when they are read again have no dead element
before a live one of another page. -/
theorem deadBeforeLiveOnPage_of_stable (hL : 1 ≤ L) (hM : M.Nodup)
    (hstable : ∀ k n, shown live (k * L) L ((sweep live (k * L) L)^[n] M)
      = shown live (k * L) L M) : DeadBeforeLiveOnPage live L M := by
  intro i j a b hij hi hj ha hb
  by_contra hpages
  have hidiv := Nat.div_add_mod i L
  have himod := Nat.mod_lt i (show 0 < L by omega)
  rw [Nat.mul_comm] at hidiv
  have hbehind : i / L * L + L ≤ j := by
    have hlt : i / L < j / L := lt_of_le_of_ne (Nat.div_le_div_right hij.le) hpages
    have hle := (Nat.mul_le_mul_right L (Nat.succ_le_of_lt hlt)).trans (Nat.div_mul_le_self j L)
    rwa [Nat.succ_mul] at hle
  have hdead : a ∈ page (i / L * L) L M := by
    refine List.mem_of_getElem? (i := i % L) ?_
    rw [page, List.getElem?_take_of_lt himod, List.getElem?_drop, hidiv]
    exact hi
  have hall := shown_stable (hstable (i / L)) ⟨a, hdead, ha⟩
  -- so the live element stands on the page too, and a second time behind it
  have hmem : b ∈ (M.drop (i / L * L)).filter live := by
    refine List.mem_filter.mpr ⟨List.mem_of_getElem? (i := j - i / L * L) ?_, hb⟩
    rw [List.getElem?_drop, Nat.add_sub_cancel' (by omega)]
    exact hj
  rw [hall] at hmem
  obtain ⟨m, hm⟩ := List.getElem?_of_mem (List.mem_filter.mp hmem).1
  have hmL : m < L := by
    have hlt := (List.getElem?_eq_some_iff.mp hm).1
    have hle := List.length_take_le L (M.drop (i / L * L))
    rw [page] at hlt
    omega
  rw [page, List.getElem?_take_of_lt hmL, List.getElem?_drop] at hm
  have hjlt := (List.getElem?_eq_some_iff.mp hj).1
  have hsame := (List.getElem?_inj hjlt hM).mp (hj.trans hm.symm)
  omega

end HighLoad.Paging
