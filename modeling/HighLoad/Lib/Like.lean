/-
# HighLoad.Lib.Like — SQL `LIKE` patterns

The backtracking matcher of `LIKE`: `%` stands for any sequence of characters, `_` for any one, and a
backslash makes the character behind it literal. `like_append_percent_iff` says when appending `%`
to a text gives exactly the strings that start with it: when the text has none of the three. When it
has, a string that is no longer than the text shows it.
-/
import Mathlib.Data.List.Infix
import Mathlib.Data.List.Basic

namespace HighLoad.Like

/-- The characters with a meaning in a pattern. -/
def IsMeta (c : Char) : Prop := c = '%' ∨ c = '_' ∨ c = '\\'

instance (c : Char) : Decidable (IsMeta c) := inferInstanceAs (Decidable (_ ∨ _))

/-- A text none of whose characters has a meaning in a pattern. -/
def Plain (s : List Char) : Prop := ∀ c ∈ s, ¬ IsMeta c

instance (s : List Char) : Decidable (Plain s) := inferInstanceAs (Decidable (∀ c ∈ s, ¬ IsMeta c))

/-- `s LIKE pattern`. A backslash at the very end, which the database rejects, matches nothing. -/
def like : List Char → List Char → Bool
  | [], s => s.isEmpty
  | c :: p, s =>
      if c = '%' then s.tails.any (like p)
      else if c = '_' then !s.isEmpty && like p s.tail
      else if c = '\\' then
        match p with
        | [] => false
        | d :: p => decide (s.head? = some d) && like p s.tail
      else decide (s.head? = some c) && like p s.tail

theorem like_percent (p s : List Char) : like ('%' :: p) s = s.tails.any (like p) := by
  conv => lhs; unfold like
  rfl

theorem like_underscore (p : List Char) (x : Char) (s : List Char) :
    like ('_' :: p) (x :: s) = like p s := by
  conv => lhs; unfold like
  rfl

theorem like_escape (d : Char) (p : List Char) (x : Char) (s : List Char) :
    like ('\\' :: d :: p) (x :: s) = (decide (x = d) && like p s) := by
  conv => lhs; unfold like
  simp

/-- A character without a meaning stands for itself. -/
theorem like_literal {c : Char} (hc : ¬ IsMeta c) (p s : List Char) :
    like (c :: p) s = (decide (s.head? = some c) && like p s.tail) := by
  simp only [IsMeta, not_or] at hc
  conv => lhs; unfold like
  simp only [if_neg hc.1, if_neg hc.2.1, if_neg hc.2.2]

/-- `%` alone matches everything. -/
theorem like_percent_alone (s : List Char) : like ['%'] s = true := by
  rw [like_percent, List.any_eq_true]
  exact ⟨[], (List.mem_tails _ _).mpr (List.nil_suffix), rfl⟩

/-- A pattern that starts with a plain text matches the strings that start with it and go on as the
rest of the pattern says. -/
theorem like_plain_append {q : List Char} (hq : Plain q) (p s : List Char) :
    like (q ++ p) s = true ↔ ∃ t, s = q ++ t ∧ like p t = true := by
  induction q generalizing s with
  | nil => simp
  | cons c q ih =>
      have hc : ¬ IsMeta c := hq c List.mem_cons_self
      have hrest : Plain q := fun d hd => hq d (List.mem_cons_of_mem c hd)
      cases s with
      | nil =>
          rw [List.cons_append, like_literal hc]
          simp
      | cons x s =>
          rw [List.cons_append, like_literal hc, Bool.and_eq_true, decide_eq_true_iff, ih hrest,
            List.head?_cons, List.tail_cons, Option.some.injEq]
          constructor
          · rintro ⟨rfl, t, rfl, ht⟩
            exact ⟨t, rfl, ht⟩
          · rintro ⟨t, heq, ht⟩
            obtain ⟨rfl, rfl⟩ := List.cons.inj heq
            exact ⟨rfl, t, rfl, ht⟩

/-- For a plain text the pattern matches exactly the strings that start with it. -/
theorem like_append_percent_of_plain {q : List Char} (hq : Plain q) (s : List Char) :
    like (q ++ ['%']) s = true ↔ q <+: s := by
  rw [like_plain_append hq]
  constructor
  · rintro ⟨t, rfl, -⟩
    exact List.prefix_append q t
  · rintro ⟨t, rfl⟩
    exact ⟨t, rfl, like_percent_alone t⟩

/-- A pattern with `%` at its end matches some string that is not longer than what stands before. -/
theorem exists_like_append_percent (q : List Char) :
    ∃ s, like (q ++ ['%']) s = true ∧ s.length ≤ q.length := by
  induction hn : q.length using Nat.strong_induction_on generalizing q with
  | _ n ih =>
      cases q with
      | nil => exact ⟨[], like_percent_alone [], Nat.zero_le _⟩
      | cons c q =>
          have hq : q.length < n := by rw [← hn, List.length_cons]; omega
          obtain ⟨s, hs, hlen⟩ := ih q.length hq q rfl
          rw [List.length_cons] at hn
          by_cases hpercent : c = '%'
          · refine ⟨s, ?_, by omega⟩
            rw [hpercent, List.cons_append, like_percent, List.any_eq_true]
            exact ⟨s, (List.mem_tails _ _).mpr (List.suffix_refl s), hs⟩
          · by_cases hunder : c = '_'
            · refine ⟨'a' :: s, ?_, by rw [List.length_cons]; omega⟩
              rw [hunder, List.cons_append, like_underscore]
              exact hs
            · by_cases hescape : c = '\\'
              · -- the character behind the backslash is literal, be it the `%` at the end
                cases q with
                | nil =>
                    refine ⟨['%'], ?_, by simp at hn ⊢; omega⟩
                    rw [hescape]
                    decide
                | cons d q =>
                    have hq' : q.length < n := by rw [List.length_cons] at hq; omega
                    obtain ⟨s', hs', hlen'⟩ := ih q.length hq' q rfl
                    refine ⟨d :: s', ?_, by rw [List.length_cons] at hn ⊢; omega⟩
                    rw [hescape, List.cons_append, List.cons_append, like_escape]
                    simp [hs']
              · have hc : ¬ IsMeta c := by simp [IsMeta, hpercent, hunder, hescape]
                refine ⟨c :: s, ?_, by rw [List.length_cons]; omega⟩
                rw [List.cons_append, like_literal hc]
                simp [hs]

/-- A text that is not plain, up to its first character with a meaning. -/
theorem exists_first_meta {q : List Char} (hq : ¬ Plain q) :
    ∃ a c b, q = a ++ c :: b ∧ Plain a ∧ IsMeta c := by
  induction q with
  | nil => exact absurd (fun c hc => absurd hc List.not_mem_nil) hq
  | cons c q ih =>
      by_cases hc : IsMeta c
      · exact ⟨[], c, q, rfl, fun d hd => absurd hd List.not_mem_nil, hc⟩
      · have hrest : ¬ Plain q := by
          intro h
          refine hq ?_
          intro d hd
          rcases List.mem_cons.mp hd with rfl | hd
          · exact hc
          · exact h d hd
        obtain ⟨a, d, b, rfl, ha, hd⟩ := ih hrest
        refine ⟨c :: a, d, b, rfl, ?_, hd⟩
        intro e he
        rcases List.mem_cons.mp he with rfl | he
        · exact hc
        · exact ha e he

/-- For a text that is not plain, the pattern and the prefix disagree on a string that is not longer. -/
theorem exists_disagree {q : List Char} (hq : ¬ Plain q) :
    ∃ s, s.length ≤ q.length ∧ ¬ (like (q ++ ['%']) s = true ↔ q <+: s) := by
  obtain ⟨a, c, b, rfl, ha, hmeta⟩ := exists_first_meta hq
  have hassoc : (a ++ c :: b) ++ ['%'] = a ++ (c :: (b ++ ['%'])) := by simp
  obtain ⟨g, hg, hlen⟩ := exists_like_append_percent b
  -- a string that matches but goes on behind `a` with another character than `c`
  have hother : c ≠ 'a' → like (c :: (b ++ ['%'])) ('a' :: g) = true →
      ∃ s, s.length ≤ (a ++ c :: b).length ∧
        ¬ (like ((a ++ c :: b) ++ ['%']) s = true ↔ (a ++ c :: b) <+: s) := by
    intro hne hlike
    refine ⟨a ++ 'a' :: g, by simpa using hlen, ?_⟩
    rw [hassoc, like_plain_append ha]
    intro hiff
    have hpre := hiff.mp ⟨'a' :: g, rfl, hlike⟩
    rw [List.prefix_append_right_inj] at hpre
    exact hne (List.cons_prefix_cons.mp hpre).1
  rcases hmeta with rfl | rfl | rfl
  · refine hother (by decide) ?_
    rw [like_percent, List.any_eq_true]
    exact ⟨g, (List.mem_tails _ _).mpr (List.suffix_cons 'a' g), hg⟩
  · refine hother (by decide) ?_
    rw [like_underscore]
    exact hg
  · -- what the backslash makes literal stands where the prefix has the backslash
    cases b with
    | nil =>
        refine ⟨a ++ ['\\'], le_rfl, ?_⟩
        rw [hassoc, like_plain_append ha]
        intro hiff
        obtain ⟨t, heq, ht⟩ := hiff.mpr (List.prefix_refl _)
        obtain rfl := List.append_cancel_left heq
        exact absurd ht (by decide)
    | cons d b =>
        by_cases hd : d = '\\'
        · obtain ⟨g', hg', hlen'⟩ := exists_like_append_percent b
          refine ⟨a ++ '\\' :: g', by simp; omega, ?_⟩
          rw [hassoc, like_plain_append ha]
          intro hiff
          have hpre := hiff.mp ⟨'\\' :: g', rfl, by
            rw [List.cons_append, like_escape, hg', hd]
            decide⟩
          have hle := hpre.length_le
          simp only [List.length_append, List.length_cons] at hle
          omega
        · refine ⟨a ++ '\\' :: d :: b, by simp, ?_⟩
          rw [hassoc, like_plain_append ha]
          intro hiff
          obtain ⟨t, heq, ht⟩ := hiff.mpr (List.prefix_refl _)
          obtain rfl := List.append_cancel_left heq
          rw [List.cons_append, like_escape, Bool.and_eq_true, decide_eq_true_iff] at ht
          exact hd ht.1.symm

/-- **Appending `%` gives prefix matching exactly for plain texts**, on the strings of any length from
that of the text on. -/
theorem like_append_percent_iff (q : List Char) {n : Nat} (hn : q.length ≤ n) :
    (∀ s, s.length ≤ n → (like (q ++ ['%']) s = true ↔ q <+: s)) ↔ Plain q := by
  constructor
  · intro h
    by_contra hq
    obtain ⟨s, hlength, hs⟩ := exists_disagree hq
    exact hs (h s (hlength.trans hn))
  · exact fun hq s _ => like_append_percent_of_plain hq s

end HighLoad.Like
