/-
# HighLoad.Lib.SerialTable — a table with a serial primary key and one unique column

The table model behind a relational table `id BIGSERIAL PRIMARY KEY, key … UNIQUE, …`: rows in
ascending id order, the next value of the id sequence, and the uniqueness of the key column, all
three carried by the type. The statements are

* `insert` — `INSERT … ON CONFLICT (key) DO NOTHING`; a conflicting insert still draws an id;
* `deleteIds` — `DELETE … WHERE id = ANY(ids)`;
* `page` — `SELECT … WHERE id > after ORDER BY id LIMIT limit`, one step of a keyset scan.

`page_covers` is the fact that makes a keyset scan complete: a row past the cursor is on the page
or past the page's last row.
-/
import Mathlib.Data.List.Nodup

namespace HighLoad

/-- A stored row: its serial id and its other columns. -/
structure SerialRow (α : Type*) where
  id : Nat
  val : α
  deriving DecidableEq

/-- A table whose rows carry a serial id and whose column `key` is unique. -/
structure SerialTable {α κ : Type*} (key : α → κ) where
  rows : List (SerialRow α)
  nextId : Nat
  nextId_pos : 0 < nextId
  ascending : rows.Pairwise fun r s => r.id < s.id
  bounds : ∀ r ∈ rows, 0 < r.id ∧ r.id < nextId
  unique : (rows.map fun r => key r.val).Nodup

namespace SerialTable

variable {α κ : Type*} {key : α → κ}

/-- The table after `CREATE TABLE`. -/
def empty : SerialTable key where
  rows := []
  nextId := 1
  nextId_pos := Nat.one_pos
  ascending := List.Pairwise.nil
  bounds := by simp
  unique := by simp

/-- Some row carries the value `a`. -/
def Has (t : SerialTable key) (a : α) : Prop := ∃ r ∈ t.rows, r.val = a

/-- Two rows with the same key are the same row. -/
theorem row_eq_of_key_eq (t : SerialTable key) {r s : SerialRow α} (hr : r ∈ t.rows)
    (hs : s ∈ t.rows) (h : key r.val = key s.val) : r = s :=
  List.inj_on_of_nodup_map t.unique hr hs h

theorem row_eq_of_id_eq (t : SerialTable key) {r s : SerialRow α} (hr : r ∈ t.rows)
    (hs : s ∈ t.rows) (h : r.id = s.id) : r = s := by
  have hnd : (t.rows.map SerialRow.id).Nodup := by
    rw [List.nodup_iff_pairwise_ne, List.pairwise_map]
    exact t.ascending.imp fun hlt => Nat.ne_of_lt hlt
  exact List.inj_on_of_nodup_map hnd hr hs h

/-! ## Insertion -/

section Insert

variable [DecidableEq κ]

/-- `SELECT 1 … WHERE key = k`: whether some row carries the key `k`. -/
def contains (t : SerialTable key) (k : κ) : Bool := t.rows.any fun r => key r.val = k

theorem contains_iff (t : SerialTable key) (k : κ) :
    t.contains k = true ↔ ∃ r ∈ t.rows, key r.val = k := by
  simp [contains]

/-- `INSERT … ON CONFLICT (key) DO NOTHING`. The id sequence advances in both cases. -/
def insert (t : SerialTable key) (a : α) : SerialTable key :=
  if h : t.contains (key a) = true then
    { t with
      nextId := t.nextId + 1
      nextId_pos := Nat.succ_pos _
      bounds := fun r hr => ⟨(t.bounds r hr).1, Nat.lt_succ_of_lt (t.bounds r hr).2⟩ }
  else
    { rows := t.rows ++ [⟨t.nextId, a⟩]
      nextId := t.nextId + 1
      nextId_pos := Nat.succ_pos _
      ascending := by
        refine List.pairwise_append.mpr ⟨t.ascending, List.pairwise_singleton _ _, ?_⟩
        intro r hr s hs
        rw [List.mem_singleton.mp hs]
        exact (t.bounds r hr).2
      bounds := by
        intro r hr
        rcases List.mem_append.mp hr with hr | hr
        · exact ⟨(t.bounds r hr).1, Nat.lt_succ_of_lt (t.bounds r hr).2⟩
        · rw [List.mem_singleton.mp hr]
          exact ⟨t.nextId_pos, Nat.lt_succ_self _⟩
      unique := by
        rw [List.map_append, List.nodup_append]
        refine ⟨t.unique, by simp, ?_⟩
        intro k hk k' hk' heq
        obtain ⟨r, hr, rfl⟩ := List.mem_map.mp hk
        simp only [List.map_cons, List.map_nil, List.mem_singleton] at hk'
        exact h ((t.contains_iff _).mpr ⟨r, hr, heq.trans hk'⟩) }

theorem rows_insert_of_contains {t : SerialTable key} {a : α} (h : t.contains (key a) = true) :
    (t.insert a).rows = t.rows := by
  simp [insert, h]

theorem rows_insert_of_not_contains {t : SerialTable key} {a : α}
    (h : t.contains (key a) = false) : (t.insert a).rows = t.rows ++ [⟨t.nextId, a⟩] := by
  simp [insert, h]

theorem rows_sublist_insert (t : SerialTable key) (a : α) : t.rows.Sublist (t.insert a).rows := by
  cases h : t.contains (key a) with
  | true => rw [rows_insert_of_contains h]
  | false =>
      rw [rows_insert_of_not_contains h]
      exact List.sublist_append_left _ _

/-- The rows after an insertion: the old ones, and the new one when its key was free. -/
theorem mem_rows_insert {t : SerialTable key} {a : α} {r : SerialRow α} :
    r ∈ (t.insert a).rows ↔
      r ∈ t.rows ∨ (t.contains (key a) = false ∧ r = ⟨t.nextId, a⟩) := by
  cases h : t.contains (key a) with
  | true => simp [rows_insert_of_contains h]
  | false => simp [rows_insert_of_not_contains h]

/-- Rows are never changed or lost by an insertion. -/
theorem mem_rows_insert_of_mem {t : SerialTable key} {a : α} {r : SerialRow α}
    (h : r ∈ t.rows) : r ∈ (t.insert a).rows :=
  mem_rows_insert.mpr (Or.inl h)

/-- After an insertion the inserted key is present, whether or not it conflicted. -/
theorem contains_insert (t : SerialTable key) (a : α) (k : κ) :
    (t.insert a).contains k = (t.contains k || decide (key a = k)) := by
  rw [Bool.eq_iff_iff, Bool.or_eq_true, decide_eq_true_eq, contains_iff, contains_iff]
  constructor
  · rintro ⟨r, hr, hk⟩
    rcases mem_rows_insert.mp hr with hr | ⟨_, rfl⟩
    · exact Or.inl ⟨r, hr, hk⟩
    · exact Or.inr hk
  · rintro (⟨r, hr, hk⟩ | hk)
    · exact ⟨r, mem_rows_insert_of_mem hr, hk⟩
    · cases hc : t.contains (key a) with
      | true =>
          obtain ⟨r, hr, hrk⟩ := (t.contains_iff _).mp hc
          exact ⟨r, mem_rows_insert_of_mem hr, hrk.trans hk⟩
      | false => exact ⟨_, mem_rows_insert.mpr (Or.inr ⟨hc, rfl⟩), hk⟩

end Insert

/-! ## Deletion -/

/-- `DELETE … WHERE id = ANY(ids)`. -/
def deleteIds (t : SerialTable key) (ids : List Nat) : SerialTable key where
  rows := t.rows.filter fun r => r.id ∉ ids
  nextId := t.nextId
  nextId_pos := t.nextId_pos
  ascending := t.ascending.sublist List.filter_sublist
  bounds := fun r hr => t.bounds r (List.mem_of_mem_filter hr)
  unique := t.unique.sublist (List.filter_sublist.map _)

@[simp] theorem mem_rows_deleteIds {t : SerialTable key} {ids : List Nat} {r : SerialRow α} :
    r ∈ (t.deleteIds ids).rows ↔ r ∈ t.rows ∧ r.id ∉ ids := by
  simp [deleteIds]

@[simp] theorem deleteIds_nil (t : SerialTable key) : t.deleteIds [] = t := by
  simp [deleteIds]

/-- Deleting the ids of the rows that satisfy `p` keeps exactly the rows that do not. -/
theorem mem_rows_deleteIds_filter {t : SerialTable key} {p : SerialRow α → Bool}
    {r : SerialRow α} :
    r ∈ (t.deleteIds ((t.rows.filter p).map SerialRow.id)).rows ↔ r ∈ t.rows ∧ p r = false := by
  rw [mem_rows_deleteIds]
  refine and_congr_right fun hr => ?_
  constructor
  · intro hid
    by_contra hp
    exact hid (List.mem_map.mpr ⟨r, List.mem_filter.mpr ⟨hr, by simpa using hp⟩, rfl⟩)
  · intro hp hid
    obtain ⟨s, hs, hsid⟩ := List.mem_map.mp hid
    obtain ⟨hsr, hsp⟩ := List.mem_filter.mp hs
    rw [t.row_eq_of_id_eq hsr hr hsid] at hsp
    simp [hp] at hsp

/-! ## Keyset scan -/

/-- `SELECT … WHERE id > after ORDER BY id LIMIT limit`. -/
def page (t : SerialTable key) (after limit : Nat) : List (SerialRow α) :=
  (t.rows.filter fun r => after < r.id).take limit

theorem mem_of_mem_page {t : SerialTable key} {after limit : Nat} {r : SerialRow α}
    (h : r ∈ t.page after limit) : r ∈ t.rows ∧ after < r.id := by
  have := List.mem_filter.mp (List.mem_of_mem_take h)
  exact ⟨this.1, by simpa using this.2⟩

/-- An empty page means that no row is past the cursor. -/
theorem le_of_page_eq_nil {t : SerialTable key} {after limit : Nat} (hlimit : 0 < limit)
    (h : t.page after limit = []) {r : SerialRow α} (hr : r ∈ t.rows) : r.id ≤ after := by
  have hnil : (t.rows.filter fun r => after < r.id) = [] := by
    rcases List.take_eq_nil_iff.mp h with h0 | h0
    · omega
    · exact h0
  have := List.filter_eq_nil_iff.mp hnil r hr
  simpa using this

/-- A row past the cursor is on the page or past the page's last row. -/
theorem page_covers {t : SerialTable key} {after limit : Nat} {last r : SerialRow α}
    (hlast : (t.page after limit).getLast? = some last) (hr : r ∈ t.rows) (hid : after < r.id) :
    r ∈ t.page after limit ∨ last.id < r.id := by
  set rest := t.rows.filter fun r => after < r.id with hrest
  have hmem : r ∈ rest.take limit ++ rest.drop limit := by
    rw [List.take_append_drop, hrest]
    exact List.mem_filter.mpr ⟨hr, by simpa using hid⟩
  have hsorted : (rest.take limit ++ rest.drop limit).Pairwise fun r s => r.id < s.id := by
    rw [List.take_append_drop, hrest]
    exact t.ascending.sublist List.filter_sublist
  rcases List.mem_append.mp hmem with h | h
  · exact Or.inl h
  · exact Or.inr ((List.pairwise_append.mp hsorted).2.2 last (List.mem_of_getLast? hlast) r h)

theorem page_ascending (t : SerialTable key) (after limit : Nat) :
    (t.page after limit).Pairwise fun r s => r.id < s.id :=
  t.ascending.sublist ((List.take_sublist _ _).trans List.filter_sublist)

/-- The last row of a page has its largest id. -/
theorem id_le_of_mem_page {t : SerialTable key} {after limit : Nat} {last r : SerialRow α}
    (hlast : (t.page after limit).getLast? = some last) (hr : r ∈ t.page after limit) :
    r.id ≤ last.id := by
  obtain ⟨init, hinit⟩ := List.getLast?_eq_some_iff.mp hlast
  have hasc := t.page_ascending after limit
  rw [hinit] at hasc hr
  rcases List.mem_append.mp hr with hr | hr
  · have hlt := (List.pairwise_append.mp hasc).2.2 r hr last List.mem_cons_self
    omega
  · apply Nat.le_of_eq
    rw [List.mem_singleton.mp hr]

/-- How many rows are past the cursor. -/
def remaining (t : SerialTable key) (after : Nat) : Nat :=
  (t.rows.filter fun r => after < r.id).length

theorem remaining_le_length (t : SerialTable key) (after : Nat) :
    t.remaining after ≤ t.rows.length := List.length_filter_le _ _

/-- Moving the cursor to a row of the page leaves fewer rows past it. -/
theorem remaining_lt_of_mem_page {t : SerialTable key} {after limit : Nat} {r : SerialRow α}
    (hr : r ∈ t.page after limit) : t.remaining r.id < t.remaining after := by
  obtain ⟨hrows, hid⟩ := mem_of_mem_page hr
  have hsplit : (t.rows.filter fun s => r.id < s.id)
      = (t.rows.filter fun s => after < s.id).filter fun s => r.id < s.id := by
    rw [List.filter_filter]
    refine List.filter_congr fun s _ => ?_
    rw [Bool.eq_iff_iff]
    simp only [decide_eq_true_eq, Bool.and_eq_true]
    omega
  rw [remaining, hsplit]
  refine List.length_filter_lt_length_iff_exists.mpr ⟨r, ?_, by simp⟩
  exact List.mem_filter.mpr ⟨hrows, by simpa using hid⟩

end SerialTable

end HighLoad
