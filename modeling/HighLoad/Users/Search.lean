/-
# HighLoad.Users.Search — user search (`app/routes/users.py`)

`search_users` appends `%` to the raw query strings and compares with `LIKE`, which is prefix search
for the queries without a character that `LIKE` gives a meaning, and for no other
(`search_by_prefix_iff`). The columns of the names hold 100 characters; queries that fit them fail on
names that fit them too.
-/
import HighLoad.Text
import HighLoad.Lib.Like
import Mathlib.Data.List.Sort

namespace HighLoad.Users

open Like

/-- A `DATE`. -/
structure Date where
  year : Nat
  month : Nat
  day : Nat
  deriving DecidableEq

/-- The columns of `users` that the search reads. -/
structure UserRow where
  id : Uuid
  firstName : String
  lastName : String
  birthdate : Date
  interests : Option String
  city : String
  deriving DecidableEq

/-- The table `users`; `id` is its primary key. -/
structure UsersTable where
  rows : List UserRow
  nodup_ids : (rows.map UserRow.id).Nodup

/-- `UserSearchResult`. -/
structure UserSearchResult where
  id : Uuid
  firstName : String
  secondName : String
  birthdate : Date
  biography : Option String
  city : String
  deriving DecidableEq

/-- The result for a row. -/
def UserRow.result (row : UserRow) : UserSearchResult where
  id := row.id
  firstName := row.firstName
  secondName := row.lastName
  birthdate := row.birthdate
  biography := row.interests
  city := row.city

/-- `first_name LIKE $1 AND last_name LIKE $2`, with the arguments of `search_users`. -/
def UserRow.isLike (firstName lastName : String) (row : UserRow) : Bool :=
  like (firstName ++ "%").toList row.firstName.toList &&
    like (lastName ++ "%").toList row.lastName.toList

/-- The names fit their columns, `VARCHAR(100)`. -/
def UsersTable.Fits (t : UsersTable) : Prop :=
  ∀ row ∈ t.rows, row.firstName.length ≤ 100 ∧ row.lastName.length ≤ 100

/-- `search_users(first_name, last_name)`. -/
def searchUsers (t : UsersTable) (firstName lastName : String) : List UserSearchResult :=
  ((t.rows.filter (UserRow.isLike firstName lastName)).insertionSort
    fun r s => r.id ≤ s.id).map UserRow.result

/-- The search returns the users whose names start with the queries, once each and ordered by id. -/
def UsersTable.SearchedByPrefix (t : UsersTable) (firstName lastName : String) : Prop :=
  (∀ u, u ∈ searchUsers t firstName lastName ↔ ∃ row ∈ t.rows, row.result = u ∧
    firstName.toList <+: row.firstName.toList ∧ lastName.toList <+: row.lastName.toList) ∧
    ((searchUsers t firstName lastName).map UserSearchResult.id).Pairwise (· < ·)

/-- So on every table. -/
def SearchesByPrefix (firstName lastName : String) : Prop :=
  ∀ t : UsersTable, t.SearchedByPrefix firstName lastName

theorem isLike_iff (firstName lastName : String) (row : UserRow) :
    row.isLike firstName lastName = true ↔
      like (firstName.toList ++ ['%']) row.firstName.toList = true ∧
        like (lastName.toList ++ ['%']) row.lastName.toList = true := by
  simp [UserRow.isLike]

theorem mem_searchUsers {t : UsersTable} {firstName lastName : String} {u : UserSearchResult} :
    u ∈ searchUsers t firstName lastName ↔
      ∃ row ∈ t.rows, row.result = u ∧ row.isLike firstName lastName = true := by
  simp only [searchUsers, List.mem_map, List.mem_insertionSort, List.mem_filter]
  constructor
  · rintro ⟨row, ⟨hrow, hlike⟩, rfl⟩
    exact ⟨row, hrow, rfl, hlike⟩
  · rintro ⟨row, hrow, rfl, hlike⟩
    exact ⟨row, ⟨hrow, hlike⟩, rfl⟩

/-- Whatever the queries, nobody is returned twice and the results come in the order of their ids. -/
theorem searchUsers_ordered (t : UsersTable) (firstName lastName : String) :
    ((searchUsers t firstName lastName).map UserSearchResult.id).Pairwise (· < ·) := by
  set found := t.rows.filter (UserRow.isLike firstName lastName) with hfound
  have hids : (searchUsers t firstName lastName).map UserSearchResult.id
      = (found.insertionSort fun r s => r.id ≤ s.id).map UserRow.id := by
    rw [searchUsers, List.map_map]
    rfl
  have hsorted : ((found.insertionSort fun r s => r.id ≤ s.id).map UserRow.id).Pairwise
      (· ≤ ·) := by
    rw [List.pairwise_map]
    exact List.pairwise_insertionSort _ _
  have hnodup : ((found.insertionSort fun r s => r.id ≤ s.id).map UserRow.id).Nodup := by
    have hperm := (List.perm_insertionSort (fun r s : UserRow => r.id ≤ s.id) found).map UserRow.id
    rw [hperm.nodup_iff, hfound]
    exact t.nodup_ids.sublist (List.filter_sublist.map _)
  rw [hids]
  exact (hsorted.and hnodup).imp fun h => lt_of_le_of_ne h.1 h.2

/-- A user with the given names, alone in the table. -/
def onlyUser (firstName lastName : String) : UsersTable where
  rows := [⟨.ofNat 1, firstName, lastName, ⟨1990, 1, 1⟩, none, "Moscow"⟩]
  nodup_ids := by simp

theorem fits_onlyUser {a b : List Char} (ha : a.length ≤ 100) (hb : b.length ≤ 100) :
    (onlyUser (String.ofList a) (String.ofList b)).Fits := by
  intro row hrow
  obtain rfl := List.mem_singleton.mp hrow
  simp [ha, hb]

/-- What prefix search says of a table with one user. -/
theorem onlyUser_iff {firstName lastName : String} {a b : List Char}
    (h : (onlyUser (String.ofList a) (String.ofList b)).SearchedByPrefix firstName lastName) :
    (like (firstName.toList ++ ['%']) a = true ∧ like (lastName.toList ++ ['%']) b = true) ↔
      firstName.toList <+: a ∧ lastName.toList <+: b := by
  have hmem := h.1
    (UserRow.result ⟨.ofNat 1, String.ofList a, String.ofList b, ⟨1990, 1, 1⟩, none, "Moscow"⟩)
  rw [mem_searchUsers] at hmem
  simpa [onlyUser, isLike_iff] using hmem

/-- Plain queries search by prefix. -/
theorem searchedByPrefix_of_plain {firstName lastName : String} (hfirst : Plain firstName.toList)
    (hlast : Plain lastName.toList) (t : UsersTable) : t.SearchedByPrefix firstName lastName := by
  refine ⟨fun u => ?_, searchUsers_ordered t firstName lastName⟩
  rw [mem_searchUsers]
  refine exists_congr fun row => and_congr_right fun _ => and_congr_right fun _ => ?_
  rw [isLike_iff, like_append_percent_of_plain hfirst, like_append_percent_of_plain hlast]

/-- Queries that search tables of one user by prefix are plain; names as long as the queries are enough
to see it. -/
theorem plain_of_searchedByPrefix {firstName lastName : String} {n : Nat}
    (hfirst : firstName.toList.length ≤ n) (hlast : lastName.toList.length ≤ n)
    (h : ∀ a b : List Char, a.length ≤ n → b.length ≤ n →
      (onlyUser (String.ofList a) (String.ofList b)).SearchedByPrefix firstName lastName) :
    Plain firstName.toList ∧ Plain lastName.toList := by
  -- the user named like the queries is found, so each half can be tested alone
  have hself := (onlyUser_iff (h firstName.toList lastName.toList hfirst hlast)).mpr
    ⟨List.prefix_refl _, List.prefix_refl _⟩
  constructor
  · refine (like_append_percent_iff _ hfirst).mp fun a ha => ?_
    have hiff := onlyUser_iff (h a lastName.toList ha hlast)
    simpa [hself.2] using hiff
  · refine (like_append_percent_iff _ hlast).mp fun b hb => ?_
    have hiff := onlyUser_iff (h firstName.toList b hfirst hb)
    simpa [hself.1] using hiff

/-- **Search is prefix search exactly for queries in which `LIKE` gives no character a meaning**; for
queries of up to 100 characters this is seen on tables whose names fit their columns. -/
theorem search_by_prefix_iff (firstName lastName : String) :
    (SearchesByPrefix firstName lastName ↔ Plain firstName.toList ∧ Plain lastName.toList) ∧
      (firstName.length ≤ 100 ∧ lastName.length ≤ 100 →
        ((∀ t : UsersTable, t.Fits → t.SearchedByPrefix firstName lastName) ↔
          Plain firstName.toList ∧ Plain lastName.toList)) := by
  refine ⟨⟨fun h => ?_, fun h t => searchedByPrefix_of_plain h.1 h.2 t⟩, ?_⟩
  · exact plain_of_searchedByPrefix (le_max_left _ _) (le_max_right _ _) fun a b _ _ => h _
  · rintro ⟨hfirst, hlast⟩
    rw [← String.length_toList] at hfirst hlast
    refine ⟨fun h => ?_, fun h t _ => searchedByPrefix_of_plain h.1 h.2 t⟩
    exact plain_of_searchedByPrefix hfirst hlast fun a b ha hb => h _ (fits_onlyUser ha hb)

/-- **A query with an underscore finds names that do not start with it.** -/
theorem underscore_isWildcard : ¬ SearchesByPrefix "A_" "Ko" := by
  intro h
  have hmem := ((h (onlyUser "Anna" "Kova")).1
    (UserRow.result ⟨.ofNat 1, "Anna", "Kova", ⟨1990, 1, 1⟩, none, "Moscow"⟩)).mp (by decide +kernel)
  obtain ⟨row, hrow, -, hpre, -⟩ := hmem
  obtain rfl := List.mem_singleton.mp hrow
  exact absurd hpre (by decide)

end HighLoad.Users
