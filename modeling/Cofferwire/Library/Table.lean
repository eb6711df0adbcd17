import Mathlib.Data.List.MinMax
import Mathlib.Data.List.Nodup

-- Database tables as lists of rows in the order of their insertion.
namespace Table

-- Applies `f` to the rows which satisfy `p`.
def update (p : ρ → Bool) (f : ρ → ρ) (rows : List ρ) : List ρ :=
  rows.map fun row => if p row then f row else row

-- No two rows have the same key.
def Keyed (key : ρ → κ) (rows : List ρ) : Prop :=
  (rows.map key).Nodup

theorem Keyed.eq {rows : List ρ} (h : Keyed key rows) (hr : row ∈ rows) (hr' : row' ∈ rows)
    (hk : key row = key row') : row = row' :=
  List.inj_on_of_nodup_map h hr hr' hk

theorem Keyed.append {rows : List ρ} (h : Keyed key rows) (hk : ∀ row' ∈ rows, key row' ≠ key row) :
    Keyed key (rows ++ [row]) := by
  simpa [Keyed, List.nodup_append] using ⟨h, hk⟩

theorem Keyed.update {rows : List ρ} (h : Keyed key rows) (hf : ∀ row, key (f row) = key row) :
    Keyed key (update p f rows) := by
  have hu (row) : key (if p row then f row else row) = key row := by
    split <;> simp [hf]
  simpa [Keyed, Table.update, Function.comp_def, hu] using h

theorem Keyed.filter {rows : List ρ} (h : Keyed key rows) : Keyed key (rows.filter p) :=
  h.sublist (List.filter_sublist.map key)

-- Every row refers to one of another table by that row's key.
def References (reference : ρ → κ) (rows : List ρ) (key : ρ' → κ) (rows' : List ρ') : Prop :=
  ∀ row ∈ rows, ∃ row' ∈ rows', key row' = reference row

variable {κ : Type} [DecidableEq κ] (key : ρ → κ) (rowid : ρ → Nat)

-- The first row with a given key.
def lookup (k : κ) (rows : List ρ) : Option ρ :=
  rows.find? (key · = k)

-- Fails if there is already a row with the same key.
def insert (row : ρ) (rows : List ρ) : Option (List ρ) :=
  if (lookup key (key row) rows).isSome then none else some (rows ++ [row])

def insertOrIgnore (row : ρ) (rows : List ρ) : List ρ :=
  (insert key row rows).getD rows

def insertAllOrIgnore (new rows : List ρ) : List ρ :=
  new.foldl (fun rows row => insertOrIgnore key row rows) rows

-- The row with the least row id.
def first (rows : List ρ) : Option ρ :=
  rows.argmin rowid

def nextRowid (rows : List ρ) : Nat :=
  (rows.map rowid).foldr max 0 + 1

variable {key rowid} {rows : List ρ}

theorem lookup_eq_none : lookup key k rows = none ↔ ∀ row ∈ rows, key row ≠ k := by
  simp [lookup]

theorem mem_of_lookup (h : lookup key k rows = some row) : row ∈ rows :=
  List.mem_of_find?_eq_some h

theorem key_of_lookup (h : lookup key k rows = some row) : key row = k := by
  simpa using List.find?_some h

theorem insert_eq_some :
    insert key row rows = some rows' ↔
      lookup key (key row) rows = none ∧ rows' = rows ++ [row] := by
  simp only [insert, Option.isSome_iff_ne_none]
  split <;> simp_all [eq_comm]

theorem lookup_eq_some (h : Keyed key rows) :
    lookup key k rows = some row ↔ row ∈ rows ∧ key row = k where
  mp hl := ⟨mem_of_lookup hl, key_of_lookup hl⟩
  mpr := by
    intro ⟨hm, hk⟩
    cases hl : lookup key k rows
    case none => exact absurd hk <| lookup_eq_none.mp hl row hm
    case some row' =>
      have hk' := key_of_lookup hl
      exact congrArg some <| List.inj_on_of_nodup_map h (mem_of_lookup hl) hm (hk'.trans hk.symm)

theorem lookup_append_of_ne (h : key row ≠ k) :
    lookup key k (rows ++ [row]) = lookup key k rows := by
  simp [lookup, List.find?_append, h]

theorem lookup_append_self (h : lookup key k rows = none) (hk : key row = k) :
    lookup key k (rows ++ [row]) = some row := by
  simp only [lookup] at *
  simp [List.find?_append, h, hk]

theorem lookup_filter_self : lookup key k (rows.filter (key · ≠ k)) = none := by
  simp [lookup]

theorem lookup_filter_of_ne (h : k ≠ k') :
    lookup key k (rows.filter (key · ≠ k')) = lookup key k rows := by
  simp only [lookup, List.find?_filter]
  congr 1
  funext row
  by_cases hk : key row = k <;> simp [hk, h]

theorem insertOrIgnore_cases (key : ρ → κ) (row : ρ) (rows : List ρ) :
    (insertOrIgnore key row rows = rows ++ [row] ∧ ∀ row' ∈ rows, key row' ≠ key row) ∨
    (insertOrIgnore key row rows = rows ∧ ∃ row' ∈ rows, key row' = key row) := by
  simp only [insertOrIgnore, insert]
  cases hl : lookup key (key row) rows
  case none => exact .inl ⟨rfl, lookup_eq_none.mp hl⟩
  case some row' => exact .inr ⟨rfl, row', mem_of_lookup hl, key_of_lookup hl⟩

theorem Keyed.insertOrIgnore (h : Keyed key rows) : Keyed key (insertOrIgnore key row rows) := by
  obtain ⟨he, hn⟩ | ⟨he, _⟩ := insertOrIgnore_cases key row rows
  · exact he ▸ h.append hn
  · rwa [he]

theorem prefix_insertOrIgnore : rows <+: insertOrIgnore key row rows := by
  obtain ⟨he, _⟩ | ⟨he, _⟩ := insertOrIgnore_cases key row rows
  · exact he ▸ List.prefix_append ..
  · simp [he]

theorem mem_insertOrIgnore (h : row' ∈ insertOrIgnore key row rows) :
    row' ∈ rows ∨ row' = row ∧ ∀ row' ∈ rows, key row' ≠ key row := by
  obtain ⟨he, hn⟩ | ⟨he, _⟩ := insertOrIgnore_cases key row rows
  · rcases List.mem_append.mp (he ▸ h) with h | h
    · exact .inl h
    · exact .inr ⟨List.mem_singleton.mp h, hn⟩
  · exact .inl (he ▸ h)

theorem exists_insertOrIgnore : ∃ row' ∈ insertOrIgnore key row rows, key row' = key row := by
  obtain ⟨he, _⟩ | ⟨he, h⟩ := insertOrIgnore_cases key row rows
  · exact ⟨row, by simp [he], rfl⟩
  · rwa [he]

theorem lookup_insertOrIgnore_ne_none (hk : key row = k) :
    lookup key k (insertOrIgnore key row rows) ≠ none := by
  intro h
  have ⟨row', hm, hk'⟩ : ∃ row' ∈ insertOrIgnore key row rows, _ := exists_insertOrIgnore
  exact lookup_eq_none.mp h row' hm (hk'.trans hk)

section InsertAll

variable {new : List ρ}

theorem Keyed.insertAllOrIgnore (h : Keyed key rows) : Keyed key (insertAllOrIgnore key new rows) := by
  induction new generalizing rows
  case nil => exact h
  case cons hi => exact hi h.insertOrIgnore

theorem prefix_insertAllOrIgnore : rows <+: insertAllOrIgnore key new rows := by
  induction new generalizing rows
  case nil => exact List.prefix_rfl
  case cons hi => exact prefix_insertOrIgnore.trans hi

theorem mem_insertAllOrIgnore (h : row ∈ insertAllOrIgnore key new rows) : row ∈ rows ∨ row ∈ new := by
  induction new generalizing rows
  case nil => exact .inl h
  case cons hi =>
    rcases hi h with h | h
    · rcases mem_insertOrIgnore h with h | ⟨rfl, _⟩
      · exact .inl h
      · exact .inr List.mem_cons_self
    · exact .inr <| List.mem_cons_of_mem _ h

theorem exists_insertAllOrIgnore (h : row ∈ new) :
    ∃ row' ∈ insertAllOrIgnore key new rows, key row' = key row := by
  induction new generalizing rows
  case nil => contradiction
  case cons hi =>
    rcases List.mem_cons.mp h with rfl | h
    · have ⟨row', hm, hk⟩ : ∃ row' ∈ insertOrIgnore key row rows, _ := exists_insertOrIgnore
      exact ⟨row', prefix_insertAllOrIgnore.mem hm, hk⟩
    · exact hi h

end InsertAll

theorem update_eq_self (h : ∀ row ∈ rows, ¬p row) : update p f rows = rows := by
  rw [update, List.map_congr_left (g := id)]
  · exact List.map_id rows
  · intro row hr
    simp [h row hr]

theorem filter_update (h : ∀ row, g (f row) = g row) :
    (update p f rows).filter g = update p f (rows.filter g) := by
  simp only [update, List.filter_map]
  congr 2
  funext row
  simp only [Function.comp]
  split <;> simp [h]

theorem mem_update : row ∈ update p f rows ↔ ∃ row' ∈ rows, (if p row' then f row' else row') = row :=
  List.mem_map

theorem lookup_update (h : ∀ row, key (f row) = key row) :
    lookup key k (update p f rows) =
      (lookup key k rows).map fun row => if p row then f row else row := by
  have hu (row) : key (if p row then f row else row) = key row := by
    split <;> simp [h]
  simp only [lookup, update, List.find?_map, Function.comp_def, hu]

theorem update_cons :
    update p f (row :: rows) = (if p row then f row else row) :: update p f rows :=
  rfl

theorem pairwise_update (h : ∀ row, rowid (f row) = rowid row)
    (hp : rows.Pairwise (rowid · < rowid ·)) : (update p f rows).Pairwise (rowid · < rowid ·) := by
  have hu (row) : rowid (if p row then f row else row) = rowid row := by
    split <;> simp [h]
  simpa [update, List.pairwise_map, hu] using hp

theorem lt_nextRowid (h : row ∈ rows) : rowid row < nextRowid rowid rows := by
  induction rows
  case nil => contradiction
  case cons hi =>
    simp only [nextRowid, List.map_cons, List.foldr_cons] at *
    rcases List.mem_cons.mp h with rfl | h
    · omega
    · have := hi h
      omega

theorem eq_of_rowid_eq (h : rows.Pairwise (rowid · < rowid ·)) (hr : row ∈ rows) (hr' : row' ∈ rows)
    (he : rowid row = rowid row') : row = row' := by
  have hn : (rows.map rowid).Nodup := List.pairwise_map.mpr (h.imp Nat.ne_of_lt)
  exact List.inj_on_of_nodup_map hn hr hr' he

-- If the rows are already ordered by their row ids, the first one has the least row id.
theorem first_eq_head? (h : rows.Pairwise (rowid · < rowid ·)) :
    first rowid rows = rows.head? := by
  cases rows
  case nil => rfl
  case cons row rows =>
    cases hf : first rowid (row :: rows)
    case none => simp [first] at hf
    case some m =>
      have hl := List.le_of_mem_argmin List.mem_cons_self hf
      rcases List.mem_cons.mp (List.argmin_mem hf) with rfl | hm
      · rfl
      · have := List.rel_of_pairwise_cons h hm
        omega

end Table
