import Mathlib.Data.List.Nodup
import Mathlib.Data.List.Sublists

/-!
Tables with unique columns: an insertion whose key is taken is skipped, and one whose
second unique column is taken aborts.
-/

namespace PrivatePayments.Library.UniqueTable

variable {α κ ι : Type} [DecidableEq κ] [DecidableEq ι]

/-- `INSERT ... ON CONFLICT(key) DO NOTHING` into a table where the column `own` is unique too. -/
def insert (key : α → κ) (own : α → ι) (table : List α) (row : α) : Option (List α) :=
  if key row ∈ table.map key then some table
  else if own row ∈ table.map own then none
  else some (table ++ [row])

def insertAll (key : α → κ) (own : α → ι) (table rows : List α) : Option (List α) :=
  rows.foldlM (insert key own) table

section Rules

variable {key : α → κ} {own : α → ι} {table rows : List α} {row : α}

theorem filter_eq_singleton {p : α → Bool} (nodup : rows.Nodup) (member : row ∈ rows) (holds : p row = true)
    (only : ∀ other ∈ rows, p other = true → other = row) : rows.filter p = [row] := by
  have perm : (rows.filter p).Perm [row] := by
    rw [List.perm_ext_iff_of_nodup (nodup.filter p) (List.nodup_singleton row)]
    intro other
    rw [List.mem_filter, List.mem_singleton]
    constructor
    · intro kept
      exact only other kept.1 kept.2
    · rintro rfl
      exact ⟨member, holds⟩
  exact List.perm_singleton.mp perm

theorem filter_key (unique : (rows.map key).Nodup) (member : row ∈ rows) :
    rows.filter (fun other => key other = key row) = [row] :=
  filter_eq_singleton unique.of_map member (decide_eq_true rfl) fun _ inside same =>
    List.inj_on_of_nodup_map unique inside member (of_decide_eq_true same)

theorem insert_taken (taken : key row ∈ table.map key) : insert key own table row = some table :=
  if_pos taken

theorem insert_fresh (fresh : key row ∉ table.map key) (unused : own row ∉ table.map own) :
    insert key own table row = some (table ++ [row]) := by
  rw [insert, if_neg fresh, if_neg unused]

theorem insertAll_cons (row : α) (rows : List α) :
    insertAll key own table (row :: rows) =
      (insert key own table row).bind fun next => insertAll key own next rows := rfl

/-- What a batch adds to a table: some of its rows in their order, so that every key of the batch is
there afterwards and no key is there twice. -/
structure Added (key : α → κ) (table rows added : List α) : Prop where
  sublist : added.Sublist rows
  nodup : ((table ++ added).map key).Nodup
  covers : ∀ row ∈ rows, key row ∈ (table ++ added).map key

theorem insertAll_added (distinct : ((table ++ rows).map own).Nodup) (keys : (table.map key).Nodup) :
    ∃ added, insertAll key own table rows = some (table ++ added) ∧ Added key table rows added := by
  induction rows generalizing table with
  | nil => exact ⟨[], by rw [List.append_nil]; rfl, List.Sublist.refl _, by simpa using keys, by simp⟩
  | cons row rows ih =>
    rw [insertAll_cons]
    by_cases taken : key row ∈ table.map key
    · have rest : ((table ++ rows).map own).Nodup :=
        distinct.sublist (((List.sublist_cons_self row rows).append_left table).map own)
      obtain ⟨added, result, step⟩ := ih rest keys
      refine ⟨added, ?_, step.sublist.cons row, step.nodup, ?_⟩
      · rw [insert_taken taken, Option.bind_some, result]
      · intro other member
        cases member with
        | head => rw [List.map_append]; exact List.mem_append_left _ taken
        | tail _ later => exact step.covers other later
    · have unused : own row ∉ table.map own := by
        intro used
        rw [List.map_append, List.nodup_append'] at distinct
        exact distinct.2.2 used (by simp)
      have keys' : ((table ++ [row]).map key).Nodup := by
        rw [List.map_append, List.map_singleton]
        exact List.nodup_append'.mpr ⟨keys, List.nodup_singleton _,
          List.disjoint_singleton.mpr taken⟩
      have rest : (((table ++ [row]) ++ rows).map own).Nodup := by
        rw [List.append_assoc]
        exact distinct
      obtain ⟨added, result, step⟩ := ih rest keys'
      have whole : table ++ [row] ++ added = table ++ row :: added := by simp
      rw [whole] at result
      refine ⟨row :: added, ?_, step.sublist.cons_cons row, ?_, ?_⟩
      · rw [insert_fresh taken unused, Option.bind_some, result]
      · rw [← whole]
        exact step.nodup
      · intro other member
        rw [← whole]
        cases member with
        | head => simp
        | tail _ later => exact step.covers other later

theorem insertAll_some {next : List α} (saved : insertAll key own table rows = some next)
    (keys : (table.map key).Nodup) : ∃ added, next = table ++ added ∧ (next.map key).Nodup := by
  induction rows generalizing table with
  | nil =>
    cases saved
    exact ⟨[], (List.append_nil _).symm, keys⟩
  | cons row rows ih =>
    rw [insertAll_cons] at saved
    by_cases taken : key row ∈ table.map key
    · rw [insert_taken taken] at saved
      exact ih saved keys
    · by_cases used : own row ∈ table.map own
      · rw [insert, if_neg taken, if_pos used] at saved
        cases saved
      · rw [insert_fresh taken used, Option.bind_some] at saved
        have keys' : ((table ++ [row]).map key).Nodup := by
          rw [List.map_append, List.map_singleton]
          exact List.nodup_append'.mpr ⟨keys, List.nodup_singleton _, List.disjoint_singleton.mpr taken⟩
        obtain ⟨added, rfl, distinct⟩ := ih saved keys'
        exact ⟨row :: added, by rw [List.append_assoc]; rfl, distinct⟩

/-- A batch that goes through adds some of its rows, and their second columns are new. -/
theorem insertAll_own {next : List α} (saved : insertAll key own table rows = some next)
    (owns : (table.map own).Nodup) : next ⊆ table ++ rows ∧ (next.map own).Nodup := by
  induction rows generalizing table with
  | nil =>
    cases saved
    exact ⟨by rw [List.append_nil]; exact List.Subset.refl _, owns⟩
  | cons row rows ih =>
    rw [insertAll_cons] at saved
    by_cases taken : key row ∈ table.map key
    · rw [insert_taken taken] at saved
      obtain ⟨part, distinct⟩ := ih saved owns
      refine ⟨List.Subset.trans part ?_, distinct⟩
      exact List.append_subset.mpr ⟨List.subset_append_left _ _,
        List.Subset.trans (List.subset_cons_self row rows) (List.subset_append_right _ _)⟩
    · by_cases used : own row ∈ table.map own
      · rw [insert, if_neg taken, if_pos used] at saved
        cases saved
      · rw [insert_fresh taken used, Option.bind_some] at saved
        have owns' : ((table ++ [row]).map own).Nodup := by
          rw [List.map_append, List.map_singleton]
          exact List.nodup_append'.mpr ⟨owns, List.nodup_singleton _, List.disjoint_singleton.mpr used⟩
        obtain ⟨part, distinct⟩ := ih saved owns'
        rw [List.append_assoc] at part
        exact ⟨part, distinct⟩

end Rules

theorem length_le_one {items : List α} (distinct : items.Nodup)
    (same : ∀ a ∈ items, ∀ b ∈ items, a = b) : items.length ≤ 1 := by
  cases items with
  | nil => exact Nat.zero_le 1
  | cons a rest =>
    cases rest with
    | nil => exact le_refl 1
    | cons b rest =>
      have equal := same a (by simp) b (by simp)
      exact absurd (equal ▸ List.mem_cons_self) (List.nodup_cons.mp distinct).1

end PrivatePayments.Library.UniqueTable
