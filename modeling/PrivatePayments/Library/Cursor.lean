import Mathlib.Data.List.Sort

/-!
Reading a table in chunks: rows in the order of their ids, a cursor that holds the last id
read, and what is behind the cursor after a chunk.
-/

namespace PrivatePayments.Library.Cursor

variable {α : Type}

/-- `WHERE id > ?last ORDER BY id LIMIT ?limit` of rows in the order of their ids. -/
def fetch (id : α → Nat) (rows : List α) (last limit : Nat) : List α :=
  (rows.filter fun row => last < id row).take limit

def advance (id : α → Nat) (last : Nat) (chunk : List α) : Nat :=
  chunk.foldl (fun reached row => if reached < id row then id row else reached) last

section Rules

variable {id : α → Nat} {rows : List α} {last limit : Nat}

theorem mem_fetch {row : α} (member : row ∈ fetch id rows last limit) : row ∈ rows ∧ last < id row := by
  have kept := List.mem_filter.mp (List.mem_of_mem_take member)
  exact ⟨kept.1, of_decide_eq_true kept.2⟩

theorem le_of_fetch_nil (positive : 1 ≤ limit) (empty : fetch id rows last limit = []) :
    ∀ row ∈ rows, id row ≤ last := by
  intro row member
  rcases List.take_eq_nil_iff.mp empty with zero | none
  · omega
  · simpa using List.filter_eq_nil_iff.mp none row member

theorem advance_cons (row : α) (chunk : List α) :
    advance id last (row :: chunk) = advance id (if last < id row then id row else last) chunk := rfl

theorem le_advance (chunk : List α) : last ≤ advance id last chunk := by
  induction chunk generalizing last with
  | nil => exact le_refl last
  | cons row chunk ih =>
    rw [advance_cons]
    refine le_trans ?_ ih
    split <;> omega

theorem id_le_advance {chunk : List α} {row : α} (member : row ∈ chunk) : id row ≤ advance id last chunk := by
  induction chunk generalizing last with
  | nil => cases member
  | cons head chunk ih =>
    rw [advance_cons]
    cases member with
    | head =>
      refine le_trans ?_ (le_advance chunk)
      split <;> omega
    | tail _ later => exact ih later

theorem advance_le {chunk : List α} {bound : Nat} (below : last ≤ bound) (all : ∀ row ∈ chunk, id row ≤ bound) :
    advance id last chunk ≤ bound := by
  induction chunk generalizing last with
  | nil => exact below
  | cons head chunk ih =>
    rw [advance_cons]
    have first := all head List.mem_cons_self
    refine ih ?_ fun row member => all row (List.mem_cons_of_mem head member)
    split
    · exact first
    · exact below

theorem lt_advance (busy : fetch id rows last limit ≠ []) :
    last < advance id last (fetch id rows last limit) := by
  obtain ⟨row, member⟩ := List.exists_mem_of_ne_nil _ busy
  exact (mem_fetch member).2.trans_le (id_le_advance member)

theorem behind_advance (sorted : rows.Pairwise fun a b => id a < id b) {row : α} (member : row ∈ rows)
    (behind : id row ≤ advance id last (fetch id rows last limit)) :
    id row ≤ last ∨ row ∈ fetch id rows last limit := by
  by_cases before : id row ≤ last
  · exact Or.inl before
  · right
    have ahead : row ∈ rows.filter fun row => last < id row :=
      List.mem_filter.mpr ⟨member, by simpa using before⟩
    have order : (rows.filter fun row => last < id row).Pairwise fun a b => id a < id b :=
      sorted.sublist List.filter_sublist
    rw [← List.take_append_drop limit (rows.filter fun row => last < id row)] at ahead order
    rcases List.mem_append.mp ahead with taken | left
    · exact taken
    · -- a row that was left is after every row of the chunk
      have beyond : advance id last (fetch id rows last limit) ≤ id row - 1 := by
        refine advance_le (by omega) fun other inside => ?_
        have apart := (List.pairwise_append.mp order).2.2 other inside row left
        omega
      omega

end Rules

end PrivatePayments.Library.Cursor
