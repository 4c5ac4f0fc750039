import Mathlib.Data.List.Rotate
import Mathlib.Data.Nat.ModEq

/-!
# Circular buffers

The cells of an array from a start on, around its end: a prefix of a rotation. Writing the
cell behind the last one appends (`circular_push`), moving the start on takes the first one
away (`circular_pop`). The indices are those that a program computes with `%`.
-/

namespace CSC360.Base

universe u

variable {α : Type u} {cells : List α} {start len : Nat} {v : α}

/-- The `len` cells from `start` on. -/
def circular (cells : List α) (start len : Nat) : List α := (cells.rotate start).take len

theorem circular_zero : circular cells start 0 = [] := List.take_zero

/-- Different places of a circle have different indices. -/
theorem circular_index_inj {n i j : Nat} (left : i < n) (right : j < n) (same : (i + start) % n = (j + start) % n) :
    i = j := by
  have cancelled : i % n = j % n := Nat.ModEq.add_right_cancel' start same
  rwa [Nat.mod_eq_of_lt left, Nat.mod_eq_of_lt right] at cancelled

/-- Writing a cell of the circle. -/
theorem rotate_set (inside : len < cells.length) :
    (cells.set ((len + start) % cells.length) v).rotate start = (cells.rotate start).set len v := by
  refine List.ext_getElem (by simp) fun i left right => ?_
  rw [List.length_rotate, List.length_set] at left
  simp only [List.getElem_rotate, List.length_set, List.getElem_set]
  by_cases here : len = i
  · rw [if_pos (by rw [here]), if_pos here]
  · rw [if_neg fun same => here (circular_index_inj inside left same), if_neg here]

theorem circular_push (start : Nat) (v : α) (room : len < cells.length) :
    circular (cells.set ((len + start) % cells.length) v) start (len + 1) = circular cells start len ++ [v] := by
  have fits : len < ((cells.rotate start).set len v).length := by rwa [List.length_set, List.length_rotate]
  rw [circular, rotate_set room, List.take_succ_eq_append_getElem fits, List.getElem_set_self, List.take_set,
    List.set_eq_of_length_le (by rw [List.length_take]; omega), circular]

theorem circular_pop (some : 0 < len) (fits : len ≤ cells.length) (inside : start < cells.length) :
    ∃ v, cells[start]? = .some v ∧
      circular cells start len = v :: circular cells ((start + 1) % cells.length) (len - 1) := by
  refine ⟨cells[start], List.getElem?_eq_getElem inside, ?_⟩
  have first : cells.rotate start = cells[start] :: (cells.drop (start + 1) ++ cells.take start) := by
    rw [List.rotate_eq_drop_append_take (Nat.le_of_lt inside), List.drop_eq_getElem_cons inside, List.cons_append]
  have later : cells.rotate ((start + 1) % cells.length) =
      cells.drop (start + 1) ++ cells.take start ++ [cells[start]] := by
    rw [List.rotate_mod, ← List.rotate_rotate, first, List.rotate_cons_succ, List.rotate_zero]
  have rest : len - 1 ≤ (cells.drop (start + 1) ++ cells.take start).length := by
    rw [List.length_append, List.length_drop, List.length_take]
    omega
  rw [circular, circular, first, later, List.take_append_of_le_length rest]
  obtain ⟨m, rfl⟩ : ∃ m, len = m + 1 := ⟨len - 1, by omega⟩
  rfl

theorem circular_last (start : Nat) (fits : len < cells.length) :
    (circular cells start (len + 1)).getLast? = cells[(len + start) % cells.length]? := by
  have inside : len < (cells.rotate start).length := by rwa [List.length_rotate]
  have wrapped : (len + start) % cells.length < cells.length := Nat.mod_lt _ (by omega)
  rw [circular, List.take_succ_eq_append_getElem inside, List.getLast?_concat, List.getElem_rotate,
    List.getElem?_eq_getElem wrapped]

end CSC360.Base
