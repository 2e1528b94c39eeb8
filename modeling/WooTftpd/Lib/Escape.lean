import Mathlib.Algebra.Ring.Parity
import Mathlib.Data.List.Induction

namespace Lib
set_option autoImplicit true

variable {α : Type} [DecidableEq α] {esc : α} {stop : α → Bool}

/-- How many escape characters a text ends with. -/
def trailing (esc : α) (xs : List α) : Nat := (xs.reverse.takeWhile (· = esc)).length

theorem trailing_nil (esc : α) : trailing esc [] = 0 := rfl

theorem trailing_concat (esc : α) (xs : List α) (c : α) :
    trailing esc (xs ++ [c]) = if c = esc then trailing esc xs + 1 else 0 := by
  rw [trailing, List.reverse_concat, List.takeWhile_cons]
  by_cases hc : c = esc
  · rw [if_pos (decide_eq_true hc), if_pos hc]
    rfl
  · rw [if_neg (by rwa [decide_eq_true_eq]), if_neg hc]
    rfl

/-- An escape character before which an even number of them stands takes what comes next out of
its role; a pair of them does not. -/
def Escapes (esc : α) (xs : List α) : Prop := Odd (trailing esc xs)

instance : Decidable (Escapes esc xs) := inferInstanceAs (Decidable (Odd _))

theorem not_escapes_nil (esc : α) : ¬ Escapes esc [] := by
  rw [Escapes, trailing_nil]
  exact Nat.not_odd_zero

theorem escapes_concat_iff (xs : List α) (c : α) :
    Escapes esc (xs ++ [c]) ↔ ¬ Escapes esc xs ∧ c = esc := by
  rw [Escapes, Escapes, trailing_concat]
  split
  · rename_i hc
    rw [Nat.odd_add_one]
    exact (and_iff_left hc).symm
  · rename_i hc
    exact iff_of_false Nat.not_odd_zero fun h => hc h.2

/-- What a scanner returns that keeps one bit of what it has read: the text up to the first
character of the kind `stop` that is not escaped, and the rest. -/
def escapedSpan (esc : α) (stop : α → Bool) : Bool → List α → List α × List α
  | _, [] => ([], [])
  | escaped, c :: xs =>
    if escaped = false ∧ stop c = true then ([], c :: xs)
    else
      let r := escapedSpan esc stop (!escaped && c == esc) xs
      (c :: r.1, r.2)

/-- The two parts are the text again. -/
theorem escapedSpan_append (escaped : Bool) (xs : List α) :
    (escapedSpan esc stop escaped xs).1 ++ (escapedSpan esc stop escaped xs).2 = xs := by
  induction xs generalizing escaped with
  | nil => rfl
  | cons c xs ih =>
    rw [escapedSpan]
    split
    · rfl
    · exact congrArg (c :: ·) (ih _)

/-- All characters of the kind `stop` are escaped in the text, and its end escapes nothing. -/
structure Protected (esc : α) (stop : α → Bool) (xs : List α) : Prop where
  inside : ∀ p c q, xs = p ++ c :: q → stop c = true → Escapes esc p
  closed : ¬ Escapes esc xs

/-- Nothing stops a scanner at the begin of the text. -/
def Stops (stop : α → Bool) (xs : List α) : Prop := ∀ c ∈ xs.head?, stop c = true

theorem escapedSpan_stops (h : Stops stop ys) : escapedSpan esc stop false ys = ([], ys) := by
  cases ys with
  | nil => rfl
  | cons c ys => exact if_pos ⟨rfl, h c rfl⟩

/-- The bit of the scanner says whether what it has read so far escapes the next character. -/
theorem escapedSpan_read (xs : List α) (pre : List α)
    (hin : ∀ p c q, xs = p ++ c :: q → stop c = true → Escapes esc (pre ++ p))
    (hend : ¬ Escapes esc (pre ++ xs)) (hys : Stops stop ys) :
    escapedSpan esc stop (decide (Escapes esc pre)) (xs ++ ys) = (xs, ys) := by
  induction xs generalizing pre with
  | nil =>
    rw [List.append_nil] at hend
    rw [decide_eq_false hend]
    exact escapedSpan_stops hys
  | cons c xs ih =>
    have hbit : (!decide (Escapes esc pre) && c == esc) = decide (Escapes esc (pre ++ [c])) := by
      rw [Bool.eq_iff_iff, Bool.and_eq_true, Bool.not_eq_true', decide_eq_false_iff_not,
        decide_eq_true_eq, beq_iff_eq, escapes_concat_iff]
    have hgo : ¬ (decide (Escapes esc pre) = false ∧ stop c = true) := by
      rintro ⟨hpre, hc⟩
      have hesc := hin [] c xs rfl hc
      rw [List.append_nil] at hesc
      exact of_decide_eq_false hpre hesc
    have hrest := ih (pre ++ [c])
    rw [List.append_assoc] at hrest
    rw [List.cons_append, escapedSpan, if_neg hgo, hbit]
    dsimp only
    rw [hrest _ hend]
    intro p d q hp hd
    rw [List.append_assoc]
    exact hin (c :: p) d q (congrArg (c :: ·) hp) hd

/-- A protected text is read as a whole, up to where the scanner is to stop. -/
theorem Protected.escapedSpan (h : Protected esc stop xs) (hys : Stops stop ys) :
    escapedSpan esc stop false (xs ++ ys) = (xs, ys) := by
  have hread := escapedSpan_read xs [] h.inside h.closed hys
  rwa [decide_eq_false (not_escapes_nil esc)] at hread

theorem Protected.head (h : Protected esc stop (c :: xs)) : stop c = false := by
  rw [← Bool.not_eq_true]
  intro hc
  exact not_escapes_nil esc (h.inside [] c xs rfl hc)

end Lib
