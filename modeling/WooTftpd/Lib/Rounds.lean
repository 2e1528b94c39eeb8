import WooTftpd.Lib.Machine

namespace Lib
set_option autoImplicit true

/-- A machine that works in rounds: `round` is the number of the round that is on, rounds are
not taken up again, and once there is none the run is over. -/
structure Rounds (M : Machine σ ε α) (round : Config σ ε α → Option Nat)
    (stopped : Config σ ε α → Prop) : Prop where
  mono : ∀ {c e i j}, round c = some i → round (M.next c e) = some j → i ≤ j
  ends : ∀ {c e i}, round c = some i → round (M.next c e) = none → stopped (M.next c e)
  none_of_stopped : ∀ {c}, stopped c → round c = none
  stopped_next : ∀ {c e}, stopped c → stopped (M.next c e)

/-- The events `pre` are the first ones after which round `i` is on. -/
structure Begins (M : Machine σ ε α) (round : Config σ ε α → Option Nat) (i : Nat)
    (pre : List ε) : Prop where
  on : round (M.run pre) = some i
  first : ∀ pre', pre' <+: pre → round (M.run pre') = some i → pre' = pre

namespace Rounds

variable {M : Machine σ ε α} {round : Config σ ε α → Option Nat} {stopped : Config σ ε α → Prop}

theorem later (h : Rounds M round stopped) (hi : round (M.run pre) = some i) (w : List ε) :
    (∃ j, round (M.run (pre ++ w)) = some j ∧ i ≤ j) ∨ stopped (M.run (pre ++ w)) := by
  induction w using List.reverseRecOn with
  | nil =>
    rw [List.append_nil]
    exact .inl ⟨i, hi, Nat.le_refl i⟩
  | append_singleton w e ih =>
    rw [← List.append_assoc, Machine.run_concat]
    rcases ih with ⟨j, hj, hle⟩ | ho
    · cases hn : round (M.next (M.run (pre ++ w)) e) with
      | none => exact .inr (h.ends hj hn)
      | some k => exact .inl ⟨k, rfl, Nat.le_trans hle (h.mono hj hn)⟩
    · exact .inr (h.stopped_next ho)

/-- A round that has begun and is on after one more event was on before it. -/
theorem still_on (h : Rounds M round stopped) (hpre : pre <+: es) (hi : round (M.run pre) = some i)
    (he : round (M.run (es ++ [e])) = some i) : round (M.run es) = some i := by
  obtain ⟨w, rfl⟩ := hpre
  rw [Machine.run_concat] at he
  rcases h.later hi w with ⟨j, hj, hle⟩ | ho
  · rw [hj, Nat.le_antisymm (h.mono hj he) hle]
  · rw [h.none_of_stopped (h.stopped_next ho)] at he
    cases he

/-- What holds when a round begins and is preserved by every event within it holds of the
events since its beginning, wherever a run is. -/
theorem induction (h : Rounds M round stopped) {P : Nat → List ε → List ε → Prop}
    (hinit : ∀ i, round M.init = some i → P i [] [])
    (henter : ∀ i es e, round (M.run es) ≠ some i → round (M.next (M.run es) e) = some i →
      P i (es ++ [e]) [])
    (hstep : ∀ i pre w e, P i pre w → round (M.run (pre ++ w)) = some i →
      round (M.next (M.run (pre ++ w)) e) = some i → P i pre (w ++ [e]))
    (es : List ε) (hi : round (M.run es) = some i) :
    ∃ pre w, es = pre ++ w ∧ Begins M round i pre ∧ P i pre w := by
  induction es using List.reverseRecOn with
  | nil =>
    refine ⟨[], [], rfl, ⟨hi, ?_⟩, hinit i hi⟩
    intro pre' hpre' _
    exact List.prefix_nil.1 hpre'
  | append_singleton es e ih =>
    by_cases hon : round (M.run es) = some i
    · obtain ⟨pre, w, rfl, hbegins, hp⟩ := ih hon
      rw [Machine.run_concat] at hi
      exact ⟨pre, w ++ [e], List.append_assoc _ _ _, hbegins, hstep i pre w e hp hon hi⟩
    · refine ⟨es ++ [e], [], (List.append_nil _).symm, ⟨hi, ?_⟩, ?_⟩
      · intro pre' hpre' hi'
        rcases List.prefix_concat_iff.1 hpre' with rfl | hpre'
        · rfl
        · exact absurd (h.still_on hpre' hi' hi) hon
      · rw [Machine.run_concat] at hi
        exact henter i es e hon hi

end Rounds

end Lib
