import Mathlib.Data.List.Basic
import Mathlib.Data.List.Infix

namespace Lib
set_option autoImplicit true

variable [DecidableEq α] (sep : α)

def componentsFrom (acc : List α) : List α → List (List α)
  | [] => if acc = [] then [] else [acc]
  | c :: s =>
    if c = sep then (if acc = [] then [] else [acc]) ++ componentsFrom [] s
    else componentsFrom (acc ++ [c]) s

/-- The parts of a path between its separators, the empty ones left out. -/
def components (s : List α) : List (List α) := componentsFrom sep [] s

theorem componentsFrom_append_sep (acc s t : List α) :
    componentsFrom sep acc (s ++ sep :: t) = componentsFrom sep acc s ++ components sep t := by
  induction s generalizing acc with
  | nil =>
    simp only [List.nil_append, componentsFrom, if_true]
    rfl
  | cons c s ih =>
    simp only [List.cons_append, componentsFrom]
    split
    · rw [ih, List.append_assoc]
    · exact ih _

theorem components_append_sep (s t : List α) :
    components sep (s ++ sep :: t) = components sep s ++ components sep t :=
  componentsFrom_append_sep sep [] s t

theorem componentsFrom_of_notMem (acc : List α) (h : sep ∉ s) :
    componentsFrom sep acc s = if acc ++ s = [] then [] else [acc ++ s] := by
  induction s generalizing acc with
  | nil => rw [componentsFrom, List.append_nil]
  | cons c s ih =>
    obtain ⟨hc, hs⟩ := not_or.1 (mt List.mem_cons.2 h)
    rw [componentsFrom, if_neg (Ne.symm hc), ih _ hs, List.append_assoc]
    rfl

theorem components_of_notMem (h : sep ∉ s) (hne : s ≠ []) : components sep s = [s] := by
  rw [components, componentsFrom_of_notMem sep [] h]
  exact if_neg hne

theorem length_le_of_mem_componentsFrom (acc : List α) (h : c ∈ componentsFrom sep acc s) :
    c.length ≤ acc.length + s.length := by
  have hself (h : c ∈ if acc = [] then [] else [acc]) : c.length ≤ acc.length := by
    split at h
    · cases h
    · rw [List.mem_singleton.1 h]
  induction s generalizing acc with
  | nil => exact hself h
  | cons a s ih =>
    rw [componentsFrom] at h
    rw [List.length_cons]
    split at h
    · rcases List.mem_append.1 h with h | h
      · have hl := hself h
        omega
      · have hl := ih [] h (fun h => absurd h List.not_mem_nil)
        rw [List.length_nil] at hl
        omega
    · have hl := ih (acc ++ [a]) h (fun h => by
        split at h
        · cases h
        · rw [List.mem_singleton.1 h])
      rw [List.length_append, List.length_singleton] at hl
      omega

theorem exists_last_component (h : sep ∈ s) : ∃ pre last, s = pre ++ sep :: last ∧ sep ∉ last := by
  induction s with
  | nil => cases h
  | cons c s ih =>
    by_cases hs : sep ∈ s
    · obtain ⟨pre, last, hp, hl⟩ := ih hs
      exact ⟨c :: pre, last, by rw [hp]; rfl, hl⟩
    · rcases List.mem_cons.1 h with hc | hc
      · exact ⟨[], s, by rw [hc]; rfl, hs⟩
      · exact absurd hc hs

/-- A path that goes on in any way keeps all components but perhaps the last one. -/
theorem dropLast_components_prefix (h : sep ∈ s) (t : List α) :
    (components sep s).dropLast <+: components sep (s ++ t) := by
  obtain ⟨pre, last, rfl, hl⟩ := exists_last_component sep h
  have hpre : (components sep (pre ++ sep :: last)).dropLast <+: components sep pre := by
    rw [components_append_sep]
    by_cases hne : last = []
    · rw [hne]
      simp only [components, componentsFrom, if_true, List.append_nil]
      exact List.dropLast_prefix _
    · rw [components_of_notMem sep hl hne, List.dropLast_concat]
  have happ : pre ++ sep :: last ++ t = pre ++ sep :: (last ++ t) := by
    rw [List.append_assoc, List.cons_append]
  rw [happ, components_append_sep sep pre (last ++ t)]
  exact hpre.trans (List.prefix_append _ _)

theorem components_extend (h : sep ∈ s) (hlast : s.getLast? ≠ some sep) (ht : sep ∉ t) :
    ∃ last, components sep (s ++ t) = (components sep s).dropLast ++ [last ++ t] := by
  obtain ⟨pre, last, rfl, hl⟩ := exists_last_component sep h
  have hne : last ≠ [] := by
    rintro rfl
    exact hlast List.getLast?_concat
  have happ : pre ++ sep :: last ++ t = pre ++ sep :: (last ++ t) := by
    rw [List.append_assoc, List.cons_append]
  have hmem : sep ∉ last ++ t := by
    rw [List.mem_append]
    exact fun h => h.elim hl ht
  refine ⟨last, ?_⟩
  rw [happ, components_append_sep, components_append_sep, components_of_notMem sep hl hne,
    List.dropLast_concat, components_of_notMem sep hmem (List.append_ne_nil_of_left_ne_nil hne t)]

end Lib
