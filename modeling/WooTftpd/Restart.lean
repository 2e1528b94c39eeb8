import WooTftpd.Deadman

namespace WooTftpd
open Lib
set_option autoImplicit true

namespace RewriteCall

variable {ρ : Type}

/-- A rule with the restart flag matches, and leaves the string `c` and `d` steps. -/
def RestartsAt (env : RewriteCall ρ) (rules : List (Rule ρ)) (input : CString) (d : Nat)
    (c : CString) : Prop :=
  env.Copies input ∧ ∃ rs c₀ r rest fuel, Reaches env rules deadmanMaxSteps rules input (d + 1) rs c₀ ∧
    env.next rs = r :: rest ∧ r.restart = true ∧ r.exit = false ∧ r.abort = false ∧
    env.repeatRule r fuel false c₀ = some (.leaves true c)

/-- The outer loop does not end in its last step: it ends before, or runs out of steps. -/
inductive Spare (env : RewriteCall ρ) (rules : List (Rule ρ)) :
    Nat → List (Rule ρ) → CString → Prop where
  | cutOff : env.next rs ≠ [] → Spare env rules 0 rs c
  | done : env.next rs = [] → Spare env rules (d + 1) rs c
  | last : env.next rs = r :: rest → (∀ rs' c', ¬ Visits env rules r rest c (.goesOn rs' c')) →
      Spare env rules (d + 2) rs c
  | step : env.next rs = r :: rest → Visits env rules r rest c (.goesOn rs' c') →
      Spare env rules d rs' c' → Spare env rules (d + 1) rs c

/-- The first rule is for another mode; or it has nothing to do, since it does not match or does
not change the string, and there is a step for it. -/
def FirstIdle (env : RewriteCall ρ) (rules : List (Rule ρ)) (d : Nat) (c : CString) : Prop :=
  ∀ r rest, rules = r :: rest → env.applies r = true →
    Visits env rules r rest c (.goesOn rest c) ∧ Spare env rules d rest c

variable {env : RewriteCall ρ} {rules rs rest : List (Rule ρ)} {r : Rule ρ}

theorem evaluates_congr (h : env.next rs = env.next rs') (d : Nat) (c : CString)
    (res : Rewritten) : Evaluates env rules d rs c res ↔ Evaluates env rules d rs' c res := by
  have he (fuel : Nat) : env.evaluate rules fuel d rs c = env.evaluate rules fuel d rs' c := by
    rw [evaluate.eq_def, h, ← evaluate.eq_def]
  simp only [Evaluates, he]

theorem next_cons (h : env.applies r = true) : env.next (r :: rest) = r :: rest := by
  simp only [next, List.dropWhile_cons, h, Bool.not_true, Bool.false_eq_true, if_false]

theorem next_cons_other (h : env.applies r = false) : env.next (r :: rest) = env.next rest := by
  simp only [next, List.dropWhile_cons, h, Bool.not_false, if_true]

theorem visits_noMatch (h : env.attempt r c = .noMatch) :
    Visits env rules r rest c (.goesOn rest c) := by
  refine ⟨1, ?_⟩
  simp only [visit, repeatRule_noMatch h, Bool.false_eq_true, if_false]

theorem visits_restart (h : env.repeatRule r fuel false c₀ = some (.leaves true c))
    (hs : r.restart = true) (he : r.exit = false) :
    Visits env rules r rest c₀ (.goesOn rules.tail c) := by
  refine ⟨fuel, ?_⟩
  simp only [visit, h, hs, he, if_true, Bool.false_eq_true, if_false]

/-- With a step to spare, one step less makes no difference. -/
theorem Spare.evaluates_iff (h : Spare env rules (d + 1) rs c) (res : Rewritten) :
    Evaluates env rules (d + 1) rs c res ↔ Evaluates env rules d rs c res := by
  induction d generalizing rs c with
  | zero =>
    cases h with
    | done hn => rw [evaluates_nil_iff hn, evaluates_nil_iff hn]
    | step hn hv hs =>
      rw [evaluates_goesOn hn hv, evaluates_zero_iff hn]
      cases hs with
      | cutOff hn' =>
        obtain ⟨r, rest, hr⟩ := List.exists_cons_of_ne_nil hn'
        exact evaluates_zero_iff hr _ _
  | succ d ih =>
    cases h with
    | done hn => rw [evaluates_nil_iff hn, evaluates_nil_iff hn]
    | step hn hv hs =>
      rw [evaluates_goesOn hn hv, evaluates_goesOn hn hv]
      exact ih hs
    | last hn hlast =>
      rename_i r rest
      by_cases hv : ∃ v, Visits env rules r rest c v
      · obtain ⟨v, hv⟩ := hv
        cases v with
        | ends res' => rw [evaluates_ends hn hv, evaluates_ends hn hv]
        | goesOn rs' c' => exact absurd hv (hlast rs' c')
      · constructor
        · intro he
          exact absurd (he.visits hn) hv
        · intro he
          exact absurd (he.visits hn) hv

theorem FirstIdle.evaluates_iff (h : FirstIdle env rules d c) (res : Rewritten) :
    Evaluates env rules d rules.tail c res ↔ Evaluates env rules d rules c res := by
  cases hr : rules with
  | nil => rfl
  | cons r rest =>
    rw [← hr, hr, List.tail_cons, ← hr]
    cases ha : env.applies r with
    | false =>
      apply evaluates_congr
      rw [hr, next_cons_other ha]
    | true =>
      obtain ⟨hm, hs⟩ := h r rest hr ha
      have hn : env.next rules = r :: rest := by rw [hr, next_cons ha]
      cases d with
      | zero =>
        cases hs with
        | cutOff hne =>
          obtain ⟨r', rest', hr'⟩ := List.exists_cons_of_ne_nil hne
          rw [evaluates_zero_iff hr', evaluates_zero_iff hn]
      | succ d =>
        rw [evaluates_goesOn hn hm]
        exact hs.evaluates_iff res

theorem RestartsAt.evaluates_iff (h : RestartsAt env rules input d c) (res : Rewritten) :
    Evaluates env rules deadmanMaxSteps rules input res ↔
      Evaluates env rules d rules.tail c res := by
  obtain ⟨-, rs, c₀, r, rest, fuel, hr, hn, hs, he, _, hm⟩ := h
  exact (hr.evaluates_iff res).trans (evaluates_goesOn hn (visits_restart hm hs he) d res)

/-- A restart goes on as from the first rule if that rule has nothing to do. -/
theorem restart_fromTop (env : RewriteCall ρ) (rules : List (Rule ρ)) (input : CString) (d : Nat)
    (c : CString) (h : RestartsAt env rules input d c) (hf : FirstIdle env rules d c)
    (res : Rewritten) :
    (∃ fuel, env.rewriteString rules fuel input = some res) ↔
      ∃ fuel, env.evaluate rules fuel d rules c = some res := by
  have hstart := rewriteString_iff env rules input res
  rw [and_iff_right h.1] at hstart
  exact hstart.trans ((h.evaluates_iff res).trans (hf.evaluates_iff res))

end RewriteCall

/-- The rules `r ^x$ y` and `rs ^x$ y`. -/
def exactRule (restart : Bool) (x y : UInt8) : Rule (List UInt8) where
  rewrite := true
  global := false
  exit := false
  restart := restart
  abort := false
  inverse := false
  mode := none
  rx := [x]
  pattern := .ofBytes [y]
  rewriteOfGlobal := fun _ => rfl
  notInverted := notInverted_false true

def exactRegcomp (regex : CString) (_ : Bool) : Option (List UInt8) :=
  some regex.bytes.tail.dropLast

/-- Calls whose regular expressions are strings between `^` and `$`. -/
def exactCall : RewriteCall (List UInt8) where
  regexec := fun w s => if s.bytes = w then .found (wholeMatch s.bytes) else .noMatch
  mode := 71
  macrosub := fun _ o => (-1, o)
  malloc := exactMalloc

/-- The rules `r ^x$ y` and `rs ^a$ b` on the string `a`. -/
theorem unmatchedFirst_fromTop :
    let rules := [exactRule false 120 121, exactRule true 97 98]
    parserulefile exactRegcomp [114, 32, 94, 120, 36, 32, 121, 10,
        114, 115, 32, 94, 97, 36, 32, 98, 10] = some rules ∧
      exactCall.RestartsAt rules (.ofBytes [97]) 1022 (.ofBytes [98]) ∧
      exactCall.FirstIdle rules 1022 (.ofBytes [98]) ∧
      ∀ res, (∃ fuel, exactCall.rewriteString rules fuel (.ofBytes [97]) = some res) ↔
        ∃ fuel, exactCall.evaluate rules fuel 1022 rules (.ofBytes [98]) = some res := by
  intro rules
  have hr : exactCall.RestartsAt rules (.ofBytes [97]) 1022 (.ofBytes [98]) :=
    ⟨rfl, _, _, _, _, 1, .step rfl (RewriteCall.visits_noMatch rfl) .refl, rfl, rfl, rfl, rfl, rfl⟩
  have hf : exactCall.FirstIdle rules 1022 (.ofBytes [98]) := by
    intro r rest h _
    obtain ⟨rfl, rfl⟩ := List.cons.inj h
    exact ⟨RewriteCall.visits_noMatch rfl, .step rfl (RewriteCall.visits_noMatch rfl) (.done rfl)⟩
  exact ⟨rfl, hr, hf, RewriteCall.restart_fromTop _ _ _ _ _ hr hf⟩

/-- The rules `r ^b$ c` and `rs ^a$ b` on the string `a`: the first rule is not tried on the `b`
that the second one leaves. -/
theorem restart_skipsFirst :
    let rules := [exactRule false 98 99, exactRule true 97 98]
    parserulefile exactRegcomp [114, 32, 94, 98, 36, 32, 99, 10,
        114, 115, 32, 94, 97, 36, 32, 98, 10] = some rules ∧
      exactCall.RestartsAt rules (.ofBytes [97]) 1022 (.ofBytes [98]) ∧
      (∃ fuel, exactCall.rewriteString rules fuel (.ofBytes [97]) =
        some (.returned (.ofBytes [98]))) ∧
      ¬ ∃ fuel, exactCall.evaluate rules fuel 1022 rules (.ofBytes [98]) =
        some (.returned (.ofBytes [98])) := by
  intro rules
  have hr : exactCall.RestartsAt rules (.ofBytes [97]) 1022 (.ofBytes [98]) :=
    ⟨rfl, _, _, _, _, 1, .step rfl (RewriteCall.visits_noMatch rfl) .refl, rfl, rfl, rfl, rfl, rfl⟩
  refine ⟨rfl, hr, ?_, ?_⟩
  · apply (RewriteCall.rewriteString_iff _ _ _ _).2
    refine ⟨hr.1, (hr.evaluates_iff _).2 ?_⟩
    apply (RewriteCall.evaluates_goesOn rfl (RewriteCall.visits_noMatch rfl) _ _).2
    exact (RewriteCall.evaluates_nil_iff rfl _ _ _).2 rfl
  · intro h
    have hv : exactCall.Visits rules (exactRule false 98 99) [exactRule true 97 98] (.ofBytes [98])
        (.goesOn [exactRule true 97 98] (.ofBytes [99])) := ⟨1, rfl⟩
    have h1 := (RewriteCall.evaluates_goesOn rfl hv _ _).1 h
    have h2 := (RewriteCall.evaluates_goesOn rfl (RewriteCall.visits_noMatch rfl) _ _).1 h1
    have h3 := (RewriteCall.evaluates_nil_iff rfl _ _ _).1 h2
    cases h3

end WooTftpd
