import WooTftpd.Rewrite

namespace WooTftpd
open Lib
set_option autoImplicit true

namespace RewriteCall

variable {ρ : Type}

/-- A rule that does not keep matching what it makes of a string, and has the memory for it. -/
inductive Settles (env : RewriteCall ρ) (r : Rule ρ) : CString → Prop where
  | noMatch : env.attempt r c = .noMatch → Settles env r c
  | abort : env.attempt r c = .abort errmsg → Settles env r c
  | once : env.attempt r c = .matched c' → r.global = false → Settles env r c
  | again : env.attempt r c = .matched c' → r.global = true → Settles env r c' → Settles env r c

def Visits (env : RewriteCall ρ) (rules : List (Rule ρ)) (r : Rule ρ) (rest : List (Rule ρ))
    (c : CString) (v : Visit ρ) : Prop :=
  ∃ fuel, env.visit rules fuel r rest c = some v

/-- The outer loop returns this. -/
def Evaluates (env : RewriteCall ρ) (rules : List (Rule ρ)) (d : Nat) (rs : List (Rule ρ))
    (c : CString) (res : Rewritten) : Prop :=
  ∃ fuel, env.evaluate rules fuel d rs c = some res

/-- From `d` steps left, the rules `rs` and the string `c`, the outer loop comes to `d'` steps
left, the rules `rs'` and the string `c'`. -/
inductive Reaches (env : RewriteCall ρ) (rules : List (Rule ρ)) :
    Nat → List (Rule ρ) → CString → Nat → List (Rule ρ) → CString → Prop where
  | refl : Reaches env rules d rs c d rs c
  | step : env.next rs = r :: rest → Visits env rules r rest c (.goesOn rs₁ c₁) →
      Reaches env rules d rs₁ c₁ d' rs' c' → Reaches env rules (d + 1) rs c d' rs' c'

variable {env : RewriteCall ρ} {rules rs rest : List (Rule ρ)} {r : Rule ρ}

theorem repeatRule_noMatch (h : env.attempt r c = .noMatch) (fuel : Nat) (was : Bool) :
    env.repeatRule r (fuel + 1) was c = some (.leaves was c) := by
  rw [repeatRule, h]

theorem repeatRule_abort (h : env.attempt r c = .abort errmsg) (fuel : Nat) (was : Bool) :
    env.repeatRule r (fuel + 1) was c = some (.ends (.null errmsg)) := by
  rw [repeatRule, h]

theorem repeatRule_once (h : env.attempt r c = .matched c') (hg : r.global = false) (fuel : Nat)
    (was : Bool) : env.repeatRule r (fuel + 1) was c = some (.leaves true c') := by
  simp only [repeatRule, h, hg, Bool.false_eq_true, if_false]

theorem repeatRule_again (h : env.attempt r c = .matched c') (hg : r.global = true) (fuel : Nat)
    (was : Bool) : env.repeatRule r (fuel + 1) was c = env.repeatRule r fuel true c' := by
  simp only [repeatRule, h, hg, if_true]

/-- All that a pass of the inner loop can be if the loop ends. -/
theorem repeatRule_cases (h : env.repeatRule r (fuel + 1) was c = some e) :
    (env.attempt r c = .noMatch ∧ e = .leaves was c) ∨
    (∃ errmsg, env.attempt r c = .abort errmsg ∧ e = .ends (.null errmsg)) ∨
    (∃ c', env.attempt r c = .matched c' ∧ r.global = false ∧ e = .leaves true c') ∨
    ∃ c', env.attempt r c = .matched c' ∧ r.global = true ∧
      env.repeatRule r fuel true c' = some e := by
  cases ha : env.attempt r c with
  | noMatch =>
    rw [repeatRule_noMatch ha] at h
    exact .inl ⟨rfl, (Option.some.inj h).symm⟩
  | abort errmsg =>
    rw [repeatRule_abort ha] at h
    exact .inr (.inl ⟨errmsg, rfl, (Option.some.inj h).symm⟩)
  | matched c' =>
    cases hg : r.global with
    | false =>
      rw [repeatRule_once ha hg] at h
      exact .inr (.inr (.inl ⟨c', rfl, rfl, (Option.some.inj h).symm⟩))
    | true =>
      rw [repeatRule_again ha hg] at h
      exact .inr (.inr (.inr ⟨c', rfl, rfl, h⟩))
  | exits =>
    rw [repeatRule, ha] at h
    cases h
  | undefined =>
    rw [repeatRule, ha] at h
    cases h

theorem repeatRule_mono (h : env.repeatRule r fuel was c = some e) (hle : fuel ≤ fuel') :
    env.repeatRule r fuel' was c = some e := by
  induction fuel generalizing fuel' was c with
  | zero => cases h
  | succ fuel ih =>
    obtain ⟨fuel', rfl⟩ : ∃ k, fuel' = k + 1 := ⟨fuel' - 1, by omega⟩
    rcases repeatRule_cases h with ⟨ha, rfl⟩ | ⟨errmsg, ha, rfl⟩ | ⟨c', ha, hg, rfl⟩ | ⟨c', ha, hg, h⟩
    · exact repeatRule_noMatch ha fuel' was
    · exact repeatRule_abort ha fuel' was
    · exact repeatRule_once ha hg fuel' was
    · rw [repeatRule_again ha hg]
      exact ih h (Nat.le_of_succ_le_succ hle)

/-- All that the visit of a rule can be. -/
theorem visit_cases (h : env.visit rules fuel r rest c = some v) :
    (∃ res, env.repeatRule r fuel false c = some (.ends res) ∧ v = .ends res) ∨
    ∃ was c', env.repeatRule r fuel false c = some (.leaves was c') ∧
      (v = .ends (.returned c') ∨ v = .goesOn rules.tail c' ∨ v = .goesOn rest c') := by
  rw [visit] at h
  split at h
  · cases h
  · rename_i res hr
    exact .inl ⟨res, hr, (Option.some.inj h).symm⟩
  · rename_i was c' hr
    refine .inr ⟨was, c', hr, ?_⟩
    repeat' split at h
    all_goals cases h
    · exact .inl rfl
    · exact .inr (.inl rfl)
    · exact .inr (.inr rfl)
    · exact .inr (.inr rfl)

theorem visit_mono (h : env.visit rules fuel r rest c = some v) (hle : fuel ≤ fuel') :
    env.visit rules fuel' r rest c = some v := by
  cases hr : env.repeatRule r fuel false c with
  | none =>
    rw [visit, hr] at h
    cases h
  | some e =>
    rw [visit, hr] at h
    rw [visit, repeatRule_mono hr hle]
    exact h

theorem Visits.unique (h : Visits env rules r rest c v) (h' : Visits env rules r rest c v') :
    v = v' := by
  obtain ⟨fuel, h⟩ := h
  obtain ⟨fuel', h'⟩ := h'
  have hm := visit_mono h (Nat.le_max_left fuel fuel')
  have hm' := visit_mono h' (Nat.le_max_right fuel fuel')
  exact Option.some.inj (hm.symm.trans hm')

theorem evaluate_nil (h : env.next rs = []) (fuel d : Nat) (c : CString) :
    env.evaluate rules fuel d rs c = some (.returned c) := by
  rw [evaluate.eq_def, h]

theorem evaluate_zero (h : env.next rs = r :: rest) (fuel : Nat) (c : CString) :
    env.evaluate rules fuel 0 rs c = some (.null (some tableFailure)) := by
  rw [evaluate.eq_def, h]

theorem evaluate_succ (h : env.next rs = r :: rest) (fuel d : Nat) (c : CString) :
    env.evaluate rules fuel (d + 1) rs c =
      match env.visit rules fuel r rest c with
      | none => none
      | some (.ends res) => some res
      | some (.goesOn rs c) => env.evaluate rules fuel d rs c := by
  have he := evaluate.eq_def env rules fuel (d + 1) rs c
  rw [h] at he
  exact he

theorem evaluate_mono (h : env.evaluate rules fuel d rs c = some res) (hle : fuel ≤ fuel') :
    env.evaluate rules fuel' d rs c = some res := by
  induction d generalizing rs c with
  | zero =>
    rw [evaluate.eq_def] at h ⊢
    exact h
  | succ d ih =>
    cases hn : env.next rs with
    | nil =>
      rw [evaluate_nil hn] at h ⊢
      exact h
    | cons r rest =>
      rw [evaluate_succ hn] at h ⊢
      cases hv : env.visit rules fuel r rest c with
      | none =>
        rw [hv] at h
        cases h
      | some v =>
        rw [hv] at h
        rw [visit_mono hv hle]
        cases v with
        | ends res' => exact h
        | goesOn rs' c' => exact ih h

theorem evaluates_nil_iff (h : env.next rs = []) (d : Nat) (c : CString) (res : Rewritten) :
    Evaluates env rules d rs c res ↔ res = .returned c := by
  simp only [Evaluates, evaluate_nil h, Option.some.injEq, exists_const, eq_comm]

theorem evaluates_zero_iff (h : env.next rs = r :: rest) (c : CString) (res : Rewritten) :
    Evaluates env rules 0 rs c res ↔ res = .null (some tableFailure) := by
  simp only [Evaluates, evaluate_zero h, Option.some.injEq, exists_const, eq_comm]

theorem visit_of_evaluate (h : env.next rs = r :: rest)
    (he : env.evaluate rules fuel (d + 1) rs c = some res) :
    ∃ v, env.visit rules fuel r rest c = some v := by
  rw [evaluate_succ h] at he
  cases hf : env.visit rules fuel r rest c with
  | none =>
    rw [hf] at he
    cases he
  | some v => exact ⟨v, rfl⟩

theorem Evaluates.visits (h : env.next rs = r :: rest) (he : Evaluates env rules (d + 1) rs c res) :
    ∃ v, Visits env rules r rest c v := by
  obtain ⟨fuel, he⟩ := he
  obtain ⟨v, hv⟩ := visit_of_evaluate h he
  exact ⟨v, fuel, hv⟩

theorem evaluates_ends (h : env.next rs = r :: rest) (hv : Visits env rules r rest c (.ends res'))
    (d : Nat) (res : Rewritten) : Evaluates env rules (d + 1) rs c res ↔ res = res' := by
  constructor
  · rintro ⟨fuel, he⟩
    obtain ⟨v, hf⟩ := visit_of_evaluate h he
    rw [evaluate_succ h, hf, ← hv.unique ⟨fuel, hf⟩] at he
    exact (Option.some.inj he).symm
  · rintro rfl
    obtain ⟨fuel, hf⟩ := hv
    refine ⟨fuel, ?_⟩
    rw [evaluate_succ h, hf]

theorem evaluates_goesOn (h : env.next rs = r :: rest)
    (hv : Visits env rules r rest c (.goesOn rs' c')) (d : Nat) (res : Rewritten) :
    Evaluates env rules (d + 1) rs c res ↔ Evaluates env rules d rs' c' res := by
  constructor
  · rintro ⟨fuel, he⟩
    obtain ⟨v, hf⟩ := visit_of_evaluate h he
    rw [evaluate_succ h, hf, ← hv.unique ⟨fuel, hf⟩] at he
    exact ⟨fuel, he⟩
  · rintro ⟨fuel, he⟩
    obtain ⟨fuel', hf⟩ := hv
    refine ⟨max fuel fuel', ?_⟩
    rw [evaluate_succ h, visit_mono hf (Nat.le_max_right _ _)]
    exact evaluate_mono he (Nat.le_max_left _ _)

theorem Reaches.evaluates_iff (h : Reaches env rules d rs c d' rs' c') (res : Rewritten) :
    Evaluates env rules d rs c res ↔ Evaluates env rules d' rs' c' res := by
  induction h with
  | refl => exact Iff.rfl
  | step hn hv _ ih => exact (evaluates_goesOn hn hv _ _).trans ih

theorem Settles.repeatRule (h : Settles env r c) (was : Bool) :
    ∃ fuel e, env.repeatRule r fuel was c = some e := by
  induction h generalizing was with
  | noMatch ha => exact ⟨1, _, repeatRule_noMatch ha 0 was⟩
  | abort ha => exact ⟨1, _, repeatRule_abort ha 0 was⟩
  | once ha hg => exact ⟨1, _, repeatRule_once ha hg 0 was⟩
  | again ha hg _ ih =>
    obtain ⟨fuel, e, he⟩ := ih true
    refine ⟨fuel + 1, e, ?_⟩
    rw [repeatRule_again ha hg]
    exact he

theorem settles_of_repeatRule (h : env.repeatRule r fuel was c = some e) : Settles env r c := by
  induction fuel generalizing was c with
  | zero => cases h
  | succ fuel ih =>
    rcases repeatRule_cases h with ⟨ha, _⟩ | ⟨errmsg, ha, _⟩ | ⟨c', ha, hg, _⟩ | ⟨c', ha, hg, h⟩
    · exact .noMatch ha
    · exact .abort ha
    · exact .once ha hg
    · exact .again ha hg (ih h)

theorem visit_isSome (h : env.repeatRule r fuel false c = some e) :
    ∃ v, env.visit rules fuel r rest c = some v := by
  rw [visit, h]
  cases e with
  | ends res => exact ⟨_, rfl⟩
  | leaves was c' =>
    dsimp only
    split
    · split
      · exact ⟨_, rfl⟩
      · split
        · exact ⟨_, rfl⟩
        · exact ⟨_, rfl⟩
    · exact ⟨_, rfl⟩

theorem settles_iff : Settles env r c ↔ ∃ v, Visits env rules r rest c v := by
  constructor
  · intro h
    obtain ⟨fuel, e, he⟩ := h.repeatRule false
    obtain ⟨v, hv⟩ := visit_isSome he
    exact ⟨v, fuel, hv⟩
  · rintro ⟨v, fuel, hv⟩
    rcases visit_cases hv with ⟨res, hr, _⟩ | ⟨was, c', hr, _⟩
    · exact settles_of_repeatRule hr
    · exact settles_of_repeatRule hr

/-- Each rule that the outer loop comes to settles on the string it is tried on. -/
def EachSettles (env : RewriteCall ρ) (rules : List (Rule ρ)) (d : Nat) (rs : List (Rule ρ))
    (c : CString) : Prop :=
  ∀ d' rs' c' r rest, Reaches env rules d rs c (d' + 1) rs' c' → env.next rs' = r :: rest →
    Settles env r c'

theorem EachSettles.evaluates (h : EachSettles env rules d rs c) :
    ∃ res, Evaluates env rules d rs c res := by
  induction d generalizing rs c with
  | zero =>
    cases hn : env.next rs with
    | nil => exact ⟨_, (evaluates_nil_iff hn _ _ _).2 rfl⟩
    | cons r rest => exact ⟨_, (evaluates_zero_iff hn _ _).2 rfl⟩
  | succ d ih =>
    cases hn : env.next rs with
    | nil => exact ⟨_, (evaluates_nil_iff hn _ _ _).2 rfl⟩
    | cons r rest =>
      obtain ⟨v, hv⟩ := settles_iff.1 (h d rs c r rest .refl hn)
      cases v with
      | ends res => exact ⟨res, (evaluates_ends hn hv _ _).2 rfl⟩
      | goesOn rs' c' =>
        have h' : EachSettles env rules d rs' c' := by
          intro d' rs'' c'' r' rest' hr
          exact h d' rs'' c'' r' rest' (.step hn hv hr)
        obtain ⟨res, he⟩ := ih h'
        exact ⟨res, (evaluates_goesOn hn hv _ _).2 he⟩

theorem Evaluates.eachSettles (h : Evaluates env rules d rs c res) :
    EachSettles env rules d rs c := by
  intro d' rs' c' r rest hr hn
  exact settles_iff.2 (((hr.evaluates_iff res).1 h).visits hn)

theorem Reaches.cutOff (h : Reaches env rules d rs c 0 rs' c') (hn : env.next rs' ≠ []) :
    Evaluates env rules d rs c (.null (some tableFailure)) := by
  obtain ⟨r, rest, hr⟩ := List.exists_cons_of_ne_nil hn
  exact (h.evaluates_iff _).2 ((evaluates_zero_iff hr _ _).2 rfl)

theorem rewriteString_iff (env : RewriteCall ρ) (rules : List (Rule ρ)) (input : CString)
    (res : Rewritten) :
    (∃ fuel, env.rewriteString rules fuel input = some res) ↔
      env.Copies input ∧ Evaluates env rules deadmanMaxSteps rules input res := by
  by_cases hc : env.Copies input
  · simp only [rewriteString, hc, if_true, true_and, Evaluates]
  · simp only [rewriteString, hc, if_false, false_and, reduceCtorEq, exists_const]

/-- `rewrite_string` returns, and with an error when the steps are used up, exactly if it can copy
the string and every rule that it comes to settles. -/
theorem rewriteString_returns_iff (env : RewriteCall ρ) (rules : List (Rule ρ)) (input : CString) :
    ((∃ fuel res, env.rewriteString rules fuel input = some res) ∧
      ∀ rs c, Reaches env rules deadmanMaxSteps rules input 0 rs c → env.next rs ≠ [] →
        ∃ fuel, env.rewriteString rules fuel input = some (.null (some tableFailure))) ↔
      env.Copies input ∧ EachSettles env rules deadmanMaxSteps rules input := by
  constructor
  · rintro ⟨⟨fuel, res, h⟩, _⟩
    obtain ⟨hc, he⟩ := (rewriteString_iff env rules input res).1 ⟨fuel, h⟩
    exact ⟨hc, he.eachSettles⟩
  · rintro ⟨hc, h⟩
    obtain ⟨res, he⟩ := h.evaluates
    obtain ⟨fuel, hfuel⟩ := (rewriteString_iff env rules input res).2 ⟨hc, he⟩
    refine ⟨⟨fuel, res, hfuel⟩, ?_⟩
    intro rs c hr hn
    exact (rewriteString_iff env rules input _).2 ⟨hc, hr.cutOff hn⟩

end RewriteCall

theorem notInverted_false (b : Bool) : ¬ (false = true ∧ b = true) :=
  fun h => Bool.false_ne_true h.1

def repeatedRule : Rule Unit where
  rewrite := true
  global := true
  exit := false
  restart := false
  abort := false
  inverse := false
  mode := none
  rx := ()
  pattern := .ofBytes [97]
  rewriteOfGlobal := fun _ => rfl
  notInverted := notInverted_false true

theorem exactRoom_enough (size n : Nat)
    (h : (if size < 2 ^ 63 then some size else none) = some n) : size ≤ n := by
  split at h
  · cases h
    exact Nat.le_refl _
  · cases h

theorem exactRoom_limit (size : Nat) (h : 2 ^ 63 ≤ size) :
    (if size < 2 ^ 63 then some size else none) = none := if_neg (Nat.not_lt_of_le h)

/-- As many bytes as were asked for, and always. -/
def exactMalloc : Malloc :=
  ⟨fun size => if size < 2 ^ 63 then some size else none, exactRoom_enough, exactRoom_limit⟩

/-- Calls whose only regular expression is `.*`. -/
def anythingCall : RewriteCall Unit where
  regexec := fun _ s => .found (wholeMatch s.bytes)
  mode := 71
  macrosub := fun _ o => (-1, o)
  malloc := exactMalloc

theorem repeatedRule_repeats (fuel : Nat) (was : Bool) :
    anythingCall.repeatRule repeatedRule fuel was (.ofBytes [97]) = none := by
  induction fuel generalizing was with
  | zero => rfl
  | succ fuel ih =>
    have ha : anythingCall.attempt repeatedRule (.ofBytes [97]) = .matched (.ofBytes [97]) := rfl
    rw [RewriteCall.repeatRule, ha]
    exact ih true

/-- The rule `rg .* a` on the string `x`. -/
theorem repeatedRule_neverReturns :
    parserulefile (fun _ _ => some ()) [114, 103, 32, 46, 42, 32, 97, 10] = some [repeatedRule] ∧
      ¬ ∃ fuel res, anythingCall.rewriteString [repeatedRule] fuel (.ofBytes [120]) = some res := by
  refine ⟨rfl, ?_⟩
  rintro ⟨fuel, res, h⟩
  obtain ⟨-, fuel, h⟩ := (RewriteCall.rewriteString_iff _ _ _ res).1 ⟨fuel, h⟩
  have hn : anythingCall.next [repeatedRule] = [repeatedRule] := rfl
  have ha : anythingCall.attempt repeatedRule (.ofBytes [120]) = .matched (.ofBytes [97]) := rfl
  have hrep : anythingCall.repeatRule repeatedRule fuel false (.ofBytes [120]) = none := by
    cases fuel with
    | zero => rfl
    | succ fuel =>
      rw [RewriteCall.repeatRule, ha]
      exact repeatedRule_repeats fuel true
  rw [RewriteCall.deadmanMaxSteps, RewriteCall.evaluate_succ hn, RewriteCall.visit, hrep] at h
  cases h

end WooTftpd
