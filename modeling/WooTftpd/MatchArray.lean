import WooTftpd.Restart

namespace WooTftpd
open Lib
set_option autoImplicit true

/-- The offsets of a real match in a string of this length. -/
def Regmatch.Within (m : Regmatch) (len : Nat) : Prop :=
  0 ≤ m.rmSo ∧ m.rmSo ≤ m.rmEo ∧ m.rmEo ≤ len

namespace RewriteCall

variable {ρ : Type}

/-- From `d` steps left, the rules `rs` and the string `c`, the inner loop comes to a rule with a
string. -/
inductive TriesFrom (env : RewriteCall ρ) (rules : List (Rule ρ)) (d : Nat) (rs : List (Rule ρ))
    (c : CString) : Rule ρ → CString → Prop where
  | first : Reaches env rules d rs c (d' + 1) rs' c' → env.next rs' = r :: rest →
      TriesFrom env rules d rs c r c'
  | again : TriesFrom env rules d rs c r c' → env.attempt r c' = .matched c'' →
      r.global = true → TriesFrom env rules d rs c r c''

/-- The inner loop comes to this rule with this string. -/
def Tries (env : RewriteCall ρ) (rules : List (Rule ρ)) (input : CString) (r : Rule ρ)
    (c : CString) : Prop :=
  env.Copies input ∧ TriesFrom env rules deadmanMaxSteps rules input r c

variable {env : RewriteCall ρ} {rules : List (Rule ρ)} {r : Rule ρ}

theorem substitutes_of_inverse (hi : r.inverse = true) :
    r.substitutes = true ↔ r.abort = true ∧ r.pattern.bytes ≠ [] := by
  have hw : r.rewrite = false := by
    rw [← Bool.not_eq_true]
    intro hw
    exact r.notInverted ⟨hi, hw⟩
  cases ha : r.abort with
  | false => simp only [Rule.substitutes, ha, hw, Bool.false_eq_true, if_false, false_and]
  | true => simp only [Rule.substitutes, ha, if_true, decide_eq_true_eq, true_and]

/-- An inverted abort rule with a message, on a string that does not match. -/
def Unmatched (env : RewriteCall ρ) (r : Rule ρ) (c : CString) : Prop :=
  r.inverse = true ∧ r.abort = true ∧ r.pattern.bytes ≠ [] ∧ env.regexec r.rx c = .noMatch

/-- A pass of the inner loop calls `genmatchstring` with the offsets of a match, unless the rule
has fired without one. -/
theorem passedMatch_within_iff (env : RewriteCall ρ) (r : Rule ρ) (c : CString) :
    (∀ pmatch, env.passedMatch r c = some pmatch → (pmatch 0).Within c.length) ↔
      ¬ Unmatched env r c := by
  cases hr : env.regexec r.rx c with
  | found m =>
    constructor
    · rintro _ ⟨_, _, _, he⟩
      rw [hr] at he
      cases he
    · intro _ pmatch hp
      simp only [passedMatch, firing, hr] at hp
      split at hp
      · split at hp
        · cases hp
        · cases hp
          exact m.bounds
      · cases hp
  | noMatch =>
    cases hi : r.inverse with
    | false => simp [passedMatch, firing, Unmatched, hr, hi]
    | true =>
      have hs := substitutes_of_inverse hi
      simp only [passedMatch, firing, Unmatched, hr, hi, if_true, true_and, and_true, ← hs]
      constructor
      · intro h hsub
        have hw := h clearedMatch (if_pos hsub)
        exact absurd hw.1 (by decide)
      · intro h pmatch hp
        rw [if_neg h] at hp
        cases hp
  | failed => simp [passedMatch, firing, Unmatched, hr]

/-- Only the first pass over a rule can be one without a match: an inverted rule is not repeated. -/
theorem TriesFrom.unmatched (h : TriesFrom env rules d rs c r c') (hu : Unmatched env r c') :
    ∃ d' rs' rest, Reaches env rules d rs c (d' + 1) rs' c' ∧ env.next rs' = r :: rest := by
  cases h with
  | first hr hn => exact ⟨_, _, _, hr, hn⟩
  | again _ _ hg => exact absurd ⟨hu.1, r.rewriteOfGlobal hg⟩ r.notInverted

/-- Each call of `genmatchstring` is for a real match exactly if the evaluation, once it has a copy
of the string, never comes to an inverted abort rule with a message on a string that does not
match. -/
theorem genmatchstring_onMatches_iff (env : RewriteCall ρ) (rules : List (Rule ρ))
    (input : CString) :
    (∀ r c pmatch, Tries env rules input r c → env.passedMatch r c = some pmatch →
      (pmatch 0).Within c.length) ↔
    ∀ d rs c r rest, env.Copies input →
      Reaches env rules deadmanMaxSteps rules input (d + 1) rs c → env.next rs = r :: rest →
      ¬ (r.inverse = true ∧ r.abort = true ∧ r.pattern.bytes ≠ [] ∧
        env.regexec r.rx c = .noMatch) := by
  constructor
  · intro h d rs c r rest hcopy hr hn
    exact (passedMatch_within_iff env r c).1 fun pmatch => h r c pmatch ⟨hcopy, .first hr hn⟩
  · rintro h r c pmatch ⟨hcopy, ht⟩
    apply (passedMatch_within_iff env r c).2
    intro hu
    obtain ⟨d, rs, rest, hr, hn⟩ := ht.unmatched hu
    exact h d rs c r rest hcopy hr hn hu

end RewriteCall

theorem notInverted_plain (b : Bool) : ¬ (b = true ∧ false = true) :=
  fun h => Bool.false_ne_true h.2

/-- The rule `~a ^x$ m`. -/
def onlyRule : Rule (List UInt8) where
  rewrite := false
  global := false
  exit := false
  restart := false
  abort := true
  inverse := true
  mode := none
  rx := [120]
  pattern := .ofBytes [109]
  rewriteOfGlobal := id
  notInverted := notInverted_plain true

/-- For the string `y` the message is composed with offsets of -1. -/
theorem onlyRule_clearedMatch :
    parserulefile exactRegcomp [126, 97, 32, 94, 120, 36, 32, 109, 10] = some [onlyRule] ∧
      ¬ ∀ r c pmatch, exactCall.Tries [onlyRule] (.ofBytes [121]) r c →
        exactCall.passedMatch r c = some pmatch → (pmatch 0).Within c.length := by
  refine ⟨rfl, ?_⟩
  intro h
  have hw := h onlyRule (.ofBytes [121]) clearedMatch ⟨rfl, .first .refl rfl⟩ rfl
  exact absurd hw.1 (by decide)

end WooTftpd
