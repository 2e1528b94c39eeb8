import WooTftpd.OptionList

namespace WooTftpd
open Lib
set_option autoImplicit true

inductive Sign where
  | none
  | plus
  | minus
  deriving DecidableEq

def Sign.text : Sign → List UInt8
  | none => []
  | plus => [43]
  | minus => [45]

def Sign.apply : Sign → Nat → Int
  | minus, v => -v
  | _, v => v

/-- What an unsigned number becomes when the sign is taken modulo 2^64. -/
def Sign.wrap : Sign → Nat → Nat
  | minus, v => (uintmaxLimit - v) % uintmaxLimit
  | _, v => v

/-- A decimal integer as ISO C has `strtoumax` expect it: white space, a sign and digits. -/
structure Numeral where
  space : List UInt8
  sign : Sign
  digits : List UInt8
  isSpaces : ∀ c ∈ space, isSpace c = true
  isDigits : ∀ c ∈ digits, isDigit c = true
  nonempty : digits ≠ []

namespace Numeral

def bytes (d : Numeral) : List UInt8 := d.space ++ (d.sign.text ++ d.digits)

def magnitude (d : Numeral) : Nat := digitsValue d.digits

def value (d : Numeral) : Int := d.sign.apply d.magnitude

end Numeral

def Denotes (s : List UInt8) (z : Int) : Prop := ∃ d : Numeral, d.bytes = s ∧ d.value = z

/-- What is left of a text without the sign that it begins with. -/
def afterSign (t : List UInt8) : List UInt8 :=
  if t.head? = some 43 ∨ t.head? = some 45 then t.tail else t

theorem strtoumax_noDigits (h : (afterSign (s.dropWhile isSpace)).takeWhile isDigit = []) :
    strtoumax s = ⟨0, s, false⟩ := if_pos h

theorem strtoumax_digits (h : (afterSign (s.dropWhile isSpace)).takeWhile isDigit ≠ []) :
    strtoumax s =
      let t := s.dropWhile isSpace
      let v := digitsValue ((afterSign t).takeWhile isDigit)
      if uintmaxLimit ≤ v then ⟨uintmaxLimit - 1, (afterSign t).dropWhile isDigit, true⟩
      else
        ⟨if t.head? = some 45 then (uintmaxLimit - v) % uintmaxLimit else v,
          (afterSign t).dropWhile isDigit, false⟩ := if_neg h

/-- A digit is neither white space nor a sign. -/
structure OnlyDigit (c : UInt8) : Prop where
  notSpace : isSpace c = false
  notPlus : c ≠ 43
  notMinus : c ≠ 45

theorem onlyDigit (h : isDigit c = true) : OnlyDigit c := by
  have hlow : 48 ≤ c.toNat := UInt8.le_iff_toNat_le.1 (of_decide_eq_true h).1
  constructor
  · apply decide_eq_false
    rintro (rfl | ⟨_, hc⟩)
    · exact absurd hlow (by decide)
    · have hhigh : c.toNat ≤ 13 := UInt8.le_iff_toNat_le.1 hc
      omega
  · rintro rfl
    exact absurd hlow (by decide)
  · rintro rfl
    exact absurd hlow (by decide)

namespace Numeral

variable (d : Numeral)

theorem head_onlyDigit : ∀ c ∈ d.digits.head?, OnlyDigit c := by
  intro c hc
  exact onlyDigit (d.isDigits c (List.mem_of_mem_head? hc))

/-- White space ends where the sign or the first digit begins. -/
theorem dropSpace : d.bytes.dropWhile isSpace = d.sign.text ++ d.digits := by
  rw [bytes, List.dropWhile_append_of_pos d.isSpaces]
  have hdigit := d.head_onlyDigit
  cases d.sign with
  | plus => rfl
  | minus => rfl
  | none =>
    cases hd : d.digits with
    | nil => exact absurd hd d.nonempty
    | cons c cs =>
      rw [hd] at hdigit
      exact List.dropWhile_cons_of_neg (Bool.eq_false_iff.1 (hdigit c rfl).notSpace)

theorem minus_iff : (d.sign.text ++ d.digits).head? = some 45 ↔ d.sign = .minus := by
  have hdigit := d.head_onlyDigit
  cases d.sign with
  | plus => exact iff_of_false nofun nofun
  | minus => exact iff_of_true rfl rfl
  | none => exact iff_of_false (fun h => (hdigit 45 h).notMinus rfl) nofun

theorem afterSign_text : afterSign (d.sign.text ++ d.digits) = d.digits := by
  have hdigit := d.head_onlyDigit
  cases d.sign with
  | plus => rfl
  | minus => rfl
  | none =>
    apply if_neg
    rintro (h | h)
    · exact (hdigit 43 h).notPlus rfl
    · exact (hdigit 45 h).notMinus rfl

/-- What `strtoumax` makes of the text of an integer. -/
theorem strtoumax_eq :
    strtoumax d.bytes =
      if uintmaxLimit ≤ d.magnitude then ⟨uintmaxLimit - 1, [], true⟩
      else ⟨d.sign.wrap d.magnitude, [], false⟩ := by
  have htake : d.digits.takeWhile isDigit = d.digits := List.takeWhile_eq_self_iff.2 d.isDigits
  have hdrop : d.digits.dropWhile isDigit = [] := List.dropWhile_eq_nil_iff.2 d.isDigits
  have hsign : (if d.sign = .minus then (uintmaxLimit - digitsValue d.digits) % uintmaxLimit
      else digitsValue d.digits) = d.sign.wrap d.magnitude := by
    cases d.sign with
    | none => rfl
    | plus => rfl
    | minus => rfl
  have hread : (afterSign (d.bytes.dropWhile isSpace)).takeWhile isDigit ≠ [] := by
    rw [d.dropSpace, d.afterSign_text, htake]
    exact d.nonempty
  rw [strtoumax_digits hread]
  dsimp only
  rw [d.dropSpace, d.afterSign_text, htake, hdrop]
  simp only [d.minus_iff, hsign]
  rfl

theorem value_eq : d.value = if d.sign = .minus then -(d.magnitude : Int) else d.magnitude := by
  rw [value]
  cases d.sign with
  | none => rfl
  | plus => rfl
  | minus => rfl

/-- A text denotes one integer. -/
theorem value_unique {d d' : Numeral} (h : d.bytes = d'.bytes) : d.value = d'.value := by
  have htext : d.sign.text ++ d.digits = d'.sign.text ++ d'.digits := by
    rw [← d.dropSpace, ← d'.dropSpace, h]
  have hdigits : d.digits = d'.digits := by
    rw [← d.afterSign_text, ← d'.afterSign_text, htext]
  have hminus : d.sign = .minus ↔ d'.sign = .minus := by
    rw [← d.minus_iff, ← d'.minus_iff, htext]
  simp only [value_eq, magnitude, hdigits, hminus]

end Numeral

theorem exists_sign (t : List UInt8) : ∃ sign : Sign, t = sign.text ++ afterSign t := by
  rw [afterSign]
  split
  · rename_i h
    cases t with
    | nil =>
      rcases h with h | h
      · cases h
      · cases h
    | cons c cs =>
      rcases h with h | h
      · cases h
        exact ⟨.plus, rfl⟩
      · cases h
        exact ⟨.minus, rfl⟩
  · exact ⟨.none, rfl⟩

/-- A string that `strtoumax` takes to its end is the text of an integer. -/
theorem exists_numeral (hne : s ≠ []) (hrest : (strtoumax s).rest = []) :
    ∃ d : Numeral, d.bytes = s := by
  obtain ⟨sign, hsign⟩ := exists_sign (s.dropWhile isSpace)
  by_cases hread : (afterSign (s.dropWhile isSpace)).takeWhile isDigit = []
  · rw [strtoumax_noDigits hread] at hrest
    exact absurd hrest hne
  · have hdigits : (afterSign (s.dropWhile isSpace)).dropWhile isDigit = [] := by
      rw [strtoumax_digits hread] at hrest
      dsimp only at hrest
      split at hrest
      · exact hrest
      · exact hrest
    have hnonempty : afterSign (s.dropWhile isSpace) ≠ [] := by
      intro hnil
      rw [hnil] at hread
      exact hread rfl
    refine ⟨⟨s.takeWhile isSpace, sign, afterSign (s.dropWhile isSpace), ?_,
      List.dropWhile_eq_nil_iff.1 hdigits, hnonempty⟩, ?_⟩
    · exact fun c hc => List.mem_takeWhile_imp hc
    · rw [Numeral.bytes, ← hsign]
      exact List.takeWhile_append_dropWhile

/-- The strings that reach a handler are the integers below 2^64 but for their sign. -/
theorem parsedValue_eq_some_iff {val : CString} :
    parsedValue val = some v ↔
      ∃ d : Numeral, d.bytes = val.bytes ∧ d.magnitude < uintmaxLimit ∧
        d.sign.wrap d.magnitude = v := by
  constructor
  · intro h
    simp only [parsedValue] at h
    split at h
    · cases h
    · rename_i hread
      rw [not_or, not_or, not_not] at hread
      obtain ⟨hne, hrest, herange⟩ := hread
      obtain ⟨d, hd⟩ := exists_numeral hne hrest
      rw [← hd, d.strtoumax_eq] at h herange
      refine ⟨d, hd, ?_⟩
      split at h
      · rename_i hlarge
        rw [if_pos hlarge] at herange
        exact absurd rfl herange
      · rename_i hsmall
        exact ⟨Nat.lt_of_not_le hsmall, Option.some.inj h⟩
  · rintro ⟨d, hd, hsmall, hv⟩
    have hne : val.bytes ≠ [] := by
      rw [← hd]
      intro hnil
      exact d.nonempty (List.append_eq_nil_iff.1 (List.append_eq_nil_iff.1 hnil).2).2
    have hread := d.strtoumax_eq
    rw [if_neg (Nat.not_le_of_lt hsmall), hd, hv] at hread
    have hok : ¬ (val.bytes = [] ∨ (strtoumax val.bytes).rest ≠ [] ∨
        (strtoumax val.bytes).erange = true) := by
      rw [hread]
      rintro (h | h | h)
      · exact hne h
      · exact h rfl
      · cases h
    simp only [parsedValue]
    rw [if_neg hok, hread]

variable {cfg : OptionConfig} {opt val : CString}

theorem recognized_eq_some_iff :
    recognized cfg opt val = some (name, v) ↔
      supported cfg opt = some name ∧ parsedValue val = some v := by
  rw [recognized]
  split
  · rename_i hs hp
    rw [hs, hp, Option.some.injEq, Prod.mk.injEq, Option.some.injEq, Option.some.injEq]
  · rename_i hnone
    refine iff_of_false (Option.some_ne_none _).symm ?_
    rintro ⟨hs, hp⟩
    exact hnone _ _ hs hp

/-- A call of `do_opt` hands to a handler what the string denotes, if that is a number of 64 bits.
Any other string reaches no handler and leaves all parameters alone: the flag `blksize_set` is
cleared by every call. -/
structure HandsNumber (cfg : OptionConfig) (opt val : CString) : Prop where
  denoted : ∀ name v, recognized cfg opt val = some (name, v) →
    v < uintmaxLimit ∧ Denotes val.bytes v
  ignored : (∀ v : Nat, v < uintmaxLimit → ¬ Denotes val.bytes v) →
    recognized cfg opt val = none ∧ ∀ n o, doOpt cfg opt val n o = .returned n.unset o

/-- The number that is handed over is less than 2^64, and where the string does not denote a
negative number it is what the string denotes. -/
theorem Numeral.wrap_eq (d : Numeral) (hsmall : d.magnitude < uintmaxLimit)
    (hv : d.value ≤ -(uintmaxLimit : Int) ∨ 0 ≤ d.value) :
    d.sign.wrap d.magnitude < uintmaxLimit ∧ d.value = d.sign.wrap d.magnitude := by
  rw [Numeral.value] at hv ⊢
  cases hs : d.sign with
  | none => exact ⟨hsmall, rfl⟩
  | plus => exact ⟨hsmall, rfl⟩
  | minus =>
    rw [hs] at hv
    have hzero : d.magnitude = 0 := by
      simp only [Sign.apply] at hv
      omega
    rw [hzero]
    exact ⟨by decide, rfl⟩

theorem Numeral.not_denotes_wrap (d : Numeral) (hlow : -(uintmaxLimit : Int) < d.value)
    (hneg : d.value < 0) : d.magnitude < uintmaxLimit ∧
      ∀ v : Nat, ¬ Denotes d.bytes v := by
  constructor
  · rw [value_eq] at hlow hneg
    split at hlow
    · omega
    · rename_i hs
      rw [if_neg hs] at hneg
      omega
  · rintro v ⟨d', hd, hv⟩
    rw [← value_unique hd, hv] at hneg
    omega

/-- The values are handed over as they should be, exactly if the option is none that the server
takes or the string does not denote a negative number of 64 bits. -/
theorem doOpt_handsNumber_iff (cfg : OptionConfig) (opt val : CString) :
    HandsNumber cfg opt val ↔
      supported cfg opt = none ∨
        ∀ z, Denotes val.bytes z → z ≤ -(uintmaxLimit : Int) ∨ 0 ≤ z := by
  constructor
  · intro h
    cases hs : supported cfg opt with
    | none => exact .inl rfl
    | some name =>
      right
      rintro _ ⟨d, hd, rfl⟩
      by_contra hz
      rw [not_or, Int.not_le, Int.not_le] at hz
      obtain ⟨hsmall, hnone⟩ := d.not_denotes_wrap hz.1 hz.2
      have hp := parsedValue_eq_some_iff.2 ⟨d, hd, hsmall, rfl⟩
      have hdenoted := (h.denoted name _ (recognized_eq_some_iff.2 ⟨hs, hp⟩)).2
      rw [← hd] at hdenoted
      exact hnone _ hdenoted
  · intro h
    have hdenoted : ∀ name v, recognized cfg opt val = some (name, v) →
        v < uintmaxLimit ∧ Denotes val.bytes v := by
      intro name v hr
      obtain ⟨hs, hp⟩ := recognized_eq_some_iff.1 hr
      obtain ⟨d, hd, hsmall, rfl⟩ := parsedValue_eq_some_iff.1 hp
      rw [hs] at h
      obtain ⟨hlt, hv⟩ := d.wrap_eq hsmall (h.resolve_left (Option.some_ne_none _) _ ⟨d, hd, rfl⟩)
      exact ⟨hlt, d, hd, hv⟩
    refine ⟨hdenoted, ?_⟩
    intro hnone
    have hr : recognized cfg opt val = none := by
      apply Option.eq_none_iff_forall_ne_some.2
      rintro ⟨name, v⟩ hr
      obtain ⟨hlt, hv⟩ := hdenoted name v hr
      exact hnone v hlt hv
    exact ⟨hr, fun n o => doOpt_ignored hr n o⟩

def blksizeName : CString := .ofBytes OptionName.blksize.text

/-- The string `-1`. -/
def minusOne : CString := .ofBytes [45, 49]

/-- For `-1` the handler of `blksize` gets 2^64 - 1, and the largest blocks are agreed on. -/
theorem minusOne_taken :
    recognized ⟨maxSegsize, fun _ => false⟩ blksizeName minusOne = some (.blksize, 2 ^ 64 - 1) ∧
      doOpt ⟨maxSegsize, fun _ => false⟩ blksizeName minusOne .default .start =
        .returned { Negotiated.default with segsize := 65464, blksizeSet := true }
          (Oack.start.append blksizeName (decimalString 65464)) ∧
      Denotes minusOne.bytes (-1) ∧
      ¬ HandsNumber ⟨maxSegsize, fun _ => false⟩ blksizeName minusOne := by
  have hr : recognized ⟨maxSegsize, fun _ => false⟩ blksizeName minusOne =
      some (.blksize, 2 ^ 64 - 1) := by decide
  have hd : Denotes minusOne.bytes (-1) :=
    ⟨⟨[], .minus, [49], nofun, List.forall_mem_singleton.2 rfl, nofun⟩, rfl, rfl⟩
  refine ⟨hr, ?_, hd, ?_⟩
  · rw [doOpt_eq, hr]
    rfl
  · intro h
    obtain ⟨d, hbytes, hv⟩ := hd
    have hlow : -(uintmaxLimit : Int) < d.value := by
      rw [hv]
      decide
    have hneg : d.value < 0 := by
      rw [hv]
      decide
    apply (d.not_denotes_wrap hlow hneg).2
    rw [hbytes]
    exact (h.denoted _ _ hr).2

end WooTftpd
