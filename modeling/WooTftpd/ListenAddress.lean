import WooTftpd.Options

namespace WooTftpd
open Lib
set_option autoImplicit true

def lbracket : UInt8 := 91
def rbracket : UInt8 := 93

def isHexDigit (c : UInt8) : Bool := isDigit c ∨ (65 ≤ c ∧ c ≤ 70) ∨ (97 ≤ c ∧ c ≤ 102)

/-- What the loop of `is_numeric_ipv6` counts, and whether it ends at a bracket. -/
structure AddressScan where
  colons : Nat
  dots : Nat
  closed : Bool

/-- `none` at an invalid character. -/
def scanAddress : List UInt8 → Option AddressScan
  | [] => some ⟨0, 0, false⟩
  | c :: p =>
    if c = rbracket then some ⟨0, 0, true⟩
    else if c = colon then (scanAddress p).map fun r => { r with colons := r.colons + 1 }
    else if c = dot then (scanAddress p).map fun r => { r with dots := r.dots + 1 }
    else if isHexDigit c then scanAddress p
    else none

/-- The checks on the counts. -/
def AddressScan.acceptable (r : AddressScan) (bracket : Bool) : Bool :=
  if r.colons < 2 ∨ 7 < r.colons then false
  else if r.dots ≠ 0 ∧ (r.dots ≠ 3 ∨ 6 < r.colons) then false
  else bracket == r.closed

def isNumericIpv6 (p : List UInt8) : Bool :=
  let bracket : Bool := p.head? = some lbracket
  match scanAddress (if bracket then p.tail else p) with
  | none => false
  | some r => r.acceptable bracket

/-- What is in front of the last `c` and behind it. -/
def strrchr (c : UInt8) : List UInt8 → Option (List UInt8 × List UInt8)
  | [] => none
  | x :: xs =>
    match strrchr c xs with
    | some (pre, post) => some (x :: pre, post)
    | none => if x = c then some ([], xs) else none

inductive Family where
  | unspec
  | inet
  | inet6
  deriving DecidableEq

/-- The address and the port that `split_port` leaves, with the family it returns; `none` for
-1. -/
def splitPort (inetAton : List UInt8 → Bool) (a : List UInt8) :
    Option (List UInt8 × Option (List UInt8) × Family) :=
  if isNumericIpv6 a then
    if a.head? ≠ some lbracket then none
    else
      match strrchr rbracket a.tail with
      | none => none
      | some (addr, rest) => some (addr, (strrchr colon rest).map Prod.snd, .inet6)
  else
    match strrchr colon a with
    | some (host, port) => some (host, some port, if inetAton host then .inet else .unspec)
    | none => some (a, none, if inetAton a then .inet else .unspec)

theorem strrchr_none (h : c ∉ xs) : strrchr c xs = none := by
  induction xs with
  | nil => rfl
  | cons x xs ih =>
    rw [List.mem_cons, not_or] at h
    rw [strrchr, ih h.2]
    exact if_neg (Ne.symm h.1)

theorem strrchr_append (h : c ∉ post) (pre : List UInt8) :
    strrchr c (pre ++ c :: post) = some (pre, post) := by
  induction pre with
  | nil =>
    rw [List.nil_append, strrchr, strrchr_none h]
    exact if_pos rfl
  | cons x pre ih => rw [List.cons_append, strrchr, ih]

/-- A character of an address. -/
def addressChar (c : UInt8) : Bool := c = colon ∨ c = dot ∨ isHexDigit c

theorem ne_rbracket (h : addressChar c = true) : c ≠ rbracket := by
  rintro rfl
  revert h
  decide

theorem ne_lbracket (h : addressChar c = true) : c ≠ lbracket := by
  rintro rfl
  revert h
  decide

/-- Up to the end of the address the loop counts its colons and dots. -/
theorem scanAddress_append (h : ∀ c ∈ a, addressChar c = true) (rest : List UInt8) :
    scanAddress (a ++ rest) = (scanAddress rest).map fun r =>
      { r with colons := r.colons + a.count colon, dots := r.dots + a.count dot } := by
  induction a with
  | nil =>
    rw [List.nil_append]
    cases scanAddress rest <;> rfl
  | cons c a ih =>
    have hc := h c List.mem_cons_self
    have ih' := ih fun d hd => h d (List.mem_cons_of_mem _ hd)
    rw [List.cons_append, scanAddress, if_neg (ne_rbracket hc), ih']
    by_cases hcolon : c = colon
    · have hdot : colon ≠ dot := by decide
      rw [hcolon, if_pos rfl, List.count_cons_self, List.count_cons_of_ne hdot, Option.map_map]
      rfl
    by_cases hdot : c = dot
    · rw [if_neg hcolon, if_pos hdot, hdot, List.count_cons_self,
        List.count_cons_of_ne (hdot ▸ hcolon), Option.map_map]
      rfl
    · have hhex : isHexDigit c = true := by
        have hor := of_decide_eq_true hc
        exact (hor.resolve_left hcolon).resolve_left hdot
      rw [if_neg hcolon, if_neg hdot, if_pos hhex, List.count_cons_of_ne hcolon,
        List.count_cons_of_ne hdot]

/-- The loop over an address, which ends with its string or at a bracket. -/
def countsOf (a : List UInt8) (closed : Bool) : AddressScan :=
  ⟨a.count colon, a.count dot, closed⟩

theorem isNumericIpv6_plain (h : ∀ c ∈ a, addressChar c = true) :
    isNumericIpv6 a = (countsOf a false).acceptable false := by
  have hhead : decide (a.head? = some lbracket) = false := by
    apply decide_eq_false
    intro hc
    exact ne_lbracket (h _ (List.mem_of_mem_head? hc)) rfl
  have hscan := scanAddress_append h []
  rw [List.append_nil] at hscan
  rw [isNumericIpv6, hhead, if_neg Bool.false_ne_true, hscan]
  simp only [scanAddress, Option.map_some, Nat.zero_add]
  rfl

theorem isNumericIpv6_bracketed (h : ∀ c ∈ a, addressChar c = true) (rest : List UInt8) :
    isNumericIpv6 (lbracket :: a ++ rbracket :: rest) = (countsOf a true).acceptable true := by
  have hhead : decide ((lbracket :: a ++ rbracket :: rest).head? = some lbracket) = true := rfl
  have hscan := scanAddress_append h (rbracket :: rest)
  rw [scanAddress, if_pos rfl] at hscan
  rw [isNumericIpv6, hhead, if_pos rfl, List.cons_append, List.tail_cons, hscan]
  simp only [Option.map_some, Nat.zero_add]
  rfl

/-- One to four hexadecimal digits. -/
def Group (g : List UInt8) : Prop := 1 ≤ g.length ∧ g.length ≤ 4 ∧ ∀ c ∈ g, isHexDigit c = true

/-- A decimal number of one byte. -/
def Octet (d : List UInt8) : Prop :=
  1 ≤ d.length ∧ d.length ≤ 3 ∧ (∀ c ∈ d, isDigit c = true) ∧ digitsValue d ≤ 255

/-- Groups with colons between them: the text of `n` times 16 bits. With `quad` the last two of
them are an IPv4 address. -/
inductive Groups : (quad : Bool) → Nat → List UInt8 → Prop where
  | last : Group g → Groups false 1 g
  | ipv4 : Octet a → Octet b → Octet c → Octet d →
      Groups true 2 (a ++ dot :: b ++ dot :: c ++ dot :: d)
  | cons : Group g → Groups quad n s → Groups quad (n + 1) (g ++ colon :: s)

/-- The text of an IPv6 address: eight groups, or fewer with `::` for the groups of zeros that
are left out. -/
inductive Ipv6Text : (quad : Bool) → List UInt8 → Prop where
  | full : Groups quad 8 s → Ipv6Text quad s
  | zeros : Ipv6Text false [colon, colon]
  | before : Groups false n s → n ≤ 7 → Ipv6Text false (s ++ [colon, colon])
  | behind : Groups quad n s → n ≤ 7 → Ipv6Text quad (colon :: colon :: s)
  | between : Groups false n s → Groups quad m s' → n + m ≤ 7 →
      Ipv6Text quad (s ++ colon :: colon :: s')

/-- The characters of a text, and how many colons and dots there are. -/
structure Counted (a : List UInt8) (colons dots : Nat) : Prop where
  chars : ∀ c ∈ a, addressChar c = true
  colons : a.count colon = colons
  dots : a.count dot = dots

theorem Counted.append (h : Counted a m n) (h' : Counted b m' n') :
    Counted (a ++ b) (m + m') (n + n') := by
  constructor
  · intro c hc
    rcases List.mem_append.1 hc with hc | hc
    · exact h.chars c hc
    · exact h'.chars c hc
  · rw [List.count_append, h.colons, h'.colons]
  · rw [List.count_append, h.dots, h'.dots]

theorem counted_colon : Counted [colon] 1 0 :=
  ⟨List.forall_mem_singleton.2 (by decide), rfl, rfl⟩

theorem counted_dot : Counted [dot] 0 1 := ⟨List.forall_mem_singleton.2 (by decide), rfl, rfl⟩

theorem counted_hexDigits (h : ∀ c ∈ g, isHexDigit c = true) : Counted g 0 0 := by
  constructor
  · intro c hc
    exact decide_eq_true (.inr (.inr (h c hc)))
  · apply List.count_eq_zero_of_not_mem
    intro hc
    exact absurd (h colon hc) (by decide)
  · apply List.count_eq_zero_of_not_mem
    intro hc
    exact absurd (h dot hc) (by decide)

theorem Group.counted (h : Group g) : Counted g 0 0 := counted_hexDigits h.2.2

theorem Octet.counted (h : Octet d) : Counted d 0 0 := by
  apply counted_hexDigits
  intro c hc
  exact decide_eq_true (.inl (h.2.2.1 c hc))

/-- An IPv4 address takes the place of two groups and a colon. -/
theorem Groups.counted (h : Groups quad n s) :
    ∃ colons, Counted s colons (if quad then 3 else 0) ∧
      colons + (if quad then 2 else 1) = n := by
  induction h with
  | last hg => exact ⟨0, hg.counted, rfl⟩
  | ipv4 ha hb hc hd =>
    refine ⟨0, ?_, rfl⟩
    have hquad := ((((ha.counted.append counted_dot).append hb.counted).append
      counted_dot).append hc.counted).append (counted_dot.append hd.counted)
    simpa using hquad
  | cons hg _ ih =>
    obtain ⟨colons, hc, hn⟩ := ih
    refine ⟨colons + 1, ?_, ?_⟩
    · have hcons := hg.counted.append (counted_colon.append hc)
      simpa [Nat.add_comm] using hcons
    · rw [Nat.add_right_comm, hn]

/-- Every address has at least two colons. -/
theorem Ipv6Text.counted (h : Ipv6Text quad a) :
    ∃ colons, Counted a colons (if quad then 3 else 0) ∧ 2 ≤ colons := by
  have hzeros : Counted [colon, colon] 2 0 := counted_colon.append counted_colon
  cases h with
  | full hs =>
    obtain ⟨colons, hc, hn⟩ := hs.counted
    refine ⟨colons, hc, ?_⟩
    cases quad <;> simp at hn ⊢ <;> omega
  | zeros => exact ⟨2, hzeros, Nat.le_refl 2⟩
  | before hs hn =>
    obtain ⟨colons, hc, -⟩ := hs.counted
    exact ⟨colons + 2, hc.append hzeros, Nat.le_add_left 2 colons⟩
  | behind hs hn =>
    obtain ⟨colons, hc, -⟩ := hs.counted
    refine ⟨2 + colons, ?_, Nat.le_add_right 2 colons⟩
    have happ := hzeros.append hc
    rwa [Nat.zero_add] at happ
  | between hs hs' hn =>
    obtain ⟨colons, hc, -⟩ := hs.counted
    obtain ⟨colons', hc', -⟩ := hs'.counted
    refine ⟨colons + (2 + colons'), ?_, by omega⟩
    have happ := hc.append (hzeros.append hc')
    simpa using happ

/-- The number of colons that an address may have to be recognised: seven, or six with an IPv4
address at its end. -/
def Recognised (quad : Bool) (a : List UInt8) : Prop :=
  a.count colon + (if quad then 1 else 0) ≤ 7

instance : Decidable (Recognised quad a) := inferInstanceAs (Decidable (_ ≤ 7))

theorem acceptable_countsOf_iff (h : Ipv6Text quad a) (bracket : Bool) :
    (countsOf a bracket).acceptable bracket = true ↔ Recognised quad a := by
  obtain ⟨colons, hc, hlow⟩ := h.counted
  rw [AddressScan.acceptable, countsOf, Recognised, hc.colons, hc.dots]
  cases quad
  · simp
    omega
  · simp
    omega

theorem isNumericIpv6_text_iff (h : Ipv6Text quad a) :
    isNumericIpv6 a = true ↔ Recognised quad a := by
  obtain ⟨_, hc, _⟩ := h.counted
  rw [isNumericIpv6_plain hc.chars, acceptable_countsOf_iff h]

theorem isNumericIpv6_bracketed_iff (h : Ipv6Text quad a) (rest : List UInt8) :
    isNumericIpv6 (lbracket :: a ++ rbracket :: rest) = true ↔ Recognised quad a := by
  obtain ⟨_, hc, _⟩ := h.counted
  rw [isNumericIpv6_bracketed hc.chars, acceptable_countsOf_iff h]

theorem scanAddress_colons (h : scanAddress p = some r) : r.colons ≤ p.count colon := by
  induction p generalizing r with
  | nil =>
    cases h
    exact Nat.le_refl 0
  | cons c p ih =>
    rw [scanAddress] at h
    split at h
    · cases h
      exact Nat.zero_le _
    split at h
    · rename_i hc
      obtain ⟨r', hr, rfl⟩ := Option.map_eq_some_iff.1 h
      rw [hc, List.count_cons_self]
      exact Nat.succ_le_succ (ih hr)
    split at h
    · obtain ⟨r', hr, rfl⟩ := Option.map_eq_some_iff.1 h
      have hle := ih hr
      exact Nat.le_trans hle List.count_le_count_cons
    split at h
    · exact Nat.le_trans (ih h) List.count_le_count_cons
    · cases h

/-- Nothing with fewer than two colons is taken for an IPv6 address. -/
theorem not_isNumericIpv6 (h : p.count colon < 2) : isNumericIpv6 p = false := by
  rw [isNumericIpv6]
  split
  · rfl
  · rename_i r hr
    have hle := scanAddress_colons hr
    have hcount : r.colons < 2 := by
      split at hle
      · exact Nat.lt_of_le_of_lt (Nat.le_trans hle ((List.tail_sublist p).count_le colon)) h
      · exact Nat.lt_of_le_of_lt hle h
    rw [AddressScan.acceptable, if_pos (.inl hcount)]

/-- The three spellings of a listen address with an IPv6 address. -/
structure SplitsIpv6 (inetAton : List UInt8 → Bool) (a p : List UInt8) : Prop where
  withPort : splitPort inetAton (lbracket :: a ++ rbracket :: colon :: p) =
    some (a, some p, .inet6)
  noPort : splitPort inetAton (lbracket :: a ++ [rbracket]) = some (a, none, .inet6)
  unbracketed : splitPort inetAton a = none

structure SplitsHost (inetAton : List UInt8 → Bool) (h p : List UInt8) : Prop where
  withPort : ∃ family, splitPort inetAton (h ++ colon :: p) = some (h, some p, family)
  noPort : ∃ family, splitPort inetAton h = some (h, none, family)

theorem splitsHost (inetAton : List UInt8 → Bool) (hh : colon ∉ h) (hp : colon ∉ p) :
    SplitsHost inetAton h p := by
  have hcount : h.count colon = 0 := List.count_eq_zero_of_not_mem hh
  have hcount' : (h ++ colon :: p).count colon = 1 := by
    rw [List.count_append, List.count_cons_self, hcount, List.count_eq_zero_of_not_mem hp]
  constructor
  · rw [splitPort, not_isNumericIpv6 (by omega), if_neg Bool.false_ne_true, strrchr_append hp]
    exact ⟨_, rfl⟩
  · rw [splitPort, not_isNumericIpv6 (by omega), if_neg Bool.false_ne_true, strrchr_none hh]
    exact ⟨_, rfl⟩

theorem splitPort_bracketed (inetAton : List UInt8 → Bool)
    (h : isNumericIpv6 (lbracket :: a ++ rbracket :: rest) = true) (hr : rbracket ∉ rest) :
    splitPort inetAton (lbracket :: a ++ rbracket :: rest) =
      some (a, (strrchr colon rest).map Prod.snd, .inet6) := by
  have hhead : ¬ (lbracket :: a ++ rbracket :: rest).head? ≠ some lbracket := fun hne => hne rfl
  rw [splitPort, if_pos h, if_neg hhead, List.cons_append, List.tail_cons, strrchr_append hr]

/-- A host and a port are always told apart, and an IPv6 address and a port exactly if the
address is one that is recognised. -/
theorem splitPort_roundTrip_iff (inetAton : List UInt8 → Bool) :
    (∀ h p, colon ∉ h → colon ∉ p → rbracket ∉ p → SplitsHost inetAton h p) ∧
      ∀ quad a p, Ipv6Text quad a → colon ∉ p → rbracket ∉ p →
        (SplitsIpv6 inetAton a p ↔ Recognised quad a) := by
  constructor
  · intro h p hh hp _
    exact splitsHost inetAton hh hp
  · intro quad a p ha hp hr
    constructor
    · intro hs
      rw [← isNumericIpv6_text_iff ha]
      by_contra hne
      have hun := hs.unbracketed
      rw [splitPort, if_neg hne] at hun
      split at hun
      · cases hun
      · cases hun
    · intro hrec
      have hnum := (isNumericIpv6_text_iff ha).2 hrec
      have hbr (rest : List UInt8) := (isNumericIpv6_bracketed_iff ha rest).2 hrec
      have hne : rbracket ≠ colon := by decide
      constructor
      · have hrest : rbracket ∉ colon :: p := by
          rw [List.mem_cons, not_or]
          exact ⟨hne, hr⟩
        rw [splitPort_bracketed inetAton (hbr _) hrest]
        have hport : strrchr colon (colon :: p) = some ([], p) := strrchr_append hp []
        rw [hport]
        rfl
      · exact splitPort_bracketed inetAton (hbr []) List.not_mem_nil
      · have hhead : a.head? ≠ some lbracket := by
          intro hc
          obtain ⟨_, hcount, _⟩ := ha.counted
          exact ne_lbracket (hcount.chars _ (List.mem_of_mem_head? hc)) rfl
        rw [splitPort, if_pos hnum, if_pos hhead]

theorem group_one (c : UInt8) (h : isHexDigit c = true) : Group [c] := by
  refine ⟨Nat.le_refl 1, (by decide : 1 ≤ 4), ?_⟩
  intro d hd
  rw [List.mem_singleton.1 hd]
  exact h

/-- The host `host` and the address `f::1`, with the port `69`. -/
theorem shortAddress_splits :
    SplitsHost (fun _ => false) [104, 111, 115, 116] [54, 57] ∧
      SplitsIpv6 (fun _ => false) [102, 58, 58, 49] [54, 57] := by
  have hall := splitPort_roundTrip_iff fun _ => false
  have ha : Ipv6Text false [102, 58, 58, 49] :=
    .between (.last (group_one 102 rfl)) (.last (group_one 49 rfl)) (by decide)
  exact ⟨hall.1 _ _ (by decide) (by decide) (by decide),
    (hall.2 false _ _ ha (by decide) (by decide)).2 (by decide)⟩

/-- In the address `1:2:3:4:5:6:7::` the last group is left out, which makes eight colons. -/
theorem sevenGroups_notSplit :
    Ipv6Text false [49, 58, 50, 58, 51, 58, 52, 58, 53, 58, 54, 58, 55, 58, 58] ∧
      ¬ SplitsIpv6 (fun _ => false)
        [49, 58, 50, 58, 51, 58, 52, 58, 53, 58, 54, 58, 55, 58, 58] [54, 57] := by
  have hgroups : Groups false 7 [49, 58, 50, 58, 51, 58, 52, 58, 53, 58, 54, 58, 55] :=
    .cons (group_one 49 rfl) <| .cons (group_one 50 rfl) <| .cons (group_one 51 rfl) <|
      .cons (group_one 52 rfl) <| .cons (group_one 53 rfl) <| .cons (group_one 54 rfl) <|
        .last (group_one 55 rfl)
  refine ⟨.before hgroups (Nat.le_refl 7), ?_⟩
  intro hs
  have hun := hs.unbracketed
  revert hun
  decide

end WooTftpd
