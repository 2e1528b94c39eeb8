import WooTftpd.Expand

namespace WooTftpd
open Lib
set_option autoImplicit true

/-- The texts of the macros of the server. -/
def serverTexts (peer : SockAddr) : MacroTexts := fun c =>
  if c = 105 then some ((inetNtop peer inet6Addrstrlen).getD [])
  else if c = 120 then some (hexAddress peer)
  else none

/-- The loop states of the two passes: the writing pass has come to `n` characters and the sizing
pass to `k` fewer, and it has already counted the `e` characters behind the match. -/
structure Paired (e : Int) (k n : Nat) (s w : Expansion) : Prop where
  sizing : s.string = none
  xform : w.xform = s.xform
  count : s.len = int32 (n - k + e)
  writing : ∃ o, w.string = some o ∧ o.pos = n ∧ o.extent ≤ n + 1

section Passes

variable {s w : Expansion}

theorem Cursor.push_extent {o : Cursor} (hp : o.pos = n) (h : o.extent ≤ n + 1)
    (bs : List UInt8) :
    (o.push bs).pos = n + bs.length ∧ (o.push bs).extent ≤ n + bs.length + 1 := by
  simp only [push, poke, hp, true_and]
  omega

theorem Paired.emit (h : Paired e k n s w) (cs : List UInt8) :
    Paired e k (n + cs.length) (s.emit cs) (w.emit cs) := by
  obtain ⟨o, ho, hpos, hext⟩ := h.writing
  constructor
  · simp only [Expansion.emit, h.sizing, Option.map_none]
  · exact h.xform
  · simp only [Expansion.emit, h.count, int32_add]
    congr 1
    omega
  · simp only [Expansion.emit, ho, Option.map_some]
    have hpush := Cursor.push_extent hpos hext (cs.map w.xform.apply)
    rw [List.length_map] at hpush
    exact ⟨_, rfl, hpush⟩

theorem Paired.reference (h : Paired e k n s w) (input : List UInt8) (m : Regmatch) :
    Paired e k (n + ((groupText input m).map s.xform.apply).length) (s.reference input m)
      (w.reference input m) := by
  rw [List.length_map]
  by_cases hm : m.rmSo = -1
  · simp only [Expansion.reference, groupText, hm, ne_eq, not_true_eq_false, if_false, if_true,
      List.length_nil, Nat.add_zero]
    exact h
  · simp only [Expansion.reference, groupText, hm, ne_eq, not_false_eq_true, if_false, if_true]
    exact h.emit _

theorem Paired.setXform (h : Paired e k n s w) (x : Xform) :
    Paired e k n { s with xform := x } { w with xform := x } :=
  ⟨h.sizing, rfl, h.count, h.writing⟩

/-- The text `p` of a macro is written with its NUL, and then transformed into `q`; the other
pass counts `j` characters for it. -/
theorem Paired.text (h : Paired e k n s w) (ho : w.string = some o) (hj : j ≤ p.length)
    (hq : q.length = p.length) :
    Paired e (k + (p.length - j)) (n + p.length) { s with len := int32 (s.len + j) }
      { w with len := len, string := some ((o.poke (p ++ [NUL])).push q) } := by
  obtain ⟨o', ho', hpos, hext⟩ := h.writing
  rw [ho'] at ho
  cases ho
  constructor
  · exact h.sizing
  · exact h.xform
  · dsimp only
    rw [h.count, int32_add]
    congr 1
    omega
  · refine ⟨_, rfl, ?_, ?_⟩
    · simp only [Cursor.push, Cursor.poke, hq, hpos]
    · simp only [Cursor.push, Cursor.poke, hq, hpos, List.length_append, List.length_singleton]
      omega

theorem Expansion.macrosub_sizing {callback : MatchPatternCallback} (hs : s.string = none)
    (j : Nat) (hc : callback c none = ((j : Int), none)) :
    s.macrosub callback c = { s with len := int32 (s.len + j) } := by
  simp only [macrosub, hs, hc, Int.natCast_nonneg, if_true, Option.map_none]

theorem Expansion.macrosub_writing {callback : MatchPatternCallback} (hw : w.string = some o)
    (p : List UInt8) (hc : callback c (some o) = ((p.length : Int), some (o.poke (p ++ [NUL])))) :
    ∃ len q, q.length = p.length ∧ w.macrosub callback c =
      { w with len := len, string := some ((o.poke (p ++ [NUL])).push q) } := by
  simp only [macrosub, hw, hc, Int.natCast_nonneg, if_true, Option.map_some, Int.toNat_natCast]
  refine ⟨_, _, ?_, rfl⟩
  rw [List.length_map, Mem.length_load]

theorem Paired.macrosub {callback : MatchPatternCallback} {j : Nat} (h : Paired e k n s w)
    (hj : j ≤ p.length) (hs : callback c none = ((j : Int), none))
    (hw : ∀ o, callback c (some o) = ((p.length : Int), some (o.poke (p ++ [NUL])))) :
    Paired e (k + (p.length - j)) (n + p.length) (s.macrosub callback c)
      (w.macrosub callback c) := by
  obtain ⟨o, ho, _⟩ := h.writing
  obtain ⟨len, q, hq, hwrite⟩ := Expansion.macrosub_writing ho p (hw o)
  rw [Expansion.macrosub_sizing h.sizing j hs, hwrite]
  exact h.text ho hj hq

/-- The characters of a macro that the sizing pass does not count. -/
def uncounted (peer : SockAddr) (c : UInt8) : Nat := if c = 120 then (hexAddress peer).length else 0

theorem uncounted_of_ne (peer : SockAddr) (h : c ≠ 120) : uncounted peer c = 0 := if_neg h

theorem rewriteMacros_ip (hp : inetNtop peer inet6Addrstrlen = some p) (output : Option Cursor) :
    rewriteMacros peer 105 output = ((p.length : Int), output.map (·.poke (p ++ [NUL]))) := by
  simp only [rewriteMacros, hp, if_true]

theorem rewriteMacros_hex (peer : SockAddr) : rewriteMacros peer 120 none = (0, none) := rfl

theorem rewriteMacros_other (hi : c ≠ 105) (hx : c ≠ 120) (peer : SockAddr)
    (output : Option Cursor) : rewriteMacros peer c output = (-1, output) := by
  simp only [rewriteMacros, if_neg hi, if_neg hx]

theorem Paired.rewriteMacros (h : Paired e k n s w) (peer : SockAddr) (c : UInt8) :
    Paired e (k + uncounted peer c)
      (n + (((serverTexts peer c).getD [c]).map s.xform.apply).length)
      (s.macrosub (rewriteMacros peer) c) (w.macrosub (rewriteMacros peer) c) := by
  rw [List.length_map]
  by_cases hi : c = 105
  · subst hi
    obtain ⟨p, hp, _⟩ := inetNtop_fits peer
    have hpair := h.macrosub (Nat.le_refl p.length) (rewriteMacros_ip hp none)
      (fun o => rewriteMacros_ip hp (some o))
    rw [Nat.sub_self] at hpair
    have htext : serverTexts peer 105 = some p := by rw [serverTexts, if_pos rfl, hp, Option.getD_some]
    rw [htext]
    exact hpair
  by_cases hx : c = 120
  · subst hx
    exact h.macrosub (c := 120) (Nat.zero_le _) (rewriteMacros_hex peer) fun o => rfl
  · have hneg : ¬ (0 : Int) ≤ -1 := by decide
    have htext : serverTexts peer c = none := by rw [serverTexts, if_neg hi, if_neg hx]
    simp only [Expansion.macrosub, rewriteMacros_other hi hx, if_neg hneg, uncounted_of_ne peer hx,
      Nat.add_zero, htext, Option.getD_none]
    exact h.emit [c]

theorem Paired.escape (h : Paired e k n s w) (peer : SockAddr) (input : List UInt8)
    (pmatch : Fin 10 → Regmatch) (c : UInt8) :
    Paired e (k + uncounted peer c)
      (n + (escapeText (serverTexts peer) input pmatch s.xform c).2.length)
      (s.escape (WooTftpd.rewriteMacros peer) input pmatch c)
      (w.escape (WooTftpd.rewriteMacros peer) input pmatch c) := by
  simp only [Expansion.escape, escapeText]
  split
  · rename_i hc
    have hne : c ≠ 120 := by
      rintro rfl
      exact absurd hc (by decide)
    rw [uncounted_of_ne peer hne]
    exact h.reference _ _
  split
  · rename_i hc
    subst hc
    exact h.setXform _
  split
  · rename_i hc
    subst hc
    exact h.setXform _
  split
  · rename_i hc
    subst hc
    exact h.setXform _
  · exact h.rewriteMacros peer c

/-- The two passes over a pattern drift apart by the text of each `\x`. -/
theorem Paired.expand (h : Paired e k n s w) (peer : SockAddr) (input : List UInt8)
    (pmatch : Fin 10 → Regmatch) (pattern : List UInt8) :
    Paired e (k + (hexAddress peer).length * hexMacros pattern)
      (n + (expandText (serverTexts peer) input pmatch s.xform pattern).length)
      (s.expand (WooTftpd.rewriteMacros peer) input pmatch pattern)
      (w.expand (WooTftpd.rewriteMacros peer) input pmatch pattern) := by
  induction pattern using hexMacros.induct generalizing k n s w with
  | case1 => exact h
  | case2 c => exact h.emit [c]
  | case3 d pattern ih =>
    have hk : k + (hexAddress peer).length * hexMacros (backslash :: d :: pattern) =
        k + uncounted peer d + (hexAddress peer).length * hexMacros pattern := by
      simp only [hexMacros, if_true, uncounted, Nat.mul_add]
      split
      · omega
      · omega
    have hi := ih (h.escape peer input pmatch d)
    rw [escape_xform _ (serverTexts peer)] at hi
    simp only [hk, Expansion.expand, expandText, if_true, List.length_append]
    rw [← Nat.add_assoc]
    exact hi
  | case4 c d pattern hc ih =>
    have hi := ih (h.emit [c])
    simp only [hexMacros, Expansion.expand, expandText, if_neg hc, List.length_cons]
    rw [Nat.add_comm _ 1, ← Nat.add_assoc]
    exact hi

end Passes

/-- The characters that come out of the loop over the pattern, for which each `\x` stands. -/
theorem hexMacros_le (peer : SockAddr) (input : List UInt8) (pmatch : Fin 10 → Regmatch)
    (pattern : List UInt8) (x : Xform) : (hexAddress peer).length * hexMacros pattern ≤
      (expandText (serverTexts peer) input pmatch x pattern).length := by
  induction pattern using hexMacros.induct generalizing x with
  | case1 => exact Nat.le_refl _
  | case2 c => exact Nat.zero_le _
  | case3 d pattern ih =>
    have hi := ih (escapeText (serverTexts peer) input pmatch x d).1
    simp only [hexMacros, expandText, if_true, List.length_append, Nat.mul_add]
    split
    · rename_i hd
      subst hd
      have htext : (escapeText (serverTexts peer) input pmatch x 120).2.length =
          (hexAddress peer).length := List.length_map _
      omega
    · omega
  | case4 c d pattern hc ih =>
    have hi := ih x
    simp only [hexMacros, expandText, if_neg hc, List.length_cons]
    omega

theorem genmatchstring_passes (pattern input : List UInt8) (m : MatchOf input) (peer : SockAddr)
    (buf : Mem) (hend : 0 ≤ endbytes input m.pmatch) :
    let n := (writtenText (serverTexts peer) input m.pmatch pattern).length
    (genmatchstring none pattern input m.pmatch (rewriteMacros peer)).1 =
      int32 (n - ((hexAddress peer).length * hexMacros pattern : Nat)) ∧
    ∃ o, (genmatchstring (some (.fresh buf)) pattern input m.pmatch (rewriteMacros peer)).2 =
      some o ∧ o.pos = n ∧ o.extent = n + 1 := by
  obtain ⟨h0, h1, h2⟩ := m.bounds
  have hso : (input.take (m.pmatch 0).rmSo.toNat).length = (m.pmatch 0).rmSo.toNat :=
    List.length_take_of_le (by omega)
  have hle := endbytes_le m
  have hrest : ((input.drop (m.pmatch 0).rmEo.toNat).take
      (endbytes input m.pmatch).toNat).length = (endbytes input m.pmatch).toNat :=
    List.length_take_of_le (by omega)
  have hlen := length_writtenText (serverTexts peer) m pattern hend
  have hstart : Paired (endbytes input m.pmatch) 0 (m.pmatch 0).rmSo.toNat
      ⟨.null, int32 ((m.pmatch 0).rmSo + endbytes input m.pmatch), none⟩
      ⟨.null, int32 ((m.pmatch 0).rmSo + endbytes input m.pmatch),
        some ((Cursor.fresh buf).push (input.take (m.pmatch 0).rmSo.toNat))⟩ := by
    constructor
    · rfl
    · rfl
    · dsimp only
      congr 1
      omega
    · refine ⟨_, rfl, ?_⟩
      have hpush := Cursor.push_extent (o := .fresh buf) (n := 0) rfl (Nat.zero_le _)
        (input.take (m.pmatch 0).rmSo.toNat)
      rwa [hso, Nat.zero_add] at hpush
  have hpair := hstart.expand peer input m.pmatch pattern
  rw [Nat.zero_add] at hpair
  dsimp only at hpair
  obtain ⟨o, ho, hpos, hext⟩ := hpair.writing
  intro n
  have hn : n = (m.pmatch 0).rmSo.toNat +
      (expandText (serverTexts peer) input m.pmatch .null pattern).length +
      (endbytes input m.pmatch).toNat := by omega
  constructor
  · simp only [genmatchstring, Option.bind_none]
    rw [hpair.count]
    congr 1
    omega
  · obtain ⟨hpos', hext'⟩ := Cursor.push_extent hpos hext
      ((input.drop (m.pmatch 0).rmEo.toNat).take (endbytes input m.pmatch).toNat)
    rw [hrest] at hpos' hext'
    simp only [genmatchstring, Option.bind_some, Cursor.memcpy_eq _ _ h0]
    rw [ho, Option.bind_some, Cursor.memcpy_eq _ _ hend, Option.map_some]
    refine ⟨_, rfl, hpos'.trans hn.symm, ?_⟩
    simp only [Cursor.poke, hpos', List.length_singleton, hn]
    exact Nat.max_eq_right hext'

theorem hexAddress_pos (peer : SockAddr) : 0 < (hexAddress peer).length := by
  cases peer with
  | inet a =>
    rw [hexAddress, length_hexUpper]
    decide
  | inet6 a =>
    rw [hexAddress, List.length_flatMap]
    simp only [length_hexUpper]
    decide

/-- A rest of a negative length is not copied. -/
theorem genmatchstring_undefined (string : Option Cursor) (pattern input : List UInt8)
    (callback : MatchPatternCallback) (hend : ¬ 0 ≤ endbytes input pmatch) :
    (genmatchstring string pattern input pmatch callback).2 = none := by
  simp only [genmatchstring, Cursor.memcpy, if_neg hend, Option.map_none]
  exact Option.bind_fun_none _

/-- The passes agree, and the buffer of `rewrite_string` is large enough, exactly if the
pattern has no `\x` macro and the characters that are written can be counted by an `int`. -/
theorem genmatchstring_sizing_iff (pattern input : List UInt8) (m : MatchOf input)
    (peer : SockAddr) (buf : Mem) :
    let len := (genmatchstring none pattern input m.pmatch (rewriteMacros peer)).1
    (∃ o, (genmatchstring (some (.fresh buf)) pattern input m.pmatch (rewriteMacros peer)).2 =
        some o ∧ (o.pos : Int) = len ∧ (o.extent : Int) ≤ len + 1) ↔
      hexMacros pattern = 0 ∧ 0 ≤ endbytes input m.pmatch ∧
        (writtenText (serverTexts peer) input m.pmatch pattern).length < 2 ^ 31 := by
  intro len
  by_cases hend : 0 ≤ endbytes input m.pmatch
  · obtain ⟨hlen, o, ho, hpos, hext⟩ := genmatchstring_passes pattern input m peer buf hend
    have hhex := hexAddress_pos peer
    have hle := hexMacros_le peer input m.pmatch pattern .null
    constructor
    · rintro ⟨o', ho', hlen', _⟩
      rw [ho] at ho'
      cases ho'
      simp only [len, hlen, hpos] at hlen'
      have hz : (hexAddress peer).length * hexMacros pattern = 0 := by
        have hwritten := length_writtenText (serverTexts peer) m pattern hend
        have hso := m.bounds.1
        have hcounted : (0 : Int) ≤
            (writtenText (serverTexts peer) input m.pmatch pattern).length -
              ((hexAddress peer).length * hexMacros pattern : Nat) := by omega
        have hsub := int32_le hcounted
        omega
      rw [hz, Int.natCast_zero, Int.sub_zero] at hlen'
      refine ⟨?_, hend, (int32_nat_iff _).1 hlen'.symm⟩
      rcases Nat.mul_eq_zero.1 hz with h | h
      · omega
      · exact h
    · rintro ⟨hz, -, hfits⟩
      rw [hz, Nat.mul_zero, Int.natCast_zero, Int.sub_zero, (int32_nat_iff _).2 hfits] at hlen
      refine ⟨o, ho, ?_, ?_⟩
      · rw [hpos]
        exact hlen.symm
      · rw [hext]
        simp only [len, hlen]
        omega
  · constructor
    · rintro ⟨o, ho, -⟩
      rw [genmatchstring_undefined _ _ _ _ hend] at ho
      cases ho
    · rintro ⟨-, h, -⟩
      exact absurd h hend

/-- The rule `r . \x` for a client at 127.0.0.1: the string is sized as empty, and nine bytes
are written into the one byte that is allocated. -/
theorem hexMacro_overruns :
    let peer := SockAddr.inet fun n => if n = 0 then 127 else if n = 3 then 1 else 0
    let len := (genmatchstring none [92, 120] [97] (wholeMatch [97]).pmatch (rewriteMacros peer)).1
    let written := (genmatchstring (some (.fresh .zero)) [92, 120] [97] (wholeMatch [97]).pmatch
      (rewriteMacros peer)).2
    written.map (fun o => (o.pos, o.extent, o.mem.load 0 o.extent)) =
        some (8, 9, [55, 70, 48, 48, 48, 48, 48, 49, 0]) ∧
      len = 0 ∧ ¬ ∃ o, written = some o ∧ (o.pos : Int) = len ∧ (o.extent : Int) ≤ len + 1 := by
  intro peer len written
  have hw : written.map (fun o => (o.pos, o.extent, o.mem.load 0 o.extent)) =
      some (8, 9, [55, 70, 48, 48, 48, 48, 48, 49, 0]) := by decide
  have hlen : len = 0 := by decide
  refine ⟨hw, hlen, ?_⟩
  rintro ⟨o, ho, hpos, _⟩
  rw [ho] at hw
  have h8 : o.pos = 8 := congrArg Prod.fst (Option.some.inj hw)
  omega

end WooTftpd
