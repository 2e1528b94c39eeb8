import WooTftpd.Remap

namespace WooTftpd
open Lib
set_option autoImplicit true

theorem MatchOf.bounds (m : MatchOf input) : 0 ≤ (m.pmatch 0).rmSo ∧
    (m.pmatch 0).rmSo ≤ (m.pmatch 0).rmEo ∧ (m.pmatch 0).rmEo ≤ input.length := by
  rcases m.groups 0 with h | h
  · exact absurd h m.whole
  · exact h

/-- The number of `\x` macros that the loop over the pattern comes to. -/
def hexMacros : List UInt8 → Nat
  | [] => 0
  | [_] => 0
  | c :: d :: pattern =>
    if c = backslash then (if d = 120 then 1 else 0) + hexMacros pattern
    else hexMacros (d :: pattern)

def Cursor.fresh (m : Mem) : Cursor := ⟨m, 0, 0⟩

/-- The text that each macro stands for; `none` if there is no such macro. -/
def MacroTexts := UInt8 → Option (List UInt8)

/-- The part of the input that a group of the match covers. -/
def groupText (input : List UInt8) (m : Regmatch) : List UInt8 :=
  if m.rmSo = -1 then [] else (input.drop m.rmSo.toNat).take (m.rmEo - m.rmSo).toNat

theorem mod_ten_lt (i : Nat) : i % 10 < 10 := Nat.mod_lt i (by decide)

def submatch (pmatch : Fin 10 → Regmatch) (i : Nat) : Regmatch := pmatch ⟨i % 10, mod_ten_lt i⟩

theorem submatch_zero (pmatch : Fin 10 → Regmatch) : submatch pmatch 0 = pmatch 0 := rfl

/-- What an escaped character stands for, and the transformation of what comes after it. -/
def escapeText (texts : MacroTexts) (input : List UInt8) (pmatch : Fin 10 → Regmatch) (x : Xform)
    (c : UInt8) : Xform × List UInt8 :=
  if 48 ≤ c ∧ c ≤ 57 then
    (x, (groupText input (submatch pmatch (c.toNat - 48))).map x.apply)
  else if c = 76 then (.tolower, [])
  else if c = 85 then (.toupper, [])
  else if c = 69 then (.null, [])
  else (x, ((texts c).getD [c]).map x.apply)

/-- The text of a pattern, as the rule file documents it. -/
def expandText (texts : MacroTexts) (input : List UInt8) (pmatch : Fin 10 → Regmatch) :
    Xform → List UInt8 → List UInt8
  | _, [] => []
  | x, [c] => [x.apply c]
  | x, c :: d :: pattern =>
    if c = backslash then
      (escapeText texts input pmatch x d).2 ++
        expandText texts input pmatch (escapeText texts input pmatch x d).1 pattern
    else x.apply c :: expandText texts input pmatch x (d :: pattern)

def substitution (texts : MacroTexts) (input : List UInt8) (pmatch : Fin 10 → Regmatch)
    (pattern : List UInt8) : List UInt8 :=
  input.take (submatch pmatch 0).rmSo.toNat ++ expandText texts input pmatch .null pattern ++
    input.drop (submatch pmatch 0).rmEo.toNat

/-- The same with the rest as it is copied: its length is an `int`. -/
def writtenText (texts : MacroTexts) (input : List UInt8) (pmatch : Fin 10 → Regmatch)
    (pattern : List UInt8) : List UInt8 :=
  input.take (submatch pmatch 0).rmSo.toNat ++ expandText texts input pmatch .null pattern ++
    (input.drop (submatch pmatch 0).rmEo.toNat).take (endbytes input pmatch).toNat

/-- The pointer still is where it was, and nothing before it has changed. -/
def Cursor.Kept (o : Cursor) (r : Option Cursor) : Prop :=
  ∃ o', r = some o' ∧ o'.pos = o.pos ∧ o'.mem.load 0 o.pos = o.mem.load 0 o.pos

/-- What `genmatchstring` expects of its callback: a macro has the same length with and without a
buffer, and its text is written to where the pointer is. Behind the text the callback may write
what it likes. -/
structure Obeys (callback : MatchPatternCallback) (texts : MacroTexts) : Prop where
  unasked : ∀ c, (callback c none).2 = none
  kept : ∀ c (o : Cursor), o.Kept (callback c (some o)).2
  length : ∀ c p, texts c = some p → ∀ s, (callback c s).1 = p.length
  text : ∀ c p, texts c = some p → ∀ o o', (callback c (some o)).2 = some o' →
    o'.mem.load o.pos p.length = p
  unknown : ∀ c, texts c = none → ∀ s, (callback c s).1 < 0

/-- The state of the loop after the text `out` in front of and from the pattern, with `e` more
characters already counted. -/
structure Produced (e : Int) (b : Bool) (out : List UInt8) (s : Expansion) : Prop where
  len : s.len = int32 (out.length + e)
  writing : s.string.isSome = b
  text : ∀ o, s.string = some o → o.pos = out.length ∧ o.mem.load 0 out.length = out

section Loop

variable {s : Expansion} {callback : MatchPatternCallback} {texts : MacroTexts}

theorem Cursor.load_push (o : Cursor) (out cs : List UInt8) (hp : o.pos = out.length)
    (hl : o.mem.load 0 out.length = out) :
    (o.push cs).pos = (out ++ cs).length ∧
      (o.push cs).mem.load 0 (out ++ cs).length = out ++ cs := by
  simp only [push, poke, hp, List.length_append, true_and]
  rw [Mem.load_add, Mem.load_store_disjoint _ _ (.inl (by omega)), hl, Nat.zero_add,
    Mem.load_store]

theorem Produced.emit (h : Produced e b out s) (cs : List UInt8) :
    Produced e b (out ++ cs.map s.xform.apply) (s.emit cs) := by
  constructor
  · simp only [Expansion.emit, h.len, int32_add, List.length_append, List.length_map]
    congr 1
    omega
  · simp only [Expansion.emit, Option.isSome_map]
    exact h.writing
  · intro o ho
    simp only [Expansion.emit] at ho
    obtain ⟨o', ho', rfl⟩ := Option.map_eq_some_iff.1 ho
    obtain ⟨hp, hl⟩ := h.text o' ho'
    exact o'.load_push out _ hp hl

theorem Produced.setXform (h : Produced e b out s) (x : Xform) :
    Produced e b out { s with xform := x } := ⟨h.len, h.writing, h.text⟩

theorem Produced.reference (h : Produced e b out s) (input : List UInt8) (m : Regmatch) :
    Produced e b (out ++ (groupText input m).map s.xform.apply) (s.reference input m) := by
  by_cases hm : m.rmSo = -1
  · simp only [Expansion.reference, groupText, hm, ne_eq, not_true_eq_false, if_false, if_true,
      List.map_nil, List.append_nil]
    exact h
  · simp only [Expansion.reference, groupText, hm, ne_eq, not_false_eq_true, if_false, if_true]
    exact h.emit _

theorem Produced.called (h : Produced e b out s) (ho : Obeys callback texts) (c : UInt8) :
    Produced e b out { s with string := (callback c s.string).2 } := by
  cases hs : s.string with
  | none =>
    rw [ho.unasked c]
    refine ⟨h.len, ?_, ?_⟩
    · rw [← h.writing, hs]
    · intro o he
      cases he
  | some o =>
    obtain ⟨o', hr, hp, hl⟩ := ho.kept c o
    obtain ⟨hpos, hload⟩ := h.text o hs
    rw [hr]
    refine ⟨h.len, ?_, ?_⟩
    · rw [← h.writing, hs]
      rfl
    · rintro _ ⟨⟩
      rw [hpos] at hp hl
      exact ⟨hp, hl.trans hload⟩

theorem Produced.macrosub (h : Produced e b out s) (ho : Obeys callback texts) (c : UInt8) :
    Produced e b (out ++ ((texts c).getD [c]).map s.xform.apply) (s.macrosub callback c) := by
  have hc := h.called ho c
  cases ht : texts c with
  | none =>
    have hneg := ho.unknown c ht s.string
    simp only [Expansion.macrosub, if_neg (Int.not_le.2 hneg), Option.getD_none]
    exact hc.emit [c]
  | some p =>
    have hlen := ho.length c p ht s.string
    simp only [Expansion.macrosub, hlen, Int.natCast_nonneg, if_true, Int.toNat_natCast,
      Option.getD_some]
    constructor
    · simp only [h.len, int32_add, List.length_append, List.length_map]
      congr 1
      omega
    · rw [Option.isSome_map]
      exact hc.writing
    · intro o he
      obtain ⟨o', ho', rfl⟩ := Option.map_eq_some_iff.1 he
      obtain ⟨hp, hl⟩ := hc.text o' ho'
      have hload : o'.mem.load o'.pos p.length = p := by
        cases hs : s.string with
        | none =>
          rw [hs, ho.unasked c] at ho'
          cases ho'
        | some o =>
          rw [hs] at ho'
          rw [hp, ← (h.text o hs).1]
          exact ho.text c p ht o o' ho'
      rw [hload]
      exact o'.load_push out _ hp hl

theorem escape_xform (callback : MatchPatternCallback) (texts : MacroTexts) (input : List UInt8)
    (pmatch : Fin 10 → Regmatch) (c : UInt8) (s : Expansion) :
    (s.escape callback input pmatch c).xform = (escapeText texts input pmatch s.xform c).1 := by
  simp only [Expansion.escape, escapeText]
  split
  · simp only [Expansion.reference]
    split <;> rfl
  split
  · rfl
  split
  · rfl
  split
  · rfl
  · simp only [Expansion.macrosub]
    split <;> rfl

theorem Produced.escape (h : Produced e b out s) (ho : Obeys callback texts)
    (input : List UInt8) (pmatch : Fin 10 → Regmatch) (c : UInt8) :
    Produced e b (out ++ (escapeText texts input pmatch s.xform c).2)
      (s.escape callback input pmatch c) := by
  simp only [Expansion.escape, escapeText]
  split
  · exact h.reference _ _
  split
  · rw [List.append_nil]
    exact h.setXform _
  split
  · rw [List.append_nil]
    exact h.setXform _
  split
  · rw [List.append_nil]
    exact h.setXform _
  · exact h.macrosub ho c

/-- The loop over the pattern appends the text of the pattern, with or without a buffer. -/
theorem Produced.expand (h : Produced e b out s) (ho : Obeys callback texts)
    (input : List UInt8) (pmatch : Fin 10 → Regmatch) (pattern : List UInt8) :
    Produced e b (out ++ expandText texts input pmatch s.xform pattern)
      (s.expand callback input pmatch pattern) := by
  induction pattern using hexMacros.induct generalizing out s with
  | case1 =>
    rw [expandText, List.append_nil]
    exact h
  | case2 c => exact h.emit [c]
  | case3 d pattern ih =>
    have hi := ih (h.escape ho input pmatch d)
    rw [List.append_assoc, escape_xform callback texts] at hi
    simp only [Expansion.expand, expandText, if_true]
    exact hi
  | case4 c d pattern hc ih =>
    have hi := ih (h.emit [c])
    rw [List.append_assoc] at hi
    simp only [Expansion.expand, expandText, if_neg hc]
    exact hi

end Loop

theorem length_rest (m : MatchOf input) :
    ((input.drop (m.pmatch 0).rmEo.toNat).length : Int) = input.length - (m.pmatch 0).rmEo := by
  obtain ⟨h0, h1, h2⟩ := m.bounds
  rw [List.length_drop]
  omega

theorem endbytes_le (m : MatchOf input) :
    endbytes input m.pmatch ≤ (input.drop (m.pmatch 0).rmEo.toNat).length := by
  rw [endbytes, ← length_rest]
  exact int32_le (Int.natCast_nonneg _)

theorem endbytes_eq (m : MatchOf input)
    (h : (input.drop (m.pmatch 0).rmEo.toNat).length < 2 ^ 31) :
    endbytes input m.pmatch = (input.drop (m.pmatch 0).rmEo.toNat).length := by
  rw [endbytes, ← length_rest]
  exact (int32_nat_iff _).2 h

theorem writtenText_eq (texts : MacroTexts) (m : MatchOf input) (pattern : List UInt8)
    (h : (input.drop (m.pmatch 0).rmEo.toNat).length < 2 ^ 31) :
    writtenText texts input m.pmatch pattern = substitution texts input m.pmatch pattern := by
  rw [writtenText, submatch_zero, endbytes_eq m h, Int.toNat_natCast, List.take_length]
  rfl

theorem length_substitution (texts : MacroTexts) (m : MatchOf input) (pattern : List UInt8) :
    ((substitution texts input m.pmatch pattern).length : Int) = (m.pmatch 0).rmSo +
      (expandText texts input m.pmatch .null pattern).length +
      (input.length - (m.pmatch 0).rmEo) := by
  obtain ⟨h0, h1, h2⟩ := m.bounds
  rw [← length_rest]
  simp only [substitution, submatch_zero, List.length_append, List.length_take]
  omega

theorem length_writtenText (texts : MacroTexts) (m : MatchOf input) (pattern : List UInt8)
    (hend : 0 ≤ endbytes input m.pmatch) :
    ((writtenText texts input m.pmatch pattern).length : Int) = (m.pmatch 0).rmSo +
      (expandText texts input m.pmatch .null pattern).length + endbytes input m.pmatch := by
  obtain ⟨h0, h1, h2⟩ := m.bounds
  have hle := endbytes_le m
  simp only [writtenText, submatch_zero, List.length_append, List.length_take]
  omega

theorem int32_add_right (a b : Int) : int32 (a + int32 b) = int32 (a + b) := Int.add_bmod_bmod

theorem Cursor.memcpy_eq {n : Int} (o : Cursor) (bs : List UInt8) (h : 0 ≤ n) :
    o.memcpy bs n = some (o.push (bs.take n.toNat)) := if_pos h

/-- The loop starts behind the text before the match. -/
theorem genmatchstring_started (string : Option Cursor)
    (hs : ∀ o, string = some o → o.pos = 0) (m : MatchOf input) :
    Produced (input.length - (m.pmatch 0).rmEo) string.isSome
      (input.take (m.pmatch 0).rmSo.toNat)
      ⟨.null, int32 ((m.pmatch 0).rmSo + endbytes input m.pmatch),
        string.bind (·.memcpy input (m.pmatch 0).rmSo)⟩ := by
  obtain ⟨h0, h1, h2⟩ := m.bounds
  have hcopy : string.bind (·.memcpy input (m.pmatch 0).rmSo) =
      string.map (·.push (input.take (m.pmatch 0).rmSo.toNat)) := by
    simp only [Cursor.memcpy_eq _ _ h0, Option.map_eq_bind, Function.comp_def]
  rw [hcopy]
  constructor
  · dsimp only
    rw [endbytes, int32_add_right, List.length_take]
    congr 1
    omega
  · exact Option.isSome_map
  · intro o ho
    obtain ⟨o', he, rfl⟩ := Option.map_eq_some_iff.1 ho
    exact o'.load_push [] _ (hs o' he) rfl

/-- Whatever the lengths, the counted one is that of the substitution as an `int`. -/
theorem genmatchstring_counts (string : Option Cursor)
    (hs : ∀ o, string = some o → o.pos = 0) (pattern input : List UInt8) (m : MatchOf input)
    (ho : Obeys callback texts) :
    (genmatchstring string pattern input m.pmatch callback).1 =
      int32 (substitution texts input m.pmatch pattern).length := by
  have hlen := ((genmatchstring_started string hs m).expand ho input m.pmatch pattern).len
  obtain ⟨h0, h1, h2⟩ := m.bounds
  simp only [genmatchstring]
  rw [hlen, length_substitution, List.length_append, List.length_take]
  dsimp only
  congr 1
  omega

theorem genmatchstring_writes (o : Cursor) (hz : o.pos = 0) (pattern input : List UInt8)
    (m : MatchOf input) (ho : Obeys callback texts) (hend : 0 ≤ endbytes input m.pmatch) :
    let out := writtenText texts input m.pmatch pattern
    ∃ o', (genmatchstring (some o) pattern input m.pmatch callback).2 = some o' ∧
      o'.pos = out.length ∧ o'.mem.load 0 (out.length + 1) = out ++ [NUL] := by
  have hloop := (genmatchstring_started (some o) (fun _ he => by cases he; exact hz) m).expand ho
    input m.pmatch pattern
  let rest := (input.drop (m.pmatch 0).rmEo.toNat).take (endbytes input m.pmatch).toNat
  obtain ⟨w, hw⟩ := Option.isSome_iff_exists.1 hloop.writing
  obtain ⟨hp, hl⟩ := hloop.text w hw
  obtain ⟨hp', hl'⟩ := w.load_push _ rest hp hl
  obtain ⟨_, hnul⟩ := Cursor.load_push _ _ [NUL] hp' hl'
  rw [List.length_append, List.length_singleton] at hnul
  refine ⟨(w.push rest).poke [NUL], ?_, hp', hnul⟩
  simp only [genmatchstring]
  rw [hw, Option.bind_some, Cursor.memcpy_eq _ _ hend, Option.map_some]

/-- Both passes of `genmatchstring` give the length of the substitution, and the second one writes
it with its NUL, exactly if this length is an `int`. -/
theorem genmatchstring_spec_iff (pattern input : List UInt8) (m : MatchOf input)
    (callback : MatchPatternCallback) (texts : MacroTexts) (ho : Obeys callback texts) (buf : Mem) :
    let out := substitution texts input m.pmatch pattern
    let written := genmatchstring (some (.fresh buf)) pattern input m.pmatch callback
    ((genmatchstring none pattern input m.pmatch callback).1 = out.length ∧
      written.1 = out.length ∧ ∃ o, written.2 = some o ∧ o.pos = out.length ∧
        o.mem.load 0 (out.length + 1) = out ++ [NUL]) ↔ out.length < 2 ^ 31 := by
  have hcount := genmatchstring_counts none (fun _ he => by cases he) pattern input m ho
  have hcount' := genmatchstring_counts (some (.fresh buf)) (fun _ he => by cases he; rfl)
    pattern input m ho
  intro out written
  constructor
  · rintro ⟨hlen, -⟩
    exact (int32_nat_iff _).1 (hcount.symm.trans hlen)
  · intro hfits
    have hint := (int32_nat_iff _).2 hfits
    have hrest : (input.drop (m.pmatch 0).rmEo.toNat).length < 2 ^ 31 := by
      simp only [out, substitution, submatch_zero, List.length_append] at hfits
      omega
    have hend : 0 ≤ endbytes input m.pmatch := by
      rw [endbytes_eq m hrest]
      exact Int.natCast_nonneg _
    have hwritten := genmatchstring_writes (.fresh buf) rfl pattern input m ho hend
    rw [writtenText_eq texts m pattern hrest] at hwritten
    exact ⟨hcount.trans hint, hcount'.trans hint, hwritten⟩

/-- The macro `\i` alone, with the text `p`. -/
def hostMacro (p : List UInt8) : MatchPatternCallback := fun macroChar output =>
  if macroChar = 105 then (p.length, output.map (·.poke (p ++ [NUL]))) else (-1, output)

def hostText (p : List UInt8) : MacroTexts := fun c => if c = 105 then some p else none

theorem hostMacro_obeys (p : List UInt8) : Obeys (hostMacro p) (hostText p) where
  unasked := by
    intro c
    simp only [hostMacro]
    split <;> rfl
  kept := by
    intro c o
    simp only [hostMacro]
    split
    · exact ⟨_, rfl, rfl, Mem.load_store_disjoint _ _ (.inl (by rw [Nat.zero_add]))⟩
    · exact ⟨o, rfl, rfl, rfl⟩
  length := by
    intro c q hq s
    simp only [hostText] at hq
    split at hq
    · rename_i hc
      cases hq
      simp only [hostMacro, if_pos hc]
    · cases hq
  text := by
    intro c q hq o o' he
    simp only [hostText] at hq
    split at hq
    · rename_i hc
      cases hq
      simp only [hostMacro, if_pos hc, Option.map_some, Option.some.injEq] at he
      rw [← he]
      simp only [Cursor.poke]
      rw [Mem.load_store_take _ _ _ (by rw [List.length_append]; exact Nat.le_add_right _ _),
        List.take_left]
    · cases hq
  unknown := by
    intro c hc s
    have hne : c ≠ 105 := by
      rintro rfl
      cases hc
    simp only [hostMacro, if_neg hne]
    decide

def letterOffsets (n : Fin 10) : Regmatch := if n.val ≤ 1 then ⟨1, 2⟩ else ⟨-1, -1⟩

theorem letterOffsets_groups (n : Fin 10) : (letterOffsets n).rmSo = -1 ∨
    (0 ≤ (letterOffsets n).rmSo ∧ (letterOffsets n).rmSo ≤ (letterOffsets n).rmEo ∧
      (letterOffsets n).rmEo ≤ ([47, 97, 47, 98] : List UInt8).length) := by
  revert n
  decide

theorem letterOffsets_whole : (letterOffsets 0).rmSo ≠ -1 := by decide

/-- A match of the letter in `/a/b`, with one group. -/
def letterMatch : MatchOf [47, 97, 47, 98] :=
  ⟨letterOffsets, letterOffsets_groups, letterOffsets_whole⟩

/-- The pattern `\U\1\i\E\q\2\`, with `\i` for `h1`. -/
theorem letterMatch_substituted :
    let pattern := [92, 85, 92, 49, 92, 105, 92, 69, 92, 113, 92, 50, 92]
    let callback := hostMacro [104, 49]
    let written := genmatchstring (some (.fresh .zero)) pattern [47, 97, 47, 98]
      letterMatch.pmatch callback
    (genmatchstring none pattern [47, 97, 47, 98] letterMatch.pmatch callback).1 = 8 ∧
      written.1 = 8 ∧ ∃ o, written.2 = some o ∧ o.pos = 8 ∧
        o.mem.load 0 9 = [47, 65, 72, 49, 113, 92, 47, 98, 0] := by
  intro pattern callback written
  have hout : substitution (hostText [104, 49]) [47, 97, 47, 98] letterMatch.pmatch pattern =
      [47, 65, 72, 49, 113, 92, 47, 98] := by decide
  have h := (genmatchstring_spec_iff pattern _ letterMatch callback _ (hostMacro_obeys [104, 49])
    .zero).2 (by rw [hout]; decide)
  rw [hout] at h
  exact h

/-- `n` times the macro `\0`. -/
def backrefs : Nat → List UInt8
  | 0 => []
  | n + 1 => 92 :: 48 :: backrefs n

theorem map_null (cs : List UInt8) : cs.map Xform.null.apply = cs := List.map_id _

theorem groupText_whole (input : List UInt8) :
    groupText input (submatch (wholeMatch input).pmatch 0) = input := by
  have hne : ¬ (0 : Int) = -1 := by decide
  have hm : submatch (wholeMatch input).pmatch 0 = ⟨0, input.length⟩ := rfl
  simp only [hm, groupText, if_neg hne, Int.sub_zero, Int.toNat_zero, Int.toNat_natCast,
    List.drop_zero, List.take_length]

theorem length_backrefs (texts : MacroTexts) (input : List UInt8) (n : Nat) :
    (substitution texts input (wholeMatch input).pmatch (backrefs n)).length =
      n * input.length := by
  have hexpand : (expandText texts input (wholeMatch input).pmatch .null (backrefs n)).length =
      n * input.length := by
    induction n with
    | zero => rw [backrefs, expandText, List.length_nil, Nat.zero_mul]
    | succ n ih =>
      have hescape : escapeText texts input (wholeMatch input).pmatch .null 48 = (.null, input) := by
        have hdigit : (48 : UInt8) ≤ 48 ∧ (48 : UInt8) ≤ 57 := by decide
        have hzero : (48 : UInt8).toNat - 48 = 0 := rfl
        rw [escapeText, if_pos hdigit, hzero, groupText_whole, map_null]
      have hbackslash : (92 : UInt8) = backslash := rfl
      rw [backrefs, expandText, if_pos hbackslash, hescape, List.length_append, ih, Nat.succ_mul,
        Nat.add_comm]
  have hlen := length_substitution texts (wholeMatch input) (backrefs n)
  have hwhole : (wholeMatch input).pmatch 0 = ⟨0, input.length⟩ := rfl
  rw [hexpand, hwhole] at hlen
  dsimp only at hlen
  omega

/-- The pattern with 4096 times `\0`, for a string of 2^20 characters: the length is counted
as 0. -/
theorem longText_wraps :
    let input := List.replicate (2 ^ 20) (97 : UInt8)
    let m := wholeMatch input
    let out := substitution (hostText []) input m.pmatch (backrefs 4096)
    let written := genmatchstring (some (.fresh .zero)) (backrefs 4096) input m.pmatch (hostMacro [])
    let len := (genmatchstring none (backrefs 4096) input m.pmatch (hostMacro [])).1
    len = 0 ∧ out.length = 2 ^ 32 ∧ ¬ (len = out.length ∧ written.1 = out.length ∧
      ∃ o, written.2 = some o ∧ o.pos = out.length ∧
        o.mem.load 0 (out.length + 1) = out ++ [NUL]) := by
  intro input m out written len
  have hout : out.length = 2 ^ 32 := by
    refine (length_backrefs _ input 4096).trans ?_
    rw [List.length_replicate]
    decide
  have hlen : len = 0 := by
    refine (genmatchstring_counts none (fun _ he => by cases he) _ input m
      (hostMacro_obeys [])).trans ?_
    rw [hout]
    decide
  refine ⟨hlen, hout, ?_⟩
  rintro ⟨hne, -⟩
  rw [hlen, hout] at hne
  exact absurd hne (by decide)

end WooTftpd
