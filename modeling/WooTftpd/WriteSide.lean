import WooTftpd.ReadSide

namespace WooTftpd
open Lib
set_option autoImplicit true

variable {s : Subs} {f : OutFile} {fl : Faults}

/-- The text that a netascii stream stands for: CR LF is LF and CR NUL is CR, read from left
to right; everything else stands for itself. -/
def netDecode : List UInt8 → List UInt8
  | [] => []
  | [c] => [c]
  | c :: d :: cs =>
    if c = CR ∧ d = LF then LF :: netDecode cs
    else if c = CR ∧ d = NUL then CR :: netDecode cs
    else c :: netDecode (d :: cs)

def decode (convert : Bool) (bs : List UInt8) : List UInt8 :=
  if convert then netDecode bs else bs

theorem netDecode_ne_nil (h : xs ≠ []) : netDecode xs ≠ [] := by
  fun_cases netDecode xs with
  | case1 => exact (h rfl).elim
  | case2 => exact List.cons_ne_nil _ _
  | case3 => exact List.cons_ne_nil _ _
  | case4 => exact List.cons_ne_nil _ _
  | case5 => exact List.cons_ne_nil _ _

/-- What one more byte of the stream does to the text, given the byte before it. -/
def decodeStep (prevchar : Option UInt8) (ys : List UInt8) (c : UInt8) : List UInt8 :=
  if prevchar = some CR ∧ c = NUL then ys
  else if prevchar = some CR ∧ c = LF then ys.dropLast ++ [LF]
  else ys ++ [c]

theorem decodeStep_cons (h : ys ≠ []) (prevchar : Option UInt8) (y c : UInt8) :
    decodeStep prevchar (y :: ys) c = y :: decodeStep prevchar ys c := by
  simp only [decodeStep, List.dropLast_cons_of_ne_nil h, List.cons_append]
  split
  · rfl
  split <;> rfl

theorem decodeStep_keep (h : prevchar ≠ some CR) (ys : List UInt8) (c : UInt8) :
    decodeStep prevchar ys c = ys ++ [c] := by
  simp only [decodeStep, h, false_and, if_false]

theorem netDecode_concat (xs : List UInt8) (c : UInt8) :
    netDecode (xs ++ [c]) = decodeStep xs.getLast? (netDecode xs) c := by
  fun_induction netDecode xs with
  | case1 => rfl
  | case2 d =>
    simp only [List.singleton_append, netDecode, decodeStep, List.getLast?_singleton,
      Option.some.injEq]
    by_cases hn : d = CR ∧ c = NUL
    · have hl : ¬ (d = CR ∧ c = LF) := by
        rw [hn.2]
        exact fun h => absurd h.2 (by decide)
      rw [if_neg hl, if_pos hn, if_pos hn, hn.1]
    · simp only [if_neg hn]
      split <;> rfl
  | case3 d e cs hc ih =>
    cases cs with
    | nil =>
      have hlast : [d, e].getLast? ≠ some CR := by
        have hne : some LF ≠ some CR := by decide
        rw [hc.2]
        exact hne
      rw [decodeStep_keep hlast]
      simp only [List.cons_append, netDecode, if_pos hc, List.nil_append]
    | cons k cs =>
      have hlast : (d :: e :: k :: cs).getLast? = (k :: cs).getLast? := rfl
      rw [hlast, decodeStep_cons (netDecode_ne_nil (List.cons_ne_nil _ _)), ← ih]
      simp only [List.cons_append, netDecode, if_pos hc]
  | case4 d e cs hc hc' ih =>
    cases cs with
    | nil =>
      have hlast : [d, e].getLast? ≠ some CR := by
        have hne : some NUL ≠ some CR := by decide
        rw [hc'.2]
        exact hne
      rw [decodeStep_keep hlast]
      simp only [List.cons_append, netDecode, if_neg hc, if_pos hc', List.nil_append]
    | cons k cs =>
      have hlast : (d :: e :: k :: cs).getLast? = (k :: cs).getLast? := rfl
      rw [hlast, decodeStep_cons (netDecode_ne_nil (List.cons_ne_nil _ _)), ← ih]
      simp only [List.cons_append, netDecode, if_neg hc, if_pos hc']
  | case5 d e cs hc hc' ih =>
    have hlast : (d :: e :: cs).getLast? = (e :: cs).getLast? := rfl
    rw [hlast, decodeStep_cons (netDecode_ne_nil (List.cons_ne_nil _ _)), ← ih]
    simp only [List.cons_append, netDecode, if_neg hc, if_neg hc']

def Faults.CleanBelow (fl : Faults) (n : Nat) : Prop := ∀ k < n, fl k = none

theorem Faults.CleanBelow.mono (h : fl.CleanBelow n) (hm : m ≤ n) : fl.CleanBelow m :=
  fun k hk => h k (Nat.lt_of_lt_of_le hk hm)

namespace OutFile

/-- Nothing of the file is behind the bytes of the buffer. -/
structure AtEnd (f : OutFile) : Prop where
  low : f.pos ≤ f.stored.length
  high : f.stored.length ≤ f.pos + f.unwritten.length

theorem truncated_atEnd (bufsiz : Nat) : (truncated bufsiz).AtEnd :=
  ⟨Nat.le_refl 0, Nat.le_refl 0⟩

theorem AtEnd.content (h : f.AtEnd) : f.content = f.stored.take f.pos ++ f.unwritten := by
  simp only [OutFile.content, put, List.drop_eq_nil_of_le h.high, List.append_nil]

theorem content_unbuffered (h : f.unwritten = []) : f.content = f.stored := by
  simp only [OutFile.content, put, h, List.append_nil, List.length_nil, Nat.add_zero,
    List.take_append_drop]

theorem AtEnd.pos_unbuffered (h : f.AtEnd) (hu : f.unwritten = []) :
    f.pos = f.stored.length := by
  have hhigh := h.high
  rw [hu, List.length_nil] at hhigh
  exact Nat.le_antisymm h.low hhigh

theorem put_end (h : f.pos = f.stored.length) (bs : List UInt8) :
    f.put bs = { f with stored := f.stored ++ bs, pos := (f.stored ++ bs).length } := by
  simp only [put, h, List.take_length, List.drop_eq_nil_of_le (Nat.le_add_right _ _),
    List.append_nil, List.length_append]

theorem write_ops (fl : Faults) (f : OutFile) (bs : List UInt8) :
    (f.write fl bs).1.ops = f.ops + 1 := by
  simp only [write]
  split <;> rfl

theorem write_clean (hc : fl.CleanBelow (f.write fl bs).1.ops) :
    f.write fl bs = ((f.put bs).tick, (bs.length : Int)) := by
  rw [write_ops] at hc
  have hnone : fl f.ops = none := hc f.ops (Nat.lt_succ_self _)
  simp only [write, hnone]

theorem fflush_ops (fl : Faults) (f : OutFile) : f.ops ≤ (f.fflush fl).1.ops := by
  simp only [fflush]
  split
  · exact Nat.le_refl _
  · rw [write_ops]
    exact Nat.le_succ _

theorem write_unwritten (fl : Faults) (f : OutFile) (bs : List UInt8) :
    (f.write fl bs).1.unwritten = f.unwritten := by
  simp only [write]
  split <;> rfl

theorem fflush_unwritten (fl : Faults) (f : OutFile) : (f.fflush fl).1.unwritten = [] := by
  simp only [fflush]
  split
  · assumption
  · exact write_unwritten _ _ _

/-- After its buffer was written, the file is the text of the stream. -/
theorem AtEnd.fflush (h : f.AtEnd) (hc : fl.CleanBelow (f.fflush fl).1.ops) :
    (f.fflush fl).2 = true ∧ (f.fflush fl).1.stored = f.content ∧
      (f.fflush fl).1.pos = f.content.length := by
  by_cases hu : f.unwritten = []
  · simp only [OutFile.fflush, if_pos hu, content_unbuffered hu, h.pos_unbuffered hu, and_self]
  · simp only [OutFile.fflush, if_neg hu] at hc ⊢
    have hlen : (f.stored.take f.pos).length = f.pos := List.length_take_of_le h.low
    rw [write_clean hc, h.content]
    simp only [put, tick, List.drop_eq_nil_of_le h.high, List.append_nil, List.length_append, hlen,
      decide_true, and_self]

theorem fflush_full (fl : Faults) (hu : f.unwritten = []) : f.fflush fl = (f, true) := if_pos hu

theorem putc_unbuffered (fl : Faults) (hu : f.unwritten = []) (c : UInt8) :
    f.putc fl c = { f with unwritten := [c] } := by
  simp only [putc, fflush_full fl hu, if_true, hu, List.nil_append, ite_self]

theorem putc_ops (fl : Faults) (f : OutFile) (c : UInt8) : f.ops ≤ (f.putc fl c).ops := by
  simp only [putc]
  split
  · exact Nat.le_refl _
  split
  · exact fflush_ops fl f
  · exact fflush_ops fl f

theorem AtEnd.putc (h : f.AtEnd) (hc : fl.CleanBelow (f.putc fl c).ops) :
    (f.putc fl c).AtEnd ∧ (f.putc fl c).content = f.content ++ [c] := by
  by_cases hroom : f.unwritten.length < f.bufsiz
  · have hend : (f.putc fl c).AtEnd := by
      simp only [OutFile.putc, if_pos hroom]
      refine ⟨h.low, Nat.le_trans h.high ?_⟩
      simp only [List.length_append, List.length_singleton]
      omega
    refine ⟨hend, ?_⟩
    rw [hend.content, h.content]
    simp only [OutFile.putc, if_pos hroom, List.append_assoc]
  · have hops : (f.putc fl c).ops = (f.fflush fl).1.ops := by
      simp only [OutFile.putc, if_neg hroom]
      split <;> rfl
    rw [hops] at hc
    obtain ⟨hok, hstored, hpos⟩ := h.fflush hc
    have hend : (f.putc fl c).AtEnd := by
      simp only [OutFile.putc, if_neg hroom, hok, if_true]
      constructor
      · exact Nat.le_of_eq (hpos.trans (congrArg List.length hstored.symm))
      · rw [hstored, hpos]
        exact Nat.le_add_right _ _
    refine ⟨hend, ?_⟩
    rw [hend.content]
    simp only [OutFile.putc, if_neg hroom, hok, if_true, hstored, hpos, List.take_length]

theorem lseekBack_ops (fl : Faults) (f : OutFile) : (f.lseekBack fl).ops = f.ops + 1 := by
  simp only [lseekBack]
  split <;> rfl

theorem fflush_fseekBack_ops (fl : Faults) (f : OutFile) :
    (f.fflush fl).1.ops ≤ (f.fseekBack fl).ops := by
  simp only [fseekBack]
  split
  · rw [lseekBack_ops]
    exact Nat.le_succ _
  · exact Nat.le_refl _

/-- The next byte comes in the place of the last one. -/
theorem AtEnd.fseekBack (h : f.AtEnd) (hc : fl.CleanBelow (f.fseekBack fl).ops) :
    (f.fseekBack fl).stored = f.content ∧ (f.fseekBack fl).pos = f.content.length - 1 ∧
      (f.fseekBack fl).unwritten = [] := by
  obtain ⟨hok, hstored, hpos⟩ := h.fflush (hc.mono (fflush_fseekBack_ops fl f))
  simp only [OutFile.fseekBack, hok, if_true] at hc ⊢
  rw [lseekBack_ops] at hc
  have hnone : fl (f.fflush fl).1.ops = none := hc _ (Nat.lt_succ_self _)
  simp only [lseekBack, hnone, tick, hstored, hpos, fflush_unwritten, and_self]

/-- `fseek` and `putc` replace the last byte. -/
theorem AtEnd.smash (h : f.AtEnd) (hc : fl.CleanBelow ((f.fseekBack fl).putc fl c).ops)
    (hne : f.content ≠ []) :
    ((f.fseekBack fl).putc fl c).AtEnd ∧
      ((f.fseekBack fl).putc fl c).content = f.content.dropLast ++ [c] := by
  obtain ⟨hstored, hpos, hu⟩ := h.fseekBack (hc.mono (putc_ops _ _ _))
  have hlen := List.length_pos_iff.2 hne
  rw [putc_unbuffered fl hu c]
  have hend : AtEnd { f.fseekBack fl with unwritten := [c] } := by
    constructor
    · rw [hstored, hpos]
      exact Nat.sub_le _ _
    · rw [hstored, hpos, List.length_singleton]
      omega
  refine ⟨hend, ?_⟩
  rw [hend.content, hstored, hpos, List.dropLast_eq_take]

end OutFile

/-- The stream after the bytes `bs`. Without a conversion they do not go through its buffer. -/
structure Written (convert : Bool) (bs : List UInt8) (prevchar : Option UInt8)
    (f : OutFile) : Prop where
  content : f.content = decode convert bs
  atEnd : f.AtEnd
  last : convert = true → prevchar = bs.getLast?
  unbuffered : convert = false → f.unwritten = []

theorem Written.truncated (convert : Bool) (bufsiz : Nat) :
    Written convert [] none (.truncated bufsiz) := by
  refine ⟨?_, OutFile.truncated_atEnd bufsiz, fun _ => rfl, fun _ => rfl⟩
  cases convert <;> rfl

/-- What `fclose` leaves is the text of the stream. -/
theorem Written.fclose (h : Written convert bs prevchar f)
    (hc : fl.CleanBelow (f.fclose fl).1.ops) :
    (f.fclose fl).1.stored = decode convert bs := by
  rw [← h.content]
  exact (h.atEnd.fflush hc).2.1

theorem putbuf_ops (fl : Faults) (cs : List UInt8) (prevchar : Option UInt8) (f : OutFile) :
    f.ops ≤ (putbuf fl cs prevchar f).2.ops := by
  induction cs generalizing prevchar f with
  | nil => exact Nat.le_refl _
  | cons c cs ih =>
    simp only [putbuf]
    split
    · exact ih _ _
    split
    · have hseek := Nat.le_trans (f.fflush_ops fl) (f.fflush_fseekBack_ops fl)
      exact Nat.le_trans (Nat.le_trans hseek (OutFile.putc_ops _ _ _)) (ih _ _)
    · exact Nat.le_trans (OutFile.putc_ops _ _ _) (ih _ _)

theorem Written.putc (h : Written true bs prevchar f) (hc : fl.CleanBelow (f.putc fl c).ops)
    (hk : netDecode (bs ++ [c]) = netDecode bs ++ [c]) :
    Written true (bs ++ [c]) (some c) (f.putc fl c) := by
  obtain ⟨hend, hcont⟩ := h.atEnd.putc hc
  refine ⟨?_, hend, ?_, Bool.noConfusion⟩
  · rw [hcont, h.content]
    exact hk.symm
  · intro _
    rw [List.getLast?_concat]

/-- `fseek` and `putc` put the LF in the place of the CR. -/
theorem Written.smash (h : Written true bs prevchar f)
    (hc : fl.CleanBelow ((f.fseekBack fl).putc fl c).ops)
    (hk : netDecode (bs ++ [c]) = (netDecode bs).dropLast ++ [c]) (hne : bs ≠ []) :
    Written true (bs ++ [c]) (some c) ((f.fseekBack fl).putc fl c) := by
  have hcont : f.content ≠ [] := by
    rw [h.content]
    exact netDecode_ne_nil hne
  obtain ⟨hend, hsmash⟩ := h.atEnd.smash hc hcont
  refine ⟨?_, hend, ?_, Bool.noConfusion⟩
  · rw [hsmash, h.content]
    exact hk.symm
  · intro _
    rw [List.getLast?_concat]

theorem Written.putbuf (h : Written true bs prevchar f)
    (hc : fl.CleanBelow (putbuf fl cs prevchar f).2.ops) :
    Written true (bs ++ cs) (putbuf fl cs prevchar f).1 (putbuf fl cs prevchar f).2 := by
  induction cs generalizing bs prevchar f with
  | nil =>
    rw [List.append_nil]
    exact h
  | cons c cs ih =>
    have hp := h.last rfl
    have hk := netDecode_concat bs c
    rw [← hp] at hk
    rw [List.append_cons]
    by_cases h₁ : prevchar = some CR ∧ c = NUL
    · simp only [WooTftpd.putbuf, if_pos h₁] at hc ⊢
      rw [decodeStep, if_pos h₁] at hk
      refine ih ⟨?_, h.atEnd, ?_, Bool.noConfusion⟩ hc
      · rw [h.content]
        exact hk.symm
      · intro _
        rw [List.getLast?_concat]
    · rw [decodeStep, if_neg h₁] at hk
      by_cases h₂ : prevchar = some CR ∧ c = LF
      · simp only [WooTftpd.putbuf, if_neg h₁, if_pos h₂] at hc ⊢
        rw [if_pos h₂, ← h₂.2] at hk
        have hne : bs ≠ [] := by
          intro he
          rw [h₂.1, he] at hp
          cases hp
        exact ih (h.smash (hc.mono (putbuf_ops _ _ _ _)) hk hne) hc
      · simp only [WooTftpd.putbuf, if_neg h₁, if_neg h₂] at hc ⊢
        rw [if_neg h₂] at hk
        exact ih (h.putc (hc.mono (putbuf_ops _ _ _ _)) hk) hc

theorem Written.write (h : Written false bs prevchar f)
    (hc : fl.CleanBelow (f.write fl cs).1.ops) :
    Written false (bs ++ cs) prevchar' (f.write fl cs).1 := by
  have hu := h.unbuffered rfl
  have hcont := h.content
  rw [OutFile.content_unbuffered hu] at hcont
  rw [OutFile.write_clean hc, OutFile.put_end (h.atEnd.pos_unbuffered hu)]
  refine ⟨?_, ⟨Nat.le_refl _, Nat.le_add_right _ _⟩, Bool.noConfusion, fun _ => hu⟩
  refine (OutFile.content_unbuffered ?_).trans ?_
  · exact hu
  · exact congrArg (· ++ cs) hcont

/-- The buffers and the file after the stream `bs` was taken over: the current buffer waits for
a packet, and the other one is either free or holds a last part that is still to be written. -/
structure WriteInv (convert : Bool) (bs : List UInt8) (s : Subs) (f : OutFile) : Prop where
  alloc : (s.bfs s.current).counter = bfAlloc
  behind :
    (s.nextone = s.current ∧ (s.bfs (!s.current)).counter = bfFree ∧
      Written convert bs s.prevchar f) ∨
    (s.nextone = !s.current ∧ ∃ old p, bs = old ++ p ∧ (s.bfs (!s.current)).Holds p ∧
      Written convert old s.prevchar f)

theorem WriteInv.init (convert : Bool) (s : Subs) (bufsiz : Nat) :
    WriteInv convert [] (wInit s) (.truncated bufsiz) where
  alloc := rfl
  behind := .inl ⟨rfl, rfl, .truncated convert bufsiz⟩

theorem WriteInv.setBuf (h : WriteInv convert bs s f) (m : Mem) :
    WriteInv convert bs (s.setBuf s.current m) f where
  alloc := by
    simpa only [Subs.setBuf, Subs.setBf_current, Subs.setBf_same] using h.alloc
  behind := by
    simp only [Subs.setBuf, Subs.setBf_current, Subs.setBf_nextone, Subs.setBf_not]
    exact h.behind

theorem writeBehind_current (fl : Faults) (convert : Bool) (s : Subs) (f : OutFile) :
    (writeBehind fl convert s f).1.current = s.current := by
  simp only [writeBehind]
  split
  · rfl
  split
  · rfl
  split <;> rfl

theorem writeBehind_ops (fl : Faults) (convert : Bool) (s : Subs) (f : OutFile) :
    f.ops ≤ (writeBehind fl convert s f).2.1.ops := by
  simp only [writeBehind]
  split
  · exact Nat.le_refl _
  split
  · exact Nat.le_refl _
  split
  · exact putbuf_ops _ _ _ _
  · rw [OutFile.write_ops]
    exact Nat.le_succ _

theorem writeit_ops (fl : Faults) (convert : Bool) (ct : Int) (s : Subs) (f : OutFile) :
    f.ops ≤ (writeit fl convert ct s f).2.1.ops := by
  simp only [writeit]
  split
  · exact writeBehind_ops _ _ _ _
  · exact Nat.le_refl _

/-- The result of `writeit` says nothing about the flush. -/
theorem writeit_result (fl : Faults) (convert : Bool) (ct : Int) (s : Subs) (f : OutFile) :
    (writeit fl convert ct s f).2.2 = ct := rfl

theorem writeBehind_holds (hb : (s.bfs s.nextone).Holds p) (hw : Written convert bs s.prevchar f)
    (hc : fl.CleanBelow (writeBehind fl convert s f).2.1.ops) :
    let r := writeBehind fl convert s f
    Written convert (bs ++ p) r.1.prevchar r.2.1 ∧ r.1.nextone = !s.nextone ∧
      r.1.current = s.current ∧ (r.1.bfs s.nextone).counter = bfFree ∧
      r.1.bfs (!s.nextone) = s.bfs (!s.nextone) := by
  have hcount := hb.1
  have hload := hb.2
  have h₁ : ¬ (s.bfs s.nextone).counter < -1 := by omega
  simp only [writeBehind, if_neg h₁] at hc ⊢
  cases p with
  | nil =>
    have h₂ : (s.bfs s.nextone).counter ≤ 0 := Int.le_of_eq hcount
    simp only [if_pos h₂, List.append_nil, Subs.setCounter, Subs.setBf_same, Subs.setBf_not,
      Subs.setBf_prevchar, Subs.setBf_current, and_true]
    exact hw
  | cons c cs =>
    have h₂ : ¬ (s.bfs s.nextone).counter ≤ 0 := by
      rw [hcount, List.length_cons]
      omega
    have h₃ : (s.bfs s.nextone).counter.toNat = (c :: cs).length := by omega
    simp only [if_neg h₂, h₃, hload] at hc ⊢
    cases convert with
    | true =>
      simp only [if_true, Subs.setCounter, Subs.setBf_prevchar, Subs.setBf_current,
        Subs.setBf_same, Subs.setBf_not, and_true] at hc ⊢
      exact hw.putbuf hc
    | false =>
      simp only [Bool.false_eq_true, if_false, Subs.setCounter, Subs.setBf_prevchar,
        Subs.setBf_current, Subs.setBf_same, Subs.setBf_not, and_true] at hc ⊢
      exact hw.write hc

theorem WriteInv.writeBehind (h : WriteInv convert bs s f)
    (hc : fl.CleanBelow (writeBehind fl convert s f).2.1.ops) :
    let r := writeBehind fl convert s f
    WriteInv convert bs r.1 r.2.1 ∧ r.1.nextone = r.1.current ∧ r.1.current = s.current := by
  rcases h.behind with ⟨hn, hfree, hw⟩ | ⟨hn, old, p, rfl, hh, hw⟩
  · have hlt : (s.bfs s.nextone).counter < -1 := by
      rw [hn, h.alloc]
      decide
    simp only [WooTftpd.writeBehind, if_pos hlt]
    exact ⟨h, hn, trivial⟩
  · obtain ⟨hw', hn', hcur, hfree, ho⟩ := writeBehind_holds (hn ▸ hh) hw hc
    rw [hn] at hn' hfree ho
    rw [Bool.not_not] at hn' ho
    refine ⟨⟨?_, .inl ⟨?_, ?_, hw'⟩⟩, ?_, hcur⟩
    · rw [hcur, ho]
      exact h.alloc
    · rw [hn', hcur]
    · rw [hcur]
      exact hfree
    · rw [hn', hcur]

/-- `writeit` writes what is still held back and holds the current buffer back in its place. -/
theorem WriteInv.turn (h : WriteInv convert bs s f)
    (hc : fl.CleanBelow (writeit fl convert ct s f).2.1.ops) :
    let r := writeit fl convert ct s f
    (r.1.bfs r.1.current).counter = bfAlloc ∧ r.1.nextone = !r.1.current ∧
      r.1.bfs (!r.1.current) = { s.bfs s.current with counter := ct } ∧
      Written convert bs r.1.prevchar r.2.1 := by
  let s' : Subs := { s.setCounter s.current ct with current := !s.current }
  have hheld : s'.bfs (!s'.current) = { s.bfs s.current with counter := ct } := by
    simp only [s', Bool.not_not, Subs.setCounter, Subs.setBf_same]
  have hother : s'.bfs s'.current = s.bfs (!s.current) := by
    simp only [s', Subs.setCounter, Subs.setBf_not]
  rcases h.behind with ⟨hn, hfree, hw⟩ | ⟨hn, old, q, rfl, hq, hw⟩
  · have hfree' : ¬ (s'.bfs s'.current).counter ≠ bfFree := by
      rw [hother, not_not]
      exact hfree
    simp only [writeit]
    rw [if_neg hfree']
    refine ⟨by simp only [Subs.setCounter, Subs.setBf_current, Subs.setBf_same], ?_, ?_, hw⟩
    · simp only [Subs.setCounter, Subs.setBf_current, Subs.setBf_nextone, hn, Bool.not_not]
    · simp only [Subs.setCounter, Subs.setBf_current, Subs.setBf_not]
      exact hheld
  · have hfull : (s'.bfs s'.current).counter ≠ bfFree := by
      rw [hother]
      exact hq.not_free
    have hn₁ : s'.nextone = s'.current := hn
    have hq' : (s'.bfs s'.nextone).Holds q := by
      rw [hn₁, hother]
      exact hq
    simp only [writeit] at hc ⊢
    rw [if_pos hfull] at hc ⊢
    obtain ⟨hw', hn', hcur, _, ho⟩ := writeBehind_holds hq' (f := f) hw hc
    rw [hn₁] at hn' ho
    rw [← hcur] at hn'
    refine ⟨by simp only [Subs.setCounter, Subs.setBf_current, Subs.setBf_same], hn', ?_, hw'⟩
    rw [Subs.setCounter, Subs.setBf_current, Subs.setBf_not]
    exact (congrArg (fun i => (WooTftpd.writeBehind fl convert s' f).1.bfs (!i)) hcur).trans
      (ho.trans hheld)

theorem WriteInv.writeit (h : WriteInv convert bs s f)
    (hp : (s.bfs s.current).buf.load thData p.length = p)
    (hc : fl.CleanBelow (writeit fl convert p.length s f).2.1.ops) :
    let r := writeit fl convert p.length s f
    WriteInv convert (bs ++ p) r.1 r.2.1 := by
  obtain ⟨ha, hn, hb, hw⟩ := h.turn hc
  refine ⟨ha, .inr ⟨hn, bs, p, rfl, ?_, hw⟩⟩
  rw [hb]
  exact ⟨rfl, hp⟩

theorem WriteInv.flush (h : WriteInv convert bs s f)
    (hc : fl.CleanBelow (WooTftpd.writeBehind fl convert s f).2.1.ops) :
    let r := WooTftpd.writeBehind fl convert s f
    Written convert bs r.1.prevchar r.2.1 := by
  obtain ⟨hw, hn, _⟩ := h.writeBehind hc
  rcases hw.behind with ⟨_, _, hwr⟩ | ⟨hn', _⟩
  · exact hwr
  · rw [hn] at hn'
    exact absurd hn' (by cases (WooTftpd.writeBehind fl convert s f).1.current <;> decide)

theorem writeBehind_negative (fl : Faults) (convert : Bool) (f : OutFile)
    (h : (s.bfs s.nextone).counter < 0) : (writeBehind fl convert s f).1.prevchar = s.prevchar ∧
      (writeBehind fl convert s f).2.1 = f := by
  simp only [writeBehind]
  split
  · exact ⟨rfl, rfl⟩
  · rw [if_pos (Int.le_of_lt h)]
    exact ⟨rfl, rfl⟩

/-- A datagram too short for a header leaves a negative count, for which nothing is written. -/
theorem WriteInv.flush_short (h : WriteInv convert bs s f) (hct : ct < 0)
    (hc : let r := WooTftpd.writeit fl convert ct s f
      fl.CleanBelow (WooTftpd.writeBehind fl convert r.1 r.2.1).2.1.ops) :
    let r := WooTftpd.writeit fl convert ct s f
    let q := WooTftpd.writeBehind fl convert r.1 r.2.1
    Written convert bs q.1.prevchar q.2.1 := by
  obtain ⟨_, hn, hb, hw⟩ := h.turn (hc.mono (writeBehind_ops _ _ _ _))
  have hneg : ((WooTftpd.writeit fl convert ct s f).1.bfs
      (WooTftpd.writeit fl convert ct s f).1.nextone).counter < 0 := by
    rw [hn, hb]
    exact hct
  obtain ⟨hprev, hfile⟩ := writeBehind_negative fl convert
    (WooTftpd.writeit fl convert ct s f).2.1 hneg
  intro r q
  simp only [q, r, hprev, hfile]
  exact hw

end WooTftpd
