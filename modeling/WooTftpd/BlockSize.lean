import WooTftpd.OptionList

namespace WooTftpd
open Lib
set_option autoImplicit true

variable {cfg : OptionConfig} {opt val : CString} {n n' : Negotiated} {o o' : Oack}

theorem le_halve (fuel sz sz1 : Nat) : sz1 ≤ halve fuel sz sz1 := by
  induction fuel generalizing sz sz1 with
  | zero => exact Nat.le_refl _
  | succ fuel ih =>
    rw [halve]
    split
    · exact Nat.le_refl _
    · exact Nat.le_trans (Nat.le_mul_of_pos_right _ Nat.two_pos) (ih (sz / 2) (sz1 * 2))

theorem halve_le (fuel sz1 : Nat) (h : 0 < sz) : halve fuel sz sz1 ≤ sz1 * sz := by
  induction fuel generalizing sz sz1 with
  | zero => exact Nat.le_mul_of_pos_right _ h
  | succ fuel ih =>
    rw [halve]
    split
    · exact Nat.le_mul_of_pos_right _ h
    · rename_i hz
      calc
        halve fuel (sz / 2) (sz1 * 2) ≤ sz1 * 2 * (sz / 2) := ih _ (Nat.pos_of_ne_zero hz)
        _ = sz1 * (2 * (sz / 2)) := Nat.mul_assoc _ _ _
        _ ≤ sz1 * sz := Nat.mul_le_mul_left _ (Nat.mul_div_le sz 2)

theorem halve_bounds (h : 8 ≤ v) : 8 ≤ halve 64 v 1 ∧ halve 64 v 1 ≤ v := by
  constructor
  · have h1 : ¬ v / 2 = 0 := by omega
    have h2 : ¬ v / 2 / 2 = 0 := by omega
    have h3 : ¬ v / 2 / 2 / 2 = 0 := by omega
    rw [halve, if_neg h1, halve, if_neg h2, halve, if_neg h3]
    exact le_halve 61 _ 8
  · have hle := halve_le 64 1 (Nat.lt_of_lt_of_le (by decide : 0 < 8) h)
    rwa [Nat.one_mul] at hle

def OptionName.isBlksize : OptionName → Bool
  | .blksize => true
  | .blksize2 => true
  | _ => false

theorem setBlksize_segsize (hmax : 8 ≤ limit) (h : setBlksize limit v n = some (v', n')) :
    n'.segsize = v' ∧ 8 ≤ v' ∧ v' ≤ limit := by
  simp only [setBlksize] at h
  repeat' split at h
  all_goals cases h
  · exact ⟨rfl, hmax, Nat.le_refl _⟩
  · rename_i hv hle
    exact ⟨rfl, Nat.le_of_not_lt hv, Nat.le_of_not_lt hle⟩

theorem setBlksize2_segsize (hmax : 8 ≤ limit) (h : setBlksize2 limit v n = some (v', n')) :
    n'.segsize = v' ∧ 8 ≤ v' ∧ v' ≤ limit := by
  simp only [setBlksize2] at h
  repeat' split at h
  all_goals cases h
  · exact ⟨rfl, hmax, Nat.le_refl _⟩
  · rename_i hv hle _
    obtain ⟨hlo, hhi⟩ := halve_bounds (Nat.le_of_not_lt hv)
    exact ⟨rfl, hlo, Nat.le_trans hhi (Nat.le_of_not_lt hle)⟩
  · rename_i hv hle _
    exact ⟨rfl, Nat.le_of_not_lt hv, Nat.le_of_not_lt hle⟩

theorem setRexmtval_segsize (h : setRexmtval low high scale v n = some (v', n')) :
    n'.segsize = n.segsize := by
  simp only [setRexmtval] at h
  split at h
  · cases h
  · cases h
    rfl

theorem setTsize_segsize (h : setTsize v n = some (v', n')) : n'.segsize = n.segsize := by
  simp only [setTsize] at h
  split at h
  · cases h
    rfl
  · cases h

theorem setRollover_segsize (h : setRollover v n = some (v', n')) : n'.segsize = n.segsize := by
  simp only [setRollover] at h
  split at h
  · cases h
  · cases h
    rfl

/-- The handlers of `blksize` and `blksize2` return the block size that they set; the other
ones do not set it. -/
theorem handler_segsize (cfg : OptionConfig) (name : OptionName) (v : Nat)
    (hmax : 8 ≤ cfg.maxBlksize) (h : name.handler cfg v n = some (v', n')) :
    if name.isBlksize then n'.segsize = v' ∧ 8 ≤ v' ∧ v' ≤ cfg.maxBlksize
    else n'.segsize = n.segsize := by
  cases name with
  | blksize => exact setBlksize_segsize hmax h
  | blksize2 => exact setBlksize2_segsize hmax h
  | tsize => exact setTsize_segsize h
  | timeout => exact setRexmtval_segsize h
  | utimeout => exact setRexmtval_segsize h
  | rollover => exact setRollover_segsize h

/-- The name is one of the two spellings of the option, in upper or lower case. -/
def namesBlksize (opt : CString) : Bool :=
  strcaseEq OptionName.blksize.text opt.bytes || strcaseEq OptionName.blksize2.text opt.bytes

def asksBlksize (cfg : OptionConfig) (p : CString × CString) : Bool :=
  match recognized cfg p.1 p.2 with
  | some (name, _) => name.isBlksize
  | none => false

theorem recognized_text (h : recognized cfg opt val = some (name, v)) :
    name.text.map tolower = opt.bytes.map tolower := by
  rw [recognized] at h
  cases hs : supported cfg opt with
  | none =>
    rw [hs] at h
    cases h
  | some name' =>
    rw [hs] at h
    split at h
    · rename_i heq _
      cases heq
      cases h
      have hp := List.find?_some hs
      rw [Bool.and_eq_true] at hp
      exact of_decide_eq_true hp.2
    · cases h

theorem namesBlksize_recognized (h : recognized cfg opt val = some (name, v)) :
    namesBlksize opt = name.isBlksize := by
  have ht := recognized_text h
  simp only [namesBlksize, strcaseEq, ← ht]
  cases name <;> decide

theorem asksBlksize_ignored (h : recognized cfg opt val = none) :
    asksBlksize cfg (opt, val) = false := by
  simp only [asksBlksize, h]

theorem asksBlksize_recognized (h : recognized cfg opt val = some (name, v)) :
    asksBlksize cfg (opt, val) = name.isBlksize := by
  simp only [asksBlksize, h]

/-- The acknowledgements of block sizes answer the requests for one. -/
theorem acknowledgements_blksize (opts : List (CString × CString))
    (hd : doOpts cfg opts n o = .returned n' o') :
    ((acknowledgements cfg opts n).filter fun p => namesBlksize p.1).length =
      (opts.filter (asksBlksize cfg)).length := by
  induction opts generalizing n o with
  | nil => rfl
  | cons p opts ih =>
    rcases doOpts_cons_cases hd with ⟨hr, hd⟩ | ⟨name, v, v', n₁, hr, hh, _, hd⟩
    · rw [acknowledgements_ignored hr, List.filter_cons_of_neg (by simp [asksBlksize_ignored hr])]
      exact ih hd
    · have hlen := ih hd
      rw [acknowledgements_taken hr hh, List.filter_cons, List.filter_cons,
        namesBlksize_recognized hr, asksBlksize_recognized hr]
      split
      · exact congrArg Nat.succ hlen
      · exact hlen

structure SegsizeBound (cfg : OptionConfig) (n : Negotiated) : Prop where
  low : 8 ≤ n.segsize
  high : n.segsize ≤ cfg.maxBlksize

theorem doOpts_segsize_bound (hmax : 8 ≤ cfg.maxBlksize) (opts : List (CString × CString))
    (h : SegsizeBound cfg n) (hd : doOpts cfg opts n o = .returned n' o') :
    SegsizeBound cfg n' := by
  induction opts generalizing n o with
  | nil =>
    cases hd
    exact h
  | cons p opts ih =>
    rcases doOpts_cons_cases hd with ⟨_, hd⟩ | ⟨name, v, v', n₁, _, hh, _, hd⟩
    · exact ih (n := n.unset) ⟨h.low, h.high⟩ hd
    · refine ih ?_ hd
      have hseg := handler_segsize cfg name v hmax hh
      split at hseg
      · obtain ⟨he, hlo, hhi⟩ := hseg
        exact ⟨by omega, by omega⟩
      · have hsame : n₁.segsize = n.segsize := hseg
        exact ⟨hsame ▸ h.low, hsame ▸ h.high⟩

theorem doOpts_segsize_unasked (hmax : 8 ≤ cfg.maxBlksize) (opts : List (CString × CString))
    (h : opts.filter (asksBlksize cfg) = []) (hd : doOpts cfg opts n o = .returned n' o') :
    n'.segsize = n.segsize := by
  induction opts generalizing n o with
  | nil =>
    cases hd
    rfl
  | cons p opts ih =>
    rw [List.filter_eq_nil_iff, List.forall_mem_cons, ← List.filter_eq_nil_iff] at h
    rcases doOpts_cons_cases hd with ⟨_, hd⟩ | ⟨name, v, v', n₁, hr, hh, _, hd⟩
    · exact ih (n := n.unset) h.2 hd
    · have hseg := handler_segsize cfg name v hmax hh
      have hask := asksBlksize_recognized hr
      rw [if_neg (hask ▸ h.1)] at hseg
      exact (ih h.2 hd).trans hseg

/-- If a block size is asked for at most once, its acknowledgement is the block size of the
transfer. -/
theorem doOpts_segsize_asked (hmax : 8 ≤ cfg.maxBlksize) (opts : List (CString × CString))
    (h : (opts.filter (asksBlksize cfg)).length ≤ 1)
    (hd : doOpts cfg opts n o = .returned n' o')
    (hp : p ∈ acknowledgements cfg opts n) (hn : namesBlksize p.1 = true) :
    p.2 = decimalString n'.segsize := by
  induction opts generalizing n o with
  | nil => cases hp
  | cons q opts ih =>
    rcases doOpts_cons_cases hd with ⟨hr, hd⟩ | ⟨name, v, v', n₁, hr, hh, _, hd⟩
    · rw [acknowledgements_ignored hr] at hp
      rw [List.filter_cons_of_neg (by simp [asksBlksize_ignored hr])] at h
      exact ih h hd hp
    · have hask := asksBlksize_recognized hr
      rw [acknowledgements_taken hr hh] at hp
      cases hb : name.isBlksize with
      | false =>
        rw [List.filter_cons_of_neg (by rw [hask, hb]; decide)] at h
        rcases List.mem_cons.1 hp with rfl | hp
        · rw [namesBlksize_recognized hr, hb] at hn
          cases hn
        · exact ih h hd hp
      | true =>
        rw [List.filter_cons_of_pos (by rw [hask, hb]), List.length_cons] at h
        have hnone : opts.filter (asksBlksize cfg) = [] := List.length_eq_zero_iff.1 (by omega)
        rcases List.mem_cons.1 hp with rfl | hp
        · have hseg := handler_segsize cfg name v hmax hh
          rw [if_pos hb] at hseg
          rw [doOpts_segsize_unasked hmax opts hnone hd, hseg.1]
        · have hlen := acknowledgements_blksize opts hd
          rw [hnone, List.length_nil, List.length_eq_zero_iff] at hlen
          exact absurd hn (List.filter_eq_nil_iff.1 hlen p hp)

/-- The OACK with the pairs `acks` fits the block size of the transfer. -/
structure OneBlksize (cfg : OptionConfig) (acks : List (CString × CString)) (n : Negotiated) :
    Prop where
  once : (acks.filter fun p => namesBlksize p.1).length ≤ 1
  agrees : ∀ p ∈ acks, namesBlksize p.1 = true → p.2 = decimalString n.segsize
  bounds : 8 ≤ n.segsize ∧ n.segsize ≤ cfg.maxBlksize ∧ cfg.maxBlksize ≤ maxSegsize

/-- After a request that is not refused, the OACK acknowledges one block size, which is that of
the transfer, exactly if at most one of the options asks for a block size. -/
theorem oneBlksize_iff (cfg : OptionConfig) (opts : List (CString × CString)) (n n' : Negotiated)
    (o : Oack) (hmin : 512 ≤ cfg.maxBlksize) (hmax : cfg.maxBlksize ≤ maxSegsize)
    (hseg : n.segsize = 512) (hd : doOpts cfg opts n .start = .returned n' o) :
    (∃ acks, decodePairs (o.ackbuf.load 2 (o.ap - 2)) = some acks ∧ OneBlksize cfg acks n') ↔
      (opts.filter (asksBlksize cfg)).length ≤ 1 := by
  have hlow : 8 ≤ cfg.maxBlksize := Nat.le_trans (by decide) hmin
  have hacks := (doOpts_holds opts hd).decode
  have hcount := acknowledgements_blksize opts hd
  constructor
  · rintro ⟨acks, hdec, hone⟩
    rw [hacks] at hdec
    cases hdec
    exact Nat.le_trans (Nat.le_of_eq hcount.symm) hone.once
  · intro h
    have hb : SegsizeBound cfg n := ⟨by omega, by omega⟩
    have hb' := doOpts_segsize_bound hlow opts hb hd
    refine ⟨_, hacks, Nat.le_trans (Nat.le_of_eq hcount) h, ?_, hb'.low, hb'.high, hmax⟩
    intro p hp hn
    exact doOpts_segsize_asked hlow opts h hd hp hn

def anyOptions : OptionConfig := ⟨maxSegsize, fun _ => false⟩

def blksizeOption (v : Nat) : CString × CString :=
  (⟨OptionName.blksize.text, by decide⟩, decimalString v)

theorem blksize_acknowledged :
    ∃ n' o, doOpts anyOptions [blksizeOption 1024] .default .start = .returned n' o ∧
      ∃ acks, decodePairs (o.ackbuf.load 2 (o.ap - 2)) = some acks ∧
        OneBlksize anyOptions acks n' := by
  refine ⟨_, _, rfl, ?_⟩
  exact (oneBlksize_iff anyOptions [blksizeOption 1024] .default _ _ (by decide) (Nat.le_refl _)
    rfl rfl).2 (by decide +kernel)

/-- Every call of `do_opt` forgets that the block size was set: both sizes are acknowledged. -/
theorem blksize_acknowledged_twice :
    ∃ n' o, doOpts anyOptions [blksizeOption 1024, blksizeOption 512] .default .start =
        .returned n' o ∧ n'.segsize = 512 ∧
      decodePairs (o.ackbuf.load 2 (o.ap - 2)) = some [blksizeOption 1024, blksizeOption 512] ∧
      ¬ ∃ acks, decodePairs (o.ackbuf.load 2 (o.ap - 2)) = some acks ∧
        OneBlksize anyOptions acks n' := by
  refine ⟨_, _, rfl, rfl, ?_⟩
  have hdec := (@doOpts_holds anyOptions .default _ _ [blksizeOption 1024, blksizeOption 512]
    rfl).decode
  refine ⟨hdec, ?_⟩
  rintro ⟨acks, hacks, hone⟩
  rw [hdec] at hacks
  cases hacks
  have honce := hone.once
  revert honce
  decide +kernel

end WooTftpd
