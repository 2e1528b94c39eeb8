import WooTftpd.Lib.Strings
import WooTftpd.Options

namespace WooTftpd
open Lib
set_option autoImplicit true

variable {cfg : OptionConfig} {opt val : CString} {n n' : Negotiated} {o o' : Oack}

/-- The calls of `do_opt` that a request makes, up to the one that ends it. -/
def doOpts (cfg : OptionConfig) : List (CString × CString) → Negotiated → Oack → OptResult
  | [], n, o => .returned n o
  | (opt, val) :: opts, n, o =>
    match doOpt cfg opt val n o with
    | .nak error msg => .nak error msg
    | .returned n o => doOpts cfg opts n o

def decimalString (n : Nat) : CString := ⟨decimal n, nul_notMem_digits (by decide) (by decide) n⟩

theorem ascii_digits (n : Nat) :
    (decimal n).map (fun b => Char.ofNat b.toNat) = Nat.toDigits 10 n := by
  rw [decimal, ascii, List.map_map]
  have hid : ∀ c ∈ Nat.toDigits 10 n, Char.ofNat (UInt8.ofNat c.toNat).toNat = c := by
    intro c hc
    have hdigit := Nat.isDigit_of_mem_toDigits (by decide) (Nat.le_refl 10) hc
    have hlt : c.toNat < 256 := by
      simp only [Char.isDigit, Bool.and_eq_true, decide_eq_true_eq, UInt32.le_iff_toNat_le] at hdigit
      exact Nat.lt_of_le_of_lt hdigit.2 (by decide)
    rw [UInt8.toNat_ofNat', Nat.mod_eq_of_lt hlt, Char.ofNat_toNat]
  exact (List.map_congr_left hid).trans (List.map_id _)

theorem decimalString_inj {a b : Nat} (h : decimalString a = decimalString b) : a = b := by
  have hbytes : decimal a = decimal b := congrArg CString.bytes h
  rw [← Nat.ofDigitChars_ten_toDigits (n := a), ← ascii_digits, hbytes, ascii_digits,
    Nat.ofDigitChars_ten_toDigits]

def parsedValue (val : CString) : Option Nat :=
  let r := strtoumax val.bytes
  if val.bytes = [] ∨ r.rest ≠ [] ∨ r.erange then none else some r.value

def supported (cfg : OptionConfig) (opt : CString) : Option OptionName :=
  OptionName.all.find? fun name => !cfg.refused name && strcaseEq name.text opt.bytes

/-- An option that the server takes part in: the name is supported and not refused, and the
value is a number. -/
def recognized (cfg : OptionConfig) (opt val : CString) : Option (OptionName × Nat) :=
  match supported cfg opt, parsedValue val with
  | some name, some v => some (name, v)
  | _, _ => none

def Negotiated.unset (n : Negotiated) : Negotiated := { n with blksizeSet := false }

def Oack.append (o : Oack) (opt ret : CString) : Oack :=
  ⟨o.ackbuf.store o.ap (encodePairs [(opt, ret)]), o.ap + (encodePairs [(opt, ret)]).length⟩

theorem encodePairs_single (opt ret : CString) :
    encodePairs [(opt, ret)] = opt.bytes ++ [0] ++ ret.bytes ++ [0] := by
  simp only [encodePairs, unpair, List.flatMap_cons, List.flatMap_nil, List.append_nil,
    encodeStrings, List.append_assoc]

theorem strcaseEq_nil (h : opt.bytes ≠ []) : strcaseEq [] opt.bytes = false := by
  apply decide_eq_false
  intro he
  exact h (List.map_eq_nil_iff.1 he.symm)

/-- The name of a refused option is empty, and no option that is looked up is. -/
theorem find?_name (h : opt.bytes ≠ []) :
    (OptionName.all.find? fun name => strcaseEq (cfg.name name) opt.bytes) = supported cfg opt := by
  have hp : (fun name => strcaseEq (cfg.name name) opt.bytes) =
      fun name => !cfg.refused name && strcaseEq name.text opt.bytes := by
    funext name
    rw [OptionConfig.name]
    cases cfg.refused name with
    | true =>
      rw [if_pos rfl, strcaseEq_nil h]
      rfl
    | false =>
      rw [if_neg Bool.false_ne_true]
      rfl
  rw [hp, supported]

theorem supported_nil (h : opt.bytes = []) : supported cfg opt = none := by
  apply List.find?_eq_none.2
  intro name _
  have hne : strcaseEq name.text [] = false := by cases name <;> decide
  rw [h, hne, Bool.and_false]
  exact Bool.false_ne_true

theorem recognized_nil (h : opt.bytes = []) (val : CString) : recognized cfg opt val = none := by
  rw [recognized, supported_nil h]

/-- All that `do_opt` can do. -/
theorem doOpt_eq (cfg : OptionConfig) (opt val : CString) (n : Negotiated) (o : Oack) :
    doOpt cfg opt val n o =
      match recognized cfg opt val with
      | none => .returned n.unset o
      | some (name, v) =>
        match name.handler cfg v n.unset with
        | none => .nak EOPTNEG "Unsupported option(s) requested"
        | some (v, n) =>
          if pktsize ≤ o.ap + (encodePairs [(opt, decimalString v)]).length then
            .nak EOPTNEG "Insufficient space for options"
          else .returned n (o.append opt (decimalString v)) := by
  simp only [doOpt]
  by_cases hopt : opt.bytes = []
  · rw [if_pos (.inl hopt), recognized_nil hopt]
    rfl
  by_cases hval : val.bytes = []
  · have hp : parsedValue val = none := if_pos (.inl hval)
    rw [if_pos (.inr hval), recognized, hp]
    cases supported cfg opt <;> rfl
  rw [if_neg (not_or.2 ⟨hopt, hval⟩)]
  by_cases hr : (strtoumax val.bytes).rest ≠ [] ∨ (strtoumax val.bytes).erange = true
  · have hp : parsedValue val = none := if_pos (.inr hr)
    rw [if_pos hr, recognized, hp]
    cases supported cfg opt <;> rfl
  · have hp : parsedValue val = some (strtoumax val.bytes).value :=
      if_neg (not_or.2 ⟨hval, hr⟩)
    rw [if_neg hr, find?_name hopt, recognized, hp]
    cases supported cfg opt with
    | none => rfl
    | some name =>
      simp only [Negotiated.unset]
      cases name.handler cfg (strtoumax val.bytes).value { n with blksizeSet := false } with
      | none => rfl
      | some r =>
        obtain ⟨v, n'⟩ := r
        have hlen : o.ap + opt.length + (decimal v).length + 2 =
            o.ap + (encodePairs [(opt, decimalString v)]).length := by
          simp only [encodePairs_single, List.length_append, List.length_singleton, CString.length,
            decimalString]
          omega
        simp only [hlen, Oack.append, encodePairs_single, decimalString, NUL]

theorem doOpt_ignored (h : recognized cfg opt val = none) (n : Negotiated) (o : Oack) :
    doOpt cfg opt val n o = .returned n.unset o := by
  rw [doOpt_eq, h]

theorem doOpt_returned (h : recognized cfg opt val = some (name, v))
    (hd : doOpt cfg opt val n o = .returned n' o') :
    ∃ v', name.handler cfg v n.unset = some (v', n') ∧
      o.ap + (encodePairs [(opt, decimalString v')]).length < pktsize ∧
      o' = o.append opt (decimalString v') := by
  rw [doOpt_eq, h] at hd
  dsimp only at hd
  split at hd
  · cases hd
  · rename_i v' n'' hh
    split at hd
    · cases hd
    · rename_i hroom
      cases hd
      exact ⟨v', hh, Nat.lt_of_not_le hroom, rfl⟩

theorem doOpts_cons (cfg : OptionConfig) (opt val : CString) (opts : List (CString × CString))
    (n : Negotiated) (o : Oack) :
    doOpts cfg ((opt, val) :: opts) n o =
      match doOpt cfg opt val n o with
      | .nak error msg => .nak error msg
      | .returned n o => doOpts cfg opts n o := rfl

/-- Everything that the first option can be in a request that it does not end. -/
theorem doOpts_cons_cases {opts : List (CString × CString)}
    (h : doOpts cfg ((opt, val) :: opts) n o = .returned n' o') :
    (recognized cfg opt val = none ∧ doOpts cfg opts n.unset o = .returned n' o') ∨
    ∃ name v v' n₁, recognized cfg opt val = some (name, v) ∧
      name.handler cfg v n.unset = some (v', n₁) ∧
      o.ap + (encodePairs [(opt, decimalString v')]).length < pktsize ∧
      doOpts cfg opts n₁ (o.append opt (decimalString v')) = .returned n' o' := by
  rw [doOpts_cons] at h
  cases hr : recognized cfg opt val with
  | none =>
    rw [doOpt_ignored hr] at h
    exact .inl ⟨rfl, h⟩
  | some r =>
    cases ho : doOpt cfg opt val n o with
    | nak error msg =>
      rw [ho] at h
      cases h
    | returned n₁ o₁ =>
      obtain ⟨v', hh, hroom, rfl⟩ := doOpt_returned hr ho
      rw [ho] at h
      exact .inr ⟨r.1, r.2, v', n₁, rfl, hh, hroom, h⟩

theorem doOpts_append (cfg : OptionConfig) (pre post : List (CString × CString))
    (n : Negotiated) (o : Oack) :
    doOpts cfg (pre ++ post) n o =
      match doOpts cfg pre n o with
      | .nak error msg => .nak error msg
      | .returned n o => doOpts cfg post n o := by
  induction pre generalizing n o with
  | nil => rfl
  | cons p pre ih =>
    rw [List.cons_append, doOpts_cons, doOpts_cons]
    cases doOpt cfg p.1 p.2 n o with
    | nak error msg => rfl
    | returned n o => exact ih n o

/-- The options that are taken part in, with the values that their handlers return. -/
def acknowledgements (cfg : OptionConfig) :
    List (CString × CString) → Negotiated → List (CString × CString)
  | [], _ => []
  | (opt, val) :: opts, n =>
    match recognized cfg opt val with
    | none => acknowledgements cfg opts n.unset
    | some (name, v) =>
      match name.handler cfg v n.unset with
      | none => []
      | some (v, n) => (opt, decimalString v) :: acknowledgements cfg opts n

theorem acknowledgements_ignored (h : recognized cfg opt val = none)
    (opts : List (CString × CString)) (n : Negotiated) :
    acknowledgements cfg ((opt, val) :: opts) n = acknowledgements cfg opts n.unset := by
  simp only [acknowledgements, h]

theorem acknowledgements_taken (h : recognized cfg opt val = some (name, v))
    (hh : name.handler cfg v n.unset = some (v', n')) (opts : List (CString × CString)) :
    acknowledgements cfg ((opt, val) :: opts) n =
      (opt, decimalString v') :: acknowledgements cfg opts n' := by
  simp only [acknowledgements, h, hh]

/-- `ackbuf` holds these acknowledgements, and nothing was written outside of it. -/
structure Oack.Holds (o : Oack) (acks : List (CString × CString)) : Prop where
  ap : o.ap = 2 + (encodePairs acks).length
  text : o.ackbuf.load 2 (encodePairs acks).length = encodePairs acks
  inside : o.ap ≤ pktsize
  frame : ∀ i, pktsize ≤ i → o.ackbuf i = Oack.start.ackbuf i

theorem Oack.holds_start : Oack.start.Holds [] where
  ap := rfl
  text := rfl
  inside := by decide
  frame := fun _ _ => rfl

theorem Oack.Holds.append (h : o.Holds acks) (opt ret : CString)
    (hroom : o.ap + (encodePairs [(opt, ret)]).length < pktsize) :
    (o.append opt ret).Holds (acks ++ [(opt, ret)]) := by
  have hap := h.ap
  constructor
  · simp only [Oack.append, encodePairs_append, List.length_append]
    omega
  · rw [encodePairs_append, List.length_append, Mem.load_add]
    simp only [Oack.append]
    rw [Mem.load_store_disjoint _ _ (.inl (by omega)), h.text, ← hap, Mem.load_store]
  · exact Nat.le_of_lt hroom
  · intro i hi
    rw [← h.frame i hi]
    exact Mem.store_above _ _ (by omega)

theorem Oack.Holds.doOpts (h : o.Holds acks) (opts : List (CString × CString))
    (hd : doOpts cfg opts n o = .returned n' o') :
    o'.Holds (acks ++ acknowledgements cfg opts n) := by
  induction opts generalizing acks n o with
  | nil =>
    cases hd
    rw [acknowledgements, List.append_nil]
    exact h
  | cons p opts ih =>
    rcases doOpts_cons_cases hd with ⟨hr, hd⟩ | ⟨name, v, v', n₁, hr, hh, hroom, hd⟩
    · rw [acknowledgements_ignored hr]
      exact ih h hd
    · have hnext := ih (h.append p.1 (decimalString v') hroom) hd
      rw [List.append_assoc] at hnext
      rw [acknowledgements_taken hr hh]
      exact hnext

theorem doOpts_holds (opts : List (CString × CString))
    (hd : doOpts cfg opts n .start = .returned n' o) : o.Holds (acknowledgements cfg opts n) := by
  have h := Oack.holds_start.doOpts opts hd
  rwa [List.nil_append] at h

theorem Oack.Holds.decode (h : o.Holds acks) :
    decodePairs (o.ackbuf.load 2 (o.ap - 2)) = some acks := by
  have hap : o.ap - 2 = (encodePairs acks).length := by
    rw [h.ap]
    omega
  rw [hap, h.text]
  exact decodePairs_encodePairs _

theorem acknowledgements_names (opts : List (CString × CString))
    (hd : doOpts cfg opts n o = .returned n' o') :
    (acknowledgements cfg opts n).map Prod.fst =
      (opts.filter fun p => (recognized cfg p.1 p.2).isSome).map Prod.fst := by
  induction opts generalizing n o with
  | nil => rfl
  | cons p opts ih =>
    rcases doOpts_cons_cases hd with ⟨hr, hd⟩ | ⟨name, v, v', n₁, hr, hh, _, hd⟩
    · rw [acknowledgements_ignored hr, List.filter_cons_of_neg (by rw [hr]; decide)]
      exact ih hd
    · rw [acknowledgements_taken hr hh, List.filter_cons_of_pos (by rw [hr]; rfl)]
      exact congrArg (p.1 :: ·) (ih hd)

theorem doOpt_nak (h : doOpt cfg opt val n o = .nak error msg) : error = EOPTNEG := by
  rw [doOpt_eq] at h
  repeat' split at h
  all_goals cases h
  all_goals rfl

theorem doOpts_nak (opts : List (CString × CString))
    (h : doOpts cfg opts n o = .nak error msg) : error = EOPTNEG := by
  induction opts generalizing n o with
  | nil => cases h
  | cons p opts ih =>
    rw [doOpts_cons] at h
    cases ho : doOpt cfg p.1 p.2 n o with
    | nak error' msg' =>
      rw [ho] at h
      cases h
      exact doOpt_nak ho
    | returned n₁ o₁ =>
      rw [ho] at h
      exact ih h

/-- Whatever options a request has: if none of them ends it, the OACK is the encoding of those
that are recognized, with the values of their handlers, and lies within `ackbuf`; an option
that is not recognized changes nothing but the guard of the block size; and a recognized one
whose acknowledgement has no room ends the request before anything is written. -/
theorem doOpts_oack (cfg : OptionConfig) (opts : List (CString × CString)) (n : Negotiated) :
    (∀ n' o, doOpts cfg opts n .start = .returned n' o →
      decodePairs (o.ackbuf.load 2 (o.ap - 2)) = some (acknowledgements cfg opts n) ∧
      (acknowledgements cfg opts n).map Prod.fst =
        (opts.filter fun p => (recognized cfg p.1 p.2).isSome).map Prod.fst ∧
      2 ≤ o.ap ∧ o.ap ≤ pktsize ∧ ∀ i, pktsize ≤ i → o.ackbuf i = Oack.start.ackbuf i) ∧
    (∀ opt val n o, recognized cfg opt val = none →
      doOpt cfg opt val n o = .returned { n with blksizeSet := false } o) ∧
    (∀ pre opt val post n₁ o₁ name v v' n₂, opts = pre ++ (opt, val) :: post →
      doOpts cfg pre n .start = .returned n₁ o₁ → recognized cfg opt val = some (name, v) →
      name.handler cfg v { n₁ with blksizeSet := false } = some (v', n₂) →
      pktsize ≤ o₁.ap + (encodePairs [(opt, decimalString v')]).length →
      doOpts cfg opts n .start = .nak EOPTNEG "Insufficient space for options") ∧
    (∀ error msg, doOpts cfg opts n .start = .nak error msg → error = EOPTNEG) := by
  refine ⟨?_, ?_, ?_, ?_⟩
  · intro n' o hd
    have h := doOpts_holds opts hd
    refine ⟨h.decode, acknowledgements_names opts hd, ?_, h.inside, h.frame⟩
    rw [h.ap]
    exact Nat.le_add_right _ _
  · intro opt val n o h
    exact doOpt_ignored h n o
  · intro pre opt val post n₁ o₁ name v v' n₂ hopts hpre hr hh hroom
    have ho : doOpt cfg opt val n₁ o₁ = .nak EOPTNEG "Insufficient space for options" := by
      rw [doOpt_eq, hr]
      simp only [Negotiated.unset, hh, if_pos hroom]
    rw [hopts, doOpts_append, hpre]
    simp only [doOpts_cons, ho]
  · intro error msg h
    exact doOpts_nak opts h

end WooTftpd
