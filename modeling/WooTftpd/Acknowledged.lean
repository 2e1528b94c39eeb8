import WooTftpd.Malformed
import WooTftpd.SendfileRun

namespace WooTftpd
open Lib
set_option autoImplicit true

variable {t : Transfer} {oack : Option Nat} {ackbuf : Mem} {content : List UInt8}
  {f : InFile} {es : List Event} {s : SendState}

abbrev sendRegular (t : Transfer) (oack : Option Nat) (ackbuf : Mem) (content : List UInt8) :
    Machine SendState Event Action := tftpSendfile t oack ackbuf (.regular content)

/-- After the events `es`, block `i` of the file is the last one that was sent. -/
def LastSent (t : Transfer) (oack : Option Nat) (ackbuf : Mem) (f : InFile)
    (es : List Event) (i : Nat) : Prop :=
  ∃ opts again, OptionSent oack ackbuf es opts ∧
    sentPackets ((tftpSendfile t oack ackbuf f).run es) =
      opts ++ (senderLog t f.content again (i + 1)).map Prod.snd

/-- An ACK with the number of block `i` has come in while block `i` was the last one sent. -/
def BlockAcked (t : Transfer) (oack : Option Nat) (ackbuf : Mem) (f : InFile)
    (es : List Event) (i : Nat) : Prop :=
  ∃ pre d, pre ++ [.datagram d] <+: es ∧ LastSent t oack ackbuf f pre i ∧
    tftphdr ACK (bn t.rolloverVal i) <+: d

/-- All blocks of the file, up to the first short one, were acknowledged. -/
def FileAcked (t : Transfer) (oack : Option Nat) (ackbuf : Mem) (f : InFile)
    (es : List Event) : Prop :=
  ∃ n, (∀ i < n, (payload t f.content i).length = t.segsize) ∧
    (payload t f.content n).length < t.segsize ∧ ∀ i ≤ n, BlockAcked t oack ackbuf f es i

def SendFailed (t : Transfer) (s : SendState) : Prop := ∃ k < s.sends, t.sendOk k = false

/-- The two kinds of events on which a transfer that is going on is given up. -/
def Parsed.Interrupts (e : Parsed) : Prop := e = .recvError ∨ ∃ block, e = .packet ERROR block

def Interrupted (M : Machine SendState Event Action) (es : List Event) : Prop :=
  ∃ pre e, pre ++ [e] <+: es ∧ (∀ how, (M.run pre).state.phase ≠ .ended how) ∧
    (parse (M.run pre).state.ackbuf e).2.Interrupts

theorem LastSent.next (h : LastSent t oack ackbuf f es i) (e : Event)
    (hlog : ∀ again, ∃ again', (senderLog t f.content again (i + 1)).map Prod.snd ++
      ((tftpSendfile t oack ackbuf f).step
        ((tftpSendfile t oack ackbuf f).run es).state e).2.filterMap Action.sent? =
          (senderLog t f.content again' (j + 1)).map Prod.snd) :
    LastSent t oack ackbuf f (es ++ [e]) j := by
  obtain ⟨opts, again, ho, hsent⟩ := h
  obtain ⟨again', hnext⟩ := hlog again
  refine ⟨opts, again', ho.append [e], ?_⟩
  rw [Machine.run_concat, sentPackets_next, hsent, List.append_assoc, hnext]

theorem LastSent.quiet (h : LastSent t oack ackbuf f es i) (e : Event)
    (hq : ((tftpSendfile t oack ackbuf f).step
      ((tftpSendfile t oack ackbuf f).run es).state e).2.filterMap Action.sent? = []) :
    LastSent t oack ackbuf f (es ++ [e]) i := by
  apply h.next e
  intro again
  exact ⟨again, by rw [hq, List.append_nil]⟩

theorem LastSent.resend (h : LastSent t oack ackbuf f es i) (e : Event)
    (hq : ((tftpSendfile t oack ackbuf f).step
      ((tftpSendfile t oack ackbuf f).run es).state e).2.filterMap Action.sent? =
        [dataPacket t f.content i]) : LastSent t oack ackbuf f (es ++ [e]) i := by
  apply h.next e
  intro again
  refine ⟨Function.update again i (again i + 1), ?_⟩
  rw [hq, senderLog, senderLog, stopAndWait_resend, List.map_append]
  rfl

theorem LastSent.advance (h : LastSent t oack ackbuf f es i) (e : Event)
    (hq : ((tftpSendfile t oack ackbuf f).step
      ((tftpSendfile t oack ackbuf f).run es).state e).2.filterMap Action.sent? =
        [dataPacket t f.content (i + 1)]) : LastSent t oack ackbuf f (es ++ [e]) (i + 1) := by
  apply h.next e
  intro again
  refine ⟨Function.update again (i + 1) 0, ?_⟩
  rw [hq, senderLog, senderLog, stopAndWait_advance, List.map_append]
  rfl

theorem BlockAcked.append (h : BlockAcked t oack ackbuf f es i) (es' : List Event) :
    BlockAcked t oack ackbuf f (es ++ es') i := by
  obtain ⟨pre, d, hpre, hrest⟩ := h
  exact ⟨pre, d, hpre.trans (List.prefix_append _ _), hrest⟩

theorem FileAcked.append (h : FileAcked t oack ackbuf f es) (es' : List Event) :
    FileAcked t oack ackbuf f (es ++ es') := by
  obtain ⟨n, hfull, hshort, hack⟩ := h
  exact ⟨n, hfull, hshort, fun i hi => (hack i hi).append es'⟩

theorem Interrupted.append {M : Machine SendState Event Action} (h : Interrupted M es)
    (es' : List Event) : Interrupted M (es ++ es') := by
  obtain ⟨pre, e, hpre, hrest⟩ := h
  exact ⟨pre, e, hpre.trans (List.prefix_append _ _), hrest⟩

theorem headerOver_whole (m : Mem) (h : 4 ≤ d.length) : headerOver m d = d.take 4 := by
  rw [headerOver, Nat.sub_eq_zero_of_le h]
  exact List.append_nil _

theorem parse_eq_packet {e : Event} {opcode number : UInt16}
    (h : (parse m e).2 = .packet opcode number) :
    ∃ d, e = .datagram d ∧ headerOver m d = tftphdr opcode number := by
  cases e with
  | timeout => cases h
  | recvError => cases h
  | datagram d => exact ⟨d, rfl, (headerOver_eq_tftphdr_iff m d opcode number).2 h⟩

/-- How the code up to the next wait ends: the transfer goes on or its process exits, or it comes to
the label `abort`, by a `goto` for some cause or at the end of the loop. -/
inductive StepEnd (cause : Prop) (r : SendState × List Action) : Prop where
  | on (hp : r.1.phase ≠ .ended .aborted) (he : .endOperation ∉ r.2) : StepEnd cause r
  | aborted (hp : r.1.phase = .ended .aborted) (hc : cause) : StepEnd cause r
  | completed (hp : r.1.phase = .ended .completed) : StepEnd cause r

theorem StepEnd.imp {cause cause' : Prop} (h : StepEnd cause r) (hc : cause → cause') :
    StepEnd cause' r := by
  cases h with
  | on hp he => exact .on hp he
  | aborted hp hcause => exact .aborted hp (hc hcause)
  | completed hp => exact .completed hp

theorem StepEnd.cause {cause : Prop} (h : StepEnd cause r)
    (ha : r.1.phase = .ended .aborted) : cause := by
  cases h with
  | on hp he => exact absurd ha hp
  | aborted hp hc => exact hc
  | completed hp => cases ha.symm.trans hp

theorem sendData_end (hp : s.phase ≠ .ended .aborted) :
    StepEnd (SendFailed t (sendData t s).1) (sendData t s) := by
  by_cases hk : t.sendOk s.sends = true
  · simp only [sendData, if_pos hk]
    exact .on hp (by simp)
  · simp only [sendData, if_neg hk]
    exact .aborted rfl ⟨s.sends, Nat.lt_succ_self _, Bool.eq_false_iff.2 hk⟩

theorem sendOack_end (oacklen : Nat) (hp : s.phase ≠ .ended .aborted) :
    StepEnd (SendFailed t (sendOack t oacklen s).1) (sendOack t oacklen s) := by
  by_cases hk : t.sendOk s.sends = true
  · simp only [sendOack, if_pos hk]
    exact .on hp (by simp)
  · simp only [sendOack, if_neg hk]
    exact .aborted rfl ⟨s.sends, Nat.lt_succ_self _, Bool.eq_false_iff.2 hk⟩

def ReadFailed (t : Transfer) (subs : Subs) (f : InFile) : Prop :=
  (readit t.convert t.segsize subs f).2.2 < 0

theorem readBlock_end (hp : s.phase ≠ .ended .aborted) :
    StepEnd (SendFailed t (readBlock t s).1 ∨ ReadFailed t s.subs s.file) (readBlock t s) := by
  by_cases hn : (readit t.convert t.segsize s.subs s.file).2.2 < 0
  · simp only [readBlock, if_pos hn]
    exact .aborted rfl (.inr hn)
  · simp only [readBlock, if_neg hn]
    apply StepEnd.imp _ Or.inl
    apply sendData_end
    exact hp

/-- Every `goto abort` behind the wait for the ACK of a block. -/
theorem dataStep_end (hp : s.phase ≠ .ended .aborted) (e : Parsed) :
    StepEnd (SendFailed t (dataStep t s e).1 ∨ ReadFailed t s.subs s.file ∨ e.Interrupts)
      (dataStep t s e) := by
  cases e with
  | timeout =>
    simp only [dataStep]
    cases timer t.maxtimeout false s.timeout with
    | none => exact .on (by simp) List.not_mem_nil
    | some timeout => exact (sendData_end (s := { s with timeout := timeout }) hp).imp .inl
  | recvError => exact .aborted rfl (.inr (.inr (.inl rfl)))
  | packet opcode block =>
    simp only [dataStep]
    by_cases he : opcode = ERROR
    · rw [if_pos he, he]
      exact .aborted rfl (.inr (.inr (.inr ⟨block, rfl⟩)))
    by_cases ha : opcode = ACK ∧ block = s.block
    · rw [if_neg he, if_pos ha]
      by_cases hs : s.size = t.segsize
      · rw [blockAcked_full hs]
        cases readBlock_end (t := t)
          (s := { s with block := nextBlock t.rolloverVal s.block }) hp with
        | on hp he => exact .on hp (List.not_mem_cons_of_ne_of_not_mem (by simp) he)
        | aborted hp hc => exact .aborted hp (hc.imp_right .inl)
        | completed hp => exact .completed hp
      · rw [blockAcked_short hs]
        exact .completed rfl
    · rw [if_neg he, if_neg ha]
      exact .on hp List.not_mem_nil

/-- Every `goto abort` behind the wait for the ACK of the OACK. -/
theorem optionStep_end (oacklen : Nat) (hp : s.phase ≠ .ended .aborted) (e : Parsed) :
    StepEnd (SendFailed t (optionStep t oacklen s e).1 ∨ ReadFailed t (rInit s.subs) s.file ∨
      e.Interrupts) (optionStep t oacklen s e) := by
  cases e with
  | timeout =>
    simp only [optionStep]
    cases timer t.maxtimeout false s.timeout with
    | none => exact .on (by simp) List.not_mem_nil
    | some timeout =>
      exact (sendOack_end (s := { s with timeout := timeout }) oacklen hp).imp .inl
  | recvError => exact .aborted rfl (.inr (.inr (.inl rfl)))
  | packet opcode block =>
    simp only [optionStep]
    by_cases he : opcode = ERROR
    · rw [if_pos he, he]
      exact .aborted rfl (.inr (.inr (.inr ⟨block, rfl⟩)))
    by_cases ha : opcode = ACK
    · rw [if_neg he, if_pos ha]
      by_cases hb : block = 0
      · rw [if_pos hb]
        exact (readBlock_end (s := { s with phase := .data, subs := rInit s.subs })
          SendPhase.noConfusion).imp fun h => h.imp_right .inl
      · rw [if_neg hb]
        exact (sendOack_end oacklen hp).imp .inl
    · rw [if_neg he, if_neg ha]
      exact .on hp List.not_mem_nil

theorem sendStep_data_end (hp : s.phase = .data) (oacklen : Nat) (e : Event) :
    StepEnd (SendFailed t (sendStep t oacklen s e).1 ∨ ReadFailed t s.subs s.file ∨
      (parse s.ackbuf e).2.Interrupts) (sendStep t oacklen s e) := by
  rw [sendStep_data hp]
  apply dataStep_end
  rw [hp]
  exact SendPhase.noConfusion

theorem sendStep_option_end (hp : s.phase = .option) (oacklen : Nat) (e : Event) :
    StepEnd (SendFailed t (sendStep t oacklen s e).1 ∨ ReadFailed t (rInit s.subs) s.file ∨
      (parse s.ackbuf e).2.Interrupts) (sendStep t oacklen s e) := by
  rw [sendStep_option hp]
  apply optionStep_end
  rw [hp]
  exact SendPhase.noConfusion

theorem ReadInv.readit_sound {subs : Subs} {f : InFile}
    (h : ReadInv t.convert t.segsize bs i subs f) : ¬ ReadFailed t subs f := by
  obtain ⟨_, _, hn⟩ := h.readit
  rw [ReadFailed, hn]
  exact Int.not_lt.2 (Int.natCast_nonneg _)

theorem regular_sound (hf : s.file = .regular content) :
    ¬ ReadFailed t (rInit s.subs) s.file := by
  rw [hf]
  exact (ReadInv.init t.convert t.segsize content s.subs).readit_sound

/-- Where `tftp_sendfile` may be after the events `es`, and which blocks were acknowledged. -/
inductive Progress (t : Transfer) (oack : Option Nat) (ackbuf : Mem) (content : List UInt8)
    (es : List Event) (s : SendState) : Prop where
  | option (hoack : oack = some oacklen) (hp : s.phase = .option)
    (hf : s.file = .regular content) (hb : s.block = 1) : Progress t oack ackbuf content es s
  | waiting (i : Nat) (hw : Waiting t content i s)
    (hl : LastSent t oack ackbuf (.regular content) es i)
    (hfull : ∀ j < i, (payload t content j).length = t.segsize)
    (hack : ∀ j < i, BlockAcked t oack ackbuf (.regular content) es j) :
    Progress t oack ackbuf content es s
  | exited (hp : s.phase = .ended .exited) : Progress t oack ackbuf content es s
  | aborted (hp : s.phase = .ended .aborted) (hc : SendFailed t s ∨
      Interrupted (sendRegular t oack ackbuf content) es) :
    Progress t oack ackbuf content es s
  | completed (hp : s.phase = .ended .completed)
    (hf : FileAcked t oack ackbuf (.regular content) es) : Progress t oack ackbuf content es s

def NoneMistaken (t : Transfer) (oack : Option Nat) (ackbuf : Mem) (f : InFile)
    (es : List Event) (dir : Direction) : Prop :=
  ∀ pre d, pre ++ [.datagram d] <+: es → Malformed t.segsize d →
    ¬ Mistaken t oack ackbuf f pre d dir

theorem NoneMistaken.of_append {f : InFile}
    (h : NoneMistaken t oack ackbuf f (es ++ es') dir) : NoneMistaken t oack ackbuf f es dir := by
  intro pre d hpre
  exact h pre d (hpre.trans (List.prefix_append _ _))

section Run

variable {M : Machine SendState Event Action}

theorem interrupted_last (hgoing : ∀ how, (M.run es).state.phase ≠ .ended how)
    (h : (parse (M.run es).state.ackbuf e).2.Interrupts) : Interrupted M (es ++ [e]) :=
  ⟨es, e, List.prefix_refl _, hgoing, h⟩

end Run

theorem blockAcked_last {e : Event}
    (hs : ((sendRegular t oack ackbuf content).run es).state = s)
    (hw : Waiting t content i s) (hl : LastSent t oack ackbuf (.regular content) es i)
    (he : (parse s.ackbuf e).2 = .packet ACK (bn t.rolloverVal i))
    (hm : NoneMistaken t oack ackbuf (.regular content) (es ++ [e]) .send) :
    BlockAcked t oack ackbuf (.regular content) (es ++ [e]) i := by
  obtain ⟨d, rfl, hd⟩ := parse_eq_packet he
  have hlen : 4 ≤ d.length := by
    apply Nat.le_of_not_lt
    intro hshort
    apply hm es d (List.prefix_refl _) (.inl hshort)
    refine ⟨hshort, ?_⟩
    simp only [hs, SendState.awaited, hw.phase, hw.block, hd]
  refine ⟨es, d, List.prefix_refl _, hl, ?_⟩
  rw [← hd, headerOver_whole _ hlen]
  exact List.take_prefix 4 d

theorem progress_waiting
    (hw : Waiting t content i ((sendRegular t oack ackbuf content).run es).state)
    (hl : LastSent t oack ackbuf (.regular content) es i)
    (hfull : ∀ j < i, (payload t content j).length = t.segsize)
    (hack : ∀ j < i, BlockAcked t oack ackbuf (.regular content) es j) (e : Event)
    (hm : NoneMistaken t oack ackbuf (.regular content) (es ++ [e]) .send) :
    Progress t oack ackbuf content (es ++ [e])
      ((sendRegular t oack ackbuf content).run (es ++ [e])).state := by
  have hstep : (sendRegular t oack ackbuf content).step
      ((sendRegular t oack ackbuf content).run es).state e = _ :=
    sendStep_data hw.phase t (oack.getD 0) e
  have hw' : Waiting t content i { ((sendRegular t oack ackbuf content).run es).state with
      ackbuf := (parse ((sendRegular t oack ackbuf content).run es).state.ackbuf e).1 } :=
    ⟨hw.phase, hw.buffers, hw.dp, hw.block, hw.size, hw.packet⟩
  have hack' (j : Nat) (hj : j < i) : BlockAcked t oack ackbuf (.regular content) (es ++ [e]) j :=
    (hack j hj).append [e]
  rw [Machine.run_concat, Machine.next]
  by_cases habort : ((sendRegular t oack ackbuf content).step
      ((sendRegular t oack ackbuf content).run es).state e).1.phase = .ended .aborted
  · apply Progress.aborted habort
    rcases (sendStep_data_end hw.phase (oack.getD 0) e).cause habort with h | h | h
    · exact .inl h
    · exact absurd h hw.buffers.readit_sound
    · refine .inr (interrupted_last ?_ h)
      intro how hp
      cases hw.phase.symm.trans hp
  · have hcase := hw'.step
      (parse ((sendRegular t oack ackbuf content).run es).state.ackbuf e).2
    rw [← hstep] at hcase
    rcases hcase with ⟨_, hs⟩ | ⟨he, hf, hs⟩ | ⟨he, hsh, hc, hq⟩ | ⟨hq, hst⟩
    · obtain ⟨hw₁, hp⟩ := hs.resolve_right fun h => habort h.1
      exact .waiting i hw₁ (hl.resend e hp) hfull hack'
    · obtain ⟨hw₁, hp⟩ := hs.resolve_right fun h => habort h.1
      have hlast := blockAcked_last rfl hw hl he hm
      refine .waiting (i + 1) hw₁ (hl.advance e hp) ?_ ?_
      · intro j hj
        rcases Nat.lt_succ_iff_lt_or_eq.1 hj with hj | rfl
        · exact hfull j hj
        · exact hf
      · intro j hj
        rcases Nat.lt_succ_iff_lt_or_eq.1 hj with hj | rfl
        · exact hack' j hj
        · exact hlast
    · have hlast := blockAcked_last rfl hw hl he hm
      refine .completed hc ⟨i, hfull, hsh, ?_⟩
      intro j hj
      rcases Nat.lt_or_eq_of_le hj with hj | rfl
      · exact hack' j hj
      · exact hlast
    · rcases hst with hw₁ | hx | ha
      · exact .waiting i hw₁ (hl.quiet e hq) hfull hack'
      · exact .exited hx
      · exact absurd ha habort

/-- The first block is sent when the options are agreed on, or at once if there are none. -/
theorem progress_startData (ho : OptionSent oack ackbuf es opts)
    (hf : s.file = .regular content) (hb : s.block = 1)
    (hst : ((sendRegular t oack ackbuf content).run es).state = (startData t s).1)
    (hsent : sentPackets ((sendRegular t oack ackbuf content).run es) =
      opts ++ (startData t s).2.filterMap Action.sent?) :
    Progress t oack ackbuf content es ((sendRegular t oack ackbuf content).run es).state := by
  rw [hst]
  rcases startData_sends t content hf hb with ⟨hw, hp⟩ | ⟨ha, _⟩
  · rw [hp] at hsent
    refine .waiting 0 hw ⟨opts, fun _ => 0, ho, hsent⟩ ?_ ?_
    · intro j hj
      cases hj
    · intro j hj
      cases hj
  · have hc := (readBlock_end (t := t) (s := { s with phase := .data, subs := rInit s.subs })
      SendPhase.noConfusion).cause ha
    exact .aborted ha (.inl (hc.resolve_right (regular_sound hf)))

theorem progress_option (hoack : oack = some oacklen)
    (hp : ((sendRegular t oack ackbuf content).run es).state.phase = .option)
    (hf : ((sendRegular t oack ackbuf content).run es).state.file = .regular content)
    (hb : ((sendRegular t oack ackbuf content).run es).state.block = 1) (e : Event) :
    Progress t oack ackbuf content (es ++ [e])
      ((sendRegular t oack ackbuf content).run (es ++ [e])).state := by
  subst hoack
  have ho := optionSent_run t oacklen ackbuf (.regular content) es hp
  have hstep : (sendRegular t (some oacklen) ackbuf content).step
      ((sendRegular t (some oacklen) ackbuf content).run es).state e = _ :=
    sendStep_option hp t oacklen e
  rcases optionStep_cases t oacklen
    { ((sendRegular t (some oacklen) ackbuf content).run es).state with
      ackbuf := (parse ((sendRegular t (some oacklen) ackbuf content).run es).state.ackbuf e).1 }
    (parse ((sendRegular t (some oacklen) ackbuf content).run es).state.ackbuf e).2 with
    ⟨timeout, sends, h, _⟩ | ⟨⟨how, hne', ha⟩, _⟩ | ⟨_, h⟩
  · rw [← hstep] at h
    rw [Machine.run_concat, Machine.next, h]
    exact .option rfl hp hf hb
  · rw [← hstep] at ha
    rw [Machine.run_concat, Machine.next]
    cases how with
    | completed => exact absurd rfl hne'
    | exited => exact .exited ha
    | aborted =>
      apply Progress.aborted ha
      rcases (sendStep_option_end hp oacklen e).cause ha with h | h | h
      · exact .inl h
      · exact absurd h (regular_sound hf)
      · refine .inr (interrupted_last ?_ h)
        intro how hp'
        cases hp.symm.trans hp'
  · rw [← hstep] at h
    have hst := (congrArg Config.state (Machine.run_concat _ es e)).trans (congrArg Prod.fst h)
    apply progress_startData (ho.append [e]) _ _ hst
    · rw [Machine.run_concat, sentPackets_next, h]
    · exact hf
    · exact hb

theorem progress_ended
    (hp : ((sendRegular t oack ackbuf content).run es).state.phase = .ended how) (e : Event) :
    ((sendRegular t oack ackbuf content).run (es ++ [e])).state =
      ((sendRegular t oack ackbuf content).run es).state := by
  rw [Machine.run_concat, tftpSendfile_ended t oack ackbuf _ hp e]

theorem progress_run (t : Transfer) (oack : Option Nat) (ackbuf : Mem) (content : List UInt8)
    (es : List Event) (hm : NoneMistaken t oack ackbuf (.regular content) es .send) :
    Progress t oack ackbuf content es ((sendRegular t oack ackbuf content).run es).state := by
  induction es using List.reverseRecOn with
  | nil =>
    cases oack with
    | none =>
      exact progress_startData (s := sendInit ackbuf t.rexmtval (.regular content)) (.inl rfl)
        rfl rfl rfl (congrArg _ (Machine.log_init _))
    | some oacklen =>
      rcases sendOack_cases t oacklen (sendInit ackbuf t.rexmtval (.regular content)) with
        ⟨h, _⟩ | ⟨h, _⟩
      · apply Progress.option rfl
        · exact congrArg SendState.phase h
        · exact congrArg SendState.file h
        · exact congrArg SendState.block h
      · exact .aborted h (.inl ((sendOack_end oacklen SendPhase.noConfusion).cause h))
  | append_singleton es e ih =>
    cases ih hm.of_append with
    | option hoack hp hf hb => exact progress_option hoack hp hf hb e
    | waiting i hw hl hfull hack => exact progress_waiting hw hl hfull hack e hm
    | exited hp =>
      rw [progress_ended hp]
      exact .exited hp
    | aborted hp hc =>
      rw [progress_ended hp]
      rcases hc with hc | hc
      · exact .aborted hp (.inl hc)
      · exact .aborted hp (.inr (hc.append [e]))
    | completed hp hf =>
      rw [progress_ended hp]
      exact .completed hp (hf.append [e])

end WooTftpd
