import WooTftpd.Delivery
import WooTftpd.Lib.Recovery

namespace WooTftpd
open Lib
set_option autoImplicit true

variable {t : Transfer} {strerror : Nat → CString}

theorem mem_sends (h : .send d ∈ as) : d ∈ (socket strerror).sends as :=
  List.mem_filterMap.2 ⟨_, h, rfl⟩

/-- The timer of the next timeout does not end the transfer. -/
def SendState.Lives (t : Transfer) (s : SendState) : Prop :=
  (∀ how, s.phase ≠ .ended how) ∧ (timer t.maxtimeout false s.timeout).isSome

def RecvState.Lives (t : Transfer) (s : RecvState) : Prop :=
  (∀ how, s.phase ≠ .ended how) ∧
    (s.phase = .waiting → (timer t.maxtimeout false s.timeout).isSome)

section Download

variable {oack : Option Nat} {ackbuf : Mem} {content : List UInt8} {s : SendState}
  {c : Config SendState Event Action}

theorem sendData_answers (hok : ∀ k, t.sendOk k = true) (s : SendState) :
    ∃ d, .send d ∈ (sendData t s).2 := by
  simp only [sendData, hok, if_true]
  exact ⟨_, List.mem_singleton_self _⟩

theorem readBlock_answers (hok : ∀ k, t.sendOk k = true) {text : List UInt8}
    (hr : ReadInv t.convert t.segsize text i s.subs s.file) :
    ∃ d, .send d ∈ (readBlock t s).2 := by
  obtain ⟨-, -, hn⟩ := hr.readit
  have hpos : ¬ (readit t.convert t.segsize s.subs s.file).2.2 < 0 := by
    rw [hn]
    omega
  simp only [readBlock]
  rw [if_neg hpos]
  exact sendData_answers hok _

theorem SendsBlock.sent (h : SendsBlock t content i r) (hs : ∃ d, .send d ∈ r.2) :
    Waiting t content i r.1 ∧ .send (dataPacket t content i) ∈ r.2 := by
  obtain ⟨d, hd⟩ := hs
  have hmem : d ∈ r.2.filterMap Action.sent? := List.mem_filterMap.2 ⟨_, hd, rfl⟩
  rcases h with ⟨hw, hs⟩ | ⟨-, hs⟩
  · rw [hs] at hmem
    rw [← List.mem_singleton.1 hmem]
    exact ⟨hw, hd⟩
  · rw [hs] at hmem
    cases hmem

theorem SendsBlock.reaches {M : Machine SendState Event Action} {e : Event}
    (h : SendsBlock t content i (M.step c.state e)) (hs : ∃ d, .send d ∈ (M.step c.state e).2) :
    (senderView t oack ackbuf content).At (M.next c e) (i + 1) ∧
      ∃ b ∈ M.output (socket strerror) c e,
        (downloadWire t oack ackbuf).msg (payload t content) (i + 1) b := by
  obtain ⟨hw, hmem⟩ := h.sent hs
  exact ⟨hw, _, mem_sends hmem, rfl⟩

theorem sendfile_sendsNext (hok : ∀ k, t.sendOk k = true) (oack : Option Nat) (ackbuf : Mem)
    (content : List UInt8) (strerror : Nat → CString) :
    SendsNext (downloadWire t oack ackbuf) (payload t content) (senderView t oack ackbuf content)
      (tftpSendfile t oack ackbuf (.regular content)) (socket strerror) := by
  intro c p b h hm hb
  have hack := downloadWire_reply hb
  cases p with
  | zero =>
    have hg : Greeted oack ackbuf content c.state := h
    have hstep := sendfile_optionStep t oack ackbuf (.regular content) hg.phase (.datagram b)
    rw [hack, parse_ack, ← hack] at hstep
    apply SendsBlock.reaches (e := .datagram b)
    · rw [hstep]
      exact startData_sends t content hg.file hg.block
    · rw [hstep]
      have hbuffers : ReadInv t.convert t.segsize (encode t.convert content) 0
          (rInit c.state.subs) c.state.file := by
        rw [hg.file]
        exact ReadInv.init t.convert t.segsize content _
      exact readBlock_answers hok hbuffers
  | succ i =>
    have hw : Waiting t content i c.state := h
    have hstep := sendfile_dataStep t oack ackbuf (.regular content) hw.phase (.datagram b)
    rw [hack, parse_ack, ← hack] at hstep
    have hfull : (payload t content i).length = t.segsize := not_not.1 hm
    apply SendsBlock.reaches (e := .datagram b)
    · rw [hstep]
      exact (hw.received _).acked.1 hfull
    · have hnum : (downloadWire t oack ackbuf).num (i + 1) = c.state.block := hw.block.symm
      rw [hstep, dataStep_ackNumber, if_pos hnum, blockAcked_full]
      · obtain ⟨d, hd⟩ := readBlock_answers (t := t)
          (s := { c.state with
            ackbuf := (parse c.state.ackbuf (.datagram b)).1
            block := nextBlock t.rolloverVal c.state.block }) hok hw.buffers
        exact ⟨d, List.mem_cons_of_mem _ hd⟩
      · dsimp only
        rw [hw.size, hfull]

theorem sendfile_lives (hok : ∀ k, t.sendOk k = true) (oack : Option Nat) (ackbuf : Mem)
    (content : List UInt8) (strerror : Nat → CString) (h : c.state.Lives t) :
    SenderLives (downloadWire t oack ackbuf) (payload t content)
      (senderView t oack ackbuf content) (tftpSendfile t oack ackbuf (.regular content))
      (socket strerror) c := by
  intro p hp
  obtain ⟨hgoing, htimer⟩ := h
  obtain ⟨timeout, ht⟩ := Option.isSome_iff_exists.1 htimer
  rcases hp with hat | hover | ⟨how, -, hout⟩
  · refine ⟨hat, .timeout, rfl, ?_⟩
    cases p with
    | zero =>
      have hg : Greeted oack ackbuf content c.state := hat
      obtain ⟨oacklen, ho, hk⟩ := hg.kept
      have hstep := sendfile_optionStep t oack ackbuf (.regular content) hg.phase .timeout
      simp only [parse, optionStep, ht, sendOack, hok, if_true, ho, Option.getD_some, hk] at hstep
      refine ⟨?_, ackbuf.load 0 oacklen, mem_sends ?_, oacklen, ho, rfl⟩
      · simp only [senderView, Machine.next, hstep, ho]
        exact ⟨hg.phase, ⟨oacklen, rfl, hk⟩, hg.file, hg.block⟩
      · simp only [ho, hstep]
        exact List.mem_singleton_self _
    | succ i =>
      have hw : Waiting t content i c.state := hat
      have hstep := sendfile_dataStep t oack ackbuf (.regular content) hw.phase .timeout
      simp only [parse, dataStep, ht] at hstep
      apply SendsBlock.reaches
      · rw [hstep]
        exact (hw.timeout timeout).sendData
      · rw [hstep]
        exact sendData_answers hok _
  · exact absurd hover (hgoing _)
  · exact absurd hout (hgoing _)

end Download

section Upload

variable {oack : Option Nat} {ackbuf : Mem} {s : RecvState} {ds : List (List UInt8)}
  {c : Config RecvState Event Action} {greeting : List UInt8 → Prop}

theorem blockReceived_answers (hok : ∀ k, t.sendOk k = true) (oacklen n : Nat) (s : RecvState) :
    ∃ d, .send d ∈ (blockReceived t oacklen n s).2 := by
  have hends (as : List Action) (a a' : Action) (h : ∃ d, .send d ∈ as) :
      ∃ d, .send d ∈ a :: a' :: as := by
    obtain ⟨d, hd⟩ := h
    exact ⟨d, List.mem_cons_of_mem _ (List.mem_cons_of_mem _ hd)⟩
  rw [blockReceived_eq]
  apply hends
  split
  · simp only [replyBlock]
    rw [sendAck_sent (hok _)]
    exact ⟨_, List.mem_singleton_self _⟩
  · simp only [finalAck, hok, if_true]
    exact ⟨_, List.mem_cons_of_mem _ (List.mem_singleton_self _)⟩

theorem HasReceived.not_waiting (h : HasReceived t oack ackbuf c ds) :
    c.state.phase ≠ .waiting := by
  intro hp
  rcases h.stopped with ⟨hd, -⟩ | ⟨how, he⟩
  · exact absurd (hp.symm.trans hd.phase) RecvPhase.noConfusion
  · exact absurd (hp.symm.trans he) RecvPhase.noConfusion

theorem recvfile_acksNext (hok : ∀ k, t.sendOk k = true) (oack : Option Nat) (ackbuf : Mem)
    (greeting : List UInt8 → Prop) (strerror : Nat → CString) :
    AcksNext (uploadWire t oack ackbuf greeting) (receiverView t oack ackbuf)
      (tftpRecvfile t oack ackbuf) (socket strerror) := by
  rintro c xs x d ⟨ds, rfl, h⟩ hx hd
  rw [length_accepted] at hd ⊢
  obtain ⟨hacc, hst, hsent⟩ := h.takes hx hd
  have hstep := h.blockStep hx hd
  obtain ⟨d', hd'⟩ := blockReceived_answers hok (oack.getD 0) (x.length + 4)
    (recvDatagram d c.state)
  rw [← hstep] at hd'
  refine ⟨?_, d', mem_sends hd', ?_⟩
  · by_cases hf : x.length = t.segsize
    · right
      have hphase : ((tftpRecvfile t oack ackbuf).step c.state (.datagram d)).1.phase =
          .waiting := by
        rw [hstep]
        exact (blockReceived_full hok (oack.getD 0) (by omega) _).1.trans h.expecting.phase
      rcases hst with hr | hr
      · exact ⟨_, hacc, hr⟩
      · exact absurd hphase hr.not_waiting
    · exact .inl hf
  · rw [hsent d' (List.mem_filterMap.2 ⟨_, hd', rfl⟩), List.length_append]
    exact reply_replyTo t oack ackbuf greeting _

theorem recvfile_lives (hok : ∀ k, t.sendOk k = true) (oack : Option Nat) (ackbuf : Mem)
    (greeting : List UInt8 → Prop) (strerror : Nat → CString) (hlast : ComparesLast c.state)
    (h : c.state.Lives t) :
    ReceiverLives (uploadWire t oack ackbuf greeting) (receiverView t oack ackbuf)
      (tftpRecvfile t oack ackbuf) (socket strerror) c := by
  rintro xs (⟨ds, rfl, hr⟩ | ⟨ds, rfl, hr⟩)
  · left
    obtain ⟨timeout, ht⟩ := Option.isSome_iff_exists.1 (h.2 hr.expecting.phase)
    have hstep : (tftpRecvfile t oack ackbuf).step c.state .timeout =
        sendAck t { c.state with timeout := timeout } := by
      refine (recvStep_waiting hr.expecting.phase t _ _).trans ?_
      simp only [waitStep, ht]
    rw [sendAck_sent (hok _)] at hstep
    refine ⟨⟨ds, rfl, hr⟩, .timeout, rfl, ?_, replyTo t (firstReply oack ackbuf) ds.length,
      mem_sends ?_, ?_⟩
    · rcases (hr.answers greeting strerror .timeout fun _ => Event.noConfusion).1 with hhas | ⟨_, _, hg⟩
      · exact hhas
      · refine absurd ?_ hg.not_waiting
        simp only [Machine.next, hstep]
        exact hr.expecting.phase
    · rw [hstep]
      have hreply := hr.expecting.reply
      rw [length_accepted] at hreply
      rw [← hreply]
      exact List.mem_singleton_self _
    · rw [length_accepted]
      exact reply_replyTo t oack ackbuf greeting _
  · right
    rcases hr.stopped with ⟨hd, hu⟩ | ⟨how, hend⟩
    · obtain ⟨x, hx, hne⟩ := hr.complete.1 hu
      refine ⟨x, hx, hne, ?_⟩
      intro hfits
      obtain ⟨i, hi⟩ := Nat.exists_eq_succ_of_ne_zero (List.length_pos_of_mem hx).ne'
      let d := tftphdr DATA ((uploadWire t oack ackbuf greeting).num (accepted ds).length) ++ x
      obtain ⟨-, hsent⟩ := (hd.resends_iff hlast hi d).2 (IsBlock.header ⟨x, rfl⟩)
      rw [hok, if_pos rfl, ← recvStep_dally hd.phase t (oack.getD 0)] at hsent
      refine ⟨tftphdr ACK (bn t.rolloverVal i), mem_sends ?_, ?_⟩
      · have hmem : .send (tftphdr ACK (bn t.rolloverVal i)) ∈
            (recvStep t (oack.getD 0) c.state (.datagram d)).2 := by
          rw [hsent]
          exact List.mem_singleton_self _
        exact hmem
      · rw [hi]
        rfl
    · exact absurd hend (h.1 how)

end Upload

section Copy

variable {t' : Transfer} {o : Order} {oack : Option Nat} {ackbuf ackbuf' : Mem}
  {content : List UInt8} {strerror' : Nat → CString}
  {l : Link SendState Event Action RecvState Event Action (List UInt8)}

theorem payload_short (h : 0 < t.segsize) (content : List UInt8) :
    (payload t content ((encode t.convert content).length / t.segsize)).length ≠ t.segsize := by
  have hlt := Nat.mod_lt (encode t.convert content).length h
  have hdm := Nat.div_add_mod (encode t.convert content).length t.segsize
  rw [payload, chunk, List.length_take, List.length_drop, Nat.mul_comm]
  omega

/-- The transfer never gets stuck: wherever losses and repeated datagrams have brought it, while
neither end has given up, one timeout of the right end and then deliveries alone complete it, two
for each block of the file at most, and the file has arrived unchanged. -/
theorem copy_recovers (ha : Agree t t') (hf : t'.faults = .clean)
    (hg : ∀ d, Greeting oack ackbuf d → NotData d) (hok : ∀ k, t.sendOk k = true)
    (hok' : ∀ k, t'.sendOk k = true) (hpos : 0 < t.segsize) (hseg : t.segsize ≤ maxSegsize)
    (hd : Distinguishable o t (payload t content))
    (h : (linkSystem o (tftpSendfile t oack ackbuf (.regular content)) (socket strerror)
      (tftpRecvfile t' none ackbuf') (socket strerror')).Reachable l)
    (hs : l.sender.state.Lives t) (hr : l.receiver.state.Lives t') :
    let S := linkSystem o (tftpSendfile t oack ackbuf (.regular content)) (socket strerror)
      (tftpRecvfile t' none ackbuf') (socket strerror')
    ∃ e l' es l'', S.next l e = some l' ∧ S.exec l' es = some l'' ∧
      (∀ e' ∈ es, e'.Delivers) ∧
      es.length ≤ 2 * ((encode t.convert content).length / t.segsize) + 4 ∧
      l''.sender.state.phase = .ended .completed ∧
      Uploaded l''.receiver ∧ l''.receiver.state.file.stored = content := by
  intro S
  let N := (encode t.convert content).length / t.segsize
  obtain ⟨p, k, hin⟩ := inStep_copy ha hg hseg hd h
  obtain ⟨-, es', hrun⟩ := runs_of_reachable h
  have hM := sendfile_sendsInTurn t oack ackbuf content strerror
  have hM' := recvfile_takesInTurn t' none ackbuf' (Greeting oack ackbuf) hg strerror'
  have hsn := sendfile_sendsNext hok oack ackbuf content strerror
  have han := recvfile_acksNext hok' none ackbuf' (Greeting oack ackbuf) strerror'
  have hsl := sendfile_lives hok oack ackbuf content strerror hs
  have hlast : ComparesLast l.receiver.state := by
    rw [hrun]
    exact recvfile_comparesLast t' none ackbuf' es'
  have hrl := recvfile_lives hok' none ackbuf' (Greeting oack ackbuf) strerror' hlast hr
  rw [ha.wire] at hM' han hrl
  have hfits (i : Nat) : (downloadWire t oack ackbuf).fits (payload t content i) :=
    Nat.le_trans (length_payload_le t content i) hseg
  have hends : (downloadWire t oack ackbuf).Ends (payload t content) (N + 1) :=
    payload_short hpos content
  obtain ⟨e, l', es, hn, ⟨hdel, l'', q, hx, hover⟩, hlen⟩ :=
    hin.recovers hM hM' hsn han hfits hsl hrl hends
  have hreach : S.Reachable l'' := by
    apply (System.Reach.step h trivial hn).exec (fun _ _ _ => trivial) hx
  obtain ⟨p', k', hin'⟩ := inStep_copy ha hg hseg hd hreach
  rw [← ha.wire oack ackbuf ackbuf'] at hin' hM
  obtain ⟨-, -, hup, hcontent, hdone⟩ := inStep_upload hf hM hin'
  have hu := hdone q hover
  obtain ⟨i, rfl, hshort⟩ := hup.1 hu
  rw [ha.segsize] at hshort
  refine ⟨e, l', es, l'', hn, hx, hdel, ?_, hover, hu, ?_⟩
  · change es.length ≤ 2 * N + 4
    omega
  · rw [hcontent hu, flatten_taken_ended hshort, ha.convert]
    exact decode_encode t.convert content

/-- The transfer of one byte can be completed from its start. -/
theorem oneByte_recovers :
    ∃ l, oneByteLink.Reachable l ∧ l.sender.state.phase = .ended .completed ∧
      l.receiver.state.file.stored = [65] := by
  let start := Link.init (tftpSendfile octetTransfer none .zero (.regular [65]))
    (socket fun _ => .empty) (tftpRecvfile octetTransfer none .zero) (socket fun _ => .empty)
  have hstart : oneByteLink.Reachable start := .init rfl
  have hs : start.sender.state.Lives octetTransfer :=
    ⟨fun _ h => SendPhase.noConfusion h, by decide⟩
  have hr : start.receiver.state.Lives octetTransfer :=
    ⟨fun _ h => RecvPhase.noConfusion h, fun _ => by decide⟩
  obtain ⟨e, l', es, l, hn, hx, -, -, hp, -, hc⟩ := copy_recovers ⟨rfl, rfl, rfl⟩ rfl
    (no_greeting .zero) (fun _ => rfl) (fun _ => rfl) (by decide) (by decide)
    oneByte_distinguishable hstart hs hr
  exact ⟨l, (System.Reach.step hstart trivial hn).exec (fun _ _ _ => trivial) hx, hp, hc⟩

end Copy

end WooTftpd
