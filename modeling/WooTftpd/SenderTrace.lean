import WooTftpd.Lib.StopAndWait
import WooTftpd.ReadSide
import WooTftpd.Sendfile

namespace WooTftpd
open Lib
set_option autoImplicit true

variable {t : Transfer} {content : List UInt8} {s : SendState}

def payload (t : Transfer) (content : List UInt8) (i : Nat) : List UInt8 :=
  chunk t.segsize (encode t.convert content) i

def dataPacket (t : Transfer) (content : List UInt8) (i : Nat) : List UInt8 :=
  tftphdr DATA (bn t.rolloverVal i) ++ payload t content i

/-- The state in which `tftp_sendfile` waits for the ACK of block `i`. -/
structure Waiting (t : Transfer) (content : List UInt8) (i : Nat) (s : SendState) : Prop where
  phase : s.phase = .data
  buffers : ReadInv t.convert t.segsize (encode t.convert content) (i + 1) s.subs s.file
  dp : s.dp = s.subs.current
  block : s.block = bn t.rolloverVal i
  size : s.size = (payload t content i).length
  packet : (s.subs.bfs s.dp).buf.load 0 (s.size + 4).toNat = dataPacket t content i

def SendsBlock (t : Transfer) (content : List UInt8) (i : Nat)
    (r : SendState × List Action) : Prop :=
  (Waiting t content i r.1 ∧ r.2.filterMap Action.sent? = [dataPacket t content i]) ∨
    (r.1.phase = .ended .aborted ∧ r.2.filterMap Action.sent? = [])

/-- Sending the same block again: the call of `read_ahead` that follows leaves the packet
in the current buffer alone. -/
theorem Waiting.sendData (h : Waiting t content i s) : SendsBlock t content i (sendData t s) := by
  simp only [WooTftpd.sendData]
  split
  · obtain ⟨hr, hc, hb⟩ := h.buffers.readAhead
    refine .inl ⟨⟨h.phase, hr, h.dp.trans hc.symm, h.block, h.size, ?_⟩, ?_⟩
    · dsimp only
      rw [h.dp, hb, ← h.dp]
      exact h.packet
    · rw [h.packet]
      rfl
  · exact .inr ⟨rfl, rfl⟩

theorem Waiting.timeout (h : Waiting t content i s) (timeout : Nat) :
    Waiting t content i { s with timeout := timeout } :=
  ⟨h.phase, h.buffers, h.dp, h.block, h.size, h.packet⟩

theorem Bf.Holds.packet {b : Bf} (h : b.Holds bs) (opcode block : UInt16) :
    (b.buf.store 0 (tftphdr opcode block)).load 0 (4 + bs.length) =
      tftphdr opcode block ++ bs := by
  have hh : (b.buf.store 0 (tftphdr opcode block)).load 0 4 = tftphdr opcode block :=
    Mem.load_store b.buf 0 (tftphdr opcode block)
  rw [Mem.load_add, hh, Nat.zero_add, Mem.load_store_disjoint _ _ (.inr (Nat.le_refl 4))]
  exact congrArg _ h.2

theorem readBlock_sends
    (hr : ReadInv t.convert t.segsize (encode t.convert content) i s.subs s.file)
    (hp : s.phase = .data) (hb : s.block = bn t.rolloverVal i) :
    SendsBlock t content i (readBlock t s) := by
  obtain ⟨hr', hh, hn⟩ := hr.readit
  have hpos : ¬ (readit t.convert t.segsize s.subs s.file).2.2 < 0 := by
    rw [hn]
    omega
  simp only [readBlock]
  rw [if_neg hpos]
  apply Waiting.sendData
  refine ⟨hp, hr'.setBuf _, rfl, hb, hn, ?_⟩
  dsimp only
  rw [hn, Subs.setBuf, Subs.setBf_same, hb]
  have hlen : ((chunk t.segsize (encode t.convert content) i).length + 4 : Int).toNat =
      4 + (chunk t.segsize (encode t.convert content) i).length := by omega
  rw [hlen]
  exact hh.packet DATA _

theorem startData_sends (t : Transfer) (content : List UInt8) (hf : s.file = .regular content)
    (hb : s.block = 1) : SendsBlock t content 0 (startData t s) := by
  apply readBlock_sends
  · dsimp only
    rw [hf]
    exact ReadInv.init t.convert t.segsize content s.subs
  · rfl
  · exact hb

theorem blockAcked_full (h : s.size = t.segsize) :
    blockAcked t s =
      let r := readBlock t { s with block := nextBlock t.rolloverVal s.block }
      (r.1, .incrementBlock s.size :: r.2) := by
  simp only [blockAcked, if_pos h]

theorem blockAcked_short (h : s.size ≠ t.segsize) :
    blockAcked t s =
      ({ s with block := nextBlock t.rolloverVal s.block, phase := .ended .completed },
        [.incrementBlock s.size, .endOperation]) := by
  simp only [blockAcked, if_neg h]

/-- Everything that an event can do while the ACK of block `i` is awaited. -/
theorem Waiting.step (h : Waiting t content i s) (e : Parsed) :
    let r := dataStep t s e
    (e = .timeout ∧ SendsBlock t content i r) ∨
    (e = .packet ACK (bn t.rolloverVal i) ∧ (payload t content i).length = t.segsize ∧
      SendsBlock t content (i + 1) r) ∨
    (e = .packet ACK (bn t.rolloverVal i) ∧ (payload t content i).length < t.segsize ∧
      r.1.phase = .ended .completed ∧ r.2.filterMap Action.sent? = []) ∨
    (r.2.filterMap Action.sent? = [] ∧
      (Waiting t content i r.1 ∨ r.1.phase = .ended .exited ∨ r.1.phase = .ended .aborted)) := by
  cases e with
  | timeout =>
    simp only [dataStep]
    cases timer t.maxtimeout false s.timeout with
    | none => exact .inr (.inr (.inr ⟨rfl, .inr (.inl rfl)⟩))
    | some timeout => exact .inl ⟨trivial, (h.timeout timeout).sendData⟩
  | recvError => exact .inr (.inr (.inr ⟨rfl, .inr (.inr rfl)⟩))
  | packet opcode block =>
    simp only [dataStep]
    by_cases he : opcode = ERROR
    · rw [if_pos he]
      exact .inr (.inr (.inr ⟨rfl, .inr (.inr rfl)⟩))
    · rw [if_neg he]
      by_cases ha : opcode = ACK ∧ block = s.block
      · have hblock : block = bn t.rolloverVal i := ha.2.trans h.block
        have hsize := h.size
        rw [if_pos ha, ha.1, hblock]
        by_cases hf : (payload t content i).length = t.segsize
        · refine .inr (.inl ⟨rfl, hf, ?_⟩)
          rw [blockAcked_full (by omega)]
          exact readBlock_sends h.buffers h.phase
            (congrArg (nextBlock t.rolloverVal) h.block)
        · have hle : (payload t content i).length ≤ t.segsize := List.length_take_le _ _
          refine .inr (.inr (.inl ⟨rfl, by omega, ?_⟩))
          rw [blockAcked_short (by omega)]
          exact ⟨rfl, rfl⟩
      · rw [if_neg ha]
        exact .inr (.inr (.inr ⟨rfl, .inl h⟩))

def ackOf (t : Transfer) (i : Nat) : Parsed := .packet ACK (bn t.rolloverVal i)

/-- The datagrams sent when `n` blocks were sent, block `i` repeated on `again i` timeouts,
each with the event that caused it. -/
def senderLog (t : Transfer) (content : List UInt8) (again : Nat → Nat) (n : Nat) :
    List (Option Parsed × List UInt8) :=
  stopAndWait .timeout (ackOf t) (dataPacket t content) again n

def sender (t : Transfer) (content : List UInt8) (ackbuf : Mem) (subs : Subs)
    (timeout sends : Nat) : Machine SendState Parsed Action :=
  dataPhase t { sendInit ackbuf timeout (.regular content) with subs := subs, sends := sends }

/-- The loop has ended normally: the last event that it saw was the ACK of the last block
sent, and that block is short. -/
def Finished (M : Machine SendState Parsed Action) (t : Transfer) (content : List UInt8)
    (es : List Parsed) (n : Nat) : Prop :=
  ∃ i pre post, n = i + 1 ∧ (payload t content i).length < t.segsize ∧
    es = pre ++ ackOf t i :: post ∧ (M.run pre).state.phase = .data ∧
    (M.run pre).observe Action.sent? = (M.run es).observe Action.sent?

/-- What relates a configuration of the data phase to the blocks it has sent. -/
structure SenderTrace (M : Machine SendState Parsed Action) (t : Transfer)
    (content : List UInt8) (es : List Parsed) (n : Nat) (again : Nat → Nat) : Prop where
  sent : (M.run es).observe Action.sent? = senderLog t content again n
  full : ∀ i, i + 1 < n → (payload t content i).length = t.segsize
  state : (∃ i, n = i + 1 ∧ Waiting t content i (M.run es).state) ∨
    (M.run es).state.phase = .ended .exited ∨ (M.run es).state.phase = .ended .aborted ∨
    ((M.run es).state.phase = .ended .completed ∧ Finished M t content es n)

theorem observe_sender_concat (M : Machine SendState Parsed Action) (es : List Parsed)
    (e : Parsed) :
    (M.run (es ++ [e])).observe Action.sent? = (M.run es).observe Action.sent? ++
      ((M.step (M.run es).state e).2.filterMap Action.sent?).map fun b => (some e, b) := by
  rw [Machine.run_concat, Machine.observe_next]

theorem SenderTrace.quiet {M : Machine SendState Parsed Action}
    (h : SenderTrace M t content es n again) (e : Parsed)
    (hq : (M.step (M.run es).state e).2.filterMap Action.sent? = []) :
    (M.run (es ++ [e])).observe Action.sent? = senderLog t content again n := by
  rw [observe_sender_concat, hq, h.sent, List.map_nil, List.append_nil]

theorem SendsBlock.trace {M : Machine SendState Parsed Action}
    (hs : SendsBlock t content i (M.step (M.run es).state e))
    (hsent : (M.run es).observe Action.sent? = senderLog t content again n)
    (hfull : ∀ j, j + 1 < n → (payload t content j).length = t.segsize)
    (hlog : senderLog t content again' (i + 1) =
      senderLog t content again n ++ [(some e, dataPacket t content i)])
    (hfull' : ∀ j, j + 1 < i + 1 → (payload t content j).length = t.segsize) :
    ∃ n again, SenderTrace M t content (es ++ [e]) n again := by
  have hobs := observe_sender_concat M es e
  rcases hs with ⟨hw, hp⟩ | ⟨ha, hp⟩
  · rw [hp, hsent, List.map_singleton, ← hlog] at hobs
    refine ⟨i + 1, again', hobs, hfull', .inl ⟨i, rfl, ?_⟩⟩
    rw [Machine.run_concat]
    exact hw
  · rw [hp, hsent, List.map_nil, List.append_nil] at hobs
    refine ⟨n, again, hobs, hfull, .inr (.inr (.inl ?_))⟩
    rw [Machine.run_concat]
    exact ha

section Sender

variable {ackbuf : Mem} {subs : Subs} {timeout sends : Nat}

theorem sender_step_data (t : Transfer) (content : List UInt8) (ackbuf : Mem) (subs : Subs)
    (timeout sends : Nat) (h : s.phase = .data) (e : Parsed) :
    (sender t content ackbuf subs timeout sends).step s e = dataStep t s e := by
  simp only [sender, dataPhase, h, if_true]

theorem sender_step_ended (t : Transfer) (content : List UInt8) (ackbuf : Mem) (subs : Subs)
    (timeout sends : Nat) (h : s.phase = .ended how) (e : Parsed) :
    (sender t content ackbuf subs timeout sends).step s e = (s, []) := by
  simp only [sender, dataPhase, h, reduceCtorEq, if_false]

theorem SenderTrace.ended
    (h : SenderTrace (sender t content ackbuf subs timeout sends) t content es n again)
    (hp : ((sender t content ackbuf subs timeout sends).run es).state.phase = .ended how)
    (e : Parsed) :
    SenderTrace (sender t content ackbuf subs timeout sends) t content (es ++ [e]) n again := by
  have hstep := sender_step_ended t content ackbuf subs timeout sends hp e
  have hobs := h.quiet e (by rw [hstep]; rfl)
  refine ⟨hobs, h.full, ?_⟩
  rw [Machine.run_concat]
  simp only [Machine.next, hstep]
  rcases h.state with ⟨i, _, hw⟩ | he | ha | ⟨hc, i, pre, post, hn, hs, hes, hd, ho⟩
  · rw [hw.phase] at hp
    cases hp
  · exact .inr (.inl he)
  · exact .inr (.inr (.inl ha))
  · refine .inr (.inr (.inr ⟨hc, i, pre, post ++ [e], hn, hs, ?_, hd, ?_⟩))
    · rw [hes, List.append_assoc, List.cons_append]
    · rw [ho, hobs, h.sent]

theorem SenderTrace.waiting
    (h : SenderTrace (sender t content ackbuf subs timeout sends) t content es (i + 1) again)
    (hw : Waiting t content i ((sender t content ackbuf subs timeout sends).run es).state)
    (e : Parsed) :
    ∃ n again,
      SenderTrace (sender t content ackbuf subs timeout sends) t content (es ++ [e]) n again := by
  have hstep := sender_step_data t content ackbuf subs timeout sends hw.phase e
  have hcase := hw.step e
  rw [← hstep] at hcase
  -- A timeout, the ACK of a full block, the ACK of a short one, and everything else.
  rcases hcase with ⟨rfl, hs⟩ | ⟨rfl, hf, hs⟩ | ⟨rfl, hsh, hc, hq⟩ | ⟨hq, hst⟩
  · exact hs.trace h.sent h.full (stopAndWait_resend _ _ _ _ _) h.full
  · apply hs.trace h.sent h.full (stopAndWait_advance _ _ _ _ _)
    intro j hj
    rcases Nat.lt_succ_iff_lt_or_eq.1 (Nat.lt_of_succ_lt_succ hj) with hlt | heq
    · exact h.full j (Nat.succ_lt_succ hlt)
    · rw [heq]
      exact hf
  · have hobs := h.quiet _ hq
    refine ⟨i + 1, again, hobs, h.full, .inr (.inr (.inr ⟨?_, i, es, [], rfl, hsh, rfl, ?_, ?_⟩))⟩
    · rw [Machine.run_concat]
      exact hc
    · exact hw.phase
    · rw [h.sent, hobs]
  · refine ⟨i + 1, again, h.quiet e hq, h.full, ?_⟩
    rw [Machine.run_concat]
    rcases hst with hw' | he | ha
    · exact .inl ⟨i, rfl, hw'⟩
    · exact .inr (.inl he)
    · exact .inr (.inr (.inl ha))

theorem sender_run (t : Transfer) (content : List UInt8) (ackbuf : Mem) (subs : Subs)
    (timeout sends : Nat) (es : List Parsed) :
    ∃ n again, SenderTrace (sender t content ackbuf subs timeout sends) t content es n again := by
  induction es using List.reverseRecOn with
  | nil =>
    have hstart : SendsBlock t content 0 (sender t content ackbuf subs timeout sends).start :=
      startData_sends t content rfl rfl
    have hobs := Machine.observe_init (sender t content ackbuf subs timeout sends) Action.sent?
    rcases hstart with ⟨hw, hp⟩ | ⟨ha, hp⟩
    · rw [hp] at hobs
      refine ⟨1, fun _ => 0, hobs, ?_, .inl ⟨0, rfl, hw⟩⟩
      intro i hi
      omega
    · rw [hp] at hobs
      refine ⟨0, fun _ => 0, hobs, ?_, .inr (.inr (.inl ha))⟩
      intro i hi
      omega
  | append_singleton es e ih =>
    obtain ⟨n, again, h⟩ := ih
    rcases h.state with ⟨i, hn, hw⟩ | he | ha | ⟨hc, _⟩
    · subst hn
      exact h.waiting hw e
    · exact ⟨n, again, h.ended he e⟩
    · exact ⟨n, again, h.ended ha e⟩
    · exact ⟨n, again, h.ended hc e⟩

end Sender

theorem sendData_one (t : Transfer) (s : SendState) :
    ((sendData t s).2.filterMap Action.sent?).length ≤ 1 := by
  simp only [sendData]
  split
  · exact Nat.le_refl 1
  · exact Nat.zero_le 1

theorem readBlock_one (t : Transfer) (s : SendState) :
    ((readBlock t s).2.filterMap Action.sent?).length ≤ 1 := by
  simp only [readBlock]
  split
  · exact Nat.zero_le 1
  · exact sendData_one t _

theorem dataStep_one (t : Transfer) (s : SendState) (e : Parsed) :
    ((dataStep t s e).2.filterMap Action.sent?).length ≤ 1 := by
  cases e with
  | timeout =>
    simp only [dataStep]
    split
    · exact Nat.zero_le 1
    · exact sendData_one t _
  | recvError => exact Nat.zero_le 1
  | packet opcode block =>
    simp only [dataStep]
    split
    · exact Nat.zero_le 1
    split
    · by_cases hs : s.size = t.segsize
      · rw [blockAcked_full hs]
        exact readBlock_one t _
      · rw [blockAcked_short hs]
        exact Nat.zero_le 1
    · exact Nat.zero_le 1

/-- Over every sequence of timeouts and received packets, the data phase sends the blocks of
the file in order, each first on the ACK of the block before it and again only on timeouts,
and it ends normally only on the ACK of the first short block. -/
theorem tftpSendfile_sends_blocks (t : Transfer) (content : List UInt8) (ackbuf : Mem)
    (subs : Subs) (timeout sends : Nat) (es : List Parsed) :
    let M := sender t content ackbuf subs timeout sends
    ∃ n again,
      (M.run es).observe Action.sent? = senderLog t content again n ∧
      (((M.run es).observe Action.sent?).map Prod.fst).Sublist (none :: es.map some) ∧
      (∀ i, i + 1 < n → (payload t content i).length = t.segsize) ∧
      ((M.run es).state.phase = .ended .completed → Finished M t content es n) := by
  intro M
  obtain ⟨n, again, h⟩ := sender_run t content ackbuf subs timeout sends es
  have hcauses := M.observe_causes Action.sent? (readBlock_one t _) ?_ es
  · refine ⟨n, again, h.sent, hcauses, h.full, ?_⟩
    intro hc
    rcases h.state with ⟨i, _, hw⟩ | he | ha | ⟨_, hf⟩
    · rw [hw.phase] at hc
      cases hc
    · rw [he] at hc
      cases hc
    · rw [ha] at hc
      cases hc
    · exact hf
  · intro s e
    by_cases hd : s.phase = .data
    · rw [sender_step_data _ _ _ _ _ _ hd]
      exact dataStep_one t s e
    · simp only [M, sender, dataPhase, if_neg hd]
      exact Nat.zero_le 1

end WooTftpd
