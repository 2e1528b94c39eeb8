import WooTftpd.OptionPhase
import WooTftpd.Options

namespace WooTftpd
open Lib
set_option autoImplicit true

variable {t : Transfer} {s : SendState}

theorem nextBlock_eq_self_iff (r block : UInt16) :
    nextBlock r block = block ↔ r = 65535 ∧ block = 65535 := by
  have hlast : block + 1 = 0 ↔ block = 65535 := by
    rw [← UInt16.toNat_inj, ← UInt16.toNat_inj, UInt16.toNat_add]
    have hlt := block.toNat_lt
    change (block.toNat + 1) % 65536 = 0 ↔ block.toNat = 65535
    omega
  have hstep : block + 1 ≠ block := by
    intro h
    have hn := congrArg UInt16.toNat h
    have hlt := block.toNat_lt
    rw [UInt16.toNat_add] at hn
    change (block.toNat + 1) % 65536 = block.toNat at hn
    omega
  by_cases hb : block = 65535
  · rw [nextBlock, if_pos (hlast.2 hb), hb]
    exact (and_iff_left rfl).symm
  · rw [nextBlock, if_neg (mt hlast.1 hb)]
    exact iff_of_false hstep fun h => hb h.2

/-- Up to the first rollover a block has its own number. -/
theorem bn_toNat (r : UInt16) (h : i < 65535) : (bn r i).toNat = i + 1 := by
  induction i with
  | zero => rfl
  | succ i ih =>
    have hi := ih (Nat.lt_of_succ_lt h)
    have hsucc : (bn r i + 1).toNat = i + 2 := by
      rw [UInt16.toNat_add, hi]
      change (i + 1 + 1) % 65536 = i + 2
      omega
    have hne : bn r i + 1 ≠ 0 := by
      intro hz
      rw [hz] at hsucc
      cases hsucc
    rw [bn, nextBlock, if_neg hne]
    exact hsucc

theorem bn_ne_succ_iff (r : UInt16) : (∀ i, bn r i ≠ bn r (i + 1)) ↔ r ≠ 65535 := by
  constructor
  · rintro h rfl
    have hlast : bn 65535 65534 = 65535 := by
      apply UInt16.toNat_inj.1
      exact bn_toNat 65535 (by decide)
    exact h 65534 ((nextBlock_eq_self_iff _ _).2 ⟨rfl, hlast⟩).symm
  · intro hr i he
    exact hr ((nextBlock_eq_self_iff r (bn r i)).1 he.symm).1

def Action.acked? : Action → Option Int
  | .incrementBlock size => some size
  | _ => none

theorem sendData_acked (t : Transfer) (s : SendState) :
    (sendData t s).1.block = s.block ∧ (sendData t s).2.filterMap Action.acked? = [] := by
  simp only [sendData]
  split
  · exact ⟨rfl, rfl⟩
  · exact ⟨rfl, rfl⟩

theorem readBlock_acked (t : Transfer) (s : SendState) :
    (readBlock t s).1.block = s.block ∧ (readBlock t s).2.filterMap Action.acked? = [] := by
  simp only [readBlock]
  split
  · exact ⟨rfl, rfl⟩
  · exact sendData_acked t _

theorem sendOack_acked (t : Transfer) (oacklen : Nat) (s : SendState) :
    (sendOack t oacklen s).1.block = s.block ∧
      (sendOack t oacklen s).2.filterMap Action.acked? = [] := by
  simp only [sendOack]
  split
  · exact ⟨rfl, rfl⟩
  · exact ⟨rfl, rfl⟩

theorem blockAcked_acked (t : Transfer) (s : SendState) :
    (blockAcked t s).1.block = nextBlock t.rolloverVal s.block ∧
      (blockAcked t s).2.filterMap Action.acked? = [s.size] := by
  simp only [blockAcked]
  split
  · obtain ⟨hb, ha⟩ := readBlock_acked t { s with block := nextBlock t.rolloverVal s.block }
    exact ⟨hb, congrArg _ ha⟩
  · exact ⟨rfl, rfl⟩

theorem optionStep_acked (t : Transfer) (oacklen : Nat) (s : SendState) (e : Parsed) :
    (optionStep t oacklen s e).1.block = s.block ∧
      (optionStep t oacklen s e).2.filterMap Action.acked? = [] := by
  cases e with
  | timeout =>
    simp only [optionStep]
    cases timer t.maxtimeout false s.timeout with
    | none => exact ⟨rfl, rfl⟩
    | some timeout => exact sendOack_acked t oacklen _
  | recvError => exact ⟨rfl, rfl⟩
  | packet opcode block =>
    simp only [optionStep]
    repeat' split
    · exact ⟨rfl, rfl⟩
    · exact readBlock_acked t _
    · exact sendOack_acked t oacklen s
    · exact ⟨rfl, rfl⟩

theorem dataStep_acked (t : Transfer) (s : SendState) (e : Parsed) :
    (e = .packet ACK s.block ∧ dataStep t s e = blockAcked t s) ∨
      ((dataStep t s e).1.block = s.block ∧ (dataStep t s e).2.filterMap Action.acked? = []) := by
  cases e with
  | timeout =>
    right
    simp only [dataStep]
    cases timer t.maxtimeout false s.timeout with
    | none => exact ⟨rfl, rfl⟩
    | some timeout => exact sendData_acked t _
  | recvError => exact .inr ⟨rfl, rfl⟩
  | packet opcode block =>
    simp only [dataStep]
    split
    · exact .inr ⟨rfl, rfl⟩
    split
    · rename_i ha
      obtain ⟨rfl, rfl⟩ := ha
      exact .inl ⟨rfl, rfl⟩
    · exact .inr ⟨rfl, rfl⟩

/-- The block number moves on with the acknowledgement of a block, which is an ACK of the
number that is awaited, and with nothing else. -/
theorem sendStep_acked (t : Transfer) (oacklen : Nat) (s : SendState) (e : Event) :
    let r := sendStep t oacklen s e
    (s.phase = .data ∧ (parse s.ackbuf e).2 = .packet ACK s.block ∧
      r.1.block = nextBlock t.rolloverVal s.block ∧ r.2.filterMap Action.acked? = [s.size]) ∨
    (r.1.block = s.block ∧ r.2.filterMap Action.acked? = []) := by
  cases hp : s.phase with
  | ended how =>
    rw [sendStep_ended hp]
    exact .inr ⟨rfl, rfl⟩
  | option =>
    rw [sendStep_option hp]
    exact .inr (optionStep_acked t oacklen _ _)
  | data =>
    rw [sendStep_data hp]
    rcases dataStep_acked t { s with ackbuf := (parse s.ackbuf e).1 } (parse s.ackbuf e).2 with
      ⟨he, hr⟩ | hr
    · rw [hr]
      exact .inl ⟨rfl, he, blockAcked_acked t _⟩
    · exact .inr hr

def acknowledged (c : Config SendState Event Action) : Nat :=
  ((c.log.map Prod.snd).filterMap Action.acked?).length

theorem sendfile_block (t : Transfer) (oack : Option Nat) (ackbuf : Mem) (f : InFile)
    (es : List Event) :
    let c := (tftpSendfile t oack ackbuf f).run es
    c.state.block = bn t.rolloverVal (acknowledged c) := by
  apply (tftpSendfile t oack ackbuf f).run_induction
    (P := fun _ c => c.state.block = bn t.rolloverVal (acknowledged c))
  · rw [acknowledged, Machine.log_init]
    cases oack with
    | none =>
      obtain ⟨hb, ha⟩ := readBlock_acked t
        { sendInit ackbuf t.rexmtval f with phase := .data, subs := rInit .static }
      simp only [tftpSendfile, List.filterMap_cons, Action.acked?]
      exact hb.trans (congrArg (fun as => bn t.rolloverVal (List.length as)) ha.symm)
    | some oacklen =>
      obtain ⟨hb, ha⟩ := sendOack_acked t oacklen (sendInit ackbuf t.rexmtval f)
      simp only [tftpSendfile, List.filterMap_cons, Action.acked?]
      exact hb.trans (congrArg (fun as => bn t.rolloverVal (List.length as)) ha.symm)
  · intro es e ih
    rw [acknowledged, Machine.log_next, List.filterMap_append, List.length_append]
    rcases sendStep_acked t (oack.getD 0) ((tftpSendfile t oack ackbuf f).run es).state e with
      ⟨_, _, hb, ha⟩ | ⟨hb, ha⟩
    · refine hb.trans ?_
      rw [ih]
      exact congrArg (fun as => bn t.rolloverVal (_ + List.length as)) ha.symm
    · refine (hb.trans ih).trans ?_
      exact congrArg (fun as => bn t.rolloverVal (_ + List.length as)) ha.symm

/-- After the ACK of block `i` was taken, further ACKs of block `i` acknowledge nothing. -/
def IgnoresDuplicateAck (t : Transfer) : Prop :=
  ∀ oack ackbuf f es i extra, let M := tftpSendfile t oack ackbuf f
    acknowledged (M.run es) = i + 1 →
      (M.step (M.run es).state (.datagram (tftphdr ACK (bn t.rolloverVal i) ++ extra))).2.filterMap
        Action.acked? = []

theorem parse_packet (m : Mem) (opcode block : UInt16) (extra : List UInt8) :
    (parse m (.datagram (tftphdr opcode block ++ extra))).2 = .packet opcode block := by
  simp only [parse, received_packet, thOpcode_store, thBlock_store]

theorem ignoresDuplicateAck (h : ∀ i, bn t.rolloverVal i ≠ bn t.rolloverVal (i + 1)) :
    IgnoresDuplicateAck t := by
  intro oack ackbuf f es i extra M hi
  rcases sendStep_acked t (oack.getD 0) (M.run es).state
    (.datagram (tftphdr ACK (bn t.rolloverVal i) ++ extra)) with ⟨_, he, _⟩ | ⟨_, ha⟩
  · have hb := sendfile_block t oack ackbuf f es
    rw [parse_packet] at he
    obtain ⟨_, hblock⟩ := Parsed.packet.inj he
    rw [hb, hi] at hblock
    exact absurd hblock (h i)
  · exact ha

/-- A copy of the DATA packet that was accepted last is not accepted again. -/
def IgnoresDuplicateData (t : Transfer) : Prop :=
  ∀ oack ackbuf es block payload taken, let M := tftpRecvfile t oack ackbuf
    let d := tftphdr DATA block ++ payload
    ((M.run es).observe Action.accepted?).getLast? = some (some (.datagram d), taken) →
      (M.step (M.run es).state (.datagram d)).2.filterMap Action.accepted? = []

theorem acceptLog_getLast? (h : (acceptLog t ds).getLast? = some (some (.datagram d), taken)) :
    ∃ ds', ds = ds' ++ [d] := by
  rcases List.eq_nil_or_concat ds with rfl | ⟨ds', d', rfl⟩
  · cases h
  · rw [List.concat_eq_append] at h ⊢
    rw [acceptLog_concat, List.getLast?_concat] at h
    cases h
    exact ⟨ds', rfl⟩

theorem ignoresDuplicateData (h : ∀ i, bn t.rolloverVal i ≠ bn t.rolloverVal (i + 1)) :
    IgnoresDuplicateData t := by
  intro oack ackbuf es block payload taken M d hlast
  obtain ⟨ds, htrace⟩ := receiver_run t oack ackbuf es
  rw [htrace.accepts] at hlast
  obtain ⟨ds', rfl⟩ := acceptLog_getLast? hlast
  have hblock : block = bn t.rolloverVal ds'.length := by
    have hseen := htrace.seen ds'.length d (List.getElem?_concat_length)
    exact hseen.header.2
  rcases htrace.state with ⟨he, _⟩ | hd | ⟨⟨how, he⟩, _⟩
  · have hstep : M.step (M.run es).state (.datagram d) =
        waitStep t (oack.getD 0) (M.run es).state (.datagram d) := recvStep_waiting he.phase t _ _
    rw [hstep]
    rcases he.step (oack.getD 0) (.datagram d) with ⟨d', hd', hseen, _⟩ | hs | ⟨hq, _⟩
    · cases hd'
      have hnext := hseen.header.2
      rw [length_accepted, List.length_append, hblock] at hnext
      exact absurd hnext (h ds'.length)
    · exact hs.replies.2.1
    · rw [hq]
      rfl
  · have hstep : M.step (M.run es).state (.datagram d) =
        dallyStep t (M.run es).state (.datagram d) := recvStep_dally hd.phase t _ _
    rw [hstep]
    obtain ⟨_, _, ha⟩ := hd.step (firstReply oack ackbuf) (.datagram d)
    rcases ha with ha | ha
    · rw [ha]
      rfl
    · rw [ha]
      rfl
  · have hstep : M.step (M.run es).state (.datagram d) = ((M.run es).state, []) :=
      recvStep_ended he t _ _
    rw [hstep]
    rfl

/-- What a rollover value is to ensure of every transfer that uses it. -/
structure Distinguishes (r : UInt16) : Prop where
  blocks : ∀ i, bn r i ≠ bn r (i + 1)
  data : ∀ t : Transfer, t.rolloverVal = r → IgnoresDuplicateData t
  acks : ∀ t : Transfer, t.rolloverVal = r → IgnoresDuplicateAck t

/-- Of the values that `set_rollover` accepts, all but 65535 keep consecutive blocks apart. -/
theorem setRollover_distinguishes_iff (v : Nat) (n : Negotiated)
    (h : setRollover v n = some (v', n')) : Distinguishes n'.rolloverVal ↔ v ≠ 65535 := by
  have hr : n'.rolloverVal ≠ 65535 ↔ v ≠ 65535 := by
    simp only [setRollover] at h
    split at h
    · cases h
    · rename_i hv
      cases h
      rw [← UInt16.toNat_inj.ne, UInt16.toNat_ofNat']
      change v' % 65536 ≠ 65535 ↔ v' ≠ 65535
      omega
  rw [← hr, ← bn_ne_succ_iff]
  constructor
  · intro hd
    exact hd.blocks
  · intro hb
    refine ⟨hb, ?_, ?_⟩
    · intro t ht
      exact ignoresDuplicateData (ht ▸ hb)
    · intro t ht
      exact ignoresDuplicateAck (ht ▸ hb)

theorem rolloverOne_distinguishes :
    setRollover 1 .default = some (1, { Negotiated.default with rolloverVal := 1 }) ∧
      Distinguishes 1 :=
  ⟨rfl, (setRollover_distinguishes_iff 1 .default rfl).2 (by decide)⟩

/-- The value 65535 is accepted, and the blocks from number 65535 on all have this number. -/
theorem rolloverLast_repeats :
    setRollover 65535 .default = some (65535, { Negotiated.default with rolloverVal := 65535 }) ∧
      bn 65535 65534 = 65535 ∧ bn 65535 65535 = 65535 ∧ ¬ Distinguishes 65535 := by
  have hlast : bn 65535 65534 = 65535 := by
    apply UInt16.toNat_inj.1
    exact bn_toNat 65535 (by decide)
  have hnext : bn 65535 65535 = bn 65535 65534 := (nextBlock_eq_self_iff _ _).2 ⟨rfl, hlast⟩
  exact ⟨rfl, hlast, hnext.trans hlast, fun h => h.blocks 65534 hnext.symm⟩

end WooTftpd
