import WooTftpd.ReceiverTrace

namespace WooTftpd
open Lib
set_option autoImplicit true

variable {t : Transfer} {c : Config RecvState Event Action}

def payloads (c : Config RecvState Event Action) : List (List UInt8) :=
  (c.observe Action.accepted?).map fun p => p.2.2

def Lost (t : Transfer) (c : Config RecvState Event Action) : Prop :=
  ∃ k < c.state.file.ops, t.faults k ≠ none

def Ends (c : Config RecvState Event Action) : Prop := ∃ how, c.state.phase = .ended how

def Reported (t : Transfer) (c : Config RecvState Event Action) : Prop :=
  .nak (t.errno + 100) ∈ c.log.map Prod.snd ∨ .nak ENOSPACE ∈ c.log.map Prod.snd

/-- Only a file that holds every accepted byte is acknowledged as complete, and a lost write
is answered by an error instead. -/
structure HonestUpload (t : Transfer) (c : Config RecvState Event Action) : Prop where
  stored : Uploaded c → c.state.file.stored = decode t.convert (payloads c).flatten
  refused : Lost t c → ¬ Uploaded c
  reported : Lost t c → Ends c → Reported t c

theorem lost_iff : Lost t c ↔ ¬ t.faults.CleanBelow c.state.file.ops := by
  simp only [Lost, Faults.CleanBelow, not_forall, exists_prop]

theorem sendAck_no_nak (t : Transfer) (s : RecvState) (error : Nat) :
    .nak error ∉ (sendAck t s).2 := by
  rcases sendAck_sends t s with h | ⟨d, h⟩
  · rw [h]
    exact List.not_mem_nil
  · simp [h]

theorem replyBlock_no_nak (t : Transfer) (oacklen : Nat) (s : RecvState) (error : Nat) :
    .nak error ∉ (replyBlock t oacklen s).2 := sendAck_no_nak _ _ _

theorem finalAck_no_nak (t : Transfer) (s : RecvState) (error : Nat) :
    .nak error ∉ (finalAck t s).2 := by
  rcases finalAck_sends t s with h | ⟨d, h⟩
  · simp [h]
  · simp [h]

theorem blockReceived_no_nak (t : Transfer) (oacklen n : Nat) (s : RecvState) (error : Nat) :
    .nak error ∉ (blockReceived t oacklen n s).2 := by
  simp only [blockReceived_eq, List.mem_cons]
  rintro (h | h | h)
  · cases h
  · cases h
  · split at h
    · exact replyBlock_no_nak _ _ _ _ h
    · exact finalAck_no_nak _ _ _ h

theorem waitStep_no_nak (t : Transfer) (oacklen : Nat) (s : RecvState) (e : Event)
    (error : Nat) : .nak error ∉ (waitStep t oacklen s e).2 := by
  cases e with
  | timeout =>
    simp only [waitStep]
    split
    · exact List.not_mem_nil
    · exact sendAck_no_nak _ _ _
  | recvError => exact List.not_mem_nil
  | datagram d =>
    rw [waitStep_datagram]
    dsimp only
    split
    · exact List.not_mem_nil
    split
    · split
      · exact blockReceived_no_nak _ _ _ _ _
      split
      · exact sendAck_no_nak _ _ _
      · exact List.not_mem_nil
    · exact List.not_mem_nil

theorem dallyStep_no_nak (t : Transfer) (s : RecvState) (e : Event) (error : Nat) :
    .nak error ∉ (dallyStep t s e).2 := by
  rcases dallyStep_sends t s e with h | ⟨d, h⟩
  · rw [h]
    exact List.not_mem_nil
  · simp [h]

theorem recvStep_no_nak (t : Transfer) (oacklen : Nat) (s : RecvState) (e : Event)
    (error : Nat) : .nak error ∉ (recvStep t oacklen s e).2 := by
  simp only [recvStep]
  split
  · exact List.not_mem_nil
  · exact waitStep_no_nak _ _ _ _ _
  · exact dallyStep_no_nak _ _ _ _

/-- In no run does `tftp_recvfile` report an error to its peer. -/
theorem receiver_no_nak (t : Transfer) (oack : Option Nat) (ackbuf : Mem) (es : List Event)
    (error : Nat) : .nak error ∉ ((tftpRecvfile t oack ackbuf).run es).log.map Prod.snd := by
  refine (tftpRecvfile t oack ackbuf).run_induction
    (P := fun _ c => Action.nak error ∉ c.log.map Prod.snd) ?_ ?_ es
  · rw [Machine.log_init]
    simp only [tftpRecvfile, List.mem_cons, reduceCtorEq, false_or]
    exact replyBlock_no_nak _ _ _ error
  · intro es e ih
    rw [Machine.log_next, List.mem_append, not_or]
    exact ⟨ih, recvStep_no_nak _ _ _ _ _⟩

theorem ReceiverTrace.payloads (h : ReceiverTrace t first ds c) : payloads c = accepted ds := by
  rw [WooTftpd.payloads, h.accepts, acceptLog, accepted]
  apply List.ext_getElem?
  intro i
  simp only [List.getElem?_map, List.getElem?_mapIdx, Option.map_map, Function.comp_def]

/-- An upload is honest exactly if it is still going on or every system call on its file, with
those of its `fclose`, has succeeded. -/
theorem tftpRecvfile_honest_iff (t : Transfer) (oack : Option Nat) (ackbuf : Mem)
    (es : List Event) :
    let c := (tftpRecvfile t oack ackbuf).run es
    HonestUpload t c ↔ (Uploaded c ∨ Ends c → t.faults.CleanBelow c.state.file.ops) := by
  intro c
  constructor
  · intro h hover
    by_contra hl
    have hlost := lost_iff.2 hl
    rcases hover with hu | he
    · exact h.refused hlost hu
    · rcases h.reported hlost he with hn | hn
      · exact receiver_no_nak t oack ackbuf es _ hn
      · exact receiver_no_nak t oack ackbuf es _ hn
  · intro h
    obtain ⟨ds, htrace⟩ := receiver_run t oack ackbuf es
    refine ⟨?_, ?_, ?_⟩
    · intro hu
      rw [htrace.payloads]
      exact (htrace.complete hu).stored (h (.inl hu))
    · intro hl hu
      exact lost_iff.1 hl (h (.inl hu))
    · intro hl he
      exact absurd (h (.inr he)) (lost_iff.1 hl)

def diskFull : Transfer := { octetTransfer with errno := 28, faults := fun _ => some 0 }

/-- One block of one byte, and the final ACK goes out although the file is empty: in octet mode
`write` has failed, and in netascii mode `fclose`. -/
theorem diskFull_acknowledged :
    let es := [Event.datagram (tftphdr DATA 1 ++ [65])]
    let log := [.setFlagDownload, .send (tftphdr ACK 0), .accept 1 [65], .incrementBlock 1,
      .endOperation, .send (tftphdr ACK 1)]
    (let c := (tftpRecvfile diskFull none .zero).run es
     c.log.map Prod.snd = log ∧ c.state.file.stored = [] ∧ ¬ HonestUpload diskFull c) ∧
    (let t := { diskFull with convert := true }
     let c := (tftpRecvfile t none .zero).run es
     c.log.map Prod.snd = log ∧ c.state.file.stored = [] ∧ ¬ HonestUpload t c) := by
  refine ⟨⟨by decide, by decide, ?_⟩, by decide, by decide, ?_⟩
  · intro h
    apply h.refused ⟨0, by decide, by decide⟩
    rw [Uploaded]
    decide
  · intro h
    apply h.refused ⟨0, by decide, by decide⟩
    rw [Uploaded]
    decide

end WooTftpd
