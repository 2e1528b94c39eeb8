import WooTftpd.Transfer

namespace WooTftpd
open Lib
set_option autoImplicit true

inductive RecvPhase where
  | waiting
  | dally
  | ended (how : Ended)
  deriving DecidableEq

/-- The variables of `tftp_recvfile`. The packet `dp` is named by the index of its buffer;
`oap` says whether the pointer to the OACK is still set. -/
structure RecvState where
  phase : RecvPhase
  ackbuf : Mem
  acksize : Nat
  oap : Bool
  subs : Subs
  file : OutFile
  block : UInt16
  dp : Bool
  dpOpcode : UInt16
  dpBlock : UInt16
  timeout : Nat
  sends : Nat

/-- The code from `sigsetjmp` and the label `send_ack` to the wait for a block. -/
def sendAck (t : Transfer) (s : RecvState) : RecvState × List Action :=
  let s' := { s with sends := s.sends + 1 }
  if t.sendOk s.sends then
    let r := writeBehind t.faults t.convert s.subs s.file
    ({ s' with subs := r.1, file := r.2.1 }, [.send (s.ackbuf.load 0 s.acksize)])
  else ({ s' with phase := .ended .aborted }, [])

def replyBlock (t : Transfer) (oacklen : Nat) (s : RecvState) : RecvState × List Action :=
  let s := { s with timeout := t.rexmtval }
  let s := if s.block = 0 ∧ s.oap then { s with acksize := oacklen }
    else { s with ackbuf := s.ackbuf.store 0 (tftphdr ACK s.block), acksize := 4, oap := false }
  sendAck t { s with block := nextBlock t.rolloverVal s.block }

/-- The code after the loop, up to the wait that normally times out. The results of
`write_behind` and `fclose` are not looked at. -/
def finalAck (t : Transfer) (s : RecvState) : RecvState × List Action :=
  let r := writeBehind t.faults t.convert s.subs s.file
  let file := (r.2.1.fclose t.faults).1
  let m := s.ackbuf.store 0 (tftphdr ACK s.block)
  ({ s with phase := .dally, subs := r.1, file := file, ackbuf := m, sends := s.sends + 1 },
    .endOperation :: if t.sendOk s.sends then [.send (m.load 0 4)] else [])

def blockReceived (t : Transfer) (oacklen : Nat) (n : Nat) (s : RecvState) :
    RecvState × List Action :=
  let ct : Int := n - 4
  let taken := Action.accept s.dpBlock ((s.subs.bfs s.dp).buf.load thData ct.toNat)
  let r := writeit t.faults t.convert ct s.subs s.file
  let size := r.2.2
  let s := { s with subs := r.1, file := r.2.1, dp := r.1.current }
  if size ≠ ct then
    ({ s with phase := .ended .aborted },
      [taken, .nak (if size < 0 then t.errno + 100 else ENOSPACE)])
  else
    let r := if size = t.segsize then replyBlock t oacklen s else finalAck t s
    (r.1, taken :: .incrementBlock size :: r.2)

/-- The wait for a block, which is received into the current buffer. The comparison with
`block - 1` is one of integers: nothing equals it while block 0 is expected. -/
def waitStep (t : Transfer) (oacklen : Nat) (s : RecvState) : Event → RecvState × List Action
  | .timeout =>
    match timer t.maxtimeout false s.timeout with
    | none => ({ s with phase := .ended .exited }, [])
    | some timeout => sendAck t { s with timeout := timeout }
  | .recvError => ({ s with phase := .ended .aborted }, [])
  | .datagram d =>
    let m := (s.subs.bfs s.dp).buf.store 0 (received d)
    let s := { s with subs := s.subs.setBuf s.dp m, dpOpcode := thOpcode m, dpBlock := thBlock m }
    if s.dpOpcode = ERROR then ({ s with phase := .ended .aborted }, [])
    else if s.dpOpcode = DATA then
      if s.dpBlock = s.block then blockReceived t oacklen (received d).length s
      else if (s.dpBlock.toNat : Int) = s.block.toNat - 1 then sendAck t s
      else (s, [])
    else (s, [])

/-- The wait after the final ACK. The opcode and the block that are compared are those of the
last block; the datagram itself is received into another buffer. -/
def dallyStep (t : Transfer) (s : RecvState) : Event → RecvState × List Action
  | .timeout => ({ s with phase := .ended .exited }, [])
  | .recvError => ({ s with phase := .ended .completed }, [])
  | .datagram d =>
    let again := 4 ≤ (received d).length ∧ s.dpOpcode = DATA ∧ s.block = s.dpBlock
    ({ s with phase := .ended .completed, sends := if again then s.sends + 1 else s.sends },
      if again ∧ t.sendOk s.sends then [.send (s.ackbuf.load 0 4)] else [])

def recvStep (t : Transfer) (oacklen : Nat) (s : RecvState) (e : Event) :
    RecvState × List Action :=
  match s.phase with
  | .ended _ => (s, [])
  | .waiting => waitStep t oacklen s e
  | .dally => dallyStep t s e

theorem recvStep_waiting {s : RecvState} (h : s.phase = .waiting) (t : Transfer) (oacklen : Nat)
    (e : Event) : recvStep t oacklen s e = waitStep t oacklen s e := by
  simp only [recvStep, h]

theorem recvStep_dally {s : RecvState} (h : s.phase = .dally) (t : Transfer) (oacklen : Nat)
    (e : Event) : recvStep t oacklen s e = dallyStep t s e := by
  simp only [recvStep, h]

theorem recvStep_ended {s : RecvState} (h : s.phase = .ended how) (t : Transfer) (oacklen : Nat)
    (e : Event) : recvStep t oacklen s e = (s, []) := by
  simp only [recvStep, h]

theorem sendAck_sends (t : Transfer) (s : RecvState) :
    (sendAck t s).2 = [] ∨ ∃ d, (sendAck t s).2 = [.send d] := by
  simp only [sendAck]
  split
  · exact .inr ⟨_, rfl⟩
  · exact .inl rfl

theorem finalAck_sends (t : Transfer) (s : RecvState) :
    (finalAck t s).2 = [.endOperation] ∨ ∃ d, (finalAck t s).2 = [.endOperation, .send d] := by
  simp only [finalAck]
  split
  · exact .inr ⟨_, rfl⟩
  · exact .inl rfl

theorem dallyStep_sends (t : Transfer) (s : RecvState) (e : Event) :
    (dallyStep t s e).2 = [] ∨ ∃ d, (dallyStep t s e).2 = [.send d] := by
  cases e with
  | timeout => exact .inl rfl
  | recvError => exact .inl rfl
  | datagram d =>
    simp only [dallyStep]
    split
    · exact .inr ⟨_, rfl⟩
    · exact .inl rfl

def recvInit (oap : Bool) (ackbuf : Mem) (bufsiz timeout : Nat) : RecvState :=
  ⟨.waiting, ackbuf, 0, oap, wInit .static, .truncated bufsiz, 0, false, 0, 0, timeout, 0⟩

/-- Receive a file. `oack` is the length of the OACK in `ackbuf`, if there is one. -/
def tftpRecvfile (t : Transfer) (oack : Option Nat) (ackbuf : Mem) :
    Machine RecvState Event Action where
  start :=
    let r := replyBlock t (oack.getD 0) (recvInit oack.isSome ackbuf t.bufsiz t.rexmtval)
    (r.1, .setFlagDownload :: r.2)
  step := recvStep t (oack.getD 0)

theorem tftpRecvfile_ended (t : Transfer) (oack : Option Nat) (ackbuf : Mem)
    {c : Config RecvState Event Action} (h : c.state.phase = .ended how) (e : Event) :
    (tftpRecvfile t oack ackbuf).next c e = c :=
  Machine.next_idle (recvStep_ended h t _ e)

end WooTftpd
