import WooTftpd.Transfer

namespace WooTftpd
open Lib
set_option autoImplicit true

inductive SendPhase where
  | option
  | data
  | ended (how : Ended)
  deriving DecidableEq

/-- The variables of `tftp_sendfile`. The packet `dp` is named by the index of its buffer;
`sends` counts the calls of `send`. -/
structure SendState where
  phase : SendPhase
  ackbuf : Mem
  subs : Subs
  file : InFile
  block : UInt16
  dp : Bool
  size : Int
  timeout : Nat
  sends : Nat

/-- The code from `sigsetjmp` to the wait for an ACK: a timeout comes back here. -/
def sendData (t : Transfer) (s : SendState) : SendState × List Action :=
  let s' := { s with sends := s.sends + 1 }
  if t.sendOk s.sends then
    let r := readAhead t.convert t.segsize s.subs s.file
    ({ s' with subs := r.1, file := r.2 },
      [.send ((s.subs.bfs s.dp).buf.load 0 (s.size + 4).toNat)])
  else ({ s' with phase := .ended .aborted }, [.endOperation])

def readBlock (t : Transfer) (s : SendState) : SendState × List Action :=
  let r := readit t.convert t.segsize s.subs s.file
  let s := { s with subs := r.1, file := r.2.1, dp := r.1.current, size := r.2.2 }
  if s.size < 0 then
    ({ s with phase := .ended .aborted }, [.nak (t.errno + 100), .endOperation])
  else
    let m := (s.subs.bfs s.dp).buf.store 0 (tftphdr DATA s.block)
    sendData t { s with subs := s.subs.setBuf s.dp m, timeout := t.rexmtval }

def blockAcked (t : Transfer) (s : SendState) : SendState × List Action :=
  let s' := { s with block := nextBlock t.rolloverVal s.block }
  let r := if s.size = t.segsize then readBlock t s'
    else ({ s' with phase := .ended .completed }, [.endOperation])
  (r.1, .incrementBlock s.size :: r.2)

/-- The wait for the ACK of a block. `synchnet` touches none of these variables. -/
def dataStep (t : Transfer) (s : SendState) : Parsed → SendState × List Action
  | .timeout =>
    match timer t.maxtimeout false s.timeout with
    | none => ({ s with phase := .ended .exited }, [])
    | some timeout => sendData t { s with timeout := timeout }
  | .recvError => ({ s with phase := .ended .aborted }, [.endOperation])
  | .packet opcode block =>
    if opcode = ERROR then ({ s with phase := .ended .aborted }, [.endOperation])
    else if opcode = ACK ∧ block = s.block then blockAcked t s
    else (s, [])

def startData (t : Transfer) (s : SendState) : SendState × List Action :=
  readBlock t { s with phase := .data, subs := rInit s.subs }

/-- The code at the label `oack`: the OACK is sent from the buffer it was built in. -/
def sendOack (t : Transfer) (oacklen : Nat) (s : SendState) : SendState × List Action :=
  let s' := { s with sends := s.sends + 1 }
  if t.sendOk s.sends then (s', [.send (s.ackbuf.load 0 oacklen)])
  else ({ s' with phase := .ended .aborted }, [.endOperation])

def optionStep (t : Transfer) (oacklen : Nat) (s : SendState) :
    Parsed → SendState × List Action
  | .timeout =>
    match timer t.maxtimeout false s.timeout with
    | none => ({ s with phase := .ended .exited }, [])
    | some timeout => sendOack t oacklen { s with timeout := timeout }
  | .recvError => ({ s with phase := .ended .aborted }, [.endOperation])
  | .packet opcode block =>
    if opcode = ERROR then ({ s with phase := .ended .aborted }, [.endOperation])
    else if opcode = ACK then
      if block = 0 then startData t s else sendOack t oacklen s
    else (s, [])

/-- One return from `recv_time`, which receives into `ackbuf` in both phases. -/
def sendStep (t : Transfer) (oacklen : Nat) (s : SendState) (e : Event) :
    SendState × List Action :=
  match s.phase with
  | .ended _ => (s, [])
  | .option => optionStep t oacklen { s with ackbuf := (parse s.ackbuf e).1 } (parse s.ackbuf e).2
  | .data => dataStep t { s with ackbuf := (parse s.ackbuf e).1 } (parse s.ackbuf e).2

theorem sendStep_ended {s : SendState} (h : s.phase = .ended how) (t : Transfer) (oacklen : Nat)
    (e : Event) : sendStep t oacklen s e = (s, []) := by
  unfold sendStep
  rw [h]

theorem sendStep_option {s : SendState} (h : s.phase = .option) (t : Transfer) (oacklen : Nat)
    (e : Event) :
    sendStep t oacklen s e =
      optionStep t oacklen { s with ackbuf := (parse s.ackbuf e).1 } (parse s.ackbuf e).2 := by
  unfold sendStep
  rw [h]

theorem sendStep_data {s : SendState} (h : s.phase = .data) (t : Transfer) (oacklen : Nat)
    (e : Event) :
    sendStep t oacklen s e =
      dataStep t { s with ackbuf := (parse s.ackbuf e).1 } (parse s.ackbuf e).2 := by
  unfold sendStep
  rw [h]

def sendInit (ackbuf : Mem) (timeout : Nat) (f : InFile) : SendState :=
  ⟨.option, ackbuf, .static, f, 1, false, 0, timeout, 0⟩

/-- Send the requested file. `oack` is the length of the OACK in `ackbuf`, if there is one. -/
def tftpSendfile (t : Transfer) (oack : Option Nat) (ackbuf : Mem) (f : InFile) :
    Machine SendState Event Action where
  start :=
    let r := match oack with
      | some oacklen => sendOack t oacklen (sendInit ackbuf t.rexmtval f)
      | none => startData t (sendInit ackbuf t.rexmtval f)
    (r.1, .setFlagUpload :: r.2)
  step := sendStep t (oack.getD 0)

theorem tftpSendfile_ended (t : Transfer) (oack : Option Nat) (ackbuf : Mem) (f : InFile)
    {c : Config SendState Event Action} (h : c.state.phase = .ended how) (e : Event) :
    (tftpSendfile t oack ackbuf f).next c e = c :=
  Machine.next_idle (sendStep_ended h t _ e)

/-- The data phase alone, with packets seen as their headers, from any state in which the
option phase may have left the process. -/
def dataPhase (t : Transfer) (s : SendState) : Machine SendState Parsed Action where
  start := startData t s
  step := fun s e => if s.phase = .data then dataStep t s e else (s, [])

end WooTftpd
