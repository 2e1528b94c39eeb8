import WooTftpd.Lib.Machine
import WooTftpd.Tftpsubs

namespace WooTftpd
open Lib
set_option autoImplicit true

/-- The parameters of a transfer, and what the system calls it makes will answer. -/
structure Transfer where
  /-- `f_convert` of the format: netascii rather than octet. -/
  convert : Bool
  segsize : Nat
  rolloverVal : UInt16
  rexmtval : Nat
  maxtimeout : Nat
  /-- Whether the `k`-th call of `send` delivers the whole datagram. -/
  sendOk : Nat → Bool
  /-- The value of `errno` when a failed file operation is reported. -/
  errno : Nat
  /-- The size of the buffer of a stream. -/
  bufsiz : Nat
  faults : Faults

def octetTransfer : Transfer where
  convert := false
  segsize := 512
  rolloverVal := 0
  rexmtval := 1000000
  maxtimeout := 63000000
  sendOk := fun _ => true
  errno := 0
  bufsiz := 4096
  faults := .clean

inductive Event where
  | timeout
  | datagram (bytes : List UInt8)
  | recvError

inductive Parsed where
  | timeout
  | packet (opcode block : UInt16)
  | recvError
  deriving DecidableEq

/-- How a transfer ended: in `timer`, at the label `abort`, or after its loop. -/
inductive Ended where
  | exited
  | aborted
  | completed
  deriving DecidableEq

/-- The effects of a transfer outside its own state. `accept` records the packet that a
call of `writeit` takes over. -/
inductive Action where
  | send (packet : List UInt8)
  | nak (error : Nat)
  | setFlagUpload
  | setFlagDownload
  | accept (block : UInt16) (payload : List UInt8)
  | incrementBlock (value : Int)
  | endOperation
  deriving DecidableEq

def Action.sent? : Action → Option (List UInt8)
  | .send packet => some packet
  | _ => none

/-- The handler of a timeout: the doubled timeout, or `none` when the process exits. -/
def timer (maxtimeout : Nat) (timeoutQuit : Bool) (timeout : Nat) : Option Nat :=
  let timeout := timeout * 2 % 2 ^ 64
  if maxtimeout ≤ timeout ∨ timeoutQuit then none else some timeout

/-- The header of a packet is read from the buffer that it was received into. -/
def parse (m : Mem) : Event → Mem × Parsed
  | .timeout => (m, .timeout)
  | .datagram d =>
    let m := m.store 0 (received d)
    (m, .packet (thOpcode m) (thBlock m))
  | .recvError => (m, .recvError)

end WooTftpd
