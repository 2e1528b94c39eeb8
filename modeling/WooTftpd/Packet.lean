import WooTftpd.Lib.Memory

namespace WooTftpd
open Lib
set_option autoImplicit true

def RRQ : UInt16 := 1
def WRQ : UInt16 := 2
def DATA : UInt16 := 3
def ACK : UInt16 := 4
def ERROR : UInt16 := 5
def OACK : UInt16 := 6

def ENOTFOUND : Nat := 1
def EACCESS : Nat := 2
def ENOSPACE : Nat := 3
def EBADOP : Nat := 4
def EEXISTS : Nat := 6
def EOPTNEG : Nat := 8

def maxSegsize : Nat := 65464

def pktsize : Nat := maxSegsize + 4

def NUL : UInt8 := 0
def LF : UInt8 := 10
def CR : UInt8 := 13

def tolower (c : UInt8) : UInt8 := if 65 ≤ c ∧ c ≤ 90 then c + 32 else c

def toupper (c : UInt8) : UInt8 := if 97 ≤ c ∧ c ≤ 122 then c - 32 else c

def tftphdr (opcode block : UInt16) : List UInt8 := Mem.be16 opcode ++ Mem.be16 block

@[simp] theorem length_tftphdr (opcode block : UInt16) : (tftphdr opcode block).length = 4 := rfl

def thOpcode (m : Mem) : UInt16 := m.u16 0

def thBlock (m : Mem) : UInt16 := m.u16 2

def thData : Nat := 4

/-- What `recv` leaves in a packet buffer: a longer datagram is cut to the buffer. -/
def received (datagram : List UInt8) : List UInt8 := datagram.take pktsize

theorem thOpcode_store (m : Mem) (opcode block : UInt16) (bs : List UInt8) :
    thOpcode (m.store 0 (tftphdr opcode block ++ bs)) = opcode := by
  rw [tftphdr, List.append_assoc]
  exact Mem.u16_store m 0 opcode _

theorem thBlock_store (m : Mem) (opcode block : UInt16) (bs : List UInt8) :
    thBlock (m.store 0 (tftphdr opcode block ++ bs)) = block := by
  rw [tftphdr, List.append_assoc, thBlock, Mem.store_append]
  exact Mem.u16_store _ 2 block _

theorem received_packet (opcode block : UInt16) (payload : List UInt8) :
    received (tftphdr opcode block ++ payload) =
      tftphdr opcode block ++ payload.take maxSegsize := by
  rw [received, List.take_append, length_tftphdr]
  rfl

/-- The block number after `block`: `++block`, which wraps to the rollover value. -/
def nextBlock (rolloverVal block : UInt16) : UInt16 :=
  if block + 1 = 0 then rolloverVal else block + 1

def bn (rolloverVal : UInt16) : Nat → UInt16
  | 0 => 1
  | i + 1 => nextBlock rolloverVal (bn rolloverVal i)

end WooTftpd
