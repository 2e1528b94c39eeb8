import WooTftpd.Address

namespace WooTftpd
open Lib
set_option autoImplicit true

abbrev wootftpdMaxNbop : Nat := 5

abbrev Slot := Fin wootftpdMaxNbop

def wootftpdReset : UInt8 := 0
def wootftpdEnable : UInt8 := 1
def wootftpdEnd : UInt8 := 2
def wootftpdUpload : UInt8 := 4
def wootftpdDownload : UInt8 := 8
def wootftpdTimeout : UInt8 := 16

def checkFlag (oflags flag : UInt8) : Bool := oflags &&& flag = flag

theorem checkFlag_or_other (oflags : UInt8) (h : bits &&& flag = 0) :
    checkFlag (oflags ||| bits) flag = checkFlag oflags flag := by
  have hd : (oflags ||| bits) &&& flag = (oflags &&& flag) ||| (bits &&& flag) := by
    apply UInt8.toBitVec_inj.1
    exact BitVec.and_or_distrib_right
  rw [checkFlag, checkFlag, hd, h, UInt8.or_zero]

/-- The layout of `struct wootftpd_shared_data`: `client_pid`, `nb_operation`, and an array of
slots of 192 bytes each. -/
def nbOperationAt : Nat := 4

def operationAt (x : Slot) : Nat := 8 + 192 * x

def oflagsAt (x : Slot) : Nat := operationAt x
def filenameAt (x : Slot) : Nat := operationAt x + 1
def portAt (x : Slot) : Nat := operationAt x + 132
def ipAt (x : Slot) : Nat := operationAt x + 136
def blockAt (x : Slot) : Nat := operationAt x + 184
def totalBlockAt (x : Slot) : Nat := operationAt x + 188

def filenameSize : Nat := 128

def nbOperation (m : Mem) : UInt8 := m nbOperationAt

def oflags (m : Mem) (x : Slot) : UInt8 := m (oflagsAt x)

def block (m : Mem) (x : Slot) : UInt32 := m.u32 (blockAt x)

def enabled (m : Mem) (x : Slot) : Bool := checkFlag (oflags m x) wootftpdEnable

def setNbOperation (m : Mem) (n : UInt8) : Mem := m.store nbOperationAt [n]

def setOflags (m : Mem) (x : Slot) (flags : UInt8) : Mem := m.store (oflagsAt x) [flags]

structure WooData where
  enable : Bool
  opid : Slot

def WooData.guarded (w : WooData) (m : Mem) (f : Slot → Mem) : Mem :=
  if w.enable then f w.opid else m

/-- Take a slot that is not enabled, or fail with the code that the source returns. -/
def wooAllocOperation (m : Mem) : Except Nat (Slot × Mem) :=
  if wootftpdMaxNbop ≤ (nbOperation m).toNat then .error 20
  else
    match (List.finRange wootftpdMaxNbop).find? fun x => !enabled m x with
    | none => .error 30
    | some x =>
      let m := setNbOperation m (nbOperation m + 1)
      let m := setOflags m x (wootftpdReset ||| wootftpdEnable)
      .ok (x, m.store (blockAt x) (Mem.le32 0))

def wooSetIp (w : WooData) (ip : CString) (m : Mem) : Mem :=
  w.guarded m fun x => m.strcpy (ipAt x) ip

def wooSetPort (w : WooData) (port : UInt32) (m : Mem) : Mem :=
  w.guarded m fun x => m.store (portAt x) (Mem.le32 port)

def wooSetFilename (w : WooData) (filename : CString) (m : Mem) : Mem :=
  w.guarded m fun x => m.strcpy (filenameAt x) filename

def wooSetFlagUpload (w : WooData) (m : Mem) : Mem :=
  w.guarded m fun x => setOflags m x (oflags m x ||| wootftpdUpload)

def wooSetFlagDownload (w : WooData) (m : Mem) : Mem :=
  w.guarded m fun x => setOflags m x (oflags m x ||| wootftpdDownload)

def wooSetTotalBlock (w : WooData) (nbBlock : UInt32) (m : Mem) : Mem :=
  w.guarded m fun x => m.store (totalBlockAt x) (Mem.le32 nbBlock)

def wooIncrementBlock (w : WooData) (value : UInt32) (m : Mem) : Mem :=
  w.guarded m fun x => m.store (blockAt x) (Mem.le32 (block m x + value))

/-- The end of a transfer. The progression of an upload is put at 100%. -/
def wooEndOperation (w : WooData) (m : Mem) : Mem :=
  w.guarded m fun x =>
    let m := setOflags m x (oflags m x ||| wootftpdEnd)
    if checkFlag (oflags m x) wootftpdUpload then
      (m.store (blockAt x) (Mem.le32 1)).store (totalBlockAt x) (Mem.le32 1)
    else m

inductive Call where
  | setIp (peer : SockAddr)
  | setPort (port : UInt32)
  | setFilename (filename : CString)
  | setFlagUpload
  | setFlagDownload
  | setTotalBlock (nbBlock : UInt32)
  | incrementBlock (value : UInt32)
  | endOperation

def Call.run (w : WooData) (m : Mem) : Call → Mem
  | .setIp peer => wooSetIp w (ipString peer) m
  | .setPort port => wooSetPort w port m
  | .setFilename filename => wooSetFilename w filename m
  | .setFlagUpload => wooSetFlagUpload w m
  | .setFlagDownload => wooSetFlagDownload w m
  | .setTotalBlock nbBlock => wooSetTotalBlock w nbBlock m
  | .incrementBlock value => wooIncrementBlock w value m
  | .endOperation => wooEndOperation w m

end WooTftpd
