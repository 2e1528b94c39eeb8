import WooTftpd.Address

namespace WooTftpd
open Lib
set_option autoImplicit true

def uintmaxLimit : Nat := 2 ^ 64

def isSpace (c : UInt8) : Bool := c = 32 ∨ (9 ≤ c ∧ c ≤ 13)

def isDigit (c : UInt8) : Bool := 48 ≤ c ∧ c ≤ 57

def digitsValue (ds : List UInt8) : Nat := ds.foldl (fun n c => n * 10 + (c.toNat - 48)) 0

structure Strtoumax where
  value : Nat
  rest : List UInt8
  erange : Bool

/-- White space, a sign and digits. Without digits nothing is consumed; a minus sign negates
the value as an unsigned number. -/
def strtoumax (s : List UInt8) : Strtoumax :=
  let t := s.dropWhile isSpace
  let negative := t.head? = some 45
  let t := if t.head? = some 43 ∨ negative then t.tail else t
  let ds := t.takeWhile isDigit
  let v := digitsValue ds
  if ds = [] then ⟨0, s, false⟩
  else if uintmaxLimit ≤ v then ⟨uintmaxLimit - 1, t.dropWhile isDigit, true⟩
  else ⟨if negative then (uintmaxLimit - v) % uintmaxLimit else v, t.dropWhile isDigit, false⟩

structure Negotiated where
  segsize : Nat
  blksizeSet : Bool
  rolloverVal : UInt16
  tsize : Nat
  tsizeOk : Bool
  rexmtval : Nat
  timeout : Nat
  maxtimeout : Nat

def timeoutLimit : Nat := 2 ^ 6 - 1

def Negotiated.default : Negotiated :=
  ⟨512, false, 0, 0, false, 1000000, 1000000, timeoutLimit * 1000000⟩

def setBlksize (maxBlksize : Nat) (v : Nat) (n : Negotiated) : Option (Nat × Negotiated) :=
  if n.blksizeSet then none
  else if v < 8 then none
  else
    let sz := if maxBlksize < v then maxBlksize else v
    some (sz, { n with segsize := sz, blksizeSet := true })

/-- `while (sz >>= 1) sz1 <<= 1`, for a number of at most as many bits as there is fuel. -/
def halve : Nat → Nat → Nat → Nat
  | 0, _, sz1 => sz1
  | fuel + 1, sz, sz1 => if sz / 2 = 0 then sz1 else halve fuel (sz / 2) (sz1 * 2)

/-- A size above the limit is cut to it and not made a power of two. -/
def setBlksize2 (maxBlksize : Nat) (v : Nat) (n : Negotiated) : Option (Nat × Negotiated) :=
  if n.blksizeSet then none
  else if v < 8 then none
  else
    let sz := if maxBlksize < v then maxBlksize
      else if v &&& (v - 1) ≠ 0 then halve 64 v 1 else v
    some (sz, { n with segsize := sz, blksizeSet := true })

def setRollover (v : Nat) (n : Negotiated) : Option (Nat × Negotiated) :=
  if 65535 < v then none else some (v, { n with rolloverVal := .ofNat v })

def setTsize (v : Nat) (n : Negotiated) : Option (Nat × Negotiated) :=
  if n.tsizeOk then some (if v = 0 then n.tsize else v, n) else none

def setRexmtval (low high scale : Nat) (v : Nat) (n : Negotiated) : Option (Nat × Negotiated) :=
  if v < low ∨ high < v then none
  else
    let t := v * scale
    some (v, { n with rexmtval := t, timeout := t, maxtimeout := t * timeoutLimit })

def setTimeout : Nat → Negotiated → Option (Nat × Negotiated) := setRexmtval 1 255 1000000

def setUtimeout : Nat → Negotiated → Option (Nat × Negotiated) := setRexmtval 10000 255000000 1

inductive OptionName where
  | blksize
  | blksize2
  | tsize
  | timeout
  | utimeout
  | rollover
  deriving DecidableEq

def OptionName.all : List OptionName := [.blksize, .blksize2, .tsize, .timeout, .utimeout, .rollover]

def OptionName.text : OptionName → List UInt8
  | .blksize => ascii ['b', 'l', 'k', 's', 'i', 'z', 'e']
  | .blksize2 => ascii ['b', 'l', 'k', 's', 'i', 'z', 'e', '2']
  | .tsize => ascii ['t', 's', 'i', 'z', 'e']
  | .timeout => ascii ['t', 'i', 'm', 'e', 'o', 'u', 't']
  | .utimeout => ascii ['u', 't', 'i', 'm', 'e', 'o', 'u', 't']
  | .rollover => ascii ['r', 'o', 'l', 'l', 'o', 'v', 'e', 'r']

/-- What the command line says about options: the limit of `-B`, and the names refused with
`-r`, which are overwritten by the empty name. -/
structure OptionConfig where
  maxBlksize : Nat
  refused : OptionName → Bool

def OptionConfig.name (cfg : OptionConfig) (o : OptionName) : List UInt8 :=
  if cfg.refused o then [] else o.text

def OptionName.handler (cfg : OptionConfig) : OptionName → Nat → Negotiated →
    Option (Nat × Negotiated)
  | .blksize => setBlksize cfg.maxBlksize
  | .blksize2 => setBlksize2 cfg.maxBlksize
  | .tsize => setTsize
  | .timeout => setTimeout
  | .utimeout => setUtimeout
  | .rollover => setRollover

def strcaseEq (s t : List UInt8) : Bool := s.map tolower = t.map tolower

structure Oack where
  ackbuf : Mem
  ap : Nat

def Oack.start : Oack := ⟨Mem.zero.store 0 (Mem.be16 OACK), 2⟩

inductive OptResult where
  | returned (n : Negotiated) (o : Oack)
  | nak (error : Nat) (msg : String)

/-- An option that is not understood is ignored; one whose value is not acceptable, or whose
acknowledgement has no room, ends the request. -/
def doOpt (cfg : OptionConfig) (opt val : CString) (n : Negotiated) (o : Oack) : OptResult :=
  let n := { n with blksizeSet := false }
  if opt.bytes = [] ∨ val.bytes = [] then .returned n o
  else
    let r := strtoumax val.bytes
    if r.rest ≠ [] ∨ r.erange then .returned n o
    else
      match OptionName.all.find? fun name => strcaseEq (cfg.name name) opt.bytes with
      | none => .returned n o
      | some name =>
        match name.handler cfg r.value n with
        | none => .nak EOPTNEG "Unsupported option(s) requested"
        | some (v, n) =>
          let ret := decimal v
          if pktsize ≤ o.ap + opt.length + ret.length + 2 then
            .nak EOPTNEG "Insufficient space for options"
          else
            let text := opt.bytes ++ [NUL] ++ ret ++ [NUL]
            .returned n ⟨o.ackbuf.store o.ap text, o.ap + text.length⟩

end WooTftpd
