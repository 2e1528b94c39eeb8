import Mathlib.Algebra.Group.Int.Defs
import Mathlib.Logic.Function.Basic
import WooTftpd.GetoptRun
import WooTftpd.ListenAddress
import WooTftpd.Request
import WooTftpd.RetryBudget

namespace WooTftpd
open Lib
set_option autoImplicit true

/-- The options of the command line, in the order of `long_options`. -/
inductive Switch where
  | ipv4
  | ipv6
  | create
  | secure
  | permissive
  | verbose
  | verbosity
  | version
  | listen
  | foreground
  | address
  | blocksize
  | user
  | umask
  | refuse
  | timeout
  | retransmit
  | portRange
  | mapFile
  | pidfile
  deriving DecidableEq

namespace Switch

def all : List Switch :=
  [ipv4, ipv6, create, secure, permissive, verbose, verbosity, version, listen, foreground,
    address, blocksize, user, umask, refuse, timeout, retransmit, portRange, mapFile, pidfile]

/-- The value that `getopt_long` returns: a character, or `OPT_VERBOSITY`. -/
def val : Switch → Nat
  | ipv4 => '4'.toNat
  | ipv6 => '6'.toNat
  | create => 'c'.toNat
  | secure => 's'.toNat
  | permissive => 'p'.toNat
  | verbose => 'v'.toNat
  | verbosity => 256
  | version => 'V'.toNat
  | listen => 'l'.toNat
  | foreground => 'L'.toNat
  | address => 'a'.toNat
  | blocksize => 'B'.toNat
  | user => 'u'.toNat
  | umask => 'U'.toNat
  | refuse => 'r'.toNat
  | timeout => 't'.toNat
  | retransmit => 'T'.toNat
  | portRange => 'R'.toNat
  | mapFile => 'm'.toNat
  | pidfile => 'P'.toNat

def hasArg : Switch → Bool
  | verbosity | address | blocksize | user | umask | refuse | timeout | retransmit | portRange
  | mapFile | pidfile => true
  | _ => false

def name : Switch → List UInt8
  | ipv4 => ascii ['i', 'p', 'v', '4']
  | ipv6 => ascii ['i', 'p', 'v', '6']
  | create => ascii ['c', 'r', 'e', 'a', 't', 'e']
  | secure => ascii ['s', 'e', 'c', 'u', 'r', 'e']
  | permissive => ascii ['p', 'e', 'r', 'm', 'i', 's', 's', 'i', 'v', 'e']
  | verbose => ascii ['v', 'e', 'r', 'b', 'o', 's', 'e']
  | verbosity => ascii ['v', 'e', 'r', 'b', 'o', 's', 'i', 't', 'y']
  | version => ascii ['v', 'e', 'r', 's', 'i', 'o', 'n']
  | listen => ascii ['l', 'i', 's', 't', 'e', 'n']
  | foreground => ascii ['f', 'o', 'r', 'e', 'g', 'r', 'o', 'u', 'n', 'd']
  | address => ascii ['a', 'd', 'd', 'r', 'e', 's', 's']
  | blocksize => ascii ['b', 'l', 'o', 'c', 'k', 's', 'i', 'z', 'e']
  | user => ascii ['u', 's', 'e', 'r']
  | umask => ascii ['u', 'm', 'a', 's', 'k']
  | refuse => ascii ['r', 'e', 'f', 'u', 's', 'e']
  | timeout => ascii ['t', 'i', 'm', 'e', 'o', 'u', 't']
  | retransmit => ascii ['r', 'e', 't', 'r', 'a', 'n', 's', 'm', 'i', 't']
  | portRange => ascii ['p', 'o', 'r', 't', '-', 'r', 'a', 'n', 'g', 'e']
  | mapFile => ascii ['m', 'a', 'p', '-', 'f', 'i', 'l', 'e']
  | pidfile => ascii ['p', 'i', 'd', 'f', 'i', 'l', 'e']

/-- The case of the switch for what `getopt_long` returned; `none` is its default. -/
def ofVal (c : Nat) : Option Switch := all.find? fun o => o.val = c

end Switch

/-- `long_options` without the entry that ends it. -/
def longOptions : List LongOption :=
  Switch.all.map fun o => ⟨o.name, if o.hasArg then 1 else 0, o.val⟩

/-- "46cspvVlLa:B:u:U:r:t:T:R:m:P:" -/
def shortOptions : List UInt8 :=
  ascii ['4', '6', 'c', 's', 'p', 'v', 'V', 'l', 'L', 'a', ':', 'B', ':', 'u', ':', 'U', ':', 'r',
    ':', 't', ':', 'T', ':', 'R', ':', 'm', ':', 'P', ':']

/-- The variables that the options set. The negotiated values are those that each request
starts with. -/
structure Variables where
  aiFam : Family
  forceIpv6 : Bool
  cancreate : Bool
  secure : Bool
  unixperms : Bool
  standalone : Bool
  nodaemon : Bool
  address : Option (List UInt8)
  waittime : Int
  options : OptionConfig
  negotiated : Negotiated
  portrange : Option (Nat × Nat)
  user : Option (List UInt8)
  umask : Option Nat
  rewriteFile : Option (List UInt8)
  verbosity : Int
  pidfile : Option (List UInt8)

def Variables.initial : Variables where
  aiFam := .unspec
  forceIpv6 := false
  cancreate := false
  secure := false
  unixperms := false
  standalone := false
  nodaemon := false
  address := none
  waittime := 900
  options := ⟨maxSegsize, fun _ => false⟩
  negotiated := .default
  portrange := none
  user := some (ascii ['n', 'o', 'b', 'o', 'd', 'y'])
  umask := none
  rewriteFile := none
  verbosity := 0
  pidfile := none

/-- How the start of the server ends early. A null pointer in the place of an argument is a
fault. -/
inductive Halt where
  | exit (status : Nat)
  | fault
  deriving DecidableEq

def EX_USAGE : Nat := 64
def EX_NOINPUT : Nat := 66
def EX_NOUSER : Nat := 67

/-- The number of bits that `int` and `unsigned int` have. -/
def intBits : Nat := 32

/-- The number that `strtol` reads, which is not more than a `long` holds, as an `int`. -/
def atoi (s : List UInt8) : Int :=
  let t := s.dropWhile isSpace
  let negative := t.head? = some 45
  let t := if t.head? = some 43 ∨ negative then t.tail else t
  let v := digitsValue (t.takeWhile isDigit)
  let l : Int := if negative then -(min v (2 ^ 63) : Nat) else (min v (2 ^ 63 - 1) : Nat)
  (l + 2 ^ 31) % 2 ^ intBits - 2 ^ 31

def isOctal (c : UInt8) : Bool := 48 ≤ c ∧ c ≤ 55

def octalValue (ds : List UInt8) : Nat := ds.foldl (fun n c => n * 8 + (c.toNat - 48)) 0

/-- `strtoul` with the base 8: the number, and what stands behind it. -/
def strtoulOctal (s : List UInt8) : Nat × List UInt8 :=
  let t := s.dropWhile isSpace
  let negative := t.head? = some 45
  let t := if t.head? = some 43 ∨ negative then t.tail else t
  let ds := t.takeWhile isOctal
  let v := octalValue ds
  if ds = [] then (0, s)
  else if uintmaxLimit ≤ v then (uintmaxLimit - 1, t.dropWhile isOctal)
  else (if negative then (uintmaxLimit - v) % uintmaxLimit else v, t.dropWhile isOctal)

/-- The conversion `%u` of `sscanf`, with what is left of the input. -/
def scanUnsigned (s : List UInt8) : Option (Nat × List UInt8) :=
  let r := strtoumax s
  if r.rest = s then none else some (r.value % 2 ^ intBits, r.rest)

/-- `sscanf` with the format `%u:%u`. -/
def scanRange (s : List UInt8) : Option (Nat × Nat) :=
  match scanUnsigned s with
  | none => none
  | some (low, rest) =>
    if rest.head? = some colonSign then (scanUnsigned rest.tail).map fun r => (low, r.1) else none

/-- An option that is refused loses its name. -/
def OptionConfig.refuse (cfg : OptionConfig) (optarg : List UInt8) : Option OptionConfig :=
  (OptionName.all.find? fun o => strcaseEq optarg (cfg.name o)).map fun o =>
    { cfg with refused := Function.update cfg.refused o true }

def blocksizeOption (optarg : List UInt8) (cfg : OptionConfig) : Option OptionConfig :=
  let r := strtoumax optarg
  let size := r.value % 2 ^ intBits
  if size < 512 ∨ maxSegsize < size ∨ r.rest ≠ [] then none else some { cfg with maxBlksize := size }

def rangeOption (optarg : List UInt8) : Option (Nat × Nat) :=
  match scanRange optarg with
  | none => none
  | some (low, high) => if high < low ∨ 65535 ≤ high then none else some (low, high)

def umaskOption (optarg : List UInt8) : Option Nat :=
  let r := strtoulOctal optarg
  if r.2 ≠ [] then none else some (r.1 % 2 ^ intBits)

/-- The result of a check, or the exit of a server that was started in a wrong way. -/
def orUsage : Option α → Except Halt α
  | some x => .ok x
  | none => .error (.exit EX_USAGE)

def derefArg : Option (List UInt8) → Except Halt (List UInt8)
  | some s => .ok s
  | none => .error .fault

/-- The switch on what `getopt_long` returned. -/
def applySwitch (v : Variables) (optarg : Option (List UInt8)) : Switch → Except Halt Variables
  | .ipv4 => .ok { v with aiFam := .inet }
  | .ipv6 => .ok { v with aiFam := .inet6, forceIpv6 := true }
  | .create => .ok { v with cancreate := true }
  | .secure => .ok { v with secure := true }
  | .permissive => .ok { v with unixperms := true }
  | .listen => .ok { v with standalone := true }
  | .foreground => .ok { v with standalone := true, nodaemon := true }
  | .address => .ok { v with address := optarg }
  | .timeout => (derefArg optarg).map fun s => { v with waittime := atoi s }
  | .blocksize => (derefArg optarg).bind fun s =>
      (orUsage (blocksizeOption s v.options)).map fun o => { v with options := o }
  | .retransmit => (derefArg optarg).bind fun s =>
      (orUsage (rexmtOption s v.negotiated)).map fun n => { v with negotiated := n }
  | .portRange => (derefArg optarg).bind fun s =>
      (orUsage (rangeOption s)).map fun r => { v with portrange := some r }
  | .user => .ok { v with user := optarg }
  | .umask => (derefArg optarg).bind fun s =>
      (orUsage (umaskOption s)).map fun m => { v with umask := some m }
  | .refuse => (derefArg optarg).bind fun s =>
      (orUsage (v.options.refuse s)).map fun o => { v with options := o }
  | .mapFile =>
    if v.rewriteFile.isSome then .error (.exit EX_USAGE) else .ok { v with rewriteFile := optarg }
  | .verbose => .ok { v with verbosity := v.verbosity + 1 }
  | .verbosity => (derefArg optarg).map fun s => { v with verbosity := atoi s }
  | .version => .error (.exit 0)
  | .pidfile => .ok { v with pidfile := optarg }

/-- One round of the loop. An unknown option is only logged. -/
def applyOption (v : Variables) (r : Nat × Option (List UInt8)) : Except Halt Variables :=
  match Switch.ofVal r.1 with
  | none => .ok v
  | some o => applySwitch v r.2 o

/-- The system that the server is started on. `map` is what becomes of reading the map file: the
status of the exit, or the rules. -/
structure Host (ρ : Type) where
  chdir : List UInt8 → Bool
  knowsUser : List UInt8 → Bool
  map : List UInt8 → Except Nat ρ

/-- What `main` has found out before it opens its sockets. -/
structure Started (ρ : Type) where
  vars : Variables
  dirs : List CString
  rules : Option ρ

/-- In secure mode there is one directory, and it becomes the current one. -/
def enterDirectory (host : Host ρ) (v : Variables) (dirs : List CString) : Except Halt Unit :=
  if v.secure then
    match dirs with
    | [d] => if host.chdir d.bytes then .ok () else .error (.exit EX_NOINPUT)
    | _ => .error (.exit EX_USAGE)
  else .ok ()

def readRules (host : Host ρ) : Option (List UInt8) → Except Halt (Option ρ)
  | none => .ok none
  | some file =>
    match host.map file with
    | .error status => .error (.exit status)
    | .ok rules => .ok (some rules)

/-- What follows the loop, with the operands `dirs`. -/
def checkStart (host : Host ρ) (v : Variables) (dirs : List CString) :
    Except Halt (Started ρ) :=
  (enterDirectory host v dirs).bind fun _ =>
  (derefArg v.user).bind fun user =>
    if !host.knowsUser user then .error (.exit EX_NOUSER)
    else (readRules host v.rewriteFile).map fun rules =>
      ⟨{ v with pidfile := if v.standalone then v.pidfile else none }, dirs, rules⟩

/-- The loop over the options. -/
def optionLoop (a : Argv) : List (Nat × Option (List UInt8)) × Getopt :=
  getoptRun shortOptions longOptions a (a.rest 1 + 1) .start

/-- The operands are copied until `optind` is `argc`. -/
def mainStart (host : Host ρ) (a : Argv) : Except Halt (Started ρ) :=
  let r := optionLoop a
  (r.1.foldlM applyOption .initial).bind fun v =>
    if a.argc < r.2.optind then .error .fault
    else checkStart host v (a.words.drop r.2.optind)

/-- The server as a request finds it. -/
def Started.config (s : Started ρ) (rewriteAccess : CString → UInt16 → Except (Option String) CString) :
    ServerConfig where
  access := ⟨s.vars.secure, s.vars.cancreate, s.vars.unixperms, s.dirs⟩
  options := s.vars.options
  rewriteAccess := rewriteAccess
  negotiated := s.vars.negotiated

end WooTftpd
