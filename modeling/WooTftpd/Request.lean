import WooTftpd.Access
import WooTftpd.Options

namespace WooTftpd
open Lib
set_option autoImplicit true

/-- The server as it was started. `rewriteAccess` gives the name that the mapping rules make of
a requested one, or the message with which they deny it. -/
structure ServerConfig where
  access : AccessConfig
  options : OptionConfig
  rewriteAccess : CString → UInt16 → Except (Option String) CString
  negotiated : Negotiated

/-- The variables of `tftp()`. The pointers into the request are offsets in `buf`; `convert` is
that of the format `pf` once it is known. -/
structure Request where
  buf : Mem
  size : Nat
  cp : Nat
  argn : Nat
  mode : Nat
  opt : Nat
  val : Nat
  convert : Option Bool
  fs : FileSystem
  negotiated : Negotiated
  oack : Oack
  calls : List Call

inductive Outcome where
  | nak (error : Nat) (msg : Option String)
  | exits
  | serve (convert : Bool) (oack : Option Nat)
  deriving DecidableEq

inductive Next where
  | stop (o : Outcome) (s : Request)
  | go (s : Request)

def Next.request : Next → Request
  | .stop _ s => s
  | .go s => s

def Next.andThen (x : Next) (f : Request → Next) : Next :=
  match x with
  | .stop o s => .stop o s
  | .go s => f s

def scanString (buf : Mem) : Nat → Nat → Nat
  | 0, cp => cp
  | n + 1, cp => if buf cp ≠ 0 then scanString buf n (cp + 1) else cp

def Request.stop (s : Request) : Nat := scanString s.buf (s.size - (s.cp + 1)) (s.cp + 1)

def stringAt (buf : Mem) (start stop : Nat) : CString := .ofBytes (buf.load start (stop - start))

def selectFormat (mode : List UInt8) : Option Bool :=
  if mode = ascii ['n', 'e', 't', 'a', 's', 'c', 'i', 'i'] then some true
  else if mode = ascii ['o', 'c', 't', 'e', 't'] then some false
  else none

/-- The second string, which ends at `stop`, is the mode: it is put into lower case where it
stands, and the file is validated. -/
def modeArgument (cfg : ServerConfig) (k : Kernel) (stop : Nat) (s : Request) : Next :=
  let opcode := thOpcode s.buf
  let text := (s.buf.load s.mode (stop - s.mode)).map tolower
  let s := { s with buf := s.buf.store s.mode text, cp := stop }
  match selectFormat text with
  | none => .stop (.nak EBADOP (some "Unknown mode")) s
  | some convert =>
    match cfg.rewriteAccess (stringAt s.buf 2 (s.mode - 1)) opcode with
    | .error msg => .stop (.nak EACCESS msg) s
    | .ok filename =>
      let r := validateAccess cfg.access k opcode convert filename s.fs
      let s := { s with fs := r.fs, calls := s.calls ++ r.calls, convert := some convert }
      match r.result with
      | .denied ecode msg => .stop (.nak ecode msg) s
      | .exits => .stop .exits s
      | .granted tsize tsizeOk =>
        .go { s with negotiated := { s.negotiated with tsize := tsize, tsizeOk := tsizeOk },
                     opt := stop + 1, cp := stop + 1 }

def argument (cfg : ServerConfig) (k : Kernel) (stop : Nat) (s : Request) : Next :=
  if s.argn = 1 then .go { s with mode := stop + 1, cp := stop + 1 }
  else if s.argn = 2 then modeArgument cfg k stop s
  else if s.argn % 2 = 1 then .go { s with val := stop + 1, cp := stop + 1 }
  else
    match doOpt cfg.options (stringAt s.buf s.opt (s.val - 1)) (stringAt s.buf s.val stop)
      s.negotiated s.oack with
    | .nak error msg => .stop (.nak error (some msg)) { s with cp := stop }
    | .returned n o =>
      .go { s with negotiated := n, oack := o, opt := stop + 1, cp := stop + 1 }

/-- The loop over the strings of a request, for at most `n` of them. The byte behind the
datagram is read when a string is not terminated. -/
def tftpLoop (cfg : ServerConfig) (k : Kernel) : Nat → Request → Next
  | 0, s => .go s
  | n + 1, s =>
    if s.cp < s.size ∧ s.buf s.cp ≠ 0 then
      if s.buf s.stop ≠ 0 then
        .stop (.nak EBADOP (some "Request not null-terminated")) { s with cp := s.stop }
      else
        (argument cfg k s.stop { s with argn := s.argn + 1 }).andThen (tftpLoop cfg k n)
    else .go s

def requestStart (cfg : ServerConfig) (buf : Mem) (size : Nat) (fs : FileSystem) : Request :=
  ⟨buf, size, 2, 0, 0, 0, 0, none, fs, cfg.negotiated, .start, []⟩

def tftp (cfg : ServerConfig) (k : Kernel) (buf : Mem) (size : Nat) (fs : FileSystem) :
    Outcome × Request :=
  match tftpLoop cfg k size (requestStart cfg buf size fs) with
  | .stop o s => (o, s)
  | .go s =>
    match s.convert with
    | none => (.nak EBADOP (some "Missing mode"), s)
    | some convert => (.serve convert (if s.oack.ap ≠ 2 then some s.oack.ap else none), s)

theorem le_scanString (buf : Mem) (n cp : Nat) : cp ≤ scanString buf n cp := by
  induction n generalizing cp with
  | zero => exact Nat.le_refl _
  | succ n ih =>
    rw [scanString]
    split
    · exact Nat.le_trans (Nat.le_succ cp) (ih (cp + 1))
    · exact Nat.le_refl _

theorem argument_go (h : argument cfg k stop s = .go s') :
    s'.cp = stop + 1 ∧ s'.size = s.size ∧ s'.argn = s.argn := by
  simp only [argument, modeArgument] at h
  repeat' split at h
  all_goals cases h
  all_goals exact ⟨rfl, rfl, rfl⟩

theorem Request.lt_stop (s : Request) : s.cp < s.stop := le_scanString _ _ _

/-- There are never more strings than bytes: a larger bound on their number changes nothing. -/
theorem tftpLoop_fuel (cfg : ServerConfig) (k : Kernel) (s : Request) (h : s.size - s.cp ≤ n) :
    tftpLoop cfg k (n + 1) s = tftpLoop cfg k n s := by
  induction n generalizing s with
  | zero =>
    rw [tftpLoop, tftpLoop, if_neg (by omega)]
  | succ n ih =>
    rw [tftpLoop]
    conv => rhs; rw [tftpLoop]
    split
    · split
      · rfl
      · cases hs : argument cfg k s.stop { s with argn := s.argn + 1 } with
        | stop o s' => rfl
        | go s' =>
          obtain ⟨hcp, hsize, _⟩ := argument_go hs
          have hlt := s.lt_stop
          apply ih
          rw [hcp, hsize]
          dsimp only
          omega
    · rfl

end WooTftpd
