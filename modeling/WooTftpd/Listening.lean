import WooTftpd.Daemon
import WooTftpd.ListenAddress

namespace WooTftpd
open Lib
set_option autoImplicit true

def IPPORT_TFTP : UInt16 := 69

/-- The address that a socket is bound to. `none` is any address. -/
structure LocalAddress where
  host : Option (List UInt8)
  port : UInt16
  deriving DecidableEq

def LocalAddress.any : LocalAddress := ⟨none, IPPORT_TFTP⟩

/-- What the system says to the calls that set the sockets up. `getaddrinfo` is asked for a host
and not for a service, and also fills in the port. -/
structure NetSystem where
  socket : Family → Bool
  setsNonblock : Input → Bool
  inetAton : List UInt8 → Bool
  getaddrinfo : Family → List UInt8 → Option LocalAddress
  getservbyname : List UInt8 → Option UInt16
  setsockopt : Bool
  bind4 : LocalAddress → Bool
  bind6 : Bool → LocalAddress → Bool
  daemonizes : Bool
  writesPidfile : List UInt8 → Bool

/-- The sockets of a standalone server that are open, each with the address it is to have. -/
structure ListenSockets where
  fd4 : Option LocalAddress
  fd6 : Option LocalAddress

/-- What `main` enters its loop with. -/
structure Opened where
  fd4 : Option LocalAddress
  fd6 : Option LocalAddress
  v6only : Bool
  fd0 : Bool
  pidfile : Bool

/-- The value of a digit in any base up to 16. -/
def digitOf (c : UInt8) : Nat :=
  if isDigit c then c.toNat - 48
  else if 65 ≤ c ∧ c ≤ 70 then c.toNat - 55
  else if 97 ≤ c ∧ c ≤ 102 then c.toNat - 87
  else 16

def isDigitOf (base : Nat) (c : UInt8) : Bool := digitOf c < base

/-- The base that a number is written in, and its digits. -/
def numberBase : List UInt8 → Nat × List UInt8
  | c :: x :: d :: t =>
    if c = 48 then
      if (x = 88 ∨ x = 120) ∧ isDigitOf 16 d then (16, d :: t) else (8, c :: x :: d :: t)
    else (10, c :: x :: d :: t)
  | c :: t => if c = 48 then (8, c :: t) else (10, c :: t)
  | [] => (10, [])

/-- `strtoul` with the base 0: the number, and what stands behind it. -/
def strtoul (s : List UInt8) : Nat × List UInt8 :=
  let t := s.dropWhile isSpace
  let negative := t.head? = some 45
  let t := if t.head? = some 43 ∨ negative then t.tail else t
  let (base, t) := numberBase t
  let ds := t.takeWhile (isDigitOf base)
  let v := ds.foldl (fun n c => n * base + digitOf c) 0
  if ds = [] then (0, s)
  else if uintmaxLimit ≤ v then (uintmaxLimit - 1, t.dropWhile (isDigitOf base))
  else (if negative then (uintmaxLimit - v) % uintmaxLimit else v, t.dropWhile (isDigitOf base))

namespace NetSystem

variable (n : NetSystem)

/-- A descriptor that is not open is an error. -/
def setSocketNonblock (opened : Bool) (fd : Input) : Except Halt Unit :=
  if opened && n.setsNonblock fd then .ok () else .error (.exit EX_OSERR)

def openFd4 (aiFam : Family) : Except Halt (Option LocalAddress) :=
  if aiFam = .inet6 then .ok none
  else if !n.socket .inet then .error (.exit EX_OSERR)
  else (n.setSocketNonblock true .fd4).map fun _ => some .any

/-- Without the socket only a server that has no other one exits here, but `fd6` is used next. -/
def openFd6 (aiFam : Family) (fd4 : Option LocalAddress) : Except Halt (Option LocalAddress) :=
  if aiFam = .inet then .ok none
  else if !n.socket .inet6 ∧ fd4.isNone then .error (.exit EX_OSERR)
  else (n.setSocketNonblock (n.socket .inet6) .fd6).map fun _ => some .any

def openSockets (aiFam : Family) : Except Halt ListenSockets :=
  (n.openFd4 aiFam).bind fun fd4 => (n.openFd6 aiFam fd4).map fun fd6 => ⟨fd4, fd6⟩

def stripAddress (a : List UInt8) : List UInt8 :=
  if isNumericIpv6 a ∧ a.head? = some lbracket ∧ a.getLast? = some rbracket then a.tail.dropLast
  else a

/-- All of the address is overwritten. -/
def setSockAddr (family : Family) (host : List UInt8) : Option LocalAddress :=
  n.getaddrinfo family (stripAddress host)

/-- The switch on what `split_port` returned: the socket of the other family is closed. -/
def selectFamily (aiFam : Family) (s : ListenSockets) : Family → Except Halt ListenSockets
  | .inet =>
    if s.fd6.isSome then
      (if aiFam = .inet6 then .error (.exit EX_USAGE) else .ok { s with fd6 := none })
    else .ok s
  | .inet6 =>
    if s.fd4.isSome then
      (if aiFam = .inet then .error (.exit EX_USAGE) else .ok { s with fd4 := none })
    else .ok s
  | .unspec => .ok s

def resolveFd4 (address : List UInt8) : Option LocalAddress → Except Halt (Option LocalAddress)
  | none => .ok none
  | some _ =>
    match n.setSockAddr .inet address with
    | some b => .ok (some b)
    | none => .error (.exit EX_NOINPUT)

def resolveFd6 (address : List UInt8) (fd4 : Option LocalAddress) :
    Option LocalAddress → Except Halt (Option LocalAddress)
  | none => .ok none
  | some _ =>
    match n.setSockAddr .inet6 address with
    | some b => .ok (some b)
    | none => if fd4.isSome then .ok none else .error (.exit EX_NOINPUT)

def resolve (address : List UInt8) (s : ListenSockets) : Except Halt ListenSockets :=
  if address = [] then .ok s
  else (n.resolveFd4 address s.fd4).bind fun fd4 =>
    (n.resolveFd6 address fd4 s.fd6).map fun fd6 => ⟨fd4, fd6⟩

def tftp : List UInt8 := ascii ['t', 'f', 't', 'p']

/-- The port to be set; `none` if the address keeps the one it has. -/
def servicePort (portptr : List UInt8) : Except Halt (Option UInt16) :=
  if portptr = [] then .ok none
  else
    match n.getservbyname portptr with
    | some port => .ok (some port)
    | none =>
      let r := strtoul portptr
      if r.1 ≠ 0 ∧ r.2 = [] then .ok (some (.ofNat r.1))
      else if portptr = tftp then .ok none
      else .error (.exit EX_NOINPUT)

end NetSystem

def LocalAddress.setPort (b : LocalAddress) (port : Option UInt16) : LocalAddress :=
  { b with port := port.getD b.port }

namespace NetSystem

variable (n : NetSystem)

def setAddress (aiFam : Family) (address : List UInt8) (s : ListenSockets) : Except Halt ListenSockets :=
  match splitPort n.inetAton address with
  | none => .error (.exit EX_USAGE)
  | some (host, portptr, family) =>
    (selectFamily aiFam s family).bind fun s =>
    (n.resolve host s).bind fun s =>
    (n.servicePort (portptr.getD tftp)).map fun port =>
      ⟨s.fd4.map (·.setPort port), s.fd6.map (·.setPort port)⟩

def bindFd4 : Option LocalAddress → Except Halt Unit
  | none => .ok ()
  | some b => if n.bind4 b then .ok () else .error (.exit EX_OSERR)

/-- An IPv6 socket that is not bound is closed if there is the other one. -/
def bindFd6 (v6only : Bool) (fd4 : Option LocalAddress) :
    Option LocalAddress → Except Halt (Option LocalAddress)
  | none => .ok none
  | some b =>
    if n.bind6 v6only b then .ok (some b)
    else if fd4.isSome then .ok none
    else .error (.exit EX_OSERR)

def bindSockets (v : Variables) (s : ListenSockets) : Except Halt Opened :=
  let v6only := s.fd6.isSome && (s.fd4.isSome || v.forceIpv6) && n.setsockopt
  (n.bindFd4 s.fd4).bind fun _ =>
  (n.bindFd6 v6only s.fd4 s.fd6).bind fun fd6 =>
    if !v.nodaemon ∧ !n.daemonizes then .error (.exit EX_OSERR)
    else .ok ⟨s.fd4, fd6, v6only, false, v.pidfile.any n.writesPidfile⟩

def addressOption (v : Variables) (s : ListenSockets) : Except Halt ListenSockets :=
  match v.address with
  | none => .ok s
  | some address => n.setAddress v.aiFam address s

/-- What stands between the options and the loop. -/
def listen (v : Variables) : Except Halt Opened :=
  if v.standalone then
    (n.openSockets v.aiFam).bind fun s => (n.addressOption v s).bind fun s => n.bindSockets v s
  else (n.setSocketNonblock true .fd0).map fun _ => ⟨none, none, false, true, false⟩

end NetSystem

/-- The family that the address is written in. -/
def literalFamily (n : NetSystem) (v : Variables) : Family :=
  match v.address with
  | none => .unspec
  | some address =>
    match splitPort n.inetAton address with
    | none => .unspec
    | some (_, _, family) => family

/-- A service has the name, or else it is a number, of which a port keeps 16 bits. -/
def AsksPort (n : NetSystem) (s : List UInt8) (port : UInt16) : Prop :=
  s ≠ [] ∧ (n.getservbyname s = some port ∨
    (n.getservbyname s = none ∧ (strtoul s).2 = [] ∧ (strtoul s).1 ≠ 0 ∧
      port = .ofNat (strtoul s).1))

/-- A socket keeps its port if there is nothing behind the colon, or if nobody knows the service
that is taken without one. -/
def KeepsPort (n : NetSystem) (s : List UInt8) : Prop :=
  s = [] ∨ (s = NetSystem.tftp ∧ n.getservbyname s = none)

/-- The address of a socket before the port is set. -/
def HostAddress (n : NetSystem) (family : Family) (host : List UInt8) (b : LocalAddress) : Prop :=
  if host = [] then b = .any else n.setSockAddr family host = some b

/-- What the command line says of the address of a socket. -/
def Addressed (n : NetSystem) (v : Variables) (family : Family) (b : LocalAddress) : Prop :=
  match v.address with
  | none => b = .any
  | some address => ∃ host portptr written base,
      splitPort n.inetAton address = some (host, portptr, written) ∧
      HostAddress n family host base ∧ b.host = base.host ∧
      (AsksPort n (portptr.getD NetSystem.tftp) b.port ∨
        (KeepsPort n (portptr.getD NetSystem.tftp) ∧ b.port = base.port))

section Sockets

variable {n : NetSystem} {v : Variables} {o : Opened}

theorem servicePort_proceeds (n : NetSystem) (s : List UInt8) :
    Proceeds (fun port => (∃ p, port = some p ∧ AsksPort n s p) ∨ (port = none ∧ KeepsPort n s))
      (n.servicePort s) := by
  rw [NetSystem.servicePort]
  split
  · rename_i hs
    exact .inr ⟨rfl, .inl hs⟩
  rename_i hs
  split
  · rename_i port hp
    exact .inl ⟨port, rfl, hs, .inl hp⟩
  rename_i hp
  dsimp only
  split
  · rename_i hr
    exact .inl ⟨_, rfl, hs, .inr ⟨hp, hr.2, hr.1, rfl⟩⟩
  split
  · rename_i ht
    exact .inr ⟨rfl, .inr ⟨ht, hp⟩⟩
  · exact Halt.noConfusion

theorem setSocketNonblock_proceeds (n : NetSystem) (opened : Bool) (fd : Input) :
    Proceeds (fun _ => opened = true) (n.setSocketNonblock opened fd) := by
  rw [NetSystem.setSocketNonblock]
  split
  · rename_i h
    exact (Bool.and_eq_true_iff.1 h).1
  · exact Halt.noConfusion

/-- At first the options `-4` and `-6` alone decide. -/
structure ListenSockets.Fresh (aiFam : Family) (s : ListenSockets) : Prop where
  fd4 : s.fd4 = if aiFam = .inet6 then none else some .any
  fd6 : s.fd6 = if aiFam = .inet then none else some .any

theorem openFd4_proceeds (n : NetSystem) (aiFam : Family) :
    Proceeds (fun fd4 => fd4 = if aiFam = .inet6 then none else some .any) (n.openFd4 aiFam) := by
  rw [NetSystem.openFd4]
  split
  · rfl
  split
  · exact Halt.noConfusion
  · exact (setSocketNonblock_proceeds n true .fd4).map fun _ _ => rfl

/-- A server that is to have an IPv6 socket does not go on without. -/
theorem openFd6_proceeds (n : NetSystem) (aiFam : Family) (fd4 : Option LocalAddress) :
    Proceeds (fun fd6 => fd6 = if aiFam = .inet then none else some .any)
      (n.openFd6 aiFam fd4) := by
  rw [NetSystem.openFd6]
  split
  · rfl
  split
  · exact Halt.noConfusion
  · exact (setSocketNonblock_proceeds n _ .fd6).map fun _ _ => rfl

theorem openSockets_proceeds (n : NetSystem) (aiFam : Family) :
    Proceeds (ListenSockets.Fresh aiFam) (n.openSockets aiFam) := by
  apply (openFd4_proceeds n aiFam).bind
  intro fd4 h4
  exact (openFd6_proceeds n aiFam fd4).map fun fd6 h6 => ⟨h4, h6⟩

/-- Then the address may take one of them away, but not both. -/
structure ListenSockets.Selected (aiFam family : Family) (s : ListenSockets) : Prop where
  agree : ¬ (aiFam = .inet ∧ family = .inet6) ∧ ¬ (aiFam = .inet6 ∧ family = .inet)
  fd4 : s.fd4 = if aiFam = .inet6 ∨ family = .inet6 then none else some .any
  fd6 : s.fd6 = if aiFam = .inet ∨ family = .inet then none else some .any

theorem ListenSockets.Fresh.selected (h : Fresh aiFam s) : Selected aiFam .unspec s where
  agree := ⟨fun ha => Family.noConfusion ha.2, fun ha => Family.noConfusion ha.2⟩
  fd4 := by
    rw [h.fd4]
    cases aiFam <;> rfl
  fd6 := by
    rw [h.fd6]
    cases aiFam <;> rfl

theorem ListenSockets.Fresh.selectFamily (h : Fresh aiFam s) (family : Family) :
    Proceeds (Selected aiFam family) (NetSystem.selectFamily aiFam s family) := by
  obtain ⟨fd4, fd6⟩ := s
  obtain ⟨h4, h6⟩ := h
  cases h4
  cases h6
  cases family with
  | unspec =>
    have hfresh : Fresh aiFam ⟨if aiFam = .inet6 then none else some .any,
      if aiFam = .inet then none else some .any⟩ := ⟨rfl, rfl⟩
    exact hfresh.selected
  | inet =>
    cases aiFam with
    | unspec => exact ⟨by decide, rfl, rfl⟩
    | inet => exact ⟨by decide, rfl, rfl⟩
    | inet6 => exact Halt.noConfusion
  | inet6 =>
    cases aiFam with
    | unspec => exact ⟨by decide, rfl, rfl⟩
    | inet => exact Halt.noConfusion
    | inet6 => exact ⟨by decide, rfl, rfl⟩

/-- Where an address has no numbers for IPv6, a server that has the other socket closes this
one. -/
structure ListenSockets.Resolved (n : NetSystem) (aiFam family : Family) (host : List UInt8)
    (s : ListenSockets) : Prop where
  agree : ¬ (aiFam = .inet ∧ family = .inet6) ∧ ¬ (aiFam = .inet6 ∧ family = .inet)
  fd4 : s.fd4.isSome = true ↔ aiFam ≠ .inet6 ∧ family ≠ .inet6
  fd6 : s.fd6.isSome = true → aiFam ≠ .inet ∧ family ≠ .inet
  closed : s.fd6 = none → aiFam = .inet ∨ family = .inet ∨
    (s.fd4.isSome = true ∧ host ≠ [] ∧ n.setSockAddr .inet6 host = none)
  host4 : ∀ b, s.fd4 = some b → HostAddress n .inet host b
  host6 : ∀ b, s.fd6 = some b → HostAddress n .inet6 host b

theorem ListenSockets.Selected.open4 (h : Selected aiFam family s) :
    s.fd4.isSome = true ↔ aiFam ≠ .inet6 ∧ family ≠ .inet6 := by
  rw [h.fd4, ← not_or]
  split
  · rename_i hf
    exact iff_of_false Bool.false_ne_true (not_not_intro hf)
  · rename_i hf
    exact iff_of_true rfl hf

theorem ListenSockets.Selected.open6 (h : Selected aiFam family s) :
    s.fd6.isSome = true ↔ aiFam ≠ .inet ∧ family ≠ .inet := by
  rw [h.fd6, ← not_or]
  split
  · rename_i hf
    exact iff_of_false Bool.false_ne_true (not_not_intro hf)
  · rename_i hf
    exact iff_of_true rfl hf

theorem ListenSockets.Selected.closed6 (h : Selected aiFam family s) (hs : s.fd6 = none) :
    aiFam = .inet ∨ family = .inet := by
  by_contra hf
  have hopen := h.open6.2 (not_or.1 hf)
  rw [hs] at hopen
  cases hopen

/-- Without a host a socket has any address. -/
theorem ListenSockets.Selected.unresolved (h : Selected aiFam family s) :
    Resolved n aiFam family [] s where
  agree := h.agree
  fd4 := h.open4
  fd6 := h.open6.1
  closed := fun hs => (h.closed6 hs).elim .inl fun hf => .inr (.inl hf)
  host4 := by
    intro b hb
    rw [h.fd4] at hb
    exact (if_pos rfl).mpr (Option.some.inj (Option.ite_none_left_eq_some.1 hb).2).symm
  host6 := by
    intro b hb
    rw [h.fd6] at hb
    exact (if_pos rfl).mpr (Option.some.inj (Option.ite_none_left_eq_some.1 hb).2).symm

theorem resolveFd4_proceeds (n : NetSystem) (host : List UInt8) (x : Option LocalAddress) :
    Proceeds (fun y => y.isSome = x.isSome ∧ ∀ b, y = some b → n.setSockAddr .inet host = some b)
      (n.resolveFd4 host x) := by
  cases x with
  | none =>
    refine ⟨rfl, ?_⟩
    intro b hb
    cases hb
  | some a =>
    rw [NetSystem.resolveFd4]
    split
    · rename_i b hb
      refine ⟨rfl, ?_⟩
      intro b' he
      rw [hb, he]
    · exact Halt.noConfusion

theorem resolveFd6_proceeds (n : NetSystem) (host : List UInt8) (fd4 x : Option LocalAddress) :
    Proceeds (fun y => (y.isSome = true → x.isSome = true) ∧
        (∀ b, y = some b → n.setSockAddr .inet6 host = some b) ∧
        (y = none → x = none ∨ (fd4.isSome = true ∧ n.setSockAddr .inet6 host = none)))
      (n.resolveFd6 host fd4 x) := by
  cases x with
  | none =>
    refine ⟨id, ?_, .inl⟩
    intro b hb
    cases hb
  | some a =>
    rw [NetSystem.resolveFd6]
    split
    · rename_i b hb
      refine ⟨fun _ => rfl, ?_, fun hn => absurd hn (Option.some_ne_none b)⟩
      intro b' he
      rw [hb, he]
    split
    · rename_i hn h4
      refine ⟨fun _ => rfl, ?_, fun _ => .inr ⟨h4, hn⟩⟩
      intro b hb
      cases hb
    · exact Halt.noConfusion

theorem ListenSockets.Selected.resolve (h : Selected aiFam family s) (n : NetSystem)
    (host : List UInt8) : Proceeds (Resolved n aiFam family host) (n.resolve host s) := by
  rw [NetSystem.resolve]
  split
  · rename_i hh
    rw [hh]
    exact h.unresolved
  rename_i hh
  apply (resolveFd4_proceeds n host s.fd4).bind
  rintro fd4 ⟨hopen, h4⟩
  apply (resolveFd6_proceeds n host fd4 s.fd6).map
  rintro fd6 ⟨himp, h6, hclosed⟩
  refine ⟨h.agree, hopen ▸ h.open4, fun hs => h.open6.1 (himp hs), ?_, ?_, ?_⟩
  · intro hs
    rcases hclosed hs with hx | ⟨hsome, hn⟩
    · exact (h.closed6 hx).elim .inl fun hf => .inr (.inl hf)
    · exact .inr (.inr ⟨hsome, hh, hn⟩)
  · intro b hb
    exact (if_neg hh).mpr (h4 b hb)
  · intro b hb
    exact (if_neg hh).mpr (h6 b hb)

/-- The host of the command line has no IPv6 address. -/
def Unresolved (n : NetSystem) (v : Variables) : Prop :=
  ∃ address host portptr family, v.address = some address ∧
    splitPort n.inetAton address = some (host, portptr, family) ∧ host ≠ [] ∧
    n.setSockAddr .inet6 host = none

/-- The sockets that are to be bound. -/
structure ListenSockets.Chosen (n : NetSystem) (v : Variables) (s : ListenSockets) : Prop where
  agree : ¬ (v.aiFam = .inet ∧ literalFamily n v = .inet6) ∧
    ¬ (v.aiFam = .inet6 ∧ literalFamily n v = .inet)
  fd4 : s.fd4.isSome = true ↔ v.aiFam ≠ .inet6 ∧ literalFamily n v ≠ .inet6
  fd6 : s.fd6.isSome = true → v.aiFam ≠ .inet ∧ literalFamily n v ≠ .inet
  closed : s.fd6 = none → v.aiFam = .inet ∨ literalFamily n v = .inet ∨
    (s.fd4.isSome = true ∧ Unresolved n v)
  address4 : ∀ b, s.fd4 = some b → Addressed n v .inet b
  address6 : ∀ b, s.fd6 = some b → Addressed n v .inet6 b

theorem ListenSockets.Fresh.chosen (h : Fresh v.aiFam s) (hv : v.address = none) : Chosen n v s := by
  have hfamily : literalFamily n v = .unspec := by
    rw [literalFamily, hv]
  have hr : Resolved n v.aiFam .unspec [] s := h.selected.unresolved
  refine ⟨?_, ?_, ?_, ?_, ?_, ?_⟩
  · rw [hfamily]
    exact hr.agree
  · rw [hfamily]
    exact hr.fd4
  · rw [hfamily]
    exact hr.fd6
  · intro hs
    rw [hfamily]
    rcases hr.closed hs with ha | hf | ⟨-, hh, -⟩
    · exact .inl ha
    · exact .inr (.inl hf)
    · exact absurd rfl hh
  · intro b hb
    rw [Addressed, hv]
    exact (if_pos rfl).mp (hr.host4 b hb)
  · intro b hb
    rw [Addressed, hv]
    exact (if_pos rfl).mp (hr.host6 b hb)

/-- The address of a socket once its port is set. -/
theorem HostAddress.addressed (hv : v.address = some address)
    (hs : splitPort n.inetAton address = some (host, portptr, written))
    (hb : HostAddress n family host b)
    (hp : (∃ p, port = some p ∧ AsksPort n (portptr.getD NetSystem.tftp) p) ∨
      (port = none ∧ KeepsPort n (portptr.getD NetSystem.tftp))) :
    Addressed n v family (b.setPort port) := by
  rw [Addressed, hv]
  refine ⟨host, portptr, written, b, hs, hb, rfl, ?_⟩
  rcases hp with ⟨p, rfl, hp⟩ | ⟨rfl, hp⟩
  · exact .inl hp
  · exact .inr ⟨hp, rfl⟩

theorem ListenSockets.Resolved.chosen (h : Resolved n v.aiFam family host s)
    (hv : v.address = some address)
    (hs : splitPort n.inetAton address = some (host, portptr, family))
    (hp : (∃ p, port = some p ∧ AsksPort n (portptr.getD NetSystem.tftp) p) ∨
      (port = none ∧ KeepsPort n (portptr.getD NetSystem.tftp))) :
    Chosen n v ⟨s.fd4.map (·.setPort port), s.fd6.map (·.setPort port)⟩ := by
  have hfamily : literalFamily n v = family := by
    rw [literalFamily, hv]
    dsimp only
    rw [hs]
  refine ⟨?_, ?_, ?_, ?_, ?_, ?_⟩
  · rw [hfamily]
    exact h.agree
  · rw [hfamily, Option.isSome_map]
    exact h.fd4
  · rw [hfamily, Option.isSome_map]
    exact h.fd6
  · intro hn
    rw [hfamily, Option.isSome_map]
    rcases h.closed (Option.map_eq_none_iff.1 hn) with ha | hf | ⟨h4, hh, hu⟩
    · exact .inl ha
    · exact .inr (.inl hf)
    · exact .inr (.inr ⟨h4, address, host, portptr, family, hv, hs, hh, hu⟩)
  · intro b hb
    obtain ⟨base, hbase, rfl⟩ := Option.map_eq_some_iff.1 hb
    exact (h.host4 base hbase).addressed hv hs hp
  · intro b hb
    obtain ⟨base, hbase, rfl⟩ := Option.map_eq_some_iff.1 hb
    exact (h.host6 base hbase).addressed hv hs hp

theorem ListenSockets.Fresh.addressOption (h : Fresh v.aiFam s) (n : NetSystem) :
    Proceeds (Chosen n v) (n.addressOption v s) := by
  rw [NetSystem.addressOption]
  split
  · rename_i hv
    exact h.chosen hv
  rename_i address hv
  rw [NetSystem.setAddress]
  split
  · exact Halt.noConfusion
  rename_i host portptr family hs
  apply (h.selectFamily family).bind
  intro s₁ h₁
  apply (h₁.resolve n host).bind
  intro s₂ h₂
  apply (servicePort_proceeds n (portptr.getD NetSystem.tftp)).map
  intro port hp
  exact h₂.chosen hv hs hp

/-- There is a socket. -/
theorem ListenSockets.Chosen.one (h : Chosen n v s) : s.fd4.isSome = true ∨ s.fd6.isSome = true := by
  by_contra hno
  obtain ⟨h4, h6⟩ := not_or.1 hno
  have hnone := Option.not_isSome_iff_eq_none.1 h6
  have hfour := fun hf => h4 (h.fd4.2 hf)
  rcases h.closed hnone with ha | hf | ⟨hsome, -⟩
  · apply hfour
    exact ⟨fun he => Family.noConfusion (ha.symm.trans he), fun he => h.agree.1 ⟨ha, he⟩⟩
  · apply hfour
    exact ⟨fun he => h.agree.2 ⟨he, hf⟩, fun he => Family.noConfusion (hf.symm.trans he)⟩
  · exact h4 hsome

theorem bindFd4_proceeds (n : NetSystem) (x : Option LocalAddress) :
    Proceeds (fun _ => ∀ b, x = some b → n.bind4 b = true) (n.bindFd4 x) := by
  cases x with
  | none =>
    intro b hb
    cases hb
  | some b =>
    rw [NetSystem.bindFd4]
    split
    · rename_i hb
      intro b' he
      rw [← Option.some.inj he]
      exact hb
    · exact Halt.noConfusion

theorem bindFd6_proceeds (n : NetSystem) (v6only : Bool) (fd4 x : Option LocalAddress) :
    Proceeds (fun y => (∀ b, y = some b → x = some b ∧ n.bind6 v6only b = true) ∧
        (y = none → x = none ∨
          (fd4.isSome = true ∧ ∃ b, x = some b ∧ n.bind6 v6only b = false)))
      (n.bindFd6 v6only fd4 x) := by
  cases x with
  | none =>
    refine ⟨?_, .inl⟩
    intro b hb
    cases hb
  | some b =>
    rw [NetSystem.bindFd6]
    split
    · rename_i hb
      refine ⟨?_, fun hn => absurd hn (Option.some_ne_none b)⟩
      intro b' he
      rw [← Option.some.inj he]
      exact ⟨rfl, hb⟩
    split
    · rename_i hb h4
      refine ⟨?_, fun _ => .inr ⟨h4, b, rfl, Bool.eq_false_iff.2 hb⟩⟩
      intro b' he
      cases he
    · exact Halt.noConfusion

/-- What the sockets have to do with the command line. -/
structure Opened.Sound (n : NetSystem) (v : Variables) (o : Opened) : Prop where
  fd0 : o.fd0 = !v.standalone
  inetd : v.standalone = false → o.fd4 = none ∧ o.fd6 = none
  one : v.standalone = true → o.fd4.isSome = true ∨ o.fd6.isSome = true
  fd4 : v.standalone = true →
    (o.fd4.isSome = true ↔ v.aiFam ≠ .inet6 ∧ literalFamily n v ≠ .inet6)
  fd6 : o.fd6.isSome = true → v.aiFam ≠ .inet ∧ literalFamily n v ≠ .inet
  closed : v.standalone = true → o.fd6 = none → v.aiFam = .inet ∨ literalFamily n v = .inet ∨
    (o.fd4.isSome = true ∧
      (Unresolved n v ∨ ∃ b, Addressed n v .inet6 b ∧ n.bind6 n.setsockopt b = false))
  v6only : o.fd6.isSome = true → o.v6only = ((o.fd4.isSome || v.forceIpv6) && n.setsockopt)
  bound4 : ∀ b, o.fd4 = some b → n.bind4 b = true ∧ Addressed n v .inet b
  bound6 : ∀ b, o.fd6 = some b → n.bind6 o.v6only b = true ∧ Addressed n v .inet6 b

theorem ListenSockets.Chosen.bindSockets (h : Chosen n v s) (hv : v.standalone = true) :
    Proceeds (Opened.Sound n v) (n.bindSockets v s) := by
  rw [NetSystem.bindSockets]
  apply (bindFd4_proceeds n s.fd4).bind
  intro _ h4
  apply (bindFd6_proceeds n _ s.fd4 s.fd6).bind
  rintro fd6 ⟨h6, hclosed⟩
  split
  · exact Halt.noConfusion
  have hkept (hs : fd6.isSome = true) : s.fd6.isSome = true := by
    obtain ⟨b, hb⟩ := Option.isSome_iff_exists.1 hs
    rw [(h6 b hb).1]
    rfl
  refine ⟨by rw [hv]; rfl, fun hno => ?_, fun _ => ?_, fun _ => h.fd4, fun hs => h.fd6 (hkept hs),
    fun _ hn => ?_, fun hs => ?_, fun b hb => ⟨h4 b hb, h.address4 b hb⟩, fun b hb => ?_⟩
  · rw [hv] at hno
    cases hno
  · cases hfd : fd6 with
    | some b => exact .inr rfl
    | none =>
      rcases hclosed hfd with hn | ⟨hsome, -⟩
      · refine .inl (h.one.resolve_right ?_)
        rw [hn]
        exact Bool.false_ne_true
      · exact .inl hsome
  · rcases hclosed hn with hx | ⟨hsome, b, hb, hbind⟩
    · rcases h.closed hx with ha | hf | ⟨hsome, hu⟩
      · exact .inl ha
      · exact .inr (.inl hf)
      · exact .inr (.inr ⟨hsome, .inl hu⟩)
    · refine .inr (.inr ⟨hsome, .inr ⟨b, h.address6 b hb, ?_⟩⟩)
      rw [hb, hsome] at hbind
      exact hbind
  · dsimp only
    rw [hkept hs, Bool.true_and]
  · obtain ⟨hx, hbind⟩ := h6 b hb
    exact ⟨hbind, h.address6 b hx⟩

theorem listen_proceeds (n : NetSystem) (v : Variables) :
    Proceeds (Opened.Sound n v) (n.listen v) := by
  rw [NetSystem.listen]
  split
  · rename_i hv
    apply (openSockets_proceeds n v.aiFam).bind
    intro s₁ h₁
    apply (h₁.addressOption n).bind
    intro s₂ h₂
    exact h₂.bindSockets hv
  · rename_i hv
    have hno := Bool.eq_false_iff.2 hv
    apply (setSocketNonblock_proceeds n true .fd0).map
    intro _ _
    refine ⟨by rw [hno]; rfl, fun _ => ⟨rfl, rfl⟩, fun h => absurd h hv, fun h => absurd h hv,
      fun h => ?_, fun h => absurd h hv, fun h => ?_, fun b hb => ?_, fun b hb => ?_⟩
    · cases h
    · cases h
    · cases hb
    · cases hb

theorem AsksPort.unique (h : AsksPort n s p) (h' : AsksPort n s q) : p = q := by
  rcases h.2 with hp | ⟨hno, -, -, rfl⟩
  · rcases h'.2 with hq | ⟨hno, -⟩
    · exact Option.some.inj (hp.symm.trans hq)
    · rw [hp] at hno
      cases hno
  · rcases h'.2 with hq | ⟨-, -, -, rfl⟩
    · rw [hq] at hno
      cases hno
    · rfl

theorem AsksPort.not_keeps (h : AsksPort n s p) : ¬ KeepsPort n s := by
  rintro (hs | ⟨rfl, hno⟩)
  · exact h.1 hs
  · rcases h.2 with hp | ⟨-, -, hne, -⟩
    · rw [hp] at hno
      cases hno
    · exact hne (by decide)

/-- A port that the command line asks for is the port of the socket. -/
theorem Addressed.port_eq (h : Addressed n v family b) (hv : v.address = some address)
    (hs : splitPort n.inetAton address = some (host, portptr, written))
    (hp : AsksPort n (portptr.getD NetSystem.tftp) port) : b.port = port := by
  rw [Addressed, hv] at h
  obtain ⟨host', portptr', written', base, hs', -, -, hport⟩ := h
  rw [hs] at hs'
  cases hs'
  rcases hport with hb | ⟨hk, -⟩
  · exact hb.unique hp
  · exact absurd hk hp.not_keeps

/-- Where the service is not known, a socket with a host but without a port has what the host's
address came with. -/
theorem Addressed.port_kept (h : Addressed n v family b) (hv : v.address = some address)
    (hs : splitPort n.inetAton address = some (host, none, written)) (hh : host ≠ [])
    (hno : n.getservbyname NetSystem.tftp = none) : n.setSockAddr family host = some b := by
  rw [Addressed, hv] at h
  obtain ⟨host', portptr', written', base, hs', hbase, hhost, hport⟩ := h
  rw [hs] at hs'
  cases hs'
  rw [HostAddress, if_neg hh] at hbase
  rcases hport with hb | ⟨-, hkept⟩
  · exact absurd (.inr ⟨rfl, hno⟩) hb.not_keeps
  · have hsame : b = base := by
      cases b
      cases base
      cases hhost
      cases hkept
      rfl
    rw [hsame]
    exact hbase

/-- Whatever the system says, a server that goes on has sockets as `Opened.Sound` tells: a standalone
one has at least one, for the families that `-4`, `-6` and the way the address is written leave,
and without IPv6 it goes on only if the host has no such address or it could not be bound. All its
sockets have the port that is asked for. A host without a port, on a system that does not know the
service, takes the port 69 away again. -/
theorem listen_sound (h : n.listen v = .ok o) :
    o.Sound n v ∧ ∀ address host portptr written, v.address = some address →
      splitPort n.inetAton address = some (host, portptr, written) →
      (∀ port, AsksPort n (portptr.getD NetSystem.tftp) port →
        ∀ b, o.fd4 = some b ∨ o.fd6 = some b → b.port = port) ∧
      (portptr = none → host ≠ [] → n.getservbyname NetSystem.tftp = none →
        (∀ b, o.fd4 = some b → n.setSockAddr .inet host = some b) ∧
          ∀ b, o.fd6 = some b → n.setSockAddr .inet6 host = some b) := by
  have hsound := listen_proceeds n v
  rw [h] at hsound
  refine ⟨hsound, ?_⟩
  intro address host portptr written hv hs
  refine ⟨?_, ?_⟩
  · rintro port hp b (hb | hb)
    · exact (hsound.bound4 b hb).2.port_eq hv hs hp
    · exact (hsound.bound6 b hb).2.port_eq hv hs hp
  · rintro rfl hh hno
    exact ⟨fun b hb => (hsound.bound4 b hb).2.port_kept hv hs hh hno,
      fun b hb => (hsound.bound6 b hb).2.port_kept hv hs hh hno⟩

/-- A system without a list of services, and with one IPv4 address. -/
def plainSystem : NetSystem where
  socket := fun _ => true
  setsNonblock := fun _ => true
  inetAton := fun s => s = ascii ['1', '0', '.', '0', '.', '0', '.', '1']
  getaddrinfo := fun family s =>
    if family = .inet ∧ s = ascii ['1', '0', '.', '0', '.', '0', '.', '1'] then
      some ⟨some [10, 0, 0, 1], 0⟩
    else none
  getservbyname := fun _ => none
  setsockopt := true
  bind4 := fun _ => true
  bind6 := fun _ _ => true
  daemonizes := true
  writesPidfile := fun _ => true

/-- `-l -a 10.0.0.1:65605` and `-l -a 10.0.0.1` -/
theorem plainSystem_sound :
    let host := ascii ['1', '0', '.', '0', '.', '0', '.', '1']
    let v := { Variables.initial with
      standalone := true, address := some (host ++ ascii [':', '6', '5', '6', '0', '5']) }
    let v' := { Variables.initial with standalone := true, address := some host }
    ∃ o o', plainSystem.listen v = .ok o ∧ plainSystem.listen v' = .ok o' ∧
      (∃ b, o.fd4 = some b ∧ b.port = 69) ∧ ∃ b, o'.fd4 = some b ∧ b.port = 0 := by
  intro host v v'
  have hk : plainSystem.listen v = .ok ⟨some ⟨some [10, 0, 0, 1], 69⟩, none, false, false, false⟩ :=
    rfl
  have hk' : plainSystem.listen v' = .ok ⟨some ⟨some [10, 0, 0, 1], 0⟩, none, false, false, false⟩ :=
    rfl
  refine ⟨_, _, hk, hk', ⟨_, rfl, ?_⟩, ⟨_, rfl, ?_⟩⟩
  · have hport : AsksPort plainSystem (ascii ['6', '5', '6', '0', '5']) 69 :=
      ⟨by decide, .inr ⟨rfl, by decide, by decide, by decide⟩⟩
    exact ((listen_sound hk).2 _ host (some (ascii ['6', '5', '6', '0', '5'])) .inet rfl
      rfl).1 69 hport _ (.inl rfl)
  · have hkept := ((listen_sound hk').2 _ host none .inet rfl rfl).2 rfl (by decide) rfl
    exact congrArg LocalAddress.port (Option.some.inj (hkept.1 _ rfl)).symm

end Sockets

def Opened.opened (o : Opened) : Input → Bool
  | .fd4 => o.fd4.isSome
  | .fd6 => o.fd6.isSome
  | .fd0 => o.fd0

def Started.listener (s : Started ρ) (o : Opened) : Listener where
  standalone := s.vars.standalone
  opened := o.opened
  rewriteFile := s.vars.rewriteFile.isSome
  pidfile := o.pidfile

section Loop

variable {l : Listener} {d d' : Daemon ρ}

/-- The loop may read from the socket. -/
def Listener.Hears (l : Listener) (fd : Input) : Prop :=
  if l.standalone then fd ≠ .fd0 ∧ l.opened fd = true else fd = .fd0

/-- The socket that the loop is at. -/
def LoopPlace.socket? : LoopPlace → Option Input
  | .recvfrom fd => some fd
  | .fork fd _ => some fd
  | _ => none

structure Daemon.Hears (l : Listener) (d : Daemon ρ) : Prop where
  place : ∀ fd, d.place.socket? = some fd → l.Hears fd
  children : ∀ c ∈ d.children, l.Hears c.fd

theorem LoopPlace.hears_of_none {p : LoopPlace} (h : p.socket? = none) (fd : Input)
    (hp : p.socket? = some fd) : l.Hears fd := by
  rw [h] at hp
  cases hp

theorem Daemon.pick_hears (l : Listener) (set : Input → Bool) (fd : Input)
    (hp : (pick l set).socket? = some fd) : l.Hears fd := by
  rw [pick] at hp
  rw [Listener.Hears]
  split at hp
  · rename_i hs
    rw [if_pos hs]
    split at hp
    · rename_i hset
      cases hp
      exact ⟨Input.noConfusion, (Bool.and_eq_true_iff.1 hset).1⟩
    split at hp
    · rename_i hset
      cases hp
      exact ⟨Input.noConfusion, (Bool.and_eq_true_iff.1 hset).1⟩
    · cases hp
  · rename_i hs
    rw [if_neg hs]
    cases hp
    rfl

theorem Daemon.Hears.idle (h : d.Hears l) (hi : d.Idles d')
    (hp : ∀ fd, d'.place.socket? = some fd → l.Hears fd) : d'.Hears l where
  place := hp
  children := by
    rw [hi.children]
    exact h.children

theorem Daemon.Hears.step (h : d.Hears l) (hn : d.next l e = some d') : d'.Hears l := by
  cases e with
  | arrives fd r =>
    cases hn
    exact ⟨h.place, h.children⟩
  | sighup =>
    cases hn
    exact ⟨h.place, h.children⟩
  | exit =>
    obtain ⟨-, hn⟩ := Option.ite_none_right_eq_some.1 hn
    cases hn
    exact ⟨h.place, h.children⟩
  | top unlinked =>
    simp only [Daemon.next] at hn
    split at hn
    · cases hn
      refine h.idle (top_idles l d unlinked) (LoopPlace.hears_of_none ?_)
      rw [Daemon.top]
      split
      · rfl
      split
      · dsimp only
        split
        · split <;> rfl
        · rfl
      · rfl
    · cases hn
  | reread map =>
    simp only [Daemon.next] at hn
    split at hn
    · cases hn
      refine h.idle (reread_idles d map) (LoopPlace.hears_of_none ?_)
      cases map <;> rfl
    · cases hn
  | selected answer =>
    simp only [Daemon.next] at hn
    split at hn
    · apply h.idle (selected_idles hn)
      cases answer with
      | interrupted =>
        cases hn
        exact LoopPlace.hears_of_none rfl
      | failed =>
        cases hn
        exact LoopPlace.hears_of_none rfl
      | timeout =>
        obtain ⟨-, hn⟩ := Option.ite_none_left_eq_some.1 hn
        cases hn
        exact LoopPlace.hears_of_none rfl
      | ready set =>
        cases hn
        exact pick_hears l set
    · cases hn
  | received answer =>
    simp only [Daemon.next] at hn
    split at hn
    · rename_i fd hp
      have hfd : l.Hears fd := h.place fd (by rw [hp]; rfl)
      cases answer with
      | interrupted =>
        cases hn
        exact ⟨LoopPlace.hears_of_none rfl, h.children⟩
      | failed =>
        cases hn
        exact ⟨LoopPlace.hears_of_none rfl, h.children⟩
      | datagram =>
        simp only [Daemon.received] at hn
        split at hn
        · cases hn
        · cases hn
          refine ⟨?_, h.children⟩
          intro fd' hp'
          dsimp only at hp'
          split at hp'
          · cases hp'
            exact hfd
          · cases hp'
    · cases hn
  | forked ok =>
    simp only [Daemon.next] at hn
    split at hn
    · rename_i fd r hp
      cases hn
      cases ok with
      | false => exact ⟨LoopPlace.hears_of_none rfl, h.children⟩
      | true =>
        refine ⟨LoopPlace.hears_of_none rfl, ?_⟩
        intro c hc
        rcases List.mem_append.1 hc with hc | hc
        · exact h.children c hc
        · rw [List.mem_singleton.1 hc]
          exact h.place fd (by rw [hp]; rfl)
    · cases hn

theorem hears_of_exec (h : (daemon l rules).exec (.initial rules) es = some d) : d.Hears l := by
  apply System.exec_induction (P := fun _ d => Daemon.Hears l d) _ _ h
  · exact ⟨LoopPlace.hears_of_none rfl, fun c hc => absurd hc List.not_mem_nil⟩
  · intro es d e d' hd hn
    exact hd.step hn

/-- Whatever happens while a server runs: a request is taken only from a socket that the command
line allows and that is bound to an address it tells. -/
theorem daemon_hears {s : Started ρ} (ho : n.listen s.vars = .ok o)
    (h : (daemon (s.listener o) s.rules).exec (.initial s.rules) es = some d) :
    ∀ c ∈ d.children, match c.fd with
      | .fd4 => s.vars.standalone = true ∧
          s.vars.aiFam ≠ .inet6 ∧ literalFamily n s.vars ≠ .inet6 ∧
          ∃ b, n.bind4 b = true ∧ Addressed n s.vars .inet b
      | .fd6 => s.vars.standalone = true ∧
          s.vars.aiFam ≠ .inet ∧ literalFamily n s.vars ≠ .inet ∧
          ∃ b, n.bind6 o.v6only b = true ∧ Addressed n s.vars .inet6 b
      | .fd0 => s.vars.standalone = false := by
  intro c hc
  have hsound := listen_proceeds n s.vars
  rw [ho] at hsound
  have hhears := (hears_of_exec h).children c hc
  rw [Listener.Hears] at hhears
  split at hhears
  · rename_i hs
    obtain ⟨hne, hopen⟩ := hhears
    cases hfd : c.fd with
    | fd4 =>
      rw [hfd] at hopen
      obtain ⟨b, hb⟩ := Option.isSome_iff_exists.1 hopen
      obtain ⟨h6, hl⟩ := (hsound.fd4 hs).1 hopen
      exact ⟨hs, h6, hl, b, hsound.bound4 b hb⟩
    | fd6 =>
      rw [hfd] at hopen
      obtain ⟨b, hb⟩ := Option.isSome_iff_exists.1 hopen
      obtain ⟨h4, hl⟩ := hsound.fd6 hopen
      exact ⟨hs, h4, hl, b, hsound.bound6 b hb⟩
    | fd0 => exact absurd hfd hne
  · rename_i hs
    rw [hhears]
    exact Bool.eq_false_iff.2 hs

/-- `-l -4` -/
def ipv4Server : Started Nat where
  vars := { Variables.initial with standalone := true, aiFam := .inet }
  dirs := []
  rules := none

def bothFamilies : List (LoopEvent Nat) :=
  [.arrives .fd6 ⟨[0, 1], true⟩, .arrives .fd4 ⟨[0, 2], true⟩, .top true,
    .selected (.ready fun _ => true), .received .datagram, .forked true]

theorem daemon_hears_ipv4 :
    let o := ⟨some .any, none, false, false, false⟩
    plainSystem.listen ipv4Server.vars = .ok o ∧
      ∃ d, (daemon (ipv4Server.listener o) none).exec (.initial none) bothFamilies = some d ∧
        d.children.map (fun c => c.datagram.bytes) = [[0, 2]] ∧ ∀ c ∈ d.children, c.fd ≠ .fd6 := by
  intro o
  have hl : plainSystem.listen ipv4Server.vars = .ok o := rfl
  have hk : ((daemon (ipv4Server.listener o) none).exec (.initial none) bothFamilies).map
      (fun d => d.children.map fun c => c.datagram.bytes) = some [[0, 2]] := by decide +kernel
  obtain ⟨d, hd, hc⟩ := Option.map_eq_some_iff.1 hk
  refine ⟨hl, d, hd, hc, ?_⟩
  intro c hmem hfd
  have hhears := daemon_hears hl hd c hmem
  rw [hfd] at hhears
  exact hhears.2.1 rfl

end Loop

end WooTftpd
