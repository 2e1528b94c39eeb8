import WooTftpd.StartUp

namespace WooTftpd
open Lib
set_option autoImplicit true

def EX_OSERR : Nat := 71
def EX_IOERR : Nat := 74
def EX_PROTOCOL : Nat := 76

/-- The sockets for requests: those of a standalone server, or the one that inetd passes on. -/
inductive Input where
  | fd4
  | fd6
  | fd0
  deriving DecidableEq

/-- A datagram, and whether it comes from an internet address. -/
structure Incoming where
  bytes : List UInt8
  internet : Bool

/-- Where `main` is in its loop: `top` is where the signals are polled. -/
inductive LoopPlace where
  | top
  | reread
  | select
  | recvfrom (fd : Input)
  | fork (fd : Input) (d : Incoming)
  | exited (status : Nat)

/-- What the loop is entered with. -/
structure Listener where
  standalone : Bool
  opened : Input → Bool
  rewriteFile : Bool
  pidfile : Bool

/-- A child, as it was forked: it has the request in its buffer, and the rules of that time. -/
structure Forked (ρ : Type) where
  fd : Input
  datagram : Incoming
  buf : Mem
  rules : Option ρ

structure Daemon (ρ : Type) where
  place : LoopPlace
  caughtSighup : Bool
  exitSignal : Bool
  rules : Option ρ
  buf : Mem
  queue : Input → List Incoming
  children : List (Forked ρ)

inductive Selected where
  | interrupted
  | failed
  | timeout
  | ready (set : Input → Bool)

inductive Received where
  | interrupted
  | failed
  | datagram

/-- What the network and the signals do, and what the calls of the loop come back with. Only a
standalone server handles SIGTERM and SIGINT. -/
inductive LoopEvent (ρ : Type) where
  | arrives (fd : Input) (d : Incoming)
  | sighup
  | exit
  | top (unlinked : Bool)
  | reread (map : Except Nat ρ)
  | selected (answer : Selected)
  | received (answer : Received)
  | forked (ok : Bool)

namespace Daemon

variable (l : Listener) (d : Daemon ρ)

def goto (p : LoopPlace) : Daemon ρ := { d with place := p }

def top (unlinked : Bool) : Daemon ρ :=
  if d.exitSignal then
    d.goto (.exited (if l.pidfile ∧ ¬ unlinked then EX_OSERR else 0))
  else if d.caughtSighup then
    { d with
      caughtSighup := false
      place :=
        if l.standalone then (if l.rewriteFile then .reread else .select)
        else .exited 0 }
  else d.goto .select

def reread : Except Nat ρ → Daemon ρ
  | .error status => d.goto (.exited status)
  | .ok rules => { d with rules := some rules, place := .select }

def isset (fd : Input) (set : Input → Bool) : Bool := l.opened fd && set fd

/-- The socket to read from. -/
def pick (set : Input → Bool) : LoopPlace :=
  if l.standalone then
    if isset l .fd4 set then .recvfrom .fd4
    else if isset l .fd6 set then .recvfrom .fd6
    else .top
  else .recvfrom .fd0

/-- A standalone server waits for ever. -/
def selected : Selected → Option (Daemon ρ)
  | .interrupted => some (d.goto .top)
  | .failed => some (d.goto (.exited EX_IOERR))
  | .timeout => if l.standalone then none else some (d.goto (.exited 0))
  | .ready set => some (d.goto (pick l set))

/-- The buffer keeps what it had behind the datagram. -/
def received (fd : Input) : Received → Option (Daemon ρ)
  | .interrupted => some (d.goto .top)
  | .failed => some (d.goto (.exited EX_IOERR))
  | .datagram =>
    match d.queue fd with
    | [] => none
    | r :: rs => some { d with
        queue := Function.update d.queue fd rs
        buf := d.buf.store 0 (WooTftpd.received r.bytes)
        place := if r.internet then .fork fd r else .exited EX_PROTOCOL }

def forked (fd : Input) (r : Incoming) : Bool → Daemon ρ
  | false => d.goto (.exited EX_OSERR)
  | true => { d with children := d.children ++ [⟨fd, r, d.buf, d.rules⟩], place := .top }

def arrives (fd : Input) (r : Incoming) : Daemon ρ :=
  { d with queue := Function.update d.queue fd (d.queue fd ++ [r]) }

def next : LoopEvent ρ → Option (Daemon ρ)
  | .arrives fd r => some (d.arrives fd r)
  | .sighup => some { d with caughtSighup := true }
  | .exit => if l.standalone then some { d with exitSignal := true } else none
  | .top unlinked =>
    match d.place with
    | .top => some (d.top l unlinked)
    | _ => none
  | .reread map =>
    match d.place with
    | .reread => some (d.reread map)
    | _ => none
  | .selected answer =>
    match d.place with
    | .select => d.selected l answer
    | _ => none
  | .received answer =>
    match d.place with
    | .recvfrom fd => d.received fd answer
    | _ => none
  | .forked ok =>
    match d.place with
    | .fork fd r => some (d.forked fd r ok)
    | _ => none

/-- When the loop is entered. -/
def initial (rules : Option ρ) : Daemon ρ := ⟨.top, false, false, rules, .zero, fun _ => [], []⟩

end Daemon

def daemon (l : Listener) (rules : Option ρ) : System (Daemon ρ) (LoopEvent ρ) :=
  ⟨fun d => d = .initial rules, fun d e => d.next l e⟩

section Requests

variable {l : Listener} {d d' : Daemon ρ}

def LoopEvent.arrival? (fd : Input) : LoopEvent ρ → Option Incoming
  | .arrives fd' r => if fd' = fd then some r else none
  | _ => none

def arrivals (fd : Input) (es : List (LoopEvent ρ)) : List Incoming :=
  es.filterMap (LoopEvent.arrival? fd)

/-- The datagrams of a socket that a child was forked for. -/
def Daemon.served (d : Daemon ρ) (fd : Input) : List Incoming :=
  (d.children.filter fun c => c.fd = fd).map Forked.datagram

/-- The datagram that was received and for which no child was forked yet. The loop may be left
with it. -/
def LoopPlace.Holds : LoopPlace → Option (Input × Incoming) → Prop
  | .fork fd r, h => h = some (fd, r)
  | .exited _, _ => True
  | _, h => h = none

def held (fd : Input) (h : Option (Input × Incoming)) : List Incoming :=
  (h.toList.filter fun r => r.1 = fd).map Prod.snd

structure Forked.Sound (c : Forked ρ) : Prop where
  internet : c.datagram.internet = true
  buf : ∃ m : Mem, c.buf = m.store 0 (received c.datagram.bytes)

structure Daemon.Serves (es : List (LoopEvent ρ)) (d : Daemon ρ) (h : Option (Input × Incoming)) :
    Prop where
  holds : d.place.Holds h
  order : ∀ fd, arrivals fd es = d.served fd ++ held fd h ++ d.queue fd
  next : ∀ fd r, d.place = .fork fd r → Forked.Sound (⟨fd, r, d.buf, d.rules⟩ : Forked ρ)
  children : ∀ c ∈ d.children, c.Sound

/-- No datagram is touched. -/
structure Daemon.Idles (d d' : Daemon ρ) : Prop where
  place : d'.place.Holds none
  notFork : ∀ fd r, d'.place ≠ .fork fd r
  queue : d'.queue = d.queue
  children : d'.children = d.children

namespace Daemon

theorem goto_idles (hp : p.Holds none) : d.Idles (d.goto p) := by
  refine ⟨hp, ?_, rfl, rfl⟩
  rintro fd r he
  have hfork : p = .fork fd r := he
  rw [hfork] at hp
  cases hp

theorem top_idles (l : Listener) (d : Daemon ρ) (unlinked : Bool) : d.Idles (d.top l unlinked) := by
  rw [top]
  split
  · exact goto_idles trivial
  split
  · split
    · split
      · exact ⟨rfl, nofun, rfl, rfl⟩
      · exact ⟨rfl, nofun, rfl, rfl⟩
    · exact ⟨trivial, nofun, rfl, rfl⟩
  · exact goto_idles rfl

theorem reread_idles (d : Daemon ρ) (map : Except Nat ρ) : d.Idles (d.reread map) := by
  cases map with
  | error status => exact goto_idles trivial
  | ok rules => exact ⟨rfl, nofun, rfl, rfl⟩

theorem pick_holds (l : Listener) (set : Input → Bool) : (pick l set).Holds none := by
  rw [pick]
  split
  · split
    · rfl
    split
    · rfl
    · rfl
  · rfl

theorem selected_idles (h : d.selected l answer = some d') : d.Idles d' := by
  cases answer with
  | interrupted =>
    cases h
    exact goto_idles rfl
  | failed =>
    cases h
    exact goto_idles trivial
  | timeout =>
    obtain ⟨-, he⟩ := Option.ite_none_left_eq_some.1 h
    cases he
    exact goto_idles trivial
  | ready set =>
    cases h
    exact goto_idles (pick_holds l set)

end Daemon

@[simp] theorem held_none (fd : Input) : held fd none = [] := rfl

theorem held_self (fd : Input) (r : Incoming) : held fd (some (fd, r)) = [r] := by
  simp only [held, Option.toList_some, decide_true, List.filter_cons_of_pos, List.filter_nil,
    List.map_cons, List.map_nil]

theorem held_ne (r : Incoming) (h : fd' ≠ fd) : held fd (some (fd', r)) = [] := by
  simp only [held, Option.toList_some, h, decide_false, Bool.false_eq_true, not_false_eq_true,
    List.filter_cons_of_neg, List.filter_nil, List.map_nil]

theorem arrivals_append (fd : Input) (es es' : List (LoopEvent ρ)) :
    arrivals fd (es ++ es') = arrivals fd es ++ arrivals fd es' := List.filterMap_append

/-- A step that touches no datagram, with none in hand before. -/
theorem Daemon.Serves.idle (h : Serves es d none) (hi : d.Idles d') (he : ∀ fd, arrivals fd [e] = []) :
    Serves (es ++ [e]) d' none where
  holds := hi.place
  order := by
    intro fd
    rw [arrivals_append, he fd, List.append_nil, h.order fd, served, served, hi.queue, hi.children]
  next := fun fd r hp => absurd hp (hi.notFork fd r)
  children := by
    rw [hi.children]
    exact h.children

theorem arrivals_singleton (fd : Input) (e : LoopEvent ρ) :
    arrivals fd [e] = (e.arrival? fd).toList := by
  rw [arrivals, List.filterMap_cons, List.filterMap_nil]
  cases e.arrival? fd <;> rfl

theorem Daemon.queue_arrives (d : Daemon ρ) (fd fd' : Input) (r : Incoming) :
    (d.arrives fd r).queue fd' =
      d.queue fd' ++ ((LoopEvent.arrives (ρ := ρ) fd r).arrival? fd').toList := by
  simp only [arrives, LoopEvent.arrival?]
  by_cases hfd : fd = fd'
  · subst hfd
    rw [Function.update_self, if_pos rfl]
    rfl
  · rw [Function.update_of_ne (Ne.symm hfd), if_neg hfd]
    exact (List.append_nil _).symm

theorem Daemon.Serves.arrives (h : Serves es d hand) (fd : Input) (r : Incoming) :
    Serves (es ++ [.arrives fd r]) (d.arrives fd r) hand where
  holds := h.holds
  order := by
    intro fd'
    rw [arrivals_append, arrivals_singleton, h.order fd', queue_arrives, ← List.append_assoc]
    rfl
  next := h.next
  children := h.children

theorem Daemon.Serves.received (h : Serves es d none) (hq : d.queue fd = r :: rs) (he : ∀ fd', arrivals fd' [e] = []) :
    Serves (es ++ [e])
      { d with
        queue := Function.update d.queue fd rs
        buf := d.buf.store 0 (WooTftpd.received r.bytes)
        place := if r.internet then .fork fd r else .exited EX_PROTOCOL } (some (fd, r)) where
  holds := by
    dsimp only
    split
    · rfl
    · trivial
  order := by
    intro fd'
    rw [arrivals_append, he fd', List.append_nil, h.order fd', held_none, List.append_nil,
      List.append_assoc]
    congr 1
    dsimp only
    by_cases hfd : fd = fd'
    · subst hfd
      rw [Function.update_self, held_self, hq]
      rfl
    · rw [Function.update_of_ne (Ne.symm hfd), held_ne r hfd]
      rfl
  next := by
    intro fd' r' hp
    dsimp only at hp
    split at hp
    · rename_i hi
      cases hp
      exact ⟨hi, d.buf, rfl⟩
    · cases hp
  children := h.children

theorem Daemon.served_forked (d : Daemon ρ) (fd fd' : Input) (r : Incoming) :
    (d.forked fd r true).served fd' = d.served fd' ++ held fd' (some (fd, r)) := by
  have hc : (d.forked fd r true).children = d.children ++ [⟨fd, r, d.buf, d.rules⟩] := rfl
  rw [served, served, hc, List.filter_append, List.map_append]
  congr 1
  by_cases hfd : fd = fd'
  · subst hfd
    rw [held_self, List.filter_cons_of_pos (by simp only [decide_true]), List.filter_nil]
    rfl
  · rw [held_ne r hfd, List.filter_cons_of_neg (by simp only [hfd, decide_false,
      Bool.false_eq_true, not_false_eq_true]), List.filter_nil]
    rfl

theorem Daemon.Serves.forked (h : Serves es d hand) (hp : d.place = .fork fd r)
    (he : ∀ fd', arrivals fd' [e] = []) : Serves (es ++ [e]) (d.forked fd r true) none := by
  have hhand : hand = some (fd, r) := by
    have hh := h.holds
    rw [hp] at hh
    exact hh
  refine ⟨rfl, ?_, nofun, ?_⟩
  · intro fd'
    rw [arrivals_append, he fd', List.append_nil, h.order fd', served_forked, hhand, held_none,
      List.append_nil]
    rfl
  · intro c hc
    rcases List.mem_append.1 hc with hc | hc
    · exact h.children c hc
    · rw [List.mem_singleton.1 hc]
      exact h.next fd r hp

/-- The loop is left: what it had in its hands is lost. -/
theorem Daemon.Serves.leave (h : Serves es d hand) (status : Nat)
    (he : ∀ fd', arrivals fd' [e] = []) : Serves (es ++ [e]) (d.goto (.exited status)) hand where
  holds := trivial
  order := by
    intro fd
    rw [arrivals_append, he fd, List.append_nil]
    exact h.order fd
  next := nofun
  children := h.children

theorem Daemon.Serves.step (h : Serves es d hand) (hn : d.next l e = some d') :
    ∃ hand, Serves (es ++ [e]) d' hand := by
  have hfree (hp : d.place.Holds hand → hand = none) : Serves es d none := by
    rw [hp h.holds] at h
    exact h
  cases e with
  | arrives fd r =>
    cases hn
    exact ⟨hand, h.arrives fd r⟩
  | sighup =>
    cases hn
    refine ⟨hand, h.holds, ?_, h.next, h.children⟩
    intro fd
    rw [arrivals_append, h.order fd]
    exact List.append_nil _
  | exit =>
    obtain ⟨-, hn⟩ := Option.ite_none_right_eq_some.1 hn
    cases hn
    refine ⟨hand, h.holds, ?_, h.next, h.children⟩
    intro fd
    rw [arrivals_append, h.order fd]
    exact List.append_nil _
  | top unlinked =>
    simp only [Daemon.next] at hn
    split at hn
    · rename_i hp
      cases hn
      rw [hp] at hfree
      exact ⟨none, (hfree id).idle (top_idles l d unlinked) fun _ => rfl⟩
    · cases hn
  | reread map =>
    simp only [Daemon.next] at hn
    split at hn
    · rename_i hp
      cases hn
      rw [hp] at hfree
      exact ⟨none, (hfree id).idle (reread_idles d map) fun _ => rfl⟩
    · cases hn
  | selected answer =>
    simp only [Daemon.next] at hn
    split at hn
    · rename_i hp
      rw [hp] at hfree
      exact ⟨none, (hfree id).idle (selected_idles hn) fun _ => rfl⟩
    · cases hn
  | received answer =>
    simp only [Daemon.next] at hn
    split at hn
    · rename_i fd hp
      rw [hp] at hfree
      cases answer with
      | interrupted =>
        cases hn
        exact ⟨none, (hfree id).idle (goto_idles rfl) fun _ => rfl⟩
      | failed =>
        cases hn
        exact ⟨none, (hfree id).idle (goto_idles trivial) fun _ => rfl⟩
      | datagram =>
        simp only [Daemon.received] at hn
        split at hn
        · cases hn
        · rename_i r rs hq
          cases hn
          exact ⟨_, (hfree id).received hq fun _ => rfl⟩
    · cases hn
  | forked ok =>
    simp only [Daemon.next] at hn
    split at hn
    · rename_i fd r hp
      cases hn
      cases ok with
      | false => exact ⟨hand, h.leave EX_OSERR fun _ => rfl⟩
      | true => exact ⟨none, h.forked hp fun _ => rfl⟩
    · cases hn

theorem serves_of_exec (h : (daemon l rules).exec (.initial rules) es = some d) :
    ∃ hand, Daemon.Serves es d hand := by
  apply System.exec_induction (P := fun es d => ∃ hand, Daemon.Serves es d hand) _ _ h
  · exact ⟨none, rfl, fun _ => rfl, nofun, nofun⟩
  · rintro es d e d' ⟨hand, hs⟩ hn
    exact hs.step hn

/-- Whatever the network, the signals and the system do: for each datagram of each socket one child
is forked, in the order in which they arrive, and it finds the datagram in its buffer. Only the
datagram that was received last may be without its child, while `fork` is due or when the loop was
left. -/
theorem daemon_serves (h : (daemon l rules).exec (.initial rules) es = some d) :
    (∃ hand, d.place.Holds hand ∧
      ∀ fd, arrivals fd es = d.served fd ++ held fd hand ++ d.queue fd) ∧
      ∀ c ∈ d.children, c.datagram.internet = true ∧
        ∃ m : Mem, c.buf = m.store 0 (received c.datagram.bytes) := by
  obtain ⟨hand, hs⟩ := serves_of_exec h
  exact ⟨⟨hand, hs.holds, hs.order⟩, fun c hc => ⟨(hs.children c hc).internet,
    (hs.children c hc).buf⟩⟩

/-- A server for IPv4 and IPv6 with a map file. -/
def plainListener : Listener := ⟨true, fun fd => fd ≠ .fd0, true, false⟩

/-- How a datagram is taken that has come to a socket. -/
def takeRequest (fd : Input) : List (LoopEvent Nat) :=
  [.selected (.ready fun fd' => fd' = fd), .received .datagram, .forked true]

def someRequest : Incoming := ⟨Mem.be16 RRQ, true⟩

theorem someRequest_served :
    ∃ d, (daemon plainListener (some 1)).exec (.initial (some 1))
        (.arrives .fd6 someRequest :: .top true :: takeRequest .fd6) = some d ∧
      d.served .fd6 = [someRequest] := by
  have hk : ((daemon plainListener (some 1)).exec (.initial (some 1))
      (.arrives .fd6 someRequest :: .top true :: takeRequest .fd6)).map
      (fun d => (d.place, d.queue .fd6)) = some (.top, []) := rfl
  obtain ⟨d, hd, he⟩ := Option.map_eq_some_iff.1 hk
  obtain ⟨⟨hand, hholds, horder⟩, -⟩ := daemon_serves hd
  rw [Prod.mk.injEq] at he
  rw [he.1] at hholds
  have hnone : hand = none := hholds
  have h6 := horder .fd6
  rw [he.2, hnone, held_none, List.append_nil, List.append_nil] at h6
  exact ⟨d, hd, h6.symm⟩

end Requests

section Signals

variable {l : Listener} {d d' : Daemon ρ} {flag : Daemon ρ → Prop} {rest : LoopPlace → Prop}
  {cs : List (Forked ρ)}

/-- A request is waited for, or being taken. -/
def LoopPlace.busy : LoopPlace → Bool
  | .select | .recvfrom _ | .fork _ _ => true
  | _ => false

/-- A flag that is only looked at where the signals are polled, and what it leads to there. -/
structure Polls (l : Listener) (flag : Daemon ρ → Prop) (rest : LoopPlace → Prop) : Prop where
  kept : ∀ {d d' : Daemon ρ} {e}, flag d → d.next l e = some d' → (∀ unlinked, e ≠ .top unlinked) →
    flag d'
  obeyed : ∀ {d : Daemon ρ}, flag d → ∀ unlinked, rest (d.top l unlinked).place
  resting : ∀ {p}, rest p → p ≠ .top ∧ p.busy = false

/-- `cs` were forked since the flag was set: the loop may have been behind the poll. -/
structure Signalled (flag : Daemon ρ → Prop) (rest : LoopPlace → Prop) (cs : List (Forked ρ))
    (d : Daemon ρ) : Prop where
  few : cs.length ≤ 1
  last : cs = [] ∨ d.place = .top ∨ rest d.place
  pending : flag d ∨ rest d.place

theorem Daemon.next_top (hn : d.next l (.top unlinked) = some d') :
    d.place = .top ∧ d' = d.top l unlinked := by
  simp only [Daemon.next] at hn
  split at hn
  · rename_i hp
    cases hn
    exact ⟨hp, rfl⟩
  · cases hn

/-- No child is forked, no rules are read, and the flags are only set. -/
structure Daemon.Keeps (d d' : Daemon ρ) : Prop where
  children : d'.children = d.children
  rules : d'.rules = d.rules
  caughtSighup : d.caughtSighup = true → d'.caughtSighup = true
  exitSignal : d.exitSignal = true → d'.exitSignal = true

theorem Daemon.selected_keeps (h : d.selected l answer = some d') : d.Keeps d' := by
  cases answer with
  | timeout =>
    obtain ⟨-, he⟩ := Option.ite_none_left_eq_some.1 h
    cases he
    exact ⟨rfl, rfl, id, id⟩
  | interrupted | failed | ready set =>
    cases h
    exact ⟨rfl, rfl, id, id⟩

theorem Daemon.received_keeps (h : d.received fd answer = some d') : d.Keeps d' := by
  cases answer with
  | interrupted | failed =>
    cases h
    exact ⟨rfl, rfl, id, id⟩
  | datagram =>
    simp only [Daemon.received] at h
    split at h
    · cases h
    · cases h
      exact ⟨rfl, rfl, id, id⟩

/-- What the other steps do to the loop and to the children. -/
theorem Daemon.next_place (hn : d.next l e = some d') (he : ∀ unlinked, e ≠ .top unlinked) :
    (d'.place = d.place ∧ d.Keeps d') ∨
      (∃ map, e = .reread map ∧ d.place = .reread ∧ d' = d.reread map) ∨
      (d.place.busy = true ∧ d.Keeps d') ∨
      ∃ fd r, d.place = .fork fd r ∧ d' = d.forked fd r true := by
  cases e with
  | arrives fd r =>
    cases hn
    exact .inl ⟨rfl, rfl, rfl, id, id⟩
  | sighup =>
    cases hn
    exact .inl ⟨rfl, rfl, rfl, fun _ => rfl, id⟩
  | exit =>
    obtain ⟨-, hn⟩ := Option.ite_none_right_eq_some.1 hn
    cases hn
    exact .inl ⟨rfl, rfl, rfl, id, fun _ => rfl⟩
  | top unlinked => exact absurd rfl (he unlinked)
  | reread map =>
    simp only [Daemon.next] at hn
    split at hn
    · rename_i hp
      cases hn
      exact .inr (.inl ⟨map, rfl, hp, rfl⟩)
    · cases hn
  | selected answer =>
    simp only [Daemon.next] at hn
    split at hn
    · rename_i hp
      exact .inr (.inr (.inl ⟨hp ▸ rfl, selected_keeps hn⟩))
    · cases hn
  | received answer =>
    simp only [Daemon.next] at hn
    split at hn
    · rename_i fd hp
      exact .inr (.inr (.inl ⟨hp ▸ rfl, received_keeps hn⟩))
    · cases hn
  | forked ok =>
    simp only [Daemon.next] at hn
    split at hn
    · rename_i fd r hp
      cases hn
      cases ok with
      | false => exact .inr (.inr (.inl ⟨hp ▸ rfl, rfl, rfl, id, id⟩))
      | true => exact .inr (.inr (.inr ⟨fd, r, hp, rfl⟩))
    · cases hn

/-- Nothing but the poll takes the flags back. -/
theorem Daemon.next_flags (hn : d.next l e = some d') (he : ∀ unlinked, e ≠ .top unlinked) :
    (d.caughtSighup = true → d'.caughtSighup = true) ∧
      (d.exitSignal = true → d'.exitSignal = true) := by
  rcases next_place hn he with ⟨-, hk⟩ | ⟨map, -, -, rfl⟩ | ⟨-, hk⟩ | ⟨fd, r, -, rfl⟩
  · exact ⟨hk.caughtSighup, hk.exitSignal⟩
  · cases map <;> exact ⟨id, id⟩
  · exact ⟨hk.caughtSighup, hk.exitSignal⟩
  · exact ⟨id, id⟩

/-- At most one child is forked before the flag is obeyed. -/
theorem Signalled.step (hp : Polls l flag rest) (h : Signalled flag rest cs d)
    (hn : d.next l e = some d') :
    (∃ map, e = .reread map ∧ d.place = .reread ∧ d' = d.reread map) ∨
      ∃ cs', d'.children = d.children ++ cs' ∧ Signalled flag rest (cs ++ cs') d' := by
  have hbusy (hb : d.place.busy = true) : cs = [] ∧ flag d := by
    have hrest : ¬ rest d.place := fun hr => Bool.noConfusion (hb.symm.trans (hp.resting hr).2)
    refine ⟨?_, h.pending.resolve_right hrest⟩
    rcases h.last with hc | ht | hr
    · exact hc
    · rw [ht] at hb
      cases hb
    · exact absurd hr hrest
  by_cases htop : ∃ unlinked, e = .top unlinked
  · right
    obtain ⟨unlinked, rfl⟩ := htop
    obtain ⟨hplace, rfl⟩ := Daemon.next_top hn
    have hf : flag d := h.pending.resolve_right fun hr => (hp.resting hr).1 hplace
    have hrest := hp.obeyed hf unlinked
    refine ⟨[], ?_, ?_, .inr (.inr hrest), .inr hrest⟩
    · rw [List.append_nil]
      exact (Daemon.top_idles l d unlinked).children
    · rw [List.append_nil]
      exact h.few
  · rw [not_exists] at htop
    have hkept (hf : flag d) : flag d' := hp.kept hf hn htop
    rcases Daemon.next_place hn htop with ⟨hplace, hk⟩ | ⟨map, he, hplace, hd⟩ | ⟨hb, hk⟩ |
      ⟨fd, r, hplace, rfl⟩
    · right
      refine ⟨[], ?_, ?_⟩
      · rw [List.append_nil]
        exact hk.children
      · rw [List.append_nil]
        refine ⟨h.few, ?_, ?_⟩
        · rw [hplace]
          exact h.last
        · rw [hplace]
          exact h.pending.imp_left hkept
    · exact .inl ⟨map, he, hplace, hd⟩
    · right
      obtain ⟨rfl, hf⟩ := hbusy hb
      refine ⟨[], ?_, Nat.zero_le 1, .inl rfl, .inl (hkept hf)⟩
      rw [List.append_nil]
      exact hk.children
    · right
      obtain ⟨rfl, hf⟩ := hbusy (hplace ▸ rfl)
      exact ⟨[⟨fd, r, d.buf, d.rules⟩], rfl, Nat.le_refl 1, .inr (.inl rfl), .inl (hkept hf)⟩

def rereads (es : List (LoopEvent ρ)) : List ρ :=
  es.filterMap fun e =>
    match e with
    | .reread (.ok rules) => some rules
    | _ => none

/-- The rules of the server were read since the signal, as were those of all children but the
first one. -/
structure Renewed (rs : List ρ) (cs : List (Forked ρ)) (d : Daemon ρ) : Prop where
  rules : ∃ r ∈ rs, d.rules = some r
  children : ∀ c ∈ cs.tail, ∃ r ∈ rs, c.rules = some r

theorem sighup_polls (hs : l.standalone = true) (hf : l.rewriteFile = true) :
    Polls l (fun d : Daemon ρ => d.caughtSighup = true)
      (fun p => p = .reread ∨ ∃ status, p = .exited status) where
  kept := fun hc hn he => (Daemon.next_flags hn he).1 hc
  obeyed := by
    intro d hc unlinked
    by_cases he : d.exitSignal = true
    · rw [Daemon.top, if_pos he]
      exact .inr ⟨_, rfl⟩
    · rw [Daemon.top, if_neg he, if_pos hc]
      dsimp only
      rw [if_pos hs, if_pos hf]
      exact .inl rfl
  resting := by
    rintro p (rfl | ⟨status, rfl⟩)
    · exact ⟨LoopPlace.noConfusion, rfl⟩
    · exact ⟨LoopPlace.noConfusion, rfl⟩

theorem exit_polls (l : Listener) :
    Polls l (fun d : Daemon ρ => d.exitSignal = true) (fun p => ∃ status, p = .exited status) where
  kept := fun hc hn he => (Daemon.next_flags hn he).2 hc
  obeyed := by
    intro d hc unlinked
    rw [Daemon.top, if_pos hc]
    exact ⟨_, rfl⟩
  resting := by
    rintro p ⟨status, rfl⟩
    exact ⟨LoopPlace.noConfusion, rfl⟩

theorem rereads_append (es es' : List (LoopEvent ρ)) :
    rereads (es ++ es') = rereads es ++ rereads es' := List.filterMap_append

theorem Daemon.top_rules (l : Listener) (d : Daemon ρ) (unlinked : Bool) :
    (d.top l unlinked).rules = d.rules := by
  rw [top]
  split
  · rfl
  split
  · rfl
  · rfl

theorem Renewed.mono (h : Renewed rs cs d) (hsub : rs ⊆ rs') (hr : d'.rules = d.rules) :
    Renewed rs' cs d' where
  rules := by
    obtain ⟨r, hmem, he⟩ := h.rules
    exact ⟨r, hsub hmem, hr.trans he⟩
  children := by
    intro c hc
    obtain ⟨r, hmem, he⟩ := h.children c hc
    exact ⟨r, hsub hmem, he⟩

theorem Renewed.reread (hcs : ∀ c ∈ cs.tail, ∃ r ∈ rs, c.rules = some r) (d : Daemon ρ)
    (rules : ρ) : Renewed (rs ++ [rules]) cs (d.reread (.ok rules)) where
  rules := ⟨rules, List.mem_append_right _ (List.mem_singleton_self _), rfl⟩
  children := by
    intro c hc
    obtain ⟨r, hmem, he⟩ := hcs c hc
    exact ⟨r, List.mem_append_left _ hmem, he⟩

theorem Renewed.forked (h : Renewed rs cs d) (fd : Input) (r : Incoming) :
    Renewed rs (cs ++ [⟨fd, r, d.buf, d.rules⟩]) (d.forked fd r true) where
  rules := h.rules
  children := by
    intro c hc
    cases cs with
    | nil => cases hc
    | cons c' cs =>
      rcases List.mem_append.1 hc with hc | hc
      · exact h.children c hc
      · rw [List.mem_singleton.1 hc]
        exact h.rules

theorem Renewed.step (h : Renewed (rereads es) cs d) (hn : d.next l e = some d') :
    ∃ cs', d'.children = d.children ++ cs' ∧ Renewed (rereads (es ++ [e])) (cs ++ cs') d' := by
  have hsub : rereads es ⊆ rereads (es ++ [e]) := by
    rw [rereads_append]
    exact List.subset_append_left _ _
  have hsame (hc : d'.children = d.children) (hr : d'.rules = d.rules) :
      ∃ cs', d'.children = d.children ++ cs' ∧ Renewed (rereads (es ++ [e])) (cs ++ cs') d' := by
    refine ⟨[], ?_, ?_⟩
    · rw [List.append_nil]
      exact hc
    · rw [List.append_nil]
      exact h.mono hsub hr
  by_cases htop : ∃ unlinked, e = .top unlinked
  · obtain ⟨unlinked, rfl⟩ := htop
    obtain ⟨-, rfl⟩ := Daemon.next_top hn
    exact hsame (Daemon.top_idles l d unlinked).children (d.top_rules l unlinked)
  · rw [not_exists] at htop
    rcases Daemon.next_place hn htop with ⟨-, hk⟩ | ⟨map, rfl, -, rfl⟩ | ⟨-, hk⟩ | ⟨fd, r, -, rfl⟩
    · exact hsame hk.children hk.rules
    · cases map with
      | error status => exact hsame rfl rfl
      | ok rules =>
        refine ⟨[], (List.append_nil _).symm, ?_⟩
        rw [rereads_append, List.append_nil]
        exact .reread h.children d rules
    · exact hsame hk.children hk.rules
    · exact ⟨_, rfl, (h.mono hsub rfl).forked fd r⟩

theorem Signalled.tail (h : Signalled flag rest cs d) : cs.tail = [] := by
  have hlen := h.few
  cases cs with
  | nil => rfl
  | cons c cs => exact List.eq_nil_of_length_eq_zero (Nat.le_zero.1 (Nat.le_of_succ_le_succ hlen))

/-- After a SIGHUP a standalone server serves at most one more request with the rules that it had:
those of all further children were read from the map file since the signal. -/
theorem daemon_reloads (hs : l.standalone = true) (hf : l.rewriteFile = true)
    (h : (daemon l rules).exec d (.sighup :: es) = some d') :
    ∃ cs, d'.children = d.children ++ cs ∧ ∀ c ∈ cs.tail, ∃ r ∈ rereads es, c.rules = some r := by
  let flag (d : Daemon ρ) : Prop := d.caughtSighup = true
  let rest (p : LoopPlace) : Prop := p = .reread ∨ ∃ status, p = .exited status
  have hexec : (daemon l rules).exec { d with caughtSighup := true } es = some d' := h
  have hrun : ∃ cs, d'.children = d.children ++ cs ∧
      (Signalled flag rest cs d' ∨ Renewed (rereads es) cs d') := by
    apply System.exec_induction (P := fun es d' => ∃ cs, d'.children = d.children ++ cs ∧
      (Signalled flag rest cs d' ∨ Renewed (rereads es) cs d')) _ _ hexec
    · exact ⟨[], (List.append_nil _).symm, .inl ⟨Nat.zero_le 1, .inl rfl, .inl rfl⟩⟩
    · rintro es d₁ e d₂ ⟨cs, hc, hsig | hren⟩ hn
      · rcases hsig.step (sighup_polls hs hf) hn with ⟨map, rfl, -, rfl⟩ | ⟨cs', hc', hsig'⟩
        · cases map with
          | error status =>
            exact ⟨cs, hc, .inl ⟨hsig.few, .inr (.inr (.inr ⟨status, rfl⟩)),
              .inr (.inr ⟨status, rfl⟩)⟩⟩
          | ok rules =>
            refine ⟨cs, hc, .inr ?_⟩
            rw [rereads_append]
            apply Renewed.reread
            rw [hsig.tail]
            exact nofun
        · exact ⟨cs ++ cs', by rw [hc', hc, List.append_assoc], .inl hsig'⟩
      · obtain ⟨cs', hc', hren'⟩ := hren.step hn
        exact ⟨cs ++ cs', by rw [hc', hc, List.append_assoc], .inr hren'⟩
  obtain ⟨cs, hc, hsig | hren⟩ := hrun
  · refine ⟨cs, hc, ?_⟩
    rw [hsig.tail]
    exact nofun
  · exact ⟨cs, hc, hren.children⟩

theorem someRequests_renewed :
    ∃ d c c', (daemon plainListener (some 1)).exec ((Daemon.initial (some 1)).goto .select)
        ([.sighup, .arrives .fd4 someRequest, .arrives .fd4 someRequest] ++ takeRequest .fd4 ++
          [.top true, .reread (.ok 2)] ++ takeRequest .fd4) = some d ∧
      d.children = [c, c'] ∧ c.rules = some 1 ∧ c'.rules = some 2 := by
  have hk : ((daemon plainListener (some 1)).exec ((Daemon.initial (some 1)).goto .select)
      ([.sighup, .arrives .fd4 someRequest, .arrives .fd4 someRequest] ++ takeRequest .fd4 ++
        [.top true, .reread (.ok 2)] ++ takeRequest .fd4)).map
      (fun d => (d.children.length, d.children.head?.map Forked.rules)) =
      some (2, some (some 1)) := rfl
  obtain ⟨d, hd, he⟩ := Option.map_eq_some_iff.1 hk
  rw [Prod.mk.injEq] at he
  obtain ⟨cs, hcs, hrules⟩ := daemon_reloads rfl rfl hd
  match hc : d.children, he with
  | [c, c'], he =>
    rw [hc] at hcs
    obtain rfl : [c, c'] = cs := hcs
    obtain ⟨r, hr, hc'⟩ := hrules c' List.mem_cons_self
    rw [List.mem_singleton.1 hr] at hc'
    exact ⟨d, c, c', hd, hc, Option.some.inj he.2, hc'⟩

theorem Daemon.next_exited (hp : d.place = .exited status) (hn : d.next l e = some d') :
    d'.place = .exited status := by
  by_cases htop : ∃ unlinked, e = .top unlinked
  · obtain ⟨unlinked, rfl⟩ := htop
    obtain ⟨hplace, -⟩ := next_top hn
    rw [hp] at hplace
    cases hplace
  · rw [not_exists] at htop
    rcases next_place hn htop with ⟨hplace, -⟩ | ⟨map, -, hplace, -⟩ | ⟨hb, -⟩ | ⟨fd, r, hplace, -⟩
    · exact hplace.trans hp
    · rw [hp] at hplace
      cases hplace
    · rw [hp] at hb
      cases hb
    · rw [hp] at hplace
      cases hplace

/-- The rules may still be read after the signal to exit. -/
theorem Signalled.reread (h : Signalled (fun d => d.exitSignal = true)
      (fun p => ∃ status, p = .exited status) cs d) (hp : d.place = .reread) (map : Except Nat ρ) :
    Signalled (fun d => d.exitSignal = true) (fun p => ∃ status, p = .exited status) cs
      (d.reread map) := by
  have hrest : ¬ ∃ status, d.place = .exited status := by
    rintro ⟨status, he⟩
    rw [hp] at he
    cases he
  have hcs : cs = [] := by
    rcases h.last with hc | ht | hr
    · exact hc
    · rw [hp] at ht
      cases ht
    · exact absurd hr hrest
  refine ⟨h.few, .inl hcs, .inl ?_⟩
  have hflag := h.pending.resolve_right hrest
  cases map <;> exact hflag

/-- After a SIGTERM or SIGINT the server forks at most one more child, and the loop is left where
the signals are polled next. -/
theorem daemon_stops (h : (daemon l rules).exec d (.exit :: es) = some d') :
    ∃ cs, d'.children = d.children ++ cs ∧ cs.length ≤ 1 ∧
      ((∃ unlinked, .top unlinked ∈ es) → ∃ status, d'.place = .exited status) := by
  let flag (d : Daemon ρ) : Prop := d.exitSignal = true
  let rest (p : LoopPlace) : Prop := ∃ status, p = .exited status
  obtain ⟨d₀, hn₀, hexec⟩ := Option.bind_eq_some_iff.1 h
  obtain ⟨-, hd₀⟩ := Option.ite_none_right_eq_some.1 hn₀
  cases hd₀
  have hrun : ∃ cs, d'.children = d.children ++ cs ∧ Signalled flag rest cs d' ∧
      ((∃ unlinked, .top unlinked ∈ es) → rest d'.place) := by
    apply System.exec_induction (P := fun es d' => ∃ cs, d'.children = d.children ++ cs ∧
      Signalled flag rest cs d' ∧ ((∃ unlinked, .top unlinked ∈ es) → rest d'.place)) _ _ hexec
    · exact ⟨[], (List.append_nil _).symm, ⟨Nat.zero_le 1, .inl rfl, .inl rfl⟩, nofun⟩
    · rintro es d₁ e d₂ ⟨cs, hc, hsig, htop⟩ hn
      have htop' : (∃ unlinked, .top unlinked ∈ es ++ [e]) → rest d₂.place := by
        rintro ⟨unlinked, hmem⟩
        rcases List.mem_append.1 hmem with hmem | hmem
        · obtain ⟨status, hp⟩ := htop ⟨unlinked, hmem⟩
          exact ⟨status, Daemon.next_exited hp hn⟩
        · obtain rfl := List.mem_singleton.1 hmem
          obtain ⟨hp, rfl⟩ := Daemon.next_top hn
          have hpolls := exit_polls (ρ := ρ) l
          exact hpolls.obeyed (hsig.pending.resolve_right fun hr => (hpolls.resting hr).1 hp) _
      rcases hsig.step (exit_polls l) hn with ⟨map, rfl, hp, rfl⟩ | ⟨cs', hc', hsig'⟩
      · refine ⟨cs, ?_, ?_, htop'⟩
        · rw [← hc]
          cases map <;> rfl
        · exact hsig.reread hp map
      · exact ⟨cs ++ cs', by rw [hc', hc, List.append_assoc], hsig', htop'⟩
  obtain ⟨cs, hc, hsig, htop⟩ := hrun
  exact ⟨cs, hc, hsig.few, htop⟩

theorem someRequest_stopped :
    ∃ d, (daemon plainListener (some 1)).exec ((Daemon.initial (some 1)).goto .select)
        ([.exit, .arrives .fd4 someRequest] ++ takeRequest .fd4 ++ [.top true]) = some d ∧
      d.children.length ≤ 1 ∧ ∃ status, d.place = .exited status := by
  have hk : ((daemon plainListener (some 1)).exec ((Daemon.initial (some 1)).goto .select)
      ([.exit, .arrives .fd4 someRequest] ++ takeRequest .fd4 ++ [.top true])).isSome = true := rfl
  obtain ⟨d, hd⟩ := Option.isSome_iff_exists.1 hk
  obtain ⟨cs, hcs, hlen, hexit⟩ := daemon_stops hd
  obtain rfl : d.children = cs := hcs
  exact ⟨d, hd, hlen, hexit ⟨true, List.mem_append_right _ (List.mem_singleton_self _)⟩⟩

end Signals

end WooTftpd
