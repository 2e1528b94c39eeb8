import Mathlib.Algebra.Group.Int.Defs
import WooTftpd.Recvfile
import WooTftpd.Sendfile

namespace WooTftpd
open Lib
set_option autoImplicit true

structure Timeval where
  sec : Int
  usec : Int

def Timeval.micros (t : Timeval) : Int := t.sec * 1000000 + t.usec

/-- The difference is a `long`, and `dt` is unsigned. -/
def elapsed (t₀ t₁ : Timeval) : Nat :=
  (((t₁.sec - t₀.sec) * 1000000 + (t₁.usec - t₀.usec)) % 2 ^ 64).toNat

def timeoutLeft (timeoutUs dt : Nat) : Nat := if timeoutUs ≤ dt then 1 else timeoutUs - dt

/-- Where `recv_time` waits: in `select`, or in a `recv` that does not block. -/
inductive RecvPlace where
  | select
  | recv
  deriving DecidableEq

/-- A call of `recv_time`. -/
structure RecvTime where
  t₀ : Timeval
  timeoutUs : Nat
  timeoutLeft : Nat
  place : RecvPlace

/-- What `select` comes back with: EINTR, 0, or anything else. -/
inductive Wakeup where
  | interrupted
  | timeout
  | other
  deriving DecidableEq

inductive RecvResult where
  | again
  | failed
  | datagram (bytes : List UInt8)

namespace RecvTime

def enter (t : Timeval) (timeoutUs : Nat) : RecvTime := ⟨t, timeoutUs, timeoutUs, .select⟩

/-- The clock is read after every `select`. -/
def look (r : RecvTime) (t : Timeval) : RecvTime :=
  { r with timeoutLeft := WooTftpd.timeoutLeft r.timeoutUs (elapsed r.t₀ t) }

/-- The event that the call ends with, if it does; `timer` does not return. -/
def selected (r : RecvTime) (t : Timeval) : Wakeup → RecvTime × Option Event
  | .interrupted => (r.look t, none)
  | .timeout => (r.look t, some .timeout)
  | .other => ({ r.look t with place := .recv }, none)

def received (r : RecvTime) : RecvResult → RecvTime × Option Event
  | .again => ({ r with place := .select }, none)
  | .failed => (r, some .recvError)
  | .datagram bytes => (r, some (.datagram bytes))

end RecvTime

/-- What a transfer has to do with the clock. `r_timeout` is set to `timeout` in front of each call of
`send`, and for the wait after the final ACK `timeout` itself is taken. -/
structure Waits (σ : Type) where
  timeout : σ → Nat
  sends : σ → Nat
  ended : σ → Bool

/-- A transfer with its clock. `spent` is the time that was spent in calls of `recv_time` since
`r_timeout` was set, and `now` is what the clock showed last; no step depends on them. -/
structure Timed (σ : Type) where
  config : Config σ Event Action
  rTimeout : Nat
  call : Option RecvTime
  spent : Int
  now : Int

inductive TimedEvent where
  | enter (t : Timeval)
  | selected (w : Wakeup) (t : Timeval)
  | received (r : RecvResult)

namespace Timed

variable (W : Waits σ) (M : Machine σ Event Action) (d : Timed σ)

/-- The time since `r_timeout` was set, in calls of `recv_time`. -/
def waited (r : RecvTime) : Int := d.spent + (d.now - r.t₀.micros)

/-- The call goes on, or the transfer does with the event. -/
def answer (r : RecvTime) : Option Event → Timed σ
  | none => { d with call := some r }
  | some e =>
    let c := M.next d.config e
    if W.sends c.state = W.sends d.config.state then
      { d with config := c, rTimeout := r.timeoutLeft, call := none, spent := d.waited r }
    else { d with config := c, rTimeout := W.timeout c.state, call := none, spent := 0 }

def next : TimedEvent → Option (Timed σ)
  | .enter t =>
    if d.call.isNone ∧ ¬ W.ended d.config.state then
      some { d with call := some (.enter t d.rTimeout), now := t.micros }
    else none
  | .selected w t =>
    match d.call with
    | some r =>
      if r.place = .select then
        some (answer W M { d with now := t.micros } (r.selected t w).1 (r.selected t w).2)
      else none
    | none => none
  | .received result =>
    match d.call with
    | some r =>
      if r.place = .recv then some (answer W M d (r.received result).1 (r.received result).2)
      else none
    | none => none

end Timed

def timed (W : Waits σ) (M : Machine σ Event Action) : System (Timed σ) TimedEvent where
  init := fun d => d.config = M.init ∧ d.rTimeout = W.timeout M.init.state ∧ d.call = none ∧
    d.spent = 0 ∧ 0 ≤ d.now
  next := fun d e => d.next W M e

/-- The condition on a step: the clock does not go back, and shows less than 2^63 microseconds;
`select` does not say that the time is up before it is. -/
def Steady (d : Timed σ) : TimedEvent → Prop
  | .enter t => d.now ≤ t.micros ∧ t.micros < 2 ^ 63
  | .selected w t => d.now ≤ t.micros ∧ t.micros < 2 ^ 63 ∧
      (w = .timeout → ∀ r, d.call = some r → d.now + r.timeoutLeft ≤ t.micros)
  | .received _ => True

/-- A step that sends nothing leaves the timer, or is the last one. -/
def Waits.KeptBy (W : Waits σ) (M : Machine σ Event Action) : Prop :=
  ∀ s e, let s' := (M.step s e).1
    W.sends s' = W.sends s → W.ended s' = true ∨ W.timeout s' = W.timeout s

/-- What `left` says of a timer that was set to `timeout`, after a time of `waited`. -/
structure LeftOf (timeout left : Nat) (waited : Int) : Prop where
  early : (left : Int) ≤ max 1 (timeout - waited)
  late : (timeout : Int) ≤ left + waited

section Timer

variable {timeout left : Nat} {waited : Int} {t₀ t₁ : Timeval}

theorem elapsed_eq (h₀ : 0 ≤ t₀.micros) (h : t₀.micros ≤ t₁.micros) (hlt : t₁.micros < 2 ^ 63) :
    (elapsed t₀ t₁ : Int) = t₁.micros - t₀.micros := by
  have he : (t₁.sec - t₀.sec) * 1000000 + (t₁.usec - t₀.usec) = t₁.micros - t₀.micros := by
    simp only [Timeval.micros]
    omega
  rw [elapsed, he, Int.emod_eq_of_lt (by omega) (by omega), Int.toNat_of_nonneg (by omega)]

/-- A clock that was set back makes the rest of the time one microsecond. -/
theorem timeoutLeft_clock_back {timeoutUs : Nat} (h : t₁.micros < t₀.micros)
    (hb : t₀.micros + timeoutUs ≤ t₁.micros + 2 ^ 64) :
    timeoutLeft timeoutUs (elapsed t₀ t₁) = 1 := by
  have he : (t₁.sec - t₀.sec) * 1000000 + (t₁.usec - t₀.usec) = t₁.micros - t₀.micros := by
    simp only [Timeval.micros]
    omega
  have hmod : (t₁.micros - t₀.micros) % 2 ^ 64 = t₁.micros - t₀.micros + 2 ^ 64 := by
    rw [← Int.add_emod_right, Int.emod_eq_of_lt (by omega) (by omega)]
  rw [elapsed, he, hmod, timeoutLeft, if_pos (by omega)]

theorem LeftOf.set (timeout : Nat) : LeftOf timeout timeout 0 := ⟨by omega, by omega⟩

/-- The time goes on by `dt`. -/
theorem LeftOf.elapse (h : LeftOf timeout left waited) (dt : Nat) :
    LeftOf timeout (timeoutLeft left dt) (waited + dt) := by
  obtain ⟨he, hl⟩ := h
  rw [timeoutLeft]
  split
  · exact ⟨by omega, by omega⟩
  · exact ⟨by omega, by omega⟩

end Timer

section Runs

variable {W : Waits σ} {M : Machine σ Event Action} {d d' : Timed σ} {r : RecvTime}

/-- The call has the time that is left when it looks at the clock. -/
structure RecvTime.Counts (r : RecvTime) (W : Waits σ) (d : Timed σ) : Prop where
  began : 0 ≤ r.t₀.micros
  later : r.t₀.micros ≤ d.now
  budget : LeftOf (W.timeout d.config.state) r.timeoutUs d.spent
  left : LeftOf (W.timeout d.config.state) r.timeoutLeft (d.waited r)

structure Timed.Exact (W : Waits σ) (d : Timed σ) : Prop where
  now : 0 ≤ d.now
  idle : d.call = none →
    W.ended d.config.state = true ∨ LeftOf (W.timeout d.config.state) d.rTimeout d.spent
  call : ∀ r, d.call = some r → r.Counts W d

theorem Timed.Exact.begins (h : d.Exact W) (hcall : d.call = none)
    (hw : ¬ W.ended d.config.state = true) (ht : d.now ≤ t.micros) :
    Exact W { d with call := some (.enter t d.rTimeout), now := t.micros } where
  now := Int.le_trans h.now ht
  idle := fun hn => absurd hn (Option.some_ne_none _)
  call := by
    intro r hr
    cases hr
    have hleft := (h.idle hcall).resolve_left hw
    refine ⟨Int.le_trans h.now ht, Int.le_refl _, hleft, ?_⟩
    rw [waited]
    dsimp only [RecvTime.enter]
    rw [Int.sub_self, Int.add_zero]
    exact hleft

/-- What was left when the clock was read. -/
theorem RecvTime.Counts.look (h : r.Counts W d) (ht : d.now ≤ t.micros) (hlt : t.micros < 2 ^ 63) :
    (r.look t).Counts W { d with now := t.micros } := by
  have hlater : r.t₀.micros ≤ t.micros := Int.le_trans h.later ht
  refine ⟨h.began, hlater, h.budget, ?_⟩
  have he := h.budget.elapse (elapsed r.t₀ t)
  rw [elapsed_eq h.began hlater hlt] at he
  exact he

/-- The call goes on, or another one follows it sooner or later. -/
theorem Timed.Exact.answer (hnow : 0 ≤ d.now) (hk : W.KeptBy M) (h : r.Counts W d)
    (o : Option Event) : Exact W (answer W M d r o) := by
  cases o with
  | none =>
    refine ⟨hnow, fun hn => absurd hn (Option.some_ne_none _), ?_⟩
    intro r' hr
    cases hr
    exact ⟨h.began, h.later, h.budget, h.left⟩
  | some e =>
    simp only [Timed.answer]
    split
    · rename_i hs
      refine ⟨hnow, fun _ => ?_, ?_⟩
      · rcases hk d.config.state e hs with he | ht
        · exact .inl he
        · right
          have hsame : W.timeout (M.next d.config e).state = W.timeout d.config.state := ht
          dsimp only
          rw [hsame]
          exact h.left
      · intro r' hr
        cases hr
    · refine ⟨hnow, fun _ => .inr (.set _), ?_⟩
      intro r' hr
      cases hr

theorem RecvTime.Counts.moved (h : r.Counts W d) (place : RecvPlace) :
    ({ r with place := place } : RecvTime).Counts W d := ⟨h.began, h.later, h.budget, h.left⟩

theorem Timed.Exact.step (h : d.Exact W) (hk : W.KeptBy M) (hs : Steady d e)
    (hn : d.next W M e = some d') : d'.Exact W := by
  cases e with
  | enter t =>
    obtain ⟨⟨hcall, hw⟩, hn⟩ := Option.ite_none_right_eq_some.1 hn
    cases hn
    exact h.begins (Option.isNone_iff_eq_none.1 hcall) hw hs.1
  | selected w t =>
    simp only [Timed.next] at hn
    split at hn
    · rename_i r hcall
      obtain ⟨-, hn⟩ := Option.ite_none_right_eq_some.1 hn
      cases hn
      have hlook := (h.call r hcall).look hs.1 hs.2.1
      have hnow : 0 ≤ t.micros := Int.le_trans h.now hs.1
      cases w with
      | interrupted => exact answer hnow hk hlook none
      | timeout => exact answer hnow hk hlook (some .timeout)
      | other => exact answer hnow hk (hlook.moved .recv) none
    · cases hn
  | received result =>
    simp only [Timed.next] at hn
    split at hn
    · rename_i r hcall
      obtain ⟨-, hn⟩ := Option.ite_none_right_eq_some.1 hn
      cases hn
      have hr := h.call r hcall
      cases result with
      | again => exact answer h.now hk (hr.moved .select) none
      | failed => exact answer h.now hk hr _
      | datagram bytes => exact answer h.now hk hr _
    · cases hn

theorem exact_of_reach (hk : W.KeptBy M) (h : (timed W M).Reach Steady d) : d.Exact W := by
  apply h.invariant
  · rintro d ⟨hc, hr, hcall, hs, hnow⟩
    refine ⟨hnow, fun _ => .inr ?_, ?_⟩
    · rw [hc, hr, hs]
      exact .set _
    · intro r h
      rw [hcall] at h
      cases h
  · intro d e d' hd hs hn
    exact hd.step hk hs hn

/-- The timer expires in a call of `recv_time`, and not before its time. -/
theorem Timed.Exact.expires (h : d.Exact W) (hs : Steady d (.selected .timeout t))
    (hn : d.next W M (.selected .timeout t) = some d') :
    ∃ r, d.call = some r ∧
      (W.timeout d.config.state : Int) ≤ d.spent + (t.micros - r.t₀.micros) ∧
      d'.config = M.next d.config .timeout := by
  simp only [Timed.next] at hn
  split at hn
  · rename_i r hcall
    obtain ⟨-, hn⟩ := Option.ite_none_right_eq_some.1 hn
    cases hn
    refine ⟨r, hcall, ?_, ?_⟩
    · have hhonest := hs.2.2 rfl r hcall
      have hlate := (h.call r hcall).left.late
      rw [waited] at hlate
      omega
    · simp only [RecvTime.selected, Timed.answer]
      split
      · rfl
      · rfl
  · cases hn

end Runs

section Transfers

def sendWaits : Waits SendState where
  timeout := SendState.timeout
  sends := SendState.sends
  ended := fun s => match s.phase with
    | .ended _ => true
    | _ => false

def recvWaits : Waits RecvState where
  timeout := RecvState.timeout
  sends := RecvState.sends
  ended := fun s => match s.phase with
    | .ended _ => true
    | _ => false

/-- What a step does to the timer: the transfer is over, sends, or leaves it. -/
inductive TimerStep (W : Waits σ) (s s' : σ) : Prop where
  | ended (h : W.ended s' = true)
  | sent (h : W.sends s' = W.sends s + 1)
  | kept (h : W.timeout s' = W.timeout s)

theorem keptBy_of_timerStep {W : Waits σ} {M : Machine σ Event Action}
    (h : ∀ s e, TimerStep W s (M.step s e).1) : W.KeptBy M := by
  intro s e s' hs
  cases h s e with
  | ended h => exact .inl h
  | sent h => exact absurd (hs.symm.trans h) (Nat.ne_of_lt (Nat.lt_succ_self _))
  | kept h => exact .inr h

theorem sendData_sends (t : Transfer) (s : SendState) : (sendData t s).1.sends = s.sends + 1 := by
  rw [sendData]
  split
  · rfl
  · rfl

theorem readBlock_timer (t : Transfer) (s : SendState) :
    sendWaits.ended (readBlock t s).1 = true ∨ (readBlock t s).1.sends = s.sends + 1 := by
  simp only [readBlock]
  split
  · exact .inl rfl
  · exact .inr (sendData_sends t _)

theorem sendOack_sends (t : Transfer) (oacklen : Nat) (s : SendState) :
    (sendOack t oacklen s).1.sends = s.sends + 1 := by
  rw [sendOack]
  split
  · rfl
  · rfl

theorem blockAcked_timer (t : Transfer) (s : SendState) :
    sendWaits.ended (blockAcked t s).1 = true ∨ (blockAcked t s).1.sends = s.sends + 1 := by
  simp only [blockAcked]
  split
  · exact readBlock_timer t _
  · exact .inl rfl

theorem dataStep_timer (t : Transfer) (s : SendState) (e : Parsed) :
    TimerStep sendWaits s (dataStep t s e).1 := by
  cases e with
  | timeout =>
    simp only [dataStep]
    split
    · exact .ended rfl
    · exact .sent (sendData_sends t _)
  | recvError => exact .ended rfl
  | packet opcode block =>
    simp only [dataStep]
    split
    · exact .ended rfl
    split
    · rcases blockAcked_timer t s with he | hs
      · exact .ended he
      · exact .sent hs
    · exact .kept rfl

theorem optionStep_timer (t : Transfer) (oacklen : Nat) (s : SendState) (e : Parsed) :
    TimerStep sendWaits s (optionStep t oacklen s e).1 := by
  cases e with
  | timeout =>
    simp only [optionStep]
    split
    · exact .ended rfl
    · exact .sent (sendOack_sends t oacklen _)
  | recvError => exact .ended rfl
  | packet opcode block =>
    simp only [optionStep]
    split
    · exact .ended rfl
    split
    · split
      · rcases readBlock_timer t { s with phase := .data, subs := rInit s.subs } with he | hs
        · exact .ended he
        · exact .sent hs
      · exact .sent (sendOack_sends t oacklen s)
    · exact .kept rfl

theorem sendfile_keeps (t : Transfer) (oack : Option Nat) (ackbuf : Mem) (f : InFile) :
    sendWaits.KeptBy (tftpSendfile t oack ackbuf f) := by
  apply keptBy_of_timerStep
  intro s e
  have hstep : (tftpSendfile t oack ackbuf f).step s e = sendStep t (oack.getD 0) s e := rfl
  rw [hstep, sendStep]
  split
  · exact .kept rfl
  · cases optionStep_timer t (oack.getD 0) { s with ackbuf := (parse s.ackbuf e).1 }
      (parse s.ackbuf e).2 with
    | ended h => exact .ended h
    | sent h => exact .sent h
    | kept h => exact .kept h
  · cases dataStep_timer t { s with ackbuf := (parse s.ackbuf e).1 } (parse s.ackbuf e).2 with
    | ended h => exact .ended h
    | sent h => exact .sent h
    | kept h => exact .kept h

theorem sendAck_timer (t : Transfer) (s : RecvState) : (sendAck t s).1.sends = s.sends + 1 := by
  rw [sendAck]
  split
  · rfl
  · rfl

theorem replyBlock_timer (t : Transfer) (oacklen : Nat) (s : RecvState) :
    (replyBlock t oacklen s).1.sends = s.sends + 1 := by
  simp only [replyBlock]
  rw [sendAck_timer]
  split
  · rfl
  · rfl

theorem blockReceived_timer (t : Transfer) (oacklen n : Nat) (s : RecvState) :
    recvWaits.ended (blockReceived t oacklen n s).1 = true ∨
      (blockReceived t oacklen n s).1.sends = s.sends + 1 := by
  simp only [blockReceived]
  split
  · exact .inl rfl
  · right
    split
    · rw [replyBlock_timer]
    · rfl

theorem waitStep_timer (t : Transfer) (oacklen : Nat) (s : RecvState) (e : Event) :
    TimerStep recvWaits s (waitStep t oacklen s e).1 := by
  cases e with
  | timeout =>
    simp only [waitStep]
    split
    · exact .ended rfl
    · exact .sent (sendAck_timer t _)
  | recvError => exact .ended rfl
  | datagram d =>
    simp only [waitStep]
    split
    · exact .ended rfl
    split
    · split
      · rcases blockReceived_timer t oacklen (received d).length _ with he | hs
        · exact .ended he
        · exact .sent hs
      split
      · exact .sent (sendAck_timer t _)
      · exact .kept rfl
    · exact .kept rfl

theorem recvfile_keeps (t : Transfer) (oack : Option Nat) (ackbuf : Mem) :
    recvWaits.KeptBy (tftpRecvfile t oack ackbuf) := by
  apply keptBy_of_timerStep
  intro s e
  have hstep : (tftpRecvfile t oack ackbuf).step s e = recvStep t (oack.getD 0) s e := rfl
  rw [hstep, recvStep]
  split
  · exact .kept rfl
  · exact waitStep_timer t _ s e
  · cases e with
    | timeout => exact .ended rfl
    | recvError => exact .ended rfl
    | datagram d => exact .ended rfl

/-- Whatever arrives while a packet waits for its answer, `select` is asked for what is left of the
interval, or for one microsecond, and a timeout does not come before the interval has been spent in
`recv_time`. -/
def KeepsTime (W : Waits σ) (M : Machine σ Event Action) : Prop :=
  ∀ d, (timed W M).Reach Steady d →
    (∀ r, d.call = some r →
      (r.timeoutLeft : Int) ≤ max 1 (W.timeout d.config.state - d.waited r) ∧
        (W.timeout d.config.state : Int) ≤ r.timeoutLeft + d.waited r) ∧
    ∀ t d', Steady d (.selected .timeout t) → d.next W M (.selected .timeout t) = some d' →
      ∃ r, d.call = some r ∧ d'.config = M.next d.config .timeout ∧
        (W.timeout d.config.state : Int) ≤ d.spent + (t.micros - r.t₀.micros)

theorem Waits.KeptBy.keepsTime {W : Waits σ} {M : Machine σ Event Action} (hk : W.KeptBy M) :
    KeepsTime W M := by
  intro d hd
  have he := exact_of_reach hk hd
  refine ⟨fun r hr => ⟨(he.call r hr).left.early, (he.call r hr).left.late⟩, ?_⟩
  intro t d' hs hn
  obtain ⟨r, hr, hlate, hc⟩ := he.expires hs hn
  exact ⟨r, hr, hc, hlate⟩

/-- Stray packets neither shorten nor lengthen the interval of a transfer, in either direction. -/
theorem transfer_keepsTime (t : Transfer) (oack : Option Nat) (ackbuf : Mem) (f : InFile) :
    KeepsTime sendWaits (tftpSendfile t oack ackbuf f) ∧
      KeepsTime recvWaits (tftpRecvfile t oack ackbuf) :=
  ⟨(sendfile_keeps t oack ackbuf f).keepsTime, (recvfile_keeps t oack ackbuf).keepsTime⟩

/-- After a stray packet the next wait is for the rest of the second. -/
example :
    let M := tftpRecvfile octetTransfer none .zero
    ((timed recvWaits M).exec ⟨M.init, 1000000, none, 0, 0⟩
      [.enter ⟨0, 0⟩, .selected .other ⟨0, 400000⟩, .received (.datagram [0, 1, 0, 0])]).map
      (fun d => (d.rTimeout, d.spent)) = some (600000, 400000) := by
  decide +kernel

end Transfers

end WooTftpd
