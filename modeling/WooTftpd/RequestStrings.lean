import WooTftpd.OptionList
import WooTftpd.RejectedWrite

namespace WooTftpd
open Lib
set_option autoImplicit true

variable {cfg : ServerConfig} {k : Kernel} {buf : Mem} {s s' : Request} {v : View}

/-- What a request has come to, apart from the buffer that it is read from. `options` are the
arguments of the calls of `do_opt` so far. -/
structure View where
  convert : Option Bool
  fs : FileSystem
  negotiated : Negotiated
  oack : Oack
  calls : List Call
  options : List (CString × CString)

inductive Handled where
  | stop (o : Outcome) (v : View)
  | go (v : View)

def Handled.andThen (x : Handled) (f : View → Handled) : Handled :=
  match x with
  | .stop o v => .stop o v
  | .go v => f v

def handleOption (cfg : OptionConfig) (opt val : CString) (v : View) : Handled :=
  let v := { v with options := v.options ++ [(opt, val)] }
  match doOpt cfg opt val v.negotiated v.oack with
  | .nak error msg => .stop (.nak error (some msg)) v
  | .returned n o => .go { v with negotiated := n, oack := o }

/-- The strings behind the mode, of which the first is the value of `opt` if there is one. -/
def handleOptions (cfg : OptionConfig) : Option CString → List CString → View → Handled
  | _, [], v => .go v
  | none, opt :: ss, v => handleOptions cfg (some opt) ss v
  | some opt, val :: ss, v => (handleOption cfg opt val v).andThen (handleOptions cfg none ss)

def handleMode (cfg : ServerConfig) (k : Kernel) (opcode : UInt16) (name mode : CString)
    (v : View) : Handled :=
  match selectFormat (mode.bytes.map tolower) with
  | none => .stop (.nak EBADOP (some "Unknown mode")) v
  | some convert =>
    match cfg.rewriteAccess name opcode with
    | .error msg => .stop (.nak EACCESS msg) v
    | .ok filename =>
      let r := validateAccess cfg.access k opcode convert filename v.fs
      let v := { v with fs := r.fs, calls := v.calls ++ r.calls, convert := some convert }
      match r.result with
      | .denied ecode msg => .stop (.nak ecode msg) v
      | .exits => .stop .exits v
      | .granted tsize tsizeOk =>
        .go { v with negotiated := { v.negotiated with tsize := tsize, tsizeOk := tsizeOk } }

/-- A request as a list of strings. -/
def handleStrings (cfg : ServerConfig) (k : Kernel) (opcode : UInt16) :
    List CString → View → Handled
  | name :: mode :: ss, v =>
    (handleMode cfg k opcode name mode v).andThen (handleOptions cfg.options none ss)
  | _, v => .go v

def Handled.conclude : Handled → Outcome × View
  | .stop o v => (o, v)
  | .go v =>
    match v.convert with
    | none => (.nak EBADOP (some "Missing mode"), v)
    | some convert => (.serve convert (if v.oack.ap ≠ 2 then some v.oack.ap else none), v)

/-- The arguments of the call of `do_opt` that the string ending at `stop` leads to. -/
def optArguments (stop : Nat) (s : Request) : List (CString × CString) :=
  if s.argn = 1 ∨ s.argn = 2 ∨ s.argn % 2 = 1 then []
  else [(stringAt s.buf s.opt (s.val - 1), stringAt s.buf s.val stop)]

/-- The loop of `tftp()` with a record of the calls of `do_opt`. -/
def tracedLoop (cfg : ServerConfig) (k : Kernel) :
    Nat → Request → List (CString × CString) → Next × List (CString × CString)
  | 0, s, options => (.go s, options)
  | n + 1, s, options =>
    if s.cp < s.size ∧ s.buf s.cp ≠ 0 then
      if s.buf s.stop ≠ 0 then
        (.stop (.nak EBADOP (some "Request not null-terminated")) { s with cp := s.stop }, options)
      else
        let s' := { s with argn := s.argn + 1 }
        let options := options ++ optArguments s.stop s'
        match argument cfg k s.stop s' with
        | .stop o s' => (.stop o s', options)
        | .go s' => tracedLoop cfg k n s' options
    else (.go s, options)

theorem tracedLoop_fst (cfg : ServerConfig) (k : Kernel) (n : Nat) (s : Request)
    (options : List (CString × CString)) :
    (tracedLoop cfg k n s options).1 = tftpLoop cfg k n s := by
  induction n generalizing s options with
  | zero => rfl
  | succ n ih =>
    rw [tracedLoop, tftpLoop]
    split
    · split
      · rfl
      · dsimp only
        cases argument cfg k s.stop { s with argn := s.argn + 1 } with
        | stop o s' => rfl
        | go s' => exact ih s' _
    · rfl

def Request.view (s : Request) (options : List (CString × CString)) : View :=
  ⟨s.convert, s.fs, s.negotiated, s.oack, s.calls, options⟩

def viewNext (r : Next × List (CString × CString)) : Handled :=
  match r.1 with
  | .stop o s => .stop o (s.view r.2)
  | .go s => .go (s.view r.2)

/-- What `tftp()` does with the first `size` bytes of `buf`. -/
def handleRequest (cfg : ServerConfig) (k : Kernel) (buf : Mem) (size : Nat) (fs : FileSystem) :
    Outcome × View :=
  let r := tftp cfg k buf size fs
  (r.1, r.2.view (tracedLoop cfg k size (requestStart cfg buf size fs) []).2)

theorem handleRequest_eq (cfg : ServerConfig) (k : Kernel) (buf : Mem) (size : Nat)
    (fs : FileSystem) :
    handleRequest cfg k buf size fs =
      (viewNext (tracedLoop cfg k size (requestStart cfg buf size fs) [])).conclude := by
  have hfst := tracedLoop_fst cfg k size (requestStart cfg buf size fs) []
  simp only [handleRequest, tftp, viewNext, ← hfst]
  cases (tracedLoop cfg k size (requestStart cfg buf size fs) []).1 with
  | stop o s => rfl
  | go s =>
    cases hc : s.convert with
    | none => simp only [Handled.conclude, Request.view, hc]
    | some convert => simp only [Handled.conclude, Request.view, hc]

/-- The strings that the loop of `tftp()` finds from `cp` on; `cut` says that the last one is
not terminated. -/
inductive Scanned (buf : Mem) (size : Nat) : Nat → List CString → Bool → Prop where
  | done (h : ¬ (cp < size ∧ buf cp ≠ 0)) : Scanned buf size cp [] false
  | unterminated (h : cp < size ∧ buf cp ≠ 0)
      (hs : buf (scanString buf (size - (cp + 1)) (cp + 1)) ≠ 0) : Scanned buf size cp [] true
  | string (h : stringEnd buf size cp = some stop) (hs : Scanned buf size (stop + 1) ss cut) :
      Scanned buf size cp (stringAt buf cp stop :: ss) cut

def finish (cut : Bool) (v : View) : Handled :=
  if cut then .stop (.nak EBADOP (some "Request not null-terminated")) v else .go v

theorem tracedLoop_done (h : ¬ (s.cp < s.size ∧ s.buf s.cp ≠ 0)) (n : Nat)
    (options : List (CString × CString)) :
    tracedLoop cfg k n s options = (.go s, options) := by
  cases n with
  | zero => rfl
  | succ n => rw [tracedLoop, if_neg h]

theorem tracedLoop_unterminated (hc : s.cp < s.size ∧ s.buf s.cp ≠ 0) (hs : s.buf s.stop ≠ 0)
    (n : Nat) (options : List (CString × CString)) :
    viewNext (tracedLoop cfg k (n + 1) s options) =
      .stop (.nak EBADOP (some "Request not null-terminated")) (s.view options) := by
  rw [tracedLoop, if_pos hc, if_pos hs]
  rfl

theorem tracedLoop_string (h : stringEnd s.buf s.size s.cp = some stop) (n : Nat)
    (options : List (CString × CString)) :
    tracedLoop cfg k (n + 1) s options =
      let s' := { s with argn := s.argn + 1 }
      match argument cfg k stop s' with
      | .stop o s'' => (.stop o s'', options ++ optArguments stop s')
      | .go s'' => tracedLoop cfg k n s'' (options ++ optArguments stop s') := by
  rw [s.stringEnd_eq] at h
  split at h
  · rename_i hc
    split at h
    · rename_i hs
      cases h
      rw [tracedLoop, if_pos hc, if_neg (not_not.2 hs)]
    · cases h
  · cases h

/-- The variables of `tftp()` behind the mode: the next string is the name of an option, or the
value of the option `pending`. -/
structure AtOption (s : Request) (pending : Option CString) : Prop where
  argn : 2 ≤ s.argn
  parity : s.argn % 2 = if pending.isSome then 1 else 0
  name : pending = none → s.opt = s.cp
  value : ∀ opt, pending = some opt → s.val = s.cp ∧ stringAt s.buf s.opt (s.val - 1) = opt

/-- A string at the place of a name is remembered as the name of an option. -/
theorem AtOption.nameRead (h : AtOption s none) (cfg : ServerConfig) (k : Kernel) (stop : Nat) :
    let s' := { s with argn := s.argn + 1 }
    argument cfg k stop s' = .go { s' with val := stop + 1, cp := stop + 1 } ∧
      optArguments stop s' = [] ∧
      AtOption { s' with val := stop + 1, cp := stop + 1 } (some (stringAt s.buf s.cp stop)) := by
  intro s'
  have hargn : 2 < s'.argn := Nat.lt_succ_of_le h.argn
  have hodd : s'.argn % 2 = 1 := by
    have hp : s.argn % 2 = 0 := h.parity
    change (s.argn + 1) % 2 = 1
    omega
  have h1 : ¬ s'.argn = 1 := by omega
  have h2 : ¬ s'.argn = 2 := by omega
  refine ⟨?_, ?_, Nat.le_of_lt hargn, hodd, nofun, ?_⟩
  · rw [argument, if_neg h1, if_neg h2, if_pos hodd]
  · rw [optArguments, if_pos (.inr (.inr hodd))]
  · rintro opt ⟨⟩
    refine ⟨rfl, ?_⟩
    rw [← h.name rfl]
    rfl

/-- A string at the place of a value is given to `do_opt`, with the name before it. -/
theorem AtOption.valueRead (h : AtOption s (some opt)) (cfg : ServerConfig) (k : Kernel)
    (stop : Nat) :
    let s' := { s with argn := s.argn + 1 }
    argument cfg k stop s' =
        (match doOpt cfg.options opt (stringAt s.buf s.cp stop) s.negotiated s.oack with
        | .nak error msg => .stop (.nak error (some msg)) { s' with cp := stop }
        | .returned n o =>
          .go { s' with negotiated := n, oack := o, opt := stop + 1, cp := stop + 1 }) ∧
      optArguments stop s' = [(opt, stringAt s.buf s.cp stop)] ∧
      ∀ n o, AtOption { s' with negotiated := n, oack := o, opt := stop + 1, cp := stop + 1 }
        none := by
  intro s'
  obtain ⟨hval, hname⟩ := h.value opt rfl
  have hstring : stringAt s'.buf s'.val stop = stringAt s.buf s.cp stop := by rw [← hval]
  have hname' : stringAt s'.buf s'.opt (s'.val - 1) = opt := hname
  have hargn : 2 < s'.argn := Nat.lt_succ_of_le h.argn
  have heven : s'.argn % 2 = 0 := by
    have hp : s.argn % 2 = 1 := h.parity
    change (s.argn + 1) % 2 = 0
    omega
  have h1 : ¬ s'.argn = 1 := by omega
  have h2 : ¬ s'.argn = 2 := by omega
  have h3 : ¬ s'.argn % 2 = 1 := by omega
  refine ⟨?_, ?_, fun n o => ⟨Nat.le_of_lt hargn, heven, fun _ => rfl, nofun⟩⟩
  · have ha := argument.eq_def cfg k stop s'
    rw [if_neg h1, if_neg h2, if_neg h3, hname', hstring] at ha
    exact ha
  · rw [optArguments, if_neg (by omega), hname', hstring]

/-- The loop over the strings behind the mode, whose parity decides what a string means. -/
theorem Scanned.options (h : Scanned s.buf s.size s.cp ss cut) (ha : AtOption s pending)
    (hn : s.size - s.cp ≤ n) (options : List (CString × CString)) :
    viewNext (tracedLoop cfg k n s options) =
      (handleOptions cfg.options pending ss (s.view options)).andThen (finish cut) := by
  generalize hbuf : s.buf = buf at h
  generalize hsize : s.size = size at h
  generalize hcp : s.cp = cp at h
  induction h generalizing s pending n options with
  | done hd =>
    subst hbuf hsize hcp
    rw [tracedLoop_done hd]
    cases pending <;> rfl
  | unterminated hc hs =>
    subst hbuf hsize hcp
    obtain ⟨n, rfl⟩ : ∃ n', n = n' + 1 := ⟨n - 1, by omega⟩
    rw [tracedLoop_unterminated hc hs]
    cases pending <;> rfl
  | @string cp stop ss cut hstop _ ih =>
    subst hbuf hsize hcp
    obtain ⟨hlt, hsize⟩ := lt_stringEnd hstop
    obtain ⟨n, rfl⟩ : ∃ n', n = n' + 1 := ⟨n - 1, by omega⟩
    have hn' : s.size - (stop + 1) ≤ n := by omega
    rw [tracedLoop_string hstop]
    cases pending with
    | none =>
      obtain ⟨harg, hopt, hnext⟩ := ha.nameRead cfg k stop
      simp only [harg, hopt, List.append_nil, handleOptions]
      exact ih hnext hn' options rfl rfl rfl
    | some opt =>
      obtain ⟨harg, hopt, hnext⟩ := ha.valueRead cfg k stop
      simp only [harg, hopt, handleOptions, handleOption]
      cases hd : doOpt cfg.options opt (stringAt s.buf s.cp stop) s.negotiated s.oack with
      | nak error msg =>
        simp only [Request.view, hd]
        rfl
      | returned n' o' =>
        simp only [Request.view, hd]
        exact ih (hnext n' o') hn' _ rfl rfl rfl

theorem scanString_ne (buf : Mem) (n cp : Nat) (hi : cp ≤ i) (hlt : i < scanString buf n cp) :
    buf i ≠ 0 := by
  induction n generalizing cp with
  | zero => exact absurd hlt (Nat.not_lt_of_le hi)
  | succ n ih =>
    rw [scanString] at hlt
    split at hlt
    · rename_i hc
      rcases Nat.eq_or_lt_of_le hi with rfl | hi
      · exact hc
      · exact ih (cp + 1) hi hlt
    · exact absurd hlt (Nat.not_lt_of_le hi)

theorem stringEnd_ne (h : stringEnd buf size cp = some stop) (hi : cp ≤ i) (hlt : i < stop) :
    buf i ≠ 0 := by
  simp only [stringEnd] at h
  split at h
  · rename_i hc
    split at h
    · cases h
      rcases Nat.eq_or_lt_of_le hi with rfl | hi
      · exact hc.2
      · exact scanString_ne buf _ (cp + 1) hi hlt
    · cases h
  · cases h

theorem stringAt_bytes (h : stringEnd buf size cp = some stop) :
    (stringAt buf cp stop).bytes = buf.load cp (stop - cp) := by
  apply List.takeWhile_eq_self_iff.2
  intro c hc
  obtain ⟨i, hi, rfl⟩ := List.mem_map.1 hc
  have hi := List.mem_range.1 hi
  exact decide_eq_true (stringEnd_ne h (Nat.le_add_right _ _) (by omega))

theorem scanString_congr {buf' : Mem} (n : Nat) (h : ∀ i, cp ≤ i → buf' i = buf i) :
    scanString buf' n cp = scanString buf n cp := by
  induction n generalizing cp with
  | zero => rfl
  | succ n ih =>
    rw [scanString, scanString, h cp (Nat.le_refl _), ih fun i hi => h i (Nat.le_of_succ_le hi)]

theorem stringEnd_congr {buf' : Mem} (size : Nat) (h : ∀ i, cp ≤ i → buf' i = buf i) :
    stringEnd buf' size cp = stringEnd buf size cp := by
  have hscan := scanString_congr (size - (cp + 1)) fun i hi => h i (Nat.le_of_succ_le hi)
  have hle := le_scanString buf (size - (cp + 1)) (cp + 1)
  simp only [stringEnd, hscan]
  rw [h cp (Nat.le_refl _), h _ (Nat.le_of_succ_le hle)]

theorem Scanned.congr {buf' : Mem} (hs : Scanned buf size cp ss cut)
    (h : ∀ i, cp ≤ i → buf' i = buf i) : Scanned buf' size cp ss cut := by
  induction hs with
  | done hd =>
    apply Scanned.done
    rw [h _ (Nat.le_refl _)]
    exact hd
  | @unterminated cp hc hs =>
    have hle := le_scanString buf (size - (cp + 1)) (cp + 1)
    apply Scanned.unterminated
    · rw [h _ (Nat.le_refl _)]
      exact hc
    · rw [scanString_congr _ fun i hi => h i (Nat.le_of_succ_le hi), h _ (Nat.le_of_succ_le hle)]
      exact hs
  | @string cp stop ss cut hstop _ ih =>
    obtain ⟨hlt, _⟩ := lt_stringEnd hstop
    have hload : buf'.load cp (stop - cp) = buf.load cp (stop - cp) :=
      Mem.load_congr _ _ fun i hi _ => h i hi
    have hat : stringAt buf' cp stop = stringAt buf cp stop := congrArg CString.ofBytes hload
    rw [← hat]
    apply Scanned.string
    · rw [stringEnd_congr size h]
      exact hstop
    · exact ih fun i hi => h i (by omega)

/-- The second string is handled as the mode, and what follows it is left as it was. -/
theorem modeArgument_view (cfg : ServerConfig) (k : Kernel) (hargn : s.argn = 2)
    (hmode : 3 ≤ s.mode)
    (hstop : stringEnd s.buf s.size s.mode = some stop) (options : List (CString × CString)) :
    let h := handleMode cfg k (thOpcode s.buf) (stringAt s.buf 2 (s.mode - 1))
      (stringAt s.buf s.mode stop) (s.view options)
    (∃ o s', modeArgument cfg k stop s = .stop o s' ∧ h = .stop o (s'.view options)) ∨
    ∃ s', modeArgument cfg k stop s = .go s' ∧ h = .go (s'.view options) ∧ AtOption s' none ∧
      s'.cp = stop + 1 ∧ s'.size = s.size ∧ ∀ i, stop ≤ i → s'.buf i = s.buf i := by
  obtain ⟨hlt, _⟩ := lt_stringEnd hstop
  have hname : stringAt (s.buf.store s.mode ((s.buf.load s.mode (stop - s.mode)).map tolower)) 2
      (s.mode - 1) = stringAt s.buf 2 (s.mode - 1) := by
    rw [stringAt, stringAt, Mem.load_store_disjoint _ _ (.inl (by omega))]
  have hframe (i : Nat) (hi : stop ≤ i) :
      s.buf.store s.mode ((s.buf.load s.mode (stop - s.mode)).map tolower) i = s.buf i := by
    apply Mem.store_above
    rw [List.length_map, Mem.length_load]
    omega
  simp only [modeArgument, handleMode, hname, stringAt_bytes hstop]
  cases selectFormat ((s.buf.load s.mode (stop - s.mode)).map tolower) with
  | none => exact .inl ⟨_, _, rfl, rfl⟩
  | some convert =>
    cases cfg.rewriteAccess (stringAt s.buf 2 (s.mode - 1)) (thOpcode s.buf) with
    | error msg => exact .inl ⟨_, _, rfl, rfl⟩
    | ok filename =>
      simp only [Request.view]
      cases (validateAccess cfg.access k (thOpcode s.buf) convert filename s.fs).result with
      | denied ecode msg => exact .inl ⟨_, _, rfl, rfl⟩
      | exits => exact .inl ⟨_, _, rfl, rfl⟩
      | granted tsize tsizeOk =>
        refine .inr ⟨_, rfl, rfl, ⟨?_, ?_, fun _ => rfl, ?_⟩, rfl, rfl, hframe⟩
        · exact Nat.le_of_eq hargn.symm
        · dsimp only
          rw [hargn]
          rfl
        · intro opt hopt
          cases hopt

def startView (cfg : ServerConfig) (fs : FileSystem) : View :=
  ⟨none, fs, cfg.negotiated, .start, [], []⟩

/-- The loop from the mode on, when the name has been read. -/
theorem Scanned.mode (h : Scanned s.buf s.size s.cp ss cut) (hargn : s.argn = 1)
    (hmode : s.mode = s.cp) (hcp : 3 ≤ s.cp) (hn : s.size - s.cp ≤ n) :
    viewNext (tracedLoop cfg k n s []) =
      (handleStrings cfg k (thOpcode s.buf) (stringAt s.buf 2 (s.mode - 1) :: ss)
        (s.view [])).andThen (finish cut) := by
  cases h with
  | done hd =>
    rw [tracedLoop_done hd]
    rfl
  | unterminated hc hs =>
    obtain ⟨n, rfl⟩ : ∃ n', n = n' + 1 := ⟨n - 1, by omega⟩
    exact tracedLoop_unterminated hc hs n []
  | @string _ stop ss _ hstop hs =>
    obtain ⟨hlt, _⟩ := lt_stringEnd hstop
    obtain ⟨n, rfl⟩ : ∃ n', n = n' + 1 := ⟨n - 1, by omega⟩
    have hview := modeArgument_view cfg k (s := { s with argn := s.argn + 1 })
      (congrArg (· + 1) hargn) (hmode ▸ hcp) (hmode ▸ hstop) []
    have harg : argument cfg k stop { s with argn := s.argn + 1 } =
        modeArgument cfg k stop { s with argn := s.argn + 1 } := by
      rw [argument, hargn]
      rfl
    have hopt : optArguments stop { s with argn := s.argn + 1 } = [] := by
      rw [optArguments, hargn]
      rfl
    have hstr : stringAt s.buf s.cp stop = stringAt s.buf s.mode stop := by rw [hmode]
    rw [tracedLoop_string hstop, hstr, handleStrings]
    dsimp only
    rw [harg, hopt]
    rcases hview with ⟨o, s', hm, hh⟩ | ⟨s', hm, hh, ha, hcp', hsz, hbuf⟩
    · have hh' : handleMode cfg k (thOpcode s.buf) (stringAt s.buf 2 (s.mode - 1))
          (stringAt s.buf s.mode stop) (s.view []) = .stop o (s'.view []) := hh
      rw [hm, hh']
      rfl
    · have hh' : handleMode cfg k (thOpcode s.buf) (stringAt s.buf 2 (s.mode - 1))
          (stringAt s.buf s.mode stop) (s.view []) = .go (s'.view []) := hh
      rw [hm, hh']
      have hscan : Scanned s'.buf s'.size s'.cp ss cut := by
        rw [hcp', hsz]
        exact hs.congr fun i hi => hbuf i (Nat.le_of_succ_le hi)
      refine hscan.options ha ?_ []
      rw [hcp', hsz]
      change s.size - (stop + 1) ≤ n
      omega

/-- `tftp()` handles the strings that its loop finds. -/
theorem handleRequest_strings (cfg : ServerConfig) (k : Kernel) (fs : FileSystem)
    (h : Scanned buf size 2 ss cut) :
    handleRequest cfg k buf size fs =
      ((handleStrings cfg k (thOpcode buf) ss (startView cfg fs)).andThen
        (finish cut)).conclude := by
  rw [handleRequest_eq]
  congr 1
  cases h with
  | done hd =>
    rw [tracedLoop_done hd]
    rfl
  | unterminated hc hs =>
    obtain ⟨n, hn⟩ : ∃ n, size = n + 1 := ⟨size - 1, by omega⟩
    nth_rewrite 1 [hn]
    exact tracedLoop_unterminated hc hs n []
  | @string _ stop ss _ hstop hs =>
    obtain ⟨hlt, hsize⟩ := lt_stringEnd hstop
    obtain ⟨n, hn⟩ : ∃ n, size = n + 1 := ⟨size - 1, by omega⟩
    have hloop : tracedLoop cfg k size (requestStart cfg buf size fs) [] =
        tracedLoop cfg k n
          { requestStart cfg buf size fs with argn := 1, mode := stop + 1, cp := stop + 1 } [] := by
      nth_rewrite 1 [hn]
      exact tracedLoop_string hstop n []
    rw [hloop]
    apply hs.mode rfl rfl
    · exact Nat.le_succ_of_le hlt
    · change size - (stop + 1) ≤ n
      omega

end WooTftpd
