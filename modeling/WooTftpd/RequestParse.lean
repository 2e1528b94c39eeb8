import WooTftpd.RequestStrings

namespace WooTftpd
open Lib
set_option autoImplicit true

variable {cfg : ServerConfig} {k : Kernel} {buf : Mem} {str : CString} {v : View}

theorem scanString_eq (n : Nat) (hle : cp ≤ stop) (hmax : stop ≤ cp + n)
    (hne : ∀ i, cp ≤ i → i < stop → buf i ≠ 0) (hend : stop = cp + n ∨ buf stop = 0) :
    scanString buf n cp = stop := by
  induction n generalizing cp with
  | zero => exact Nat.le_antisymm hle hmax
  | succ n ih =>
    rw [scanString]
    rcases Nat.eq_or_lt_of_le hle with rfl | hlt
    · rcases hend with hend | hend
      · omega
      · rw [if_neg (not_not.2 hend)]
    · rw [if_pos (hne cp (Nat.le_refl _) hlt)]
      apply ih hlt
      · omega
      · exact fun i hi => hne i (Nat.le_of_succ_le hi)
      · rcases hend with hend | hend
        · exact .inl (by omega)
        · exact .inr hend

theorem stringEnd_eq_some (hlt : cp < stop) (hsize : stop ≤ size)
    (hne : ∀ i, cp ≤ i → i < stop → buf i ≠ 0) (hz : buf stop = 0) :
    stringEnd buf size cp = some stop := by
  have hscan : scanString buf (size - (cp + 1)) (cp + 1) = stop :=
    scanString_eq _ hlt (by omega) (fun i hi => hne i (Nat.le_of_succ_le hi)) (.inr hz)
  have hc : cp < size ∧ buf cp ≠ 0 := ⟨by omega, hne cp (Nat.le_refl _) hlt⟩
  simp only [stringEnd, if_pos hc, hscan, if_pos hz]

theorem load_append (h : buf.load cp n = xs ++ ys) :
    buf.load cp xs.length = xs ∧ buf.load (cp + xs.length) ys.length = ys ∧
      n = xs.length + ys.length := by
  have hn : n = xs.length + ys.length := by
    have hl := congrArg List.length h
    rwa [Mem.length_load, List.length_append] at hl
  rw [hn, Mem.load_add] at h
  obtain ⟨hx, hy⟩ := List.append_inj h (Mem.length_load _ _ _)
  exact ⟨hx, hy, hn⟩

theorem load_cons (h : buf.load cp n = c :: xs) :
    buf cp = c ∧ buf.load (cp + 1) xs.length = xs := by
  have h' : buf.load cp n = [c] ++ xs := h
  obtain ⟨hx, hy, _⟩ := load_append h'
  have hc : [buf cp] = [c] := hx
  exact ⟨(List.cons.inj hc).1, hy⟩

theorem load_nulFree (h : buf.load cp str.bytes.length = str.bytes) (hi : cp ≤ i)
    (hlt : i < cp + str.bytes.length) : buf i ≠ 0 := by
  intro hz
  apply str.nulFree
  rw [← h, ← hz]
  refine List.mem_map.2 ⟨i - cp, List.mem_range.2 (by omega), ?_⟩
  rw [Nat.add_sub_cancel' hi]

theorem stringAt_load (h : buf.load cp str.bytes.length = str.bytes) :
    stringAt buf cp (cp + str.bytes.length) = str := by
  rw [stringAt, Nat.add_sub_cancel_left, h]
  exact CString.ofBytes_bytes str

theorem bytes_length_pos (h : str ≠ .empty) : 0 < str.bytes.length := by
  apply List.length_pos_iff.2
  intro hb
  exact h (CString.ext hb)

/-- A string with its NUL at `cp` is the next one that the loop finds. -/
theorem Scanned.of_string (hne : str ≠ .empty)
    (hl : buf.load cp str.bytes.length = str.bytes) (hz : buf (cp + str.bytes.length) = 0)
    (hsize : cp + str.bytes.length ≤ size)
    (hs : Scanned buf size (cp + str.bytes.length + 1) ss cut) :
    Scanned buf size cp (str :: ss) cut := by
  have hpos := bytes_length_pos hne
  have hend : stringEnd buf size cp = some (cp + str.bytes.length) :=
    stringEnd_eq_some (by omega) hsize (fun i hi hlt => load_nulFree hl hi hlt) hz
  have hcons := Scanned.string hend hs
  rwa [stringAt_load hl] at hcons

/-- The loop finds the strings of an encoding, and then what follows it. -/
theorem Scanned.of_encodeStrings (hne : ∀ s ∈ ss, s ≠ .empty)
    (hl : buf.load cp (size - cp) = encodeStrings ss ++ tail)
    (hs : Scanned buf size (cp + (encodeStrings ss).length) ts cut) :
    Scanned buf size cp (ss ++ ts) cut := by
  induction ss generalizing cp with
  | nil => exact hs
  | cons s ss ih =>
    obtain ⟨hs₀, hss⟩ := List.forall_mem_cons.1 hne
    rw [encodeStrings_cons, List.append_assoc, List.cons_append] at hl
    obtain ⟨hx, hy, hn⟩ := load_append hl
    obtain ⟨hz, hrest⟩ := load_cons hy
    rw [List.length_cons] at hn
    refine Scanned.of_string hs₀ hx hz (by omega) (ih hss ?_ ?_)
    · have hlen : size - (cp + s.bytes.length + 1) = (encodeStrings ss ++ tail).length := by omega
      rw [hlen]
      exact hrest
    · rw [encodeStrings_cons, List.length_append, List.length_cons] at hs
      have hcp : cp + s.bytes.length + 1 + (encodeStrings ss).length =
          cp + (s.bytes.length + ((encodeStrings ss).length + 1)) := by omega
      rw [hcp]
      exact hs

/-- Behind the strings there is nothing, or an empty string. -/
theorem Scanned.of_closed (hne : ∀ s ∈ ss, s ≠ .empty)
    (hl : buf.load cp (size - cp) = encodeStrings ss ++ tail)
    (ht : ∀ c, tail.head? = some c → c = 0) : Scanned buf size cp ss false := by
  have hdone : Scanned buf size (cp + (encodeStrings ss).length) [] false := by
    apply Scanned.done
    rintro ⟨hlt, hc⟩
    obtain ⟨_, hy, hn⟩ := load_append hl
    cases tail with
    | nil =>
      rw [List.length_nil] at hn
      omega
    | cons c tail =>
      apply hc
      rw [← ht c rfl]
      exact (load_cons hy).1
  have hscan := Scanned.of_encodeStrings hne hl hdone
  rwa [List.append_nil] at hscan

/-- What may follow the last pair of a request: nothing, the name of an option without a value,
or an empty string with any bytes behind it. -/
inductive RequestTail where
  | nothing
  | dangling (opt : CString)
  | stopped (junk : List UInt8)

def RequestTail.bytes : RequestTail → List UInt8
  | .nothing => []
  | .dangling opt => encodeStrings [opt]
  | .stopped junk => 0 :: junk

def encodeRequest (opcode : UInt16) (name mode : CString) (opts : List (CString × CString))
    (tail : RequestTail) : List UInt8 :=
  Mem.be16 opcode ++ (encodeStrings (name :: mode :: unpair opts) ++ tail.bytes)

/-- The format whose name is the mode, in upper or lower case. -/
def formatNamed (mode : CString) : Option Bool :=
  if strcaseEq (ascii ['n', 'e', 't', 'a', 's', 'c', 'i', 'i']) mode.bytes then some true
  else if strcaseEq (ascii ['o', 'c', 't', 'e', 't']) mode.bytes then some false
  else none

/-- One call of `do_opt` for each pair, in order, until a request is ended by one. -/
def handlePairs (cfg : OptionConfig) : List (CString × CString) → View → Handled
  | [], v => .go v
  | (opt, val) :: opts, v => (handleOption cfg opt val v).andThen (handlePairs cfg opts)

/-- What a request asks for. -/
def requestMeaning (cfg : ServerConfig) (k : Kernel) (opcode : UInt16) (name mode : CString)
    (opts : List (CString × CString)) (fs : FileSystem) : Outcome × View :=
  let v := startView cfg fs
  match formatNamed mode with
  | none => (.nak EBADOP (some "Unknown mode"), v)
  | some convert =>
    match cfg.rewriteAccess name opcode with
    | .error msg => (.nak EACCESS msg, v)
    | .ok filename =>
      let r := validateAccess cfg.access k opcode convert filename fs
      let v := { v with fs := r.fs, calls := r.calls, convert := some convert }
      match r.result with
      | .denied ecode msg => (.nak ecode msg, v)
      | .exits => (.exits, v)
      | .granted tsize tsizeOk =>
        (handlePairs cfg.options opts { v with
          negotiated := { v.negotiated with tsize := tsize, tsizeOk := tsizeOk } }).conclude

theorem selectFormat_lower (mode : CString) :
    selectFormat (mode.bytes.map tolower) = formatNamed mode := by
  have hn : (ascii ['n', 'e', 't', 'a', 's', 'c', 'i', 'i']).map tolower =
      ascii ['n', 'e', 't', 'a', 's', 'c', 'i', 'i'] := by decide
  have ho : (ascii ['o', 'c', 't', 'e', 't']).map tolower = ascii ['o', 'c', 't', 'e', 't'] := by
    decide
  have hcomm (xs : List UInt8) :
      decide (xs = mode.bytes.map tolower) = true ↔ mode.bytes.map tolower = xs := by
    rw [decide_eq_true_iff, eq_comm]
  simp only [selectFormat, formatNamed, strcaseEq, hn, ho, hcomm]

theorem handleOptions_pairs (cfg : OptionConfig) (opts : List (CString × CString))
    (rest : List CString) (v : View) :
    handleOptions cfg none (unpair opts ++ rest) v =
      (handlePairs cfg opts v).andThen (handleOptions cfg none rest) := by
  induction opts generalizing v with
  | nil => rfl
  | cons p opts ih =>
    change (handleOption cfg p.1 p.2 v).andThen (handleOptions cfg none (unpair opts ++ rest)) =
      ((handleOption cfg p.1 p.2 v).andThen (handlePairs cfg opts)).andThen
        (handleOptions cfg none rest)
    cases handleOption cfg p.1 p.2 v with
    | stop o v' => rfl
    | go v' => exact ih v'

theorem Handled.andThen_go (x : Handled) : x.andThen .go = x := by
  cases x <;> rfl

theorem handleStrings_pairs (cfg : ServerConfig) (k : Kernel) (opcode : UInt16)
    (name mode : CString) (opts : List (CString × CString)) (fs : FileSystem)
    (hr : rest.length ≤ 1) :
    ((handleStrings cfg k opcode (name :: mode :: unpair opts ++ rest) (startView cfg fs)).andThen
      (finish false)).conclude = requestMeaning cfg k opcode name mode opts fs := by
  have hrest : handleOptions cfg.options none rest = .go := by
    funext v
    match rest, hr with
    | [], _ => rfl
    | [_], _ => rfl
  have hopts : handleOptions cfg.options none (unpair opts ++ rest) =
      handlePairs cfg.options opts := by
    funext v
    rw [handleOptions_pairs, hrest, Handled.andThen_go]
  have hfinish : finish false = Handled.go := rfl
  rw [hfinish, Handled.andThen_go]
  simp only [List.cons_append, handleStrings, hopts, handleMode, selectFormat_lower,
    requestMeaning]
  cases formatNamed mode with
  | none => rfl
  | some convert =>
    dsimp only
    cases cfg.rewriteAccess name opcode with
    | error msg => rfl
    | ok filename =>
      dsimp only [startView]
      cases (validateAccess cfg.access k opcode convert filename fs).result with
      | denied ecode msg => rfl
      | exits => rfl
      | granted tsize tsizeOk => rfl

/-- In front of the end of a request the loop finds the strings of the request, and a dangling
name. -/
theorem Scanned.of_tail (hne : ∀ s ∈ ss, s ≠ .empty)
    (htail : ∀ opt, tail = RequestTail.dangling opt → opt ≠ .empty)
    (hl : buf.load cp (size - cp) = encodeStrings ss ++ tail.bytes) :
    ∃ rest : List CString, rest.length ≤ 1 ∧ Scanned buf size cp (ss ++ rest) false := by
  have hend (c : UInt8) (hc : ([] : List UInt8).head? = some c) : c = 0 := nomatch hc
  cases tail with
  | nothing =>
    refine ⟨[], Nat.zero_le 1, ?_⟩
    rw [List.append_nil]
    exact Scanned.of_closed hne hl hend
  | stopped junk =>
    refine ⟨[], Nat.zero_le 1, ?_⟩
    rw [List.append_nil]
    apply Scanned.of_closed hne hl
    rintro c ⟨⟩
    rfl
  | dangling opt =>
    refine ⟨[opt], Nat.le_refl 1, ?_⟩
    refine Scanned.of_closed ?_ ?_ hend
    · intro s hs
      rcases List.mem_append.1 hs with hs | hs
      · exact hne s hs
      · rw [List.mem_singleton.1 hs]
        exact htail opt rfl
    · rw [hl, encodeStrings_append, List.append_nil]
      rfl

theorem mem_unpair (hs : s ∈ unpair opts) : ∃ p ∈ opts, s = p.1 ∨ s = p.2 := by
  obtain ⟨p, hp, h⟩ := List.mem_flatMap.1 hs
  rcases List.mem_cons.1 h with h | h
  · exact ⟨p, hp, .inl h⟩
  · exact ⟨p, hp, .inr (List.mem_singleton.1 h)⟩

/-- `tftp()` finds in an encoded request what was encoded, whatever is behind it in the buffer. -/
theorem handleRequest_encodeRequest (cfg : ServerConfig) (k : Kernel) (fs : FileSystem) (m : Mem)
    (opcode : UInt16) (name mode : CString) (opts : List (CString × CString)) (tail : RequestTail)
    (hname : name ≠ .empty) (hmode : mode ≠ .empty)
    (hopts : ∀ p ∈ opts, p.1 ≠ .empty ∧ p.2 ≠ .empty)
    (htail : ∀ opt, tail = .dangling opt → opt ≠ .empty) :
    let bs := encodeRequest opcode name mode opts tail
    handleRequest cfg k (m.store 0 bs) bs.length fs =
      requestMeaning cfg k opcode name mode opts fs := by
  intro bs
  have hload : (m.store 0 bs).load 2 (bs.length - 2) =
      encodeStrings (name :: mode :: unpair opts) ++ tail.bytes := by
    have hdrop := Mem.load_store_drop m 0 2 bs
    rwa [Nat.zero_add] at hdrop
  have hop : thOpcode (m.store 0 bs) = opcode := Mem.u16_store m 0 opcode _
  have hne : ∀ s ∈ name :: mode :: unpair opts, s ≠ .empty := by
    rw [List.forall_mem_cons, List.forall_mem_cons]
    refine ⟨hname, hmode, ?_⟩
    intro s hs
    obtain ⟨p, hp, rfl | rfl⟩ := mem_unpair hs
    · exact (hopts p hp).1
    · exact (hopts p hp).2
  obtain ⟨rest, hlen, hscan⟩ := Scanned.of_tail hne htail hload
  rw [handleRequest_strings cfg k fs hscan, hop]
  exact handleStrings_pairs cfg k opcode name mode opts fs hlen

def fileName : CString := ⟨[47, 102], by decide⟩

def octetMode : CString := ⟨ascii ['O', 'c', 'T', 'e', 't'], by decide⟩

/-- A read request with one option, a name without a value, and a mode in mixed case. -/
theorem readRequest_parsed :
    let opt : CString × CString := (⟨OptionName.blksize.text, by decide⟩, decimalString 1024)
    let bs := encodeRequest RRQ fileName octetMode [opt] (.dangling fileName)
    formatNamed octetMode = some false ∧
      handleRequest plainServer goodKernel (Mem.zero.store 0 bs) bs.length oneFile =
        requestMeaning plainServer goodKernel RRQ fileName octetMode [opt] oneFile := by
  refine ⟨by decide, handleRequest_encodeRequest _ _ _ _ _ _ _ _ _ (by decide) (by decide) ?_ ?_⟩
  · simp only [List.forall_mem_cons, List.not_mem_nil, false_imp_iff, implies_true, and_true]
    decide +kernel
  · rintro opt ⟨⟩
    decide

end WooTftpd
