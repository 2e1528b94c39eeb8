import WooTftpd.RequestParse

namespace WooTftpd
open Lib
set_option autoImplicit true

variable {cfg : ServerConfig} {k : Kernel} {m m' buf : Mem} {bs : List UInt8} {fs : FileSystem}

/-- The dispatch in `main()`: everything but a request is dropped. -/
def handleDatagram (cfg : ServerConfig) (k : Kernel) (buf : Mem) (n : Nat) (fs : FileSystem) :
    Outcome × View :=
  if thOpcode buf = RRQ ∨ thOpcode buf = WRQ then handleRequest cfg k buf n fs
  else (.exits, startView cfg fs)

def opcodeOf (bs : List UInt8) : UInt16 := thOpcode (Mem.zero.store 0 bs)

def IsRequest (bs : List UInt8) : Prop := 2 ≤ bs.length ∧ (opcodeOf bs = RRQ ∨ opcodeOf bs = WRQ)

/-- The last string is not terminated, and no empty string comes before it. -/
def Cut (bs : List UInt8) : Prop :=
  (∀ s ∈ (splitStrings (bs.drop 2)).1, s ≠ .empty) ∧ (splitStrings (bs.drop 2)).2 ≠ .empty

def UnknownMode (bs : List UInt8) : Prop :=
  ∃ name mode rest, (splitStrings (bs.drop 2)).1 = name :: mode :: rest ∧ formatNamed mode = none

def Holds (m : Mem) (bs : List UInt8) : Prop := m.load 0 bs.length = bs

/-- Whatever else is in the buffer, the datagram is handled in the same way, and a request that
is cut off is refused. -/
def HandledByBytes (bs : List UInt8) : Prop :=
  ∀ cfg k fs m m', Holds m bs → Holds m' bs →
    handleDatagram cfg k m bs.length fs = handleDatagram cfg k m' bs.length fs ∧
      (IsRequest bs ∧ Cut bs →
        ∃ msg, (handleDatagram cfg k m bs.length fs).1 = .nak EBADOP msg)

theorem Holds.split (h : Holds m bs) (hl : 2 ≤ bs.length) :
    m.load 0 2 = bs.take 2 ∧ m.load 2 (bs.length - 2) = bs.drop 2 := by
  have htake : (bs.take 2).length = 2 := by
    rw [List.length_take]
    omega
  rw [Holds, ← List.take_append_drop 2 bs] at h
  obtain ⟨hx, hy, _⟩ := load_append h
  rw [htake] at hx hy
  rw [List.length_drop] at hy
  exact ⟨hx, hy⟩

theorem Holds.store (bs cs : List UInt8) : Holds (Mem.zero.store 0 (bs ++ cs)) bs := by
  rw [Holds, Mem.load_store_take _ _ _ (by rw [List.length_append]; omega), List.take_left]

theorem Holds.opcode (h : Holds m bs) (hl : 2 ≤ bs.length) : thOpcode m = opcodeOf bs := by
  have hz : Holds (Mem.zero.store 0 bs) bs := by
    have hs := Holds.store bs []
    rwa [List.append_nil] at hs
  rw [thOpcode, Mem.u16_eq_iff, (h.split hl).1, ← (hz.split hl).1, ← Mem.u16_eq_iff]
  rfl

theorem handleDatagram_request (h : Holds m bs) (hr : IsRequest bs) :
    handleDatagram cfg k m bs.length fs = handleRequest cfg k m bs.length fs := by
  rw [handleDatagram, h.opcode hr.1, if_pos hr.2]

theorem splitStrings_stop (ss : List CString) (rest : CString)
    (h : ¬ ((∀ s ∈ ss, s ≠ .empty) ∧ rest ≠ .empty)) :
    ∃ ts tail, encodeStrings ss ++ rest.bytes = encodeStrings ts ++ tail ∧
      (∀ s ∈ ts, s ≠ .empty) ∧ ∀ c, tail.head? = some c → c = 0 := by
  induction ss with
  | nil =>
    have hrest : rest = .empty := by
      by_contra hne
      exact h ⟨nofun, hne⟩
    refine ⟨[], [], ?_, nofun, nofun⟩
    rw [hrest]
    rfl
  | cons s ss ih =>
    by_cases hs : s = .empty
    · refine ⟨[], 0 :: (encodeStrings ss ++ rest.bytes), ?_, nofun, ?_⟩
      · rw [hs, encodeStrings_cons]
        rfl
      · rintro c ⟨⟩
        rfl
    · have h' : ¬ ((∀ s ∈ ss, s ≠ .empty) ∧ rest ≠ .empty) := by
        rintro ⟨hss, hr⟩
        exact h ⟨List.forall_mem_cons.2 ⟨hs, hss⟩, hr⟩
      obtain ⟨ts, tail, he, hts, ht⟩ := ih h'
      refine ⟨s :: ts, tail, ?_, List.forall_mem_cons.2 ⟨hs, hts⟩, ht⟩
      rw [encodeStrings_cons, encodeStrings_cons, List.append_assoc, List.append_assoc,
        List.cons_append, List.cons_append, he]

/-- The strings of a datagram that is not cut off do not depend on the rest of the buffer. -/
theorem scanned_of_not_cut (h : ¬ Cut bs) (hl : 2 ≤ bs.length) :
    ∃ ss, ∀ m, Holds m bs → Scanned m bs.length 2 ss false := by
  obtain ⟨ts, tail, he, hts, ht⟩ := splitStrings_stop _ _ h
  rw [encodeStrings_splitStrings] at he
  refine ⟨ts, fun m hm => ?_⟩
  apply Scanned.of_closed hts _ ht
  rw [(hm.split hl).2, he]

theorem Scanned.of_cut (hne : ∀ s ∈ ss, s ≠ .empty) (hr : rest ≠ .empty)
    (hl : buf.load cp (size - cp) = encodeStrings ss ++ rest.bytes) :
    (buf size ≠ 0 ∧ Scanned buf size cp ss true) ∨
      (buf size = 0 ∧ Scanned buf size cp (ss ++ [rest]) false) := by
  obtain ⟨_, hload, hn⟩ := load_append hl
  have hpos := bytes_length_pos hr
  have hsize : size = cp + (encodeStrings ss).length + rest.bytes.length := by omega
  by_cases hz : buf size = 0
  · right
    refine ⟨hz, Scanned.of_encodeStrings hne hl ?_⟩
    apply Scanned.of_string hr hload
    · rw [← hsize]
      exact hz
    · exact Nat.le_of_eq hsize.symm
    · apply Scanned.done
      omega
  · left
    have hnul (i : Nat) (hi : cp + (encodeStrings ss).length ≤ i) (hlt : i < size) : buf i ≠ 0 :=
      load_nulFree hload hi (hsize ▸ hlt)
    have hcut : Scanned buf size (cp + (encodeStrings ss).length) [] true := by
      apply Scanned.unterminated
      · exact ⟨by omega, hnul _ (Nat.le_refl _) (by omega)⟩
      · have hstop : scanString buf (size - (cp + (encodeStrings ss).length + 1))
            (cp + (encodeStrings ss).length + 1) = size := by
          apply scanString_eq _ (by omega) (by omega)
          · intro i hi
            exact hnul i (Nat.le_of_succ_le hi)
          · left
            omega
        rw [hstop]
        exact hz
    have hscan := Scanned.of_encodeStrings hne hl hcut
    rw [List.append_nil] at hscan
    exact ⟨hz, hscan⟩

theorem scanned_of_cut (h : Cut bs) (hl : 2 ≤ bs.length) (hm : Holds m bs) :
    (m bs.length ≠ 0 ∧ Scanned m bs.length 2 (splitStrings (bs.drop 2)).1 true) ∨
      (m bs.length = 0 ∧ Scanned m bs.length 2
        ((splitStrings (bs.drop 2)).1 ++ [(splitStrings (bs.drop 2)).2]) false) := by
  apply Scanned.of_cut h.1 h.2
  rw [(hm.split hl).2, encodeStrings_splitStrings]

theorem handleMode_unknown (h : formatNamed mode = none) (opcode : UInt16) (name : CString)
    (v : View) :
    handleMode cfg k opcode name mode v = .stop (.nak EBADOP (some "Unknown mode")) v := by
  simp only [handleMode, selectFormat_lower, h]

theorem handleRequest_unknownMode (hl : 2 ≤ bs.length) (hc : Cut bs) (hu : UnknownMode bs)
    (hm : Holds m bs) :
    handleRequest cfg k m bs.length fs =
      (.nak EBADOP (some "Unknown mode"), startView cfg fs) := by
  obtain ⟨name, mode, rest, hss, hmode⟩ := hu
  have hscan := scanned_of_cut hc hl hm
  rw [hss] at hscan
  rcases hscan with ⟨_, hscan⟩ | ⟨_, hscan⟩
  · rw [handleRequest_strings cfg k fs hscan]
    simp only [handleStrings, handleMode_unknown hmode]
    rfl
  · rw [handleRequest_strings cfg k fs hscan]
    simp only [List.cons_append, handleStrings, handleMode_unknown hmode]
    rfl

/-- The condition on the bytes of a datagram: there is an opcode, or a first byte that no
request has, and a request is not cut off, or refused for its mode before that matters. -/
def SelfContained (bs : List UInt8) : Prop :=
  (2 ≤ bs.length ∨ ∃ b, bs = [b] ∧ b ≠ 0) ∧ (IsRequest bs → Cut bs → UnknownMode bs)

theorem handledByBytes_of_selfContained (h : SelfContained bs) : HandledByBytes bs := by
  intro cfg k fs m m' hm hm'
  obtain ⟨hl | ⟨b, rfl, hb⟩, hcut⟩ := h
  · by_cases hr : IsRequest bs
    · rw [handleDatagram_request hm hr, handleDatagram_request hm' hr]
      by_cases hc : Cut bs
      · have hu := hcut hr hc
        rw [handleRequest_unknownMode hl hc hu hm, handleRequest_unknownMode hl hc hu hm']
        exact ⟨rfl, fun _ => ⟨_, rfl⟩⟩
      · obtain ⟨ss, hss⟩ := scanned_of_not_cut hc hl
        rw [handleRequest_strings cfg k fs (hss m hm), handleRequest_strings cfg k fs (hss m' hm'),
          hm.opcode hl, hm'.opcode hl]
        exact ⟨rfl, fun h => absurd h.2 hc⟩
    · have hno : ¬ (opcodeOf bs = RRQ ∨ opcodeOf bs = WRQ) := fun h => hr ⟨hl, h⟩
      rw [handleDatagram, handleDatagram, hm.opcode hl, hm'.opcode hl, if_neg hno, if_neg hno]
      exact ⟨rfl, fun h => absurd h.1 hr⟩
  · have hno (m : Mem) (hm : Holds m [b]) : ¬ (thOpcode m = RRQ ∨ thOpcode m = WRQ) := by
      have h0 : m 0 = b := (load_cons hm).1
      have hpos : 0 < b.toNat := Nat.pos_of_ne_zero fun hz => hb (UInt8.toNat_inj.1 hz)
      have h1 := (m (0 + 1)).toNat_lt
      have hlt := b.toNat_lt
      have hval : (thOpcode m).toNat = b.toNat * 256 + (m (0 + 1)).toNat := by
        rw [thOpcode, Mem.u16, h0, UInt16.toNat_ofNat']
        exact Nat.mod_eq_of_lt (by omega)
      rintro (h | h)
      · rw [h] at hval
        change 1 = _ at hval
        omega
      · rw [h] at hval
        change 2 = _ at hval
        omega
    rw [handleDatagram, handleDatagram, if_neg (hno m hm), if_neg (hno m' hm')]
    refine ⟨rfl, fun h => ?_⟩
    have hl := h.1.1
    rw [List.length_singleton] at hl
    omega

/-- A server that grants every request for the one file, and refuses all options. -/
def lenientServer : ServerConfig where
  access := plainServer.access
  options := ⟨maxSegsize, fun _ => true⟩
  rewriteAccess := fun _ _ => .ok fileName
  negotiated := .default

theorem lenient_option (opt val : CString) (v : View) :
    ∃ v', handleOption lenientServer.options opt val v = .go v' := by
  have hsup : supported lenientServer.options opt = none :=
    List.find?_eq_none.2 fun _ _ => Bool.false_ne_true
  have hrec : recognized lenientServer.options opt val = none := by
    rw [recognized, hsup]
  simp only [handleOption, doOpt_ignored hrec]
  exact ⟨_, rfl⟩

theorem lenient_options (pending : Option CString) (ss : List CString) (v : View) :
    ∃ v', handleOptions lenientServer.options pending ss v = .go v' := by
  induction ss generalizing pending v with
  | nil => cases pending <;> exact ⟨v, rfl⟩
  | cons s ss ih =>
    cases pending with
    | none => exact ih (some s) v
    | some opt =>
      obtain ⟨v₁, hv⟩ := lenient_option opt s v
      obtain ⟨v', hv'⟩ := ih none v₁
      exact ⟨v', by rw [handleOptions, hv]; exact hv'⟩

theorem lenient_mode (hop : opcode = RRQ ∨ opcode = WRQ) (hm : formatNamed mode = some convert)
    (name : CString) :
    ∃ v, handleMode lenientServer goodKernel opcode name mode (startView lenientServer oneFile) =
      .go v := by
  simp only [handleMode, selectFormat_lower, hm]
  rcases hop with rfl | rfl
  · exact ⟨_, rfl⟩
  · exact ⟨_, rfl⟩

theorem lenient_strings (hop : opcode = RRQ ∨ opcode = WRQ) (ss : List CString) :
    (∃ v, handleStrings lenientServer goodKernel opcode ss (startView lenientServer oneFile) =
      .go v) ∨
    ((∃ name mode rest, ss = name :: mode :: rest ∧ formatNamed mode = none) ∧
      handleStrings lenientServer goodKernel opcode ss (startView lenientServer oneFile) =
        .stop (.nak EBADOP (some "Unknown mode")) (startView lenientServer oneFile)) := by
  match ss with
  | [] => exact .inl ⟨_, rfl⟩
  | [_] => exact .inl ⟨_, rfl⟩
  | name :: mode :: rest =>
    cases hm : formatNamed mode with
    | none =>
      refine .inr ⟨⟨_, _, _, rfl, hm⟩, ?_⟩
      simp only [handleStrings, handleMode_unknown hm]
      rfl
    | some convert =>
      obtain ⟨v, hv⟩ := lenient_mode hop hm name
      obtain ⟨v', hv'⟩ := lenient_options none rest v
      exact .inl ⟨v', by rw [handleStrings, hv]; exact hv'⟩

theorem conclude_terminated (v : View) :
    ((Handled.go v).andThen (finish false)).conclude.1 ≠
      .nak EBADOP (some "Request not null-terminated") := by
  have hne : Outcome.nak EBADOP (some "Missing mode") ≠
      .nak EBADOP (some "Request not null-terminated") := by decide
  simp only [Handled.andThen, finish, Bool.false_eq_true, if_false, Handled.conclude]
  split
  · exact hne
  · intro h
    cases h

/-- A request that is cut off is refused for it, or not, depending on the byte behind it. -/
theorem cut_depends (hr : IsRequest bs) (hc : Cut bs) (hu : ¬ UnknownMode bs) :
    ¬ HandledByBytes bs := by
  intro h
  obtain ⟨hl, hop⟩ := hr
  have hbyte (c : UInt8) : Mem.zero.store 0 (bs ++ [c]) bs.length = c := by
    have hin := Mem.store_inside (a := 0) (k := bs.length) Mem.zero (bs ++ [c])
      (by rw [List.length_append]; exact Nat.lt_succ_self _)
    rw [Nat.zero_add, List.getElem_concat_length rfl] at hin
    exact hin
  have hne : (1 : UInt8) ≠ 0 := by decide
  have hm := Holds.store bs [1]
  have hm' := Holds.store bs [0]
  obtain ⟨heq, _⟩ := h lenientServer goodKernel oneFile _ _ hm hm'
  rw [handleDatagram_request hm ⟨hl, hop⟩, handleDatagram_request hm' ⟨hl, hop⟩] at heq
  rcases scanned_of_cut hc hl hm with ⟨_, hs⟩ | ⟨hz, _⟩
  · rcases scanned_of_cut hc hl hm' with ⟨hz', _⟩ | ⟨_, hs'⟩
    · exact hz' (hbyte 0)
    · rw [handleRequest_strings _ _ _ hs, handleRequest_strings _ _ _ hs', hm.opcode hl,
        hm'.opcode hl] at heq
      have hfirst := congrArg Prod.fst heq
      rcases lenient_strings hop (splitStrings (bs.drop 2)).1 with ⟨v, hv⟩ | ⟨hun, _⟩
      · rw [hv] at hfirst
        rcases lenient_strings hop ((splitStrings (bs.drop 2)).1 ++ [(splitStrings (bs.drop 2)).2])
          with ⟨v', hv'⟩ | ⟨_, hv'⟩
        · rw [hv'] at hfirst
          exact conclude_terminated v' hfirst.symm
        · rw [hv'] at hfirst
          have hmsg : Outcome.nak EBADOP (some "Request not null-terminated") =
              .nak EBADOP (some "Unknown mode") := hfirst
          exact absurd hmsg (by decide)
      · exact hu hun
  · exact hne ((hbyte 1).symm.trans hz)

/-- A datagram without an opcode of its own has that of an earlier one. -/
theorem opcode_depends (h : bs = [] ∨ bs = [0]) : ¬ HandledByBytes bs := by
  intro hb
  rcases h with rfl | rfl
  · obtain ⟨heq, _⟩ := hb lenientServer goodKernel oneFile (Mem.zero.store 0 (Mem.be16 RRQ)) .zero
      rfl rfl
    exact absurd (congrArg Prod.fst heq) (by decide +kernel)
  · obtain ⟨heq, _⟩ := hb lenientServer goodKernel oneFile (Mem.zero.store 0 (Mem.be16 RRQ)) .zero
      rfl rfl
    exact absurd (congrArg Prod.fst heq) (by decide +kernel)

/-- A datagram is handled by its own bytes alone, exactly if they hold the opcode (or a first
byte that no request has) and, in a request with a mode that is known or missing, the end of
every string. -/
theorem handledByBytes_iff (bs : List UInt8) : HandledByBytes bs ↔ SelfContained bs := by
  constructor
  · intro h
    constructor
    · match bs, h with
      | [], h => exact absurd h (opcode_depends (.inl rfl))
      | [b], h =>
        refine .inr ⟨b, rfl, ?_⟩
        rintro rfl
        exact opcode_depends (.inr rfl) h
      | _ :: _ :: bs, _ => exact .inl (Nat.le_add_left _ _)
    · intro hr hc
      by_contra hu
      exact cut_depends hr hc hu h
  · exact handledByBytes_of_selfContained

/-- A request for the file `/f` in mode `octet` whose last NUL is missing: it is refused if the
byte behind it is not 0, and served if it is. -/
theorem unterminated_served :
    let bs := (encodeRequest RRQ fileName octetMode [] .nothing).dropLast
    Holds (Mem.zero.store 0 (bs ++ [1])) bs ∧ Holds (Mem.zero.store 0 (bs ++ [0])) bs ∧
      (handleDatagram plainServer goodKernel (Mem.zero.store 0 (bs ++ [1])) bs.length oneFile).1 =
        .nak EBADOP (some "Request not null-terminated") ∧
      (handleDatagram plainServer goodKernel (Mem.zero.store 0 (bs ++ [0])) bs.length oneFile).1 =
        .serve false none ∧ ¬ HandledByBytes bs := by
  intro bs
  have hrefused : (handleDatagram plainServer goodKernel (Mem.zero.store 0 (bs ++ [1])) bs.length
      oneFile).1 = .nak EBADOP (some "Request not null-terminated") := by decide +kernel
  have hserved : (handleDatagram plainServer goodKernel (Mem.zero.store 0 (bs ++ [0])) bs.length
      oneFile).1 = .serve false none := by decide +kernel
  refine ⟨Holds.store bs [1], Holds.store bs [0], hrefused, hserved, ?_⟩
  intro h
  obtain ⟨heq, _⟩ := h plainServer goodKernel oneFile _ _ (Holds.store bs [1]) (Holds.store bs [0])
  rw [heq, hserved] at hrefused
  cases hrefused

end WooTftpd
