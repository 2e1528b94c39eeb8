import WooTftpd.WriteSide

namespace WooTftpd
open Lib
set_option autoImplicit true

theorem netDecode_cons (h : c ≠ CR) (cs : List UInt8) : netDecode (c :: cs) = c :: netDecode cs := by
  cases cs with
  | nil => rfl
  | cons d cs => simp only [netDecode, h, false_and, if_false]

theorem netDecode_netEncode (content : List UInt8) : netDecode (netEncode content) = content := by
  induction content with
  | nil => rfl
  | cons c cs ih =>
    by_cases hl : c = LF
    · simp only [netEncode, if_pos hl, netDecode, and_self, if_true, ih]
      rw [hl]
    by_cases hc : c = CR
    · have hne : ¬ NUL = LF := by decide
      simp only [netEncode, if_neg hl, if_pos hc, netDecode, hne, and_false, if_false, and_self,
        if_true, ih]
      rw [hc]
    · simp only [netEncode, if_neg hl, if_neg hc]
      rw [netDecode_cons hc, ih]

theorem decode_encode (convert : Bool) (content : List UInt8) :
    decode convert (encode convert content) = content := by
  cases convert with
  | false => rfl
  | true => exact netDecode_netEncode content

theorem length_netEncode (content : List UInt8) :
    (netEncode content).length ≤ 2 * content.length := by
  induction content with
  | nil => exact Nat.le_refl _
  | cons c cs ih =>
    simp only [netEncode]
    repeat' split
    all_goals
      simp only [List.length_cons]
      omega

theorem length_encode (convert : Bool) (content : List UInt8) :
    (encode convert content).length ≤ 2 * content.length := by
  cases convert with
  | false => exact Nat.le_mul_of_pos_left _ Nat.two_pos
  | true => exact length_netEncode content

/-- The payloads of successive calls of `readit`, up to the first one that is not full, if
there is one among the first `n`. Whether `read_ahead` is called in between is left open. -/
def readPayloads (convert : Bool) (segsize : Nat) (ahead : Nat → Bool) :
    Nat → Nat → Subs → InFile → Option (List (List UInt8))
  | 0, _, _, _ => none
  | n + 1, i, s, f =>
    let r := readit convert segsize s f
    let p := (r.1.bfs r.1.current).buf.load thData r.2.2.toNat
    if r.2.2 < segsize then some [p]
    else if ahead i then
      let r := readAhead convert segsize r.1 r.2.1
      (readPayloads convert segsize ahead n (i + 1) r.1 r.2).map (p :: ·)
    else (readPayloads convert segsize ahead n (i + 1) r.1 r.2.1).map (p :: ·)

/-- The payloads are received one after the other into the current buffer and passed to
`writeit`. Whether `write_behind` is called in between is left open. -/
def writePayloads (convert : Bool) (behind : Nat → Bool) :
    Nat → List (List UInt8) → Subs → OutFile → Subs × OutFile
  | _, [], s, f => (s, f)
  | i, p :: ps, s, f =>
    let s := s.setBuf s.current ((s.bfs s.current).buf.store thData p)
    let r := writeit .clean convert p.length s f
    if behind i then
      let r := writeBehind .clean convert r.1 r.2.1
      writePayloads convert behind (i + 1) ps r.1 r.2.1
    else writePayloads convert behind (i + 1) ps r.1 r.2.1

theorem chunk_short (h : (chunk n xs i).length < n) : chunk n xs i = xs.drop (i * n) := by
  apply List.take_of_length_le
  rw [chunk, List.length_take] at h
  omega

theorem chunk_append (n : Nat) (xs : List α) (i : Nat) :
    chunk n xs i ++ xs.drop ((i + 1) * n) = xs.drop (i * n) := by
  rw [← drop_chunk]
  exact List.take_append_drop _ _

theorem ReadInv.readPayloads (h : ReadInv convert segsize text i s f) (ahead : Nat → Bool)
    (hn : text.length < (i + n) * segsize) (hi : i * segsize ≤ text.length) :
    ∃ ps, readPayloads convert segsize ahead n i s f = some ps ∧
      ps.flatten = text.drop (i * segsize) := by
  induction n generalizing i s f with
  | zero => exact absurd hn (Nat.not_lt_of_le hi)
  | succ n ih =>
    obtain ⟨hr, hh, hsize⟩ := h.readit
    have hp := hh.2
    rw [← Int.toNat_natCast (chunk segsize text i).length, ← hsize] at hp
    simp only [WooTftpd.readPayloads, hp]
    by_cases hs : (chunk segsize text i).length < segsize
    · rw [if_pos (by omega)]
      refine ⟨_, rfl, ?_⟩
      rw [List.flatten_singleton]
      exact chunk_short hs
    · have hnext : (i + 1) * segsize ≤ text.length := by
        rw [chunk, List.length_take, List.length_drop] at hs
        rw [Nat.succ_mul]
        omega
      have hn' : text.length < (i + 1 + n) * segsize := by rwa [Nat.add_right_comm, Nat.add_assoc]
      rw [if_neg (by omega)]
      have hcons {o : Option (List (List UInt8))}
          (ho : ∃ ps, o = some ps ∧ ps.flatten = text.drop ((i + 1) * segsize)) :
          ∃ ps, o.map (chunk segsize text i :: ·) = some ps ∧
            ps.flatten = text.drop (i * segsize) := by
        obtain ⟨ps, rfl, hflat⟩ := ho
        refine ⟨_, rfl, ?_⟩
        rw [List.flatten_cons, hflat]
        exact chunk_append segsize text i
      split
      · exact hcons (ih hr.readAhead.1 hn' hnext)
      · exact hcons (ih hr hn' hnext)

theorem WriteInv.writePayloads (h : WriteInv convert bs s f) (behind : Nat → Bool) (i : Nat)
    (ps : List (List UInt8)) :
    let r := writePayloads convert behind i ps s f
    WriteInv convert (bs ++ ps.flatten) r.1 r.2 := by
  induction ps generalizing i bs s f with
  | nil =>
    rw [List.flatten_nil, List.append_nil]
    exact h
  | cons p ps ih =>
    have hclean (n : Nat) : Faults.clean.CleanBelow n := fun _ _ => rfl
    have hset := h.setBuf ((s.bfs s.current).buf.store thData p)
    have hp : ((s.setBuf s.current ((s.bfs s.current).buf.store thData p)).bfs
        s.current).buf.load thData p.length = p := by
      rw [Subs.setBuf, Subs.setBf_same]
      exact Mem.load_store _ _ _
    have hw := hset.writeit hp (hclean _)
    rw [List.flatten_cons, ← List.append_assoc]
    simp only [WooTftpd.writePayloads]
    split
    · exact ih (hw.writeBehind (hclean _)).1 (i + 1)
    · exact ih hw (i + 1)

/-- Reading a file payload by payload up to the first short one, and writing these payloads,
gives the file back, in the stream and on the disk when the stream is closed. -/
theorem writePayloads_readPayloads (convert : Bool) (segsize : Nat) (ahead behind : Nat → Bool)
    (rsubs wsubs : Subs) (bufsiz : Nat) (content : List UInt8) (n : Nat) (hs : 0 < segsize)
    (hn : 2 * content.length < n) :
    ∃ ps, readPayloads convert segsize ahead n 0 (rInit rsubs) (.regular content) = some ps ∧
      let r := writePayloads convert behind 0 ps (wInit wsubs) (.truncated bufsiz)
      let f := (writeBehind .clean convert r.1 r.2).2.1
      f.content = content ∧ (f.fclose .clean).1.stored = content := by
  have hlen : (encode convert content).length < (0 + n) * segsize := by
    have he := length_encode convert content
    rw [Nat.zero_add]
    exact Nat.lt_of_lt_of_le (Nat.lt_of_le_of_lt he hn) (Nat.le_mul_of_pos_right n hs)
  have hz : 0 * segsize ≤ (encode convert content).length := by
    rw [Nat.zero_mul]
    exact Nat.zero_le _
  obtain ⟨ps, hps, hflat⟩ := (ReadInv.init convert segsize content rsubs).readPayloads ahead hlen hz
  refine ⟨ps, hps, ?_⟩
  have hw := (WriteInv.init convert wsubs bufsiz).writePayloads behind 0 ps
  rw [List.nil_append, hflat, Nat.zero_mul, List.drop_zero] at hw
  have hwritten := hw.flush fun _ _ => rfl
  have hd := decode_encode convert content
  exact ⟨hwritten.content.trans hd, (hwritten.fclose fun _ _ => rfl).trans hd⟩

/-- The newline of the first file and the carriage return of the second are split over two
payloads, and the second is written through a buffer of two bytes. -/
theorem splitPairs_restored :
    (∃ ps, readPayloads true 8 (fun _ => true) 17 0 (rInit .static)
        (.regular [1, 2, 3, 4, 5, 6, 7, 10]) = some ps ∧
      let r := writePayloads true (fun _ => true) 0 ps (wInit .static) (.truncated 4096)
      let f := (writeBehind .clean true r.1 r.2).2.1
      f.content = [1, 2, 3, 4, 5, 6, 7, 10] ∧
        (f.fclose .clean).1.stored = [1, 2, 3, 4, 5, 6, 7, 10]) ∧
    ∃ ps, readPayloads true 8 (fun _ => false) 17 0 (rInit .static)
        (.regular [1, 2, 3, 4, 5, 6, 7, 13]) = some ps ∧
      let r := writePayloads true (fun _ => false) 0 ps (wInit .static) (.truncated 2)
      let f := (writeBehind .clean true r.1 r.2).2.1
      f.content = [1, 2, 3, 4, 5, 6, 7, 13] ∧
        (f.fclose .clean).1.stored = [1, 2, 3, 4, 5, 6, 7, 13] :=
  ⟨writePayloads_readPayloads _ _ _ _ _ _ _ _ _ (by decide) (by decide),
    writePayloads_readPayloads _ _ _ _ _ _ _ _ _ (by decide) (by decide)⟩

end WooTftpd
