import WooTftpd.Lib.Chunks
import WooTftpd.Tftpsubs

namespace WooTftpd
open Lib
set_option autoImplicit true

variable {f : InFile} {s : Subs}

def netEncode : List UInt8 → List UInt8
  | [] => []
  | c :: cs =>
    if c = LF then CR :: LF :: netEncode cs
    else if c = CR then CR :: NUL :: netEncode cs
    else c :: netEncode cs

def encode (convert : Bool) (content : List UInt8) : List UInt8 :=
  if convert then netEncode content else content

/-- The second byte of a newline expansion that a full buffer has interrupted. -/
def expansion (newline : Bool) (prevchar : Option UInt8) : List UInt8 :=
  if newline then [if prevchar = some LF then LF else NUL] else []

def toSend (convert : Bool) (s : Subs) (f : InFile) : List UInt8 :=
  if convert then expansion s.newline s.prevchar ++ netEncode f.rest else f.rest

def InFile.Sound (f : InFile) : Prop := ∀ p, f.err p = false

theorem InFile.Sound.read (h : f.Sound) (n : Nat) :
    ∃ f', f.read n = some (f.rest.take n, f') ∧ f'.rest = f.rest.drop n ∧ f'.Sound := by
  refine ⟨{ f with pos := f.pos + (f.rest.take n).length }, ?_, ?_, h⟩
  · simp only [InFile.read, h f.pos, Bool.false_eq_true, if_false]
  · simp only [InFile.rest, List.length_take, List.length_drop, List.drop_drop]
    by_cases hn : n ≤ f.content.length - f.pos
    · rw [Nat.min_eq_left hn]
    · rw [List.drop_eq_nil_of_le (by omega), List.drop_eq_nil_of_le (by omega)]

theorem InFile.Sound.getc (h : f.Sound) :
    (f.getc = none ∧ f.rest = []) ∨
      ∃ c f', f.getc = some (c, f') ∧ f.rest = c :: f'.rest ∧ f'.Sound := by
  simp only [InFile.getc, h f.pos, Bool.false_eq_true, if_false, InFile.rest]
  by_cases hp : f.pos < f.content.length
  · refine .inr ⟨f.content[f.pos], { f with pos := f.pos + 1 }, ?_, ?_, h⟩
    · simp only [List.getElem?_eq_getElem hp, Option.map_some]
    · exact List.drop_eq_getElem_cons hp
  · have hp' := Nat.le_of_not_lt hp
    refine .inl ⟨?_, List.drop_eq_nil_of_le hp'⟩
    simp only [List.getElem?_eq_none hp', Option.map_none]

/-- The conversion loop splits the encoded text at any byte, also inside an expansion. -/
theorem fillbuf_spec (h : f.Sound) (n : Nat) (newline : Bool) (prevchar : Option UInt8) :
    let r := fillbuf n newline prevchar f
    r.bytes = (expansion newline prevchar ++ netEncode f.rest).take n ∧
      expansion r.newline r.prevchar ++ netEncode r.file.rest =
        (expansion newline prevchar ++ netEncode f.rest).drop n ∧ r.file.Sound := by
  induction n generalizing newline prevchar f with
  | zero => exact ⟨rfl, rfl, h⟩
  | succ n ih =>
    cases newline with
    | true =>
      obtain ⟨hb, hr, hs⟩ := ih h false prevchar
      refine ⟨?_, hr, hs⟩
      simp only [fillbuf, Fill.cons, hb]
      rfl
    | false =>
      rcases h.getc with ⟨hg, hf⟩ | ⟨c, f', hg, hf, hs'⟩
      · simp only [fillbuf, hg, hf]
        exact ⟨rfl, rfl, h⟩
      · simp only [fillbuf, hg]
        by_cases hc : c = LF ∨ c = CR
        · obtain ⟨hb, hr, hs⟩ := ih hs' true (some c)
          have he : expansion false prevchar ++ netEncode f.rest =
              CR :: (expansion true (some c) ++ netEncode f'.rest) := by
            rw [hf]
            rcases hc with hc | hc <;> subst hc <;> rfl
          simp only [if_pos hc, Fill.cons]
          rw [he]
          exact ⟨congrArg _ hb, hr, hs⟩
        · obtain ⟨hb, hr, hs⟩ := ih hs' false prevchar
          have he : expansion false prevchar ++ netEncode f.rest =
              c :: (expansion false prevchar ++ netEncode f'.rest) := by
            rw [not_or] at hc
            simp only [hf, expansion, netEncode, if_neg hc.1, if_neg hc.2, Bool.false_eq_true,
              if_false, List.nil_append]
          simp only [if_neg hc, Fill.cons]
          rw [he]
          exact ⟨congrArg _ hb, hr, hs⟩

def Bf.Holds (b : Bf) (bs : List UInt8) : Prop :=
  b.counter = bs.length ∧ b.buf.load thData bs.length = bs

theorem Bf.Holds.not_free {b : Bf} (h : b.Holds bs) : b.counter ≠ bfFree := by
  have hc := h.1
  simp only [bfFree]
  omega

theorem Bf.holds_store (m : Mem) (bs : List UInt8) :
    Bf.Holds ⟨bs.length, m.store thData bs⟩ bs := ⟨rfl, Mem.load_store m thData bs⟩

theorem readAhead_free (convert : Bool) (segsize : Nat) (hf : f.Sound)
    (h : (s.bfs s.nextone).counter = bfFree) :
    let r := readAhead convert segsize s f
    (r.1.bfs s.nextone).Holds ((toSend convert s f).take segsize) ∧
      toSend convert r.1 r.2 = (toSend convert s f).drop segsize ∧ r.2.Sound ∧
      r.1.bfs (!s.nextone) = s.bfs (!s.nextone) ∧ r.1.current = s.current ∧
      r.1.nextone = !s.nextone := by
  cases convert with
  | true =>
    obtain ⟨hb, hr, hs⟩ := fillbuf_spec hf segsize s.newline s.prevchar
    simp only [readAhead, h, ne_eq, not_true_eq_false, if_false, if_true, toSend,
      Subs.setBf_same, Subs.setBf_not, Subs.setBf_current, Subs.setBf_nextone, hr, hs, and_true]
    rw [← hb]
    exact Bf.holds_store _ _
  | false =>
    obtain ⟨f', hr, hd, hs⟩ := hf.read segsize
    simp only [readAhead, h, ne_eq, not_true_eq_false, if_false, Bool.false_eq_true, toSend, hr,
      Subs.setBf_same, Subs.setBf_not, Subs.setBf_current, Subs.setBf_nextone, hd, hs, and_true]
    exact Bf.holds_store _ _

theorem readAhead_used (h : (s.bfs s.nextone).counter ≠ bfFree) (f : InFile) :
    readAhead convert segsize s f = (s, f) := by
  simp only [readAhead, if_pos h]

theorem readAhead_keeps {subs : Subs} (h : (subs.bfs subs.current).counter ≠ bfFree)
    (convert : Bool) (segsize : Nat) (f : InFile) :
    let r := (readAhead convert segsize subs f).1
    r.current = subs.current ∧ r.bfs subs.current = subs.bfs subs.current := by
  by_cases hfree : (subs.bfs subs.nextone).counter = bfFree
  · have hother : subs.current = !subs.nextone := by
      rw [Bool.eq_not]
      rintro he
      rw [he] at h
      exact h hfree
    have hkeep (b : Bf) : (subs.setBf subs.nextone b).bfs subs.current =
        subs.bfs subs.current := by
      rw [hother]
      exact Subs.setBf_not _ _ _
    simp only [readAhead, hfree, ne_eq, not_true_eq_false, if_false]
    split
    · exact ⟨rfl, hkeep _⟩
    split
    · exact ⟨rfl, hkeep _⟩
    · exact ⟨rfl, hkeep _⟩
  · rw [readAhead_used hfree]
    exact ⟨rfl, rfl⟩

/-- The buffers after `i` payloads of the text `text` were handed out: the current one is in
use, and the other one is either free or already holds the next payload. -/
structure ReadInv (convert : Bool) (segsize : Nat) (text : List UInt8) (i : Nat)
    (s : Subs) (f : InFile) : Prop where
  sound : f.Sound
  used : (s.bfs s.current).counter ≠ bfFree
  ahead :
    (s.nextone = !s.current ∧ (s.bfs (!s.current)).counter = bfFree ∧
      toSend convert s f = text.drop (i * segsize)) ∨
    (s.nextone = s.current ∧ (s.bfs (!s.current)).Holds (chunk segsize text i) ∧
      toSend convert s f = text.drop ((i + 1) * segsize))

theorem ReadInv.init (convert : Bool) (segsize : Nat) (content : List UInt8) (s : Subs) :
    ReadInv convert segsize (encode convert content) 0 (rInit s) (.regular content) where
  sound := fun _ => rfl
  used := by
    change bfAlloc ≠ bfFree
    decide
  ahead := by
    refine .inl ⟨rfl, rfl, ?_⟩
    rw [Nat.zero_mul]
    cases convert <;> rfl

theorem ReadInv.readAhead (h : ReadInv convert segsize text i s f) :
    let r := readAhead convert segsize s f
    ReadInv convert segsize text i r.1 r.2 ∧ r.1.current = s.current ∧
      r.1.bfs s.current = s.bfs s.current := by
  rcases h.ahead with ⟨hn, hfree, ht⟩ | ⟨hn, hh, ht⟩
  · obtain ⟨hb, hd, hs, ho, hc, hn'⟩ :=
      readAhead_free convert segsize h.sound (hn ▸ hfree)
    rw [hn] at hb ho hn'
    rw [Bool.not_not] at ho hn'
    refine ⟨⟨hs, ?_, .inr ⟨?_, ?_, ?_⟩⟩, hc, ho⟩
    · rw [hc, ho]
      exact h.used
    · rw [hn', hc]
    · rw [hc]
      rw [ht] at hb
      exact hb
    · rw [hd, ht, drop_chunk]
  · rw [readAhead_used (hn ▸ h.used)]
    exact ⟨h, rfl, rfl⟩

/-- `readit` hands out the next payload, whichever way its buffer was filled. -/
theorem ReadInv.readit (h : ReadInv convert segsize text i s f) :
    let r := readit convert segsize s f
    ReadInv convert segsize text (i + 1) r.1 r.2.1 ∧
      (r.1.bfs r.1.current).Holds (chunk segsize text i) ∧
      r.2.2 = (chunk segsize text i).length := by
  rcases h.ahead with ⟨hn, hfree, ht⟩ | ⟨hn, hh, ht⟩
  -- The first call after `r_init`, which fills the buffer itself.
  · let s' : Subs := { s.setCounter s.current bfFree with current := !s.current }
    have hfree' : (s'.bfs s'.nextone).counter = bfFree := by
      simpa only [s', Subs.setCounter, Subs.setBf_nextone, hn, Subs.setBf_not] using hfree
    have ht' : toSend convert s' f = text.drop (i * segsize) := ht
    obtain ⟨hb, hd, hs, ho, hc, hn'⟩ :=
      readAhead_free convert segsize h.sound hfree'
    have hnext : s'.nextone = s'.current := hn
    rw [hnext] at hfree' hb ho hn'
    rw [ht'] at hb hd
    simp only [WooTftpd.readit]
    rw [if_pos hfree']
    refine ⟨⟨hs, ?_, .inl ⟨?_, ?_, ?_⟩⟩, ?_, ?_⟩
    · rw [hc]
      exact hb.not_free
    · rw [hn', hc]
    · rw [hc, ho]
      simp only [s', Bool.not_not, Subs.setCounter, Subs.setBf_same]
    · rw [hd, drop_chunk]
    · rw [hc]
      exact hb
    · rw [hc]
      exact hb.1
  -- `read_ahead` has filled the buffer while the ACK was awaited.
  · let s' : Subs := { s.setCounter s.current bfFree with current := !s.current }
    have hb : (s'.bfs s'.current).Holds (chunk segsize text i) := by
      simpa only [s', Subs.setCounter, Subs.setBf_not] using hh
    simp only [WooTftpd.readit]
    rw [if_neg hb.not_free]
    refine ⟨⟨h.sound, hb.not_free, .inl ⟨?_, ?_, ht⟩⟩, hb, hb.1⟩
    · simp only [Subs.setCounter, Subs.setBf_nextone, hn, Bool.not_not]
    · simp only [Bool.not_not, Subs.setCounter, Subs.setBf_same]

theorem ReadInv.setBuf (h : ReadInv convert segsize text i s f) (m : Mem) :
    ReadInv convert segsize text i (s.setBuf s.current m) f where
  sound := h.sound
  used := by
    simpa only [Subs.setBuf, Subs.setBf_current, Subs.setBf_same] using h.used
  ahead := by
    simp only [Subs.setBuf, Subs.setBf_current, Subs.setBf_nextone, Subs.setBf_not]
    exact h.ahead

end WooTftpd
