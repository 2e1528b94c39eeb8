import WooTftpd.WriteSide

namespace WooTftpd
open Lib
set_option autoImplicit true

/-- The routines of the read side. The server calls `read_ahead` once more on every
retransmission, so the order of the calls is left open. -/
inductive ReadCall where
  | readit
  | readAhead
  deriving DecidableEq

/-- The buffers and the file, with the size and the payload of each call of `readit`. -/
structure Reading where
  subs : Subs
  file : InFile
  returned : List (Int × List UInt8)

def Reading.init (content : List UInt8) (s : Subs) : Reading := ⟨rInit s, .regular content, []⟩

def ReadCall.run (convert : Bool) (segsize : Nat) (r : Reading) : ReadCall → Reading
  | .readit =>
    let q := WooTftpd.readit convert segsize r.subs r.file
    let payload := (q.1.bfs q.1.current).buf.load thData q.2.2.toNat
    ⟨q.1, q.2.1, r.returned ++ [(q.2.2, payload)]⟩
  | .readAhead =>
    let q := WooTftpd.readAhead convert segsize r.subs r.file
    ⟨q.1, q.2, r.returned⟩

def sized (p : List UInt8) : Int × List UInt8 := (p.length, p)

/-- The first `n` chunks of a text, each with its size. -/
def chunks (segsize : Nat) (text : List UInt8) (n : Nat) : List (Int × List UInt8) :=
  (List.range n).map fun i => sized (chunk segsize text i)

theorem chunks_succ (segsize : Nat) (text : List UInt8) (n : Nat) :
    chunks segsize text (n + 1) = chunks segsize text n ++ [sized (chunk segsize text n)] := by
  rw [chunks, List.range_succ, List.map_append]
  rfl

structure InOrder (convert : Bool) (segsize : Nat) (text : List UInt8) (n : Nat)
    (r : Reading) : Prop where
  inv : ReadInv convert segsize text n r.subs r.file
  returned : r.returned = chunks segsize text n
  current : ∀ i, n = i + 1 → (r.subs.bfs r.subs.current).Holds (chunk segsize text i)

theorem InOrder.init (convert : Bool) (segsize : Nat) (content : List UInt8) (s : Subs) :
    InOrder convert segsize (encode convert content) 0 (.init content s) where
  inv := .init convert segsize content s
  returned := rfl
  current := fun i hi => absurd hi (Nat.succ_ne_zero i).symm

theorem InOrder.readit (h : InOrder convert segsize text n r) :
    InOrder convert segsize text (n + 1) (ReadCall.run convert segsize r .readit) := by
  obtain ⟨hinv, hholds, hsize⟩ := h.inv.readit
  refine ⟨hinv, ?_, ?_⟩
  · simp only [ReadCall.run]
    rw [h.returned, chunks_succ, hsize, Int.toNat_natCast, hholds.2]
    rfl
  · intro i hi
    rw [← Nat.succ.inj hi]
    exact hholds

theorem InOrder.readAhead (h : InOrder convert segsize text n r) :
    InOrder convert segsize text n (ReadCall.run convert segsize r .readAhead) := by
  obtain ⟨hinv, hcur, hbuf⟩ := h.inv.readAhead
  refine ⟨hinv, h.returned, ?_⟩
  intro i hi
  simp only [ReadCall.run]
  rw [hcur, hbuf]
  exact h.current i hi

theorem InOrder.run (h : InOrder convert segsize text n r) (calls : List ReadCall) :
    InOrder convert segsize text (n + calls.count .readit)
      (calls.foldl (ReadCall.run convert segsize) r) := by
  induction calls generalizing n r with
  | nil => exact h
  | cons c calls ih =>
    cases c with
    | readit =>
      have hr := ih h.readit
      rw [List.count_cons_self, ← Nat.succ_add_eq_add_succ]
      exact hr
    | readAhead =>
      have hr := ih h.readAhead
      rw [List.count_cons_of_ne (by decide)]
      exact hr

/-- Whatever the order of the calls, the payloads that `readit` has returned are the chunks of the
encoded file in their order, and the last of them stays in the current buffer. -/
theorem readit_returns_chunks (convert : Bool) (segsize : Nat) (content : List UInt8) (s : Subs)
    (calls : List ReadCall) :
    let r := calls.foldl (ReadCall.run convert segsize) (.init content s)
    let text := encode convert content
    r.returned = chunks segsize text (calls.count .readit) ∧
      ∀ i, calls.count .readit = i + 1 →
        (r.subs.bfs r.subs.current).Holds (chunk segsize text i) := by
  have h := (InOrder.init convert segsize content s).run calls
  rw [Nat.zero_add] at h
  exact ⟨h.returned, h.current⟩

/-- The routines of the write side: a packet with a payload is received and passed to `writeit`,
or `write_behind` is called while the next one is awaited. -/
inductive WriteCall where
  | writeit (payload : List UInt8)
  | writeBehind

def WriteCall.payload : WriteCall → List UInt8
  | .writeit p => p
  | .writeBehind => []

def WriteCall.run (convert : Bool) (r : Subs × OutFile) : WriteCall → Subs × OutFile
  | .writeit p =>
    let s := r.1.setBuf r.1.current ((r.1.bfs r.1.current).buf.store thData p)
    let q := WooTftpd.writeit .clean convert p.length s r.2
    (q.1, q.2.1)
  | .writeBehind =>
    let q := WooTftpd.writeBehind .clean convert r.1 r.2
    (q.1, q.2.1)

theorem Faults.clean_below (n : Nat) : Faults.clean.CleanBelow n := fun _ _ => rfl

theorem WriteInv.call (h : WriteInv convert bs s f) (c : WriteCall) :
    WriteInv convert (bs ++ c.payload) (c.run convert (s, f)).1 (c.run convert (s, f)).2 := by
  cases c with
  | writeit p =>
    refine (h.setBuf _).writeit ?_ (Faults.clean_below _)
    simp only [Subs.setBuf, Subs.setBf_current, Subs.setBf_same]
    exact Mem.load_store _ _ _
  | writeBehind =>
    rw [WriteCall.payload, List.append_nil]
    exact (h.writeBehind (Faults.clean_below _)).1

theorem WriteInv.calls (h : WriteInv convert bs r.1 r.2) (calls : List WriteCall) :
    WriteInv convert (bs ++ calls.flatMap WriteCall.payload)
      (calls.foldl (WriteCall.run convert) r).1 (calls.foldl (WriteCall.run convert) r).2 := by
  induction calls generalizing bs r with
  | nil =>
    rw [List.flatMap_nil, List.append_nil]
    exact h
  | cons c calls ih =>
    rw [List.flatMap_cons, ← List.append_assoc]
    exact ih (h.call c)

/-- With a last `write_behind` the stream holds the translation of all payloads, and the file when
it is closed, however the stream was cut into them and whichever call has written each of them. -/
theorem writeit_independent_of_chunks (convert : Bool) (s : Subs) (bufsiz : Nat)
    (calls : List WriteCall) :
    let r := (calls ++ [WriteCall.writeBehind]).foldl (WriteCall.run convert)
      (wInit s, .truncated bufsiz)
    let text := decode convert (calls.flatMap WriteCall.payload)
    r.2.content = text ∧ (r.2.fclose .clean).1.stored = text := by
  have h := (WriteInv.init convert s bufsiz).calls (r := (wInit s, .truncated bufsiz)) calls
  rw [List.nil_append] at h
  intro r text
  have hw := h.flush (Faults.clean_below _)
  simp only [r, List.foldl_append]
  exact ⟨hw.content, hw.fclose (Faults.clean_below _)⟩

end WooTftpd
