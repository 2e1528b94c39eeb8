import WooTftpd.Access
import WooTftpd.Lib.Path

namespace WooTftpd
open Lib
set_option autoImplicit true

structure DirList where
  dirs : List CString
  given : dirs ≠ []
  absolute : ∀ d ∈ dirs, d.bytes.head? = some slash

def DirList.config (l : DirList) (cancreate unixperms : Bool) : AccessConfig :=
  ⟨false, cancreate, unixperms, l.dirs⟩

variable {l : DirList} {d filename : CString} {cancreate unixperms : Bool}

def pathComponents (s : CString) : List (List UInt8) := components slash s.bytes

/-- The name has all components of one of the directories in front. -/
def Confined (l : DirList) (filename : CString) : Prop :=
  ∃ d ∈ l.dirs, pathComponents d <+: pathComponents filename

theorem DirList.slash_mem (l : DirList) (hd : d ∈ l.dirs) : slash ∈ d.bytes :=
  List.mem_of_mem_head? (l.absolute d hd)

theorem nameError_none
    (h : nameError (l.config cancreate unixperms) filename.bytes = none) :
    reversePath filename.bytes = false ∧ ∃ d ∈ l.dirs, d.bytes <+: filename.bytes := by
  obtain ⟨_, hr, hd⟩ := (nameError_eq_none_iff rfl _).1 h
  rcases hd with hd | hd
  · exact absurd hd l.given
  · exact ⟨hr, hd⟩

theorem nameError_extending (hd : d ∈ l.dirs) (hp : d.bytes <+: filename.bytes)
    (hr : reversePath filename.bytes = false) :
    nameError (l.config cancreate unixperms) filename.bytes = none := by
  have habs : filename.bytes.head? = some slash := by
    obtain ⟨t, ht⟩ := hp
    rw [← ht, List.head?_append, l.absolute d hd]
    rfl
  exact (nameError_eq_none_iff rfl _).2 ⟨habs, hr, .inr ⟨d, hd, hp⟩⟩

/-- The spellings of a directory with which the comparison of the texts does what it is meant
to do. -/
def WellSpelled (l : DirList) (d : CString) : Prop :=
  d.bytes.getLast? = some slash ∨ reverse <:+: d.bytes ∨
    ∃ d' ∈ l.dirs, pathComponents d' <+: (pathComponents d).dropLast

theorem confined_of_wellSpelled (hd : d ∈ l.dirs) (hw : WellSpelled l d)
    (hp : d.bytes <+: filename.bytes) (hr : reversePath filename.bytes = false) :
    Confined l filename := by
  obtain ⟨t, ht⟩ := hp
  rcases hw with hlast | hrev | ⟨d', hd', hp'⟩
  · obtain ⟨s, hs⟩ := List.getLast?_eq_some_iff.1 hlast
    refine ⟨d, hd, ?_⟩
    rw [pathComponents, pathComponents, ← ht, hs, List.append_assoc, List.singleton_append,
      components_append_sep, components_append_sep]
    exact List.prefix_append_right_inj _ |>.2 (List.nil_prefix)
  · obtain ⟨pre, post, hrev⟩ := hrev
    by_cases hne : post ++ t = []
    · obtain ⟨_, htnil⟩ := List.append_eq_nil_iff.1 hne
      refine ⟨d, hd, ?_⟩
      rw [htnil, List.append_nil] at ht
      rw [pathComponents, pathComponents, ht]
    · have htrue := (reversePath_iff filename.bytes).2 ⟨pre, post ++ t, by
        rw [← ht, ← hrev, List.append_assoc], hne⟩
      rw [hr] at htrue
      cases htrue
  · refine ⟨d', hd', ?_⟩
    apply hp'.trans
    rw [pathComponents, pathComponents, ← ht]
    exact dropLast_components_prefix slash (l.slash_mem hd) t

theorem length_le_of_mem_pathComponents (h : c ∈ pathComponents d) : c.length ≤ d.length := by
  have hl := length_le_of_mem_componentsFrom slash [] h
  rw [List.length_nil, Nat.zero_add] at hl
  exact hl

def lengthened (s : CString) (n : Nat) : CString where
  bytes := s.bytes ++ List.replicate n 120
  nulFree := by
    intro h
    rcases List.mem_append.1 h with h | h
    · exact s.nulFree h
    · exact absurd (List.eq_of_mem_replicate h) (by decide)

theorem reversePath_append (h : ¬ reverse <:+: d.bytes) (n : Nat) :
    reversePath (lengthened d n).bytes = false := by
  rw [Bool.eq_false_iff]
  intro hr
  obtain ⟨pre, post, heq, _⟩ := (reversePath_iff _).1 hr
  rcases List.append_eq_append_iff.1 heq with ⟨a, ha, hx⟩ | ⟨c, hc, _⟩
  · rcases List.eq_nil_or_concat a with rfl | ⟨a', b, rfl⟩
    · rw [List.append_nil] at ha
      exact h ⟨pre, [], by rw [ha, List.append_nil]⟩
    -- The end of the reverse path would be one of the added letters, but it is a slash.
    · have hb : b = slash := by
        have hlast := congrArg List.getLast? ha
        rw [List.concat_eq_append, ← List.append_assoc, List.getLast?_concat] at hlast
        rw [List.getLast?_append] at hlast
        exact (Option.some.inj hlast).symm
      have hmem : b ∈ List.replicate n (120 : UInt8) := by
        rw [hx]
        simp
      rw [List.eq_of_mem_replicate hmem] at hb
      exact absurd hb (by decide)
  · exact h ⟨pre, c, hc.symm⟩

theorem wellSpelled_of_confined (hd : d ∈ l.dirs)
    (h : ∀ filename : CString, d.bytes <+: filename.bytes → reversePath filename.bytes = false →
      Confined l filename) : WellSpelled l d := by
  by_cases hlast : d.bytes.getLast? = some slash
  · exact .inl hlast
  by_cases hrev : reverse <:+: d.bytes
  · exact .inr (.inl hrev)
  right
  right
  -- More letters than all directories have together: the component that they lengthen is a
  -- component of no directory.
  let n := (l.dirs.map CString.bytes).flatten.length + 1
  have hx : slash ∉ List.replicate n (120 : UInt8) := by
    intro hm
    exact absurd (List.eq_of_mem_replicate hm) (by decide)
  obtain ⟨d', hd', hp⟩ := h (lengthened d n) (List.prefix_append _ _)
    (reversePath_append hrev n)
  obtain ⟨last, hcomp⟩ := components_extend slash (l.slash_mem hd) hlast hx
  have hcomp' : pathComponents (lengthened d n) =
      (pathComponents d).dropLast ++ [last ++ List.replicate n 120] := hcomp
  rw [hcomp'] at hp
  rcases List.prefix_concat_iff.1 hp with heq | hp
  · have hmem : last ++ List.replicate n 120 ∈ pathComponents d' := by
      rw [heq]
      exact List.mem_append_right _ (List.mem_singleton_self _)
    have hlen := length_le_of_mem_pathComponents hmem
    have hsum : d'.length ≤ (l.dirs.map CString.bytes).flatten.length :=
      (List.sublist_flatten_of_mem (List.mem_map_of_mem hd')).length_le
    rw [List.length_append, List.length_replicate] at hlen
    omega
  · exact ⟨d', hd', hp⟩

/-- Every name that gets as far as `open` is confined to the directories, exactly if each of
them is spelled with a slash at its end, or cannot be reached because of a `/../` in it, or
lies below another one. -/
theorem opened_confined_iff (l : DirList) (cancreate unixperms : Bool) :
    (∀ filename : CString, nameError (l.config cancreate unixperms) filename.bytes = none →
      Confined l filename) ↔ ∀ d ∈ l.dirs, WellSpelled l d := by
  constructor
  · intro h d hd
    apply wellSpelled_of_confined hd
    intro filename hp hr
    exact h filename (nameError_extending hd hp hr)
  · intro h filename hn
    obtain ⟨hr, d, hd, hp⟩ := nameError_none hn
    exact confined_of_wellSpelled hd (h d hd) hp hr

def tftpboot : DirList where
  dirs := [⟨[47, 116, 102, 116, 112, 98, 111, 111, 116], by decide⟩]
  given := List.cons_ne_nil _ _
  absolute := by
    intro d hd
    rw [List.mem_singleton.1 hd]
    rfl

def secretFile : CString where
  bytes := [47, 116, 102, 116, 112, 98, 111, 111, 116, 45, 115, 101, 99, 114, 101, 116, 47, 120]
  nulFree := by decide

theorem secretFile_not_confined :
    nameError (tftpboot.config false false) secretFile.bytes = none ∧
      ¬ Confined tftpboot secretFile := by
  refine ⟨by decide, ?_⟩
  rintro ⟨d, hd, hp⟩
  rw [List.mem_singleton.1 hd] at hp
  exact absurd hp (by decide)

end WooTftpd
