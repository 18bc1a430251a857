import ClantoDesk.LittleEndian
import Mathlib.Data.List.Basic
import Mathlib.Tactic.Common

/-!
Files that other programs replace and write to while handles are open on them. A name leads to
an inode, and an inode keeps the contents it had, so that a handle can say since when it is
open. A handle reads through a buffer, which may hold bytes that were written over since they
were read. Every byte read is one the file had at that position since the handle was opened.
Nothing in this module refers to a particular program.
-/
namespace ClantoDesk.BufferedFile

open LittleEndian

/-- A file: the contents it had before, oldest first, and what it holds now. -/
structure Inode where
  earlier : List Bytes
  content : Bytes
  mtime : ℤ

def Inode.version (i : Inode) (v : ℕ) : Option Bytes := (i.earlier ++ [i.content])[v]?

def Inode.write (i : Inode) (content : Bytes) (mtime : ℤ) : Inode :=
  ⟨i.earlier ++ [i.content], content, mtime⟩

structure World (Name : Type*) where
  inodes : List Inode
  names : List (Name × ℕ)

variable {Name : Type*} [DecidableEq Name]

def World.lookup (w : World Name) (name : Name) : Option (ℕ × Inode) :=
  match w.names.find? fun e => decide (e.1 = name) with
  | none => none
  | some e => (w.inodes[e.2]?).map fun inode => (e.2, inode)

def World.replace (w : World Name) (name : Name) (content : Bytes) (mtime : ℤ) : World Name :=
  ⟨w.inodes ++ [⟨[], content, mtime⟩], (name, w.inodes.length) :: w.names⟩

def World.remove (w : World Name) (name : Name) : World Name :=
  { w with names := w.names.filter fun e => decide (e.1 ≠ name) }

def World.write (w : World Name) (inode : ℕ) (content : Bytes) (mtime : ℤ) : World Name :=
  { w with inodes := w.inodes.modify inode fun i => i.write content mtime }

/-- An open file: its inode and the version it had, the bytes read ahead, and the position. -/
structure Handle where
  inode : ℕ
  opened : ℕ
  buffer : Bytes
  pos : ℕ

def openHandle (capacity inode : ℕ) (i : Inode) : Handle :=
  ⟨inode, i.earlier.length, i.content.take capacity, 0⟩

def Handle.seek (h : Handle) (pos : ℕ) : Handle := { h with buffer := [], pos := pos }

/-- `BufReader::read_exact`: the buffer first; then a long rest is read directly, and a short
one through the buffer. -/
def Handle.readExact (capacity : ℕ) (i : Inode) (h : Handle) (n : ℕ) : Option (Bytes × Handle) :=
  if n ≤ h.buffer.length then
    some (h.buffer.take n, { h with buffer := h.buffer.drop n, pos := h.pos + n })
  else
    let rest := n - h.buffer.length
    let ahead := i.content.drop (h.pos + h.buffer.length)
    if ahead.length < rest then none
    else some (h.buffer ++ ahead.take rest,
      { h with
        buffer := if capacity ≤ rest then [] else (ahead.take capacity).drop rest
        pos := h.pos + n })

/-! ### Bytes of some version since the opening -/

/-- `b` is what the file had at `pos` in some version from `v` on. -/
def Inode.Had (i : Inode) (v pos : ℕ) (b : UInt8) : Prop :=
  ∃ u content, v ≤ u ∧ i.version u = some content ∧ content[pos]? = some b

/-- The data is, byte by byte, what the file had from `pos` on. -/
def Inode.HadAll (i : Inode) (v pos : ℕ) (data : Bytes) : Prop :=
  ∀ j b, data[j]? = some b → i.Had v (pos + j) b

theorem version_current (i : Inode) : i.version i.earlier.length = some i.content := by
  simp [Inode.version]

theorem version_write (i : Inode) (content : Bytes) (mtime : ℤ) (u : ℕ) (c : Bytes)
    (h : i.version u = some c) : (i.write content mtime).version u = some c := by
  have hlt : u < (i.earlier ++ [i.content]).length := (List.getElem?_eq_some_iff.mp h).1
  rw [Inode.version, Inode.write, List.getElem?_append_left hlt]
  exact h

theorem Inode.HadAll.write {i : Inode} {v pos : ℕ} {data : Bytes} (h : i.HadAll v pos data)
    (content : Bytes) (mtime : ℤ) : (i.write content mtime).HadAll v pos data := by
  intro j b hj
  obtain ⟨u, c, hu, hversion, hc⟩ := h j b hj
  exact ⟨u, c, hu, version_write i content mtime u c hversion, hc⟩

theorem hadAll_nil (i : Inode) (v pos : ℕ) : i.HadAll v pos [] := by
  intro j b hj
  simp at hj

theorem Inode.HadAll.take {i : Inode} {v pos : ℕ} {data : Bytes} (h : i.HadAll v pos data)
    (n : ℕ) : i.HadAll v pos (data.take n) := by
  intro j b hj
  rw [List.getElem?_take] at hj
  split at hj
  · exact h j b hj
  · cases hj

theorem Inode.HadAll.drop {i : Inode} {v pos : ℕ} {data : Bytes} (h : i.HadAll v pos data)
    (n : ℕ) : i.HadAll v (pos + n) (data.drop n) := by
  intro j b hj
  rw [List.getElem?_drop] at hj
  rw [Nat.add_assoc]
  exact h (n + j) b hj

theorem Inode.HadAll.append {i : Inode} {v pos : ℕ} {a b : Bytes} (ha : i.HadAll v pos a)
    (hb : i.HadAll v (pos + a.length) b) : i.HadAll v pos (a ++ b) := by
  intro j c hj
  rw [List.getElem?_append] at hj
  split at hj
  · exact ha j c hj
  · rename_i hlt
    have hc := hb (j - a.length) c hj
    have hpos : pos + a.length + (j - a.length) = pos + j := by omega
    rwa [hpos] at hc

/-- What is read directly is what the file holds now. -/
theorem hadAll_content (i : Inode) (v pos : ℕ) (hv : v ≤ i.earlier.length) :
    i.HadAll v pos (i.content.drop pos) := by
  intro j b hj
  rw [List.getElem?_drop] at hj
  exact ⟨i.earlier.length, i.content, hv, version_current i, hj⟩

theorem Inode.HadAll.eq_slice {i : Inode} {pos : ℕ} {data : Bytes}
    (h : i.HadAll i.earlier.length pos data) : data = (i.content.drop pos).take data.length := by
  refine List.ext_getElem? fun j => ?_
  rw [List.getElem?_take, List.getElem?_drop]
  by_cases hj : j < data.length
  · rw [if_pos hj]
    obtain ⟨u, c, hu, hversion, hc⟩ := h j data[j] (List.getElem?_eq_getElem hj)
    have hlt := (List.getElem?_eq_some_iff.mp hversion).1
    have heq : u = i.earlier.length := by
      simp only [List.length_append, List.length_singleton] at hlt
      omega
    rw [heq, version_current, Option.some.injEq] at hversion
    rw [List.getElem?_eq_getElem hj, hversion, hc]
  · rw [if_neg hj, List.getElem?_eq_none (by omega)]

/-- The buffer of a handle holds bytes that the file had since the handle was opened. -/
structure Handle.Good (h : Handle) (i : Inode) : Prop where
  opened : h.opened ≤ i.earlier.length
  buffer : i.HadAll h.opened h.pos h.buffer

theorem good_openHandle (capacity inode : ℕ) (i : Inode) : (openHandle capacity inode i).Good i :=
  ⟨le_refl _, (hadAll_content i _ 0 (le_refl _)).take capacity⟩

theorem Handle.Good.seek {h : Handle} {i : Inode} (hgood : h.Good i) (pos : ℕ) :
    (h.seek pos).Good i :=
  ⟨hgood.opened, hadAll_nil i _ _⟩

theorem Handle.Good.write {h : Handle} {i : Inode} (hgood : h.Good i) (content : Bytes)
    (mtime : ℤ) : h.Good (i.write content mtime) := by
  refine ⟨?_, hgood.buffer.write content mtime⟩
  rw [Inode.write, List.length_append]
  exact hgood.opened.trans (Nat.le_add_right _ _)

theorem readExact_good (capacity n : ℕ) (h g : Handle) (i : Inode) (data : Bytes)
    (hgood : h.Good i) (hread : h.readExact capacity i n = some (data, g)) :
    data.length = n ∧ i.HadAll h.opened h.pos data ∧ g.Good i ∧ g.pos = h.pos + n ∧
      g.inode = h.inode ∧ g.opened = h.opened := by
  rw [Handle.readExact] at hread
  split at hread
  · rename_i hlength
    simp only [Option.some.injEq, Prod.mk.injEq] at hread
    obtain ⟨rfl, rfl⟩ := hread
    exact ⟨by simpa using hlength, hgood.buffer.take n, ⟨hgood.opened, hgood.buffer.drop n⟩,
      rfl, rfl, rfl⟩
  · rename_i hlength
    have hahead := hadAll_content i h.opened (h.pos + h.buffer.length) hgood.opened
    dsimp only at hread
    split at hread
    · cases hread
    · rename_i hrest
      simp only [Option.some.injEq, Prod.mk.injEq] at hread
      obtain ⟨rfl, rfl⟩ := hread
      refine ⟨?_, hgood.buffer.append (hahead.take _), ⟨hgood.opened, ?_⟩, rfl, rfl, rfl⟩
      · rw [List.length_append, List.length_take]
        omega
      · have hdrop := (hahead.take capacity).drop (n - h.buffer.length)
        have hpos : h.pos + h.buffer.length + (n - h.buffer.length) = h.pos + n := by omega
        rw [hpos] at hdrop
        dsimp only
        split
        · exact hadAll_nil i _ _
        · exact hdrop

/-! ### Changes of the world -/

def World.Good (w : World Name) (h : Handle) : Prop :=
  ∃ i, w.inodes[h.inode]? = some i ∧ h.Good i

theorem World.Good.replace {w : World Name} {h : Handle} (hgood : w.Good h) (name : Name)
    (content : Bytes) (mtime : ℤ) : (w.replace name content mtime).Good h := by
  obtain ⟨i, hi, hg⟩ := hgood
  refine ⟨i, ?_, hg⟩
  have hlt := (List.getElem?_eq_some_iff.mp hi).1
  rw [World.replace, List.getElem?_append_left hlt]
  exact hi

theorem World.Good.write {w : World Name} {h : Handle} (hgood : w.Good h) (inode : ℕ)
    (content : Bytes) (mtime : ℤ) : (w.write inode content mtime).Good h := by
  obtain ⟨i, hi, hg⟩ := hgood
  by_cases heq : inode = h.inode
  · refine ⟨i.write content mtime, ?_, hg.write content mtime⟩
    rw [World.write, List.getElem?_modify, hi]
    simp [heq]
  · refine ⟨i, ?_, hg⟩
    rw [World.write, List.getElem?_modify, hi]
    simp [heq]

theorem lookup_inodes (w : World Name) (name : Name) (k : ℕ) (i : Inode)
    (h : w.lookup name = some (k, i)) : w.inodes[k]? = some i := by
  rw [World.lookup] at h
  split at h
  · cases h
  · rename_i e _
    obtain ⟨j, hj, heq⟩ := Option.map_eq_some_iff.mp h
    obtain ⟨hk, rfl⟩ := Prod.mk.inj heq
    exact hk ▸ hj

end ClantoDesk.BufferedFile
