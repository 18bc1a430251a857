import Mathlib.Data.List.Basic
import Mathlib.Data.Nat.Notation

/-!
Packets on a stream of octets. A packet is its length, written with a fixed number of octets, and
its payload. A mark may travel with a packet, on its first octet. A reader takes octets in pieces of
any size, never more than it waits for, first the length and then the payload, and keeps the mark of
the piece in which it came. What is in flight is a number of packets of which the reader has the
front. Nothing in this module refers to a particular program.
-/
namespace ClantoDesk.PacketStream

structure LengthPrefix (B : Type) where
  size : ℕ
  bound : ℕ
  write : ℕ → List B
  read : List B → ℕ
  size_pos : 0 < size
  length_write : ∀ n, (write n).length = size
  read_write : ∀ n, n < bound → read (write n) = n

structure Octet (B F : Type) where
  byte : B
  mark : Option F

structure Packet (B F : Type) where
  payload : List B
  mark : Option F

variable {B F : Type}

def marked (mark : Option F) : List B → List (Octet B F)
  | [] => []
  | b :: bs => ⟨b, mark⟩ :: bs.map fun b => ⟨b, none⟩

theorem map_byte_marked (mark : Option F) (bs : List B) : (marked mark bs).map Octet.byte = bs := by
  cases bs with
  | nil => rfl
  | cons b bs =>
    rw [marked, List.map_cons, List.map_map]
    exact congrArg (List.cons b) (List.map_id bs)

theorem mark_of_mem_drop_marked (mark : Option F) (bs : List B) (k : ℕ) (o : Octet B F)
    (ho : o ∈ (marked mark bs).drop (k + 1)) : o.mark = none := by
  cases bs with
  | nil => simp [marked] at ho
  | cons b bs =>
    rw [marked, List.drop_succ_cons] at ho
    obtain ⟨c, -, rfl⟩ := List.mem_map.mp (List.mem_of_mem_drop ho)
    rfl

variable (pre : LengthPrefix B)

def bytes (p : Packet B F) : List B := pre.write p.payload.length ++ p.payload

def octets (p : Packet B F) : List (Octet B F) := marked p.mark (bytes pre p)

theorem map_byte_octets (p : Packet B F) : (octets pre p).map Octet.byte = bytes pre p :=
  map_byte_marked p.mark (bytes pre p)

theorem length_octets (p : Packet B F) : (octets pre p).length = pre.size + p.payload.length := by
  have hmap := congrArg List.length (map_byte_octets pre p)
  rw [List.length_map, bytes, List.length_append, pre.length_write] at hmap
  exact hmap

theorem octets_ne_nil (p : Packet B F) : octets pre p ≠ [] := by
  have hpos := pre.size_pos
  have hlength := length_octets pre p
  intro h
  rw [h, List.length_nil] at hlength
  omega

/-! ### The reader -/

inductive Reader (B F : Type) where
  | header (buf : List B) (got : Option F)
  | body (len : ℕ) (buf : List B) (got : Option F)

def fresh : Reader B F := .header [] none

def needed : Reader B F → ℕ
  | .header buf _ => pre.size - buf.length
  | .body len buf _ => len - buf.length

inductive Outcome (B F : Type) where
  | more (r : Reader B F)
  | tooLong
  | packet (p : Packet B F)

/-- The reader takes a piece of the stream. A mark that comes with the payload is lost, and so is a
second one. -/
def feed (cap : ℕ) : Reader B F → List (Octet B F) → Outcome B F
  | .header buf got, chunk =>
    let buf' := buf ++ chunk.map Octet.byte
    let got' := got.or (chunk.findSome? Octet.mark)
    if buf'.length < pre.size then .more (.header buf' got')
    else if cap < pre.read buf' then .tooLong
    else if pre.read buf' = 0 then .packet ⟨[], got'⟩
    else .more (.body (pre.read buf') [] got')
  | .body len buf got, chunk =>
    let buf' := buf ++ chunk.map Octet.byte
    if buf'.length < len then .more (.body len buf' got) else .packet ⟨buf', got⟩

/-- The reader has read `k` octets of the packet. -/
def Reading (p : Packet B F) : Reader B F → ℕ → Prop
  | .header buf got, k =>
    k < pre.size ∧ buf = (bytes pre p).take k ∧ got = if k = 0 then none else p.mark
  | .body len buf got, k =>
    len = p.payload.length ∧ k = pre.size + buf.length ∧ buf.length < len ∧
      buf = p.payload.take buf.length ∧ got = p.mark

variable (p : Packet B F) (r : Reader B F) (ps : List (Packet B F))

theorem reading_fresh : Reading pre p fresh 0 :=
  ⟨pre.size_pos, rfl, rfl⟩

theorem needed_le (k : ℕ) (hreading : Reading pre p r k) :
    k + needed pre r ≤ (octets pre p).length := by
  rw [length_octets]
  cases r with
  | header buf got =>
    obtain ⟨hk, hbuf, -⟩ := hreading
    have hlength : buf.length = k := by
      rw [hbuf, List.length_take, bytes, List.length_append, pre.length_write]
      omega
    simp only [needed]
    omega
  | body len buf got =>
    obtain ⟨hlen, hk, hbuf, -⟩ := hreading
    simp only [needed]
    omega

theorem needed_pos (k : ℕ) (hreading : Reading pre p r k) : 0 < needed pre r := by
  cases r with
  | header buf got =>
    obtain ⟨hk, hbuf, -⟩ := hreading
    have hlength : buf.length ≤ k := by
      rw [hbuf, List.length_take]
      exact Nat.min_le_left k _
    simp only [needed]
    omega
  | body len buf got =>
    obtain ⟨-, -, hshort, -⟩ := hreading
    simp only [needed]
    omega

/-- The mark of the first piece is that of the packet, and no other piece has one. -/
theorem findSome_mark (k m : ℕ) (hm : 0 < m) :
    (((octets pre p).drop k).take m).findSome? Octet.mark = if k = 0 then p.mark else none := by
  cases k with
  | zero =>
    rw [if_pos rfl, List.drop_zero]
    cases hoctets : octets pre p with
    | nil => exact absurd hoctets (octets_ne_nil pre p)
    | cons o os =>
      obtain ⟨n, rfl⟩ := Nat.exists_eq_succ_of_ne_zero (Nat.pos_iff_ne_zero.mp hm)
      have hfirst : o.mark = p.mark := by
        unfold octets at hoctets
        cases hbytes : bytes pre p with
        | nil => simp [hbytes, marked] at hoctets
        | cons b bs =>
          rw [hbytes, marked] at hoctets
          rw [← (List.cons.inj hoctets).1]
      rw [List.take_succ_cons, List.findSome?_cons, hfirst]
      cases hmark : p.mark with
      | some f => rfl
      | none =>
        refine List.findSome?_eq_none_iff.mpr fun x hx => ?_
        refine mark_of_mem_drop_marked p.mark (bytes pre p) 0 x ?_
        have hmem := List.mem_of_mem_take hx
        change x ∈ (octets pre p).drop 1
        rwa [hoctets, List.drop_succ_cons, List.drop_zero]
  | succ k =>
    rw [if_neg (Nat.succ_ne_zero k)]
    refine List.findSome?_eq_none_iff.mpr fun x hx => ?_
    exact mark_of_mem_drop_marked p.mark (bytes pre p) k x (List.mem_of_mem_take hx)

def Fed (cap : ℕ) (p : Packet B F) (k : ℕ) : Outcome B F → Prop
  | .more r => Reading pre p r k
  | .tooLong => cap < p.payload.length
  | .packet q => q = p ∧ k = (octets pre p).length

theorem feed_spec (cap : ℕ) (p : Packet B F) (r : Reader B F) (k m : ℕ)
    (hreading : Reading pre p r k) (hlen : p.payload.length < pre.bound) (hm : 0 < m)
    (hneed : m ≤ needed pre r) :
    Fed pre cap p (k + m) (feed pre cap r (((octets pre p).drop k).take m)) := by
  have hbytes : (((octets pre p).drop k).take m).map Octet.byte =
      ((bytes pre p).drop k).take m := by
    rw [List.map_take, List.map_drop, map_byte_octets]
  have hfits := needed_le pre p r k hreading
  cases r with
  | header buf got =>
    obtain ⟨hk, hbuf, hgot⟩ := hreading
    have hsize : (bytes pre p).length = pre.size + p.payload.length := by
      rw [bytes, List.length_append, pre.length_write]
    have hlength : buf.length = k := by
      rw [hbuf, List.length_take, hsize]
      omega
    have hroom : k + m ≤ pre.size := by
      simp only [needed, hlength] at hneed
      omega
    have hbuf' : buf ++ ((bytes pre p).drop k).take m = (bytes pre p).take (k + m) := by
      rw [hbuf, List.take_add]
    have hgot' : got.or (if k = 0 then p.mark else none) = p.mark := by
      rw [hgot]
      by_cases hzero : k = 0
      · rw [if_pos hzero, if_pos hzero, Option.none_or]
      · rw [if_neg hzero, if_neg hzero, Option.or_none]
    have hlength' : ((bytes pre p).take (k + m)).length = k + m := by
      rw [List.length_take, hsize]
      omega
    simp only [feed, hbytes, findSome_mark pre p k m hm, hgot', hbuf', hlength']
    by_cases hmore : k + m < pre.size
    · rw [if_pos hmore]
      have hpos : k + m ≠ 0 := by omega
      exact ⟨hmore, rfl, (if_neg hpos).symm⟩
    · have hfull : k + m = pre.size := by omega
      have hread : pre.read ((bytes pre p).take (k + m)) = p.payload.length := by
        rw [hfull, bytes, List.take_left' (pre.length_write _), pre.read_write _ hlen]
      rw [if_neg hmore, hread]
      split
      · assumption
      · split
        · rename_i hzero
          have hnil : p.payload = [] := List.length_eq_zero_iff.mp hzero
          have hlast := length_octets pre p
          refine ⟨?_, by omega⟩
          rw [← hnil]
        · exact ⟨rfl, hfull, by rw [List.length_nil]; omega, rfl, rfl⟩
  | body len buf got =>
    obtain ⟨rfl, rfl, hshort, hbuf, rfl⟩ := hreading
    have hroom : buf.length + m ≤ p.payload.length := by
      simp only [needed] at hneed
      omega
    have hchunk : ((bytes pre p).drop (pre.size + buf.length)).take m =
        (p.payload.drop buf.length).take m := by
      rw [bytes, ← List.drop_drop, List.drop_left' (pre.length_write _)]
    have hbuf' : buf ++ (p.payload.drop buf.length).take m =
        p.payload.take (buf.length + m) := by
      rw [List.take_add, ← hbuf]
    have hlength' : (p.payload.take (buf.length + m)).length = buf.length + m := by
      rw [List.length_take]
      omega
    simp only [feed, hbytes, hchunk, hbuf', hlength']
    by_cases hmore : buf.length + m < p.payload.length
    · rw [if_pos hmore]
      exact ⟨rfl, by omega, by omega, by rw [hlength'], rfl⟩
    · rw [if_neg hmore]
      have hall : p.payload.take (buf.length + m) = p.payload :=
        List.take_of_length_le (by omega)
      rw [hall]
      have hlast := length_octets pre p
      exact ⟨rfl, by omega⟩

/-! ### Packets in flight -/

def InFlight (r : Reader B F) : List (Packet B F) → List (Octet B F) → Prop
  | [], os => r = fresh ∧ os = []
  | p :: ps, os =>
    ∃ k, Reading pre p r k ∧ os = (octets pre p).drop k ++ ps.flatMap (octets pre)

theorem inFlight_fresh : InFlight pre fresh ps (ps.flatMap (octets pre)) := by
  cases ps with
  | nil => exact ⟨rfl, rfl⟩
  | cons p ps => exact ⟨0, reading_fresh pre p, rfl⟩

theorem inFlight_append (os : List (Octet B F)) (p : Packet B F) (hin : InFlight pre r ps os) :
    InFlight pre r (ps ++ [p]) (os ++ octets pre p) := by
  cases ps with
  | nil =>
    obtain ⟨rfl, rfl⟩ := hin
    exact ⟨0, reading_fresh pre p, by simp⟩
  | cons q ps =>
    obtain ⟨k, hreading, rfl⟩ := hin
    refine ⟨k, hreading, ?_⟩
    change _ = (octets pre q).drop k ++ (ps ++ [p]).flatMap (octets pre)
    rw [List.flatMap_append, List.flatMap_singleton, List.append_assoc]

theorem inFlight_nil (hin : InFlight pre r ps []) : ps = [] := by
  cases ps with
  | nil => rfl
  | cons p ps =>
    obtain ⟨k, hreading, hos⟩ := hin
    have hfits := needed_le pre p r k hreading
    have hdrop := congrArg List.length (List.append_eq_nil_iff.mp hos.symm).1
    rw [List.length_drop, List.length_nil] at hdrop
    cases r with
    | header buf got =>
      obtain ⟨hk, -, -⟩ := hreading
      rw [length_octets] at hdrop
      omega
    | body len buf got =>
      obtain ⟨rfl, rfl, hshort, -⟩ := hreading
      rw [length_octets] at hdrop
      omega

theorem needed_pos_of_inFlight (os : List (Octet B F))
    (hin : InFlight pre r ps os) (hos : os ≠ []) : 0 < needed pre r := by
  cases ps with
  | nil => exact absurd hin.2 hos
  | cons p ps =>
    obtain ⟨k, hreading, -⟩ := hin
    exact needed_pos pre p r k hreading

def Delivers (cap : ℕ) (p : Packet B F) (ps : List (Packet B F)) (os : List (Octet B F)) :
    Outcome B F → Prop
  | .more r => InFlight pre r (p :: ps) os
  | .tooLong => cap < p.payload.length
  | .packet q => q = p ∧ InFlight pre fresh ps os

theorem feed_inFlight (cap : ℕ) (r : Reader B F) (ps : List (Packet B F))
    (chunk rest : List (Octet B F)) (hin : InFlight pre r ps (chunk ++ rest))
    (hlen : ∀ p ∈ ps, p.payload.length < pre.bound) (hsome : chunk ≠ [])
    (hneed : chunk.length ≤ needed pre r) :
    ∃ p qs, ps = p :: qs ∧ Delivers pre cap p qs rest (feed pre cap r chunk) := by
  cases ps with
  | nil => exact absurd (List.append_eq_nil_iff.mp hin.2).1 hsome
  | cons p ps =>
    obtain ⟨k, hreading, hos⟩ := hin
    refine ⟨p, ps, rfl, ?_⟩
    have hfits := needed_le pre p r k hreading
    have hle : chunk.length ≤ ((octets pre p).drop k).length := by
      rw [List.length_drop]
      omega
    have hchunk : chunk = ((octets pre p).drop k).take chunk.length := by
      have htake := congrArg (List.take chunk.length) hos
      rwa [List.take_left, List.take_append_of_le_length hle] at htake
    have hrest : rest = (octets pre p).drop (k + chunk.length) ++ ps.flatMap (octets pre) := by
      have hdrop := congrArg (List.drop chunk.length) hos
      rwa [List.drop_left, List.drop_append_of_le_length hle, List.drop_drop] at hdrop
    have hfed := feed_spec pre cap p r k chunk.length hreading (hlen p List.mem_cons_self)
      (List.length_pos_iff.mpr hsome) hneed
    rw [← hchunk] at hfed
    cases hfeed : feed pre cap r chunk with
    | more r' =>
      rw [hfeed] at hfed
      exact ⟨k + chunk.length, hfed, hrest⟩
    | tooLong =>
      rw [hfeed] at hfed
      exact hfed
    | packet q =>
      rw [hfeed] at hfed
      obtain ⟨rfl, hlast⟩ := hfed
      refine ⟨rfl, ?_⟩
      rw [hrest, hlast, List.drop_length, List.nil_append]
      exact inFlight_fresh pre ps

end ClantoDesk.PacketStream
