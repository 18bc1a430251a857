import ClantoDesk.LittleEndian
import ClantoDesk.Utf8

/-!
The chunks of a terminal's output, `Utf8ChunkAccumulator` of src/server/terminal_service.rs: a
character that a read cuts is held back until the rest of it is read. The place of the cut is
found by looking at three bytes; for the beginning of a text it is the end of the last whole
character.
-/
namespace ClantoDesk.TerminalChunks

open LittleEndian Utf8

def seqLen (b : UInt8) : Option ℕ :=
  if b &&& 0xE0 = 0xC0 then some 2
  else if b &&& 0xF0 = 0xE0 then some 3
  else if b &&& 0xF8 = 0xF0 then some 4
  else none

/-- The loop over the last bytes, the last first; `back` bytes were looked at before. -/
def scan (len : ℕ) : Bytes → ℕ → ℕ
  | [], _ => len
  | b :: rest, back =>
    if b &&& 0x80 = 0 then len
    else if b &&& 0xC0 = 0x80 then scan len rest (back + 1)
    else
      match seqLen b with
      | some n => if n ≤ back + 1 then len else len - (back + 1)
      | none => len

def findUtf8SplitPoint (buf : Bytes) : ℕ := scan buf.length (buf.reverse.take 3) 0

structure Utf8ChunkAccumulator where
  remainder : Bytes

namespace Utf8ChunkAccumulator

/-- The read is emitted whole if its text is broken before the cut, unless bytes were held back. -/
def pushChunk (self : Utf8ChunkAccumulator) (data : Bytes) :
    Option Bytes × Utf8ChunkAccumulator :=
  if data = [] then (none, self)
  else
    let hadRemainder := !self.remainder.isEmpty
    let data := self.remainder ++ data
    let split := findUtf8SplitPoint data
    if split = data.length then (some data, ⟨[]⟩)
    else if !hadRemainder ∧ 0 < split ∧ !(data.take split).toByteArray.validateUTF8 then
      (some data, ⟨[]⟩)
    else if data.take split = [] then (none, ⟨data.drop split⟩)
    else (some (data.take split), ⟨data.drop split⟩)

def finish (self : Utf8ChunkAccumulator) : Option Bytes × Utf8ChunkAccumulator :=
  if self.remainder = [] then (none, self) else (some self.remainder, ⟨[]⟩)

/-- The chunks of some reads, and what is held back after them. -/
def pushAll (self : Utf8ChunkAccumulator) : List Bytes → List Bytes × Utf8ChunkAccumulator
  | [] => ([], self)
  | data :: rest =>
    let pushed := self.pushChunk data
    let later := pushed.2.pushAll rest
    (pushed.1.toList ++ later.1, later.2)

end Utf8ChunkAccumulator

open Utf8ChunkAccumulator

/-- Everything that is emitted for a stream that was read in pieces. -/
def emitted (reads : List Bytes) : List Bytes :=
  let run := pushAll ⟨[]⟩ reads
  run.1 ++ run.2.finish.1.toList

theorem masks (b : UInt8) :
    (b.toNat < 128 → b &&& 0x80 = 0) ∧ (128 ≤ b.toNat → b &&& 0x80 ≠ 0) ∧
      (128 ≤ b.toNat ∧ b.toNat < 192 → b &&& 0xC0 = 0x80) ∧
      (192 ≤ b.toNat → b &&& 0xC0 ≠ 0x80) ∧
      (192 ≤ b.toNat ∧ b.toNat < 224 → seqLen b = some 2) ∧
      (224 ≤ b.toNat ∧ b.toNat < 240 → seqLen b = some 3) ∧
      (240 ≤ b.toNat ∧ b.toNat < 248 → seqLen b = some 4) := by
  have hall : ∀ n : Fin 256,
      (n.val < 128 → UInt8.ofNat n.val &&& 0x80 = 0) ∧
      (128 ≤ n.val → UInt8.ofNat n.val &&& 0x80 ≠ 0) ∧
      (128 ≤ n.val ∧ n.val < 192 → UInt8.ofNat n.val &&& 0xC0 = 0x80) ∧
      (192 ≤ n.val → UInt8.ofNat n.val &&& 0xC0 ≠ 0x80) ∧
      (192 ≤ n.val ∧ n.val < 224 → seqLen (UInt8.ofNat n.val) = some 2) ∧
      (224 ≤ n.val ∧ n.val < 240 → seqLen (UInt8.ofNat n.val) = some 3) ∧
      (240 ≤ n.val ∧ n.val < 248 → seqLen (UInt8.ofNat n.val) = some 4) := by
    decide +kernel
  have hb := hall ⟨b.toNat, b.toNat_lt⟩
  rwa [UInt8.ofNat_toNat] at hb

theorem scan_continues (len : ℕ) (conts rest : Bytes) (back : ℕ) (h : ∀ b ∈ conts, Continues b) :
    scan len (conts ++ rest) back = scan len rest (back + conts.length) := by
  induction conts generalizing back with
  | nil => rfl
  | cons b conts ih =>
    obtain ⟨hb, hrest⟩ := List.forall_mem_cons.mp h
    obtain ⟨-, hnot, hcont, -⟩ := masks b
    rw [List.cons_append, scan, if_neg (hnot hb.1), if_pos (hcont hb), ih _ hrest,
      List.length_cons, Nat.add_assoc, Nat.add_comm 1]

/-- At a first byte the scan ends: at the end if its character is whole, else before it. -/
theorem scan_leads (len : ℕ) (lead : UInt8) (rest : Bytes) (n back : ℕ) (h : Leads lead n) :
    scan len (lead :: rest) back = if n ≤ back then len else len - (back + 1) := by
  obtain ⟨hascii, hnot, -, hnocont, h2, h3, h4⟩ := masks lead
  rcases h with ⟨rfl, hlead⟩ | ⟨rfl, hlead⟩ | ⟨rfl, hlead⟩ | ⟨rfl, hlead⟩
  · rw [scan, if_pos (hascii hlead), if_pos (Nat.zero_le _)]
  · rw [scan, if_neg (hnot (by omega)), if_neg (hnocont (by omega)), h2 hlead]
    simp only [Nat.add_le_add_iff_right, show 2 = 1 + 1 from rfl]
  · rw [scan, if_neg (hnot (by omega)), if_neg (hnocont (by omega)), h3 hlead]
    simp only [Nat.add_le_add_iff_right, show 3 = 2 + 1 from rfl]
  · rw [scan, if_neg (hnot (by omega)), if_neg (hnocont (by omega)), h4 hlead]
    simp only [Nat.add_le_add_iff_right, show 4 = 3 + 1 from rfl]

theorem find_of_leads (front conts : Bytes) (lead : UInt8) (n : ℕ) (hlead : Leads lead n)
    (hconts : ∀ b ∈ conts, Continues b) (hlen : conts.length ≤ n) :
    findUtf8SplitPoint (front ++ lead :: conts) =
      if conts.length = n then (front ++ lead :: conts).length else front.length := by
  have hreverse : ∀ b ∈ conts.reverse, Continues b :=
    fun b hb => hconts b (List.mem_reverse.mp hb)
  have htail : (front ++ lead :: conts).reverse = conts.reverse ++ lead :: front.reverse := by
    simp
  have hn : n ≤ 3 := by
    rcases hlead with h | h | h | h <;> omega
  rw [findUtf8SplitPoint, htail]
  by_cases hthree : conts.length = 3
  · have htake : (conts.reverse ++ lead :: front.reverse).take 3 = conts.reverse ++ [] := by
      rw [List.take_left' (by simpa using hthree), List.append_nil]
    rw [htake, scan_continues _ _ _ _ hreverse, scan, if_pos (by omega)]
  · obtain ⟨more, hmore⟩ : ∃ more, 3 = conts.reverse.length + (more + 1) := by
      refine ⟨2 - conts.length, ?_⟩
      rw [List.length_reverse]
      omega
    have htake : (conts.reverse ++ lead :: front.reverse).take 3 =
        conts.reverse ++ lead :: front.reverse.take more := by
      rw [hmore, List.take_length_add_append, List.take_succ_cons]
    rw [htake, scan_continues _ _ _ _ hreverse, scan_leads _ _ _ n _ hlead, List.length_reverse,
      Nat.zero_add]
    by_cases hwhole : conts.length = n
    · rw [if_pos (by omega), if_pos hwhole]
    · rw [if_neg (by omega), if_neg hwhole, List.length_append, List.length_cons]
      omega

theorem find_of_encode (chars : List Char) :
    findUtf8SplitPoint (encode chars) = (encode chars).length := by
  rcases List.eq_nil_or_concat chars with rfl | ⟨init, c, rfl⟩
  · rfl
  · obtain ⟨lead, conts, hshape, hlead, hconts⟩ := utf8EncodeChar_shape c
    have hencode : encode (init.concat c) = encode init ++ lead :: conts := by
      rw [List.concat_eq_append, encode_append, ← hshape]
      exact congrArg _ (List.append_nil _)
    rw [hencode, find_of_leads _ _ _ _ hlead hconts (Nat.le_refl _), if_pos rfl]

theorem find_of_part (chars : List Char) (c : Char) (part missing : Bytes)
    (hpart : part ≠ []) (hmissing : missing ≠ [])
    (hchar : String.utf8EncodeChar c = part ++ missing) :
    findUtf8SplitPoint (encode chars ++ part) = (encode chars).length := by
  obtain ⟨lead, conts, hshape, hlead, hconts⟩ := utf8EncodeChar_shape c
  obtain ⟨first, begun, rfl⟩ := List.exists_cons_of_ne_nil hpart
  rw [hshape, List.cons_append] at hchar
  obtain ⟨rfl, rfl⟩ := List.cons_eq_cons.mp hchar
  have hless : begun.length < (begun ++ missing).length := by
    rw [List.length_append]
    exact Nat.lt_add_of_pos_right (List.length_pos_iff.mpr hmissing)
  rw [find_of_leads _ _ _ _ hlead (fun b hb => hconts b (List.mem_append_left _ hb))
    (Nat.le_of_lt hless), if_neg (Nat.ne_of_lt hless)]

/-- Wherever a text is cut, the chunk ends with the last whole character. -/
theorem find_of_prefix (data rest : Bytes) (h : Valid (data ++ rest)) :
    Valid (data.take (findUtf8SplitPoint data)) ∧
      Valid (data.drop (findUtf8SplitPoint data) ++ rest) := by
  obtain ⟨chars, hchars⟩ := h
  obtain ⟨whole, part, rfl, hpart⟩ := prefix_of_encode chars data ⟨rest, hchars⟩
  have hcut : findUtf8SplitPoint (encode whole ++ part) = (encode whole).length := by
    by_cases hnil : part = []
    · rw [hnil, List.append_nil]
      exact find_of_encode whole
    · obtain ⟨c, missing, hmissing, hchar⟩ := hpart.resolve_left hnil
      exact find_of_part whole c part missing hnil hmissing hchar
  rw [hcut, List.take_left, List.drop_left]
  refine ⟨⟨whole, rfl⟩, valid_of_encode_append whole _ ?_⟩
  rw [← List.append_assoc, hchars]
  exact ⟨chars, rfl⟩

theorem find_bounds (buf : Bytes) :
    findUtf8SplitPoint buf ≤ buf.length ∧ buf.length ≤ findUtf8SplitPoint buf + 3 := by
  have hscan (l : Bytes) (back : ℕ) : scan buf.length l back ≤ buf.length ∧
      buf.length ≤ scan buf.length l back + (back + l.length) := by
    induction l generalizing back with
    | nil => exact ⟨Nat.le_refl _, Nat.le_add_right _ _⟩
    | cons b rest ih =>
      have hrest := ih (back + 1)
      simp only [scan, List.length_cons]
      split
      · omega
      split
      · omega
      split
      · split <;> omega
      · omega
  obtain ⟨hle, hge⟩ := hscan (buf.reverse.take 3) 0
  refine ⟨hle, Nat.le_trans hge ?_⟩
  rw [Nat.zero_add]
  exact Nat.add_le_add_left (List.length_take_le _ _) _

namespace Utf8ChunkAccumulator

variable (self : Utf8ChunkAccumulator) (data : Bytes)

/-- A push emits the bytes up to some place, and holds back the rest. -/
theorem pushChunk_spec :
    (self.pushChunk data).1.toList.flatten ++ (self.pushChunk data).2.remainder =
        self.remainder ++ data ∧
      (self.remainder.length ≤ 3 → (self.pushChunk data).2.remainder.length ≤ 3) := by
  have hbounds := find_bounds (self.remainder ++ data)
  unfold pushChunk
  split
  · rename_i hempty
    exact ⟨by simp [hempty], id⟩
  dsimp only
  split
  · exact ⟨by simp, fun _ => Nat.zero_le _⟩
  split
  · exact ⟨by simp, fun _ => Nat.zero_le _⟩
  have hheld : ((self.remainder ++ data).drop
      (findUtf8SplitPoint (self.remainder ++ data))).length ≤ 3 := by
    rw [List.length_drop]
    omega
  split
  · rename_i hnone
    refine ⟨?_, fun _ => hheld⟩
    have hsplit := List.take_append_drop (findUtf8SplitPoint (self.remainder ++ data))
      (self.remainder ++ data)
    rw [hnone] at hsplit
    exact hsplit
  · refine ⟨?_, fun _ => hheld⟩
    simp

/-- While the bytes to come complete a text, a chunk is a text and leaves one to come. -/
theorem pushChunk_valid (rest : Bytes) (h : Valid (self.remainder ++ data ++ rest)) :
    (∀ chunk ∈ (self.pushChunk data).1, Valid chunk) ∧
      Valid ((self.pushChunk data).2.remainder ++ rest) := by
  obtain ⟨hchunk, hheld⟩ := find_of_prefix (self.remainder ++ data) rest h
  unfold pushChunk
  split
  · rename_i hempty
    refine ⟨fun chunk hc => absurd hc (by simp), ?_⟩
    rw [hempty, List.append_nil] at h
    exact h
  dsimp only
  split
  · rename_i hwhole
    rw [hwhole, List.take_length] at hchunk
    rw [hwhole, List.drop_length] at hheld
    refine ⟨fun chunk hc => ?_, hheld⟩
    rw [← Option.some.inj hc]
    exact hchunk
  split
  · rename_i hbroken
    have hvalid := ByteArray.validateUTF8_eq_true_iff.mpr
      ((valid_iff_isValidUTF8 _).mp hchunk)
    simp [hvalid] at hbroken
  split
  · exact ⟨fun chunk hc => absurd hc (by simp), hheld⟩
  · refine ⟨fun chunk hc => ?_, hheld⟩
    rw [← Option.some.inj hc]
    exact hchunk

theorem finish_spec : self.finish.1.toList.flatten = self.remainder ∧
    ∀ chunk ∈ self.finish.1, chunk = self.remainder := by
  unfold finish
  split
  · rename_i hempty
    exact ⟨hempty.symm, fun chunk hc => absurd hc (by simp)⟩
  · exact ⟨by simp, fun chunk hc => (Option.some.inj hc).symm⟩

theorem pushAll_spec (reads : List Bytes) :
    (self.pushAll reads).1.flatten ++ (self.pushAll reads).2.remainder =
        self.remainder ++ reads.flatten ∧
      (self.remainder.length ≤ 3 → (self.pushAll reads).2.remainder.length ≤ 3) := by
  induction reads generalizing self with
  | nil => exact ⟨(List.append_nil _).symm, id⟩
  | cons data rest ih =>
    obtain ⟨hbytes, hheld⟩ := pushChunk_spec self data
    obtain ⟨hlater, hlaterHeld⟩ := ih (self.pushChunk data).2
    refine ⟨?_, fun h => hlaterHeld (hheld h)⟩
    simp only [pushAll]
    rw [List.flatten_append, List.append_assoc, hlater, ← List.append_assoc, hbytes,
      List.append_assoc, List.flatten_cons]

theorem pushAll_valid (reads : List Bytes) (h : Valid (self.remainder ++ reads.flatten)) :
    (∀ chunk ∈ (self.pushAll reads).1, Valid chunk) ∧
      Valid (self.pushAll reads).2.remainder := by
  induction reads generalizing self with
  | nil =>
    refine ⟨fun chunk hc => absurd hc (List.not_mem_nil), ?_⟩
    rw [List.flatten_nil, List.append_nil] at h
    exact h
  | cons data rest ih =>
    rw [List.flatten_cons, ← List.append_assoc] at h
    obtain ⟨hchunk, hheld⟩ := pushChunk_valid self data rest.flatten h
    obtain ⟨hlater, hremainder⟩ := ih (self.pushChunk data).2 hheld
    refine ⟨fun chunk hc => ?_, hremainder⟩
    rcases List.mem_append.mp hc with hfirst | hrest
    · exact hchunk chunk (Option.mem_toList.mp hfirst)
    · exact hlater chunk hrest

end Utf8ChunkAccumulator

/-- However a stream is cut into reads, the chunks are the stream, at most three bytes are held
back, and each chunk of a text is a text. -/
theorem chunks_of_reads (reads : List Bytes) :
    (emitted reads).flatten = reads.flatten ∧
      (pushAll ⟨[]⟩ reads).2.remainder.length ≤ 3 ∧
      (Valid reads.flatten → ∀ chunk ∈ emitted reads, Valid chunk) := by
  obtain ⟨hbytes, hheld⟩ := pushAll_spec ⟨[]⟩ reads
  obtain ⟨hfinish, hlast⟩ := finish_spec (pushAll ⟨[]⟩ reads).2
  refine ⟨?_, hheld (Nat.zero_le _), fun hvalid chunk hc => ?_⟩
  · rw [emitted, List.flatten_append, hfinish, hbytes, List.nil_append]
  · obtain ⟨hchunks, hremainder⟩ := pushAll_valid ⟨[]⟩ reads hvalid
    rcases List.mem_append.mp hc with hpushed | hfinished
    · exact hchunks chunk hpushed
    · rw [hlast chunk (Option.mem_toList.mp hfinished)]
      exact hremainder

theorem chunks_of_reads_cut :
    (emitted [[0x61, 0xE4], [0xB8], [0xAD]]).flatten = [0x61, 0xE4, 0xB8, 0xAD] ∧
      ∀ chunk ∈ emitted [[0x61, 0xE4], [0xB8], [0xAD]], Valid chunk := by
  obtain ⟨hbytes, -, hvalid⟩ := chunks_of_reads [[0x61, 0xE4], [0xB8], [0xAD]]
  exact ⟨hbytes, hvalid ⟨['a', '中'], rfl⟩⟩

end ClantoDesk.TerminalChunks
