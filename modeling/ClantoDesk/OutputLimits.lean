import ClantoDesk.TerminalOutput
import Mathlib.Algebra.Order.Ring.Int

/-!
The limits of `OutputBuffer` in src/server/terminal_service.rs over any sequence of appends. The
buffer always counts its bytes, its lines are closed by their only newline up to an open last one,
and there are never too many of them. The number of bytes is limited as well, except where an open
line grows without a newline: there `append` returns before it trims.
-/
namespace ClantoDesk.OutputLimits

open LittleEndian Lines TerminalOutput OutputBuffer

def Closed (line : Bytes) : Prop := ∃ text, newline ∉ text ∧ line = text ++ [newline]

def Shaped (lastLineIncomplete : Bool) (lines : List Bytes) : Prop :=
  ∃ closed, (∀ line ∈ closed, Closed line) ∧
    if lastLineIncomplete then ∃ text, newline ∉ text ∧ lines = closed ++ [text]
    else lines = closed

structure WellFormed (b : OutputBuffer) : Prop where
  size : b.totalSize = (b.lines.map List.length).sum
  shape : Shaped b.lastLineIncomplete b.lines

structure InLimits (b : OutputBuffer) : Prop where
  bytes_le : b.totalSize ≤ MAX_OUTPUT_BUFFER_SIZE
  lines_le : b.lines.length ≤ MAX_BUFFER_LINES

structure Kept (appended : Bytes) (b : OutputBuffer) : Prop where
  size : b.totalSize = (b.lines.map List.length).sum
  isSuffix : b.lines.flatten <:+ appended
  closed : ∀ line ∈ b.lines.dropLast, Closed line
  incomplete : b.lastLineIncomplete = true ↔
    ∃ line, b.lines.getLast? = some line ∧ newline ∉ line
  limits : InLimits b
  recent : ∀ maxBytes,
    b.getRecent maxBytes <:+ b.lines.flatten ∧ (b.getRecent maxBytes).length ≤ maxBytes

/-- Data without a newline for an open line does not exceed the limit with the bytes there are. -/
def Fits (b : OutputBuffer) (data : Bytes) : Prop :=
  b.lastLineIncomplete = true → newline ∉ data →
    b.totalSize + data.length ≤ MAX_OUTPUT_BUFFER_SIZE

/-! ### The shape of the lines -/

variable (lastLineIncomplete : Bool) (lines : List Bytes) (b : OutputBuffer) (lastLine data : Bytes)

theorem Closed.mem (line : Bytes) (h : Closed line) : newline ∈ line := by
  obtain ⟨text, -, rfl⟩ := h
  simp

theorem shaped_closed (h : ∀ line ∈ lines, Closed line) : Shaped false lines :=
  ⟨lines, h, by simp⟩

theorem Shaped.closed_dropLast
    (h : Shaped lastLineIncomplete lines) : ∀ line ∈ lines.dropLast, Closed line := by
  obtain ⟨closed, hclosed, hlines⟩ := h
  cases lastLineIncomplete with
  | false =>
    obtain rfl : lines = closed := by simpa using hlines
    exact fun line hline => hclosed line (List.dropLast_subset lines hline)
  | true =>
    obtain ⟨text, -, rfl⟩ : ∃ text, newline ∉ text ∧ lines = closed ++ [text] := by
      simpa using hlines
    rwa [List.dropLast_concat]

theorem Shaped.incomplete_iff (h : Shaped lastLineIncomplete lines) :
    lastLineIncomplete = true ↔ ∃ line, lines.getLast? = some line ∧ newline ∉ line := by
  obtain ⟨closed, hclosed, hlines⟩ := h
  cases lastLineIncomplete with
  | false =>
    obtain rfl : lines = closed := by simpa using hlines
    refine iff_of_false (by simp) ?_
    rintro ⟨line, hlast, hopen⟩
    exact hopen (hclosed line (List.mem_of_getLast? hlast)).mem
  | true =>
    obtain ⟨text, htext, rfl⟩ : ∃ text, newline ∉ text ∧ lines = closed ++ [text] := by
      simpa using hlines
    exact iff_of_true rfl ⟨text, by simp, htext⟩

/-- Without its first line the buffer keeps the shape; without any line none is open. -/
theorem Shaped.tail (removed : Bytes) (rest : List Bytes)
    (h : Shaped lastLineIncomplete (removed :: rest)) :
    Shaped (if rest = [] then false else lastLineIncomplete) rest := by
  obtain ⟨closed, hclosed, hlines⟩ := h
  by_cases hrest : rest = []
  · rw [if_pos hrest, hrest]
    exact shaped_closed [] (by simp)
  · rw [if_neg hrest]
    cases lastLineIncomplete with
    | false =>
      obtain rfl : removed :: rest = closed := by simpa using hlines
      exact shaped_closed rest fun line hline => hclosed line (List.mem_cons_of_mem _ hline)
    | true =>
      obtain ⟨text, htext, heq⟩ :
          ∃ text, newline ∉ text ∧ removed :: rest = closed ++ [text] := by
        simpa using hlines
      cases closed with
      | nil => exact absurd (by simpa using congrArg List.tail heq) hrest
      | cons first closed =>
        obtain ⟨-, rfl⟩ := List.cons.inj heq
        refine ⟨closed, fun line hline => hclosed line (List.mem_cons_of_mem _ hline), ?_⟩
        exact ⟨text, htext, rfl⟩

/-! ### What the parts of an append do -/

theorem wellFormed_new : WellFormed new :=
  ⟨rfl, shaped_closed [] (by simp)⟩

theorem wellFormed_push (text : Bytes) (h : WellFormed b)
    (hcomplete : b.lastLineIncomplete = false) (htext : newline ∉ text) :
    WellFormed (b.push (text ++ [newline])) := by
  obtain ⟨closed, hclosed, hlines⟩ := h.shape
  obtain rfl : b.lines = closed := by simpa [hcomplete] using hlines
  refine ⟨?_, ?_⟩
  · simp [push, h.size]
  · change Shaped b.lastLineIncomplete _
    rw [hcomplete]
    apply shaped_closed
    intro line hline
    rcases List.mem_append.mp hline with hline | hline
    · exact hclosed line hline
    · exact ⟨text, htext, List.mem_singleton.mp hline⟩

theorem wellFormed_pushLines (endsWithNewline : Bool) (pieces : List Bytes)
    (h : WellFormed b) (hcomplete : b.lastLineIncomplete = false)
    (hpieces : ∀ piece ∈ pieces, newline ∉ piece) :
    WellFormed (b.pushLines endsWithNewline pieces) := by
  induction pieces generalizing b with
  | nil => exact h
  | cons line rest ih =>
    obtain ⟨hline, hrest⟩ := List.forall_mem_cons.mp hpieces
    cases rest with
    | nil =>
      simp only [pushLines]
      split
      · exact h
      · split
        · exact wellFormed_push b line h hcomplete hline
        · obtain ⟨closed, hclosed, hlines⟩ := h.shape
          obtain rfl : b.lines = closed := by simpa [hcomplete] using hlines
          refine ⟨?_, ?_⟩
          · simp [push, h.size]
          · exact ⟨b.lines, hclosed, line, hline, rfl⟩
    | cons next rest =>
      rw [pushLines]
      exact ih _ (wellFormed_push b line h hcomplete hline) hcomplete hrest

theorem wellFormed_trim (h : Shaped lastLineIncomplete lines) :
    WellFormed (trim (lines.map List.length).sum lastLineIncomplete lines) ∧
      InLimits (trim (lines.map List.length).sum lastLineIncomplete lines) := by
  induction lines generalizing lastLineIncomplete with
  | nil =>
    simp only [trim, List.map_nil, List.sum_nil]
    rw [if_neg (by decide)]
    exact ⟨⟨rfl, h⟩, ⟨Nat.zero_le _, Nat.zero_le _⟩⟩
  | cons removed rest ih =>
    rw [trim, List.map_cons, List.sum_cons]
    split
    · rw [if_neg (by omega), Nat.add_sub_cancel_left]
      exact ih _ h.tail
    · rename_i hlimits
      push Not at hlimits
      exact ⟨⟨by simp, h⟩, ⟨hlimits.1, hlimits.2⟩⟩

theorem appendRemaining_limits (remaining : Bytes) (h : WellFormed b)
    (hcomplete : b.lastLineIncomplete = false) :
    WellFormed (b.appendRemaining remaining) ∧ InLimits (b.appendRemaining remaining) := by
  have hpushed := wellFormed_pushLines b (remaining.getLast? == some newline)
    (remaining.splitOn newline) h hcomplete (not_mem_of_mem_splitOn newline remaining)
  unfold appendRemaining
  simp only
  rw [hpushed.size]
  exact wellFormed_trim _ _ hpushed.shape

theorem size_extendLast (piece : Bytes) (h : WellFormed b)
    (hlast : b.lines.getLast? = some lastLine) :
    b.totalSize + piece.length =
      ((b.extendLast lastLine piece).lines.map List.length).sum := by
  obtain ⟨before, hlines⟩ := List.getLast?_eq_some_iff.mp hlast
  rw [h.size]
  simp [extendLast, hlines, Nat.add_assoc]

theorem Shaped.open_last (h : Shaped true lines) (hlast : lines.getLast? = some lastLine) :
    newline ∉ lastLine ∧ ∀ line ∈ lines.dropLast, Closed line := by
  obtain ⟨line, hline, hopen⟩ := (h.incomplete_iff true lines).mp rfl
  obtain rfl := Option.some.inj (hlast.symm.trans hline)
  exact ⟨hopen, h.closed_dropLast⟩

theorem wellFormed_close (text : Bytes) (h : WellFormed b)
    (hincomplete : b.lastLineIncomplete = true) (hlast : b.lines.getLast? = some lastLine)
    (htext : newline ∉ text) :
    WellFormed
      { b.extendLast lastLine (text ++ [newline]) with lastLineIncomplete := false } := by
  have hshape := h.shape
  rw [hincomplete] at hshape
  obtain ⟨hopen, hclosed⟩ := hshape.open_last b.lines lastLine hlast
  refine ⟨size_extendLast b lastLine _ h hlast, shaped_closed _ ?_⟩
  intro line hline
  rcases List.mem_append.mp hline with hline | hline
  · exact hclosed line hline
  · refine ⟨lastLine ++ text, ?_, ?_⟩
    · simpa [hopen] using htext
    · rw [List.mem_singleton.mp hline, List.append_assoc]

theorem wellFormed_grow (h : WellFormed b)
    (hincomplete : b.lastLineIncomplete = true) (hlast : b.lines.getLast? = some lastLine)
    (hdata : newline ∉ data) : WellFormed (b.extendLast lastLine data) := by
  have hshape := h.shape
  rw [hincomplete] at hshape
  obtain ⟨hopen, hclosed⟩ := hshape.open_last b.lines lastLine hlast
  refine ⟨size_extendLast b lastLine data h hlast, ?_⟩
  change Shaped b.lastLineIncomplete _
  rw [hincomplete]
  exact ⟨b.lines.dropLast, hclosed, lastLine ++ data, by simp [hopen, hdata], rfl⟩

theorem length_extendLast (piece : Bytes) (hlast : b.lines.getLast? = some lastLine) :
    (b.extendLast lastLine piece).lines.length = b.lines.length := by
  obtain ⟨before, hlines⟩ := List.getLast?_eq_some_iff.mp hlast
  simp [extendLast, hlines]

theorem take_newline (newlinePos : ℕ) (h : data.findIdx? (· == newline) = some newlinePos) :
    ∃ text, newline ∉ text ∧ data.take (newlinePos + 1) = text ++ [newline] := by
  obtain ⟨hlt, hat, hbefore⟩ := List.findIdx?_eq_some_iff_getElem.mp h
  refine ⟨data.take newlinePos, ?_, ?_⟩
  · intro hmem
    obtain ⟨i, hi, heq⟩ := List.mem_iff_getElem.mp hmem
    rw [List.length_take] at hi
    rw [List.getElem_take] at heq
    exact hbefore i (by omega) (by simp [heq])
  · have hnewline : data[newlinePos] = newline := by simpa using hat
    rw [List.take_add_one, List.getElem?_eq_getElem hlt, hnewline]
    rfl

/-! ### One append -/

/-- An append that does not just extend an open line trims the buffer. -/
theorem append_trims (h : WellFormed b) (hdata : data ≠ [])
    (hnewline : b.lastLineIncomplete = true → newline ∈ data) :
    WellFormed (b.append data) ∧ InLimits (b.append data) := by
  rw [append, if_neg hdata]
  by_cases hincomplete : b.lastLineIncomplete = true
  · have hshape := h.shape
    rw [hincomplete] at hshape
    obtain ⟨lastLine, hlast, -⟩ := (hshape.incomplete_iff true b.lines).mp rfl
    have hfound : (data.findIdx? (· == newline)).isSome := by
      rw [List.findIdx?_isSome, List.any_eq_true]
      exact ⟨newline, hnewline hincomplete, by simp⟩
    obtain ⟨newlinePos, hpos⟩ := Option.isSome_iff_exists.mp hfound
    obtain ⟨text, htext, htake⟩ := take_newline data newlinePos hpos
    rw [if_pos hincomplete]
    simp only [hlast, hpos]
    rw [htake]
    exact appendRemaining_limits _ _ (wellFormed_close b lastLine text h hincomplete hlast htext)
      rfl
  · rw [if_neg hincomplete]
    exact appendRemaining_limits b data h (by simpa using hincomplete)

/-- Data without a newline extends an open line, and nothing is trimmed. -/
theorem append_grows (h : WellFormed b) (hdata : data ≠ [])
    (hincomplete : b.lastLineIncomplete = true) (hnewline : newline ∉ data) :
    WellFormed (b.append data) ∧ (b.append data).totalSize = b.totalSize + data.length ∧
      (b.append data).lines.length = b.lines.length := by
  have hshape := h.shape
  rw [hincomplete] at hshape
  obtain ⟨lastLine, hlast, -⟩ := (hshape.incomplete_iff true b.lines).mp rfl
  have hnone : data.findIdx? (· == newline) = none := by
    rw [List.findIdx?_eq_none_iff]
    intro byte hbyte
    have hne : byte ≠ newline := fun heq => hnewline (heq ▸ hbyte)
    simpa using hne
  have happend : b.append data = b.extendLast lastLine data := by
    rw [append, if_neg hdata, if_pos hincomplete]
    simp only [hlast, hnone]
  rw [happend]
  exact ⟨wellFormed_grow b lastLine data h hincomplete hlast hnewline, rfl,
    length_extendLast b lastLine data hlast⟩

theorem wellFormed_append (h : WellFormed b) : WellFormed (b.append data) := by
  by_cases hdata : data = []
  · simpa [append, hdata] using h
  · by_cases hgrows : b.lastLineIncomplete = true ∧ newline ∉ data
    · exact (append_grows b data h hdata hgrows.1 hgrows.2).1
    · have hnewline : b.lastLineIncomplete = true → newline ∈ data := by
        simpa using hgrows
      exact (append_trims b data h hdata hnewline).1

/-- Within the limits, an append stays within them exactly if its data fits. -/
theorem inLimits_append_iff (h : WellFormed b)
    (hlimits : InLimits b) : InLimits (b.append data) ↔ Fits b data := by
  by_cases hdata : data = []
  · have hsame : b.append data = b := by simp [append, hdata]
    have hbytes := hlimits.bytes_le
    rw [hsame]
    exact iff_of_true hlimits fun _ _ => by simpa [hdata] using hbytes
  · by_cases hgrows : b.lastLineIncomplete = true ∧ newline ∉ data
    · obtain ⟨hincomplete, hnewline⟩ := hgrows
      obtain ⟨-, hsize, hlength⟩ := append_grows b data h hdata hincomplete hnewline
      constructor
      · intro hafter _ _
        have hbytes := hafter.bytes_le
        omega
      · intro hfits
        have hbytes := hfits hincomplete hnewline
        have hlines := hlimits.lines_le
        exact ⟨by omega, by omega⟩
    · have hnewline : b.lastLineIncomplete = true → newline ∈ data := by
        simpa using hgrows
      refine iff_of_true (append_trims b data h hdata hnewline).2 ?_
      intro hincomplete hnot
      exact absurd (hnewline hincomplete) hnot

/-! ### Any sequence of appends -/

theorem wellFormed_foldl (chunks : List Bytes) : WellFormed (chunks.foldl append new) := by
  induction chunks using List.reverseRecOn with
  | nil => exact wellFormed_new
  | append_singleton chunks data ih =>
    rw [List.foldl_append]
    exact wellFormed_append _ data ih

theorem kept_iff (chunks : List Bytes) :
    Kept chunks.flatten (chunks.foldl append new) ↔ InLimits (chunks.foldl append new) := by
  have h := wellFormed_foldl chunks
  refine ⟨Kept.limits, fun hlimits => ?_⟩
  refine ⟨h.size, ?_, h.shape.closed_dropLast, h.shape.incomplete_iff, hlimits, ?_⟩
  · exact bytes_foldl_append new chunks
  · exact getRecent_suffix _

/-- The buffer is as it should be after each of the appends if and only if none of them grows an
open line beyond the limit without a newline. -/
theorem kept_after_each_iff (chunks : List Bytes) :
    (∀ before after, chunks = before ++ after →
      Kept before.flatten (before.foldl append new)) ↔
    ∀ before data after, chunks = before ++ data :: after →
      Fits (before.foldl append new) data := by
  constructor
  · intro hkept before data after hchunks
    have hbefore := hkept before (data :: after) hchunks
    have hafter := hkept (before ++ [data]) after (by simp [hchunks])
    rw [kept_iff, List.foldl_append] at hafter
    rw [kept_iff] at hbefore
    exact (inLimits_append_iff _ data (wellFormed_foldl before) hbefore).mp hafter
  · intro hfits before
    induction before using List.reverseRecOn with
    | nil =>
      intro after _
      exact (kept_iff []).mpr ⟨Nat.zero_le _, Nat.zero_le _⟩
    | append_singleton before data ih =>
      intro after hchunks
      rw [List.append_assoc, List.singleton_append] at hchunks
      have hbefore := (kept_iff before).mp (ih (data :: after) hchunks)
      have hdata := hfits before data after hchunks
      rw [kept_iff, List.foldl_append]
      exact (inLimits_append_iff _ data (wellFormed_foldl before) hbefore).mpr hdata

theorem append_new (hdata : data ≠ []) (hnewline : newline ∉ data)
    (hlength : data.length ≤ MAX_OUTPUT_BUFFER_SIZE) :
    new.append data = ⟨[data], data.length, true⟩ := by
  have hpieces : data.splitOn newline = [data] := List.splitOn_eq_singleton hnewline
  have hlast : (data.getLast? == some newline) = false := by
    rw [beq_eq_false_iff_ne]
    exact fun hsome => hnewline (List.mem_of_getLast? hsome)
  simp [append, new, appendRemaining, hdata, hpieces, hlast, pushLines, push, trim, hlength,
    MAX_BUFFER_LINES]

/-- After data that fills the buffer with an open line, more without a newline is too much. -/
theorem not_kept_of_full (full more : Bytes) (hfull : full.length = MAX_OUTPUT_BUFFER_SIZE)
    (hopen : newline ∉ full) (hmore : more ≠ []) (hnewline : newline ∉ more) :
    ¬ Kept [full, more].flatten ([full, more].foldl append new) := by
  intro hkept
  have hne : full ≠ [] := by
    rintro rfl
    cases hfull
  have hfirst := append_new full hne hopen hfull.le
  obtain ⟨-, hsize, -⟩ := append_grows (new.append full) more
    (wellFormed_append new full wellFormed_new) hmore (by rw [hfirst]) hnewline
  have hpositive := List.length_pos_iff.mpr hmore
  have hbytes : ((new.append full).append more).totalSize ≤ MAX_OUTPUT_BUFFER_SIZE :=
    hkept.limits.bytes_le
  rw [hsize, hfirst] at hbytes
  change full.length + more.length ≤ _ at hbytes
  omega

/-- A line without a newline that fills the buffer, and one byte more. -/
theorem open_line_exceeds :
    ¬ Kept [List.replicate MAX_OUTPUT_BUFFER_SIZE 97, [97]].flatten
      ([List.replicate MAX_OUTPUT_BUFFER_SIZE 97, [97]].foldl append new) := by
  apply not_kept_of_full
  · exact List.length_replicate
  · intro hmem
    exact absurd (List.eq_of_mem_replicate hmem) (by decide)
  · exact List.cons_ne_nil _ _
  · decide

end ClantoDesk.OutputLimits
