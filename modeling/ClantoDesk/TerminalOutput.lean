import ClantoDesk.Lines
import ClantoDesk.LittleEndian
import Mathlib.Data.List.Infix

/-!
The output that a terminal keeps for the next reconnect, `OutputBuffer` of
src/server/terminal_service.rs: lines with a limit on their number and on their bytes, the
last of which may still be open. What is kept is always the end of what was appended, and what
is replayed is the end of what is kept.
-/
namespace ClantoDesk.TerminalOutput

open LittleEndian Lines

def MAX_OUTPUT_BUFFER_SIZE : ℕ := 1024 * 1024
def MAX_BUFFER_LINES : ℕ := 10000

def newline : UInt8 := 10

structure OutputBuffer where
  lines : List Bytes
  totalSize : ℕ
  lastLineIncomplete : Bool

namespace OutputBuffer

def new : OutputBuffer := ⟨[], 0, false⟩

def bytes (b : OutputBuffer) : Bytes := b.lines.flatten

def push (b : OutputBuffer) (line : Bytes) : OutputBuffer :=
  { b with lines := b.lines ++ [line], totalSize := b.totalSize + line.length }

def pushLines (b : OutputBuffer) (endsWithNewline : Bool) : List Bytes → OutputBuffer
  | [] => b
  | [line] =>
    if line = [] then b
    else if endsWithNewline then b.push (line ++ [newline])
    else { b.push line with lastLineIncomplete := true }
  | line :: next :: rest => (b.push (line ++ [newline])).pushLines endsWithNewline (next :: rest)

def trim (totalSize : ℕ) (lastLineIncomplete : Bool) : List Bytes → OutputBuffer
  | [] =>
    if MAX_OUTPUT_BUFFER_SIZE < totalSize then ⟨[], 0, false⟩
    else ⟨[], totalSize, lastLineIncomplete⟩
  | removed :: rest =>
    if MAX_OUTPUT_BUFFER_SIZE < totalSize ∨ MAX_BUFFER_LINES < rest.length + 1 then
      trim
        (if totalSize < removed.length then (rest.map List.length).sum
          else totalSize - removed.length)
        (if rest = [] then false else lastLineIncomplete) rest
    else ⟨removed :: rest, totalSize, lastLineIncomplete⟩

def appendRemaining (b : OutputBuffer) (remaining : Bytes) : OutputBuffer :=
  let pushed := b.pushLines (remaining.getLast? == some newline) (remaining.splitOn newline)
  trim pushed.totalSize pushed.lastLineIncomplete pushed.lines

def extendLast (b : OutputBuffer) (lastLine piece : Bytes) : OutputBuffer :=
  { b with
    lines := b.lines.dropLast ++ [lastLine ++ piece]
    totalSize := b.totalSize + piece.length }

def append (b : OutputBuffer) (data : Bytes) : OutputBuffer :=
  if data = [] then b
  else if b.lastLineIncomplete then
    match b.lines.getLast? with
    | none => b.appendRemaining data
    | some lastLine =>
      match data.findIdx? (· == newline) with
      | some newlinePos =>
        { b.extendLast lastLine (data.take (newlinePos + 1)) with
          lastLineIncomplete := false }.appendRemaining (data.drop (newlinePos + 1))
      -- without a newline the buffer is not trimmed
      | none => b.extendLast lastLine data
  else b.appendRemaining data

/-- Up to `n` continuation bytes of UTF-8 are skipped. -/
def skipContinuation : ℕ → Bytes → Bytes
  | n + 1, byte :: rest =>
    if byte &&& 0xC0 = 0x80 then skipContinuation n rest else byte :: rest
  | _, line => line

/-- The lines that fit, newest first, after lines of `size` bytes. -/
def recentChunks (maxBytes : ℕ) : ℕ → List Bytes → List Bytes
  | _, [] => []
  | size, line :: older =>
    if maxBytes < size + line.length then
      if size = 0 ∧ maxBytes < line.length then
        match skipContinuation 3 (line.drop (line.length - maxBytes)) with
        | [] => []
        | tail => [tail]
      else []
    else line :: recentChunks maxBytes (size + line.length) older

def getRecent (b : OutputBuffer) (maxBytes : ℕ) : Bytes :=
  if maxBytes = 0 then [] else (recentChunks maxBytes 0 b.lines.reverse).reverse.flatten

/-! ### What is kept is an end of what was appended -/

@[simp] theorem bytes_push (b : OutputBuffer) (line : Bytes) :
    (b.push line).bytes = b.bytes ++ line := by
  simp [push, bytes]

variable (b : OutputBuffer)

theorem bytes_pushLines (endsWithNewline : Bool) (pieces : List Bytes)
    (hends : endsWithNewline = true → pieces.getLast? = some []) :
    (b.pushLines endsWithNewline pieces).bytes = b.bytes ++ (unlines newline pieces).dropLast := by
  induction pieces generalizing b with
  | nil => simp [pushLines]
  | cons line rest ih =>
    cases rest with
    | nil =>
      by_cases hline : line = []
      · simp [pushLines, hline]
      · have hopen : endsWithNewline = false := by
          cases endsWithNewline with
          | false => rfl
          | true => exact absurd (by simpa using hends rfl) hline
        simp only [pushLines, if_neg hline, hopen, Bool.false_eq_true, if_false]
        change (b.push line).bytes = _
        rw [bytes_push, unlines_cons, unlines_nil, List.dropLast_concat]
    | cons next rest =>
      have hnonempty : unlines newline (next :: rest) ≠ [] := by simp
      rw [pushLines, ih _ (by simpa using hends), bytes_push, unlines_cons newline line]
      rw [List.dropLast_append_of_ne_nil (by simp), List.dropLast_cons_of_ne_nil hnonempty]
      simp

theorem getLast?_splitOn (remaining : Bytes) (h : remaining.getLast? = some newline) :
    (remaining.splitOn newline).getLast? = some [] := by
  obtain ⟨before, rfl⟩ := List.getLast?_eq_some_iff.mp h
  rw [List.splitOn_append_cons_self, List.splitOn_eq_singleton List.not_mem_nil]
  simp

theorem bytes_trim (totalSize : ℕ) (lastLineIncomplete : Bool) (lines : List Bytes) :
    (trim totalSize lastLineIncomplete lines).bytes <:+ lines.flatten := by
  induction lines generalizing totalSize lastLineIncomplete with
  | nil =>
    unfold trim
    split <;> exact List.suffix_refl []
  | cons removed rest ih =>
    unfold trim
    split
    · exact (ih _ _).trans (List.suffix_append removed rest.flatten)
    · exact List.suffix_refl _

theorem bytes_appendRemaining (remaining : Bytes) :
    (b.appendRemaining remaining).bytes <:+ b.bytes ++ remaining := by
  have hpushed := bytes_pushLines b (remaining.getLast? == some newline)
    (remaining.splitOn newline) (fun h => getLast?_splitOn remaining (by simpa using h))
  rw [unlines_splitOn, List.dropLast_concat] at hpushed
  rw [← hpushed]
  exact bytes_trim _ _ _

theorem bytes_extendLast (lastLine piece : Bytes) (hlast : b.lines.getLast? = some lastLine) :
    (b.extendLast lastLine piece).bytes = b.bytes ++ piece := by
  obtain ⟨before, hlines⟩ := List.getLast?_eq_some_iff.mp hlast
  simp [extendLast, bytes, hlines]

theorem bytes_append (data : Bytes) : (b.append data).bytes <:+ b.bytes ++ data := by
  unfold append
  split
  case isTrue hdata => simp [hdata]
  case isFalse =>
    split
    case isFalse => exact bytes_appendRemaining b data
    case isTrue =>
      split
      case h_1 => exact bytes_appendRemaining b data
      case h_2 lastLine hlast =>
        split
        case h_1 newlinePos _ =>
          have hrest := bytes_appendRemaining
            { b.extendLast lastLine (data.take (newlinePos + 1)) with lastLineIncomplete := false }
            (data.drop (newlinePos + 1))
          change _ <:+ (b.extendLast lastLine (data.take (newlinePos + 1))).bytes ++ _ at hrest
          rwa [bytes_extendLast b _ _ hlast, List.append_assoc, List.take_append_drop] at hrest
        case h_2 => rw [bytes_extendLast b _ _ hlast]

/-- After any number of appends the buffer is an end of everything appended. -/
theorem bytes_foldl_append (chunks : List Bytes) :
    (chunks.foldl append b).bytes <:+ b.bytes ++ chunks.flatten := by
  induction chunks generalizing b with
  | nil => simp
  | cons data chunks ih =>
    rw [List.foldl_cons, List.flatten_cons, ← List.append_assoc]
    obtain ⟨dropped, hdropped⟩ := bytes_append b data
    refine (ih (b.append data)).trans ?_
    rw [← hdropped, List.append_assoc]
    exact List.suffix_append dropped _

/-! ### What is replayed is an end of what is kept -/

theorem skipContinuation_suffix (n : ℕ) (line : Bytes) : skipContinuation n line <:+ line := by
  induction n generalizing line with
  | zero => exact List.suffix_refl line
  | succ n ih =>
    cases line with
    | nil => exact List.suffix_refl []
    | cons byte rest =>
      rw [skipContinuation]
      split
      · exact (ih rest).trans (List.suffix_cons byte rest)
      · exact List.suffix_refl _

/-- The chunks are an end of the lines, and not more bytes than still fit. -/
theorem recentChunks_suffix (maxBytes size : ℕ) (newestFirst : List Bytes)
    (hsize : size ≤ maxBytes) :
    (recentChunks maxBytes size newestFirst).reverse.flatten <:+ newestFirst.reverse.flatten ∧
      size + (recentChunks maxBytes size newestFirst).reverse.flatten.length ≤ maxBytes := by
  induction newestFirst generalizing size with
  | nil => simpa [recentChunks] using hsize
  | cons line older ih =>
    rw [recentChunks]
    split
    case isTrue hover =>
      split
      case isFalse => simpa using hsize
      case isTrue hlong =>
        obtain ⟨rfl, hlong⟩ := hlong
        split
        case h_1 => simp
        case h_2 hne =>
          have htail := (skipContinuation_suffix 3 (line.drop (line.length - maxBytes))).trans
            (List.drop_suffix _ line)
          refine ⟨?_, ?_⟩
          · simpa using htail.trans (List.suffix_append _ line)
          · have hlength := (skipContinuation_suffix 3
                (line.drop (line.length - maxBytes))).length_le
            rw [List.length_drop] at hlength
            simp only [List.reverse_cons, List.reverse_nil, List.nil_append, List.flatten_cons,
              List.flatten_nil, List.append_nil]
            omega
    case isFalse hfits =>
      obtain ⟨hsuffix, hlength⟩ := ih (size + line.length) (by omega)
      simp only [List.reverse_cons, List.flatten_append, List.flatten_cons, List.flatten_nil,
        List.append_nil, List.length_append]
      refine ⟨?_, by omega⟩
      obtain ⟨dropped, hdropped⟩ := hsuffix
      exact ⟨dropped, by rw [← hdropped, List.append_assoc]⟩

theorem getRecent_suffix (maxBytes : ℕ) :
    b.getRecent maxBytes <:+ b.bytes ∧ (b.getRecent maxBytes).length ≤ maxBytes := by
  unfold getRecent
  split
  case isTrue => simp
  case isFalse =>
    have h := recentChunks_suffix maxBytes 0 b.lines.reverse (Nat.zero_le _)
    rw [List.reverse_reverse, Nat.zero_add] at h
    exact h

end OutputBuffer

end ClantoDesk.TerminalOutput
