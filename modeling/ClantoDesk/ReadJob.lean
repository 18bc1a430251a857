import ClantoDesk.Runs
import ClantoDesk.TransferJob

/-!
The read jobs of a file transfer, libs/base/src/fs.rs. A job opens its files one after
the other and cuts each of them into blocks; a file ends with an empty block. With overwrite
detection it announces a file first and waits until it is confirmed. Files that cannot be opened
or read are passed over.
-/
namespace ClantoDesk.ReadJob

open FileSystem TransferJob
open TenantKeys (Bytes)

def bufSize : ℕ := 128 * 1024

/-- What a read job meets: the disk it reads from, compression, and how many bytes more than
one a read of the system returns when so many were read into the buffer. -/
structure Source where
  os : Os
  disk : Disk File
  osError : String
  compress : Bytes → Bytes
  chunk : ℕ → ℕ

/-- A job of the kind and source that a file transfer reads with: generic, from a path. The
stream is the file with what is still to be read of it. -/
structure Job where
  id : Int32
  base : Path
  files : List FileEntry
  fileNum : Int32
  dataStream : Option (File × Bytes)
  enableOverwriteDetection : Bool
  fileConfirmed : Bool
  fileIsWaiting : Bool
  finishedSize : ℕ
  transferred : ℕ

/-- `new_read`, with the files it is to send. -/
def Job.newRead (id : Int32) (base : Path) (files : List FileEntry) (fileNum : Int32)
    (enableOverwriteDetection : Bool) : Job :=
  { id := id
    base := base
    files := files
    fileNum := fileNum
    dataStream := none
    enableOverwriteDetection := enableOverwriteDetection
    fileConfirmed := false
    fileIsWaiting := false
    finishedSize := 0
    transferred := 0 }

def Job.advance (job : Job) : Job :=
  { job with
    fileNum := job.fileNum + 1
    dataStream := none
    fileConfirmed := false
    fileIsWaiting := false }

def getExt (name : Path) : Path :=
  if '.' ∈ name then (name.reverse.takeWhile fun c => c ≠ '.').reverse else []

def isCompressedFile (name : Path) : Bool :=
  getExt name ∈ ["xz", "gz", "zip", "7z", "rar", "bz2", "tgz", "png", "jpg"].map String.toList

def openDataStream (src : Source) (job : Job) : Job × Except String Bool :=
  match job.files[toIndex job.fileNum]? with
  | none => ({ job with dataStream := none }, .ok true)
  | some entry =>
    match job.dataStream with
    | some _ => (job, .ok false)
    | none =>
      match src.disk.openFile src.os (joinName job.base entry.name) with
      | some (_, file) =>
        ({ job with
            dataStream := some (file, file.data)
            fileConfirmed := false
            fileIsWaiting := false }, .ok false)
      | none => (job.advance, .error src.osError)

def currentDigest (job : Job) : Option FileDigest :=
  match job.dataStream with
  | some (file, _) =>
    if file.mtime < 0 then none
    else some ⟨UInt64.ofNat file.data.length, UInt64.ofNat (file.mtime / 10 ^ 9).toNat⟩
  | none => none

def initDataStream (src : Source) (job : Job) : Job × Except String (Option FileDigest) :=
  match openDataStream src job with
  | (job, .error text) => (job, .error text)
  | (job, .ok true) => (job, .ok none)
  | (job, .ok false) =>
    if job.enableOverwriteDetection && !job.fileConfirmed && !job.fileIsWaiting then
      match currentDigest job with
      | none => (job, .error src.osError)
      | some digest => ({ job with fileIsWaiting := true }, .ok (some digest))
    else (job, .ok none)

def fillBuffer (chunk : ℕ → ℕ) : ℕ → Bytes → Bytes → Bytes × Bytes
  | 0, buf, rest => (buf, rest)
  | room + 1, buf, rest =>
    let n := min (min (chunk buf.length + 1) (bufSize - buf.length)) rest.length
    if n = 0 ∨ buf.length + n = bufSize then (buf ++ rest.take n, rest.drop n)
    else fillBuffer chunk room (buf ++ rest.take n) (rest.drop n)

def read (src : Source) (fails : Bool) (job : Job) : Job × Except String (Option Block) :=
  if job.enableOverwriteDetection && !job.fileConfirmed then (job, .ok none)
  else
    match job.files[toIndex job.fileNum]? with
    | none => ({ job with dataStream := none }, .ok none)
    | some entry =>
      match job.dataStream with
      | none => (job, .error "data stream is None")
      | some (file, rest) =>
        if fails then (job.advance, .error src.osError)
        else
          let (buf, rest) := fillBuffer src.chunk bufSize [] rest
          if buf.isEmpty then (job.advance, .ok (some ⟨job.id, job.fileNum, [], false⟩))
          else
            let name :=
              if job.files.length = 1 && entry.name.isEmpty then (fileName job.base).getD []
              else entry.name
            let packed := src.compress buf
            let compressed := !isCompressedFile name && decide (packed.length < buf.length)
            let data := if compressed then packed else buf
            ({ job with
                dataStream := some (file, rest)
                finishedSize := job.finishedSize + buf.length
                transferred := job.transferred + data.length },
              .ok (some ⟨job.id, job.fileNum, data, compressed⟩))

inductive Event
  | turn (fails : Bool)
  | confirm (fileNum : Int32)
  deriving DecidableEq

structure Sender where
  job : Job
  sent : List Block

def step (src : Source) (s : Sender) : Event → Option Sender
  | .turn fails =>
    let (job, _) := initDataStream src s.job
    match read src fails job with
    | (job, .ok (some block)) => some ⟨job, s.sent ++ [block]⟩
    | (job, _) => some ⟨job, s.sent⟩
  | .confirm fileNum =>
    if s.job.fileNum ≠ fileNum then some s
    else some { s with job := { s.job with fileConfirmed := true } }

theorem fillBuffer_eq (chunk : ℕ → ℕ) (room : ℕ) (buf rest : Bytes)
    (hroom : bufSize ≤ buf.length + room) :
    fillBuffer chunk room buf rest =
      (buf ++ rest.take (bufSize - buf.length), rest.drop (bufSize - buf.length)) := by
  induction room generalizing buf rest with
  | zero =>
    have hfull : bufSize - buf.length = 0 := by omega
    rw [fillBuffer, hfull, List.take_zero, List.drop_zero, List.append_nil]
  | succ room ih =>
    rw [fillBuffer]
    generalize hn : min (min (chunk buf.length + 1) (bufSize - buf.length)) rest.length = n
    split
    · rename_i hstop
      by_cases hlast : rest.length ≤ n
      · rw [List.take_of_length_le hlast, List.drop_of_length_le hlast,
          List.take_of_length_le (by omega), List.drop_of_length_le (by omega)]
      · have hsize : n = bufSize - buf.length := by omega
        rw [hsize]
    · rename_i hmore
      rw [not_or] at hmore
      have hle : n ≤ rest.length := by omega
      have hlength : (buf ++ rest.take n).length = buf.length + n := by
        rw [List.length_append, List.length_take, Nat.min_eq_left hle]
      rw [ih _ _ (by omega), hlength, List.append_assoc, List.drop_drop]
      have hsplit : bufSize - buf.length = n + (bufSize - (buf.length + n)) := by omega
      rw [hsplit, List.take_add]

def blockBytes (codecs : Codecs) (block : Block) : Bytes :=
  if block.compressed then codecs.decompress block.data else block.data

structure Carries (codecs : Codecs) (id : Int32) (k : ℕ) (x : Bytes) (blocks : List Block) :
    Prop where
  numbered : ∀ block ∈ blocks, block.id = id ∧ block.fileNum = Int32.ofNat k
  content : (blocks.map (blockBytes codecs)).flatten = x

/-- The blocks of the files with these contents, from the file `k` on; at least one of each. -/
inductive Transcript (codecs : Codecs) (id : Int32) : ℕ → List Bytes → List Block → Prop
  | nil (k : ℕ) : Transcript codecs id k [] []
  | cons (k : ℕ) (x : Bytes) (xs : List Bytes) (first : Block) (more rest : List Block)
      (hfile : Carries codecs id k x (first :: more))
      (hrest : Transcript codecs id (k + 1) xs rest) :
      Transcript codecs id k (x :: xs) ((first :: more) ++ rest)

theorem Carries.append {codecs : Codecs} {id : Int32} {k : ℕ} {x : Bytes} {blocks : List Block}
    (h : Carries codecs id k x blocks) (block : Block) (hid : block.id = id)
    (hnum : block.fileNum = Int32.ofNat k) :
    Carries codecs id k (x ++ blockBytes codecs block) (blocks ++ [block]) := by
  refine ⟨?_, ?_⟩
  · intro other hother
    rcases List.mem_append.mp hother with hold | hnew
    · exact h.numbered other hold
    · rw [List.mem_singleton.mp hnew]
      exact ⟨hid, hnum⟩
  · rw [List.map_append, List.flatten_append, h.content]
    simp

theorem Transcript.append {codecs : Codecs} {id : Int32} {k : ℕ} {xs : List Bytes}
    {blocks : List Block} (h : Transcript codecs id k xs blocks) (x : Bytes) (first : Block)
    (more : List Block) (hfile : Carries codecs id (k + xs.length) x (first :: more)) :
    Transcript codecs id k (xs ++ [x]) (blocks ++ first :: more) := by
  induction h with
  | nil k =>
    have hone := Transcript.cons k x [] first more [] hfile (.nil _)
    rwa [List.append_nil] at hone
  | cons k y ys first' more' rest hfirst _ ih =>
    rw [List.cons_append, List.append_assoc]
    refine .cons k y _ first' more' _ hfirst (ih ?_)
    rwa [List.length_cons, Nat.add_comm ys.length, ← Nat.add_assoc] at hfile

theorem toIndex_ofNat (n : ℕ) (h : n < 2 ^ 31) : toIndex (Int32.ofNat n) = n := by
  rw [toIndex, Int32.toInt_ofNat_of_lt h]
  omega

/-- A number that was counted up to finds its file, or none after the last. -/
theorem getElem?_toIndex {γ : Type} (l : List γ) (i : ℕ) (hi : i ≤ l.length)
    (hl : l.length ≤ 2 ^ 31) : l[toIndex (Int32.ofNat i)]? = l[i]? := by
  by_cases hlt : i < 2 ^ 31
  · rw [toIndex_ofNat i hlt]
  · have hi' : i = 2 ^ 31 := by omega
    have hlast : toIndex (Int32.ofNat i) = 2 ^ 64 - 2 ^ 31 := by
      rw [hi']
      decide
    rw [hlast, List.getElem?_eq_none (by omega), List.getElem?_eq_none (by omega)]

/-- The file can be read where the job reads it. -/
def Opens (src : Source) (base : Path) (item : FileEntry × Bytes) : Prop :=
  ∃ inode file, src.disk.openFile src.os (joinName base item.1.name) = some (inode, file) ∧
    file.data = item.2

def Current (codecs : Codecs) (items : List (FileEntry × Bytes)) (id : Int32) (job : Job) (i : ℕ)
    (part : List Block) : Prop :=
  match job.dataStream with
  | none => part = []
  | some (_, rest) => ∃ item y, items[i]? = some item ∧ Carries codecs id i y part ∧
      y ++ rest = item.2

structure Sending (codecs : Codecs) (items : List (FileEntry × Bytes)) (id : Int32) (base : Path)
    (job : Job) (sent : List Block) (i : ℕ) (full part : List Block) : Prop where
  ident : job.id = id
  base : job.base = base
  files : job.files = items.map fun item => item.1
  at_ : job.fileNum = Int32.ofNat i
  le : i ≤ items.length
  sent : sent = full ++ part
  full : Transcript codecs id 0 ((items.take i).map fun item => item.2) full
  current : Current codecs items id job i part

section Sending

variable {codecs : Codecs} {items : List (FileEntry × Bytes)} {src : Source} {id : Int32}
  {base : Path} {job : Job} {sent full part : List Block} {i : ℕ}

theorem Sending.entry (h : Sending codecs items id base job sent i full part)
    (hcount : items.length ≤ 2 ^ 31) :
    job.files[toIndex job.fileNum]? = items[i]?.map fun item => item.1 := by
  rw [h.at_, h.files, getElem?_toIndex _ i (by simpa using h.le) (by simpa using hcount),
    List.getElem?_map]

theorem Sending.flags (h : Sending codecs items id base job sent i full part)
    (confirmed waiting : Bool) :
    Sending codecs items id base { job with fileConfirmed := confirmed, fileIsWaiting := waiting }
      sent i full part :=
  ⟨h.ident, h.base, h.files, h.at_, h.le, h.sent, h.full, h.current⟩

theorem Sending.openDataStream (h : Sending codecs items id base job sent i full part)
    (hcount : items.length ≤ 2 ^ 31) (hopens : ∀ item ∈ items, Opens src base item) :
    Sending codecs items id base (openDataStream src job).1 sent i full part := by
  have hentry := h.entry hcount
  unfold ReadJob.openDataStream
  cases hitem : items[i]? with
  | none =>
    rw [hitem] at hentry
    simp only [hentry, Option.map_none]
    refine ⟨h.ident, h.base, h.files, h.at_, h.le, h.sent, h.full, ?_⟩
    have hcurrent := h.current
    unfold Current at hcurrent
    split at hcurrent
    · exact hcurrent
    · obtain ⟨item, y, hsome, -, -⟩ := hcurrent
      rw [hitem] at hsome
      cases hsome
  | some item =>
    rw [hitem] at hentry
    simp only [hentry, Option.map_some]
    cases hstream : job.dataStream with
    | some stream => exact h
    | none =>
      obtain ⟨inode, file, hopen, hdata⟩ := hopens item (List.mem_of_getElem? hitem)
      rw [← h.base] at hopen
      simp only [hopen]
      refine ⟨h.ident, h.base, h.files, h.at_, h.le, h.sent, h.full, ?_⟩
      have hcurrent := h.current
      unfold Current at hcurrent
      rw [hstream] at hcurrent
      exact ⟨item, [], hitem, ⟨by simp [hcurrent], by simp [hcurrent]⟩, by simpa using hdata⟩

theorem Sending.initDataStream (h : Sending codecs items id base job sent i full part)
    (hcount : items.length ≤ 2 ^ 31) (hopens : ∀ item ∈ items, Opens src base item) :
    Sending codecs items id base (initDataStream src job).1 sent i full part := by
  have hopened := h.openDataStream hcount hopens
  unfold ReadJob.initDataStream
  generalize ReadJob.openDataStream src job = opened at hopened ⊢
  obtain ⟨job', result⟩ := opened
  cases result with
  | error text => exact hopened
  | ok finished =>
    cases finished with
    | true => exact hopened
    | false =>
      simp only
      split
      · split
        · exact hopened
        · exact hopened.flags job'.fileConfirmed true
      · exact hopened

def sentAfter (sent : List Block) : Except String (Option Block) → List Block
  | .ok (some block) => sent ++ [block]
  | _ => sent

theorem Sending.read (h : Sending codecs items id base job sent i full part)
    (hcodec : ∀ x, codecs.decompress (src.compress x) = x) (hcount : items.length ≤ 2 ^ 31) :
    ∃ i' full' part', Sending codecs items id base (read src false job).1
      (sentAfter sent (read src false job).2) i' full' part' := by
  have hentry := h.entry hcount
  unfold ReadJob.read
  split
  · exact ⟨i, full, part, h⟩
  · cases hitem : items[i]? with
    | none =>
      rw [hitem] at hentry
      simp only [hentry, Option.map_none]
      refine ⟨i, full, part, h.ident, h.base, h.files, h.at_, h.le, h.sent, h.full, ?_⟩
      have hcurrent := h.current
      unfold Current at hcurrent
      split at hcurrent
      · exact hcurrent
      · obtain ⟨item, y, hsome, -, -⟩ := hcurrent
        rw [hitem] at hsome
        cases hsome
    | some item =>
      rw [hitem] at hentry
      simp only [hentry, Option.map_some]
      cases hstream : job.dataStream with
      | none => exact ⟨i, full, part, h⟩
      | some stream =>
        obtain ⟨file, rest⟩ := stream
        have hcurrent := h.current
        unfold Current at hcurrent
        rw [hstream] at hcurrent
        obtain ⟨item', y, hitem', hcarries, hdata⟩ := hcurrent
        obtain rfl := Option.some.inj (hitem.symm.trans hitem')
        have hlt : i < items.length := (List.getElem?_eq_some_iff.mp hitem).1
        have hfill := fillBuffer_eq src.chunk bufSize [] rest (by simp)
        rw [List.nil_append, List.length_nil, Nat.sub_zero] at hfill
        simp only [Bool.false_eq_true, if_false, hfill]
        split
        · rename_i hempty
          -- the file has ended, and its last block is the empty one
          have hrest : rest = [] := by
            have htake : rest.take bufSize = [] := List.isEmpty_iff.mp hempty
            rcases List.take_eq_nil_iff.mp htake with hzero | hnil
            · cases hzero
            · exact hnil
          rw [hrest, List.append_nil] at hdata
          subst hdata
          have hlast := hcarries.append (⟨job.id, job.fileNum, [], false⟩ : Block) h.ident h.at_
          rw [blockBytes, if_neg Bool.false_ne_true, List.append_nil] at hlast
          refine ⟨i + 1, full ++ (part ++ [⟨job.id, job.fileNum, [], false⟩]), [], ?_⟩
          refine ⟨h.ident, h.base, h.files, ?_, hlt, ?_, ?_, rfl⟩
          · rw [Int32.ofNat_add, ← h.at_]
            rfl
          · simp [sentAfter, h.sent]
          · obtain ⟨first, more, heq⟩ : ∃ first more,
                part ++ [⟨job.id, job.fileNum, [], false⟩] = first :: more := by
              cases part with
              | nil => exact ⟨_, _, rfl⟩
              | cons first more => exact ⟨_, _, rfl⟩
            rw [heq] at hlast ⊢
            have hlength : ((items.take i).map fun item => item.2).length = i := by
              rw [List.length_map, List.length_take]
              omega
            have hnext := h.full.append item.2 first more (by rwa [Nat.zero_add, hlength])
            rw [List.take_add_one, hitem, List.map_append]
            exact hnext
        · generalize hblock : (⟨job.id, job.fileNum, _, _⟩ : Block) = block
          have hbytes : blockBytes codecs block = rest.take bufSize := by
            rw [← hblock, blockBytes]
            by_cases hcompressed : (!isCompressedFile (if job.files.length = 1 &&
                item.1.name.isEmpty then (fileName job.base).getD [] else item.1.name) &&
                decide ((src.compress (rest.take bufSize)).length <
                  (rest.take bufSize).length)) = true
            · simp only [hcompressed, if_true, hcodec]
            · simp only [hcompressed, if_false, Bool.false_eq_true]
          have hnext := hcarries.append block (by rw [← hblock, ← h.ident])
              (by rw [← hblock, h.at_])
          rw [hbytes] at hnext
          refine ⟨i, full, part ++ [block], h.ident, h.base, h.files, h.at_, h.le, ?_, h.full, ?_⟩
          · simp [sentAfter, h.sent]
          · refine ⟨item, _, hitem, hnext, ?_⟩
            rw [List.append_assoc, List.take_append_drop, hdata]

theorem Sending.step {s s' : Sender} {event : Event}
    (h : Sending codecs items id base s.job s.sent i full part)
    (hcodec : ∀ x, codecs.decompress (src.compress x) = x) (hcount : items.length ≤ 2 ^ 31)
    (hopens : ∀ item ∈ items, Opens src base item) (hevent : event ≠ .turn true)
    (hstep : step src s event = some s') :
    ∃ i' full' part', Sending codecs items id base s'.job s'.sent i' full' part' := by
  cases event with
  | turn fails =>
    have hfails : fails = false := by
      cases fails with
      | false => rfl
      | true => exact absurd rfl hevent
    subst hfails
    have hnext := (h.initDataStream hcount hopens).read hcodec hcount
    simp only [ReadJob.step] at hstep
    generalize ReadJob.read src false (ReadJob.initDataStream src s.job).1 = result at hstep hnext
    obtain ⟨job', result⟩ := result
    cases result with
    | error text =>
      obtain rfl := Option.some.inj hstep
      exact hnext
    | ok block? =>
      cases block? <;> obtain rfl := Option.some.inj hstep <;> exact hnext
  | confirm fileNum =>
    simp only [ReadJob.step] at hstep
    split at hstep <;> obtain rfl := Option.some.inj hstep
    · exact ⟨i, full, part, h⟩
    · exact ⟨i, full, part, h.flags true s.job.fileIsWaiting⟩

/-- A read job that has come to its end has sent all of its files. -/
theorem transcript_of_run {s : Sender} {detect : Bool} {events : List Event}
    (hcodec : ∀ x, codecs.decompress (src.compress x) = x) (hcount : items.length ≤ 2 ^ 31)
    (hopens : ∀ item ∈ items, Opens src base item) (hevents : ∀ event ∈ events, event ≠ .turn true)
    (hrun : Runs.exec (ReadJob.step src)
      ⟨Job.newRead id base (items.map fun item => item.1) 0 detect, []⟩ events = some s)
    (hend : s.job.files[toIndex s.job.fileNum]? = none) :
    Transcript codecs id 0 (items.map fun item => item.2) s.sent := by
  have hstart : Sending codecs items id base
      (Job.newRead id base (items.map fun item => item.1) 0 detect) [] 0 [] [] :=
    ⟨rfl, rfl, rfl, rfl, Nat.zero_le _, rfl, .nil 0, rfl⟩
  obtain ⟨i, full, part, h⟩ := Runs.invariant_of_forall (fun event => event ≠ .turn true)
    (ReadJob.step src)
    (fun s => ∃ i full part, Sending codecs items id base s.job s.sent i full part)
    (fun s event t hevent ⟨i, full, part, h⟩ hstep => h.step hcodec hcount hopens hevent hstep)
    _ s events ⟨0, [], [], hstart⟩ hevents hrun
  rw [h.entry hcount, Option.map_eq_none_iff, List.getElem?_eq_none_iff] at hend
  have hwhole := h.full
  rw [List.take_of_length_le hend] at hwhole
  have hcurrent := h.current
  unfold Current at hcurrent
  split at hcurrent
  · rw [h.sent, hcurrent, List.append_nil]
    exact hwhole
  · obtain ⟨item, y, hitem, -, -⟩ := hcurrent
    rw [List.getElem?_eq_none hend] at hitem
    cases hitem

end Sending

end ClantoDesk.ReadJob
