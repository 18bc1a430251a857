import ClantoDesk.Guards
import ClantoDesk.LittleEndian
import ClantoDesk.ReadPieces

/-!
The messages for the terminal helper, src/server/terminal_helper.rs, from the bytes that
`encode_helper_message` makes of them to the loop of the helper that reads these from its input
pipe. The header and the payload are read into buffers that are used again for every message. How
the pipe cuts the bytes does not matter, and a message that does not arrive whole has no effect.
-/
namespace ClantoDesk.HelperFraming

open LittleEndian ReadPieces

def MSG_TYPE_DATA : UInt8 := 0x01
def MSG_TYPE_RESIZE : UInt8 := 0x02
def MSG_HEADER_SIZE : ℕ := 5
def MAX_PAYLOAD_SIZE : ℕ := 16 * 1024 * 1024

def encodeHelperMessage (msgType : UInt8) (payload : Bytes) : Bytes :=
  msgType :: leBytes 4 payload.length ++ payload

def encodeResizeMessage (rows cols : UInt16) : Bytes :=
  encodeHelperMessage MSG_TYPE_RESIZE (leBytes 2 rows.toNat ++ leBytes 2 cols.toNat)

/-! ### The input loop -/

abbrev Pipe := List (Piece UInt8)

inductive ReadResult where
  | done
  | eof
  | error
  deriving DecidableEq

/-- The bytes of the buffer from `pos` on are those of `data`, as far as these go. -/
def overwrite (buf : Bytes) (pos : ℕ) (data : Bytes) : Bytes :=
  buf.take pos ++ data ++ buf.drop (pos + data.length)

/-- The buffer from `pos` on is filled from the pipe. -/
def readExactOrEof (buf : Bytes) (pos : ℕ) (reader : Pipe) : ReadResult × Bytes × Pipe :=
  if pos < buf.length then
    match _h : read (buf.length - pos) reader with
    | (.ok [], rest) => (.eof, buf, rest)
    | (.ok (first :: more), rest) =>
      readExactOrEof (overwrite buf pos (first :: more)) (pos + (first :: more).length) rest
    | (.interrupted, rest) => readExactOrEof buf pos rest
    | (.failed, rest) => (.error, buf, rest)
  else (.done, buf, reader)
termination_by weight reader
decreasing_by
  · exact (read_ok _ _ _ _ _h (List.cons_ne_nil _ _)).2.2
  · exact (read_interrupted _ _ _ _h).2

variable (buf payloadBuf out : Bytes) (written : Bool)

theorem length_overwrite (data : Bytes) (pos : ℕ) (h : pos + data.length ≤ buf.length) :
    (overwrite buf pos data).length = buf.length := by
  simp only [overwrite, List.length_append, List.length_take, List.length_drop]
  omega

theorem take_overwrite (data : Bytes) (pos : ℕ) (h : pos + data.length ≤ buf.length) :
    (overwrite buf pos data).take (pos + data.length) = buf.take pos ++ data := by
  have hlength : (buf.take pos ++ data).length = pos + data.length := by
    simp only [List.length_append, List.length_take]
    omega
  exact List.take_left' hlength

/-- A buffer that was filled holds the front of what had arrived. -/
theorem readExactOrEof_done (pos : ℕ) (reader rest : Pipe)
    (hpos : pos ≤ buf.length) (h : readExactOrEof buf pos reader = (.done, out, rest)) :
    ∃ data, data.length = buf.length - pos ∧ out = buf.take pos ++ data ∧
      arrived reader = data ++ arrived rest ∧ weight rest ≤ weight reader ∧
      (pos < buf.length → weight rest < weight reader) := by
  fun_induction readExactOrEof buf pos reader with
  | case1 buf pos reader hlt left hread => simp at h
  | case2 buf pos reader hlt first more left hread ih =>
    obtain ⟨hle, harrived, hweight⟩ := read_ok _ _ _ _ hread (List.cons_ne_nil _ _)
    have hfits : pos + (first :: more).length ≤ buf.length := by omega
    have hlength := length_overwrite buf (first :: more) pos hfits
    obtain ⟨data, hdata, rfl, hrest, hlater, -⟩ := ih (by rw [hlength]; exact hfits) h
    rw [hlength] at hdata
    have hless := lt_of_le_of_lt hlater hweight
    refine ⟨first :: more ++ data, ?_, ?_, ?_, hless.le, fun _ => hless⟩
    · rw [List.length_append]
      omega
    · rw [take_overwrite buf _ pos hfits, List.append_assoc]
    · rw [harrived, hrest, List.append_assoc]
  | case3 buf pos reader hlt left hread ih =>
    obtain ⟨harrived, hweight⟩ := read_interrupted _ _ _ hread
    obtain ⟨data, hdata, hout, hrest, hlater, -⟩ := ih hpos h
    have hless := lt_of_le_of_lt hlater hweight
    exact ⟨data, hdata, hout, harrived.trans hrest, hless.le, fun _ => hless⟩
  | case4 buf pos reader hlt left hread => simp at h
  | case5 buf pos reader hge =>
    obtain ⟨rfl, rfl⟩ := Prod.mk.inj (Prod.mk.inj h).2
    have hfull : buf.length - pos = 0 := by omega
    refine ⟨[], hfull.symm, ?_, rfl, le_rfl, fun hlt => absurd hlt hge⟩
    rw [List.take_of_length_le (by omega), List.append_nil]

theorem readExactOrEof_of_arrived (pos : ℕ) (reader : Pipe)
    (h : buf.length - pos ≤ (arrived reader).length) :
    (readExactOrEof buf pos reader).1 = .done := by
  fun_induction readExactOrEof buf pos reader with
  | case1 buf pos reader hlt left hread =>
    rw [arrived_of_end _ _ _ hread (by omega), List.length_nil] at h
    omega
  | case2 buf pos reader hlt first more left hread ih =>
    obtain ⟨hle, harrived, -⟩ := read_ok _ _ _ _ hread (List.cons_ne_nil _ _)
    apply ih
    rw [length_overwrite buf _ pos (by omega)]
    rw [harrived, List.length_append] at h
    omega
  | case3 buf pos reader hlt left hread ih =>
    obtain ⟨harrived, -⟩ := read_interrupted _ _ _ hread
    exact ih (by rwa [← harrived])
  | case4 buf pos reader hlt left hread =>
    rw [arrived_of_failed _ _ _ hread, List.length_nil] at h
    omega
  | case5 buf pos reader hge => rfl

theorem readExactOrEof_whole (front back : Bytes) (reader : Pipe)
    (harrived : arrived reader = front ++ back) (hlength : front.length = buf.length) :
    ∃ rest, readExactOrEof buf 0 reader = (.done, front, rest) ∧ arrived rest = back := by
  have hdone := readExactOrEof_of_arrived buf 0 reader (by
    rw [harrived, List.length_append]
    omega)
  rcases hcall : readExactOrEof buf 0 reader with ⟨result, out, rest⟩
  rw [hcall] at hdone
  obtain rfl : result = .done := hdone
  obtain ⟨data, hdata, rfl, hrest, -⟩ :=
    readExactOrEof_done buf out 0 reader rest (Nat.zero_le _) hcall
  rw [harrived] at hrest
  obtain ⟨rfl, rfl⟩ := List.append_inj hrest (by omega)
  exact ⟨rest, by simp, rfl⟩

/-- What the loop does with the shell: `write_all` and `flush` for data, `resize` for a size. -/
inductive Call where
  | write (data : Bytes)
  | resize (rows cols : UInt16)

structure InputThread where
  headerBuf : Bytes
  payloadBuf : Bytes
  inputPipe : Pipe
  header_length : headerBuf.length = MSG_HEADER_SIZE

namespace InputThread

def start (inputPipe : Pipe) : InputThread :=
  ⟨List.replicate MSG_HEADER_SIZE 0, List.replicate 4096 0, inputPipe, List.length_replicate⟩

/-- What is done with the message in the buffers, and whether the loop goes on. The shell may not
take the data that is written to it. -/
def handle (written : Bool) (msgType : UInt8) (payloadBuf : Bytes) (payloadLen : ℕ) :
    List Call × Bool :=
  if msgType = MSG_TYPE_DATA then ([.write (payloadBuf.take payloadLen)], written)
  else if msgType = MSG_TYPE_RESIZE then
    if 4 ≤ payloadLen then
      ([.resize (UInt16.ofNat (readLE (payloadBuf.take 2)))
        (UInt16.ofNat (readLE ((payloadBuf.drop 2).take 2)))], true)
    else ([], true)
  else ([], false)

/-- The front of the buffer is filled, after the buffer has been made large enough. -/
def readPayload (payloadBuf : Bytes) (payloadLen : ℕ) (inputPipe : Pipe) : Option (Bytes × Pipe) :=
  let payloadBuf := payloadBuf ++ List.replicate (payloadLen - payloadBuf.length) 0
  if 0 < payloadLen then
    match readExactOrEof (payloadBuf.take payloadLen) 0 inputPipe with
    | (.done, payload, inputPipe) => some (payload ++ payloadBuf.drop payloadLen, inputPipe)
    | _ => none
  else some (payloadBuf, inputPipe)

theorem length_header (reader rest : Pipe)
    (h : readExactOrEof buf 0 reader = (.done, out, rest)) : out.length = buf.length := by
  obtain ⟨data, hlength, rfl, -⟩ := readExactOrEof_done buf out 0 reader rest (Nat.zero_le _) h
  simpa using hlength

/-- One round of the loop; `none` when the loop ends. -/
def round (written : Bool) (t : InputThread) : List Call × Option InputThread :=
  match h : readExactOrEof t.headerBuf 0 t.inputPipe with
  | (.done, headerBuf, inputPipe) =>
    let payloadLen := readLE ((headerBuf.drop 1).take 4)
    if MAX_PAYLOAD_SIZE < payloadLen then ([], none)
    else
      match readPayload t.payloadBuf payloadLen inputPipe with
      | none => ([], none)
      | some (payloadBuf, inputPipe) =>
        let (calls, goesOn) := handle written (headerBuf.headD 0) payloadBuf payloadLen
        (calls, if goesOn then
            some ⟨headerBuf, payloadBuf, inputPipe,
              (length_header _ _ _ _ h).trans t.header_length⟩
          else none)
  | _ => ([], none)

theorem weight_readPayload (payloadLen : ℕ) (inputPipe rest : Pipe)
    (h : readPayload payloadBuf payloadLen inputPipe = some (out, rest)) :
    weight rest ≤ weight inputPipe := by
  simp only [readPayload] at h
  split at h
  · split at h
    · rename_i payload left hread
      obtain ⟨-, rfl⟩ := Prod.mk.inj (Option.some.inj h)
      obtain ⟨-, -, -, -, hweight, -⟩ := readExactOrEof_done _ _ _ _ _ (Nat.zero_le _) hread
      exact hweight
    · cases h
  · exact (congrArg weight (Prod.mk.inj (Option.some.inj h)).2).ge

theorem weight_round (t next : InputThread) (calls : List Call)
    (h : t.round written = (calls, some next)) : weight next.inputPipe < weight t.inputPipe := by
  unfold round at h
  split at h
  · rename_i headerBuf inputPipe hread
    obtain ⟨-, -, -, -, -, hheader⟩ := readExactOrEof_done _ _ _ _ _ (Nat.zero_le _) hread
    have hweight := hheader (by rw [t.header_length]; decide)
    simp only at h
    split at h
    · cases h
    · split at h
      · cases h
      · rename_i payloadBuf left hpayload
        have hle := weight_readPayload _ _ _ _ _ hpayload
        obtain ⟨-, hnext⟩ := Prod.mk.inj h
        obtain ⟨-, rfl⟩ := of_guard hnext
        exact lt_of_le_of_lt hle hweight
  · cases h

/-- All rounds: whether the shell has exited is looked at before each, and each may fail to write
to the shell. -/
def inputLoop (exiting written : ℕ → Bool) (i : ℕ) (t : InputThread) : List Call :=
  if exiting i then []
  else
    match _h : t.round (written i) with
    | (calls, none) => calls
    | (calls, some next) => calls ++ inputLoop exiting written (i + 1) next
termination_by weight t.inputPipe
decreasing_by exact weight_round (written i) t next calls _h

end InputThread

/-! ### Messages -/

inductive HelperMessage where
  | data (payload : Bytes) (fits : payload.length ≤ MAX_PAYLOAD_SIZE)
  | resize (rows cols : UInt16)

namespace HelperMessage

def encode : HelperMessage → Bytes
  | .data payload _ => encodeHelperMessage MSG_TYPE_DATA payload
  | .resize rows cols => encodeResizeMessage rows cols

def call : HelperMessage → Call
  | .data payload _ => .write payload
  | .resize rows cols => .resize rows cols

def msgType : HelperMessage → UInt8
  | .data _ _ => MSG_TYPE_DATA
  | .resize _ _ => MSG_TYPE_RESIZE

def payload : HelperMessage → Bytes
  | .data payload _ => payload
  | .resize rows cols => leBytes 2 rows.toNat ++ leBytes 2 cols.toNat

def goesOn (written : Bool) : HelperMessage → Bool
  | .data _ _ => written
  | .resize _ _ => true

variable (m : HelperMessage)

theorem length_payload : m.payload.length ≤ MAX_PAYLOAD_SIZE := by
  cases m with
  | data payload fits => exact fits
  | resize rows cols => simp [payload, MAX_PAYLOAD_SIZE]

def header (m : HelperMessage) : Bytes := m.msgType :: leBytes 4 m.payload.length

@[simp] theorem length_header (m : HelperMessage) : m.header.length = MSG_HEADER_SIZE := by
  simp [header, MSG_HEADER_SIZE]

theorem encode_eq : m.encode = m.header ++ m.payload := by
  cases m with
  | data payload fits => rfl
  | resize rows cols => rfl

theorem readLE_header : readLE ((m.header.drop 1).take 4) = m.payload.length := by
  have hfits := m.length_payload
  have htake : (m.header.drop 1).take 4 = leBytes 4 m.payload.length := by
    rw [header, List.drop_one, List.tail_cons]
    exact List.take_of_length_le (by simp)
  rw [htake, readLE_leBytes_of_lt]
  simp only [MAX_PAYLOAD_SIZE] at hfits
  omega

theorem ofNat_readLE (n : UInt16) : UInt16.ofNat (readLE (leBytes 2 n.toNat)) = n := by
  rw [readLE_leBytes_of_lt 2 n.toNat n.toNat_lt, UInt16.ofNat_toNat]

theorem handle_payload (behind : Bytes) :
    InputThread.handle written m.msgType (m.payload ++ behind) m.payload.length =
      ([m.call], m.goesOn written) := by
  cases m with
  | data payload fits => simp [InputThread.handle, HelperMessage.payload, msgType, call, goesOn]
  | resize rows cols =>
    have hrows : (leBytes 2 rows.toNat ++ leBytes 2 cols.toNat ++ behind).take 2 =
        leBytes 2 rows.toNat := by
      rw [List.append_assoc, take_leBytes]
    have hcols : ((leBytes 2 rows.toNat ++ leBytes 2 cols.toNat ++ behind).drop 2).take 2 =
        leBytes 2 cols.toNat := by
      rw [List.append_assoc, drop_leBytes, take_leBytes]
    have hother : MSG_TYPE_RESIZE ≠ MSG_TYPE_DATA := by decide
    simp only [InputThread.handle, payload, msgType, call, goesOn, hrows, hcols, ofNat_readLE]
    rw [if_neg hother, if_pos trivial, if_pos (by simp)]

end HelperMessage

/-! ### Rounds of the loop -/

namespace InputThread

theorem readPayload_whole (payload back : Bytes) (inputPipe : Pipe)
    (harrived : arrived inputPipe = payload ++ back) :
    ∃ behind rest, readPayload payloadBuf payload.length inputPipe =
      some (payload ++ behind, rest) ∧ arrived rest = back := by
  unfold readPayload
  simp only
  split
  · obtain ⟨rest, hread, hrest⟩ := readExactOrEof_whole
      ((payloadBuf ++ List.replicate (payload.length - payloadBuf.length) 0).take payload.length)
      payload back inputPipe harrived (by
        simp only [List.length_take, List.length_append, List.length_replicate]
        omega)
    rw [hread]
    exact ⟨_, rest, rfl, hrest⟩
  · obtain rfl : payload = [] := List.eq_nil_of_length_eq_zero (by omega)
    exact ⟨_, inputPipe, rfl, harrived⟩

theorem readPayload_cut (payloadLen : ℕ) (inputPipe : Pipe)
    (hshort : (arrived inputPipe).length < payloadLen) :
    readPayload payloadBuf payloadLen inputPipe = none := by
  unfold readPayload
  simp only
  rw [if_pos (by omega)]
  split
  · rename_i payload rest hread
    obtain ⟨data, hdata, -, harrived, -⟩ := readExactOrEof_done _ _ _ _ _ (Nat.zero_le _) hread
    rw [harrived, List.length_append, hdata] at hshort
    simp only [List.length_take, List.length_append, List.length_replicate] at hshort
    omega
  · rfl

theorem round_whole (t : InputThread) (m : HelperMessage) (back : Bytes)
    (harrived : arrived t.inputPipe = m.encode ++ back) :
    ∃ next, arrived next.inputPipe = back ∧
      t.round written = ([m.call], if m.goesOn written then some next else none) := by
  rw [m.encode_eq, List.append_assoc] at harrived
  obtain ⟨behindHeader, hheader, hpayload⟩ := readExactOrEof_whole t.headerBuf m.header
    (m.payload ++ back) t.inputPipe harrived (m.length_header.trans t.header_length.symm)
  obtain ⟨behind, rest, hread, hrest⟩ :=
    readPayload_whole t.payloadBuf m.payload back behindHeader hpayload
  refine ⟨⟨m.header, m.payload ++ behind, rest, m.length_header⟩, hrest, ?_⟩
  unfold round
  split
  · rename_i headerBuf inputPipe hfirst
    rw [hheader] at hfirst
    obtain ⟨rfl, rfl⟩ := Prod.mk.inj (Prod.mk.inj hfirst).2
    have htype : m.header.headD 0 = m.msgType := rfl
    simp only [m.readLE_header, hread, htype, m.handle_payload written behind]
    rw [if_neg (Nat.not_lt.mpr m.length_payload)]
  · rename_i hfirst
    exact absurd hheader (hfirst _ _)

theorem round_cut (t : InputThread) (m : HelperMessage)
    (harrived : arrived t.inputPipe <+: m.encode)
    (hshort : (arrived t.inputPipe).length < m.encode.length) :
    t.round written = ([], none) := by
  rw [m.encode_eq] at harrived hshort
  unfold round
  split
  · rename_i headerBuf inputPipe hfirst
    obtain ⟨data, hdata, hout, hrest, -⟩ := readExactOrEof_done _ _ _ _ _ (Nat.zero_le _) hfirst
    obtain rfl : headerBuf = data := by simpa using hout
    have hlength : headerBuf.length = m.header.length := by
      rw [hdata, m.length_header, t.header_length, Nat.sub_zero]
    rw [hrest] at harrived hshort
    obtain ⟨missing, hmissing⟩ := harrived
    rw [List.append_assoc] at hmissing
    obtain ⟨rfl, -⟩ := List.append_inj hmissing hlength
    rw [List.length_append, List.length_append] at hshort
    have hnone := readPayload_cut t.payloadBuf m.payload.length inputPipe (by omega)
    simp only [m.readLE_header, hnone]
    rw [if_neg (Nat.not_lt.mpr m.length_payload)]
  · rfl

end InputThread

/-! ### Whole streams -/

def encodeAll (messages : List HelperMessage) : Bytes :=
  (messages.map HelperMessage.encode).flatten

/-- The helper goes on as long as the shell runs and takes the data. -/
def ShellRuns (exiting written : ℕ → Bool) : Prop :=
  ∀ i, exiting i = false ∧ written i = true

theorem length_encode_pos (m : HelperMessage) : 0 < m.encode.length := by
  rw [m.encode_eq, List.length_append, m.length_header]
  simp [MSG_HEADER_SIZE]

theorem inputLoop_exiting (exiting written : ℕ → Bool) (i : ℕ) (t : InputThread)
    (h : exiting i = true) : t.inputLoop exiting written i = [] := by
  rw [InputThread.inputLoop, if_pos h]

theorem inputLoop_last (exiting written : ℕ → Bool) (i : ℕ) (t : InputThread) (calls : List Call)
    (h : exiting i = false) (hround : t.round (written i) = (calls, none)) :
    t.inputLoop exiting written i = calls := by
  rw [InputThread.inputLoop, if_neg (by simp [h])]
  split
  · rename_i calls' heq
    exact (Prod.mk.inj (heq.symm.trans hround)).1
  · rename_i calls' next heq
    cases (Prod.mk.inj (heq.symm.trans hround)).2

theorem inputLoop_next (exiting written : ℕ → Bool) (i : ℕ) (t next : InputThread)
    (calls : List Call) (h : exiting i = false)
    (hround : t.round (written i) = (calls, some next)) :
    t.inputLoop exiting written i = calls ++ next.inputLoop exiting written (i + 1) := by
  rw [InputThread.inputLoop, if_neg (by simp [h])]
  split
  · rename_i calls' heq
    cases (Prod.mk.inj (heq.symm.trans hround)).2
  · rename_i calls' next' heq
    obtain ⟨rfl, hnext⟩ := Prod.mk.inj (heq.symm.trans hround)
    obtain rfl := Option.some.inj hnext
    rfl

/-- Nothing but whole messages is handled, in their order. -/
theorem inputLoop_prefix (exiting written : ℕ → Bool) (i : ℕ) (t : InputThread)
    (messages : List HelperMessage) (harrived : arrived t.inputPipe <+: encodeAll messages) :
    t.inputLoop exiting written i <+: messages.map HelperMessage.call := by
  induction messages generalizing i t with
  | nil =>
    have hempty : arrived t.inputPipe = [] := List.prefix_nil.mp harrived
    have hround := t.round_cut (written i) (.resize 0 0) (by simp [hempty]) (by
      rw [hempty]
      exact length_encode_pos _)
    cases hexiting : exiting i with
    | true => rw [inputLoop_exiting exiting written i t hexiting]; exact List.nil_prefix
    | false => rw [inputLoop_last exiting written i t [] hexiting hround]; exact List.nil_prefix
  | cons m messages ih =>
    cases hexiting : exiting i with
    | true => rw [inputLoop_exiting exiting written i t hexiting]; exact List.nil_prefix
    | false =>
      have hfront : m.encode <+: encodeAll (m :: messages) := List.prefix_append _ _
      by_cases hwhole : m.encode.length ≤ (arrived t.inputPipe).length
      · obtain ⟨back, hback⟩ := List.prefix_of_prefix_length_le hfront harrived hwhole
        obtain ⟨next, hnext, hround⟩ := t.round_whole (written i) m back hback.symm
        rw [← hback] at harrived
        have hrest : back <+: encodeAll messages := (List.prefix_append_right_inj _).mp harrived
        split at hround
        · rw [inputLoop_next exiting written i t next _ hexiting hround]
          have hlater := ih (i + 1) next (hnext ▸ hrest)
          exact (List.prefix_append_right_inj [m.call]).mpr hlater
        · rw [inputLoop_last exiting written i t _ hexiting hround]
          exact List.prefix_append [m.call] _
      · have hpart := List.prefix_of_prefix_length_le harrived hfront (by omega)
        have hround := t.round_cut (written i) m hpart (by omega)
        rw [inputLoop_last exiting written i t [] hexiting hround]
        exact List.nil_prefix

theorem inputLoop_whole (exiting written : ℕ → Bool) (i : ℕ) (t : InputThread)
    (messages : List HelperMessage) (hruns : ShellRuns exiting written)
    (harrived : encodeAll messages <+: arrived t.inputPipe) :
    messages.map HelperMessage.call <+: t.inputLoop exiting written i := by
  induction messages generalizing i t with
  | nil => exact List.nil_prefix
  | cons m messages ih =>
    obtain ⟨hexiting, hwritten⟩ := hruns i
    obtain ⟨back, hback⟩ := harrived
    have hencode : encodeAll (m :: messages) = m.encode ++ encodeAll messages := rfl
    rw [hencode, List.append_assoc] at hback
    obtain ⟨next, hnext, hround⟩ := t.round_whole (written i) m _ hback.symm
    have hgoes : m.goesOn (written i) = true := by
      cases m with
      | data payload fits => exact hwritten
      | resize rows cols => rfl
    rw [if_pos hgoes] at hround
    rw [inputLoop_next exiting written i t next _ hexiting hround]
    have hlater := ih (i + 1) next (by rw [hnext]; exact List.prefix_append _ _)
    exact (List.prefix_append_right_inj [m.call]).mpr hlater

/-- However the bytes of some messages are cut and as far as they arrive, the helper handles a front
part of the messages; while the shell runs, this is all that has arrived whole, and with the last
byte every message. -/
theorem input_loop_recovers (messages : List HelperMessage) (inputPipe : Pipe)
    (exiting written : ℕ → Bool) (harrived : arrived inputPipe <+: encodeAll messages) :
    (InputThread.start inputPipe).inputLoop exiting written 0 <+:
      messages.map HelperMessage.call ∧
    (ShellRuns exiting written →
      (∀ whole, encodeAll whole <+: arrived inputPipe →
        whole.map HelperMessage.call <+:
          (InputThread.start inputPipe).inputLoop exiting written 0) ∧
      (arrived inputPipe = encodeAll messages →
        (InputThread.start inputPipe).inputLoop exiting written 0 =
          messages.map HelperMessage.call)) := by
  have hfront := inputLoop_prefix exiting written 0 (InputThread.start inputPipe) messages harrived
  refine ⟨hfront, fun hruns => ⟨?_, ?_⟩⟩
  · intro whole hwhole
    exact inputLoop_whole exiting written 0 (InputThread.start inputPipe) whole hruns hwhole
  · intro hall
    have hwhole := inputLoop_whole exiting written 0 (InputThread.start inputPipe) messages hruns
      (by rw [← hall]; exact List.prefix_refl _)
    exact hfront.eq_of_length_le hwhole.length_le

/-- A size cut inside its header and inside its payload, after two letters, and the front of
another message. -/
theorem input_loop_recovers_cut :
    arrived [Piece.bytes 1 [2], .interrupted, .bytes 0 [0, 0, 104, 105, 2, 4], .bytes 0 [0, 0, 24],
        .bytes 0 [80, 0, 1]] <+:
      encodeAll [.data [104, 105] (by decide), .resize 24 80, .data [33] (by decide)] ∧
    [Call.write [104, 105], .resize 24 80] <+:
      (InputThread.start [Piece.bytes 1 [2], .interrupted, .bytes 0 [0, 0, 104, 105, 2, 4],
        .bytes 0 [0, 0, 24], .bytes 0 [80, 0, 1]]).inputLoop
          (fun _ => false) (fun _ => true) 0 := by
  have harrived : arrived [Piece.bytes 1 [2], .interrupted, .bytes 0 [0, 0, 104, 105, 2, 4],
        .bytes 0 [0, 0, 24], .bytes 0 [80, 0, 1]] <+:
      encodeAll [.data [104, 105] (by decide), .resize 24 80, .data [33] (by decide)] := by
    decide
  refine ⟨harrived, ?_⟩
  have hrecovers := input_loop_recovers _ _ (fun _ => false) (fun _ => true) harrived
  exact (hrecovers.2 fun _ => ⟨rfl, rfl⟩).1 [.data [104, 105] (by decide), .resize 24 80]
    (by decide)

end ClantoDesk.HelperFraming
