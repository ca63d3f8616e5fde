import CryptoYen.Library.Framing
import CryptoYen.Primitives.Format

set_option autoImplicit false

namespace CryptoYen

def MAX_PROTOCOL_MESSAGE_LENGTH : Nat := 2 * 1024 * 1024

-- The first bytes of every message of a network (CChainParams::MessageStart).
abbrev MessageStart := { pchMessageStart : List UInt8 // pchMessageStart.length = 4 }

structure CMessageHeader where
  pchMessageStart : List UInt8
  pchCommand : List UInt8
  nMessageSize : Nat
  nChecksum : Nat
  deriving DecidableEq, Repr

namespace CMessageHeader

def MESSAGE_START_SIZE : Nat := 4
def COMMAND_SIZE : Nat := 12
def MESSAGE_SIZE_OFFSET : Nat := MESSAGE_START_SIZE + COMMAND_SIZE
def CHECKSUM_OFFSET : Nat := MESSAGE_SIZE_OFFSET + 4
def HEADER_SIZE : Nat := MESSAGE_START_SIZE + COMMAND_SIZE + 4 + 4

def flatData (n : Nat) : Codec String (List UInt8) := (Codec.byte streamFailures).times n

def format : Codec String CMessageHeader :=
  ((flatData MESSAGE_START_SIZE).pair
    ((flatData COMMAND_SIZE).pair (Format.uint32.pair Format.uint32))).via
    (fun hdr => (hdr.pchMessageStart, hdr.pchCommand, hdr.nMessageSize, hdr.nChecksum))
    fun fields => ⟨fields.1, fields.2.1, fields.2.2.1, fields.2.2.2⟩

def empty (start : MessageStart) : CMessageHeader :=
  ⟨start.1, List.replicate COMMAND_SIZE 0, 0xffffffff, 0⟩

def strncpy (n : Nat) (psz : List UInt8) : List UInt8 :=
  let copied := (psz.takeWhile (· != 0)).take n
  copied ++ List.replicate (n - copied.length) 0

def make (start : MessageStart) (pszCommand : List UInt8) (nMessageSizeIn : Nat) : CMessageHeader :=
  ⟨start.1, strncpy COMMAND_SIZE pszCommand, nMessageSizeIn, 0⟩

def GetCommand (hdr : CMessageHeader) : List UInt8 := hdr.pchCommand.takeWhile (· != 0)

def validCommand : List UInt8 → Bool
  | [] => true
  | p1 :: rest =>
      if p1 == 0 then rest.all (· == 0)
      else if p1 < 0x20 || 0x7E < p1 then false
      else validCommand rest

def IsValid (start : MessageStart) (hdr : CMessageHeader) : Bool :=
  hdr.pchMessageStart == start.1 && validCommand hdr.pchCommand && !decide (MAX_SIZE < hdr.nMessageSize)

theorem flatData_read (n : Nat) (bytes : List UInt8) (enough : n ≤ bytes.length) :
    (flatData n).read bytes = .ok (bytes.take n, bytes.drop n) := by
  change (Codec.byte streamFailures).readMany n bytes = _
  induction n generalizing bytes with
  | zero => rw [Codec.readMany, List.take_zero, List.drop_zero]
  | succ n ih =>
      cases bytes with
      | nil => exact absurd enough (Nat.not_succ_le_zero n)
      | cons byte bytes =>
          have one : (Codec.byte streamFailures).read (byte :: bytes) = .ok (byte, bytes) := by
            simp [Codec.byte, Codec.via, Codec.nat, Codec.takeBytes, Except.map, Codec.leValue]
          rw [Codec.readMany, one]
          simp only [bind, Except.bind, ih bytes (Nat.le_of_succ_le_succ enough)]
          rfl

def ofBytes (bytes : List UInt8) : CMessageHeader :=
  let rest := bytes.drop MESSAGE_START_SIZE
  let size := rest.drop COMMAND_SIZE
  ⟨bytes.take MESSAGE_START_SIZE, rest.take COMMAND_SIZE, Codec.leValue (size.take 4),
    Codec.leValue ((size.drop 4).take 4)⟩

theorem format_read (bytes : List UInt8) (whole : bytes.length = HEADER_SIZE) :
    format.read bytes = .ok (ofBytes bytes, []) := by
  have number (rest : List UInt8) (enough : 4 ≤ rest.length) :
      Format.uint32.read rest = .ok (Codec.leValue (rest.take 4), rest.drop 4) := by
    simp only [Format.uint32, Codec.nat, Codec.takeBytes]
    rw [if_neg (by omega)]
    rfl
  have start := flatData_read MESSAGE_START_SIZE bytes (by rw [whole]; decide)
  have command := flatData_read COMMAND_SIZE (bytes.drop MESSAGE_START_SIZE)
    (by rw [List.length_drop, whole]; decide)
  have nMessageSize := number ((bytes.drop MESSAGE_START_SIZE).drop COMMAND_SIZE)
    (by rw [List.length_drop, List.length_drop, whole]; decide)
  have nChecksum := number (((bytes.drop MESSAGE_START_SIZE).drop COMMAND_SIZE).drop 4)
    (by rw [List.length_drop, List.length_drop, List.length_drop, whole]; decide)
  have all : (((bytes.drop MESSAGE_START_SIZE).drop COMMAND_SIZE).drop 4).drop 4 = [] := by
    rw [List.drop_drop, List.drop_drop, List.drop_drop, List.drop_eq_nil_iff, whole]
    decide
  rw [all] at nChecksum
  simp only [format, Codec.via, Codec.pair, start, command, nMessageSize, nChecksum, bind, Except.bind,
    pure, Except.pure, Except.map]
  rfl

theorem flatData_write (n : Nat) (bytes : List UInt8) : (flatData n).write bytes = bytes := by
  change bytes.flatMap (Codec.byte streamFailures).write = bytes
  induction bytes with
  | nil => rfl
  | cons byte bytes ih =>
      have one : (Codec.byte streamFailures).write byte = [byte] := Codec.leBytes_leValue [byte]
      rw [List.flatMap_cons, one, ih, List.singleton_append]

theorem write_fields (hdr : CMessageHeader) :
    format.write hdr = hdr.pchMessageStart ++
      (hdr.pchCommand ++ (Codec.leBytes 4 hdr.nMessageSize ++ Codec.leBytes 4 hdr.nChecksum)) :=
  congrArg₂ (· ++ ·) (flatData_write _ _) (congrArg (· ++ _) (flatData_write _ _))

theorem ofBytes_write (hdr : CMessageHeader) (start : hdr.pchMessageStart.length = MESSAGE_START_SIZE)
    (command : hdr.pchCommand.length = COMMAND_SIZE) (nMessageSize : hdr.nMessageSize < 256 ^ 4)
    (nChecksum : hdr.nChecksum < 256 ^ 4) :
    (format.write hdr).length = HEADER_SIZE ∧ ofBytes (format.write hdr) = hdr := by
  have field (n : Nat) : (Codec.leBytes 4 n).length = 4 := Codec.leBytes_length 4 n
  have fields := write_fields hdr
  refine ⟨?_, ?_⟩
  · simp only [fields, List.length_append, start, command, field]
    rfl
  · simp only [ofBytes, fields, ← start, ← command, List.take_left, List.drop_left]
    rw [List.take_left' (field _), List.drop_left' (field _), List.take_of_length_le (field _).le,
      Codec.leValue_leBytes 4 _ nMessageSize, Codec.leValue_leBytes 4 _ nChecksum]

theorem format_write (bytes : List UInt8) (whole : bytes.length = HEADER_SIZE) :
    format.write (ofBytes bytes) = bytes := by
  have number (field : List UInt8) (length : field.length = 4) :
      Format.uint32.write (Codec.leValue field) = field := by
    change Codec.leBytes 4 _ = _
    rw [← length]
    exact Codec.leBytes_leValue field
  let rest := bytes.drop MESSAGE_START_SIZE
  let size := rest.drop COMMAND_SIZE
  have left : size.length = 8 := by
    rw [List.length_drop, List.length_drop, whole]
    rfl
  calc format.write (ofBytes bytes)
      = (flatData _).write (bytes.take MESSAGE_START_SIZE) ++
          ((flatData _).write (rest.take COMMAND_SIZE) ++
            (Format.uint32.write (Codec.leValue (size.take 4)) ++
              Format.uint32.write (Codec.leValue ((size.drop 4).take 4)))) := rfl
    _ = bytes.take MESSAGE_START_SIZE ++ (rest.take COMMAND_SIZE ++ (size.take 4 ++ (size.drop 4).take 4)) := by
        rw [flatData_write, flatData_write, number _ (by rw [List.length_take, left]; rfl),
          number _ (by rw [List.length_take, List.length_drop, left]; rfl)]
    _ = bytes := by
        rw [List.take_of_length_le (l := size.drop 4) (by rw [List.length_drop, left]),
          List.take_append_drop, List.take_append_drop, List.take_append_drop]

end CMessageHeader

structure CNetMessage where
  in_data : Bool
  -- The header, as far as it is in.
  hdrbuf : List UInt8
  hdr : CMessageHeader
  nHdrPos : Nat
  vRecv : List UInt8
  nDataPos : Nat
  deriving DecidableEq, Repr

-- None is a write outside the buffer.
def memcpy (buffer : List UInt8) (pos : Nat) (pch : List UInt8) : Option (List UInt8) :=
  if pos + pch.length ≤ buffer.length then
    some (buffer.take pos ++ pch ++ buffer.drop (pos + pch.length))
  else none

def resize (buffer : List UInt8) (n : Nat) : List UInt8 :=
  buffer.take n ++ List.replicate (n - buffer.length) 0

namespace CNetMessage

def new (start : MessageStart) : CNetMessage :=
  ⟨false, List.replicate 24 0, .empty start, 0, [], 0⟩

def complete (msg : CNetMessage) : Bool := msg.in_data && msg.hdr.nMessageSize == msg.nDataPos

/-- The bytes that were handled; none is the -1 of the source. -/
def readHeader (pch : List UInt8) (msg : CNetMessage) : Option (CNetMessage × Option Nat) := do
  let nRemaining := 24 - msg.nHdrPos
  let nCopy := min nRemaining pch.length
  let hdrbuf ← memcpy msg.hdrbuf msg.nHdrPos (pch.take nCopy)
  let msg := { msg with hdrbuf, nHdrPos := msg.nHdrPos + nCopy }
  -- if header incomplete, exit
  if msg.nHdrPos < 24 then return (msg, some nCopy)
  match CMessageHeader.format.read msg.hdrbuf with
  | .error _ => return (msg, none)
  | .ok (hdr, hdrbuf) =>
      let msg := { msg with hdr, hdrbuf }
      if MAX_SIZE < hdr.nMessageSize then return (msg, none)
      return ({ msg with in_data := true }, some nCopy)

def readData (pch : List UInt8) (msg : CNetMessage) : Option (CNetMessage × Option Nat) := do
  let nRemaining := msg.hdr.nMessageSize - msg.nDataPos
  let nCopy := min nRemaining pch.length
  -- Allocate up to 256 KiB ahead, but never more than the total message size.
  let vRecv :=
    if msg.vRecv.length < msg.nDataPos + nCopy then
      resize msg.vRecv (min msg.hdr.nMessageSize (msg.nDataPos + nCopy + 256 * 1024))
    else msg.vRecv
  let vRecv ← memcpy vRecv msg.nDataPos (pch.take nCopy)
  return ({ msg with vRecv, nDataPos := msg.nDataPos + nCopy }, some nCopy)

def readBytes (pch : List UInt8) (msg : CNetMessage) : Option (CNetMessage × Option Nat) :=
  if msg.in_data then msg.readData pch else msg.readHeader pch

end CNetMessage

section receiving

variable (start : MessageStart)

def current (vRecvMsg : List CNetMessage) : List CNetMessage × CNetMessage :=
  match vRecvMsg.getLast? with
  | none => ([], .new start)
  | some msg => if msg.complete then (vRecvMsg, .new start) else (vRecvMsg.dropLast, msg)

/-- The loop of ReceiveMsgBytes; none is a write outside a buffer, or no end. -/
def receiveLoop : Nat → List CNetMessage → List UInt8 → Option (List CNetMessage × Bool)
  | _, vRecvMsg, [] => some (vRecvMsg, true)
  | 0, _, _ :: _ => none
  | fuel + 1, vRecvMsg, pch@(_ :: _) => do
      let (before, msg) := current start vRecvMsg
      let (msg, handled) ← msg.readBytes pch
      match handled with
      | none => return (before ++ [msg], false)
      | some handled =>
          if msg.in_data ∧ MAX_PROTOCOL_MESSAGE_LENGTH < msg.hdr.nMessageSize then
            return (before ++ [msg], false)
          else receiveLoop fuel (before ++ [msg]) (pch.drop handled)

def ReceiveMsgBytes (vRecvMsg : List CNetMessage) (pch : List UInt8) :
    Option (List CNetMessage × Bool) :=
  receiveLoop start pch.length vRecvMsg pch

end receiving

section refinement

/-- What the bytes of a connection are as messages; a size above the limit is refused. -/
def framing : Framing UInt8 CMessageHeader where
  headerSize := CMessageHeader.HEADER_SIZE
  positive := by decide
  read bytes :=
    match CMessageHeader.format.read bytes with
    | .ok (hdr, _) => if hdr.nMessageSize ≤ MAX_PROTOCOL_MESSAGE_LENGTH then some hdr else none
    | .error _ => none
  size hdr := hdr.nMessageSize

theorem memcpy_within (buffer pch : List UInt8) (pos : Nat) (within : pos + pch.length ≤ buffer.length) :
    ∃ written, memcpy buffer pos pch = some written ∧ written.length = buffer.length ∧
      written.take (pos + pch.length) = buffer.take pos ++ pch := by
  refine ⟨_, if_pos within, ?_, ?_⟩
  · simp only [List.length_append, List.length_take, List.length_drop]
    omega
  · have here : (buffer.take pos ++ pch).length = pos + pch.length := by
      rw [List.length_append, List.length_take, Nat.min_eq_left (by omega)]
    rw [← here, List.take_left]

theorem memcpy_field (before old new after : List UInt8) (same : old.length = new.length) :
    memcpy (before ++ (old ++ after)) before.length new = some (before ++ (new ++ after)) := by
  rw [memcpy, if_pos (by simp only [List.length_append]; omega), List.take_left, ← same,
    ← List.drop_drop, List.drop_left, List.drop_left, List.append_assoc]

theorem resize_ahead (buffer : List UInt8) (n : Nat) (more : buffer.length ≤ n) :
    (resize buffer n).length = n ∧ ∀ pos, pos ≤ buffer.length →
      (resize buffer n).take pos = buffer.take pos := by
  have same : buffer.take n = buffer := List.take_of_length_le more
  rw [resize, same]
  refine ⟨?_, fun pos within => List.take_append_of_le_length within⟩
  rw [List.length_append, List.length_replicate]
  omega

def Bounded (msg : CNetMessage) : Prop :=
  msg.vRecv.length ≤ min msg.hdr.nMessageSize (msg.nDataPos + 256 * 1024)

def Holds (msg : CNetMessage) : Framing.Pending UInt8 CMessageHeader → Prop
  | .header bytes =>
      msg.in_data = false ∧ msg.hdrbuf.length = CMessageHeader.HEADER_SIZE ∧
        bytes.length < CMessageHeader.HEADER_SIZE ∧ msg.nHdrPos = bytes.length ∧
        msg.hdrbuf.take bytes.length = bytes ∧ msg.vRecv = [] ∧ msg.nDataPos = 0
  | .body hdr bytes =>
      msg.in_data = true ∧ msg.hdr = hdr ∧ hdr.nMessageSize ≤ MAX_PROTOCOL_MESSAGE_LENGTH ∧
        bytes.length ≤ hdr.nMessageSize ∧ msg.nDataPos = bytes.length ∧
        bytes.length ≤ msg.vRecv.length ∧ msg.vRecv.take bytes.length = bytes ∧ Bounded msg

theorem Holds.bounded (msg : CNetMessage) (pending : Framing.Pending UInt8 CMessageHeader)
    (holds : Holds msg pending) : Bounded msg := by
  cases pending with
  | header bytes =>
      obtain ⟨_, _, _, _, _, empty, _⟩ := holds
      rw [Bounded, empty]
      exact Nat.zero_le _
  | body hdr bytes =>
      obtain ⟨_, _, _, _, _, _, _, bounded⟩ := holds
      exact bounded

theorem holds_new (start : MessageStart) : Holds (.new start) (.header []) :=
  ⟨rfl, rfl, by decide, rfl, rfl, rfl, rfl⟩

def frame (msg : CNetMessage) : CMessageHeader × List UInt8 := (msg.hdr, msg.vRecv)

structure Whole (msg : CNetMessage) : Prop where
  complete : msg.complete = true
  size : msg.vRecv.length = msg.hdr.nMessageSize

theorem Whole.bounded (msg : CNetMessage) (whole : Whole msg) : Bounded msg := by
  have complete := whole.complete
  rw [CNetMessage.complete, Bool.and_eq_true, beq_iff_eq] at complete
  rw [Bounded, whole.size, complete.2]
  omega

theorem Holds.whole (msg : CNetMessage) (hdr : CMessageHeader) (bytes : List UInt8)
    (holds : Holds msg (.body hdr bytes)) (all : bytes.length = hdr.nMessageSize) :
    Whole msg ∧ frame msg = (hdr, bytes) := by
  obtain ⟨in_data, same, _, _, pos, enough, taken, bounded⟩ := holds
  rw [Bounded, same] at bounded
  have length : msg.vRecv.length = bytes.length := by omega
  rw [← length, List.take_length] at taken
  refine ⟨⟨?_, by rw [length, all, same]⟩, by rw [frame, same, taken]⟩
  rw [CNetMessage.complete, in_data, same, pos, all, Bool.true_and, beq_self_eq_true]

theorem Holds.incomplete (msg : CNetMessage) (hdr : CMessageHeader) (bytes : List UInt8)
    (holds : Holds msg (.body hdr bytes)) (more : bytes.length ≠ hdr.nMessageSize) :
    msg.complete = false := by
  obtain ⟨_, same, _, _, pos, _⟩ := holds
  rw [CNetMessage.complete, same, pos, beq_eq_false_iff_ne.mpr (Ne.symm more), Bool.and_false]

def Receives (vRecvMsg : List CNetMessage) (r : Framing.Received UInt8 CMessageHeader) : Prop :=
  ∃ before, before.map frame = r.frames ∧ (∀ msg ∈ before, Whole msg) ∧
    ((vRecvMsg = before ∧ r.pending = .header []) ∨
      ∃ msg, vRecvMsg = before ++ [msg] ∧ Holds msg r.pending ∧ msg.complete = false ∧
        r.pending ≠ .header [])

theorem Receives.bounded (vRecvMsg : List CNetMessage) (r : Framing.Received UInt8 CMessageHeader)
    (receives : Receives vRecvMsg r) : ∀ msg ∈ vRecvMsg, Bounded msg := by
  obtain ⟨before, _, wholes, ⟨rfl, _⟩ | ⟨msg, rfl, holds, _, _⟩⟩ := receives
  · exact fun msg mem => (wholes msg mem).bounded
  · intro other mem
    rcases List.mem_append.mp mem with mem | mem
    · exact (wholes other mem).bounded
    · rw [List.mem_singleton.mp mem]
      exact holds.bounded

theorem current_holds (start : MessageStart) (vRecvMsg : List CNetMessage)
    (r : Framing.Received UInt8 CMessageHeader) (receives : Receives vRecvMsg r) :
    (current start vRecvMsg).1.map frame = r.frames ∧ (∀ msg ∈ (current start vRecvMsg).1, Whole msg) ∧
      Holds (current start vRecvMsg).2 r.pending ∧ (current start vRecvMsg).2.complete = false := by
  obtain ⟨before, frames, wholes, ⟨rfl, pending⟩ | ⟨msg, rfl, holds, incomplete, _⟩⟩ := receives
  · have fresh : current start vRecvMsg = (vRecvMsg, .new start) := by
      rw [current]
      rcases List.eq_nil_or_concat' vRecvMsg with rfl | ⟨init, msg, rfl⟩
      · rfl
      · have last := wholes msg (by simp)
        rw [List.getLast?_append, List.getLast?_singleton, Option.some_or]
        exact if_pos last.complete
    rw [fresh, pending]
    exact ⟨frames, wholes, holds_new start, rfl⟩
  · rw [current, List.getLast?_append, List.getLast?_singleton, Option.some_or]
    dsimp only
    rw [incomplete, if_neg Bool.false_ne_true, List.dropLast_concat]
    exact ⟨frames, wholes, holds, incomplete⟩

theorem readHeader_holds (msg : CNetMessage) (bytes pch : List UInt8) (holds : Holds msg (.header bytes))
    (some_byte : pch ≠ []) :
    (bytes.length + pch.length < CMessageHeader.HEADER_SIZE ∧
        ∃ next, msg.readHeader pch = some (next, some pch.length) ∧ Holds next (.header (bytes ++ pch))) ∨
      ∃ nCopy hdr next, 0 < nCopy ∧ nCopy ≤ pch.length ∧ bytes.length + nCopy = CMessageHeader.HEADER_SIZE ∧
        CMessageHeader.format.read (bytes ++ pch.take nCopy) = .ok (hdr, []) ∧
        next.hdr = hdr ∧ next.vRecv = [] ∧
        msg.readHeader pch = some (next, if MAX_SIZE < hdr.nMessageSize then none else some nCopy) ∧
        (hdr.nMessageSize ≤ MAX_SIZE → next.in_data = true) ∧
        (hdr.nMessageSize ≤ MAX_PROTOCOL_MESSAGE_LENGTH → Holds next (.body hdr [])) := by
  obtain ⟨in_data, length, short, pos, taken, empty, none_in⟩ := holds
  have size : CMessageHeader.HEADER_SIZE = 24 := rfl
  rw [size] at length short ⊢
  have positive := List.length_pos_iff.mpr some_byte
  obtain ⟨nCopy, is_min⟩ : ∃ nCopy, nCopy = min (24 - bytes.length) pch.length := ⟨_, rfl⟩
  have copied : (pch.take nCopy).length = nCopy := by
    rw [List.length_take]
    omega
  obtain ⟨hdrbuf, written, same, there⟩ := memcpy_within msg.hdrbuf (pch.take nCopy) bytes.length
    (by rw [copied, length]; omega)
  rw [copied, taken] at there
  simp only [CNetMessage.readHeader, pos, ← is_min, written, bind, Option.bind, pure]
  by_cases more : bytes.length + pch.length < 24
  · have all : nCopy = pch.length := by omega
    rw [all, if_pos more]
    rw [all, List.take_length] at there
    refine .inl ⟨more, _, rfl, in_data, same.trans length, ?_, ?_, ?_, empty, none_in⟩
    · rw [List.length_append, size]
      exact more
    · rw [List.length_append]
    · rw [List.length_append]
      exact there
  · have full : bytes.length + nCopy = 24 := by omega
    have whole : hdrbuf = bytes ++ pch.take nCopy := by
      rw [← there, full, List.take_of_length_le (by rw [same, length])]
    rw [if_neg (by omega)]
    have reads := CMessageHeader.format_read hdrbuf (same.trans length)
    let hdr := CMessageHeader.ofBytes hdrbuf
    rw [reads]
    dsimp only
    have handled : 0 < nCopy ∧ nCopy ≤ pch.length := by omega
    let next : CNetMessage := { msg with hdrbuf := [], hdr, nHdrPos := bytes.length + nCopy }
    by_cases large : MAX_SIZE < hdr.nMessageSize
    · refine .inr ⟨nCopy, hdr, next, handled.1, handled.2, full, whole ▸ reads, rfl, empty, ?_,
        fun small => absurd large (Nat.not_lt.mpr small), fun small => ?_⟩
      · rw [if_pos large, if_pos large]
      · have limits : MAX_PROTOCOL_MESSAGE_LENGTH < MAX_SIZE := by decide
        omega
    · refine .inr ⟨nCopy, hdr, { next with in_data := true }, handled.1, handled.2, full, whole ▸ reads,
        rfl, empty, ?_, fun _ => rfl, fun small => ⟨rfl, rfl, small, Nat.zero_le _, none_in,
          Nat.zero_le _, rfl, ?_⟩⟩
      · rw [if_neg large, if_neg large]
      · rw [Bounded]
        exact (congrArg List.length empty).trans_le (Nat.zero_le _)

theorem readData_holds (msg : CNetMessage) (hdr : CMessageHeader) (bytes pch : List UInt8)
    (holds : Holds msg (.body hdr bytes)) :
    ∃ nCopy next, nCopy = min (hdr.nMessageSize - bytes.length) pch.length ∧
      msg.readData pch = some (next, some nCopy) ∧ Holds next (.body hdr (bytes ++ pch.take nCopy)) := by
  obtain ⟨in_data, rfl, small, within, pos, enough, taken, bounded⟩ := holds
  obtain ⟨nCopy, is_min⟩ : ∃ nCopy, nCopy = min (msg.hdr.nMessageSize - bytes.length) pch.length :=
    ⟨_, rfl⟩
  have copied : (pch.take nCopy).length = nCopy := by
    rw [List.length_take]
    omega
  rw [Bounded, pos] at bounded
  -- the storage as it is after the resize
  obtain ⟨storage, grown, room, ahead, kept⟩ : ∃ storage,
      storage = (if msg.vRecv.length < bytes.length + nCopy then
        resize msg.vRecv (min msg.hdr.nMessageSize (bytes.length + nCopy + 256 * 1024))
      else msg.vRecv) ∧ bytes.length + nCopy ≤ storage.length ∧
        storage.length ≤ min msg.hdr.nMessageSize (bytes.length + nCopy + 256 * 1024) ∧
        storage.take bytes.length = bytes := by
    by_cases grows : msg.vRecv.length < bytes.length + nCopy
    · obtain ⟨length, same⟩ := resize_ahead msg.vRecv
        (min msg.hdr.nMessageSize (bytes.length + nCopy + 256 * 1024)) (by omega)
      refine ⟨_, (if_pos grows).symm, ?_, ?_, ?_⟩
      · rw [length]
        omega
      · rw [length]
      · rw [same bytes.length enough, taken]
    · refine ⟨_, (if_neg grows).symm, by omega, by omega, taken⟩
  obtain ⟨vRecv, written, same, there⟩ := memcpy_within storage (pch.take nCopy) bytes.length
    (by rw [copied]; exact room)
  rw [copied, kept] at there
  refine ⟨nCopy, { msg with vRecv, nDataPos := bytes.length + nCopy }, is_min, ?_, in_data, rfl, small, ?_, ?_, ?_,
    ?_, ?_⟩
  · simp only [CNetMessage.readData, pos, ← is_min, ← grown, written, bind, Option.bind, pure]
  · rw [List.length_append, copied]
    omega
  · rw [List.length_append, copied]
  · rw [List.length_append, copied, same]
    exact room
  · rw [List.length_append, copied]
    exact there
  · rw [Bounded]
    dsimp only
    rw [same]
    exact ahead

theorem receives_settle (before : List CNetMessage) (wholes : ∀ msg ∈ before, Whole msg)
    (next : CNetMessage) (hdr : CMessageHeader) (bytes : List UInt8)
    (holds : Holds next (.body hdr bytes)) :
    Receives (before ++ [next]) (framing.settle (before.map frame) hdr bytes) := by
  rw [Framing.settle]
  by_cases all : bytes.length = framing.size hdr
  · obtain ⟨whole, same⟩ := holds.whole next hdr bytes all
    rw [if_pos all]
    refine ⟨before ++ [next], by rw [List.map_append, List.map_singleton, same], ?_, .inl ⟨rfl, rfl⟩⟩
    intro msg mem
    rcases List.mem_append.mp mem with mem | mem
    · exact wholes msg mem
    · rwa [List.mem_singleton.mp mem]
  · rw [if_neg all]
    refine ⟨before, rfl, wholes, .inr ⟨next, rfl, holds, holds.incomplete next hdr bytes all, ?_⟩⟩
    rintro ⟨⟩

/-- The queue of a connection that is closed: behind the messages that came in before it stands the
one whose header is refused. -/
def HeaderRefused (vRecvMsg : List CNetMessage) (r : Framing.Received UInt8 CMessageHeader)
    (pch : List UInt8) : Prop :=
  framing.absorbAll r pch = none ∧
    ∃ before msg, vRecvMsg = before ++ [msg] ∧ before.map frame = (framing.accepted r pch).frames ∧
      ∀ msg ∈ before, Whole msg

theorem HeaderRefused.more {vRecvMsg : List CNetMessage} {r : Framing.Received UInt8 CMessageHeader}
    {pch : List UInt8} (refused : HeaderRefused vRecvMsg r pch) (rest : List UInt8) :
    HeaderRefused vRecvMsg r (pch ++ rest) := by
  obtain ⟨absorbed, before, msg, queue, frames, wholes⟩ := refused
  refine ⟨?_, before, msg, queue, ?_, wholes⟩
  · rw [Framing.absorbAll_append, absorbed]
    rfl
  · rw [framing.accepted_refused r pch rest absorbed, frames]

def ReceiveEnds (vRecvMsg : List CNetMessage) (ok : Bool) (r : Framing.Received UInt8 CMessageHeader)
    (pch : List UInt8) : Prop :=
  (ok = true ∧ ∃ final, framing.absorbAll r pch = some final ∧ Receives vRecvMsg final) ∨
    (ok = false ∧ HeaderRefused vRecvMsg r pch)

theorem ReceiveEnds.behind {vRecvMsg : List CNetMessage} {ok : Bool}
    {r mid : Framing.Received UInt8 CMessageHeader} {first second : List UInt8}
    (ends : ReceiveEnds vRecvMsg ok mid second) (taken : framing.absorbAll r first = some mid) :
    ReceiveEnds vRecvMsg ok r (first ++ second) := by
  have whole : framing.absorbAll r (first ++ second) = framing.absorbAll mid second := by
    rw [Framing.absorbAll_append, taken, Option.bind_some]
  have same := framing.accepted_append r mid first second taken
  simpa only [ReceiveEnds, HeaderRefused, whole, same] using ends

def Absorbs (before : List CNetMessage) (pending : Framing.Pending UInt8 CMessageHeader)
    (pch : List UInt8) (read : Option (CNetMessage × Option Nat)) : Prop :=
  ∃ next handled, read = some (next, handled) ∧
    ((∃ nCopy r, handled = some nCopy ∧ 0 < nCopy ∧
        ¬ (next.in_data ∧ MAX_PROTOCOL_MESSAGE_LENGTH < next.hdr.nMessageSize) ∧
        framing.absorbAll ⟨before.map frame, pending⟩ (pch.take nCopy) = some r ∧
        Receives (before ++ [next]) r) ∨
      (∀ nCopy, handled = some nCopy →
          next.in_data ∧ MAX_PROTOCOL_MESSAGE_LENGTH < next.hdr.nMessageSize) ∧
        framing.absorbAll ⟨before.map frame, pending⟩ pch = none ∧ Bounded next ∧
        (framing.accepted ⟨before.map frame, pending⟩ pch).frames = before.map frame)

theorem readHeader_absorbs (msg : CNetMessage) (bytes : List UInt8) (before : List CNetMessage)
    (pch : List UInt8) (wholes : ∀ msg ∈ before, Whole msg) (holds : Holds msg (.header bytes))
    (some_byte : pch ≠ []) : Absorbs before (.header bytes) pch (msg.readHeader pch) := by
  rcases readHeader_holds msg bytes pch holds some_byte with
    ⟨short, next, reads, now⟩ | ⟨nCopy, hdr, next, some_in, within, full, read, same, empty, reads, goes, now⟩
  · refine ⟨next, _, reads, .inl ⟨pch.length, ⟨before.map frame, .header (bytes ++ pch)⟩, rfl,
      List.length_pos_iff.mpr some_byte, fun large => ?_, ?_, before, rfl, wholes,
      .inr ⟨next, rfl, now, ?_, fun none => ?_⟩⟩⟩
    · rw [now.1] at large
      exact Bool.false_ne_true large.1
    · rw [List.take_length]
      exact framing.absorbAll_header _ bytes pch short
    · rw [CNetMessage.complete, now.1, Bool.false_and]
    · have empty := (Framing.Pending.header.inj none)
      exact some_byte (List.append_eq_nil_iff.mp empty).2
  · have piece : pch.take nCopy ≠ [] := by
      rw [← List.length_pos_iff, List.length_take, Nat.min_eq_left within]
      exact some_in
    have absorbed := framing.absorbAll_header_end (before.map frame) bytes (pch.take nCopy) piece
      (by rw [List.length_take, Nat.min_eq_left within]; exact full)
    have header : framing.read (bytes ++ pch.take nCopy) =
        if hdr.nMessageSize ≤ MAX_PROTOCOL_MESSAGE_LENGTH then some hdr else none := by
      simp only [framing, read]
    rw [header] at absorbed
    by_cases small : hdr.nMessageSize ≤ MAX_PROTOCOL_MESSAGE_LENGTH
    · have limits : MAX_PROTOCOL_MESSAGE_LENGTH < MAX_SIZE := by decide
      rw [if_neg (by omega)] at reads
      rw [if_pos small, Option.map_some] at absorbed
      refine ⟨next, _, reads, .inl ⟨nCopy, _, rfl, some_in, fun large => ?_, absorbed,
        receives_settle before wholes next hdr [] (now small)⟩⟩
      rw [same] at large
      exact absurd large.2 (Nat.not_lt.mpr small)
    · rw [if_neg small, Option.map_none] at absorbed
      refine ⟨next, _, reads, .inr ⟨fun handled is => ?_, ?_, ?_, ?_⟩⟩
      · by_cases huge : MAX_SIZE < hdr.nMessageSize
        · rw [if_pos huge] at is
          cases is
        · rw [same]
          exact ⟨goes (Nat.not_lt.mp huge), Nat.lt_of_not_le small⟩
      · rw [← List.take_append_drop nCopy pch, Framing.absorbAll_append, absorbed]
        rfl
      · rw [Bounded, empty]
        exact Nat.zero_le _
      · rw [← List.take_append_drop nCopy pch, framing.accepted_refused _ _ _ absorbed]
        exact framing.accepted_header_end (before.map frame) bytes (pch.take nCopy)
          (by rw [List.length_take, Nat.min_eq_left within]; exact full) absorbed

theorem readData_absorbs (msg : CNetMessage) (hdr : CMessageHeader) (bytes : List UInt8)
    (before : List CNetMessage) (pch : List UInt8) (wholes : ∀ msg ∈ before, Whole msg)
    (holds : Holds msg (.body hdr bytes)) (some_byte : pch ≠ [])
    (more : bytes.length ≠ hdr.nMessageSize) :
    Absorbs before (.body hdr bytes) pch (msg.readData pch) := by
  have positive := List.length_pos_iff.mpr some_byte
  obtain ⟨nCopy, next, is_min, reads, now⟩ := readData_holds msg hdr bytes pch holds
  obtain ⟨in_data, _, small, within, _⟩ := holds
  refine ⟨next, _, reads, .inl ⟨nCopy, framing.settle (before.map frame) hdr (bytes ++ pch.take nCopy), rfl,
    by omega, fun large => ?_, ?_, receives_settle before wholes next hdr _ now⟩⟩
  · obtain ⟨_, same, _⟩ := now
    rw [same] at large
    exact absurd large.2 (Nat.not_lt.mpr small)
  · have copied : (pch.take nCopy).length = nCopy := by
      rw [List.length_take]
      omega
    by_cases all : bytes.length + nCopy = hdr.nMessageSize
    · rw [Framing.settle, if_pos (by rw [List.length_append, copied]; exact all)]
      refine framing.absorbAll_body_end _ hdr bytes _ ?_ (by rw [copied]; exact all)
      rw [← List.length_pos_iff, copied]
      omega
    · rw [Framing.settle, if_neg (by rw [List.length_append, copied]; exact all)]
      refine framing.absorbAll_body _ hdr bytes _ ?_
      rw [copied]
      change _ < hdr.nMessageSize
      omega

theorem receive_pass (msg : CNetMessage) (pending : Framing.Pending UInt8 CMessageHeader)
    (before : List CNetMessage) (pch : List UInt8) (wholes : ∀ msg ∈ before, Whole msg)
    (holds : Holds msg pending) (some_byte : pch ≠ [])
    (open_body : ∀ hdr bytes, pending = .body hdr bytes → bytes.length ≠ hdr.nMessageSize) :
    Absorbs before pending pch (msg.readBytes pch) := by
  cases pending with
  | header bytes =>
      rw [CNetMessage.readBytes, holds.1, if_neg Bool.false_ne_true]
      exact readHeader_absorbs msg bytes before pch wholes holds some_byte
  | body hdr bytes =>
      rw [CNetMessage.readBytes, holds.1, if_pos rfl]
      exact readData_absorbs msg hdr bytes before pch wholes holds some_byte (open_body hdr bytes rfl)

theorem receiveLoop_refines (start : MessageStart) (fuel : Nat) (vRecvMsg : List CNetMessage)
    (r : Framing.Received UInt8 CMessageHeader) (pch : List UInt8) (receives : Receives vRecvMsg r)
    (enough : pch.length ≤ fuel) :
    ∃ next ok, receiveLoop start fuel vRecvMsg pch = some (next, ok) ∧ (∀ msg ∈ next, Bounded msg) ∧
      ReceiveEnds next ok r pch := by
  induction fuel generalizing vRecvMsg r pch with
  | zero =>
      rw [List.eq_nil_of_length_eq_zero (Nat.le_zero.mp enough)]
      exact ⟨vRecvMsg, true, rfl, receives.bounded, .inl ⟨rfl, r, rfl, receives⟩⟩
  | succ fuel ih =>
      cases pch with
      | nil => exact ⟨vRecvMsg, true, rfl, receives.bounded, .inl ⟨rfl, r, rfl, receives⟩⟩
      | cons byte rest =>
          obtain ⟨frames, wholes, holds, incomplete⟩ := current_holds start vRecvMsg r receives
          have open_body (hdr : CMessageHeader) (bytes : List UInt8) (is_body : r.pending = .body hdr bytes) :
              bytes.length ≠ hdr.nMessageSize := by
            intro all
            rw [is_body] at holds
            rw [(holds.whole _ hdr bytes all).1.complete] at incomplete
            cases incomplete
          obtain ⟨next, handled, reads, goes⟩ := receive_pass _ r.pending _ (byte :: rest) wholes holds
            (List.cons_ne_nil _ _) open_body
          rw [frames] at goes
          simp only [receiveLoop, reads, bind, Option.bind, pure]
          rcases goes with ⟨nCopy, mid, rfl, some_in, small, absorbed, now⟩ |
            ⟨refused, absorbed, bounded, stays⟩
          · dsimp only
            rw [if_neg small]
            obtain ⟨final, ok, ran, storage, ends⟩ := ih _ mid ((byte :: rest).drop nCopy) now
              (by rw [List.length_drop]; omega)
            have whole := ends.behind absorbed
            rw [List.take_append_drop] at whole
            exact ⟨final, ok, ran, storage, whole⟩
          · have storage : ∀ msg ∈ (current start vRecvMsg).1 ++ [next], Bounded msg := by
              intro msg mem
              rcases List.mem_append.mp mem with mem | mem
              · exact (wholes msg mem).bounded
              · rwa [List.mem_singleton.mp mem]
            refine ⟨_, false, ?_, storage, .inr ⟨rfl, absorbed, _, next, rfl, ?_, wholes⟩⟩
            swap
            · rw [frames]
              exact stays.symm
            cases handled with
            | none => rfl
            | some nCopy => exact if_pos (refused nCopy rfl)

theorem receiveMsgBytes_refines (start : MessageStart) (vRecvMsg : List CNetMessage)
    (r : Framing.Received UInt8 CMessageHeader) (pch : List UInt8) (receives : Receives vRecvMsg r) :
    ∃ next ok, ReceiveMsgBytes start vRecvMsg pch = some (next, ok) ∧ (∀ msg ∈ next, Bounded msg) ∧
      ReceiveEnds next ok r pch :=
  receiveLoop_refines start pch.length vRecvMsg r pch receives (Nat.le_refl _)

end refinement

section chunks

variable (start : MessageStart)

/-- What recv gives is received bit by bit, until the connection is closed. -/
def receiveAll : List CNetMessage → List (List UInt8) → Option (List CNetMessage × Bool)
  | vRecvMsg, [] => some (vRecvMsg, true)
  | vRecvMsg, pch :: rest => do
      let (vRecvMsg, ok) ← ReceiveMsgBytes start vRecvMsg pch
      if ok then receiveAll vRecvMsg rest else return (vRecvMsg, false)

theorem receiveAll_refines (vRecvMsg : List CNetMessage) (r : Framing.Received UInt8 CMessageHeader)
    (chunks : List (List UInt8)) (receives : Receives vRecvMsg r) :
    ∃ next ok, receiveAll start vRecvMsg chunks = some (next, ok) ∧ (∀ msg ∈ next, Bounded msg) ∧
      ReceiveEnds next ok r chunks.flatten := by
  induction chunks generalizing vRecvMsg r with
  | nil => exact ⟨vRecvMsg, true, rfl, receives.bounded, .inl ⟨rfl, r, rfl, receives⟩⟩
  | cons pch rest ih =>
      obtain ⟨mid, ok, ran, storage, ⟨rfl, passed, absorbed, now⟩ | ⟨rfl, refused⟩⟩ :=
        receiveMsgBytes_refines start vRecvMsg r pch receives
      · obtain ⟨next, ok, later, bounded, ends⟩ := ih mid passed now
        refine ⟨next, ok, ?_, bounded, ?_⟩
        · simp only [receiveAll, ran, bind, Option.bind, if_pos]
          exact later
        · rw [List.flatten_cons]
          exact ends.behind absorbed
      · refine ⟨mid, false, ?_, storage, .inr ⟨rfl, ?_⟩⟩
        · simp only [receiveAll, ran, bind, Option.bind, Bool.false_eq_true, if_false]
          rfl
        · rw [List.flatten_cons]
          exact refused.more rest.flatten

theorem framing_inverse (bytes : List UInt8) (hdr : CMessageHeader)
    (whole : bytes.length = framing.headerSize) (read : framing.read bytes = some hdr) :
    CMessageHeader.format.write hdr = bytes := by
  simp only [framing, CMessageHeader.format_read bytes whole] at read
  obtain ⟨_, rfl⟩ := Option.ite_none_right_eq_some.mp read |>.imp id Option.some.inj
  exact CMessageHeader.format_write bytes whole

/-- However the bytes of a connection are cut into chunks, nothing is written outside a buffer and no
message is stored much ahead of its bytes; the messages are those of the bytes, and together with the
incomplete one they are all the bytes, unless a size above the limit closes the connection: then the
messages before that header are the ones of the bytes before it. -/
theorem receiveMsgBytes_chunks (chunks : List (List UInt8)) :
    ∃ vRecvMsg ok, receiveAll start [] chunks = some (vRecvMsg, ok) ∧ (∀ msg ∈ vRecvMsg, Bounded msg) ∧
      ((ok = true ∧ ∃ r, framing.absorbAll Framing.start chunks.flatten = some r ∧ Receives vRecvMsg r ∧
          r.bytes CMessageHeader.format.write = chunks.flatten) ∨
        (ok = false ∧ HeaderRefused vRecvMsg Framing.start chunks.flatten)) := by
  obtain ⟨vRecvMsg, ok, ran, bounded, ⟨rfl, r, absorbed, receives⟩ | refused⟩ :=
    receiveAll_refines start [] Framing.start chunks ⟨[], rfl, by simp, .inl ⟨rfl, rfl⟩⟩
  · have same := framing.absorbAll_bytes framing_inverse chunks.flatten r absorbed
    exact ⟨vRecvMsg, true, ran, bounded, .inl ⟨rfl, r, absorbed, receives, same⟩⟩
  · exact ⟨vRecvMsg, ok, ran, bounded, .inr refused⟩

end chunks

end CryptoYen
