import CryptoYen.Library.Machine
import CryptoYen.Net.Messages

set_option autoImplicit false

namespace CryptoYen

structure CNode where
  ssSend : List UInt8
  -- total size of all vSendMsg entries
  nSendSize : Nat
  -- offset inside the first vSendMsg already sent
  nSendOffset : Nat
  nSendBytes : Nat
  vSendMsg : List (List UInt8)
  fDisconnect : Bool
  deriving DecidableEq, Repr

/-- What a call of send gives back: a number of bytes, or an error that closes the socket or not. -/
inductive SendResult
  | sent (nBytes : Nat)
  | blocked
  | failed
  deriving DecidableEq, Repr

namespace CNode

def empty : CNode := ⟨[], 0, 0, 0, [], false⟩

-- The loop of SocketSendData, with the bytes that leave; none is an assertion that fails.
def sendLoop (node : CNode) :
    List (List UInt8) → List SendResult → Option (CNode × List (List UInt8) × List UInt8)
  | [], _ =>
      if node.nSendOffset = 0 ∧ node.nSendSize = 0 then some (node, [], []) else none
  | data :: rest, results =>
      if data.length ≤ node.nSendOffset then none
      else
        -- Nothing goes through a socket that is closed, and never more than was given.
        match if node.fDisconnect then .failed else results.headD .blocked with
        | .blocked => some (node, data :: rest, [])
        | .failed => some ({ node with fDisconnect := true }, data :: rest, [])
        | .sent nBytes =>
            let nBytes := min nBytes (data.length - node.nSendOffset)
            let out := (data.drop node.nSendOffset).take nBytes
            let node := { node with
              nSendBytes := node.nSendBytes + nBytes
              nSendOffset := node.nSendOffset + nBytes }
            if node.nSendOffset = data.length then
              (sendLoop { node with nSendOffset := 0, nSendSize := node.nSendSize - data.length }
                rest results.tail).map fun (node, vSendMsg, more) => (node, vSendMsg, out ++ more)
            -- could not send full message; stop sending more
            else some (node, data :: rest, out)

def SocketSendData (results : List SendResult) (node : CNode) : Option (CNode × List UInt8) :=
  (node.sendLoop node.vSendMsg results).map fun (node, vSendMsg, out) => ({ node with vSendMsg }, out)

variable (start : MessageStart)

def BeginMessage (pszCommand : List UInt8) (node : CNode) : Option CNode :=
  if node.ssSend.length = 0 then
    some { node with
      ssSend := node.ssSend ++ CMessageHeader.format.write (.make start pszCommand 0) }
  else none

def AbortMessage (node : CNode) : CNode := { node with ssSend := [] }

variable (Hash : List UInt8 → Uint256)

def checksum (data : List UInt8) : Nat := (Hash data).toNat % 256 ^ 4

def EndMessage (results : List SendResult) (node : CNode) : Option (CNode × List UInt8) := do
  if node.ssSend.length = 0 then return (node, [])
  -- Set the size
  let nSize := node.ssSend.length - CMessageHeader.HEADER_SIZE
  let ssSend ← memcpy node.ssSend CMessageHeader.MESSAGE_SIZE_OFFSET (Codec.leBytes 4 nSize)
  -- Set the checksum
  let nChecksum := checksum Hash (ssSend.drop CMessageHeader.HEADER_SIZE)
  if ssSend.length < CMessageHeader.CHECKSUM_OFFSET + 4 then none
  let ssSend ← memcpy ssSend CMessageHeader.CHECKSUM_OFFSET (Codec.leBytes 4 nChecksum)
  let next := { node with
    ssSend := []
    vSendMsg := node.vSendMsg ++ [ssSend]
    nSendSize := node.nSendSize + ssSend.length }
  -- If write queue empty, attempt "optimistic write"
  if node.vSendMsg.isEmpty then next.SocketSendData results else return (next, [])

def PushMessage (pszCommand a1 : List UInt8) (results : List SendResult) (node : CNode) :
    Option (CNode × List UInt8) := do
  let node ← node.BeginMessage start pszCommand
  EndMessage Hash results { node with ssSend := node.ssSend ++ a1 }

section sending

structure Queued (node : CNode) (vSendMsg : List (List UInt8)) : Prop where
  size : node.nSendSize = (vSendMsg.map List.length).sum
  -- The first message is not all sent, and no other one is sent in part.
  offset : node.nSendOffset < (vSendMsg.headD [0]).length
  idle : vSendMsg = [] → node.nSendOffset = 0

def unsent (node : CNode) (vSendMsg : List (List UInt8)) : List UInt8 :=
  vSendMsg.flatten.drop node.nSendOffset

theorem sendLoop_queued (vSendMsg : List (List UInt8)) (node : CNode) (results : List SendResult)
    (queued : node.Queued vSendMsg) (full : ∀ data ∈ vSendMsg, data ≠ []) :
    ∃ next rest out, node.sendLoop vSendMsg results = some (next, rest, out) ∧
      next.ssSend = node.ssSend ∧ next.Queued rest ∧ rest <:+ vSendMsg ∧
      out ++ next.unsent rest = node.unsent vSendMsg ∧
      next.nSendBytes = node.nSendBytes + out.length := by
  induction vSendMsg generalizing node results with
  | nil =>
      have idle := queued.idle rfl
      have size : node.nSendSize = 0 := queued.size
      exact ⟨node, [], [], if_pos ⟨idle, size⟩, rfl, queued, List.suffix_rfl, rfl, rfl⟩
  | cons data rest ih =>
      obtain ⟨_, later⟩ := List.forall_mem_cons.mp full
      have offset : node.nSendOffset < data.length := queued.offset
      have stays : node.Queued (data :: rest) ∧ (data :: rest) <:+ data :: rest ∧
          [] ++ node.unsent (data :: rest) = node.unsent (data :: rest) :=
        ⟨queued, List.suffix_rfl, rfl⟩
      rw [sendLoop, if_neg (Nat.not_le.mpr offset)]
      cases if node.fDisconnect then SendResult.failed else results.headD .blocked with
      | blocked => exact ⟨node, _, [], rfl, rfl, stays.1, stays.2.1, stays.2.2, rfl⟩
      | failed =>
        exact ⟨_, _, [], rfl, rfl, ⟨queued.size, queued.offset, queued.idle⟩, stays.2.1, stays.2.2, rfl⟩
      | sent nBytes =>
        obtain ⟨taken, is_min⟩ : ∃ taken, taken = min nBytes (data.length - node.nSendOffset) := ⟨_, rfl⟩
        have left : ((data.drop node.nSendOffset).take taken).length = taken := by
          rw [List.length_take, List.length_drop]
          omega
        have first : node.unsent (data :: rest) = data.drop node.nSendOffset ++ rest.flatten := by
          rw [unsent, List.flatten_cons, List.drop_append_of_le_length offset.le]
        dsimp only
        rw [← is_min, first]
        by_cases all : node.nSendOffset + taken = data.length
        · rw [if_pos all]
          have whole : (data.drop node.nSendOffset).take taken = data.drop node.nSendOffset := by
            refine List.take_of_length_le ?_
            rw [List.length_drop]
            omega
          have next_queued : ({ node with
              nSendBytes := node.nSendBytes + taken
              nSendOffset := 0
              nSendSize := node.nSendSize - data.length } : CNode).Queued rest := by
            refine ⟨?_, ?_, fun _ => rfl⟩
            · have size := queued.size
              rw [List.map_cons, List.sum_cons] at size
              dsimp only
              omega
            · cases rest with
              | nil => exact Nat.one_pos
              | cons second rest => exact List.length_pos_iff.mpr (later second List.mem_cons_self)
          obtain ⟨next, q, out, ran, ss, done, suffix, bytes, count⟩ := ih _ results.tail next_queued later
          refine ⟨next, q, data.drop node.nSendOffset ++ out, ?_, ss, done,
            suffix.trans (List.suffix_cons _ _), ?_, ?_⟩
          · rw [ran, whole]
            rfl
          · rw [List.append_assoc, bytes, unsent]
            rfl
          · rw [count, List.length_append, ← whole, left]
            dsimp only
            omega
        · rw [if_neg all]
          refine ⟨_, _, _, rfl, rfl, ⟨queued.size, ?_, ?_⟩, List.suffix_rfl, ?_, ?_⟩
          · change node.nSendOffset + taken < data.length
            omega
          · rintro ⟨⟩
          · rw [unsent, List.flatten_cons, List.drop_append_of_le_length (by dsimp only; omega),
              ← List.append_assoc, ← List.drop_drop, List.take_append_drop]
          · rw [left]

structure Ready (node : CNode) : Prop where
  none_begun : node.ssSend = []
  queued : node.Queued node.vSendMsg
  full : ∀ data ∈ node.vSendMsg, data ≠ []

theorem Ready.flushes {node : CNode} (ready : node.Ready) (results : List SendResult) :
    ∃ next out, node.SocketSendData results = some (next, out) ∧ next.Ready ∧
      out ++ next.unsent next.vSendMsg = node.unsent node.vSendMsg ∧
      next.nSendBytes = node.nSendBytes + out.length := by
  obtain ⟨next, rest, out, ran, ss, queued, suffix, bytes, count⟩ :=
    sendLoop_queued node.vSendMsg node results ready.queued ready.full
  refine ⟨{ next with vSendMsg := rest }, out, ?_, ⟨ss.trans ready.none_begun,
    ⟨queued.size, queued.offset, queued.idle⟩, fun data mem => ready.full data (suffix.subset mem)⟩,
    bytes, count⟩
  rw [SocketSendData, ran]
  rfl

variable (start : MessageStart) (Hash : List UInt8 → Uint256)

def header (message : List UInt8 × List UInt8) : CMessageHeader :=
  ⟨start.1, CMessageHeader.strncpy CMessageHeader.COMMAND_SIZE message.1, message.2.length,
    checksum Hash message.2⟩

def frameOf (message : List UInt8 × List UInt8) : CMessageHeader × List UInt8 :=
  (header start Hash message, message.2)

def bytesOf (message : List UInt8 × List UInt8) : List UInt8 :=
  CMessageHeader.format.write (header start Hash message) ++ message.2

theorem strncpy_length (n : Nat) (psz : List UInt8) : (CMessageHeader.strncpy n psz).length = n := by
  simp only [CMessageHeader.strncpy, List.length_append, List.length_replicate, List.length_take]
  omega

theorem header_write (message : List UInt8 × List UInt8) (fits : message.2.length < 256 ^ 4) :
    (CMessageHeader.format.write (header start Hash message)).length = CMessageHeader.HEADER_SIZE ∧
      CMessageHeader.ofBytes (CMessageHeader.format.write (header start Hash message)) =
        header start Hash message :=
  CMessageHeader.ofBytes_write _ start.2 (strncpy_length _ _) fits (Nat.mod_lt _ (by decide))

theorem endMessage_queues (node : CNode) (message : List UInt8 × List UInt8) (results : List SendResult)
    (begun : node.ssSend = CMessageHeader.format.write (.make start message.1 0) ++ message.2) :
    node.EndMessage Hash results =
      (if node.vSendMsg.isEmpty then SocketSendData results else fun next => some (next, [])) { node with
        ssSend := []
        vSendMsg := node.vSendMsg ++ [bytesOf start Hash message]
        nSendSize := node.nSendSize + (bytesOf start Hash message).length } := by
  let front := start.1 ++ CMessageHeader.strncpy CMessageHeader.COMMAND_SIZE message.1
  have front_length : front.length = CMessageHeader.MESSAGE_SIZE_OFFSET := by
    rw [List.length_append, strncpy_length, start.2]
    rfl
  let size := Codec.leBytes 4 message.2.length
  let sum := Codec.leBytes 4 (checksum Hash message.2)
  have zeros : node.ssSend = front ++ (Codec.leBytes 4 0 ++ (Codec.leBytes 4 0 ++ message.2)) := by
    rw [begun, CMessageHeader.write_fields]
    simp only [CMessageHeader.make, front, List.append_assoc]
  have length : node.ssSend.length = CMessageHeader.HEADER_SIZE + message.2.length := by
    simp only [zeros, List.length_append, front_length, Codec.leBytes_length]
    rw [← Nat.add_assoc, ← Nat.add_assoc]
    rfl
  have some_bytes : node.ssSend.length ≠ 0 := by
    rw [length]
    exact (Nat.add_pos_left (by decide) _).ne'
  have sized : memcpy node.ssSend CMessageHeader.MESSAGE_SIZE_OFFSET size =
      some (front ++ (size ++ (Codec.leBytes 4 0 ++ message.2))) := by
    rw [zeros, ← front_length]
    exact memcpy_field front _ size _ (by simp only [size, Codec.leBytes_length])
  have data : (front ++ (size ++ (Codec.leBytes 4 0 ++ message.2))).drop CMessageHeader.HEADER_SIZE =
      message.2 := by
    rw [← List.append_assoc, ← List.append_assoc]
    refine List.drop_left' ?_
    simp only [size, List.length_append, front_length, Codec.leBytes_length]
    rfl
  have checked : memcpy (front ++ (size ++ (Codec.leBytes 4 0 ++ message.2)))
      CMessageHeader.CHECKSUM_OFFSET sum = some (bytesOf start Hash message) := by
    have offset : (front ++ size).length = CMessageHeader.CHECKSUM_OFFSET := by
      simp only [size, List.length_append, front_length, Codec.leBytes_length]
      rfl
    rw [← List.append_assoc, ← offset, memcpy_field (front ++ size) _ sum _ (by
      simp only [sum, Codec.leBytes_length]), bytesOf, CMessageHeader.write_fields]
    simp only [header, front, size, sum, List.append_assoc]
  have large : ¬ (front ++ (size ++ (Codec.leBytes 4 0 ++ message.2))).length <
      CMessageHeader.CHECKSUM_OFFSET + 4 := by
    simp only [size, List.length_append, front_length, Codec.leBytes_length]
    rw [← Nat.add_assoc, ← Nat.add_assoc]
    exact Nat.not_lt.mpr (Nat.le_add_right _ _)
  have nSize : node.ssSend.length - CMessageHeader.HEADER_SIZE = message.2.length := by
    rw [length, Nat.add_sub_cancel_left]
  simp only [size, sum] at sized data checked large
  simp only [EndMessage, some_bytes, if_false, nSize, bind, Option.bind, pure, sized, data]
  simp only [large, if_false]
  rw [checked]
  cases node.vSendMsg.isEmpty with
  | true => rfl
  | false => rfl

theorem Ready.pushes {node : CNode} (ready : node.Ready) (message : List UInt8 × List UInt8)
    (results : List SendResult) :
    ∃ next out, node.PushMessage start Hash message.1 message.2 results = some (next, out) ∧ next.Ready ∧
      out ++ next.unsent next.vSendMsg = node.unsent node.vSendMsg ++ bytesOf start Hash message ∧
      next.nSendBytes = node.nSendBytes + out.length := by
  let queued : CNode := { node with
    ssSend := []
    vSendMsg := node.vSendMsg ++ [bytesOf start Hash message]
    nSendSize := node.nSendSize + (bytesOf start Hash message).length }
  have pushed : node.PushMessage start Hash message.1 message.2 results =
      (if node.vSendMsg.isEmpty then SocketSendData results else fun next => some (next, [])) queued := by
    have begun : node.BeginMessage start message.1 =
        some { node with ssSend := CMessageHeader.format.write (.make start message.1 0) } := by
      rw [BeginMessage, ready.none_begun]
      rfl
    rw [PushMessage, begun]
    exact endMessage_queues start Hash _ message results rfl
  have some_byte : bytesOf start Hash message ≠ [] := by
    rw [bytesOf, CMessageHeader.write_fields, header]
    intro none
    have length := congrArg List.length none
    simp only [List.length_append, start.2, List.length_nil] at length
    omega
  have queued_ready : queued.Ready := by
    refine ⟨rfl, ⟨?_, ?_, fun empty => ?_⟩, fun data mem => ?_⟩
    · rw [List.map_append, List.sum_append, List.map_singleton, List.sum_singleton]
      exact congrArg (· + _) ready.queued.size
    · have offset := ready.queued.offset
      have idle := ready.queued.idle
      dsimp only [queued]
      cases empty : node.vSendMsg with
      | nil =>
          rw [idle empty]
          exact List.length_pos_iff.mpr some_byte
      | cons data rest =>
          rw [empty] at offset
          exact offset
    · exact absurd empty (by simp [queued])
    · rcases List.mem_append.mp mem with mem | mem
      · exact ready.full data mem
      · rwa [List.mem_singleton.mp mem]
  have more : queued.unsent queued.vSendMsg = node.unsent node.vSendMsg ++ bytesOf start Hash message := by
    have within : node.nSendOffset ≤ node.vSendMsg.flatten.length := by
      have offset := ready.queued.offset
      have idle := ready.queued.idle
      cases empty : node.vSendMsg with
      | nil => exact (idle empty).le
      | cons data rest =>
          rw [empty] at offset
          rw [List.flatten_cons, List.length_append]
          exact offset.le.trans (Nat.le_add_right _ _)
    rw [unsent, unsent, List.flatten_append, List.flatten_singleton,
      List.drop_append_of_le_length within]
  rw [pushed]
  by_cases idle : node.vSendMsg.isEmpty = true
  · rw [if_pos idle]
    obtain ⟨next, out, ran, now, bytes, count⟩ := queued_ready.flushes results
    exact ⟨next, out, ran, now, bytes.trans more, count⟩
  · rw [if_neg idle]
    exact ⟨queued, [], rfl, queued_ready, more, rfl⟩

end sending

end CNode

structure NodeLogic (N : Type) where
  fDisconnect : N → Bool
  -- nSendSize >= SendBufferSize()
  sendBufferFull : N → Bool
  -- vRecvGetData is not empty
  moreGetData : N → Bool
  ProcessGetData : N → N
  ProcessMessage : N → List UInt8 → List UInt8 → N × Bool

structure Processed (N : Type) where
  node : N
  vRecvMsg : List CNetMessage
  -- The commands with their data, in the order in which ProcessMessage got them.
  delivered : List (List UInt8 × List UInt8)
  fOk : Bool

section processing

variable {N : Type} (start : MessageStart) (Hash : List UInt8 → Uint256) (logic : NodeLogic N)

def processLoop : N → List CNetMessage → Processed N
  | node, [] => ⟨node, [], [], true⟩
  | node, msg :: rest =>
      -- Don't bother if send buffer is too full to respond anyway
      if logic.fDisconnect node || logic.sendBufferFull node || !msg.complete then
        ⟨node, msg :: rest, [], true⟩
      -- at this point, any failure means we can delete the current message
      else if msg.hdr.pchMessageStart ≠ start.1 then ⟨node, rest, [], false⟩
      else if !msg.hdr.IsValid start then processLoop node rest
      else if CNode.checksum Hash (msg.vRecv.take msg.hdr.nMessageSize) ≠ msg.hdr.nChecksum then
        processLoop node rest
      else
        let (node, fRet) := logic.ProcessMessage node msg.hdr.GetCommand msg.vRecv
        if !fRet then ⟨node, rest, [(msg.hdr.GetCommand, msg.vRecv)], true⟩
        else
          let later := processLoop node rest
          { later with delivered := (msg.hdr.GetCommand, msg.vRecv) :: later.delivered }

def ProcessMessages (node : N) (vRecvMsg : List CNetMessage) : Processed N :=
  let node := if logic.moreGetData node then logic.ProcessGetData node else node
  -- this maintains the order of responses
  if logic.moreGetData node then ⟨node, vRecvMsg, [], true⟩
  else
    let done := processLoop start Hash logic node vRecvMsg
    -- In case the connection got shut down, its receive buffer was wiped
    if logic.fDisconnect done.node then { done with vRecvMsg } else done

end processing

section delivering

/-- What may be pushed: a command that fits into a header, and data within the limit. -/
def Fit (message : List UInt8 × List UInt8) : Prop :=
  message.1.length ≤ CMessageHeader.COMMAND_SIZE ∧
    (message.1.all fun c => decide (0x20 ≤ c ∧ c ≤ 0x7E)) = true ∧
    message.2.length ≤ MAX_PROTOCOL_MESSAGE_LENGTH

instance (message : List UInt8 × List UInt8) : Decidable (Fit message) := by
  unfold Fit
  infer_instance

theorem printable (c : UInt8) (is_printable : 0x20 ≤ c ∧ c ≤ 0x7E) :
    (c == 0) = false ∧ (decide (c < 0x20) || decide (0x7E < c)) = false := by
  obtain ⟨low, high⟩ := is_printable
  refine ⟨beq_eq_false_iff_ne.mpr ?_, ?_⟩
  · rintro rfl
    exact absurd low (by decide)
  · rw [Bool.or_eq_false_iff, decide_eq_false_iff_not, decide_eq_false_iff_not]
    exact ⟨UInt8.not_lt.mpr low, UInt8.not_lt.mpr high⟩

theorem validCommand_padded (command : List UInt8) (n : Nat)
    (is_printable : ∀ c ∈ command, 0x20 ≤ c ∧ c ≤ 0x7E) :
    CMessageHeader.validCommand (command ++ List.replicate n 0) = true ∧
      (command ++ List.replicate n 0).takeWhile (· != 0) = command := by
  induction command with
  | nil =>
      cases n with
      | zero => exact ⟨rfl, rfl⟩
      | succ n =>
          rw [List.nil_append, List.replicate_succ]
          refine ⟨?_, rfl⟩
          rw [CMessageHeader.validCommand, beq_self_eq_true, if_pos rfl, List.all_replicate]
          simp
  | cons c command ih =>
      obtain ⟨here, later⟩ := List.forall_mem_cons.mp is_printable
      obtain ⟨valid, taken⟩ := ih later
      obtain ⟨not_zero, within⟩ := printable c here
      refine ⟨?_, ?_⟩
      · rw [List.cons_append, CMessageHeader.validCommand, not_zero, if_neg Bool.false_ne_true, within,
          if_neg Bool.false_ne_true]
        exact valid
      · rw [List.cons_append, List.takeWhile_cons, bne, not_zero, taken]
        rfl

variable {N : Type} (start : MessageStart) (Hash : List UInt8 → Uint256) (logic : NodeLogic N)

theorem Fit.header {message : List UInt8 × List UInt8} (fit : Fit message) :
    (CNode.header start Hash message).IsValid start = true ∧
      (CNode.header start Hash message).GetCommand = message.1 := by
  obtain ⟨short, all_printable, within⟩ := fit
  have is_printable (c : UInt8) (mem : c ∈ message.1) : 0x20 ≤ c ∧ c ≤ 0x7E :=
    of_decide_eq_true (List.all_eq_true.mp all_printable c mem)
  have copied : (message.1.takeWhile (· != 0)).take CMessageHeader.COMMAND_SIZE = message.1 := by
    have taken := (validCommand_padded message.1 0 is_printable).2
    rw [List.replicate_zero, List.append_nil] at taken
    rw [taken, List.take_of_length_le short]
  have command : (CNode.header start Hash message).pchCommand =
      message.1 ++ List.replicate (CMessageHeader.COMMAND_SIZE - message.1.length) 0 := by
    simp only [CNode.header, CMessageHeader.strncpy, copied]
  obtain ⟨valid, taken⟩ := validCommand_padded message.1
    (CMessageHeader.COMMAND_SIZE - message.1.length) is_printable
  have size : ¬ MAX_SIZE < (CNode.header start Hash message).nMessageSize :=
    Nat.not_lt.mpr (within.trans (by decide))
  refine ⟨?_, ?_⟩
  · rw [CMessageHeader.IsValid, command, valid, decide_eq_false size]
    simp [CNode.header]
  · rw [CMessageHeader.GetCommand, command, taken]

theorem Fit.good {message : List UInt8 × List UInt8} (fit : Fit message) :
    framing.Good CMessageHeader.format.write (CNode.frameOf start Hash message) := by
  obtain ⟨_, _, within⟩ := fit
  obtain ⟨length, back⟩ := CNode.header_write start Hash message (within.trans_lt (by decide))
  refine ⟨length, ?_, rfl⟩
  have small : (CNode.header start Hash message).nMessageSize ≤ MAX_PROTOCOL_MESSAGE_LENGTH := within
  simp only [framing, CNode.frameOf, CMessageHeader.format_read _ length, back]
  rw [if_pos small]

theorem processLoop_delivers (messages : List (List UInt8 × List UInt8))
    (fit : ∀ message ∈ messages, Fit message) (arrived : List CNetMessage)
    (wholes : ∀ msg ∈ arrived, Whole msg)
    (frames : arrived.map frame = messages.map (CNode.frameOf start Hash)) (rest : List CNetMessage)
    (incomplete : ∀ msg ∈ rest, msg.complete = false) (node : N) :
    ∃ k, (processLoop start Hash logic node (arrived ++ rest)).delivered = messages.take k ∧
      (processLoop start Hash logic node (arrived ++ rest)).vRecvMsg = arrived.drop k ++ rest ∧
      (processLoop start Hash logic node (arrived ++ rest)).fOk = true := by
  induction messages generalizing arrived node with
  | nil =>
      rw [List.map_nil, List.map_eq_nil_iff] at frames
      subst frames
      refine ⟨0, ?_⟩
      cases rest with
      | nil => exact ⟨rfl, rfl, rfl⟩
      | cons msg rest =>
          have stops := incomplete msg List.mem_cons_self
          rw [List.nil_append, processLoop, stops, Bool.not_false, Bool.or_true, if_pos rfl]
          exact ⟨rfl, rfl, rfl⟩
  | cons message messages ih =>
      cases arrived with
      | nil => cases frames
      | cons msg arrived =>
          rw [List.map_cons, List.map_cons, List.cons.injEq] at frames
          obtain ⟨hdr, vRecv⟩ := Prod.mk.inj frames.1
          obtain ⟨here, later⟩ := List.forall_mem_cons.mp fit
          obtain ⟨whole, wholes⟩ := List.forall_mem_cons.mp wholes
          obtain ⟨valid, command⟩ := here.header start Hash
          have data : msg.vRecv.take msg.hdr.nMessageSize = message.2 := by
            rw [← whole.size, List.take_length, vRecv]
          rw [List.cons_append, processLoop]
          by_cases stops : (logic.fDisconnect node || logic.sendBufferFull node || !msg.complete) = true
          · rw [if_pos stops]
            exact ⟨0, rfl, rfl, rfl⟩
          · have same_start : ¬ (CNode.header start Hash message).pchMessageStart ≠ start.1 :=
              not_not.mpr rfl
            have sound : ¬ CNode.checksum Hash message.2 ≠ (CNode.header start Hash message).nChecksum :=
              not_not.mpr rfl
            rw [hdr] at data
            rw [if_neg stops, hdr, if_neg same_start, valid, Bool.not_true, if_neg Bool.false_ne_true,
              data, if_neg sound, command, vRecv]
            dsimp only
            cases (logic.ProcessMessage node message.1 message.2).2 with
            | false => exact ⟨1, rfl, rfl, rfl⟩
            | true =>
                obtain ⟨k, delivered, left, ok⟩ := ih later arrived wholes frames.2
                  (logic.ProcessMessage node message.1 message.2).1
                refine ⟨k + 1, ?_, ?_, ok⟩
                · exact congrArg (message :: ·) delivered
                · exact left

end delivering

structure Connection (N : Type) where
  sender : CNode
  wire : List UInt8
  vRecvMsg : List CNetMessage
  node : N
  -- The receiver has closed the connection for what it got.
  refused : Bool
  pushed : List (List UInt8 × List UInt8)
  delivered : List (List UInt8 × List UInt8)

namespace Connection

inductive Event
  | push (pszCommand a1 : List UInt8) (results : List SendResult)
  -- PushMessage, when the serialization of its argument throws.
  | abort (pszCommand a1 : List UInt8)
  -- The socket thread sends.
  | flush (results : List SendResult)
  -- The socket thread receives up to so many bytes.
  | receive (nBytes : Nat)
  -- The message thread.
  | process
  deriving DecidableEq, Repr

variable {N : Type} (start : MessageStart) (Hash : List UInt8 → Uint256) (logic : NodeLogic N)

def opened (node : N) : Connection N := ⟨.empty, [], [], node, false, [], []⟩

def step (s : Connection N) : Event → Option (Connection N)
  | .push pszCommand a1 results =>
      (s.sender.PushMessage start Hash pszCommand a1 results).map fun (sender, out) =>
        { s with sender, wire := s.wire ++ out, pushed := s.pushed ++ [(pszCommand, a1)] }
  | .abort pszCommand a1 =>
      (s.sender.BeginMessage start pszCommand).map fun sender =>
        { s with sender := { sender with ssSend := sender.ssSend ++ a1 }.AbortMessage }
  | .flush results =>
      (s.sender.SocketSendData results).map fun (sender, out) => { s with sender, wire := s.wire ++ out }
  | .receive nBytes =>
      if s.refused then some s
      else
        (ReceiveMsgBytes start s.vRecvMsg (s.wire.take nBytes)).map fun (vRecvMsg, ok) =>
          { s with vRecvMsg, wire := s.wire.drop nBytes, refused := !ok }
  | .process =>
      if s.refused || logic.fDisconnect s.node then some s
      else
        let done := ProcessMessages start Hash logic s.node s.vRecvMsg
        some { s with
          node := done.node
          vRecvMsg := done.vRecvMsg
          delivered := s.delivered ++ done.delivered
          refused := !done.fOk }

def Allowed (_ : Connection N) : Event → Prop
  | .push pszCommand a1 _ => Fit (pszCommand, a1)
  | _ => True

instance (s : Connection N) (event : Event) : Decidable (Allowed s event) := by
  cases event <;> unfold Allowed <;> infer_instance

def content (msg : CNetMessage) : List UInt8 × List UInt8 := (msg.hdr.GetCommand, msg.vRecv)

/-- The sender's counters are right, and what is delivered is what was pushed so far, in order; where
nothing is on its way the rest is waiting in the queue. -/
structure Sound (s : Connection N) : Prop where
  accepted : s.refused = false
  in_order : s.delivered <+: s.pushed
  queued : s.sender.nSendSize = (s.sender.vSendMsg.map List.length).sum
  sent : s.sender.nSendBytes + (s.sender.unsent s.sender.vSendMsg).length =
    (s.pushed.flatMap (CNode.bytesOf start Hash)).length
  arrived : logic.fDisconnect s.node = false → s.sender.vSendMsg = [] → s.wire = [] →
    s.pushed = s.delivered ++ s.vRecvMsg.map content ∧ ∀ msg ∈ s.vRecvMsg, msg.complete = true

/-- The bytes that were received, those on the wire and those that are not sent are all the messages;
the frames before those in the queue are the delivered ones. -/
structure Kept (s : Connection N) (received : List UInt8)
    (r : Framing.Received UInt8 CMessageHeader)
    (prior later : List (CMessageHeader × List UInt8)) : Prop where
  ready : s.sender.Ready
  accepted : s.refused = false
  fit : ∀ message ∈ s.pushed, Fit message
  bytes : received ++ (s.wire ++ s.sender.unsent s.sender.vSendMsg) =
    s.pushed.flatMap (CNode.bytesOf start Hash)
  sent : s.sender.nSendBytes = received.length + s.wire.length
  absorbed : framing.absorbAll Framing.start received = some r
  split : r.frames = prior ++ later
  receives : Receives s.vRecvMsg ⟨later, r.pending⟩
  in_order : s.delivered <+: s.pushed
  processed : logic.fDisconnect s.node = false → prior = s.delivered.map (CNode.frameOf start Hash)

variable {start Hash logic} {s : Connection N} {received : List UInt8}
  {r : Framing.Received UInt8 CMessageHeader} {prior later : List (CMessageHeader × List UInt8)}

theorem stream_frames (messages : List (List UInt8 × List UInt8)) :
    Framing.stream CMessageHeader.format.write (messages.map (CNode.frameOf start Hash)) =
      messages.flatMap (CNode.bytesOf start Hash) := by
  rw [Framing.stream, List.flatMap_map]
  rfl

theorem part_frames (messages : List (List UInt8 × List UInt8)) (fit : ∀ message ∈ messages, Fit message)
    (part rest : List UInt8) (split : part ++ rest = messages.flatMap (CNode.bytesOf start Hash)) :
    ∃ r, framing.absorbAll Framing.start part = some r ∧
      r.frames <+: messages.map (CNode.frameOf start Hash) ∧
      (rest = [] → r = ⟨messages.map (CNode.frameOf start Hash), .header []⟩) := by
  refine Framing.absorbAll_part _ (fun frame mem => ?_) part rest (split.trans (stream_frames messages).symm)
  obtain ⟨message, pushed, rfl⟩ := List.mem_map.mp mem
  exact (fit message pushed).good start Hash

theorem Kept.waiting (kept : Kept start Hash logic s received r prior later)
    (connected : logic.fDisconnect s.node = false) :
    ∃ waiting rest, s.pushed = s.delivered ++ (waiting ++ rest) ∧
      later = waiting.map (CNode.frameOf start Hash) := by
  obtain ⟨other, absorbed, frames, _⟩ := part_frames s.pushed kept.fit received _ kept.bytes
  rw [kept.absorbed] at absorbed
  cases absorbed
  obtain ⟨behind, pushed⟩ := kept.in_order
  rw [kept.split, kept.processed connected, ← pushed, List.map_append,
    List.prefix_append_right_inj] at frames
  refine ⟨behind.take later.length, behind.drop later.length, ?_, ?_⟩
  · rw [List.take_append_drop, pushed]
  · rw [List.map_take]
    exact (List.prefix_iff_eq_take.mp frames)

theorem content_frames (vRecvMsg : List CNetMessage) (messages : List (List UInt8 × List UInt8))
    (fit : ∀ message ∈ messages, Fit message)
    (frames : vRecvMsg.map frame = messages.map (CNode.frameOf start Hash)) :
    vRecvMsg.map content = messages := by
  have read : vRecvMsg.map content = (vRecvMsg.map frame).map fun f => (f.1.GetCommand, f.2) := by
    rw [List.map_map]
    rfl
  rw [read, frames, List.map_map]
  refine (List.map_congr_left fun message mem => ?_).trans (List.map_id messages)
  exact Prod.ext ((fit message mem).header start Hash).2 rfl

theorem Kept.sound (kept : Kept start Hash logic s received r prior later) :
    Sound start Hash logic s := by
  refine ⟨kept.accepted, kept.in_order, kept.ready.queued.size, ?_, fun connected none_queued none_sent => ?_⟩
  · have bytes := congrArg List.length kept.bytes
    rw [List.length_append, List.length_append] at bytes
    rw [kept.sent, ← bytes, Nat.add_assoc]
  · have none_left : s.wire ++ s.sender.unsent s.sender.vSendMsg = [] := by
      rw [none_sent, CNode.unsent, none_queued, List.flatten_nil, List.drop_nil, List.append_nil]
    obtain ⟨other, absorbed, _, all⟩ := part_frames s.pushed kept.fit received _ kept.bytes
    rw [kept.absorbed] at absorbed
    cases absorbed
    have whole := all none_left
    obtain ⟨behind, pushed⟩ := kept.in_order
    have frames : later = behind.map (CNode.frameOf start Hash) := by
      have split := kept.split
      rw [whole, kept.processed connected, ← pushed, List.map_append] at split
      exact (List.append_cancel_left split).symm
    obtain ⟨before, same, wholes, ⟨rfl, _⟩ | ⟨_, _, _, _, more⟩⟩ := kept.receives
    · have fit (message : List UInt8 × List UInt8) (mem : message ∈ behind) : Fit message :=
        kept.fit message (pushed ▸ List.mem_append_right _ mem)
      rw [content_frames s.vRecvMsg behind fit (same.trans frames), pushed]
      exact ⟨rfl, fun msg mem => (wholes msg mem).complete⟩
    · exact absurd (congrArg Framing.Received.pending whole) more

theorem start_kept (node : N) : Kept start Hash logic (opened node) [] Framing.start [] [] where
  ready := ⟨rfl, ⟨rfl, Nat.one_pos, fun _ => rfl⟩, fun _ mem => absurd mem List.not_mem_nil⟩
  accepted := rfl
  fit := fun _ mem => absurd mem List.not_mem_nil
  bytes := rfl
  sent := rfl
  absorbed := rfl
  split := rfl
  receives := ⟨[], rfl, fun _ mem => absurd mem List.not_mem_nil, .inl ⟨rfl, rfl⟩⟩
  in_order := List.prefix_rfl
  processed := fun _ => rfl

theorem Kept.sends (kept : Kept start Hash logic s received r prior later) (sender : CNode)
    (out : List UInt8) (added : List (List UInt8 × List UInt8)) (ready : sender.Ready)
    (fit : ∀ message ∈ added, Fit message)
    (bytes : out ++ sender.unsent sender.vSendMsg =
      s.sender.unsent s.sender.vSendMsg ++ added.flatMap (CNode.bytesOf start Hash))
    (sent : sender.nSendBytes = s.sender.nSendBytes + out.length) :
    Kept start Hash logic { s with sender, wire := s.wire ++ out, pushed := s.pushed ++ added }
      received r prior later where
  ready := ready
  accepted := kept.accepted
  fit := fun message mem => (List.mem_append.mp mem).elim (kept.fit message) (fit message)
  bytes := by
    rw [List.flatMap_append, ← kept.bytes, List.append_assoc, List.append_assoc, List.append_assoc, bytes]
  sent := by rw [sent, kept.sent, List.length_append, Nat.add_assoc]
  absorbed := kept.absorbed
  split := kept.split
  receives := kept.receives
  in_order := kept.in_order.trans (List.prefix_append _ _)
  processed := kept.processed

theorem Kept.processes (kept : Kept start Hash logic s received r prior later) :
    ∃ next, s.step start Hash logic .process = some next ∧
      ∃ received r prior later, Kept start Hash logic next received r prior later := by
  rw [step, kept.accepted, Bool.false_or]
  by_cases disconnected : logic.fDisconnect s.node = true
  · rw [if_pos disconnected]
    exact ⟨s, rfl, received, r, prior, later, kept⟩
  · have connected : logic.fDisconnect s.node = false := Bool.eq_false_of_not_eq_true disconnected
    rw [if_neg disconnected, ProcessMessages]
    obtain ⟨node, is_node⟩ : ∃ node, node =
        if logic.moreGetData s.node then logic.ProcessGetData s.node else s.node := ⟨_, rfl⟩
    rw [← is_node]
    refine ⟨_, rfl, received, r, ?_⟩
    by_cases getData : logic.moreGetData node = true
    · rw [if_pos getData]
      refine ⟨prior, later, kept.ready, rfl, kept.fit, kept.bytes, kept.sent, kept.absorbed, kept.split,
        kept.receives, ?_, fun _ => ?_⟩
      · rw [List.append_nil]
        exact kept.in_order
      · rw [List.append_nil]
        exact kept.processed connected
    · rw [if_neg getData]
      obtain ⟨waiting, rest, pushed, frames⟩ := kept.waiting connected
      have fit (message : List UInt8 × List UInt8) (mem : message ∈ waiting) : Fit message := by
        refine kept.fit message ?_
        rw [pushed]
        exact List.mem_append_right _ (List.mem_append_left _ mem)
      obtain ⟨before, same, wholes, last⟩ := kept.receives
      -- what is behind the complete messages
      obtain ⟨current, queue, incomplete, ends⟩ : ∃ current : List CNetMessage,
          s.vRecvMsg = before ++ current ∧ (∀ msg ∈ current, msg.complete = false) ∧
          ∀ before' : List CNetMessage, before' ++ current = before' ∧ r.pending = .header [] ∨
            ∃ msg, before' ++ current = before' ++ [msg] ∧ Holds msg r.pending ∧
              msg.complete = false ∧ r.pending ≠ .header [] := by
        rcases last with ⟨queue, none⟩ | ⟨msg, queue, holds, incomplete, more⟩
        · exact ⟨[], by rw [queue, List.append_nil], fun _ mem => absurd mem List.not_mem_nil,
            fun before' => .inl ⟨List.append_nil before', none⟩⟩
        · refine ⟨[msg], queue, fun other mem => ?_, fun before' => .inr ⟨msg, rfl, holds, incomplete, more⟩⟩
          rwa [List.mem_singleton.mp mem]
      obtain ⟨k, delivered, left, ok⟩ := processLoop_delivers start Hash logic waiting fit before wholes
        (same.trans frames) current incomplete node
      rw [← queue] at delivered left ok
      have in_order : s.delivered ++ waiting.take k <+: s.pushed := by
        rw [pushed, List.prefix_append_right_inj]
        exact (List.take_prefix k waiting).trans (List.prefix_append _ _)
      by_cases closes : logic.fDisconnect (processLoop start Hash logic node s.vRecvMsg).node = true
      · rw [if_pos closes]
        refine ⟨prior, later, kept.ready, ?_, kept.fit, kept.bytes, kept.sent, kept.absorbed, kept.split,
          kept.receives, ?_, fun still => ?_⟩
        · dsimp only
          rw [ok]
          rfl
        · dsimp only
          rw [delivered]
          exact in_order
        · dsimp only at still
          rw [closes] at still
          cases still
      · rw [if_neg closes]
        refine ⟨prior ++ later.take k, later.drop k, kept.ready, ?_, kept.fit, kept.bytes, kept.sent,
          kept.absorbed, ?_, ?_, ?_, fun _ => ?_⟩
        · dsimp only
          rw [ok]
          rfl
        · rw [List.append_assoc, List.take_append_drop]
          exact kept.split
        · dsimp only
          rw [left]
          refine ⟨before.drop k, ?_, fun msg mem => wholes msg (List.mem_of_mem_drop mem), ends _⟩
          rw [List.map_drop, same]
        · dsimp only
          rw [delivered]
          exact in_order
        · dsimp only
          rw [delivered, kept.processed connected, List.map_append, frames, List.map_take]

theorem step_kept (s : Connection N) (event : Event)
    (inv : ∃ received r prior later, Kept start Hash logic s received r prior later)
    (allowed : Allowed s event) :
    ∃ next, s.step start Hash logic event = some next ∧
      ∃ received r prior later, Kept start Hash logic next received r prior later := by
  obtain ⟨received, r, prior, later, kept⟩ := inv
  cases event with
  | push pszCommand a1 results =>
      obtain ⟨sender, out, ran, ready, bytes, sent⟩ := kept.ready.pushes start Hash (pszCommand, a1) results
      refine ⟨_, by rw [step, ran]; rfl, received, r, prior, later, kept.sends sender out [(pszCommand, a1)]
        ready (fun message mem => ?_) (by rw [List.flatMap_singleton]; exact bytes) sent⟩
      rw [List.mem_singleton.mp mem]
      exact allowed
  | abort pszCommand a1 =>
      have nothing : s.sender.ssSend = [] := kept.ready.none_begun
      have same : { s.sender with ssSend := [] } = s.sender := by rw [← nothing]
      refine ⟨s, ?_, received, r, prior, later, kept⟩
      rw [step, CNode.BeginMessage, nothing, if_pos List.length_nil, Option.map_some]
      exact congrArg (fun sender => some { s with sender }) same
  | flush results =>
      obtain ⟨sender, out, ran, ready, bytes, sent⟩ := kept.ready.flushes results
      have next := kept.sends sender out [] ready (fun message mem => absurd mem List.not_mem_nil)
        (by rw [List.flatMap_nil, List.append_nil]; exact bytes) sent
      rw [List.append_nil] at next
      exact ⟨_, by rw [step, ran]; rfl, received, r, prior, later, next⟩
  | receive nBytes =>
      have bytes := kept.bytes
      rw [← List.take_append_drop nBytes s.wire, List.append_assoc, ← List.append_assoc] at bytes
      obtain ⟨whole, absorbed, _⟩ := part_frames s.pushed kept.fit _ _ bytes
      rw [Framing.absorbAll_append, kept.absorbed, Option.bind_some] at absorbed
      have behind := absorbed
      rw [show r = ⟨prior ++ later, r.pending⟩ by rw [← kept.split], Framing.absorbAll_behind] at behind
      obtain ⟨ahead, taken, rfl⟩ := Option.map_eq_some_iff.mp behind
      obtain ⟨vRecvMsg, ok, ran, _, ⟨rfl, final, again, receives⟩ | ⟨_, refused⟩⟩ :=
        receiveMsgBytes_refines start s.vRecvMsg _ (s.wire.take nBytes) kept.receives
      · rw [taken] at again
        cases again
        refine ⟨{ s with vRecvMsg, wire := s.wire.drop nBytes, refused := false }, ?_,
          received ++ s.wire.take nBytes, ⟨prior ++ ahead.frames, ahead.pending⟩, prior, ahead.frames,
          ⟨kept.ready, rfl, kept.fit, bytes, ?_, ?_, rfl, receives, kept.in_order, kept.processed⟩⟩
        · rw [step, kept.accepted, if_neg Bool.false_ne_true, ran]
          rfl
        · have sent := kept.sent
          simp only [List.length_append, List.length_take, List.length_drop]
          omega
        · rw [Framing.absorbAll_append, kept.absorbed, Option.bind_some, absorbed]
      · rw [refused.1] at taken
        cases taken
  | process => exact kept.processes

/-- Messages within the limits, cut into pieces by whatever the sockets take and give: no assertion
fails, nothing is written outside a buffer, the receiver does not close the connection, and every
message that is delivered is the next one that was pushed. -/
theorem connection_delivers (node : N) (events : List Event)
    (along : Machine.Along Allowed (fun s => step start Hash logic s) (opened node) events) :
    Machine.SafeRun (fun s => step start Hash logic s) (Sound start Hash logic) (opened node) events := by
  refine Machine.safeRun_of_along _ Allowed
    (fun s => ∃ received r prior later, Kept start Hash logic s received r prior later) _ ?_ step_kept
    _ events ⟨[], _, [], [], start_kept node⟩ along
  rintro s ⟨received, r, prior, later, kept⟩
  exact kept.sound

def accepting : NodeLogic Unit := ⟨fun _ => false, fun _ => false, fun _ => false, id, fun _ _ _ => ((), true)⟩

/-- A ping that leaves in two parts and comes in three. -/
theorem connection_delivers_ping :
    Machine.SafeRun (fun s => step ⟨[1, 2, 3, 4], rfl⟩ (fun data => BitVec.ofNat 256 data.length) accepting s)
      (Sound ⟨[1, 2, 3, 4], rfl⟩ (fun data => BitVec.ofNat 256 data.length) accepting) (opened ())
      [.push [0x70, 0x69, 0x6E, 0x67] [7, 0, 0, 0, 0, 0, 0, 0] [.sent 10], .receive 4, .process,
        .flush [.blocked], .flush [.sent 100], .receive 16, .receive 100, .process] := by
  refine connection_delivers () _ (Machine.along_mono (fun _ _ => True) _ _ _ _ ?_ (Machine.along_true _ _ _))
  intro s event mem _
  simp only [List.mem_cons, List.not_mem_nil, or_false] at mem
  rcases mem with rfl | rfl | rfl | rfl | rfl | rfl | rfl | rfl
  · exact ⟨by decide, by decide, by decide⟩
  all_goals trivial

end Connection

end CryptoYen
