import Rubo.Msgs.MsgCenter

/-!
# SocketOp

Reading and writing one connection, from `util/SocketOp.cpp`.

Every system call is answered by a list of results, one for each call; a list
that has run out answers `EAGAIN`. So a statement about all lists is about all
behaviours of the kernel.

Two things to keep in mind about `send`: after a short write it goes on behind
the whole chunk, not behind the bytes the kernel took; and `_can_wt` decides
whether it writes or queues, but nothing ever sets it to `false`.
-/

namespace Rubo.Util

open Rubo.Foundation Rubo.Msgs

/-- A result of `::read`. -/
inductive ReadRes where
  /-- These bytes are there; the call delivers as many as it was asked for. -/
  | data (bs : List UInt8)
  | eintr
  | eagain
  | eof
  | error
  deriving DecidableEq, Repr

/-- A result of `::write`. -/
inductive WriteRes where
  /-- The kernel takes up to `n` bytes. -/
  | took (n : ℕ)
  | eintr
  | eagain
  | error
  deriving DecidableEq, Repr

/-- The fields of a `SocketOp`: two scratch buffers shared by all connections. -/
structure SocketOp where
  rdBuff : LineBufferPtr
  wtBuff : LineBufferPtr

namespace SocketOp

/-- `READ_SIZE` -/
def readSize : ℕ := 64

/-- `WRITE_DATA_MAX` -/
def writeDataMax : ℕ := 2048

def new : SocketOp := ⟨.new, .new⟩

/-! ## Reading -/

/-- The loop of `read`. `loopReadSize` bytes of the scratch block are filled; a
block that is full grows at once, so `::read` is never asked for nothing. -/
def readLoop (rdBuff : LineBufferPtr) (loopReadSize : ℕ) (h : loopReadSize < rdBuff.buffSize) :
    List ReadRes → LineBufferPtr × ℕ × FdEvent
  | [] | .eagain :: _ => (rdBuff, loopReadSize, FdEvent.none)
  | .eintr :: rest => readLoop rdBuff loopReadSize h rest
  | .error :: _ | .eof :: _ => (rdBuff, loopReadSize, FdEvent.error)
  | .data bs :: rest =>
    -- `::read` is asked for `READ_SIZE` bytes, or for what is left of the block
    let leftReadSize := rdBuff.buffSize - loopReadSize
    let got := bs.take (if leftReadSize ≥ readSize then readSize else leftReadSize)
    -- `0` means that the peer has closed
    if got = [] then
      (rdBuff, loopReadSize, FdEvent.error)
    else
      have hgot : loopReadSize + got.length ≤ rdBuff.buffSize := by
        have hle := List.length_take_le (if leftReadSize ≥ readSize then readSize else leftReadSize) bs
        show _ + (bs.take _).length ≤ _
        split_ifs at hle ⊢ <;> omega
      let rdBuff' := rdBuff.write loopReadSize got hgot
      -- a full block grows before the next call
      if hfull : loopReadSize + got.length = rdBuff'.buffSize then
        readLoop (rdBuff'.appendSize 0) (loopReadSize + got.length)
          (hfull ▸ rdBuff'.buffSize_lt_appendSize_zero) rest
      else
        readLoop rdBuff' (loopReadSize + got.length) (Nat.lt_of_le_of_ne hgot hfull) rest

/-- `read(sock_node)` -/
def read (op : SocketOp) (sockNode : SocketNode) (reads : List ReadRes) :
    FdEvent × SocketOp × SocketNode :=
  let rdBuff := op.rdBuff.cleanData
  let (rdBuff, loopReadSize, opRet) := readLoop rdBuff 0 rdBuff.buffSize_pos reads
  -- the bytes read so far are kept whatever ended the loop
  let got := rdBuff.data.take loopReadSize
  let sockNode :=
    if loopReadSize > 0 then
      { sockNode with
        rdBuff := sockNode.rdBuff.addData got
        received := sockNode.received ++ got }
    else
      sockNode
  (opRet, { op with rdBuff }, { sockNode with opRet := sockNode.opRet ||| opRet })

/-! ## Writing -/

/-- The loop of `send`, with `wtLen` bytes behind it. -/
def sendLoop (data : List UInt8) : SocketNode → ℕ → List WriteRes →
    FdEvent × SocketNode × List WriteRes
  | sock, wtLen, [] =>
    if wtLen < data.length then
      (FdEvent.write, { sock with wtBuff := sock.wtBuff.addData (data.drop wtLen) }, [])
    else
      (FdEvent.none, sock, [])
  | sock, wtLen, res :: writes =>
    if wtLen < data.length then
      -- at most `WRITE_DATA_MAX` bytes at a time
      let oneLen := if data.length - wtLen > writeDataMax then writeDataMax
        else data.length - wtLen
      match res with
      | .took n =>
        let wRet := min n oneLen
        if wRet > 0 then
          -- the next chunk starts behind this one, however little was taken
          sendLoop data { sock with accepted := sock.accepted ++ (data.drop wtLen).take wRet }
            (wtLen + oneLen) writes
        else
          (FdEvent.error, sock, writes)
      | .eintr => sendLoop data sock wtLen writes
      | .eagain =>
        -- what was not sent is queued
        (FdEvent.write, { sock with wtBuff := sock.wtBuff.addData (data.drop wtLen) }, writes)
      | .error => (FdEvent.error, sock, writes)
    else
      (FdEvent.none, sock, res :: writes)

/-- `send(sock, data, len)`. When it only queues it returns `true`, which as an
`FD_EVENT` is `FD_EVENT_READ`. `len` is an `int` there: the model is of calls with
fewer than `2^31` bytes. -/
def send (sock : SocketNode) (data : List UInt8) (writes : List WriteRes) :
    FdEvent × SocketNode × List WriteRes :=
  if sock.canWt = false then
    (1, { sock with wtBuff := sock.wtBuff.addData data }, writes)
  else
    sendLoop data sock 0 writes

/-- `write(sock_node)`: send what is pending, fewer than `2^31` bytes. -/
def flush (op : SocketOp) (sockNode : SocketNode) (writes : List WriteRes) :
    FdEvent × SocketOp × SocketNode × List WriteRes :=
  let sockNode := { sockNode with canWt := true }
  if sockNode.wtBuff.dataSize ≤ 0 then
    (FdEvent.none, op, { sockNode with opRet := sockNode.opRet ||| FdEvent.none }, writes)
  else
    let dataLen := sockNode.wtBuff.dataSize
    -- all pending bytes move to the scratch block
    let (wtBuff, pending) := (op.wtBuff.cleanData.appendSize dataLen).readDelBegin
      sockNode.wtBuff dataLen (op.wtBuff.cleanData.le_buffSize_appendSize dataLen)
    let (opRet, sockNode, writes) :=
      send { sockNode with wtBuff := pending } (wtBuff.data.take dataLen) writes
    (opRet, { op with wtBuff }, { sockNode with opRet := sockNode.opRet ||| opRet }, writes)

/-- The part of `write(sock_node, msg)` that fills the scratch block: the header
first, then the serialized message. -/
def fillFrame (pb : Protobuf) (wtBuff : LineBufferPtr) (msg : UserMsg) : LineBufferPtr :=
  let body := pb.serializeToArray msg.msg
  let wtBuff := wtBuff.cleanData.appendSize (body.length + 4 + 4 + 4)
  have hroom : body.length + 4 + 4 + 4 ≤ wtBuff.buffSize :=
    LineBufferPtr.le_buffSize_appendSize ..
  let wtBuff₁ := wtBuff.write 0 (LittleEndian.toBytes 4 body.length)
    (Nat.le_trans (by rw [LittleEndian.length_toBytes]; omega) hroom)
  let wtBuff₂ := wtBuff₁.write 4 (LittleEndian.ofInt32 msg.msgId)
    (Nat.le_trans (by rw [LittleEndian.length_ofInt32]; omega) hroom)
  let wtBuff₃ := wtBuff₂.write 8 (LittleEndian.ofInt32 msg.uid)
    (Nat.le_trans (by rw [LittleEndian.length_ofInt32]; omega) hroom)
  wtBuff₃.write 12 body (Nat.le_trans (by omega) hroom)

/-- `write(sock_node, msg)` -/
def writeMsg (pb : Protobuf) (op : SocketOp) (sockNode : SocketNode) (msg : UserMsg)
    (writes : List WriteRes) : FdEvent × SocketOp × SocketNode × List WriteRes :=
  let wtBuff := fillFrame pb op.wtBuff msg
  let msgLen := (pb.serializeToArray msg.msg).length
  let (ret, sockNode, writes) := send sockNode (wtBuff.data.take (msgLen + 12)) writes
  (ret, { op with wtBuff }, sockNode, writes)

/-! ## The reading side of a node -/

open SocketNode (Kept)

theorem grown_read (op : SocketOp) (sockNode : SocketNode) (reads : List ReadRes) :
    ∃ delta, sockNode.Grown (op.read sockNode reads).2.2 delta := by
  unfold read
  simp only
  split_ifs
  · -- something was read
    exact ⟨_, RingBuffPtr.toList_addData .., rfl, rfl, rfl⟩
  · exact ⟨[], Kept.of_eq rfl rfl rfl rfl⟩

/-- The loop of `send` changes what is pending and what the kernel has taken. -/
theorem sendLoop_eq (data : List UInt8) (sock : SocketNode) (wtLen : ℕ) (writes : List WriteRes) :
    ∃ wtBuff accepted, (sendLoop data sock wtLen writes).2.1 =
      { sock with wtBuff := wtBuff, accepted := accepted } := by
  induction writes generalizing sock wtLen with
  | nil =>
      rw [sendLoop]
      split_ifs
      · exact ⟨_, _, rfl⟩
      · exact ⟨_, _, rfl⟩
  | cons res writes ih =>
      rw [sendLoop]
      by_cases hleft : wtLen < data.length
      · rw [if_pos hleft]
        cases res with
        | took n =>
            generalize (if data.length - wtLen > writeDataMax then writeDataMax
              else data.length - wtLen) = oneLen
            simp only
            split_ifs
            · -- one chunk, then the rest of the loop
              exact ih _ _
            · exact ⟨_, _, rfl⟩
        | eintr => exact ih ..
        | eagain => exact ⟨_, _, rfl⟩
        | error => exact ⟨_, _, rfl⟩
      · rw [if_neg hleft]
        exact ⟨_, _, rfl⟩

theorem kept_sendLoop (data : List UInt8) (sock : SocketNode) (wtLen : ℕ) (writes : List WriteRes) :
    sock.Kept (sendLoop data sock wtLen writes).2.1 := by
  obtain ⟨wtBuff, accepted, heq⟩ := sendLoop_eq data sock wtLen writes
  rw [heq]
  exact Kept.of_eq rfl rfl rfl rfl

theorem kept_send (sock : SocketNode) (data : List UInt8) (writes : List WriteRes) :
    sock.Kept (send sock data writes).2.1 := by
  unfold send
  split_ifs
  · exact Kept.of_eq rfl rfl rfl rfl
  · exact kept_sendLoop ..

theorem kept_flush (op : SocketOp) (sockNode : SocketNode) (writes : List WriteRes) :
    sockNode.Kept (op.flush sockNode writes).2.2.1 := by
  unfold flush
  simp only
  split_ifs
  · exact Kept.of_eq rfl rfl rfl rfl
  · -- the flags change around the call of `send`
    refine Kept.trans (Kept.trans ?_ (kept_send _ _ writes)) (Kept.of_eq rfl rfl rfl rfl)
    exact Kept.of_eq rfl rfl rfl rfl

theorem kept_writeMsg (pb : Protobuf) (op : SocketOp) (sockNode : SocketNode) (msg : UserMsg)
    (writes : List WriteRes) : sockNode.Kept (writeMsg pb op sockNode msg writes).2.2.1 :=
  kept_send ..

end SocketOp

end Rubo.Util
