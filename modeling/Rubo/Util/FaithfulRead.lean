import Rubo.Util.SocketOp

/-!
# `SocketOp::read` Is Faithful

The loop of `read` once more, with the `int` arithmetic of the source and with
the answers `::read` has given. A call that is asked for nothing, or that could
write outside the scratch block, is a breach.

`read_faithful` says that neither happens: from a scratch block below `2^31`
bytes the loop is the one of `read`, the bytes appended to the read buffer are
those delivered, and `FD_EVENT_ERROR` means that the peer has closed or a call
has failed.
-/

namespace Rubo.Util

open Rubo.Foundation Memory

namespace ReadRes

/-- The bytes an answer of `::read` brings. -/
def delivered : ReadRes → List UInt8
  | .data bs => bs
  | _ => []

/-- The answer is the end of the stream, or a failure that is no reason to try again. -/
def Ends : ReadRes → Prop
  | .data bs => bs = []
  | .eof | .error => True
  | .eintr | .eagain => False

end ReadRes

namespace SocketOp

/-! ## The loop, checked -/

/-- What must not happen in a call of `::read`. -/
inductive ReadBreach where
  /-- It is asked for nothing, and its answer would look like the end of the stream. -/
  | zero
  /-- It could write outside the scratch block: as a `size_t` a negative count is huge. -/
  | outside
  deriving DecidableEq, Repr

/-- `read_size`: both sizes are an `int`. -/
def readCount (buffSize loopReadSize : ℕ) : ℤ :=
  let leftReadSize := (Int32.ofInt (buffSize - loopReadSize)).toInt
  if leftReadSize ≥ readSize then readSize else leftReadSize

/-- The loop of `read`; the last component are the answers of `::read`. -/
def readLoopChecked (rdBuff : LineBufferPtr) (loopReadSize : ℕ) (reads : List ReadRes) :
    Except ReadBreach (LineBufferPtr × ℕ × FdEvent × List ReadRes) :=
  let count := readCount rdBuff.buffSize loopReadSize
  if count = 0 then
    .error .zero
  else if hin : 0 < count ∧ loopReadSize + count.toNat ≤ rdBuff.buffSize then
    match reads with
    | [] | .eagain :: _ => .ok (rdBuff, loopReadSize, FdEvent.none, [.eagain])
    | .eintr :: rest => do
      let (rdBuff, loopReadSize, opRet, answers) ← readLoopChecked rdBuff loopReadSize rest
      return (rdBuff, loopReadSize, opRet, .eintr :: answers)
    | .error :: _ => .ok (rdBuff, loopReadSize, FdEvent.error, [.error])
    | .eof :: _ => .ok (rdBuff, loopReadSize, FdEvent.error, [.eof])
    | .data bs :: rest =>
      let got := bs.take count.toNat
      if got = [] then
        .ok (rdBuff, loopReadSize, FdEvent.error, [.data []])
      else do
        have hgot : loopReadSize + got.length ≤ rdBuff.buffSize :=
          (Nat.add_le_add_left (List.length_take_le ..) _).trans hin.2
        let rdBuff := rdBuff.write loopReadSize got hgot
        let rdBuff := if loopReadSize + got.length = rdBuff.buffSize then rdBuff.appendSize 0
          else rdBuff
        let (rdBuff, loopReadSize, opRet, answers) ←
          readLoopChecked rdBuff (loopReadSize + got.length) rest
        return (rdBuff, loopReadSize, opRet, .data got :: answers)
  else
    .error .outside

/-! ## What a call is asked for -/

theorem readCount_eq {buffSize loopReadSize : ℕ} (h : loopReadSize < buffSize)
    (hleft : buffSize - loopReadSize < 2 ^ 31) :
    readCount buffSize loopReadSize = (min readSize (buffSize - loopReadSize) : ℕ) := by
  have hint : (Int32.ofInt (buffSize - loopReadSize)).toInt = buffSize - loopReadSize :=
    Int32.toInt_ofInt_of_le (by omega) (by omega)
  simp only [readCount, hint]
  split_ifs <;> omega

/-- Each call is asked for something, and for no more than there is room. -/
theorem readCount_fits {buffSize loopReadSize : ℕ} (h : loopReadSize < buffSize)
    (hleft : buffSize - loopReadSize < 2 ^ 31) :
    readCount buffSize loopReadSize ≠ 0 ∧
      (0 < readCount buffSize loopReadSize ∧
        loopReadSize + (readCount buffSize loopReadSize).toNat ≤ buffSize) ∧
      (readCount buffSize loopReadSize).toNat =
        if buffSize - loopReadSize ≥ readSize then readSize else buffSize - loopReadSize := by
  have hcount := readCount_eq h hleft
  have hpos : 0 < readSize := by decide
  refine ⟨by omega, by omega, ?_⟩
  split_ifs <;> omega

/-- A block that is full grows by a size that an `int` can hold. -/
theorem grown_zero_le {buffSize : ℕ} :
    LineBufferPtr.grown buffSize 0 - buffSize < 2 ^ 31 := by
  unfold LineBufferPtr.grown LineBuffer.grownSize
  rw [if_pos rfl]
  by_cases hlarge : buffSize ≥ 1024 * 512
  · rw [if_pos hlarge]
    show buffSize + 1024 * 4 - buffSize < 2 ^ 31
    omega
  · rw [if_neg hlarge]
    show buffSize * 2 - buffSize < 2 ^ 31
    omega

/-! ## The loop -/

variable {rdBuff : LineBufferPtr} {loopReadSize : ℕ}

/-- A call that does not end the stream leaves this to the ones behind it. -/
theorem ends_cons {answer : ReadRes} (h : ¬ answer.Ends) (answers : List ReadRes) :
    (∃ last ∈ (answer :: answers).getLast?, last.Ends) ↔ ∃ last ∈ answers.getLast?, last.Ends := by
  cases answers with
  | nil => simp [h]
  | cons next answers => rw [List.getLast?_cons_cons]

/-- The bytes read so far are in front of those of the next call. -/
theorem take_write (h : loopReadSize ≤ rdBuff.buffSize) {got : List UInt8} (hgot) :
    (rdBuff.write loopReadSize got hgot).data.take (loopReadSize + got.length) =
      rdBuff.data.take loopReadSize ++ got := by
  rw [LineBufferPtr.data_write]
  exact take_splice (by rwa [LineBufferPtr.length_data])

/-- Growing keeps them. -/
theorem take_appendSize {n : ℕ} (h : n ≤ rdBuff.buffSize) :
    (rdBuff.appendSize 0).data.take n = rdBuff.data.take n := by
  rw [LineBufferPtr.data_appendSize, List.take_append_of_le_length]
  rwa [LineBufferPtr.length_data]

/-- The scratch block after a call that has brought `got`: a full block has grown. -/
def nextBlock (rdBuff : LineBufferPtr) (loopReadSize : ℕ) (got : List UInt8)
    (hgot : loopReadSize + got.length ≤ rdBuff.buffSize) : LineBufferPtr :=
  if loopReadSize + got.length = rdBuff.buffSize then
    (rdBuff.write loopReadSize got hgot).appendSize 0
  else
    rdBuff.write loopReadSize got hgot

/-- There is room for the next call, not more than an `int` can hold, and the bytes
read so far are in front of it. -/
theorem nextBlock_spec (h : loopReadSize < rdBuff.buffSize)
    (hleft : rdBuff.buffSize - loopReadSize < 2 ^ 31) {got : List UInt8}
    (hgot : loopReadSize + got.length ≤ rdBuff.buffSize) :
    loopReadSize + got.length < (nextBlock rdBuff loopReadSize got hgot).buffSize ∧
      (nextBlock rdBuff loopReadSize got hgot).buffSize - (loopReadSize + got.length) < 2 ^ 31 ∧
      (nextBlock rdBuff loopReadSize got hgot).data.take (loopReadSize + got.length) =
        rdBuff.data.take loopReadSize ++ got := by
  have htake := take_write (Nat.le_of_lt h) hgot
  unfold nextBlock
  by_cases hfull : loopReadSize + got.length = rdBuff.buffSize
  · have hroom := (rdBuff.write loopReadSize got hgot).buffSize_lt_appendSize_zero
    have hgrown := @grown_zero_le rdBuff.buffSize
    rw [if_pos hfull, @take_appendSize (rdBuff.write loopReadSize got hgot) _ hgot, htake]
    rw [LineBufferPtr.buffSize_appendSize, LineBufferPtr.buffSize_write] at hroom ⊢
    exact ⟨by omega, by omega, rfl⟩
  · rw [if_neg hfull, htake, LineBufferPtr.buffSize_write]
    exact ⟨by omega, by omega, rfl⟩

/-- The bytes a call brings when `bs` are there. -/
def gotOf (rdBuff : LineBufferPtr) (loopReadSize : ℕ) (bs : List UInt8) : List UInt8 :=
  bs.take (readCount rdBuff.buffSize loopReadSize).toNat

theorem length_gotOf_le (h : loopReadSize < rdBuff.buffSize)
    (hleft : rdBuff.buffSize - loopReadSize < 2 ^ 31) (bs : List UInt8) :
    loopReadSize + (gotOf rdBuff loopReadSize bs).length ≤ rdBuff.buffSize := by
  obtain ⟨_, hin, _⟩ := readCount_fits h hleft
  exact (Nat.add_le_add_left (List.length_take_le ..) _).trans hin.2

theorem readLoop_data (h : loopReadSize < rdBuff.buffSize)
    (hleft : rdBuff.buffSize - loopReadSize < 2 ^ 31) {bs : List UInt8} {reads : List ReadRes}
    (hne : gotOf rdBuff loopReadSize bs ≠ [])
    (hroom : loopReadSize + (gotOf rdBuff loopReadSize bs).length <
      (nextBlock rdBuff loopReadSize _ (length_gotOf_le h hleft bs)).buffSize) :
    readLoop rdBuff loopReadSize h (.data bs :: reads) =
      readLoop (nextBlock rdBuff loopReadSize _ (length_gotOf_le h hleft bs))
        (loopReadSize + (gotOf rdBuff loopReadSize bs).length) hroom reads := by
  obtain ⟨_, _, hcount⟩ := readCount_fits h hleft
  have hgot : gotOf rdBuff loopReadSize bs = bs.take (if rdBuff.buffSize - loopReadSize ≥ readSize
      then readSize else rdBuff.buffSize - loopReadSize) := by rw [gotOf, hcount]
  revert hne hroom
  unfold nextBlock
  simp only [hgot]
  intro hne hroom
  rw [readLoop, if_neg hne]
  by_cases hfull : loopReadSize + (bs.take (if rdBuff.buffSize - loopReadSize ≥ readSize
      then readSize else rdBuff.buffSize - loopReadSize)).length = rdBuff.buffSize
  · refine (dif_pos hfull).trans ?_
    simp only [if_pos hfull]
  · refine (dif_neg hfull).trans ?_
    simp only [if_neg hfull]

theorem readLoopChecked_data (h : loopReadSize < rdBuff.buffSize)
    (hleft : rdBuff.buffSize - loopReadSize < 2 ^ 31) {bs : List UInt8} {reads : List ReadRes}
    (hne : gotOf rdBuff loopReadSize bs ≠ []) :
    readLoopChecked rdBuff loopReadSize (.data bs :: reads) = do
      let (rdBuff', n, opRet, answers) ←
        readLoopChecked (nextBlock rdBuff loopReadSize _ (length_gotOf_le h hleft bs))
          (loopReadSize + (gotOf rdBuff loopReadSize bs).length) reads
      return (rdBuff', n, opRet, .data (gotOf rdBuff loopReadSize bs) :: answers) := by
  obtain ⟨hcount, hin, _⟩ := readCount_fits h hleft
  unfold gotOf at hne ⊢
  rw [readLoopChecked]
  simp only [if_neg hcount, dif_pos hin, if_neg hne, LineBufferPtr.buffSize_write, nextBlock]
  rfl

/-- The loop breaches nothing and is the loop of `read`; what it has put into the
scratch block are the bytes delivered. -/
theorem readLoopChecked_ok (h : loopReadSize < rdBuff.buffSize)
    (hleft : rdBuff.buffSize - loopReadSize < 2 ^ 31) (reads : List ReadRes) :
    ∃ rdBuff' n opRet answers,
      readLoop rdBuff loopReadSize h reads = (rdBuff', n, opRet) ∧
      readLoopChecked rdBuff loopReadSize reads = .ok (rdBuff', n, opRet, answers) ∧
      rdBuff'.data.take n = rdBuff.data.take loopReadSize ++ answers.flatMap ReadRes.delivered ∧
      (opRet = FdEvent.error ↔ ∃ answer ∈ answers.getLast?, answer.Ends) := by
  induction reads generalizing rdBuff loopReadSize with
  | nil =>
      obtain ⟨hne, hin, _⟩ := readCount_fits h hleft
      unfold readLoopChecked
      simp only [if_neg hne, dif_pos hin]
      exact ⟨_, _, _, _, rfl, rfl, by simp [ReadRes.delivered],
        by simp [ReadRes.Ends, FdEvent.none, FdEvent.error]⟩
  | cons res reads ih =>
      obtain ⟨hne, hin, hcount⟩ := readCount_fits h hleft
      rw [readLoopChecked]
      simp only [if_neg hne, dif_pos hin]
      cases res with
      | eagain =>
          exact ⟨_, _, _, _, rfl, rfl, by simp [ReadRes.delivered],
            by simp [ReadRes.Ends, FdEvent.none, FdEvent.error]⟩
      | eof => exact ⟨_, _, _, _, rfl, rfl, by simp [ReadRes.delivered], by simp [ReadRes.Ends]⟩
      | error => exact ⟨_, _, _, _, rfl, rfl, by simp [ReadRes.delivered], by simp [ReadRes.Ends]⟩
      | eintr =>
          obtain ⟨rdBuff', n, opRet, answers, hloop, hcheck, hdata, hret⟩ := ih h hleft
          refine ⟨rdBuff', n, opRet, .eintr :: answers, hloop, by simp only [hcheck]; rfl, hdata, ?_⟩
          rw [hret, ends_cons (by simp [ReadRes.Ends])]
      | data bs =>
          by_cases hnil : gotOf rdBuff loopReadSize bs = []
          · refine ⟨_, _, _, _, ?_, if_pos hnil, by simp [ReadRes.delivered],
              by simp [ReadRes.Ends]⟩
            rw [gotOf, hcount] at hnil
            rw [readLoop, if_pos hnil]
          · have hends : ¬ (ReadRes.data (gotOf rdBuff loopReadSize bs)).Ends := hnil
            obtain ⟨hroom, hleft', htake⟩ := nextBlock_spec h hleft (length_gotOf_le h hleft bs)
            obtain ⟨rdBuff', n, opRet, answers, hloop, hcheck, hdata, hret⟩ := ih hroom hleft'
            have hstep := @readLoopChecked_data rdBuff loopReadSize h hleft bs reads hnil
            rw [readLoopChecked] at hstep
            simp only [if_neg hne, dif_pos hin] at hstep
            refine ⟨rdBuff', n, opRet, _ :: answers, (readLoop_data h hleft hnil hroom).trans hloop,
              hstep.trans (by rw [hcheck]; rfl), ?_, ?_⟩
            · rw [hdata, htake, List.append_assoc]
              rfl
            · rw [hret, ends_cons hends]

/-! ## The whole of `read` -/

/-- **`read` is faithful**: from any scratch block below `2^31` bytes, and whatever
`::read` answers, each call is asked for something and stays in the block, the bytes
delivered are appended to the read buffer, and `FD_EVENT_ERROR` is returned exactly
when the last answer is the end of the stream or a failure. -/
theorem read_faithful (op : SocketOp) (sockNode : SocketNode) (reads : List ReadRes)
    (hsize : op.rdBuff.buffSize < 2 ^ 31) :
    ∃ rdBuff n answers,
      readLoopChecked op.rdBuff.cleanData 0 reads =
        .ok (rdBuff, n, (op.read sockNode reads).1, answers) ∧
      (op.read sockNode reads).2.1 = { op with rdBuff := rdBuff } ∧
      (op.read sockNode reads).2.2.rdBuff.toList =
        sockNode.rdBuff.toList ++ answers.flatMap ReadRes.delivered ∧
      ((op.read sockNode reads).1 = FdEvent.error ↔
        ∃ answer ∈ answers.getLast?, answer.Ends) := by
  obtain ⟨rdBuff, n, opRet, answers, hloop, hcheck, hdata, hret⟩ :=
    readLoopChecked_ok op.rdBuff.cleanData.buffSize_pos
      (by simpa using hsize) reads
  rw [List.take_zero, List.nil_append] at hdata
  unfold read
  simp only [hloop]
  refine ⟨rdBuff, n, answers, hcheck, rfl, ?_, hret⟩
  split_ifs with hn
  · rw [RingBuffPtr.toList_addData, hdata]
  · -- nothing was read
    obtain rfl : n = 0 := by omega
    rw [← hdata, List.take_zero, List.append_nil]

/-- Seventy bytes in three calls with an interruption, then the peer has closed. -/
theorem read_faithful_closed :
    ∃ rdBuff n answers,
      readLoopChecked LineBufferPtr.new.cleanData 0
        [.data (List.replicate 64 1), .eintr, .data [2, 3], .data [4, 5, 6, 7], .eof] =
        .ok (rdBuff, n, (new.read {} [.data (List.replicate 64 1), .eintr, .data [2, 3],
          .data [4, 5, 6, 7], .eof]).1, answers) := by
  obtain ⟨rdBuff, n, answers, hcheck, _⟩ := read_faithful new {} [.data (List.replicate 64 1),
    .eintr, .data [2, 3], .data [4, 5, 6, 7], .eof] (by decide)
  exact ⟨rdBuff, n, answers, hcheck⟩

end SocketOp

end Rubo.Util
