import Rubo.Foundation.Machine
import Rubo.Util.RingBuffSpec

/-!
# RingBuff Refines a Byte Queue

What a `RingBuff` is for: an unbounded queue of bytes. `Queue.call` says this
without mentioning cells, heads or growth; `ringBuff_refines_byteQueue` says that no
sequence of calls on a new ring can tell the two apart.

`RingBuffPtr` is the form in which the rest of the program holds a ring: a ring
together with its class invariant, with total operations whose effect on
`toList` is the `simp` interface every later module works with.
-/

namespace Rubo.Util

open Rubo.Foundation

/-! ## Calls and their answers -/

/-- A call of the public interface. -/
inductive RingBuff.Call where
  | addData (data : List UInt8)
  | delData (len : ℕ)
  | readBegin (len : ℕ)
  | readDelBegin (len : ℕ)
  | dataSize
  deriving DecidableEq, Repr

/-- What the caller sees: the returned flag, the bytes written to `dest`, a size. -/
inductive RingBuff.Answer where
  | flag (ret : Bool)
  | bytes (ret : Bool) (dest : List UInt8)
  | size (n : ℕ)
  deriving DecidableEq, Repr

namespace RingBuff

/-- One call on a ring. -/
def call (rb : RingBuff) : Call → Except Fault (Answer × RingBuff)
  | .addData data => do
    let (ret, rb) ← rb.addData data
    return (.flag ret, rb)
  | .delData len => do
    let (ret, rb) ← rb.delData len
    return (.flag ret, rb)
  | .readBegin len => do
    let (ret, dest) ← rb.readBegin len
    return (.bytes ret dest, rb)
  | .readDelBegin len => do
    let ((ret, dest), rb) ← rb.readDelBegin len
    return (.bytes ret dest, rb)
  | .dataSize => return (.size rb.dataSize, rb)

end RingBuff

/-- The same call on a list of bytes. -/
def Queue.call (q : List UInt8) : RingBuff.Call → RingBuff.Answer × List UInt8
  | .addData data => (.flag true, q ++ data)
  | .delData len =>
    if 0 < len ∧ len ≤ q.length then (.flag true, q.drop len) else (.flag false, q)
  | .readBegin len =>
    if len ≤ q.length then (.bytes true (q.take len), q) else (.bytes false [], q)
  | .readDelBegin len =>
    if 0 < len ∧ len ≤ q.length then (.bytes true (q.take len), q.drop len)
    else (.bytes false [], q)
  | .dataSize => (.size q.length, q)

/-- A ring represents the queue of its contents. -/
structure RingBuff.Represents (rb : RingBuff) (q : List UInt8) : Prop where
  inv : rb.Inv
  contents_eq : rb.contents = q

theorem RingBuff.represents_new : RingBuff.new.Represents [] :=
  ⟨RingBuff.inv_new, RingBuff.contents_new⟩

/-- One call: same answer, and the ring still represents the queue. -/
theorem RingBuff.call_refines {rb : RingBuff} {q : List UInt8} (h : rb.Represents q)
    (c : RingBuff.Call) :
    ∃ rb', rb.call c = .ok ((Queue.call q c).1, rb') ∧ rb'.Represents (Queue.call q c).2 := by
  obtain ⟨hinv, rfl⟩ := h
  cases c with
  | addData data =>
    obtain ⟨rb', hadd, hinv', hcont⟩ := addData_ok hinv data
    exact ⟨rb', by simp only [call, hadd]; rfl, hinv', hcont⟩
  | delData len =>
    obtain ⟨rb', hdel, hinv', hcont⟩ := delData_ok hinv len
    refine ⟨rb', ?_, hinv', ?_⟩
    · simp only [call, hdel, bind, Except.bind, pure, Except.pure, Queue.call]
      split_ifs with hn <;> simp [hn]
    · rw [hcont, Queue.call]
      split_ifs <;> rfl
  | readBegin len =>
    refine ⟨rb, ?_, ?_⟩
    · simp only [call, readBegin_ok hinv, bind, Except.bind, pure, Except.pure, Queue.call]
      split_ifs <;> rfl
    · rw [Queue.call]
      split_ifs <;> exact ⟨hinv, rfl⟩
  | readDelBegin len =>
    obtain ⟨rb', hread, hinv', hcont⟩ := readDelBegin_ok hinv len
    refine ⟨rb', ?_, hinv', ?_⟩
    · simp only [call, hread, bind, Except.bind, pure, Except.pure, Queue.call]
      by_cases hn : 0 < len ∧ len ≤ rb.contents.length
      · simp [hn]
      · -- a request for nothing copies nothing and then fails in `del_data`
        have hdest : (if len ≤ rb.contents.length then rb.contents.take len else []) = [] := by
          split_ifs with hle
          · rw [show len = 0 by omega, List.take_zero]
          · rfl
        rw [hdest, decide_eq_false hn, if_neg hn]
    · rw [hcont, Queue.call]
      split_ifs <;> rfl
  | dataSize =>
    exact ⟨rb, by simp only [call, Queue.call, length_contents hinv]; rfl, hinv, rfl⟩

/-- **The ring is a byte queue**: whatever calls are made on a new ring, none
faults, every answer is the queue's, and what is stored in the end is what the
queue holds. -/
theorem ringBuff_refines_byteQueue (calls : List RingBuff.Call) :
    ∃ rb, runE RingBuff.call RingBuff.new calls = .ok ((runT Queue.call [] calls).1, rb) ∧
      rb.contents = (runT Queue.call [] calls).2 := by
  obtain ⟨rb, hrun, hrep⟩ := runE_refines (R := RingBuff.Represents)
    (fun _ _ c h => RingBuff.call_refines h c) RingBuff.represents_new calls
  exact ⟨rb, hrun, hrep.contents_eq⟩

/-! ## Rings with their invariant -/

/-- `RingBuffPtr`: a ring other code holds, always between two calls. -/
structure RingBuffPtr where
  rb : RingBuff
  inv : rb.Inv

namespace RingBuffPtr

/-- `RingBuffPtr(new RingBuff())` -/
def new : RingBuffPtr := ⟨RingBuff.new, RingBuff.inv_new⟩

/-- The stored bytes. -/
def toList (p : RingBuffPtr) : List UInt8 := p.rb.contents

def dataSize (p : RingBuffPtr) : ℕ := p.rb.dataSize

private theorem addData_isOk (p : RingBuffPtr) (data : List UInt8) :
    ∃ r, p.rb.addData data = .ok r :=
  let ⟨_, h, _⟩ := RingBuff.addData_ok p.inv data
  ⟨_, h⟩

private theorem delData_isOk (p : RingBuffPtr) (len : ℕ) : ∃ r, p.rb.delData len = .ok r :=
  let ⟨_, h, _⟩ := RingBuff.delData_ok p.inv len
  ⟨_, h⟩

private theorem readBegin_isOk (p : RingBuffPtr) (len : ℕ) : ∃ r, p.rb.readBegin len = .ok r :=
  ⟨_, RingBuff.readBegin_ok p.inv len⟩

private theorem readDelBegin_isOk (p : RingBuffPtr) (len : ℕ) :
    ∃ r, p.rb.readDelBegin len = .ok r :=
  let ⟨_, h, _⟩ := RingBuff.readDelBegin_ok p.inv len
  ⟨_, h⟩

/-- `add_data`, which never fails. -/
def addData (p : RingBuffPtr) (data : List UInt8) : RingBuffPtr where
  rb := (okVal (p.rb.addData data) (p.addData_isOk data)).2
  inv := by
    obtain ⟨rb', h, hinv, _⟩ := RingBuff.addData_ok p.inv data
    rw [okVal_eq h]
    exact hinv

/-- `del_data` -/
def delData (p : RingBuffPtr) (len : ℕ) : Bool × RingBuffPtr :=
  ((okVal (p.rb.delData len) (p.delData_isOk len)).1,
   { rb := (okVal (p.rb.delData len) (p.delData_isOk len)).2
     inv := by
      obtain ⟨rb', h, hinv, _⟩ := RingBuff.delData_ok p.inv len
      rw [okVal_eq h]
      exact hinv })

/-- `read_begin`: the flag and the bytes written to `dest`. -/
def readBegin (p : RingBuffPtr) (len : ℕ) : Bool × List UInt8 :=
  okVal (p.rb.readBegin len) (p.readBegin_isOk len)

/-- `read_del_begin` -/
def readDelBegin (p : RingBuffPtr) (len : ℕ) : (Bool × List UInt8) × RingBuffPtr :=
  ((okVal (p.rb.readDelBegin len) (p.readDelBegin_isOk len)).1,
   { rb := (okVal (p.rb.readDelBegin len) (p.readDelBegin_isOk len)).2
     inv := by
      obtain ⟨rb', h, hinv, _⟩ := RingBuff.readDelBegin_ok p.inv len
      rw [okVal_eq h]
      exact hinv })

@[simp] theorem toList_new : new.toList = [] := rfl

@[simp] theorem dataSize_eq (p : RingBuffPtr) : p.dataSize = p.toList.length :=
  (RingBuff.length_contents p.inv).symm

@[simp] theorem toList_addData (p : RingBuffPtr) (data : List UInt8) :
    (p.addData data).toList = p.toList ++ data := by
  obtain ⟨rb', h, _, hcont⟩ := RingBuff.addData_ok p.inv data
  simp only [toList, addData, okVal_eq h, hcont]

theorem delData_fst (p : RingBuffPtr) (len : ℕ) :
    (p.delData len).1 = decide (0 < len ∧ len ≤ p.toList.length) := by
  obtain ⟨rb', h, _, _⟩ := RingBuff.delData_ok p.inv len
  simp only [delData, okVal_eq h]
  rfl

theorem toList_delData (p : RingBuffPtr) (len : ℕ) :
    (p.delData len).2.toList =
      if 0 < len ∧ len ≤ p.toList.length then p.toList.drop len else p.toList := by
  obtain ⟨rb', h, _, hcont⟩ := RingBuff.delData_ok p.inv len
  show (okVal (p.rb.delData len) _).2.contents = _
  rw [okVal_eq h]
  exact hcont

theorem readBegin_eq (p : RingBuffPtr) (len : ℕ) :
    p.readBegin len = if len ≤ p.toList.length then (true, p.toList.take len) else (false, []) :=
  okVal_eq (RingBuff.readBegin_ok p.inv len)

theorem readDelBegin_fst (p : RingBuffPtr) (len : ℕ) :
    (p.readDelBegin len).1 = (decide (0 < len ∧ len ≤ p.toList.length),
      if len ≤ p.toList.length then p.toList.take len else []) := by
  obtain ⟨rb', h, _, _⟩ := RingBuff.readDelBegin_ok p.inv len
  simp only [readDelBegin, okVal_eq h]
  rfl

/-- A read never writes more bytes to its destination than were asked for. -/
theorem length_readDelBegin_le (p : RingBuffPtr) (len : ℕ) :
    (p.readDelBegin len).1.2.length ≤ len := by
  rw [readDelBegin_fst]
  simp only
  split_ifs
  · exact List.length_take_le ..
  · exact Nat.zero_le _

theorem toList_readDelBegin (p : RingBuffPtr) (len : ℕ) :
    (p.readDelBegin len).2.toList =
      if 0 < len ∧ len ≤ p.toList.length then p.toList.drop len else p.toList := by
  obtain ⟨rb', h, _, hcont⟩ := RingBuff.readDelBegin_ok p.inv len
  show (okVal (p.rb.readDelBegin len) _).2.contents = _
  rw [okVal_eq h]
  exact hcont

/-! ### Taking a known front -/

variable {p : RingBuffPtr} {xs ys : List UInt8} {len : ℕ}

theorem readBegin_append (h : p.toList = xs ++ ys) (hlen : xs.length = len) :
    p.readBegin len = (true, xs) := by
  rw [readBegin_eq, h, if_pos, ← hlen, List.take_left]
  rw [List.length_append]
  omega

theorem toList_delData_append (h : p.toList = xs ++ ys) (hlen : xs.length = len) (hpos : 0 < len) :
    (p.delData len).2.toList = ys := by
  rw [toList_delData, h, if_pos, ← hlen, List.drop_left]
  rw [List.length_append]
  omega

theorem readDelBegin_append (h : p.toList = xs ++ ys) (hlen : xs.length = len) (hpos : 0 < len) :
    (p.readDelBegin len).1 = (true, xs) ∧ (p.readDelBegin len).2.toList = ys := by
  have hfit : 0 < len ∧ len ≤ (xs ++ ys).length := by
    rw [List.length_append]
    omega
  constructor
  · rw [readDelBegin_fst, h, if_pos hfit.2, decide_eq_true hfit, ← hlen, List.take_left]
  · rw [toList_readDelBegin, h, if_pos hfit, ← hlen, List.drop_left]

end RingBuffPtr

end Rubo.Util
