import Mathlib.Data.List.DropRight
import Rubo.Foundation.Memory
import Rubo.Foundation.Pieces
import Rubo.Foundation.SizeT

/-!
# Splitting and Trimming Strings

The functions of `util/utils.cpp` over `std::string`. Positions are `size_t`, and
`npos` is one of them: `split` subtracts a position from `npos`, for the length of
the last piece and to decide whether there is one, and `trim_right` adds one to
it. `split_lossless` and `trimRight_ok` say that this comes out right for every
string that can exist.
-/

namespace Rubo.Util

open Rubo.Foundation

/-- `std::string::npos`, which is `size_t(-1)`. -/
def npos : ℕ := 2 ^ 64 - 1

/-- A `std::string`: bytes, of which there are fewer than `npos`. -/
structure StdString where
  data : List UInt8
  length_lt : data.length < npos
  deriving DecidableEq

namespace StdString

def size (s : StdString) : ℕ := s.data.length

/-- `find_first_of(delim, pos)` -/
def findFirstOf (s delim : StdString) (pos : ℕ) : ℕ :=
  match (s.data.drop pos).findIdx? (· ∈ delim.data) with
  | some i => pos + i
  | none => npos

/-- `substr(pos, n)`, where `pos` behind the end throws `std::out_of_range`. -/
def substr (s : StdString) (pos n : ℕ) : Except Fault StdString :=
  if pos ≤ s.size then
    .ok ⟨(s.data.drop pos).take n, by
      have := s.length_lt
      simp only [List.length_take, List.length_drop]
      omega⟩
  else
    .error .outOfBounds

/-- `find_first_not_of(c)` -/
def findFirstNotOf (s : StdString) (c : UInt8) : ℕ :=
  match s.data.findIdx? (· != c) with
  | some i => i
  | none => npos

/-- `find_last_not_of(c)` -/
def findLastNotOf (s : StdString) (c : UInt8) : ℕ :=
  match s.data.reverse.findIdx? (· != c) with
  | some i => s.size - 1 - i
  | none => npos

/-- `erase(pos, n)`, where `pos` behind the end throws `std::out_of_range`. -/
def erase (s : StdString) (pos n : ℕ) : Except Fault StdString :=
  if pos ≤ s.size then
    .ok ⟨s.data.take pos ++ s.data.drop (pos + min n (s.size - pos)), by
      have := s.length_lt
      simp only [List.length_append, List.length_take, List.length_drop]
      omega⟩
  else
    .error .outOfBounds

/-! ## What the operations return -/

variable {s delim : StdString} {pos : ℕ}

theorem size_lt (s : StdString) : s.size < npos := s.length_lt

theorem data_injective : Function.Injective StdString.data := by
  rintro ⟨xs, _⟩ ⟨ys, _⟩ rfl
  rfl

theorem substr_ok (h : pos ≤ s.size) (n : ℕ) :
    ∃ piece, s.substr pos n = .ok piece ∧ piece.data = (s.data.drop pos).take n :=
  ⟨_, if_pos h, rfl⟩

theorem erase_ok (h : pos ≤ s.size) (n : ℕ) :
    ∃ s', s.erase pos n = .ok s' ∧
      s'.data = s.data.take pos ++ s.data.drop (pos + min n (s.size - pos)) :=
  ⟨_, if_pos h, rfl⟩

/-- Either there is no delimiter from `pos` on, or the first one has been found. -/
theorem findFirstOf_cases (s delim : StdString) (pos : ℕ) :
    (s.findFirstOf delim pos = npos ∧ ∀ c ∈ s.data.drop pos, decide (c ∈ delim.data) = false) ∨
      ∃ front sep rest, s.data.drop pos = front ++ sep :: rest ∧
        (∀ c ∈ front, decide (c ∈ delim.data) = false) ∧ decide (sep ∈ delim.data) = true ∧
        s.findFirstOf delim pos = pos + front.length ∧ pos + front.length < s.size := by
  unfold findFirstOf
  cases hidx : (s.data.drop pos).findIdx? (· ∈ delim.data) with
  | none => exact .inl ⟨rfl, List.findIdx?_eq_none_iff.mp hidx⟩
  | some i =>
      obtain ⟨hi, hsep, hbefore⟩ := List.findIdx?_eq_some_iff_getElem.mp hidx
      have hfront : ((s.data.drop pos).take i).length = i := List.length_take_of_le (Nat.le_of_lt hi)
      refine .inr ⟨(s.data.drop pos).take i, (s.data.drop pos)[i], (s.data.drop pos).drop (i + 1),
        ?_, ?_, hsep, by rw [hfront], ?_⟩
      · rw [List.getElem_cons_drop, List.take_append_drop]
      · intro c hc
        obtain ⟨j, hj, rfl⟩ := List.mem_take_iff_getElem.mp hc
        simpa using hbefore j (by omega)
      · rw [hfront]
        rw [List.length_drop] at hi
        unfold size
        omega

/-- The bytes of a string up to the first other one. -/
theorem findIdx?_ne_cases (bs : List UInt8) (c : UInt8) :
    (bs.findIdx? (· != c) = none ∧ bs.dropWhile (· == c) = []) ∨
      ∃ i < bs.length, bs.findIdx? (· != c) = some i ∧ bs.dropWhile (· == c) = bs.drop i := by
  rw [List.dropWhile_eq_drop_findIdx_not]
  cases hidx : bs.findIdx? (· != c) with
  | none =>
      have hall := List.findIdx?_eq_none_iff_findIdx_eq.mp hidx
      exact .inl ⟨rfl, List.drop_eq_nil_of_le (Nat.le_of_eq hall.symm)⟩
  | some i =>
      obtain ⟨hi, hfirst⟩ := List.findIdx?_eq_some_iff_findIdx_eq.mp hidx
      exact .inr ⟨i, hi, rfl, congrArg (bs.drop ·) hfirst⟩

end StdString

namespace Utils

/-! ## `split` -/

/-- The `while` of `split`, and the last piece behind it. -/
def splitLoop (str delim : StdString) : ℕ → ℕ → ℕ → List StdString → Except Fault (List StdString)
  | fuel, last, index, ret =>
    if index ≠ npos then
      match fuel with
      | 0 => .error .outOfFuel
      | fuel + 1 => do
        let piece ← str.substr last (SizeT.sub index last)
        let last := SizeT.add index 1
        let index := str.findFirstOf delim last
        splitLoop str delim fuel last index (ret ++ [piece])
    else if SizeT.sub index last > 0 then do
      let piece ← str.substr last (SizeT.sub index last)
      return ret ++ [piece]
    else
      return ret

/-- `split(str, delim, ret)`: the new contents of `ret`. -/
def split (str delim : StdString) (ret : List StdString) : Except Fault (List StdString) :=
  splitLoop str delim str.size 0 (str.findFirstOf delim 0) ret

variable {str delim : StdString}

/-- No delimiter is left: what there is, is the last piece, even if it is empty. -/
theorem splitLoop_last {last : ℕ} (hlast : last ≤ str.size)
    (hfree : ∀ c ∈ str.data.drop last, decide (c ∈ delim.data) = false) (fuel : ℕ)
    (ret : List StdString) :
    ∃ pieces, splitLoop str delim fuel last npos ret = .ok (ret ++ pieces) ∧
      pieces.map StdString.data = (str.data.drop last).splitOnP (· ∈ delim.data) := by
  have hsize := str.size_lt
  have hsub : SizeT.sub npos last = npos - last := SizeT.sub_eq (by omega) (by decide)
  obtain ⟨piece, hpiece, hdata⟩ := StdString.substr_ok hlast (npos - last)
  refine ⟨[piece], ?_, ?_⟩
  · have hpos : npos - last > 0 := by omega
    unfold splitLoop
    rw [if_neg (by simp), hsub, if_pos hpos, hpiece]
    rfl
  · rw [List.splitOnP_eq_singleton hfree, List.map_singleton, hdata, List.take_of_length_le]
    rw [List.length_drop]
    unfold StdString.size at hsize
    omega

/-- From `last` on, the loop appends the pieces of what is left. -/
theorem splitLoop_ok {fuel last : ℕ} (hlast : last ≤ str.size) (hfuel : str.size ≤ last + fuel)
    (ret : List StdString) :
    ∃ pieces, splitLoop str delim fuel last (str.findFirstOf delim last) ret = .ok (ret ++ pieces) ∧
      pieces.map StdString.data = (str.data.drop last).splitOnP (· ∈ delim.data) := by
  have hsize := str.size_lt
  have hnpos : npos < 2 ^ 64 := by decide
  induction fuel generalizing last ret with
  | zero =>
      rcases StdString.findFirstOf_cases str delim last with
        ⟨hnone, hfree⟩ | ⟨front, sep, rest, -, -, -, -, hlt⟩
      · rw [hnone]
        exact splitLoop_last hlast hfree 0 ret
      · omega
  | succ fuel ih =>
      rcases StdString.findFirstOf_cases str delim last with
        ⟨hnone, hfree⟩ | ⟨front, sep, rest, hdrop, hfront, hsep, hfound, hlt⟩
      · rw [hnone]
        exact splitLoop_last hlast hfree (fuel + 1) ret
      · -- one piece, and the loop goes on behind the delimiter
        have hsub : SizeT.sub (last + front.length) last = front.length := by
          rw [SizeT.sub_eq (Nat.le_add_right ..) (by omega), Nat.add_sub_cancel_left]
        have hadd : SizeT.add (last + front.length) 1 = last + front.length + 1 :=
          SizeT.add_eq (by omega)
        obtain ⟨piece, hpiece, hdata⟩ := StdString.substr_ok hlast front.length
        obtain ⟨pieces, hloop, hpieces⟩ :=
          ih (show last + front.length + 1 ≤ str.size by omega) (by omega) (ret ++ [piece])
        have hrest : str.data.drop (last + front.length + 1) = rest := by
          rw [Nat.add_assoc, ← List.drop_drop, hdrop, ← List.drop_drop, List.drop_left]
          rfl
        refine ⟨piece :: pieces, ?_, ?_⟩
        · rw [splitLoop, hfound, if_pos (by omega)]
          simp only [hsub, hadd, hpiece, bind, Except.bind]
          rw [hloop, List.append_assoc]
          rfl
        · rw [hdrop, List.splitOnP_append_cons_of_forall_mem hfront sep hsep, List.map_cons, hdata,
            hdrop, List.take_left, hpieces, hrest]

theorem split_ok (str delim : StdString) (ret : List StdString) :
    ∃ pieces, split str delim ret = .ok (ret ++ pieces) ∧
      pieces.map StdString.data = str.data.splitOnP (· ∈ delim.data) :=
  splitLoop_ok (Nat.zero_le str.size) (Nat.le_add_left ..) ret

/-- **`split` loses nothing**: it ends, and appends one piece more than the string has
delimiters; no piece has one, and with the delimiters in between the pieces are the
string again. -/
theorem split_lossless (str delim : StdString) (ret : List StdString) :
    ∃ pieces, split str delim ret = .ok (ret ++ pieces) ∧
      pieces.length = str.data.countP (· ∈ delim.data) + 1 ∧
      (∀ piece ∈ pieces, ∀ c ∈ piece.data, c ∉ delim.data) ∧
      Pieces.interleave (pieces.map StdString.data) (str.data.filter (· ∈ delim.data)) =
        str.data := by
  obtain ⟨pieces, hsplit, hpieces⟩ := split_ok str delim ret
  refine ⟨pieces, hsplit, ?_, ?_, ?_⟩
  · rw [← List.length_map StdString.data, hpieces, Pieces.length_splitOnP]
  · intro piece hpiece c hc
    have hmem : piece.data ∈ str.data.splitOnP (· ∈ delim.data) :=
      hpieces ▸ List.mem_map_of_mem hpiece
    simpa using Pieces.eq_false_of_mem_splitOnP hmem c hc
  · rw [hpieces, Pieces.interleave_splitOnP]

/-- The other way round: pieces without delimiters are found again. -/
theorem split_interleave {pieces : List StdString} {seps : List UInt8}
    (hlen : pieces.length = seps.length + 1)
    (hpieces : ∀ piece ∈ pieces, ∀ c ∈ piece.data, c ∉ delim.data)
    (hseps : ∀ c ∈ seps, c ∈ delim.data)
    (hstr : str.data = Pieces.interleave (pieces.map StdString.data) seps) (ret : List StdString) :
    split str delim ret = .ok (ret ++ pieces) := by
  obtain ⟨pieces', hsplit, hpieces'⟩ := split_ok str delim ret
  have hsame : pieces'.map StdString.data = pieces.map StdString.data := by
    rw [hpieces', hstr]
    apply Pieces.splitOnP_interleave
    · rw [List.length_map, hlen]
    · intro piece hmem c hc
      obtain ⟨piece', hpiece', rfl⟩ := List.mem_map.mp hmem
      simpa using hpieces piece' hpiece' c hc
    · intro c hc
      simpa using hseps c hc
  rw [hsplit, List.map_injective_iff.mpr StdString.data_injective hsame]

/-! ## `trim_left` and `trim_right` -/

/-- `trim_left(src, c)` -/
def trimLeft (src : StdString) (c : UInt8) : Except Fault StdString :=
  src.erase 0 (src.findFirstNotOf c)

/-- `trim_right(src, c)` -/
def trimRight (src : StdString) (c : UInt8) : Except Fault StdString :=
  src.erase (SizeT.add (src.findLastNotOf c) 1) npos

theorem trimLeft_ok (src : StdString) (c : UInt8) :
    ∃ src', trimLeft src c = .ok src' ∧ src'.data = src.data.dropWhile (· == c) := by
  have hsize := src.size_lt
  obtain ⟨src', hcall, hdata⟩ := StdString.erase_ok (Nat.zero_le src.size) (src.findFirstNotOf c)
  refine ⟨src', hcall, ?_⟩
  rw [hdata, List.take_zero, List.nil_append, Nat.zero_add, Nat.sub_zero,
    StdString.findFirstNotOf]
  unfold StdString.size at hsize ⊢
  rcases StdString.findIdx?_ne_cases src.data c with ⟨hidx, hdrop⟩ | ⟨i, hi, hidx, hdrop⟩
  · -- nothing but `c`: `npos` bytes are erased
    rw [hidx, hdrop, Nat.min_eq_right (Nat.le_of_lt hsize), List.drop_length]
  · rw [hidx, hdrop, Nat.min_eq_left (Nat.le_of_lt hi)]

theorem trimRight_ok (src : StdString) (c : UInt8) :
    ∃ src', trimRight src c = .ok src' ∧ src'.data = src.data.rdropWhile (· == c) := by
  have hsize := src.size_lt
  unfold trimRight StdString.findLastNotOf List.rdropWhile
  unfold StdString.size at hsize
  rcases StdString.findIdx?_ne_cases src.data.reverse c with ⟨hidx, hdrop⟩ | ⟨i, hi, hidx, hdrop⟩
  · -- nothing but `c`: `npos + 1` is zero
    obtain ⟨src', hcall, hdata⟩ := StdString.erase_ok (Nat.zero_le src.size) npos
    have hzero : SizeT.add npos 1 = 0 := rfl
    simp only [hidx, hdrop, hzero]
    refine ⟨src', hcall, ?_⟩
    rw [hdata, List.take_zero, List.nil_append, List.reverse_nil]
    apply List.drop_eq_nil_of_le
    unfold StdString.size
    omega
  · rw [List.length_reverse] at hi
    have hadd : SizeT.add (src.size - 1 - i) 1 = src.size - i := by
      unfold StdString.size
      rw [SizeT.add_eq (by unfold npos at hsize; omega)]
      omega
    obtain ⟨src', hcall, hdata⟩ := StdString.erase_ok (Nat.sub_le src.size i) npos
    simp only [hidx, hdrop, hadd]
    refine ⟨src', hcall, ?_⟩
    have hnil : src.data.drop (src.size - i + min npos (src.size - (src.size - i))) = [] := by
      apply List.drop_eq_nil_of_le
      unfold StdString.size
      omega
    rw [hdata, hnil, List.append_nil, List.drop_reverse, List.reverse_reverse]
    rfl

end Utils

end Rubo.Util
