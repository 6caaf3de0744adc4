import Mathlib.Algebra.Ring.Nat
import Mathlib.Data.List.Basic
import Mathlib.Tactic.Common
import Rubo.Foundation.Machine

/-!
# A Lexer for SQL Statements

An input-driven machine that reads a statement byte by byte. A string literal
ends at the first quote that is neither doubled nor escaped by a backslash; the
token carries the decoded text.

- `Reads q raw text`: `raw` can stand inside a literal and means `text`;
- `run_of_reads`, `literal_cases`: what the machine does with the bytes behind an
  opening quote, first for a given reading and then for any bytes at all;
- `weights_tokensFrom_le`: a token is never longer than the bytes it was read from;
- `Reads.eq_of_length`: a text that takes no more bytes than it has is `Plain`
  and stands for itself.
-/

namespace Rubo.Foundation.SqlLexer

/-- The tokens of a statement. -/
inductive Token where
  | word (w : List UInt8)
  | literal (text : List UInt8)
  | symbol (c : UInt8)
  /-- a literal without its closing quote -/
  | unterminated (text : List UInt8)
  deriving DecidableEq, Repr

/-- Where the machine stands inside the statement. -/
inductive Mode where
  | blank
  | word (w : List UInt8)
  | literal (q : UInt8) (text : List UInt8)
  /-- behind a backslash -/
  | escaped (q : UInt8) (text : List UInt8)
  /-- behind a quote that ends the literal unless it is doubled -/
  | closing (q : UInt8) (text : List UInt8)
  deriving DecidableEq, Repr

/-- `\` -/
abbrev backslash : UInt8 := 92

/-- `'` and `"` -/
def isQuote (c : UInt8) : Bool := c = 39 || c = 34

def isBlank (c : UInt8) : Bool := c = 32 || (9 ≤ c && c ≤ 13)

/-- Letters, digits, `$`, `_` and everything that is not ASCII. -/
def isWord (c : UInt8) : Bool :=
  (48 ≤ c && c ≤ 57) || (65 ≤ c && c ≤ 90) || (97 ≤ c && c ≤ 122) || c = 36 || c = 95 || 128 ≤ c

/-- What a backslash and the byte behind it stand for. `\%` and `\_` keep their
backslash, for the sake of patterns. -/
def unescape (c : UInt8) : List UInt8 :=
  if c = 48 then [0]
  else if c = 98 then [8]
  else if c = 110 then [10]
  else if c = 114 then [13]
  else if c = 116 then [9]
  else if c = 90 then [26]
  else if c = 37 ∨ c = 95 then [backslash, c]
  else [c]

/-- A byte that follows a complete token. -/
def start (toks : List Token) (c : UInt8) : List Token × Mode :=
  if isQuote c then (toks, .literal c [])
  else if isBlank c then (toks, .blank)
  else if isWord c then (toks, .word [c])
  else (toks ++ [.symbol c], .blank)

def step : List Token × Mode → UInt8 → List Token × Mode
  | (toks, .blank), c => start toks c
  | (toks, .word w), c =>
    if isWord c then (toks, .word (w ++ [c])) else start (toks ++ [.word w]) c
  | (toks, .literal q text), c =>
    if c = backslash then (toks, .escaped q text)
    else if c = q then (toks, .closing q text)
    else (toks, .literal q (text ++ [c]))
  | (toks, .escaped q text), c => (toks, .literal q (text ++ unescape c))
  | (toks, .closing q text), c =>
    if c = q then (toks, .literal q (text ++ [q])) else start (toks ++ [.literal text]) c

/-- The end of the statement. -/
def finish : List Token × Mode → List Token
  | (toks, .blank) => toks
  | (toks, .word w) => toks ++ [.word w]
  | (toks, .literal _ text) => toks ++ [.unterminated text]
  | (toks, .escaped _ text) => toks ++ [.unterminated text]
  | (toks, .closing _ text) => toks ++ [.literal text]

/-- The tokens of a statement of which a part has been read. -/
def tokensFrom (s : List Token × Mode) (xs : List UInt8) : List Token :=
  finish (run step s xs)

/-- The tokens of a statement. -/
def tokens (xs : List UInt8) : List Token := tokensFrom ([], .blank) xs

theorem tokensFrom_append (s : List Token × Mode) (xs ys : List UInt8) :
    tokensFrom s (xs ++ ys) = tokensFrom (run step s xs) ys := by
  rw [tokensFrom, run_append, tokensFrom]

theorem tokensFrom_cons (s : List Token × Mode) (c : UInt8) (xs : List UInt8) :
    tokensFrom s (c :: xs) = tokensFrom (step s c) xs := rfl

/-! ### Tokens are only added -/

theorem start_carry (pre toks : List Token) (c : UInt8) :
    start (pre ++ toks) c = (pre ++ (start toks c).1, (start toks c).2) := by
  unfold start
  split_ifs <;> simp

theorem step_carry (pre toks : List Token) (m : Mode) (c : UInt8) :
    step (pre ++ toks, m) c = (pre ++ (step (toks, m) c).1, (step (toks, m) c).2) := by
  cases m with
  | blank => exact start_carry pre toks c
  | word w =>
    simp only [step]
    split_ifs
    · rfl
    · rw [List.append_assoc, start_carry]
  | literal q text =>
    simp only [step]
    split_ifs <;> rfl
  | escaped q text => rfl
  | closing q text =>
    simp only [step]
    split_ifs
    · rfl
    · rw [List.append_assoc, start_carry]

theorem finish_carry (pre toks : List Token) (m : Mode) :
    finish (pre ++ toks, m) = pre ++ finish (toks, m) := by
  cases m <;> simp [finish]

/-- The tokens already read stand before those that follow. -/
theorem tokensFrom_carry (pre toks : List Token) (m : Mode) (xs : List UInt8) :
    tokensFrom (pre ++ toks, m) xs = pre ++ tokensFrom (toks, m) xs := by
  induction xs generalizing toks m with
  | nil => exact finish_carry pre toks m
  | cons c xs ih =>
    rw [tokensFrom_cons, tokensFrom_cons, step_carry, ih]

/-! ### Inside a literal -/

/-- `raw`, behind an opening quote `q`, stands for `text`. -/
inductive Reads (q : UInt8) : List UInt8 → List UInt8 → Prop where
  | nil : Reads q [] []
  | plain {c : UInt8} {raw text : List UInt8} (hb : c ≠ backslash) (hq : c ≠ q)
      (h : Reads q raw text) : Reads q (c :: raw) (c :: text)
  | doubled {raw text : List UInt8} (h : Reads q raw text) :
      Reads q (q :: q :: raw) (q :: text)
  | escape (c : UInt8) {raw text : List UInt8} (h : Reads q raw text) :
      Reads q (backslash :: c :: raw) (unescape c ++ text)

theorem run_of_reads {q : UInt8} (hq : q ≠ backslash) {raw text : List UInt8}
    (h : Reads q raw text) (toks : List Token) (done : List UInt8) :
    run step (toks, .literal q done) raw = (toks, .literal q (done ++ text)) := by
  induction h generalizing done with
  | nil => rw [List.append_nil, run_nil]
  | plain hb hne _ ih =>
    rw [run_cons, step, if_neg hb, if_neg hne, ih, List.append_assoc, List.singleton_append]
  | doubled _ ih =>
    rw [run_cons, step, if_neg hq, if_pos rfl, run_cons, step, if_pos rfl, ih, List.append_assoc,
      List.singleton_append]
  | escape c _ ih =>
    rw [run_cons, step, if_pos rfl, run_cons, step, ih, List.append_assoc]

/-- Any bytes behind an opening quote: they end inside the literal, or right
behind a backslash, or with the closing quote, or go on behind it. -/
theorem reads_cases (q : UInt8) (xs : List UInt8) :
    ∃ raw text, Reads q raw text ∧ (xs = raw ∨ xs = raw ++ [backslash] ∨ xs = raw ++ [q] ∨
      ∃ c rest, c ≠ q ∧ xs = raw ++ q :: c :: rest) := by
  induction xs using List.twoStepInduction with
  | nil => exact ⟨[], [], .nil, .inl rfl⟩
  | singleton c =>
    by_cases hb : c = backslash
    · exact ⟨[], [], .nil, .inr (.inl (by rw [hb]; rfl))⟩
    by_cases hq : c = q
    · exact ⟨[], [], .nil, .inr (.inr (.inl (by rw [hq]; rfl)))⟩
    exact ⟨[c], [c], .plain hb hq .nil, .inl rfl⟩
  | cons_cons c d xs ih ih' =>
    by_cases hb : c = backslash
    · obtain ⟨raw, text, h, hxs⟩ := ih
      refine ⟨backslash :: d :: raw, unescape d ++ text, .escape d h, ?_⟩
      simpa [hb] using hxs
    by_cases hq : c = q
    · by_cases hd : d = q
      · obtain ⟨raw, text, h, hxs⟩ := ih
        refine ⟨q :: q :: raw, q :: text, .doubled h, ?_⟩
        simpa [hq, hd] using hxs
      · exact ⟨[], [], .nil, .inr (.inr (.inr ⟨d, xs, hd, by rw [hq]; rfl⟩))⟩
    · obtain ⟨raw, text, h, hxs⟩ := ih' d
      refine ⟨c :: raw, c :: text, .plain hb hq h, ?_⟩
      simpa using hxs

section Literal

variable {q : UInt8} (hq : q ≠ backslash) {raw text : List UInt8} (h : Reads q raw text)
  (pre : List Token)

include hq h

theorem tokensFrom_reads (xs : List UInt8) :
    tokensFrom (pre, .literal q []) (raw ++ xs) = tokensFrom (pre, .literal q text) xs := by
  rw [tokensFrom_append, run_of_reads hq h, List.nil_append]

/-- The literal is the last token. -/
theorem tokensFrom_last :
    tokensFrom (pre, .literal q []) (raw ++ [q]) = pre ++ [.literal text] := by
  rw [tokensFrom_reads hq h, tokensFrom_cons, step, if_neg hq, if_pos rfl]
  rfl

/-- The literal is followed by another token or a blank. -/
theorem tokensFrom_closed {c : UInt8} (hc : c ≠ q) (rest : List UInt8) :
    tokensFrom (pre, .literal q []) (raw ++ q :: c :: rest) =
      pre ++ .literal text :: tokensFrom ([], .blank) (c :: rest) := by
  have hnext : step (pre, .closing q text) c = step (pre ++ [.literal text], .blank) c := by
    simp only [step, if_neg hc]
  rw [tokensFrom_reads hq h, tokensFrom_cons, step, if_neg hq, if_pos rfl, tokensFrom_cons, hnext,
    ← tokensFrom_cons, ← List.append_nil (pre ++ [Token.literal text]), tokensFrom_carry,
    List.append_assoc, List.singleton_append]

end Literal

/-- What a literal that opens in the middle of a statement can do to its tokens. -/
theorem literal_cases {q : UInt8} (hq : q ≠ backslash) (pre : List Token) (xs : List UInt8) :
    (∃ text, tokensFrom (pre, .literal q []) xs = pre ++ [.unterminated text]) ∨
      ∃ raw text, Reads q raw text ∧
        ((xs = raw ++ [q] ∧ tokensFrom (pre, .literal q []) xs = pre ++ [.literal text]) ∨
          ∃ c rest, xs = raw ++ q :: c :: rest ∧
            tokensFrom (pre, .literal q []) xs =
              pre ++ .literal text :: tokensFrom ([], .blank) (c :: rest)) := by
  obtain ⟨raw, text, h, hxs⟩ := reads_cases q xs
  rcases hxs with rfl | rfl | rfl | ⟨c, rest, hc, rfl⟩
  · refine .inl ⟨text, ?_⟩
    rw [← List.append_nil xs, tokensFrom_reads hq h]
    rfl
  · exact .inl ⟨text, by rw [tokensFrom_reads hq h]; rfl⟩
  · exact .inr ⟨raw, text, h, .inl ⟨rfl, tokensFrom_last hq h pre⟩⟩
  · exact .inr ⟨raw, text, h, .inr ⟨c, rest, rfl, tokensFrom_closed hq h pre hc rest⟩⟩

/-! ### How much text a token takes -/

/-- The least number of bytes a token can be read from. -/
def Token.weight : Token → ℕ
  | .word w => w.length
  | .literal text => text.length + 2
  | .symbol _ => 1
  | .unterminated text => text.length + 1

def weights (toks : List Token) : ℕ := (toks.map Token.weight).sum

/-- The same for the token that has been begun. -/
def Mode.weight : Mode → ℕ
  | .blank => 0
  | .word w => w.length
  | .literal _ text => text.length + 1
  | .escaped _ text => text.length + 2
  | .closing _ text => text.length + 2

theorem weights_append (toks toks' : List Token) :
    weights (toks ++ toks') = weights toks + weights toks' := by
  simp [weights]

@[simp] theorem weights_singleton (t : Token) : weights [t] = t.weight := by simp [weights]

theorem length_unescape_le (c : UInt8) : (unescape c).length ≤ 2 := by
  unfold unescape
  split_ifs <;> simp

theorem weight_start (toks : List Token) (c : UInt8) :
    weights (start toks c).1 + (start toks c).2.weight ≤ weights toks + 1 := by
  unfold start
  split_ifs <;> simp [Mode.weight, Token.weight, weights_append]

/-- A byte adds at most one. -/
theorem weight_step (toks : List Token) (m : Mode) (c : UInt8) :
    weights (step (toks, m) c).1 + (step (toks, m) c).2.weight ≤
      weights toks + m.weight + 1 := by
  cases m with
  | blank => exact weight_start toks c
  | word w =>
    simp only [step]
    split_ifs
    · simp only [Mode.weight, List.length_append, List.length_singleton]
      omega
    · have := weight_start (toks ++ [.word w]) c
      rw [weights_append] at this
      simpa [Mode.weight, Token.weight] using this
  | literal q text =>
    simp only [step]
    split_ifs <;> simp only [Mode.weight, List.length_append, List.length_singleton] <;> omega
  | escaped q text =>
    have := length_unescape_le c
    simp only [step, Mode.weight, List.length_append]
    omega
  | closing q text =>
    simp only [step]
    split_ifs
    · simp only [Mode.weight, List.length_append, List.length_singleton]
      omega
    · have := weight_start (toks ++ [.literal text]) c
      rw [weights_append] at this
      simpa [Mode.weight, Token.weight] using this

theorem weights_finish_le (toks : List Token) (m : Mode) :
    weights (finish (toks, m)) ≤ weights toks + m.weight := by
  cases m <;> simp [finish, weights_append, Mode.weight, Token.weight]

theorem weights_tokensFrom_le (toks : List Token) (m : Mode) (xs : List UInt8) :
    weights (tokensFrom (toks, m) xs) ≤ weights toks + m.weight + xs.length := by
  induction xs generalizing toks m with
  | nil => exact weights_finish_le toks m
  | cons c xs ih =>
    have hstep := weight_step toks m c
    have hrest := ih (step (toks, m) c).1 (step (toks, m) c).2
    rw [Prod.eta] at hrest
    rw [tokensFrom_cons, List.length_cons]
    omega

/-! ### Texts that stand for themselves -/

/-- No quote `q`, and a backslash only before `%` and `_`. -/
def Plain (q : UInt8) : List UInt8 → Prop
  | [] => True
  | c :: text =>
    if c = backslash then
      match text with
      | [] => False
      | d :: text => (d = 37 ∨ d = 95) ∧ Plain q text
    else c ≠ q ∧ Plain q text

instance decidablePlain (q : UInt8) : ∀ text : List UInt8, Decidable (Plain q text)
  | [] => .isTrue trivial
  | [c] =>
    decidable_of_iff (c ≠ backslash ∧ c ≠ q) (by unfold Plain; split_ifs with h <;> simp [h, Plain])
  | c :: d :: text =>
    have := decidablePlain q text
    have := decidablePlain q (d :: text)
    decidable_of_iff
      (if c = backslash then (d = 37 ∨ d = 95) ∧ Plain q text else c ≠ q ∧ Plain q (d :: text))
      (by rw [Plain.eq_def q (c :: d :: text)])

theorem Reads.length_le {q : UInt8} {raw text : List UInt8} (h : Reads q raw text) :
    text.length ≤ raw.length := by
  induction h with
  | nil => exact Nat.le_refl _
  | plain _ _ _ ih => exact Nat.succ_le_succ ih
  | doubled _ ih =>
    simp only [List.length_cons]
    omega
  | escape c _ ih =>
    have := length_unescape_le c
    simp only [List.length_append, List.length_cons]
    omega

/-- Only `\%` and `\_` stand for as many bytes as they take. -/
theorem eq_of_length_unescape {c : UInt8} (h : 2 ≤ (unescape c).length) :
    (c = 37 ∨ c = 95) ∧ unescape c = [backslash, c] := by
  unfold unescape at h ⊢
  split_ifs at h ⊢ with h0 hb hn hr ht hz hp
  all_goals first
    | exact ⟨hp, rfl⟩
    | exact absurd h (by simp)

/-- A reading that loses no bytes changes none. -/
theorem Reads.eq_of_length {q : UInt8} {raw text : List UInt8} (h : Reads q raw text)
    (hlen : raw.length ≤ text.length) : text = raw ∧ Plain q raw := by
  induction h with
  | nil => exact ⟨rfl, trivial⟩
  | @plain c raw text hb hq _ ih =>
    obtain ⟨rfl, hplain⟩ := ih (by simpa using hlen)
    refine ⟨rfl, ?_⟩
    rw [Plain.eq_def]
    simp only [if_neg hb]
    exact ⟨hq, hplain⟩
  | doubled h _ =>
    have := h.length_le
    simp only [List.length_cons] at hlen
    omega
  | @escape c raw text h ih =>
    have hle := h.length_le
    have htwo := length_unescape_le c
    simp only [List.length_append, List.length_cons] at hlen
    obtain ⟨hc, heq⟩ := eq_of_length_unescape (c := c) (by omega)
    obtain ⟨rfl, hplain⟩ := ih (by omega)
    refine ⟨by rw [heq]; rfl, ?_⟩
    rw [Plain.eq_def]
    exact ⟨hc, hplain⟩

theorem unescape_of_pattern {c : UInt8} (h : c = 37 ∨ c = 95) : unescape c = [backslash, c] := by
  rcases h with rfl | rfl <;> rfl

theorem reads_of_plain {q : UInt8} {text : List UInt8} (h : Plain q text) : Reads q text text := by
  induction text using List.twoStepInduction with
  | nil => exact .nil
  | singleton c =>
    by_cases hb : c = backslash
    · simp [Plain, hb] at h
    · simp only [Plain, if_neg hb] at h
      exact .plain hb h.1 .nil
  | cons_cons c d text ih ih' =>
    rw [Plain.eq_def] at h
    by_cases hb : c = backslash
    · simp only [if_pos hb] at h
      have hread := Reads.escape d (ih h.2)
      rw [unescape_of_pattern h.1] at hread
      exact hb ▸ hread
    · simp only [if_neg hb] at h
      exact .plain hb h.1 (ih' d h.2)

end Rubo.Foundation.SqlLexer
