import Mathlib.Data.List.TakeWhile
import Rubo.Foundation.SqlLexer
import Rubo.Server.Gate

/-!
# Login SQL

The statements `server/DB/MysqlDb.cpp` builds from a name and a password.
`register_user` binds its values; `check_name_registered` puts the name between
the quotes of a literal by string concatenation, and `get_uid` prints name and
password with `string_format`. Nothing escapes what the client sent, and
`string_format` counts the terminator of its buffer into the text.

- `tokens_checkNameSql_iff`, `tokens_getUidText_iff`: the statements have their
  template's tokens exactly for names and passwords without quotes whose
  backslashes stand before `%` or `_`;
- `getUidSql_eq`: the text of `get_uid` is one byte too long whatever it is for;
- `exists_row_of_getUid`, `checkNameRegistered_of_row`: over a server that
  answers statements by their tokens, what follows for such names;
- `not_checkNameRegistered_trailing`: a name that ends in a backslash is stored
  and never found again.
-/

namespace Rubo.Server

open Rubo.Foundation SqlLexer

/-- The bytes of a string constant. -/
def bytes (s : String) : List UInt8 := s.toUTF8.data.toList

namespace MysqlDb

/-! ### The texts -/

/-- What the `printf` family prints. `%s` prints its argument up to the first
NUL; the formats hold no other conversion. -/
def printf : List UInt8 → List (List UInt8) → List UInt8
  | [], _ => []
  | 37 :: 115 :: format, arg :: args => arg.takeWhile (· ≠ 0) ++ printf format args
  | c :: format, args => c :: printf format args

/-- `snprintf(buf, size, format, args ...)`: what it writes to `buf`, and the
length of the whole text. -/
def snprintf (size : ℕ) (format : List UInt8) (args : List (List UInt8)) : List UInt8 × ℕ :=
  let out := printf format args
  (if size = 0 then [] else out.take (size - 1) ++ [0], out.length)

/-- `string_format(format, args ...)` -/
def stringFormat (format : List UInt8) (args : List (List UInt8)) : List UInt8 :=
  let size := 1 + (snprintf 0 format args).2
  let buf := List.replicate size 0
  let written := (snprintf size format args).1
  let buf := written ++ buf.drop written.length
  -- `string(buf.get(), buf.get() + size)`, terminator included
  buf.take size

/-- `check_name_sql` of `check_name_registered(name)` -/
def checkNameSql (name : List UInt8) : List UInt8 :=
  let checkNamePat := bytes "Select uid From register Where name='"
  checkNamePat ++ name ++ bytes "';"

/-- `get_sql` of `get_uid(name, passwd)` -/
def getUidSql (name passwd : List UInt8) : List UInt8 :=
  let getSqlFormat := bytes "Select uid From register Where name='%s' And passwd='%s'"
  stringFormat getSqlFormat [name, passwd]

/-! ### What they are meant to be -/

/-- The template of `check_name_registered` with its hole replaced. -/
def checkNameText (name : List UInt8) : List UInt8 :=
  bytes "Select uid From register Where name='" ++ name ++ bytes "';"

/-- The template of `get_uid` with its holes replaced. -/
def getUidText (name passwd : List UInt8) : List UInt8 :=
  bytes "Select uid From register Where name='" ++ name ++ bytes "' And passwd='" ++ passwd ++
    bytes "'"

/-- `Select uid From register Where name=` -/
def selectTokens : List Token :=
  [.word (bytes "Select"), .word (bytes "uid"), .word (bytes "From"), .word (bytes "register"),
    .word (bytes "Where"), .word (bytes "name"), .symbol 61]

def checkNameTokens (name : List UInt8) : List Token :=
  selectTokens ++ [.literal name, .symbol 59]

/-- ` And passwd=` -/
def andTokens : List Token := [.word (bytes "And"), .word (bytes "passwd"), .symbol 61]

def getUidTokens (name passwd : List UInt8) : List Token :=
  selectTokens ++ .literal name :: (andTokens ++ [.literal passwd])

/-- The texts passed to `execute_query` are the templates with their holes
replaced, and are read as such. -/
structure Unaltered (name passwd : List UInt8) : Prop where
  checkName_text : checkNameSql name = checkNameText name
  checkName_tokens : tokens (checkNameSql name) = checkNameTokens name
  getUid_text : getUidSql name passwd = getUidText name passwd
  getUid_tokens : tokens (getUidSql name passwd) = getUidTokens name passwd

/-- `'` -/
abbrev quote : UInt8 := 39

/-! ### The text of `get_uid` -/

theorem stringFormat_eq (format : List UInt8) (args : List (List UInt8)) :
    stringFormat format args = printf format args ++ [0] := by
  have hwritten : (snprintf (1 + (printf format args).length) format args).1 =
      printf format args ++ [0] := by
    simp [snprintf]
  simp only [stringFormat, snprintf] at hwritten ⊢
  rw [hwritten]
  simp [Nat.add_comm]

theorem takeWhile_of_noNul {s : List UInt8} (h : 0 ∉ s) : s.takeWhile (· ≠ 0) = s := by
  rw [List.takeWhile_eq_self_iff]
  intro c hc
  have h0 : c ≠ 0 := fun h0 => h (h0 ▸ hc)
  simpa using h0

theorem getUidSql_eq {name passwd : List UInt8} (hn : 0 ∉ name) (hp : 0 ∉ passwd) :
    getUidSql name passwd = getUidText name passwd ++ [0] := by
  have hprintf : printf (bytes "Select uid From register Where name='%s' And passwd='%s'")
      [name, passwd] = getUidText (name.takeWhile (· ≠ 0)) (passwd.takeWhile (· ≠ 0)) := by
    rw [getUidText, List.append_assoc, List.append_assoc, List.append_assoc]
    rfl
  rw [getUidSql, stringFormat_eq, hprintf, takeWhile_of_noNul hn, takeWhile_of_noNul hp]

/-! ### The tokens -/

theorem tokens_select (xs : List UInt8) :
    tokens (bytes "Select uid From register Where name='" ++ xs) =
      tokensFrom (selectTokens, .literal quote []) xs := by
  rw [tokens, tokensFrom_append]
  rfl

theorem tokensFrom_space (xs : List UInt8) :
    tokensFrom ([], .blank) (32 :: (bytes "And passwd='" ++ xs)) =
      tokensFrom (andTokens, .literal quote []) xs := by
  rw [tokensFrom_cons, tokensFrom_append]
  rfl

theorem quote_ne_backslash : quote ≠ backslash := by decide

/-- A statement that ends inside a literal does not end like a template. -/
theorem append_unterminated_ne {pre toks : List Token} {text : List UInt8} {t : Token}
    (ht : ∀ u, t ≠ .unterminated u) : pre ++ [.unterminated text] ≠ toks ++ [t] := fun h =>
  ht text ((List.append_inj' h rfl).2 |> List.singleton_inj.mp).symm

theorem tokens_checkNameSql_iff (name : List UInt8) :
    tokens (checkNameSql name) = checkNameTokens name ↔ Plain quote name := by
  have htokens : tokens (checkNameSql name) =
      tokensFrom (selectTokens, .literal quote []) (name ++ [39, 59]) := by
    rw [← tokens_select, ← List.append_assoc]
    rfl
  rw [htokens, checkNameTokens]
  constructor
  · intro h
    rcases literal_cases quote_ne_backslash selectTokens (name ++ [39, 59]) with
      ⟨text, heq⟩ | ⟨raw, text, hread, ⟨hxs, -⟩ | ⟨c, rest, hxs, heq⟩⟩
    · rw [heq, List.append_cons _ _ [Token.symbol 59]] at h
      exact absurd h (append_unterminated_ne (by simp))
    · -- the statement ends with the semicolon
      rw [List.append_cons name] at hxs
      exact absurd (List.append_inj' hxs rfl).2 (by decide)
    · rw [heq, List.append_cancel_left_eq] at h
      obtain rfl : text = name := by simpa using congrArg List.head? h
      -- the literal cannot be longer than the name, which leaves only the quote behind it
      have hlen := congrArg List.length hxs
      have hle := hread.length_le
      simp only [List.length_append, List.length_cons, List.length_nil] at hlen
      obtain ⟨rfl, -⟩ := List.append_inj hxs (by omega)
      exact (hread.eq_of_length (Nat.le_refl _)).2
  · intro h
    rw [tokensFrom_closed quote_ne_backslash (reads_of_plain h) _ (by decide)]
    rfl

/-- The first literal of `get_uid` ends at the template's own quote, or too few
bytes are left for the tokens behind it. -/
theorem literal_ends {name passwd raw rest : List UInt8} {c : UInt8}
    (hread : Reads quote raw name)
    (htail : tokensFrom ([], .blank) (c :: rest) = andTokens ++ [.literal passwd])
    (hxs : name ++ quote :: 32 :: (bytes "And passwd='" ++ (passwd ++ [quote])) =
      raw ++ quote :: c :: rest) :
    name = raw ∧ 32 :: (bytes "And passwd='" ++ (passwd ++ [quote])) = c :: rest := by
  have hname := hread.length_le
  have hweight : 12 + passwd.length ≤ (c :: rest).length := by
    have hle := weights_tokensFrom_le [] .blank (c :: rest)
    have hand : weights andTokens = 10 := rfl
    rw [htail, weights_append, hand, weights_singleton] at hle
    simp only [Token.weight, weights, Mode.weight, List.map_nil, List.sum_nil] at hle
    omega
  have hlen := congrArg List.length hxs
  have hand : (bytes "And passwd='").length = 12 := rfl
  simp only [List.length_append, List.length_cons, List.length_nil, hand] at hlen hweight
  -- the two bytes behind the template's quote are no quotes
  have hat : (quote :: 32 :: (bytes "And passwd='" ++ (passwd ++ [quote])))[raw.length -
      name.length]? = some quote := by
    rw [← List.getElem?_append_right hname, hxs, List.getElem?_append_right (Nat.le_refl _),
      Nat.sub_self]
    rfl
  have hraw : raw.length - name.length = 0 := by
    obtain hk | hk | hk : raw.length - name.length = 0 ∨ raw.length - name.length = 1 ∨
      raw.length - name.length = 2 := by omega
    · exact hk
    · rw [hk] at hat
      exact absurd (Option.some.inj hat : (32 : UInt8) = quote) (by decide)
    · rw [hk] at hat
      exact absurd (Option.some.inj hat : (65 : UInt8) = quote) (by decide)
  obtain ⟨rfl, htail⟩ := List.append_inj hxs (by omega)
  exact ⟨rfl, List.tail_eq_of_cons_eq htail⟩

/-- A literal at the end of a statement. -/
theorem plain_of_last {pre : List Token} {text : List UInt8}
    (h : tokensFrom (pre, .literal quote []) (text ++ [quote]) = pre ++ [.literal text]) :
    Plain quote text := by
  rcases literal_cases quote_ne_backslash pre (text ++ [quote]) with
    ⟨text', heq⟩ | ⟨raw, text', hread, ⟨hxs, heq⟩ | ⟨c, rest, hxs, heq⟩⟩
  · rw [heq] at h
    exact absurd h (append_unterminated_ne (by simp))
  · rw [heq, List.append_cancel_left_eq] at h
    obtain rfl : text' = text := by simpa using h
    obtain rfl := List.append_cancel_right hxs
    exact (hread.eq_of_length (Nat.le_refl _)).2
  · rw [heq, List.append_cancel_left_eq] at h
    obtain ⟨rfl, -⟩ : text' = text ∧ _ := by simpa using h
    -- the literal would have to end before its text does
    have hlen := congrArg List.length hxs
    have hle := hread.length_le
    simp only [List.length_append, List.length_cons, List.length_nil] at hlen
    omega

/-- What the lexer sees of `get_uid` and whatever follows its text. -/
theorem tokens_getUidText_append (name passwd xs : List UInt8) :
    tokens (getUidText name passwd ++ xs) =
      tokensFrom (selectTokens, .literal quote [])
        (name ++ quote :: 32 :: (bytes "And passwd='" ++ (passwd ++ quote :: xs))) := by
  rw [← tokens_select, getUidText]
  simp only [List.append_assoc]
  rfl

theorem tokens_getUidText_nul {name passwd : List UInt8} (hn : Plain quote name)
    (hp : Plain quote passwd) :
    tokens (getUidText name passwd ++ [0]) = getUidTokens name passwd ++ [.symbol 0] := by
  rw [tokens_getUidText_append,
    tokensFrom_closed quote_ne_backslash (reads_of_plain hn) _ (by decide), tokensFrom_space,
    tokensFrom_closed quote_ne_backslash (reads_of_plain hp) _ (by decide)]
  rw [getUidTokens, List.append_assoc, List.cons_append, List.append_assoc]
  rfl

theorem tokens_getUidText_iff (name passwd : List UInt8) :
    tokens (getUidText name passwd) = getUidTokens name passwd ↔
      Plain quote name ∧ Plain quote passwd := by
  have htokens := tokens_getUidText_append name passwd []
  rw [List.append_nil] at htokens
  rw [htokens, getUidTokens]
  constructor
  · intro h
    rcases literal_cases quote_ne_backslash selectTokens
        (name ++ quote :: 32 :: (bytes "And passwd='" ++ (passwd ++ [quote]))) with
      ⟨text, heq⟩ | ⟨raw, text, hread, ⟨-, heq⟩ | ⟨c, rest, hxs, heq⟩⟩
    · rw [heq, ← List.cons_append, ← List.append_assoc] at h
      exact absurd h (append_unterminated_ne (by simp))
    · rw [heq, List.append_cancel_left_eq] at h
      simp [andTokens] at h
    · rw [heq, List.append_cancel_left_eq] at h
      obtain ⟨rfl, htail⟩ : name = text ∧
          tokensFrom ([], .blank) (c :: rest) = andTokens ++ [.literal passwd] := by
        simpa [eq_comm] using h
      obtain ⟨rfl, hrest⟩ := literal_ends hread htail hxs
      rw [← hrest, tokensFrom_space] at htail
      exact ⟨(hread.eq_of_length (Nat.le_refl _)).2, plain_of_last htail⟩
  · rintro ⟨hn, hp⟩
    rw [tokensFrom_closed quote_ne_backslash (reads_of_plain hn) _ (by decide), tokensFrom_space,
      tokensFrom_last quote_ne_backslash (reads_of_plain hp)]

/-- **Login SQL cannot be altered by its inputs**, for no name and password: the
text of `get_uid` ends with a byte the template does not have. The statement of
`check_name_registered` is read as its template exactly for plain names, and
that of `get_uid`, without its last byte, exactly for plain names and passwords. -/
theorem not_unaltered {name passwd : List UInt8} (hn : 0 ∉ name) (hp : 0 ∉ passwd) :
    ¬ Unaltered name passwd ∧
      (checkNameSql name = checkNameText name ∧
        (tokens (checkNameSql name) = checkNameTokens name ↔ Plain quote name)) ∧
      (getUidSql name passwd = getUidText name passwd ++ [0] ∧
        (tokens (getUidSql name passwd).dropLast = getUidTokens name passwd ↔
          Plain quote name ∧ Plain quote passwd)) := by
  have htext := getUidSql_eq hn hp
  refine ⟨fun h => ?_, ⟨rfl, tokens_checkNameSql_iff name⟩, htext, ?_⟩
  · have hlen := congrArg List.length (htext.symm.trans h.getUid_text)
    rw [List.length_append, List.length_singleton] at hlen
    omega
  · rw [htext, List.dropLast_concat]
    exact tokens_getUidText_iff name passwd

theorem not_unaltered_oneUser :
    ¬ Unaltered (bytes "a") (bytes "b") ∧
      (checkNameSql (bytes "a") = checkNameText (bytes "a") ∧
        (tokens (checkNameSql (bytes "a")) = checkNameTokens (bytes "a") ↔
          Plain quote (bytes "a"))) ∧
      (getUidSql (bytes "a") (bytes "b") = getUidText (bytes "a") (bytes "b") ++ [0] ∧
        (tokens (getUidSql (bytes "a") (bytes "b")).dropLast =
            getUidTokens (bytes "a") (bytes "b") ↔
          Plain quote (bytes "a") ∧ Plain quote (bytes "b"))) :=
  not_unaltered (by decide) (by decide)

/-- A name that closes the literal and goes on with a condition of its own. -/
theorem not_unaltered_orEmpty :
    ¬ ∀ name passwd : List UInt8, 0 ∉ name → 0 ∉ passwd → Unaltered name passwd := fun h =>
  have hname : tokens (checkNameSql (bytes "' Or ''='")) = checkNameTokens (bytes "' Or ''='") :=
    (h (bytes "' Or ''='") [] (by decide) (by decide)).checkName_tokens
  absurd hname (by decide +kernel)

/-! ### What the handlers get -/

end MysqlDb

/-- A row of the table `register`, as far as the queries look at it. -/
structure RegisterRow where
  uid : Int32
  name : List UInt8
  passwd : List UInt8
  deriving DecidableEq, Repr

/-- The connection: `execute_query` yields the column `uid` of the result, or
`none` after an exception, and `execute_pre_update` the number of changed rows for
the values bound to the insert statement. -/
structure MysqlConn where
  executeQuery : List UInt8 → Option (List Int32)
  executePreUpdate : List UInt8 → List UInt8 → ℤ → Int32

/-- `get_uid`, `check_name_registered` and `register_user` over a connection. -/
def MysqlConn.mysqlDb (conn : MysqlConn) : MysqlDb where
  getUid name passwd :=
    match conn.executeQuery (MysqlDb.getUidSql name passwd) with
    | none => -1
    | some [] => -1
    | some (uid :: _) => uid
  checkNameRegistered name :=
    match conn.executeQuery (MysqlDb.checkNameSql name) with
    | some uids => uids.length ≥ 1
    | none => false
  registerUser name passwd time := conn.executePreUpdate name passwd time > 0

namespace MysqlConn

/-- What is used of the server, with `rows` stored and `same` the comparison of
the table's collation. -/
structure Answers (conn : MysqlConn) (rows : List RegisterRow)
    (same : List UInt8 → List UInt8 → Bool) : Prop where
  same_refl : ∀ s, same s s
  checkName : ∀ text name, tokens text = MysqlDb.checkNameTokens name →
    conn.executeQuery text = some ((rows.filter fun r => same r.name name).map (·.uid))
  /-- a NUL ends the statement -/
  getUid : ∀ text name passwd, tokens text = MysqlDb.getUidTokens name passwd ++ [.symbol 0] →
    conn.executeQuery text =
      some ((rows.filter fun r => same r.name name && same r.passwd passwd).map (·.uid))
  /-- a syntax error -/
  unterminated : ∀ text t, .unterminated t ∈ tokens text → conn.executeQuery text = none

namespace Answers

variable {conn : MysqlConn} {rows : List RegisterRow} {same : List UInt8 → List UInt8 → Bool}
  (h : conn.Answers rows same) {name passwd : List UInt8}

include h

/-- A login with a plain name and password succeeds for a stored row only. -/
theorem exists_row_of_getUid (hn : 0 ∉ name) (hp : 0 ∉ passwd) (hname : Plain MysqlDb.quote name)
    (hpasswd : Plain MysqlDb.quote passwd) (huid : conn.mysqlDb.getUid name passwd ≠ -1) :
    ∃ row ∈ rows, row.uid = conn.mysqlDb.getUid name passwd ∧ same row.name name ∧
      same row.passwd passwd := by
  have hans := h.getUid _ name passwd (MysqlDb.tokens_getUidText_nul hname hpasswd)
  rw [← MysqlDb.getUidSql_eq hn hp] at hans
  cases hrows : (rows.filter fun r => same r.name name && same r.passwd passwd).map (·.uid) with
  | nil => simp [mysqlDb, hans, hrows] at huid
  | cons uid uids =>
    have huid : conn.mysqlDb.getUid name passwd = uid := by simp [mysqlDb, hans, hrows]
    have hmem : uid ∈ (rows.filter fun r => same r.name name && same r.passwd passwd).map (·.uid) :=
      hrows ▸ List.mem_cons_self
    obtain ⟨row, hrow, rfl⟩ := List.mem_map.mp hmem
    obtain ⟨hmem, hsame⟩ := List.mem_filter.mp hrow
    rw [Bool.and_eq_true] at hsame
    exact ⟨row, hmem, huid.symm, hsame⟩

/-- A plain name that is stored is found. -/
theorem checkNameRegistered_of_row {row : RegisterRow} (hmem : row ∈ rows)
    (hname : Plain MysqlDb.quote row.name) : conn.mysqlDb.checkNameRegistered row.name := by
  have hans := h.checkName _ _ ((MysqlDb.tokens_checkNameSql_iff row.name).mpr hname)
  have hfound : row.uid ∈ (rows.filter fun r => same r.name row.name).map (·.uid) :=
    List.mem_map_of_mem (List.mem_filter.mpr ⟨hmem, h.same_refl _⟩)
  have hpos := List.length_pos_of_mem hfound
  simp only [mysqlDb, hans]
  exact decide_eq_true hpos

/-- A backslash at the end of a name takes the template's quote into the literal:
such a name is never found, whatever is stored. -/
theorem not_checkNameRegistered_trailing (hname : Plain MysqlDb.quote name) :
    conn.mysqlDb.checkNameRegistered (name ++ [backslash]) = false := by
  have htokens : tokens (MysqlDb.checkNameSql (name ++ [backslash])) =
      MysqlDb.selectTokens ++ [.unterminated (name ++ [39] ++ [59])] := by
    have hsql : MysqlDb.checkNameSql (name ++ [backslash]) =
        bytes "Select uid From register Where name='" ++ (name ++ [backslash, 39, 59]) := by
      rw [MysqlDb.checkNameSql, List.append_assoc, List.append_assoc]
      rfl
    rw [hsql, MysqlDb.tokens_select,
      tokensFrom_reads MysqlDb.quote_ne_backslash (reads_of_plain hname)]
    rfl
  have hnone := h.unterminated _ (name ++ [39] ++ [59]) (by rw [htokens]; simp)
  simp [mysqlDb, hnone]

end Answers

/-- The rows a statement asks for, if it is one of the two. -/
def select (rows : List RegisterRow) (toks : List Token) : Option (List Int32) :=
  match toks.filterMap fun | .literal text => some text | _ => none with
  | [name] =>
    if toks = MysqlDb.checkNameTokens name then
      some ((rows.filter fun r => r.name == name).map (·.uid))
    else none
  | [name, passwd] =>
    if toks = MysqlDb.getUidTokens name passwd ++ [.symbol 0] then
      some ((rows.filter fun r => r.name == name && r.passwd == passwd).map (·.uid))
    else none
  | _ => none

/-- Such a server exists. -/
theorem answers_select (rows : List RegisterRow) (update : List UInt8 → List UInt8 → ℤ → Int32) :
    Answers ⟨fun text => select rows (tokens text), update⟩ rows (· == ·) where
  same_refl s := beq_self_eq_true s
  checkName text name htext := by
    simp [htext, select, MysqlDb.checkNameTokens, MysqlDb.selectTokens]
  getUid text name passwd htext := by
    simp [htext, select, MysqlDb.getUidTokens, MysqlDb.selectTokens, MysqlDb.andTokens]
  unterminated text t ht := by
    simp only [select]
    split
    · rw [if_neg]
      rintro htext
      simp [htext, MysqlDb.checkNameTokens, MysqlDb.selectTokens] at ht
    · rw [if_neg]
      rintro htext
      simp [htext, MysqlDb.getUidTokens, MysqlDb.selectTokens, MysqlDb.andTokens] at ht
    · rfl

end MysqlConn

end Rubo.Server
