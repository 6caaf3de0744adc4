import Rubo.Msgs.Proto2

/-!
# The Generated Message Classes

What `MergePartialFromCodedStream` and its siblings in `msgs/protocols/login.pb.cc` do,
one definition for all message types. Two things about them matter because nobody looks
at the result of `ParseFromString`: a string field counts as set before it is read, and
keeps what there was of it when the input ends inside it.

The generated code calls the protobuf library to write and read tags and values. The
library is a parameter, `CodedStream`; what is relied on is its documented wire format
and how its readers behave at the end of the input (`CodedStream.Documented`).

`parse_prefix`: a serialized message is read back, and one that is cut off anywhere is
rejected.
-/

namespace Rubo.Msgs

open Rubo.Foundation
open Proto2 (encodeField encodeInt32 decodeInt32 bytesOf sizeMax)

/-! ## Messages with all their fields -/

/-- The type of the field a value is for. -/
def FieldVal.kind : FieldVal → FieldKind
  | .int32 _ => .int32
  | .bool _ => .bool
  | .string _ => .string

/-- All fields of the type are set, and no others. -/
structure Message.Complete (m : Message) : Prop where
  fields : ∀ f ∈ m.type.schema, ∃ v, m.get f.1 = some v ∧ v.kind = f.2
  others : ∀ n, n ∉ m.type.schema.map Prod.fst → m.get n = none
  unknown : m.unknownFields = []

theorem Message.get_set_of_ne (m : Message) {n k : ℕ} (v : FieldVal) (h : k ≠ n) :
    (m.set n v).get k = m.get k := by
  have hkn : (k == n) = false := beq_eq_false_iff_ne.mpr h
  unfold Message.get Message.set
  simp only [List.lookup_cons, hkn]
  induction m.fields with
  | nil => rfl
  | cons f fs ih =>
      rw [List.filter_cons]
      split_ifs with hf
      · rw [List.lookup_cons, List.lookup_cons, ih]
      · obtain rfl : f.1 = n := by simpa using hf
        rw [ih, List.lookup_cons, hkn]

/-! ## The library -/

/-- What `CodedInputStream::ReadTag()` comes to. -/
inductive TagRead where
  | tag (tag : ℕ) (rest : List UInt8)
  /-- It returns `0`; `ConsumedEntireMessage()` says whether this was at the end. -/
  | stopped (consumed : Bool)

/-- The functions of the protobuf library that the generated code calls, on the bytes
they write or are given to read. -/
structure CodedStream where
  /-- `WriteInt32ToArray(number, value)` -/
  writeInt32 : ℕ → Int32 → List UInt8
  /-- `WriteBoolToArray(number, value)` -/
  writeBool : ℕ → Bool → List UInt8
  /-- `WriteStringToArray(number, value)` -/
  writeString : ℕ → List UInt8 → List UInt8
  readTag : List UInt8 → TagRead
  /-- `ReadPrimitive<int32, TYPE_INT32>()`: the value and what follows. -/
  readInt32 : List UInt8 → Option (Int32 × List UInt8)
  /-- `ReadPrimitive<bool, TYPE_BOOL>()` -/
  readBool : List UInt8 → Option (Bool × List UInt8)
  /-- `ReadString()` into a string: whether it succeeds, the string and what follows. -/
  readString : List UInt8 → List UInt8 → Bool × List UInt8 × List UInt8
  /-- `SkipField(tag)`: what is put into the unknown fields, and what follows. -/
  skipField : ℕ → List UInt8 → Option (List UInt8 × List UInt8)

namespace CodedStream

/-- `WriteInt32ToArray` and its siblings, by the type of the value. -/
def writeField (cs : CodedStream) (n : ℕ) : FieldVal → List UInt8
  | .int32 v => cs.writeInt32 n v
  | .bool v => cs.writeBool n v
  | .string s => cs.writeString n s

/-- The library writes the documented wire format; its readers take what was written
off the input, whatever follows, and fail where the input ends before. -/
structure Documented (cs : CodedStream) : Prop where
  writeField : ∀ n v, cs.writeField n v = encodeField n v
  readTag_nil : cs.readTag [] = .stopped true
  readTag : ∀ {tag : ℕ} rest, 0 < tag → tag < 2 ^ 32 →
    cs.readTag (Varint.toBytes 5 tag ++ rest) = .tag tag rest
  readTag_cut : ∀ {tag : ℕ} {p : List UInt8}, p <+: Varint.toBytes 5 tag →
    p ≠ Varint.toBytes 5 tag → p ≠ [] → cs.readTag p = .stopped false
  readInt32 : ∀ v rest, cs.readInt32 (encodeInt32 v ++ rest) = some (v, rest)
  readInt32_cut : ∀ {v : Int32} {p : List UInt8}, p <+: encodeInt32 v → p ≠ encodeInt32 v →
    cs.readInt32 p = none
  readBool : ∀ v rest, cs.readBool ((if v then 1 else 0) :: rest) = some (v, rest)
  readBool_nil : cs.readBool [] = none
  readString : ∀ old {s : List UInt8} rest, s.length < 2 ^ 31 →
    cs.readString old (Varint.toBytes 10 s.length ++ s ++ rest) = (true, s, rest)
  /-- Without a length the string stays as it was. -/
  readString_length : ∀ old {n : ℕ} {p : List UInt8}, p <+: Varint.toBytes 10 n →
    p ≠ Varint.toBytes 10 n → ∃ rest, cs.readString old p = (false, old, rest)
  /-- What there is of the string has been appended before the end is seen. -/
  readString_cut : ∀ old {s q : List UInt8}, s.length < 2 ^ 31 → q <+: s → q ≠ s →
    cs.readString old (Varint.toBytes 10 s.length ++ q) = (false, q, [])

end CodedStream

namespace LoginPb

variable (cs : CodedStream)

/-! ## Reading -/

/-- The wire type of the fields of a type. -/
def wireTypeOf : FieldKind → ℕ
  | .int32 | .bool => 0
  | .string => 2

/-- How `MergePartialFromCodedStream` ends. -/
structure Merged where
  /-- What it returns. -/
  ok : Bool
  /-- `ConsumedEntireMessage()` -/
  consumed : Bool
  message : Message

/-- The value of field `n`, behind its tag. -/
def mergeValue (n : ℕ) (rest : List UInt8) (m : Message) :
    FieldKind → Merged ⊕ List UInt8 × Message
  | .int32 =>
    match cs.readInt32 rest with
    | none => .inl ⟨false, false, m⟩
    | some (v, rest) => .inr (rest, m.set n (.int32 v))
  | .bool =>
    match cs.readBool rest with
    | none => .inl ⟨false, false, m⟩
    | some (v, rest) => .inr (rest, m.set n (.bool v))
  | .string =>
    -- the argument, `mutable_name()` and so on, sets the has bit
    match cs.readString (m.string n) rest with
    | (true, s, rest) => .inr (rest, m.set n (.string s))
    | (false, s, _) => .inl ⟨false, false, m.set n (.string s)⟩

/-- A pass of the loop: how the function ends, or what is left to read. -/
def mergeField (t : MsgType) (bs : List UInt8) (m : Message) : Merged ⊕ List UInt8 × Message :=
  match cs.readTag bs with
  | .stopped consumed => .inl ⟨true, consumed, m⟩
  | .tag tag rest =>
    match (t.schema.lookup (tag / 8)).filter (fun kind => wireTypeOf kind = tag % 8) with
    | some kind => mergeValue cs (tag / 8) rest m kind
    | none =>
      -- `handle_uninterpreted`, where an end-group tag ends the message
      if tag % 8 = 4 then .inl ⟨true, false, m⟩
      else
        match cs.skipField tag rest with
        | none => .inl ⟨false, false, m⟩
        | some (field, rest) =>
          .inr (rest, { m with unknownFields := m.unknownFields ++ field })

/-- `MergePartialFromCodedStream()`; every pass but the last reads a byte or more. -/
def mergePartial (t : MsgType) : ℕ → List UInt8 → Message → Merged
  | 0, _, m => ⟨false, false, m⟩
  | passes + 1, bs, m =>
    match mergeField cs t bs m with
    | .inl merged => merged
    | .inr (rest, m) => mergePartial t passes rest m

/-- `IsInitialized()`: all has bits are set. -/
def isInitialized (m : Message) : Bool := m.type.schema.all fun f => (m.get f.1).isSome

/-- `ParseFromString()`: the merge into a new message, which must have used up the input
and left no required field unset. -/
def parse (t : MsgType) (s : List UInt8) : Bool × List (ℕ × FieldVal) × List UInt8 :=
  let merged := mergePartial cs t (s.length + 1) s (Message.new t)
  (merged.ok && isInitialized merged.message && merged.consumed, merged.message.fields,
    merged.message.unknownFields)

/-! ## Writing -/

/-- `SerializeWithCachedSizesToArray()` -/
def serializeWithCachedSizes (m : Message) : List UInt8 :=
  m.type.schema.flatMap (fun field =>
    match m.get field.1 with
    | none => []
    | some v => cs.writeField field.1 v) ++ m.unknownFields

/-- `SerializeToArray()`, which writes nothing when the size is no `int`. -/
def serialize (m : Message) : List UInt8 :=
  if (serializeWithCachedSizes cs m).length ≤ sizeMax then serializeWithCachedSizes cs m else []

end LoginPb

/-- The runtime with the generated classes. -/
def Protobuf.loginPb (cs : CodedStream) : Protobuf where
  parseFromString := LoginPb.parse cs
  serializeToArray := LoginPb.serialize cs

namespace LoginPb

variable {cs : CodedStream}

/-! ## The schema -/

theorem nodup_schema (t : MsgType) : (t.schema.map Prod.fst).Nodup := by
  cases t <;> decide

theorem number_of_mem {t : MsgType} {f : ℕ × FieldKind} (h : f ∈ t.schema) :
    0 < f.1 ∧ f.1 < 2 ^ 28 := by
  have hall : ∀ g ∈ t.schema, 0 < g.1 ∧ g.1 < 2 ^ 28 := by cases t <;> decide
  exact hall f h

theorem mem_of_lookup {t : MsgType} {n : ℕ} {k : FieldKind} (h : t.schema.lookup n = some k) :
    (n, k) ∈ t.schema := by
  obtain ⟨_, _, heq, -⟩ := List.lookup_eq_some_iff.mp h
  rw [heq]
  exact List.mem_append_right _ List.mem_cons_self

theorem lookup_of_mem {α : Type*} {fs : List (ℕ × α)} (hnodup : (fs.map Prod.fst).Nodup)
    {f : ℕ × α} (h : f ∈ fs) : fs.lookup f.1 = some f.2 := by
  induction fs with
  | nil => exact absurd h List.not_mem_nil
  | cons g fs ih =>
      rw [List.map_cons, List.nodup_cons] at hnodup
      rw [List.lookup_cons]
      rcases List.mem_cons.mp h with rfl | h
      · simp
      · have hne : f.1 ≠ g.1 := fun heq => hnodup.1 (heq ▸ List.mem_map_of_mem h)
        rw [beq_eq_false_iff_ne.mpr hne]
        exact ih hnodup.2 h

/-! ## Fields -/

/-- A field of the type, short enough to be sent. -/
structure Typed (t : MsgType) (f : ℕ × FieldVal) : Prop where
  lookup : t.schema.lookup f.1 = some f.2.kind
  short : ∀ s, f.2 = .string s → s.length < 2 ^ 31

/-- A value, without its tag. -/
def encodeValue : FieldVal → List UInt8
  | .int32 v => encodeInt32 v
  | .bool v => [if v then 1 else 0]
  | .string s => Varint.toBytes 10 s.length ++ s

/-- The tag of a field. -/
def tagOf (f : ℕ × FieldVal) : ℕ := f.1 * 8 + wireTypeOf f.2.kind

theorem encodeField_eq (f : ℕ × FieldVal) :
    encodeField f.1 f.2 = Varint.toBytes 5 (tagOf f) ++ encodeValue f.2 := by
  obtain ⟨n, v⟩ := f
  cases v <;> rfl

theorem encodeField_ne_nil (f : ℕ × FieldVal) : encodeField f.1 f.2 ≠ [] := by
  rw [encodeField_eq]
  exact List.append_ne_nil_of_left_ne_nil (Varint.toBytes_ne_nil 4 _) _

theorem Typed.tag {t : MsgType} {f : ℕ × FieldVal} (hf : Typed t f) :
    0 < tagOf f ∧ tagOf f < 2 ^ 32 ∧ tagOf f / 8 = f.1 ∧ tagOf f % 8 = wireTypeOf f.2.kind := by
  have hn := number_of_mem (mem_of_lookup hf.lookup)
  have hwire : wireTypeOf f.2.kind < 8 := by
    cases f.2.kind <;> decide
  unfold tagOf
  omega

/-- Behind the tag of a field its value is read. -/
theorem mergeField_tag (hcs : cs.Documented) {t : MsgType} {f : ℕ × FieldVal} (hf : Typed t f)
    (rest : List UInt8) (m : Message) :
    mergeField cs t (Varint.toBytes 5 (tagOf f) ++ rest) m = mergeValue cs f.1 rest m f.2.kind := by
  obtain ⟨hpos, hlt, hnum, hwire⟩ := hf.tag
  unfold mergeField
  rw [hcs.readTag rest hpos hlt]
  simp [hnum, hwire, hf.lookup, Option.filter]

theorem mergeValue_value (hcs : cs.Documented) {f : ℕ × FieldVal}
    (hshort : ∀ s, f.2 = .string s → s.length < 2 ^ 31) (rest : List UInt8) (m : Message) :
    mergeValue cs f.1 (encodeValue f.2 ++ rest) m f.2.kind = .inr (rest, m.set f.1 f.2) := by
  obtain ⟨n, v⟩ := f
  cases v with
  | int32 v =>
      show mergeValue cs n (encodeInt32 v ++ rest) m .int32 = _
      rw [mergeValue, hcs.readInt32]
  | bool v =>
      show mergeValue cs n ((if v then 1 else 0) :: rest) m .bool = _
      rw [mergeValue, hcs.readBool]
  | string s =>
      show mergeValue cs n (Varint.toBytes 10 s.length ++ s ++ rest) m .string = _
      rw [mergeValue, hcs.readString _ _ (hshort s rfl)]

/-- A field is read back, whatever follows it. -/
theorem mergePartial_field (hcs : cs.Documented) {t : MsgType} {f : ℕ × FieldVal} (hf : Typed t f)
    (passes : ℕ) (rest : List UInt8) (m : Message) :
    mergePartial cs t (passes + 1) (encodeField f.1 f.2 ++ rest) m =
      mergePartial cs t passes rest (m.set f.1 f.2) := by
  rw [encodeField_eq, List.append_assoc, mergePartial, mergeField_tag hcs hf,
    mergeValue_value hcs hf.short]

/-- A prefix of two strings ends in the first or goes on in the second. -/
theorem prefix_append_split {p a b : List UInt8} (h : p <+: a ++ b) :
    p <+: a ∧ p ≠ a ∨ ∃ q, q <+: b ∧ p = a ++ q := by
  by_cases hpa : p <+: a ∧ p ≠ a
  · exact .inl hpa
  · right
    have hap : a <+: p := by
      rcases List.prefix_or_prefix_of_prefix h (List.prefix_append a b) with hp | hp
      · rw [not_and_not_right.mp hpa hp]
      · exact hp
    obtain ⟨q, rfl⟩ := hap
    exact ⟨q, (List.prefix_append_right_inj a).mp h, rfl⟩

/-- A value that is cut off is not read. -/
theorem mergeValue_cut (hcs : cs.Documented) {f : ℕ × FieldVal}
    (hshort : ∀ s, f.2 = .string s → s.length < 2 ^ 31)
    {p : List UInt8} (hp : p <+: encodeValue f.2) (hne : p ≠ encodeValue f.2) (m : Message) :
    ∃ m', mergeValue cs f.1 p m f.2.kind = .inl ⟨false, false, m'⟩ := by
  obtain ⟨n, v⟩ := f
  cases v with
  | int32 v =>
      refine ⟨m, ?_⟩
      show mergeValue cs n p m .int32 = _
      rw [mergeValue, hcs.readInt32_cut hp hne]
  | bool v =>
      -- nothing is left of the one byte
      have hlt := Nat.lt_of_le_of_ne hp.length_le fun hlen => hne (hp.eq_of_length hlen)
      obtain rfl : p = [] := List.length_eq_zero_iff.mp (Nat.lt_one_iff.mp hlt)
      refine ⟨m, ?_⟩
      show mergeValue cs n [] m .bool = _
      rw [mergeValue, hcs.readBool_nil]
  | string s =>
      have hs := hshort s rfl
      show ∃ m', mergeValue cs n p m .string = .inl ⟨false, false, m'⟩
      rcases prefix_append_split hp with ⟨hcut, hcut'⟩ | ⟨q, hq, rfl⟩
      · obtain ⟨rest, hread⟩ := hcs.readString_length (m.string n) hcut hcut'
        rw [mergeValue, hread]
        exact ⟨_, rfl⟩
      · have hqs : q ≠ s := fun heq => hne (heq ▸ rfl)
        rw [mergeValue, hcs.readString_cut _ hs hq hqs]
        exact ⟨_, rfl⟩

/-- A field that is cut off ends the message, and not at its end. -/
theorem mergeField_cut (hcs : cs.Documented) {t : MsgType} {f : ℕ × FieldVal} (hf : Typed t f)
    {p : List UInt8} (hp : p <+: encodeField f.1 f.2) (hne : p ≠ encodeField f.1 f.2)
    (hnil : p ≠ []) (m : Message) :
    ∃ merged, mergeField cs t p m = .inl merged ∧ (merged.ok && merged.consumed) = false := by
  rw [encodeField_eq] at hp hne
  rcases prefix_append_split hp with ⟨hcut, hcut'⟩ | ⟨q, hq, rfl⟩
  · refine ⟨⟨true, false, m⟩, ?_, rfl⟩
    rw [mergeField, hcs.readTag_cut hcut hcut' hnil]
  · obtain ⟨m', hm'⟩ := mergeValue_cut hcs hf.short hq (fun heq => hne (heq ▸ rfl)) m
    exact ⟨⟨false, false, m'⟩, (mergeField_tag hcs hf q m).trans hm', rfl⟩

/-! ## Rows of fields -/

/-- Fields one after the other. -/
def encodeFields (fs : List (ℕ × FieldVal)) : List UInt8 := fs.flatMap fun f => encodeField f.1 f.2

/-- Set fields one after the other. -/
def setAll (m : Message) (fs : List (ℕ × FieldVal)) : Message :=
  fs.foldl (fun m f => m.set f.1 f.2) m

theorem encodeFields_cons (f : ℕ × FieldVal) (fs : List (ℕ × FieldVal)) :
    encodeFields (f :: fs) = encodeField f.1 f.2 ++ encodeFields fs := rfl

theorem encodeFields_eq_nil {fs : List (ℕ × FieldVal)} (h : encodeFields fs = []) : fs = [] := by
  cases fs with
  | nil => rfl
  | cons f fs => exact absurd (List.append_eq_nil_iff.mp h).1 (encodeField_ne_nil f)

theorem mergePartial_nil (hcs : cs.Documented) (t : MsgType) {passes : ℕ} (hpasses : 0 < passes)
    (m : Message) : mergePartial cs t passes [] m = ⟨true, true, m⟩ := by
  obtain ⟨k, rfl⟩ := Nat.exists_eq_succ_of_ne_zero hpasses.ne'
  rw [mergePartial, mergeField, hcs.readTag_nil]

/-- A prefix ends behind a field, or where the message does not end. -/
theorem mergePartial_prefix (hcs : cs.Documented) {t : MsgType} {fs : List (ℕ × FieldVal)}
    (hfs : ∀ f ∈ fs, Typed t f) {p : List UInt8} (hp : p <+: encodeFields fs) {passes : ℕ}
    (hpasses : p.length < passes) (m : Message) :
    (∃ done rest, fs = done ++ rest ∧ p = encodeFields done ∧
      mergePartial cs t passes p m = ⟨true, true, setAll m done⟩) ∨
    p ≠ encodeFields fs ∧
      ((mergePartial cs t passes p m).ok && (mergePartial cs t passes p m).consumed) = false := by
  induction fs generalizing p passes m with
  | nil =>
      obtain rfl : p = [] := List.prefix_nil.mp hp
      exact .inl ⟨[], [], rfl, rfl, mergePartial_nil hcs t hpasses m⟩
  | cons f fs ih =>
      have hf := hfs f List.mem_cons_self
      obtain ⟨passes, rfl⟩ := Nat.exists_eq_succ_of_ne_zero (Nat.ne_zero_of_lt hpasses)
      rw [encodeFields_cons] at hp ⊢
      rcases prefix_append_split hp with ⟨hcut, hcut'⟩ | ⟨q, hq, rfl⟩
      · by_cases hnil : p = []
        · exact .inl ⟨[], f :: fs, rfl, hnil, hnil ▸ mergePartial_nil hcs t (Nat.succ_pos _) m⟩
        · obtain ⟨merged, hmerged, hrejected⟩ := mergeField_cut hcs hf hcut hcut' hnil m
          refine .inr ⟨?_, ?_⟩
          · rintro rfl
            exact hcut' (hcut.eq_of_length_le (by rw [List.length_append]; exact Nat.le_add_right _ _))
          · rw [mergePartial, hmerged]
            exact hrejected
      · have hpos := List.length_pos_of_ne_nil (encodeField_ne_nil f)
        rw [List.length_append] at hpasses
        have hrest : q.length < passes := by omega
        rw [mergePartial_field hcs hf]
        rcases ih (fun g hg => hfs g (List.mem_cons_of_mem _ hg)) hq hrest (m.set f.1 f.2) with
          ⟨done, rest, rfl, rfl, hmerged⟩ | ⟨hne, hrejected⟩
        · exact .inl ⟨f :: done, rest, rfl, rfl, hmerged⟩
        · exact .inr ⟨fun heq => hne (List.append_cancel_left heq), hrejected⟩

theorem get_setAll {fs : List (ℕ × FieldVal)} (hnodup : (fs.map Prod.fst).Nodup) (m : Message)
    (n : ℕ) : (setAll m fs).get n = (fs.lookup n).or (m.get n) := by
  induction fs generalizing m with
  | nil => rfl
  | cons f fs ih =>
      rw [List.map_cons, List.nodup_cons] at hnodup
      show (setAll (m.set f.1 f.2) fs).get n = _
      rw [ih hnodup.2, List.lookup_cons]
      by_cases hn : n = f.1
      · subst hn
        have hnone : fs.lookup f.1 = none := by
          rw [List.lookup_eq_none_iff]
          intro g hg
          rw [bne_iff_ne]
          intro heq
          exact hnodup.1 (heq ▸ List.mem_map_of_mem hg)
        simp [hnone]
      · rw [Message.get_set_of_ne m _ hn, beq_eq_false_iff_ne.mpr hn]

/-! ## Messages -/

/-- The fields of a message that are set, in the order of the schema. -/
def fieldsOf (m : Message) : List (ℕ × FieldVal) :=
  m.type.schema.filterMap fun f => (m.get f.1).map fun v => (f.1, v)

theorem bytesOf_eq (m : Message) : bytesOf m = encodeFields (fieldsOf m) ++ m.unknownFields := by
  unfold bytesOf fieldsOf encodeFields
  congr 1
  induction m.type.schema with
  | nil => rfl
  | cons f fs ih =>
      rw [List.flatMap_cons, List.filterMap_cons, ih]
      cases m.get f.1 with
      | none => rfl
      | some v => rfl

theorem mem_fieldsOf {m : Message} {f : ℕ × FieldVal} :
    f ∈ fieldsOf m ↔ f.1 ∈ m.type.schema.map Prod.fst ∧ m.get f.1 = some f.2 := by
  unfold fieldsOf
  rw [List.mem_filterMap]
  constructor
  · rintro ⟨g, hg, hv⟩
    obtain ⟨v, hget, rfl⟩ := Option.map_eq_some_iff.mp hv
    exact ⟨List.mem_map_of_mem hg, hget⟩
  · rintro ⟨hmem, hget⟩
    obtain ⟨g, hg, hnum⟩ := List.mem_map.mp hmem
    refine ⟨g, hg, ?_⟩
    rw [hnum, hget]
    rfl

/-- A number comes once. -/
theorem nodup_fieldsOf (m : Message) : ((fieldsOf m).map Prod.fst).Nodup := by
  refine List.Nodup.sublist ?_ (nodup_schema m.type)
  unfold fieldsOf
  induction m.type.schema with
  | nil => exact .slnil
  | cons f fs ih =>
      rw [List.filterMap_cons]
      cases m.get f.1 with
      | none => exact ih.cons f.1
      | some v => exact ih.cons_cons f.1

/-- The fields are all there is to a message. -/
theorem lookup_fieldsOf {m : Message} (hm : m.Complete) (n : ℕ) :
    (fieldsOf m).lookup n = m.get n := by
  cases hget : m.get n with
  | some v =>
      have hmem : n ∈ m.type.schema.map Prod.fst := by
        by_contra hnot
        rw [hm.others n hnot] at hget
        cases hget
      exact lookup_of_mem (f := (n, v)) (nodup_fieldsOf m) (mem_fieldsOf.mpr ⟨hmem, hget⟩)
  | none =>
      rw [List.lookup_eq_none_iff]
      intro f hf
      rw [bne_iff_ne]
      rintro rfl
      rw [(mem_fieldsOf.mp hf).2] at hget
      cases hget

theorem length_encodeField_le {m : Message} {f : ℕ × FieldVal} (hf : f ∈ fieldsOf m) :
    (encodeField f.1 f.2).length ≤ (bytesOf m).length := by
  obtain ⟨before, after, hsplit⟩ := List.append_of_mem hf
  rw [bytesOf_eq, hsplit]
  simp only [encodeFields, List.flatMap_append, List.flatMap_cons, List.length_append]
  omega

theorem typed_fieldsOf {m : Message} (hm : m.Complete) (hsize : (bytesOf m).length ≤ sizeMax) :
    ∀ f ∈ fieldsOf m, Typed m.type f := by
  intro f hf
  obtain ⟨hmem, hget⟩ := mem_fieldsOf.mp hf
  obtain ⟨g, hg, hnum⟩ := List.mem_map.mp hmem
  obtain ⟨v, hget', hkind⟩ := hm.fields g hg
  rw [hnum, hget] at hget'
  obtain rfl := Option.some.inj hget'
  refine ⟨?_, fun s hs => ?_⟩
  · rw [← hnum, lookup_of_mem (nodup_schema m.type) hg, hkind]
  · -- a string is part of the body
    have hlen : s.length ≤ (encodeField f.1 f.2).length := by
      rw [hs, encodeField, List.length_append, List.length_append]
      omega
    exact Nat.lt_of_le_of_lt (hlen.trans ((length_encodeField_le hf).trans hsize)) (by decide)

/-- The bytes written are those of the wire format. -/
theorem serializeWithCachedSizes_eq (hcs : cs.Documented) (m : Message) :
    serializeWithCachedSizes cs m = bytesOf m := by
  rw [serializeWithCachedSizes, bytesOf]
  congr 1
  apply List.flatMap_congr
  intro field _
  cases m.get field.1 with
  | none => rfl
  | some v => exact hcs.writeField field.1 v

theorem serializeToArray_eq (hcs : cs.Documented) (m : Message) :
    (Protobuf.loginPb cs).serializeToArray m = Proto2.serialize m := by
  show serialize cs m = _
  rw [serialize, serializeWithCachedSizes_eq hcs, Proto2.serialize]

/-- What `ParseFromString` makes of a string, in terms of the merge. -/
theorem parseFromString_eq {t : MsgType} {s : List UInt8} {merged : Merged}
    (h : mergePartial cs t (s.length + 1) s (Message.new t) = merged) :
    ((Message.new t).parseFromString (.loginPb cs) s).1 =
        (merged.ok && isInitialized merged.message && merged.consumed) ∧
      ∀ n, ((Message.new t).parseFromString (.loginPb cs) s).2.get n = merged.message.get n := by
  subst h
  exact ⟨rfl, fun _ => rfl⟩

theorem type_setAll (m : Message) (fs : List (ℕ × FieldVal)) : (setAll m fs).type = m.type := by
  induction fs generalizing m with
  | nil => rfl
  | cons f fs ih => exact ih (m.set f.1 f.2)

/-- The fields of a message are read back, and not from less than all their bytes. -/
theorem parse_bytesOf_prefix (hcs : cs.Documented) {m : Message} (hm : m.Complete)
    (hsize : (bytesOf m).length ≤ sizeMax) {p : List UInt8} (hp : p <+: bytesOf m) :
    let r := (Message.new m.type).parseFromString (.loginPb cs) p
    (p = bytesOf m → r.1 = true ∧ ∀ n, r.2.get n = m.get n) ∧ (p ≠ bytesOf m → r.1 = false) := by
  have hbytes : bytesOf m = encodeFields (fieldsOf m) := by
    rw [bytesOf_eq, hm.unknown, List.append_nil]
  rw [hbytes] at hp ⊢
  intro r
  rcases mergePartial_prefix hcs (typed_fieldsOf hm hsize) hp (Nat.lt_succ_self _)
      (Message.new m.type) with ⟨done, rest, hsplit, hend, hmerged⟩ | ⟨hne, hrejected⟩
  · obtain ⟨hok, hget⟩ := parseFromString_eq hmerged
    have hnodup := nodup_fieldsOf m
    rw [hsplit, List.map_append, List.nodup_append'] at hnodup
    have hread : ∀ n, (setAll (Message.new m.type) done).get n = done.lookup n := by
      intro n
      rw [get_setAll hnodup.1]
      exact Option.or_none
    have hschema : isInitialized (setAll (Message.new m.type) done) =
        m.type.schema.all fun f => (done.lookup f.1).isSome := by
      unfold isInitialized
      rw [type_setAll]
      simp only [hread]
      rfl
    simp only [Bool.true_and, Bool.and_true, hschema] at hok
    constructor
    · intro heq
      -- all fields have been read
      have hrest : rest = [] := by
        apply encodeFields_eq_nil
        have happend : encodeFields (done ++ rest) = encodeFields done ++ encodeFields rest :=
          List.flatMap_append
        rw [heq, hsplit, happend] at hend
        exact List.self_eq_append_right.mp hend.symm
      rw [hrest, List.append_nil] at hsplit
      refine ⟨?_, fun n => ?_⟩
      · rw [hok]
        apply List.all_eq_true.mpr
        intro f hf
        obtain ⟨v, hv, -⟩ := hm.fields f hf
        rw [← hsplit, lookup_fieldsOf hm, hv]
        rfl
      · rw [hget, hread, ← hsplit, lookup_fieldsOf hm]
    · intro hne
      obtain ⟨f, more, rfl⟩ : ∃ f more, rest = f :: more := by
        apply List.exists_cons_of_ne_nil
        rintro rfl
        rw [List.append_nil] at hsplit
        exact hne (hsplit ▸ hend)
      -- a field is missing
      have hf : f ∈ fieldsOf m := by
        rw [hsplit]
        exact List.mem_append_right _ List.mem_cons_self
      have hnone : done.lookup f.1 = none := by
        rw [List.lookup_eq_none_iff]
        intro g hg
        rw [bne_iff_ne]
        intro heq
        exact hnodup.2.2 (List.mem_map_of_mem hg) (heq ▸ List.mem_map_of_mem List.mem_cons_self)
      rw [hok]
      apply List.all_eq_false.mpr
      obtain ⟨g, hg, hnum⟩ := List.mem_map.mp (mem_fieldsOf.mp hf).1
      refine ⟨g, hg, ?_⟩
      rw [hnum, hnone]
      exact Bool.false_ne_true
  · obtain ⟨hok, -⟩ := parseFromString_eq (rfl : mergePartial cs m.type (p.length + 1) p _ = _)
    refine ⟨fun heq => absurd heq hne, fun _ => ?_⟩
    rw [hok, Bool.and_right_comm, hrejected, Bool.false_and]

/-- **Bodies are read back whole**: a message with all its fields and no others gives the
message when its bytes are parsed, and any bytes that are cut off are rejected. -/
theorem parse_prefix (hcs : cs.Documented) {m : Message} (hm : m.Complete)
    (hsize : (serializeWithCachedSizes cs m).length ≤ sizeMax) {p : List UInt8}
    (hp : p <+: (Protobuf.loginPb cs).serializeToArray m) :
    let r := (Message.new m.type).parseFromString (.loginPb cs) p
    (p = (Protobuf.loginPb cs).serializeToArray m → r.1 = true ∧ ∀ n, r.2.get n = m.get n) ∧
      (p ≠ (Protobuf.loginPb cs).serializeToArray m → r.1 = false) := by
  rw [serializeWithCachedSizes_eq hcs] at hsize
  have hbytes : (Protobuf.loginPb cs).serializeToArray m = bytesOf m := by
    rw [serializeToArray_eq hcs]
    exact if_pos hsize
  rw [hbytes] at hp ⊢
  exact parse_bytesOf_prefix hcs hm hsize hp

/-- A message with one field. -/
theorem complete_set_one {t : MsgType} {v : FieldVal} (ht : t.schema = [(1, v.kind)]) :
    ((Message.new t).set 1 v).Complete where
  fields f hf := by
    have hf : f ∈ t.schema := hf
    rw [ht] at hf
    obtain rfl := List.mem_singleton.mp hf
    exact ⟨v, Message.get_set_self .., rfl⟩
  others n hn := by
    have hn : n ∉ t.schema.map Prod.fst := hn
    rw [ht] at hn
    rw [Message.get_set_of_ne _ _ fun h => hn (List.mem_singleton.mpr h)]
    rfl
  unknown := rfl

end LoginPb

/-! ## A library -/

namespace CodedStream

/-- `ReadVarint32()`: the low 32 bits of a number of up to ten bytes. -/
def readVarint32 (bs : List UInt8) : Option (ℕ × List UInt8) :=
  match Varint.ofBytes 10 bs with
  | none => none
  | some (n, rest) => some (n % 2 ^ 32, rest)

/-- `ReadString()` into a string that was `old`. -/
def readBytes (old bs : List UInt8) : Bool × List UInt8 × List UInt8 :=
  match readVarint32 bs with
  | none => (false, old, bs)
  | some (size, rest) =>
    -- as an `int` it is negative
    if 2 ^ 31 ≤ size then (false, old, rest)
    else if size ≤ rest.length then (true, rest.take size, rest.drop size)
    else (false, rest, [])

/-- A library to run the generated code on. Its `SkipField` skips numbers and strings;
nothing else comes in messages of `login.proto`. -/
def plain : CodedStream where
  writeInt32 n v := encodeField n (.int32 v)
  writeBool n v := encodeField n (.bool v)
  writeString n s := encodeField n (.string s)
  readTag bs :=
    match readVarint32 bs with
    | none => .stopped bs.isEmpty
    | some (0, _) => .stopped false
    | some (tag, rest) => .tag tag rest
  readInt32 bs := (Varint.ofBytes 10 bs).map fun (n, rest) => (decodeInt32 n, rest)
  readBool bs := (Varint.ofBytes 10 bs).map fun (n, rest) => (n != 0, rest)
  readString := readBytes
  skipField tag bs :=
    let skipped : Option (List UInt8) :=
      match tag % 8 with
      | 0 => (Varint.ofBytes 10 bs).map Prod.snd
      | 2 =>
        match readBytes [] bs with
        | (true, _, rest) => some rest
        | (false, _, _) => none
      | _ => none
    skipped.map fun rest => (Varint.toBytes 5 tag ++ bs.take (bs.length - rest.length), rest)

theorem readVarint32_toBytes {w n : ℕ} (hw : w ≠ 0) (hle : w ≤ 10) (h : n < 128 ^ w)
    (h32 : n < 2 ^ 32) (rest : List UInt8) :
    readVarint32 (Varint.toBytes w n ++ rest) = some (n, rest) := by
  rw [readVarint32, Varint.ofBytes_toBytes_of_le hle h hw]
  simp only [Nat.mod_eq_of_lt h32]

theorem readVarint32_of_prefix {w n : ℕ} {p : List UInt8} (hp : p <+: Varint.toBytes w n)
    (hne : p ≠ Varint.toBytes w n) : readVarint32 p = none := by
  rw [readVarint32, Varint.ofBytes_of_prefix 10 hp hne]

theorem readVarint32_length {s : List UInt8} (hs : s.length < 2 ^ 31) (rest : List UInt8) :
    readVarint32 (Varint.toBytes 10 s.length ++ rest) = some (s.length, rest) :=
  readVarint32_toBytes (by decide) (Nat.le_refl 10) (Nat.lt_trans hs (by decide))
    (Nat.lt_trans hs (by decide)) rest

/-- It does what is documented. -/
theorem documented_plain : plain.Documented where
  writeField n v := by cases v <;> rfl
  readTag_nil := rfl
  readTag {tag} rest hpos hlt := by
    have hread := readVarint32_toBytes (w := 5) (by decide) (by decide)
      (Nat.lt_trans hlt (by decide)) hlt rest
    obtain ⟨k, rfl⟩ := Nat.exists_eq_succ_of_ne_zero hpos.ne'
    simp only [plain, hread, Nat.succ_eq_add_one]
  readTag_cut hp hne hnil := by
    have hempty : ∀ {p : List UInt8}, p ≠ [] → p.isEmpty = false := by
      intro p hp
      cases p with
      | nil => exact absurd rfl hp
      | cons b p => rfl
    simp only [plain, readVarint32_of_prefix hp hne, hempty hnil]
  readInt32 v rest := by
    simp only [plain, Proto2.ofBytes_encodeInt32, Option.map_some, Proto2.decodeInt32_encode]
  readInt32_cut hp hne := by
    simp only [plain, Varint.ofBytes_of_prefix 10 hp hne, Option.map_none]
  readBool v rest := by cases v <;> rfl
  readBool_nil := rfl
  readString old {s} rest hs := by
    have hle : s.length ≤ (s ++ rest).length := by simp
    show readBytes old _ = _
    rw [readBytes, List.append_assoc, readVarint32_length hs]
    simp only [if_neg (Nat.not_le.mpr hs), if_pos hle, List.take_left, List.drop_left]
  readString_length old {n p} hp hne := by
    refine ⟨p, ?_⟩
    show readBytes old _ = _
    rw [readBytes, readVarint32_of_prefix hp hne]
  readString_cut old {s q} hs hq hne := by
    have hshorter : ¬ s.length ≤ q.length := fun hle => hne (hq.eq_of_length_le hle)
    show readBytes old _ = _
    rw [readBytes, readVarint32_length hs]
    simp only [if_neg (Nat.not_le.mpr hs), if_neg hshorter]

end CodedStream

/-- A `UserOnlineReq` about uid 300, whole and without its last byte. -/
theorem LoginPb.parse_prefix_online :
    ((Message.new .userOnlineReq).parseFromString (.loginPb .plain) [8, 172, 2]).2.get 1 =
        some (.int32 300) ∧
      ((Message.new .userOnlineReq).parseFromString (.loginPb .plain) [8, 172]).1 = false := by
  have hm : ((Message.new .userOnlineReq).set 1 (.int32 300)).Complete := complete_set_one rfl
  have hbytes : (Protobuf.loginPb .plain).serializeToArray
      ((Message.new .userOnlineReq).set 1 (.int32 300)) = [8, 172, 2] := by decide
  obtain ⟨hwhole, -⟩ := parse_prefix CodedStream.documented_plain hm (by decide)
    (List.prefix_refl _)
  obtain ⟨-, hcut⟩ := parse_prefix CodedStream.documented_plain hm (by decide) (p := [8, 172])
    ⟨[2], hbytes.symm⟩
  rw [hbytes] at hwhole hcut
  exact ⟨(hwhole rfl).2 1, hcut (by decide)⟩

/-! ## What is asked of a protobuf runtime elsewhere -/

theorem Protobuf.presenceCodec_loginPb {cs : CodedStream} (hcs : cs.Documented) :
    PresenceCodec (.loginPb cs) where
  serialize_uid t ht v := by
    rw [LoginPb.serializeToArray_eq hcs]
    exact Protobuf.presenceCodec_proto2.serialize_uid t ht v
  parse_uid t ht v := by
    have hschema : t.schema = [(1, (FieldVal.int32 v).kind)] := by
      rcases ht with rfl | rfl <;> rfl
    have hm : ((Message.new t).setUid v).Complete := LoginPb.complete_set_one hschema
    have hbody : bytesOf ((Message.new t).setUid v) = encodeField 1 (.int32 v) := by
      have hfields : LoginPb.fieldsOf ((Message.new t).setUid v) = [(1, .int32 v)] := by
        show List.filterMap _ t.schema = _
        rw [hschema]
        rfl
      rw [LoginPb.bytesOf_eq, hm.unknown, hfields]
      simp [LoginPb.encodeFields]
    have hsize : (bytesOf ((Message.new t).setUid v)).length ≤ sizeMax := by
      rw [hbody]
      exact (Proto2.length_encodeField_le v).trans (by decide)
    obtain ⟨hwhole, -⟩ := LoginPb.parse_bytesOf_prefix hcs hm hsize (List.prefix_refl _)
    obtain ⟨-, hget⟩ := hwhole rfl
    rw [hbody] at hget
    have hone : ((Message.new t).parseFromString (.loginPb cs)
        (encodeField 1 (.int32 v))).2.get 1 = some (.int32 v) :=
      (hget 1).trans (Message.get_set_self ..)
    rw [Message.uid, Message.int32, hone]
  parse_key t ht := by
    -- the key is read, and no value behind it
    have hlookup : t.schema.lookup 1 = some .int32 := by
      rcases ht with rfl | rfl <;> rfl
    have htyped : LoginPb.Typed t (1, .int32 0) := ⟨hlookup, fun s hs => by cases hs⟩
    have hcut : [] <+: encodeInt32 0 ∧ [] ≠ encodeInt32 0 := ⟨List.nil_prefix, by decide⟩
    have hmerged : LoginPb.mergePartial cs t 2 [8] (Message.new t) =
        ⟨false, false, Message.new t⟩ := by
      have hvalue : LoginPb.mergeValue cs 1 [] (Message.new t) .int32 =
          .inl ⟨false, false, Message.new t⟩ := by
        rw [LoginPb.mergeValue, hcs.readInt32_cut hcut.1 hcut.2]
      have hfield : LoginPb.mergeField cs t [8] (Message.new t) =
          .inl ⟨false, false, Message.new t⟩ :=
        (LoginPb.mergeField_tag hcs htyped [] (Message.new t)).trans hvalue
      rw [LoginPb.mergePartial, hfield]
    obtain ⟨-, hget⟩ := LoginPb.parseFromString_eq hmerged
    rw [Message.uid, Message.int32, hget]
    rfl
  length_lt m := by
    rw [LoginPb.serializeToArray_eq hcs]
    exact Protobuf.presenceCodec_proto2.length_lt m

theorem Protobuf.dosthCodec_loginPb {cs : CodedStream} (hcs : cs.Documented) :
    DosthCodec (.loginPb cs) where
  length_rsp rspId ret h := by
    rw [LoginPb.serializeToArray_eq hcs]
    exact Protobuf.dosthCodec_proto2.length_rsp rspId ret h
  length_large rspId ret h := by
    rw [LoginPb.serializeToArray_eq hcs]
    exact Protobuf.dosthCodec_proto2.length_large rspId ret h

end Rubo.Msgs
