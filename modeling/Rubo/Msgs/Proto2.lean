import Rubo.Foundation.Varint
import Rubo.Msgs.MsgCenter

/-!
# A Protobuf Runtime

The proto2 encoding of the messages of `msgs/protocols/login.proto`, as one
runtime that `Protobuf` can stand for. All fields of that file are `required`
and of type `int32`, `bool` or `string`. Fixed-width and group encodings, which
it does not use, are rejected.
-/

namespace Rubo.Msgs

open Rubo.Foundation

/-- The field types of `login.proto`. -/
inductive FieldKind where
  | int32
  | bool
  | string
  deriving DecidableEq, Repr

/-- The fields of each message, by number. -/
def MsgType.schema : MsgType → List (ℕ × FieldKind)
  | .loginReq | .registerReq => [(1, .string), (2, .string)]
  | .verifyReq => [(1, .string)]
  | .loginRsp => [(1, .bool), (2, .int32)]
  | .verifyRsp => [(1, .bool)]
  | .registerRsp => [(1, .bool), (2, .string), (3, .int32)]
  | .userOnlineReq | .userOfflineReq | .kickUserOutReq => [(1, .int32)]
  | .doSthReq | .doSthRsp => [(1, .int32), (2, .string)]

namespace Proto2

/-- An `int32` is sent sign-extended to 64 bits. -/
def encodeInt32 (v : Int32) : List UInt8 := Varint.toBytes 10 v.toInt64.toUInt64.toNat

/-- The low 32 bits of a number on the wire. -/
def decodeInt32 (n : ℕ) : Int32 := (UInt64.ofNat n).toInt64.toInt32

/-- A field: its key, then its value. -/
def encodeField (n : ℕ) : FieldVal → List UInt8
  | .int32 v => Varint.toBytes 5 (n * 8) ++ encodeInt32 v
  | .bool v => Varint.toBytes 5 (n * 8) ++ [if v then 1 else 0]
  | .string s => Varint.toBytes 5 (n * 8 + 2) ++ (Varint.toBytes 10 s.length ++ s)

/-- `INT_MAX`: the size up to which a message is serialized. -/
def sizeMax : ℕ := 2147483647

/-- The fields that are set, in the order of the schema, then the unknown fields. -/
def bytesOf (m : Message) : List UInt8 :=
  m.type.schema.flatMap (fun field =>
    match m.get field.1 with
    | none => []
    | some v => encodeField field.1 v) ++ m.unknownFields

/-- `SerializeToArray`, which writes nothing when the message is too large. -/
def serialize (m : Message) : List UInt8 :=
  if (bytesOf m).length ≤ sizeMax then bytesOf m else []

/-- Read fields until the input ends; the first argument bounds their number. -/
def parseFields (t : MsgType) : ℕ → List UInt8 → Message → Bool × Message
  | _, [], m => (true, m)
  | 0, _ :: _, m => (false, m)
  | fuel + 1, b :: bs, m =>
    match Varint.ofBytes 5 (b :: bs) with
    | none => (false, m)
    | some (key, rest) =>
      match Varint.ofBytes 10 rest with
      | none => (false, m)
      | some (n, rest) =>
        -- wire type 0: a varint
        if key % 8 = 0 then
          match t.schema.lookup (key / 8) with
          | some .int32 => parseFields t fuel rest (m.set (key / 8) (.int32 (decodeInt32 n)))
          | some .bool => parseFields t fuel rest (m.set (key / 8) (.bool (n != 0)))
          -- a field the type does not have is kept as it came
          | _ =>
            parseFields t fuel rest { m with
              unknownFields := m.unknownFields ++ (b :: bs).take ((b :: bs).length - rest.length) }
        -- wire type 2: a length and as many bytes
        else if key % 8 = 2 ∧ n ≤ rest.length then
          match t.schema.lookup (key / 8) with
          | some .string => parseFields t fuel (rest.drop n) (m.set (key / 8) (.string (rest.take n)))
          | _ =>
            parseFields t fuel (rest.drop n) { m with
              unknownFields := m.unknownFields ++
                (b :: bs).take ((b :: bs).length - (rest.length - n)) }
        else
          (false, m)

/-- `ParseFromString`: the input is well formed and every field is set. -/
def parse (t : MsgType) (s : List UInt8) : Bool × List (ℕ × FieldVal) × List UInt8 :=
  let (ok, m) := parseFields t s.length s (Message.new t)
  (ok && t.schema.all (fun field => (m.get field.1).isSome), m.fields, m.unknownFields)

end Proto2

/-- The runtime of this module. -/
def Protobuf.proto2 : Protobuf where
  parseFromString := Proto2.parse
  serializeToArray := Proto2.serialize

/-- It runs on a heap in which a zero byte follows every block. -/
def Runtime.proto2 : Runtime := { Protobuf.proto2 with beyond := fun _ => [0] }

/-- What the runtime makes of a string. -/
theorem Message.parseFromString_proto2 (t : MsgType) (s : List UInt8) :
    ((Message.new t).parseFromString .proto2 s).2 =
      ⟨t, (Proto2.parse t s).2.1, (Proto2.parse t s).2.2⟩ := rfl

namespace Proto2

theorem decodeInt32_encode (v : Int32) : decodeInt32 v.toInt64.toUInt64.toNat = v := by
  simp [decodeInt32]

/-- Nothing is left to read. -/
theorem parseFields_nil (t : MsgType) (fuel : ℕ) (m : Message) :
    parseFields t fuel [] m = (true, m) := by
  cases fuel <;> rfl

theorem ofBytes_encodeInt32 (v : Int32) (rest : List UInt8) :
    Varint.ofBytes 10 (encodeInt32 v ++ rest) = some (v.toInt64.toUInt64.toNat, rest) := by
  -- the ten bytes at most hold any 64-bit number
  have hlt : v.toInt64.toUInt64.toNat < 128 ^ (9 + 1) :=
    Nat.lt_of_lt_of_le v.toInt64.toUInt64.toNat_lt (by decide)
  exact Varint.ofBytes_toBytes hlt rest

/-- A number field is read back, whatever follows it. -/
theorem parseFields_int32 {t : MsgType} {n : ℕ} (ht : t.schema.lookup n = some .int32)
    (hn : n < 2 ^ 29) (fuel : ℕ) (v : Int32) (rest : List UInt8) (m : Message) :
    parseFields t (fuel + 1) (encodeField n (.int32 v) ++ rest) m =
      parseFields t fuel rest (m.set n (.int32 v)) := by
  have hkey : Varint.ofBytes 5 (encodeField n (.int32 v) ++ rest) =
      some (n * 8, encodeInt32 v ++ rest) := by
    rw [encodeField, List.append_assoc]
    exact Varint.ofBytes_toBytes (by omega) _
  cases hxs : encodeField n (.int32 v) ++ rest with
  | nil =>
      rw [hxs] at hkey
      cases hkey
  | cons b bs =>
      rw [hxs] at hkey
      have hwire : n * 8 % 8 = 0 := Nat.mul_mod_left n 8
      have hnum : n * 8 / 8 = n := Nat.mul_div_cancel n (by decide)
      simp only [parseFields, hkey, ofBytes_encodeInt32, hwire, hnum, ht, if_true,
        decodeInt32_encode]

/-- A string field is read back, whatever follows it. -/
theorem parseFields_string {t : MsgType} {n : ℕ} (ht : t.schema.lookup n = some .string)
    (hn : n < 2 ^ 29) (fuel : ℕ) {s : List UInt8} (hs : s.length < 128 ^ 10) (rest : List UInt8)
    (m : Message) :
    parseFields t (fuel + 1) (encodeField n (.string s) ++ rest) m =
      parseFields t fuel rest (m.set n (.string s)) := by
  have hkey : Varint.ofBytes 5 (encodeField n (.string s) ++ rest) =
      some (n * 8 + 2, Varint.toBytes 10 s.length ++ (s ++ rest)) := by
    rw [encodeField, List.append_assoc, List.append_assoc]
    exact Varint.ofBytes_toBytes (by omega) _
  have hlen : Varint.ofBytes 10 (Varint.toBytes 10 s.length ++ (s ++ rest)) =
      some (s.length, s ++ rest) := Varint.ofBytes_toBytes hs _
  cases hxs : encodeField n (.string s) ++ rest with
  | nil =>
      rw [hxs] at hkey
      cases hkey
  | cons b bs =>
      rw [hxs] at hkey
      have hwire : (n * 8 + 2) % 8 = 2 := by omega
      have hnum : (n * 8 + 2) / 8 = n := by omega
      have hle : s.length ≤ (s ++ rest).length := by simp
      simp only [parseFields, hkey, hlen, hwire, hnum, ht, hle, true_and, if_true,
        List.take_left, List.drop_left, if_false, OfNat.ofNat_ne_zero]

/-- The one field of a presence message is read back. -/
theorem parseFields_uid {t : MsgType} (ht : t.schema.lookup 1 = some .int32) (fuel : ℕ) (v : Int32)
    (m : Message) :
    parseFields t (fuel + 1) (encodeField 1 (.int32 v)) m = (true, m.set 1 (.int32 v)) := by
  have h := parseFields_int32 ht (by decide) fuel v [] m
  rwa [List.append_nil, parseFields_nil] at h

/-- A field of a positive or negative number has no zero byte. -/
theorem zero_notMem_encodeField {v : Int32} (hv : v ≠ 0) : 0 ∉ encodeField 1 (.int32 v) := by
  -- sign extension keeps a number different from zero
  have hval : v.toInt64.toUInt64.toNat ≠ 0 := by
    intro h
    have hdec := decodeInt32_encode v
    rw [h] at hdec
    exact hv hdec.symm
  have hfield : encodeField 1 (.int32 v) = 8 :: encodeInt32 v := rfl
  intro hmem
  rw [hfield, List.mem_cons] at hmem
  rcases hmem with hkey | hbyte
  · -- the key byte is `8`
    cases hkey
  · exact Varint.ne_zero_of_mem_toBytes hval 0 hbyte rfl

theorem length_encodeField_le (v : Int32) : (encodeField 1 (.int32 v)).length ≤ 11 := by
  have hfield : encodeField 1 (.int32 v) = 8 :: encodeInt32 v := rfl
  rw [hfield, List.length_cons]
  exact Nat.succ_le_succ (Varint.length_toBytes_le 10 _)

end Proto2

/-! ## What presence messages need from protobuf -/

/-- The messages `UserOnlineReq` and `UserOfflineReq`. -/
def MsgType.IsPresence (t : MsgType) : Prop := t = .userOnlineReq ∨ t = .userOfflineReq

/-- The wire format of a message whose only field is number 1, an `int32`, and the
bound on the size of a message. -/
structure Protobuf.PresenceCodec (pb : Protobuf) : Prop where
  serialize_uid : ∀ t : MsgType, t.IsPresence → ∀ v,
    pb.serializeToArray ((Message.new t).setUid v) = Proto2.encodeField 1 (.int32 v)
  parse_uid : ∀ t : MsgType, t.IsPresence → ∀ v,
    ((Message.new t).parseFromString pb (Proto2.encodeField 1 (.int32 v))).2.uid = v
  /-- A key without a value sets nothing. -/
  parse_key : ∀ t : MsgType, t.IsPresence → ((Message.new t).parseFromString pb [8]).2.uid = 0
  length_lt : ∀ m, (pb.serializeToArray m).length < 2 ^ 32

theorem Protobuf.presenceCodec_proto2 : PresenceCodec .proto2 where
  serialize_uid t ht v := by
    have hschema : t.schema = [(1, .int32)] := by
      rcases ht with rfl | rfl
      · rfl
      · rfl
    have hget : ((Message.new t).setUid v).get 1 = some (.int32 v) := Message.get_set_self ..
    -- one field in the schema, and it is set
    have hbytes : Proto2.bytesOf ((Message.new t).setUid v) = Proto2.encodeField 1 (.int32 v) := by
      have htype : ((Message.new t).setUid v).type = t := rfl
      have hunknown : ((Message.new t).setUid v).unknownFields = [] := rfl
      simp [Proto2.bytesOf, htype, hunknown, hschema, hget]
    show Proto2.serialize _ = _
    unfold Proto2.serialize
    rw [hbytes, if_pos ((Proto2.length_encodeField_le v).trans (by decide))]
  parse_uid t ht v := by
    have hlookup : t.schema.lookup 1 = some .int32 := by
      rcases ht with rfl | rfl
      · rfl
      · rfl
    have hlen : (Proto2.encodeField 1 (.int32 v)).length = (Proto2.encodeInt32 v).length + 1 := rfl
    have hfields := Proto2.parseFields_uid hlookup (Proto2.encodeInt32 v).length v (Message.new t)
    have hparse : (Proto2.parse t (Proto2.encodeField 1 (.int32 v))).2 =
        ([(1, .int32 v)], []) := by
      unfold Proto2.parse
      rw [hlen, hfields]
      rfl
    rw [Message.parseFromString_proto2, hparse]
    rfl
  parse_key t ht := by
    rcases ht with rfl | rfl
    · rfl
    · rfl
  length_lt m := by
    show (Proto2.serialize m).length < 2 ^ 32
    unfold Proto2.serialize
    split_ifs with h
    · exact Nat.lt_of_le_of_lt h (by decide)
    · exact Nat.two_pow_pos 32

/-! ## What `DoSthRsp` needs from protobuf -/

namespace Proto2

/-- The size of an `int32` value on the wire. -/
def int32Size (v : Int32) : ℕ := (encodeInt32 v).length

/-- The size of a string value of `len` bytes on the wire, with its length. -/
def stringSize (len : ℕ) : ℕ := (Varint.toBytes 10 len).length + len

/-- The size of a `DoSthRsp`: two keys of one byte each, and the values. -/
def dosthRspSize (rspId : Int32) (len : ℕ) : ℕ := 1 + int32Size rspId + (1 + stringSize len)

/-- A `DoSthRsp` with both fields set. -/
def dosthRsp (rspId : Int32) (ret : List UInt8) : Message :=
  ((Message.new .doSthRsp).set 1 (.int32 rspId)).set 2 (.string ret)

theorem bytesOf_dosthRsp (rspId : Int32) (ret : List UInt8) :
    bytesOf (dosthRsp rspId ret) = encodeField 1 (.int32 rspId) ++ encodeField 2 (.string ret) := by
  have h₁ : (dosthRsp rspId ret).get 1 = some (.int32 rspId) := rfl
  have h₂ : (dosthRsp rspId ret).get 2 = some (.string ret) := rfl
  have htype : (dosthRsp rspId ret).type = .doSthRsp := rfl
  have hunknown : (dosthRsp rspId ret).unknownFields = [] := rfl
  simp [bytesOf, htype, hunknown, MsgType.schema, h₁, h₂]

theorem length_bytesOf_dosthRsp (rspId : Int32) (ret : List UInt8) :
    (bytesOf (dosthRsp rspId ret)).length = dosthRspSize rspId ret.length := by
  have hkey : ∀ n ∈ [8, 18], (Varint.toBytes 5 n).length = 1 := by decide
  rw [bytesOf_dosthRsp, List.length_append, encodeField, encodeField]
  simp [dosthRspSize, int32Size, stringSize, hkey]

/-- A `DoSthReq` is read back. -/
theorem parse_dosthReq (uid : Int32) {sth : List UInt8} (hs : sth.length < 128 ^ 10) :
    parse .doSthReq (encodeField 1 (.int32 uid) ++ encodeField 2 (.string sth)) =
      (true, [(2, .string sth), (1, .int32 uid)], []) := by
  obtain ⟨k, hk⟩ : ∃ k, (encodeField 1 (.int32 uid) ++ encodeField 2 (.string sth)).length =
      k + 1 + 1 := by
    -- two keys
    have hkey : ∀ n ∈ [8, 18], (Varint.toBytes 5 n).length = 1 := by decide
    refine ⟨(encodeInt32 uid).length + ((Varint.toBytes 10 sth.length).length + sth.length), ?_⟩
    simp [encodeField, hkey]
    omega
  have hstring := parseFields_string (t := .doSthReq) (n := 2) rfl (by decide) k hs []
    ((Message.new .doSthReq).set 1 (.int32 uid))
  rw [List.append_nil] at hstring
  rw [parse, hk, parseFields_int32 rfl (by decide), hstring, parseFields_nil]
  rfl

end Proto2

/-- The wire size of a `DoSthRsp`; one that is too large is not written at all. -/
structure Protobuf.DosthCodec (pb : Protobuf) : Prop where
  length_rsp : ∀ rspId ret, Proto2.dosthRspSize rspId ret.length ≤ Proto2.sizeMax →
    (pb.serializeToArray (Proto2.dosthRsp rspId ret)).length = Proto2.dosthRspSize rspId ret.length
  length_large : ∀ rspId ret, Proto2.sizeMax < Proto2.dosthRspSize rspId ret.length →
    pb.serializeToArray (Proto2.dosthRsp rspId ret) = []

theorem Protobuf.dosthCodec_proto2 : DosthCodec .proto2 where
  length_rsp rspId ret h := by
    show (Proto2.serialize _).length = _
    rw [Proto2.serialize, Proto2.length_bytesOf_dosthRsp, if_pos h, Proto2.length_bytesOf_dosthRsp]
  length_large rspId ret h := by
    show Proto2.serialize _ = _
    rw [Proto2.serialize, Proto2.length_bytesOf_dosthRsp, if_neg (Nat.not_le.mpr h)]

end Rubo.Msgs
