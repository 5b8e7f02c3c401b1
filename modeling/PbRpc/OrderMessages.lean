import PbRpc.GeneratedMessage
import PbRpc.ProtoWire

/-!
# The messages of the order service

`makeOrderRequest` and `makeOrderResponse`, as `protoc` generates them, and a
runtime for them that keeps to the wire format.
-/

namespace PbRpc

open ProtoWire

/-! ## A runtime -/

theorem length_varint_of_lt {n : ℕ} (h : n < 128) : (varint n).length = 1 := by
  rw [varint, if_pos h]
  rfl

/-- The number that an `int32` is written as: a negative one is extended to 64
bits. -/
def int32Number (x : Int32) : ℕ := (x.toInt % 2 ^ 64).toNat

theorem ofNat_int32Number (x : Int32) : UInt32.ofNat (int32Number x) = x.toUInt32 := by
  refine UInt32.toNat_inj.mp ?_
  have hx : x.toInt = (x.toUInt32.toNat : ℤ).bmod (2 ^ 32) := by
    rw [← Int32.toInt_toBitVec, BitVec.toInt_eq_toNat_bmod]
    rfl
  have hlt := x.toUInt32.toNat_lt
  rw [UInt32.toNat_ofNat', int32Number, hx, Int.bmod_def]
  split <;> omega

/-- A number of at most `k` bytes, read as a `uint32`. -/
def readUInt32 (k : ℕ) (ptr : Bytes) : Option (UInt32 × Bytes) :=
  (readVarint k ptr).map fun (n, rest) => (UInt32.ofNat n, rest)

theorem readUInt32_lt {k : ℕ} {ptr rest : Bytes} {x : UInt32}
    (h : readUInt32 k ptr = some (x, rest)) : rest.length < ptr.length := by
  obtain ⟨⟨n, _⟩, hread, heq⟩ := Option.map_eq_some_iff.mp h
  obtain ⟨-, rfl⟩ := Prod.mk.inj heq
  exact readVarint_lt hread

theorem readUInt32_varint {k n : ℕ} (hk : 0 < k) (hn : n < 128 ^ k) (rest : Bytes) :
    readUInt32 k (varint n ++ rest) = some (UInt32.ofNat n, rest) := by
  rw [readUInt32, readVarint_varint hk hn, Option.map_some]

theorem int32Number_lt (x : Int32) : int32Number x < 128 ^ 10 := by
  have hnumber : int32Number x < 2 ^ 64 := by unfold int32Number; omega
  exact hnumber.trans (by decide)

theorem readUInt32_int32 (x : Int32) (rest : Bytes) :
    readUInt32 10 (varint (int32Number x) ++ rest) = some (x.toUInt32, rest) := by
  rw [readUInt32_varint (by decide) (int32Number_lt x), ofNat_int32Number]

theorem length_int32_le (x : Int32) : 1 + (varint (int32Number x)).length ≤ 11 :=
  Nat.add_le_add_left (length_varint_le (by decide) (int32Number_lt x)) 1

theorem readUInt32_tag {n : ℕ} (hn : n < 128) (rest : Bytes) :
    readUInt32 5 (varint n ++ rest) = some (UInt32.ofNat n, rest) :=
  readUInt32_varint (by decide) (hn.trans (by decide)) rest

theorem readUInt32_toNat (tag : UInt32) (rest : Bytes) :
    readUInt32 5 (varint tag.toNat ++ rest) = some (tag, rest) := by
  rw [readUInt32_varint (by decide) (tag.toNat_lt.trans (by decide)), UInt32.ofNat_toNat]

theorem maxStringSize_lt : maxStringSize < 128 ^ 5 := by decide

/-- **The runtime**, as far as it concerns the wire format, without groups. -/
def ProtobufRuntime.wire : ProtobufRuntime where
  ReadTag := readUInt32 5
  ReadVarint32 := readUInt32 10
  InlineGreedyStringParser := readString maxStringSize
  UnknownFieldParse tag ptr := readValue maxStringSize tag.toNat ptr
  VerifyUTF8 := utf8 none
  WriteInt32ToArray n x := varint (8 * n) ++ varint (int32Number x)
  WriteStringMaybeAliased n str := varint (8 * n + 2) ++ ProtoWire.string str
  WriteUnknownField u := varint u.1.toNat ++ u.2
  Int32SizePlusOne x := 1 + (varint (int32Number x)).length
  StringSize str := (ProtoWire.string str).length
  UnknownFieldSize u := (varint u.1.toNat ++ u.2).length
  ReadTag_lt := readUInt32_lt
  ReadVarint32_le h := (readUInt32_lt h).le
  string_le := readString_le
  UnknownFieldParse_le := readValue_le
  int32 x rest _ hlt := ⟨varint (int32Number x) ++ rest,
    by rw [List.append_assoc, readUInt32_tag (by omega)], readUInt32_int32 x rest⟩
  string str rest _ hlt hlen := ⟨ProtoWire.string str ++ rest,
    by rw [List.append_assoc, readUInt32_tag (by omega)],
    readString_string rest hlen maxStringSize_lt⟩
  unknown {tag _ value _} hparse rest' := ⟨value ++ rest',
    by rw [List.append_assoc, readUInt32_toNat], readValue_value maxStringSize_lt hparse rest'⟩
  int32_size x _ hlt := by rw [List.length_append, length_varint_of_lt (by omega)]
  string_size str _ hlt := by rw [List.length_append, length_varint_of_lt (by omega)]
  unknown_size _ := rfl
  Int32SizePlusOne_le := length_int32_le
  le_StringSize := le_length_string
  StringSize_le h := length_string_le (lt_of_le_of_lt h maxStringSize_lt)
  ascii := utf8_of_ascii

/-! ## `makeOrderRequest` -/

/-- **`makeOrderRequest`.** -/
structure MakeOrderRequest where
  price_ : Int32 := 0
  goods_ : Bytes := []
  unknown_fields : UnknownFieldSet := []
deriving DecidableEq, Repr

namespace MakeOrderRequest

def price : Field MakeOrderRequest :=
  .int32 1 price_ fun msg x => { msg with price_ := x }

def goods : Field MakeOrderRequest :=
  .string 2 goods_ fun msg str => { msg with goods_ := str }

/-- The only string. -/
theorem holds_iff {P : Bytes → Prop} {msg : MakeOrderRequest} :
    (∀ f ∈ [price, goods], f.Holds P msg) ↔ P msg.goods_ := by
  simp [price, goods, Field.Holds]

def schema : Schema MakeOrderRequest where
  fields := [price, goods]
  merged := [goods, price]
  init := {}
  unknown := unknown_fields
  setUnknown msg u := { msg with unknown_fields := u }
  numbers := by decide
  number_bounds := List.forall_mem_cons.mpr
    ⟨by decide, List.forall_mem_singleton.mpr (by decide)⟩
  perm := .swap ..
  copy_comm f hf g hg msg from_ := by
    simp only [List.mem_cons, List.not_mem_nil, or_false] at hf hg
    rcases hf with rfl | rfl <;> rcases hg with rfl | rfl <;> rfl
  unknown_set _ _ := rfl
  set_set _ _ _ := rfl
  set_unknown _ := rfl
  holds_init := holds_iff.mpr rfl
  unknown_init := rfl
  holds_set P msg h f hf := by
    rw [holds_iff] at h
    simp only [List.mem_cons, List.not_mem_nil, or_false] at hf
    rcases hf with rfl | rfl
    · exact fun x => ⟨holds_iff.mpr h, rfl⟩
    · exact fun str hstr => ⟨holds_iff.mpr hstr, rfl⟩
  holds_setUnknown P msg u h := by
    rw [holds_iff] at h ⊢
    exact h
  complete := by
    rintro ⟨price_, goods_, unknown_fields⟩
    by_cases hprice : price_ = 0 <;> by_cases hgoods : goods_ = [] <;>
      simp [Field.merge, Field.isDefault, Field.copy, price, goods, hprice, hgoods]

theorem length_goods_le (rt : ProtobufRuntime) (msg : MakeOrderRequest) :
    msg.goods_.length ≤ (schema.InternalSerialize rt msg).length := by
  have hfields : ∀ f ∈ [price, goods],
      f.Holds (fun str => str.length ≤ (schema.InternalSerialize rt msg).length) msg :=
    fun f hf => Schema.length_le_InternalSerialize hf
  exact holds_iff.mp hfields

/-- What is made of goods that are given twice, with the price between them and a
field that is not known. -/
def goodsTwice : MakeOrderRequest :=
  { price_ := -1, goods_ := [0x42], unknown_fields := [(40, [7])] }

theorem ParseFromString_idem_goodsTwice :
    schema.ParseFromString .wire (schema.InternalSerialize .wire goodsTwice) = some goodsTwice := by
  have hparse : schema.ParseFromString .wire [0x12, 1, 0x41, 0x28, 7, 0x08, 0xff, 0xff, 0xff, 0xff,
      0xff, 0xff, 0xff, 0xff, 0xff, 0x01, 0x12, 1, 0x42] = some goodsTwice := by
    decide +kernel
  exact Schema.ParseFromString_idem hparse

end MakeOrderRequest

/-! ## `makeOrderResponse` -/

/-- **`makeOrderResponse`.** -/
structure MakeOrderResponse where
  ret_code_ : Int32 := 0
  res_info_ : Bytes := []
  order_id_ : Bytes := []
  unknown_fields : UnknownFieldSet := []
deriving DecidableEq, Repr

namespace MakeOrderResponse

def ret_code : Field MakeOrderResponse :=
  .int32 1 ret_code_ fun msg x => { msg with ret_code_ := x }

def res_info : Field MakeOrderResponse :=
  .string 2 res_info_ fun msg str => { msg with res_info_ := str }

def order_id : Field MakeOrderResponse :=
  .string 3 order_id_ fun msg str => { msg with order_id_ := str }

/-- The two strings. -/
theorem holds_iff {P : Bytes → Prop} {msg : MakeOrderResponse} :
    (∀ f ∈ [ret_code, res_info, order_id], f.Holds P msg) ↔ P msg.res_info_ ∧ P msg.order_id_ := by
  simp [ret_code, res_info, order_id, Field.Holds]

def schema : Schema MakeOrderResponse where
  fields := [ret_code, res_info, order_id]
  merged := [res_info, order_id, ret_code]
  init := {}
  unknown := unknown_fields
  setUnknown msg u := { msg with unknown_fields := u }
  numbers := by decide
  number_bounds := List.forall_mem_cons.mpr ⟨by decide, List.forall_mem_cons.mpr
    ⟨by decide, List.forall_mem_singleton.mpr (by decide)⟩⟩
  perm := (List.Perm.cons res_info (.swap ret_code order_id [])).trans (.swap ..)
  copy_comm f hf g hg msg from_ := by
    simp only [List.mem_cons, List.not_mem_nil, or_false] at hf hg
    rcases hf with rfl | rfl | rfl <;> rcases hg with rfl | rfl | rfl <;> rfl
  unknown_set _ _ := rfl
  set_set _ _ _ := rfl
  set_unknown _ := rfl
  holds_init := holds_iff.mpr ⟨rfl, rfl⟩
  unknown_init := rfl
  holds_set P msg h f hf := by
    rw [holds_iff] at h
    simp only [List.mem_cons, List.not_mem_nil, or_false] at hf
    rcases hf with rfl | rfl | rfl
    · exact fun x => ⟨holds_iff.mpr h, rfl⟩
    · exact fun str hstr => ⟨holds_iff.mpr ⟨hstr, h.2⟩, rfl⟩
    · exact fun str hstr => ⟨holds_iff.mpr ⟨h.1, hstr⟩, rfl⟩
  holds_setUnknown P msg u h := by
    rw [holds_iff] at h ⊢
    exact h
  complete := by
    rintro ⟨ret_code_, res_info_, order_id_, unknown_fields⟩
    by_cases hcode : ret_code_ = 0 <;> by_cases hinfo : res_info_ = [] <;>
      by_cases hid : order_id_ = [] <;>
      simp [Field.merge, Field.isDefault, Field.copy, ret_code, res_info, order_id, hcode, hinfo,
        hid]

/-- What a price that is too low is answered with, and then one that is not. -/
theorem ParseFromString_flatMap_twoResponses :
    schema.ParseFromString .wire
        (schema.InternalSerialize .wire { ret_code_ := -1, res_info_ := [0x41] }
          ++ (schema.InternalSerialize .wire { order_id_ := [0x42] } ++ []))
      = some { ret_code_ := -1, res_info_ := [0x41], order_id_ := [0x42] } := by
  have hvalid : ∀ msg ∈ ([{ ret_code_ := -1, res_info_ := [0x41] }, { order_id_ := [0x42] }] :
      List MakeOrderResponse), Schema.Valid .wire schema msg := by
    intro msg hmsg
    simp only [List.mem_cons, List.not_mem_nil, or_false] at hmsg
    rcases hmsg with rfl | rfl
    · exact ⟨holds_iff.mpr ⟨by decide +kernel, by decide +kernel⟩, fun u hu => nomatch hu⟩
    · exact ⟨holds_iff.mpr ⟨by decide +kernel, by decide +kernel⟩, fun u hu => nomatch hu⟩
  exact Schema.ParseFromString_flatMap hvalid

end MakeOrderResponse

end PbRpc
