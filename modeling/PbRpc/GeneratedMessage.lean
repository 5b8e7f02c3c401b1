import Mathlib.Data.List.Nodup
import Mathlib.Data.List.Perm.Basic
import Mathlib.Algebra.Order.BigOperators.Group.List
import PbRpc.Loop
import PbRpc.MachineInt

/-!
# Generated messages

The code that `protoc` generates for a message is the same for all of them,
up to the fields. `Schema` is what it differs in, and the functions below are
the code: `InternalSerialize` writes the fields that are not at their
default, `InternalParse` reads fields in any order and any number of times,
and keeps those that it does not know.

What the code calls of the protobuf runtime is not generated, and is a
parameter (`ProtobufRuntime`) with what is documented of it: how a field that
was written is read back, and that reading goes forward.

Parsing what was serialized is `MergeFrom` (`parse_serialize`). So several
messages one after another are merged (`ParseFromString_flatMap`), and what has
been parsed once can be serialized and parsed again (`ParseFromString_idem`).
The two ends do not check alike, though. That a string is UTF-8 is only logged
by `InternalSerialize`, while `InternalParse` gives up
(`ParseFromString_SerializeToString`).
-/

namespace PbRpc

/-- The fields of a message that its program does not know, each with its tag
and what was read behind it. -/
abbrev UnknownFieldSet := List (UInt32 × Bytes)

/-! ## The runtime -/

/-- The longest string that is read. -/
def maxStringSize : ℕ := 2147483631

/-- The longest message that is written. -/
def maxMessageSize : ℕ := 2147483647

/-- **What the generated code calls**, with what it relies on. The numbers of
fields up to 15 take one byte. -/
structure ProtobufRuntime where
  ReadTag : Bytes → Option (UInt32 × Bytes)
  ReadVarint32 : Bytes → Option (UInt32 × Bytes)
  InlineGreedyStringParser : Bytes → Option (Bytes × Bytes)
  UnknownFieldParse : UInt32 → Bytes → Option (Bytes × Bytes)
  VerifyUTF8 : Bytes → Bool
  WriteInt32ToArray : ℕ → Int32 → Bytes
  WriteStringMaybeAliased : ℕ → Bytes → Bytes
  /-- `InternalSerializeUnknownFieldsToArray`, of one field. -/
  WriteUnknownField : UInt32 × Bytes → Bytes
  Int32SizePlusOne : Int32 → ℕ
  StringSize : Bytes → ℕ
  /-- `ComputeUnknownFieldsSize`, of one field. -/
  UnknownFieldSize : UInt32 × Bytes → ℕ
  ReadTag_lt : ∀ {ptr tag rest}, ReadTag ptr = some (tag, rest) → rest.length < ptr.length
  ReadVarint32_le : ∀ {ptr x rest}, ReadVarint32 ptr = some (x, rest) → rest.length ≤ ptr.length
  string_le : ∀ {ptr str rest}, InlineGreedyStringParser ptr = some (str, rest) →
    rest.length ≤ ptr.length ∧ str.length ≤ maxStringSize
  UnknownFieldParse_le : ∀ {tag ptr value rest}, UnknownFieldParse tag ptr = some (value, rest) →
    rest.length ≤ ptr.length
  int32 : ∀ {n : ℕ} (x : Int32) (rest : Bytes), 0 < n → n < 16 → ∃ ptr,
    ReadTag (WriteInt32ToArray n x ++ rest) = some (UInt32.ofNat (8 * n), ptr) ∧
      ReadVarint32 ptr = some (x.toUInt32, rest)
  string : ∀ {n : ℕ} (str rest : Bytes), 0 < n → n < 16 → str.length ≤ maxStringSize →
    ∃ ptr, ReadTag (WriteStringMaybeAliased n str ++ rest) = some (UInt32.ofNat (8 * n + 2), ptr) ∧
      InlineGreedyStringParser ptr = some (str, rest)
  unknown : ∀ {tag ptr value rest}, UnknownFieldParse tag ptr = some (value, rest) → ∀ rest',
    ∃ ptr', ReadTag (WriteUnknownField (tag, value) ++ rest') = some (tag, ptr') ∧
      UnknownFieldParse tag ptr' = some (value, rest')
  int32_size : ∀ {n : ℕ} (x : Int32), 0 < n → n < 16 →
    (WriteInt32ToArray n x).length = Int32SizePlusOne x
  string_size : ∀ {n : ℕ} (str : Bytes), 0 < n → n < 16 →
    (WriteStringMaybeAliased n str).length = 1 + StringSize str
  unknown_size : ∀ u, (WriteUnknownField u).length = UnknownFieldSize u
  Int32SizePlusOne_le : ∀ x, Int32SizePlusOne x ≤ 11
  le_StringSize : ∀ str : Bytes, str.length ≤ StringSize str
  StringSize_le : ∀ {str : Bytes}, str.length ≤ maxStringSize → StringSize str ≤ 5 + str.length
  ascii : ∀ {str : Bytes}, (∀ b ∈ str, b < 0x80) → VerifyUTF8 str = true

theorem ProtobufRuntime.utf8_nil (rt : ProtobufRuntime) : rt.VerifyUTF8 [] = true :=
  rt.ascii fun _ hb => nomatch hb

/-! ## The messages -/

/-- **A field of a message**, with its number. -/
inductive Field (M : Type) where
  | int32 (number : ℕ) (get : M → Int32) (set : M → Int32 → M)
  | string (number : ℕ) (get : M → Bytes) (set : M → Bytes → M)

namespace Field

variable {M : Type}

def number : Field M → ℕ
  | .int32 number _ _ => number
  | .string number _ _ => number

/-- The low byte of the tag that the generated code expects. -/
def lowByte : Field M → UInt8
  | .int32 number _ _ => UInt8.ofNat (8 * number)
  | .string number _ _ => UInt8.ofNat (8 * number + 2)

/-- The field is at its default, and is not written. -/
def isDefault (msg : M) : Field M → Bool
  | .int32 _ get _ => get msg == 0
  | .string _ get _ => (get msg).isEmpty

/-- The field of another message. -/
def copy (msg from_ : M) : Field M → M
  | .int32 _ get set => set msg (get from_)
  | .string _ get set => set msg (get from_)

/-- A field in `MergeFrom`. -/
def merge (from_ msg : M) (f : Field M) : M :=
  if f.isDefault from_ then msg else f.copy msg from_

/-- A property of the field, if it is a string. -/
def Holds (P : Bytes → Prop) (msg : M) : Field M → Prop
  | .int32 _ _ _ => True
  | .string _ get _ => P (get msg)

/-- What the message has whatever the field is set to, as long as a string
has the property. -/
def Sets (P : Bytes → Prop) (Q : M → Prop) (msg : M) : Field M → Prop
  | .int32 _ _ set => ∀ x, Q (set msg x)
  | .string _ _ set => ∀ str, P str → Q (set msg str)

theorem Holds.imp {P Q : Bytes → Prop} {f : Field M} {msg : M} (hPQ : ∀ str, P str → Q str)
    (h : f.Holds P msg) : f.Holds Q msg := by
  cases f with
  | int32 number get set => trivial
  | string number get set => exact hPQ _ h

end Field

/-- **What a message is made of.** `merged` are its fields in the order in
which `MergeFrom` and `ByteSizeLong` go through them. -/
structure Schema (M : Type) where
  fields : List (Field M)
  merged : List (Field M)
  init : M
  unknown : M → UnknownFieldSet
  setUnknown : M → UnknownFieldSet → M
  numbers : (fields.map Field.number).Nodup
  number_bounds : ∀ f ∈ fields, 0 < f.number ∧ f.number < 16
  perm : merged.Perm fields
  copy_comm : ∀ f ∈ fields, ∀ g ∈ fields, ∀ msg from_,
    g.copy (f.copy msg from_) from_ = f.copy (g.copy msg from_) from_
  unknown_set : ∀ msg u, unknown (setUnknown msg u) = u
  set_set : ∀ msg u v, setUnknown (setUnknown msg u) v = setUnknown msg v
  set_unknown : ∀ msg, setUnknown msg (unknown msg) = msg
  holds_init : ∀ f ∈ fields, f.Holds (· = []) init
  unknown_init : unknown init = []
  holds_set : ∀ (P : Bytes → Prop) msg, (∀ g ∈ fields, g.Holds P msg) → ∀ f ∈ fields,
    f.Sets P (fun msg' => (∀ g ∈ fields, g.Holds P msg') ∧ unknown msg' = unknown msg) msg
  holds_setUnknown : ∀ (P : Bytes → Prop) msg u, (∀ g ∈ fields, g.Holds P msg) →
    ∀ g ∈ fields, g.Holds P (setUnknown msg u)
  complete : ∀ msg, setUnknown (fields.foldl (Field.merge msg) init)
    (unknown (fields.foldl (Field.merge msg) init) ++ unknown msg) = msg

namespace Schema

variable {M : Type} (rt : ProtobufRuntime) (sch : Schema M)

/-- **`MergeFrom`.** -/
def MergeFrom (msg from_ : M) : M :=
  sch.setUnknown (sch.merged.foldl (Field.merge from_) msg)
    (sch.unknown (sch.merged.foldl (Field.merge from_) msg) ++ sch.unknown from_)

/-- A field, as it is written. -/
def writeField (msg : M) (f : Field M) : Bytes :=
  if f.isDefault msg then []
  else match f with
    | .int32 number get _ => rt.WriteInt32ToArray number (get msg)
    | .string number get _ => rt.WriteStringMaybeAliased number (get msg)

/-- **`InternalSerialize`.** -/
def InternalSerialize (msg : M) : Bytes :=
  sch.fields.flatMap (writeField rt msg) ++ (sch.unknown msg).flatMap rt.WriteUnknownField

/-- A field, as it is counted. -/
def sizeField (msg : M) (f : Field M) : ℕ :=
  if f.isDefault msg then 0
  else match f with
    | .int32 _ get _ => rt.Int32SizePlusOne (get msg)
    | .string _ get _ => 1 + rt.StringSize (get msg)

/-- **`ByteSizeLong`.** -/
def ByteSizeLong (msg : M) : ℕ :=
  (sch.merged.map (sizeField rt msg)).sum + ((sch.unknown msg).map rt.UnknownFieldSize).sum

/-- `SerializeToString` refuses a message that is too long. -/
def SerializeToString (msg : M) : Option Bytes :=
  if maxMessageSize < sch.ByteSizeLong rt msg then none else some (sch.InternalSerialize rt msg)

/-- **Where `InternalParse` is**: the message so far, what is left to read,
and the tag that it stopped at. -/
structure ParseState (M : Type) where
  msg : M
  ptr : Bytes
  last_tag : Option UInt32 := none

/-- What is done at `handle_unusual`. -/
def handleUnusual (msg : M) (tag : UInt32) (ptr : Bytes) :
    Except Unit (Option Unit × ParseState M) :=
  if tag = 0 ∨ tag &&& 7 = 4 then .ok (none, ⟨msg, ptr, some tag⟩)
  else
    match rt.UnknownFieldParse tag ptr with
    | none => .error ()
    | some (value, ptr) =>
      .ok (some (), ⟨sch.setUnknown msg (sch.unknown msg ++ [(tag, value)]), ptr, none⟩)

/-- The value of a field. -/
def readField (msg : M) (ptr : Bytes) : Field M → Except Unit (Option Unit × ParseState M)
  | .int32 _ _ set =>
    match rt.ReadVarint32 ptr with
    | none => .error ()
    | some (x, ptr) => .ok (some (), ⟨set msg x.toInt32, ptr, none⟩)
  | .string _ _ set =>
    match rt.InlineGreedyStringParser ptr with
    | none => .error ()
    | some (str, ptr) =>
      if rt.VerifyUTF8 str then .ok (some (), ⟨set msg str, ptr, none⟩) else .error ()

/-- The field that a `switch` on `tag >> 3` finds. -/
def fieldOf (tag : UInt32) : Option (Field M) :=
  sch.fields.find? fun f => tag >>> 3 = UInt32.ofNat f.number

/-- **One round of `InternalParse`.** -/
def parseRound (st : ParseState M) : Except Unit (Option Unit × ParseState M) :=
  if st.ptr = [] then .ok (none, st)
  else
    match rt.ReadTag st.ptr with
    | none => .error ()
    | some (tag, ptr) =>
      match sch.fieldOf tag with
      | none => sch.handleUnusual rt st.msg tag ptr
      | some f =>
        if tag.toUInt8 = f.lowByte then readField rt st.msg ptr f
        else sch.handleUnusual rt st.msg tag ptr

variable {rt sch} {st st' : ParseState M} {msg : M} {tag : UInt32} {ptr : Bytes}

theorem handleUnusual_le (h : sch.handleUnusual rt msg tag ptr = .ok (some (), st')) :
    st'.ptr.length ≤ ptr.length := by
  unfold handleUnusual at h
  split at h
  · cases h
  · split at h
    · cases h
    · rename_i hparse
      cases h
      exact rt.UnknownFieldParse_le hparse

theorem readField_le {f : Field M} (h : readField rt msg ptr f = .ok (some (), st')) :
    st'.ptr.length ≤ ptr.length := by
  cases f with
  | int32 number get set =>
    simp only [readField] at h
    split at h
    · cases h
    · rename_i hread
      cases h
      exact rt.ReadVarint32_le hread
  | string number get set =>
    simp only [readField] at h
    split at h
    · cases h
    · rename_i hread
      split at h
      · cases h
        exact (rt.string_le hread).1
      · cases h

/-- **Every round reads something.** -/
theorem parseRound_lt (h : sch.parseRound rt st = .ok (some (), st')) :
    st'.ptr.length < st.ptr.length := by
  unfold parseRound at h
  split at h
  · cases h
  · split at h
    · cases h
    · rename_i tag ptr htag
      have hlt := rt.ReadTag_lt htag
      split at h
      · exact lt_of_le_of_lt (handleUnusual_le h) hlt
      · split at h
        · exact lt_of_le_of_lt (readField_le h) hlt
        · exact lt_of_le_of_lt (handleUnusual_le h) hlt

variable (rt sch)

/-- **`InternalParse`.** -/
def InternalParse (st : ParseState M) : Except Unit (ParseState M) :=
  (Loop.untilNone (sch.parseRound rt) (fun st => st.ptr.length) (fun _ _ _ h => parseRound_lt h)
    st).map Prod.snd

/-- **`ParseFromString`**: the message is cleared, parsed, and must end where
the bytes do. -/
def ParseFromString (bs : Bytes) : Option M :=
  match sch.InternalParse rt ⟨sch.init, bs, none⟩ with
  | .error _ => none
  | .ok st => if st.last_tag = none then some st.msg else none

/-! ## Sizes -/

theorem length_writeField {f : Field M} (hf : f ∈ sch.fields) (msg : M) :
    (writeField rt msg f).length = sizeField rt msg f := by
  obtain ⟨hpos, hlt⟩ := sch.number_bounds f hf
  unfold writeField sizeField
  split
  · rfl
  · cases f with
    | int32 number get set => exact rt.int32_size (get msg) hpos hlt
    | string number get set => exact rt.string_size (get msg) hpos hlt

/-- **`ByteSizeLong` is the size** of what is written. -/
theorem length_InternalSerialize (msg : M) :
    (sch.InternalSerialize rt msg).length = sch.ByteSizeLong rt msg := by
  have hfields : sch.fields.map (fun f => (writeField rt msg f).length)
      = sch.fields.map (sizeField rt msg) :=
    List.map_congr_left fun f hf => length_writeField rt sch hf msg
  have hunknown : (sch.unknown msg).map (fun u => (rt.WriteUnknownField u).length)
      = (sch.unknown msg).map rt.UnknownFieldSize :=
    List.map_congr_left fun u _ => rt.unknown_size u
  rw [InternalSerialize, List.length_append, List.length_flatMap, List.length_flatMap, hfields,
    hunknown, ByteSizeLong, (sch.perm.map (sizeField rt msg)).sum_eq]

variable {rt sch} {a : M}

theorem sizeField_le {f : Field M} {n : ℕ} (hn : n ≤ maxStringSize)
    (h : f.Holds (fun str => str.length ≤ n) a) : sizeField rt a f ≤ 11 + n := by
  unfold sizeField
  split
  · exact Nat.zero_le _
  · cases f with
    | int32 number get set => exact le_trans (rt.Int32SizePlusOne_le (get a)) (Nat.le_add_right _ _)
    | string number get set =>
      have hstr : (get a).length ≤ n := h
      have hle := rt.StringSize_le (le_trans hstr hn)
      show 1 + rt.StringSize (get a) ≤ 11 + n
      omega

theorem le_sizeField (f : Field M) :
    f.Holds (fun str => str.length ≤ sizeField rt a f) a := by
  cases f with
  | int32 number get set => trivial
  | string number get set =>
    show (get a).length ≤ _
    unfold sizeField
    split
    case isTrue hdefault =>
      rw [List.isEmpty_iff.mp hdefault]
      exact Nat.zero_le _
    case isFalse => exact (rt.le_StringSize (get a)).trans (Nat.le_add_left _ 1)

/-- **A string is no longer than its message.** -/
theorem length_le_InternalSerialize {f : Field M} (hf : f ∈ sch.fields) :
    f.Holds (fun str => str.length ≤ (sch.InternalSerialize rt a).length) a := by
  have hsize : sizeField rt a f ≤ (sch.InternalSerialize rt a).length := by
    rw [length_InternalSerialize, ByteSizeLong]
    refine le_trans (List.le_sum_of_mem (List.mem_map_of_mem ?_)) (Nat.le_add_right _ _)
    exact sch.perm.symm.subset hf
  exact Field.Holds.imp (fun str hstr => hstr.trans hsize) (le_sizeField f)

/-- A message with short strings is short. -/
theorem ByteSizeLong_le {n : ℕ} (hn : n ≤ maxStringSize)
    (h : ∀ f ∈ sch.fields, f.Holds (fun str => str.length ≤ n) a) (hu : sch.unknown a = []) :
    sch.ByteSizeLong rt a ≤ sch.fields.length * (11 + n) := by
  have hsum := List.sum_le_card_nsmul (sch.merged.map (sizeField rt a)) (11 + n) (by
    intro k hk
    obtain ⟨f, hf, rfl⟩ := List.mem_map.mp hk
    exact sizeField_le hn (h f (sch.perm.subset hf)))
  rw [List.length_map, sch.perm.length_eq] at hsum
  rw [ByteSizeLong, hu]
  exact hsum

/-! ## Parsing what was written -/

variable {rest : Bytes}

theorem InternalParse_of_round (h : sch.parseRound rt st = .ok (some (), st')) :
    sch.InternalParse rt st = sch.InternalParse rt st' := by
  unfold InternalParse
  cases hr : Loop.untilNone (sch.parseRound rt) (fun st => st.ptr.length)
      (fun _ _ _ h => parseRound_lt h) st' with
  | error e => rw [Loop.untilNone_of_some_error h hr]
  | ok out => rw [Loop.untilNone_of_some h hr]; rfl

theorem InternalParse_of_error (h : sch.parseRound rt st = .error ()) :
    sch.InternalParse rt st = .error () := by
  rw [InternalParse, Loop.untilNone_of_error h]
  rfl

/-- At the end of the bytes. -/
theorem InternalParse_nil (msg : M) (last_tag : Option UInt32) :
    sch.InternalParse rt ⟨msg, [], last_tag⟩ = .ok ⟨msg, [], last_tag⟩ := by
  have hround : sch.parseRound rt ⟨msg, [], last_tag⟩ = .ok (none, ⟨msg, [], last_tag⟩) :=
    if_pos rfl
  rw [InternalParse, Loop.untilNone_of_none hround]
  rfl

/-- The tags of the fields. -/
theorem tag_bits : ∀ n < 16, UInt32.ofNat (8 * n) >>> 3 = UInt32.ofNat n ∧
    (UInt32.ofNat (8 * n)).toUInt8 = UInt8.ofNat (8 * n) ∧
    UInt32.ofNat (8 * n + 2) >>> 3 = UInt32.ofNat n ∧
    (UInt32.ofNat (8 * n + 2)).toUInt8 = UInt8.ofNat (8 * n + 2) := by decide

theorem ofNat_inj {n k : ℕ} (hn : n < 16) (hk : k < 16)
    (h : UInt32.ofNat n = UInt32.ofNat k) : n = k := by
  have hnat := congrArg UInt32.toNat h
  rwa [UInt32.toNat_ofNat_of_lt' (hn.trans (by decide)),
    UInt32.toNat_ofNat_of_lt' (hk.trans (by decide))] at hnat

/-- **The `switch` finds the field** of a tag. -/
theorem fieldOf_eq {f : Field M} (hf : f ∈ sch.fields) (h : tag >>> 3 = UInt32.ofNat f.number) :
    sch.fieldOf tag = some f := by
  cases hfind : sch.fieldOf tag with
  | none => exact absurd (decide_eq_true h) (List.find?_eq_none.mp hfind f hf)
  | some g =>
    have hg := List.mem_of_find?_eq_some hfind
    have hbits := List.find?_some
      (p := fun f : Field M => decide (tag >>> 3 = UInt32.ofNat f.number)) hfind
    have hsame : UInt32.ofNat g.number = UInt32.ofNat f.number :=
      (of_decide_eq_true hbits).symm.trans h
    have hnumber := ofNat_inj (sch.number_bounds g hg).2 (sch.number_bounds f hf).2 hsame
    rw [List.inj_on_of_nodup_map sch.numbers hg hf hnumber]

/-- A round that reads the tag of a field reads the field. -/
theorem parseRound_field {f : Field M} (hf : f ∈ sch.fields)
    (htag : rt.ReadTag st.ptr = some (tag, ptr)) (hbits : tag >>> 3 = UInt32.ofNat f.number)
    (hlow : tag.toUInt8 = f.lowByte) : sch.parseRound rt st = readField rt st.msg ptr f := by
  have hne : st.ptr ≠ [] := by
    intro hnil
    have hlt := rt.ReadTag_lt htag
    rw [hnil] at hlt
    exact Nat.not_lt_zero _ hlt
  rw [parseRound, if_neg hne, htag]
  dsimp only
  rw [fieldOf_eq hf hbits]
  exact if_pos hlow

/-- A string is read as it was written, if it is UTF-8. -/
def Readable (rt : ProtobufRuntime) (str : Bytes) : Prop :=
  str.length ≤ maxStringSize ∧ rt.VerifyUTF8 str = true

instance (rt : ProtobufRuntime) (str : Bytes) : Decidable (Readable rt str) :=
  inferInstanceAs (Decidable (_ ∧ _))

/-- **A field is read as it was written.** -/
theorem parseRound_writeField {f : Field M} (hf : f ∈ sch.fields) (hwritten : f.isDefault a = false)
    (hr : f.Holds (Readable rt) a) :
    sch.parseRound rt ⟨msg, writeField rt a f ++ rest, none⟩
      = .ok (some (), ⟨f.copy msg a, rest, none⟩) := by
  obtain ⟨hpos, hlt⟩ := sch.number_bounds f hf
  have hwrite : ¬ f.isDefault a = true := by rw [hwritten]; exact Bool.false_ne_true
  cases f with
  | int32 number get set =>
    obtain ⟨ptr, htag, hread⟩ := rt.int32 (get a) rest hpos hlt
    rw [writeField, if_neg hwrite, parseRound_field hf htag (tag_bits number hlt).1
      (tag_bits number hlt).2.1]
    simp only [readField, hread, Int32.toInt32_toUInt32]
    rfl
  | string number get set =>
    obtain ⟨ptr, htag, hread⟩ := rt.string (get a) rest hpos hlt hr.1
    rw [writeField, if_neg hwrite, parseRound_field hf htag (tag_bits number hlt).2.2.1
      (tag_bits number hlt).2.2.2]
    simp only [readField, hread, if_pos hr.2]
    rfl

/-- **A string that is not UTF-8 is not read**, though it was written. -/
theorem parseRound_not_utf8 {f : Field M} (hf : f ∈ sch.fields) (hwritten : f.isDefault a = false)
    (hsize : f.Holds (fun str => str.length ≤ maxStringSize) a) (hr : ¬ f.Holds (Readable rt) a) :
    sch.parseRound rt ⟨msg, writeField rt a f ++ rest, none⟩ = .error () := by
  obtain ⟨hpos, hlt⟩ := sch.number_bounds f hf
  have hwrite : ¬ f.isDefault a = true := by rw [hwritten]; exact Bool.false_ne_true
  cases f with
  | int32 number get set => exact absurd trivial hr
  | string number get set =>
    obtain ⟨ptr, htag, hread⟩ := rt.string (get a) rest hpos hlt hsize
    rw [writeField, if_neg hwrite, parseRound_field hf htag (tag_bits number hlt).2.2.1
      (tag_bits number hlt).2.2.2]
    simp only [readField, hread]
    exact if_neg fun hutf => hr ⟨hsize, hutf⟩

/-- A field at its default is not written, and nothing is merged. -/
theorem writeField_of_default (rt : ProtobufRuntime) (msg : M) {f : Field M}
    (h : f.isDefault a = true) : writeField rt a f = [] ∧ f.merge a msg = msg :=
  ⟨if_pos h, if_pos h⟩

/-- **The fields are read one after another**, and each is merged. -/
theorem parse_fields (fs : List (Field M)) (hfs : fs ⊆ sch.fields)
    (hr : ∀ f ∈ fs, f.Holds (Readable rt) a) (msg : M) :
    sch.InternalParse rt ⟨msg, fs.flatMap (writeField rt a) ++ rest, none⟩
      = sch.InternalParse rt ⟨fs.foldl (Field.merge a) msg, rest, none⟩ := by
  induction fs generalizing msg with
  | nil => rfl
  | cons f fs ih =>
    have htail := ih (fun g hg => hfs (List.mem_cons_of_mem f hg))
      (fun g hg => hr g (List.mem_cons_of_mem f hg))
    rw [List.flatMap_cons, List.append_assoc, List.foldl_cons]
    cases hdefault : f.isDefault a with
    | true =>
      obtain ⟨hwrite, hmerge⟩ := writeField_of_default rt msg hdefault
      rw [hwrite, hmerge]
      exact htail msg
    | false =>
      have hmerge : f.merge a msg = f.copy msg a := by
        rw [Field.merge, hdefault]
        rfl
      rw [InternalParse_of_round (parseRound_writeField (hfs (List.mem_cons_self ..)) hdefault
        (hr f (List.mem_cons_self ..))), hmerge]
      exact htail _

/-- **One string that is not UTF-8 spoils the message.** -/
theorem parse_not_utf8 (fs : List (Field M)) (hfs : fs ⊆ sch.fields)
    (hsize : ∀ f ∈ fs, f.Holds (fun str => str.length ≤ maxStringSize) a)
    (hr : ¬ ∀ f ∈ fs, f.Holds (Readable rt) a) (msg : M) :
    sch.InternalParse rt ⟨msg, fs.flatMap (writeField rt a) ++ rest, none⟩ = .error () := by
  induction fs generalizing msg with
  | nil => exact absurd (fun f hf => nomatch hf) hr
  | cons f fs ih =>
    have hf := hfs (List.mem_cons_self ..)
    have htail := ih (fun g hg => hfs (List.mem_cons_of_mem f hg))
      (fun g hg => hsize g (List.mem_cons_of_mem f hg))
    rw [List.flatMap_cons, List.append_assoc]
    by_cases hhead : f.Holds (Readable rt) a
    · have hrest : ¬ ∀ g ∈ fs, g.Holds (Readable rt) a := fun hall =>
        hr (List.forall_mem_cons.mpr ⟨hhead, hall⟩)
      cases hdefault : f.isDefault a with
      | true =>
        rw [(writeField_of_default rt msg hdefault).1]
        exact htail hrest msg
      | false =>
        rw [InternalParse_of_round (parseRound_writeField hf hdefault hhead)]
        exact htail hrest _
    · have hdefault : f.isDefault a = false := by
        -- an empty string is UTF-8
        cases f with
        | int32 number get set => exact absurd trivial hhead
        | string number get set =>
          show (get a).isEmpty = false
          rw [List.isEmpty_eq_false_iff]
          intro hnil
          refine hhead ?_
          show Readable rt (get a)
          rw [hnil]
          exact ⟨Nat.zero_le _, rt.utf8_nil⟩
      exact InternalParse_of_error (parseRound_not_utf8 hf hdefault
        (hsize f (List.mem_cons_self ..)) hhead)

/-- **A field that the program does not know**: it was read, its tag is not
one at which a message ends, and it is not that of a field. -/
structure Unusual (rt : ProtobufRuntime) (sch : Schema M) (u : UInt32 × Bytes) : Prop where
  parsed : ∃ ptr rest, rt.UnknownFieldParse u.1 ptr = some (u.2, rest)
  goes_on : ¬ (u.1 = 0 ∨ u.1 &&& 7 = 4)
  no_field : ∀ f, sch.fieldOf u.1 = some f → u.1.toUInt8 ≠ f.lowByte

theorem parseRound_unknown {u : UInt32 × Bytes} (h : Unusual rt sch u) :
    sch.parseRound rt ⟨msg, rt.WriteUnknownField u ++ rest, none⟩
      = .ok (some (), ⟨sch.setUnknown msg (sch.unknown msg ++ [u]), rest, none⟩) := by
  obtain ⟨ptr₀, rest₀, hparsed⟩ := h.parsed
  obtain ⟨ptr, htag, hread⟩ := rt.unknown hparsed rest
  have hne : rt.WriteUnknownField u ++ rest ≠ [] := by
    intro hnil
    have hlt := rt.ReadTag_lt htag
    rw [show rt.WriteUnknownField (u.1, u.2) ++ rest = [] from hnil] at hlt
    exact Nat.not_lt_zero _ hlt
  have hunusual : sch.handleUnusual rt msg u.1 ptr
      = .ok (some (), ⟨sch.setUnknown msg (sch.unknown msg ++ [u]), rest, none⟩) := by
    rw [handleUnusual, if_neg h.goes_on, hread]
  rw [parseRound, if_neg hne, show rt.ReadTag (rt.WriteUnknownField u ++ rest) = _ from htag]
  dsimp only
  cases hf : sch.fieldOf u.1 with
  | none => exact hunusual
  | some f => exact (if_neg (h.no_field f hf)).trans hunusual

/-- **Unknown fields are kept.** -/
theorem parse_unknown (us : UnknownFieldSet) (hus : ∀ u ∈ us, Unusual rt sch u) (msg : M) :
    sch.InternalParse rt ⟨msg, us.flatMap rt.WriteUnknownField ++ rest, none⟩
      = sch.InternalParse rt ⟨sch.setUnknown msg (sch.unknown msg ++ us), rest, none⟩ := by
  induction us generalizing msg with
  | nil => rw [List.append_nil, sch.set_unknown]; rfl
  | cons u us ih =>
    rw [List.flatMap_cons, List.append_assoc,
      InternalParse_of_round (parseRound_unknown (hus u (List.mem_cons_self ..))),
      ih fun v hv => hus v (List.mem_cons_of_mem u hv), sch.unknown_set, sch.set_set,
      List.append_assoc, List.singleton_append]

/-- The order of the fields does not matter in `MergeFrom`. -/
theorem foldl_merged (msg a : M) :
    sch.merged.foldl (Field.merge a) msg = sch.fields.foldl (Field.merge a) msg := by
  refine sch.perm.foldl_eq' (fun f hf g hg msg => ?_) msg
  have hcomm := sch.copy_comm f (sch.perm.subset hf) g (sch.perm.subset hg) msg a
  unfold Field.merge
  split <;> split <;> first | rfl | exact hcomm

/-- **A message that is read back as it was written.** -/
structure Valid (rt : ProtobufRuntime) (sch : Schema M) (msg : M) : Prop where
  readable : ∀ f ∈ sch.fields, f.Holds (Readable rt) msg
  unusual : ∀ u ∈ sch.unknown msg, Unusual rt sch u

/-- **Parsing what was serialized is `MergeFrom`.** -/
theorem parse_serialize (h : Valid rt sch a) (msg : M) :
    sch.InternalParse rt ⟨msg, sch.InternalSerialize rt a ++ rest, none⟩
      = sch.InternalParse rt ⟨sch.MergeFrom msg a, rest, none⟩ := by
  rw [InternalSerialize, List.append_assoc, parse_fields sch.fields (List.Subset.refl _) h.readable,
    parse_unknown _ h.unusual, MergeFrom, foldl_merged]

/-- A message, merged into an empty one. -/
theorem MergeFrom_init (a : M) : sch.MergeFrom sch.init a = a := by
  rw [MergeFrom, foldl_merged]
  exact sch.complete a

/-- A valid message is read back. -/
theorem Valid.parse (h : Valid rt sch a) :
    sch.ParseFromString rt (sch.InternalSerialize rt a) = some a := by
  rw [ParseFromString, ← List.append_nil (sch.InternalSerialize rt a), parse_serialize h,
    MergeFrom_init, InternalParse_nil]
  rfl

/-- **Messages one after another are merged.** -/
theorem ParseFromString_flatMap {as : List M} (h : ∀ a ∈ as, Valid rt sch a) :
    sch.ParseFromString rt (as.flatMap (sch.InternalSerialize rt))
      = some (as.foldl sch.MergeFrom sch.init) := by
  have hparse : ∀ msg, sch.InternalParse rt ⟨msg, as.flatMap (sch.InternalSerialize rt), none⟩
      = .ok ⟨as.foldl sch.MergeFrom msg, [], none⟩ := by
    induction as with
    | nil => exact fun msg => InternalParse_nil msg none
    | cons a as ih =>
      intro msg
      rw [List.flatMap_cons, parse_serialize (h a (List.mem_cons_self ..)),
        ih fun b hb => h b (List.mem_cons_of_mem a hb)]
      rfl
  rw [ParseFromString, hparse]
  rfl

/-- **A message survives**, if its strings are UTF-8; otherwise it is written
all the same, and not read. -/
theorem ParseFromString_SerializeToString {bs : Bytes} (hbs : sch.SerializeToString rt a = some bs)
    (hsize : ∀ f ∈ sch.fields, f.Holds (fun str => str.length ≤ maxStringSize) a)
    (hus : ∀ u ∈ sch.unknown a, Unusual rt sch u)
    [Decidable (∀ f ∈ sch.fields, f.Holds (Readable rt) a)] :
    sch.ParseFromString rt bs
      = if ∀ f ∈ sch.fields, f.Holds (Readable rt) a then some a else none := by
  rw [SerializeToString] at hbs
  split at hbs
  · cases hbs
  · obtain rfl := Option.some.inj hbs
    split
    case isTrue hr => exact Valid.parse ⟨hr, hus⟩
    case isFalse hr =>
      rw [ParseFromString, InternalSerialize,
        parse_not_utf8 sch.fields (List.Subset.refl _) hsize hr]

/-! ## What is accepted -/

theorem Readable.of_nil {str : Bytes} (h : str = []) : Readable rt str := by
  rw [h]
  exact ⟨Nat.zero_le _, rt.utf8_nil⟩

theorem Valid.init : Valid rt sch sch.init where
  readable f hf := Field.Holds.imp (fun _ => Readable.of_nil) (sch.holds_init f hf)
  unusual u hu := by
    rw [sch.unknown_init] at hu
    cases hu

theorem Valid.handleUnusual {out : Option Unit} (h : Valid rt sch msg)
    (htag : ∀ f, sch.fieldOf tag = some f → tag.toUInt8 ≠ f.lowByte)
    (hs : sch.handleUnusual rt msg tag ptr = .ok (out, st')) : Valid rt sch st'.msg := by
  unfold Schema.handleUnusual at hs
  split at hs
  · cases hs
    exact h
  · rename_i hgoes
    split at hs
    · cases hs
    · rename_i value rest hparse
      cases hs
      refine ⟨sch.holds_setUnknown _ msg _ h.readable, fun u hu => ?_⟩
      rw [sch.unknown_set, List.mem_append, List.mem_singleton] at hu
      rcases hu with hu | rfl
      · exact h.unusual u hu
      · exact ⟨⟨ptr, rest, hparse⟩, hgoes, htag⟩

theorem Valid.readField {f : Field M} {out : Option Unit} (hf : f ∈ sch.fields)
    (h : Valid rt sch msg) (hs : readField rt msg ptr f = .ok (out, st')) :
    Valid rt sch st'.msg := by
  have hset := sch.holds_set (Readable rt) msg h.readable f hf
  have hvalid : ∀ msg', (∀ g ∈ sch.fields, g.Holds (Readable rt) msg') ∧
      sch.unknown msg' = sch.unknown msg → Valid rt sch msg' := by
    rintro msg' ⟨hr, hu⟩
    exact ⟨hr, hu ▸ h.unusual⟩
  cases f with
  | int32 number get set =>
    simp only [Schema.readField] at hs
    split at hs
    · cases hs
    · cases hs
      exact hvalid _ (hset _)
  | string number get set =>
    simp only [Schema.readField] at hs
    split at hs
    · cases hs
    · rename_i hread
      split at hs
      · rename_i hutf
        cases hs
        exact hvalid _ (hset _ ⟨(rt.string_le hread).2, hutf⟩)
      · cases hs

/-- **Every round keeps the message valid.** -/
theorem Valid.round {out : Option Unit} (h : Valid rt sch st.msg)
    (hs : sch.parseRound rt st = .ok (out, st')) : Valid rt sch st'.msg := by
  unfold parseRound at hs
  split at hs
  · cases hs
    exact h
  · split at hs
    · cases hs
    · split at hs
      · rename_i hnone
        exact h.handleUnusual (fun f hf => nomatch hnone.symm.trans hf) hs
      · rename_i f hsome
        have hf : f ∈ sch.fields := List.mem_of_find?_eq_some hsome
        split at hs
        · exact h.readField hf hs
        · rename_i hlow
          refine h.handleUnusual (fun g hg => ?_) hs
          obtain rfl := Option.some.inj (hsome.symm.trans hg)
          exact hlow

/-- **What is parsed is valid.** -/
theorem valid_of_ParseFromString {bs : Bytes} (h : sch.ParseFromString rt bs = some msg) :
    Valid rt sch msg := by
  unfold ParseFromString InternalParse at h
  cases hr : Loop.untilNone (sch.parseRound rt) (fun st => st.ptr.length)
      (fun _ _ _ h => parseRound_lt h) ⟨sch.init, bs, none⟩ with
  | error e =>
    rw [hr] at h
    cases h
  | ok out =>
    rw [hr] at h
    have hvalid : Valid rt sch out.2.msg := by
      refine Loop.untilNone_induction
        (P := fun st _ st' => Valid rt sch st.msg → Valid rt sch st'.msg) ?_ ?_ hr Valid.init
      · exact fun _ _ hs h => h.round hs
      · exact fun _ _ _ _ _ hs ih h => ih (h.round hs)
    simp only [Except.map] at h
    split at h
    · rw [← Option.some.inj h]
      exact hvalid
    · cases h

/-- **What has been parsed can be serialized and parsed again.** -/
theorem ParseFromString_idem {bs : Bytes} (h : sch.ParseFromString rt bs = some msg) :
    sch.ParseFromString rt (sch.InternalSerialize rt msg) = some msg :=
  (valid_of_ParseFromString h).parse

end Schema
end PbRpc
