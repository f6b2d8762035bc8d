import TuxEncoding.Codec.Registry

/-!
# Storing registered values dynamically

`TypedObjectType::write_with_type` against `ValueType::read_from_reader`: whether a value of a
registered type, written behind its key, comes back as a `ValueType` of the same bytes.

* `storedDynamically_of_value`: it does where a value of the enum has the same encoding.
* `RawTimeZone.not_storedDynamically`: it does not for the key 15, which the table lists and the
  enum does not.
* `ByteBlock.decodedAs`: the three types that share the key 11 decode each other's encodings.
-/

namespace TuxEncoding

open Bytes ValueType

/-! ## Values behind their keys -/

section stored

variable {α : Type} [TuxIOType α] [TypedObjectType α] [WritableObjectType α] [ReadableObjectType α]

/-- If the value can be written behind its key, the bytes are decoded as a `ValueType`, wherever
they stand and whatever follows them, and that value is encoded to the same bytes. -/
def StoredDynamically (v : α) : Prop :=
  ∀ bs, (writeWithType v : Encoder Buffer Unit) ⟨[]⟩ = .ok ((), ⟨bs⟩) →
    ∃ value : ValueType, ReadsAs readFromReader bs value ∧ writeToBytes value = .ok bs

variable [Codec α]

/-- `write_with_type` succeeds on the values within the limits and writes the key in front. -/
lemma writeWithType_eq_ok_iff (v : α) (bs : List UInt8) :
    (writeWithType v : Encoder Buffer Unit) ⟨[]⟩ = .ok ((), ⟨bs⟩) ↔
      Codec.Fits v ∧ bs = wireWithType v := by
  by_cases hfit : Codec.Fits v
  · have hwrite : (writeWithType v : Encoder Buffer Unit) ⟨[]⟩ = .ok ((), ⟨wireWithType v⟩) := by
      rw [writeWithType, Codec.write_of_fits hfit, emit_bind_emit]
      rfl
    rw [hwrite, and_iff_right hfit]
    simp [eq_comm]
  · obtain ⟨e, he⟩ : ∃ e, (writeWithType v : Encoder Buffer Unit) ⟨[]⟩ = .error e :=
      Fails.bind_right _ (fun _ => Codec.write_of_not_fits hfit) _
    simp [he, hfit]

/-- A value of the enum with the same encoding is what comes back. -/
lemma storedDynamically_of_value {v : α} (value : ValueType)
    (hfits : Codec.Fits v → value.Fits) (hwire : value.wire = wireWithType v) :
    StoredDynamically v := by
  intro bs hbs
  obtain ⟨hfit, rfl⟩ := (writeWithType_eq_ok_iff v bs).mp hbs
  rw [← hwire]
  exact ⟨value, ValueType.readsAs_wire (hfits hfit), writeToBytes_of_fits (hfits hfit)⟩

end stored

/-- No arm of the enum has the key of a timezone. -/
lemma RawTimeZone.not_storedDynamically (z : RawTimeZone) : ¬ StoredDynamically z := by
  intro h
  obtain ⟨value, hread, -⟩ := h _ ((writeWithType_eq_ok_iff z _).mpr ⟨trivial, rfl⟩)
  have hkey := readsAs_byte 15 [] (Codec.wire z)
  have hvalue := hread [] []
  rw [List.append_nil] at hvalue
  obtain ⟨key, c, hread, harm⟩ := bind_eq_ok hvalue
  obtain rfl : key = 15 := congrArg Prod.fst (Except.ok.inj (hread.symm.trans hkey))
  cases harm

/-! ## Byte blocks -/

/-- The types that share the key 11. -/
inductive ByteBlock
  | array (n : ℕ)
  | vec
  | bytes

namespace ByteBlock

variable [Http]

def type : ByteBlock → RegisteredType
  | array n => .byteArray n
  | vec => .vec
  | bytes => .bytes

/-- The bytes of a byte block. -/
def content : (b : ByteBlock) → b.type.Carrier → List UInt8
  | array n, v => FixedBytes.bytes (n := n) v
  | vec, v => v
  | bytes, v => CrateBytes.bytes v

/-- An array is as long as its type says. -/
def Accepts : ByteBlock → List UInt8 → Prop
  | array n, bs => bs.length = n
  | vec, _ => True
  | bytes, _ => True

lemma fits_iff (b : ByteBlock) (v : b.type.Carrier) :
    Codec.Fits v ↔ (b.content v).length ≤ maxPrefixedLength := by
  cases b with
  | array n =>
      show n ≤ maxPrefixedLength ↔ (FixedBytes.bytes v).length ≤ maxPrefixedLength
      rw [FixedBytes.length_bytes v]
  | vec => exact fits_bytes v
  | bytes => exact Iff.rfl

/-- All byte blocks have one wire form. -/
lemma wire_eq (b : ByteBlock) (v : b.type.Carrier) :
    Codec.wire v = leBytes 2 (b.content v).length ++ b.content v := by
  cases b with
  | array n => rfl
  | vec => exact wire_bytes v
  | bytes => rfl

lemma exists_content_eq (b : ByteBlock) {bs : List UInt8} (h : b.Accepts bs) :
    ∃ v : b.type.Carrier, b.content v = bs := by
  cases b with
  | array n => exact ⟨FixedBytes.mk bs h, rfl⟩
  | vec => exact ⟨bs, rfl⟩
  | bytes => exact ⟨CrateBytes.mk bs, rfl⟩

/-- If the block can be encoded and its bytes are as many as the other type has, the other type
decodes the encoding to the same bytes. -/
def DecodedAs (x y : ByteBlock) (v : x.type.Carrier) : Prop :=
  ∀ bs, writeToBytes v = .ok bs → y.Accepts (x.content v) →
    ∃ w : y.type.Carrier, ReadsAs readFromReader bs w ∧ y.content w = x.content v

lemma decodedAs (x y : ByteBlock) (v : x.type.Carrier) : x.DecodedAs y v := by
  intro bs hbs haccepts
  have hfit : Codec.Fits v := (writeToBytes_isOk_iff v).mp ⟨bs, hbs⟩
  obtain rfl := Except.ok.inj ((writeToBytes_of_fits hfit).symm.trans hbs)
  obtain ⟨w, hw⟩ := y.exists_content_eq haccepts
  have hwire : Codec.wire v = Codec.wire w := by rw [wire_eq, wire_eq, hw]
  have hfit' : Codec.Fits w := by
    rw [fits_iff, hw]
    exact (x.fits_iff v).mp hfit
  rw [hwire]
  exact ⟨w, Codec.readsAs_wire hfit', hw⟩

end ByteBlock

/-! ## The registered types -/

section registered

variable [Http]

/-- A registered type whose key is that of an arm can be stored dynamically, where header names are
text. -/
lemma RegisteredType.storedDynamically (hname : ∀ name, ∃ s, Http.asStr name = asBytes s)
    {t : RegisteredType} (ht : t ≠ .rawTimeZone) (v : t.Carrier) : StoredDynamically v := by
  cases t with
  | u8 => exact storedDynamically_of_value (α := UInt8) (.u8 v) id rfl
  | u16 => exact storedDynamically_of_value (α := UInt16) (.u16 v) id rfl
  | u32 => exact storedDynamically_of_value (α := UInt32) (.u32 v) id rfl
  | u64 => exact storedDynamically_of_value (α := UInt64) (.u64 v) id rfl
  | i8 => exact storedDynamically_of_value (α := Int8) (.i8 v) id rfl
  | i16 => exact storedDynamically_of_value (α := Int16) (.i16 v) id rfl
  | i32 => exact storedDynamically_of_value (α := Int32) (.i32 v) id rfl
  | i64 => exact storedDynamically_of_value (α := Int64) (.i64 v) id rfl
  | f32 => exact storedDynamically_of_value (α := F32) (.f32 v) id rfl
  | f64 => exact storedDynamically_of_value (α := F64) (.f64 v) id rfl
  | bool => exact storedDynamically_of_value (α := Bool) (.bool v) id rfl
  | byteArray n =>
      refine storedDynamically_of_value (α := FixedBytes n) (.bytes (FixedBytes.bytes v)) ?_ ?_
      · intro hfit
        have hlen : n ≤ maxPrefixedLength := hfit
        rw [← FixedBytes.length_bytes v] at hlen
        exact (fits_bytes _).mpr hlen
      · exact congrArg (List.cons 11) (wire_bytes _)
  | bytes =>
      refine storedDynamically_of_value (α := CrateBytes) (.bytes (CrateBytes.bytes v)) ?_ ?_
      · exact (fits_bytes _).mpr
      · exact congrArg (List.cons 11) (wire_bytes _)
  | metaKey =>
      obtain ⟨s, hs⟩ := hname (MetaKey.name v)
      refine storedDynamically_of_value (α := MetaKey) (.string s) ?_ ?_
      · intro hfit
        have hlen : (Http.asStr (MetaKey.name v)).length ≤ maxPrefixedLength := hfit
        rwa [hs] at hlen
      · show 12 :: (leBytes 2 (asBytes s).length ++ asBytes s) = 12 :: (leBytes 2 _ ++ _)
        rw [← hs]
  | vec => exact storedDynamically_of_value (α := List UInt8) (.bytes v) id rfl
  | string => exact storedDynamically_of_value (α := String) (.string v) id rfl
  | rawDate => exact storedDynamically_of_value (α := RawDate) (.date v) id rfl
  | rawTime => exact storedDynamically_of_value (α := RawTime) (.time v) id rfl
  | rawDateTime => exact storedDynamically_of_value (α := RawDateTime) (.rawDateTime v) id rfl
  | uuid => exact storedDynamically_of_value (α := Uuid) (.uuid v) id rfl
  | rawTimeZone => exact absurd rfl ht

/-- Every registered type but `RawTimeZone` can be stored dynamically, and the types that share the
key 11 decode each other's encodings, where header names are text. -/
theorem dynamic_storage (hname : ∀ name, ∃ s, Http.asStr name = asBytes s) :
    (∀ (t : RegisteredType) (v : t.Carrier), StoredDynamically v ↔ t ≠ .rawTimeZone) ∧
    ∀ (x y : ByteBlock) (v : x.type.Carrier), x.DecodedAs y v := by
  refine ⟨fun t v => ⟨?_, fun ht => RegisteredType.storedDynamically hname ht v⟩,
    ByteBlock.decodedAs⟩
  rintro h rfl
  exact RawTimeZone.not_storedDynamically v h

end registered

/-! ## Header names are text -/

/-- The bytes of a header name are characters of one byte. -/
lemma utf8EncodeChar_of_isTokenByte (b : UInt8) (h : isTokenByte b = true) :
    String.utf8EncodeChar (Char.ofNat b.toNat) = [b] := by
  have hall : ∀ n : Fin 256, isTokenByte (UInt8.ofNat n) = true →
      String.utf8EncodeChar (Char.ofNat (UInt8.ofNat n).toNat) = [UInt8.ofNat n] := by
    decide +kernel
  have hb := hall ⟨b.toNat, b.toNat_lt⟩
  rw [UInt8.ofNat_toNat] at hb
  exact hb h

lemma Token.exists_text (name : Token) : ∃ s, name.bytes = asBytes s := by
  refine ⟨String.ofList (name.bytes.map fun b => Char.ofNat b.toNat), ?_⟩
  have hbytes : ∀ bs : List UInt8, (∀ b ∈ bs, isTokenByte b = true) →
      (bs.map fun b => Char.ofNat b.toNat).flatMap String.utf8EncodeChar = bs := by
    intro bs hbs
    induction bs with
    | nil => rfl
    | cons b bs ih =>
        rw [List.map_cons, List.flatMap_cons,
          utf8EncodeChar_of_isTokenByte b (hbs b List.mem_cons_self),
          ih fun c hc => hbs c (List.mem_cons_of_mem b hc)]
        rfl
  have htoken := List.all_eq_true.mp name.isToken.2.2
  unfold asBytes
  rw [String.toByteArray_ofList, List.utf8Encode, hbytes name.bytes htoken]
  simp

/-- The key of the uncompressed length comes back, a timezone does not. -/
theorem dynamic_storage_uncompressedLength :
    letI := tokenHttp
    StoredDynamically (⟨Http.uncompressedLength⟩ : MetaKey) ∧
      ¬ StoredDynamically (⟨3600⟩ : RawTimeZone) := by
  let http : Http := tokenHttp
  have hstored := (dynamic_storage Token.exists_text).1
  exact ⟨(hstored .metaKey _).mpr (by simp), fun h => (hstored .rawTimeZone _).mp h rfl⟩

/-- A timezone is written behind the key 15, and no arm of the enum reads it. -/
theorem not_storedDynamically_timezone : ¬ ∀ z : RawTimeZone, StoredDynamically z :=
  fun h => RawTimeZone.not_storedDynamically ⟨3600⟩ (h ⟨3600⟩)

end TuxEncoding
