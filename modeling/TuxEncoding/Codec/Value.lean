import TuxEncoding.Codec.Types

/-!
# `ValueType`

A value of a map entry: one of the registered types behind its one-byte type key. The source
derives the traits of `ValueType` with the `ValueEnum` macro, which makes one arm for each variant
out of the traits of the variant's inner type. `ValueType.withInner` and `ValueType.arms` are that
expansion; every function is written once over them, and every proof goes through
`ValueType.byVariant`, which has one case for all variants.

* The codec of values: a value within the limits is its type key and the encoding of its inner
  value, and reads back as itself.
-/

namespace TuxEncoding

open Bytes

/-- `ValueType` of `src/value.rs`. -/
inductive ValueType
  | string (v : String)
  | bytes (v : List UInt8)
  | bool (v : Bool)
  | u8 (v : UInt8)
  | u16 (v : UInt16)
  | u32 (v : UInt32)
  | u64 (v : UInt64)
  | i8 (v : Int8)
  | i16 (v : Int16)
  | i32 (v : Int32)
  | i64 (v : Int64)
  | f32 (v : F32)
  | f64 (v : F64)
  | date (v : RawDate)
  | time (v : RawTime)
  | rawDateTime (v : RawDateTime)
  | uuid (v : Uuid)
  deriving DecidableEq

namespace ValueType

/-! ## The expansion of the macro -/

/-- Do the same thing with the inner value of whichever variant this is. -/
def withInner {β : Type} (v : ValueType)
    (f : ∀ {α : Type} [TuxIOType α] [TypedObjectType α] [WritableObjectType α]
      [ReadableObjectType α] [Codec α], α → β) : β :=
  match v with
  | string v => f v
  | bytes v => f v
  | bool v => f v
  | u8 v => f v
  | u16 v => f v
  | u32 v => f v
  | u64 v => f v
  | i8 v => f v
  | i16 v => f v
  | i32 v => f v
  | i64 v => f v
  | f32 v => f v
  | f64 v => f v
  | date v => f v
  | time v => f v
  | rawDateTime v => f v
  | uuid v => f v

/-- The key and then the value: `TypedObjectType::write_with_type`. -/
def writeWithType {W α : Type} [Write W] [TuxIOType α] [TypedObjectType α] [WritableObjectType α]
    (v : α) : Encoder W Unit := do
  emit [typeKey α]
  writeToWriter v

/-- One arm of the two reading functions: the key it matches and what it does then. -/
structure Arm where
  key : UInt8
  readSize : Decoder ℕ
  readFromReader : Decoder ValueType

/-- The arm of a variant whose constructor is `mk`. -/
def Arm.of {α : Type} [TuxIOType α] [TypedObjectType α] [ReadableObjectType α]
    (mk : α → ValueType) : Arm where
  key := typeKey α
  readSize := do
    let size ← ReadableObjectType.readSize α
    return size + 1
  readFromReader := do
    let value ← ReadableObjectType.readFromReader
    return mk value

/-- The arms in the order of the variants. -/
def arms : List Arm :=
  [Arm.of string, Arm.of bytes, Arm.of bool, Arm.of u8, Arm.of u16, Arm.of u32, Arm.of u64,
    Arm.of i8, Arm.of i16, Arm.of i32, Arm.of i64, Arm.of f32, Arm.of f64, Arm.of date,
    Arm.of time, Arm.of rawDateTime, Arm.of uuid]

/-- `match type_key { … }`: the first arm with this key. -/
def armOf (key : UInt8) : Option Arm := arms.find? fun arm => arm.key == key

instance : TuxIOType ValueType where
  constSize v := v.withInner fun v => (TuxIOType.constSize v).map (· + 1)
  size v := v.withInner fun v => size v + 1

instance : WritableObjectType ValueType where
  writeToWriter v := v.withInner fun v => writeWithType v

instance : ReadableObjectType ValueType where
  readSize := do
    let key ← (readFromReader : Decoder UInt8)
    match armOf key with
    | some arm => arm.readSize
    | none => throw (.unknownTypeKey key)
  readFromReader := do
    let key ← (readFromReader : Decoder UInt8)
    match armOf key with
    | some arm => arm.readFromReader
    | none => throw (.unknownTypeKey key)

/-! ## One case for all variants -/

/-- `mk` is the constructor of the variant with inner type `α`. -/
structure IsVariant {α : Type} [TuxIOType α] [TypedObjectType α] [WritableObjectType α]
    [ReadableObjectType α] [Codec α] (mk : α → ValueType) : Prop where
  armOf_typeKey : armOf (typeKey α) = some (Arm.of mk)
  withInner_mk : ∀ {β : Type} (f : ∀ {α : Type} [TuxIOType α] [TypedObjectType α]
    [WritableObjectType α] [ReadableObjectType α] [Codec α], α → β) (a : α),
    (mk a).withInner f = f a

/-- A property of values is proved for a variant whose key selects its own arm. -/
@[elab_as_elim] lemma byVariant {P : ValueType → Prop}
    (variant : ∀ {α : Type} [TuxIOType α] [TypedObjectType α] [WritableObjectType α]
      [ReadableObjectType α] [Codec α] (mk : α → ValueType), IsVariant mk → ∀ a, P (mk a)) :
    ∀ v, P v
  | string v => variant string ⟨rfl, fun _ _ => rfl⟩ v
  | bytes v => variant bytes ⟨rfl, fun _ _ => rfl⟩ v
  | bool v => variant bool ⟨rfl, fun _ _ => rfl⟩ v
  | u8 v => variant u8 ⟨rfl, fun _ _ => rfl⟩ v
  | u16 v => variant u16 ⟨rfl, fun _ _ => rfl⟩ v
  | u32 v => variant u32 ⟨rfl, fun _ _ => rfl⟩ v
  | u64 v => variant u64 ⟨rfl, fun _ _ => rfl⟩ v
  | i8 v => variant i8 ⟨rfl, fun _ _ => rfl⟩ v
  | i16 v => variant i16 ⟨rfl, fun _ _ => rfl⟩ v
  | i32 v => variant i32 ⟨rfl, fun _ _ => rfl⟩ v
  | i64 v => variant i64 ⟨rfl, fun _ _ => rfl⟩ v
  | f32 v => variant f32 ⟨rfl, fun _ _ => rfl⟩ v
  | f64 v => variant f64 ⟨rfl, fun _ _ => rfl⟩ v
  | date v => variant date ⟨rfl, fun _ _ => rfl⟩ v
  | time v => variant time ⟨rfl, fun _ _ => rfl⟩ v
  | rawDateTime v => variant rawDateTime ⟨rfl, fun _ _ => rfl⟩ v
  | uuid v => variant uuid ⟨rfl, fun _ _ => rfl⟩ v

/-! ## The codec of values -/

/-- A value is within the limits when its inner value is. -/
def Fits (v : ValueType) : Prop := v.withInner fun v => Codec.Fits v

/-- The type key of a type and the encoding of one of its values. -/
def wireWithType {α : Type} [TuxIOType α] [TypedObjectType α] [WritableObjectType α]
    [ReadableObjectType α] [Codec α] (v : α) : List UInt8 := typeKey α :: Codec.wire v

/-- The type key and the encoding of the inner value. -/
def wire (v : ValueType) : List UInt8 := v.withInner fun v => wireWithType v

lemma write_of_fits {W : Type} [Write W] [LawfulWrite W] {v : ValueType} (hfit : v.Fits) :
    (writeToWriter v : Encoder W Unit) = emit v.wire := by
  induction v using byVariant with
  | @variant α _ _ _ _ _ mk hmk a =>
      rw [Fits, hmk.withInner_mk] at hfit
      show (mk a).withInner (fun v => writeWithType v) = _
      rw [wire, hmk.withInner_mk, hmk.withInner_mk, writeWithType, Codec.write_of_fits hfit,
        emit_bind_emit]
      rfl

lemma write_of_not_fits {W : Type} [Write W] [LawfulWrite W] {v : ValueType} (hfit : ¬ v.Fits) :
    Fails (writeToWriter v : Encoder W Unit) := by
  induction v using byVariant with
  | @variant α _ _ _ _ _ mk hmk a =>
      rw [Fits, hmk.withInner_mk] at hfit
      show Fails ((mk a).withInner fun v => writeWithType v)
      rw [hmk.withInner_mk]
      exact Fails.bind_right _ fun _ => Codec.write_of_not_fits hfit

lemma length_wire {v : ValueType} (hfit : v.Fits) : v.wire.length = size v := by
  induction v using byVariant with
  | @variant α _ _ _ _ _ mk hmk a =>
      rw [Fits, hmk.withInner_mk] at hfit
      show _ = (mk a).withInner fun v => size v + 1
      rw [wire, hmk.withInner_mk, hmk.withInner_mk, wireWithType, List.length_cons,
        Codec.length_wire hfit]

lemma readsAs_wire {v : ValueType} (hfit : v.Fits) :
    ReadsAs (readFromReader : Decoder ValueType) v.wire v := by
  induction v using byVariant with
  | @variant α _ _ _ _ _ mk hmk a =>
      rw [Fits, hmk.withInner_mk] at hfit
      have hkey : ReadsAs readFromReader [typeKey α] (typeKey α) := by
        have hwire : Codec.wire (typeKey α) = [typeKey α] := by
          show leBytes 1 (typeKey α).toNat = _
          simp [leBytes]
        have := readsAs_number (typeKey α)
        rwa [hwire] at this
      rw [wire, hmk.withInner_mk]
      refine ReadsAs.bind hkey ?_
      rw [hmk.armOf_typeKey]
      exact (Codec.readsAs_wire hfit).map mk

instance : Codec ValueType where
  Fits := Fits
  wire := wire
  write_of_fits := write_of_fits
  write_of_not_fits := write_of_not_fits
  length_wire := length_wire
  readsAs_wire := readsAs_wire

end ValueType

end TuxEncoding
