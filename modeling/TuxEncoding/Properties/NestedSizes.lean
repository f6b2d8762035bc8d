import TuxEncoding.Codec.Registry

/-!
# The sizes of options and sets

`Option<T>` and `HashSet<T>` against the size invariant, over the registered types closed under
both. The measurer of an option does not read the presence byte, and the one of a set takes the
number of its elements for the number of its bytes.

* `NestedType` is the closure, with the traits of every type in it.
* `NestedType.readSize_of_le`: a measurer adds one for every option around the core and measures the
  core from where it stands, on the presence bytes.
* `NestedType.measured_iff`: so the measure is right exactly when all options around the innermost
  set or registered value are present and the core has a fixed width or the `u16` that is read
  happens to be the length of that value. What a set holds makes no difference.
-/

namespace TuxEncoding

open Bytes

/-! ## The closure under `Option` and `HashSet` -/

/-- The registered types, closed under `Option` and `HashSet`. -/
inductive NestedType
  | registered (t : RegisteredType)
  | option (inner : NestedType)
  | hashSet (inner : NestedType)

/-- A type together with the traits of an encoding. -/
structure Encoded where
  Carrier : Type
  decEq : DecidableEq Carrier
  tuxIO : TuxIOType Carrier
  writable : WritableObjectType Carrier
  readable : ReadableObjectType Carrier
  codec : Codec Carrier

namespace Encoded

instance (e : Encoded) : DecidableEq e.Carrier := e.decEq
instance (e : Encoded) : TuxIOType e.Carrier := e.tuxIO
instance (e : Encoded) : WritableObjectType e.Carrier := e.writable
instance (e : Encoded) : ReadableObjectType e.Carrier := e.readable
instance (e : Encoded) : Codec e.Carrier := e.codec

/-- A type that has the traits. -/
def of (α : Type) [DecidableEq α] [TuxIOType α] [WritableObjectType α] [ReadableObjectType α]
    [Codec α] : Encoded where
  Carrier := α
  decEq := inferInstance
  tuxIO := inferInstance
  writable := inferInstance
  readable := inferInstance
  codec := inferInstance

end Encoded

namespace NestedType

/-! ## What is read of an encoding -/

/-- The `u16` that is read where `layers` presence bytes stand in front of a length prefix that
holds `n`. -/
def firstNumber : ℕ → ℕ → ℕ
  | 0, n => n
  | 1, n => 1 + 256 * (n % 256)
  | _ + 2, _ => 1 + 256

/-- The first `u16` behind the presence bytes. -/
lemma sumOfLengths_replicate (k : ℕ) {n : ℕ} (hn : n ≤ maxPrefixedLength) (tail : List UInt8) :
    sumOfLengths 1 (List.replicate k 1 ++ (leBytes 2 n ++ tail)) = firstNumber k n := by
  rcases k with _ | _ | k
  · have htake : (leBytes 2 n ++ tail).take 2 = leBytes 2 n := by
      rw [List.take_append_of_le_length (by rw [length_leBytes]),
        List.take_of_length_le (by rw [length_leBytes])]
    show ofLeBytes ((leBytes 2 n ++ tail).take 2) = n
    rw [htake, ofLeBytes_leBytes_of_lt (by unfold maxPrefixedLength at hn; omega)]
  · show 1 + 256 * ((UInt8.ofNat n).toNat + 256 * 0) = 1 + 256 * (n % 256)
    rw [UInt8.toNat_ofNat']
    rfl
  · rfl

/-- The encoding of an innermost value of this shape: its length prefix, if it has one, is `n`. -/
def Holds : Shape → ℕ → List UInt8 → Prop
  | .fixed width _, _, bs => bs.length = width
  | .counted, n, bs => n ≤ maxPrefixedLength ∧ ∃ tail, bs = leBytes 2 n ++ tail

lemma Holds.prefixes_le {shape : Shape} {n : ℕ} {bs : List UInt8} (h : Holds shape n bs) :
    2 * shape.prefixes ≤ bs.length := by
  cases shape with
  | fixed width pos => exact Nat.zero_le _
  | counted =>
      obtain ⟨-, tail, rfl⟩ := h
      rw [List.length_append, length_leBytes]
      exact Nat.le_add_right 2 _

/-- What is counted for the innermost value is its length exactly when nothing has to be read or the
right number is. -/
lemma Holds.measured_iff {shape : Shape} {n : ℕ} {bs : List UInt8} (h : Holds shape n bs) (k : ℕ) :
    shape.base + sumOfLengths shape.prefixes (List.replicate k 1 ++ bs) = bs.length ↔
      shape.prefixes = 0 ∨ firstNumber k n + 2 = bs.length := by
  cases shape with
  | fixed width pos => exact iff_of_true h.symm (Or.inl rfl)
  | counted =>
      obtain ⟨hn, tail, rfl⟩ := h
      show 2 + sumOfLengths 1 _ = _ ↔ 1 = 0 ∨ _
      rw [sumOfLengths_replicate k hn tail, Nat.add_comm]
      omega

/-! ## The types and their measurers -/

variable [Http]

def encoded : NestedType → Encoded
  | registered t => .of t.Carrier
  | option inner => .of (Option inner.encoded.Carrier)
  | hashSet inner => .of (HashSet inner.encoded.Carrier)

/-- The values of a type of the closure. -/
abbrev Carrier (u : NestedType) : Type := u.encoded.Carrier

/-- How many options stand around the core of the type. -/
def layers : NestedType → ℕ
  | registered _ => 0
  | option inner => inner.layers + 1
  | hashSet _ => 0

/-- How the core is measured: a set by the `u16` in front of it, which counts its elements. -/
def core : NestedType → Shape
  | registered t => Registered.shape t.Carrier
  | option inner => inner.core
  | hashSet _ => .counted

/-- The number in the length prefix of the innermost set or registered value and the size of that
value, if every option around it is present. The options in a set are not around it. -/
def innermost : (u : NestedType) → u.Carrier → Option (ℕ × ℕ)
  | registered t, a => some (size a - (Registered.shape t.Carrier).base, size a)
  | option _, none => none
  | option inner, some a => inner.innermost a
  | hashSet _, s => some (s.elements.length, size s)

/-- Every option around the innermost set or registered value is present, and the core has a fixed
width or the first `u16` of the encoding is the length of that value. -/
def Measured (u : NestedType) (a : u.Carrier) : Prop :=
  ∃ n s, u.innermost a = some (n, s) ∧ (u.core.prefixes = 0 ∨ firstNumber u.layers n + 2 = s)

/-- What a measurer answers where its prefix is there to be read. -/
lemma readSize_of_le (u : NestedType) {bytes : List UInt8} {pos : ℕ}
    (h : 2 * u.core.prefixes ≤ bytes.length - pos) :
    ReadableObjectType.readSize u.Carrier ⟨bytes, pos⟩ =
      .ok (u.layers + (u.core.base + sumOfLengths u.core.prefixes (bytes.drop pos)),
        ⟨bytes, pos + 2 * u.core.prefixes⟩) := by
  induction u with
  | registered t =>
      have hread := (Registered.shape t.Carrier).readSize_of_le h
      rw [← Registered.readSize_eq] at hread
      rw [layers, Nat.zero_add]
      exact hread
  | option inner ih =>
      have hinner := ih h
      show (ReadableObjectType.readSize inner.Carrier >>= fun size => pure (1 + size)) _ = _
      rw [bind_of_ok hinner, layers, Nat.add_comm inner.layers 1, Nat.add_assoc]
      rfl
  | hashSet inner ih =>
      rw [layers, Nat.zero_add]
      exact Shape.readSize_of_le .counted h

/-- No measurer answers less than the options and the fixed part of the core. -/
lemma le_readSize (u : NestedType) {c c' : Cursor} {size : ℕ}
    (h : ReadableObjectType.readSize u.Carrier c = .ok (size, c')) :
    u.layers + u.core.base ≤ size := by
  induction u generalizing size c' with
  | registered t =>
      rw [layers, Nat.zero_add]
      exact Shape.base_le_readSize (Registered.readSize_eq (α := t.Carrier) ▸ h)
  | option inner ih =>
      obtain ⟨innerSize, c₁, hinner, h⟩ := bind_eq_ok h
      cases h
      have hle := ih hinner
      show inner.layers + 1 + inner.core.base ≤ 1 + innerSize
      omega
  | hashSet inner ih =>
      rw [layers, Nat.zero_add]
      exact Shape.base_le_readSize (s := .counted) h

/-- Where one of the options around the core is absent, the value is no longer than they are. -/
lemma size_le_of_innermost_eq_none (u : NestedType) {a : u.Carrier} (h : u.innermost a = none) :
    size a ≤ u.layers := by
  induction u with
  | registered t => cases h
  | option inner ih =>
      cases a with
      | none => exact Nat.le_add_left 1 _
      | some a =>
          have hle := ih h
          show 1 + size a ≤ inner.layers + 1
          omega
  | hashSet inner ih => cases h

/-- A value whose options around the core are all present is encoded to as many presence bytes and
its innermost value. -/
lemma wire_of_innermost (u : NestedType) {a : u.Carrier} {n s : ℕ} (hfit : Codec.Fits a)
    (h : u.innermost a = some (n, s)) :
    ∃ bs, Codec.wire a = List.replicate u.layers 1 ++ bs ∧ bs.length = s ∧ Holds u.core n bs := by
  induction u with
  | registered t =>
      cases h
      refine ⟨Codec.wire a, rfl, Codec.length_wire hfit, ?_⟩
      rw [core]
      cases hshape : Registered.shape t.Carrier with
      | fixed width pos =>
          have hwire := Registered.describes_wire (α := t.Carrier) hfit
          rw [hshape] at hwire
          exact hwire
      | counted =>
          obtain ⟨content, hle, hwire, hsize⟩ := Registered.wire_of_counted hshape hfit
          have hcontent : size a - 2 = content.length := Nat.sub_eq_of_eq_add hsize
          show Holds .counted (size a - 2) _
          rw [hcontent]
          exact ⟨hle, content, hwire⟩
  | option inner ih =>
      cases a with
      | none => cases h
      | some a =>
          obtain ⟨bs, hwire, hlen, hholds⟩ := ih (hfit a rfl) h
          refine ⟨bs, ?_, hlen, hholds⟩
          show 1 :: Codec.wire a = _
          rw [hwire]
          rfl
  | hashSet inner ih =>
      cases h
      exact ⟨Codec.wire a, rfl, Codec.length_wire hfit, hfit.1, _, rfl⟩

/-- A value is measured right exactly when all options around its innermost set or registered value
are present and what is read as its length prefix says how long that value is. -/
theorem measured_iff (u : NestedType) {a : u.Carrier} (hfit : Codec.Fits a) :
    (∀ suf, ∃ pos, ReadableObjectType.readSize u.Carrier ⟨Codec.wire a ++ suf, 0⟩ =
      .ok (size a, ⟨Codec.wire a ++ suf, pos⟩)) ↔ u.Measured a := by
  rcases hinner : u.innermost a with _ | ⟨n, s⟩
  · -- An absent value is shorter than anything the measurer answers.
    refine iff_of_false (fun hmeasure => ?_) ?_
    · obtain ⟨pos, hpos⟩ := hmeasure []
      have hle := u.le_readSize hpos
      have hsize := u.size_le_of_innermost_eq_none hinner
      have hbase := u.core.base_pos
      omega
    · rintro ⟨n, s, hsome, -⟩
      rw [hinner] at hsome
      cases hsome
  · obtain ⟨bs, hwire, hlen, hholds⟩ := u.wire_of_innermost hfit hinner
    have hsize : size a = u.layers + s := by
      rw [← Codec.length_wire hfit, hwire, List.length_append, List.length_replicate, hlen]
    have hmeasured : u.Measured a ↔ u.core.prefixes = 0 ∨ firstNumber u.layers n + 2 = s := by
      constructor
      · rintro ⟨n', s', hsome, h⟩
        rw [hinner] at hsome
        cases hsome
        exact h
      · exact fun h => ⟨n, s, hinner, h⟩
    have hread : ∀ suf, ReadableObjectType.readSize u.Carrier ⟨Codec.wire a ++ suf, 0⟩ =
        .ok (u.layers + (u.core.base + sumOfLengths u.core.prefixes (Codec.wire a)),
          ⟨Codec.wire a ++ suf, 0 + 2 * u.core.prefixes⟩) := fun suf => by
      have hprefixes := hholds.prefixes_le
      have hroom : 2 * u.core.prefixes ≤ (Codec.wire a).length := by
        rw [hwire, List.length_append]
        omega
      have hall : 2 * u.core.prefixes ≤ (Codec.wire a ++ suf).length - 0 := by
        rw [List.length_append]
        omega
      rw [u.readSize_of_le hall, List.drop_zero, sumOfLengths_append suf hroom]
    have hcount := hholds.measured_iff u.layers
    rw [← hwire, hlen] at hcount
    rw [hmeasured, ← hcount]
    constructor
    · intro hmeasure
      obtain ⟨pos, hpos⟩ := hmeasure []
      have heq := congrArg Prod.fst (Except.ok.inj ((hread []).symm.trans hpos))
      simp only [hsize] at heq
      exact Nat.add_left_cancel heq
    · intro heq suf
      exact ⟨_, by rw [hread suf, heq, hsize]⟩

/-- An option keeps the size invariant exactly when it is measured right. -/
lemma sizesAgree_iff (u : NestedType) (hconst : ∀ a : u.Carrier, TuxIOType.constSize a = none)
    (a : u.Carrier) : SizesAgree a ↔ ∀ bs, writeToBytes a = .ok bs → u.Measured a := by
  refine forall_congr' fun bs => forall_congr' fun hbs => ?_
  have hfit : Codec.Fits a := (writeToBytes_isOk_iff a).mp ⟨bs, hbs⟩
  obtain rfl := Except.ok.inj ((writeToBytes_of_fits hfit).symm.trans hbs)
  rw [← u.measured_iff hfit, and_iff_right (Codec.length_wire hfit), and_iff_left]
  intro n hn
  rw [hconst a] at hn
  cases hn

end NestedType

/-- Over the registered types, closed under both, an option or a set keeps the size invariant
exactly when every option around its innermost set or registered value is present and the type of
that value has a fixed width or the `u16` the encoding starts with is the length of that value. -/
theorem nested_sizesAgree_iff [Http] (u : NestedType) :
    (∀ a : (NestedType.option u).Carrier,
      SizesAgree a ↔ ∀ bs, writeToBytes a = .ok bs → (NestedType.option u).Measured a) ∧
    (∀ s : (NestedType.hashSet u).Carrier,
      SizesAgree s ↔ ∀ bs, writeToBytes s = .ok bs → (NestedType.hashSet u).Measured s) :=
  ⟨NestedType.sizesAgree_iff (.option u) fun _ => rfl,
    NestedType.sizesAgree_iff (.hashSet u) fun _ => rfl⟩

/-- An absent option is one byte long and is measured as one byte and the type it does not hold. The
set of the number 1 is six bytes long and is measured as three. -/
theorem not_sizesAgree_absent_or_set :
    (¬ ∀ a : Option UInt8, SizesAgree a) ∧ ¬ ∀ s : HashSet UInt32, SizesAgree s := by
  constructor
  · intro h
    obtain ⟨-, hmeasure, -⟩ := h none [0] rfl
    obtain ⟨pos, hpos⟩ := hmeasure []
    have hsize : 2 = 1 := congrArg Prod.fst (Except.ok.inj hpos)
    omega
  · intro h
    obtain ⟨-, hmeasure, -⟩ := h ⟨[1], by simp⟩ [1, 0, 1, 0, 0, 0] rfl
    obtain ⟨pos, hpos⟩ := hmeasure []
    have hsize : 3 = 6 := congrArg Prod.fst (Except.ok.inj hpos)
    omega

end TuxEncoding
