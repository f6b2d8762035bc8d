import TuxEncoding.Codec.Registry

/-!
# Where measuring leaves the cursor

`ReadableObjectType::read_size` against the sentence its documentation prints in bold: that the
cursor is left at the end of the measured value.

* `lands_iff_of_shape`: a measurer stops behind the length prefix or does not move. So it is behind
  the value only where the value is nothing but an empty prefix.
* `ValueType.keepsContract_iff`: the same behind the type key.
* `Tags.keepsContract`: a block is always measured to its end, since its loop seeks.
-/

namespace TuxEncoding

open Bytes

/-! ## The contract -/

/-- If a value is read at the cursor, measuring there answers how far the reader has moved and moves
as far. -/
def KeepsContract (α : Type) [TuxIOType α] [ReadableObjectType α] (c : Cursor) : Prop :=
  ∀ (a : α) c', readFromReader c = .ok (a, c') →
    ReadableObjectType.readSize α c = .ok (c'.pos - c.pos, c')

section measures

variable {α : Type} [TuxIOType α] [ReadableObjectType α]

/-- A measurer that answers rightly keeps the contract where it stops behind the value. -/
lemma keepsContract_iff (h : MeasuresType α) (c : Cursor) :
    KeepsContract α c ↔ (Decodes α c →
      ∃ n, ReadableObjectType.readSize α c = .ok (n, ⟨c.bytes, c.pos + n⟩)) := by
  constructor
  · rintro hkeeps ⟨a, c', hread⟩
    obtain ⟨n, rfl, -⟩ := h c a c' hread
    have hsize := hkeeps a _ hread
    rw [Nat.add_sub_cancel_left] at hsize
    exact ⟨n, hsize⟩
  · intro hlands a c' hread
    obtain ⟨n, rfl, pos, hmeasure⟩ := h c a c' hread
    obtain ⟨m, hm⟩ := hlands ⟨a, _, hread⟩
    obtain rfl : n = m := by
      have heq := congrArg Prod.fst (Except.ok.inj (hmeasure.symm.trans hm))
      simpa using heq
    rw [hm, Nat.add_sub_cancel_left]

end measures

/-! ## Types with a shape -/

/-- An empty length prefix stands at the cursor. -/
def EmptyPrefixAt (c : Cursor) : Prop := (c.bytes.drop c.pos).take 2 = [0, 0]

lemma readLength_eq_ok_iff {c c' : Cursor} {n : ℕ} : readLength c = .ok (n, c') ↔
    2 ≤ c.bytes.length - c.pos ∧ n = ofLeBytes ((c.bytes.drop c.pos).take 2) ∧
      c' = ⟨c.bytes, c.pos + 2⟩ := by
  by_cases h : 2 ≤ c.bytes.length - c.pos
  · rw [readLength_of_le h, and_iff_right h]
    simp [eq_comm]
  · refine iff_of_false (fun hread => ?_) fun hread => h hread.1
    obtain ⟨a, c₁, hnumber, -⟩ := bind_eq_ok hread
    obtain ⟨bs, c₂, hexact, -⟩ := bind_eq_ok hnumber
    rw [show readExact (Number.width UInt16) c = .error _ from if_neg h] at hexact
    cases hexact

/-- Two bytes stand for zero when both are zero. -/
lemma ofLeBytes_eq_zero_iff {bs : List UInt8} (h : bs.length = 2) :
    ofLeBytes bs = 0 ↔ bs = [0, 0] := by
  constructor
  · intro hzero
    have hbytes := leBytes_ofLeBytes bs
    rw [h, hzero] at hbytes
    exact hbytes.symm
  · rintro rfl
    rfl

/-- A measurer of a shape stops behind what it has measured exactly at an empty length prefix. -/
lemma lands_iff_of_shape (s : Shape) {c c' : Cursor} {n : ℕ} (h : s.readSize c = .ok (n, c')) :
    c'.pos = c.pos + n ↔ s.prefixes = 1 ∧ EmptyPrefixAt c := by
  cases s with
  | fixed width pos =>
      cases h
      refine iff_of_false (fun hpos => ?_) (by simp [Shape.prefixes])
      have hzero : n = 0 := by simpa using hpos
      omega
  | counted =>
      obtain ⟨length, c₁, hread, h⟩ := bind_eq_ok h
      cases h
      obtain ⟨hle, rfl, rfl⟩ := readLength_eq_ok_iff.mp hread
      have hlen : ((c.bytes.drop c.pos).take 2).length = 2 := by
        rw [List.length_take, List.length_drop]
        omega
      rw [EmptyPrefixAt, ← ofLeBytes_eq_zero_iff hlen]
      show c.pos + 2 = _ ↔ 1 = 1 ∧ _
      omega

/-- Stopping behind what was measured, as an equation between positions. -/
lemma exists_lands_iff {measure : Decoder ℕ} {c c' : Cursor} {n : ℕ} (h : measure c = .ok (n, c'))
    (hbytes : c'.bytes = c.bytes) :
    (∃ m, measure c = .ok (m, ⟨c.bytes, c.pos + m⟩)) ↔ c'.pos = c.pos + n := by
  constructor
  · rintro ⟨m, hm⟩
    obtain ⟨rfl, rfl⟩ := Prod.mk.inj (Except.ok.inj (h.symm.trans hm))
    rfl
  · intro hpos
    refine ⟨n, h.trans ?_⟩
    rw [← hbytes, ← hpos]

lemma Registered.keepsContract_iff {α : Type} [TuxIOType α] [WritableObjectType α]
    [ReadableObjectType α] [Codec α] [Registered α] (c : Cursor) :
    KeepsContract α c ↔ (Decodes α c → (Registered.shape α).prefixes = 1 ∧ EmptyPrefixAt c) := by
  rw [TuxEncoding.keepsContract_iff Registered.measures]
  refine forall_congr' fun hdecodes => ?_
  obtain ⟨a, c', hread⟩ := hdecodes
  obtain ⟨n, -, pos, hmeasure⟩ := Registered.measures c a c' hread
  rw [exists_lands_iff hmeasure rfl]
  rw [Registered.readSize_eq] at hmeasure
  rw [Nat.zero_add] at hmeasure ⊢
  exact lands_iff_of_shape (Registered.shape α) hmeasure

/-! ## Values -/

namespace ValueType

/-- The keys of the types that are measured by a length prefix. -/
def CountedKey (key : UInt8) : Prop := key = 11 ∨ key = 12

instance (key : UInt8) : Decidable (CountedKey key) := inferInstanceAs (Decidable (_ ∨ _))

/-- Every arm measures by the shape of its type. -/
lemma readSize_of_mem_arms : ∀ arm ∈ arms, ∃ s : Shape,
    arm.readSize = (do let size ← s.readSize; return size + 1) ∧
      (s.prefixes = 1 ↔ CountedKey arm.key) := by
  have harm : ∀ {α : Type} [TuxIOType α] [TypedObjectType α] [WritableObjectType α]
      [ReadableObjectType α] [Codec α] [Registered α] (mk : α → ValueType),
      ((Registered.shape α).prefixes = 1 ↔ CountedKey (typeKey α)) →
      ∃ s : Shape, (Arm.of mk).readSize = (do let size ← s.readSize; return size + 1) ∧
        (s.prefixes = 1 ↔ CountedKey (Arm.of mk).key) := fun mk h =>
    ⟨Registered.shape _, by rw [← Registered.readSize_eq]; rfl, h⟩
  unfold arms
  simp only [List.forall_mem_cons]
  refine ⟨harm _ ?_, harm _ ?_, harm _ ?_, harm _ ?_, harm _ ?_, harm _ ?_, harm _ ?_, harm _ ?_,
    harm _ ?_, harm _ ?_, harm _ ?_, harm _ ?_, harm _ ?_, harm _ ?_, harm _ ?_, harm _ ?_,
    harm _ ?_, List.forall_mem_nil _⟩
  all_goals decide

/-- At the cursor stands the key of a string or a byte block, with an empty length prefix. -/
def EmptyBlockAt (c : Cursor) : Prop :=
  ∃ key, CountedKey key ∧ (c.bytes.drop c.pos).take 3 = [key, 0, 0]

/-- One byte that is read is the one at the cursor. -/
lemma take_one_of_readByte {c c' : Cursor} {key : UInt8}
    (h : (readFromReader : Decoder UInt8) c = .ok (key, c')) :
    (c.bytes.drop c.pos).take 1 = [key] ∧ c' = ⟨c.bytes, c.pos + 1⟩ := by
  obtain ⟨bs, c₁, hread, h⟩ := bind_eq_ok h
  have hroom : 1 ≤ c.bytes.length - c.pos := by
    by_contra hroom
    rw [show readExact (Number.width UInt8) c = .error _ from if_neg hroom] at hread
    cases hread
  rw [show readExact (Number.width UInt8) c = .ok _ from if_pos hroom] at hread
  cases hread
  cases h
  refine ⟨?_, rfl⟩
  have hlen : ((c.bytes.drop c.pos).take 1).length = 1 := by
    rw [List.length_take, List.length_drop]
    omega
  show (c.bytes.drop c.pos).take 1 = [Number.fromLeBytes ((c.bytes.drop c.pos).take 1)]
  obtain ⟨b, hb⟩ := List.length_eq_one_iff.mp hlen
  rw [hb]
  show [b] = [UInt8.ofNat (b.toNat + 256 * 0)]
  rw [Nat.mul_zero, Nat.add_zero, UInt8.ofNat_toNat]

/-- The key of a value that is measured, the arm it selects, and where the arm measures. -/
lemma exists_arm_of_readSize {c c' : Cursor} {n : ℕ}
    (h : ReadableObjectType.readSize ValueType c = .ok (n, c')) :
    ∃ key arm, (c.bytes.drop c.pos).take 1 = [key] ∧ armOf key = some arm ∧
      arm.readSize ⟨c.bytes, c.pos + 1⟩ = .ok (n, c') := by
  obtain ⟨key, c₁, hkey, h⟩ := bind_eq_ok h
  obtain ⟨htake, rfl⟩ := take_one_of_readByte hkey
  cases harm : armOf key with
  | none =>
      rw [harm] at h
      cases h
  | some arm =>
      rw [harm] at h
      exact ⟨key, arm, htake, harm, h⟩

/-- Key and length prefix, where both are there. -/
lemma emptyBlockAt_iff {c : Cursor} {key : UInt8} (h : (c.bytes.drop c.pos).take 1 = [key]) :
    EmptyBlockAt c ↔ CountedKey key ∧ EmptyPrefixAt ⟨c.bytes, c.pos + 1⟩ := by
  have htake : (c.bytes.drop c.pos).take 3 = key :: (c.bytes.drop (c.pos + 1)).take 2 := by
    rw [← List.take_append_drop 1 (c.bytes.drop c.pos), h, List.drop_drop]
    rfl
  unfold EmptyBlockAt EmptyPrefixAt
  rw [htake]
  constructor
  · rintro ⟨key', hcounted, heq⟩
    obtain ⟨rfl, hprefix⟩ := List.cons.inj heq
    exact ⟨hcounted, hprefix⟩
  · rintro ⟨hcounted, hprefix⟩
    exact ⟨key, hcounted, congrArg (List.cons key) hprefix⟩

lemma keepsContract_iff (c : Cursor) :
    KeepsContract ValueType c ↔ (Decodes ValueType c → EmptyBlockAt c) := by
  rw [TuxEncoding.keepsContract_iff ValueType.measures]
  refine forall_congr' fun hdecodes => ?_
  obtain ⟨a, c', hread⟩ := hdecodes
  obtain ⟨n, -, pos, hmeasure⟩ := ValueType.measures c a c' hread
  rw [exists_lands_iff hmeasure rfl]
  obtain ⟨key, arm, hkey, harm, hmeasure⟩ := exists_arm_of_readSize hmeasure
  obtain ⟨s, hs, hcounted⟩ := readSize_of_mem_arms arm (List.mem_of_find?_eq_some harm)
  have hsame : arm.key = key := by simpa using List.find?_some harm
  rw [hs] at hmeasure
  obtain ⟨m, c₁, hshape, hpure⟩ := bind_eq_ok hmeasure
  obtain ⟨hm, rfl⟩ := Prod.mk.inj (Except.ok.inj hpure)
  have hlands := lands_iff_of_shape s hshape
  rw [emptyBlockAt_iff hkey, ← hsame, ← hcounted, ← hlands]
  show pos = c.pos + (0 + n) ↔ pos = c.pos + 1 + m
  omega

end ValueType

/-! ## Blocks and headers -/

/-- A block is measured to its end. -/
lemma Tags.keepsContract {Key : Type} [DecidableEq Key] [HashOrder Key] [TuxIOType Key]
    [ReadableObjectType Key] (hkey : MeasuresType Key) (c : Cursor) :
    KeepsContract (Tags Key) c := by
  intro tags c' hread
  obtain ⟨n, rfl, hsize⟩ := Tags.readSize_of_read hkey hread
  rw [hsize, Nat.add_sub_cancel_left]

/-- Measuring a header does not move the cursor. -/
lemma ObjectHeader.keepsContract_iff (c : Cursor) :
    KeepsContract ObjectHeader c ↔ ¬ Decodes ObjectHeader c := by
  constructor
  · rintro hkeeps ⟨header, c', hread⟩
    obtain ⟨_, rfl, rfl⟩ := takes_header c header c' hread
    have hpos := congrArg (fun p => p.2.pos) (Except.ok.inj (hkeeps header _ hread))
    have hzero : c.pos = c.pos + 32 := hpos
    omega
  · exact fun hnone header c' hread => absurd ⟨header, c', hread⟩ hnone

/-! ## The types of the contract -/

/-- The types whose measuring the documentation is about. -/
inductive MeasuredType
  | registered (t : RegisteredType)
  | value
  | tags
  | metadata
  | header

namespace MeasuredType

variable [Http] [HashOrder String] [HashOrder MetaKey]

/-- Measuring keeps the contract at the cursor. -/
def KeepsContract : MeasuredType → Cursor → Prop
  | registered t => TuxEncoding.KeepsContract t.Carrier
  | value => TuxEncoding.KeepsContract ValueType
  | tags => TuxEncoding.KeepsContract (Tags String)
  | metadata => TuxEncoding.KeepsContract MetadataMap
  | header => TuxEncoding.KeepsContract ObjectHeader

/-- A value of the type is read at the cursor. -/
def Decodes : MeasuredType → Cursor → Prop
  | registered t => TuxEncoding.Decodes t.Carrier
  | value => TuxEncoding.Decodes ValueType
  | tags => TuxEncoding.Decodes (Tags String)
  | metadata => TuxEncoding.Decodes MetadataMap
  | header => TuxEncoding.Decodes ObjectHeader

end MeasuredType

/-- The registered types that are measured by a length prefix. -/
def RegisteredType.Counted (t : RegisteredType) : Prop :=
  t = .vec ∨ t = .bytes ∨ t = .string ∨ t = .metaKey

/-- Where measuring a type stops behind the value: at an empty string or byte block, and at every
block of entries. -/
def MeasuredType.LandsAt : MeasuredType → Cursor → Prop
  | registered t, c => t.Counted ∧ EmptyPrefixAt c
  | value, c => ValueType.EmptyBlockAt c
  | tags, _ => True
  | metadata, _ => True
  | header, _ => False

lemma RegisteredType.prefixes_eq_one_iff [Http] (t : RegisteredType) :
    (Registered.shape t.Carrier).prefixes = 1 ↔ t.Counted := by
  cases t with
  | vec => exact iff_of_true rfl (by simp [Counted])
  | bytes => exact iff_of_true rfl (by simp [Counted])
  | string => exact iff_of_true rfl (by simp [Counted])
  | metaKey => exact iff_of_true rfl (by simp [Counted])
  | _ => exact iff_of_false Nat.zero_ne_one (by simp [Counted])

/-- Where a value is read, measuring leaves the cursor at its end exactly if the value is an empty
string or byte block, or the type is that of a block of entries. -/
theorem keepsContract_iff_landsAt [Http] [HashOrder String] [HashOrder MetaKey] (m : MeasuredType)
    (c : Cursor) : m.KeepsContract c ↔ (m.Decodes c → m.LandsAt c) := by
  cases m with
  | registered t =>
      have h := Registered.keepsContract_iff (α := t.Carrier) c
      rwa [t.prefixes_eq_one_iff] at h
  | value => exact ValueType.keepsContract_iff c
  | tags => exact iff_of_true (Tags.keepsContract measures_string c) fun _ => trivial
  | metadata => exact iff_of_true (Tags.keepsContract measures_metaKey c) fun _ => trivial
  | header => exact ObjectHeader.keepsContract_iff c

/-- Measuring a number answers its width and stays in front of it. -/
theorem not_keepsContract_byte : ¬ ∀ c, KeepsContract UInt8 c := by
  intro h
  have hsize := h ⟨[7], 0⟩ 7 ⟨[7], 1⟩ rfl
  have hpos := congrArg (fun p => p.2.pos) (Except.ok.inj hsize)
  have hzero : 0 = 1 := hpos
  omega

end TuxEncoding
