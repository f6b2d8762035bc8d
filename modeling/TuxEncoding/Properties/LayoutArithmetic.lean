import TuxEncoding.Lib.Wrapping
import TuxEncoding.Properties.Layouts

/-!
# The arithmetic of the layouts

`src/fs/layout.rs` adds and rounds up in `usize` before it compares with the limits, and its
operands are public fields. Here its three functions are run in arithmetic that wraps.

* `wrappingAlignUp`, `wrappingRepartition`, `wrappingCompute`: the functions, operation by
  operation.
* `wrappingCompute_exactly_iff` and its like: where nothing wraps, the result is the exact one.
* `layout_arithmetic_iff`: which operands keep every operation in range.
* `layout_arithmetic_wraps`: with a large reserve a layout comes out whose sections overlap.
-/

namespace TuxEncoding

open Wrapping

/-! ## The operations -/

/-- `a + b` in `usize`, modulo `2^64`. -/
def usizeAdd (a b : ℕ) : Wrapping ℕ := ofExact (2 ^ 64) (a + b)

/-- `a * b` in `usize`, modulo `2^64`. -/
def usizeMul (a b : ℕ) : Wrapping ℕ := ofExact (2 ^ 64) (a * b)

/-- `usize::div_ceil`, which never leaves the range of its operands. -/
def divCeil (a b : ℕ) : ℕ := if a % b > 0 then a / b + 1 else a / b

/-- `align_up` -/
def wrappingAlignUp (value alignment : ℕ) : Wrapping ℕ :=
  let alignment := max alignment 1
  usizeMul (divCeil value alignment) alignment

namespace LayoutOptions

/-- `LayoutOptions::repartition` -/
def wrappingRepartition (contentStart : UInt32) (metadataSize tagsSize alignment : ℕ) :
    Wrapping (Option SectionLayout) := do
  let alignment := max alignment 1
  let packed ← usizeAdd headerSize metadataSize
  let sections ← usizeAdd packed tagsSize
  if sections > contentStart.toNat then return none
  let packed ← usizeAdd headerSize metadataSize
  let aligned ← wrappingAlignUp packed alignment
  let alignedEnd ← usizeAdd aligned tagsSize
  let tagsStart ←
    if alignedEnd ≤ contentStart.toNat then pure aligned else usizeAdd headerSize metadataSize
  if tagsStart > 65535 then return none
  return some ⟨UInt16.ofNat tagsStart, contentStart⟩

/-- `LayoutOptions::compute`, when there is no prefix that can be reused. -/
def wrappingComputeFresh (o : LayoutOptions) (metadataSize tagsSize : ℕ) :
    Wrapping (Except ObjectFileError SectionLayout) := do
  let alignment := max o.alignment 1
  let packed ← usizeAdd headerSize metadataSize
  let reserved ← usizeAdd packed o.metadataReserve
  let tagsStart ← wrappingAlignUp reserved alignment
  if tagsStart > 65535 then return .error (.sectionOffsetTooLarge tagsStart 65535)
  let tagsEnd ← usizeAdd tagsStart tagsSize
  let reserved ← usizeAdd tagsEnd o.tagReserve
  let behindTags ← wrappingAlignUp reserved alignment
  let floor ← wrappingAlignUp o.minContentStart.toNat alignment
  let contentStart := max behindTags floor
  if contentStart > 4294967295 then
    return .error (.sectionOffsetTooLarge contentStart 4294967295)
  return .ok ⟨UInt16.ofNat tagsStart, UInt32.ofNat contentStart⟩

/-- `LayoutOptions::compute` -/
def wrappingCompute (o : LayoutOptions) (metadataSize tagsSize : ℕ) :
    Wrapping (Except ObjectFileError SectionLayout) := do
  let reused ←
    if o.minContentStart.toNat > 0 then
      wrappingRepartition o.minContentStart metadataSize tagsSize (max o.alignment 1)
    else pure none
  match reused with
  | some layout => return .ok layout
  | none => o.wrappingComputeFresh metadataSize tagsSize

end LayoutOptions

/-! ## Rounding -/

/-- Rounds `n` down to a multiple of `alignment`. -/
def alignDown (n alignment : ℕ) : ℕ := n / max alignment 1 * max alignment 1

/-- A value rounds up to at most `n` when it is at most `n` rounded down. -/
lemma alignUp_le_iff {value alignment n : ℕ} :
    alignUp value alignment ≤ n ↔ value ≤ alignDown n alignment := by
  constructor
  · intro h
    obtain ⟨k, hk⟩ := dvd_alignUp value alignment
    have hle : k ≤ n / max alignment 1 := by
      rw [Nat.le_div_iff_mul_le (by omega), Nat.mul_comm, ← hk]
      exact h
    calc value ≤ alignUp value alignment := le_alignUp value alignment
      _ = k * max alignment 1 := by rw [hk, Nat.mul_comm]
      _ ≤ alignDown n alignment := Nat.mul_le_mul_right _ hle
  · intro h
    have hdown : alignDown n alignment ≤ n := Nat.div_mul_le_self n _
    have hup : alignUp value alignment ≤ alignDown n alignment :=
      alignUp_le h (Nat.dvd_mul_left _ _)
    exact Nat.le_trans hup hdown

/-- The quotient that is rounded up is the one that `align_up` multiplies. -/
lemma divCeil_mul (value alignment : ℕ) :
    divCeil value (max alignment 1) * max alignment 1 = alignUp value alignment := by
  set a := max alignment 1 with ha
  have hpos : 0 < a := by omega
  have hdiv := Nat.div_add_mod value a
  have hmod := Nat.mod_lt value hpos
  show divCeil value a * a = (value + a - 1) / a * a
  congr 1
  unfold divCeil
  split_ifs with hrest
  · symm
    apply Nat.div_eq_of_lt_le
    · rw [Nat.add_mul, Nat.one_mul, Nat.mul_comm]
      omega
    · rw [Nat.add_mul, Nat.add_mul, Nat.one_mul, Nat.mul_comm]
      omega
  · symm
    apply Nat.div_eq_of_lt_le
    · rw [Nat.mul_comm]
      omega
    · rw [Nat.add_mul, Nat.one_mul, Nat.mul_comm]
      omega

/-- `align_up` wraps only where its result is out of range. -/
lemma wrappingAlignUp_eq (value alignment : ℕ) :
    wrappingAlignUp value alignment = ofExact (2 ^ 64) (alignUp value alignment) := by
  rw [← divCeil_mul]
  rfl

/-! ## Which operands are in range -/

/-- Nothing wraps in `repartition`: the sizes add up, and where the sections may fit, so do the
alignment and the size of the tags. -/
def RepartitionInRange (contentStart : UInt32) (m t alignment : ℕ) : Prop :=
  headerSize + m + t < 2 ^ 64 ∧
    (headerSize + m + t ≤ contentStart.toNat → max alignment 1 + t < 2 ^ 64)

/-- The sections fit in front of the content, aligned or packed, with the tags below `u16::MAX`. -/
def FitsPrefix (contentStart : UInt32) (m t alignment : ℕ) : Prop :=
  headerSize + m + t ≤ contentStart.toNat ∧
    (headerSize + m ≤ alignDown (contentStart.toNat - t) alignment →
      headerSize + m ≤ alignDown 65535 alignment) ∧
    (alignDown (contentStart.toNat - t) alignment < headerSize + m → headerSize + m ≤ 65535)

namespace LayoutOptions

/-- Nothing wraps in a fresh layout: the metadata and its reserve round up to a `usize`, and where
they do so below `u16::MAX`, the tags and their reserve still fit behind them. -/
def FreshInRange (o : LayoutOptions) (m t : ℕ) : Prop :=
  headerSize + m + o.metadataReserve ≤ alignDown (2 ^ 64 - 1) o.alignment ∧
    (headerSize + m + o.metadataReserve ≤ alignDown 65535 o.alignment →
      t + o.tagReserve ≤ alignDown (2 ^ 64 - 1) o.alignment ∧
      headerSize + m + o.metadataReserve ≤
        alignDown (alignDown (2 ^ 64 - 1) o.alignment - (t + o.tagReserve)) o.alignment)

/-- Nothing wraps in `compute`: not where a prefix is named and tried, and not in the fresh layout
where none is reused. -/
def InRange (o : LayoutOptions) (m t : ℕ) : Prop :=
  (0 < o.minContentStart.toNat → RepartitionInRange o.minContentStart m t o.alignment) ∧
    (¬ (0 < o.minContentStart.toNat ∧ FitsPrefix o.minContentStart m t o.alignment) →
      o.FreshInRange m t)

variable {o : LayoutOptions} {contentStart : UInt32} {m t alignment : ℕ}

/-- What is small rounds up to the alignment or to something small. -/
lemma alignUp_add_lt {value : ℕ} (hvalue : value + t < 2 ^ 32) (h : max alignment 1 + t < 2 ^ 64) :
    alignUp value alignment + t < 2 ^ 64 := by
  by_cases hlarge : value ≤ max alignment 1
  · have hup : alignUp value alignment ≤ max alignment 1 := alignUp_le hlarge (Nat.dvd_refl _)
    omega
  · have hup : alignUp value alignment ≤ value + max alignment 1 - 1 := Nat.div_mul_le_self _ _
    omega

/-- In front of the content of a file, rounding up ends behind the alignment at most. -/
lemma alignUp_add_lt_iff (hroom : headerSize + m + t ≤ contentStart.toNat) :
    alignUp (headerSize + m) alignment + t < 2 ^ 64 ↔ max alignment 1 + t < 2 ^ 64 := by
  have hlt := contentStart.toNat_lt
  have hle : max alignment 1 ≤ alignUp (headerSize + m) alignment := by
    apply Nat.le_of_dvd ?_ (dvd_alignUp _ _)
    exact Nat.lt_of_lt_of_le (by unfold headerSize; omega) (le_alignUp _ _)
  constructor
  · intro h
    omega
  · exact fun h => alignUp_add_lt (by omega) h

/-- `repartition` is exact where it is in range, and wraps where it is not. -/
lemma wrappingRepartition_exactly_iff {r : Option SectionLayout} :
    (wrappingRepartition contentStart m t alignment).Exactly r ↔
      RepartitionInRange contentStart m t alignment ∧
        repartition contentStart m t alignment = r := by
  unfold wrappingRepartition repartition RepartitionInRange
  simp only [usizeAdd, wrappingAlignUp_eq, exactly_ofExact_bind_iff, alignUp_max_one]
  by_cases hroom : headerSize + m + t > contentStart.toNat
  · simp only [if_pos hroom, exactly_pure_iff]
    constructor
    · rintro ⟨_, hsum, hr⟩
      exact ⟨⟨hsum, fun hle => absurd hle (Nat.not_le.mpr hroom)⟩, hr⟩
    · rintro ⟨⟨hsum, _⟩, hr⟩
      exact ⟨by omega, hsum, hr⟩
  · have hlt := contentStart.toNat_lt
    have hsum : headerSize + m + t < 2 ^ 64 := by omega
    simp only [if_neg hroom, exactly_ofExact_bind_iff, hsum, Nat.not_lt.mp hroom, true_and,
      forall_const, ← alignUp_add_lt_iff (Nat.not_lt.mp hroom)]
    by_cases hfits : alignUp (headerSize + m) alignment + t ≤ contentStart.toNat
    · simp only [if_pos hfits, pure_bind, exactly_ite_pure_iff]
      constructor
      · rintro ⟨_, _, _, hend, hr⟩
        exact ⟨hend, hr⟩
      · rintro ⟨hend, hr⟩
        exact ⟨by omega, by omega, by omega, hend, hr⟩
    · simp only [if_neg hfits, exactly_ofExact_bind_iff, exactly_ite_pure_iff]
      constructor
      · rintro ⟨_, _, _, hend, _, hr⟩
        exact ⟨hend, hr⟩
      · rintro ⟨hend, hr⟩
        exact ⟨by omega, by omega, by omega, hend, by omega, hr⟩

/-- Two sizes behind an aligned offset round up to at most `n`, in terms of what is aligned. -/
lemma alignUp_alignUp_add_le_iff {value k n : ℕ} :
    alignUp (alignUp value alignment + k) alignment ≤ n ↔
      k ≤ alignDown n alignment ∧ value ≤ alignDown (alignDown n alignment - k) alignment := by
  rw [alignUp_le_iff, ← alignUp_le_iff (n := alignDown n alignment - k)]
  omega

/-- The range of a fresh layout, in terms of the offsets it computes. -/
lemma freshInRange_iff {tagsStart : ℕ}
    (htags : alignUp (headerSize + m + o.metadataReserve) o.alignment = tagsStart) :
    o.FreshInRange m t ↔ tagsStart < 2 ^ 64 ∧
      (tagsStart ≤ 65535 → alignUp (tagsStart + t + o.tagReserve) o.alignment < 2 ^ 64) := by
  subst htags
  unfold FreshInRange
  rw [← alignUp_le_iff, ← alignUp_le_iff (n := 65535), ← alignUp_alignUp_add_le_iff,
    Nat.add_assoc (alignUp _ _) t]
  omega

/-- A fresh layout is exact where it is in range, and wraps where it is not. -/
lemma wrappingComputeFresh_exactly_iff {r : Except ObjectFileError SectionLayout} :
    (o.wrappingComputeFresh m t).Exactly r ↔ o.FreshInRange m t ∧ o.computeFresh m t = r := by
  rw [freshInRange_iff rfl]
  unfold wrappingComputeFresh computeFresh
  simp only [usizeAdd, wrappingAlignUp_eq, exactly_ofExact_bind_iff, alignUp_max_one]
  have hmeta := le_alignUp (headerSize + m + o.metadataReserve) o.alignment
  have hdvd := Nat.le_of_dvd (Nat.lt_of_lt_of_le (by unfold headerSize; omega) hmeta)
    (dvd_alignUp (headerSize + m + o.metadataReserve) o.alignment)
  set tagsStart := alignUp (headerSize + m + o.metadataReserve) o.alignment
  have htag := le_alignUp (tagsStart + t + o.tagReserve) o.alignment
  by_cases hlimit : tagsStart > 65535
  · simp only [if_pos hlimit, exactly_pure_iff]
    constructor
    · rintro ⟨_, _, hlt, hr⟩
      exact ⟨⟨hlt, fun hle => absurd hle (Nat.not_le.mpr hlimit)⟩, hr⟩
    · rintro ⟨⟨hlt, _⟩, hr⟩
      exact ⟨by omega, by omega, hlt, hr⟩
  · simp only [if_neg hlimit, exactly_ofExact_bind_iff, exactly_ite_pure_iff]
    constructor
    · rintro ⟨_, _, hlt, _, _, hend, _, hr⟩
      exact ⟨⟨hlt, fun _ => hend⟩, hr⟩
    · rintro ⟨⟨hlt, hend⟩, hr⟩
      have hcontent := hend (Nat.not_lt.mp hlimit)
      have hfloor : alignUp o.minContentStart.toNat o.alignment < 2 ^ 64 :=
        alignUp_add_lt (t := 0) o.minContentStart.toNat_lt (by omega)
      exact ⟨by omega, by omega, hlt, by omega, by omega, hcontent, hfloor, hr⟩

/-- The sections that fit are the ones that `repartition` accepts. -/
lemma fitsPrefix_iff : FitsPrefix contentStart m t alignment ↔
    ∃ layout, repartition contentStart m t alignment = some layout := by
  rw [repartition_isSome_iff, FitsPrefix]
  refine and_congr_right fun hroom => ?_
  rw [← Nat.not_le, ← alignUp_le_iff, ← alignUp_le_iff]
  omega

lemma wrappingRepartition_max_one :
    wrappingRepartition contentStart m t (max alignment 1) =
      wrappingRepartition contentStart m t alignment := by
  unfold wrappingRepartition
  rw [show max (max alignment 1) 1 = max alignment 1 by omega]

/-- `compute` is exact where it is in range, and wraps where it is not. -/
lemma wrappingCompute_exactly_iff {r : Except ObjectFileError SectionLayout} :
    (o.wrappingCompute m t).Exactly r ↔ o.InRange m t ∧ o.compute m t = r := by
  unfold wrappingCompute compute InRange
  rw [fitsPrefix_iff, wrappingRepartition_max_one, repartition_max_one]
  by_cases hmin : o.minContentStart.toNat > 0
  · simp only [if_pos hmin, exactly_bind_iff, wrappingRepartition_exactly_iff]
    cases hrep : repartition o.minContentStart m t o.alignment with
    | some layout =>
        constructor
        · rintro ⟨_, ⟨hrange, rfl⟩, hr⟩
          exact ⟨⟨fun _ => hrange, fun hnot => absurd ⟨hmin, layout, rfl⟩ hnot⟩,
            exactly_pure_iff.mp hr⟩
        · rintro ⟨⟨hrange, _⟩, hr⟩
          exact ⟨_, ⟨hrange hmin, rfl⟩, exactly_pure_iff.mpr hr⟩
    | none =>
        constructor
        · rintro ⟨_, ⟨hrange, rfl⟩, hr⟩
          obtain ⟨hfresh, hr⟩ := wrappingComputeFresh_exactly_iff.mp hr
          exact ⟨⟨fun _ => hrange, fun _ => hfresh⟩, hr⟩
        · rintro ⟨⟨hrange, hfresh⟩, hr⟩
          have hnot : ¬ (0 < o.minContentStart.toNat ∧
              ∃ layout, (none : Option SectionLayout) = some layout) := by
            rintro ⟨_, _, hlayout⟩
            cases hlayout
          exact ⟨_, ⟨hrange hmin, rfl⟩, wrappingComputeFresh_exactly_iff.mpr ⟨hfresh hnot, hr⟩⟩
  · simp only [if_neg hmin, pure_bind, wrappingComputeFresh_exactly_iff]
    constructor
    · rintro ⟨hfresh, hr⟩
      exact ⟨⟨fun hpos => absurd hpos hmin, fun _ => hfresh⟩, hr⟩
    · rintro ⟨⟨_, hfresh⟩, hr⟩
      exact ⟨hfresh fun hnot => hmin hnot.1, hr⟩

/-! ## What wrapping leads to -/

/-- Nothing wraps, and what `repartition` returns keeps the content in place and both sections
apart. -/
structure RepartitionsSafely (contentStart : UInt32) (m t alignment : ℕ) : Prop where
  not_wrapped : (wrappingRepartition contentStart m t alignment).wrapped = false
  holds : ∀ layout, (wrappingRepartition contentStart m t alignment).value = some layout →
    layout.contentStart = contentStart ∧ layout.Holds m t

/-- Nothing wraps, and `compute` reports an offset that is too large or returns a layout in which
both sections have room. -/
structure ComputesSafely (o : LayoutOptions) (m t : ℕ) : Prop where
  not_wrapped : (o.wrappingCompute m t).wrapped = false
  holds : ∀ layout, (o.wrappingCompute m t).value = .ok layout → layout.Holds m t
  error_eq : ∀ e, (o.wrappingCompute m t).value = .error e →
    ∃ required limit, e = .sectionOffsetTooLarge required limit

end LayoutOptions

open LayoutOptions

/-- Nothing wraps, and `align_up` does not round down. -/
structure AlignsSafely (value alignment : ℕ) : Prop where
  not_wrapped : (wrappingAlignUp value alignment).wrapped = false
  le_value : value ≤ (wrappingAlignUp value alignment).value

/-- The arithmetic of the layouts is exact, and what it leads to is sound, exactly on these
operands: `align_up` on values up to the last multiple of the alignment in `usize`, and
`repartition` and `compute` where their sums stay in range. -/
theorem layout_arithmetic_iff (o : LayoutOptions) (contentStart : UInt32)
    (m t value alignment : ℕ) :
    (AlignsSafely value alignment ↔ value ≤ alignDown (2 ^ 64 - 1) alignment) ∧
    (RepartitionsSafely contentStart m t alignment ↔
      RepartitionInRange contentStart m t alignment) ∧
    (o.ComputesSafely m t ↔ o.InRange m t) := by
  refine ⟨?_, ?_, ?_⟩
  · constructor
    · intro hsafe
      obtain ⟨n, hn⟩ := wrapped_eq_false_iff.mp hsafe.not_wrapped
      rw [wrappingAlignUp_eq, exactly_ofExact_iff] at hn
      exact alignUp_le_iff.mp (by omega)
    · intro hle
      have hup : alignUp value alignment ≤ 2 ^ 64 - 1 := alignUp_le_iff.mpr hle
      have hexact : (wrappingAlignUp value alignment).Exactly (alignUp value alignment) := by
        rw [wrappingAlignUp_eq, exactly_ofExact_iff]
        exact ⟨by omega, rfl⟩
      exact ⟨hexact.1, hexact.2 ▸ le_alignUp value alignment⟩
  · constructor
    · intro hsafe
      obtain ⟨r, hr⟩ := wrapped_eq_false_iff.mp hsafe.not_wrapped
      exact (wrappingRepartition_exactly_iff.mp hr).1
    · intro hrange
      have hexact := wrappingRepartition_exactly_iff.mpr ⟨hrange, rfl⟩
      refine ⟨hexact.1, fun layout hlayout => ?_⟩
      exact repartition_holds (hexact.2.symm.trans hlayout)
  · constructor
    · intro hsafe
      obtain ⟨r, hr⟩ := wrapped_eq_false_iff.mp hsafe.not_wrapped
      exact (wrappingCompute_exactly_iff.mp hr).1
    · intro hrange
      have hexact := wrappingCompute_exactly_iff.mpr ⟨hrange, rfl⟩
      refine ⟨hexact.1, fun layout hlayout => ?_, fun e he => ?_⟩
      · exact compute_holds (hexact.2.symm.trans hlayout)
      · obtain ⟨_, required, limit, heq, _⟩ := compute_error (hexact.2.symm.trans he)
        exact ⟨required, limit, heq⟩

/-- The numbers of the options are values of `usize`. -/
def LayoutOptions.IsUsize (o : LayoutOptions) : Prop :=
  o.metadataReserve < 2 ^ 64 ∧ o.tagReserve < 2 ^ 64 ∧ o.alignment < 2 ^ 64

/-- With the largest reserve the offset of the tags wraps to 33, and two bytes of metadata, which
begin at 32, overlap them. -/
theorem layout_arithmetic_wraps :
    ¬ ((∀ value alignment, value < 2 ^ 64 → alignment < 2 ^ 64 → AlignsSafely value alignment) ∧
      (∀ (contentStart : UInt32) (m t alignment : ℕ), m ≤ isizeMax → t ≤ isizeMax →
        alignment < 2 ^ 64 → RepartitionsSafely contentStart m t alignment) ∧
      ∀ (o : LayoutOptions) (m t : ℕ), o.IsUsize → m ≤ isizeMax → t ≤ isizeMax →
        o.ComputesSafely m t) := by
  rintro ⟨_, _, h⟩
  have husize : LayoutOptions.IsUsize ⟨2 ^ 64 - 1, 0, 1, 0⟩ := ⟨by decide, by decide, by decide⟩
  have hsafe := h ⟨2 ^ 64 - 1, 0, 1, 0⟩ 2 0 husize (by decide) (by decide)
  have hholds := hsafe.holds ⟨33, 33⟩ (by decide +kernel)
  exact absurd hholds.metadata_le (by decide)

end TuxEncoding
