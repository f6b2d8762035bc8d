import TuxEncoding.Fs.Layout
import Mathlib.Order.MinMax

/-!
# Section layouts

What `LayoutOptions::compute` and `LayoutOptions::repartition` promise, over all sizes, reserves,
alignments and floors.

* `computed_layout_sound`: a computed layout holds its sections within the limits of the header and
  reuses the prefix it is given or leaves the reserves behind aligned sections.
* `repartition_exact_iff`: `repartition` accepts exactly the sections that some offset of the tags
  separates, unless it rounds that offset past `u16::MAX`.
* `repartition_rounds_past_limit`: where it does, it refuses sections that fit.
-/

namespace TuxEncoding

namespace LayoutOptions

variable {o : LayoutOptions} {contentStart : UInt32} {m t alignment : ℕ} {layout : SectionLayout}

/-! ## Computing -/

/-- The layout lies within the limits of the header, holds the sections and keeps to the floor. -/
structure InBounds (o : LayoutOptions) (m t : ℕ) (layout : SectionLayout) : Prop where
  holds : layout.Holds m t
  tagsStart_le : layout.tagsStart.toNat ≤ 65535
  contentStart_le : layout.contentStart.toNat ≤ 2 ^ 32 - 1
  floor_le : o.minContentStart.toNat ≤ layout.contentStart.toNat

/-- Both sections are aligned and have their reserve behind them. -/
structure Spacious (o : LayoutOptions) (m t : ℕ) (layout : SectionLayout) : Prop where
  tagsStart_dvd : max o.alignment 1 ∣ layout.tagsStart.toNat
  contentStart_dvd : max o.alignment 1 ∣ layout.contentStart.toNat
  metadataReserve_le : headerSize + m + o.metadataReserve ≤ layout.tagsStart.toNat
  tagReserve_le : layout.tagsStart.toNat + t + o.tagReserve ≤ layout.contentStart.toNat

/-- There is a prefix to reuse, and the sections can be partitioned within it. -/
def Reuses (o : LayoutOptions) (m t : ℕ) : Prop :=
  0 < o.minContentStart.toNat ∧
    ∃ layout, repartition o.minContentStart m t o.alignment = some layout

lemma compute_of_reuses (h : o.Reuses m t) :
    ∃ layout, repartition o.minContentStart m t o.alignment = some layout ∧
      o.compute m t = .ok layout := by
  obtain ⟨hmin, layout, hrep⟩ := h
  exact ⟨layout, hrep, compute_of_repartition hmin hrep⟩

lemma compute_of_not_reuses (h : ¬ o.Reuses m t) : o.compute m t = o.computeFresh m t := by
  unfold compute
  split_ifs with hmin
  · rw [repartition_max_one]
    cases hrep : repartition o.minContentStart m t o.alignment with
    | none => rfl
    | some layout => exact absurd ⟨hmin, layout, hrep⟩ h
  · rfl

/-- A fresh layout is aligned and leaves both reserves. -/
lemma computeFresh_spacious (h : o.computeFresh m t = .ok layout) :
    o.Spacious m t layout ∧ o.minContentStart.toNat ≤ layout.contentStart.toNat := by
  unfold computeFresh at h
  simp only [alignUp_max_one] at h
  split_ifs at h with htags hcontent
  cases h
  have hmeta := le_alignUp (headerSize + m + o.metadataReserve) o.alignment
  have htag := le_alignUp
    (alignUp (headerSize + m + o.metadataReserve) o.alignment + t + o.tagReserve) o.alignment
  have hmin := le_alignUp o.minContentStart.toNat o.alignment
  have hnat := toNat_ofNat_uint16 (Nat.not_lt.mp htags)
  have hnat' := toNat_ofNat_uint32 (Nat.not_lt.mp hcontent)
  refine ⟨⟨?_, ?_, by dsimp only; omega, by dsimp only; omega⟩, by dsimp only; omega⟩
  · dsimp only
    rw [hnat]
    exact dvd_alignUp _ _
  · dsimp only
    rw [hnat']
    rcases max_choice (alignUp (alignUp (headerSize + m + o.metadataReserve) o.alignment + t +
      o.tagReserve) o.alignment) (alignUp o.minContentStart.toNat o.alignment) with hmax | hmax
    · rw [hmax]
      exact dvd_alignUp _ _
    · rw [hmax]
      exact dvd_alignUp _ _

/-- Where a fresh layout puts the tags. -/
def freshTagsStart (o : LayoutOptions) (m : ℕ) : ℕ :=
  alignUp (headerSize + m + o.metadataReserve) o.alignment

/-- Where a fresh layout puts the content. -/
def freshContentStart (o : LayoutOptions) (m t : ℕ) : ℕ :=
  max (alignUp (o.freshTagsStart m + t + o.tagReserve) o.alignment)
    (alignUp o.minContentStart.toNat o.alignment)

/-- `required` is the first offset of a fresh layout that its field of the header cannot hold. -/
inductive OffsetTooLarge (o : LayoutOptions) (m t : ℕ) : (required limit : ℕ) → Prop
  | tags (h : 65535 < o.freshTagsStart m) : OffsetTooLarge o m t (o.freshTagsStart m) 65535
  | content (htags : o.freshTagsStart m ≤ 65535) (h : 2 ^ 32 - 1 < o.freshContentStart m t) :
      OffsetTooLarge o m t (o.freshContentStart m t) (2 ^ 32 - 1)

/-- The only error is that no prefix is reused and an offset is too large. -/
lemma compute_error {e : ObjectFileError} (h : o.compute m t = .error e) :
    ¬ o.Reuses m t ∧
      ∃ required limit, e = .sectionOffsetTooLarge required limit ∧
        o.OffsetTooLarge m t required limit := by
  by_cases hreuses : o.Reuses m t
  · obtain ⟨layout, _, hok⟩ := compute_of_reuses hreuses
    rw [hok] at h
    cases h
  · refine ⟨hreuses, ?_⟩
    rw [compute_of_not_reuses hreuses] at h
    unfold computeFresh at h
    simp only [alignUp_max_one] at h
    split_ifs at h with htags hcontent
    · cases h
      exact ⟨_, _, rfl, .tags htags⟩
    · cases h
      exact ⟨_, _, rfl, .content (Nat.not_lt.mp htags) hcontent⟩

/-- `compute` reports the offset that is too large, or returns a layout that holds the sections
within the limits. Where a prefix is given and `repartition` accepts it, the prefix is kept;
otherwise the sections are aligned with the reserves behind them. -/
theorem computed_layout_sound (o : LayoutOptions) (m t : ℕ) :
    ((∃ required limit, o.compute m t = .error (.sectionOffsetTooLarge required limit) ∧
        o.OffsetTooLarge m t required limit) ∨
      ∃ layout, o.compute m t = .ok layout ∧ o.InBounds m t layout ∧
        (¬ o.Reuses m t → o.Spacious m t layout)) ∧
    (o.Reuses m t →
      ∃ layout, o.compute m t = .ok layout ∧ layout.contentStart = o.minContentStart) := by
  refine ⟨?_, fun hreuses => ?_⟩
  swap
  · obtain ⟨layout, hrep, hok⟩ := compute_of_reuses hreuses
    exact ⟨layout, hok, (repartition_holds hrep).1⟩
  cases hcompute : o.compute m t with
  | error e =>
      obtain ⟨_, required, limit, rfl, hlarge⟩ := compute_error hcompute
      exact .inl ⟨required, limit, rfl, hlarge⟩
  | ok layout =>
      refine .inr ⟨layout, rfl, ?_⟩
      have hholds := compute_holds hcompute
      have htags : layout.tagsStart.toNat ≤ 65535 := Nat.le_pred_of_lt layout.tagsStart.toNat_lt
      have hcontent : layout.contentStart.toNat ≤ 2 ^ 32 - 1 :=
        Nat.le_pred_of_lt layout.contentStart.toNat_lt
      by_cases hreuses : o.Reuses m t
      · obtain ⟨_, hrep, hok⟩ := compute_of_reuses hreuses
        obtain rfl := Except.ok.inj (hok.symm.trans hcompute)
        have hstart := (repartition_holds hrep).1
        exact ⟨⟨hholds, htags, hcontent, Nat.le_of_eq (congrArg UInt32.toNat hstart).symm⟩,
          fun hnot => absurd hreuses hnot⟩
      · obtain ⟨hspacious, hfloor⟩ :=
          computeFresh_spacious ((compute_of_not_reuses hreuses).symm.trans hcompute)
        exact ⟨⟨hholds, htags, hcontent, hfloor⟩, fun _ => hspacious⟩

/-! ## Repartitioning -/

/-- The sections that `repartition` accepts. -/
lemma repartition_isSome_iff : (∃ layout, repartition contentStart m t alignment = some layout) ↔
    headerSize + m + t ≤ contentStart.toNat ∧
      (alignUp (headerSize + m) alignment + t ≤ contentStart.toNat →
        alignUp (headerSize + m) alignment ≤ 65535) ∧
      (contentStart.toNat < alignUp (headerSize + m) alignment + t → headerSize + m ≤ 65535) := by
  unfold repartition
  dsimp only
  rw [alignUp_max_one]
  split_ifs <;> simp only [exists_false, Option.some.injEq, exists_eq', false_iff,
    true_iff] <;> omega

/-- `repartition` puts the tags at the aligned offset when they fit there. -/
lemma repartition_aligned (h : repartition contentStart m t alignment = some layout)
    (hfits : alignUp (headerSize + m) alignment + t ≤ contentStart.toNat) :
    layout.tagsStart.toNat = alignUp (headerSize + m) alignment := by
  unfold repartition at h
  dsimp only at h
  rw [alignUp_max_one, if_pos hfits] at h
  split_ifs at h with hroom hlimit
  cases h
  exact toNat_ofNat_uint16 (Nat.not_lt.mp hlimit)

/-- In `usize`, the sum of the aligned offset and the tags may overflow. -/
lemma checkedRepartition_eq_some_iff :
    checkedRepartition contentStart m t alignment = .ok (some layout) ↔
      repartition contentStart m t alignment = some layout ∧
        alignUp (headerSize + m) alignment + t < 2 ^ 64 := by
  rw [checkedRepartition_eq_ok_iff, and_comm]
  refine and_congr_right fun hrep => ?_
  obtain ⟨hstart, hmeta, htags⟩ := repartition_holds hrep
  rw [hstart] at htags
  have hlt := contentStart.toNat_lt
  exact ⟨fun hsums => hsums.2 (by omega), fun hend => ⟨by omega, fun _ => hend⟩⟩

/-- There is an offset of the tags that holds both sections. -/
def Separable (contentStart : UInt32) (m t : ℕ) : Prop :=
  ∃ tagsStart : UInt16, SectionLayout.Holds ⟨tagsStart, contentStart⟩ m t

lemma separable_iff : Separable contentStart m t ↔
    headerSize + m + t ≤ contentStart.toNat ∧ headerSize + m ≤ 65535 := by
  constructor
  · rintro ⟨tagsStart, hmeta, htags⟩
    have := tagsStart.toNat_lt
    dsimp only at hmeta htags
    omega
  · rintro ⟨hroom, hlimit⟩
    have hnat := toNat_ofNat_uint16 hlimit
    exact ⟨UInt16.ofNat (headerSize + m), by dsimp only; omega, by dsimp only; omega⟩

/-- `repartition` accepts the sections that can be separated and no others, keeps both apart and the
content where it is, and aligns the tags wherever they fit when aligned. -/
structure RepartitionExact (contentStart : UInt32) (m t alignment : ℕ) : Prop where
  accepts_iff : (∃ layout, checkedRepartition contentStart m t alignment = .ok (some layout)) ↔
    Separable contentStart m t
  sound : ∀ layout, checkedRepartition contentStart m t alignment = .ok (some layout) →
    layout.Holds m t ∧ layout.contentStart = contentStart ∧
      ((∃ tagsStart : UInt16, SectionLayout.Holds ⟨tagsStart, contentStart⟩ m t ∧
        max alignment 1 ∣ tagsStart.toNat) → max alignment 1 ∣ layout.tagsStart.toNat)

/-- Sections that fit, but whose tags would be put past `u16::MAX` by rounding, where they still end
before the content, or past the range of `usize`. -/
def RoundsPastLimit (contentStart : UInt32) (m t alignment : ℕ) : Prop :=
  headerSize + m + t ≤ contentStart.toNat ∧ headerSize + m ≤ 65535 ∧
    65535 < alignUp (headerSize + m) alignment ∧
    (alignUp (headerSize + m) alignment + t ≤ contentStart.toNat ∨
      2 ^ 64 ≤ alignUp (headerSize + m) alignment + t)

/-- `repartition` is exact, unless rounding takes the tags past the limit. -/
theorem repartition_exact_iff (contentStart : UInt32) (m t alignment : ℕ) :
    RepartitionExact contentStart m t alignment ↔
      ¬ RoundsPastLimit contentStart m t alignment := by
  have haccepts : (∃ layout, checkedRepartition contentStart m t alignment = .ok (some layout)) ↔
      (headerSize + m + t ≤ contentStart.toNat ∧
        (alignUp (headerSize + m) alignment + t ≤ contentStart.toNat →
          alignUp (headerSize + m) alignment ≤ 65535) ∧
        (contentStart.toNat < alignUp (headerSize + m) alignment + t → headerSize + m ≤ 65535)) ∧
      alignUp (headerSize + m) alignment + t < 2 ^ 64 := by
    simp only [checkedRepartition_eq_some_iff, exists_and_right, repartition_isSome_iff]
  have hlt := contentStart.toNat_lt
  have hle := le_alignUp (headerSize + m) alignment
  constructor
  · rintro ⟨hexact, _⟩ ⟨hroom, hlimit, hpast, hend⟩
    have := haccepts.mp (hexact.mpr (separable_iff.mpr ⟨hroom, hlimit⟩))
    omega
  · intro hnot
    refine ⟨haccepts.trans (Iff.trans ?_ separable_iff.symm), fun layout h => ?_⟩
    · unfold RoundsPastLimit at hnot
      omega
    · obtain ⟨hrep, _⟩ := checkedRepartition_eq_some_iff.mp h
      obtain ⟨hstart, hholds⟩ := repartition_holds hrep
      refine ⟨hholds, hstart, ?_⟩
      rintro ⟨tagsStart, ⟨hmeta, htags⟩, hdvd⟩
      -- the aligned offset is the least multiple that leaves room for the metadata
      dsimp only at hmeta htags
      have hleast := alignUp_le hmeta hdvd
      rw [repartition_aligned hrep (by omega)]
      exact dvd_alignUp _ _

/-- Metadata of 65490 bytes and two bytes of tags fit in front of offset 70000, but not with the
tags at a multiple of 32. -/
theorem repartition_rounds_past_limit :
    ¬ ∀ (contentStart : UInt32) (m t alignment : ℕ),
      RepartitionExact contentStart m t alignment := by
  intro h
  have hnone : checkedRepartition 70000 65490 2 32 = .ok none := by decide +kernel
  obtain ⟨layout, hsome⟩ := (h 70000 65490 2 32).accepts_iff.mpr
    (separable_iff.mpr (by decide +kernel))
  rw [hnone] at hsome
  cases hsome

end LayoutOptions

end TuxEncoding
