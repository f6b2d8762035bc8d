import TuxEncoding.Codec.Header
import TuxEncoding.Codec.Tags

/-!
# Paths, errors and section layouts

The paths and errors of the file layer and `src/fs/layout.rs`: where the sections of an object file
begin. An addition or a product that leaves its type panics, as it does where the code is built with
overflow checks; the offsets that come out are narrowed to the header's field types only after they
have been checked against them.

* `SectionLayout.Holds`: both sections fit their space in front of the content.
* `LayoutOptions.repartition` and `LayoutOptions.compute` are the two functions in exact arithmetic,
  `LayoutOptions.checkedRepartition` and `LayoutOptions.checkedCompute` in `usize`;
  `LayoutOptions.checkedCompute_eq_ok_iff` is what sets them apart.
* `LayoutOptions.compute_holds` and `LayoutOptions.repartition_holds`: what is computed holds the
  sections it was computed for.
* `LayoutOptions.checkedRepartition_of_checkedCompute`: a computed layout never has to be moved for
  the sections it was computed for, whatever the options.
-/

namespace TuxEncoding

/-- A `std::path::Path`, by its parent and its last component, either of which it may lack. -/
structure Path where
  parent : Option (List Char)
  fileName : Option (List Char)
  deriving DecidableEq, Repr

/-- Why a function does not return. -/
inductive Panic
  /-- an addition or a subtraction leaves the range of its type -/
  | arithmeticOverflow
  /-- a buffer of more than `isize::MAX` bytes is asked for -/
  | capacityOverflow
  /-- the allocator refuses a buffer, which aborts the process -/
  | allocationRefused
  deriving DecidableEq

/-- `ObjectFileError` of `src/fs/error.rs`, and the panics of the file layer: a panic unwinds
through the same destructors as an early return and is caught by nobody. -/
inductive ObjectFileError
  | encoding (error : EncodingError)
  | io (error : IoError)
  | reservedSpaceExceeded (required available : ℕ)
  | sectionOffsetTooLarge (required limit : ℕ)
  | rangeOutOfBounds (offset «end» contentLength : ℕ)
  | readOnly (path : Path)
  | unsupportedCompression (compression : CompressionTypes)
  | rangedReadOnCompressed
  | panicked (panic : Panic)
  deriving DecidableEq

/-- `is_not_found`: true when the error was an `std::io::ErrorKind::NotFound`. -/
def ObjectFileError.isNotFound : ObjectFileError → Bool
  | io err => err.kind == .notFound
  | encoding (.ioError err) => err.kind == .notFound
  | _ => false

/-- The function has panicked instead of returning an error. -/
def ObjectFileError.IsPanic : ObjectFileError → Prop
  | panicked _ => True
  | _ => False

lemma ok_bind {ε α β : Type} (a : α) (f : α → Except ε β) :
    ((.ok a : Except ε α) >>= f) = f a := rfl

/-- `isize::MAX` -/
def isizeMax : ℕ := 2 ^ 63 - 1

/-- `a - b` in `usize`. -/
def checkedSub (a b : ℕ) : Except ObjectFileError ℕ :=
  if b ≤ a then .ok (a - b) else .error (.panicked .arithmeticOverflow)

/-- `a + b` in `u64` or `usize`. -/
def checkedAdd (a b : ℕ) : Except ObjectFileError ℕ :=
  if a + b < 2 ^ 64 then .ok (a + b) else .error (.panicked .arithmeticOverflow)

/-- Behind an addition that stays in its type the computation goes on with the sum. -/
lemma checkedAdd_bind_eq_ok_iff {α : Type} {a b : ℕ} {f : ℕ → Except ObjectFileError α} {r : α} :
    (checkedAdd a b >>= f) = .ok r ↔ a + b < 2 ^ 64 ∧ f (a + b) = .ok r := by
  unfold checkedAdd
  split_ifs with hlt
  · rw [ok_bind, and_iff_right hlt]
  · exact ⟨nofun, fun h => absurd h.1 hlt⟩

lemma checkedAdd_bind_eq_error {α : Type} {a b : ℕ} {f : ℕ → Except ObjectFileError α}
    {e : ObjectFileError} (h : (checkedAdd a b >>= f) = .error e) :
    e = .panicked .arithmeticOverflow ∨ f (a + b) = .error e := by
  unfold checkedAdd at h
  split_ifs at h
  · exact .inr h
  · cases h
    exact .inl rfl

/-- `Vec::with_capacity(n)`, where the allocator grants buffers of up to `granted` bytes. -/
def withCapacity (granted n : ℕ) : Except ObjectFileError Unit :=
  if n > isizeMax then .error (.panicked .capacityOverflow)
  else if n > granted then .error (.panicked .allocationRefused)
  else .ok ()

lemma withCapacity_of_le {granted n : ℕ} (hmax : n ≤ isizeMax) (hgranted : n ≤ granted) :
    withCapacity granted n = .ok () := by
  unfold withCapacity
  rw [if_neg (Nat.not_lt.mpr hmax), if_neg (Nat.not_lt.mpr hgranted)]

/-- Otherwise it does not return. -/
lemma withCapacity_of_not_le {granted n : ℕ} (h : ¬ (n ≤ isizeMax ∧ n ≤ granted)) :
    ∃ panic, withCapacity granted n = .error (.panicked panic) := by
  unfold withCapacity
  split_ifs with hmax hgranted
  · exact ⟨_, rfl⟩
  · exact ⟨_, rfl⟩
  · exact absurd ⟨Nat.not_lt.mp hmax, Nat.not_lt.mp hgranted⟩ h

/-- `HEADER_SIZE`: the offset the metadata section starts at. -/
def headerSize : ℕ := 32

def defaultAlignment : ℕ := 32

def defaultMetadataReserve : ℕ := 256

def defaultTagReserve : ℕ := 256

/-- Where each section of an object file begins. -/
structure SectionLayout where
  tagsStart : UInt16
  contentStart : UInt32
  deriving DecidableEq

namespace SectionLayout

/-- What `metadata_space` returns, if it does. -/
def metadataSpace (l : SectionLayout) : ℕ := l.tagsStart.toNat - headerSize

/-- `metadata_space` -/
def checkedMetadataSpace (l : SectionLayout) : Except ObjectFileError ℕ :=
  checkedSub l.tagsStart.toNat headerSize

/-- What `tags_space` returns, if it does. -/
def tagsSpace (l : SectionLayout) : ℕ := l.contentStart.toNat - l.tagsStart.toNat

/-- `tags_space` -/
def checkedTagsSpace (l : SectionLayout) : Except ObjectFileError ℕ :=
  checkedSub l.contentStart.toNat l.tagsStart.toNat

lemma checkedMetadataSpace_of_le {l : SectionLayout} (h : headerSize ≤ l.tagsStart.toNat) :
    l.checkedMetadataSpace = .ok l.metadataSpace := if_pos h

lemma checkedTagsSpace_of_le {l : SectionLayout} (h : l.tagsStart.toNat ≤ l.contentStart.toNat) :
    l.checkedTagsSpace = .ok l.tagsSpace := if_pos h

lemma checkedTagsSpace_of_lt {l : SectionLayout} (h : l.contentStart.toNat < l.tagsStart.toNat) :
    l.checkedTagsSpace = .error (.panicked .arithmeticOverflow) := if_neg (Nat.not_le.mpr h)

def prefixSize (l : SectionLayout) : ℕ := l.contentStart.toNat

/-- The layout has room for sections of these sizes. -/
structure Holds (l : SectionLayout) (metadataSize tagsSize : ℕ) : Prop where
  metadata_le : headerSize + metadataSize ≤ l.tagsStart.toNat
  tags_le : l.tagsStart.toNat + tagsSize ≤ l.contentStart.toNat

lemma Holds.headerSize_le {l : SectionLayout} {m t : ℕ} (h : l.Holds m t) :
    headerSize ≤ l.tagsStart.toNat := Nat.le_trans (Nat.le_add_right _ _) h.metadata_le

lemma Holds.tagsStart_le {l : SectionLayout} {m t : ℕ} (h : l.Holds m t) :
    l.tagsStart.toNat ≤ l.contentStart.toNat := Nat.le_trans (Nat.le_add_right _ _) h.tags_le

end SectionLayout

/-- How much room to leave for the sections when creating or rewriting an object. -/
structure LayoutOptions where
  metadataReserve : ℕ
  tagReserve : ℕ
  alignment : ℕ
  minContentStart : UInt32
  deriving DecidableEq

/-- Rounds `value` up to the next multiple of `alignment`. -/
def alignUp (value alignment : ℕ) : ℕ :=
  let alignment := max alignment 1
  (value + alignment - 1) / alignment * alignment

/-- `align_up` in `usize`. -/
def checkedAlignUp (value alignment : ℕ) : Except ObjectFileError ℕ :=
  if alignUp value alignment < 2 ^ 64 then .ok (alignUp value alignment)
  else .error (.panicked .arithmeticOverflow)

lemma checkedAlignUp_bind_eq_ok_iff {α : Type} {value alignment : ℕ}
    {f : ℕ → Except ObjectFileError α} {r : α} : (checkedAlignUp value alignment >>= f) = .ok r ↔
      alignUp value alignment < 2 ^ 64 ∧ f (alignUp value alignment) = .ok r := by
  unfold checkedAlignUp
  split_ifs with hlt
  · rw [ok_bind, and_iff_right hlt]
  · exact ⟨nofun, fun h => absurd h.1 hlt⟩

lemma checkedAlignUp_bind_eq_error {α : Type} {value alignment : ℕ}
    {f : ℕ → Except ObjectFileError α} {e : ObjectFileError}
    (h : (checkedAlignUp value alignment >>= f) = .error e) :
    e = .panicked .arithmeticOverflow ∨ f (alignUp value alignment) = .error e := by
  unfold checkedAlignUp at h
  split_ifs at h
  · exact .inr h
  · cases h
    exact .inl rfl

lemma le_alignUp (value alignment : ℕ) : value ≤ alignUp value alignment := by
  unfold alignUp
  have hpos : 0 < max alignment 1 := by omega
  have hdiv := Nat.div_add_mod (value + max alignment 1 - 1) (max alignment 1)
  have hmod := Nat.mod_lt (value + max alignment 1 - 1) hpos
  rw [Nat.mul_comm] at hdiv
  show value ≤ (value + max alignment 1 - 1) / max alignment 1 * max alignment 1
  omega

lemma alignUp_lt (value alignment : ℕ) :
    alignUp value alignment < value + max alignment 1 := by
  unfold alignUp
  have hle := Nat.div_mul_le_self (value + max alignment 1 - 1) (max alignment 1)
  show (value + max alignment 1 - 1) / max alignment 1 * max alignment 1 < value + max alignment 1
  omega

lemma alignUp_mono {a b : ℕ} (h : a ≤ b) (alignment : ℕ) :
    alignUp a alignment ≤ alignUp b alignment :=
  Nat.mul_le_mul_right _ (Nat.div_le_div_right (by omega))

lemma dvd_alignUp (value alignment : ℕ) : max alignment 1 ∣ alignUp value alignment :=
  Nat.dvd_mul_left _ _

/-- No smaller multiple is left out. -/
lemma alignUp_le {value alignment n : ℕ} (h : value ≤ n) (hn : max alignment 1 ∣ n) :
    alignUp value alignment ≤ n := by
  obtain ⟨k, rfl⟩ := hn
  have hpos : 0 < max alignment 1 := by omega
  have hle : (value + max alignment 1 - 1) / max alignment 1 ≤ k := by
    refine Nat.lt_succ_iff.mp (Nat.div_lt_of_lt_mul ?_)
    rw [Nat.mul_succ]
    omega
  calc alignUp value alignment ≤ k * max alignment 1 := Nat.mul_le_mul_right _ hle
    _ = max alignment 1 * k := Nat.mul_comm _ _

lemma checkedAlignUp_max_one (value alignment : ℕ) :
    checkedAlignUp value (max alignment 1) = checkedAlignUp value alignment := by
  unfold checkedAlignUp alignUp
  rw [show max (max alignment 1) 1 = max alignment 1 by omega]

lemma alignUp_max_one (value alignment : ℕ) :
    alignUp value (max alignment 1) = alignUp value alignment := by
  unfold alignUp
  rw [show max (max alignment 1) 1 = max alignment 1 by omega]

namespace LayoutOptions

/-- `LayoutOptions::default`. -/
def default : LayoutOptions where
  metadataReserve := defaultMetadataReserve
  tagReserve := defaultTagReserve
  alignment := defaultAlignment
  minContentStart := 0

/-- `LayoutOptions::packed`. -/
def packed : LayoutOptions where
  metadataReserve := 0
  tagReserve := 0
  alignment := 1
  minContentStart := 0

/-- `LayoutOptions::repartition` in exact arithmetic: fit the sections inside an existing prefix. -/
def repartition (contentStart : UInt32) (metadataSize tagsSize alignment : ℕ) :
    Option SectionLayout :=
  let alignment := max alignment 1
  if headerSize + metadataSize + tagsSize > contentStart.toNat then none
  else
    let aligned := alignUp (headerSize + metadataSize) alignment
    let tagsStart :=
      if aligned + tagsSize ≤ contentStart.toNat then aligned else headerSize + metadataSize
    if tagsStart > 65535 then none
    else some ⟨UInt16.ofNat tagsStart, contentStart⟩

/-- `LayoutOptions::repartition` -/
def checkedRepartition (contentStart : UInt32) (metadataSize tagsSize alignment : ℕ) :
    Except ObjectFileError (Option SectionLayout) := do
  let alignment := max alignment 1
  let packed ← checkedAdd headerSize metadataSize
  let sections ← checkedAdd packed tagsSize
  if sections > contentStart.toNat then return none
  let aligned ← checkedAlignUp packed alignment
  let alignedEnd ← checkedAdd aligned tagsSize
  let tagsStart := if alignedEnd ≤ contentStart.toNat then aligned else packed
  if tagsStart > 65535 then return none
  return some ⟨UInt16.ofNat tagsStart, contentStart⟩

/-- `LayoutOptions::compute` in exact arithmetic, when there is no prefix that can be reused. -/
def computeFresh (o : LayoutOptions) (metadataSize tagsSize : ℕ) :
    Except ObjectFileError SectionLayout :=
  let alignment := max o.alignment 1
  let tagsStart := alignUp (headerSize + metadataSize + o.metadataReserve) alignment
  if tagsStart > 65535 then .error (.sectionOffsetTooLarge tagsStart 65535)
  else
    let contentStart := max (alignUp (tagsStart + tagsSize + o.tagReserve) alignment)
      (alignUp o.minContentStart.toNat alignment)
    if contentStart > 4294967295 then .error (.sectionOffsetTooLarge contentStart 4294967295)
    else .ok ⟨UInt16.ofNat tagsStart, UInt32.ofNat contentStart⟩

/-- `LayoutOptions::compute` in exact arithmetic. -/
def compute (o : LayoutOptions) (metadataSize tagsSize : ℕ) :
    Except ObjectFileError SectionLayout :=
  if o.minContentStart.toNat > 0 then
    match repartition o.minContentStart metadataSize tagsSize (max o.alignment 1) with
    | some layout => .ok layout
    | none => o.computeFresh metadataSize tagsSize
  else o.computeFresh metadataSize tagsSize

/-- `LayoutOptions::compute`, when there is no prefix that can be reused. -/
def checkedComputeFresh (o : LayoutOptions) (metadataSize tagsSize : ℕ) :
    Except ObjectFileError SectionLayout := do
  let alignment := max o.alignment 1
  let packed ← checkedAdd headerSize metadataSize
  let reserved ← checkedAdd packed o.metadataReserve
  let tagsStart ← checkedAlignUp reserved alignment
  if tagsStart > 65535 then throw (.sectionOffsetTooLarge tagsStart 65535)
  let tagsEnd ← checkedAdd tagsStart tagsSize
  let reserved ← checkedAdd tagsEnd o.tagReserve
  let behindTags ← checkedAlignUp reserved alignment
  let floor ← checkedAlignUp o.minContentStart.toNat alignment
  let contentStart := max behindTags floor
  if contentStart > 4294967295 then throw (.sectionOffsetTooLarge contentStart 4294967295)
  return ⟨UInt16.ofNat tagsStart, UInt32.ofNat contentStart⟩

/-- `LayoutOptions::compute` -/
def checkedCompute (o : LayoutOptions) (metadataSize tagsSize : ℕ) :
    Except ObjectFileError SectionLayout := do
  let reused ←
    if o.minContentStart.toNat > 0 then
      checkedRepartition o.minContentStart metadataSize tagsSize (max o.alignment 1)
    else pure none
  match reused with
  | some layout => return layout
  | none => o.checkedComputeFresh metadataSize tagsSize

/-! ## What the computed layouts hold -/

lemma toNat_ofNat_uint16 {n : ℕ} (h : n ≤ 65535) : (UInt16.ofNat n).toNat = n := by
  rw [UInt16.toNat_ofNat']
  omega

lemma toNat_ofNat_uint32 {n : ℕ} (h : n ≤ 4294967295) : (UInt32.ofNat n).toNat = n := by
  rw [UInt32.toNat_ofNat']
  omega

variable {o : LayoutOptions} {contentStart : UInt32} {m t alignment : ℕ} {layout : SectionLayout}

/-- The sums that `repartition` makes stay in `usize`: where the sections may fit, the aligned tags
are added too. -/
def SumsInRange (contentStart : UInt32) (m t alignment : ℕ) : Prop :=
  headerSize + m + t < 2 ^ 64 ∧
    (headerSize + m + t ≤ contentStart.toNat → alignUp (headerSize + m) alignment + t < 2 ^ 64)

/-- Where `repartition` does not panic, its result is the exact one. -/
lemma checkedRepartition_eq_ok_iff {r : Option SectionLayout} :
    checkedRepartition contentStart m t alignment = .ok r ↔
      SumsInRange contentStart m t alignment ∧ repartition contentStart m t alignment = r := by
  have hle := le_alignUp (headerSize + m) alignment
  unfold checkedRepartition repartition SumsInRange
  simp only [checkedAdd_bind_eq_ok_iff, alignUp_max_one]
  by_cases hroom : headerSize + m + t > contentStart.toNat
  · simp only [if_pos hroom, pure, Except.pure, Except.ok.injEq]
    constructor
    · rintro ⟨_, hsum, hr⟩
      exact ⟨⟨hsum, fun hfits => absurd hfits (Nat.not_le.mpr hroom)⟩, hr⟩
    · rintro ⟨⟨hsum, _⟩, hr⟩
      exact ⟨by omega, hsum, hr⟩
  · simp only [if_neg hroom, checkedAlignUp_bind_eq_ok_iff, checkedAdd_bind_eq_ok_iff,
      alignUp_max_one, ← apply_ite, pure, Except.pure, Except.ok.injEq]
    constructor
    · rintro ⟨_, hsum, _, hend, hr⟩
      exact ⟨⟨hsum, fun _ => hend⟩, hr⟩
    · rintro ⟨⟨hsum, hend⟩, hr⟩
      have hend := hend (Nat.not_lt.mp hroom)
      exact ⟨by omega, hsum, by omega, hend, hr⟩

lemma repartition_max_one :
    repartition contentStart m t (max alignment 1) = repartition contentStart m t alignment := by
  unfold repartition
  rw [show max (max alignment 1) 1 = max alignment 1 by omega]

/-- Repartitioning keeps the content where it is and holds both sections. -/
lemma repartition_holds (h : repartition contentStart m t alignment = some layout) :
    layout.contentStart = contentStart ∧ layout.Holds m t := by
  unfold repartition at h
  dsimp only at h
  split_ifs at h with hroom haligned hlimit hlimit
  · cases h
    have hle := le_alignUp (headerSize + m) (max alignment 1)
    have hnat := toNat_ofNat_uint16 (Nat.not_lt.mp hlimit)
    exact ⟨rfl, by dsimp only; omega, by dsimp only; omega⟩
  · cases h
    have hnat := toNat_ofNat_uint16 (Nat.not_lt.mp hlimit)
    exact ⟨rfl, by dsimp only; omega, by dsimp only; omega⟩

/-- Sections whose aligned or packed offset fits can be partitioned. -/
lemma repartition_isSome (hroom : headerSize + m + t ≤ contentStart.toNat)
    (hlimit : alignUp (headerSize + m) alignment ≤ 65535) :
    ∃ layout, repartition contentStart m t alignment = some layout := by
  unfold repartition
  dsimp only
  have hle := le_alignUp (headerSize + m) alignment
  rw [if_neg (by omega), alignUp_max_one]
  split_ifs <;> first | omega | exact ⟨_, rfl⟩

lemma computeFresh_spec (h : o.computeFresh m t = .ok layout) :
    layout.Holds m t ∧ alignUp (headerSize + m) o.alignment ≤ 65535 := by
  unfold computeFresh at h
  dsimp only at h
  simp only [alignUp_max_one] at h
  have hmeta := le_alignUp (headerSize + m + o.metadataReserve) o.alignment
  have hmono : alignUp (headerSize + m) o.alignment ≤
      alignUp (headerSize + m + o.metadataReserve) o.alignment := alignUp_mono (by omega) _
  split_ifs at h with htags hcontent
  cases h
  have htag := le_alignUp
    (alignUp (headerSize + m + o.metadataReserve) o.alignment + t + o.tagReserve) o.alignment
  have hnat := toNat_ofNat_uint16 (Nat.not_lt.mp htags)
  have hnat' := toNat_ofNat_uint32 (Nat.not_lt.mp hcontent)
  exact ⟨⟨by dsimp only; omega, by dsimp only; omega⟩, by omega⟩

/-- Sections that fit behind the prefix are put there. -/
lemma compute_of_repartition (hmin : o.minContentStart.toNat > 0)
    (hrep : repartition o.minContentStart m t o.alignment = some layout) :
    o.compute m t = .ok layout := by
  unfold compute
  rw [if_pos hmin, repartition_max_one, hrep]

/-- A computed layout is a fresh one or the reused prefix. -/
lemma compute_cases (h : o.compute m t = .ok layout) :
    repartition o.minContentStart m t o.alignment = some layout ∨
      o.computeFresh m t = .ok layout := by
  unfold compute at h
  split_ifs at h with hmin
  · cases hrep : repartition o.minContentStart m t (max o.alignment 1) with
    | some l =>
        rw [hrep] at h
        cases h
        rw [repartition_max_one] at hrep
        exact .inl hrep
    | none =>
        rw [hrep] at h
        exact .inr h
  · exact .inr h

/-- A computed layout holds the sections it was computed for. -/
lemma compute_holds (h : o.compute m t = .ok layout) : layout.Holds m t := by
  rcases compute_cases h with hrep | hfresh
  · exact (repartition_holds hrep).2
  · exact (computeFresh_spec hfresh).1

/-- A computed layout can be partitioned again for the same sections: they never outgrow it. -/
theorem repartition_of_compute (h : o.compute m t = .ok layout) :
    ∃ layout', repartition layout.contentStart m t o.alignment = some layout' := by
  rcases compute_cases h with hrep | hfresh
  · rw [(repartition_holds hrep).1]
    exact ⟨layout, hrep⟩
  · obtain ⟨hholds, hlimit⟩ := computeFresh_spec hfresh
    have := hholds.metadata_le
    have := hholds.tags_le
    exact repartition_isSome (by omega) hlimit

/-! ## What the code computes -/

/-- Sections that are repartitioned without a panic are where exact arithmetic puts them. -/
lemma repartition_of_checked {r : Option SectionLayout}
    (h : checkedRepartition contentStart m t alignment = .ok r) :
    repartition contentStart m t alignment = r := (checkedRepartition_eq_ok_iff.mp h).2

/-- `repartition` gives no error of its own. -/
lemma checkedRepartition_eq_error {e : ObjectFileError}
    (h : checkedRepartition contentStart m t alignment = .error e) :
    e = .panicked .arithmeticOverflow := by
  unfold checkedRepartition at h
  refine (checkedAdd_bind_eq_error h).elim id fun h => ?_
  refine (checkedAdd_bind_eq_error h).elim id fun h => ?_
  split_ifs at h
  · cases h
  refine (checkedAlignUp_bind_eq_error h).elim id fun h => ?_
  refine (checkedAdd_bind_eq_error h).elim id fun h => ?_
  dsimp only at h
  split_ifs at h <;> cases h

lemma checkedRepartition_holds
    (h : checkedRepartition contentStart m t alignment = .ok (some layout)) :
    layout.contentStart = contentStart ∧ layout.Holds m t :=
  repartition_holds (repartition_of_checked h)

lemma checkedRepartition_max_one : checkedRepartition contentStart m t (max alignment 1) =
    checkedRepartition contentStart m t alignment := by
  unfold checkedRepartition
  rw [show max (max alignment 1) 1 = max alignment 1 by omega]

/-- No sum of a fresh layout is larger than the offsets it arrives at. -/
lemma checkedComputeFresh_eq_ok_iff :
    o.checkedComputeFresh m t = .ok layout ↔ o.computeFresh m t = .ok layout := by
  unfold checkedComputeFresh computeFresh
  simp only [checkedAdd_bind_eq_ok_iff, checkedAlignUp_bind_eq_ok_iff, alignUp_max_one]
  have hmeta := le_alignUp (headerSize + m + o.metadataReserve) o.alignment
  by_cases htags : alignUp (headerSize + m + o.metadataReserve) o.alignment > 65535
  · simp only [if_pos htags]
    exact iff_of_false (fun h => nomatch h.2.2.2) nofun
  simp only [if_neg htags, checkedAdd_bind_eq_ok_iff, checkedAlignUp_bind_eq_ok_iff,
    alignUp_max_one]
  have htag := le_alignUp (alignUp (headerSize + m + o.metadataReserve) o.alignment + t +
    o.tagReserve) o.alignment
  by_cases hcontent : max (alignUp (alignUp (headerSize + m + o.metadataReserve) o.alignment + t +
      o.tagReserve) o.alignment) (alignUp o.minContentStart.toNat o.alignment) > 4294967295
  · simp only [if_pos hcontent]
    exact iff_of_false (fun h => nomatch h.2.2.2.2.2.2.2) nofun
  · simp only [if_neg hcontent]
    exact ⟨fun h => h.2.2.2.2.2.2.2, fun h => ⟨by omega, by omega, by omega, by omega, by omega,
      by omega, by omega, h⟩⟩

/-- `compute` returns the layout of exact arithmetic, unless the sums of the prefix that it tries
first leave `usize`. -/
lemma checkedCompute_eq_ok_iff : o.checkedCompute m t = .ok layout ↔
    (0 < o.minContentStart.toNat → SumsInRange o.minContentStart m t o.alignment) ∧
      o.compute m t = .ok layout := by
  unfold checkedCompute compute
  by_cases hmin : o.minContentStart.toNat > 0
  swap
  · simp only [if_neg hmin, pure_bind, checkedComputeFresh_eq_ok_iff]
    exact ⟨fun h => ⟨fun hpos => absurd hpos hmin, h⟩, fun h => h.2⟩
  rw [if_pos hmin, if_pos hmin, checkedRepartition_max_one, repartition_max_one]
  cases hchecked : checkedRepartition o.minContentStart m t o.alignment with
  | error e =>
      refine iff_of_false nofun fun h => ?_
      rw [checkedRepartition_eq_ok_iff.mpr ⟨h.1 hmin, rfl⟩] at hchecked
      cases hchecked
  | ok r =>
      obtain ⟨hsums, rfl⟩ := checkedRepartition_eq_ok_iff.mp hchecked
      rw [ok_bind]
      cases repartition o.minContentStart m t o.alignment with
      | some layout' => exact ⟨fun h => ⟨fun _ => hsums, h⟩, fun h => h.2⟩
      | none => exact checkedComputeFresh_eq_ok_iff.trans ⟨fun h => ⟨fun _ => hsums, h⟩,
          fun h => h.2⟩

lemma compute_of_checked (h : o.checkedCompute m t = .ok layout) : o.compute m t = .ok layout :=
  (checkedCompute_eq_ok_iff.mp h).2

lemma checkedCompute_holds (h : o.checkedCompute m t = .ok layout) : layout.Holds m t :=
  compute_holds (compute_of_checked h)

/-- For sections that a layout is computed for, the sums of any prefix stay in `usize`. -/
lemma sumsInRange_of_checkedCompute (h : o.checkedCompute m t = .ok layout)
    (contentStart : UInt32) : SumsInRange contentStart m t o.alignment := by
  obtain ⟨hsums, hcompute⟩ := checkedCompute_eq_ok_iff.mp h
  rcases compute_cases hcompute with hreused | hfresh
  · obtain ⟨hstart, hmeta, htags⟩ := repartition_holds hreused
    rw [hstart] at htags
    have hmin : 0 < o.minContentStart.toNat := by
      unfold headerSize at hmeta
      omega
    obtain ⟨hlt, hend⟩ := hsums hmin
    exact ⟨hlt, fun _ => hend (by omega)⟩
  · obtain ⟨⟨hmeta, htags⟩, hlimit⟩ := computeFresh_spec hfresh
    have := layout.contentStart.toNat_lt
    exact ⟨by omega, fun _ => by omega⟩

/-- The code finds room for the same sections in a layout that it has computed. -/
theorem checkedRepartition_of_checkedCompute (h : o.checkedCompute m t = .ok layout) :
    ∃ layout', checkedRepartition layout.contentStart m t o.alignment = .ok (some layout') := by
  obtain ⟨layout', hrep⟩ := repartition_of_compute (compute_of_checked h)
  exact ⟨layout', checkedRepartition_eq_ok_iff.mpr ⟨sumsInRange_of_checkedCompute h _, hrep⟩⟩

/-- Sizes, reserves and an alignment that are far from the limits of `usize`. -/
structure Moderate (o : LayoutOptions) (m t : ℕ) : Prop where
  sections_le : headerSize + m + t + max o.alignment 1 ≤ 2 ^ 64
  metadata_le : headerSize + m + o.metadataReserve + max o.alignment 1 ≤ 2 ^ 64
  tags_le : 65535 + t + o.tagReserve + max o.alignment 1 ≤ 2 ^ 64
  floor_le : o.minContentStart.toNat + max o.alignment 1 ≤ 2 ^ 64

lemma Moderate.sumsInRange (h : o.Moderate m t) (contentStart : UInt32) :
    SumsInRange contentStart m t o.alignment := by
  have := h.sections_le
  have := alignUp_lt (headerSize + m) o.alignment
  exact ⟨by omega, fun _ => by omega⟩

lemma Moderate.checkedComputeFresh_eq (h : o.Moderate m t) :
    o.checkedComputeFresh m t = o.computeFresh m t := by
  obtain ⟨hsections, hmeta, htags, hfloor⟩ := h
  have hadd : ∀ {a b}, a + b < 2 ^ 64 → checkedAdd a b = .ok (a + b) := fun h => if_pos h
  have halign : ∀ {a}, a + max o.alignment 1 ≤ 2 ^ 64 →
      checkedAlignUp a o.alignment = .ok (alignUp a o.alignment) := by
    intro a ha
    have := alignUp_lt a o.alignment
    exact if_pos (by omega)
  have hpos : 0 < max o.alignment 1 := by omega
  unfold checkedComputeFresh computeFresh
  simp only [checkedAlignUp_max_one, alignUp_max_one]
  rw [hadd (by omega), ok_bind, hadd (by omega), ok_bind, halign hmeta, ok_bind]
  by_cases hlimit : alignUp (headerSize + m + o.metadataReserve) o.alignment > 65535
  · rw [if_pos hlimit, if_pos hlimit]
    rfl
  rw [if_neg hlimit, if_neg hlimit]
  show (checkedAdd _ t >>= _) = _
  rw [hadd (by omega), ok_bind, hadd (by omega), ok_bind, halign (by omega), ok_bind,
    halign hfloor, ok_bind]
  split_ifs <;> rfl

/-- With moderate sizes the code computes what exact arithmetic does. -/
lemma Moderate.checkedCompute_eq (h : o.Moderate m t) : o.checkedCompute m t = o.compute m t := by
  unfold checkedCompute compute
  rw [h.checkedComputeFresh_eq, checkedRepartition_max_one, repartition_max_one,
    checkedRepartition_eq_ok_iff.mpr ⟨h.sumsInRange _, rfl⟩]
  split_ifs
  · cases repartition o.minContentStart m t o.alignment <;> rfl
  · rfl

/-- With a small alignment the code computes every layout that exact arithmetic does. -/
lemma checkedCompute_of_compute (halignment : o.alignment < 2 ^ 32)
    (h : o.compute m t = .ok layout) : o.checkedCompute m t = .ok layout := by
  refine checkedCompute_eq_ok_iff.mpr ⟨fun _ => ?_, h⟩
  obtain ⟨hmeta, htags⟩ := compute_holds h
  have hlt := layout.contentStart.toNat_lt
  have haligned := alignUp_lt (headerSize + m) o.alignment
  exact ⟨by omega, fun _ => by omega⟩

end LayoutOptions

end TuxEncoding
