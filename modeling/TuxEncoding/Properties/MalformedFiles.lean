import TuxEncoding.Properties.Relayout
import TuxEncoding.Properties.WrittenBack

/-!
# Malformed files

What an object that any bytes open as can do to its reader.

* `calm_openAs` and `calm_rewrite`: opening never panics, whatever the file holds, and neither does
  a rewrite, whatever the header says: it works with layouts it has computed itself.
* `malformed_file_never_panics_iff`: the accessors of an opened object never panic exactly when its
  header puts the tags in front of the content and gives the content a length that the allocator
  has a buffer for.

The buffers for the sections are below 4 GiB, since their offsets are, and are taken to be granted.
-/

namespace TuxEncoding

open Interaction Program

set_option linter.unusedSectionVars false

section

variable [Platform] [Codecs]

/-! ## Functions that never panic -/

/-- Whatever the environment answers, the function returns and does not panic. -/
abbrev Calm {α : Type} (m : Fs α) : Prop := Fallible.Raises (fun e => ¬ e.IsPanic) m

/-- Whatever the environment answers, the method returns and does not panic. -/
abbrev CalmMethod {σ α : Type} (m : FsMethod σ α) : Prop := Method.Raises (fun e => ¬ e.IsPanic) m

variable {α : Type}

lemma calm_attemptIo (p : Program FsCall.Reply (Except IoError α)) : Calm (attemptIo p) :=
  Fallible.Raises.attempt (fun _ => id) p

lemma calm_decodeSection (dec : Decoder α) (buffer : List UInt8) :
    Calm (orReturn (decodeSection dec buffer)) := by
  apply Fallible.Raises.ofExcept
  intro e he
  unfold decodeSection at he
  cases hdec : dec ⟨buffer, 0⟩ with
  | ok p =>
      rw [hdec] at he
      cases he
  | error err =>
      rw [hdec] at he
      cases he
      exact not_false

lemma calm_ensureSupported (compression : CompressionTypes) :
    Calm (orReturn (ensureSupported compression)) := by
  apply Fallible.Raises.ofExcept
  intro e he
  unfold ensureSupported at he
  split_ifs at he
  cases he
  exact not_false

/-- Computing a layout for sections of moderate size does not panic. -/
lemma calm_compute {o : LayoutOptions} {m t : ℕ} (h : o.Moderate m t) :
    Calm (orReturn (o.checkedCompute m t)) := by
  apply Fallible.Raises.ofExcept
  intro e he
  rw [h.checkedCompute_eq] at he
  obtain ⟨_, _, _, rfl, _⟩ := LayoutOptions.compute_error he
  exact not_false

/-- A layout that was computed for the sections is no reason to panic. -/
lemma calm_encodePrefix {header : ObjectHeader} {metadata : MetadataMap} {tags : Tags String}
    {layout : SectionLayout} (hholds : layout.Holds (size metadata) (size tags)) :
    Calm (orReturn (encodePrefix header metadata tags layout)) := by
  apply Fallible.Raises.ofExcept
  intro e he
  obtain ⟨hm, ht⟩ :=
    (SectionLayout.holds_iff hholds.headerSize_le hholds.tagsStart_le).mp hholds
  unfold encodePrefix at he
  rw [SectionLayout.checkedMetadataSpace_of_le hholds.headerSize_le,
    SectionLayout.checkedTagsSpace_of_le hholds.tagsStart_le] at he
  simp only [ok_bind, if_neg (Nat.not_lt.mpr hm), if_neg (Nat.not_lt.mpr ht)] at he
  cases hwrite : writePrefix header metadata tags layout
      ⟨List.replicate layout.prefixSize 0, 0⟩ with
  | ok p =>
      rw [hwrite] at he
      cases he
  | error err =>
      rw [hwrite] at he
      cases he
      exact not_false

/-! ## Rewrites -/

namespace ObjectWriter

lemma calm_tryNames (parent stem : List Char) (pid n : ℕ) :
    Calm (tryNames parent stem pid n) := by
  induction n with
  | zero => exact Fallible.Raises.throw id
  | succ n ih =>
      apply Fallible.Raises.bind (Fallible.Raises.lift _)
      intro counter
      apply Fallible.Raises.bind (Fallible.Raises.lift _)
      intro r
      cases r with
      | ok file => exact Fallible.Raises.pure _
      | error err => exact Fallible.Raises.ite (fun _ => ih) fun _ => Fallible.Raises.throw id

lemma calm_createAs (flavor : Flavor) (path : Path) {options : CreateOptions}
    (h : options.layout.Moderate (size options.metadata) (size options.tags)) :
    Calm (createAs flavor path options) := by
  apply Fallible.Raises.bind (calm_ensureSupported _)
  intro _
  apply Fallible.Raises.ite (fun _ => Fallible.Raises.throw id)
  intro _
  apply Fallible.Raises.bind (calm_compute h)
  intro layout
  have htemp : Calm (createTempFile path) :=
    Fallible.Raises.bind (Fallible.Raises.lift _) fun pid => calm_tryNames _ _ pid 32
  apply Fallible.Raises.bind htemp
  rintro ⟨file, tempPath⟩
  exact Fallible.Raises.bind (Method.Raises.holding (Method.Raises.lift (calm_attemptIo _)) _)
    fun _ => Fallible.Raises.pure _

lemma calm_storePrefix (flavor : Flavor) (bytes : List UInt8) :
    CalmMethod (storePrefix flavor bytes) := by
  apply Method.Raises.bind (Method.Raises.adapt (fun _ => id) _)
  intro _
  apply Method.Raises.bind Method.Raises.get
  intro self
  have hcall : ∀ p : Program FsCall.Reply (Except IoError Unit),
      CalmMethod (liftM (attemptIo p) : FsMethod ObjectWriter Unit) :=
    fun p => Method.Raises.lift (calm_attemptIo p)
  refine Method.Raises.bind (hcall _) fun _ => Method.Raises.bind (hcall _) fun _ =>
    Method.Raises.bind (hcall _) fun _ => ?_
  cases self.sync with
  | true => exact hcall _
  | false => exact Method.Raises.pure _

lemma calm_publish : CalmMethod publish := by
  apply Method.Raises.bind Method.Raises.get
  intro self
  cases self.tempPath with
  | none => exact Method.Raises.pure _
  | some tempPath =>
      apply Method.Raises.bind (Method.Raises.update _)
      intro _
      apply Method.Raises.bind (Method.Raises.lift (calm_attemptIo _))
      intro _
      split
      · apply Method.Raises.bind (Method.Raises.lift (Fallible.Raises.lift _))
        rintro (_ | _)
        · exact Method.Raises.pure _
        · exact Method.Raises.bind (Method.Raises.lift (Fallible.Raises.lift _))
            fun _ => Method.Raises.pure _
      · exact Method.Raises.pure _

lemma calm_finishInPlace {flavor : Flavor} {self : ObjectWriter} {layout : SectionLayout}
    (hholds : layout.Holds (size self.metadata) (size self.tags)) :
    Calm (consume drop (finishInPlace flavor layout) self) := by
  refine Method.Raises.consume (Method.Safe.bind (Method.Safe.modify
    (Method.Safe.bind (Method.Safe.get ?_))))
  have hrest : CalmMethod (do
      let bytes ← orReturn (encodePrefix (self.setLayout layout).buildHeader self.metadata
        self.tags layout)
      storePrefix flavor bytes
      publish
      let file ← attemptIo (sys (.tryClone self.file))
      return ({
        file := file
        path := self.finalPath
        header := (self.setLayout layout).buildHeader
        metadata := self.metadata
        writable := true
      } : TuxObject)) := by
    apply Method.Raises.bind (Method.Raises.lift (calm_encodePrefix hholds))
    intro bytes
    refine Method.Raises.bind (calm_storePrefix flavor bytes) fun _ => ?_
    refine Method.Raises.bind calm_publish fun _ => ?_
    exact Method.Raises.bind (Method.Raises.lift (calm_attemptIo _)) fun _ => Method.Raises.pure _
  exact hrest (self.setLayout layout)

/-- Finishing a writer with room for its sections does not panic. -/
lemma calm_finishWithin {flavor : Flavor} {n : ℕ} {self : ObjectWriter} (h : HasRoom self) :
    Calm (finishWithin flavor n self) := by
  obtain ⟨layout, hrep⟩ := h
  unfold finishWithin
  rw [hrep]
  exact calm_finishInPlace (LayoutOptions.checkedRepartition_holds hrep).2

end ObjectWriter

lemma calm_ensureWritable (self : TuxObject) : Calm (orReturn self.ensureWritable) := by
  apply Fallible.Raises.ofExcept
  intro e he
  unfold TuxObject.ensureWritable at he
  split_ifs at he
  cases he
  exact not_false

/-- The sections of an update, of which one may have been read from a file. -/
abbrev UpdateSized (metadata : MetadataMap) (tags : Tags String) : Prop :=
  size metadata + size tags ≤ isizeMax + 2 ^ 32

lemma UpdateSized.moderate {metadata : MetadataMap} {tags : Tags String}
    (h : UpdateSized metadata tags) (self : TuxObject) :
    (self.rewriteOptions metadata tags).layout.Moderate (size metadata) (size tags) := by
  have hmax : isizeMax = 2 ^ 63 - 1 := rfl
  have hheader : headerSize = 32 := rfl
  have hreserve : defaultMetadataReserve = 256 := rfl
  have hreserve' : defaultTagReserve = 256 := rfl
  have halignment : defaultAlignment = 32 := rfl
  have hstart := self.header.contentStart.toNat_lt
  constructor <;> simp only [TuxObject.rewriteOptions, LayoutOptions.default] <;> omega

/-- An update works with layouts that were computed for its sections. -/
lemma calm_rewrite {metadata : MetadataMap} {tags : Tags String}
    (h : UpdateSized metadata tags) : CalmMethod (TuxObject.rewrite metadata tags) := by
  apply Method.Raises.bind Method.Raises.get
  intro self
  refine Method.Raises.bind (Method.Raises.lift ?_) fun _ => Method.Raises.set _
  apply Fallible.Raises.bind (calm_ensureWritable self)
  intro _
  refine Fallible.Raises.bind_of_yields (ObjectWriter.calm_createAs _ _ (h.moderate self))
    (ObjectWriter.createAs_hasRoom _ _ _) fun writer hroom => ?_
  have hcopy : CalmMethod self.copyStored := by
    refine Method.Raises.bind (Method.Raises.lift ?_) fun _ => Method.Raises.adapt (fun _ => id) _
    exact Fallible.Raises.bind (calm_attemptIo _) fun _ => Fallible.Raises.pure _
  have hkeeps : Method.Keeps ObjectWriter.HasRoom self.copyStored :=
    Method.Keeps.bind (Method.Keeps.lift _) fun _ =>
      Method.Keeps.adapt (ObjectWriter.copyAs_hasRoom _ _)
  exact Fallible.Raises.bind_of_yields (Method.Raises.holding hcopy writer)
    (Method.Keeps.holding hkeeps hroom) fun p hroom' => ObjectWriter.calm_finishWithin hroom'

lemma calm_openAs (path : Path) (writable : Bool) : Calm (TuxObject.openAs path writable) := by
  rw [TuxObject.openAs_eq]
  apply Fallible.Raises.bind (calm_attemptIo _)
  intro fd
  apply Fallible.Raises.bind (calm_attemptIo _)
  intro _
  apply Fallible.Raises.bind (calm_attemptIo _)
  intro headerBytes
  refine Fallible.Raises.bind (Fallible.Raises.ofExcept ?_) fun header => ?_
  · intro e he
    cases hheader : ObjectHeader.readFromBytes headerBytes with
    | ok header =>
        rw [hheader] at he
        cases he
    | error err =>
        rw [hheader] at he
        cases he
        exact not_false
  · apply Fallible.Raises.ite (fun _ => Fallible.Raises.pure _)
    intro _
    apply Fallible.Raises.bind (calm_attemptIo _)
    intro buffer
    exact Fallible.Raises.bind (calm_decodeSection _ buffer) fun _ => Fallible.Raises.pure _

/-! ## Accessors -/

/-- What an opened object can be asked. -/
inductive Accessor
  | readTags
  | tagCount
  | findTag (key : String)
  | readContentToVec
  | contentRangeReader (offset : UInt64) (length : Option UInt64)
  | setMetadata (metadata : MetadataMap) (inMemory : size metadata ≤ isizeMax)
  | setSectionsInPlace (metadata : MetadataMap) (tags : Tags String)
      (inMemory : size metadata + size tags ≤ isizeMax)

/-- Ask an object, whatever the answer, where the allocator grants buffers of up to `granted` bytes.
-/
def Accessor.run (granted : ℕ) : Accessor → FsMethod TuxObject Unit
  | readTags => do
      let self ← get
      let _ ← self.readTags
  | tagCount => do
      let self ← get
      let _ ← self.tagCount
  | findTag key => do
      let self ← get
      let _ ← self.findTag key
  | readContentToVec => do
      let self ← get
      let _ ← self.readContentToVecWith granted
  | contentRangeReader offset length => do
      let self ← get
      let _ ← self.contentRangeReader offset length
  | setMetadata metadata _ => TuxObject.setMetadata metadata
  | setSectionsInPlace metadata tags _ => TuxObject.setSectionsInPlace metadata tags

/-- Every run of the accessor returns `Ok` or `Err`, whichever calls fail. -/
def Accessor.NeverPanics (granted : ℕ) (accessor : Accessor) (object : TuxObject) (w : World) :
    Prop :=
  ∀ mayFail, Method.Safe (FsStep mayFail) (fun _ _ => True) (accessor.run granted) object
    (fun _ _ _ => True) (fun e _ _ => ¬ e.IsPanic) w

/-- Every run that opens the path returns `Ok` or `Err`, and so does every accessor of the object it
gives. -/
def NeverPanics (granted : ℕ) (path : Path) (writable : Bool) (w : World) : Prop :=
  ∀ mayFail, Fallible.Safe (FsStep mayFail) (fun _ _ => True) (TuxObject.openAs path writable)
    (fun object w' => ∀ accessor : Accessor, accessor.NeverPanics granted object w')
    (fun e _ => ¬ e.IsPanic) w

/-- The tags do not begin behind the content, and there is a buffer for the content. -/
structure ObjectHeader.IsSound (granted : ℕ) (header : ObjectHeader) : Prop where
  tagsStart_le : header.tagsStart.toNat ≤ header.contentStart.toNat
  contentLength_le : header.contentLength.toNat ≤ isizeMax
  granted_le : header.contentLength.toNat ≤ granted

variable {granted : ℕ} {object : TuxObject} {w : World}

lemma calm_checkedTagsSpace (h : object.header.IsSound granted) :
    Calm (orReturn object.layout.checkedTagsSpace) := by
  have hspace : object.layout.checkedTagsSpace = .ok object.layout.tagsSpace :=
    SectionLayout.checkedTagsSpace_of_le h.tagsStart_le
  rw [hspace]
  exact Fallible.Raises.pure _

lemma calm_readContentToVec (h : object.header.IsSound granted) :
    Calm (object.readContentToVecWith granted) := by
  have hcapacity : Calm (orReturn (withCapacity granted object.header.contentLength.toNat)) := by
    rw [withCapacity_of_le h.contentLength_le h.granted_le]
    exact Fallible.Raises.pure _
  have hdecoded : ∀ (compression : CompressionTypes) (reader : ContentReader), Calm (do
      orReturn (ensureSupported compression)
      let stored ← attempt .io (reader.readToEnd (reader.remaining + 1)).run
      orReturn ((Codecs.decode compression stored).mapError .io)) := by
    intro compression reader
    apply Fallible.Raises.bind (calm_ensureSupported _)
    intro _
    apply Fallible.Raises.bind (Fallible.Raises.attempt (fun _ => id) _)
    intro stored
    apply Fallible.Raises.ofExcept
    intro e he
    cases hdecode : Codecs.decode compression stored with
    | ok bs =>
        rw [hdecode] at he
        cases he
    | error err =>
        rw [hdecode] at he
        cases he
        exact not_false
  apply Fallible.Raises.bind hcapacity
  intro _
  apply Fallible.Raises.bind
    (Fallible.Raises.bind (calm_attemptIo _) fun _ => Fallible.Raises.pure _)
  intro reader
  cases object.header.compressionType with
  | none => exact Fallible.Raises.attempt (fun _ => id) _
  | zstd level => exact hdecoded _ reader
  | gzip level => exact hdecoded _ reader

/-- The start of a range within a content that fits a buffer does not overflow. -/
lemma calm_contentRangeReader (h : object.header.IsSound granted) (offset : UInt64)
    (length : Option UInt64) : Calm (object.contentRangeReader offset length) := by
  unfold TuxObject.contentRangeReader
  apply Fallible.Raises.ite (fun _ => Fallible.Raises.throw id)
  intro _
  apply Fallible.Raises.ite (fun _ => Fallible.Raises.throw id)
  intro hoffset
  apply Fallible.Raises.ite (fun _ => Fallible.Raises.throw id)
  intro _
  have hstart : object.header.contentStart.toNat + offset.toNat < 2 ^ 64 := by
    have hlength : object.header.contentLength.toNat ≤ 2 ^ 63 - 1 := h.contentLength_le
    have hle : offset.toNat ≤ object.header.contentLength.toNat :=
      Nat.not_lt.mp fun hlt => hoffset (UInt64.lt_iff_toNat_lt.mpr hlt)
    have := object.header.contentStart.toNat_lt
    omega
  rw [checkedAdd, if_pos hstart]
  apply Fallible.Raises.bind (Fallible.Raises.pure _)
  intro start
  exact Fallible.Raises.bind (calm_attemptIo _) fun _ => Fallible.Raises.pure _

lemma calm_setSectionsInPlace {metadata : MetadataMap} {tags : Tags String}
    (h : UpdateSized metadata tags) :
    CalmMethod (TuxObject.setSectionsInPlace metadata tags) := by
  apply Method.Raises.bind Method.Raises.get
  intro self
  apply Method.Raises.bind (Method.Raises.lift (calm_ensureWritable self))
  intro _
  refine fun object => Method.Safe.bind (Method.Safe.lift (Fallible.Safe.ofExcept ?_))
  have hsums : LayoutOptions.SumsInRange self.header.contentStart (size metadata) (size tags)
      defaultAlignment := (h.moderate self).sumsInRange _
  rw [LayoutOptions.checkedRepartition_eq_ok_iff.mpr ⟨hsums, rfl⟩]
  cases hrep : LayoutOptions.repartition self.header.contentStart (size metadata) (size tags)
      defaultAlignment with
  | none => exact id
  | some layout =>
      refine Method.Raises.bind (Method.Raises.lift (calm_encodePrefix
        (LayoutOptions.repartition_holds hrep).2)) (fun bytes => ?_) object
      refine Method.Raises.bind (Method.Raises.lift (calm_attemptIo _)) fun _ => ?_
      refine Method.Raises.bind (Method.Raises.lift (calm_attemptIo _)) fun _ => ?_
      refine Method.Raises.bind (Method.Raises.lift (calm_attemptIo _)) fun _ => ?_
      exact Method.Raises.set _

/-- A reader of the tag section does not panic unless what it makes of the bytes does. -/
lemma calm_tagReader {α : Type} (h : object.header.IsSound granted) {length : ℕ → ℕ} {a : α}
    {k : List UInt8 → Fs α} (hk : ∀ buffer, Calm (k buffer)) : Calm (do
      let space ← orReturn object.layout.checkedTagsSpace
      if space = 0 then pure a
      else do
        attemptIo (sys (.seek object.file object.header.tagsStart.toNat))
        let buffer ← attemptIo (sys (.readExact object.file (length space)))
        k buffer) := by
  apply Fallible.Raises.bind (calm_checkedTagsSpace h)
  intro space
  apply Fallible.Raises.ite (fun _ => Fallible.Raises.pure _)
  intro _
  apply Fallible.Raises.bind (calm_attemptIo _)
  intro _
  exact Fallible.Raises.bind (calm_attemptIo _) hk

/-- The tags of a file take up no more than the space in front of the content. -/
lemma size_storedTags {data : List UInt8} {tags : Tags String}
    (hle : object.header.tagsStart.toNat ≤ object.header.contentStart.toNat)
    (h : object.storedTags data = .ok tags) : size tags ≤ 2 ^ 32 := by
  rcases Nat.lt_or_eq_of_le hle with hlt | heq
  · have hroom := (storedTags_room hlt h).2.1
    have := object.header.contentStart.toNat_lt
    omega
  · have hspace : object.layout.checkedTagsSpace = .ok object.layout.tagsSpace :=
      SectionLayout.checkedTagsSpace_of_le hle
    have hempty : object.layout.tagsSpace = 0 := Nat.sub_eq_zero_of_le (Nat.le_of_eq heq.symm)
    unfold TuxObject.storedTags at h
    rw [hspace, ok_bind, if_pos hempty] at h
    obtain rfl := Except.ok.inj h
    rw [Tags.size_new]
    omega

/-- Where the header is sound no accessor panics, whatever the file and the environment do. -/
lemma Accessor.calm {i : ℕ} (hopen : OpenOn w object i) (h : object.header.IsSound granted)
    (accessor : Accessor) : accessor.NeverPanics granted object w := by
  have hreadTags : Calm object.readTags :=
    calm_tagReader h (calm_decodeSection _)
  have hread : ∀ {α} {m : TuxObject → Fs α}, Calm (m object) → ∀ mayFail,
      Method.Safe (FsStep mayFail) (fun _ _ => True) (do
        let self ← get
        let _ ← m self : FsMethod TuxObject Unit) object (fun _ _ _ => True)
        (fun e _ _ => ¬ e.IsPanic) w := by
    intro α m hm mayFail
    refine Method.Safe.bind (Method.Safe.get (Method.Safe.bind (Method.Safe.lift ?_)))
    exact Fallible.Safe.mono (hm.safe w) (fun _ _ _ => Method.Safe.pure trivial) fun _ _ he => he
  cases accessor with
  | readTags => exact hread hreadTags
  | tagCount =>
      apply hread
      exact calm_tagReader h fun _ => Fallible.Raises.pure _
  | findTag key =>
      apply hread
      exact calm_tagReader h (calm_decodeSection _)
  | readContentToVec => exact hread (calm_readContentToVec h)
  | contentRangeReader offset length => exact hread (calm_contentRangeReader h offset length)
  | setMetadata metadata hmetadata =>
      intro mayFail
      refine Method.Safe.bind (Method.Safe.get (Method.Safe.bind (Method.Safe.lift ?_)))
      have hreturns : Returns mayFail object.readTags _ w := hopen.readTags_returns
      refine Fallible.Safe.mono (Fallible.Safe.and (hreadTags.safe w)
        (Fallible.Safe.allow (fun _ _ _ => trivial) hreturns)) ?_
        fun _ _ he => he.1
      rintro tags w' ⟨_, htags, _⟩
      have hsize := size_storedTags h.tagsStart_le htags
      exact (calm_rewrite (Nat.add_le_add hmetadata hsize)).safe object w'
  | setSectionsInPlace metadata tags hsections =>
      exact fun mayFail =>
        (calm_setSectionsInPlace (Nat.le_add_right_of_le hsections)).safe object w

/-- A reader that can only panic shows that not every accessor is calm. -/
lemma Accessor.not_neverPanics {α : Type} {accessor : Accessor} {m : Fs α} {p : Panic}
    (hreturns : Returns NoFaults m (.error (.panicked p)) w)
    (hrun : (accessor.run granted).on object = (do
      let self ← get
      let _ ← (fun _ => m) self : FsMethod TuxObject Unit).on object) :
    ¬ accessor.NeverPanics granted object w := by
  intro hnever
  have hpanics : Method.Safe (FsStep NoFaults) (fun _ _ => True) (accessor.run granted)
      object (fun _ _ _ => False) (fun e _ _ => e.IsPanic) w := by
    unfold Method.Safe
    rw [hrun]
    refine Method.Safe.bind (Method.Safe.get (Method.Safe.bind (Method.Safe.lift ?_)))
    refine Fallible.Safe.mono (Fallible.Safe.allow (fun _ _ _ => trivial) hreturns) ?_ ?_
    · exact fun a w' ha => nomatch ha.1
    · rintro e w' ⟨_, hfault | he⟩
      · exact absurd hfault not_isFault_noFaults
      · cases he
        trivial
  have hends := exec_ends (fsStep_perform NoFaults) ((accessor.run granted).on object) w
  have hpanic := Program.Safe.ends hpanics hends
  have hcalm := Program.Safe.ends (hnever NoFaults) hends
  rcases hresult : (exec perform ((accessor.run granted).on object) w).1 with ⟨e | a, object'⟩
  · rw [hresult] at hpanic hcalm
    exact hcalm hpanic
  · rw [hresult] at hpanic
    exact hpanic

/-- Nothing that can be asked of an opened object panics exactly when its header is sound. -/
lemma OpenOn.neverPanics_iff {i : ℕ} (h : OpenOn w object i) :
    (∀ accessor : Accessor, accessor.NeverPanics granted object w) ↔
      object.header.IsSound granted := by
  constructor
  · intro hnever
    have htags : object.header.tagsStart.toNat ≤ object.header.contentStart.toNat := by
      by_contra htags
      have hspace : object.layout.checkedTagsSpace = .error (.panicked .arithmeticOverflow) :=
        SectionLayout.checkedTagsSpace_of_lt (Nat.not_le.mp htags)
      have hreturns : Returns NoFaults object.readTags (object.storedTags (w.data i)) w :=
        h.readTags_returns
      unfold TuxObject.storedTags at hreturns
      rw [hspace] at hreturns
      exact Accessor.not_neverPanics hreturns rfl (hnever .readTags)
    have hlength : object.header.contentLength.toNat ≤ isizeMax ∧
        object.header.contentLength.toNat ≤ granted := by
      by_contra hlength
      have hreturns : Returns NoFaults (object.readContentToVecWith granted)
          (object.storedVecWith granted (w.data i)) w := h.readContentToVec_returns
      obtain ⟨panic, hpanic⟩ := withCapacity_of_not_le hlength
      unfold TuxObject.storedVecWith at hreturns
      rw [hpanic] at hreturns
      exact Accessor.not_neverPanics hreturns rfl (hnever .readContentToVec)
    exact ⟨htags, hlength.1, hlength.2⟩
  · exact fun hsound accessor => accessor.calm h hsound

/-- Whatever bytes a path leads to and however large a buffer the allocator grants, opening it
returns `Ok` or `Err`, and so does everything that the object can be asked, exactly when a header
that opens is sound. -/
theorem malformed_file_never_panics_iff (granted : ℕ) (path : Path) (writable : Bool) (w : World) :
    NeverPanics granted path writable w ↔
      ∀ i header metadata, w.dir path = some i →
        readPrefix (w.data i) = .ok (header, metadata) → header.IsSound granted := by
  constructor
  · intro hnever i header metadata hdir hread
    obtain ⟨object, w', hrun, rfl, _, hopen, _⟩ :=
      (openAs_delivers writable hdir hread).exec (fsStep_perform NoFaults)
    exact hopen.neverPanics_iff.mp ((hnever NoFaults).ends hrun)
  · intro hsound mayFail
    have hcalm : Fallible.Safe (FsStep mayFail) (fun _ _ => True)
        (TuxObject.openAs path writable) (fun _ _ => True) (fun e _ => ¬ e.IsPanic) w :=
      (calm_openAs path writable).safe w
    rw [TuxObject.openAs_eq] at hcalm ⊢
    refine Fallible.Safe.mono (Fallible.Safe.and openAs_returns hcalm) ?_ ?_
    · rintro object w' ⟨⟨_, _, i, hdir, hopen, hread, hsame⟩, _⟩
      exact hopen.neverPanics_iff.mpr (hsound i _ _ hdir hread)
    · exact fun e w' he => he.2

end

attribute [local instance] fullPlatform pairCodecs

/-- The header of 32 bytes that puts the content at the start of the file, in front of the tags. -/
def contentFirst : ObjectHeader := ⟨0, .none, 32, 0, 0, 0⟩

/-- A file of 32 bytes makes its reader panic. -/
theorem malformed_file_panics :
    ¬ ∀ (path : Path) (writable : Bool) (w : World), NeverPanics isizeMax path writable w := by
  intro h
  have hread : readPrefix ((World.single contentFirst.wire).data 0) =
      .ok (contentFirst, Tags.new) :=
    (congrArg readPrefix (List.append_nil contentFirst.wire).symm).trans
      (readPrefix_wire rfl (by decide) [])
  have hdir : (World.single contentFirst.wire).dir World.somePath = some 0 := rfl
  obtain ⟨object, w', hrun, hheader, _, hopen, _⟩ :=
    (openAs_delivers false hdir hread).exec (fsStep_perform NoFaults)
  have hsound := hopen.neverPanics_iff.mp ((h World.somePath false _ NoFaults).ends hrun)
  rw [hheader] at hsound
  exact absurd hsound.tagsStart_le (by decide)

end TuxEncoding
