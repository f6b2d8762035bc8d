import TuxEncoding.Codec.Cuts
import TuxEncoding.Codec.Sections
import TuxEncoding.Properties.AcceptedInput
import TuxEncoding.Properties.Isolation

/-!
# Input and files that end too early

The crate tells input that ends too early from input that is wrong: the former is an I/O error of
the kind `UnexpectedEof`.

* `cut_input_reported`: a decoder of the crate gives no other answer to the beginning of some input
  than to all of it, unless it reports the end; and it reports the end of every encoding that is cut
  short.
* `cut_file_iff`: the same of a file that is cut short and of all that a handle shows of its header,
  metadata and tags; the end is reported exactly where the query reaches beyond it.
-/

namespace TuxEncoding

open Bytes Interaction Program

set_option linter.unusedSectionVars false

/-! ## Input -/

/-- The readers of a type report where the input ends. -/
structure EndReported (α : Type) [TuxIOType α] [WritableObjectType α] [ReadableObjectType α]
    [AsyncReadableObjectType α] : Prop where
  readers : ReportsCuts (readFromReader : Decoder α) ∧
    ReportsCuts (readFromAsyncReader : Decoder α)
  measure : ReportsCuts (ReadableObjectType.readSize α) ∧ ReportsCuts (ReadableObjectType.skip α)
  encodings : ∀ (a : α) (bs before : List UInt8) (k : ℕ), writeToBytes a = .ok bs →
    k < bs.length → InputEnded ((readFromReader : Decoder α) ⟨before ++ bs.take k, before.length⟩) ∧
      InputEnded ((readFromAsyncReader : Decoder α) ⟨before ++ bs.take k, before.length⟩)

section

variable {α : Type} [TuxIOType α] [WritableObjectType α] [ReadableObjectType α]
  [AsyncReadableObjectType α]

/-- A type whose encodings read back, and whose decoder accepts no more than there is. -/
lemma CutsReported.endReported (h : CutsReported α)
    (hasync : ReportsCuts (readFromAsyncReader : Decoder α)) (hagrees : AsyncAgrees α)
    {P : α → List UInt8 → Prop} (haccepts : Accepts (readFromReader : Decoder α) P)
    (hreads : ∀ (a : α) bs, writeToBytes a = .ok bs → ∃ b : α, ReadsAs readFromReader bs b) :
    EndReported α where
  readers := ⟨h.reader, hasync⟩
  measure := ⟨h.measure, h.skip⟩
  encodings a bs before k hwrite hk := by
    obtain ⟨b, hread⟩ := hreads a bs hwrite
    have hended := h.reader.fails_of_readsAs haccepts hread hk before
    exact ⟨hended, hagrees.inputEnded hended⟩

lemma readsAs_encoding [Codec α] {a : α} {bs : List UInt8} (h : writeToBytes a = .ok bs) :
    ReadsAs readFromReader bs a := by
  have hfits := (writeToBytes_isOk_iff a).mp ⟨bs, h⟩
  obtain rfl := Except.ok.inj ((writeToBytes_of_fits hfits).symm.trans h)
  exact Codec.readsAs_wire hfits

lemma readsAs_of_writeToBytes [Codec α] (a : α) (bs : List UInt8) (h : writeToBytes a = .ok bs) :
    ∃ b : α, ReadsAs readFromReader bs b := ⟨a, readsAs_encoding h⟩

end

lemma endReported_tags [HashOrder String] : EndReported (Tags String) :=
  (Tags.cutsReported cutsReported_string).endReported Tags.reportsCuts_async
    (Tags.agrees agrees_string) (Tags.delimited strict_string.delimited)
    fun t _ hwrite => ⟨t.decoded, Tags.readsAs_encoding hwrite⟩

/-- Metadata have no async reader. -/
lemma inputEnded_metadata [Http] [HashOrder MetaKey] (metadata : MetadataMap)
    (bs before : List UInt8) (k : ℕ) (hwrite : writeToBytes metadata = .ok bs)
    (hk : k < bs.length) :
    InputEnded ((readFromReader : Decoder MetadataMap) ⟨before ++ bs.take k, before.length⟩) :=
  (Tags.cutsReported cutsReported_metaKey).reader.fails_of_readsAs
    (Tags.delimited delimited_metaKey) (Tags.readsAs_encoding hwrite) hk before

/-- A header is read in one piece, before its version is looked at. -/
lemma endReported_header : EndReported ObjectHeader where
  readers := ⟨cutsReported_header.reader, reportsCuts_headerAsync⟩
  measure := ⟨cutsReported_header.measure, cutsReported_header.skip⟩
  encodings header bs before k hwrite hk := by
    obtain rfl := Except.ok.inj (header.writeToBytes_eq.symm.trans hwrite)
    rw [ObjectHeader.length_wire] at hk
    have hended : InputEnded ((readFromReader : Decoder ObjectHeader)
        ⟨before ++ header.wire.take k, before.length⟩) := by
      refine ⟨shortRead, ?_, rfl⟩
      have hshort : readExact 32 ⟨before ++ header.wire.take k, before.length⟩ =
          .error (.ioError shortRead) := by
        apply if_neg
        dsimp only
        rw [List.length_append, List.length_take]
        omega
      show (readExact 32 _ >>= fun p => _) = _
      rw [hshort]
      rfl
    exact ⟨hended, agrees_header.inputEnded hended⟩

/-- Every reader reports where the input ends, the sync ones and the async ones. The search for a
tag reports it as well, but may find the tag before it gets there. -/
theorem cut_input_reported [Http] [HashOrder String] [HashOrder MetaKey] :
    EndReported ValueType ∧ EndReported (Tags String) ∧ EndReported ObjectHeader ∧
      EndReported String ∧ EndReported (List UInt8) ∧
      (CutsReported MetadataMap ∧
        ∀ (metadata : MetadataMap) (bs before : List UInt8) (k : ℕ),
          writeToBytes metadata = .ok bs → k < bs.length →
            InputEnded ((readFromReader : Decoder MetadataMap)
              ⟨before ++ bs.take k, before.length⟩)) ∧
      ∀ key : String, ReportsCuts (Tags.findFromReader key) :=
  ⟨ValueType.cutsReported.endReported ValueType.reportsCuts_async ValueType.agrees
      ValueType.strict readsAs_of_writeToBytes,
    endReported_tags, endReported_header,
    cutsReported_string.endReported reportsCuts_stringAsync agrees_string strict_string
      readsAs_of_writeToBytes,
    (cutsReported_vec cutsReported_number).endReported reportsCuts_readLengthPrefixed agrees_bytes
      (strict_vec strict_number) readsAs_of_writeToBytes,
    ⟨Tags.cutsReported cutsReported_metaKey, inputEnded_metadata⟩,
    Tags.reportsCuts_findFromReader cutsReported_string⟩

/-! ## Files -/

section

variable [Platform] [Codecs]

/-- What a file that was cut short gives: the end is reported, or nothing is missing. -/
def Cut {α : Type} (cut whole : Except ObjectFileError α) : Prop :=
  cut = .error (.io shortRead) ∨ cut = whole

lemma Cut.bind {α β : Type} {r r' : Except ObjectFileError α}
    {f g : α → Except ObjectFileError β} (h : Cut r r') (hf : ∀ a, Cut (f a) (g a)) :
    Cut (r >>= f) (r' >>= g) := by
  obtain rfl | rfl := h
  · exact .inl rfl
  · cases r with
    | error e => exact .inr rfl
    | ok a => exact hf a

lemma Cut.map {α β : Type} {r r' : Except ObjectFileError α} (h : Cut r r') (f : α → β) :
    Cut (f <$> r) (f <$> r') := by
  rw [map_eq_pure_bind, map_eq_pure_bind]
  exact h.bind fun _ => .inr rfl

variable {data cut : List UInt8}

/-- A slice that the file still has is the slice of the whole file. -/
lemma readSlice_of_prefix_le (h : cut <+: data) {start n : ℕ} (hle : start + n ≤ cut.length) :
    readSlice cut start n = readSlice data start n := by
  apply readSlice_congr (n := cut.length) _ hle
  rw [List.take_length]
  exact List.prefix_iff_eq_take.mp h

lemma readSlice_of_length_lt {start n : ℕ} (h : cut.length < start + n) (hn : 0 < n) :
    readSlice cut start n = .error (.io shortRead) := by
  apply if_pos
  rw [List.length_take, List.length_drop]
  omega

lemma cut_readSlice (h : cut <+: data) (start n : ℕ) :
    Cut (readSlice cut start n) (readSlice data start n) := by
  obtain rfl | hn := Nat.eq_zero_or_pos n
  · exact .inr rfl
  · by_cases hle : start + n ≤ cut.length
    · exact .inr (readSlice_of_prefix_le h hle)
    · exact .inl (readSlice_of_length_lt (by omega) hn)

lemma cut_readPrefix (h : cut <+: data) : Cut (readPrefix cut) (readPrefix data) := by
  unfold readPrefix
  refine (cut_readSlice h _ _).bind fun headerBytes => ?_
  refine Cut.bind (.inr rfl) fun header => ?_
  dsimp only
  split_ifs
  · exact .inr rfl
  · exact (cut_readSlice h _ _).bind fun _ => .inr rfl

/-- The queries about the prefix of a file take everything off slices of it. -/
lemma Query.cut_answer (object : TuxObject) (h : cut <+: data) {q : Query} (hq : q.OfPrefix) :
    Cut (q.answer object cut) (q.answer object data) := by
  cases q with
  | stored | content | range => exact hq.elim
  | sections => exact .inr rfl
  | tags =>
      refine Cut.map (Cut.bind (.inr rfl) fun space => ?_) _
      split_ifs
      · exact .inr rfl
      · exact (cut_readSlice h _ _).bind fun _ => .inr rfl
  | tagCount =>
      refine Cut.map (Cut.bind (.inr rfl) fun space => ?_) _
      split_ifs
      · exact .inr rfl
      · exact (cut_readSlice h _ _).bind fun _ => .inr rfl
  | tag key =>
      refine Cut.map (Cut.bind (.inr rfl) fun space => ?_) _
      split_ifs
      · exact .inr rfl
      · exact (cut_readSlice h _ _).bind fun _ => .inr rfl

lemma Query.cut_result (h : cut <+: data) {q : Query} (hq : q.OfPrefix) :
    Cut (q.result cut) (q.result data) :=
  (cut_readPrefix h).bind fun _ => Query.cut_answer _ h hq

/-- How far into a file with this header the query reaches. -/
def Query.reach (header : ObjectHeader) : Query → ℕ
  | sections | stored | content | range _ _ => max headerSize header.tagsStart.toNat
  | tags | tag _ => max (max headerSize header.tagsStart.toNat) header.contentStart.toNat
  | tagCount =>
      if header.contentStart.toNat ≤ header.tagsStart.toNat then
        max headerSize header.tagsStart.toNat
      else max headerSize (header.tagsStart.toNat + 2)

/-- The parts of a file that opens. -/
lemma readPrefix_eq_ok {header : ObjectHeader} {metadata : MetadataMap}
    (h : readPrefix data = .ok (header, metadata)) :
    headerSize ≤ data.length ∧ ObjectHeader.readFromBytes (data.take headerSize) = .ok header ∧
      storedMetadata header data = .ok metadata := by
  have hlength : headerSize ≤ data.length := by
    by_contra hshort
    have hslice : readSlice data 0 headerSize = .error (.io shortRead) :=
      readSlice_of_length_lt (by omega) (by decide)
    unfold readPrefix at h
    rw [hslice] at h
    cases h
  have hslice : readSlice data 0 headerSize = .ok (data.take headerSize) := by
    rw [readSlice_of_le (by omega), List.drop_zero]
  cases hheader : ObjectHeader.readFromBytes (data.take headerSize) with
  | error e =>
      unfold readPrefix at h
      rw [hslice, ok_bind, hheader] at h
      cases h
  | ok header' =>
      obtain rfl := header_of_readPrefix hheader h
      rw [readPrefix_of_header hheader, hslice, ok_bind] at h
      cases hmetadata : storedMetadata header data with
      | error e =>
          rw [hmetadata] at h
          cases h
      | ok metadata' =>
          rw [hmetadata] at h
          cases h
          exact ⟨hlength, rfl, rfl⟩

/-- A file opens as long as its metadata section is there. -/
lemma readPrefix_cut {header : ObjectHeader} {metadata : MetadataMap} (h : cut <+: data)
    (hread : readPrefix data = .ok (header, metadata)) :
    readPrefix cut = if cut.length < max headerSize header.tagsStart.toNat then
      .error (.io shortRead) else .ok (header, metadata) := by
  obtain ⟨hlength, hheader, hmetadata⟩ := readPrefix_eq_ok hread
  by_cases hshort : cut.length < headerSize
  · rw [if_pos (Nat.lt_of_lt_of_le hshort (Nat.le_max_left _ _))]
    have hslice : readSlice cut 0 headerSize = .error (.io shortRead) :=
      readSlice_of_length_lt (by omega) (by decide)
    unfold readPrefix
    rw [hslice]
    rfl
  · have htake : cut.take headerSize = data.take headerSize := by
      rw [List.prefix_iff_eq_take.mp h, List.take_take, Nat.min_eq_left (by omega)]
    rw [readPrefix_of_header (htake ▸ hheader), readSlice_of_le (by omega), ok_bind]
    unfold storedMetadata at hmetadata ⊢
    by_cases hspace : header.tagsStart.toNat - headerSize = 0
    · rw [if_pos hspace] at hmetadata ⊢
      rw [if_neg (by omega), hmetadata]
      rfl
    · rw [if_neg hspace] at hmetadata ⊢
      by_cases hcut : cut.length < header.tagsStart.toNat
      · rw [if_pos (Nat.lt_of_lt_of_le hcut (Nat.le_max_right _ _)),
          readSlice_of_length_lt (by omega) (by omega)]
        rfl
      · rw [if_neg (by omega), readSlice_of_prefix_le h (by omega), hmetadata]
        rfl

/-- A slice, and what is computed of it, where the end is reported exactly when the slice is cut
off. -/
lemma slice_cut {α : Type} (h : cut <+: data) (start n : ℕ) (hn : 0 < n)
    (f : List UInt8 → Except ObjectFileError α) :
    (readSlice cut start n >>= f) = if cut.length < start + n then .error (.io shortRead)
      else readSlice data start n >>= f := by
  by_cases hle : cut.length < start + n
  · rw [if_pos hle, readSlice_of_length_lt hle hn]
    rfl
  · rw [if_neg hle, readSlice_of_prefix_le h (by omega)]

/-- What is read of the tag section, `k space` bytes of it. -/
lemma tagSlice_cut {α : Type} (object : TuxObject) (h : cut <+: data) (k : ℕ → ℕ)
    (hk : ∀ space, 0 < space → 0 < k space) (a : α) (f : List UInt8 → Except ObjectFileError α)
    (hthere : max headerSize object.header.tagsStart.toNat ≤ cut.length) {n : ℕ}
    (hn : n = if object.header.contentStart.toNat ≤ object.header.tagsStart.toNat then
        max headerSize object.header.tagsStart.toNat
      else max headerSize (object.header.tagsStart.toNat +
        k (object.header.contentStart.toNat - object.header.tagsStart.toNat))) :
    (object.layout.checkedTagsSpace >>= fun space => if space = 0 then pure a
      else readSlice cut object.header.tagsStart.toNat (k space) >>= f) =
      if cut.length < n then .error (.io shortRead)
      else object.layout.checkedTagsSpace >>= fun space => if space = 0 then pure a
        else readSlice data object.header.tagsStart.toNat (k space) >>= f := by
  subst hn
  by_cases hroom : object.header.contentStart.toNat ≤ object.header.tagsStart.toNat
  · rw [if_pos hroom, if_neg (Nat.not_lt.mpr hthere)]
    obtain heq | hlt := Nat.eq_or_lt_of_le hroom
    · have hspace : object.layout.checkedTagsSpace = .ok 0 :=
        (SectionLayout.checkedTagsSpace_of_le (Nat.le_of_eq heq.symm)).trans
          (congrArg Except.ok (Nat.sub_eq_zero_of_le hroom))
      rw [hspace, ok_bind, ok_bind, if_pos rfl, if_pos rfl]
    · rw [SectionLayout.checkedTagsSpace_of_lt hlt]
      rfl
  · have hspace : object.layout.checkedTagsSpace =
        .ok (object.header.contentStart.toNat - object.header.tagsStart.toNat) :=
      SectionLayout.checkedTagsSpace_of_le (Nat.le_of_not_le hroom)
    have hpos : 0 < object.header.contentStart.toNat - object.header.tagsStart.toNat := by omega
    rw [if_neg hroom, hspace, ok_bind, ok_bind, if_neg (Nat.ne_of_gt hpos),
      if_neg (Nat.ne_of_gt hpos), slice_cut h _ _ (hk _ hpos)]
    congr 1
    rw [eq_iff_iff]
    omega

/-- What an object whose metadata is there shows of the rest of its prefix. -/
lemma Query.answer_cut (object : TuxObject) (h : cut <+: data) {q : Query} (hq : q.OfPrefix)
    (hthere : max headerSize object.header.tagsStart.toNat ≤ cut.length) :
    q.answer object cut = if cut.length < q.reach object.header then .error (.io shortRead)
      else q.answer object data := by
  have htags : max (max headerSize object.header.tagsStart.toNat)
      object.header.contentStart.toNat =
      if object.header.contentStart.toNat ≤ object.header.tagsStart.toNat then
        max headerSize object.header.tagsStart.toNat
      else max headerSize (object.header.tagsStart.toNat +
        (object.header.contentStart.toNat - object.header.tagsStart.toNat)) := by
    split_ifs <;> omega
  cases q with
  | stored | content | range => exact hq.elim
  | sections => exact (if_neg (Nat.not_lt.mpr hthere)).symm
  | tags =>
      refine (congrArg (Shown.tags <$> ·) (tagSlice_cut object h id (fun _ h => h) Tags.new
        (decodeSection readFromReader) hthere htags)).trans ?_
      exact apply_ite _ _ _ _
  | tagCount =>
      refine (congrArg (Shown.count <$> ·) (tagSlice_cut object h (fun _ => 2)
        (fun _ _ => Nat.two_pos) 0 (fun buffer => pure (Number.fromLeBytes buffer)) hthere
        rfl)).trans ?_
      exact apply_ite _ _ _ _
  | tag key =>
      refine (congrArg (Shown.value <$> ·) (tagSlice_cut object h id (fun _ h => h) none
        (decodeSection (Tags.findFromReader key)) hthere htags)).trans ?_
      exact apply_ite _ _ _ _

lemma Query.le_reach (header : ObjectHeader) (q : Query) :
    max headerSize header.tagsStart.toNat ≤ q.reach header := by
  cases q with
  | sections | stored | content | range => exact Nat.le_refl _
  | tags | tag => exact Nat.le_max_left _ _
  | tagCount =>
      simp only [Query.reach]
      split_ifs
      · exact Nat.le_refl _
      · omega

lemma Query.result_cut {header : ObjectHeader} {metadata : MetadataMap} (h : cut <+: data)
    (hread : readPrefix data = .ok (header, metadata)) {q : Query} (hq : q.OfPrefix) :
    q.result cut = if cut.length < q.reach header then .error (.io shortRead)
      else q.result data := by
  have hcut := readPrefix_cut h hread
  have hle := q.le_reach header
  by_cases hthere : cut.length < max headerSize header.tagsStart.toNat
  · rw [if_pos hthere] at hcut
    rw [if_pos (Nat.lt_of_lt_of_le hthere hle)]
    unfold Query.result
    rw [hcut]
    rfl
  · rw [if_neg hthere] at hcut
    rw [Query.result_of_read hcut, Query.result_of_read hread]
    exact Query.answer_cut _ h hq (Nat.not_lt.mp hthere)

/-! ### The end is reported for no other reason -/

/-- The result is not the report of the end of the file. -/
def NotShort {α : Type} (r : Except ObjectFileError α) : Prop := r ≠ .error (.io shortRead)

lemma notShort_ok {α : Type} (a : α) : NotShort (.ok a) := by
  intro h
  cases h

lemma notShort_decodeSection {α : Type} (dec : Decoder α) (buffer : List UInt8) :
    NotShort (decodeSection dec buffer) := by
  unfold decodeSection
  cases dec ⟨buffer, 0⟩ with
  | error e =>
      intro h
      cases h
  | ok p => exact notShort_ok p.1

lemma NotShort.map {α β : Type} {r : Except ObjectFileError α} (h : NotShort r) (f : α → β) :
    NotShort (f <$> r) := by
  cases r with
  | error e => exact fun heq => h (congrArg Except.error (Except.error.inj heq))
  | ok a => exact notShort_ok (f a)

lemma notShort_tagSlice {α : Type} (object : TuxObject) (k : ℕ → ℕ) (a : α)
    {f : List UInt8 → Except ObjectFileError α} (hf : ∀ buffer, NotShort (f buffer))
    (hlength : object.header.tagsStart.toNat < object.header.contentStart.toNat →
      object.header.tagsStart.toNat +
        k (object.header.contentStart.toNat - object.header.tagsStart.toNat) ≤ data.length) :
    NotShort (object.layout.checkedTagsSpace >>= fun space => if space = 0 then pure a
      else readSlice data object.header.tagsStart.toNat (k space) >>= f) := by
  by_cases hle : object.header.tagsStart.toNat ≤ object.header.contentStart.toNat
  · have hspace : object.layout.checkedTagsSpace =
        .ok (object.header.contentStart.toNat - object.header.tagsStart.toNat) :=
      SectionLayout.checkedTagsSpace_of_le hle
    rw [hspace, ok_bind]
    split_ifs with hempty
    · exact notShort_ok a
    · rw [readSlice_of_le (hlength (by omega))]
      exact hf _
  · rw [SectionLayout.checkedTagsSpace_of_lt (Nat.lt_of_not_le hle)]
    intro h
    cases h

/-- A file that the query does not reach beyond is not too short. -/
lemma Query.notShort_result {header : ObjectHeader} {metadata : MetadataMap}
    (hread : readPrefix data = .ok (header, metadata)) {q : Query} (hq : q.OfPrefix)
    (hlength : q.reach header ≤ data.length) : NotShort (q.result data) := by
  rw [Query.result_of_read hread]
  cases q with
  | stored | content | range => exact hq.elim
  | sections => exact notShort_ok _
  | tags =>
      refine NotShort.map (notShort_tagSlice _ id _ (notShort_decodeSection _) fun hlt => ?_) _
      have hreach := Nat.le_trans (Nat.le_max_right _ _) hlength
      dsimp only [id, openedObject] at hlt ⊢
      omega
  | tagCount =>
      refine NotShort.map (notShort_tagSlice _ (fun _ => 2) _ (fun _ => notShort_ok _)
        fun hlt => ?_) _
      have hreach : Query.tagCount.reach header = _ := if_neg (Nat.not_le.mpr hlt)
      dsimp only [openedObject] at hlt ⊢
      omega
  | tag key =>
      refine NotShort.map (notShort_tagSlice _ id _ (notShort_decodeSection _) fun hlt => ?_) _
      have hreach := Nat.le_trans (Nat.le_max_right _ _) hlength
      dsimp only [id, openedObject] at hlt ⊢
      omega

variable {w : World} {path : Path} {i : ℕ}

/-- Whatever file has been cut short, asking the path for the header, the metadata or the tags
reports the end of the file or shows what the whole file does; where the whole file opens, the end
is reported exactly when the query reaches beyond it. -/
theorem cut_file_iff (hdir : w.dir path = some i) (hcut : w.data i <+: data) (writable : Bool)
    {q : Query} (hq : q.OfPrefix) :
    (∀ r, (∃ w', Ends (FsStep NoFaults) (q.run path writable).run w r w') →
      r = .error (.io shortRead) ∨ r = q.result data) ∧
    ∀ header metadata, readPrefix data = .ok (header, metadata) →
      ((∃ w', Ends (FsStep NoFaults) (q.run path writable).run w (.error (.io shortRead)) w') ↔
        (w.data i).length < q.reach header) := by
  simp only [Query.ends_iff hdir]
  constructor
  · rintro r rfl
    exact Query.cut_result hcut hq
  · intro header metadata hread
    rw [Query.result_cut hcut hread hq]
    by_cases hshort : (w.data i).length < q.reach header
    · rw [if_pos hshort]
      exact iff_of_true rfl hshort
    · rw [if_neg hshort]
      have hwhole := Query.notShort_result hread hq
        (Nat.le_trans (Nat.not_lt.mp hshort) hcut.length_le)
      exact iff_of_false (fun h => hwhole h.symm) hshort

end

attribute [local instance] fullPlatform pairCodecs

/-- A header with room for two bytes of tags and no content. -/
def twoTagBytes : ObjectHeader := ⟨0, .none, 32, 34, 0, 0⟩

/-- A file with an empty tag section opens when it is cut off within the section; its tags and
their number are reported to be cut off. -/
theorem cut_file_in_tags :
    (∃ w', Ends (FsStep NoFaults) (Query.tags.run World.somePath false).run
      (World.single (twoTagBytes.wire ++ [0])) (.error (.io shortRead)) w') ∧
    (∃ w', Ends (FsStep NoFaults) (Query.tagCount.run World.somePath false).run
      (World.single (twoTagBytes.wire ++ [0])) (.error (.io shortRead)) w') ∧
    ¬ ∃ w', Ends (FsStep NoFaults) (Query.sections.run World.somePath false).run
      (World.single (twoTagBytes.wire ++ [0])) (.error (.io shortRead)) w' := by
  have hcut : (World.single (twoTagBytes.wire ++ [0])).data 0 <+: twoTagBytes.wire ++ [0, 0] :=
    ⟨[0], List.append_assoc _ _ _⟩
  have hread : readPrefix (twoTagBytes.wire ++ [0, 0]) = .ok (twoTagBytes, Tags.new) :=
    readPrefix_wire rfl (by decide) _
  have hlength : ((World.single (twoTagBytes.wire ++ [0])).data 0).length = 33 := by
    show (twoTagBytes.wire ++ [0]).length = 33
    rw [List.length_append, ObjectHeader.length_wire]
    rfl
  have hdir : (World.single (twoTagBytes.wire ++ [0])).dir World.somePath = some 0 := rfl
  refine ⟨?_, ?_, ?_⟩
  · refine ((cut_file_iff (q := .tags) hdir hcut false trivial).2 _ _ hread).mpr ?_
    rw [hlength]
    decide
  · refine ((cut_file_iff (q := .tagCount) hdir hcut false trivial).2 _ _ hread).mpr ?_
    rw [hlength]
    decide
  · rw [(cut_file_iff (q := .sections) hdir hcut false trivial).2 _ _ hread, hlength]
    decide

end TuxEncoding
