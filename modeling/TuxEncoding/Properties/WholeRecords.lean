import TuxEncoding.Properties.RangedReads
import TuxEncoding.Properties.Snapshots

/-!
# Readers see whole records

What a reader is told beside any number of writers, in terms of what the writers have put together.

* `Record.Answers` is what a record says to a query, `Record.StoredIn.answers` that a file which
  holds the record says just this.
* `readers_see_whole_records`: a reader finds nothing, because nothing was there, or the record of
  one writer, which answers all its queries.
-/

namespace TuxEncoding

open Bytes Interaction Program

set_option linter.unusedSectionVars false

section

variable [Platform] [Codecs]

/-! ## What a record says -/

/-- The content as a caller gets it. -/
def Record.plain (record : Record) : Except ObjectFileError (List UInt8) :=
  match record.compression with
  | .none => .ok record.content
  | compression => do
      ensureSupported compression
      (Codecs.decode compression record.content).mapError .io

/-- The answer of a record to a query: its sections and its content, whatever the layout. -/
def Record.Answers (record : Record) : Query → Except ObjectFileError Shown → Prop
  | .sections, r => ∃ header metadata, r = .ok (.sections header metadata) ∧
      header.compressionType = record.compression ∧
      header.contentLength.toNat = record.content.length ∧ metadata.Equal record.metadata
  | .tags, r => ∃ tags, r = .ok (.tags tags) ∧ tags.Equal record.tags
  | .tagCount, r => ∃ n, r = .ok (.count n) ∧ n.toNat = record.tags.numberOfTags
  | .tag key, r => r = .ok (.value (record.tags.get key))
  | .stored, r => r = .ok (.bytes record.content)
  | .content, r => r = Shown.bytes <$> record.plain
  | .range offset length, r =>
      (record.compression ≠ .none → r = .error .rangedReadOnCompressed) ∧
      (record.compression = .none →
        (OutOfBounds record.content offset length → ∃ e, r = .error e ∧ e.IsRangeOutOfBounds) ∧
        (¬ OutOfBounds record.content offset length →
          record.content.length + 2 ^ 32 ≤ maxFileLength →
            r = .ok (.bytes (contentSlice record.content offset length))))

variable {record : Record} {header : ObjectHeader} {metadata : MetadataMap} {data : List UInt8}
  {object : TuxObject}

/-- A file that holds a record, opened where nothing else is. -/
lemma Record.StoredIn.handleOf (h : record.StoredIn header data)
    (hmetadata : metadata.Equal record.metadata) :
    HandleOf ((World.single data).openAt World.somePath false 1 (Nat.le_refl _))
      ⟨1, World.somePath, header, metadata, false⟩ 0 record :=
  ⟨⟨0, rfl⟩, h, hmetadata⟩

/-- The range that a handle reads of an uncompressed record. -/
lemma HandleOf.storedRange_eq {w : World} {i : ℕ} (h : HandleOf w object i record)
    (hnone : record.compression = .none) (offset : UInt64) (length : Option UInt64) :
    (OutOfBounds record.content offset length →
      ∃ e, object.storedRange offset length (w.data i) = .error e ∧ e.IsRangeOutOfBounds) ∧
    (¬ OutOfBounds record.content offset length →
      record.content.length + 2 ^ 32 ≤ maxFileLength →
        object.storedRange offset length (w.data i) =
          .ok (contentSlice record.content offset length)) := by
  obtain ⟨_, _, _, himage, _, _, hheader⟩ := h.stored
  have hlength : object.header.contentLength.toNat = record.content.length := by
    rw [hheader]
    exact himage.contentLength_toNat
  have hcontent := h.storedContent_eq
  rw [TuxObject.storedContent, hlength] at hcontent
  have hraw : ¬ ¬ CompressionTypes.none.isNone = true := not_not_intro rfl
  unfold TuxObject.storedRange
  dsimp only
  rw [h.compressionType_eq, hnone, if_neg hraw]
  by_cases hoffset : object.header.contentLength < offset
  · have hout : OutOfBounds record.content offset length :=
      .inl (hlength ▸ UInt64.lt_iff_toNat_lt.mp hoffset)
    rw [if_pos hoffset]
    exact ⟨fun _ => ⟨_, rfl, trivial⟩, fun h => absurd hout h⟩
  · obtain ⟨hrequested, hiff⟩ := requestedLength_eq hlength hoffset length
    rw [if_neg hoffset]
    by_cases hlarge : length.getD (object.header.contentLength - offset) >
        object.header.contentLength - offset
    · rw [if_pos hlarge]
      exact ⟨fun _ => ⟨_, rfl, trivial⟩, fun h => absurd (hiff.mpr hlarge) h⟩
    · rw [if_neg hlarge]
      refine ⟨fun h => absurd (hiff.mp h) hlarge, fun hin hfile => ?_⟩
      rw [contentSlice, hrequested, ← hcontent]
      have hstart := object.header.contentStart.toNat_lt
      rw [UInt64.not_lt, UInt64.le_iff_toNat_le, hlength] at hoffset
      have hsum : object.header.contentStart.toNat + offset.toNat ≤ maxFileLength := by omega
      have hadd : object.header.contentStart.toNat + offset.toNat < 2 ^ 64 :=
        Nat.lt_of_le_of_lt hsum (by decide)
      rw [checkedAdd, if_pos hadd, ok_bind, if_neg (Nat.not_lt.mpr hsum), List.drop_take,
        List.drop_drop, List.take_take, Nat.min_eq_left]
      · rfl
      · rw [← hrequested]
        have hle := Nat.le_of_eq (length_contentSlice hin).symm
        rw [contentSlice, List.length_take, List.length_drop] at hle
        exact Nat.le_trans hle (Nat.min_le_right _ _)

/-- The whole content that a handle reads of a record. -/
lemma HandleOf.storedVec_plain {w : World} {i : ℕ} (h : HandleOf w object i record) :
    object.storedVec (w.data i) = record.plain := by
  obtain ⟨_, _, _, himage, _, _, hheader⟩ := id h.stored
  have hlength : object.header.contentLength.toNat ≤ isizeMax := by
    rw [hheader, himage.contentLength_toNat]
    exact Nat.le_pred_of_lt himage.length_lt
  unfold TuxObject.storedVec TuxObject.storedVecWith Record.plain
  rw [withCapacity_of_le hlength hlength, ok_bind, h.compressionType_eq, h.storedContent_eq]
  rfl

/-- A handle answers as the record does. -/
lemma HandleOf.answers {w : World} {i : ℕ} (h : HandleOf w object i record) (q : Query) :
    record.Answers q (q.answer object (w.data i)) := by
  cases q with
  | sections =>
      obtain ⟨_, _, _, himage, _, _, hheader⟩ := id h.stored
      refine ⟨_, _, rfl, h.compressionType_eq, ?_, h.metadata_equal⟩
      rw [hheader]
      exact himage.contentLength_toNat
  | tags =>
      obtain ⟨tags, hstored, hequal⟩ := h.storedTags_eq
      exact ⟨tags, congrArg (Shown.tags <$> ·) hstored, hequal⟩
  | tagCount =>
      obtain ⟨n, hstored, hn⟩ := h.storedTagCount_eq
      exact ⟨n, congrArg (Shown.count <$> ·) hstored, hn⟩
  | tag key => exact congrArg (Shown.value <$> ·) (h.storedTag_eq key)
  | stored => exact congrArg (fun bs => Except.ok (Shown.bytes bs)) h.storedContent_eq
  | content => exact congrArg (Shown.bytes <$> ·) h.storedVec_plain
  | range offset length =>
      refine ⟨fun hcompressed => ?_, fun hnone => ?_⟩
      · have hraw : ¬ object.header.compressionType.isNone = true := by
          rw [CompressionTypes.isNone_iff, h.compressionType_eq]
          exact hcompressed
        show Shown.bytes <$> object.storedRange offset length (w.data i) = _
        unfold TuxObject.storedRange
        dsimp only
        rw [if_pos hraw]
        rfl
      · obtain ⟨hout, hin⟩ := h.storedRange_eq hnone offset length
        refine ⟨fun h => ?_, fun h hfile => congrArg (Shown.bytes <$> ·) (hin h hfile)⟩
        obtain ⟨e, herror, he⟩ := hout h
        exact ⟨e, congrArg (Shown.bytes <$> ·) herror, he⟩

/-- A file that holds a record answers as the record does. -/
lemma Record.StoredIn.answers (h : record.StoredIn object.header data)
    (hmetadata : object.metadata.Equal record.metadata) (q : Query) :
    record.Answers q (q.answer object data) := by
  have hanswers := (h.handleOf hmetadata).answers q
  cases q <;> exact hanswers

/-! ## What a reader is told -/

variable {ι κ : Type} [DecidableEq ι] [DecidableEq κ] {mayFail : κ → FsCall → Prop}
  {runs : ι → WriterRun} {readers : κ → ReaderRun ι} {w₀ : World} {p q : Users ι κ}

/-- What a writer has put together. -/
def Draft.toRecord (draft : Draft) : Record :=
  ⟨draft.compression, draft.metadata, draft.tags, draft.content⟩

/-- The record is what the operations of the writer have put together, all of it, when these were
their results. -/
def WriterRun.Records (run : WriterRun) (results : List OpResult) (record : Record) : Prop :=
  ∃ draft, Effects (fun _ => True) run.ops (Draft.new run.flavor run.options) results draft ∧
    draft.IsWhole ∧ record = draft.toRecord

/-- The results of the operations of a writer are fixed when it has this much left to do. -/
def Users.Returned (p : Users ι κ) (j : ι) (results : List OpResult) : Prop :=
  Always (fun r => ∃ result, r = .inl (.ok (results, result))) (p.threads (.inl j))

/-- The record that stood at the path initially, or what one writer has put together. -/
def IsRecordOf (runs : ι → WriterRun) (w₀ : World) (path : Path) (p : Users ι κ)
    (record : Record) : Prop :=
  (∃ data header, w₀.version path = some data ∧ record.StoredIn header data) ∨
    ∃ j results, (runs j).path = path ∧ p.Returned j results ∧ (runs j).Records results record

/-- A writer to the path has gone on when one of its operations had reported an error. -/
def WentOnAt (runs : ι → WriterRun) (path : Path) (p : Users ι κ) : Prop :=
  ∃ j results, (runs j).path = path ∧ p.Returned j results ∧ (runs j).WentOn results

/-- What a writer leaves holds a record, unless the writer has gone on. -/
lemma WriterRun.Leaves.storedIn {run : WriterRun} {results : List OpResult}
    (h : run.Leaves results data) : run.WentOn results ∨
      ∃ record header, run.Records results record ∧ record.StoredIn header data := by
  obtain ⟨draft, layout, counted, heffects, himage, hwent | ⟨hwhole, rfl⟩⟩ := h
  · exact .inl hwent
  · exact .inr ⟨draft.toRecord, _, ⟨draft, heffects, hwhole, rfl⟩, layout, draft.metadata,
      draft.tags, himage, Tags.Equal.refl _, Tags.Equal.refl _, rfl⟩

/-- The reader has found nothing, because nothing was there in `p`, or one record, which gives all
the answers, but for those that are the errors of its calls; or one of its calls has failed before
it had an object. -/
inductive SawOneRecord (mayFail : FsCall → Prop) (runs : ι → WriterRun) (w₀ : World)
    (reader : ReaderRun ι) (p q : Users ι κ) : Seen → Prop
  | nothing {seen : Seen}
      (hmissing : seen = .ok none ∧ reader.opening = .openOptional ∨
        seen = .error (.io notFound) ∧ reader.opening ≠ .openOptional)
      (hdir : p.shared.shared.world.dir (reader.path runs) = none) :
      SawOneRecord mayFail runs w₀ reader p q seen
  | record {object : TuxObject} {transcript : Transcript} (record : Record)
      (hrecord : IsRecordOf runs w₀ (reader.path runs) q record)
      (hmetadata : object.metadata.Equal record.metadata)
      (hanswers : ∀ entry ∈ transcript, ∃ r, record.Answers entry.1 r ∧
        Answered mayFail object entry.1 entry.2 r) :
      SawOneRecord mayFail runs w₀ reader p q (.ok (some (object, transcript)))
  | failed {seen : Seen} {e : ObjectFileError}
      (hfail : IsFault (FailsIn mayFail (reader.opening.run (reader.path runs))) e)
      (hseen : seen = .error e ∨
        seen = .ok none ∧ reader.opening = .openOptional ∧ e.isNotFound = true) :
      SawOneRecord mayFail runs w₀ reader p q seen

/-- At a path that holds an object or nothing initially, and to which no writer goes on after an
error, a reader is told one record, from opening to its last query, or that nothing is there, unless
opening fails. -/
theorem readers_see_whole_records (hnames : NoFinalIsTemp runs)
    (hp : (Users.start runs readers w₀).Reachable mayFail runs p)
    (hq : p.Reachable mayFail runs q) {k : κ}
    (hinitial : ∀ data, w₀.version ((readers k).path runs) = some data →
      ∃ record header, Record.StoredIn record header data)
    (hstart : p.threads (.inr k) = Sum.inr <$> (readers k).program runs) {seen : Seen}
    (hdone : q.threads (.inr k) = .done (.inr seen))
    (hstops : ¬ WentOnAt runs ((readers k).path runs) q) :
    SawOneRecord (mayFail k) runs w₀ (readers k) p q seen := by
  obtain ⟨n, version, hfound⟩ := reader_found hnames hp hq hstart hdone
  have htells := hfound.tells
  -- every version that is a file holds a record
  have hstored : ∀ {data}, version = some data → ∃ record header,
      Record.StoredIn record header data ∧
      IsRecordOf runs w₀ ((readers k).path runs) q record := by
    rintro data rfl
    obtain ⟨_, hdata⟩ | ⟨j, _, hsome, hpath, results, hresults, hleaves⟩ :=
      hfound.later.whole (readers k).target n _ hfound.stood
    · obtain ⟨record, header, hstored⟩ := hinitial data hdata.symm
      exact ⟨record, header, hstored, .inl ⟨data, header, hdata.symm, hstored⟩⟩
    · obtain rfl := Option.some.inj hsome
      obtain hwent | ⟨record, header, hrecord, hstored⟩ := hleaves.storedIn
      · exact absurd ⟨j, results, hpath, hresults, hwent⟩ hstops
      · exact ⟨record, header, hstored, .inr ⟨j, results, hpath, hresults, hrecord⟩⟩
  cases seen with
  | error e =>
      obtain ⟨hfail | ⟨rfl, rfl⟩ | ⟨data, hdata, hread⟩, hpresent⟩ := htells
      · exact .failed hfail (.inl rfl)
      · refine .nothing (.inr ⟨rfl, fun hopening => ?_⟩) hfound.dir_eq_none
        cases hpresent hopening
      · obtain ⟨record, header, hstored, _⟩ := hstored hdata
        obtain ⟨metadata, hopens, _⟩ := hstored.readPrefix_eq
        cases hread.symm.trans hopens
  | ok found =>
      cases found with
      | none =>
          obtain ⟨hopening, rfl | ⟨e, hfail, he⟩⟩ := htells
          · exact .nothing (.inl ⟨rfl, hopening⟩) hfound.dir_eq_none
          · exact .failed hfail (.inr ⟨rfl, hopening, he⟩)
      | some found =>
          obtain ⟨data, hdata, hread, hanswers⟩ := htells
          obtain ⟨record, header, hstored, hrecord⟩ := hstored hdata
          obtain ⟨metadata, hopens, hmetadata⟩ := hstored.readPrefix_eq
          obtain ⟨rfl, rfl⟩ := Prod.mk.inj (Except.ok.inj (hread.symm.trans hopens))
          exact .record record hrecord hmetadata fun entry hentry =>
            ⟨_, hstored.answers hmetadata entry.1, hanswers entry hentry⟩

end

attribute [local instance] fullPlatform pairCodecs

/-- The second reader has opened an object. -/
lemma afterReader_opened :
    ∃ found, afterReader.threads (.inr true) = .done (.inr (.ok (some found))) := by
  have hopened : (afterReader.ended (.inr true)).map
      (Sum.elim (fun _ => false) fun seen => seen.toOption.join.isSome) = some true := by
    decide +kernel
  obtain ⟨outcome | (e | none | found), hended, hsome⟩ := Option.map_eq_some_iff.mp hopened
  · cases hsome
  · cases hsome
  · cases hsome
  · exact ⟨found, Users.threads_of_ended hended⟩

/-- The second reader is told the record of the writer. -/
theorem readers_see_whole_records_published :
    ∃ found, afterReader.threads (.inr true) = .done (.inr (.ok (some found))) ∧
      SawOneRecord NoFaults soleWriter World.empty (twoQueries true) afterWriter afterReader
        (.ok (some found)) := by
  obtain ⟨found, hdone⟩ := afterReader_opened
  refine ⟨found, hdone, readers_see_whole_records soleWriter_names afterWriter_reachable
    afterReader_reachable ?_ afterWriter_start hdone ?_⟩
  · exact fun _ h => absurd h.symm (Option.some_ne_none _)
  · rintro ⟨_, _, _, _, htokio, _⟩
    cases htokio

end TuxEncoding
