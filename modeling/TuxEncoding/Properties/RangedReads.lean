import TuxEncoding.Fs.Interchange
import TuxEncoding.Fs.ObjectSafety

/-!
# Ranged reads

What the readers of a byte range deliver, whatever the sizes of the buffers and of the reads.

* `BoundedReader` is what the two readers have in common, a handle and a number of bytes that may
  still be read, and `LawfulBoundedReader` what one call of `read` does.
* `readEach` calls `read` once for each buffer, and `Delivered` says what has come of it: a
  beginning of the slice, whose rest is what remains.
* `seekWithinContent_safe`: the checks of a range, which both layers make.
* `ranged_reads_exact`: a range is refused exactly when it lies outside of the content, and its
  reader delivers its bytes.
-/

namespace TuxEncoding

open Interaction Program

set_option linter.unusedSectionVars false

/-! ## Bounded readers -/

/-- A reader of at most so many bytes behind a handle. -/
class BoundedReader (ρ : Type) where
  file : ρ → Fd
  remaining : ρ → ℕ
  read : ρ → ℕ → Fallible FsCall.Reply IoError (List UInt8 × ρ)

instance : BoundedReader ContentReader where
  file := ContentReader.file
  remaining := ContentReader.remaining
  read := ContentReader.read

instance : BoundedReader ContentSection where
  file := ContentSection.file
  remaining := ContentSection.remaining
  read := ContentSection.read

section

variable [Platform] {ρ : Type}

/-- A call of `read` returns the next bytes in front of the bound, and none to a buffer with room
only at the bound; when it fails nothing has moved. -/
class LawfulBoundedReader (ρ : Type) [BoundedReader ρ] : Prop where
  read_safe {mayFail : FsCall → Prop} {w : World} {reader : ρ} {f : OpenFile}
    (hf : w.files (BoundedReader.file reader) = some f) (length : ℕ) :
    Fallible.Safe (FsStep mayFail) Reads (BoundedReader.read reader length)
      (fun p w' => ∃ m ≤ BoundedReader.remaining reader,
        p.1 = ((w.data f.inode).drop f.pos).take m ∧
        (m = 0 → 0 < length → BoundedReader.remaining reader = 0) ∧
        BoundedReader.file p.2 = BoundedReader.file reader ∧
        BoundedReader.remaining p.2 = BoundedReader.remaining reader - p.1.length ∧
        w' = w.seekTo (BoundedReader.file reader) (f.pos + p.1.length))
      (fun _ w' => w' = w) w

instance : LawfulBoundedReader ContentReader where
  read_safe {mayFail w reader f} hf length := by
    by_cases hlength : 0 < length
    · apply Fallible.Safe.mono (ContentReader.read_safe hf hlength)
      · rintro p w' ⟨m, hm, hchunk, hzero, hreader, hw'⟩
        have hfile : p.2.file = reader.file := by rw [hreader]
        have hremaining : p.2.remaining = reader.remaining - p.1.length := by rw [hreader]
        exact ⟨m, hm, hchunk, fun h _ => hzero h, hfile, hremaining, hw'⟩
      · exact fun _ _ h => h.1
    · have hzero : reader.remaining = 0 ∨ length = 0 := .inr (Nat.eq_zero_of_not_pos hlength)
      show Fallible.Safe _ _ (ContentReader.read reader length) _ _ w
      rw [ContentReader.read, if_pos hzero]
      exact Fallible.Safe.pure ⟨0, Nat.zero_le _, List.take_zero.symm, fun _ h => absurd h hlength,
        rfl, rfl, (World.seekTo_self hf).symm⟩

/-- tokio's reader goes to the file for a buffer without room as well. -/
instance : LawfulBoundedReader ContentSection where
  read_safe {mayFail w reader f} hf length := by
    show Fallible.Safe _ _ (ContentSection.read reader length) _ _ w
    unfold ContentSection.read
    by_cases hremaining : reader.remaining = 0
    · rw [if_pos hremaining]
      exact Fallible.Safe.pure ⟨0, Nat.zero_le _, List.take_zero.symm, fun _ _ => hremaining, rfl,
        rfl, (World.seekTo_self hf).symm⟩
    · rw [if_neg hremaining]
      refine Fallible.Safe.bind (Fallible.Safe.attempt (Program.Safe.request ⟨f, hf⟩ ?_))
      intro r w' hstep
      obtain ⟨m, hm, hall, rfl, rfl⟩ | ⟨_, ⟨e, rfl⟩, rfl⟩ := hstep.read_inv hf
      · have hle : m ≤ reader.remaining := Nat.le_trans hm (Nat.min_le_left _ _)
        exact Fallible.Safe.pure ⟨m, hle, rfl, by omega, rfl, rfl, rfl⟩
      · rfl

/-! ## Any number of reads -/

/-- One call of `read` for each buffer, whatever the earlier calls returned. A call that fails
leaves the reader as it was. -/
def readEach [BoundedReader ρ] :
    List ℕ → ρ → Program FsCall.Reply (List (Except IoError (List UInt8)) × ρ)
  | [], reader => pure ([], reader)
  | length :: lengths, reader => do
      match ← (BoundedReader.read reader length).run with
      | .ok (chunk, reader) => do
          let (results, reader) ← readEach lengths reader
          return (.ok chunk :: results, reader)
      | .error err => do
          let (results, reader) ← readEach lengths reader
          return (.error err :: results, reader)

/-- The bytes that the calls have returned. -/
def delivered : List (Except IoError (List UInt8)) → List UInt8
  | [] => []
  | .ok chunk :: results => chunk ++ delivered results
  | .error _ :: results => delivered results

/-- A call that had room and did not fail. -/
def Productive (p : ℕ × Except IoError (List UInt8)) : Bool := 0 < p.1 && p.2.isOk

/-- What calls with these buffers have delivered of `slice` when `remaining` bytes are left. -/
structure Delivered (slice : List UInt8) (lengths : List ℕ)
    (results : List (Except IoError (List UInt8))) (remaining : ℕ) : Prop where
  one_each : results.length = lengths.length
  beginning : ∃ rest, slice = delivered results ++ rest ∧ rest.length = remaining
  /-- The end of the stream comes behind the last byte. -/
  at_end : ∀ length, 0 < length → (length, Except.ok []) ∈ lengths.zip results →
    delivered results = slice
  /-- The stream does come to its end. -/
  progress : min slice.length ((lengths.zip results).countP Productive) ≤ (delivered results).length

namespace Delivered

variable {slice chunk : List UInt8} {lengths : List ℕ} {length remaining : ℕ}
  {results : List (Except IoError (List UInt8))}

lemma nil (slice : List UInt8) : Delivered slice [] [] slice.length where
  one_each := rfl
  beginning := ⟨slice, rfl, rfl⟩
  at_end _ _ h := by simp at h
  progress := by simp

/-- A call that fails delivers nothing. -/
lemma error (h : Delivered slice lengths results remaining) (length : ℕ) (err : IoError) :
    Delivered slice (length :: lengths) (.error err :: results) remaining where
  one_each := by simp [h.one_each]
  beginning := h.beginning
  at_end n hn hmem := by
    simp only [List.zip_cons_cons, List.mem_cons, Prod.mk.injEq, reduceCtorEq, and_false,
      false_or] at hmem
    exact h.at_end n hn hmem
  progress := by
    have hprogress := h.progress
    have hidle : ¬ Productive (length, Except.error err) = true := by simp [Productive, Except.isOk,
      Except.toBool]
    rw [List.zip_cons_cons, List.countP_cons_of_neg hidle]
    exact hprogress

/-- A call delivers the next bytes, and none only at the end. -/
lemma ok (h : Delivered slice lengths results remaining)
    (hend : chunk = [] → 0 < length → slice = []) :
    Delivered (chunk ++ slice) (length :: lengths) (.ok chunk :: results) remaining where
  one_each := by simp [h.one_each]
  beginning := by
    obtain ⟨rest, hrest, hlength⟩ := h.beginning
    refine ⟨rest, ?_, hlength⟩
    rw [delivered, List.append_assoc, ← hrest]
  at_end n hn hmem := by
    rw [delivered, List.append_cancel_left_eq]
    simp only [List.zip_cons_cons, List.mem_cons, Prod.mk.injEq, Except.ok.injEq] at hmem
    rcases hmem with ⟨rfl, hchunk⟩ | hmem
    · obtain rfl := hend hchunk.symm hn
      obtain ⟨rest, hrest, _⟩ := h.beginning
      exact (List.append_eq_nil_iff.mp hrest.symm).1
    · exact h.at_end n hn hmem
  progress := by
    have hprogress := h.progress
    rw [delivered, List.zip_cons_cons, List.countP_cons, List.length_append, List.length_append]
    by_cases hchunk : chunk = []
    · by_cases hlength : 0 < length
      · simp [hchunk, hend hchunk hlength]
      · simp only [Productive, hlength, hchunk]
        simpa using hprogress
    · have := List.length_pos_iff.mpr hchunk
      split <;> omega

end Delivered

/-- The calls deliver the bytes behind the handle, up to the reader's bound. -/
lemma readEach_safe [BoundedReader ρ] [LawfulBoundedReader ρ] {mayFail : FsCall → Prop}
    (lengths : List ℕ) {w : World} {reader : ρ} {f : OpenFile} {slice : List UInt8}
    (hf : w.files (BoundedReader.file reader) = some f)
    (hslice : slice = ((w.data f.inode).drop f.pos).take (BoundedReader.remaining reader))
    (hlength : slice.length = BoundedReader.remaining reader) :
    Program.Safe (FsStep mayFail) Reads (readEach lengths reader)
      (fun p _ => Delivered slice lengths p.1 (BoundedReader.remaining p.2)) w := by
  induction lengths generalizing w reader f slice with
  | nil =>
      show Delivered _ _ _ _
      rw [← hlength]
      exact Delivered.nil slice
  | cons length lengths ih =>
      unfold readEach
      refine Program.Safe.bind (Program.Safe.mono ?_ (LawfulBoundedReader.read_safe hf length))
      rintro (err | ⟨chunk, reader'⟩) w' hread
      · obtain rfl := hread
        refine Program.Safe.bind (Program.Safe.mono ?_ (ih hf hslice hlength))
        exact fun p _ hp => hp.error length err
      · obtain ⟨m, hm, hchunk, hzero, hfile, hremaining, rfl⟩ := hread
        dsimp only at hchunk hfile hremaining
        have hrest := ContentReader.rest_eq hm hslice hchunk
        have hsum := congrArg List.length hrest
        rw [List.length_append, hlength] at hsum
        have hnil : chunk = [] → 0 < length → slice = [] := by
          rintro rfl hroom
          exact ContentReader.rest_nil (fun h => hzero h hroom) hslice hchunk
        have hf' : (w.seekTo (BoundedReader.file reader) (f.pos + chunk.length)).files
            (BoundedReader.file reader') = some { f with pos := f.pos + chunk.length } := by
          rw [hfile]
          exact World.seekTo_files_self hf
        rw [← hremaining] at hrest hsum
        refine Program.Safe.bind (Program.Safe.mono ?_ (ih hf' rfl ?_))
        · intro p _ hp
          rw [hrest]
          refine hp.ok fun hempty hroom => ?_
          rw [hnil hempty hroom] at hrest
          exact (List.append_eq_nil_iff.mp hrest.symm).2
        · show (((w.data f.inode).drop (f.pos + chunk.length)).take _).length = _
          omega

/-! ## Ranges of a content -/

/-- The range does not lie within the content. -/
def OutOfBounds (content : List UInt8) (offset : UInt64) (length : Option UInt64) : Prop :=
  content.length < offset.toNat ∨ ∃ n, length = some n ∧ content.length < offset.toNat + n.toNat

/-- The length that is asked for: up to the end of the content, when none is given. -/
def requestedLength (content : List UInt8) (offset : UInt64) (length : Option UInt64) : ℕ :=
  (length.map UInt64.toNat).getD (content.length - offset.toNat)

/-- The bytes of the range. -/
def contentSlice (content : List UInt8) (offset : UInt64) (length : Option UInt64) : List UInt8 :=
  (content.drop offset.toNat).take (requestedLength content offset length)

/-- A slice of the content is as long as was asked for. -/
lemma length_contentSlice {content : List UInt8} {offset : UInt64} {length : Option UInt64}
    (h : ¬ OutOfBounds content offset length) :
    (contentSlice content offset length).length = requestedLength content offset length := by
  unfold OutOfBounds at h
  apply length_slice
  cases length with
  | none =>
      simp only [requestedLength, Option.map_none, Option.getD_none]
      omega
  | some n =>
      simp only [requestedLength, Option.map_some, Option.getD_some]
      by_contra hn
      exact h (.inr ⟨n, rfl, by omega⟩)

variable [Codecs]

/-- The handle is open on the file `i`, whose content section, as the header of the object has it,
holds `content` as it is. -/
structure Serves (w : World) (object : TuxObject) (i : ℕ) (content : List UInt8) : Prop where
  file : OpenOn w object i
  uncompressed : object.header.compressionType = .none
  length_eq : object.header.contentLength.toNat = content.length
  content_eq : ((w.data i).drop object.header.contentStart.toNat).take content.length = content

variable {mayFail : FsCall → Prop} {w w' : World} {object : TuxObject} {i : ℕ}
  {content : List UInt8}

/-- A handle of an uncompressed record serves its content. -/
lemma HandleOf.serves {record : Record} (h : HandleOf w object i record)
    (hnone : record.compression = .none) : Serves w object i record.content := by
  obtain ⟨_, _, _, himage, _, _, hheader⟩ := h.stored
  have hlength : object.header.contentLength.toNat = record.content.length := by
    rw [hheader, himage.contentLength_toNat]
  refine ⟨h.file, h.compressionType_eq.trans hnone, hlength, ?_⟩
  have hcontent := h.storedContent_eq
  rw [TuxObject.storedContent, hlength] at hcontent
  exact hcontent

/-- Behind an offset in the content, the length is what the source computes from what is there. -/
lemma requestedLength_eq {contentLength offset : UInt64}
    (hlength : contentLength.toNat = content.length)
    (hoffset : ¬ contentLength < offset) (length : Option UInt64) :
    requestedLength content offset length = (length.getD (contentLength - offset)).toNat ∧
      (OutOfBounds content offset length ↔
        length.getD (contentLength - offset) > contentLength - offset) := by
  rw [UInt64.not_lt, UInt64.le_iff_toNat_le] at hoffset
  have havailable : (contentLength - offset).toNat = content.length - offset.toNat := by
    rw [UInt64.toNat_sub_of_le _ _ (UInt64.le_iff_toNat_le.mpr hoffset), hlength]
  unfold OutOfBounds
  cases length with
  | none =>
      simp only [requestedLength, Option.map_none, Option.getD_none, havailable, gt_iff_lt,
        UInt64.lt_iff_toNat_lt, reduceCtorEq, false_and, exists_false, or_false, true_and]
      omega
  | some n =>
      simp only [requestedLength, Option.map_some, Option.getD_some, gt_iff_lt,
        UInt64.lt_iff_toNat_lt, havailable, Option.some.injEq, exists_eq_left', true_and]
      omega

/-- No byte of the content lies further back than a file reaches. -/
lemma Serves.start_le (h : Serves w object i content) {offset : ℕ}
    (hoffset : offset ≤ content.length)
    (hfile : (w.data i).length ≤ maxFileLength) :
    object.header.contentStart.toNat + offset ≤ maxFileLength := by
  have hstart := toNat_uint32_le object.header.contentStart
  have hlength := congrArg List.length h.content_eq
  rw [List.length_take, List.length_drop] at hlength
  omega

/-- Whether an error reports a range that lies outside of the content. -/
def ObjectFileError.IsRangeOutOfBounds : ObjectFileError → Prop
  | .rangeOutOfBounds _ _ _ => True
  | _ => False

/-- The checks of a range and the seek behind them: both layers make them. -/
lemma Serves.seekWithinContent_safe (h : Serves w object i content) (offset : UInt64)
    (length : Option UInt64) :
    Fallible.Safe (FsStep mayFail) Reads (object.toAsync.seekWithinContent offset length)
      (fun remaining w' => ¬ OutOfBounds content offset length ∧
        remaining = requestedLength content offset length ∧
        w' = w.seekTo object.file (object.header.contentStart.toNat + offset.toNat))
      (fun e w' => w' = w ∧ (e.IsRangeOutOfBounds ↔ OutOfBounds content offset length) ∧
        (¬ OutOfBounds content offset length →
          (∃ c, mayFail c) ∨ maxFileLength < (w.data i).length)) w := by
  obtain ⟨pos, hfile⟩ := id h.file
  have hplain : object.header.compressionType.isNone = true :=
    CompressionTypes.isNone_iff.mpr h.uncompressed
  have hheader : object.toAsync.header = object.header := rfl
  unfold AsyncTuxObject.seekWithinContent
  rw [hheader, if_neg (not_not_intro hplain)]
  by_cases hoffset : object.header.contentLength < offset
  · have hout : OutOfBounds content offset length := by
      rw [UInt64.lt_iff_toNat_lt, h.length_eq] at hoffset
      exact .inl hoffset
    rw [if_pos hoffset]
    exact Fallible.Safe.throw ⟨rfl, iff_of_true trivial hout, fun hin => absurd hout hin⟩
  rw [if_neg hoffset]
  obtain ⟨hrequested, hout⟩ := requestedLength_eq h.length_eq hoffset length
  by_cases hlength : length.getD (object.header.contentLength - offset) >
      object.header.contentLength - offset
  · have hout : OutOfBounds content offset length := hout.mpr hlength
    rw [if_pos hlength]
    exact Fallible.Safe.throw ⟨rfl, iff_of_true trivial hout, fun hin => absurd hout hin⟩
  have hin : ¬ OutOfBounds content offset length := fun h => hlength (hout.mp h)
  have hle : offset.toNat ≤ content.length := by
    rw [UInt64.not_lt, UInt64.le_iff_toNat_le, h.length_eq] at hoffset
    exact hoffset
  have hstart : ∀ {p : Prop}, maxFileLength < object.header.contentStart.toNat + offset.toNat →
      p ∨ maxFileLength < (w.data i).length := by
    intro p hlarge
    by_contra hnot
    have := h.start_le hle (by omega)
    omega
  rw [if_neg hlength]
  refine Fallible.Safe.bind (Fallible.Safe.ofExcept ?_)
  unfold checkedAdd
  split_ifs with hsum
  · refine Fallible.Safe.bind (trySeek_safe hfile ⟨_, hfile⟩ ?_ ?_)
    · exact fun _ => Fallible.Safe.pure ⟨hin, hrequested.symm, rfl⟩
    · rintro e (hfail | ⟨hlarge, _⟩)
      · exact ⟨rfl, iff_of_false id hin, fun _ => .inl ⟨_, hfail⟩⟩
      · exact ⟨rfl, iff_of_false id hin, fun _ => hstart hlarge⟩
  · refine ⟨rfl, iff_of_false id hin, fun _ => hstart ?_⟩
    unfold maxFileLength
    omega

/-- The slice in the file. -/
lemma Serves.contentSlice_eq (h : Serves w object i content) {offset : UInt64}
    {length : Option UInt64} (hin : ¬ OutOfBounds content offset length) :
    contentSlice content offset length =
      ((w.data i).drop (object.header.contentStart.toNat + offset.toNat)).take
        (requestedLength content offset length) := by
  have hle : requestedLength content offset length ≤ content.length - offset.toNat := by
    rw [← length_contentSlice hin, contentSlice, List.length_take, List.length_drop]
    exact Nat.min_le_right _ _
  calc contentSlice content offset length
      = (((((w.data i).drop object.header.contentStart.toNat).take content.length).drop
          offset.toNat).take (requestedLength content offset length)) := by
        rw [h.content_eq, contentSlice]
    _ = _ := by rw [List.drop_take, List.take_take, Nat.min_eq_left hle, List.drop_drop]

/-- The blocking layer writes the same checks a second time. -/
lemma contentRangeReader_eq (object : TuxObject) (offset : UInt64) (length : Option UInt64) :
    object.contentRangeReader offset length =
      (do
        let remaining ← object.toAsync.seekWithinContent offset length
        return ⟨object.file, remaining⟩) := by
  have hheader : object.toAsync.header = object.header := rfl
  have hfile : object.toAsync.file = object.file := rfl
  unfold TuxObject.contentRangeReader AsyncTuxObject.seekWithinContent
  rw [hheader, hfile]
  by_cases hplain : object.header.compressionType.isNone = true
  swap
  · rw [if_pos hplain, if_pos hplain]
    rfl
  rw [if_neg (not_not_intro hplain), if_neg (not_not_intro hplain)]
  by_cases hoffset : object.header.contentLength < offset
  · rw [if_pos hoffset, if_pos hoffset]
    rfl
  rw [if_neg hoffset, if_neg hoffset]
  by_cases hlength : length.getD (object.header.contentLength - offset) >
      object.header.contentLength - offset
  · rw [if_pos hlength, if_pos hlength]
    rfl
  rw [if_neg hlength, if_neg hlength]
  simp only [bind_assoc, pure_bind]

/-- Ranges of `content` are read from the file `i` as they should be, through the readers that
`openRange` gives: -/
structure ReadsSlices {ρ : Type} [BoundedReader ρ] (mayFail : FsCall → Prop) (w : World) (i : ℕ)
    (content : List UInt8) (openRange : UInt64 → Option UInt64 → Fs ρ) : Prop where
  /-- a range is refused exactly when it lies outside of the content, -/
  refuses_iff : ∀ {offset length r w₁}, Ends (FsStep mayFail) (openRange offset length).run w r w₁ →
    ((∃ e : ObjectFileError, r = .error e ∧ e.IsRangeOutOfBounds) ↔
      OutOfBounds content offset length)
  /-- any other opens, unless a call fails or there is no such file, -/
  opens : ∀ {offset length r w₁}, Ends (FsStep mayFail) (openRange offset length).run w r w₁ →
    ¬ OutOfBounds content offset length →
      (∃ reader, r = .ok reader) ∨ (∃ c, mayFail c) ∨ maxFileLength < (w.data i).length
  /-- and its reader delivers the slice, whatever the buffers and the reads. -/
  delivers : ∀ {offset length reader w₁ lengths results reader' w₂},
    Ends (FsStep mayFail) (openRange offset length).run w (.ok reader) w₁ →
    Ends (FsStep mayFail) (readEach lengths reader) w₁ (results, reader') w₂ →
      Delivered (contentSlice content offset length) lengths results
          (BoundedReader.remaining reader') ∧
        (delivered results).length + BoundedReader.remaining reader' =
          requestedLength content offset length

/-- A reader that is put behind the seek reads slices. -/
lemma Serves.readsSlices {ρ : Type} [BoundedReader ρ] [LawfulBoundedReader ρ]
    (h : Serves w object i content) {openRange : UInt64 → Option UInt64 → Fs ρ}
    (reader : ℕ → ρ) (hfile : ∀ remaining, BoundedReader.file (reader remaining) = object.file)
    (hremaining : ∀ remaining, BoundedReader.remaining (reader remaining) = remaining)
    (hopen : ∀ offset length, openRange offset length =
      (do
        let remaining ← object.toAsync.seekWithinContent offset length
        return reader remaining)) :
    ReadsSlices mayFail w i content openRange := by
  have hopens : ∀ offset length, Fallible.Safe (FsStep mayFail) Reads (openRange offset length)
      (fun r w' => ¬ OutOfBounds content offset length ∧
        r = reader (requestedLength content offset length) ∧
        w' = w.seekTo object.file (object.header.contentStart.toNat + offset.toNat))
      (fun e w' => w' = w ∧ (e.IsRangeOutOfBounds ↔ OutOfBounds content offset length) ∧
        (¬ OutOfBounds content offset length →
          (∃ c, mayFail c) ∨ maxFileLength < (w.data i).length)) w := by
    intro offset length
    rw [hopen]
    refine Fallible.Safe.bind (Fallible.Safe.mono (h.seekWithinContent_safe offset length) ?_
      fun _ _ he => he)
    rintro remaining w' ⟨hin, rfl, hw'⟩
    exact Fallible.Safe.pure ⟨hin, rfl, hw'⟩
  constructor
  · intro offset length r w₁ hrun
    have hend := (hopens offset length).ends hrun
    rcases r with e | r
    · exact ⟨fun ⟨_, he, hrange⟩ => hend.2.1.mp (Except.error.inj he ▸ hrange),
        fun hout => ⟨e, rfl, hend.2.1.mpr hout⟩⟩
    · exact iff_of_false (fun ⟨_, he, _⟩ => nomatch he) hend.1
  · intro offset length r w₁ hrun hin
    have hend := (hopens offset length).ends hrun
    rcases r with e | r
    · exact .inr (hend.2.2 hin)
    · exact .inl ⟨r, rfl⟩
  · intro offset length r w₁ lengths results reader' w₂ hrun hreads
    obtain ⟨hin, rfl, rfl⟩ := (hopens offset length).ends hrun
    obtain ⟨pos, hpos⟩ := h.file
    have hfile' : (w.seekTo object.file (object.header.contentStart.toNat + offset.toNat)).files
        (BoundedReader.file (reader (requestedLength content offset length))) =
        some ⟨i, object.header.contentStart.toNat + offset.toNat, object.writable⟩ := by
      rw [hfile]
      exact World.seekTo_files_self hpos
    have hslice := h.contentSlice_eq hin
    have hlength := length_contentSlice hin
    rw [← hremaining (requestedLength content offset length)] at hslice
    have hdelivered := (readEach_safe lengths hfile' hslice
      (hlength.trans (hremaining _).symm)).ends hreads
    obtain ⟨rest, hrest, hleft⟩ := hdelivered.beginning
    refine ⟨hdelivered, ?_⟩
    rw [← hlength, ← hleft, hrest, List.length_append]

/-- Every handle of an object whose content is stored as it is reads exact slices of it, in both
layers and through readers that borrow or own the handle. -/
theorem ranged_reads_exact (h : Serves w object i content) :
    ReadsSlices mayFail w i content object.contentRangeReader ∧
      ReadsSlices mayFail w i content object.toAsync.contentRangeReader ∧
      ReadsSlices mayFail w i content object.toAsync.intoContentRangeReader := by
  refine ⟨?_, ?_, ?_⟩
  · exact h.readsSlices (ContentReader.mk object.file) (fun _ => rfl) (fun _ => rfl)
      (contentRangeReader_eq object)
  · exact h.readsSlices (ContentSection.mk object.file) (fun _ => rfl) (fun _ => rfl)
      (fun _ _ => rfl)
  · exact h.readsSlices (ContentSection.mk object.file) (fun _ => rfl) (fun _ => rfl)
      (fun _ _ => rfl)

end

attribute [local instance] fullPlatform pairCodecs

/-- A file system with an object of three bytes, open for reading. -/
def plainWorld : World :=
  (World.single (prefixBytes (headerOf .none ⟨64, 608⟩ 3) Tags.new Tags.new ⟨64, 608⟩ ++
    [7, 9, 11])).openAt World.somePath false 1 (Nat.le_refl _)

def plainObject : TuxObject := ⟨1, World.somePath, headerOf .none ⟨64, 608⟩ 3, Tags.new, false⟩

/-- The last two bytes are read through four buffers, one of them without room. -/
theorem ranged_reads_exact_last_two : ∃ reader w₁ results reader' w₂,
    Ends (FsStep NoFaults) (plainObject.contentRangeReader 1 (some 2)).run plainWorld (.ok reader)
      w₁ ∧
    Ends (FsStep NoFaults) (readEach [1, 0, 4, 4] reader) w₁ (results, reader') w₂ ∧
    delivered results = [9, 11] ∧ contentSlice [7, 9, 11] 1 (some 2) = [9, 11] ∧
    (delivered results).length + BoundedReader.remaining reader' = 2 := by
  have hserves : Serves plainWorld plainObject 0 [7, 9, 11] :=
    ⟨⟨0, rfl⟩, rfl, rfl, by decide +kernel⟩
  obtain ⟨reader, hreader, hopen⟩ := exec_ends_ok (fsStep_perform NoFaults)
    (p := (plainObject.contentRangeReader 1 (some 2)).run) (s := plainWorld) (by decide +kernel)
  have hreads := exec_ends (fsStep_perform NoFaults) (readEach [1, 0, 4, 4] reader)
    (exec perform (plainObject.contentRangeReader 1 (some 2)).run plainWorld).2
  refine ⟨reader, _, _, _, _, hopen, hreads, ?_, by decide,
    ((ranged_reads_exact hserves).1.delivers hopen hreads).2⟩
  obtain rfl : reader = (exec perform (plainObject.contentRangeReader 1 (some 2)).run
      plainWorld).1.toOption.getD ⟨0, 0⟩ := by
    rw [hreader]
    rfl
  decide +kernel

end TuxEncoding
