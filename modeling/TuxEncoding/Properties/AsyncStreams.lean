import TuxEncoding.Codec.AsyncWrite
import TuxEncoding.Properties.CutFiles

/-!
# Values on a stream

A sender writes values to a stream with `write_to_async_writer`, one after the other and up to the
first error. The stream takes them in any pieces and may fail at any of them, and the sender may be
dropped while it waits.

* `OnStream` is what may be on the stream by then: encodings of the first values, and at most a
  beginning of the next one (`sendEach_safe`).
* `OnStream.receives`: a decoder that reads the encodings and reports input that was cut reads those
  values off the stream and then reports its end.
* `streamed_values_received`: so do both readers of every type, and they agree with the sender on
  how many values went out.
-/

namespace TuxEncoding

open Bytes Interaction Program

set_option linter.unusedSectionVars false

/-! ## Senders -/

section

variable {α : Type} [TuxIOType α] [WritableObjectType α] [AsyncWritableObjectType α]

/-- Write the values one after the other, up to the first error, and say how many went out. -/
def sendEach : List α → Program PollWrite.Reply (ℕ × Except EncodingError Unit)
  | [] => return (0, .ok ())
  | a :: values => do
      match ← (writeToAsyncWriter a).run with
      | .error e => return (0, .error e)
      | .ok () =>
          let (n, result) ← sendEach values
          return (n + 1, result)

/-- The encodings of the first `n` values, and possibly a beginning of the next one. -/
inductive OnStream : List α → ℕ → List UInt8 → Prop
  | nothing {values : List α} : OnStream values 0 []
  | part {a : α} {values : List α} {bs : List UInt8} {k : ℕ} (hwrite : writeToBytes a = .ok bs)
      (hk : k < bs.length) : OnStream (a :: values) 0 (bs.take k)
  | sent {a : α} {values : List α} {bs rest : List UInt8} {n : ℕ} (hwrite : writeToBytes a = .ok bs)
      (h : OnStream values n rest) : OnStream (a :: values) (n + 1) (bs ++ rest)

/-- A sender that says that `n` values went out has sent all of them, or was stopped by the next. -/
structure SendEnds (fails : IoError → Prop) (stalls : Prop) (values : List α) (n : ℕ)
    (result : Except EncodingError Unit) : Prop where
  all : result = .ok () → n = values.length
  stopped : ∀ {e}, result = .error e → ∃ a, values[n]? = some a ∧ SendFailed fails stalls a e

variable {fails : IoError → Prop} {stalls : Prop} {a : α} {values : List α} {n : ℕ}
  {s s' rest : List UInt8}

lemma OnStream.le_length (h : OnStream values n rest) : n ≤ values.length := by
  induction h with
  | nothing | part => exact Nat.zero_le _
  | sent _ _ ih => exact Nat.succ_le_succ ih

lemma OnStream.of_unsent (h : Unsent a s s') :
    ∃ rest, OnStream (a :: values) 0 rest ∧ s' = s ++ rest := by
  obtain rfl | ⟨bs, hwrite, k, hk, rfl⟩ := h
  · exact ⟨[], .nothing, (List.append_nil _).symm⟩
  · exact ⟨bs.take k, .part hwrite hk, rfl⟩

/-- At every call, and at the end, the first values are on the stream. -/
lemma sendEach_safe [LawfulAsyncWrite α] (values : List α) (s : List UInt8) :
    Program.Safe (PollWrite.Step fails stalls)
      (fun _ s' => ∃ n rest, OnStream values n rest ∧ s' = s ++ rest) (sendEach values)
      (fun r s' => (∃ rest, OnStream values r.1 rest ∧ s' = s ++ rest) ∧
        SendEnds fails stalls values r.1 r.2) s := by
  induction values generalizing s with
  | nil =>
      exact ⟨⟨[], .nothing, (List.append_nil s).symm⟩, fun _ => rfl, fun he => by cases he⟩
  | cons a values ih =>
      refine Program.Safe.bind (Program.Safe.mono ?_
        (Program.Safe.allow (fun _ _ h => ?_) (writeToAsyncWriter_safe a)))
      swap
      · exact ⟨0, OnStream.of_unsent h⟩
      rintro (e | ⟨⟩) s₁ hr
      · exact ⟨OnStream.of_unsent hr.2, (fun hok => by cases hok),
          fun he => ⟨a, rfl, Except.error.inj he ▸ hr.1⟩⟩
      · obtain ⟨bs, hwrite, rfl⟩ := hr
        refine Program.Safe.bind (Program.Safe.mono ?_ (Program.Safe.allow ?_ (ih (s ++ bs))))
        · rintro ⟨n, result⟩ s₂ ⟨⟨rest, hrest, rfl⟩, hends⟩
          exact ⟨⟨bs ++ rest, .sent hwrite hrest, List.append_assoc _ _ _⟩,
            fun hok => congrArg Nat.succ (hends.all hok), hends.stopped⟩
        · rintro _ s₂ ⟨n, rest, hrest, rfl⟩
          exact ⟨n + 1, bs ++ rest, .sent hwrite hrest, List.append_assoc _ _ _⟩

/-! ## Receivers -/

/-- The decoder reads these values one after the other and then reports the end of the input. -/
def Receives (dec : Decoder α) (values : List α) (c : Cursor) : Prop :=
  ∃ c', readTimes dec values.length c = .ok (values, c') ∧ InputEnded (dec c')

lemma Receives.cons {dec : Decoder α} {c c' : Cursor} (h : Receives dec values c')
    (hread : dec c = .ok (a, c')) : Receives dec (a :: values) c := by
  obtain ⟨c₁, htimes, hended⟩ := h
  refine ⟨c₁, ?_, hended⟩
  show (dec c >>= fun p => (readTimes dec values.length >>= fun as => pure (p.1 :: as)) p.2) = _
  rw [hread]
  show (readTimes dec values.length c' >>= fun p => Except.ok (a :: p.1, p.2)) = _
  rw [htimes]
  rfl

/-- What a decoder has to do with the encodings of a type for its values to be received. -/
structure ReadsStreams (dec : Decoder α) (IsReadable : α → Prop) (decoded : α → α) : Prop where
  reads : ∀ {a : α} {bs : List UInt8}, IsReadable a → writeToBytes a = .ok bs →
    ReadsAs dec bs (decoded a)
  cut : ∀ {a : α} {bs : List UInt8} {k : ℕ} (before : List UInt8), writeToBytes a = .ok bs →
    k < bs.length → InputEnded (dec ⟨before ++ bs.take k, before.length⟩)
  atEnd : ∀ before : List UInt8, InputEnded (dec ⟨before, before.length⟩)

/-- The values that went out are received, and no more. -/
lemma OnStream.receives {dec : Decoder α} {IsReadable : α → Prop} {decoded : α → α}
    (hdec : ReadsStreams dec IsReadable decoded) (hreadable : ∀ a ∈ values, IsReadable a)
    (h : OnStream values n rest) (before : List UInt8) :
    Receives dec ((values.take n).map decoded) ⟨before ++ rest, before.length⟩ := by
  induction h generalizing before with
  | nothing =>
      rw [List.append_nil]
      exact ⟨_, rfl, hdec.atEnd before⟩
  | part hwrite hk => exact ⟨_, rfl, hdec.cut before hwrite hk⟩
  | @sent a values bs rest n hwrite _ ih =>
      have hread := hdec.reads (hreadable a List.mem_cons_self) hwrite before rest
      have hnext := ih (fun b hb => hreadable b (List.mem_cons_of_mem a hb)) (before ++ bs)
      rw [List.append_assoc] at hread
      rw [List.append_assoc, List.length_append] at hnext
      exact hnext.cons hread

/-! ## Both ends -/

variable [ReadableObjectType α] [AsyncReadableObjectType α]

/-- Wherever the sender and the stream have got to, both readers receive the same values, which are
the first `n` that were sent, and `n` is what the sender says when it has ended. -/
structure Streamed (fails : IoError → Prop) (stalls : Prop) (decoded : α → α) (values : List α)
    (s s' : List UInt8) (q : Program PollWrite.Reply (ℕ × Except EncodingError Unit)) (n : ℕ) :
    Prop where
  le_length : n ≤ values.length
  received : Receives readFromReader ((values.take n).map decoded) ⟨s', s.length⟩
  receivedAsync : Receives readFromAsyncReader ((values.take n).map decoded) ⟨s', s.length⟩
  ended : ∀ {m result}, q = .done (m, result) → m = n ∧ SendEnds fails stalls values m result

/-- At any time of any run of a sender, the values that went out are received. -/
def StreamsWhole (α : Type) [TuxIOType α] [WritableObjectType α] [AsyncWritableObjectType α]
    [ReadableObjectType α] [AsyncReadableObjectType α] (IsReadable : α → Prop) (decoded : α → α) :
    Prop :=
  ∀ (fails : IoError → Prop) (stalls : Prop) (values : List α) (s s' : List UInt8)
    (q : Program PollWrite.Reply (ℕ × Except EncodingError Unit)),
    (∀ a ∈ values, IsReadable a) →
    Program.Reaches (PollWrite.Step fails stalls) (sendEach values) s q s' →
    ∃ n, Streamed fails stalls decoded values s s' q n

/-- They are, and just as they were sent. -/
abbrev StreamsExactly (α : Type) [TuxIOType α] [WritableObjectType α] [AsyncWritableObjectType α]
    [ReadableObjectType α] [AsyncReadableObjectType α] : Prop :=
  StreamsWhole α (fun _ => True) id

/-- An async reader that agrees with the sync one reads the same encodings. -/
lemma Agrees.readsAs {async sync : Decoder α} (h : Agrees async sync) {bs : List UInt8}
    (hsync : ReadsAs sync bs a) : ReadsAs async bs a := by
  intro before suffix
  have hc := h ⟨before ++ bs ++ suffix, before.length⟩
  rw [hsync] at hc
  cases hasync : async ⟨before ++ bs ++ suffix, before.length⟩ with
  | ok r =>
      rw [hasync] at hc
      exact congrArg Except.ok hc
  | error e =>
      rw [hasync] at hc
      exact hc.elim

/-- A type whose readers report the end of the input, and which has an encoding to be cut off. -/
lemma EndReported.streamsWhole [LawfulAsyncWrite α] (h : EndReported α) (hagrees : AsyncAgrees α)
    {IsReadable : α → Prop} {decoded : α → α}
    (hreads : ∀ {a : α} {bs : List UInt8}, IsReadable a → writeToBytes a = .ok bs →
      ReadsAs readFromReader bs (decoded a))
    {a₀ : α} {bs₀ : List UInt8} (hwrite : writeToBytes a₀ = .ok bs₀) (hpos : 0 < bs₀.length) :
    StreamsWhole α IsReadable decoded := by
  have hend : ∀ before : List UInt8,
      InputEnded ((readFromReader : Decoder α) ⟨before, before.length⟩) ∧
        InputEnded ((readFromAsyncReader : Decoder α) ⟨before, before.length⟩) := by
    intro before
    have hended := h.encodings a₀ bs₀ before 0 hwrite hpos
    rwa [List.take_zero, List.append_nil] at hended
  have hsync : ReadsStreams (readFromReader : Decoder α) IsReadable decoded :=
    ⟨hreads, fun before hwrite hk => (h.encodings _ _ before _ hwrite hk).1,
      fun before => (hend before).1⟩
  have hasync : ReadsStreams (readFromAsyncReader : Decoder α) IsReadable decoded :=
    ⟨fun hreadable hwrite => hagrees.readsAs (hreads hreadable hwrite),
      fun before hwrite hk => (h.encodings _ _ before _ hwrite hk).2, fun before => (hend before).2⟩
  intro fails stalls values s s' q hreadable hrun
  have hstreamed : ∀ {n rest}, OnStream values n rest → s' = s ++ rest →
      (∀ {m result}, q = .done (m, result) → m = n ∧ SendEnds fails stalls values m result) →
      Streamed fails stalls decoded values s s' q n := by
    rintro n rest hrest rfl hended
    exact ⟨hrest.le_length, hrest.receives hsync hreadable s, hrest.receives hasync hreadable s,
      hended⟩
  have hsafe := (sendEach_safe values s).reaches hrun
  cases q with
  | done r =>
      obtain ⟨⟨rest, hrest, hs⟩, hends⟩ := hsafe
      refine ⟨r.1, hstreamed hrest hs ?_⟩
      intro m result hdone
      obtain rfl := Program.done.inj hdone
      exact ⟨rfl, hends⟩
  | call c next =>
      obtain ⟨⟨n, rest, hrest, hs⟩, _⟩ := hsafe
      exact ⟨n, hstreamed hrest hs fun hdone => by cases hdone⟩

/-- A type whose values read back as they were. -/
lemma CutsReported.streamsWhole [LawfulAsyncWrite α] [Codec α] (h : CutsReported α)
    (hstrict : Strict α) (hasync : ReportsCuts (readFromAsyncReader : Decoder α))
    (hagrees : AsyncAgrees α) (a₀ : α) (hfits : Codec.Fits a₀) (hsize : 0 < size a₀) :
    StreamsExactly α := by
  have hended := h.endReported hasync hagrees hstrict readsAs_of_writeToBytes
  refine hended.streamsWhole hagrees (fun _ => readsAs_encoding) (writeToBytes_of_fits hfits) ?_
  rw [Codec.length_wire hfits]
  exact hsize

/-- A type whose bytes are read in one piece. -/
lemma CutsReported.streamsWhole_fixed [LawfulAsyncWrite α] [Codec α] (h : CutsReported α)
    (hstrict : Strict α) {k : ℕ} (hasync : (readFromAsyncReader : Decoder α) = readFixedSize k)
    (hfixed : ∃ f, Fixed k (readFromReader : Decoder α) f) (a₀ : α) (hfits : Codec.Fits a₀)
    (hsize : 0 < size a₀) : StreamsExactly α := by
  have hagrees : AsyncAgrees α := by
    rw [AsyncAgrees, hasync]
    exact agrees_readFixedSize hfixed
  refine h.streamsWhole hstrict ?_ hagrees a₀ hfits hsize
  rw [hasync]
  exact reportsCuts_readFixedSize h k

end

/-! ## The types of the crate -/

lemma streamsWhole_number {α : Type} [Number α] [ExactNumber α] (a₀ : α)
    (hwidth : 0 < Number.width α) : StreamsExactly α :=
  cutsReported_number.streamsWhole strict_number reportsCuts_numberAsync agrees_number
    a₀ trivial
    hwidth

lemma streamsWhole_header :
    StreamsWhole ObjectHeader (fun header => header.version = currentVersion) id := by
  refine endReported_header.streamsWhole agrees_header (@fun header bs hversion hwrite => ?_)
    (headerOf .none ⟨0, 0⟩ 0).writeToBytes_eq ?_
  · obtain rfl := Except.ok.inj (header.writeToBytes_eq.symm.trans hwrite)
    refine (readsAs_readExact (ObjectHeader.length_wire header)).bind_nil ?_
    have hread := ObjectHeader.readFromBytes_wire header hversion []
    rw [List.append_nil] at hread
    rw [hread]
    exact ReadsAs.pure header
  · rw [ObjectHeader.length_wire]
    exact Nat.succ_pos _

lemma streamsWhole_tags [HashOrder String] :
    StreamsWhole (Tags String) (fun _ => True) Tags.decoded := by
  refine endReported_tags.streamsWhole (Tags.agrees agrees_string)
    (fun _ => Tags.readsAs_encoding) (Tags.writeToBytes_of_fits Tags.fits_new) ?_
  rw [Tags.length_wire Tags.fits_new]
  exact Nat.succ_pos _

/-- The values that a sender has written come out at the other end, whole, in order and each once,
whatever the stream does and wherever it or the sender stops. -/
theorem streamed_values_received [HashOrder String] :
    StreamsExactly ValueType ∧
      StreamsWhole (Tags String) (fun _ => True) Tags.decoded ∧
      StreamsWhole ObjectHeader (fun header => header.version = currentVersion) id ∧
      StreamsExactly String ∧ StreamsExactly (List UInt8) ∧
      (StreamsExactly UInt8 ∧ StreamsExactly UInt16 ∧
        StreamsExactly UInt32 ∧ StreamsExactly UInt64 ∧
        StreamsExactly Int8 ∧ StreamsExactly Int16 ∧
        StreamsExactly Int32 ∧ StreamsExactly Int64 ∧
        StreamsExactly F32 ∧ StreamsExactly F64) ∧
      StreamsExactly RawDate ∧ StreamsExactly RawTime ∧
      StreamsExactly RawTimeZone ∧ StreamsExactly RawDateTime ∧
      StreamsExactly Uuid := by
  refine ⟨?_, streamsWhole_tags, streamsWhole_header, ?_, ?_, ?_, ?_, ?_, ?_, ?_, ?_⟩
  · exact ValueType.cutsReported.streamsWhole ValueType.strict ValueType.reportsCuts_async
      ValueType.agrees (.bool true) trivial (ValueType.size_pos _)
  · exact cutsReported_string.streamsWhole strict_string reportsCuts_stringAsync agrees_string
      "" (Nat.zero_le _) (Nat.succ_pos _)
  · exact (cutsReported_vec cutsReported_number).streamsWhole (strict_vec strict_number)
      reportsCuts_readLengthPrefixed agrees_bytes [] ((fits_bytes []).mpr (Nat.zero_le _))
      (Nat.succ_pos _)
  · exact ⟨streamsWhole_number 0 (by decide), streamsWhole_number 0 (by decide),
      streamsWhole_number 0 (by decide), streamsWhole_number 0 (by decide),
      streamsWhole_number 0 (by decide), streamsWhole_number 0 (by decide),
      streamsWhole_number 0 (by decide), streamsWhole_number 0 (by decide),
      streamsWhole_number ⟨0⟩ (by decide), streamsWhole_number ⟨0⟩ (by decide)⟩
  · exact cutsReported_rawDate.streamsWhole_fixed strict_rawDate rfl fixed_rawDate ⟨0, 0, 0⟩
      trivial (by decide)
  · exact cutsReported_rawTime.streamsWhole_fixed strict_rawTime rfl fixed_rawTime ⟨0, 0⟩ trivial
      (by decide)
  · exact cutsReported_rawTimeZone.streamsWhole_fixed strict_rawTimeZone rfl fixed_rawTimeZone ⟨0⟩
      trivial (by decide)
  · exact cutsReported_rawDateTime.streamsWhole_fixed strict_rawDateTime rfl fixed_rawDateTime
      ⟨⟨0, 0, 0⟩, ⟨0, 0⟩, ⟨0⟩⟩ trivial (by decide)
  · exact cutsReported_uuid.streamsWhole strict_uuid reportsCuts_uuidAsync agrees_uuid
      ⟨List.replicate 16 0, rfl⟩ trivial (by decide)

/-- A stream that takes three bytes at a time, until it holds `room` bytes. -/
def takesThree (room : ℕ) : Program.Handler PollWrite.Reply (List UInt8) := fun c s =>
  if room ≤ s.length then (.error ⟨.other, "full"⟩, s)
  else (.ok (min 3 c.buf.length), s ++ c.buf.take 3)

/-- It fails in the second of two vectors. -/
example :
    Program.exec (takesThree 8) (sendEach ([[7, 8, 9], [1, 2, 3, 4]] : List (List UInt8))) [] =
      ((1, .error (.ioError ⟨.other, "full"⟩)), [3, 0, 7, 8, 9, 4, 0, 1]) := rfl

end TuxEncoding
