import TuxEncoding.Codec.Acceptance
import TuxEncoding.Codec.Async

/-!
# Input that ends too early

What a decoder makes of input that somebody has cut off, or has not written to its end yet.

* `ReportsCuts`: given more input, the decoder does the same as before, unless it has reported that
  the input ended, and it reports no other I/O error. It is kept by sequencing (`ReportsCuts.bind`),
  and every reader of this crate is made of parts that have it.
* `ReportsCuts.fails_of_readsAs`: cut anywhere, a byte string that the decoder reads is reported.
-/

namespace TuxEncoding

open Bytes

set_option linter.unusedSectionVars false

variable {α β : Type}

/-! ## Reporting the end of the input -/

/-- The decoder has reported that the input ended: an I/O error of the kind `UnexpectedEof`. -/
def InputEnded (r : Except EncodingError (α × Cursor)) : Prop :=
  ∃ err : IoError, r = .error (.ioError err) ∧ err.kind = .unexpectedEof

/-- With more input behind it the decoder does the same, unless it has reported the end; and it
reports no other I/O error. -/
structure ReportsCuts (dec : Decoder α) : Prop where
  more : ∀ (c : Cursor) (rest : List UInt8), InputEnded (dec c) ∨
    dec ⟨c.bytes ++ rest, c.pos⟩ = (dec c).map fun p => (p.1, ⟨p.2.bytes ++ rest, p.2.pos⟩)
  ends : ∀ {c err}, dec c = .error (.ioError err) → err.kind = .unexpectedEof

namespace ReportsCuts

lemma pure (a : α) : ReportsCuts (pure a) := ⟨fun _ _ => .inr rfl, nofun⟩

lemma throw {e : EncodingError} (h : ∀ err, e = .ioError err → err.kind = .unexpectedEof) :
    ReportsCuts (throw e : Decoder α) :=
  ⟨fun _ _ => .inr rfl, fun heq => h _ (Except.error.inj heq)⟩

lemma bind {dec : Decoder α} {f : α → Decoder β} (h : ReportsCuts dec)
    (hf : ∀ a, ReportsCuts (f a)) : ReportsCuts (dec >>= f) := by
  constructor
  · intro c rest
    show InputEnded (dec c >>= fun p => f p.1 p.2) ∨
      (dec ⟨c.bytes ++ rest, c.pos⟩ >>= fun p => f p.1 p.2) =
        (dec c >>= fun p => f p.1 p.2).map _
    rcases h.more c rest with ⟨err, herr, hkind⟩ | hmore
    · rw [herr]
      exact .inl ⟨err, rfl, hkind⟩
    · rw [hmore]
      cases hdec : dec c with
      | error e => exact .inr rfl
      | ok p => exact (hf p.1).more p.2 rest
  · intro c err herr
    replace herr : (dec c >>= fun p => f p.1 p.2) = .error (.ioError err) := herr
    cases hdec : dec c with
    | error e =>
        rw [hdec] at herr
        obtain rfl := Except.error.inj herr
        exact h.ends hdec
    | ok p =>
        rw [hdec] at herr
        exact (hf p.1).ends herr

lemma map {dec : Decoder α} (h : ReportsCuts dec) (g : α → β) : ReportsCuts (g <$> dec) := by
  rw [map_eq_pure_bind]
  exact h.bind fun a => pure (g a)

/-- A value that is computed without reading. -/
lemma ofExcept {r : Except EncodingError α}
    (h : ∀ err, r = .error (.ioError err) → err.kind = .unexpectedEof) :
    ReportsCuts (liftM r : Decoder α) := by
  cases r with
  | error e => exact throw fun err heq => h err (congrArg Except.error heq)
  | ok a => exact pure a

/-- Moving the cursor looks at nothing. -/
lemma modifyPos (f : ℕ → ℕ) :
    ReportsCuts (modify fun c => { c with pos := f c.pos } : Decoder Unit) :=
  ⟨fun _ _ => .inr rfl, nofun⟩

lemma streamPosition : ReportsCuts streamPosition := ⟨fun _ _ => .inr rfl, nofun⟩

lemma readAsync (message : String) (n : ℕ) : ReportsCuts (readAsync message n) := by
  unfold TuxEncoding.readAsync
  constructor
  · intro c rest
    by_cases hn : n ≤ c.bytes.length - c.pos
    · have hmore : n ≤ (c.bytes ++ rest).length - c.pos := by
        rw [List.length_append]
        omega
      have hsame : ((c.bytes ++ rest).drop c.pos).take n = (c.bytes.drop c.pos).take n := by
        rw [List.drop_append, List.take_append_of_le_length (by rw [List.length_drop]; exact hn)]
      rw [if_pos hn]
      refine .inr ?_
      rw [if_pos hmore, hsame]
      rfl
    · rw [if_neg hn]
      exact .inl ⟨_, rfl, rfl⟩
  · intro c err herr
    split_ifs at herr
    cases herr
    rfl

lemma readExact (n : ℕ) : ReportsCuts (readExact n) := readAsync shortRead.message n

lemma readTimes {read : Decoder α} (h : ReportsCuts read) (n : ℕ) :
    ReportsCuts (readTimes read n) := by
  induction n with
  | zero => exact pure []
  | succ n ih => exact h.bind fun a => ih.bind fun as => pure (a :: as)

/-- A byte string that the decoder reads to its end is reported when it is cut off. -/
lemma fails_of_readsAs {dec : Decoder α} {P : α → List UInt8 → Prop} (h : ReportsCuts dec)
    (haccepts : Accepts dec P) {bs : List UInt8} {a : α} (hreads : ReadsAs dec bs a) {k : ℕ}
    (hk : k < bs.length) (before : List UInt8) :
    InputEnded (dec ⟨before ++ bs.take k, before.length⟩) := by
  refine (h.more _ (bs.drop k)).resolve_right fun hmore => ?_
  have hwhole := hreads before []
  simp only [List.append_nil] at hwhole
  dsimp only at hmore
  rw [List.append_assoc, List.take_append_drop, hwhole] at hmore
  cases hcut : dec ⟨before ++ bs.take k, before.length⟩ with
  | error e =>
      rw [hcut] at hmore
      cases hmore
  | ok p =>
      -- the decoder would have gone past the end of what is left
      rw [hcut] at hmore
      have hpos : before.length + bs.length = p.2.pos :=
        congrArg (fun p => p.2.pos) (Except.ok.inj hmore)
      obtain ⟨cs, hcs, hend, _⟩ := haccepts _ p.1 p.2 hcut
      rw [hend] at hpos
      have hlength := hcs.length_le
      rw [List.drop_left, List.length_take] at hlength
      dsimp only at hpos
      omega

end ReportsCuts

/-! ## The value types -/

/-- The three readers of a type report where the input ends. -/
structure CutsReported (α : Type) [TuxIOType α] [ReadableObjectType α] : Prop where
  reader : ReportsCuts (readFromReader : Decoder α)
  measure : ReportsCuts (ReadableObjectType.readSize α)
  skip : ReportsCuts (ReadableObjectType.skip α)

/-- A type that reads a value to skip it. -/
lemma CutsReported.ofReader [TuxIOType α] [ReadableObjectType α]
    (hskip : ReadableObjectType.skip α = (do let _ ← (readFromReader : Decoder α)))
    (reader : ReportsCuts (readFromReader : Decoder α))
    (measure : ReportsCuts (ReadableObjectType.readSize α)) : CutsReported α where
  reader := reader
  measure := measure
  skip := by
    rw [hskip]
    exact reader.bind fun _ => .pure ()

lemma cutsReported_number [Number α] : CutsReported α :=
  .ofReader rfl ((ReportsCuts.readExact _).bind fun _ => .pure _) (.pure _)

lemma reportsCuts_readLength : ReportsCuts readLength :=
  cutsReported_number.reader.bind fun _ => .pure _

lemma cutsReported_bool : CutsReported Bool := by
  refine .ofReader rfl ((ReportsCuts.readExact 1).bind fun buffer => ?_) (.pure _)
  split
  · exact .pure _
  · exact .pure _
  · exact .throw nofun

lemma cutsReported_vec [TuxIOType α] [ReadableObjectType α] (h : CutsReported α) :
    CutsReported (List α) :=
  .ofReader rfl (reportsCuts_readLength.bind fun n => h.reader.readTimes n)
    (reportsCuts_readLength.bind fun _ => .pure _)

lemma cutsReported_string : CutsReported String where
  reader := by
    refine reportsCuts_readLength.bind fun n => (ReportsCuts.readExact n).bind fun buffer => ?_
    cases fromUtf8 buffer with
    | none => exact .throw nofun
    | some s => exact .pure s
  measure := reportsCuts_readLength.bind fun _ => .pure _
  skip := reportsCuts_readLength.bind fun n => .modifyPos (· + n)

lemma cutsReported_rawDate : CutsReported RawDate :=
  .ofReader rfl (cutsReported_number.reader.bind fun _ => cutsReported_number.reader.bind fun _ =>
    cutsReported_number.reader.bind fun _ => .pure _) (.pure _)

lemma cutsReported_rawTime : CutsReported RawTime :=
  .ofReader rfl (cutsReported_number.reader.bind fun _ =>
    cutsReported_number.reader.bind fun _ => .pure _) (.pure _)

lemma cutsReported_rawTimeZone : CutsReported RawTimeZone :=
  .ofReader rfl (cutsReported_number.reader.bind fun _ => .pure _) (.pure _)

lemma cutsReported_rawDateTime : CutsReported RawDateTime :=
  .ofReader rfl (cutsReported_rawDate.reader.bind fun _ => cutsReported_rawTime.reader.bind fun _ =>
    cutsReported_rawTimeZone.reader.bind fun _ => .pure _) (.pure _)

lemma cutsReported_uuid : CutsReported Uuid where
  reader := (ReportsCuts.readExact 16).bind fun _ => .pure _
  measure := .pure _
  skip := .modifyPos (· + 16)

/-- Two steps of a computation that do no I/O. -/
lemma bind_ne_ioError {r : Except EncodingError α} {f : α → Except EncodingError β}
    {err : IoError} (h : r ≠ .error (.ioError err)) (hf : ∀ a, f a ≠ .error (.ioError err)) :
    (r >>= f) ≠ .error (.ioError err) := by
  cases r with
  | error e => exact fun heq => h (congrArg Except.error (Except.error.inj heq))
  | ok a => exact hf a

lemma ObjectHeader.readFromBytes_ne_ioError {content : List UInt8} {err : IoError} :
    ObjectHeader.readFromBytes content ≠ .error (.ioError err) := by
  have hcompression : CompressionTypes.tryFrom (slice content 4 9) ≠ .error (.ioError err) := by
    unfold CompressionTypes.tryFrom
    split_ifs
    · exact nofun
    · split <;> exact nofun
  have hentry : headerEntry (slice content 0 4) ≠ .error (.ioError err) := by
    unfold headerEntry
    split_ifs <;> exact nofun
  unfold ObjectHeader.readFromBytes
  split_ifs with hlength
  · exact nofun
  · refine bind_ne_ioError hentry fun version => ?_
    split_ifs with hversion
    · exact nofun
    · exact bind_ne_ioError hcompression fun _ => nofun

lemma cutsReported_header : CutsReported ObjectHeader where
  reader := (ReportsCuts.readExact 32).bind fun _ =>
    .ofExcept fun _ h => absurd h ObjectHeader.readFromBytes_ne_ioError
  measure := .pure _
  skip := .modifyPos fun _ => 32

/-! ## Values and blocks -/

namespace ValueType

lemma Arm.reportsCuts {α : Type} [TuxIOType α] [TypedObjectType α] [ReadableObjectType α]
    (mk : α → ValueType) (h : CutsReported α) :
    ReportsCuts (Arm.of mk).readSize ∧ ReportsCuts (Arm.of mk).readFromReader :=
  ⟨h.measure.bind fun _ => .pure _, h.reader.bind fun _ => .pure _⟩

lemma arms_reportCuts :
    ∀ arm ∈ arms, ReportsCuts arm.readSize ∧ ReportsCuts arm.readFromReader := by
  unfold arms
  simp only [List.forall_mem_cons]
  exact ⟨Arm.reportsCuts _ cutsReported_string,
    Arm.reportsCuts _ (cutsReported_vec cutsReported_number),
    Arm.reportsCuts _ cutsReported_bool, Arm.reportsCuts _ cutsReported_number,
    Arm.reportsCuts _ cutsReported_number, Arm.reportsCuts _ cutsReported_number,
    Arm.reportsCuts _ cutsReported_number, Arm.reportsCuts _ cutsReported_number,
    Arm.reportsCuts _ cutsReported_number, Arm.reportsCuts _ cutsReported_number,
    Arm.reportsCuts _ cutsReported_number, Arm.reportsCuts _ cutsReported_number,
    Arm.reportsCuts _ cutsReported_number, Arm.reportsCuts _ cutsReported_rawDate,
    Arm.reportsCuts _ cutsReported_rawTime, Arm.reportsCuts _ cutsReported_rawDateTime,
    Arm.reportsCuts _ cutsReported_uuid, List.forall_mem_nil _⟩

lemma cutsReported : CutsReported ValueType := by
  refine .ofReader rfl (cutsReported_number.reader.bind fun key => ?_)
    (cutsReported_number.reader.bind fun key => ?_)
  · cases harm : armOf key with
    | none => exact .throw nofun
    | some arm => exact (arms_reportCuts arm (List.mem_of_find?_eq_some harm)).2
  · cases harm : armOf key with
    | none => exact .throw nofun
    | some arm => exact (arms_reportCuts arm (List.mem_of_find?_eq_some harm)).1

end ValueType

namespace Tags

variable {Key : Type} [DecidableEq Key] [HashOrder Key] [TuxIOType Key] [ReadableObjectType Key]

lemma reportsCuts_readEntries (hkey : CutsReported Key) (n : ℕ) (t : Tags Key) :
    ReportsCuts (readEntries n t) := by
  induction n generalizing t with
  | zero => exact .pure t
  | succ n ih =>
      exact hkey.reader.bind fun key => ValueType.cutsReported.reader.bind fun value => ih _

lemma reportsCuts_measureEntries (hkey : CutsReported Key) (blockStart n total : ℕ) :
    ReportsCuts (measureEntries Key blockStart n total) := by
  induction n generalizing total with
  | zero => exact .pure total
  | succ n ih =>
      exact hkey.measure.bind fun keySize => (ReportsCuts.modifyPos fun _ => _).bind fun _ =>
        ValueType.cutsReported.measure.bind fun valueSize =>
          (ReportsCuts.modifyPos fun _ => _).bind fun _ => ih _

lemma cutsReported (hkey : CutsReported Key) : CutsReported (Tags Key) :=
  .ofReader rfl (reportsCuts_readLength.bind fun n => reportsCuts_readEntries hkey n new)
    (ReportsCuts.streamPosition.bind fun blockStart => reportsCuts_readLength.bind fun n =>
      reportsCuts_measureEntries hkey blockStart n 2)

lemma reportsCuts_findFromReader (hkey : CutsReported Key) (key : Key) :
    ReportsCuts (findFromReader key) := by
  refine reportsCuts_readLength.bind fun n => ?_
  induction n with
  | zero => exact .pure none
  | succ n ih =>
      refine hkey.reader.bind fun tagKey => ?_
      split_ifs
      · exact ValueType.cutsReported.reader.bind fun value => .pure _
      · exact ValueType.cutsReported.skip.bind fun _ => ih

end Tags

lemma cutsReported_metaKey [Http] : CutsReported MetaKey := by
  have hbytes := cutsReported_vec (cutsReported_number (α := UInt8))
  refine .ofReader rfl (hbytes.reader.bind fun content => ?_) hbytes.measure
  cases Http.fromBytes content with
  | none => exact .throw nofun
  | some name => exact .pure _

/-! ## The async readers -/

lemma reportsCuts_readU8 : ReportsCuts readU8 := (ReportsCuts.readAsync _ 1).bind fun _ => .pure _

lemma reportsCuts_readU16Le : ReportsCuts readU16Le :=
  (ReportsCuts.readAsync _ 2).bind fun _ => .pure _

lemma reportsCuts_readLengthPrefixed : ReportsCuts readLengthPrefixed :=
  reportsCuts_readU16Le.bind fun _ => .readAsync _ _

lemma reportsCuts_readFixedSize [TuxIOType α] [ReadableObjectType α] (h : CutsReported α) (n : ℕ) :
    ReportsCuts (readFixedSize n : Decoder α) := by
  refine (ReportsCuts.readAsync _ n).bind fun buffer => .ofExcept fun err herr => ?_
  unfold readFromBytes at herr
  cases hread : (readFromReader : Decoder α) ⟨buffer, 0⟩ with
  | error e =>
      rw [hread] at herr
      obtain rfl := Except.error.inj herr
      exact h.reader.ends hread
  | ok p =>
      rw [hread] at herr
      cases herr

lemma reportsCuts_numberAsync [Number α] : ReportsCuts (readFromAsyncReader : Decoder α) :=
  (ReportsCuts.readAsync _ _).bind fun _ => .pure _

lemma reportsCuts_stringAsync : ReportsCuts (readFromAsyncReader : Decoder String) := by
  refine reportsCuts_readLengthPrefixed.bind fun buffer => ?_
  cases fromUtf8 buffer with
  | none => exact .throw nofun
  | some s => exact .pure s

lemma reportsCuts_uuidAsync : ReportsCuts (readFromAsyncReader : Decoder Uuid) :=
  (ReportsCuts.readAsync _ 16).bind fun _ => .pure _

lemma reportsCuts_headerAsync : ReportsCuts (readFromAsyncReader : Decoder ObjectHeader) :=
  (ReportsCuts.readAsync _ 32).bind fun _ =>
    .ofExcept fun _ h => absurd h ObjectHeader.readFromBytes_ne_ioError

lemma reportsCuts_boolAsync : ReportsCuts readBoolAsync := by
  refine reportsCuts_readU8.bind fun byte => ?_
  split
  · exact .pure false
  · exact .pure true
  · exact .throw nofun

/-- A branch of the hand-written dispatch. -/
lemma ValueType.reportsCuts_dispatch {key key' : UInt8} (mk : α → ValueType) {dec : Decoder α}
    {rest : Decoder ValueType} (h : ReportsCuts dec) (hrest : ReportsCuts rest) :
    ReportsCuts (if key = key' then mk <$> dec else rest) := by
  split_ifs
  · exact h.map mk
  · exact hrest

lemma ValueType.reportsCuts_async : ReportsCuts (readFromAsyncReader : Decoder ValueType) := by
  refine reportsCuts_readU8.bind fun key => ?_
  apply reportsCuts_dispatch _ reportsCuts_stringAsync
  apply reportsCuts_dispatch _ reportsCuts_readLengthPrefixed
  apply reportsCuts_dispatch _ reportsCuts_boolAsync
  iterate 10 apply reportsCuts_dispatch _ reportsCuts_numberAsync
  apply reportsCuts_dispatch _ (reportsCuts_readFixedSize cutsReported_rawDate _)
  apply reportsCuts_dispatch _ (reportsCuts_readFixedSize cutsReported_rawTime _)
  apply reportsCuts_dispatch _ (reportsCuts_readFixedSize cutsReported_rawDateTime _)
  apply reportsCuts_dispatch _ reportsCuts_uuidAsync
  exact .throw nofun

lemma Tags.reportsCuts_readEntriesAsync (n : ℕ) (tags : Tags String) :
    ReportsCuts (readEntriesAsync n tags) := by
  induction n generalizing tags with
  | zero => exact .pure tags
  | succ n ih =>
      exact reportsCuts_stringAsync.bind fun key =>
        ValueType.reportsCuts_async.bind fun value => ih _

lemma Tags.reportsCuts_async : ReportsCuts (readFromAsyncReader : Decoder (Tags String)) :=
  reportsCuts_readU16Le.bind fun count => reportsCuts_readEntriesAsync count.toNat new

/-- Where the sync reader reports the end of the input, so does an async one that agrees with it. -/
lemma Agrees.inputEnded {a s : Decoder α} (h : Agrees a s) {c : Cursor} (hs : InputEnded (s c)) :
    InputEnded (a c) := by
  obtain ⟨err, herr, hkind⟩ := hs
  have hc := h c
  rw [herr] at hc
  cases ha : a c with
  | ok r =>
      rw [ha] at hc
      exact hc.elim
  | error e =>
      rw [ha] at hc
      cases e with
      | ioError err' => exact ⟨err', rfl, Eq.trans hc hkind⟩
      | _ => cases hc

end TuxEncoding
