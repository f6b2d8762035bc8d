import TuxEncoding.Fs.FinishSafety
import TuxEncoding.Fs.Compression

/-!
# The life of a writer

What a caller may do with a writer between `create` and its end, and what that amounts to.

* `Draft` is the abstract writer: the object as it would be published now, and what the writer says
  of it. `Represents` says that a writer and its temporary file stand for a draft.
* `Op` is an operation of the caller and `Op.Effect` what it may do to the draft; `op_safe` says
  that the code does no more than that, whatever fails.
* `life` is a whole life, from `create` to `finish`, `abort` or the destructor, and `life_safe` its
  specification: only a draft that the operations can have led to is ever published.
-/

namespace TuxEncoding

open Bytes Interaction Program

set_option linter.unusedSectionVars false

variable [Platform] [Codecs]

/-! ## Drafts -/

/-- The object a writer has been given so far. -/
structure Draft where
  flavor : Flavor
  compression : CompressionTypes
  sync : Bool
  metadata : MetadataMap
  tags : Tags String
  /-- the bytes that have reached the file -/
  content : List UInt8
  /-- how many bytes the writer has taken -/
  counted : ℕ
  allowRawWrites : Bool
  /-- the error that a tokio writer has yet to report -/
  deferred : Option IoError

namespace Draft

/-- The draft of a new writer. -/
def new (flavor : Flavor) (options : CreateOptions) : Draft where
  flavor := flavor
  compression := options.compression
  sync := options.sync
  metadata := options.metadata
  tags := options.tags
  content := []
  counted := 0
  allowRawWrites := options.compression.isNone
  deferred := none

@[simps] def append (bs : List UInt8) (draft : Draft) : Draft :=
  { draft with
    content := draft.content ++ bs
    counted := draft.counted + bs.length }

/-- Bytes are taken of which only the first `k` reach the file. -/
@[simps] def lose (bs : List UInt8) (k : ℕ) (err : IoError) (draft : Draft) : Draft :=
  { draft with
    content := draft.content ++ bs.take k
    counted := draft.counted + bs.length
    deferred := some err }

/-- The error is reported. -/
@[simps] def report (draft : Draft) : Draft := { draft with deferred := none }

/-- All bytes that were taken have reached the file. -/
def IsWhole (draft : Draft) : Prop := draft.counted = draft.content.length

@[simps] def openRawWrites (draft : Draft) : Draft := { draft with allowRawWrites := true }

@[simps] def edit (f : MetadataMap × Tags String → MetadataMap × Tags String) (draft : Draft) :
    Draft :=
  { draft with
    metadata := (f (draft.metadata, draft.tags)).1
    tags := (f (draft.metadata, draft.tags)).2 }

/-- The length of the content is recorded when it is not the length that is stored. -/
def record (length : UInt64) (draft : Draft) : Draft :=
  if UInt64.ofNat draft.counted ≠ length then
    { draft with metadata := draft.metadata.insert uncompressedLengthKey (.u64 length) }
  else draft

@[simp] lemma record_flavor (length : UInt64) (draft : Draft) :
    (draft.record length).flavor = draft.flavor := by
  unfold record
  split_ifs <;> rfl

@[simp] lemma record_counted (length : UInt64) (draft : Draft) :
    (draft.record length).counted = draft.counted := by
  unfold record
  split_ifs <;> rfl

@[simp] lemma record_deferred (length : UInt64) (draft : Draft) :
    (draft.record length).deferred = draft.deferred := by
  unfold record
  split_ifs <;> rfl

@[simp] lemma record_compression (length : UInt64) (draft : Draft) :
    (draft.record length).compression = draft.compression := by
  unfold record
  split_ifs <;> rfl

@[simp] lemma record_content (length : UInt64) (draft : Draft) :
    (draft.record length).content = draft.content := by
  unfold record
  split_ifs <;> rfl

@[simp] lemma record_tags (length : UInt64) (draft : Draft) :
    (draft.record length).tags = draft.tags := by
  unfold record
  split_ifs <;> rfl

@[simp] lemma record_allowRawWrites (length : UInt64) (draft : Draft) :
    (draft.record length).allowRawWrites = draft.allowRawWrites := by
  unfold record
  split_ifs <;> rfl

lemma append_nil (draft : Draft) : draft.append [] = draft := by
  simp only [append, List.append_nil, List.length_nil, Nat.add_zero]

lemma append_append (a b : List UInt8) (draft : Draft) :
    (draft.append a).append b = draft.append (a ++ b) := by
  simp only [append, List.append_assoc, List.length_append, Nat.add_assoc]

lemma IsWhole.append {draft : Draft} (h : draft.IsWhole) (bs : List UInt8) :
    (draft.append bs).IsWhole := by
  show draft.counted + bs.length = (draft.content ++ bs).length
  rw [h, List.length_append]

end Draft

/-- The writer and its temporary file stand for the draft. -/
structure Represents (job : Job) (w : World) (writer : ObjectWriter) (temp : Path)
    (draft : Draft) : Prop where
  writing : Writing job w writer temp draft.content
  compression_eq : writer.compression = draft.compression
  sync_eq : writer.sync = draft.sync
  metadata_eq : writer.metadata = draft.metadata
  tags_eq : writer.tags = draft.tags
  counted_eq : writer.contentLength = draft.counted
  allowRawWrites_eq : writer.allowRawWrites = draft.allowRawWrites
  deferred_eq : writer.deferred = draft.deferred

/-- From standing for some draft the writer has come to stand for `draft`, by changes to its own
file only. -/
structure Becomes (job : Job) (temp : Path) (w : World) (writer : ObjectWriter) (draft : Draft)
    (w' : World) (writer' : ObjectWriter) : Prop where
  represents : Represents job w' writer' temp draft
  file_eq : writer'.file = writer.file
  layout_eq : writer'.layout = writer.layout
  layoutOptions_eq : writer'.layoutOptions = writer.layoutOptions
  only : OnlyFile writer.file w w'

variable {mayFail : FsCall → Prop} {job : Job} {w w₁ w₂ : World} {self self₁ self₂ : ObjectWriter}
  {temp : Path} {draft draft₁ draft₂ : Draft}

lemma Becomes.refl (h : Represents job w self temp draft) :
    Becomes job temp w self draft w self := ⟨h, rfl, rfl, rfl, OnlyFile.refl _ _⟩

lemma Becomes.trans (h₁ : Becomes job temp w self draft₁ w₁ self₁)
    (h₂ : Becomes job temp w₁ self₁ draft₂ w₂ self₂) : Becomes job temp w self draft₂ w₂ self₂ :=
  ⟨h₂.represents, h₂.file_eq.trans h₁.file_eq, h₂.layout_eq.trans h₁.layout_eq,
    h₂.layoutOptions_eq.trans h₁.layoutOptions_eq, h₁.only.trans (h₁.file_eq ▸ h₂.only)⟩

/-- The operations of the caller that a method of a draft stands for. -/
lemma Represents.append (h : Represents job w self temp draft) {m : ℕ} {bs : List UInt8}
    (hm : bs.length = m) (hlive : Writing job w₁ (self.addLength m) temp (draft.content ++ bs))
    (honly : OnlyFile self.file w w₁) :
    Becomes job temp w self (draft.append bs) w₁ (self.addLength m) := by
  refine ⟨⟨hlive, h.compression_eq, h.sync_eq, h.metadata_eq, h.tags_eq, ?_, h.allowRawWrites_eq,
    h.deferred_eq⟩, rfl, rfl, rfl, honly⟩
  rw [ObjectWriter.addLength_contentLength, h.counted_eq, ← hm, Draft.append_counted]

lemma Represents.openRawWrites (h : Represents job w self temp draft) :
    Becomes job temp w self draft.openRawWrites w self.openRawWrites :=
  ⟨⟨h.writing.of_same rfl rfl rfl rfl (Nat.le_refl _), h.compression_eq, h.sync_eq, h.metadata_eq,
    h.tags_eq, h.counted_eq, rfl, h.deferred_eq⟩, rfl, rfl, rfl, OnlyFile.refl _ _⟩

lemma Represents.report (h : Represents job w self temp draft) :
    Becomes job temp w self draft.report w (self.setDeferred none) :=
  ⟨⟨h.writing.of_same rfl rfl rfl rfl (Nat.le_refl _), h.compression_eq, h.sync_eq, h.metadata_eq,
    h.tags_eq, h.counted_eq, h.allowRawWrites_eq, rfl⟩, rfl, rfl, rfl, OnlyFile.refl _ _⟩

/-- Why the file system may refuse what the writer accepts. -/
def IoRefused (mayFail : FsCall → Prop) (e : IoError) : Prop := (∃ c, mayFail c) ∨ e = fileTooLarge

/-! ## Writing into a draft -/

lemma write_represents (h : Represents job w self temp draft) (buf : List UInt8) :
    Method.Safe (FsStep mayFail) job.Allows (ObjectWriter.write buf) self
      (fun m self' w' => draft.allowRawWrites = true ∧ m ≤ buf.length ∧ m ≤ maxFileLength ∧
        (m = buf.length ∨ ∃ c, mayFail c) ∧
        Becomes job temp w self (draft.append (buf.take m)) w' self')
      (fun e self' w' => self' = self ∧ w' = w ∧
        (draft.allowRawWrites = false ∧ e = ObjectWriter.rawWriteRejected ∨
          draft.allowRawWrites = true ∧ IoRefused mayFail e)) w := by
  refine Method.Safe.mono (write_safe h.writing buf) ?_ ?_
  · rintro m _ w' ⟨hraw, hm, _, hall, rfl, hlive, honly⟩
    have htake : (buf.take m).length = m := List.length_take_of_le hm
    have hlength := hlive.length_le_max
    rw [List.length_append, htake] at hlength
    exact ⟨h.allowRawWrites_eq ▸ hraw, hm, by omega, hall, h.append htake hlive honly⟩
  · rintro e _ w' ⟨rfl, rfl, hreason, _⟩
    rw [WriteRefused, h.allowRawWrites_eq] at hreason
    exact ⟨rfl, rfl, hreason⟩

/-- A writer that accepts raw writes takes all bytes, or a part of them when it fails. -/
lemma writeAll_represents (h : Represents job w self temp draft)
    (hraw : draft.allowRawWrites = true) (buf : List UInt8) :
    Method.Safe (FsStep mayFail) job.Allows (ObjectWriter.writeAll buf) self
      (fun _ self' w' => Becomes job temp w self (draft.append buf) w' self')
      (fun e self' w' => IoRefused mayFail e ∧
        ∃ m, Becomes job temp w self (draft.append (buf.take m)) w' self') w := by
  refine Method.Safe.mono (writerWriteAll_safe h.writing buf) ?_ ?_
  · rintro _ _ w' ⟨rfl, hlive, honly⟩
    exact h.append rfl hlive honly
  · rintro e _ w' ⟨⟨m, hm, rfl, hlive⟩, honly, hreason⟩
    refine ⟨?_, m, h.append (List.length_take_of_le hm) hlive honly⟩
    rw [WriteRefused, h.allowRawWrites_eq, hraw] at hreason
    exact hreason.elim (fun hfalse => absurd hfalse.1 (by decide)) fun hio => hio.2

lemma flush_represents (h : Represents job w self temp draft) :
    Method.Safe (FsStep mayFail) job.Allows ObjectWriter.flush self
      (fun _ self' w' => Becomes job temp w self draft w' self')
      (fun e self' w' => IoRefused mayFail e ∧ Becomes job temp w self draft w' self') w := by
  refine Method.Safe.mono (writerFlush_safe h.writing) ?_ ?_
  · rintro _ _ w' ⟨rfl, rfl⟩
    exact Becomes.refl h
  · rintro e _ w' ⟨rfl, rfl, hfail⟩
    exact ⟨.inl hfail, Becomes.refl h⟩

/-- Why the file system refuses bytes, it may refuse what the writer accepts. -/
lemma StoreRefused.ioRefused {bs : List UInt8} {e : IoError}
    (h : StoreRefused mayFail self content bs e) : IoRefused mayFail e := h.imp_right And.right

/-- What a buffered write does to a draft. -/
lemma bufferedWrite_represents (h : Represents job w self temp draft) (buf : List UInt8) :
    Method.Safe (FsStep mayFail) job.Allows (ObjectWriter.bufferedWrite buf) self
      (fun m self' w' => draft.deferred = none ∧ m = (buf.take maxBufSize).length ∧
        (Becomes job temp w self (draft.append (buf.take maxBufSize)) w' self' ∨
          ∃ e k, IoRefused mayFail e ∧
            Becomes job temp w self (draft.lose (buf.take maxBufSize) k e) w' self'))
      (fun e self' w' => draft.deferred = some e ∧
        Becomes job temp w self draft.report w' self') w := by
  refine Method.Safe.mono (bufferedWrite_safe h.writing buf) ?_ ?_
  · rintro m self' w' ⟨hnone, rfl, honly, ⟨rfl, hlive⟩ | ⟨e, k, hreason, rfl, hlive⟩⟩
    · exact ⟨h.deferred_eq ▸ hnone, rfl, .inl (h.append rfl hlive honly)⟩
    · refine ⟨h.deferred_eq ▸ hnone, rfl, .inr ⟨e, k, hreason.ioRefused, ⟨hlive, h.compression_eq,
        h.sync_eq, h.metadata_eq, h.tags_eq, ?_, h.allowRawWrites_eq, rfl⟩, rfl, rfl, rfl, honly⟩⟩
      rw [ObjectWriter.setDeferred_contentLength, ObjectWriter.addLength_contentLength,
        h.counted_eq, Draft.lose_counted]
  · rintro e self' w' ⟨hsome, rfl, rfl⟩
    exact ⟨h.deferred_eq ▸ hsome, h.report⟩

/-- What a flush behind buffered writes does to a draft. -/
lemma bufferedFlush_represents (h : Represents job w self temp draft) :
    Method.Safe (FsStep mayFail) job.Allows ObjectWriter.bufferedFlush self
      (fun _ self' w' => draft.deferred = none ∧ Becomes job temp w self draft w' self')
      (fun e self' w' => draft.deferred = some e ∧ Becomes job temp w self draft.report w' self' ∨
        draft.deferred = none ∧ Becomes job temp w self draft w' self') w := by
  refine Method.Safe.mono (bufferedFlush_safe h.writing) ?_ ?_
  · rintro _ self' w' ⟨hnone, rfl, rfl⟩
    exact ⟨h.deferred_eq ▸ hnone, Becomes.refl h⟩
  · rintro e self' w' ⟨rfl, ⟨hsome, rfl⟩ | ⟨hnone, rfl, _⟩⟩
    · exact .inl ⟨h.deferred_eq ▸ hsome, h.report⟩
    · exact .inr ⟨h.deferred_eq ▸ hnone, Becomes.refl h⟩

/-! ## What a session amounts to -/

/-- The bytes of one call of a streaming encoder. -/
def Emission (bs : List UInt8) : Prop :=
  ∃ encoder : Codecs.Encoder, (∃ buf, bs = (Codecs.write encoder buf).1) ∨
    bs = (Codecs.flush encoder).1 ∨ bs = Codecs.finish encoder ∨ bs = Codecs.drop encoder

/-- Bytes that were produced by a codec: parts of emissions, one after the other. -/
inductive Produced : List UInt8 → Prop
  | nil : Produced []
  | append {bs out : List UInt8} (h : Produced bs) (hout : Emission out) (m : ℕ) :
      Produced (bs ++ out.take m)

lemma Produced.concat {a b : List UInt8} (ha : Produced a) (hb : Produced b) :
    Produced (a ++ b) := by
  induction hb with
  | nil => rwa [List.append_nil]
  | append _ hout m ih =>
      rw [← List.append_assoc]
      exact ih.append hout m

lemma Emission.produced {out : List UInt8} (h : Emission out) (m : ℕ) : Produced (out.take m) := by
  have happend := Produced.nil.append h m
  rwa [List.nil_append] at happend

lemma Emission.produced_all {out : List UInt8} (h : Emission out) : Produced out := by
  have htake := h.produced out.length
  rwa [List.take_length] at htake

namespace ContentEncoder

/-- Whether a codec stands between the caller and the file. -/
def IsCoded : ContentEncoder → Prop
  | stored _ => False
  | coded _ _ => True

/-- The bytes an encoder hands down when it is fed, if nothing fails. -/
def emitted : Feed → ContentEncoder → List UInt8
  | .write buf, stored _ => buf
  | .write buf, coded encoder _ => (Codecs.write encoder buf).1
  | .flush, stored _ => []
  | .flush, coded encoder _ => (Codecs.flush encoder).1

/-- How many bytes it takes. -/
def taken : Feed → ContentEncoder → ℕ
  | .write buf, stored _ => buf.length
  | .write buf, coded encoder _ => (Codecs.write encoder buf).2.1
  | .flush, _ => 0

/-- The encoder after it. -/
def next : Feed → ContentEncoder → ContentEncoder
  | .write buf, stored length => (stored length).record buf.length
  | .write buf, coded encoder length =>
      (coded (Codecs.write encoder buf).2.2 length).record (Codecs.write encoder buf).2.1
  | .flush, stored length => stored length
  | .flush, coded encoder length => coded (Codecs.flush encoder).2 length

/-- The bytes an encoder hands down when it is finished. -/
def tail : ContentEncoder → List UInt8
  | stored _ => []
  | coded encoder _ => Codecs.finish encoder

/-- The bytes a finished session stores. -/
def output : List Feed → ContentEncoder → List UInt8
  | [], self => self.tail
  | feed :: feeds, self => self.emitted feed ++ output feeds (self.next feed)

/-- The number of bytes that were fed into a session. -/
def plain : List Feed → ContentEncoder → ℕ
  | [], _ => 0
  | feed :: feeds, self => self.taken feed + plain feeds (self.next feed)

lemma uncompressedLength_next (feed : Feed) (self : ContentEncoder) :
    (self.next feed).uncompressedLength =
      self.uncompressedLength + UInt64.ofNat (self.taken feed) := by
  cases feed with
  | write buf => cases self <;> rfl
  | flush => cases self <;> simp [next, taken, uncompressedLength]

end ContentEncoder

/-- Bytes that an encoder stores: whatever they are, a codec produced them, if there is one. -/
def Stores (encoder : ContentEncoder) (bs : List UInt8) : Prop := encoder.IsCoded → Produced bs

lemma Stores.concat {encoder : ContentEncoder} {a b : List UInt8} (ha : Stores encoder a)
    (hb : Stores encoder b) : Stores encoder (a ++ b) := fun h => (ha h).concat (hb h)

lemma stores_nil (encoder : ContentEncoder) : Stores encoder [] := fun _ => .nil

/-- Feeding an encoder stores bytes, those it emits unless something fails. -/
lemma feed_safe (h : Represents job w self temp draft) (hraw : draft.allowRawWrites = true)
    (encoder : ContentEncoder) (feed : Feed) :
    Method.Safe (FsStep mayFail) job.Allows (encoder.feed feed) self
      (fun encoder' self' w' => ∃ bs, Becomes job temp w self (draft.append bs) w' self' ∧
        Stores encoder bs ∧ (encoder'.IsCoded ↔ encoder.IsCoded) ∧
        ((¬ ∃ c, mayFail c) → bs = encoder.emitted feed ∧ encoder' = encoder.next feed))
      (fun _ self' w' => ∃ bs, Becomes job temp w self (draft.append bs) w' self' ∧
        Stores encoder bs) w := by
  have hnothing : ∀ {w' self'}, Becomes job temp w self draft w' self' →
      ∃ bs, Becomes job temp w self (draft.append bs) w' self' ∧ Stores encoder bs := by
    intro w' self' hbecomes
    exact ⟨[], by rwa [Draft.append_nil], stores_nil encoder⟩
  cases feed with
  | write buf =>
      cases encoder with
      | stored length =>
          refine Method.Safe.bind (Method.Safe.bind
            (Method.Safe.mono (write_represents h buf) ?_ ?_))
          · rintro m self' w' ⟨_, _, _, hall, hbecomes⟩
            refine Method.Safe.pure (Method.Safe.pure
              ⟨buf.take m, hbecomes, False.elim, Iff.rfl, fun hno => ?_⟩)
            obtain rfl := hall.resolve_right hno
            exact ⟨List.take_length, rfl⟩
          · rintro e _ w' ⟨rfl, rfl, _⟩
            exact hnothing (Becomes.refl h)
      | coded codec length =>
          have hout : Emission (Codecs.write codec buf).1 := ⟨codec, .inl ⟨buf, rfl⟩⟩
          refine Method.Safe.bind (Method.Safe.bind
            (Method.Safe.mono (writeAll_represents h hraw _) ?_ ?_))
          · intro _ self' w' hbecomes
            exact Method.Safe.pure (Method.Safe.pure
              ⟨_, hbecomes, fun _ => hout.produced_all, Iff.rfl, fun _ => ⟨rfl, rfl⟩⟩)
          · rintro e self' w' ⟨_, m, hbecomes⟩
            exact ⟨_, hbecomes, fun _ => hout.produced m⟩
  | flush =>
      cases encoder with
      | stored length =>
          refine Method.Safe.bind (Method.Safe.mono (flush_represents h) ?_ ?_)
          · intro _ self' w' hbecomes
            exact Method.Safe.pure ⟨[], by rwa [Draft.append_nil], stores_nil _, Iff.rfl,
              fun _ => ⟨rfl, rfl⟩⟩
          · exact fun e self' w' hbecomes => hnothing hbecomes.2
      | coded codec length =>
          have hout : Emission (Codecs.flush codec).1 := ⟨codec, .inr (.inl rfl)⟩
          refine Method.Safe.bind (Method.Safe.mono (writeAll_represents h hraw _) ?_ ?_)
          · intro _ self₁ w₁ hbecomes
            refine Method.Safe.bind (Method.Safe.mono (flush_represents hbecomes.represents) ?_ ?_)
            · intro _ self' w' hflushed
              exact Method.Safe.pure ⟨_, hbecomes.trans hflushed, fun _ => hout.produced_all,
                Iff.rfl, fun _ => ⟨rfl, rfl⟩⟩
            · rintro e self' w' ⟨_, hflushed⟩
              exact ⟨_, hbecomes.trans hflushed, fun _ => hout.produced_all⟩
          · rintro e self' w' ⟨_, m, hbecomes⟩
            exact ⟨_, hbecomes, fun _ => hout.produced m⟩

/-- Dropping an encoder may still store bytes. -/
lemma encoderDrop_safe {ε : Type} (h : Represents job w self temp draft)
    (hraw : draft.allowRawWrites = true) (encoder : ContentEncoder)
    {E : ε → ObjectWriter → World → Prop} :
    Method.Safe (FsStep mayFail) job.Allows encoder.drop self
      (fun _ self' w' => ∃ bs, Becomes job temp w self (draft.append bs) w' self' ∧
        Stores encoder bs) E w := by
  cases encoder with
  | stored length =>
      exact Method.Safe.pure ⟨[], by
        rw [Draft.append_nil]
        exact Becomes.refl h, stores_nil _⟩
  | coded codec length =>
      have hout : Emission (Codecs.drop codec) := ⟨codec, .inr (.inr (.inr rfl))⟩
      refine Method.Safe.bind (Method.Safe.result
        (Method.Safe.mono (writeAll_represents h hraw _) ?_ ?_))
      · intro _ self' w' hbecomes
        exact Method.Safe.pure ⟨_, hbecomes, fun _ => hout.produced_all⟩
      · rintro e self' w' ⟨_, m, hbecomes⟩
        exact Method.Safe.pure ⟨_, hbecomes, fun _ => hout.produced m⟩

/-- Recording the length of the content is a change of the metadata. -/
lemma Represents.record (h : Represents job w self temp draft) (length : UInt64) :
    Becomes job temp w self (draft.record length) w
      (if UInt64.ofNat self.contentLength ≠ length then self.recordLength length else self) := by
  unfold Draft.record
  rw [h.counted_eq]
  split_ifs with hlength
  · exact ⟨⟨h.writing.of_same rfl rfl rfl rfl (Nat.le_refl _), h.compression_eq, h.sync_eq,
      by rw [← h.metadata_eq]; rfl, h.tags_eq, h.counted_eq, h.allowRawWrites_eq, h.deferred_eq⟩,
      rfl, rfl, rfl, OnlyFile.refl _ _⟩
  · exact Becomes.refl h

/-- A finished encoder has stored its tail and recorded the length of the content. -/
lemma encoderFinish_safe (h : Represents job w self temp draft)
    (hraw : draft.allowRawWrites = true) (encoder : ContentEncoder) :
    Method.Safe (FsStep mayFail) job.Allows encoder.finish self
      (fun n self' w' => n = encoder.uncompressedLength ∧ Stores encoder encoder.tail ∧
        Becomes job temp w self ((draft.append encoder.tail).record n) w' self')
      (fun _ self' w' => ∃ bs, Becomes job temp w self (draft.append bs) w' self' ∧
        Stores encoder bs) w := by
  unfold ContentEncoder.finish
  have hcodec : Method.Safe (FsStep mayFail) job.Allows encoder.finishCodec self
      (fun _ self' w' => Stores encoder encoder.tail ∧
        Becomes job temp w self (draft.append encoder.tail) w' self')
      (fun _ self' w' => ∃ bs, Becomes job temp w self (draft.append bs) w' self' ∧
        Stores encoder bs) w := by
    cases encoder with
    | stored length =>
        refine Method.Safe.pure ⟨stores_nil _, ?_⟩
        rw [ContentEncoder.tail, Draft.append_nil]
        exact Becomes.refl h
    | coded codec length =>
        have hout : Emission (Codecs.finish codec) := ⟨codec, .inr (.inr (.inl rfl))⟩
        refine Method.Safe.bind (Method.Safe.result
          (Method.Safe.mono (writeAll_represents h hraw _) ?_ ?_))
        · intro _ self' w' hbecomes
          exact Method.Safe.pure ⟨fun _ => hout.produced_all, hbecomes⟩
        · rintro e self₁ w₁ ⟨_, m, hbecomes⟩
          refine Method.Safe.bind (Method.Safe.mono
            (encoderDrop_safe hbecomes.represents hraw _) ?_ (fun _ _ _ h => h))
          rintro _ self' w' ⟨bs, hdropped, hbs⟩
          refine Method.Safe.throw ⟨_, ?_, Stores.concat (fun _ => hout.produced m) hbs⟩
          rw [← Draft.append_append]
          exact hbecomes.trans hdropped
  refine Method.Safe.bind (Method.Safe.mono hcodec ?_ (fun _ _ _ h => h))
  rintro _ self₁ w₁ ⟨htail, hbecomes⟩
  refine Method.Safe.bind (Method.Safe.adapt
    (Method.Safe.mono (flush_represents hbecomes.represents) ?_ ?_))
  swap
  · rintro e self' w' ⟨_, hflushed⟩
    exact ⟨_, hbecomes.trans hflushed, htail⟩
  intro _ self₂ w₂ hflushed
  have hrecord := hflushed.represents.record encoder.uncompressedLength
  refine Method.Safe.bind (Method.Safe.get ?_)
  dsimp only
  split_ifs at hrecord ⊢
  · exact Method.Safe.bind (Method.Safe.modify (Method.Safe.pure
      ⟨rfl, htail, hbecomes.trans (hflushed.trans hrecord)⟩))
  · exact Method.Safe.bind (Method.Safe.pure (Method.Safe.pure
      ⟨rfl, htail, hbecomes.trans (hflushed.trans hrecord)⟩))

/-- What a session with an encoder does to a draft that accepts raw writes. -/
def SessionEffect (mayFail : FsCall → Prop) (encoder : ContentEncoder) (feeds : List Feed)
    (finished : Bool) (draft : Draft) (r : Option UInt64) (draft' : Draft) : Prop :=
  ∃ bs, Stores encoder bs ∧
    match finished, r with
    | true, some n => draft' = (draft.append bs).record n ∧
        ((¬ ∃ c, mayFail c) → bs = encoder.output feeds ∧
          n = encoder.uncompressedLength + UInt64.ofNat (encoder.plain feeds))
    | _, _ => draft' = draft.append bs

/-- Whatever becomes of a session, it stores bytes and changes nothing else but the metadata. -/
lemma SessionEffect.stores {encoder : ContentEncoder} {feeds : List Feed} {finished : Bool}
    {r : Option UInt64} {draft' : Draft}
    (h : SessionEffect mayFail encoder feeds finished draft r draft') :
    ∃ bs, Stores encoder bs ∧ draft'.content = draft.content ++ bs ∧
      draft'.counted = draft.counted + bs.length ∧ draft'.flavor = draft.flavor ∧
      draft'.deferred = draft.deferred ∧ draft'.compression = draft.compression ∧
      draft'.tags = draft.tags ∧ draft'.allowRawWrites = draft.allowRawWrites := by
  obtain ⟨bs, hbs, h⟩ := h
  have happend : draft' = draft.append bs → draft'.content = draft.content ++ bs ∧
      draft'.counted = draft.counted + bs.length ∧ draft'.flavor = draft.flavor ∧
      draft'.deferred = draft.deferred ∧ draft'.compression = draft.compression ∧
      draft'.tags = draft.tags ∧ draft'.allowRawWrites = draft.allowRawWrites := by
    rintro rfl
    exact ⟨rfl, rfl, rfl, rfl, rfl, rfl, rfl⟩
  refine ⟨bs, hbs, ?_⟩
  cases finished with
  | false => exact happend h
  | true =>
      cases r with
      | none => exact happend h
      | some n =>
          obtain ⟨rfl, _⟩ := h
          simp

/-- A session only stores bytes of its encoder, and all of them when it is finished. -/
lemma session_safe (h : Represents job w self temp draft) (hraw : draft.allowRawWrites = true)
    (finished : Bool) (feeds : List Feed) (encoder : ContentEncoder) :
    Method.Safe (FsStep mayFail) job.Allows (encoder.session finished feeds) self
      (fun n self' w' => ∃ draft',
        SessionEffect mayFail encoder feeds finished draft (some n) draft' ∧
        Becomes job temp w self draft' w' self')
      (fun _ self' w' => ∃ draft', SessionEffect mayFail encoder feeds finished draft none draft' ∧
        Becomes job temp w self draft' w' self') w := by
  induction feeds generalizing encoder w self draft with
  | nil =>
      cases finished with
      | true =>
          refine Method.Safe.mono (encoderFinish_safe h hraw encoder) ?_ ?_
          · rintro n self' w' ⟨rfl, htail, hbecomes⟩
            exact ⟨_, ⟨_, htail, rfl, fun _ => ⟨rfl, by simp [ContentEncoder.plain]⟩⟩, hbecomes⟩
          · rintro e self' w' ⟨bs, hbecomes, hbs⟩
            exact ⟨_, ⟨bs, hbs, rfl⟩, hbecomes⟩
      | false =>
          refine Method.Safe.bind (Method.Safe.mono (encoderDrop_safe h hraw encoder) ?_
            (fun _ _ _ h => h))
          rintro _ self' w' ⟨bs, hbecomes, hbs⟩
          exact Method.Safe.pure ⟨_, ⟨bs, hbs, rfl⟩, hbecomes⟩
  | cons feed feeds ih =>
      unfold ContentEncoder.session
      refine Method.Safe.bind (Method.Safe.result
        (Method.Safe.mono (feed_safe h hraw encoder feed) ?_ ?_))
      · rintro encoder' self₁ w₁ ⟨bs, hbecomes, hbs, hcoded, hnext⟩
        have hstores : ∀ {b}, Stores encoder' b → Stores encoder (bs ++ b) := fun hb =>
          hbs.concat fun hc => hb (hcoded.mpr hc)
        refine Method.Safe.mono (ih hbecomes.represents hraw encoder') ?_ ?_
        · rintro n self' w' ⟨draft', ⟨b, hb, heffect⟩, hrest⟩
          refine ⟨draft', ⟨bs ++ b, hstores hb, ?_⟩, hbecomes.trans hrest⟩
          cases finished with
          | false => exact heffect.trans (Draft.append_append _ _ _)
          | true =>
              refine ⟨heffect.1.trans (by rw [Draft.append_append]), fun hno => ?_⟩
              obtain ⟨rfl, rfl⟩ := heffect.2 hno
              obtain ⟨rfl, rfl⟩ := hnext hno
              refine ⟨rfl, ?_⟩
              rw [ContentEncoder.uncompressedLength_next, ContentEncoder.plain, UInt64.ofNat_add,
                UInt64.add_assoc]
        · rintro e self' w' ⟨draft', ⟨b, hb, heffect⟩, hrest⟩
          refine ⟨draft', ⟨bs ++ b, hstores hb, ?_⟩, hbecomes.trans hrest⟩
          cases finished with
          | false => exact heffect.trans (Draft.append_append _ _ _)
          | true => exact heffect.trans (Draft.append_append _ _ _)
      · rintro e self₁ w₁ ⟨bs, hbecomes, hbs⟩
        refine Method.Safe.bind (Method.Safe.mono
          (encoderDrop_safe hbecomes.represents hraw encoder) ?_ (fun _ _ _ h => h))
        rintro _ self' w' ⟨b, hdropped, hb⟩
        refine Method.Safe.throw ⟨_, ⟨bs ++ b, hbs.concat hb, ?_⟩, hbecomes.trans hdropped⟩
        cases finished with
        | false => exact Draft.append_append _ _ _
        | true => exact Draft.append_append _ _ _

/-! ## Operations of the caller -/

/-- What a caller does with a writer before its end. -/
inductive Op
  /-- `Write::write` -/
  | write (buf : List UInt8)
  /-- `Write::flush` -/
  | flush
  /-- a change through `metadata_mut` and `tags_mut` -/
  | edit (f : MetadataMap × Tags String → MetadataMap × Tags String)
  /-- a session of `content_encoder` -/
  | encode (feeds : List Feed) (finished : Bool)

/-- The result of an operation. -/
abbrev OpResult := Except ObjectFileError UInt64

/-- No operation was refused because the file would have become too large. -/
def NoneTooLarge (results : List OpResult) : Prop := ∀ r ∈ results, r ≠ .error (.io fileTooLarge)

namespace ObjectWriter

/-- A change through `metadata_mut` and `tags_mut`. -/
@[simps] def edit (f : MetadataMap × Tags String → MetadataMap × Tags String)
    (self : ObjectWriter) : ObjectWriter :=
  { self with
    metadata := (f (self.metadata, self.tags)).1
    tags := (f (self.metadata, self.tags)).2 }

end ObjectWriter

/-- Carry out an operation. Only the blocking writer has sessions. -/
def Op.run (flavor : Flavor) : Op → FsMethod ObjectWriter UInt64
  | .write buf => do
      let written ← Method.adapt .io (ObjectWriter.writeAs flavor buf)
      return UInt64.ofNat written
  | .flush => do
      Method.adapt .io (ObjectWriter.flushAs flavor)
      return 0
  | .edit f => do
      modify (ObjectWriter.edit f)
      return 0
  | .encode feeds finished => ObjectWriter.encode feeds finished

/-- Carry out operations one after the other, whatever their results. -/
def runOps (flavor : Flavor) : List Op → FsMethod ObjectWriter (List OpResult)
  | [] => pure []
  | op :: ops => do
      let result ← Method.result (op.run flavor)
      let results ← runOps flavor ops
      return result :: results

/-- What a write of the blocking writer may do to a draft. -/
def WriteEffect (mayFail : FsCall → Prop) (buf : List UInt8) (draft : Draft) (r : OpResult)
    (draft' : Draft) : Prop :=
  (draft.allowRawWrites = false ∧ r = .error (.io ObjectWriter.rawWriteRejected) ∧
    draft' = draft) ∨
  draft.allowRawWrites = true ∧
    ((∃ m ≤ buf.length, m ≤ maxFileLength ∧ (m = buf.length ∨ ∃ c, mayFail c) ∧
        r = .ok (UInt64.ofNat m) ∧ draft' = draft.append (buf.take m)) ∨
      ∃ e, IoRefused mayFail e ∧ r = .error (.io e) ∧ draft' = draft)

/-- The error that the file has kept is all that a call comes to. -/
def Reports (draft : Draft) (r : OpResult) (draft' : Draft) : Prop :=
  ∃ e, draft.deferred = some e ∧ r = .error (.io e) ∧ draft' = draft.report

/-- What a write of the tokio writer may do to a draft. -/
def BufferedEffect (mayFail : FsCall → Prop) (buf : List UInt8) (draft : Draft) (r : OpResult)
    (draft' : Draft) : Prop :=
  Reports draft r draft' ∨
  draft.deferred = none ∧ r = .ok (UInt64.ofNat (buf.take maxBufSize).length) ∧
    (draft' = draft.append (buf.take maxBufSize) ∨
      ∃ e k, IoRefused mayFail e ∧ draft' = draft.lose (buf.take maxBufSize) k e)

/-- What an operation may do to a draft. -/
def Op.Effect (mayFail : FsCall → Prop) : Op → Draft → OpResult → Draft → Prop
  | .write buf, draft, r, draft' =>
      match draft.flavor with
      | .blocking => WriteEffect mayFail buf draft r draft'
      | .tokio => BufferedEffect mayFail buf draft r draft'
  | .flush, draft, r, draft' =>
      match draft.flavor with
      | .blocking => draft' = draft
      | .tokio => Reports draft r draft' ∨ draft.deferred = none ∧ draft' = draft
  | .edit f, draft, r, draft' => r = .ok 0 ∧ draft' = draft.edit f
  | .encode feeds finished, draft, r, draft' =>
      match ContentEncoder.new draft.compression with
      | .error e => r = .error e ∧ draft' = draft.openRawWrites
      | .ok encoder =>
          SessionEffect mayFail encoder feeds finished draft.openRawWrites r.toOption draft'

/-- A new encoder has taken nothing, and has a codec exactly when the object is compressed. -/
lemma ContentEncoder.new_eq_ok {compression : CompressionTypes} {encoder : ContentEncoder}
    (h : ContentEncoder.new compression = .ok encoder) :
    encoder.uncompressedLength = 0 ∧ (encoder.IsCoded ↔ compression ≠ .none) := by
  unfold ContentEncoder.new ensureSupported at h
  split_ifs at h with hsupported
  · cases compression with
    | none =>
        cases h
        exact ⟨rfl, False.elim, fun h => h rfl⟩
    | zstd level | gzip level =>
        simp only [bind, Except.bind] at h
        split at h
        · cases h
          exact ⟨rfl, fun _ => nofun, fun _ => trivial⟩
        · cases h
  · cases h

/-- Whatever becomes of a session, it stores bytes and leaves raw writes open. -/
lemma Op.Effect.encode {feeds : List Feed} {finished : Bool} {r : OpResult} {draft' : Draft}
    (h : (Op.encode feeds finished).Effect mayFail draft r draft') :
    draft'.flavor = draft.flavor ∧ draft'.deferred = draft.deferred ∧
      (draft.IsWhole → draft'.IsWhole) ∧
      draft'.compression = draft.compression ∧ draft'.tags = draft.tags ∧
      draft'.allowRawWrites = true ∧
      ∃ bs, (draft.compression ≠ .none → Produced bs) ∧ draft'.content = draft.content ++ bs := by
  simp only [Op.Effect] at h
  cases hnew : ContentEncoder.new draft.compression with
  | error e =>
      rw [hnew] at h
      obtain ⟨_, rfl⟩ := h
      exact ⟨rfl, rfl, id, rfl, rfl, rfl, [], fun _ => .nil, (List.append_nil _).symm⟩
  | ok encoder =>
      rw [hnew] at h
      obtain ⟨bs, hbs, hcontent, hcounted, hflavor, hdeferred, hcompression, htags, hraw⟩ :=
        SessionEffect.stores h
      refine ⟨hflavor, hdeferred, fun hwhole => ?_, hcompression, htags, hraw, bs,
        fun hcompressed => hbs ((ContentEncoder.new_eq_ok hnew).2.mpr hcompressed), hcontent⟩
      show draft'.counted = draft'.content.length
      rw [hcounted, hcontent, List.length_append]
      exact congrArg (· + bs.length) hwhole

/-- What operations may do to a draft, one after the other. -/
def Effects (mayFail : FsCall → Prop) : List Op → Draft → List OpResult → Draft → Prop
  | [], draft, results, draft' => results = [] ∧ draft' = draft
  | op :: ops, draft, results, draft' => ∃ r rs draft₁, results = r :: rs ∧
      op.Effect mayFail draft r draft₁ ∧ Effects mayFail ops draft₁ rs draft'

namespace Op.Effect

variable {op : Op} {r : OpResult}

lemma write_cases {buf : List UInt8} (h : (Op.write buf).Effect mayFail draft r draft₁) :
    draft.flavor = .blocking ∧ WriteEffect mayFail buf draft r draft₁ ∨
      draft.flavor = .tokio ∧ BufferedEffect mayFail buf draft r draft₁ := by
  cases hflavor : draft.flavor with
  | blocking =>
      simp only [Op.Effect, hflavor] at h
      exact .inl ⟨rfl, h⟩
  | tokio =>
      simp only [Op.Effect, hflavor] at h
      exact .inr ⟨rfl, h⟩

lemma write_blocking {buf : List UInt8} (h : (Op.write buf).Effect mayFail draft r draft₁)
    (hblocking : draft.flavor = .blocking) : WriteEffect mayFail buf draft r draft₁ := by
  rcases h.write_cases with ⟨_, hwrite⟩ | ⟨htokio, _⟩
  · exact hwrite
  · cases hblocking.symm.trans htokio

/-- A flush does nothing to a draft but report an error. -/
lemma flush_cases (h : Op.flush.Effect mayFail draft r draft₁) :
    draft₁ = draft ∨ draft.flavor = .tokio ∧ Reports draft r draft₁ := by
  cases hflavor : draft.flavor with
  | blocking =>
      simp only [Op.Effect, hflavor] at h
      exact .inl h
  | tokio =>
      simp only [Op.Effect, hflavor] at h
      exact h.symm.imp And.right fun hreports => ⟨rfl, hreports⟩

lemma flush_blocking (h : Op.flush.Effect mayFail draft r draft₁)
    (hblocking : draft.flavor = .blocking) : draft₁ = draft := by
  refine h.flush_cases.resolve_right fun ⟨htokio, _⟩ => ?_
  cases hblocking.symm.trans htokio

/-- An operation changes neither the writer nor how the object is compressed. -/
lemma settings_eq (h : op.Effect mayFail draft r draft₁) :
    draft₁.flavor = draft.flavor ∧ draft₁.compression = draft.compression := by
  cases op with
  | write buf =>
      rcases h.write_cases with ⟨_, hwrite⟩ | ⟨_, hwrite⟩
      · obtain ⟨_, _, rfl⟩ | ⟨_, ⟨_, _, _, _, _, rfl⟩ | ⟨_, _, _, rfl⟩⟩ := hwrite <;> simp
      · obtain ⟨_, _, _, rfl⟩ | ⟨_, _, rfl | ⟨_, _, _, rfl⟩⟩ := hwrite <;> simp
  | flush => obtain rfl | ⟨_, _, _, _, rfl⟩ := h.flush_cases <;> simp
  | edit f =>
      obtain ⟨_, rfl⟩ := h
      exact ⟨rfl, rfl⟩
  | encode feeds finished =>
      obtain ⟨hflavor, _, _, hcompression, _⟩ := h.encode
      exact ⟨hflavor, hcompression⟩

end Op.Effect

lemma Effects.settings_eq {ops : List Op} {results : List OpResult}
    (h : Effects mayFail ops draft results draft₁) :
    draft₁.flavor = draft.flavor ∧ draft₁.compression = draft.compression := by
  induction ops generalizing draft results with
  | nil => exact h.2 ▸ ⟨rfl, rfl⟩
  | cons op ops ih =>
      obtain ⟨_, _, _, _, hop, hrest⟩ := h
      exact ⟨(ih hrest).1.trans hop.settings_eq.1, (ih hrest).2.trans hop.settings_eq.2⟩

/-! ## Bytes that are lost -/

/-- Bytes are lost only while a tokio writer has an error to report. -/
structure Draft.Keeps (mayFail : FsCall → Prop) (draft : Draft) : Prop where
  pending : ∀ {e}, draft.deferred = some e → draft.flavor = .tokio ∧ IoRefused mayFail e
  whole : draft.deferred = none → draft.IsWhole

/-- A tokio writer has not reported that bytes are lost. -/
def Unreported (mayFail : FsCall → Prop) (flavor : Flavor) (results : List OpResult) : Prop :=
  flavor = .tokio → ∀ e, IoRefused mayFail e → .error (.io e) ∉ results

/-- Where no call fails, a file that would have become too large is all there is to report. -/
lemma NoneTooLarge.unreported {flavor : Flavor} {results : List OpResult}
    (h : flavor = .tokio → NoneTooLarge results) : Unreported NoFaults flavor results := by
  intro htokio e hio hmem
  obtain rfl := hio.resolve_left not_exists_noFaults
  exact h htokio _ hmem rfl

lemma unreported_blocking (results : List OpResult) : Unreported mayFail .blocking results :=
  fun htokio => by cases htokio

lemma Draft.keeps_new (flavor : Flavor) (options : CreateOptions) :
    (Draft.new flavor options).Keeps mayFail where
  pending h := by cases h
  whole _ := rfl

/-- Bytes that reach the file are kept. -/
lemma Draft.Keeps.append (h : draft.Keeps mayFail) (bs : List UInt8) :
    (draft.append bs).Keeps mayFail :=
  ⟨h.pending, fun hnone => (h.whole hnone).append bs⟩

lemma Reports.not_unreported {r : OpResult} (h : Reports draft r draft₁)
    (hkeeps : draft.Keeps mayFail) : ¬ Unreported mayFail draft.flavor [r] := by
  obtain ⟨e, hdeferred, rfl, rfl⟩ := h
  obtain ⟨htokio, hio⟩ := hkeeps.pending hdeferred
  exact fun hresult => hresult htokio e hio List.mem_cons_self

lemma Op.Effect.keeps {op : Op} {r : OpResult} (h : op.Effect mayFail draft r draft₁)
    (hkeeps : draft.Keeps mayFail) (hresult : Unreported mayFail draft.flavor [r]) :
    draft₁.Keeps mayFail := by
  cases op with
  | write buf =>
      rcases h.write_cases with ⟨_, hwrite⟩ | ⟨htokio, hreports | ⟨_, _, hstored⟩⟩
      · obtain ⟨_, _, rfl⟩ | ⟨_, ⟨_, _, _, _, _, rfl⟩ | ⟨_, _, _, rfl⟩⟩ := hwrite
        · exact hkeeps
        · exact hkeeps.append _
        · exact hkeeps
      · exact absurd hresult (hreports.not_unreported hkeeps)
      · obtain rfl | ⟨e, k, hio, rfl⟩ := hstored
        · exact hkeeps.append _
        · refine ⟨fun hsome => ⟨htokio, ?_⟩, fun hnone => by cases hnone⟩
          cases hsome
          exact hio
  | flush =>
      obtain rfl | ⟨_, hreports⟩ := h.flush_cases
      · exact hkeeps
      · exact absurd hresult (hreports.not_unreported hkeeps)
  | edit f =>
      obtain ⟨_, rfl⟩ := h
      exact ⟨hkeeps.pending, hkeeps.whole⟩
  | encode feeds finished =>
      obtain ⟨hflavor, hdeferred, hwhole, _⟩ := h.encode
      refine ⟨fun hsome => ?_, fun hnone => hwhole (hkeeps.whole (hdeferred.symm.trans hnone))⟩
      rw [hflavor]
      exact hkeeps.pending (hdeferred.symm.trans hsome)

lemma Effects.keeps {ops : List Op} {results : List OpResult}
    (h : Effects mayFail ops draft results draft₁) (hkeeps : draft.Keeps mayFail)
    (hresults : Unreported mayFail draft.flavor results) : draft₁.Keeps mayFail := by
  induction ops generalizing draft results with
  | nil => exact h.2 ▸ hkeeps
  | cons op ops ih =>
      obtain ⟨r, rs, draft₂, rfl, hop, hrest⟩ := h
      have hr : Unreported mayFail draft.flavor [r] := fun htokio e hio hmem =>
        hresults htokio e hio (List.mem_singleton.mp hmem ▸ List.mem_cons_self)
      refine ih hrest (hop.keeps hkeeps hr) fun htokio e hio hmem => ?_
      exact hresults (hop.settings_eq.1 ▸ htokio) e hio (List.mem_cons_of_mem _ hmem)

/-- An error stays until it is reported. -/
lemma Effects.pending {ops : List Op} {results : List OpResult} {e : IoError}
    (h : Effects mayFail ops draft results draft₁) (hdeferred : draft.deferred = some e) :
    draft₁.deferred = some e ∨ .error (.io e) ∈ results := by
  induction ops generalizing draft results with
  | nil => exact .inl (h.2 ▸ hdeferred)
  | cons op ops ih =>
      obtain ⟨r, rs, draft₂, rfl, hop, hrest⟩ := h
      have hstep : draft₂.deferred = some e ∨ r = .error (.io e) := by
        have hreports : Reports draft r draft₂ → r = .error (.io e) := by
          rintro ⟨e', hdeferred', rfl, _⟩
          rw [Option.some.inj (hdeferred'.symm.trans hdeferred)]
        cases op with
        | write buf =>
            rcases hop.write_cases with ⟨_, hwrite⟩ | ⟨_, hwrite | ⟨hnone, _⟩⟩
            · obtain ⟨_, _, rfl⟩ | ⟨_, ⟨_, _, _, _, _, rfl⟩ | ⟨_, _, _, rfl⟩⟩ := hwrite <;>
                exact .inl hdeferred
            · exact .inr (hreports hwrite)
            · cases hnone.symm.trans hdeferred
        | flush =>
            obtain rfl | ⟨_, hreport⟩ := hop.flush_cases
            · exact .inl hdeferred
            · exact .inr (hreports hreport)
        | edit f =>
            obtain ⟨_, rfl⟩ := hop
            exact .inl hdeferred
        | encode feeds finished => exact .inl (hop.encode.2.1.trans hdeferred)
      rcases hstep with hdeferred₂ | rfl
      · exact (ih hrest hdeferred₂).imp_right (List.mem_cons_of_mem _)
      · exact .inr List.mem_cons_self

/-- Where no error was reported and none is left to report, no byte of a new draft is lost. -/
lemma Effects.isWhole {flavor : Flavor} {options : CreateOptions} {ops : List Op}
    {results : List OpResult} (h : Effects mayFail ops (Draft.new flavor options) results draft)
    (hflushed : draft.flavor = .tokio → draft.deferred = none)
    (hresults : Unreported mayFail flavor results) : draft.IsWhole := by
  have hkeeps := h.keeps (Draft.keeps_new flavor options) hresults
  apply hkeeps.whole
  by_contra hsome
  obtain ⟨e, he⟩ := Option.ne_none_iff_exists'.mp hsome
  exact hsome (hflushed (hkeeps.pending he).1)

lemma Represents.edit (h : Represents job w self temp draft)
    (f : MetadataMap × Tags String → MetadataMap × Tags String) :
    Becomes job temp w self (draft.edit f) w (self.edit f) := by
  refine ⟨⟨h.writing.of_same rfl rfl rfl rfl (Nat.le_refl _), h.compression_eq, h.sync_eq, ?_, ?_,
    h.counted_eq, h.allowRawWrites_eq, h.deferred_eq⟩, rfl, rfl, rfl, OnlyFile.refl _ _⟩
  · rw [ObjectWriter.edit_metadata, h.metadata_eq, h.tags_eq, Draft.edit_metadata]
  · rw [ObjectWriter.edit_tags, h.metadata_eq, h.tags_eq, Draft.edit_tags]

/-- An operation does to the draft what its effect says, whatever it returns. -/
lemma op_safe (h : Represents job w self temp draft) (op : Op) :
    Method.Safe (FsStep mayFail) job.Allows (op.run draft.flavor) self
      (fun n self' w' => ∃ draft', op.Effect mayFail draft (.ok n) draft' ∧
        Becomes job temp w self draft' w' self')
      (fun e self' w' => ∃ draft', op.Effect mayFail draft (.error e) draft' ∧
        Becomes job temp w self draft' w' self') w := by
  cases op with
  | write buf =>
      unfold Op.run
      simp only [Op.Effect]
      cases draft.flavor with
      | blocking =>
          refine Method.Safe.bind (Method.Safe.adapt
            (Method.Safe.mono (write_represents h buf) ?_ ?_))
          · rintro m self' w' ⟨hraw, hm, hmax, hall, hbecomes⟩
            exact Method.Safe.pure
              ⟨_, .inr ⟨hraw, .inl ⟨m, hm, hmax, hall, rfl, rfl⟩⟩, hbecomes⟩
          · rintro e _ w' ⟨rfl, rfl, ⟨hraw, rfl⟩ | ⟨hraw, hio⟩⟩
            · exact ⟨_, .inl ⟨hraw, rfl, rfl⟩, Becomes.refl h⟩
            · exact ⟨_, .inr ⟨hraw, .inr ⟨e, hio, rfl, rfl⟩⟩, Becomes.refl h⟩
      | tokio =>
          refine Method.Safe.bind (Method.Safe.adapt
            (Method.Safe.mono (bufferedWrite_represents h buf) ?_ ?_))
          · rintro m self' w' ⟨hnone, rfl, hbecomes | ⟨e, k, hio, hbecomes⟩⟩
            · exact Method.Safe.pure ⟨_, .inr ⟨hnone, rfl, .inl rfl⟩, hbecomes⟩
            · exact Method.Safe.pure ⟨_, .inr ⟨hnone, rfl, .inr ⟨e, k, hio, rfl⟩⟩, hbecomes⟩
          · rintro e self' w' ⟨hsome, hbecomes⟩
            exact ⟨_, .inl ⟨e, hsome, rfl, rfl⟩, hbecomes⟩
  | flush =>
      unfold Op.run
      simp only [Op.Effect]
      cases draft.flavor with
      | blocking =>
          refine Method.Safe.bind (Method.Safe.adapt (Method.Safe.mono (flush_represents h) ?_ ?_))
          · exact fun _ self' w' hbecomes => Method.Safe.pure ⟨_, rfl, hbecomes⟩
          · exact fun e self' w' hbecomes => ⟨_, rfl, hbecomes.2⟩
      | tokio =>
          refine Method.Safe.bind (Method.Safe.adapt
            (Method.Safe.mono (bufferedFlush_represents h) ?_ ?_))
          · rintro _ self' w' ⟨hnone, hbecomes⟩
            exact Method.Safe.pure ⟨_, .inr ⟨hnone, rfl⟩, hbecomes⟩
          · rintro e self' w' (⟨hsome, hbecomes⟩ | ⟨hnone, hbecomes⟩)
            · exact ⟨_, .inl ⟨e, hsome, rfl, rfl⟩, hbecomes⟩
            · exact ⟨_, .inr ⟨hnone, rfl⟩, hbecomes⟩
  | edit f =>
      exact Method.Safe.bind (Method.Safe.modify (Method.Safe.pure
        ⟨_, ⟨rfl, rfl⟩, h.edit f⟩))
  | encode feeds finished =>
      have hopen := h.openRawWrites
      unfold Op.run ObjectWriter.encode ObjectWriter.contentEncoder
      simp only [Op.Effect]
      refine Method.Safe.bind (Method.Safe.bind (Method.Safe.get (Method.Safe.bind
        (Method.Safe.modify (Method.Safe.lift (Fallible.Safe.ofExcept ?_))))))
      rw [h.compression_eq]
      cases hnew : ContentEncoder.new draft.compression with
      | error e => exact ⟨_, ⟨rfl, rfl⟩, hopen⟩
      | ok encoder =>
          refine Method.Safe.mono (session_safe hopen.represents rfl finished feeds encoder) ?_ ?_
          · rintro n self' w' ⟨draft', heffect, hbecomes⟩
            exact ⟨draft', heffect, hopen.trans hbecomes⟩
          · rintro e self' w' ⟨draft', heffect, hbecomes⟩
            exact ⟨draft', heffect, hopen.trans hbecomes⟩

/-- So do operations one after the other. -/
lemma runOps_safe (h : Represents job w self temp draft) (ops : List Op)
    {E : ObjectFileError → ObjectWriter → World → Prop} :
    Method.Safe (FsStep mayFail) job.Allows (runOps draft.flavor ops) self
      (fun results self' w' => ∃ draft', Effects mayFail ops draft results draft' ∧
        Becomes job temp w self draft' w' self') E w := by
  induction ops generalizing w self draft with
  | nil => exact Method.Safe.pure ⟨draft, ⟨rfl, rfl⟩, Becomes.refl h⟩
  | cons op ops ih =>
      have hgo : ∀ r self₁ w₁, (∃ draft₁, op.Effect mayFail draft r draft₁ ∧
          Becomes job temp w self draft₁ w₁ self₁) →
          Method.Safe (FsStep mayFail) job.Allows
            (runOps draft.flavor ops >>= fun results => pure (r :: results)) self₁
            (fun results self' w' => ∃ draft', Effects mayFail (op :: ops) draft results draft' ∧
              Becomes job temp w self draft' w' self') E w₁ := by
        rintro r self₁ w₁ ⟨draft₁, heffect, hbecomes⟩
        rw [← heffect.settings_eq.1]
        refine Method.Safe.bind (Method.Safe.mono (ih hbecomes.represents) ?_ (fun _ _ _ h => h))
        rintro rs self' w' ⟨draft', heffects, hrest⟩
        exact Method.Safe.pure
          ⟨draft', ⟨r, rs, draft₁, rfl, heffect, heffects⟩, hbecomes.trans hrest⟩
      unfold runOps
      refine Method.Safe.bind (Method.Safe.result (Method.Safe.mono (op_safe h op) ?_ ?_))
      · exact fun n self₁ w₁ hn => hgo (.ok n) self₁ w₁ hn
      · exact fun e self₁ w₁ he => hgo (.error e) self₁ w₁ he

/-! ## A whole life -/

/-- How the life of a writer ends. -/
inductive Ending
  | finish
  | abort
  | drop
  deriving DecidableEq

/-- The end of a writer: the object it has published, if that is how it ends. -/
def Ending.run (flavor : Flavor) : Ending → ObjectWriter → Fs (Option TuxObject)
  | .finish, writer => do
      let object ← ObjectWriter.finishAs flavor writer
      return some object
  | .abort, writer => do
      writer.abort
      return none
  | .drop, writer => do
      writer.drop
      return none

/-- What the life of a writer comes to: the result of each operation and of the end. -/
abbrev Outcome := List OpResult × Except ObjectFileError (Option TuxObject)

/-- The object that a life has published. -/
def publishedBy : Except ObjectFileError Outcome → Option TuxObject
  | .ok (_, .ok object) => object
  | _ => none

lemma publishedBy_ok_iff {outcome : Outcome} {object : TuxObject} :
    publishedBy (.ok outcome) = some object ↔ outcome.2 = .ok (some object) := by
  obtain ⟨results, e | published⟩ := outcome
  · simp [publishedBy]
  · simp [publishedBy]

/-- Create a writer, carry out operations and come to an end. -/
def life (flavor : Flavor) (path : Path) (options : CreateOptions) (ops : List Op)
    (ending : Ending) : Fs Outcome := do
  let writer ← ObjectWriter.createAs flavor path options
  let (results, writer) ← holding ObjectWriter.drop (runOps flavor ops) writer
  let result ← Fallible.result (ending.run flavor writer)
  return (results, result)

/-- The draft is published at the final path, and nothing else has changed there. -/
structure PublishedAs (job : Job) (mayFail : FsCall → Prop) (w₀ w : World) (object : TuxObject)
    (draft : Draft) : Prop where
  above : Above job.floor job.final w₀ w
  clean : Tidy mayFail → Clean job w
  flushed : draft.flavor = .tokio → draft.deferred = none
  published : ∃ layout counted, (draft.IsWhole → counted = draft.content.length) ∧
    Published job w object draft.compression layout draft.metadata draft.tags counted draft.content

/-- The files a draft may be published as, once no error is left to report. -/
def Draft.Publishes (draft : Draft) (inode : Inode) : Prop :=
  (draft.flavor = .tokio → draft.deferred = none) ∧
  (∃ layout counted, (draft.IsWhole → counted = draft.content.length) ∧
    IsPrefixed draft.compression layout draft.metadata draft.tags counted draft.content
      inode.data) ∧
    (draft.sync = true → inode.synced = true)

/-- The file of the writer withholds what the draft has to report. -/
lemma Represents.flushed (h : Represents job w self temp draft)
    (hflushed : ¬ self.Withholds draft.flavor) : draft.flavor = .tokio → draft.deferred = none := by
  intro htokio
  by_contra hsome
  exact hflushed ⟨htokio, h.deferred_eq ▸ hsome⟩

/-- Nothing that a writer is depends on what it may publish. -/
lemma Represents.reallow {path : Path} {publishes publishes' : Inode → Prop}
    (h : Represents (Job.startedIn w path publishes) w₁ self temp draft) :
    Represents (Job.startedIn w path publishes') w₁ self temp draft :=
  { h with
    writing := ⟨h.writing.tempPath_eq, h.writing.finalPath_eq,
      ⟨⟨h.writing.onlyTemp.temp_ne, h.writing.onlyTemp.floor_le, h.writing.onlyTemp.entry⟩,
        h.writing.onlyTemp.sole⟩,
      h.writing.file, h.writing.data_eq, h.writing.length_le, h.writing.end_le⟩ }

lemma Represents.mayPublish (h : Represents job w self temp draft)
    (hpub : ∀ inode, draft.Publishes inode → job.publishes inode) :
    MayPublish job draft.flavor self draft.content := by
  intro hflushed layout counted inode hcounted himage hsync
  rw [h.compression_eq, h.metadata_eq, h.tags_eq] at himage
  rw [h.counted_eq] at hcounted
  rw [h.sync_eq] at hsync
  exact hpub inode ⟨h.flushed hflushed, ⟨layout, counted, hcounted, himage⟩, hsync⟩

/-- The sections and settings of a new writer are those of its options. -/
lemma Created.represents {options : CreateOptions} (h : Created options self) (flavor : Flavor)
    (hlive : Writing job w self temp []) :
    Represents job w self temp (Draft.new flavor options) :=
  ⟨hlive, h.compression_eq, h.sync_eq, h.metadata_eq, h.tags_eq, h.contentLength_eq,
    h.allowRawWrites_eq, h.deferred_eq⟩

/-- The specification of `finish` in terms of the draft. -/
lemma finish_represents (h : Represents job w self temp draft)
    (hpub : ∀ inode, draft.Publishes inode → job.publishes inode) :
    Fallible.Safe (FsStep mayFail) job.Allows (ObjectWriter.finishAs draft.flavor self)
      (fun object w' => PublishedAs job mayFail w w' object draft)
      (fun _ w' => Failed job mayFail w w') w := by
  refine Fallible.Safe.mono (finishAs_safe h.writing (h.mayPublish hpub)) ?_ (fun _ _ h => h)
  intro object w' hfinished
  obtain ⟨layout, counted, hcounted, hpublished⟩ := hfinished.published
  rw [h.compression_eq, h.metadata_eq, h.tags_eq] at hpublished
  rw [h.counted_eq] at hcounted
  exact ⟨hfinished.above, hfinished.clean, h.flushed hfinished.flushed, layout, counted, hcounted,
    hpublished⟩

/-- A writer that comes to its end publishes its draft, or nothing, and cleans up after itself. -/
lemma ending_safe (ending : Ending) (h : Represents job w self temp draft)
    (hpub : ∀ inode, draft.Publishes inode → job.publishes inode) :
    Fallible.Safe (FsStep mayFail) job.Allows (ending.run draft.flavor self)
      (fun object w' => match object with
        | some object => PublishedAs job mayFail w w' object draft
        | none => Failed job mayFail w w')
      (fun _ w' => Failed job mayFail w w') w := by
  cases ending with
  | finish =>
      refine Fallible.Safe.bind (Fallible.Safe.mono (finish_represents h hpub) ?_ (fun _ _ h => h))
      exact fun _ _ h => Fallible.Safe.pure h
  | abort =>
      refine Fallible.Safe.bind (Fallible.Safe.mono (abort_safe h.writing) ?_ (fun _ _ h => h))
      exact fun _ _ h => Fallible.Safe.pure h
  | drop =>
      refine Fallible.Safe.bind (Fallible.Safe.lift (Program.Safe.mono ?_
        (h.writing.unfinished (Above.refl _ _ _) rfl).drop))
      exact fun _ _ h => Fallible.Safe.pure h

/-- Creating a writer and carrying out the operations, which publish nothing. -/
lemma begin_safe (w : World) (publishes : Inode → Prop) (flavor : Flavor) (path : Path)
    (options : CreateOptions) (ops : List Op) :
    Fallible.Safe (FsStep mayFail) (Job.startedIn w path publishes).Allows
      (ObjectWriter.createAs flavor path options >>= holding ObjectWriter.drop (runOps flavor ops))
      (fun p w' => ∃ temp draft, draft.flavor = flavor ∧
        Effects mayFail ops (Draft.new flavor options) p.1 draft ∧
        Represents (Job.startedIn w path publishes) w' p.2 temp draft ∧
        Above w.next path w w' ∧ w'.dir path = w.dir path)
      (fun _ w' => Failed (Job.startedIn w path publishes) mayFail w w') w := by
  refine Fallible.Safe.bind (Fallible.Safe.mono (createAs_safe rfl (Nat.le_refl _)
    (Clean.of_next_le (Nat.le_refl _))) ?_ (fun _ _ h => h.1))
  rintro writer w₁ ⟨hcreated, ⟨temp, hlive⟩, habove, hfinal, _⟩
  refine Fallible.Safe.holding (Method.Safe.mono
    (runOps_safe (hcreated.represents flavor hlive) ops) ?_ (fun _ _ _ (h : False) => h.elim))
  rintro results writer' w₂ ⟨draft, heffects, hbecomes⟩
  have honly := hbecomes.only
  exact ⟨temp, draft, heffects.settings_eq.1, heffects, hbecomes.represents,
    habove.trans (honly.above hlive.onlyTemp.floor_le path),
    (congrFun honly.dir_eq _).trans hfinal⟩

/-- The end of a life, told together with the results of the operations. -/
lemma closing_safe {w₂ : World} {publishes : Inode → Prop} {path : Path} (ending : Ending)
    (h : Represents (Job.startedIn w path publishes) w₂ self temp draft)
    (habove : Above w.next path w w₂) (hfinal : w₂.dir path = w.dir path)
    (hpub : ∀ inode, draft.Publishes inode → publishes inode) (results : List OpResult) :
    Fallible.Safe (FsStep mayFail) (Job.startedIn w path publishes).Allows
      (do
        let result ← Fallible.result (ending.run draft.flavor self)
        return (results, result) : Fs Outcome)
      (fun p w' => p.1 = results ∧ match p.2 with
        | .ok (some object) =>
            PublishedAs (Job.startedIn w path publishes) mayFail w w' object draft
        | _ => Failed (Job.startedIn w path publishes) mayFail w w')
      (fun _ _ => False) w₂ := by
  have hfailed : ∀ w', Failed (Job.startedIn w path publishes) mayFail w₂ w' →
      Failed (Job.startedIn w path publishes) mayFail w w' := fun w' h =>
    ⟨habove.trans h.above, hfinal ▸ h.final_eq, h.clean⟩
  refine Fallible.Safe.bind (Fallible.Safe.result (Fallible.Safe.mono
    (ending_safe ending h hpub) ?_ ?_))
  · rintro (_ | object) w' h
    · exact Fallible.Safe.pure ⟨rfl, hfailed w' h⟩
    · exact Fallible.Safe.pure ⟨rfl, habove.trans h.above, h.clean, h.flushed, h.published⟩
  · exact fun e w' h => Fallible.Safe.pure ⟨rfl, hfailed w' h⟩

lemma life_eq (flavor : Flavor) (path : Path) (options : CreateOptions) (ops : List Op)
    (ending : Ending) : life flavor path options ops ending =
      (ObjectWriter.createAs flavor path options >>=
        holding ObjectWriter.drop (runOps flavor ops)) >>= fun p => do
          let result ← Fallible.result (ending.run flavor p.2)
          return (p.1, result) := by
  unfold life
  rw [bind_assoc]

/-- A whole life publishes what the operations have led to, or nothing. -/
lemma life_safe (w : World) {flavor : Flavor} {path : Path} {options : CreateOptions}
    {ops : List Op} {ending : Ending} :
    Fallible.Safe (FsStep mayFail) (Job.startedIn w path fun _ => True).Allows
      (life flavor path options ops ending)
      (fun p w' => ∃ draft, Effects mayFail ops (Draft.new flavor options) p.1 draft ∧
        match p.2 with
        | .ok (some object) =>
            PublishedAs (Job.startedIn w path fun _ => True) mayFail w w' object draft
        | _ => Failed (Job.startedIn w path fun _ => True) mayFail w w')
      (fun _ w' => Failed (Job.startedIn w path fun _ => True) mayFail w w') w := by
  rw [life_eq]
  refine Fallible.Safe.bind (Fallible.Safe.mono (begin_safe w _ flavor path options ops) ?_
    (fun _ _ h => h))
  rintro ⟨results, writer⟩ w₁ ⟨temp, draft, rfl, heffects, hrep, habove, hfinal⟩
  refine Fallible.Safe.mono (closing_safe ending hrep habove hfinal (fun _ _ => trivial) results)
    ?_ (fun _ _ h => h.elim)
  rintro ⟨_, result⟩ w' ⟨rfl, hend⟩
  exact ⟨draft, heffects, hend⟩

/-- What is left of a life whose operations are over: their results are fixed, and the draft is all
that it may publish. -/
def Committed (mayFail : FsCall → Prop) (w₀ : World) (flavor : Flavor) (path : Path)
    (options : CreateOptions) (ops : List Op)
    (p : Program FsCall.Reply (Except ObjectFileError Outcome)) (w : World) : Prop :=
  ∃ results draft, Effects mayFail ops (Draft.new flavor options) results draft ∧
    Always (fun r => ∃ result, r = .ok (results, result)) p ∧
    Program.Safe (FsStep mayFail) (Job.startedIn w₀ path draft.Publishes).Allows p
      (fun r w' => ∀ object, publishedBy r = some object →
        PublishedAs (Job.startedIn w₀ path draft.Publishes) mayFail w₀ w' object draft) w

/-- A life publishes nothing until its operations are over. -/
lemma life_until (w : World) (flavor : Flavor) (path : Path) (options : CreateOptions)
    (ops : List Op) (ending : Ending) :
    Program.SafeUntil (FsStep mayFail) (Job.startedIn w path fun _ => False).Allows
      (fun p w' => (∃ e, p = .done (.error e)) ∨ Committed mayFail w flavor path options ops p w')
      (life flavor path options ops ending).run w := by
  rw [life_eq, ExceptT.run_bind]
  refine Program.SafeUntil.bind (Program.Safe.mono ?_ (begin_safe w _ flavor path options ops))
  rintro (e | ⟨results, writer⟩) w₁ hbegun
  · exact .of_then (.inl ⟨e, rfl⟩)
  obtain ⟨temp, draft, rfl, heffects, hrep, habove, hfinal⟩ := hbegun
  refine .of_then (.inr ⟨results, draft, heffects, ?_, ?_⟩)
  · have hresults : Fallible.Safe (fun _ _ _ _ => True) (fun _ _ => True)
        (do
          let result ← Fallible.result (ending.run draft.flavor writer)
          return (results, result) : Fs Outcome)
        (fun p _ => p.1 = results) (fun _ _ => False) () := by
      refine Fallible.Safe.bind (Fallible.Safe.lift (Program.Safe.of_any ?_ _))
      exact fun _ => Fallible.Safe.pure rfl
    refine Program.Safe.mono ?_ hresults
    rintro (e | ⟨results', result⟩) _ hr
    · exact hr.elim
    · obtain rfl : results' = results := hr
      exact ⟨result, rfl⟩
  · refine Program.Safe.mono ?_ (closing_safe ending hrep.reallow habove hfinal (fun _ h => h)
      results)
    rintro (e | ⟨_, e | _ | object⟩) w' hend object' hobject
    · cases hobject
    · cases hobject
    · cases hobject
    · cases hobject
      exact hend.2

/-- The content section of a published object. -/
lemma PublishedAs.content_eq {job : Job} {w' : World} {object : TuxObject}
    (h : PublishedAs job mayFail w w' object draft) :
    (w'.data object.file).drop object.header.contentStart.toNat = draft.content := by
  obtain ⟨layout, counted, _, hpublished⟩ := h.published
  rw [hpublished.header_eq]
  exact hpublished.image.drop_contentStart

/-- The whole of a draft is published that has lost no bytes. -/
lemma PublishedAs.whole {job : Job} {w' : World} {object : TuxObject}
    (h : PublishedAs job mayFail w w' object draft) (hwhole : draft.IsWhole) :
    ∃ layout, Published job w' object draft.compression layout draft.metadata draft.tags
      draft.content.length draft.content := by
  obtain ⟨layout, counted, hcounted, hpublished⟩ := h.published
  exact ⟨layout, hcounted hwhole ▸ hpublished⟩

/-- The tokio writer is for uncompressed objects only. -/
lemma life_tokio {path : Path} {options : CreateOptions} {ops : List Op} {ending : Ending}
    {outcome : Outcome} {w' : World}
    (hrun : Ends (FsStep mayFail) (life .tokio path options ops ending).run w (.ok outcome) w') :
    options.compression = .none := by
  obtain ⟨writer, w₁, hcreate, _⟩ := Fallible.ends_of_bind hrun
  have hcreates : Fallible.Safe (FsStep mayFail) (Job.startedIn w path fun _ => True).Allows
      (ObjectWriter.createAs .tokio path options) _ _ w :=
    createAs_safe rfl (Nat.le_refl _) (Clean.of_next_le (Nat.le_refl _))
  exact (hcreates.ends hcreate).2.2.2.2.2 rfl

/-- What is known of a life that is over. -/
lemma life_ends {flavor : Flavor} {path : Path} {options : CreateOptions} {ops : List Op}
    {ending : Ending} {outcome : Outcome} {w' : World}
    (hrun : Ends (FsStep mayFail) (life flavor path options ops ending).run w (.ok outcome) w') :
    ∃ draft, Effects mayFail ops (Draft.new flavor options) outcome.1 draft ∧
      ∀ object, outcome.2 = .ok (some object) →
        PublishedAs (Job.startedIn w path fun _ => True) mayFail w w' object draft := by
  obtain ⟨draft, heffects, hend⟩ :=
    (life_safe w).ends hrun
  refine ⟨draft, heffects, fun object hobject => ?_⟩
  rw [hobject] at hend
  exact hend

/-- What has been published is whole, if the tokio writer has not reported that bytes are lost. -/
lemma life_publishes {flavor : Flavor} {path : Path} {options : CreateOptions} {ops : List Op}
    {ending : Ending} {outcome : Outcome} {object : TuxObject} {w' : World}
    (hrun : Ends (FsStep mayFail) (life flavor path options ops ending).run w (.ok outcome) w')
    (hobject : outcome.2 = .ok (some object)) (hresults : Unreported mayFail flavor outcome.1) :
    ∃ draft layout, Effects mayFail ops (Draft.new flavor options) outcome.1 draft ∧
      draft.IsWhole ∧
      PublishedAs (Job.startedIn w path fun _ => True) mayFail w w' object draft ∧
      Published (Job.startedIn w path fun _ => True) w' object draft.compression layout
        draft.metadata draft.tags draft.content.length draft.content := by
  obtain ⟨draft, heffects, hpublished⟩ := life_ends hrun
  have hdraft := hpublished object hobject
  have hwhole := heffects.isWhole hdraft.flushed hresults
  obtain ⟨layout, hpublished⟩ := hdraft.whole hwhole
  exact ⟨draft, layout, heffects, hwhole, hdraft, hpublished⟩

end TuxEncoding
