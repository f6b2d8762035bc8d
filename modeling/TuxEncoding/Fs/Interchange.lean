import TuxEncoding.Fs.AsyncIo
import TuxEncoding.Fs.Uncompressed
import TuxEncoding.Lib.Simulation

/-!
# The two file layers side by side

Every operation of the tokio layer makes the calls of the blocking one, when no call fails and
objects are uncompressed. What it adds are flushes, which change nothing, and it stores content in
pieces of 2 MiB where the blocking one has it stored at once.

* `ObjectWriter.toAsync` and `TuxObject.toAsync` are what a writer and a handle are in the other
  layer: the tokio writer lacks the guard against raw writes.
* `Smooth` is the environment in which no call fails and no file outgrows the length that files can
  have.
* `Ready` and `Usable` say what makes the two layers act alike: a writer that accepts raw writes,
  and a handle of an uncompressed object.
* `createAs_similar`, `writeAll_similar`, `finishAs_similar`, …: one lemma for each operation.

The blocking writer comes in both its flavors, so that the lemmas also say that
`AsyncObjectWriter` is the writer of flavor `tokio`.
-/

namespace TuxEncoding

open Bytes Interaction Program

set_option linter.unusedSectionVars false

variable [Platform] [Codecs]

/-! ## Corresponding values -/

/-- The same writer in the other layer. -/
def ObjectWriter.toAsync (self : ObjectWriter) : AsyncObjectWriter where
  file := self.file
  tempPath := self.tempPath
  finalPath := self.finalPath
  layout := self.layout
  layoutOptions := self.layoutOptions
  compression := self.compression
  metadata := self.metadata
  tags := self.tags
  contentLength := self.contentLength
  sync := self.sync
  deferred := self.deferred

/-- The same handle in the other layer. -/
def TuxObject.toAsync (self : TuxObject) : AsyncTuxObject where
  file := self.file
  path := self.path
  header := self.header
  metadata := self.metadata
  writable := self.writable

def ContentReader.toSection (self : ContentReader) : ContentSection := ⟨self.file, self.remaining⟩

/-- An error, less the text of an I/O error. -/
def ObjectFileError.withoutText : ObjectFileError → ObjectFileError
  | .io err => .io ⟨err.kind, ""⟩
  | e => e

/-- Two errors of the same kind. -/
def ObjectFileError.SameKind (e e' : ObjectFileError) : Prop := e.withoutText = e'.withoutText

lemma ObjectFileError.SameKind.io {e e' : IoError} (h : e.kind = e'.kind) :
    SameKind (.io e) (.io e') := by
  simp [SameKind, withoutText, h]

/-- The file has room for what a call writes to it. -/
def FsCall.Fits (w : World) : FsCall → Prop
  | .write fd bs | .writeAll fd bs => ∀ f, w.files fd = some f → f.pos + bs.length ≤ maxFileLength
  | _ => True

/-- No call fails, and no file outgrows the length that files can have. -/
structure Smooth (c : FsCall) (w : World) (r : c.Reply) (w' : World) : Prop where
  step : FsStep NoFaults c w r w'
  fits : c.Fits w

/-- A writer that accepts raw writes, has no error to report and stands behind the room for a
header. -/
structure Ready (w : World) (writer : ObjectWriter) : Prop where
  raw : writer.allowRawWrites = true
  uncompressed : writer.compression = .none
  deferred : writer.deferred = none
  file : ∃ f, w.files writer.file = some f ∧ f.writable = true ∧ headerSize ≤ f.pos ∧
    HasRoom (w.data f.inode)

/-- A handle of an uncompressed object. -/
structure TuxObject.IsPlain (object : TuxObject) : Prop where
  uncompressed : object.header.compressionType = .none
  version : object.header.version = currentVersion

/-- A handle of an uncompressed object that is in use. -/
structure Usable (w : World) (object : TuxObject) : Prop extends object.IsPlain where
  file_lt : object.file < w.next

/-- The environment lets no call fail. -/
def Faultless (step : (c : FsCall) → World → c.Reply → World → Prop) : Prop :=
  ∀ {c w r w'}, step c w r w' → FsStep NoFaults c w r w'

lemma faultless_noFaults : Faultless (FsStep NoFaults) := fun h => h

variable {step : (c : FsCall) → World → c.Reply → World → Prop} {own : Option Fd} {n : ℕ}
  {w w' : World} {self : ObjectWriter} {object : TuxObject}

lemma Usable.of_next_le (h : Usable w object) (hnext : w.next ≤ w'.next) : Usable w' object :=
  ⟨h.toIsPlain, lt_of_lt_of_le h.file_lt hnext⟩

/-! ## Single calls -/

/-- Nothing has changed but where one handle stands. -/
def Moved (fd : Fd) (w w' : World) : Prop := w' = w ∨ ∃ pos, w' = w.seekTo fd pos

lemma Moved.next_eq {fd : Fd} (h : Moved fd w w') : w'.next = w.next := by
  rcases h with rfl | ⟨pos, rfl⟩ <;> rfl

lemma Ready.of_moved {fd : Fd} (h : Ready w self) (hne : self.file ≠ fd) (hmoved : Moved fd w w') :
    Ready w' self := by
  rcases hmoved with rfl | ⟨pos, rfl⟩
  · exact h
  · obtain ⟨f, hf, hwritable, hpos, hroom⟩ := h.file
    exact ⟨h.raw, h.uncompressed, h.deferred, f, (World.seekTo_files_of_ne hne pos).trans hf,
      hwritable, hpos, hroom⟩

lemma read_moves {fd m : ℕ} {r : Except IoError (List UInt8)}
    (h : FsStep NoFaults (.read fd m) w r w') : Moved fd w w' := by
  obtain ⟨k, hk⟩ := h.resolve_right fun hfault => hfault.1
  cases hf : w.files fd with
  | none =>
      simp only [succeed, hf] at hk
      cases hk
      exact .inl rfl
  | some f =>
      simp only [succeed, hf] at hk
      cases hk
      exact .inr ⟨_, rfl⟩

/-- A flush is answered at once. -/
lemma flush_idle {fd : Fd} (r : Except IoError Unit) (w' : World) :
    Smooth (.flush fd) w r w' ↔ r = .ok () ∧ w' = w := by
  constructor
  · intro h
    obtain ⟨rfl, rfl | ⟨hfail, _⟩⟩ := h.step.flush_inv
    · exact ⟨rfl, rfl⟩
    · exact hfail.elim
  · rintro ⟨rfl, rfl⟩
    exact ⟨.inl ⟨0, rfl⟩, trivial⟩

/-- What the calls under the contract keep. -/
lemma careful_keeps (hn : n ≤ w.next) (c : FsCall) (w₁ : World) (r : c.Reply) (w₂ : World)
    (hmay : Careful own n c w₁) (hstep : Smooth c w₁ r w₂)
    (h : Uncompressed w₁ ∧ Kept own n w w₁) : Uncompressed w₂ ∧ Kept own n w w₂ := by
  obtain ⟨hu, hkept⟩ := careful_step (le_trans hn h.2.next_le) hmay hstep.step h.1
  exact ⟨hu, h.2.trans hkept⟩

/-! ## Readers -/

/-- A read of the content. -/
lemma read_similar {reader : ContentReader} {length : ℕ} (hmine : Mine own n reader.file)
    (hlength : 0 < length) :
    Fallible.Similar Smooth (Careful own n) (reader.read length)
      (reader.toSection.read length)
      (fun r r' w' => r' = (r.1, r.2.toSection) ∧ r.2.file = reader.file ∧ Moved reader.file w w')
      (fun e e' w' => e = e' ∧ Moved reader.file w w') w := by
  unfold ContentReader.read ContentSection.read
  by_cases hremaining : reader.remaining = 0
  · rw [if_pos (.inl hremaining), if_pos (show reader.toSection.remaining = 0 from hremaining)]
    exact Fallible.Similar.pure ⟨rfl, rfl, .inl rfl⟩
  · rw [if_neg (by omega), if_neg (show ¬ reader.toSection.remaining = 0 from hremaining)]
    refine Fallible.Similar.bind (Fallible.Similar.attempt (Program.Similar.request
      (show Careful own n (.read reader.file _) w from hmine) ?_))
    intro r w' hstep
    have hmoved := read_moves hstep.step
    refine BothReturn.same (fun bs _ => ?_) (fun e _ => ⟨rfl, hmoved⟩)
    exact Fallible.Similar.pure ⟨rfl, rfl, hmoved⟩

/-- Reading the content to its end. -/
lemma readToEnd_similar (m : ℕ) {reader : ContentReader} (hmine : Mine own n reader.file) :
    Fallible.Similar Smooth (Careful own n) (reader.readToEnd m)
      (reader.toSection.readToEnd m) (fun bs bs' _ => bs = bs') (fun e e' _ => e = e') w := by
  induction m generalizing reader w with
  | zero => exact Fallible.Similar.pure rfl
  | succ m ih =>
      refine Fallible.Similar.bind (Fallible.Similar.mono (read_similar hmine (by decide)) ?_
        (fun _ _ _ he => he.1))
      rintro ⟨chunk, reader'⟩ _ w₁ ⟨rfl, hfile, _⟩
      dsimp only
      split_ifs
      · exact Fallible.Similar.pure rfl
      · refine Fallible.Similar.bind (Fallible.Similar.mono (ih (hfile ▸ hmine)) ?_
          (fun _ _ _ he => he))
        rintro rest _ w₂ rfl
        exact Fallible.Similar.pure rfl

/-! ## Writing -/

/-- Content goes where there is no header. -/
lemma Ready.harmless (h : Ready w self) (bs : List UInt8) :
    ∀ f, w.files self.file = some f → Harmless (w.data f.inode) f.pos bs := by
  intro f hf
  obtain ⟨f', hf', _, hpos, hroom⟩ := h.file
  obtain rfl := Option.some.inj (hf'.symm.trans hf)
  exact .inl ⟨hpos, hroom⟩

/-- What the methods of a writer leave alone. -/
structure StillWriting (old : ObjectWriter) (w' : World) (new : ObjectWriter)
    (new' : AsyncObjectWriter) : Prop where
  toAsync_eq : new' = new.toAsync
  ready : Ready w' new
  file_eq : new.file = old.file

lemma StillWriting.refl (h : Ready w self) : StillWriting self w self self.toAsync := ⟨rfl, h, rfl⟩

lemma StillWriting.trans {new : ObjectWriter} {new' : AsyncObjectWriter} {old : ObjectWriter}
    (h : StillWriting self w new new') (hfile : self.file = old.file) :
    StillWriting old w new new' := ⟨h.toAsync_eq, h.ready, h.file_eq.trans hfile⟩

/-- A writer that has written stays behind the header. -/
lemma Ready.put {f : OpenFile} (h : Ready w self) (hf : w.files self.file = some f)
    (bs : List UInt8) (m : ℕ) : Ready (w.put self.file f bs) (self.addLength m) := by
  obtain ⟨f', hf', hwritable, hpos, hroom⟩ := h.file
  obtain rfl := Option.some.inj (hf'.symm.trans hf)
  refine ⟨h.raw, h.uncompressed, h.deferred, _, World.put_files_self hf bs, hwritable, ?_, ?_⟩
  · exact Nat.le_trans hpos (Nat.le_add_right _ _)
  · rw [World.put_data_self]
    exact (h.harmless bs f' hf).hasRoom hroom

/-- The one outcome of a write. -/
lemma smooth_write {fd : Fd} {f : OpenFile} (hf : w.files fd = some f)
    (hwritable : f.writable = true) (buf : List UInt8) (r : Except IoError ℕ) (w' : World) :
    Smooth (.write fd buf) w r w' ↔
      f.pos + buf.length ≤ maxFileLength ∧ r = .ok buf.length ∧ w' = w.put fd f buf := by
  constructor
  · rintro ⟨hstep, hfits⟩
    have hroom := hfits f hf
    obtain ⟨m, _, rfl | hshort, _, rfl, rfl⟩ | ⟨e, hfail | hlarge, _⟩ :=
      hstep.write_inv hf hwritable
    · rw [List.take_length]
      exact ⟨hroom, rfl, rfl⟩
    · exact hshort.2.elim
    · exact hfail.elim
    · exact absurd hlarge.1 (Nat.not_lt.mpr hroom)
  · rintro ⟨hroom, rfl, rfl⟩
    refine ⟨.inl ⟨0, ?_⟩, fun f' hf' => ?_⟩
    · simp [succeed, hf, hwritable, hroom]
    · obtain rfl := Option.some.inj (hf.symm.trans hf')
      exact hroom

/-- The one outcome of a background write. -/
lemma smooth_writeAll {fd : Fd} {f : OpenFile} (hf : w.files fd = some f)
    (hwritable : f.writable = true) (buf : List UInt8) (r : Except IoError Unit) (w' : World) :
    Smooth (.writeAll fd buf) w r w' ↔
      f.pos + buf.length ≤ maxFileLength ∧ r = .ok () ∧ w' = w.put fd f buf := by
  constructor
  · rintro ⟨hstep, hfits⟩
    have hroom := hfits f hf
    obtain ⟨_, rfl, rfl⟩ | ⟨e, hfail | hlarge, _⟩ := hstep.writeAll_inv hf hwritable
    · exact ⟨hroom, rfl, rfl⟩
    · exact hfail.elim
    · exact absurd hlarge.1 (Nat.not_lt.mpr hroom)
  · rintro ⟨hroom, rfl, rfl⟩
    refine ⟨.inl ⟨0, ?_⟩, fun f' hf' => ?_⟩
    · simp [succeed, hf, hwritable, hroom]
    · obtain rfl := Option.some.inj (hf.symm.trans hf')
      exact hroom

/-- The blocking `write` is one call. -/
lemma write_on (hraw : self.allowRawWrites = true) (buf : List UInt8) :
    (ObjectWriter.write buf).on self = .call (.write self.file buf) fun r => match r with
      | .ok written => .done (.ok written, self.addLength written)
      | .error err => .done (.error err, self) := by
  rcases self with ⟨⟩
  subst hraw
  show Program.call _ _ = _
  congr 1
  funext r
  cases r with
  | ok written => rfl
  | error err => rfl

/-- So is the one of tokio. -/
lemma asyncWrite_on {self : AsyncObjectWriter} (h : self.deferred = none) (buf : List UInt8) :
    (AsyncObjectWriter.write buf).on self =
      .call (.writeAll self.file (buf.take maxBufSize)) fun stored =>
        .done (.ok (buf.take maxBufSize).length,
          (self.setDeferred (errorOf stored)).addLength (buf.take maxBufSize).length) := by
  rcases self with ⟨⟩
  subst h
  rfl

/-- The one outcome of tokio's `write`. -/
lemma asyncWrite_ends {self : AsyncObjectWriter} {f : OpenFile} (h : self.deferred = none)
    (hf : w.files self.file = some f) (hwritable : f.writable = true) (buf : List UInt8)
    (d : Except IoError ℕ × AsyncObjectWriter) (w' : World) :
    Ends Smooth ((AsyncObjectWriter.write buf).on self) w d w' ↔
      f.pos + (buf.take maxBufSize).length ≤ maxFileLength ∧
        d = (.ok (buf.take maxBufSize).length, self.addLength (buf.take maxBufSize).length) ∧
        w' = w.put self.file f (buf.take maxBufSize) := by
  have hself : self.setDeferred none = self := by
    rcases self with ⟨⟩
    subst h
    rfl
  rw [asyncWrite_on h, ends_call]
  constructor
  · rintro ⟨r, w₁, hstep, hrest⟩
    obtain ⟨hroom, rfl, rfl⟩ := (smooth_writeAll hf hwritable _ _ _).mp hstep
    obtain ⟨rfl, rfl⟩ := ends_done.mp hrest
    rw [errorOf, hself]
    exact ⟨hroom, rfl, rfl⟩
  · rintro ⟨hroom, rfl, rfl⟩
    refine ⟨.ok (), _, (smooth_writeAll hf hwritable _ _ _).mpr ⟨hroom, rfl, rfl⟩, ?_⟩
    rw [errorOf, hself]
    exact .refl _ _

lemma World.seekTo_seekTo (fd pos pos' : ℕ) :
    (w.seekTo fd pos).seekTo fd pos' = w.seekTo fd pos' := by
  unfold World.seekTo
  simp [Function.comp_def]

lemma World.setInode_setInode (i : ℕ) (inode inode' : Inode) :
    (w.setInode i inode).setInode i inode' = w.setInode i inode' := by
  unfold World.setInode
  simp

/-- A write that goes on where the last one has ended. -/
lemma World.put_put {fd : Fd} (f : OpenFile) (bs bs' : List UInt8) :
    (w.put fd f bs).put fd { f with pos := f.pos + bs.length } bs' = w.put fd f (bs ++ bs') := by
  have hdata : (w.put fd f bs).data f.inode = overwrite 0 (w.data f.inode) f.pos bs :=
    World.put_data_self fd f bs
  have hsynced : (bs'.isEmpty && ((w.put fd f bs).inodes f.inode).synced) =
      ((bs ++ bs').isEmpty && (w.inodes f.inode).synced) := by
    rw [World.put, World.seekTo_inodes, World.setInode_inodes_self]
    cases bs <;> cases bs' <;> rfl
  rw [World.put, hdata, hsynced, overwrite_overwrite_append]
  show (((w.setInode f.inode _).setInode f.inode _).seekTo fd _).seekTo fd _ =
    w.put fd f (bs ++ bs')
  rw [World.setInode_setInode, World.seekTo_seekTo, World.put, List.length_append, Nat.add_assoc]

lemma asyncWriteAllLoop_nil (m : ℕ) : AsyncObjectWriter.writeAllLoop m [] = pure () := by
  cases m <;> rfl

/-- The one outcome of tokio's `write_all` of some bytes. -/
lemma asyncWriteAllLoop_ends {m : ℕ} {self : AsyncObjectWriter} {f : OpenFile}
    (h : self.deferred = none) (hf : w.files self.file = some f) (hwritable : f.writable = true)
    {buf : List UInt8} (hbuf : buf ≠ []) (hm : buf.length ≤ m)
    (d : Except IoError Unit × AsyncObjectWriter) (w' : World) :
    Ends Smooth ((AsyncObjectWriter.writeAllLoop m buf).on self) w d w' ↔
      f.pos + buf.length ≤ maxFileLength ∧ d = (.ok (), self.addLength buf.length) ∧
        w' = w.put self.file f buf := by
  induction m generalizing self f w buf with
  | zero => exact absurd (List.length_eq_zero_iff.mp (Nat.le_zero.mp hm)) hbuf
  | succ m ih =>
      obtain ⟨chunk, rest, hchunk, hrest, rfl⟩ : ∃ chunk rest, buf.take maxBufSize = chunk ∧
          buf.drop maxBufSize = rest ∧ buf = chunk ++ rest :=
        ⟨_, _, rfl, rfl, (List.take_append_drop maxBufSize buf).symm⟩
      have hpos : 0 < chunk.length := by
        have hlength := List.length_pos_iff.mpr hbuf
        rw [← hchunk, List.length_take]
        exact Nat.lt_min.mpr ⟨by decide, hlength⟩
      rw [List.length_append] at hm
      have hloop : ∀ d w', Ends Smooth
          ((AsyncObjectWriter.writeAllLoop (m + 1) (chunk ++ rest)).on self) w d w' ↔
            f.pos + chunk.length ≤ maxFileLength ∧
              Ends Smooth ((AsyncObjectWriter.writeAllLoop m rest).on
                (self.addLength chunk.length)) (w.put self.file f chunk) d w' := by
        intro d w'
        rw [AsyncObjectWriter.writeAllLoop, if_neg (by simpa using hbuf), Method.on_bind, ends_bind]
        simp only [asyncWrite_ends h hf hwritable, hchunk]
        constructor
        · rintro ⟨_, _, ⟨hroom, rfl, rfl⟩, hrun⟩
          dsimp only at hrun
          rw [if_neg (Nat.ne_of_gt hpos), List.drop_left] at hrun
          exact ⟨hroom, hrun⟩
        · rintro ⟨hroom, hrun⟩
          refine ⟨_, _, ⟨hroom, rfl, rfl⟩, ?_⟩
          dsimp only
          rw [if_neg (Nat.ne_of_gt hpos), List.drop_left]
          exact hrun
      rw [hloop]
      rcases eq_or_ne rest [] with rfl | hne
      · rw [asyncWriteAllLoop_nil, List.append_nil]
        exact and_congr_right fun _ => ends_done
      · rw [@ih _ (self.addLength chunk.length) _ h (World.put_files_self hf chunk) hwritable _ hne
          (by omega)]
        show _ ∧ _ ∧ _ ∧ w' = (w.put self.file f chunk).put self.file _ rest ↔ _
        rw [World.put_put, List.length_append]
        constructor
        · rintro ⟨_, hroom, rfl, rfl⟩
          refine ⟨by dsimp only at hroom; omega, ?_, rfl⟩
          simp [AsyncObjectWriter.addLength, Nat.add_assoc]
        · rintro ⟨hroom, rfl, rfl⟩
          refine ⟨by omega, by dsimp only; omega, ?_, rfl⟩
          simp [AsyncObjectWriter.addLength, Nat.add_assoc]

/-- One write of the tokio writer, which has no error to report. -/
lemma bufferedWrite_similar (hmine : Mine own n self.file) (h : Ready w self) (buf : List UInt8) :
    Method.Similar Smooth (Careful own n) (ObjectWriter.bufferedWrite buf)
      (AsyncObjectWriter.write buf) self self.toAsync
      (fun m m' new new' w' => m = m' ∧ StillWriting self w' new new')
      (fun e e' new new' w' => e.kind = e'.kind ∧ StillWriting self w' new new') w := by
  obtain ⟨f, hf, hwritable, _⟩ := h.file
  have hself : self.setDeferred none = self := by
    rcases self with ⟨⟩
    obtain rfl := h.deferred
    rfl
  have hcall : (ObjectWriter.bufferedWrite buf).on self =
      .call (.writeAll self.file (buf.take maxBufSize)) fun stored =>
        .done (.ok (buf.take maxBufSize).length,
          (self.setDeferred (errorOf stored)).addLength (buf.take maxBufSize).length) := by
    rcases self with ⟨⟩
    obtain rfl := h.deferred
    rfl
  unfold Method.Similar
  rw [hcall, asyncWrite_on h.deferred]
  refine .call ⟨hmine, h.harmless _⟩ fun r w' hstep => .done ?_
  obtain ⟨_, rfl, rfl⟩ := (smooth_writeAll hf hwritable _ _ _).mp hstep
  refine ⟨rfl, rfl, ?_, rfl⟩
  rw [errorOf, hself]
  exact h.put hf _ _

/-- One write of the blocking writer, if tokio takes the whole buffer at once. -/
lemma write_similar (hmine : Mine own n self.file) (h : Ready w self) {buf : List UInt8}
    (hbuf : buf.length ≤ maxBufSize) :
    Method.Similar Smooth (Careful own n) (ObjectWriter.write buf)
      (AsyncObjectWriter.write buf) self self.toAsync
      (fun m m' new new' w' => m = m' ∧ StillWriting self w' new new')
      (fun e e' new new' w' => e.kind = e'.kind ∧ StillWriting self w' new new') w := by
  obtain ⟨f, hf, hwritable, _⟩ := h.file
  have hends := @asyncWrite_ends _ _ w self.toAsync f h.deferred hf hwritable buf
  rw [List.take_of_length_le hbuf] at hends
  unfold Method.Similar
  rw [write_on h.raw, ← bind_pure ((AsyncObjectWriter.write buf).on self.toAsync)]
  refine .merge ⟨hmine, h.harmless buf⟩ (smooth_write hf hwritable buf) hends fun _ => .done ?_
  exact ⟨rfl, rfl, h.put hf buf buf.length, rfl⟩

/-- `write_all` of the tokio writer. -/
lemma bufferedWriteAll_similar (m : ℕ) (hmine : Mine own n self.file) (h : Ready w self)
    (buf : List UInt8) :
    Method.Similar Smooth (Careful own n) (ObjectWriter.writeAllLoop .tokio m buf)
      (AsyncObjectWriter.writeAllLoop m buf) self self.toAsync
      (fun _ _ new new' w' => StillWriting self w' new new')
      (fun e e' new new' w' => e.kind = e'.kind ∧ StillWriting self w' new new') w := by
  induction m generalizing self w buf with
  | zero => exact Method.Similar.pure (StillWriting.refl h)
  | succ m ih =>
      unfold ObjectWriter.writeAllLoop AsyncObjectWriter.writeAllLoop
      split_ifs
      · exact Method.Similar.pure (StillWriting.refl h)
      · refine Method.Similar.bind (Method.Similar.mono (bufferedWrite_similar hmine h buf) ?_
          (fun _ _ _ _ _ he => he))
        rintro k _ new new' w₁ ⟨rfl, rfl, hready, hfile⟩
        rcases eq_or_ne k 0 with rfl | hk
        · rw [if_pos rfl, if_pos rfl]
          exact Method.Similar.bind (Method.Similar.throw ⟨rfl, rfl, hready, hfile⟩)
        · rw [if_neg hk, if_neg hk]
          refine Method.Similar.mono (ih (hfile ▸ hmine) hready (buf.drop k)) ?_ ?_
          · exact fun _ _ _ _ _ hnew => hnew.trans hfile
          · exact fun _ _ _ _ _ hnew => ⟨hnew.1, hnew.2.trans hfile⟩

lemma writeAllLoop_nil (flavor : Flavor) (m : ℕ) :
    ObjectWriter.writeAllLoop flavor m [] = pure () := by
  cases m <;> rfl

/-- `write_all`: the tokio writer stores in pieces what the blocking one has stored at once. -/
lemma writeAllAs_similar {flavor : Flavor} (hmine : Mine own n self.file) (h : Ready w self)
    (buf : List UInt8) :
    Method.Similar Smooth (Careful own n) (ObjectWriter.writeAllAs flavor buf)
      (AsyncObjectWriter.writeAll buf) self self.toAsync
      (fun _ _ new new' w' => StillWriting self w' new new')
      (fun e e' new new' w' => e.kind = e'.kind ∧ StillWriting self w' new new') w := by
  cases flavor with
  | tokio => exact bufferedWriteAll_similar buf.length hmine h buf
  | blocking =>
      cases buf with
      | nil => exact Method.Similar.pure (StillWriting.refl h)
      | cons b bs =>
          obtain ⟨f, hf, hwritable, _⟩ := h.file
          have hends := @asyncWriteAllLoop_ends _ _ w _ self.toAsync f h.deferred hf hwritable
            _ (List.cons_ne_nil b bs) (Nat.le_refl _)
          have hrest : ObjectWriter.writeAllLoop .blocking bs.length
              ((b :: bs).drop (b :: bs).length) = pure () := by
            rw [List.drop_length, writeAllLoop_nil]
          unfold Method.Similar ObjectWriter.writeAllAs
          rw [List.length_cons, ObjectWriter.writeAllLoop, if_neg (by simp), Method.on_bind]
          show Program.Similar _ _ _ ((ObjectWriter.write (b :: bs)).on self >>= _) _ _
          rw [write_on h.raw,
            ← bind_pure ((AsyncObjectWriter.writeAll (b :: bs)).on self.toAsync)]
          refine .merge ⟨hmine, h.harmless _⟩ (smooth_write hf hwritable _) hends fun _ => ?_
          show Program.Similar _ _ _ (Method.on (if bs.length + 1 = 0 then _ else
            ObjectWriter.writeAllLoop .blocking bs.length ((b :: bs).drop (b :: bs).length)) _) _ _
          rw [if_neg (Nat.succ_ne_zero _), hrest]
          exact .done ⟨rfl, h.put hf _ _, rfl⟩

/-- Copying content from another file. -/
lemma copyLoop_similar {flavor : Flavor} (m : ℕ) {reader : ContentReader}
    (hmine : Mine own n self.file) (hreader : Mine own n reader.file)
    (hne : self.file ≠ reader.file) (h : Ready w self) :
    Method.Similar Smooth (Careful own n) (ObjectWriter.copyLoop flavor m reader)
      (AsyncObjectWriter.copyLoop m reader.toSection) self self.toAsync
      (fun _ _ new new' w' => StillWriting self w' new new')
      (fun e e' new new' w' => e.kind = e'.kind ∧ StillWriting self w' new new') w := by
  induction m generalizing self w reader with
  | zero => exact Method.Similar.pure (StillWriting.refl h)
  | succ m ih =>
      unfold ObjectWriter.copyLoop AsyncObjectWriter.copyLoop
      refine Method.Similar.bind (Method.Similar.lift (Fallible.Similar.mono
        (read_similar hreader (by decide)) ?_ ?_))
      swap
      · rintro e _ w₁ ⟨rfl, hmoved⟩
        exact ⟨rfl, rfl, h.of_moved hne hmoved, rfl⟩
      rintro ⟨chunk, reader'⟩ _ w₁ ⟨rfl, hfile, hmoved⟩
      have hready := h.of_moved hne hmoved
      dsimp only
      split_ifs
      · exact Method.Similar.pure ⟨rfl, hready, rfl⟩
      · refine Method.Similar.bind (Method.Similar.mono (writeAllAs_similar hmine hready chunk) ?_
          (fun _ _ _ _ _ he => he))
        rintro _ _ new new' w₂ ⟨rfl, hready', hnew⟩
        refine Method.Similar.mono (ih (hnew ▸ hmine) (hfile ▸ hreader) ?_ hready') ?_ ?_
        · rw [hnew, hfile]
          exact hne
        · exact fun _ _ _ _ _ h => h.trans hnew
        · exact fun _ _ _ _ _ h => ⟨h.1, h.2.trans hnew⟩

/-- The flush of a tokio writer, which has no error to report. -/
lemma asyncFlush_on {self : AsyncObjectWriter} (h : self.deferred = none) :
    AsyncObjectWriter.flush.on self = .call (.flush self.file) fun r => .done (r, self) := by
  rcases self with ⟨⟩
  subst h
  show Program.call _ _ = _
  congr 1
  funext r
  cases r with
  | ok _ => rfl
  | error err => rfl

lemma flushAs_on (flavor : Flavor) (h : self.deferred = none) :
    (ObjectWriter.flushAs flavor).on self = .call (.flush self.file) fun r => .done (r, self) := by
  rcases self with ⟨⟩
  subst h
  cases flavor with
  | blocking | tokio =>
      show Program.call _ _ = _
      congr 1
      funext r
      cases r with
      | ok _ => rfl
      | error err => rfl

/-- The flush of either writer changes nothing. -/
lemma flushAs_similar {flavor : Flavor} (h : Ready w self) :
    Method.Similar Smooth (Careful own n) (ObjectWriter.flushAs flavor) AsyncObjectWriter.flush self
      self.toAsync (fun _ _ new new' w' => self = new ∧ self.toAsync = new' ∧ w = w')
      (fun _ _ _ _ _ => False) w := by
  unfold Method.Similar
  rw [flushAs_on flavor h.deferred, asyncFlush_on h.deferred]
  refine .call trivial fun r w' hstep => .done ?_
  obtain ⟨rfl, rfl⟩ := (flush_idle r w').mp hstep
  exact ⟨rfl, rfl, rfl⟩

/-- `copy`: tokio's one flushes the writer in the end, which changes nothing. -/
lemma copyAs_similar {flavor : Flavor} {reader : ContentReader} (hmine : Mine own n self.file)
    (hreader : Mine own n reader.file) (hne : self.file ≠ reader.file) (h : Ready w self) :
    Method.Similar Smooth (Careful own n) (ObjectWriter.copyAs flavor reader)
      (AsyncObjectWriter.copy reader.toSection) self self.toAsync
      (fun _ _ new new' w' => StillWriting self w' new new')
      (fun e e' new new' w' => e.kind = e'.kind ∧ StillWriting self w' new new') w := by
  refine Method.Similar.bind (Method.Similar.mono
    (copyLoop_similar (reader.remaining + 1) hmine hreader hne h) ?_ (fun _ _ _ _ _ he => he))
  rintro _ _ new new' w₁ ⟨rfl, hready, hnew⟩
  cases flavor with
  | blocking =>
      unfold Method.Similar
      rw [asyncFlush_on hready.deferred]
      exact .idle flush_idle (.done ⟨rfl, hready, hnew⟩)
  | tokio =>
      refine Method.Similar.mono (@flushAs_similar _ _ _ _ _ _ .tokio hready) ?_ ?_
      · rintro _ _ _ _ _ ⟨rfl, rfl, rfl⟩
        exact ⟨rfl, hready, hnew⟩
      · exact fun _ _ _ _ _ hfalse => hfalse.elim

/-! ## Creating -/

/-- A name that is free leads to an empty file under a new handle. -/
lemma tryNames_careful (parent stem : List Char) (pid m : ℕ) (w : World) :
    Fallible.Safe Smooth (Careful own n) (tryNames parent stem pid m)
      (fun r w' => w.next ≤ r.1 ∧ w'.files r.1 = some ⟨r.1, 0, true⟩ ∧ w'.data r.1 = [])
      (fun _ _ => True) w := by
  induction m generalizing w with
  | zero => exact Fallible.Safe.throw trivial
  | succ m ih =>
      unfold tryNames
      refine Fallible.Safe.bind (Fallible.Safe.lift (Program.Safe.request trivial ?_))
      intro counter w₁ hcounter
      obtain rfl := hcounter.step.nextTempCounter_inv
      refine Fallible.Safe.bind (Fallible.Safe.lift (Program.Safe.request trivial ?_))
      intro r w₂ hcreate
      obtain ⟨k, hk, _, rfl, rfl⟩ | ⟨_, ⟨e, rfl⟩, rfl⟩ := hcreate.step.createNew_inv
      · exact Fallible.Safe.pure ⟨hk, World.create_files_self,
          congrArg Inode.data World.create_inodes_self⟩
      · show Fallible.Safe _ _ (if e.kind = .alreadyExists then tryNames _ _ pid m
          else throw (.io e)) _ _ _
        split_ifs
        · exact ih (w.setCounter (counter + 1))
        · exact Fallible.Safe.throw trivial

lemma createTempFile_similar (path : Path) :
    Fallible.Similar Smooth (Careful own n) (createTempFile path)
      (AsyncIo.createTempFile path)
      (fun r r' w' => r = r' ∧ w.next ≤ r.1 ∧ w'.files r.1 = some ⟨r.1, 0, true⟩ ∧ w'.data r.1 = [])
      (fun e e' _ => e.SameKind e') w := by
  have hsafe : Fallible.Safe Smooth (Careful own n) (createTempFile path)
      (fun r w' => w.next ≤ r.1 ∧ w'.files r.1 = some ⟨r.1, 0, true⟩ ∧ w'.data r.1 = [])
      (fun _ _ => True) w := by
    unfold createTempFile
    refine Fallible.Safe.bind (Fallible.Safe.lift (Program.Safe.request trivial ?_))
    intro pid w₁ hpid
    obtain ⟨rfl, rfl⟩ := hpid.step.processId_inv
    exact tryNames_careful _ _ _ _ _
  exact Fallible.Similar.mono (Fallible.Similar.same hsafe) (fun _ _ _ h => h)
    (fun e e' _ h => congrArg _ h.1)

lemma removeFile_next {path : Path} {r : Except IoError Unit}
    (h : FsStep NoFaults (.removeFile path) w r w') : w'.next = w.next := by
  obtain ⟨k, hk⟩ := h.resolve_right fun hfault => hfault.1
  cases hdir : w.dir path with
  | none | some i =>
      simp only [succeed, hdir] at hk
      cases hk
      rfl

/-- Dropping a writer. -/
lemma drop_similar (self : ObjectWriter) :
    Program.Similar Smooth (Careful own n) (fun _ _ w' => w'.next = w.next) self.drop
      self.toAsync.drop w := by
  unfold ObjectWriter.drop AsyncObjectWriter.drop
  dsimp only [ObjectWriter.toAsync]
  cases self.tempPath with
  | none => exact .done rfl
  | some temp =>
      refine Program.Similar.bind (Program.Similar.request trivial ?_)
      exact fun r w' h => .done (removeFile_next h.step)

/-- Dropping a writer after an error. -/
lemma drop_after (self : ObjectWriter) {P : Prop} (h : P) :
    Program.Similar Smooth (Careful own n) (fun _ _ _ => P) self.drop self.toAsync.drop
      w := Program.Similar.mono (fun _ _ _ _ => h) (drop_similar self)

/-- A seek moves its handle, or fails. -/
lemma seek_cases {fd pos : ℕ} {r : Except IoError Unit}
    (h : FsStep NoFaults (.seek fd pos) w r w') :
    (∃ f, w.files fd = some f ∧ r = .ok () ∧ w' = w.seekTo fd pos) ∨
      (∃ e, r = .error e) ∧ w' = w := by
  cases hf : w.files fd with
  | none =>
      obtain ⟨k, hk⟩ := h.resolve_right fun hfault => hfault.1
      simp only [succeed, hf] at hk
      cases hk
      exact .inr ⟨⟨_, rfl⟩, rfl⟩
  | some f =>
      obtain ⟨_, hr, hw⟩ | ⟨e, _, hr, hw⟩ := h.seek_inv hf
      · exact .inl ⟨f, rfl, hr, hw⟩
      · exact .inr ⟨⟨e, hr⟩, hw⟩

lemma seek_moves {fd pos : ℕ} {r : Except IoError Unit}
    (h : FsStep NoFaults (.seek fd pos) w r w') :
    Moved fd w w' := by
  rcases seek_cases h with ⟨f, _, _, rfl⟩ | ⟨_, rfl⟩
  · exact .inr ⟨pos, rfl⟩
  · exact .inl rfl

/-- Creating a writer for an uncompressed object. -/
lemma createAs_similar {flavor : Flavor} {path : Path} {options : CreateOptions}
    (hnone : options.compression = .none) (hn : n ≤ w.next) :
    Fallible.Similar Smooth (Careful own n) (ObjectWriter.createAs flavor path options)
      (AsyncObjectWriter.create path options)
      (fun self self' w' => self' = self.toAsync ∧ Ready w' self ∧ w.next ≤ self.file)
      (fun e e' _ => e.SameKind e') w := by
  have hisNone : options.compression.isNone = true := CompressionTypes.isNone_iff.mpr hnone
  unfold ObjectWriter.createAs AsyncObjectWriter.create
  refine Fallible.Similar.bind (Fallible.Similar.ofExcept (BothReturn.same ?_ fun e _ => rfl))
  rintro ⟨⟩ _
  rw [if_neg (fun h => h.2 hisNone), if_neg (not_not_intro hisNone)]
  refine Fallible.Similar.bind (Fallible.Similar.ofExcept (BothReturn.same ?_ fun e _ => rfl))
  intro layout hlayout
  refine Fallible.Similar.bind (Fallible.Similar.mono (createTempFile_similar path) ?_
    (fun _ _ _ he => he))
  rintro ⟨file, temp⟩ _ w₁ ⟨rfl, hnext, hfile, hdata⟩
  have hmine : Mine own n file := .inr (le_trans hn hnext)
  refine Fallible.Similar.bind (Fallible.Similar.holding (Method.Similar.lift
    (Fallible.Similar.attempt (Program.Similar.request
      (show Careful own n (.seek file layout.contentStart.toNat) w₁ from hmine) ?_))))
  intro r w₂ hstep
  obtain ⟨hpos, rfl, rfl⟩ | ⟨e, _, rfl, rfl⟩ := hstep.step.seek_inv hfile
  · refine BothReturn.ok (Fallible.Similar.pure ⟨rfl, ⟨hisNone, hnone, rfl, ?_⟩, hnext⟩)
    refine ⟨_, World.seekTo_files_self hfile, rfl, ?_, .inl hdata⟩
    have hholds := LayoutOptions.checkedCompute_holds hlayout
    exact le_trans hholds.headerSize_le hholds.tagsStart_le
  · exact BothReturn.error (drop_after ⟨file, some temp, path, layout, options.layout,
      options.compression, options.metadata, options.tags, 0, options.sync, _, none⟩ rfl)

/-! ## Finishing -/

/-- Writing the prefix. -/
lemma storePrefix_similar {flavor : Flavor} {bytes : List UInt8} (hmine : Mine own n self.file)
    (h : Ready w self) (hbytes : headerSize ≤ bytes.length ∧ DeclaresNone bytes) :
    Method.Similar Smooth (Careful own n) (ObjectWriter.storePrefix flavor bytes)
      (AsyncObjectWriter.storePrefix bytes) self self.toAsync
      (fun _ _ new new' _ => new = self ∧ new' = self.toAsync)
      (fun e e' new new' _ => e.SameKind e' ∧ new' = new.toAsync) w := by
  obtain ⟨f, hf, hwritable, _, _⟩ := h.file
  refine Method.Similar.bind (Method.Similar.adapt (Method.Similar.mono (flushAs_similar h) ?_
    (fun _ _ _ _ _ hfalse => hfalse.elim)))
  rintro _ _ _ _ _ ⟨rfl, rfl, rfl⟩
  refine Method.Similar.bind (Method.Similar.get ?_)
  refine Method.Similar.bind (Method.Similar.lift (Fallible.Similar.attempt
    (Program.Similar.request (show Careful own n (.seek self.file 0) w from hmine) ?_)))
  intro r w₂ hseek
  obtain ⟨_, rfl, rfl⟩ | ⟨e, _, rfl, rfl⟩ := hseek.step.seek_inv hf
  swap
  · exact ⟨rfl, rfl⟩
  have hf₂ : (w.seekTo self.file 0).files self.file = some { f with pos := 0 } :=
    World.seekTo_files_self hf
  refine BothReturn.ok (Method.Similar.bind (Method.Similar.lift (Fallible.Similar.attempt
    (Program.Similar.request (show Careful own n (.writeAll self.file bytes) _ from
      ⟨hmine, fun f' hf' => ?_⟩) ?_))))
  · obtain rfl := Option.some.inj (hf₂.symm.trans hf')
    exact .inr ⟨rfl, hbytes⟩
  intro r w₃ _
  refine BothReturn.same ?_ fun e _ => ⟨rfl, rfl⟩
  rintro ⟨⟩ _
  refine Method.Similar.bind (Method.Similar.lift (Fallible.Similar.attempt
    (Program.Similar.request (show Careful own n (.flush self.file) w₃ from trivial) ?_)))
  intro r w₄ _
  refine BothReturn.same ?_ fun e _ => ⟨rfl, rfl⟩
  rintro ⟨⟩ _
  have hsync : self.toAsync.sync = self.sync := rfl
  rw [hsync]
  split_ifs
  · refine Method.Similar.lift (Fallible.Similar.attempt (Program.Similar.request
      (show Careful own n (.syncAll self.file) w₄ from trivial) ?_))
    exact fun r w₅ _ => BothReturn.same (fun _ _ => ⟨rfl, rfl⟩) fun e _ => ⟨rfl, rfl⟩
  · exact Method.Similar.pure ⟨rfl, rfl⟩

/-- Publishing; the directory is synced, or not, in both layers. -/
lemma publish_similar (self : ObjectWriter) :
    Method.Similar Smooth (Careful own n) ObjectWriter.publish
      AsyncObjectWriter.publish self self.toAsync
      (fun _ _ new new' _ => new.file = self.file ∧ new' = new.toAsync)
      (fun e e' new new' _ => e.SameKind e' ∧ new' = new.toAsync) w := by
  unfold ObjectWriter.publish AsyncObjectWriter.publish
  refine Method.Similar.bind (Method.Similar.get ?_)
  have htempPath : self.toAsync.tempPath = self.tempPath := rfl
  rw [htempPath]
  cases self.tempPath with
  | none => exact Method.Similar.pure ⟨rfl, rfl⟩
  | some temp =>
      refine Method.Similar.bind (Method.Similar.modify (Method.Similar.bind (Method.Similar.lift
        (Fallible.Similar.attempt (Program.Similar.request
          (show Careful own n (.rename temp self.finalPath) w from trivial) ?_)))))
      intro r w₁ _
      refine BothReturn.same ?_ fun e _ => ⟨rfl, rfl⟩
      rintro ⟨⟩ _
      have hsync : self.toAsync.sync = self.sync := rfl
      have hparent : self.toAsync.finalPath.parent = self.finalPath.parent := rfl
      rw [hsync, hparent]
      cases self.sync with
      | false => exact Method.Similar.pure ⟨rfl, rfl⟩
      | true =>
          cases self.finalPath.parent with
          | none => exact Method.Similar.pure ⟨rfl, rfl⟩
          | some parent =>
              refine Method.Similar.bind (Method.Similar.lift (Fallible.Similar.lift
                (Program.Similar.request (show Careful own n (.openDir parent) w₁ from trivial)
                  ?_)))
              rintro (e | _) w₂ _
              · exact Method.Similar.pure ⟨rfl, rfl⟩
              · refine Method.Similar.bind (Method.Similar.lift (Fallible.Similar.lift
                  (Program.Similar.request (show Careful own n (.syncDir parent) w₂ from trivial)
                    ?_)))
                exact fun _ _ _ => Method.Similar.pure ⟨rfl, rfl⟩

/-- A prefix that declares no codec may be written over any other. -/
lemma encodePrefix_harmless {header : ObjectHeader} {metadata : MetadataMap} {tags : Tags String}
    {layout : SectionLayout} {bytes : List UInt8}
    (hholds : layout.Holds (size metadata) (size tags)) (hversion : header.version = currentVersion)
    (hnone : header.compressionType = .none)
    (hencode : encodePrefix header metadata tags layout = .ok bytes) :
    headerSize ≤ bytes.length ∧ DeclaresNone bytes := by
  have hheader := hholds.headerSize_le
  have htags := hholds.tagsStart_le
  obtain ⟨hm, ht, _, rfl⟩ := (encodePrefix_eq_ok_iff hheader htags bytes).mp hencode
  refine ⟨?_, fun hread => ?_⟩
  · rw [length_prefixBytes header hm ht hholds]
    exact le_trans hheader htags
  · have hlength : header.wire.length = headerSize := ObjectHeader.length_wire header
    rw [prefixBytes, List.take_left' hlength, ← List.append_nil header.wire,
      ObjectHeader.readFromBytes_wire header hversion []] at hread
    cases hread
    exact hnone

/-- A clone is the handle itself. -/
lemma clone_cases {fd : Fd} {r : Except IoError Fd} (h : FsStep NoFaults (.tryClone fd) w r w') :
    (∃ e, r = .error e) ∨ r = .ok fd ∧ fd < w'.next := by
  obtain ⟨k, hk⟩ := h.resolve_right fun hfault => hfault.1
  cases hf : w.files fd with
  | none =>
      simp only [succeed, hf] at hk
      cases hk
      exact .inl ⟨_, rfl⟩
  | some f =>
      simp only [succeed, hf] at hk
      cases hk
      exact .inr ⟨rfl, (w.files_lt hf).1⟩

/-- What finishing returns: the same handle in both layers, on the file of the writer or a new
one. -/
structure FinishedAlike (own : Option Fd) (n : ℕ) (object : TuxObject) (object' : AsyncTuxObject)
    (w : World) : Prop where
  toAsync_eq : object' = object.toAsync
  usable : Usable w object
  mine : Mine own n object.file

/-- `finish`, when the sections fit in front of the content. -/
lemma finishInPlace_similar {flavor : Flavor} {layout : SectionLayout}
    (hmine : Mine own n self.file) (h : Ready w self)
    (hholds : layout.Holds (size self.metadata) (size self.tags)) :
    Method.Similar Smooth (Careful own n) (ObjectWriter.finishInPlace flavor layout)
      (AsyncObjectWriter.finishInPlace layout) self self.toAsync
      (fun object object' new new' w' => FinishedAlike own n object object' w' ∧ new' = new.toAsync)
      (fun e e' new new' _ => e.SameKind e' ∧ new' = new.toAsync) w := by
  unfold ObjectWriter.finishInPlace AsyncObjectWriter.finishInPlace
  refine Method.Similar.bind (Method.Similar.modify (Method.Similar.bind (Method.Similar.get
    (Method.Similar.bind (Method.Similar.lift (Fallible.Similar.ofExcept
      (BothReturn.same ?_ fun e _ => ⟨rfl, rfl⟩)))))))
  intro bytes hencode
  have hbytes := encodePrefix_harmless hholds rfl h.uncompressed hencode
  have hready : Ready w (self.setLayout layout) := ⟨h.raw, h.uncompressed, h.deferred, h.file⟩
  refine Method.Similar.bind (Method.Similar.mono (storePrefix_similar hmine hready hbytes) ?_
    (fun _ _ _ _ _ he => he))
  rintro _ _ new new' w₁ ⟨rfl, rfl⟩
  refine Method.Similar.bind (Method.Similar.mono (publish_similar (self.setLayout layout)) ?_
    (fun _ _ _ _ _ he => he))
  rintro _ _ new new' w₂ ⟨hfile, rfl⟩
  refine Method.Similar.bind (Method.Similar.lift (Fallible.Similar.attempt
    (Program.Similar.request (show Careful own n (.tryClone self.file) w₂ from trivial) ?_)))
  intro r w₃ hclone
  rcases clone_cases hclone.step with ⟨e, rfl⟩ | ⟨rfl, hlt⟩
  · exact ⟨rfl, rfl⟩
  · refine BothReturn.ok (Method.Similar.pure ⟨⟨rfl, ⟨⟨h.uncompressed, rfl⟩, hlt⟩, hmine⟩, rfl⟩)

/-- The flush of a writer that is copied from, and has no error to report. -/
lemma flushSource_similar {flavor : Flavor} {source : ObjectWriter} (h : source.deferred = none) :
    Fallible.Similar Smooth (Careful own n) (ObjectWriter.flushSource flavor source)
      (AsyncObjectWriter.flushSource source.toAsync) (fun _ _ w' => w' = w) (fun _ _ _ => False)
      w := by
  have hasync : source.toAsync.deferred = none := h
  have hflush : ObjectWriter.flushSource flavor source = attemptIo (sys (.flush source.file)) := by
    unfold ObjectWriter.flushSource
    rw [h]
    cases flavor <;> rfl
  rw [hflush, AsyncObjectWriter.flushSource, hasync]
  refine Fallible.Similar.attempt (Program.Similar.request
    (show Careful own n (.flush source.file) w from trivial) ?_)
  intro r w' hstep
  obtain ⟨rfl, rfl⟩ := (flush_idle r w').mp hstep
  exact BothReturn.ok rfl

/-- The copy of `finish_by_rewriting`. -/
lemma copyContent_similar {flavor : Flavor} {source : ObjectWriter} (hmine : Mine own n self.file)
    (hsource : Mine own n source.file) (hne : self.file ≠ source.file) (h : Ready w self)
    (hdeferred : source.deferred = none) :
    Method.Similar Smooth (Careful own n) (ObjectWriter.copyContent flavor source)
      (AsyncObjectWriter.copyContent source.toAsync) self self.toAsync
      (fun _ _ new new' w' => StillWriting self w' new new')
      (fun e e' new new' _ => e.SameKind e' ∧ new' = new.toAsync) w := by
  refine Method.Similar.bind (Method.Similar.lift (Fallible.Similar.mono
    (flushSource_similar hdeferred) ?_ (fun _ _ _ hfalse => hfalse.elim)))
  rintro _ _ w₁ rfl
  refine Method.Similar.bind (Method.Similar.lift (Fallible.Similar.attempt
    (Program.Similar.request
      (show Careful own n (.seek source.file source.layout.contentStart.toNat) w₁ from hsource)
      ?_)))
  intro r w₂ hseek
  have hready := h.of_moved hne (seek_moves hseek.step)
  refine BothReturn.same ?_ fun e _ => ⟨rfl, rfl⟩
  rintro ⟨⟩ _
  refine Method.Similar.adapt (Method.Similar.mono (copyAs_similar hmine hsource hne hready) ?_ ?_)
  · exact fun _ _ _ _ _ hnew => hnew
  · exact fun e e' _ _ _ he => ⟨.io he.1, he.2.toAsync_eq⟩

/-- The part of `finish_by_rewriting` that the two layers have in common. -/
lemma finishReplacement_similar {flavor : Flavor} {finish : ObjectWriter → Fs TuxObject}
    {finish' : AsyncObjectWriter → Fs AsyncTuxObject} (hmine : Mine own n self.file)
    (hn : n ≤ w.next) (h : Ready w self)
    (hfinish : ∀ {writer w}, Mine own n writer.file → n ≤ w.next → Ready w writer →
      Fallible.Similar Smooth (Careful own n) (finish writer) (finish' writer.toAsync)
        (FinishedAlike own n) (fun e e' _ => e.SameKind e') w) :
    Method.Similar Smooth (Careful own n) (ObjectWriter.finishByRewriting flavor finish)
      (AsyncObjectWriter.finishReplacement finish') self self.toAsync
      (fun object object' new new' w' => FinishedAlike own n object object' w' ∧ new' = new.toAsync)
      (fun e e' new new' _ => e.SameKind e' ∧ new' = new.toAsync) w := by
  obtain ⟨f, hf, _⟩ := h.file
  have hlt := (w.files_lt hf).1
  refine Method.Similar.bind (Method.Similar.get (Method.Similar.bind (Method.Similar.modify
    (Method.Similar.bind (Method.Similar.lift (Fallible.Similar.mono
      (createAs_similar h.uncompressed hn) ?_ (fun e e' _ he => ⟨he, rfl⟩)))))))
  rintro replacement _ w₁ ⟨rfl, hready, hnext⟩
  have hmine' : Mine own n replacement.file := .inr (le_trans hn hnext)
  have hne : replacement.file ≠ self.file := Nat.ne_of_gt (lt_of_lt_of_le hlt hnext)
  refine Method.Similar.bind (Method.Similar.lift (Fallible.Similar.holding
    (Method.Similar.mono (copyContent_similar hmine' hmine hne hready h.deferred) ?_ ?_)))
  swap
  · rintro e e' new _ w₂ ⟨he, rfl⟩
    exact drop_after new ⟨he, rfl⟩
  rintro _ _ new _ w₂ ⟨rfl, hready', hfile⟩
  obtain ⟨f', hf', _⟩ := hready'.file
  have hlt' := (w₂.files_lt hf').1
  rw [hfile] at hlt'
  refine Method.Similar.lift (Fallible.Similar.mono
    (hfinish (hfile ▸ hmine') (by omega) hready') ?_ ?_)
  · exact fun _ _ _ hobject => ⟨hobject, rfl⟩
  · exact fun _ _ _ he => ⟨he, rfl⟩

lemma FinishedAlike.of_next_eq {object' : AsyncTuxObject} (h : FinishedAlike own n object object' w)
    (hnext : w'.next = w.next) : FinishedAlike own n object object' w' :=
  ⟨h.toAsync_eq, ⟨h.usable.toIsPlain, hnext ▸ h.usable.file_lt⟩, h.mine⟩

/-- The tokio writer removes its temporary file by `abort`, the blocking one by its destructor. -/
lemma abort_similar {object' : AsyncTuxObject} (h : FinishedAlike own n object object' w)
    (self : ObjectWriter) :
    Fallible.Similar Smooth (Careful own n)
      (do
        self.drop
        return object : Fs TuxObject)
      (consume AsyncObjectWriter.drop (do
        let _ ← (Method.result AsyncObjectWriter.removeTemp :
          FsMethod AsyncObjectWriter (Except ObjectFileError Unit))
        return object') self.toAsync)
      (FinishedAlike own n) (fun e e' _ => e.SameKind e') w := by
  rcases self with ⟨file, _ | temp, final, layout, layoutOptions, compression, metadata, tags,
    length, sync, raw, deferred⟩
  · exact .done h
  · refine .call trivial fun r w' hremove => ?_
    have hobject := h.of_next_eq (removeFile_next hremove.step)
    -- whatever the removal returns is ignored
    rcases r with ⟨kind, message⟩ | _
    · cases kind <;> exact .done hobject
    · exact .done hobject

/-- `finish` on its fast path. -/
lemma finishFast_similar {flavor : Flavor} {layout : SectionLayout} (hmine : Mine own n self.file)
    (h : Ready w self)
    (hrep : LayoutOptions.checkedRepartition self.layout.contentStart (size self.metadata)
      (size self.tags) self.layoutOptions.alignment = .ok (some layout)) :
    Fallible.Similar Smooth (Careful own n)
      (consume ObjectWriter.drop (ObjectWriter.finishInPlace flavor layout) self)
      (consume AsyncObjectWriter.drop (AsyncObjectWriter.finishInPlace layout) self.toAsync)
      (FinishedAlike own n) (fun e e' _ => e.SameKind e') w := by
  refine Fallible.Similar.consume (Method.Similar.mono
    (finishInPlace_similar hmine h (LayoutOptions.checkedRepartition_holds hrep).2) ?_ ?_)
  · rintro object object' new _ w₁ ⟨hobject, rfl⟩
    exact Program.Similar.mono (fun _ _ _ hnext => hobject.of_next_eq hnext) (drop_similar new)
  · rintro e e' new _ w₁ ⟨he, rfl⟩
    exact drop_after new he

/-- `finish`, when the layout cannot be computed. -/
lemma finishPanics_similar (panic : ObjectFileError) :
    Fallible.Similar Smooth (Careful own n)
      (consume ObjectWriter.drop (throw panic) self)
      (consume AsyncObjectWriter.drop (throw panic) self.toAsync)
      (FinishedAlike own n) (fun (e e' : ObjectFileError) _ => e.SameKind e') w := by
  refine Fallible.Similar.consume (Method.Similar.throw ?_)
  exact drop_after self rfl

/-- `finish`, on its fast path or rewriting at most `m` times. -/
lemma finishWithin_similar {flavor : Flavor} (m : ℕ) (hmine : Mine own n self.file)
    (hn : n ≤ w.next) (h : Ready w self) :
    Fallible.Similar Smooth (Careful own n) (ObjectWriter.finishWithin flavor m self)
      (AsyncObjectWriter.finishWithin m self.toAsync) (FinishedAlike own n)
      (fun e e' _ => e.SameKind e') w := by
  have hsame : LayoutOptions.checkedRepartition self.toAsync.layout.contentStart
      (size self.toAsync.metadata) (size self.toAsync.tags) self.toAsync.layoutOptions.alignment =
      LayoutOptions.checkedRepartition self.layout.contentStart (size self.metadata)
        (size self.tags) self.layoutOptions.alignment := rfl
  induction m generalizing self w with
  | zero =>
      unfold ObjectWriter.finishWithin AsyncObjectWriter.finishWithin
      rw [hsame]
      rcases hrep : LayoutOptions.checkedRepartition self.layout.contentStart (size self.metadata)
          (size self.tags) self.layoutOptions.alignment with panic | _ | layout
      · exact finishPanics_similar panic
      · exact Fallible.Similar.throw rfl
      · exact finishFast_similar hmine h hrep
  | succ m ih =>
      unfold ObjectWriter.finishWithin AsyncObjectWriter.finishWithin
      rw [hsame]
      rcases hrep : LayoutOptions.checkedRepartition self.layout.contentStart (size self.metadata)
          (size self.tags) self.layoutOptions.alignment with panic | _ | layout
      · exact finishPanics_similar panic
      · refine Fallible.Similar.consume_then (Method.Similar.mono
          (finishReplacement_similar hmine hn h fun hmine hn h => ih hmine hn h rfl) ?_ ?_)
        · rintro object object' new _ w₁ ⟨hobject, rfl⟩
          exact abort_similar hobject new
        · rintro e e' new _ w₁ ⟨he, rfl⟩
          exact drop_after new he
      · exact finishFast_similar hmine h hrep

/-- `finish` -/
lemma finishAs_similar {flavor : Flavor} (hmine : Mine own n self.file) (hn : n ≤ w.next)
    (h : Ready w self) :
    Fallible.Similar Smooth (Careful own n) (ObjectWriter.finishAs flavor self)
      (AsyncObjectWriter.finish self.toAsync) (FinishedAlike own n) (fun e e' _ => e.SameKind e')
      w :=
  finishWithin_similar 1 hmine hn h

/-! ## Opening and reading -/

lemma AsyncIo.earlyEof_kind (err : IoError) : (earlyEof err).kind = err.kind := by
  unfold earlyEof
  split_ifs with hkind
  · exact hkind.symm
  · rfl

/-- `read_exact`; the two layers word the end of a file in their own ways. -/
lemma readExact_similar {fd m : ℕ} (hstep : Faultless step) (hmine : Mine own n fd) :
    Fallible.Similar step (Careful own n) (attemptIo (sys (.readExact fd m)))
      (AsyncIo.readExact fd m)
      (fun bs bs' _ => bs = bs' ∧ ∀ f, w.files fd = some f →
        bs = ((w.data f.inode).drop f.pos).take m)
      (fun e e' _ => e.SameKind e') w := by
  refine Fallible.Similar.attempt (Program.Similar.request
    (show Careful own n (.readExact fd m) w from hmine) ?_)
  intro r w' hread
  refine BothReturn.same (fun bs hbs => ⟨rfl, fun f hf => ?_⟩) fun e _ =>
    .io (AsyncIo.earlyEof_kind e).symm
  obtain ⟨_, hr, _⟩ | ⟨e, _, hr, _⟩ := (hstep hread).readExact_inv hf
  · exact Except.ok.inj (hbs.symm.trans hr)
  · cases hbs.symm.trans hr

/-- Both layers read the same header and metadata off a file. -/
lemma fromFile_alike {file : Fd} {path : Path} {writable : Bool} {f : OpenFile}
    (hstep : Faultless step) (hmine : Mine own n file) (hf : w.files file = some f) :
    Fallible.Similar step (Careful own n) (TuxObject.fromFile file path writable)
      (AsyncTuxObject.fromFile file path writable)
      (fun object object' _ => object' = object.toAsync ∧ object.file = file ∧
        ObjectHeader.readFromBytes ((w.data f.inode).take headerSize) = .ok object.header)
      (fun e e' _ => e.SameKind e') w := by
  unfold TuxObject.fromFile AsyncTuxObject.fromFile
  refine Fallible.Similar.bind (Fallible.Similar.attempt (Program.Similar.request
    (show Careful own n (.seek file 0) w from hmine) ?_))
  intro r w₁ hseek
  rcases seek_cases (hstep hseek) with ⟨f', hf', rfl, rfl⟩ | ⟨⟨e, rfl⟩, rfl⟩
  swap
  · exact BothReturn.error rfl
  obtain rfl := Option.some.inj (hf.symm.trans hf')
  refine BothReturn.ok (Fallible.Similar.bind
    (Fallible.Similar.mono (readExact_similar hstep hmine) ?_ (fun _ _ _ he => he)))
  rintro headerBytes _ w₂ ⟨rfl, hbytes⟩
  have hheaderBytes : headerBytes = (w.data f.inode).take headerSize :=
    hbytes _ (World.seekTo_files_self hf)
  refine Fallible.Similar.bind (Fallible.Similar.ofExcept (BothReturn.same ?_ fun e _ => rfl))
  intro header hheader
  have hread : ObjectHeader.readFromBytes ((w.data f.inode).take headerSize) = .ok header := by
    rw [← hheaderBytes]
    cases hresult : ObjectHeader.readFromBytes headerBytes with
    | error e =>
        rw [hresult] at hheader
        cases hheader
    | ok header' =>
        rw [hresult] at hheader
        cases hheader
        rfl
  dsimp only
  split_ifs
  · exact Fallible.Similar.pure ⟨rfl, rfl, hread⟩
  · refine Fallible.Similar.bind (Fallible.Similar.mono (readExact_similar hstep hmine) ?_
      (fun _ _ _ he => he))
    rintro buffer _ w₃ ⟨rfl, _⟩
    refine Fallible.Similar.bind (Fallible.Similar.ofExcept (BothReturn.same ?_ fun e _ => rfl))
    exact fun metadata _ => Fallible.Similar.pure ⟨rfl, rfl, hread⟩

/-- Reading the header and the metadata of a file that declares no compression. -/
lemma fromFile_similar {file : Fd} {path : Path} {writable : Bool} {f : OpenFile}
    (hmine : Mine own n file) (hf : w.files file = some f)
    (hdata : DeclaresNone (w.data f.inode)) :
    Fallible.Similar Smooth (Careful own n) (TuxObject.fromFile file path writable)
      (AsyncTuxObject.fromFile file path writable)
      (fun object object' _ => object' = object.toAsync ∧ object.IsPlain ∧ object.file = file)
      (fun e e' _ => e.SameKind e') w := by
  refine Fallible.Similar.mono (fromFile_alike Smooth.step hmine hf) ?_ (fun _ _ _ he => he)
  rintro object object' w' ⟨hobject, hfile, hread⟩
  exact ⟨hobject, ⟨hdata hread, ObjectHeader.version_eq hread⟩, hfile⟩

/-- Opening a path, whatever the file behind it declares, gives the same handle in both layers. -/
lemma openAs_alike (hstep : Faultless step) (path : Path) (writable : Bool) :
    Fallible.Similar step (Careful none w.next) (TuxObject.openAs path writable)
      (AsyncTuxObject.openAs path writable) (fun object object' _ => object' = object.toAsync)
      (fun e e' _ => e.SameKind e') w := by
  have hopen : Fallible.Similar step (Careful none w.next)
      (attemptIo (sys (.openFile path writable)) >>= fun file =>
        TuxObject.fromFile file path writable)
      (attemptIo (sys (.openFile path writable)) >>= fun file =>
        AsyncTuxObject.fromFile file path writable)
      (fun object object' _ => object' = object.toAsync) (fun e e' _ => e.SameKind e') w := by
    refine Fallible.Similar.bind (Fallible.Similar.attempt (Program.Similar.request
      (show Careful none w.next (.openFile path writable) w from trivial) ?_))
    intro r w₁ hopened
    obtain ⟨i, k, hk, hdir, rfl, rfl⟩ | ⟨_, ⟨e, rfl⟩, rfl⟩ := (hstep hopened).openFile_inv
    · have hfile : (w.openAt path writable k hk).files k = some ⟨i, 0, writable⟩ := by
        simp [World.openAt, hdir]
      exact BothReturn.ok (Fallible.Similar.mono (fromFile_alike hstep (.inr hk) hfile)
        (fun _ _ _ hobject => hobject.1) (fun _ _ _ he => he))
    · exact BothReturn.error rfl
  cases writable with
  | false => exact hopen
  | true => exact hopen

/-- Opening an object. -/
lemma openAs_similar (hu : Uncompressed w) (hn : n ≤ w.next) (path : Path) (writable : Bool) :
    Fallible.Similar Smooth (Careful own n) (TuxObject.openAs path writable)
      (AsyncTuxObject.openAs path writable)
      (FinishedAlike own n) (fun e e' _ => e.SameKind e') w := by
  have hopen : ∀ writable, Fallible.Similar Smooth (Careful own n)
      (attemptIo (sys (.openFile path writable)) >>= fun file =>
        TuxObject.fromFile file path writable)
      (attemptIo (sys (.openFile path writable)) >>= fun file =>
        AsyncTuxObject.fromFile file path writable)
      (FinishedAlike own n) (fun e e' _ => e.SameKind e') w := by
    intro writable
    have hmay : Careful own n (.openFile path writable) w := trivial
    refine Fallible.Similar.bind (Fallible.Similar.attempt (Program.Similar.request hmay ?_))
    intro r w₁ hstep
    obtain ⟨hu₁, hkept₁⟩ := careful_step hn hmay hstep.step hu
    obtain ⟨i, k, hk, hdir, rfl, rfl⟩ | ⟨_, ⟨e, rfl⟩, rfl⟩ := hstep.step.openFile_inv
    · have hfile : (w.openAt path writable k hk).files k = some ⟨i, 0, writable⟩ := by
        simp [World.openAt, hdir]
      have hmine : Mine own n k := .inr (le_trans hn hk)
      refine BothReturn.ok (Fallible.Similar.mono ((fromFile_similar hmine hfile (hu hdir)).keeps
        (careful_keeps (le_trans hn hkept₁.next_le)) ⟨hu₁, Kept.refl own n _⟩) ?_
        (fun _ _ _ he => he.1))
      rintro object object' w₂ ⟨⟨hobject, hplain, rfl⟩, _, hkept₂⟩
      exact ⟨hobject, ⟨hplain, lt_of_lt_of_le (Nat.lt_succ_self _) hkept₂.next_le⟩, hmine⟩
    · exact BothReturn.error rfl
  cases writable with
  | false => exact hopen false
  | true => exact hopen true

/-- The tag section is read in the same way by both functions that read it whole. -/
lemma AsyncTuxObject.readTagSection_bind {α : Type} (self : AsyncTuxObject)
    (k : Option (List UInt8) → Fs α) : self.readTagSection >>= k = (do
      let space ← orReturn self.layout.checkedTagsSpace
      if space = 0 then k none
      else do
        attemptIo (sys (.seek self.file self.header.tagsStart.toNat))
        let buffer ← AsyncIo.readExact self.file space
        k (some buffer)) := by
  unfold readTagSection
  rw [bind_assoc]
  congr 1
  funext space
  split_ifs
  · rfl
  · simp only [bind_assoc, pure_bind]

/-- What both layers do with the tag section. -/
lemma readTagSection_similar {α : Type} (object : TuxObject) {m : ℕ → ℕ}
    {k k' : List UInt8 → Fs α} {a : α} (hmine : Mine own n object.file)
    (hk : ∀ buffer w, Fallible.Similar Smooth (Careful own n) (k buffer) (k' buffer)
      (fun a b _ => a = b) (fun e e' _ => e.SameKind e') w) :
    Fallible.Similar Smooth (Careful own n)
      (do
        let space ← orReturn object.layout.checkedTagsSpace
        if space = 0 then pure a
        else do
          attemptIo (sys (.seek object.file object.header.tagsStart.toNat))
          let buffer ← attemptIo (sys (.readExact object.file (m space)))
          k buffer)
      (do
        let space ← orReturn object.layout.checkedTagsSpace
        if space = 0 then pure a
        else do
          attemptIo (sys (.seek object.file object.header.tagsStart.toNat))
          let buffer ← AsyncIo.readExact object.file (m space)
          k' buffer)
      (fun a b _ => a = b) (fun e e' _ => e.SameKind e') w := by
  refine Fallible.Similar.bind (Fallible.Similar.ofExcept (BothReturn.same ?_ fun e _ => rfl))
  intro space _
  split_ifs
  · exact Fallible.Similar.pure rfl
  · refine Fallible.Similar.bind (Fallible.Similar.attempt (Program.Similar.request
      (show Careful own n (.seek object.file object.header.tagsStart.toNat) w from hmine) ?_))
    intro r w₁ _
    refine BothReturn.same ?_ fun e _ => rfl
    rintro ⟨⟩ _
    refine Fallible.Similar.bind (Fallible.Similar.mono (readExact_similar Smooth.step hmine) ?_
      (fun _ _ _ he => he))
    rintro buffer _ w₂ ⟨rfl, _⟩
    exact hk buffer w₂

/-- A result that needs no call is the same in both layers. -/
lemma orReturn_similar {α : Type} (r : Except ObjectFileError α) :
    Fallible.Similar Smooth (Careful own n) (orReturn r) (orReturn r)
      (fun a b _ => a = b) (fun e e' _ => e.SameKind e') w :=
  Fallible.Similar.ofExcept (BothReturn.same (fun _ _ => rfl) fun _ _ => rfl)

lemma readTags_similar (hmine : Mine own n object.file) :
    Fallible.Similar Smooth (Careful own n) object.readTags object.toAsync.readTags
      (fun a b _ => a = b) (fun e e' _ => e.SameKind e') w := by
  unfold TuxObject.readTags AsyncTuxObject.readTags
  rw [AsyncTuxObject.readTagSection_bind]
  exact readTagSection_similar object (m := id) hmine fun buffer w => orReturn_similar _

lemma tagCount_similar (hmine : Mine own n object.file) :
    Fallible.Similar Smooth (Careful own n) object.tagCount object.toAsync.tagCount
      (fun a b _ => a = b) (fun e e' _ => e.SameKind e') w := by
  unfold TuxObject.tagCount AsyncTuxObject.tagCount
  exact readTagSection_similar object (m := fun _ => 2) hmine
    fun buffer w => Fallible.Similar.pure rfl

lemma findTag_similar (hmine : Mine own n object.file) (key : String) :
    Fallible.Similar Smooth (Careful own n) (object.findTag key)
      (object.toAsync.findTag key) (fun a b _ => a = b) (fun e e' _ => e.SameKind e') w := by
  unfold TuxObject.findTag AsyncTuxObject.findTag
  rw [AsyncTuxObject.readTagSection_bind]
  exact readTagSection_similar object (m := id) hmine fun buffer w => orReturn_similar _

/-- The reader of the whole stored content. -/
lemma storedContentReader_similar (hmine : Mine own n object.file) :
    Fallible.Similar Smooth (Careful own n) object.storedContentReader
      object.toAsync.storedContentReader
      (fun reader reader' w' => reader' = reader.toSection ∧ reader.file = object.file ∧
        Moved object.file w w')
      (fun e e' w' => e.SameKind e' ∧ Moved object.file w w') w := by
  unfold TuxObject.storedContentReader AsyncTuxObject.storedContentReader
    AsyncTuxObject.seekToContentStart
  rw [bind_assoc]
  refine Fallible.Similar.bind (Fallible.Similar.attempt (Program.Similar.request
    (show Careful own n (.seek object.file object.header.contentStart.toNat) w from hmine) ?_))
  intro r w₁ hseek
  have hmoved := seek_moves hseek.step
  refine BothReturn.same ?_ fun e _ => ⟨rfl, hmoved⟩
  exact fun _ _ => Fallible.Similar.pure ⟨rfl, rfl, hmoved⟩

/-- Reading to the end of what a reader is bounded to. -/
lemma attemptReadToEnd_similar {reader : ContentReader} (hmine : Mine own n reader.file) :
    Fallible.Similar Smooth (Careful own n)
      (attempt .io (reader.readToEnd (reader.remaining + 1)).run : Fs (List UInt8))
      (attempt .io (reader.toSection.readToEnd (reader.toSection.remaining + 1)).run :
        Fs (List UInt8))
      (fun a b _ => a = b) (fun e e' _ => e.SameKind e') w := by
  refine Fallible.Similar.attempt (Program.Similar.mono ?_
    (readToEnd_similar (reader.remaining + 1) hmine))
  exact fun _ _ _ => BothReturn.mono (fun _ _ h => h) fun _ _ h => congrArg _ (congrArg _ h)

lemma readStored_similar (hmine : Mine own n object.file) :
    Fallible.Similar Smooth (Careful own n) object.readStored object.toAsync.readStored
      (fun a b _ => a = b) (fun e e' _ => e.SameKind e') w := by
  refine Fallible.Similar.bind (Fallible.Similar.mono (storedContentReader_similar hmine) ?_
    (fun _ _ _ he => he.1))
  rintro reader _ w₁ ⟨rfl, hfile, _⟩
  exact attemptReadToEnd_similar (hfile ▸ hmine)

lemma readContentToVec_similar (hmine : Mine own n object.file) (hplain : object.IsPlain) :
    Fallible.Similar Smooth (Careful own n) object.readContentToVec
      object.toAsync.readContentToVec (fun a b _ => a = b) (fun e e' _ => e.SameKind e') w := by
  have hnone : object.toAsync.header.compressionType = .none := hplain.uncompressed
  unfold TuxObject.readContentToVec TuxObject.readContentToVecWith AsyncTuxObject.readContentToVec
  rw [hplain.uncompressed, hnone]
  refine Fallible.Similar.bind (Fallible.Similar.ofExcept (BothReturn.same ?_ fun e _ => rfl))
  rintro ⟨⟩ _
  refine Fallible.Similar.bind (Fallible.Similar.mono (storedContentReader_similar hmine) ?_
    (fun _ _ _ he => he.1))
  rintro reader _ w₁ ⟨rfl, hfile, _⟩
  dsimp only
  rw [bind_pure]
  exact attemptReadToEnd_similar (hfile ▸ hmine)

/-- A range of the content, with its checks. -/
lemma contentRangeReader_similar (hmine : Mine own n object.file) (hplain : object.IsPlain)
    (offset : UInt64) (length : Option UInt64) :
    Fallible.Similar Smooth (Careful own n) (object.contentRangeReader offset length)
      (object.toAsync.contentRangeReader offset length)
      (fun reader reader' _ => reader' = reader.toSection ∧ reader.file = object.file)
      (fun e e' _ => e.SameKind e') w := by
  have hnone : object.header.compressionType.isNone = true :=
    CompressionTypes.isNone_iff.mpr hplain.uncompressed
  have hheader : object.toAsync.header = object.header := rfl
  have hfile : object.toAsync.file = object.file := rfl
  unfold TuxObject.contentRangeReader AsyncTuxObject.contentRangeReader
    AsyncTuxObject.seekWithinContent
  rw [hheader, hfile, if_neg (not_not_intro hnone), if_neg (not_not_intro hnone)]
  by_cases hoffset : object.header.contentLength < offset
  · rw [if_pos hoffset, if_pos hoffset]
    exact .done rfl
  rw [if_neg hoffset, if_neg hoffset]
  by_cases hlength : length.getD (object.header.contentLength - offset) >
      object.header.contentLength - offset
  · rw [if_pos hlength, if_pos hlength]
    exact .done rfl
  rw [if_neg hlength, if_neg hlength]
  simp only [bind_assoc, pure_bind]
  refine Fallible.Similar.bind (Fallible.Similar.mono (orReturn_similar _) ?_ (fun _ _ _ he => he))
  rintro start _ w₁ rfl
  refine Fallible.Similar.bind (Fallible.Similar.attempt (Program.Similar.request
    (show Careful own n (.seek object.file start) w₁ from hmine) ?_))
  intro r w₂ _
  refine BothReturn.same ?_ fun e _ => rfl
  exact fun _ _ => Fallible.Similar.pure ⟨rfl, rfl⟩

lemma readRange_similar (hmine : Mine own n object.file) (hplain : object.IsPlain)
    (offset : UInt64) (length : Option UInt64) :
    Fallible.Similar Smooth (Careful own n) (object.readRange offset length)
      (object.toAsync.readRange offset length) (fun a b _ => a = b)
      (fun e e' _ => e.SameKind e') w := by
  refine Fallible.Similar.bind (Fallible.Similar.mono
    (contentRangeReader_similar hmine hplain offset length) ?_ (fun _ _ _ he => he))
  rintro reader _ w₁ ⟨rfl, hfile⟩
  exact attemptReadToEnd_similar (hfile ▸ hmine)

/-! ## Updating -/

/-- The copy of `rewrite`. -/
lemma copyStored_similar (hmine : Mine own n self.file) (hobject : Mine own n object.file)
    (hne : self.file ≠ object.file) (h : Ready w self) :
    Method.Similar Smooth (Careful own n) object.copyStored object.toAsync.copyStored
      self self.toAsync (fun _ _ new new' w' => StillWriting self w' new new')
      (fun e e' new new' _ => e.SameKind e' ∧ new' = new.toAsync) w := by
  refine Method.Similar.bind (Method.Similar.lift (Fallible.Similar.mono
    (storedContentReader_similar hobject) ?_ (fun _ _ _ he => ⟨he.1, rfl⟩)))
  rintro reader _ w₁ ⟨rfl, hreader, hmoved⟩
  have hready := h.of_moved hne hmoved
  refine Method.Similar.adapt (Method.Similar.mono
    (copyAs_similar hmine (hreader ▸ hobject) (hreader ▸ hne) hready) ?_ ?_)
  · exact fun _ _ _ _ _ hnew => hnew
  · exact fun e e' _ _ _ he => ⟨.io he.1, he.2.toAsync_eq⟩

/-- The writer that `rewrite` creates, and the object that it finishes. -/
lemma replacement_similar (hmine : Mine own n object.file) (hn : n ≤ w.next) (h : Usable w object)
    (metadata : MetadataMap) (tags : Tags String) :
    Fallible.Similar Smooth (Careful own n) (object.replacement metadata tags)
      (object.toAsync.replacement metadata tags) (FinishedAlike own n)
      (fun e e' _ => e.SameKind e') w := by
  refine Fallible.Similar.bind (Fallible.Similar.ofExcept (BothReturn.same ?_ fun e _ => rfl))
  rintro ⟨⟩ _
  refine Fallible.Similar.bind (Fallible.Similar.mono
    (createAs_similar h.uncompressed hn) ?_
    (fun _ _ _ he => he))
  rintro writer _ w₁ ⟨rfl, hready, hnext⟩
  have hwriter : Mine own n writer.file := .inr (le_trans hn hnext)
  have hne : writer.file ≠ object.file := Nat.ne_of_gt (lt_of_lt_of_le h.file_lt hnext)
  refine Fallible.Similar.bind (Fallible.Similar.holding (Method.Similar.mono
    (copyStored_similar hwriter hmine hne hready) ?_ ?_))
  swap
  · rintro e e' new _ w₂ ⟨he, rfl⟩
    exact drop_after new he
  rintro _ _ new _ w₂ ⟨rfl, hready', hfile⟩
  obtain ⟨f, hf, _⟩ := hready'.file
  have hlt := (w₂.files_lt hf).1
  rw [hfile] at hlt
  exact finishAs_similar (hfile ▸ hwriter) (by omega) hready'

/-- What an update leaves in both layers when it fails: the handles it was given. -/
def Untouched (object : TuxObject) (e e' : ObjectFileError) (new : TuxObject)
    (new' : AsyncTuxObject) : Prop := e.SameKind e' ∧ new = object ∧ new' = object.toAsync

/-- `rewrite` -/
lemma rewrite_similar (hmine : Mine own n object.file) (hn : n ≤ w.next) (h : Usable w object)
    (metadata : MetadataMap) (tags : Tags String) :
    Method.Similar Smooth (Careful own n) (TuxObject.rewrite metadata tags)
      (AsyncTuxObject.rewrite metadata tags) object object.toAsync
      (fun _ _ new new' w' => FinishedAlike own n new new' w')
      (fun e e' new new' _ => Untouched object e e' new new') w := by
  refine Method.Similar.bind (Method.Similar.get (Method.Similar.bind (Method.Similar.lift
    (Fallible.Similar.mono (replacement_similar hmine hn h metadata tags) ?_ ?_))))
  · exact fun _ _ _ hnew => Method.Similar.set hnew
  · exact fun _ _ _ he => ⟨he, rfl, rfl⟩

/-- `set_metadata` -/
lemma setMetadata_similar (hu : Uncompressed w) (hmine : Mine own n object.file) (hn : n ≤ w.next)
    (h : Usable w object) (metadata : MetadataMap) :
    Method.Similar Smooth (Careful own n) (TuxObject.setMetadata metadata)
      (AsyncTuxObject.setMetadata metadata) object object.toAsync
      (fun _ _ new new' w' => FinishedAlike own n new new' w')
      (fun e e' new new' _ => Untouched object e e' new new') w := by
  refine Method.Similar.bind (Method.Similar.get (Method.Similar.bind (Method.Similar.lift
    (Fallible.Similar.mono ((readTags_similar hmine).keeps (careful_keeps hn)
      ⟨hu, Kept.refl own n w⟩) ?_ ?_))))
  · rintro tags _ w₁ ⟨rfl, _, hkept⟩
    exact rewrite_similar hmine (le_trans hn hkept.next_le) (h.of_next_le hkept.next_le) metadata
      tags
  · exact fun _ _ _ he => ⟨he.1, rfl, rfl⟩

/-- `set_tags` -/
lemma setTags_similar (hmine : Mine own n object.file) (hn : n ≤ w.next) (h : Usable w object)
    (tags : Tags String) :
    Method.Similar Smooth (Careful own n) (TuxObject.setTags tags)
      (AsyncTuxObject.setTags tags) object object.toAsync
      (fun _ _ new new' w' => FinishedAlike own n new new' w')
      (fun e e' new new' _ => Untouched object e e' new new') w :=
  Method.Similar.bind (Method.Similar.get (rewrite_similar hmine hn h object.metadata tags))

/-- `set_sections_in_place` -/
lemma setSectionsInPlace_similar (hmine : Mine own n object.file) (h : object.IsPlain)
    (metadata : MetadataMap) (tags : Tags String) :
    Method.Similar Smooth (Careful own n) (TuxObject.setSectionsInPlace metadata tags)
      (AsyncTuxObject.setSectionsInPlace metadata tags) object object.toAsync
      (fun _ _ new new' _ => new' = new.toAsync ∧ new.IsPlain ∧ new.file = object.file)
      (fun e e' new new' _ => Untouched object e e' new new') w := by
  unfold TuxObject.setSectionsInPlace AsyncTuxObject.setSectionsInPlace
  refine Method.Similar.bind (Method.Similar.get (Method.Similar.bind (Method.Similar.lift
    (Fallible.Similar.ofExcept (BothReturn.same ?_ fun e _ => ⟨rfl, rfl, rfl⟩)))))
  rintro ⟨⟩ _
  refine Method.Similar.bind (Method.Similar.lift (Fallible.Similar.ofExcept
    (BothReturn.same ?_ fun e _ => ⟨rfl, rfl, rfl⟩)))
  intro layout hlayout
  refine Method.Similar.bind (Method.Similar.lift (Fallible.Similar.ofExcept
    (BothReturn.same ?_ fun e _ => ⟨rfl, rfl, rfl⟩)))
  intro bytes hencode
  have hholds : layout.Holds (size metadata) (size tags) := by
    rcases hrep : LayoutOptions.checkedRepartition object.header.contentStart (size metadata)
        (size tags) defaultAlignment with panic | _ | layout'
    · rw [hrep] at hlayout
      cases hlayout
    · rw [hrep] at hlayout
      cases hlayout
    · rw [hrep] at hlayout
      cases hlayout
      exact (LayoutOptions.checkedRepartition_holds hrep).2
  have hbytes : headerSize ≤ bytes.length ∧ DeclaresNone bytes := by
    refine encodePrefix_harmless hholds ?_ ?_ hencode
    · exact h.version
    · exact h.uncompressed
  refine Method.Similar.bind (Method.Similar.lift (Fallible.Similar.attempt
    (Program.Similar.request (show Careful own n (.seek object.file 0) w from hmine) ?_)))
  intro r w₁ hseek
  obtain ⟨f, hf, rfl, rfl⟩ | ⟨⟨e, rfl⟩, rfl⟩ := seek_cases hseek.step
  swap
  · exact ⟨rfl, rfl, rfl⟩
  have hf₁ : (w.seekTo object.file 0).files object.file = some { f with pos := 0 } :=
    World.seekTo_files_self hf
  refine BothReturn.ok (Method.Similar.bind (Method.Similar.lift (Fallible.Similar.attempt
    (Program.Similar.request (show Careful own n (.writeAll object.file bytes) _ from
      ⟨hmine, fun f' hf' => ?_⟩) ?_))))
  · obtain rfl := Option.some.inj (hf₁.symm.trans hf')
    exact .inr ⟨rfl, hbytes⟩
  intro r w₂ _
  refine BothReturn.same ?_ fun e _ => ⟨rfl, rfl, rfl⟩
  rintro ⟨⟩ _
  refine Method.Similar.bind (Method.Similar.lift (Fallible.Similar.attempt
    (Program.Similar.request (show Careful own n (.flush object.file) w₂ from trivial) ?_)))
  intro r w₃ _
  refine BothReturn.same ?_ fun e _ => ⟨rfl, rfl, rfl⟩
  exact fun _ _ => Method.Similar.set ⟨rfl, ⟨h.uncompressed, h.version⟩, rfl⟩

end TuxEncoding
