import TuxEncoding.Fs.Session
import TuxEncoding.Fs.ObjectSafety

/-!
# Several encoder sessions

Every session of `content_encoder` appends what its codec makes of the plain bytes. A reader opens
one decoder for all of it.

* `Codecs.Lawful` is what the codecs promise: a finished session is one frame, the zstd decoder
  takes one frame after the other, and the gzip decoder stops after the first member.
* `sessions_content`: what finished sessions store, one after the other.
* `sessions_read_back_iff`: the plain bytes of all sessions read back exactly when there is no gzip
  session with plain bytes behind the first one.
-/

namespace TuxEncoding

open Interaction Program

set_option linter.unusedSectionVars false

section

variable [Platform] [Codecs]

/-! ## Plain bytes -/

namespace ContentEncoder

/-- The bytes that one call takes. -/
def takenBytes : Feed → ContentEncoder → List UInt8
  | .write buf, self => buf.take (self.taken (.write buf))
  | .flush, _ => []

/-- The plain bytes of a session: what its calls take, one after the other. -/
def plainBytes : List Feed → ContentEncoder → List UInt8
  | [], _ => []
  | feed :: feeds, self => self.takenBytes feed ++ plainBytes feeds (self.next feed)

/-- Without a codec the plain bytes are what is stored. -/
lemma output_stored (feeds : List Feed) (length : UInt64) :
    (stored length).output feeds = (stored length).plainBytes feeds := by
  induction feeds generalizing length with
  | nil => rfl
  | cons feed feeds ih =>
      cases feed with
      | write buf =>
          have htake : (stored length).takenBytes (.write buf) = buf := List.take_length
          rw [plainBytes, htake]
          exact congrArg (buf ++ ·) (ih _)
      | flush => exact ih length

end ContentEncoder

/-- The plain bytes of a session of a writer. -/
def sessionPlain (compression : CompressionTypes) (feeds : List Feed) : List UInt8 :=
  match ContentEncoder.new compression with
  | .ok encoder => encoder.plainBytes feeds
  | .error _ => []

/-- What a finished session of a writer stores. -/
def sessionStored (compression : CompressionTypes) (feeds : List Feed) : List UInt8 :=
  match ContentEncoder.new compression with
  | .ok encoder => encoder.output feeds
  | .error _ => []

/-! ## What the codecs promise -/

/-- `Frame compression plain bytes` says that `bytes` is one complete frame, or gzip member, that
holds `plain`. -/
structure Codecs.Lawful (Frame : CompressionTypes → List UInt8 → List UInt8 → Prop) : Prop where
  /-- A finished session is one frame of its plain bytes. -/
  finished_frame : ∀ {compression encoder}, Codecs.new compression = .ok encoder → ∀ feeds,
    Frame compression ((ContentEncoder.coded encoder 0).plainBytes feeds)
      ((ContentEncoder.coded encoder 0).output feeds)
  /-- The zstd decoder decodes consecutive frames. -/
  zstd_frames : ∀ {level} {frames : List (List UInt8 × List UInt8)}, frames ≠ [] →
    (∀ frame ∈ frames, Frame (.zstd level) frame.1 frame.2) →
      Codecs.decode (.zstd level) (frames.map Prod.snd).flatten =
        .ok (frames.map Prod.fst).flatten
  /-- The gzip decoder stops after the first member. -/
  gzip_first : ∀ {level plain frame}, Frame (.gzip level) plain frame → ∀ rest,
    Codecs.decode (.gzip level) (frame ++ rest) = .ok plain

/-! ## What the sessions store -/

variable {draft draft' : Draft} {sessions : List (List Feed)} {results : List OpResult}

/-- Finished sessions, and nothing else. -/
def encodeAll (sessions : List (List Feed)) : List Op :=
  sessions.map fun feeds => .encode feeds true

/-- One session that returns `Ok` has appended its output. -/
lemma Op.Effect.session {feeds : List Feed} {n : UInt64}
    (h : (Op.encode feeds true).Effect NoFaults draft (.ok n) draft') :
    (∃ encoder, ContentEncoder.new draft.compression = .ok encoder) ∧
      draft'.compression = draft.compression ∧
      draft'.content = draft.content ++ sessionStored draft.compression feeds := by
  simp only [Op.Effect] at h
  unfold sessionStored
  cases hnew : ContentEncoder.new draft.compression with
  | error e =>
      rw [hnew] at h
      cases h.1
  | ok encoder =>
      rw [hnew] at h
      obtain ⟨bs, _, rfl, hbs⟩ := h
      obtain ⟨rfl, _⟩ := hbs not_exists_noFaults
      refine ⟨⟨encoder, rfl⟩, by simp, by simp⟩

/-- Finished sessions store their outputs one after the other. -/
lemma sessions_content (h : Effects NoFaults (encodeAll sessions) draft results draft')
    (hfinished : ∀ r ∈ results, ∃ n, r = .ok n) :
    (sessions ≠ [] → ∃ encoder, ContentEncoder.new draft.compression = .ok encoder) ∧
      draft'.compression = draft.compression ∧
      draft'.content =
        draft.content ++ (sessions.map (sessionStored draft.compression)).flatten := by
  induction sessions generalizing draft results with
  | nil =>
      obtain ⟨_, rfl⟩ := h
      exact ⟨fun hne => absurd rfl hne, rfl, (List.append_nil _).symm⟩
  | cons feeds sessions ih =>
      obtain ⟨r, rs, draft₁, rfl, heffect, hrest⟩ := h
      obtain ⟨n, rfl⟩ := hfinished r List.mem_cons_self
      obtain ⟨hnew, hcompression, hcontent⟩ := Op.Effect.session heffect
      obtain ⟨_, hcompression', hcontent'⟩ :=
        ih hrest fun r hr => hfinished r (List.mem_cons_of_mem _ hr)
      refine ⟨fun _ => hnew, hcompression'.trans hcompression, ?_⟩
      rw [hcontent', hcompression, hcontent, List.map_cons, List.flatten_cons, List.append_assoc]

/-! ## What is read back -/

/-- What `read_content_to_vec` makes of the content of an object. -/
def readBack (compression : CompressionTypes) (content : List UInt8) :
    Except ObjectFileError (List UInt8) :=
  match compression with
  | .none => .ok content
  | compression => do
      ensureSupported compression
      (Codecs.decode compression content).mapError .io

/-- The handle and every later one return the content. -/
structure ReadsBack (path : Path) (object : TuxObject) (content : List UInt8) (w : World) :
    Prop where
  handle : Fallible.Delivers (FsStep NoFaults) object.readContentToVec
    (fun bs _ => bs = content) w
  reopened : ∀ writable, Fallible.Delivers (FsStep NoFaults)
    (TuxObject.openAs path writable >>= fun opened => opened.readContentToVec)
    (fun bs _ => bs = content) w

variable {w : World} {object : TuxObject} {i : ℕ} {record : Record}

lemma HandleOf.storedVec_eq_readBack (h : HandleOf w object i record) :
    object.storedVec (w.data i) = readBack record.compression record.content := by
  obtain ⟨_, _, _, himage, _, _, hheader⟩ := h.stored
  have hlength : object.header.contentLength.toNat ≤ isizeMax := by
    rw [hheader, himage.contentLength_toNat]
    exact Nat.le_pred_of_lt himage.length_lt
  unfold TuxObject.storedVec TuxObject.storedVecWith readBack
  rw [withCapacity_of_le hlength hlength, h.compressionType_eq, ok_bind, h.storedContent_eq]
  cases record.compression <;> rfl

/-- What is read back is `content` exactly when the decoder says so. -/
lemma HandleOf.readsBack_iff {path : Path} (h : HandleOf w object i record)
    (hentry : w.dir path = some i) (content : List UInt8) :
    ReadsBack path object content w ↔
      readBack record.compression record.content = .ok content := by
  constructor
  · intro hreads
    obtain ⟨bs, w', hrun, rfl⟩ := hreads.handle.exec (fsStep_perform NoFaults)
    rw [← h.storedVec_eq_readBack]
    exact (h.file.readContentToVec_returns.ends hrun).1.symm
  · intro hback
    have hread : ∀ {opened w'}, HandleOf w' opened i record →
        Fallible.Delivers (FsStep NoFaults) opened.readContentToVec (fun bs _ => bs = content)
          w' := by
      intro opened w' hopened
      apply Fallible.Safe.mono (hopened.file.readContentToVec_returns.delivers
        (hopened.storedVec_eq_readBack.trans hback)) ?_ (fun _ _ => id)
      exact fun _ _ hbs => hbs.1
    constructor
    · exact hread h
    · intro writable
      rw [TuxObject.openAs_eq]
      refine Fallible.Safe.bind (Fallible.Safe.mono (openAs_safe hentry h.stored) ?_ ?_)
      · rintro opened w' ⟨_, _, hopened, _⟩
        exact hread hopened
      · rintro e w' ⟨_, hfault⟩
        exact not_isFault_noFaults hfault

lemma ReadsBack.exec_eq {path : Path} {content : List UInt8} (h : ReadsBack path object content w) :
    (exec perform object.readContentToVec.run w).1 = .ok content := by
  have hreads := Program.Safe.ends h.handle (exec_ends (fsStep_perform NoFaults) _ w)
  cases hexec : (exec perform object.readContentToVec.run w).1 with
  | error e =>
      rw [hexec] at hreads
      exact hreads.elim
  | ok bs =>
      rw [hexec] at hreads
      exact congrArg Except.ok hreads

/-! ## Frames -/

variable {Frame : CompressionTypes → List UInt8 → List UInt8 → Prop}
  {compression : CompressionTypes}

/-- Without a codec sessions store their plain bytes. -/
lemma sessionStored_none (feeds : List Feed) :
    sessionStored .none feeds = sessionPlain .none feeds := by
  have hnew : ContentEncoder.new .none = .ok (.stored 0) := rfl
  unfold sessionStored sessionPlain
  rw [hnew]
  exact ContentEncoder.output_stored feeds 0

/-- A session with a codec stores one frame. -/
lemma Codecs.Lawful.session_frame (laws : Codecs.Lawful Frame) {encoder : ContentEncoder}
    (hnew : ContentEncoder.new compression = .ok encoder) (hcoded : compression ≠ .none)
    (feeds : List Feed) :
    Frame compression (sessionPlain compression feeds) (sessionStored compression feeds) := by
  obtain ⟨codec, hcodec, rfl⟩ : ∃ codec, Codecs.new compression = .ok codec ∧
      encoder = .coded codec 0 := by
    unfold ContentEncoder.new ensureSupported at hnew
    split_ifs at hnew
    · cases compression with
      | none => exact absurd rfl hcoded
      | zstd level | gzip level =>
          simp only [ok_bind] at hnew
          split at hnew
          · next codec hcodec =>
              cases hnew
              exact ⟨codec, hcodec, rfl⟩
          · cases hnew
    · cases hnew
  unfold sessionPlain sessionStored
  rw [hnew]
  exact laws.finished_frame hcodec feeds

/-- When the plain bytes of the sessions read back: the gzip decoder stops after the first member,
so that nothing may stand in the later ones. No session at all leaves the decoder an empty
stream. -/
def SessionsReadBack : CompressionTypes → List (List Feed) → Prop
  | .none, _ => True
  | compression, [] => Codecs.decode compression [] = .ok []
  | .zstd _, _ :: _ => True
  | .gzip level, _ :: rest => ∀ feeds ∈ rest, sessionPlain (.gzip level) feeds = []

lemma readBack_coded {content bs : List UInt8} (hsupported : isSupported compression = true)
    (hcoded : compression ≠ .none) :
    readBack compression content = .ok bs ↔ Codecs.decode compression content = .ok bs := by
  have hensure : ensureSupported compression = .ok () := if_pos hsupported
  cases compression with
  | none => exact absurd rfl hcoded
  | zstd level | gzip level =>
      simp only [readBack, hensure, ok_bind]
      cases Codecs.decode _ content <;> simp [Except.mapError]

/-- What the decoder makes of the sessions of a writer. -/
lemma Codecs.Lawful.readBack_sessions_iff (laws : Codecs.Lawful Frame)
    (hsupported : isSupported compression = true) (sessions : List (List Feed))
    (hnew : sessions ≠ [] → ∃ encoder, ContentEncoder.new compression = .ok encoder) :
    readBack compression (sessions.map (sessionStored compression)).flatten =
        .ok (sessions.map (sessionPlain compression)).flatten ↔
      SessionsReadBack compression sessions := by
  have hframes : compression ≠ .none → ∀ feeds ∈ sessions,
      Frame compression (sessionPlain compression feeds) (sessionStored compression feeds) := by
    intro hcoded feeds hmem
    obtain ⟨encoder, hencoder⟩ := hnew (List.ne_nil_of_mem hmem)
    exact laws.session_frame hencoder hcoded feeds
  cases compression with
  | none =>
      have hstored : sessionStored .none = sessionPlain .none := funext sessionStored_none
      simp [readBack, SessionsReadBack, hstored]
  | zstd level =>
      rw [readBack_coded hsupported nofun]
      cases sessions with
      | nil => simp [SessionsReadBack]
      | cons first rest =>
          have hdecode := laws.zstd_frames
            (List.cons_ne_nil (sessionPlain (.zstd level) first, sessionStored (.zstd level) first)
              (rest.map fun feeds =>
                (sessionPlain (.zstd level) feeds, sessionStored (.zstd level) feeds)))
            (by simpa using hframes nofun)
          simp only [List.map_cons, List.map_map] at hdecode
          exact ⟨fun _ => trivial, fun _ => hdecode⟩
  | gzip level =>
      rw [readBack_coded hsupported nofun]
      cases sessions with
      | nil => simp [SessionsReadBack]
      | cons first rest =>
          have hdecode := laws.gzip_first (hframes nofun first List.mem_cons_self)
            (rest.map (sessionStored (.gzip level))).flatten
          rw [List.map_cons, List.flatten_cons, hdecode, List.map_cons, List.flatten_cons]
          -- the decoder returns the first session, so that the others must be empty
          simp [SessionsReadBack]

/-- The plain bytes of all finished sessions of a writer, in order, are what the published object
returns exactly when no gzip session after the first one has plain bytes. -/
theorem sessions_read_back_iff {path : Path} {options : CreateOptions}
    {sessions : List (List Feed)} {outcome : Outcome} {w' : World}
    (laws : Codecs.Lawful Frame) (hsupported : isSupported options.compression = true)
    (hrun : Ends (FsStep NoFaults)
      (life .blocking path options (encodeAll sessions) .finish).run w (.ok outcome) w')
    (hfinished : ∀ r ∈ outcome.1, ∃ n, r = .ok n) (hobject : outcome.2 = .ok (some object)) :
    ReadsBack path object (sessions.map (sessionPlain options.compression)).flatten w' ↔
      SessionsReadBack options.compression sessions := by
  obtain ⟨draft, layout, heffects, _, _, hpublished⟩ :=
    life_publishes hrun hobject (unreported_blocking _)
  obtain ⟨hnew, hcompression, hcontent⟩ := sessions_content heffects hfinished
  have hrecord : readBack draft.compression draft.content = readBack options.compression
      (sessions.map (sessionStored options.compression)).flatten := by
    rw [hcompression, hcontent]
    rfl
  have hentry : w'.dir path = some object.file := hpublished.entry
  rw [hpublished.handleOf.readsBack_iff hentry, hrecord]
  exact laws.readBack_sessions_iff hsupported sessions hnew

end

/-! ## A codec with frames -/

/-- A codec whose frames list their bytes, each behind a one, and end in a zero. -/
@[reducible] def frameCodecs : Codecs where
  Encoder := List UInt8
  new _ := .ok []
  write held buf := ([], buf.length, held ++ buf)
  flush held := ([], held)
  finish := frame
  drop _ := []
  decode
    | .gzip _, bs => firstFrame bs
    | _, bs => allFrames bs
where
  frame (plain : List UInt8) : List UInt8 := plain.flatMap (fun b => [1, b]) ++ [0]
  firstFrame : List UInt8 → Except IoError (List UInt8)
    | 1 :: b :: rest => (b :: ·) <$> firstFrame rest
    | 0 :: _ => .ok []
    | _ => .error ⟨.unexpectedEof, "incomplete frame"⟩
  allFrames : List UInt8 → Except IoError (List UInt8)
    | 1 :: b :: rest => (b :: ·) <$> allFrames rest
    | [0] => .ok []
    | 0 :: rest => allFrames rest
    | _ => .error ⟨.unexpectedEof, "incomplete frame"⟩

namespace frameCodecs

/-- The frames of `frameCodecs`. -/
def IsFrame (_ : CompressionTypes) (plain bytes : List UInt8) : Prop := bytes = frame plain

lemma frame_cons (b : UInt8) (plain : List UInt8) : frame (b :: plain) = 1 :: b :: frame plain := by
  simp [frame]

lemma firstFrame_frame (plain rest : List UInt8) :
    firstFrame (frame plain ++ rest) = .ok plain := by
  induction plain with
  | nil => simp [frame, firstFrame]
  | cons b plain ih => simp [frame_cons, firstFrame, ih]

lemma allFrames_frame (plain : List UInt8) {rest rest' : List UInt8}
    (h : rest = [] ∧ rest' = [] ∨ allFrames rest = .ok rest') :
    allFrames (frame plain ++ rest) = .ok (plain ++ rest') := by
  induction plain with
  | nil =>
      rcases h with ⟨rfl, rfl⟩ | h
      · simp [frame, allFrames]
      · cases rest with
        | nil => cases h
        | cons b rest => simp [frame, allFrames, h]
  | cons b plain ih => simp [frame_cons, allFrames, ih]

lemma allFrames_frames {frames : List (List UInt8 × List UInt8)} (hne : frames ≠ [])
    (h : ∀ f ∈ frames, f.2 = frame f.1) :
    allFrames (frames.map Prod.snd).flatten = .ok (frames.map Prod.fst).flatten := by
  induction frames with
  | nil => exact absurd rfl hne
  | cons f frames ih =>
      rw [List.map_cons, List.flatten_cons, h f List.mem_cons_self]
      apply allFrames_frame
      cases frames with
      | nil => exact .inl ⟨rfl, rfl⟩
      | cons f' frames =>
          exact .inr (ih (List.cons_ne_nil _ _) fun g hg => h g (List.mem_cons_of_mem _ hg))

attribute [local instance] frameCodecs in
lemma output_coded (feeds : List Feed) (held : List UInt8) (length : UInt64) :
    (ContentEncoder.coded held length).output feeds =
      frame (held ++ (ContentEncoder.coded held length).plainBytes feeds) := by
  induction feeds generalizing held length with
  | nil =>
      rw [ContentEncoder.plainBytes, List.append_nil]
      rfl
  | cons feed feeds ih =>
      cases feed with
      | write buf =>
          have htaken : (ContentEncoder.coded held length).takenBytes (.write buf) = buf :=
            List.take_length
          rw [ContentEncoder.plainBytes, htaken, ← List.append_assoc]
          exact ih (held ++ buf) _
      | flush => exact ih held length

attribute [local instance] frameCodecs in
lemma lawful : Codecs.Lawful IsFrame := by
  constructor
  · intro compression encoder hnew feeds
    cases hnew
    exact output_coded feeds [] 0
  · intro level frames hne hframes
    exact allFrames_frames hne hframes
  · intro level plain bytes hframe rest
    rw [show bytes = frame plain from hframe]
    exact firstFrame_frame plain rest

end frameCodecs

attribute [local instance] fullPlatform frameCodecs

/-- One gzip session that is written in two chunks. -/
theorem sessions_read_back_one_member :
    ∃ outcome object w', Ends (FsStep NoFaults) (life .blocking World.somePath
      { CreateOptions.default with compression := .gzip 6 }
      (encodeAll [[.write [1], .write [2]]]) .finish).run World.empty (.ok outcome) w' ∧
      outcome.2 = .ok (some object) ∧ ReadsBack World.somePath object [1, 2] w' := by
  obtain ⟨⟨results, _ | _ | object⟩, w', hresults, hrun⟩ := exec_ends_map (fsStep_perform NoFaults)
    (p := (life .blocking World.somePath { CreateOptions.default with compression := .gzip 6 }
      (encodeAll [[.write [1], .write [2]]]) .finish).run) (s := World.empty)
    (f := fun outcome => (outcome.1, outcome.2.toOption.join.isSome)) (b := ([.ok 2], true))
    (by decide +kernel)
  · cases hresults
  · cases hresults
  · obtain rfl : results = [.ok 2] := congrArg Prod.fst hresults
    refine ⟨_, object, w', hrun, rfl,
      (sessions_read_back_iff frameCodecs.lawful rfl hrun ?_ rfl).mpr ?_⟩
    · intro r hr
      exact ⟨2, List.mem_singleton.mp hr⟩
    · exact fun _ hrest => absurd hrest List.not_mem_nil

/-- A file system with an object of two gzip sessions. -/
abbrev twoMembers : Except ObjectFileError Outcome × World :=
  exec perform (life .blocking World.somePath { CreateOptions.default with compression := .gzip 6 }
    (encodeAll [[.write [1]], [.write [2]]]) .finish).run World.empty

/-- The handle that its writer has returned. -/
abbrev twoMembersHandle : TuxObject := (publishedBy twoMembers.1).get (by decide +kernel)

/-- Of two gzip sessions only the first one is returned. -/
theorem sessions_read_back_first_member : Codecs.Lawful frameCodecs.IsFrame ∧
    ¬ ∀ (path : Path) (options : CreateOptions) (sessions : List (List Feed)) (outcome : Outcome)
      (object : TuxObject) (w w' : World), isSupported options.compression = true →
      Ends (FsStep NoFaults)
        (life .blocking path options (encodeAll sessions) .finish).run w (.ok outcome) w' →
      (∀ r ∈ outcome.1, ∃ n, r = .ok n) → outcome.2 = .ok (some object) →
      ReadsBack path object (sessions.map (sessionPlain options.compression)).flatten w' := by
  refine ⟨frameCodecs.lawful, fun h => ?_⟩
  obtain ⟨⟨results, result⟩, houtcome, hrun⟩ := exec_ends_ok (fsStep_perform NoFaults)
    (p := (life .blocking World.somePath { CreateOptions.default with compression := .gzip 6 }
      (encodeAll [[.write [1]], [.write [2]]]) .finish).run) (s := World.empty) (by decide +kernel)
  have hresults : twoMembers.1.map Prod.fst = .ok [.ok 1, .ok 1] := by decide +kernel
  have hobject : publishedBy twoMembers.1 = some twoMembersHandle := (Option.some_get _).symm
  rw [show twoMembers.1 = .ok (results, result) from houtcome] at hresults hobject
  obtain rfl : results = [.ok 1, .ok 1] := Except.ok.inj hresults
  obtain rfl : result = .ok (some twoMembersHandle) := by
    rcases result with e | object
    · cases hobject
    · exact congrArg Except.ok hobject
  have hback := (h _ _ [[.write [1]], [.write [2]]] _ twoMembersHandle _ _ rfl hrun
    (by simp) rfl).exec_eq
  have hplain : ([[.write [1]], [.write [2]]].map (sessionPlain (.gzip 6))).flatten = [1, 2] := by
    decide +kernel
  have hfirst : (exec perform twoMembersHandle.readContentToVec.run twoMembers.2).1.toOption =
      some [1] := by decide +kernel
  rw [hback, hplain] at hfirst
  cases hfirst

end TuxEncoding
