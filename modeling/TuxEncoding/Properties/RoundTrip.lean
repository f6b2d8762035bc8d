import TuxEncoding.Fs.ObjectSafety
import TuxEncoding.Fs.Session

/-!
# Writing an object and opening it again

* `Op.PlainStep` is what a raw write, a flush or an edit does to a draft, and `Effects.plain` what
  they all do: they leave the draft that the edits and the accepted chunks make up.
* `written_object_opens`: whatever the writer has finished, by either path, is what a handle opened
  on the published file returns.
-/

namespace TuxEncoding

open Interaction Program

set_option linter.unusedSectionVars false

section

variable [Platform] [Codecs]

/-- A raw write, a flush or an edit. -/
def Op.IsPlain : Op → Prop
  | .encode _ _ => False
  | _ => True

/-- The metadata and the tags after all edits. -/
def editAll : List Op → MetadataMap × Tags String → MetadataMap × Tags String
  | [], sections => sections
  | .edit f :: ops, sections => editAll ops (f sections)
  | _ :: ops, sections => editAll ops sections

/-- The chunks of all raw writes, one after the other. -/
def chunks : List Op → List UInt8
  | [] => []
  | .write buf :: ops => buf ++ chunks ops
  | _ :: ops => chunks ops

/-- The bytes that the raw writes have taken, by what they returned. -/
def accepted : List Op → List OpResult → List UInt8
  | .write buf :: ops, .ok n :: results => buf.take n.toNat ++ accepted ops results
  | _ :: ops, _ :: results => accepted ops results
  | _, _ => []

/-- A `tokio::fs::File` takes every chunk at once. -/
def WithinBuffer (ops : List Op) : Prop := ∀ buf, .write buf ∈ ops → buf.length ≤ maxBufSize

lemma WithinBuffer.cons {op : Op} {ops : List Op} (h : WithinBuffer (op :: ops)) :
    WithinBuffer [op] ∧ WithinBuffer ops := by
  constructor
  · intro buf hbuf
    exact h buf (List.mem_singleton.mp hbuf ▸ List.mem_cons_self)
  · intro buf hbuf
    exact h buf (List.mem_cons_of_mem _ hbuf)

lemma editAll_cons (op : Op) (ops : List Op) (sections : MetadataMap × Tags String) :
    editAll (op :: ops) sections = editAll ops (editAll [op] sections) := by
  cases op <;> rfl

lemma chunks_cons (op : Op) (ops : List Op) : chunks (op :: ops) = chunks [op] ++ chunks ops := by
  cases op <;> simp [chunks]

lemma accepted_cons (op : Op) (ops : List Op) (r : OpResult) (results : List OpResult) :
    accepted (op :: ops) (r :: results) = accepted [op] [r] ++ accepted ops results := by
  cases op <;> cases r <;> simp [accepted]

variable {ops : List Op} {draft draft₁ draft' : Draft} {results : List OpResult} {r : OpResult}

/-- The number of bytes that a write returns says which bytes it has taken. -/
lemma take_toNat_ofNat (buf : List UInt8) {m : ℕ} (hm : m ≤ maxFileLength) :
    buf.take (UInt64.ofNat m).toNat = buf.take m := by
  unfold maxFileLength at hm
  rw [UInt64.toNat_ofNat', Nat.mod_eq_of_lt (by omega)]

/-- A write appends what it has taken to a draft that accepts raw writes, or loses a part of it. -/
lemma Op.Effect.write_accepted {buf : List UInt8}
    (h : (Op.write buf).Effect NoFaults draft r draft₁) (hraw : draft.allowRawWrites = true) :
    (∃ n, r = .ok n ∧ ((draft.flavor = .tokio → buf.length ≤ maxBufSize) →
          buf.take n.toNat = buf) ∧
        (draft₁ = draft.append (buf.take n.toNat) ∨
          draft.flavor = .tokio ∧ ∃ k, draft₁ = draft.lose (buf.take n.toNat) k fileTooLarge)) ∨
      ∃ e, r = .error e ∧ (draft₁ = draft ∧ e = .io fileTooLarge ∨ Reports draft r draft₁) := by
  rcases h.write_cases with ⟨hblocking, hwrite⟩ | ⟨htokio, hwrite⟩
  · obtain ⟨hclosed, _, _⟩ | ⟨_, ⟨m, _, hmax, hall, rfl, rfl⟩ | ⟨e, hio, rfl, rfl⟩⟩ := hwrite
    · rw [hraw] at hclosed
      cases hclosed
    · obtain rfl := hall.resolve_right not_exists_noFaults
      have htake := take_toNat_ofNat buf hmax
      rw [List.take_length] at htake ⊢
      exact .inl ⟨_, rfl, fun _ => htake, .inl (by rw [htake])⟩
    · -- only a file that would grow too large makes a write fail
      obtain rfl := hio.resolve_left not_exists_noFaults
      exact .inr ⟨_, rfl, .inl ⟨rfl, rfl⟩⟩
  · obtain hreports | ⟨_, rfl, hstored⟩ := hwrite
    · obtain ⟨e, _, hr, _⟩ := id hreports
      exact .inr ⟨_, hr, .inr hreports⟩
    have hle : (buf.take maxBufSize).length ≤ maxFileLength :=
      Nat.le_trans (List.length_take_le _ _) (by decide)
    have htake : buf.take (UInt64.ofNat (buf.take maxBufSize).length).toNat =
        buf.take maxBufSize := by
      rw [take_toNat_ofNat buf hle, List.length_take, List.take_eq_take_iff]
      omega
    refine .inl ⟨_, rfl, fun hshort => htake.trans (List.take_of_length_le (hshort htokio)), ?_⟩
    rw [htake]
    obtain rfl | ⟨e, k, hio, rfl⟩ := hstored
    · exact .inl rfl
    · obtain rfl := hio.resolve_left not_exists_noFaults
      exact .inr ⟨htokio, k, rfl⟩

/-- What a plain operation does to a draft that accepts raw writes: what it has accepted stands
behind the content, or the file keeps the error of a write that it has taken. -/
structure Op.PlainStep (op : Op) (draft : Draft) (r : OpResult) (draft₁ : Draft) : Prop where
  allowRawWrites : draft₁.allowRawWrites = true
  compression : draft₁.compression = draft.compression
  sections : (draft₁.metadata, draft₁.tags) = editAll [op] (draft.metadata, draft.tags)
  content : draft₁.content = draft.content ++ accepted [op] [r] ∨
    (draft₁.flavor = .tokio ∧ draft₁.deferred = some fileTooLarge) ∧
      draft₁.content.length ≤ draft.content.length + (accepted [op] [r]).length
  accepted_eq : r ≠ .error (.io fileTooLarge) → (draft.flavor = .tokio → WithinBuffer [op]) →
    accepted [op] [r] = chunks [op]

lemma Op.Effect.plain {op : Op} (h : op.Effect NoFaults draft r draft₁) (hplain : op.IsPlain)
    (hraw : draft.allowRawWrites = true) (hnot : ¬ Reports draft r draft₁) :
    op.PlainStep draft r draft₁ := by
  cases op with
  | write buf =>
      obtain ⟨n, rfl, hall, hstored⟩ | ⟨e, rfl, ⟨rfl, rfl⟩ | hreport⟩ := h.write_accepted hraw
      · have htaken : accepted [.write buf] [.ok n] = buf.take n.toNat := List.append_nil _
        have hwhole : (draft.flavor = .tokio → WithinBuffer [.write buf]) →
            accepted [.write buf] [.ok n] = chunks [.write buf] := by
          intro hwithin
          rw [htaken, hall fun htokio => hwithin htokio _ List.mem_cons_self]
          exact (List.append_nil _).symm
        obtain rfl | ⟨htokio, k, rfl⟩ := hstored
        · refine ⟨hraw, rfl, rfl, .inl ?_, fun _ => hwhole⟩
          rw [htaken, Draft.append_content]
        · refine ⟨hraw, rfl, rfl, .inr ⟨⟨htokio, rfl⟩, ?_⟩, fun _ => hwhole⟩
          have hle := List.length_take_le' k (buf.take n.toNat)
          rw [htaken, Draft.lose_content, List.length_append]
          omega
      · exact ⟨hraw, rfl, rfl, .inl (List.append_nil _).symm, fun hr => absurd rfl hr⟩
      · exact absurd hreport hnot
  | flush =>
      obtain rfl := h.flush_cases.resolve_right fun hreport => hnot hreport.2
      have hnone : accepted [.flush] [r] = [] := by cases r <;> rfl
      refine ⟨hraw, rfl, rfl, .inl ?_, fun _ _ => hnone⟩
      rw [hnone, List.append_nil]
  | edit f =>
      obtain ⟨rfl, rfl⟩ := h
      exact ⟨hraw, rfl, rfl, .inl (List.append_nil _).symm, fun _ _ => rfl⟩
  | encode feeds finished => exact hplain.elim

/-- What plain operations do to a draft that accepts raw writes. -/
lemma Effects.plain (h : Effects NoFaults ops draft results draft')
    (hplain : ∀ op ∈ ops, op.IsPlain) (hraw : draft.allowRawWrites = true)
    (hkeeps : draft.Keeps NoFaults) (hwritten : draft.flavor = .tokio → NoneTooLarge results) :
    draft'.compression = draft.compression ∧
      (draft'.metadata, draft'.tags) = editAll ops (draft.metadata, draft.tags) ∧
      draft'.content.length ≤ draft.content.length + (accepted ops results).length ∧
      ((draft'.flavor = .tokio → draft'.deferred = none) →
        draft'.content = draft.content ++ accepted ops results) ∧
      (NoneTooLarge results → (draft.flavor = .tokio → WithinBuffer ops) →
        accepted ops results = chunks ops) := by
  induction ops generalizing draft results with
  | nil =>
      obtain ⟨rfl, rfl⟩ := h
      simp [editAll, accepted, chunks]
  | cons op ops ih =>
      obtain ⟨r, rs, draft₁, rfl, hop, hrest⟩ := h
      have hflavor := hop.settings_eq.1
      have hlarge : ∀ {rs}, NoneTooLarge (r :: rs) → NoneTooLarge rs := fun h r' hr' =>
        h r' (List.mem_cons_of_mem _ hr')
      have hunreported : Unreported NoFaults draft.flavor [r] :=
        NoneTooLarge.unreported fun htokio r' hr' =>
          hwritten htokio r' (List.mem_singleton.mp hr' ▸ List.mem_cons_self)
      have hstep := hop.plain (hplain op List.mem_cons_self) hraw fun hreports =>
        hreports.not_unreported hkeeps hunreported
      obtain ⟨hcompression, hsections, hlength, hcontent, haccepted⟩ :=
        ih hrest (fun op hmem => hplain op (List.mem_cons_of_mem _ hmem)) hstep.allowRawWrites
          (hop.keeps hkeeps hunreported) fun htokio => hlarge (hwritten (hflavor ▸ htokio))
      rw [editAll_cons, accepted_cons, chunks_cons]
      refine ⟨hcompression.trans hstep.compression, hstep.sections ▸ hsections, ?_, ?_, ?_⟩
      · rw [List.length_append]
        obtain hbehind | ⟨_, hle⟩ := hstep.content
        · rw [hbehind, List.length_append] at hlength
          omega
        · omega
      · intro hflushed
        obtain hbehind | ⟨⟨htokio, hdeferred⟩, _⟩ := hstep.content
        · rw [hcontent hflushed, hbehind, List.append_assoc]
        · -- the error would have come out by the end
          rcases hrest.pending hdeferred with hlast | hmem
          · cases (hflushed (hrest.settings_eq.1.trans htokio)).symm.trans hlast
          · exact absurd rfl (hwritten (hflavor ▸ htokio) _ (List.mem_cons_of_mem _ hmem))
      · intro hnone hwithin
        rw [hstep.accepted_eq (hnone r List.mem_cons_self) fun htokio => (hwithin htokio).cons.1,
          haccepted (hlarge hnone) fun htokio => (hwithin (hflavor ▸ htokio)).cons.2]

/-- What is written to an uncompressed writer, and edited along the way, is what a handle opened on
the published file returns: the final metadata, the final tags and the chunks in order. A write that
the tokio writer has taken may still fail, if the file becomes too large. -/
theorem written_object_opens {flavor : Flavor} {path : Path} {options : CreateOptions}
    {ops : List Op} {ending : Ending} {outcome : Outcome} {object : TuxObject} {w w' : World}
    (hnone : options.compression = .none) (hplain : ∀ op ∈ ops, op.IsPlain)
    (hrun : Ends (FsStep NoFaults) (life flavor path options ops ending).run w (.ok outcome) w')
    (hobject : outcome.2 = .ok (some object))
    (hwritten : flavor = .tokio → NoneTooLarge outcome.1) :
    (∃ i, w'.dir path = some i ∧ Fallible.Delivers (FsStep NoFaults) (TuxObject.open path)
      (fun opened w₁ => Undisturbed w' w₁ ∧
        (w₁.data i).length =
          opened.header.contentStart.toNat + opened.header.contentLength.toNat ∧
        ∀ w₂, Undisturbed w₁ w₂ → Shows w₂ opened
          { compression := .none
            metadata := (editAll ops (options.metadata, options.tags)).1
            tags := (editAll ops (options.metadata, options.tags)).2
            content := accepted ops outcome.1 }) w') ∧
      (NoneTooLarge outcome.1 → (flavor = .tokio → WithinBuffer ops) →
        accepted ops outcome.1 = chunks ops) := by
  obtain ⟨draft, layout, heffects, _, hdraft, hpublished⟩ :=
    life_publishes hrun hobject (NoneTooLarge.unreported hwritten)
  have hraw : (Draft.new flavor options).allowRawWrites = true :=
    CompressionTypes.isNone_iff.mpr hnone
  obtain ⟨hcompression, hsections, _, hcontent, haccepted⟩ :=
    heffects.plain hplain hraw (Draft.keeps_new flavor options) hwritten
  refine ⟨⟨object.file, hpublished.entry, ?_⟩, haccepted⟩
  have hrecord : (⟨draft.compression, draft.metadata, draft.tags, draft.content⟩ : Record) =
      { compression := .none
        metadata := (editAll ops (options.metadata, options.tags)).1
        tags := (editAll ops (options.metadata, options.tags)).2
        content := accepted ops outcome.1 } := by
    rw [Record.mk.injEq]
    exact ⟨hcompression.trans hnone, congrArg Prod.fst hsections, congrArg Prod.snd hsections,
      (hcontent hdraft.flushed).trans (List.nil_append _)⟩
  have hstored := hpublished.handleOf.stored
  rw [hrecord] at hstored
  apply Fallible.Safe.mono (Fallible.Safe.delivers (openAs_safe hpublished.entry hstored) ?_) ?_
    (fun _ _ h => h)
  · rintro e w₁ ⟨_, hfault⟩
    exact not_isFault_noFaults hfault
  · rintro opened w₁ ⟨_, _, hhandle, hsame⟩
    obtain ⟨layout', metadata, tags, himage, _, _, hheader⟩ := hhandle.stored
    refine ⟨hsame, ?_, fun w₂ hsame' => (hhandle.of_undisturbed hsame').shows rfl⟩
    rw [hheader, himage.contentLength_toNat]
    exact himage.length_eq

end

attribute [local instance] fullPlatform pairCodecs

/-- Two chunks, and an edit between them that outgrows the prefix. -/
theorem written_object_opens_edited :
    ∃ outcome w', Ends (FsStep NoFaults) (life .blocking World.somePath
      { CreateOptions.default with layout := .packed }
      [.write [1, 2], .edit fun s => (s.1, s.2.insert "k" (.bool true)), .write [3]] .finish).run
      World.empty (.ok outcome) w' ∧
      ∃ i, w'.dir World.somePath = some i ∧ Fallible.Delivers (FsStep NoFaults)
        (TuxObject.open World.somePath) (fun opened w₁ => Undisturbed w' w₁ ∧
          (w₁.data i).length =
            opened.header.contentStart.toNat + opened.header.contentLength.toNat ∧
          ∀ w₂, Undisturbed w₁ w₂ → Shows w₂ opened
            ⟨.none, Tags.new, Tags.new.insert "k" (.bool true), [1, 2, 3]⟩) w' := by
  obtain ⟨⟨results, _ | _ | object⟩, w, hresults, hrun⟩ := exec_ends_map (fsStep_perform NoFaults)
    (p := (life .blocking World.somePath { CreateOptions.default with layout := .packed }
      [.write [1, 2], .edit fun s => (s.1, s.2.insert "k" (.bool true)), .write [3]] .finish).run)
    (s := World.empty) (f := fun outcome => (outcome.1, outcome.2.toOption.join.isSome))
    (b := ([.ok 2, .ok 0, .ok 1], true)) (by decide +kernel)
  · cases hresults
  · cases hresults
  · obtain rfl : results = [.ok 2, .ok 0, .ok 1] := congrArg Prod.fst hresults
    have hplain : ∀ op ∈ [Op.write [1, 2], .edit fun s => (s.1, s.2.insert "k" (.bool true)),
        .write [3]], op.IsPlain := by
      simp [Op.IsPlain]
    exact ⟨_, _, hrun, (written_object_opens rfl hplain hrun rfl fun htokio => by cases htokio).1⟩

end TuxEncoding
