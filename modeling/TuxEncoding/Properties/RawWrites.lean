import TuxEncoding.Fs.Session

/-!
# The guard of compressed objects

A writer for a compressed object is to accept content through its encoder only. The guard is a flag
that `content_encoder` opens and nothing closes again.

* `raw_writes_rejected_iff`: in a life of such a writer in which no raw write comes after a call of
  `content_encoder`, every raw write is rejected and every byte of the published content comes from
  a codec, whatever fails. Where nothing fails this is the only such kind of life.
* `raw_write_after_encoder`: a raw write after a finished session goes into the file as it is.
-/

namespace TuxEncoding

open Interaction Program

set_option linter.unusedSectionVars false

section

variable [Platform] [Codecs]

/-- No raw write comes after a call of `content_encoder`. -/
def NoRawWriteAfterEncoder : List Op → Prop
  | [] => True
  | .encode _ _ :: ops => ∀ buf, .write buf ∉ ops
  | _ :: ops => NoRawWriteAfterEncoder ops

/-- Every raw write is answered with the error of the guard. -/
def RawWritesRejected (ops : List Op) (results : List OpResult) : Prop :=
  ∀ p ∈ ops.zip results, ∀ buf, p.1 = .write buf →
    p.2 = .error (.io ObjectWriter.rawWriteRejected)

/-- Every byte of the content of a published object comes from a codec. -/
def ContentProduced (w : World) (outcome : Outcome) : Prop :=
  ∀ object, outcome.2 = .ok (some object) →
    Produced ((w.data object.file).drop object.header.contentStart.toNat)

variable {mayFail : FsCall → Prop} {ops : List Op} {draft draft' : Draft} {results : List OpResult}

/-- Once raw writes are open they stay open. -/
lemma Op.Effect.open {op : Op} {r : OpResult} (h : op.Effect mayFail draft r draft')
    (hblocking : draft.flavor = .blocking) (hopen : draft.allowRawWrites = true) :
    draft'.allowRawWrites = true := by
  cases op with
  | write buf =>
      obtain ⟨hclosed, _, _⟩ | ⟨_, ⟨m, _, _, _, _, rfl⟩ | ⟨e, _, _, rfl⟩⟩ :=
        h.write_blocking hblocking
      · rw [hopen] at hclosed
        cases hclosed
      · exact hopen
      · exact hopen
  | flush => exact h.flush_blocking hblocking ▸ hopen
  | edit f =>
      obtain ⟨_, rfl⟩ := h
      exact hopen
  | encode feeds finished => exact h.encode.2.2.2.2.2.1

/-- A raw write that the guard lets through is not answered with the error of the guard, when
nothing fails. -/
lemma Op.Effect.not_rejected {buf : List UInt8} {r : OpResult} (hcalm : ¬ ∃ c, mayFail c)
    (h : (Op.write buf).Effect mayFail draft r draft') (hblocking : draft.flavor = .blocking)
    (hopen : draft.allowRawWrites = true) : r ≠ .error (.io ObjectWriter.rawWriteRejected) := by
  obtain ⟨hclosed, _, _⟩ | ⟨_, ⟨m, _, _, _, rfl, _⟩ | ⟨e, hio, rfl, _⟩⟩ :=
    h.write_blocking hblocking
  · rw [hopen] at hclosed
    cases hclosed
  · exact nofun
  · rcases hio with hfail | rfl
    · exact absurd hfail hcalm
    · decide

/-- While raw writes are open, one raw write is enough for not all of them to be rejected. -/
lemma Effects.not_rejected (hcalm : ¬ ∃ c, mayFail c)
    (h : Effects mayFail ops draft results draft') (hblocking : draft.flavor = .blocking)
    (hopen : draft.allowRawWrites = true) {buf : List UInt8} (hmem : Op.write buf ∈ ops) :
    ¬ RawWritesRejected ops results := by
  induction ops generalizing draft results with
  | nil => cases hmem
  | cons op ops ih =>
      obtain ⟨r, rs, draft₁, rfl, hop, hrest⟩ := h
      intro hrejected
      rcases List.mem_cons.mp hmem with rfl | hmem
      · exact hop.not_rejected hcalm hblocking hopen (hrejected _ List.mem_cons_self buf rfl)
      · exact ih hrest (hop.settings_eq.1.trans hblocking) (hop.open hblocking hopen) hmem
          fun p hp => hrejected p (List.mem_cons_of_mem _ hp)

/-- Without raw writes, all that operations add to the content of a compressed object comes from a
codec. -/
lemma Effects.produced (h : Effects mayFail ops draft results draft')
    (hblocking : draft.flavor = .blocking) (hcompressed : draft.compression ≠ .none)
    (hno : ∀ buf, Op.write buf ∉ ops) :
    ∃ bs, Produced bs ∧ draft'.content = draft.content ++ bs := by
  induction ops generalizing draft results with
  | nil =>
      obtain ⟨_, rfl⟩ := h
      exact ⟨[], .nil, (List.append_nil _).symm⟩
  | cons op ops ih =>
      obtain ⟨r, rs, draft₁, rfl, hop, hrest⟩ := h
      have hno' : ∀ buf, Op.write buf ∉ ops := fun buf hmem => hno buf (List.mem_cons_of_mem _ hmem)
      have hblocking' := hop.settings_eq.1.trans hblocking
      cases op with
      | write buf => exact absurd List.mem_cons_self (hno buf)
      | flush =>
          obtain rfl := hop.flush_blocking hblocking
          exact ih hrest hblocking hcompressed hno'
      | edit f =>
          obtain ⟨_, rfl⟩ := hop
          obtain ⟨bs, hbs, hcontent⟩ := ih hrest hblocking hcompressed hno'
          exact ⟨bs, hbs, hcontent⟩
      | encode feeds finished =>
          obtain ⟨_, _, _, hcompression, _, _, bs, hbs, hcontent⟩ := hop.encode
          obtain ⟨bs', hbs', hcontent'⟩ := ih hrest hblocking' (hcompression ▸ hcompressed) hno'
          refine ⟨bs ++ bs', (hbs hcompressed).concat hbs', ?_⟩
          rw [hcontent', hcontent, List.append_assoc]

/-- As long as the guard is closed, raw writes that come before every encoder are rejected and all
content comes from a codec. -/
lemma Effects.rejected (h : Effects mayFail ops draft results draft')
    (hblocking : draft.flavor = .blocking) (hcompressed : draft.compression ≠ .none)
    (hclosed : draft.allowRawWrites = false) (hno : NoRawWriteAfterEncoder ops) :
    RawWritesRejected ops results ∧ ∃ bs, Produced bs ∧ draft'.content = draft.content ++ bs := by
  induction ops generalizing draft results with
  | nil =>
      obtain ⟨rfl, rfl⟩ := h
      exact ⟨by simp [RawWritesRejected], [], .nil, (List.append_nil _).symm⟩
  | cons op ops ih =>
      obtain ⟨r, rs, draft₁, rfl, hop, hrest⟩ := h
      have hcons : ∀ {r : OpResult}, (∀ buf, op = .write buf →
          r = .error (.io ObjectWriter.rawWriteRejected)) → RawWritesRejected ops rs →
          RawWritesRejected (op :: ops) (r :: rs) := by
        intro r hr hrs p hp
        rcases List.mem_cons.mp hp with rfl | hp
        · exact hr
        · exact hrs p hp
      cases op with
      | write buf =>
          obtain ⟨_, rfl, rfl⟩ | ⟨hopen, _⟩ := hop.write_blocking hblocking
          · obtain ⟨hrejected, hproduced⟩ := ih hrest hblocking hcompressed hclosed hno
            exact ⟨hcons (fun _ _ => rfl) hrejected, hproduced⟩
          · rw [hclosed] at hopen
            cases hopen
      | flush =>
          obtain rfl := hop.flush_blocking hblocking
          obtain ⟨hrejected, hproduced⟩ := ih hrest hblocking hcompressed hclosed hno
          exact ⟨hcons nofun hrejected, hproduced⟩
      | edit f =>
          obtain ⟨_, rfl⟩ := hop
          obtain ⟨hrejected, hproduced⟩ := ih hrest hblocking hcompressed hclosed hno
          exact ⟨hcons nofun hrejected, hproduced⟩
      | encode feeds finished =>
          -- from here on there is no raw write any more
          refine ⟨fun p hp buf hwrite => ?_, ?_⟩
          · rcases List.mem_cons.mp hp with rfl | hp
            · cases hwrite
            · exact absurd (hwrite ▸ List.of_mem_zip hp).1 (hno buf)
          · obtain ⟨hflavor, _, _, hcompression, _, _, bs, hbs, hcontent⟩ := hop.encode
            obtain ⟨bs', hbs', hcontent'⟩ := hrest.produced (hflavor.trans hblocking)
              (hcompression ▸ hcompressed) hno
            refine ⟨bs ++ bs', (hbs hcompressed).concat hbs', ?_⟩
            rw [hcontent', hcontent, List.append_assoc]

/-- A raw write after a call of `content_encoder` is not rejected. -/
lemma Effects.noRawWrite (hcalm : ¬ ∃ c, mayFail c) (h : Effects mayFail ops draft results draft')
    (hblocking : draft.flavor = .blocking) (hcompressed : draft.compression ≠ .none)
    (hrejected : RawWritesRejected ops results) :
    NoRawWriteAfterEncoder ops := by
  induction ops generalizing draft results with
  | nil => trivial
  | cons op ops ih =>
      obtain ⟨r, rs, draft₁, rfl, hop, hrest⟩ := h
      have hrs : RawWritesRejected ops rs := fun p hp => hrejected p (List.mem_cons_of_mem _ hp)
      cases op with
      | write buf =>
          obtain ⟨_, rfl, rfl⟩ | ⟨_, ⟨m, _, _, _, _, rfl⟩ | ⟨e, _, _, rfl⟩⟩ :=
            hop.write_blocking hblocking <;> exact ih hrest hblocking hcompressed hrs
      | flush =>
          obtain rfl := hop.flush_blocking hblocking
          exact ih hrest hblocking hcompressed hrs
      | edit f =>
          obtain ⟨_, rfl⟩ := hop
          exact ih hrest hblocking hcompressed hrs
      | encode feeds finished =>
          obtain ⟨hflavor, _, _, _, _, hopen, _⟩ := hop.encode
          exact fun buf hmem =>
            hrest.not_rejected hcalm (hflavor.trans hblocking) hopen hmem hrs

/-- A writer for a compressed object rejects every raw write, and what it publishes comes from a
codec byte for byte, when no raw write comes after a call of `content_encoder`, whichever calls
fail; and where none can fail, only then. -/
theorem raw_writes_rejected_iff {mayFail : FsCall → Prop} {flavor : Flavor} {path : Path}
    {options : CreateOptions} {ops : List Op} {ending : Ending} {outcome : Outcome} {w w' : World}
    (hcompressed : options.compression ≠ .none)
    (hrun : Ends (FsStep mayFail) (life flavor path options ops ending).run w (.ok outcome) w') :
    (NoRawWriteAfterEncoder ops →
      RawWritesRejected ops outcome.1 ∧ ContentProduced w' outcome) ∧
    ((¬ ∃ c, mayFail c) →
      ((RawWritesRejected ops outcome.1 ∧ ContentProduced w' outcome) ↔
        NoRawWriteAfterEncoder ops)) := by
  obtain ⟨draft, heffects, hpublished⟩ := life_ends hrun
  have hblocking : (Draft.new flavor options).flavor = .blocking := by
    cases flavor with
    | blocking => rfl
    | tokio => exact absurd (life_tokio hrun) hcompressed
  have hclosed : (Draft.new flavor options).allowRawWrites = false :=
    Bool.eq_false_iff.mpr fun h => hcompressed (CompressionTypes.isNone_iff.mp h)
  have henough : NoRawWriteAfterEncoder ops →
      RawWritesRejected ops outcome.1 ∧ ContentProduced w' outcome := by
    intro hno
    obtain ⟨hrejected, bs, hbs, hcontent⟩ := heffects.rejected hblocking hcompressed hclosed hno
    refine ⟨hrejected, fun object hobject => ?_⟩
    rw [(hpublished object hobject).content_eq, hcontent]
    exact hbs
  exact ⟨henough, fun hcalm =>
    ⟨fun h => heffects.noRawWrite hcalm hblocking hcompressed h.1, henough⟩⟩

end

attribute [local instance] fullPlatform pairCodecs

/-- The writes of a session fail, and the raw write before it is rejected. -/
theorem raw_writes_rejected_iff_once :
    ∃ outcome w', Ends (FsStep fun c => (c matches .write _ _) = true) (life .blocking
      World.somePath { CreateOptions.default with compression := .zstd 3 }
      [.write [7], .encode [.write [1, 1, 2]] true] .finish).run World.empty (.ok outcome) w' ∧
      RawWritesRejected [.write [7], .encode [.write [1, 1, 2]] true] outcome.1 ∧
      ContentProduced w' outcome := by
  obtain ⟨outcome, _, hrun⟩ := exec_ends_ok
    (fsStep_performExcept fun c => c matches .write _ _) (p := (life .blocking
    World.somePath { CreateOptions.default with compression := .zstd 3 }
    [.write [7], .encode [.write [1, 1, 2]] true] .finish).run) (s := World.empty)
    (by decide +kernel)
  refine ⟨outcome, _, hrun, (raw_writes_rejected_iff (by decide) hrun).1 ?_⟩
  rintro buf ⟨⟩

/-- After one finished session the guard is open: a raw write goes into the file as it is. -/
theorem raw_write_after_encoder :
    ¬ ∀ (flavor : Flavor) (path : Path) (options : CreateOptions) (ops : List Op) (ending : Ending)
      (outcome : Outcome) (w w' : World), options.compression ≠ .none →
      Ends (FsStep NoFaults) (life flavor path options ops ending).run w (.ok outcome) w' →
      RawWritesRejected ops outcome.1 ∧ ContentProduced w' outcome := by
  intro h
  obtain ⟨outcome, _, hrun⟩ := exec_ends_ok (fsStep_perform NoFaults) (p := (life .blocking
    World.somePath { CreateOptions.default with compression := .zstd 3 }
    [.encode [.write [1, 1, 2]] true, .write [7]] .finish).run) (s := World.empty)
    (by decide +kernel)
  have hrejected := (h _ _ _ _ _ _ _ _ (by decide) hrun).1
  obtain ⟨draft, heffects, _⟩ := life_ends hrun
  exact heffects.noRawWrite not_exists_noFaults rfl (by decide) hrejected [7] List.mem_cons_self

end TuxEncoding
