import TuxEncoding.Fs.AsyncIo

/-!
# At most one relayout

`finish` rewrites the object when the sections have outgrown the prefix, and then finishes the
replacement: a recursion without a measure.

* `HasRoom`: the sections of a writer fit in front of its content. A new writer has room, whatever
  its options, since the layout was computed for its sections, and writing content does not change
  that.
* `ObjectWriter.finishOnce` is one turn of the recursion, on any continuation.
  `finish_relayouts_once` says that the second turn never asks for a third, whatever the environment
  answers, so that `finish` is the one solution of the recursion.
-/

namespace TuxEncoding

open Interaction Program

set_option linter.unusedSectionVars false

section

variable [Platform]

/-! ## The blocking writer -/

namespace ObjectWriter

/-- `repartition` accepts the sections of the writer. -/
def HasRoom (self : ObjectWriter) : Prop :=
  ∃ layout, LayoutOptions.checkedRepartition self.layout.contentStart (size self.metadata)
    (size self.tags) self.layoutOptions.alignment = .ok (some layout)

/-- One turn of `finish`, which leaves the `finish` of the replacement to `next`. -/
def finishOnce (flavor : Flavor) (next : ObjectWriter → Fs TuxObject) (self : ObjectWriter) :
    Fs TuxObject :=
  match LayoutOptions.checkedRepartition self.layout.contentStart (size self.metadata)
      (size self.tags) self.layoutOptions.alignment with
  | .error panic => consume drop (throw panic) self
  | .ok (some layout) => consume drop (finishInPlace flavor layout) self
  | .ok none => consume drop (finishByRewriting flavor next) self

/-- A new writer has room for its sections. -/
lemma createAs_hasRoom (flavor : Flavor) (path : Path) (options : CreateOptions) :
    Fallible.Yields HasRoom (createAs flavor path options) := by
  unfold createAs
  refine Fallible.Safe.bind (Fallible.Safe.ofExcept ?_)
  cases ensureSupported options.compression with
  | error e => trivial
  | ok _ =>
      dsimp only
      by_cases hflavor : flavor = .tokio ∧ ¬ options.compression.isNone
      · rw [if_pos hflavor]
        exact Fallible.Safe.bind (Fallible.Safe.throw trivial)
      rw [if_neg hflavor]
      refine Fallible.Safe.bind (Fallible.Safe.ofExcept ?_)
      cases hlayout : options.layout.checkedCompute (size options.metadata) (size options.tags) with
      | error e => trivial
      | ok layout =>
          refine Fallible.Safe.bind (Program.Safe.of_any ?_ _)
          rintro (_ | ⟨file, temp⟩)
          · trivial
          refine Fallible.Safe.bind (Fallible.Safe.mono (Method.Keeps.holding
            (I := HasRoom) (Method.Keeps.lift _) ?_) ?_ ?_)
          · exact LayoutOptions.checkedRepartition_of_checkedCompute hlayout
          · exact fun p _ hroom => Fallible.Safe.pure hroom
          · exact fun _ _ h => h

/-! ### Writing content leaves the sections alone -/

lemma write_hasRoom (buf : List UInt8) : Method.Keeps HasRoom (write buf) := by
  refine Method.Keeps.bind Method.Keeps.get fun self => ?_
  refine Method.Keeps.ite (Method.Keeps.bind (Method.Keeps.throw _) fun _ => ?_) ?_ <;>
    exact Method.Keeps.bind (Method.Keeps.lift _) fun _ =>
      Method.Keeps.bind (Method.Keeps.update fun _ h => h) fun _ => Method.Keeps.pure _

lemma bufferedWrite_hasRoom (buf : List UInt8) : Method.Keeps HasRoom (bufferedWrite buf) := by
  refine Method.Keeps.bind Method.Keeps.get fun self => ?_
  cases self.deferred with
  | some err =>
      exact Method.Keeps.bind (Method.Keeps.update fun _ h => h) fun _ => Method.Keeps.throw _
  | none =>
      exact Method.Keeps.bind (Method.Keeps.liftProgram _) fun _ =>
        Method.Keeps.bind (Method.Keeps.update fun _ h => h) fun _ =>
          Method.Keeps.bind (Method.Keeps.update fun _ h => h) fun _ => Method.Keeps.pure _

lemma bufferedFlush_hasRoom : Method.Keeps HasRoom bufferedFlush := by
  refine Method.Keeps.bind Method.Keeps.get fun self => ?_
  cases self.deferred with
  | some err =>
      exact Method.Keeps.bind (Method.Keeps.update fun _ h => h) fun _ => Method.Keeps.throw _
  | none => exact Method.Keeps.lift _

lemma writeAs_hasRoom (flavor : Flavor) (buf : List UInt8) :
    Method.Keeps HasRoom (writeAs flavor buf) := by
  cases flavor with
  | blocking => exact write_hasRoom buf
  | tokio => exact bufferedWrite_hasRoom buf

lemma writeAllLoop_hasRoom (flavor : Flavor) (n : ℕ) (buf : List UInt8) :
    Method.Keeps HasRoom (writeAllLoop flavor n buf) := by
  induction n generalizing buf with
  | zero => exact Method.Keeps.pure _
  | succ n ih =>
      refine Method.Keeps.ite (Method.Keeps.pure _) ?_
      refine Method.Keeps.bind (writeAs_hasRoom flavor buf) fun written => ?_
      exact Method.Keeps.ite (Method.Keeps.bind (Method.Keeps.throw _) fun _ => ih _) (ih _)

lemma copyLoop_hasRoom (flavor : Flavor) (n : ℕ) (reader : ContentReader) :
    Method.Keeps HasRoom (copyLoop flavor n reader) := by
  induction n generalizing reader with
  | zero => exact Method.Keeps.pure _
  | succ n ih =>
      refine Method.Keeps.bind (Method.Keeps.lift _) fun p => ?_
      refine Method.Keeps.ite (Method.Keeps.pure _) ?_
      exact Method.Keeps.bind (writeAllLoop_hasRoom flavor _ _) fun _ => ih _

lemma copyAs_hasRoom (flavor : Flavor) (source : ContentReader) :
    Method.Keeps HasRoom (copyAs flavor source) := by
  refine Method.Keeps.bind (copyLoop_hasRoom flavor _ _) fun _ => ?_
  cases flavor with
  | blocking => exact Method.Keeps.pure _
  | tokio => exact bufferedFlush_hasRoom

lemma copyContent_hasRoom (flavor : Flavor) (source : ObjectWriter) :
    Method.Keeps HasRoom (copyContent flavor source) := by
  refine Method.Keeps.bind (Method.Keeps.lift _) fun _ => ?_
  exact Method.Keeps.bind (Method.Keeps.lift _) fun _ =>
    Method.Keeps.adapt (copyAs_hasRoom _ _)

/-- Rewriting asks for the `finish` of a writer with room only. -/
lemma finishByRewriting_congr {flavor : Flavor} {next next' : ObjectWriter → Fs TuxObject}
    (h : ∀ self, HasRoom self → next self = next' self) (self : ObjectWriter) :
    (finishByRewriting flavor next).on self = (finishByRewriting flavor next').on self := by
  unfold finishByRewriting
  refine Method.on_bind_congr (Q := fun _ _ => True) ?_ ?_
  · exact Method.Safe.get trivial
  intro _ _ _
  refine Method.on_bind_congr (Q := fun _ _ => True) ?_ ?_
  · exact Method.Safe.modify trivial
  intro _ _ _
  refine Method.on_bind_congr (Q := fun replacement _ => HasRoom replacement) ?_ ?_
  · exact Method.Safe.lift (createAs_hasRoom _ _ _)
  intro replacement _ hroom
  refine Method.on_bind_congr (Q := fun p _ => HasRoom p.2) ?_ ?_
  · exact Method.Safe.lift (Method.Keeps.holding (copyContent_hasRoom _ _) hroom)
  rintro ⟨_, replacement'⟩ _ hroom'
  dsimp only
  rw [h replacement' hroom']

lemma finishOnce_congr {flavor : Flavor} {next next' : ObjectWriter → Fs TuxObject}
    (h : ∀ self, HasRoom self → next self = next' self) (self : ObjectWriter) :
    finishOnce flavor next self = finishOnce flavor next' self := by
  unfold finishOnce consume
  rw [finishByRewriting_congr h]

lemma finishAs_eq (flavor : Flavor) (next : ObjectWriter → Fs TuxObject) (self : ObjectWriter) :
    finishAs flavor self = finishOnce flavor (finishOnce flavor next) self := by
  have hfast : ∀ self, HasRoom self →
      finishWithin flavor 0 self = finishOnce flavor next self := by
    rintro self ⟨layout, hrep⟩
    unfold finishWithin finishOnce
    rw [hrep]
  rw [← finishOnce_congr hfast]
  unfold finishAs finishWithin finishOnce
  rcases LayoutOptions.checkedRepartition self.layout.contentStart (size self.metadata)
    (size self.tags) self.layoutOptions.alignment with panic | _ | layout
  · rfl
  · rfl
  · rfl

end ObjectWriter

/-! ## The tokio writer -/

namespace AsyncObjectWriter

/-- `repartition` accepts the sections of the writer. -/
def HasRoom (self : AsyncObjectWriter) : Prop :=
  ∃ layout, LayoutOptions.checkedRepartition self.layout.contentStart (size self.metadata)
    (size self.tags) self.layoutOptions.alignment = .ok (some layout)

/-- One turn of `finish`, which leaves the `finish` of the replacement to `next`. -/
def finishOnce (next : AsyncObjectWriter → Fs AsyncTuxObject) (self : AsyncObjectWriter) :
    Fs AsyncTuxObject :=
  match LayoutOptions.checkedRepartition self.layout.contentStart (size self.metadata)
      (size self.tags) self.layoutOptions.alignment with
  | .error panic => consume drop (throw panic) self
  | .ok (some layout) => consume drop (finishInPlace layout) self
  | .ok none => consume drop (finishByRewriting next) self

/-- A new writer has room for its sections. -/
lemma create_hasRoom (path : Path) (options : CreateOptions) :
    Fallible.Yields HasRoom (create path options) := by
  unfold create
  refine Fallible.Safe.bind (Fallible.Safe.ofExcept ?_)
  cases ensureSupported options.compression with
  | error e => trivial
  | ok _ =>
      dsimp only
      by_cases hnone : ¬ options.compression.isNone
      · rw [if_pos hnone]
        exact Fallible.Safe.bind (Fallible.Safe.throw trivial)
      rw [if_neg hnone]
      refine Fallible.Safe.bind (Fallible.Safe.ofExcept ?_)
      cases hlayout : options.layout.checkedCompute (size options.metadata) (size options.tags) with
      | error e => trivial
      | ok layout =>
          refine Fallible.Safe.bind (Program.Safe.of_any ?_ _)
          rintro (_ | ⟨file, temp⟩)
          · trivial
          refine Fallible.Safe.bind (Fallible.Safe.mono (Method.Keeps.holding
            (I := HasRoom) (Method.Keeps.lift _) ?_) ?_ ?_)
          · exact LayoutOptions.checkedRepartition_of_checkedCompute hlayout
          · exact fun p _ hroom => Fallible.Safe.pure hroom
          · exact fun _ _ h => h

/-! ### Writing content leaves the sections alone -/

lemma write_hasRoom (buf : List UInt8) : Method.Keeps HasRoom (write buf) := by
  refine Method.Keeps.bind Method.Keeps.get fun self => ?_
  cases self.deferred with
  | some err =>
      exact Method.Keeps.bind (Method.Keeps.update fun _ h => h) fun _ => Method.Keeps.throw _
  | none =>
      exact Method.Keeps.bind (Method.Keeps.liftProgram _) fun _ =>
        Method.Keeps.bind (Method.Keeps.update fun _ h => h) fun _ =>
          Method.Keeps.bind (Method.Keeps.update fun _ h => h) fun _ => Method.Keeps.pure _

lemma flush_hasRoom : Method.Keeps HasRoom flush := by
  refine Method.Keeps.bind Method.Keeps.get fun self => ?_
  cases self.deferred with
  | some err =>
      exact Method.Keeps.bind (Method.Keeps.update fun _ h => h) fun _ => Method.Keeps.throw _
  | none => exact Method.Keeps.lift _

lemma writeAllLoop_hasRoom (n : ℕ) (buf : List UInt8) :
    Method.Keeps HasRoom (writeAllLoop n buf) := by
  induction n generalizing buf with
  | zero => exact Method.Keeps.pure _
  | succ n ih =>
      refine Method.Keeps.ite (Method.Keeps.pure _)
        (Method.Keeps.bind (write_hasRoom buf) fun written => ?_)
      exact Method.Keeps.ite (Method.Keeps.bind (Method.Keeps.throw _) fun _ => ih _) (ih _)

lemma copyLoop_hasRoom (n : ℕ) (reader : ContentSection) :
    Method.Keeps HasRoom (copyLoop n reader) := by
  induction n generalizing reader with
  | zero => exact Method.Keeps.pure _
  | succ n ih =>
      refine Method.Keeps.bind (Method.Keeps.lift _) fun p => ?_
      refine Method.Keeps.ite (Method.Keeps.pure _) ?_
      exact Method.Keeps.bind (writeAllLoop_hasRoom _ _) fun _ => ih _

lemma copyContent_hasRoom (source : AsyncObjectWriter) :
    Method.Keeps HasRoom (copyContent source) := by
  refine Method.Keeps.bind (Method.Keeps.lift _) fun _ => ?_
  refine Method.Keeps.bind (Method.Keeps.lift _) fun _ => Method.Keeps.adapt ?_
  exact Method.Keeps.bind (copyLoop_hasRoom _ _) fun _ => flush_hasRoom

/-- Rewriting asks for the `finish` of a writer with room only. -/
lemma finishByRewriting_congr {next next' : AsyncObjectWriter → Fs AsyncTuxObject}
    (h : ∀ self, HasRoom self → next self = next' self) (self : AsyncObjectWriter) :
    (finishByRewriting next).on self = (finishByRewriting next').on self := by
  have hreplacement : (finishReplacement next).on self = (finishReplacement next').on self := by
    unfold finishReplacement
    refine Method.on_bind_congr (Q := fun _ _ => True) ?_ ?_
    · exact Method.Safe.get trivial
    intro _ _ _
    refine Method.on_bind_congr (Q := fun _ _ => True) ?_ ?_
    · exact Method.Safe.modify trivial
    intro _ _ _
    refine Method.on_bind_congr (Q := fun replacement _ => HasRoom replacement) ?_ ?_
    · exact Method.Safe.lift (create_hasRoom _ _)
    intro replacement _ hroom
    refine Method.on_bind_congr (Q := fun p _ => HasRoom p.2) ?_ ?_
    · exact Method.Safe.lift (Method.Keeps.holding (copyContent_hasRoom _) hroom)
    rintro ⟨_, replacement'⟩ _ hroom'
    dsimp only
    rw [h replacement' hroom']
  unfold finishByRewriting
  rw [Method.on_bind, Method.on_bind, hreplacement]

lemma finishOnce_congr {next next' : AsyncObjectWriter → Fs AsyncTuxObject}
    (h : ∀ self, HasRoom self → next self = next' self) (self : AsyncObjectWriter) :
    finishOnce next self = finishOnce next' self := by
  unfold finishOnce consume
  rw [finishByRewriting_congr h]

lemma finish_eq (next : AsyncObjectWriter → Fs AsyncTuxObject) (self : AsyncObjectWriter) :
    finish self = finishOnce (finishOnce next) self := by
  have hfast : ∀ self, HasRoom self → finishWithin 0 self = finishOnce next self := by
    rintro self ⟨layout, hrep⟩
    unfold finishWithin finishOnce
    rw [hrep]
  rw [← finishOnce_congr hfast]
  unfold finish finishWithin finishOnce
  rcases LayoutOptions.checkedRepartition self.layout.contentStart (size self.metadata)
    (size self.tags) self.layoutOptions.alignment with panic | _ | layout
  · rfl
  · rfl
  · rfl

end AsyncObjectWriter

/-! ## The recursion -/

/-- `finish` solves the recursion with the given turn, which needs no third turn. -/
structure EndsAtSecondTurn {σ α : Type} (turn : (σ → Fs α) → σ → Fs α) (finish : σ → Fs α) :
    Prop where
  solves : ∀ self, finish self = turn finish self
  second_ends : ∀ next self, finish self = turn (turn next) self

lemma EndsAtSecondTurn.of_second {σ α : Type} {turn : (σ → Fs α) → σ → Fs α} {finish : σ → Fs α}
    (h : ∀ next self, finish self = turn (turn next) self) : EndsAtSecondTurn turn finish := by
  refine ⟨fun self => ?_, h⟩
  have hfinish : finish = turn (turn finish) := funext (h finish)
  calc finish self = turn (turn (turn finish)) self := h (turn finish) self
    _ = turn finish self := by rw [← hfinish]

/-- Whatever the environment answers, the replacement of a rewrite has room once it has taken over
the content, so that `finish` ends with the second turn at the latest: in both writers, from every
state and for all options. -/
theorem finish_relayouts_once :
    (∀ flavor, EndsAtSecondTurn (ObjectWriter.finishOnce flavor) (ObjectWriter.finishAs flavor) ∧
      (∀ path options, Fallible.Yields ObjectWriter.HasRoom
        (ObjectWriter.createAs flavor path options)) ∧
      ∀ source, Method.Keeps ObjectWriter.HasRoom (ObjectWriter.copyContent flavor source)) ∧
    EndsAtSecondTurn AsyncObjectWriter.finishOnce AsyncObjectWriter.finish ∧
      (∀ path options, Fallible.Yields AsyncObjectWriter.HasRoom
        (AsyncObjectWriter.create path options)) ∧
      ∀ source, Method.Keeps AsyncObjectWriter.HasRoom (AsyncObjectWriter.copyContent source) :=
  ⟨fun flavor => ⟨.of_second (ObjectWriter.finishAs_eq flavor),
      ObjectWriter.createAs_hasRoom flavor, ObjectWriter.copyContent_hasRoom flavor⟩,
    .of_second AsyncObjectWriter.finish_eq, AsyncObjectWriter.create_hasRoom,
    AsyncObjectWriter.copyContent_hasRoom⟩

end

end TuxEncoding
