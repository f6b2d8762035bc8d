import TuxEncoding.Properties.FailedUpdate

/-!
# A handle is a record

What a caller does with a handle of an uncompressed object, and the abstract record that it acts on.

* `Action` is one such step and `Action.Effect` what it does to the record: a successful update
  replaces the components it names, a failed one nothing.
* `action_safe`: the code does exactly that, and the handle and the path stay in step.
* `handle_refines_record`: so does every run of actions on an object that a writer has published.
-/

namespace TuxEncoding

open Interaction Program

set_option linter.unusedSectionVars false

section

variable [Platform] [Codecs]

/-! ## Actions -/

/-- What a caller does with a handle. -/
inductive Action
  | update (update : Update)
  | setSectionsInPlace (metadata : MetadataMap) (tags : Tags String)
  | readTags
  | findTag (key : String)
  | tagCount
  | readContentToVec
  /-- the handle is dropped and its path opened again -/
  | reopen (writable : Bool)

/-- What an action returns. -/
inductive Answer
  | done
  | tags (tags : Tags String)
  | value (value : Option ValueType)
  | count (n : UInt16)
  | content (bs : List UInt8)

/-- The result of an action. -/
abbrev ActionResult := Except ObjectFileError Answer

/-- Carry out an action. -/
def Action.run : Action → FsMethod TuxObject Answer
  | .update u => do
      u.run
      return .done
  | .setSectionsInPlace metadata tags => do
      TuxObject.setSectionsInPlace metadata tags
      return .done
  | .readTags => do
      let self ← get
      let tags ← self.readTags
      return .tags tags
  | .findTag key => do
      let self ← get
      let value ← self.findTag key
      return .value value
  | .tagCount => do
      let self ← get
      let n ← self.tagCount
      return .count n
  | .readContentToVec => do
      let self ← get
      let bs ← self.readContentToVec
      return .content bs
  | .reopen writable => do
      let self ← get
      let opened ← (if writable then TuxObject.openWritable self.path
        else TuxObject.open self.path : Fs TuxObject)
      set opened
      return .done

/-- The components that an update names are replaced. -/
def Update.Applies : Update → Record → Record → Prop
  | .setMetadata metadata, record, record' => record' = { record with metadata := metadata }
  | .setTags tags, record, record' => record' = { record with tags := tags }
  | .setSections metadata tags, record, record' =>
      record' = { record with metadata := metadata, tags := tags }
  | .modifyMetadata modify, record, record' => ∃ metadata, metadata.Equal record.metadata ∧
      record' = { record with metadata := modify metadata }

/-- What an action does to a record. -/
def Action.Effect : Action → Record → ActionResult → Record → Prop
  | .update u, record, r, record' =>
      (r = .ok .done ∧ u.Applies record record') ∨ (∃ e, r = .error e) ∧ record' = record
  | .setSectionsInPlace metadata tags, record, r, record' =>
      (r = .ok .done ∧ record' = { record with metadata := metadata, tags := tags }) ∨
        (∃ e, r = .error e) ∧ record' = record
  | .readTags, record, r, record' =>
      (∃ tags, r = .ok (.tags tags) ∧ tags.Equal record.tags) ∧ record' = record
  | .findTag key, record, r, record' =>
      r = .ok (.value (record.tags.get key)) ∧ record' = record
  | .tagCount, record, r, record' =>
      (∃ n, r = .ok (.count n) ∧ n.toNat = record.tags.numberOfTags) ∧ record' = record
  | .readContentToVec, record, r, record' => r = .ok (.content record.content) ∧ record' = record
  | .reopen _, record, r, record' => r = .ok .done ∧ record' = record

/-! ## One action -/

/-- The handle is open on the file at its path, which holds the record. -/
structure Current (w : World) (path : Path) (object : TuxObject) (record : Record) : Prop where
  path_eq : object.path = path
  handle : ∃ i, w.dir path = some i ∧ HandleOf w object i record
  uncompressed : record.compression = .none

variable {w w' : World} {path : Path} {object : TuxObject} {record record' : Record} {i : ℕ}

/-- How the maps of a record are arranged does not matter. -/
lemma HandleOf.congr (h : HandleOf w object i record) (hcompression : record'.compression =
    record.compression) (hmetadata : record.metadata.Equal record'.metadata)
    (htags : record.tags.Equal record'.tags) (hcontent : record'.content = record.content) :
    HandleOf w object i record' := by
  obtain ⟨layout, metadata, tags, himage, hm, ht, hheader⟩ := h.stored
  refine ⟨h.file, ⟨layout, metadata, tags, ?_, hm.trans hmetadata, ht.trans htags, ?_⟩,
    h.metadata_equal.trans hmetadata⟩
  · rwa [hcompression, hcontent]
  · rwa [hcompression, hcontent]

lemma Current.of_undisturbed (h : Current w path object record) (hsame : Undisturbed w w') :
    Current w' path object record := by
  obtain ⟨i, hdir, hhandle⟩ := h.handle
  exact ⟨h.path_eq, ⟨i, (congrFun hsame.dir_eq _).trans hdir, hhandle.of_undisturbed hsame⟩,
    h.uncompressed⟩

/-- A read does not change the record. -/
lemma read_action_safe {α : Type} {m : Fs α} {f : α → Answer} {Q : α → World → Prop}
    (h : Current w path object record) (hread : Fallible.Safe (FsStep NoFaults) Reads m
      (fun a w' => Q a w' ∧ Undisturbed w w')
      (fun e w' => Undisturbed w w' ∧ IsFault NoFaults e) w) :
    Method.Safe (FsStep NoFaults) (fun _ _ => True)
      (do let a ← (liftM m : FsMethod TuxObject α); return f a) object
      (fun answer object' w' => (∃ a, answer = f a ∧ Q a w') ∧ Current w' path object' record)
      (fun _ _ _ => False) w := by
  refine Method.Safe.bind (Method.Safe.lift (Fallible.Safe.mono
    (Fallible.Safe.allow (fun _ _ _ => trivial) hread) ?_ ?_))
  · rintro a w' ⟨ha, hsame⟩
    exact Method.Safe.pure ⟨⟨a, rfl, ha⟩, h.of_undisturbed hsame⟩
  · exact fun _ _ hfail => not_isFault_noFaults hfail.2

/-- A new object that holds the components of an update holds the updated record. -/
lemma Updated.current {update : Update} {tags : Tags String} {new : TuxObject}
    (hhandle : HandleOf w object i record) (hpath : object.path = path)
    (hnone : record.compression = .none)
    (htags : update.keepsTags = true → object.storedTags (w.data i) = .ok tags)
    (h : Updated w object (object.updated (w.data i) (update.sections object.metadata tags).1
      (update.sections object.metadata tags).2) new w') :
    ∃ record', update.Applies record record' ∧ Current w' path new record' := by
  obtain ⟨stored, hstored, hequal⟩ := hhandle.storedTags_eq
  have hkept : update.keepsTags = true → tags.Equal record.tags := by
    intro hkeeps
    obtain rfl := Except.ok.inj (hstored.symm.trans (htags hkeeps))
    exact hequal
  have hcurrent : ∀ record', record'.compression = record.compression →
      record'.content = record.content →
      (update.sections object.metadata tags).1.Equal record'.metadata →
      (update.sections object.metadata tags).2.Equal record'.tags →
      Current w' path new record' := by
    intro record' hcompression hcontent hm ht
    refine ⟨h.path_eq.trans hpath, ⟨new.file, hpath ▸ h.entry, h.handleOf.congr ?_ hm ht ?_⟩,
      hcompression.trans hnone⟩
    · exact hcompression.trans hhandle.compressionType_eq.symm
    · exact hcontent.trans hhandle.storedContent_eq.symm
  cases update with
  | setMetadata metadata =>
      exact ⟨_, rfl, hcurrent _ rfl rfl (Tags.Equal.refl _) (hkept rfl)⟩
  | setTags tags => exact ⟨_, rfl, hcurrent _ rfl rfl hhandle.metadata_equal (Tags.Equal.refl _)⟩
  | setSections metadata tags =>
      exact ⟨_, rfl, hcurrent _ rfl rfl (Tags.Equal.refl _) (Tags.Equal.refl _)⟩
  | modifyMetadata modify =>
      exact ⟨_, ⟨object.metadata, hhandle.metadata_equal, rfl⟩,
        hcurrent _ rfl rfl (Tags.Equal.refl _) (hkept rfl)⟩

/-- An update replaces what it names, or changes nothing. -/
lemma update_action_safe (h : Current w path object record) (update : Update) :
    Method.Safe (FsStep NoFaults) (fun _ _ => True) update.run object
      (fun _ object' w' => ∃ record', update.Applies record record' ∧
        Current w' path object' record')
      (fun _ object' w' => Current w' path object' record) w := by
  obtain ⟨i, hdir, hhandle⟩ := h.handle
  apply Method.Safe.mono (Update.run_safe hhandle.file update)
  · rintro _ new w' ⟨tags, htags, hupdated⟩
    exact hupdated.current hhandle h.path_eq h.uncompressed htags
  · rintro e object' w' ⟨rfl, hspared, _⟩
    refine ⟨h.path_eq, ⟨i, ?_, hhandle.of_above hspared.above (Nat.le_refl _)⟩, h.uncompressed⟩
    rcases hspared.entry_eq with hentry | ⟨fd, hfail⟩
    · rw [h.path_eq] at hentry
      exact hentry.trans hdir
    · exact hfail.elim

/-- An update in place replaces both sections, or changes nothing. -/
lemma inPlace_action_safe (h : Current w path object record) (metadata : MetadataMap)
    (tags : Tags String) :
    Method.Safe (FsStep NoFaults) (fun _ _ => True) (TuxObject.setSectionsInPlace metadata tags)
      object
      (fun _ object' w' => Current w' path object'
        { record with metadata := metadata, tags := tags })
      (fun _ object' w' => Current w' path object' record) w := by
  obtain ⟨i, hdir, hhandle⟩ := h.handle
  apply Method.Safe.mono (setSectionsInPlace_safe hhandle)
  · rintro _ object' w' ⟨hpath, hdir', hhandle'⟩
    exact ⟨hpath.trans h.path_eq, ⟨i, (congrFun hdir' _).trans hdir, hhandle'⟩, h.uncompressed⟩
  · rintro e object' w' ⟨rfl, hsame | ⟨c, hc⟩⟩
    · exact h.of_undisturbed hsame
    · exact hc.elim

/-- Opening the path again gives a handle of the same record. -/
lemma reopen_action_safe (h : Current w path object record) (writable : Bool) :
    Fallible.Safe (FsStep NoFaults) (fun _ _ => True)
      (if writable then TuxObject.openWritable object.path else TuxObject.open object.path)
      (fun object' w' => Current w' path object' record) (fun _ _ => False) w := by
  obtain ⟨i, hdir, hhandle⟩ := h.handle
  rw [h.path_eq]
  have hopen : ∀ writable, Fallible.Safe (FsStep NoFaults) (fun _ _ => True)
      (attemptIo (sys (.openFile path writable)) >>= fun fd => TuxObject.fromFile fd path writable)
      (fun object' w' => Current w' path object' record) (fun _ _ => False) w := by
    intro writable
    apply Fallible.Safe.mono (openAs_safe hdir hhandle.stored)
    · rintro object' w' ⟨hpath, _, hhandle', hsame⟩
      exact ⟨hpath, ⟨i, (congrFun hsame.dir_eq _).trans hdir, hhandle'⟩, h.uncompressed⟩
    · exact fun _ _ hfail => not_isFault_noFaults hfail.2
  cases writable with
  | false => exact hopen false
  | true => exact hopen true

/-- An action does to the record what its effect says, whatever it returns. -/
lemma action_safe (h : Current w path object record) (action : Action) :
    Method.Safe (FsStep NoFaults) (fun _ _ => True) action.run object
      (fun answer object' w' => ∃ record', action.Effect record (.ok answer) record' ∧
        Current w' path object' record')
      (fun e object' w' => ∃ record', action.Effect record (.error e) record' ∧
        Current w' path object' record') w := by
  obtain ⟨i, hdir, hhandle⟩ := h.handle
  cases action with
  | update update =>
      refine Method.Safe.bind (Method.Safe.mono (update_action_safe h update) ?_ ?_)
      · rintro _ object' w' ⟨record', happlies, hcurrent⟩
        exact Method.Safe.pure ⟨record', .inl ⟨rfl, happlies⟩, hcurrent⟩
      · exact fun e object' w' hcurrent => ⟨record, .inr ⟨⟨e, rfl⟩, rfl⟩, hcurrent⟩
  | setSectionsInPlace metadata tags =>
      refine Method.Safe.bind (Method.Safe.mono (inPlace_action_safe h metadata tags) ?_ ?_)
      · exact fun _ object' w' hcurrent => Method.Safe.pure ⟨_, .inl ⟨rfl, rfl⟩, hcurrent⟩
      · exact fun e object' w' hcurrent => ⟨record, .inr ⟨⟨e, rfl⟩, rfl⟩, hcurrent⟩
  | readTags =>
      refine Method.Safe.bind (Method.Safe.get (Method.Safe.mono
        (read_action_safe (f := Answer.tags) h hhandle.readTags_safe) ?_ (fun _ _ _ => False.elim)))
      rintro answer object' w' ⟨⟨tags, rfl, htags⟩, hcurrent⟩
      exact ⟨record, ⟨⟨tags, rfl, htags⟩, rfl⟩, hcurrent⟩
  | findTag key =>
      refine Method.Safe.bind (Method.Safe.get (Method.Safe.mono (read_action_safe
        (f := Answer.value) h (hhandle.findTag_safe key)) ?_ (fun _ _ _ => False.elim)))
      rintro answer object' w' ⟨⟨value, rfl, rfl⟩, hcurrent⟩
      exact ⟨record, ⟨rfl, rfl⟩, hcurrent⟩
  | tagCount =>
      refine Method.Safe.bind (Method.Safe.get (Method.Safe.mono
        (read_action_safe (f := Answer.count) h hhandle.tagCount_safe) ?_
        (fun _ _ _ => False.elim)))
      rintro answer object' w' ⟨⟨n, rfl, hn⟩, hcurrent⟩
      exact ⟨record, ⟨⟨n, rfl, hn⟩, rfl⟩, hcurrent⟩
  | readContentToVec =>
      refine Method.Safe.bind (Method.Safe.get (Method.Safe.mono (read_action_safe
        (f := Answer.content) h (hhandle.readContentToVec_safe h.uncompressed)) ?_
        (fun _ _ _ => False.elim)))
      rintro answer object' w' ⟨⟨bs, rfl, rfl⟩, hcurrent⟩
      exact ⟨record, ⟨rfl, rfl⟩, hcurrent⟩
  | reopen writable =>
      refine Method.Safe.bind (Method.Safe.get (Method.Safe.bind (Method.Safe.lift
        (Fallible.Safe.mono (reopen_action_safe h writable) ?_ (fun _ _ => False.elim)))))
      intro object' w' hcurrent
      exact Method.Safe.bind (Method.Safe.set (Method.Safe.pure ⟨record, ⟨rfl, rfl⟩, hcurrent⟩))

/-! ## Runs of actions -/

/-- The runs of actions on a handle, each with its result; whatever an action returns, the caller
may go on with the handle. -/
inductive ActionRun (object : TuxObject) (w : World) :
    List (Action × ActionResult) → TuxObject → World → Prop
  | nil : ActionRun object w [] object w
  | snoc {log : List (Action × ActionResult)} {object₁ object₂ : TuxObject} {w₁ w₂ : World}
      {action : Action} {r : ActionResult} (h : ActionRun object w log object₁ w₁)
      (hstep : Ends (FsStep NoFaults) (action.run.on object₁) w₁ (r, object₂) w₂) :
      ActionRun object w (log ++ [(action, r)]) object₂ w₂

/-- What such a run does to a record. -/
inductive Record.Trace (record : Record) : List (Action × ActionResult) → Record → Prop
  | nil : Record.Trace record [] record
  | snoc {log : List (Action × ActionResult)} {record₁ record₂ : Record} {action : Action}
      {r : ActionResult} (h : Record.Trace record log record₁)
      (hstep : action.Effect record₁ r record₂) :
      Record.Trace record (log ++ [(action, r)]) record₂

lemma Record.Trace.of_nil {log : List (Action × ActionResult)} (h : record.Trace log record')
    (hlog : log = []) : record' = record := by
  cases h with
  | nil => rfl
  | snoc h hstep => exact absurd hlog (List.append_ne_nil_of_right_ne_nil _ (List.cons_ne_nil _ _))

/-- The trace of one action. -/
lemma Record.Trace.of_singleton {log : List (Action × ActionResult)} {action : Action}
    {r : ActionResult} (h : record.Trace log record') (hlog : log = [(action, r)]) :
    action.Effect record r record' := by
  cases h with
  | nil => cases hlog
  | snoc h hstep =>
      obtain ⟨hnil, hlast⟩ := List.append_inj' (hlog.trans (List.nil_append _).symm) rfl
      cases hlast
      rw [h.of_nil hnil] at hstep
      exact hstep

lemma Current.shows (h : Current w path object record) : Shows w object record := by
  obtain ⟨i, _, hhandle⟩ := h.handle
  exact hhandle.shows h.uncompressed

/-- A fresh handle shows the record as well. -/
lemma Current.opens (h : Current w path object record) :
    Fallible.Delivers (FsStep NoFaults) (TuxObject.open path)
      (fun fresh w' => Shows w' fresh record) w := by
  obtain ⟨i, hdir, hhandle⟩ := h.handle
  apply Fallible.Safe.mono (openAs_safe hdir hhandle.stored)
  · rintro fresh w' ⟨_, _, hfresh, _⟩
    exact hfresh.shows h.uncompressed
  · exact fun _ _ hfail => not_isFault_noFaults hfail.2

/-- A run of actions acts on the record as its trace says. -/
lemma ActionRun.current {log : List (Action × ActionResult)} {object' : TuxObject}
    (hrun : ActionRun object w log object' w') (h : Current w path object record) :
    ∃ record', record.Trace log record' ∧ Current w' path object' record' := by
  induction hrun with
  | nil => exact ⟨record, .nil, h⟩
  | @snoc log object₁ object₂ w₁ w₂ action r _ hstep ih =>
      obtain ⟨record₁, htrace, hcurrent⟩ := ih
      have hend := (action_safe hcurrent action).ends hstep
      cases r with
      | ok answer =>
          obtain ⟨record₂, heffect, hcurrent₂⟩ := hend
          exact ⟨record₂, .snoc htrace heffect, hcurrent₂⟩
      | error e =>
          obtain ⟨record₂, heffect, hcurrent₂⟩ := hend
          exact ⟨record₂, .snoc htrace heffect, hcurrent₂⟩

/-! ## What a writer has published -/

variable {mayFail : FsCall → Prop}

/-- The record that a draft is published as. -/
@[simps] def Draft.asRecord (draft : Draft) : Record where
  compression := draft.compression
  metadata := draft.metadata
  tags := draft.tags
  content := draft.content

/-- A writable handle of an uncompressed object that a writer has published is a record of three
components: each successful update replaces those it names, a failed one nothing, and after every
run of actions the handle and a fresh one return what the record holds. Of a tokio writer that has
reported an error bytes may be missing. -/
theorem handle_refines_record {flavor : Flavor} {options : CreateOptions} {ops : List Op}
    {ending : Ending} {outcome : Outcome} {published handle : TuxObject} {w₀ w₁ w₂ : World}
    (hnone : options.compression = .none)
    (hrun : Ends (FsStep mayFail) (life flavor path options ops ending).run w₀ (.ok outcome) w₁)
    (hpublished : outcome.2 = .ok (some published))
    (hwritten : flavor = .tokio → ∀ e, .error (.io e) ∉ outcome.1)
    (hopen : Ends (FsStep NoFaults) (TuxObject.openWritable path).run w₁ (.ok handle) w₂) :
    ∃ draft, Effects mayFail ops (Draft.new flavor options) outcome.1 draft ∧
      Shows w₂ handle draft.asRecord ∧
      ∀ log handle' w₃, ActionRun handle w₂ log handle' w₃ →
        ∃ record, draft.asRecord.Trace log record ∧ Shows w₃ handle' record ∧
          Fallible.Delivers (FsStep NoFaults) (TuxObject.open path)
            (fun fresh w₄ => Shows w₄ fresh record) w₃ := by
  obtain ⟨draft, layout, heffects, _, _, himage⟩ :=
    life_publishes hrun hpublished fun htokio e _ => hwritten htokio e
  have hstored := himage.handleOf.stored
  have hentry : w₁.dir path = some published.file := himage.entry
  obtain ⟨hpath, _, hhandle, hsame⟩ := (openAs_safe hentry hstored).ends hopen
  have hcurrent : Current w₂ path handle draft.asRecord := by
    refine ⟨hpath, ⟨published.file, ?_, hhandle⟩, heffects.settings_eq.2.trans hnone⟩
    exact (congrFun hsame.dir_eq _).trans hentry
  refine ⟨draft, heffects, hcurrent.shows, ?_⟩
  intro log handle' w₃ hactions
  obtain ⟨record, htrace, hcurrent'⟩ := hactions.current hcurrent
  exact ⟨record, htrace, hcurrent'.shows, hcurrent'.opens⟩

end

attribute [local instance] fullPlatform pairCodecs

/-- Three bytes, published and opened again. -/
def reopened : Except ObjectFileError TuxObject × World :=
  exec perform (TuxObject.openWritable World.somePath).run threeBytes.2

def reopenedHandle : TuxObject := reopened.1.toOption.get (by decide +kernel)

lemma reopened_ends : Ends (FsStep NoFaults) (TuxObject.openWritable World.somePath).run
    threeBytes.2 (.ok reopenedHandle) reopened.2 := by
  obtain ⟨handle, hresult, hends⟩ := exec_ends_ok (fsStep_perform NoFaults)
    (p := (TuxObject.openWritable World.somePath).run) (s := threeBytes.2) (by decide +kernel)
  have hhandle : reopened.1 = .ok handle := hresult
  have heq : reopenedHandle = handle := by
    simp only [reopenedHandle, hhandle, Except.toOption, Option.get_some]
  rw [heq]
  exact hends

/-- An update of the tags returns `Ok`, and the tag is there. -/
theorem handle_refines_record_update :
    ∃ handle w₂ handle' w₃ record,
      ActionRun handle w₂ [(.update (.setTags (Tags.new.insert "k" (.bool true))), .ok .done)]
        handle' w₃ ∧
      Shows w₃ handle' record ∧ record.tags.get "k" = some (.bool true) := by
  obtain ⟨outcome, houtcome, hrun⟩ := exec_ends_ok (fsStep_perform NoFaults)
    (p := (life .blocking World.somePath .default [.write [1, 2, 3]] .finish).run)
    (s := World.empty) (by decide +kernel)
  obtain ⟨answer, handle', _, haction⟩ := Method.exec_ends_ok (fsStep_perform NoFaults)
    (Action.update (.setTags (Tags.new.insert "k" (.bool true)))).run reopenedHandle reopened.2
    (by decide +kernel)
  have hpublished : publishedBy (.ok outcome) = some threeBytesHandle := by
    rw [← houtcome]
    exact (Option.some_get _).symm
  obtain ⟨draft, _, _, hall⟩ := handle_refines_record rfl hrun
    (publishedBy_ok_iff.mp hpublished) (fun htokio => by cases htokio) reopened_ends
  obtain ⟨record, htrace, hshows, _⟩ := hall _ _ _ (.snoc .nil haction)
  obtain ⟨hdone, hrecord⟩ | ⟨⟨e, he⟩, _⟩ := htrace.of_singleton rfl
  · cases hdone
    refine ⟨_, _, handle', _, record, .snoc .nil haction, hshows, ?_⟩
    rw [hrecord]
    show (Tags.new.insert "k" (.bool true)).get "k" = _
    decide +kernel
  · cases he

end TuxEncoding
