import TuxEncoding.Properties.Refinement

/-!
# Updates through several handles

Handles that are open on the same object, whose `set_metadata` and `set_tags` are called in any
order, each call running to its end.

* `Setter` is such a call, and `applyAll` what the calls should come to on one object.
* `Calls` is a run of them, and `Views` what it keeps: each handle is open on a file of its own that
  holds what was set through this handle, and the path leads to the file of the last caller.
* `updates_kept_iff`: the object at the path has what was set last exactly when the last caller has
  set it, or an equal value.
* `update_lost`: a second handle undoes what the first one has set.
-/

namespace TuxEncoding

open Interaction Program

set_option linter.unusedSectionVars false

section

variable [Platform] [Codecs]

/-! ## Setters -/

/-- A call that replaces one of the two sections, to keep the other as it is. -/
inductive Setter
  | setMetadata (metadata : MetadataMap)
  | setTags (tags : Tags String)

namespace Setter

/-- The update that the call makes. -/
def update : Setter → Update
  | setMetadata metadata => .setMetadata metadata
  | setTags tags => .setTags tags

/-- What the call promises to do to an object. -/
def apply (record : Record) : Setter → Record
  | setMetadata metadata => { record with metadata := metadata }
  | setTags tags => { record with tags := tags }

lemma applies_iff (setter : Setter) {record record' : Record} :
    setter.update.Applies record record' ↔ record' = setter.apply record := by
  cases setter <;> rfl

/-- What the calls promise to do one after the other: the last one of each kind counts. -/
def applyAll (record : Record) (setters : List Setter) : Record := setters.foldl apply record

@[simp] lemma applyAll_nil (record : Record) : applyAll record [] = record := rfl

lemma applyAll_append (record : Record) (setters : List Setter) (setter : Setter) :
    applyAll record (setters ++ [setter]) = setter.apply (applyAll record setters) :=
  List.foldl_append

end Setter

/-! ## Stored records -/

/-- Two records with equal sections. -/
def Record.SameSections (a b : Record) : Prop :=
  a.metadata.Equal b.metadata ∧ a.tags.Equal b.tags

/-- The path leads to an object that holds the record. -/
def PathHolds (w : World) (path : Path) (record : Record) : Prop :=
  ∃ i header, w.dir path = some i ∧ record.StoredIn header (w.data i)

variable {w w' w₁ : World} {path : Path} {record record' : Record}

/-- A path determines the sections of the record that it leads to. -/
lemma PathHolds.sameSections (h : PathHolds w path record) (h' : PathHolds w path record') :
    record.SameSections record' := by
  obtain ⟨i, header, hdir, hstored⟩ := h
  obtain ⟨i', header', hdir', hstored'⟩ := h'
  obtain rfl := Option.some.inj (hdir.symm.trans hdir')
  obtain ⟨metadata, hread, hm⟩ := hstored.readPrefix_eq
  obtain ⟨metadata', hread', hm'⟩ := hstored'.readPrefix_eq
  obtain ⟨rfl, rfl⟩ := Prod.mk.inj (Except.ok.inj (hread.symm.trans hread'))
  -- any handle with this header finds the same tags
  let object : TuxObject := ⟨0, path, header, metadata, false⟩
  replace hstored : record.StoredIn object.header (w.data i) := hstored
  replace hstored' : record'.StoredIn object.header (w.data i) := hstored'
  obtain ⟨tags, htags, ht⟩ := hstored.storedTags_eq
  obtain ⟨tags', htags', ht'⟩ := hstored'.storedTags_eq
  obtain rfl := Except.ok.inj (htags.symm.trans htags')
  exact ⟨hm.symm.trans hm', ht.symm.trans ht'⟩

/-- A record with equal sections, and all else as it was, is held as well. -/
lemma PathHolds.congr (h : PathHolds w path record) (hsame : record.SameSections record')
    (hcompression : record'.compression = record.compression)
    (hcontent : record'.content = record.content) : PathHolds w path record' := by
  obtain ⟨i, header, hdir, layout, metadata, tags, himage, hm, ht, hheader⟩ := h
  refine ⟨i, header, hdir, layout, metadata, tags, ?_, hm.trans hsame.1, ht.trans hsame.2, ?_⟩
  · rwa [hcompression, hcontent]
  · rwa [hcompression, hcontent]

/-! ## Runs of calls -/

variable {ι : Type} [DecidableEq ι]

/-- The calls were made in this order through the handles, and each of them has returned `Ok`. -/
inductive Calls (mayFail : FsCall → Prop) (handles : ι → TuxObject) (w : World) :
    List (ι × Setter) → (ι → TuxObject) → World → Prop
  | none : Calls mayFail handles w [] handles w
  | next {calls : List (ι × Setter)} {handles₁ : ι → TuxObject} {w₁ w₂ : World} {new : TuxObject}
      (before : Calls mayFail handles w calls handles₁ w₁) (k : ι) (setter : Setter)
      (h : Ends (FsStep mayFail) (setter.update.run.on (handles₁ k)) w₁ (.ok (), new) w₂) :
      Calls mayFail handles w (calls ++ [(k, setter)]) (Function.update handles₁ k new) w₂

/-- The calls that were made through the handle `k`. -/
def through (k : ι) (calls : List (ι × Setter)) : List Setter :=
  (calls.filter fun c => c.1 = k).map Prod.snd

lemma through_append_self (k : ι) (calls : List (ι × Setter)) (setter : Setter) :
    through k (calls ++ [(k, setter)]) = through k calls ++ [setter] := by
  simp [through]

lemma through_append_of_ne {k j : ι} (h : j ≠ k) (calls : List (ι × Setter)) (setter : Setter) :
    through j (calls ++ [(k, setter)]) = through j calls := by
  simp [through, Ne.symm h]

/-- What the last caller has made of the object. -/
def lastView (record : Record) (calls : List (ι × Setter)) : Record :=
  match calls.getLast? with
  | none => record
  | some (k, _) => Setter.applyAll record (through k calls)

/-- Each handle is open on an object at the path, of which it knows what was set through it; another
handle may have taken its place at the path. -/
structure Views (w : World) (path : Path) (handles : ι → TuxObject) (views : ι → Record)
    (last : Record) : Prop where
  path_eq : ∀ k, (handles k).path = path
  uncompressed : ∀ k, (views k).compression = .none
  handleOf : ∀ k, ∃ i, HandleOf w (handles k) i (views k)
  entry : PathHolds w path last

/-- A call replaces the file at the path by what its handle makes of its own file, and leaves the
files of the other handles alone. -/
lemma Views.step {mayFail : FsCall → Prop} {handles : ι → TuxObject} {views : ι → Record}
    {last : Record} (h : Views w path handles views last) (k : ι) (setter : Setter)
    {new : TuxObject}
    (hrun : Ends (FsStep mayFail) (setter.update.run.on (handles k)) w (.ok (), new) w') :
    Views w' path (Function.update handles k new)
      (Function.update views k (setter.apply (views k))) (setter.apply (views k)) := by
  obtain ⟨i, hhandle⟩ := h.handleOf k
  obtain ⟨tags, htags, hupdated⟩ := (Update.run_safe hhandle.file setter.update).ends hrun
  obtain ⟨record', happlies, hcurrent⟩ :=
    hupdated.current hhandle (h.path_eq k) (h.uncompressed k) htags
  obtain rfl := setter.applies_iff.mp happlies
  obtain ⟨j, hdir, hnew⟩ := hcurrent.handle
  constructor
  · intro k'
    by_cases hk : k' = k
    · subst hk
      rw [Function.update_self]
      exact hcurrent.path_eq
    · rw [Function.update_of_ne hk]
      exact h.path_eq k'
  · intro k'
    by_cases hk : k' = k
    · subst hk
      rw [Function.update_self]
      exact hcurrent.uncompressed
    · rw [Function.update_of_ne hk]
      exact h.uncompressed k'
  · intro k'
    by_cases hk : k' = k
    · subst hk
      rw [Function.update_self, Function.update_self]
      exact ⟨j, hnew⟩
    · obtain ⟨i', hother⟩ := h.handleOf k'
      rw [Function.update_of_ne hk, Function.update_of_ne hk]
      exact ⟨i', hother.of_above hupdated.above (Nat.le_refl _)⟩
  · exact ⟨j, new.header, hdir, hnew.stored⟩

/-- After any run each handle has a view of its own, and the path the view of the last caller. -/
lemma Calls.views {mayFail : FsCall → Prop} {handles handles' : ι → TuxObject}
    {calls : List (ι × Setter)} (hrun : Calls mayFail handles w calls handles' w')
    (h : Views w path handles (fun _ => record) record) :
    Views w' path handles' (fun k => Setter.applyAll record (through k calls))
      (lastView record calls) := by
  induction hrun with
  | none => exact h
  | @next calls handles₁ w₁ w₂ new _ k setter hcall ih =>
      have hstep := ih.step k setter hcall
      have hlast : lastView record (calls ++ [(k, setter)]) =
          setter.apply (Setter.applyAll record (through k calls)) := by
        simp [lastView, through_append_self, Setter.applyAll_append]
      have hviews : (fun j => Setter.applyAll record (through j (calls ++ [(k, setter)]))) =
          Function.update (fun j => Setter.applyAll record (through j calls)) k
            (setter.apply (Setter.applyAll record (through k calls))) := by
        funext j
        by_cases hj : j = k
        · subst hj
          rw [Function.update_self, through_append_self, Setter.applyAll_append]
        · rw [Function.update_of_ne hj, through_append_of_ne hj]
      rw [hlast, hviews]
      exact hstep

/-- The handle of the last call has set the sections that were set last, or equal ones. -/
def LastCallerAgrees (record : Record) (calls : List (ι × Setter)) : Prop :=
  ∀ k setter, calls.getLast? = some (k, setter) →
    (Setter.applyAll record (through k calls)).SameSections
      (Setter.applyAll record (calls.map Prod.snd))

/-- Only the sections change. -/
lemma Setter.applyAll_rest (record : Record) (setters : List Setter) :
    (applyAll record setters).compression = record.compression ∧
      (applyAll record setters).content = record.content := by
  induction setters generalizing record with
  | nil => exact ⟨rfl, rfl⟩
  | cons setter setters ih =>
      have hfirst := ih (setter.apply record)
      cases setter with
      | setMetadata metadata => exact hfirst
      | setTags tags => exact hfirst

/-- The handles are open on the object at the path, which holds the record. -/
structure SharedBy (w : World) (path : Path) (record : Record) (handles : ι → TuxObject) :
    Prop where
  uncompressed : record.compression = .none
  path_eq : ∀ k, (handles k).path = path
  handleOf : ∀ k, ∃ i, w.dir path = some i ∧ HandleOf w (handles k) i record

lemma SharedBy.views [Nonempty ι] {handles : ι → TuxObject} (h : SharedBy w path record handles) :
    Views w path handles (fun _ => record) record where
  path_eq := h.path_eq
  uncompressed _ := h.uncompressed
  handleOf k := by
    obtain ⟨i, _, hhandle⟩ := h.handleOf k
    exact ⟨i, hhandle⟩
  entry := by
    obtain ⟨i, hdir, hhandle⟩ := h.handleOf (Classical.arbitrary ι)
    exact ⟨i, _, hdir, hhandle.stored⟩

/-- After any run of calls through the handles of an object, the object at the path carries the
sections that were set last exactly when the last caller has set them. -/
theorem updates_kept_iff [Nonempty ι] {mayFail : FsCall → Prop} {handles handles' : ι → TuxObject}
    {calls : List (ι × Setter)} (hshared : SharedBy w path record handles)
    (hrun : Calls mayFail handles w calls handles' w') :
    PathHolds w' path (Setter.applyAll record (calls.map Prod.snd)) ↔
      LastCallerAgrees record calls := by
  have hviews := (hrun.views hshared.views).entry
  unfold LastCallerAgrees
  rcases hlast : calls.getLast? with _ | ⟨k, setter⟩
  · obtain rfl := List.getLast?_eq_none_iff.mp hlast
    exact ⟨fun _ _ _ h => (nomatch h), fun _ => hviews⟩
  · have hview : lastView record calls = Setter.applyAll record (through k calls) := by
      rw [lastView, hlast]
    rw [hview] at hviews
    obtain ⟨hcompression, hcontent⟩ := Setter.applyAll_rest record (calls.map Prod.snd)
    obtain ⟨hcompression', hcontent'⟩ := Setter.applyAll_rest record (through k calls)
    constructor
    · intro hall k' setter' hk
      obtain ⟨rfl, rfl⟩ := Prod.mk.inj (Option.some.inj hk)
      exact hviews.sameSections hall
    · intro hagrees
      exact hviews.congr (hagrees k setter rfl) (hcompression.trans hcompression'.symm)
        (hcontent.trans hcontent'.symm)

end

attribute [local instance] fullPlatform pairCodecs

/-- What the object starts with. -/
def threeByteRecord : Record := ⟨.none, Tags.new, Tags.new, [7, 9, 11]⟩

/-- A file system with the object, which two handles are open on for writing. -/
def sharedWorld : World :=
  ((World.single (prefixBytes (headerOf .none ⟨64, 608⟩ 3) Tags.new Tags.new ⟨64, 608⟩ ++
    [7, 9, 11])).openAt World.somePath true 1 (Nat.le_refl 1)).openAt World.somePath true 2
    (Nat.le_refl 2)

/-- The two handles. -/
def twoHandles (k : Bool) : TuxObject :=
  ⟨if k then 1 else 2, World.somePath, headerOf .none ⟨64, 608⟩ 3, Tags.new, true⟩

lemma sharedBy_twoHandles : SharedBy sharedWorld World.somePath threeByteRecord twoHandles where
  uncompressed := rfl
  path_eq _ := rfl
  handleOf k := by
    refine ⟨0, rfl, ⟨0, ?_⟩, ⟨⟨64, 608⟩, Tags.new, Tags.new, ?_, Tags.Equal.refl _,
      Tags.Equal.refl _, rfl⟩, Tags.Equal.refl _⟩
    · cases k <;> rfl
    · exact ⟨Tags.fits_new, Tags.fits_new, ⟨by decide, by decide⟩, by decide, rfl⟩

/-- A call that no fault disturbs. -/
abbrev calledOn (setter : Setter) (object : TuxObject) (w : World) :
    (Except ObjectFileError Unit × TuxObject) × World :=
  exec perform (setter.update.run.on object) w

/-- A run goes on with such a call when it returns `Ok`. -/
lemma Calls.andThen {handles handles₁ : Bool → TuxObject} {w w₁ : World}
    {calls : List (Bool × Setter)} (h : Calls NoFaults handles w calls handles₁ w₁) (k : Bool)
    (setter : Setter) (hok : (calledOn setter (handles₁ k) w₁).1.1.isOk = true) :
    Calls NoFaults handles w (calls ++ [(k, setter)])
      (Function.update handles₁ k (calledOn setter (handles₁ k) w₁).1.2)
      (calledOn setter (handles₁ k) w₁).2 := by
  have hends := exec_ends (fsStep_perform NoFaults) (setter.update.run.on (handles₁ k)) w₁
  rcases hresult : (calledOn setter (handles₁ k) w₁).1 with ⟨e | ⟨⟩, new⟩
  · rw [hresult] at hok
    cases hok
  · rw [hresult] at hends
    exact h.next k setter hends

/-- A call that gives the object a tag. -/
def tagCall : Setter := .setTags (Tags.new.insert "k" (.bool true))

/-- A call that leaves it without metadata. -/
def metadataCall : Setter := .setMetadata Tags.new

/-- The first handle gives the object a tag, and either of the two sets its metadata. -/
lemma calls_twoHandles (k : Bool) : ∃ handles' w',
    Calls NoFaults twoHandles sharedWorld [(true, tagCall), (k, metadataCall)] handles' w' := by
  refine ⟨_, _, (Calls.none.andThen true tagCall ?_).andThen k metadataCall ?_⟩
  · decide +kernel
  · cases k
    · decide +kernel
    · decide +kernel

/-- One handle alone keeps its tag. -/
theorem updates_kept_iff_one_handle : ∃ handles' w',
    Calls NoFaults twoHandles sharedWorld [(true, tagCall), (true, metadataCall)] handles' w' ∧
    PathHolds w' World.somePath (Setter.applyAll threeByteRecord [tagCall, metadataCall]) := by
  obtain ⟨handles', w', hrun⟩ := calls_twoHandles true
  refine ⟨handles', w', hrun, (updates_kept_iff sharedBy_twoHandles hrun).mpr ?_⟩
  intro k setter hlast
  obtain ⟨rfl, rfl⟩ := Prod.mk.inj (Option.some.inj hlast)
  exact ⟨Tags.Equal.refl _, Tags.Equal.refl _⟩

/-- With two handles the second call publishes the tags that the second handle finds in its file:
the tag is lost. -/
theorem update_lost :
    ¬ ∀ (mayFail : FsCall → Prop) (w w' : World) (path : Path) (record : Record)
      (handles handles' : Bool → TuxObject) (calls : List (Bool × Setter)),
      SharedBy w path record handles → (∀ k, (handles k).writable = true) →
      Calls mayFail handles w calls handles' w' →
      PathHolds w' path (Setter.applyAll record (calls.map Prod.snd)) := by
  intro h
  obtain ⟨handles', w', hrun⟩ := calls_twoHandles false
  have hall := h _ _ _ _ _ _ _ _ sharedBy_twoHandles (fun _ => rfl) hrun
  have hview := (hrun.views sharedBy_twoHandles.views).entry
  have htag := (hview.sameSections hall).2 "k"
  exact absurd htag (by decide +kernel)

end TuxEncoding
