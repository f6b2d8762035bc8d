import TuxEncoding.Properties.Readers

/-!
# Readers see one version each

Any number of writers and readers on one file system, in any interleaving of their calls, each
stopping wherever it likes.

* `SiteInvariant` is what holds at every moment: every writer and every reader is safe in its own
  view, and the versions at the final paths are whole.
* `readers_see_one_version`: whatever a reader shows is what one version says, from opening to its
  last query, and no earlier version than the one that stood at its path before its first call.
* `later_readers_see_no_less`: nobody who starts later sees less.
* `open_optional_misses_nothing`: a missing file and a malformed one are told apart, whoever writes
  in between.
-/

namespace TuxEncoding

open Bytes Interaction Program

set_option linter.unusedSectionVars false

section

variable [Platform] [Codecs] {ι κ : Type} [DecidableEq ι] [DecidableEq κ]

/-- Writers and readers that share a file system. -/
abbrev Users (ι κ : Type) : Type :=
  Pool FsCall.Reply (ι ⊕ κ) (Except ObjectFileError Outcome ⊕ Seen) (Site ι)

namespace Users

/-- The writers and the readers before their first calls. -/
def start (runs : ι → WriterRun) (readers : κ → ReaderRun ι) (w₀ : World) : Users ι κ where
  threads
    | .inl i => Sum.inl <$> (runs i).program
    | .inr k => Sum.inr <$> (readers k).program runs
  shared := ⟨⟨w₀, fun _ => none, fun _ => none⟩, fun path => [w₀.version path]⟩

/-- What can come after `p`, where the calls of the reader `k` may fail for which `mayFail k`
holds. -/
def Reachable (mayFail : κ → FsCall → Prop) (runs : ι → WriterRun) (p q : Users ι κ) : Prop :=
  Pool.Reachable (Site.Step mayFail fun i => (runs i).pid) p q

end Users

variable {mayFail : κ → FsCall → Prop} {runs : ι → WriterRun} {readers : κ → ReaderRun ι}
  {w₀ : World}
  {p q : Users ι κ}

/-! ## The invariant -/

/-- What the writers may publish when they have this much left to do. -/
def Users.pub (runs : ι → WriterRun)
    (threads : ι ⊕ κ → Program FsCall.Reply (Except ObjectFileError Outcome ⊕ Seen)) (j : ι) :
    List UInt8 → Prop :=
  (runs j).MayLeave Sum.inl (threads (.inl j))

/-- What a writer may publish it still may after a call. -/
lemma Users.pub_update
    {threads : ι ⊕ κ → Program FsCall.Reply (Except ObjectFileError Outcome ⊕ Seen)} {t : ι ⊕ κ}
    {c : FsCall} {k : c.Reply → Program FsCall.Reply (Except ObjectFileError Outcome ⊕ Seen)}
    (hthread : threads t = .call c k) (r : c.Reply) (j : ι) {data : List UInt8}
    (h : Users.pub runs threads j data) :
    Users.pub runs (Function.update threads t (k r)) j data := by
  unfold Users.pub at h ⊢
  rcases eq_or_ne (.inl j) t with rfl | hj
  · rw [hthread] at h
    rw [Function.update_self]
    exact h.of_call r
  · rwa [Function.update_of_ne hj]

/-- What the users of a site know of it. -/
structure Sights (runs : ι → WriterRun) (readers : κ → ReaderRun ι) (w₀ : World)
    (pub : ι → List UInt8 → Prop) (n : κ → ℕ) (s : Site ι) (v : ι ⊕ κ → Sight) : Prop where
  sound : Sound runs w₀ pub s.shared
  versions : WholeVersions runs w₀ pub s
  writers : ∀ i, ViewOf runs s.shared i (v (.inl i)).world ∧
    PublishedBy runs w₀ s i (v (.inl i)).world
  readers : ∀ k, SightOf runs w₀ s ((readers k).path runs) (n k) (v (.inr k))
  apart : ∀ {k k' fd}, (v (.inr k)).world.files fd ≠ none →
    (v (.inr k')).world.files fd ≠ none → k = k'

/-- What is left of a user, in its own view. -/
def UserGoing (mayFail : κ → FsCall → Prop) (runs : ι → WriterRun) (readers : κ → ReaderRun ι)
    (w₀ : World) :
    ι ⊕ κ → Program FsCall.Reply (Except ObjectFileError Outcome ⊕ Seen) → Sight → Prop
  | .inl i, p, v => (runs i).Going (w₀.unknown (runs i).pid) Sum.inl p v.world
  | .inr k, p, v => Program.Safe (ReadStep (mayFail k)) (ReadMay ((readers k).path runs)) p
      (fun result v' => ∃ seen, result = .inr seen ∧ ∃ n version, v'.seen = some (n, version) ∧
        Tells (mayFail k) ((readers k).path runs) (readers k).opening version seen) v

/-- Every user keeps to its contract in its own view of the site; the reader `k` finds no version
before the `n k`th. -/
def SiteInvariant (mayFail : κ → FsCall → Prop) (runs : ι → WriterRun) (readers : κ → ReaderRun ι)
    (w₀ : World) (n : κ → ℕ) (p : Users ι κ) : Prop :=
  ∃ v, Sights runs readers w₀ (Users.pub runs p.threads) n p.shared v ∧
    ∀ t, UserGoing mayFail runs readers w₀ t (p.threads t) (v t)

/-- What a reader comes to. -/
lemma UserGoing.reader (k : κ) (v : Sight) : UserGoing mayFail runs readers w₀ (.inr k)
    (Sum.inr <$> (readers k).program runs) v := by
  refine Program.Safe.map (Program.Safe.mono ?_ ((readers k).program_safe v))
  exact fun seen v' h => ⟨seen, rfl, h⟩

lemma start_invariant (runs : ι → WriterRun) (readers : κ → ReaderRun ι) (w₀ : World) :
    SiteInvariant mayFail runs readers w₀ (fun _ => 0) (Users.start runs readers w₀) := by
  refine ⟨Sum.elim (fun i => ⟨w₀.unknown (runs i).pid, none⟩) fun _ => ⟨w₀.unknown 0, none⟩,
    ⟨?_, ⟨fun _ => rfl, fun i n version hn => ?_⟩, fun i => ?_, fun k => ?_, ?_⟩, fun t => ?_⟩
  · exact ⟨Nat.le_refl _, nofun, World.onePath_next w₀, fun _ => rfl, fun _ => rfl, nofun⟩
  · refine .inl ?_
    dsimp only [Users.start] at hn
    rw [List.getElem?_singleton] at hn
    split_ifs at hn with hzero
    exact ⟨hzero, (Option.some.inj hn).symm⟩
  · exact ⟨⟨Nat.le_refl _, rfl, nofun, nofun, nofun, nofun, nofun⟩, nofun⟩
  · exact ⟨Nat.zero_le _, nofun, nofun⟩
  · exact fun hfd _ => absurd rfl hfd
  · cases t with
    | inl i => exact WriterRun.Going.start (runs i) (w₀.unknown (runs i).pid) Sum.inl
    | inr k => exact UserGoing.reader k _

/-- More may have been published. -/
lemma Sights.mono {pub pub' : ι → List UInt8 → Prop} {n : κ → ℕ} {s : Site ι} {v : ι ⊕ κ → Sight}
    (h : Sights runs readers w₀ pub n s v) (hpub : ∀ j data, pub j data → pub' j data) :
    Sights runs readers w₀ pub' n s v where
  sound := h.sound.mono hpub
  versions := h.versions.mono hpub
  writers := h.writers
  readers := h.readers
  apart := h.apart

section calls

variable {pub : ι → List UInt8 → Prop}

/-- A writer calls. -/
lemma Sights.writer {n : κ → ℕ} {s s' : Site ι} {v : ι ⊕ κ → Sight} {i : ι} {c : FsCall}
    {r : c.Reply} (h : Sights runs readers w₀ pub n s v) (hnames : NoFinalIsTemp runs)
    (hmay : ((runs i).job w₀.next (pub i)).Allows c (v (.inl i)).world)
    (hstep : Site.Step mayFail (fun i => (runs i).pid) (.inl i : ι ⊕ κ) c s r s') :
    ∃ v', FsStep (fun _ => True) c (v (.inl i)).world r v'.world ∧
      Sights runs readers w₀ pub n s' (Function.update v (.inl i) v') := by
  obtain ⟨hshared, hversions⟩ := hstep
  obtain ⟨hview, hkept⟩ := h.writers i
  obtain ⟨v', hstepped⟩ := shared_step hview h.sound hnames hmay hshared
  have hframe := writer_frame hview h.sound hmay hshared
  have hle : ∀ path, s.versions path <+: s'.versions path :=
    fun path => hversions ▸ s.versions_le c r path
  have hreader : ∀ k : κ, Function.update v (.inl i) ⟨v', none⟩ (.inr k) = v (.inr k) :=
    fun k => Function.update_of_ne Sum.inr_ne_inl _ _
  refine ⟨⟨v', none⟩, hstepped.step, hstepped.sound, ?_, fun j => ?_, fun k => ?_, ?_⟩
  · exact writer_versions h.versions hview h.sound hnames hmay hshared hversions
  · rcases eq_or_ne j i with rfl | hj
    · rw [Function.update_self]
      exact ⟨hstepped.view, writer_keeps hkept hview h.sound hstepped.sound hmay hstepped.step
        hshared hversions⟩
    · rw [Function.update_of_ne fun heq => hj (Sum.inl.inj heq)]
      exact ⟨(h.writers j).1.of_spares (hstepped.spares hj),
        (h.writers j).2.of_frame hframe (hle _)⟩
  · rw [hreader]
    exact (h.readers k).of_frame hframe hversions
  · intro k k' fd hfd hfd'
    rw [hreader] at hfd hfd'
    exact h.apart hfd hfd'

/-- A reader calls. -/
lemma Sights.reader {n : κ → ℕ} {s s' : Site ι} {v : ι ⊕ κ → Sight} {k : κ} {c : FsCall}
    {r : c.Reply} (h : Sights runs readers w₀ pub n s v)
    (hmay : ReadMay ((readers k).path runs) c (v (.inr k)))
    (hstep : Site.Step mayFail (fun i => (runs i).pid) (.inr k : ι ⊕ κ) c s r s') :
    ∃ v', ReadStep (mayFail k) c (v (.inr k)) r v' ∧
      Sights runs readers w₀ pub n s' (Function.update v (.inr k) v') := by
  obtain ⟨v', fd, hlooked⟩ := reader_looked (h.readers k) h.sound h.versions hmay hstep
  have hversions := hstep.2.2.2
  have hreadOnly := hlooked.readOnly
  -- no other reader has this handle
  have hother : ∀ {k'}, k' ≠ k → (v (.inr k')).world.files fd = none := by
    intro k' hk'
    by_contra hsome
    obtain ⟨f, hf⟩ := Option.ne_none_iff_exists'.mp hsome
    obtain hown | hnew := hlooked.own
    · exact hk' (h.apart hsome hown)
    · have hlt := (s.shared.world.files_lt ((h.readers k').files hf).1).1
      omega
  refine ⟨v', hlooked.step, hreadOnly.sound h.sound,
    h.versions.of_same hversions fun _ => hreadOnly.version_eq _, fun i => ?_, fun k' => ?_, ?_⟩
  · rw [Function.update_of_ne Sum.inl_ne_inr]
    exact ⟨(h.writers i).1.of_spares hreadOnly.spares,
      (h.writers i).2.of_readOnly hreadOnly hversions⟩
  · rcases eq_or_ne k' k with rfl | hk'
    · rw [Function.update_self]
      exact hlooked.sight
    · rw [Function.update_of_ne fun heq => hk' (Sum.inr.inj heq)]
      exact (h.readers k').of_readOnly hreadOnly (hother hk') hversions
  · -- what `k` has now it had before, or it is `fd`
    have happart : ∀ {k' fd'}, k' ≠ k → v'.world.files fd' ≠ none →
        (v (.inr k')).world.files fd' ≠ none → False := by
      intro k' fd' hk' hfd' hsome
      obtain hold | rfl := hlooked.handles hfd'
      · exact hk' (h.apart hsome hold)
      · exact hsome (hother hk')
    intro k₁ k₂ fd' h₁ h₂
    have hself : Function.update v (.inr k) v' (.inr k) = v' := Function.update_self _ _ _
    have hne : ∀ {k'}, k' ≠ k → Function.update v (.inr k) v' (.inr k') = v (.inr k') :=
      fun hk' => Function.update_of_ne (fun heq => hk' (Sum.inr.inj heq)) _ _
    rcases eq_or_ne k k₁ with rfl | hk₁ <;> rcases eq_or_ne k k₂ with rfl | hk₂
    · rfl
    · rw [hself] at h₁
      rw [hne hk₂.symm] at h₂
      exact (happart hk₂.symm h₁ h₂).elim
    · rw [hself] at h₂
      rw [hne hk₁.symm] at h₁
      exact (happart hk₁.symm h₂ h₁).elim
    · rw [hne hk₁.symm] at h₁
      rw [hne hk₂.symm] at h₂
      exact h.apart h₁ h₂

end calls

lemma SiteInvariant.reachable {n : κ → ℕ} (hnames : NoFinalIsTemp runs)
    (h : SiteInvariant mayFail runs readers w₀ n p) (hq : p.Reachable mayFail runs q) :
    SiteInvariant mayFail runs readers w₀ n q := by
  refine @Pool.invariantAlong _ _ _ _ _ _ _ _
    (fun threads s v => Sights runs readers w₀ (Users.pub runs threads) n s v)
    (UserGoing mayFail runs readers w₀) ?_ _ _ hq h
  rintro (i | k) c next threads s r s' v hthread hview hgoing hstep
  · obtain ⟨hmay, hnext⟩ := WriterRun.Going.call hgoing
    rw [← hthread] at hmay
    obtain ⟨v', hown, hview'⟩ := hview.writer hnames hmay hstep
    exact ⟨v', hnext r v'.world hown, hview'.mono fun j _ => Users.pub_update hthread r j⟩
  · obtain ⟨hmay, hnext⟩ := hgoing
    obtain ⟨v', hown, hview'⟩ := hview.reader hmay hstep
    exact ⟨v', hnext r v' hown, hview'.mono fun j _ => Users.pub_update hthread r j⟩

/-! ## What a reader sees -/

/-- The versions at a path grow at their end. -/
lemma Users.Reachable.versions_le (h : p.Reachable mayFail runs q) (path : Path) :
    p.shared.versions path <+: q.shared.versions path := by
  induction h with
  | refl => exact List.prefix_refl _
  | tail _ hstep ih =>
      refine ih.trans ?_
      obtain ⟨i | k, _, hstep⟩ := hstep
      · rw [hstep.2]
        exact Site.versions_le _ _ _ _
      · simp only [hstep.2.2.2, List.prefix_refl]

/-- A reader that has not called yet may be taken to know nothing but that the versions so far have
stood at its path. -/
lemma SiteInvariant.fresh {n : κ → ℕ} {k : κ} (h : SiteInvariant mayFail runs readers w₀ n p)
    (hstart : p.threads (.inr k) = Sum.inr <$> (readers k).program runs) :
    SiteInvariant mayFail runs readers w₀
      (Function.update n k (p.shared.versions ((readers k).path runs)).length) p := by
  obtain ⟨v, hview, hgoing⟩ := h
  have hother : ∀ {t : ι ⊕ κ}, t ≠ .inr k →
      Function.update v (.inr k) ⟨w₀.unknown 0, none⟩ t = v t :=
    fun ht => Function.update_of_ne ht _ _
  have hself : Function.update v (.inr k) ⟨w₀.unknown 0, none⟩ (.inr k) =
      (⟨w₀.unknown 0, none⟩ : Sight) := Function.update_self _ _ _
  refine ⟨Function.update v (.inr k) ⟨w₀.unknown 0, none⟩, ⟨hview.sound, hview.versions,
    fun i => ?_, fun k' => ?_, ?_⟩, fun t => ?_⟩
  · rw [hother Sum.inl_ne_inr]
    exact hview.writers i
  · rcases eq_or_ne k' k with rfl | hk'
    · rw [hself, Function.update_self]
      exact ⟨Nat.le_refl _, nofun, nofun⟩
    · rw [hother fun heq => hk' (Sum.inr.inj heq), Function.update_of_ne hk']
      exact hview.readers k'
  · intro k₁ k₂ fd h₁ h₂
    have hne : ∀ {k'}, (Function.update v (.inr k) ⟨w₀.unknown 0, none⟩ (.inr k')).world.files fd ≠
        none → k' ≠ k := by
      rintro k' hsome rfl
      rw [hself] at hsome
      exact hsome rfl
    have hk₁ := hne h₁
    have hk₂ := hne h₂
    rw [hother fun heq => hk₁ (Sum.inr.inj heq)] at h₁
    rw [hother fun heq => hk₂ (Sum.inr.inj heq)] at h₂
    exact hview.apart h₁ h₂
  · rcases eq_or_ne t (.inr k) with rfl | ht
    · rw [hself, hstart]
      exact UserGoing.reader k _
    · rw [hother ht]
      exact hgoing t

/-- What the reader shows is what the `n`th version says: one that stood at its path at one time
between `p` and `q`. -/
structure Found (mayFail : FsCall → Prop) (runs : ι → WriterRun) (w₀ : World)
    (reader : ReaderRun ι) (p q : Users ι κ) (seen : Seen) (n : ℕ) (version : Version) :
    Prop where
  earlier : WholeVersions runs w₀ (Users.pub runs p.threads) p.shared
  later : WholeVersions runs w₀ (Users.pub runs q.threads) q.shared
  grown : p.shared.versions (reader.path runs) <+: q.shared.versions (reader.path runs)
  length_le : (p.shared.versions (reader.path runs)).length ≤ n + 1
  stood : (q.shared.versions (reader.path runs))[n]? = some version
  tells : Tells mayFail (reader.path runs) reader.opening version seen

lemma reader_found (hnames : NoFinalIsTemp runs)
    (hp : (Users.start runs readers w₀).Reachable mayFail runs p)
    (hq : p.Reachable mayFail runs q) {k : κ}
    (hstart : p.threads (.inr k) = Sum.inr <$> (readers k).program runs) {seen : Seen}
    (hdone : q.threads (.inr k) = .done (.inr seen)) :
    ∃ n version, Found (mayFail k) runs w₀ (readers k) p q seen n version := by
  have hinvariant := (start_invariant runs readers w₀).reachable hnames hp
  obtain ⟨_, hearlier, _⟩ := id hinvariant
  obtain ⟨v, hlater, hgoing⟩ := (hinvariant.fresh hstart).reachable hnames hq
  have hend := hgoing (.inr k)
  rw [hdone] at hend
  obtain ⟨_, hresult, n, version, hseen, htells⟩ := hend
  obtain rfl := Sum.inr.inj hresult
  obtain ⟨hlength, hversion⟩ := (hlater.readers k).seen hseen
  rw [Function.update_self] at hlength
  exact ⟨n, version, hearlier.versions, hlater.versions, hq.versions_le _, hlength, hversion,
    htells⟩

/-- The reader has seen one version of its path, from its first call to its last one: a version that
stood there at one time between `p` and `q`, and is what was there initially or what one writer
leaves there, when its operations have returned what they have by `q`. -/
def SawOneVersion (mayFail : FsCall → Prop) (runs : ι → WriterRun) (w₀ : World)
    (reader : ReaderRun ι) (p q : Users ι κ) (seen : Seen) : Prop :=
  p.shared.versions (reader.path runs) <+: q.shared.versions (reader.path runs) ∧ ∃ n version,
    (p.shared.versions (reader.path runs)).length ≤ n + 1 ∧
    (q.shared.versions (reader.path runs))[n]? = some version ∧
    Tells mayFail (reader.path runs) reader.opening version seen ∧
    (n = 0 ∧ version = w₀.version (reader.path runs) ∨ ∃ j data, version = some data ∧
      (runs j).path = reader.path runs ∧ (runs j).MayLeave Sum.inl (q.threads (.inl j)) data)

/-- Whatever the writers do in between, and whatever fails: a reader that makes its first call after
`p` and is done in `q` has seen one version. -/
theorem readers_see_one_version (hnames : NoFinalIsTemp runs)
    (hp : (Users.start runs readers w₀).Reachable mayFail runs p)
    (hq : p.Reachable mayFail runs q) {k : κ}
    (hstart : p.threads (.inr k) = Sum.inr <$> (readers k).program runs) {seen : Seen}
    (hdone : q.threads (.inr k) = .done (.inr seen)) :
    SawOneVersion (mayFail k) runs w₀ (readers k) p q seen := by
  obtain ⟨n, version, hfound⟩ := reader_found hnames hp hq hstart hdone
  exact ⟨hfound.grown, n, version, hfound.length_le, hfound.stood, hfound.tells,
    hfound.later.whole _ n version hfound.stood⟩

/-! ## What others have published and seen before -/

/-- Only the first version of a path can be that no file is there. -/
lemma WholeVersions.eq_zero_of_none {pub : ι → List UInt8 → Prop} {s : Site ι}
    (h : WholeVersions runs w₀ pub s) {i : ι} {n : ℕ}
    (hn : (s.versions (runs i).path)[n]? = some none) : n = 0 := by
  obtain ⟨hzero, _⟩ | ⟨_, _, hsome, _⟩ := h.whole i n none hn
  · exact hzero
  · cases hsome

/-- No file is at a path as long as none has been there. -/
lemma WholeVersions.dir_eq_none_iff {pub : ι → List UInt8 → Prop} {s : Site ι}
    (h : WholeVersions runs w₀ pub s) (i : ι) :
    s.shared.world.dir (runs i).path = none ↔ s.versions (runs i).path = [none] := by
  have hlatest := h.latest i
  constructor
  · intro hdir
    have hnone : s.shared.world.version (runs i).path = none := by
      rw [World.version, hdir]
      rfl
    rw [hnone] at hlatest
    obtain ⟨earlier, heq⟩ := List.getLast?_eq_some_iff.mp hlatest
    have hlast : (s.versions (runs i).path)[earlier.length]? = some none := by
      rw [heq, List.getElem?_concat_length]
    rw [heq, List.eq_nil_of_length_eq_zero (h.eq_zero_of_none hlast)]
    rfl
  · intro heq
    rw [heq] at hlatest
    exact Option.map_eq_none_iff.mp (Option.some.inj hlatest).symm

/-- A reader that finds nothing has started when nothing was there. -/
lemma Found.dir_eq_none {fails : FsCall → Prop} {reader : ReaderRun ι} {seen : Seen} {n : ℕ}
    (h : Found fails runs w₀ reader p q seen n none) :
    p.shared.shared.world.dir (reader.path runs) = none := by
  obtain rfl := h.later.eq_zero_of_none h.stood
  refine (h.earlier.dir_eq_none_iff reader.target).mpr ?_
  obtain ⟨before, heq⟩ := List.getLast?_eq_some_iff.mp (h.earlier.latest reader.target)
  have hlength := h.length_le
  rw [ReaderRun.path, heq, List.length_append] at hlength
  obtain rfl := List.eq_nil_of_length_eq_zero (Nat.le_zero.mp (Nat.le_of_succ_le_succ hlength))
  obtain ⟨later, hlater⟩ := h.grown
  have hstood := h.stood
  rw [← hlater, ReaderRun.path, heq] at hstood
  rw [heq]
  exact congrArg (fun version => [version]) (Option.some.inj hstood)

/-- Where none of the reader's calls fails, `open_optional` finds no object only at a path that had
no file when the reader started, it finds none where there is no file when it ends, and a file that
does not open is not reported missing. -/
theorem open_optional_misses_nothing (hnames : NoFinalIsTemp runs)
    (hp : (Users.start runs readers w₀).Reachable mayFail runs p)
    (hq : p.Reachable mayFail runs q) {k : κ} (hfaultless : ∀ c, ¬ mayFail k c)
    (hopening : (readers k).opening = .openOptional)
    (hstart : p.threads (.inr k) = Sum.inr <$> (readers k).program runs) {seen : Seen}
    (hdone : q.threads (.inr k) = .done (.inr seen)) :
    (seen = .ok none → p.shared.shared.world.dir ((readers k).path runs) = none) ∧
    (q.shared.shared.world.dir ((readers k).path runs) = none → seen = .ok none) ∧
    ∀ e, seen = .error e → e.isNotFound = false ∧ ∃ data,
      some data ∈ q.shared.versions ((readers k).path runs) ∧ readPrefix data = .error e := by
  obtain ⟨n, version, hfound⟩ := reader_found hnames hp hq hstart hdone
  have htells := hfound.tells
  have hnone : ∀ {e}, ¬ IsFault (FailsIn (mayFail k)
      ((readers k).opening.run ((readers k).path runs))) e := by
    rintro e ⟨c, _, hfail, _⟩
    exact hfaultless c hfail.1
  refine ⟨?_, fun hdir => ?_, ?_⟩
  · rintro rfl
    obtain ⟨_, rfl | ⟨_, hfail, _⟩⟩ := htells
    · exact hfound.dir_eq_none
    · exact absurd hfail hnone
  · have hall := (hfound.later.dir_eq_none_iff (readers k).target).mp hdir
    have hstood := hfound.stood
    rw [ReaderRun.path, hall, List.getElem?_singleton] at hstood
    split_ifs at hstood
    obtain rfl := Option.some.inj hstood
    cases seen with
    | error e =>
        obtain ⟨hfail | ⟨_, rfl⟩ | ⟨_, hsome, _⟩, hpresent⟩ := htells
        · exact absurd hfail hnone
        · cases hpresent hopening
        · cases hsome
    | ok found =>
        cases found with
        | none => rfl
        | some found =>
            obtain ⟨_, hsome, _⟩ := htells
            cases hsome
  · rintro e rfl
    obtain ⟨hunopened, hpresent⟩ := htells
    refine ⟨hpresent hopening, ?_⟩
    obtain hfail | ⟨_, rfl⟩ | ⟨data, rfl, hread⟩ := hunopened
    · exact absurd hfail hnone
    · cases hpresent hopening
    · exact ⟨data, List.mem_of_getElem? hfound.stood, hread⟩

/-- A user goes on for `n` calls while the others wait. -/
def Users.turn (runs : ι → WriterRun) (p : Users ι κ) (t : ι ⊕ κ) (n : ℕ) : Users ι κ :=
  let next := Program.advance (Site.perform (fun i => (runs i).pid) t) n (p.threads t) p.shared
  ⟨Function.update p.threads t next.1, next.2⟩

lemma Users.Reachable.turn (h : p.Reachable mayFail runs q) (t : ι ⊕ κ) (n : ℕ) :
    p.Reachable mayFail runs (q.turn runs t n) :=
  Pool.Reachable.advance t (Site.step_perform mayFail _ t) n h

end

attribute [local instance] fullPlatform pairCodecs

/-- One writer. -/
def soleWriter (_ : Unit) : WriterRun := rivals false

/-- Readers that ask for the content and then for the tags. -/
def twoQueries (_ : Bool) : ReaderRun Unit where
  target := ()
  opening := .openOptional
  script := .ask .stored fun _ => .ask .tags fun _ => .stop

/-- One reader before the writer starts, and the writer to its end. -/
def afterWriter : Users Unit Bool :=
  ((Users.start soleWriter twoQueries World.empty).turn soleWriter (.inr false) 1).turn soleWriter
    (.inl ()) 20

/-- The other reader, to its end. -/
def afterReader : Users Unit Bool := afterWriter.turn soleWriter (.inr true) 20

/-- The result of a user that is done. -/
def Users.ended {ι κ : Type} (p : Users ι κ) (t : ι ⊕ κ) :
    Option (Except ObjectFileError Outcome ⊕ Seen) :=
  match p.threads t with
  | .done result => some result
  | .call _ _ => none

lemma Users.threads_of_ended {ι κ : Type} {p : Users ι κ} {t : ι ⊕ κ}
    {result : Except ObjectFileError Outcome ⊕ Seen} (h : p.ended t = some result) :
    p.threads t = .done result := by
  unfold Users.ended at h
  cases hthread : p.threads t with
  | done a =>
      rw [hthread] at h
      cases h
      rfl
  | call c k =>
      rw [hthread] at h
      cases h

lemma soleWriter_names : NoFinalIsTemp soleWriter := by
  rintro i j ⟨pid, counter, hpath⟩
  exact tempPathOf_ne _ _ _ hpath.symm

lemma afterWriter_reachable :
    (Users.start soleWriter twoQueries World.empty).Reachable (fun _ => NoFaults) soleWriter
      afterWriter :=
  Users.Reachable.turn (Users.Reachable.turn .refl _ _) _ _

lemma afterReader_reachable : afterWriter.Reachable (fun _ => NoFaults) soleWriter afterReader :=
  Users.Reachable.turn .refl _ _

lemma afterWriter_start :
    afterWriter.threads (.inr true) = Sum.inr <$> (twoQueries true).program soleWriter := by
  unfold afterWriter Users.turn
  dsimp only
  rw [Function.update_of_ne Sum.inr_ne_inl, Function.update_of_ne (by decide)]
  rfl

/-- The second reader is done. -/
lemma afterReader_done : ∃ seen, afterReader.threads (.inr true) = .done (.inr seen) := by
  have hright : (afterReader.ended (.inr true)).map Sum.isRight = some true := by decide +kernel
  obtain ⟨outcome | seen, hended, hside⟩ := Option.map_eq_some_iff.mp hright
  · cases hside
  · exact ⟨seen, Users.threads_of_ended hended⟩

/-- The second reader has seen one version. -/
theorem readers_see_one_version_second_reader :
    ∃ seen, afterReader.threads (.inr true) = .done (.inr seen) ∧
      SawOneVersion NoFaults soleWriter World.empty (twoQueries true) afterWriter afterReader
        seen := by
  obtain ⟨seen, hdone⟩ := afterReader_done
  have hsaw := readers_see_one_version soleWriter_names afterWriter_reachable
    afterReader_reachable afterWriter_start hdone
  exact ⟨seen, hdone, hsaw⟩

/-- A file is there when the second reader starts, and it is not reported missing. -/
theorem open_optional_misses_nothing_published :
    afterWriter.shared.shared.world.dir World.somePath = some 0 ∧
    ∃ seen, afterReader.threads (.inr true) = .done (.inr seen) ∧ seen ≠ .ok none := by
  have hdir : afterWriter.shared.shared.world.dir World.somePath = some 0 := by decide +kernel
  obtain ⟨seen, hdone⟩ := afterReader_done
  refine ⟨hdir, seen, hdone, fun hnone => ?_⟩
  have hmissing := (open_optional_misses_nothing soleWriter_names afterWriter_reachable
    afterReader_reachable (fun _ h => h) rfl afterWriter_start hdone).1 hnone
  have hpath : (twoQueries true).path soleWriter = World.somePath := rfl
  rw [hpath, hdir] at hmissing
  cases hmissing

end TuxEncoding
