import TuxEncoding.Fs.Private
import TuxEncoding.Fs.Update
import TuxEncoding.Properties.WholeRecords

/-!
# Updates that race

Any number of users, in any number of processes, open one path, ask their handles, and replace the
file with `set_metadata`, `set_tags`, `set_sections` and `modify_metadata`. Their calls interleave,
and each may fail.

* `Rewriter` is a user, and `RewriteScript` what it does with its handle; what it does next may
  depend on what it was told. `Event` is what it is told.
* `Lineage`: the initial file, and what an update makes of a handle on a file of the lineage.
* `Told` is what a user is told that has its file to itself: its handle answers as its own version
  does, its updates are refused for the reasons they would be refused for alone, and only its own
  updates take it to another version.
* `private_histories`: in any interleaving every user is told just that, and what stands at the path
  is a file of the lineage, which has the content of the initial one.
-/

namespace TuxEncoding

open Bytes Interaction Program

set_option linter.unusedSectionVars false

section

variable [Platform] [Codecs]

/-! ## Users -/

/-- What a user does with its handle, one step after the other. -/
inductive RewriteScript
  | stop
  | ask (q : Query) (next : Except ObjectFileError Shown → RewriteScript)
  | update (update : Update) (next : Except ObjectFileError Unit → RewriteScript)

/-- What a user is told. -/
inductive Event
  | asked (q : Query) (shown : Except ObjectFileError Shown)
  | updated (update : Update) (result : Except ObjectFileError Unit)

namespace RewriteScript

/-- Ask the handle and update it; an error is an answer, too. -/
def run : RewriteScript → FsMethod TuxObject (List Event)
  | stop => pure []
  | ask q next => do
      let self ← get
      let shown ← (Fallible.result (q.ask self) : Fs (Except ObjectFileError Shown))
      let rest ← (next shown).run
      return .asked q shown :: rest
  | update u next => do
      let result ← Method.result u.run
      let rest ← (next result).run
      return .updated u result :: rest

/-- The update is one that the script may come to. -/
inductive Offers : RewriteScript → Update → Prop
  | here {u : Update} {next : Except ObjectFileError Unit → RewriteScript} :
      Offers (.update u next) u
  | asked {q : Query} {next : Except ObjectFileError Shown → RewriteScript}
      {shown : Except ObjectFileError Shown} {u : Update} (h : Offers (next shown) u) :
      Offers (.ask q next) u
  | updated {u u' : Update} {next : Except ObjectFileError Unit → RewriteScript}
      {result : Except ObjectFileError Unit} (h : Offers (next result) u) :
      Offers (.update u' next) u

end RewriteScript

/-- A user in a process, who opens the path in one of the two ways. -/
structure Rewriter where
  pid : ℕ
  writable : Bool
  script : RewriteScript

/-- The calls of a user. -/
def Rewriter.program (path : Path) (user : Rewriter) :
    Program FsCall.Reply (Except ObjectFileError (List Event)) := do
  match ← (TuxObject.openAs path user.writable).run with
  | .error e => return .error e
  | .ok object =>
      let (events, _) ← user.script.run.on object
      return events

/-! ## The lineage of a file -/

/-- The handle knows the header and the metadata of these bytes. -/
def TuxObject.Knows (object : TuxObject) (data : List UInt8) : Prop :=
  ∃ metadata, readPrefix data = .ok (object.header, metadata) ∧ object.metadata.Equal metadata

/-- The file `data'` is an object with what the update makes of what the handle knows and of what is
stored in `data`. -/
def Update.Makes (update : Update) (object : TuxObject) (data : List UInt8) (header : ObjectHeader)
    (data' : List UInt8) : Prop :=
  ∃ tags, (update.keepsTags = true → object.storedTags data = .ok tags) ∧
    (object.updated data (update.sections object.metadata tags).1
      (update.sections object.metadata tags).2).StoredIn header data'

/-- What may come of a file by the updates that are offered. -/
inductive Lineage (offered : Update → Prop) (data₀ : List UInt8) : List UInt8 → Prop
  | initial : Lineage offered data₀ data₀
  | updated {object : TuxObject} {update : Update} {data data' : List UInt8} {header : ObjectHeader}
      (h : Lineage offered data₀ data) (hknows : object.Knows data) (hoffered : offered update)
      (hmakes : update.Makes object data header data') : Lineage offered data₀ data'

/-- The record has the content of the file, compressed as it is there. -/
def Record.HasContentOf (record : Record) (data : List UInt8) : Prop :=
  ∃ header metadata, readPrefix data = .ok (header, metadata) ∧
    record.compression = header.compressionType ∧
    record.content = (openedObject 0 World.somePath false (header, metadata)).storedContent data

/-- The file, or a record with its content. -/
def KeepsContent (data₀ data : List UInt8) : Prop :=
  data = data₀ ∨ ∃ record header, Record.StoredIn record header data ∧ record.HasContentOf data₀

variable {offered : Update → Prop} {data₀ data data' : List UInt8} {object : TuxObject}
  {mayFail : FsCall → Prop}

/-- An update makes a record of a file, with its content. -/
lemma Lineage.keepsContent (h : Lineage offered data₀ data) : KeepsContent data₀ data := by
  induction h with
  | initial => exact .inl rfl
  | @updated object update data data' header _ hknows _ hmakes ih =>
      obtain ⟨metadata, hread, _⟩ := hknows
      obtain ⟨tags, _, hstored⟩ := hmakes
      refine .inr ⟨_, header, hstored, ?_⟩
      obtain rfl | ⟨record, header', hrecord, hcontent⟩ := ih
      · exact ⟨object.header, metadata, hread, rfl, rfl⟩
      · obtain ⟨header₀, metadata₀, hread₀, hcompression, hbytes⟩ := hcontent
        obtain ⟨metadata', hread', hequal⟩ := hrecord.readPrefix_eq
        obtain ⟨rfl, rfl⟩ := Prod.mk.inj (Except.ok.inj (hread'.symm.trans hread))
        have hhandle := hrecord.handleOf hequal
        exact ⟨header₀, metadata₀, hread₀, hhandle.compressionType_eq.trans hcompression,
          hhandle.storedContent_eq.trans hbytes⟩

/-- Only the initial file may fail to open. -/
lemma Lineage.unopened {e : ObjectFileError} (h : Lineage offered data₀ data)
    (herror : readPrefix data = .error e) : readPrefix data₀ = .error e := by
  obtain rfl | ⟨_, _, hrecord, _⟩ := h.keepsContent
  · exact herror
  · obtain ⟨_, hread, _⟩ := hrecord.readPrefix_eq
    cases hread.symm.trans herror

/-! ## What a user is told -/

/-- The update of the handle may come to this error in a file system of its own, in which the handle
is open on `data`, with no temporary files but those that its calls have failed to remove, and those
of others at the paths that are `taken`. -/
structure Update.RefusedAlone (mayFail : FsCall → Prop) (taken : Path → Prop) (update : Update)
    (object : TuxObject) (data : List UInt8) (e : ObjectFileError) : Prop where
  run : ∃ w w' k, OpenOn w object k ∧ w.data k = data ∧
    (Tidy mayFail → ∀ p, p ≠ object.path → w.dir p = none) ∧
    Ends (AloneStep mayFail taken) (update.run.on object) w (.error e, object) w'
  reason : object.writable = true →
    update.Refused (OrTaken mayFail taken) World.empty object data

/-- What a user is told whose handle is open on `data`, where nobody else changes it: the handle
answers as this version does, or a call of the query fails; an update takes it to a version of its
own, or is refused and leaves it where it is. -/
inductive Told (mayFail : FsCall → Prop) (taken : Path → Prop) :
    TuxObject → List UInt8 → List Event → Prop
  | nil {object : TuxObject} {data : List UInt8} : Told mayFail taken object data []
  | asked {object : TuxObject} {data : List UInt8} {q : Query}
      {shown : Except ObjectFileError Shown} {events : List Event}
      (hshown : Answered mayFail object q shown (q.answer object data))
      (h : Told mayFail taken object data events) :
      Told mayFail taken object data (.asked q shown :: events)
  | refused {object : TuxObject} {data : List UInt8} {update : Update} {e : ObjectFileError}
      {events : List Event} (hrefused : update.RefusedAlone mayFail taken object data e)
      (h : Told mayFail taken object data events) :
      Told mayFail taken object data (.updated update (.error e) :: events)
  | updated {object object' : TuxObject} {data data' : List UInt8} {update : Update}
      {events : List Event} (hwritable : object.writable = true)
      (hmakes : update.Makes object data object'.header data') (hknows : object'.Knows data')
      (h : Told mayFail taken object' data' events) :
      Told mayFail taken object data (.updated update (.ok ()) :: events)

/-- What has been told by now. -/
lemma Told.of_append {taken : Path → Prop} {rest : List Event} : {events : List Event} →
    {object : TuxObject} → {data : List UInt8} →
      Told mayFail taken object data (events ++ rest) → Told mayFail taken object data events
  | [], _, _, _ => .nil
  | _ :: _, _, _, .asked hshown h => .asked hshown h.of_append
  | _ :: _, _, _, .refused hrefused h => .refused hrefused h.of_append
  | _ :: _, _, _, .updated hwritable hmakes hknows h =>
      .updated hwritable hmakes hknows h.of_append

variable {path : Path} {w₀ v : World} {good : List UInt8 → Prop} {taken : Path → Prop}

lemma exists_of_not_tidy (h : ¬ Tidy mayFail) : ∃ c, mayFail c := by
  by_contra hnone
  exact h ⟨fun _ _ hfail => hnone ⟨_, hfail⟩, fun _ hfail => hnone ⟨_, hfail⟩⟩

/-- What refuses an update where no temporary file is in its way, unless a call has failed. -/
lemma Update.Refused.alone {update : Update} (h : update.Refused mayFail v object data)
    (hclean : Tidy mayFail → ∀ p, p ≠ object.path → v.dir p = none) :
    update.Refused mayFail World.empty object data := by
  obtain hfail | hno | ⟨tags, v₁, htags, hsame, hreason⟩ := h
  · exact .inl hfail
  · exact .inr (.inl hno)
  have hempty : Undisturbed World.empty World.empty := Undisturbed.refl _
  obtain (hunsupported | htokio | hlayout | hfail | ⟨counter, htaken⟩) | hrest := hreason
  · exact .inr (.inr ⟨tags, _, htags, hempty, .inl (.inl hunsupported)⟩)
  · exact .inr (.inr ⟨tags, _, htags, hempty, .inl (.inr (.inl htokio))⟩)
  · exact .inr (.inr ⟨tags, _, htags, hempty, .inl (.inr (.inr (.inl hlayout)))⟩)
  · exact .inl hfail
  · by_cases htidy : Tidy mayFail
    · rw [hsame.dir_eq, hclean htidy _ (tempPathOf_ne _ _ _)] at htaken
      exact absurd rfl htaken
    · exact .inl (exists_of_not_tidy htidy)
  · exact .inr (.inr ⟨tags, _, htags, hempty, .inr hrest⟩)

/-- What is safe where the calls are answered as in the user's own view is safe there. -/
lemma Program.Safe.own {α : Type} {Q : α → World → Prop} {p : Program FsCall.Reply α}
    {step : (c : FsCall) → World → c.Reply → World → Prop} {may : FsCall → World → Prop}
    (hstep : ∀ c v r v', may c v → OwnStep mayFail taken good c v r v' → step c v r v')
    (hmay : ∀ c v, may c v → OwnMay w₀ path good c v) (h : Program.Safe step may p Q v) :
    Program.Safe (OwnStep mayFail taken good) (OwnMay w₀ path good) p Q v := by
  refine Program.Safe.mono ?_ (Program.Safe.matched ?_ ?_ rfl h)
  · rintro a _ ⟨s, rfl, hQ⟩
    exact hQ
  · rintro c t _ r t' rfl hc ht
    exact ⟨t', hstep c t r t' hc ht, rfl⟩
  · rintro c t _ rfl hc
    exact hmay c t hc

/-- Reading is. -/
lemma Program.Safe.own_reads {α : Type} {Q : α → World → Prop} {p : Program FsCall.Reply α}
    (h : Program.Safe (FsStep mayFail) Reads p Q v) :
    Program.Safe (OwnStep mayFail taken good) (OwnMay w₀ path good) p Q v := by
  refine Program.Safe.own (fun c v r v' hreads hstep => ?_) (fun c v hreads => ?_) h
  · cases c with
    | seek _ _ | read _ _ | readExact _ _ => exact hstep
    | _ => exact hreads.elim
  · cases c with
    | seek _ _ | read _ _ | readExact _ _ => exact hreads
    | _ => exact hreads.elim

/-- So is a writer that keeps to the contract. -/
lemma Program.Safe.own_allows {α : Type} {Q : α → World → Prop} {p : Program FsCall.Reply α}
    (h : Program.Safe (AloneStep mayFail taken) (Job.publishing w₀ path good).Allows p Q v) :
    Program.Safe (OwnStep mayFail taken good) (OwnMay w₀ path good) p Q v := by
  refine Program.Safe.own (fun c v r v' hallows hstep => ?_) (fun c v hallows => ?_) h
  · cases c with
    | openFile p writable => exact hallows.elim
    | _ => exact hstep
  · cases c with
    | openFile p writable => exact hallows.elim
    | _ => exact hallows

/-- Only its own calls make a function fail. -/
lemma Fallible.Safe.owned {α : Type} {m : Fs α} {may : FsCall → World → Prop}
    {Q : α → World → Prop} {E : ObjectFileError → World → Prop}
    (h : Fallible.Safe (OwnStep (FailsIn mayFail m) taken good) may m Q E v) :
    Fallible.Safe (OwnStep mayFail taken good) may m Q E v := by
  refine Program.Safe.of_makes (fun c hmakes w r w' hstep => ?_) h
  cases c with
  | openFile p writable =>
      exact Or.imp_left (fun hfail => ⟨⟨hfail.1, hmakes⟩, hfail.2⟩) hstep
  | createNew p => exact Or.imp_left (FsStep.own hmakes) hstep
  | _ => exact FsStep.own hmakes hstep

/-- A user who opens the path finds a file with good bytes. -/
lemma openAs_own (path : Path) (writable : Bool) (v : World) :
    Fallible.Safe (OwnStep mayFail taken good) (OwnMay w₀ path good)
      (TuxObject.openAs path writable)
      (fun object v' => object.path = path ∧ (v.next ≤ v'.next ∧ v'.dir = v.dir) ∧
        ∃ k, OpenOn v' object k ∧ good (v'.data k) ∧
          readPrefix (v'.data k) = .ok (object.header, object.metadata))
      (fun e _ => IsFault mayFail e ∨ ∃ data, good data ∧ readPrefix data = .error e) v := by
  rw [TuxObject.openAs_eq]
  refine Fallible.Safe.bind (Fallible.Safe.attempt (Program.Safe.request rfl ?_))
  rintro r v₁ (⟨hfail, ⟨e, rfl⟩, rfl⟩ | ⟨fd, k, rfl, hfile, hgood, hnext, hdir⟩)
  · exact .inl ⟨_, e, hfail, rfl⟩
  · have hfrom : Returns mayFail (TuxObject.fromFile fd path writable) _ v₁ :=
      fromFile_returns hfile
    refine Program.Safe.mono ?_ (Program.Safe.own_reads hfrom)
    rintro (e | object) v₂ hr
    · refine hr.2.imp_right fun hread => ⟨_, hgood, ?_⟩
      obtain h | ⟨sections, _, h⟩ := eq_error_of_bind hread
      · exact h
      · cases h
    · obtain ⟨hread, hsame⟩ := hr
      cases hsections : readPrefix (v₁.data k) with
      | error e =>
          rw [hsections] at hread
          cases hread
      | ok sections =>
          rw [hsections] at hread
          obtain rfl := Except.ok.inj hread
          refine ⟨rfl, ⟨Nat.le_trans hnext hsame.next_le, hsame.dir_eq.trans hdir⟩, k,
            hsame.files hfile, ?_, ?_⟩
          · rw [hsame.data_eq]
            exact hgood
          · rw [hsame.data_eq, hsections]
            rfl

/-- What a user is told is what it would be told alone. -/
lemma RewriteScript.run_safe (script : RewriteScript) (hoffered : ∀ u, script.Offers u → offered u)
    {k : ℕ} (hfloor : w₀.next ≤ v.next) (hpath : object.path = path) (hopen : OpenOn v object k)
    (hknows : object.Knows (v.data k)) (hline : Lineage offered data₀ (v.data k))
    (hclean : Tidy mayFail → ∀ p, p ≠ path → v.dir p = none) :
    Method.Safe (OwnStep mayFail taken (Lineage offered data₀))
      (OwnMay w₀ path (Lineage offered data₀)) script.run object
      (fun events _ _ => Told mayFail taken object (v.data k) events)
      (fun _ _ _ => False) v := by
  induction script generalizing object k v with
  | stop => exact Method.Safe.pure .nil
  | ask q next ih =>
      have hnext : ∀ {shown v₁}, Undisturbed v v₁ →
          Answered mayFail object q shown (q.answer object (v.data k)) →
          Method.Safe (OwnStep mayFail taken (Lineage offered data₀))
            (OwnMay w₀ path (Lineage offered data₀))
            ((next shown).run >>= fun rest => pure (Event.asked q shown :: rest)) object
            (fun events _ _ => Told mayFail taken object (v.data k) events)
            (fun _ _ _ => False) v₁ := by
        intro shown v₁ hsame hshown
        have hdata : v₁.data k = v.data k := hsame.data_eq k
        refine Method.Safe.bind (Method.Safe.mono (ih shown (fun u hu => hoffered u (.asked hu))
          (Nat.le_trans hfloor hsame.next_le) hpath (hopen.of_undisturbed hsame) (hdata ▸ hknows)
          (hdata ▸ hline) (hsame.dir_eq ▸ hclean)) ?_ fun _ _ _ h => h)
        intro rest object' v₂ hrest
        rw [hdata] at hrest
        exact Method.Safe.pure (.asked hshown hrest)
      refine Method.Safe.bind (Method.Safe.get (Method.Safe.bind (Method.Safe.lift
        (Fallible.Safe.result (Fallible.Safe.mono
          (Fallible.Safe.owned (Program.Safe.own_reads (hopen.ask_returns q))) ?_ ?_)))))
      · rintro shown v₁ ⟨hanswer, hsame⟩
        exact hnext hsame (.inl hanswer.symm)
      · rintro e v₁ ⟨hsame, hfail | hanswer⟩
        · exact hnext hsame (.inr ⟨e, rfl, hfail⟩)
        · exact hnext hsame (.inl hanswer.symm)
  | update u next ih =>
      have hmakes : ∀ {tags header data'},
          (u.keepsTags = true → object.storedTags (v.data k) = .ok tags) →
          (object.updated (v.data k) (u.sections object.metadata tags).1
            (u.sections object.metadata tags).2).StoredIn header data' →
          Lineage offered data₀ data' := fun htags hstored =>
        hline.updated hknows (hoffered u .here) ⟨_, htags, hstored⟩
      have hcovers : ∀ tags, (u.keepsTags = true → object.storedTags (v.data k) = .ok tags) →
          (Job.publishing w₀ path (Lineage offered data₀)).Covers v object k
            (u.sections object.metadata tags).1 (u.sections object.metadata tags).2 := by
        refine fun tags htags => ⟨hfloor, hpath.symm, fun inode hpublishes => ?_⟩
        obtain ⟨⟨layout, himage⟩, hsynced⟩ := hpublishes
        exact ⟨hmakes htags ⟨layout, _, _, himage, Tags.Equal.refl _, Tags.Equal.refl _, rfl⟩,
          hsynced⟩
      have hwithin : Method.Safe (FsStep (OrTaken mayFail taken)) _ u.run object _ _ v :=
        Update.run_within hopen u hcovers
      have halone : Method.Safe (AloneStep mayFail taken) _ u.run object _ _ v :=
        Program.Safe.of_makes (fun _ _ _ _ _ hstep => AloneStep.fsStep hstep) hwithin
      refine Method.Safe.bind (Method.Safe.result (Method.Safe.mono
        (Program.Safe.own_allows (Method.Safe.ending halone)) ?_ ?_))
      · rintro ⟨⟩ new v₁ ⟨⟨tags, htags, hupdated⟩, _⟩
        obtain ⟨metadata, hread, hequal⟩ := hupdated.handleOf.stored.readPrefix_eq
        have hknows' : new.Knows (v₁.data new.file) :=
          ⟨metadata, hread, hupdated.handleOf.metadata_equal.trans hequal.symm⟩
        refine Method.Safe.bind (Method.Safe.mono (ih _ (fun u hu => hoffered u (.updated hu))
          (Nat.le_trans hfloor hupdated.above.next_le) (hupdated.path_eq.trans hpath)
          hupdated.handleOf.file hknows' (hmakes htags hupdated.handleOf.stored)
          fun htidy p hp => (hupdated.others (hpath ▸ hp)).trans (hclean htidy p hp)) ?_
          fun _ _ _ h => h)
        exact fun rest _ _ hrest => Method.Safe.pure (.updated hupdated.writable_eq.1
          ⟨tags, htags, hupdated.handleOf.stored⟩ hknows' hrest)
      · rintro e _ v₁ ⟨⟨rfl, hspared, hreason⟩, hrun⟩
        have hdata : v₁.data k = v.data k :=
          congrArg Inode.data (hspared.above.inodes hopen.lt_next)
        refine Method.Safe.bind (Method.Safe.mono (ih _ (fun u hu => hoffered u (.updated hu))
          (Nat.le_trans hfloor hspared.above.next_le) hpath
          (hopen.of_above hspared.above (Nat.le_refl _)) (hdata ▸ hknows) (hdata ▸ hline)
          fun htidy p hp =>
            (hspared.tidy (tidy_orTaken_iff.mpr htidy) (hpath ▸ hp)).trans (hclean htidy p hp)) ?_
          fun _ _ _ h => h)
        intro rest _ _ hrest
        rw [hdata] at hrest
        rw [← hpath] at hclean
        exact Method.Safe.pure (.refused ⟨⟨v, v₁, k, hopen, rfl, hclean, hrun⟩,
          fun hwritable => (hreason hwritable).alone fun htidy =>
            hclean (tidy_orTaken_iff.mp htidy)⟩ hrest)

/-- The user has opened a file of the lineage, and is told of it what it would be told alone. -/
def ToldOf (mayFail : FsCall → Prop) (taken : Path → Prop) (offered : Update → Prop)
    (data₀ : List UInt8) (events : List Event) : Prop :=
  ∃ object data, Lineage offered data₀ data ∧
    readPrefix data = .ok (object.header, object.metadata) ∧ Told mayFail taken object data events

/-- What a user comes to: what it is told of a file of the lineage, or why it has not opened one. -/
def Rewriter.Ends (mayFail : FsCall → Prop) (taken : Path → Prop) (user : Rewriter) (path : Path)
    (offered : Update → Prop) (data₀ : List UInt8) : Except ObjectFileError (List Event) → Prop
  | .ok events => ToldOf mayFail taken offered data₀ events
  | .error e => IsFault (FailsIn mayFail (TuxObject.openAs path user.writable)) e ∨
      readPrefix data₀ = .error e

lemma Rewriter.program_safe (user : Rewriter)
    (hoffered : ∀ u, user.script.Offers u → offered u) (hfloor : w₀.next ≤ v.next)
    (hclean : ∀ p, v.dir p = none) :
    Program.Safe (OwnStep mayFail taken (Lineage offered data₀))
      (OwnMay w₀ path (Lineage offered data₀)) (user.program path)
      (fun result _ => user.Ends mayFail taken path offered data₀ result) v := by
  unfold Rewriter.program
  refine Program.Safe.bind (Program.Safe.mono ?_
    (Fallible.Safe.owned (openAs_own path user.writable v)))
  rintro (e | object) v₁ hopened
  · refine hopened.imp_right fun h => ?_
    obtain ⟨data, hline, herror⟩ := h
    exact hline.unopened herror
  · obtain ⟨hpath, ⟨hnext, hdir⟩, k, hopen, hline, hread⟩ := hopened
    refine Program.Safe.bind (Program.Safe.mono ?_ (RewriteScript.run_safe user.script hoffered
      (Nat.le_trans hfloor hnext) hpath hopen ⟨_, hread, Tags.Equal.refl _⟩ hline
      fun _ p _ => hdir ▸ hclean p))
    rintro ⟨_ | events, _⟩ v₂ htold
    · exact htold.elim
    · exact ⟨object, _, hline, hread, htold⟩

/-! ## All users -/

variable {κ : Type} [DecidableEq κ]

/-- Users at work on one file system. -/
abbrev Rewriters (κ : Type) : Type :=
  Pool FsCall.Reply κ (Except ObjectFileError (List Event)) World

namespace Rewriters

/-- Nobody has begun. -/
def start (users : κ → Rewriter) (path : Path) (w₀ : World) : Rewriters κ :=
  ⟨fun k => (users k).program path, w₀⟩

/-- Any interleaving of their calls, where those of the user `k` may fail for which `mayFail k`
holds. -/
def Reachable (mayFail : κ → FsCall → Prop) (users : κ → Rewriter) (p q : Rewriters κ) : Prop :=
  Pool.Reachable (fun k => ProcessStep (mayFail k) (users k).pid) p q

/-- What the user has been told by now. -/
def HasBeenTold (p : Rewriters κ) (k : κ) (events : List Event) : Prop :=
  Always (fun result => ∃ rest, result = .ok (events ++ rest)) (p.threads k)

end Rewriters

/-- Some user may come to the update. -/
def OfferedBy (users : κ → Rewriter) (u : Update) : Prop := ∃ k, (users k).script.Offers u

/-- The paths at which the user `k` may meet somebody else's temporary file. -/
abbrev TakenFrom (users : κ → Rewriter) (path : Path) (w₀ : World) (k : κ) : Path → Prop :=
  Taken path w₀ (fun k => (users k).pid) k

/-- What stands at the path is a file of the lineage, with the content of the initial one; the other
files hold what they held, under their paths; and every user has been told what it would have been
told alone. -/
structure PrivateHistories (mayFail : κ → FsCall → Prop) (users : κ → Rewriter) (path : Path)
    (w₀ : World) (i : ℕ) (p : Rewriters κ) : Prop where
  entry : ∃ k, p.shared.dir path = some k ∧
    Lineage (OfferedBy users) (w₀.data i) (p.shared.data k) ∧
      KeepsContent (w₀.data i) (p.shared.data k)
  data : ∀ {k}, k < w₀.next → p.shared.data k = w₀.data k
  others : ∀ {q}, q ≠ path → (IsTempPath path q → w₀.dir q ≠ none) → p.shared.dir q = w₀.dir q
  told : ∀ {k events}, p.HasBeenTold k events →
    ToldOf (mayFail k) (TakenFrom users path w₀ k) (OfferedBy users) (w₀.data i) events
  unopened : ∀ {k e}, p.threads k = .done (.error e) →
    IsFault (FailsIn (mayFail k) (TuxObject.openAs path (users k).writable)) e ∨
      readPrefix (w₀.data i) = .error e

variable {mayFail : κ → FsCall → Prop} {users : κ → Rewriter} {p : Rewriters κ} {i : ℕ}

/-- Nobody knows anything yet. -/
lemma rivals_unknown (users : κ → Rewriter) (hdir : w₀.dir path = some i) :
    Rivals path w₀ (Lineage (OfferedBy users) (w₀.data i)) (fun k => (users k).pid) w₀
      fun k => w₀.unknown (users k).pid where
  sees _ := ⟨Nat.le_refl _, Nat.le_refl _, rfl, fun _ h => absurd h.symm (Option.some_ne_none _),
    fun h => absurd h.symm (Option.some_ne_none _)⟩
  apart _ := ⟨fun _ _ => rfl, fun _ => rfl, fun _ h => absurd h.symm (Option.some_ne_none _)⟩
  standing := ⟨Nat.le_refl _, fun _ => rfl, fun _ _ => rfl, w₀.onePath_next, i, hdir, .initial⟩
  entered p j _ hp := by
    left
    rw [hp]
    exact Option.some_ne_none j

/-- The users are rivals, and who has ended has been told what it would have been told alone. -/
lemma rewriters_ended (hdir : w₀.dir path = some i)
    (hp : (Rewriters.start users path w₀).Reachable mayFail users p) :
    (∃ views, Rivals path w₀ (Lineage (OfferedBy users) (w₀.data i)) (fun k => (users k).pid)
      p.shared views) ∧
    ∀ {k result}, p.threads k = .done result →
      (users k).Ends (mayFail k) (TakenFrom users path w₀ k) path (OfferedBy users) (w₀.data i)
        result := by
  obtain ⟨views, hrivals, hsafe⟩ := Pool.invariantEach
    (fun k c w r w' views h hmay hstep => Rivals.step h hmay hstep) hp
    ⟨_, rivals_unknown users hdir, fun k =>
      (users k).program_safe (fun u hu => ⟨k, hu⟩) (Nat.le_refl _) fun _ => rfl⟩
  refine ⟨⟨views, hrivals⟩, @fun k result hdone => ?_⟩
  have hend := hsafe k
  rw [hdone] at hend
  exact hend

/-- Users who replace one file with atomic updates, in any interleaving and with any fault, have
private histories. -/
theorem private_histories (hdir : w₀.dir path = some i)
    (hp : (Rewriters.start users path w₀).Reachable mayFail users p) :
    PrivateHistories mayFail users path w₀ i p := by
  obtain ⟨⟨_, hrivals⟩, hended⟩ := rewriters_ended hdir hp
  obtain ⟨k, hentry, hline⟩ := hrivals.standing.entry
  refine ⟨⟨k, hentry, hline, hline.keepsContent⟩, hrivals.standing.data, hrivals.standing.others,
    @fun k events htold => ?_, fun hdone => hended hdone⟩
  -- the user is told the rest when it goes on to its end
  obtain ⟨_, q, hq, hdone, rest, rfl⟩ :=
    Pool.Reachable.bound hp (processStep_perform (mayFail k) (users k).pid) htold
  obtain ⟨object, data, hline', hread, hall⟩ := (rewriters_ended hdir hq).2 hdone
  exact ⟨object, data, hline', hread, hall.of_append⟩

end

attribute [local instance] fullPlatform pairCodecs

/-- A file without metadata and tags. -/
def bareFile : List UInt8 := (headerOf .none ⟨32, 32⟩ 2).wire ++ [7, 9]

/-- Two processes: one sets a tag, the other the metadata; both then ask for the tags. -/
def twoRewriters (second : Bool) : Rewriter where
  pid := if second then 2 else 1
  writable := true
  script := .update
    (if second then .setMetadata Tags.new else .setTags (Tags.new.insert "k" (.bool true)))
    fun _ => .ask .tagCount fun _ => .stop

/-- One user goes on for `n` calls while the others wait. -/
def Rewriters.turn {κ : Type} [DecidableEq κ] (users : κ → Rewriter) (p : Rewriters κ) (k : κ)
    (n : ℕ) : Rewriters κ :=
  let next := Program.advance (ProcessStep.perform (users k).pid) n (p.threads k) p.shared
  ⟨Function.update p.threads k next.1, next.2⟩

lemma Rewriters.Reachable.turn {κ : Type} [DecidableEq κ] {users : κ → Rewriter}
    {p q : Rewriters κ} (h : p.Reachable (fun _ => NoFaults) users q) (k : κ) (n : ℕ) :
    p.Reachable (fun _ => NoFaults) users (q.turn users k n) :=
  Pool.Reachable.advance k (processStep_perform NoFaults (users k).pid) n h

/-- Both have opened the file before either of them replaces it. -/
def racedUpdates : Rewriters Bool :=
  (((Rewriters.start twoRewriters World.somePath (World.single bareFile)).turn twoRewriters false
    10).turn twoRewriters true 60).turn twoRewriters false 60

/-- Whether the user has ended. -/
def Rewriters.hasEnded {κ : Type} (p : Rewriters κ) (k : κ) : Bool :=
  match p.threads k with
  | .done _ => true
  | .call _ _ => false

theorem private_histories_raced : racedUpdates.shared.dir World.somePath ≠ some 0 ∧
    racedUpdates.hasEnded false = true ∧ racedUpdates.hasEnded true = true ∧
    PrivateHistories (fun _ => NoFaults) twoRewriters World.somePath (World.single bareFile) 0
      racedUpdates := by
  have hreplaced : racedUpdates.shared.dir World.somePath ≠ some 0 := by decide +kernel
  have hfirst : racedUpdates.hasEnded false = true := by decide +kernel
  have hsecond : racedUpdates.hasEnded true = true := by decide +kernel
  have hp : (Rewriters.start twoRewriters World.somePath (World.single bareFile)).Reachable
      (fun _ => NoFaults) twoRewriters racedUpdates :=
    ((Rewriters.Reachable.turn .refl false 10).turn true 60).turn false 60
  exact ⟨hreplaced, hfirst, hsecond, private_histories rfl hp⟩

end TuxEncoding
