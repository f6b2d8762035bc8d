import TuxEncoding.Fs.World

/-!
# Calls on a handle

What a call on a handle does is a change of the file under it, and depends on nothing else.

* `Change` is such a change, and `Change.apply` what it does to a file system.
* `FsStep.same_bytes`: a call on a handle has the same answers and makes the same changes in two
  file systems that agree on the bytes under it; `FsStep.same` is the case of the whole file.
-/

namespace TuxEncoding

open Bytes Interaction

/-- What a call on a handle does to the file system. -/
inductive Change
  | none
  | seek (pos : ℕ)
  | put (bs : List UInt8)
  | sync

/-- Change the file `f` under the handle `fd`. -/
def Change.apply (fd : Fd) (f : OpenFile) : Change → World → World
  | none, w => w
  | seek pos, w => w.seekTo fd pos
  | put bs, w => w.put fd f bs
  | sync, w => w.setInode f.inode ⟨w.data f.inode, true⟩

/-- The handle that a call is made on. -/
def FsCall.fd : FsCall → Option Fd
  | seek fd _ | read fd _ | readExact fd _ | write fd _ | writeAll fd _ | flush fd | syncAll fd
  | tryClone fd => some fd
  | _ => none

/-- The call writes. -/
def FsCall.Writes : FsCall → Prop
  | write _ _ | writeAll _ _ => True
  | _ => False

section change

variable {mayFail : FsCall → Prop} {c : FsCall} {w w' w₁ : World} {fd : Fd} {f : OpenFile}

/-- The file system `w₁` is like `w` as far as calls on this handle can tell. -/
structure SameFile (fd : Fd) (f : OpenFile) (w w₁ : World) : Prop where
  left : w.files fd = some f
  right : w₁.files fd = some f
  inode_eq : w₁.inodes f.inode = w.inodes f.inode

/-- The same, where the one may have synced more than the other. -/
structure SameBytes (fd : Fd) (f : OpenFile) (w w₁ : World) : Prop where
  left : w.files fd = some f
  right : w₁.files fd = some f
  data_eq : w₁.data f.inode = w.data f.inode

lemma SameFile.sameBytes (h : SameFile fd f w w₁) : SameBytes fd f w w₁ :=
  ⟨h.left, h.right, congrArg Inode.data h.inode_eq⟩

lemma SameFile.data_eq (h : SameFile fd f w w₁) : w₁.data f.inode = w.data f.inode :=
  h.sameBytes.data_eq

/-- Without a fault a call on a handle depends on its file only. -/
lemma succeed_same (hfd : c.fd = some fd) (h : SameBytes fd f w w₁) (k : ℕ) :
    ∃ r, ∃ change : Change, succeed k c w = (r, change.apply fd f w) ∧
      succeed k c w₁ = (r, change.apply fd f w₁) ∧
        ∀ bs, change = .put bs → c.Writes := by
  cases c with
  | seek fd' pos =>
      obtain rfl := Option.some.inj hfd
      simp only [succeed, h.left, h.right]
      split_ifs
      · exact ⟨_, .none, rfl, rfl, by simp⟩
      · exact ⟨_, .seek pos, rfl, rfl, by simp⟩
  | read fd' n =>
      obtain rfl := Option.some.inj hfd
      simp only [succeed, h.left, h.right, h.data_eq]
      exact ⟨_, .seek _, rfl, rfl, by simp⟩
  | readExact fd' n =>
      obtain rfl := Option.some.inj hfd
      simp only [succeed, h.left, h.right, h.data_eq]
      exact ⟨_, .seek _, rfl, rfl, by simp⟩
  | write fd' bs | writeAll fd' bs =>
      obtain rfl := Option.some.inj hfd
      simp only [succeed, h.left, h.right]
      split_ifs
      · exact ⟨_, .none, rfl, rfl, by simp⟩
      · exact ⟨_, .put bs, rfl, rfl, fun _ _ => trivial⟩
      · exact ⟨_, .none, rfl, rfl, by simp⟩
  | flush fd' => exact ⟨_, .none, rfl, rfl, by simp⟩
  | syncAll fd' =>
      obtain rfl := Option.some.inj hfd
      simp only [succeed, h.left, h.right]
      exact ⟨_, .sync, rfl, rfl, by simp⟩
  | tryClone fd' =>
      obtain rfl := Option.some.inj hfd
      simp only [succeed, h.left, h.right]
      exact ⟨_, .none, rfl, rfl, by simp⟩
  | _ => cases hfd

/-- So does a call with a fault. -/
lemma faults_same (hfd : c.fd = some fd) (h : SameBytes fd f w w₁) {r : c.Reply}
    (hfault : Faults c w r w') :
    ∃ change : Change, w' = change.apply fd f w ∧ Faults c w₁ r (change.apply fd f w₁) ∧
      ∀ bs, change = .put bs → c.Writes := by
  cases c with
  | seek _ _ | flush _ | syncAll _ | tryClone _ =>
      obtain ⟨⟨e, rfl⟩, rfl⟩ := hfault
      exact ⟨.none, rfl, ⟨⟨e, rfl⟩, rfl⟩, by simp⟩
  | read fd' n =>
      rcases hfault with ⟨⟨e, rfl⟩, rfl⟩ | ⟨m, hm, hpos, hpart⟩
      · exact ⟨.none, rfl, .inl ⟨⟨e, rfl⟩, rfl⟩, by simp⟩
      · obtain ⟨_, change, hleft, hright, hwrites⟩ := succeed_same (c := .read fd' m) hfd h 0
        obtain ⟨rfl, rfl⟩ := Prod.mk.inj (hpart.trans hleft)
        exact ⟨change, rfl, .inr ⟨m, hm, hpos, hright.symm⟩, hwrites⟩
  | readExact fd' n =>
      obtain ⟨⟨e, rfl⟩, m, hm, rfl⟩ := hfault
      obtain ⟨_, change, hleft, hright, hwrites⟩ := succeed_same (c := .readExact fd' m) hfd h 0
      exact ⟨change, congrArg Prod.snd hleft,
        ⟨⟨e, rfl⟩, m, hm, (congrArg Prod.snd hright).symm⟩, hwrites⟩
  | write fd' bs =>
      rcases hfault with ⟨⟨e, rfl⟩, rfl⟩ | ⟨m, hm, hpos, hpart⟩
      · exact ⟨.none, rfl, .inl ⟨⟨e, rfl⟩, rfl⟩, by simp⟩
      · obtain ⟨_, change, hleft, hright, _⟩ := succeed_same (c := .write fd' (bs.take m)) hfd h 0
        obtain ⟨rfl, rfl⟩ := Prod.mk.inj (hpart.trans hleft)
        exact ⟨change, rfl, .inr ⟨m, hm, hpos, hright.symm⟩, fun _ _ => trivial⟩
  | writeAll fd' bs =>
      obtain ⟨⟨e, rfl⟩, m, hm, rfl⟩ := hfault
      obtain ⟨_, change, hleft, hright, _⟩ := succeed_same (c := .writeAll fd' (bs.take m)) hfd h 0
      exact ⟨change, congrArg Prod.snd hleft,
        ⟨⟨e, rfl⟩, m, hm, (congrArg Prod.snd hright).symm⟩, fun _ _ => trivial⟩
  | _ => cases hfd

/-- A call on a handle does to one file system what it does to another one with the same bytes. -/
lemma FsStep.same_bytes (hfd : c.fd = some fd) (h : SameBytes fd f w w₁) {r : c.Reply}
    (hstep : FsStep mayFail c w r w') :
    ∃ change : Change, w' = change.apply fd f w ∧ FsStep mayFail c w₁ r (change.apply fd f w₁) ∧
      ∀ bs, change = .put bs → c.Writes := by
  rcases hstep with ⟨k, hk⟩ | ⟨hmay, hfault⟩
  · obtain ⟨r', change, hleft, hright, hwrites⟩ := succeed_same hfd h k
    obtain ⟨rfl, rfl⟩ := Prod.mk.inj (hk.trans hleft)
    exact ⟨change, rfl, .inl ⟨k, hright.symm⟩, hwrites⟩
  · obtain ⟨change, hchange, hfault', hwrites⟩ := faults_same hfd h hfault
    exact ⟨change, hchange, .inr ⟨hmay, hfault'⟩, hwrites⟩

lemma FsStep.same (hfd : c.fd = some fd) (h : SameFile fd f w w₁) {r : c.Reply}
    (hstep : FsStep mayFail c w r w') :
    ∃ change : Change, w' = change.apply fd f w ∧ FsStep mayFail c w₁ r (change.apply fd f w₁) ∧
      ∀ bs, change = .put bs → c.Writes := hstep.same_bytes hfd h.sameBytes

end change

namespace Change

variable {fd : Fd} {f : OpenFile} {w : World}

@[simp] lemma apply_dir (change : Change) : (change.apply fd f w).dir = w.dir := by
  cases change <;> rfl

@[simp] lemma apply_next (change : Change) : (change.apply fd f w).next = w.next := by
  cases change <;> rfl

@[simp] lemma apply_pid (change : Change) : (change.apply fd f w).pid = w.pid := by
  cases change <;> rfl

lemma apply_inodes_of_ne (change : Change) {i : ℕ} (h : i ≠ f.inode) :
    (change.apply fd f w).inodes i = w.inodes i := by
  cases change with
  | none | seek pos => rfl
  | put bs => exact World.put_inodes_of_ne fd h bs
  | sync => exact World.setInode_inodes_of_ne h _

lemma apply_files_of_ne (change : Change) {fd' : Fd} (h : fd' ≠ fd) :
    (change.apply fd f w).files fd' = w.files fd' := by
  cases change with
  | none | sync => rfl
  | seek pos => exact World.seekTo_files_of_ne h pos
  | put bs => exact World.put_files_of_ne h f bs

/-- The file of the handle changes alike where it is alike. -/
lemma apply_same (change : Change) {w₁ : World} (h : SameFile fd f w w₁) :
    (change.apply fd f w₁).inodes f.inode = (change.apply fd f w).inodes f.inode ∧
      (change.apply fd f w₁).files fd = (change.apply fd f w).files fd ∧
      ∀ f', (change.apply fd f w).files fd = some f' → f'.inode = f.inode := by
  have hself : ∀ f', w.files fd = some f' → f'.inode = f.inode := by
    intro f' hf'
    rw [Option.some.inj (h.left.symm.trans hf')]
  cases change with
  | none => exact ⟨h.inode_eq, h.right.trans h.left.symm, hself⟩
  | seek pos =>
      have hmoved : (w.seekTo fd pos).files fd = _ := World.seekTo_files_self h.left
      refine ⟨h.inode_eq, (World.seekTo_files_self h.right).trans hmoved.symm, ?_⟩
      intro f' hf'
      rw [← Option.some.inj (hmoved.symm.trans hf')]
  | put bs =>
      have hmoved := World.put_files_self h.left bs
      refine ⟨?_, (World.put_files_self h.right bs).trans hmoved.symm, ?_⟩
      · show (World.setInode _ _ _).inodes _ = (World.setInode _ _ _).inodes _
        rw [World.setInode_inodes_self, World.setInode_inodes_self, h.data_eq, h.inode_eq]
      · intro f' hf'
        rw [← Option.some.inj (hmoved.symm.trans hf')]
  | sync =>
      refine ⟨?_, h.right.trans h.left.symm, hself⟩
      show (World.setInode _ _ _).inodes _ = (World.setInode _ _ _).inodes _
      rw [World.setInode_inodes_self, World.setInode_inodes_self, h.data_eq]

/-- Its bytes change alike where they are alike. -/
lemma apply_same_bytes (change : Change) {w₁ : World} (h : SameBytes fd f w w₁) :
    (change.apply fd f w₁).data f.inode = (change.apply fd f w).data f.inode ∧
      (change.apply fd f w₁).files fd = (change.apply fd f w).files fd := by
  cases change with
  | none => exact ⟨h.data_eq, h.right.trans h.left.symm⟩
  | seek pos =>
      have hmoved : (w.seekTo fd pos).files fd = _ := World.seekTo_files_self h.left
      exact ⟨h.data_eq, (World.seekTo_files_self h.right).trans hmoved.symm⟩
  | put bs =>
      refine ⟨?_, (World.put_files_self h.right bs).trans (World.put_files_self h.left bs).symm⟩
      show ((World.setInode _ _ _).inodes _).data = ((World.setInode _ _ _).inodes _).data
      rw [World.setInode_inodes_self, World.setInode_inodes_self, h.data_eq]
  | sync =>
      refine ⟨?_, h.right.trans h.left.symm⟩
      show ((World.setInode _ _ _).inodes _).data = ((World.setInode _ _ _).inodes _).data
      rw [World.setInode_inodes_self, World.setInode_inodes_self, h.data_eq]

/-- What writes nothing changes no bytes. -/
lemma apply_data (change : Change) (hput : ∀ bs, change ≠ .put bs) :
    (change.apply fd f w).data f.inode = w.data f.inode := by
  cases change with
  | none | seek pos => rfl
  | put bs => exact absurd rfl (hput bs)
  | sync =>
      show (World.setInode w f.inode ⟨w.data f.inode, true⟩).data f.inode = _
      rw [World.data, World.setInode_inodes_self]

/-- What writes to another file at most changes no bytes. -/
lemma apply_data_kept (change : Change) {i : ℕ} (hkept : ∀ bs, change = .put bs → i ≠ f.inode) :
    (change.apply fd f w).data i = w.data i := by
  rcases eq_or_ne i f.inode with rfl | hne
  · exact change.apply_data fun bs hbs => hkept bs hbs rfl
  · exact congrArg Inode.data (change.apply_inodes_of_ne hne)

/-- Bytes that are the same in both file systems stay so. -/
lemma apply_data_same (change : Change) {w₁ : World} (h : SameBytes fd f w w₁) {i : ℕ}
    (hdata : w₁.data i = w.data i) :
    (change.apply fd f w₁).data i = (change.apply fd f w).data i := by
  rcases eq_or_ne i f.inode with rfl | hne
  · exact (change.apply_same_bytes h).1
  · rw [World.data, World.data, change.apply_inodes_of_ne hne, change.apply_inodes_of_ne hne]
    exact hdata

/-- So does a file. -/
lemma apply_inodes_same (change : Change) {w₁ : World} (hleft : w.files fd = some f)
    (hright : w₁.files fd = some f) {i : ℕ} (hinode : w₁.inodes i = w.inodes i) :
    (change.apply fd f w₁).inodes i = (change.apply fd f w).inodes i := by
  rcases eq_or_ne i f.inode with rfl | hne
  · exact (change.apply_same ⟨hleft, hright, hinode⟩).1
  · rw [change.apply_inodes_of_ne hne, change.apply_inodes_of_ne hne]
    exact hinode

/-- A handle is on the file it was on. -/
lemma apply_files_cases (change : Change) (h : w.files fd = some f) {fd' : Fd} {f' : OpenFile}
    (hf' : (change.apply fd f w).files fd' = some f') :
    ∃ f₀, w.files fd' = some f₀ ∧ f₀.inode = f'.inode := by
  rcases eq_or_ne fd' fd with rfl | hne
  · exact ⟨f, h, ((change.apply_same ⟨h, h, rfl⟩).2.2 f' hf').symm⟩
  · exact ⟨f', (change.apply_files_of_ne hne).symm.trans hf', rfl⟩

end Change

end TuxEncoding
