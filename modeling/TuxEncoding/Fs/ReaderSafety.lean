import TuxEncoding.Fs.Contract

/-!
# Reading changes nothing

* `Reads` is the contract of a reader: it moves and reads handles that are open.
* `Undisturbed` is what that leaves as it was: everything but where handles stand.
* `readExact_safe` reads the bytes it is after, unless a fault or the end of the file keeps it from
  doing so.
* `ContentReader.readToEnd_safe`: a bounded reader returns what the file holds behind the handle, up
  to its bound.
-/

namespace TuxEncoding

open Bytes Interaction Program

set_option linter.unusedSectionVars false

variable [Platform]

variable {mayFail : FsCall → Prop} {w w₁ w₂ : World}

/-- The calls of a reader. -/
def Reads : FsCall → World → Prop
  | .seek fd _, w | .read fd _, w | .readExact fd _, w => ∃ f, w.files fd = some f
  | _, _ => False

/-- A writer may read what is open. -/
lemma Reads.allows {job : Job} {c : FsCall} {w : World} (h : Reads c w) : job.Allows c w := by
  cases c with
  | seek fd pos | read fd n | readExact fd n => exact h
  | _ => exact h.elim

/-- Nothing has changed but where handles stand; there may be new ones. -/
structure Undisturbed (w w' : World) : Prop where
  next_le : w.next ≤ w'.next
  pid_eq : w'.pid = w.pid
  dir_eq : w'.dir = w.dir
  inodes_eq : w'.inodes = w.inodes
  files : ∀ {fd f}, w.files fd = some f → ∃ pos, w'.files fd = some { f with pos := pos }

namespace Undisturbed

lemma refl (w : World) : Undisturbed w w := ⟨Nat.le_refl _, rfl, rfl, rfl, fun h => ⟨_, h⟩⟩

lemma trans (h₁ : Undisturbed w w₁) (h₂ : Undisturbed w₁ w₂) : Undisturbed w w₂ where
  next_le := Nat.le_trans h₁.next_le h₂.next_le
  pid_eq := h₂.pid_eq.trans h₁.pid_eq
  dir_eq := h₂.dir_eq.trans h₁.dir_eq
  inodes_eq := h₂.inodes_eq.trans h₁.inodes_eq
  files hf := by
    obtain ⟨_, hf₁⟩ := h₁.files hf
    obtain ⟨pos, hf₂⟩ := h₂.files hf₁
    exact ⟨pos, hf₂⟩

lemma seekTo (fd pos : ℕ) : Undisturbed w (w.seekTo fd pos) where
  next_le := Nat.le_refl _
  pid_eq := rfl
  dir_eq := rfl
  inodes_eq := rfl
  files {fd' f} hf := by
    by_cases h : fd' = fd
    · subst h
      exact ⟨pos, World.seekTo_files_self hf⟩
    · exact ⟨f.pos, (World.seekTo_files_of_ne h pos).trans hf⟩

lemma openAt {path : Path} {writable : Bool} {n : ℕ} (hn : w.next ≤ n) :
    Undisturbed w (w.openAt path writable n hn) where
  next_le := Nat.le_succ_of_le hn
  pid_eq := rfl
  dir_eq := rfl
  inodes_eq := rfl
  files {fd f} hf := by
    have hne : fd ≠ n := (World.ne_of_files hf hn).1
    exact ⟨f.pos, (Function.update_of_ne hne _ _).trans hf⟩

/-- A reader leaves everything alone that a writer has to. -/
lemma above (h : Undisturbed w w₁) (n : ℕ) (final : Path) : Above n final w w₁ where
  next_le := h.next_le
  files _ hf := h.files hf
  inodes _ := by rw [h.inodes_eq]
  dir _ _ := by rw [h.dir_eq]

end Undisturbed

/-- The bytes that `read_exact` is after. -/
lemma length_slice {data : List UInt8} {start n : ℕ} (h : start + n ≤ data.length) :
    ((data.drop start).take n).length = n := by
  rw [List.length_take, List.length_drop]
  omega

/-- `read_exact` fails on a fault or where the file is too short. -/
lemma readExact_safe {fd : ℕ} {f : OpenFile} {n : ℕ} {Q : List UInt8 → World → Prop}
    {E : ObjectFileError → World → Prop} (hf : w.files fd = some f)
    (hok : (((w.data f.inode).drop f.pos).take n).length = n →
      Q (((w.data f.inode).drop f.pos).take n) (w.seekTo fd (f.pos + n)))
    (herr : ∀ e, mayFail (.readExact fd n) ∨
      (((w.data f.inode).drop f.pos).take n).length < n ∧ e = shortRead →
        ∀ pos, E (.io e) (w.seekTo fd pos)) :
    Fallible.Safe (FsStep mayFail) Reads (attemptIo (sys (.readExact fd n))) Q E w := by
  refine Fallible.Safe.attempt (Program.Safe.request ⟨f, hf⟩ ?_)
  intro r w' hstep
  obtain ⟨hlen, rfl, rfl⟩ | ⟨e, hreason, rfl, pos, rfl⟩ := hstep.readExact_inv hf
  · exact hok hlen
  · exact herr e hreason pos

/-- Moving a handle to where it stands is moving it nowhere. -/
lemma World.seekTo_self {fd : ℕ} {f : OpenFile} (hf : w.files fd = some f) :
    w.seekTo fd f.pos = w := by
  have hfiles : Function.update w.files fd ((w.files fd).map fun f' => { f' with pos := f.pos }) =
      w.files := by
    rw [Function.update_eq_self_iff, hf]
    rfl
  unfold World.seekTo
  simp only [hfiles]

namespace ContentReader

variable {reader : ContentReader} {f : OpenFile}

/-- `read` takes the next bytes in front of the reader's bound, and none only at the end. -/
lemma read_safe (hf : w.files reader.file = some f) {length : ℕ} (hlength : 0 < length) :
    Fallible.Safe (FsStep mayFail) Reads (reader.read length)
      (fun p w' => ∃ m ≤ reader.remaining, p.1 = ((w.data f.inode).drop f.pos).take m ∧
        (m = 0 → reader.remaining = 0) ∧
        p.2 = { reader with remaining := reader.remaining - p.1.length } ∧
        w' = w.seekTo reader.file (f.pos + p.1.length))
      (fun _ w' => w' = w ∧ ∃ c, mayFail c) w := by
  unfold ContentReader.read
  by_cases hzero : reader.remaining = 0 ∨ length = 0
  · rw [if_pos hzero]
    have hremaining : reader.remaining = 0 := hzero.resolve_right (by omega)
    exact Fallible.Safe.pure ⟨0, Nat.zero_le _, List.take_zero.symm, fun _ => hremaining, rfl,
      (World.seekTo_self hf).symm⟩
  rw [if_neg hzero]
  refine Fallible.Safe.bind (Fallible.Safe.attempt (Program.Safe.request ⟨f, hf⟩ ?_))
  intro r w' hstep
  obtain ⟨m, hm, hall, rfl, rfl⟩ | ⟨hfail, ⟨e, rfl⟩, rfl⟩ := hstep.read_inv hf
  · exact Fallible.Safe.pure ⟨m, by omega, rfl, by omega, rfl, rfl⟩
  · exact ⟨rfl, _, hfail⟩

/-- Taking some bytes and then the rest of them takes them all. -/
lemma take_append_rest {α : Type} (l : List α) {m r : ℕ} (h : m ≤ r) :
    l.take r = l.take m ++ (l.drop (l.take m).length).take (r - (l.take m).length) := by
  by_cases hm : m ≤ l.length
  · rw [List.length_take, Nat.min_eq_left hm, ← List.take_add, Nat.add_sub_cancel' h]
  · rw [List.take_of_length_le (l := l) (i := m) (by omega), List.drop_length, List.take_nil,
      List.append_nil, List.take_of_length_le (by omega)]

/-- What is left to read is what was read and what is left then. -/
lemma rest_eq {data rest chunk : List UInt8} {pos remaining m : ℕ} (hm : m ≤ remaining)
    (hrest : rest = (data.drop pos).take remaining) (hchunk : chunk = (data.drop pos).take m) :
    rest = chunk ++ (data.drop (pos + chunk.length)).take (remaining - chunk.length) := by
  rw [hrest, hchunk, ← List.drop_drop]
  exact take_append_rest _ hm

/-- A read that returns nothing has come to the end. -/
lemma rest_nil {data rest : List UInt8} {pos remaining m : ℕ} (hm : m = 0 → remaining = 0)
    (hrest : rest = (data.drop pos).take remaining) (hchunk : [] = (data.drop pos).take m) :
    rest = [] := by
  have hlen := congrArg List.length hchunk
  rw [List.length_take, List.length_drop, List.length_nil] at hlen
  rw [hrest]
  apply List.eq_nil_of_length_eq_zero
  rw [List.length_take, List.length_drop]
  omega

/-- With enough reads to go, `read_to_end` returns what is left to read. -/
lemma readToEnd_safe (n : ℕ) {rest : List UInt8} (hn : reader.remaining < n)
    (hf : w.files reader.file = some f)
    (hrest : rest = ((w.data f.inode).drop f.pos).take reader.remaining) :
    Fallible.Safe (FsStep mayFail) Reads (reader.readToEnd n)
      (fun bs w' => bs = rest ∧ Undisturbed w w')
      (fun _ w' => Undisturbed w w' ∧ ∃ c, mayFail c) w := by
  induction n generalizing w reader f rest with
  | zero => omega
  | succ n ih =>
      unfold readToEnd
      refine Fallible.Safe.bind (Fallible.Safe.mono
        (read_safe hf (by decide : 0 < copyBufferSize)) ?_ ?_)
      swap
      · rintro e w' ⟨rfl, hfail⟩
        exact ⟨Undisturbed.refl _, hfail⟩
      rintro ⟨chunk, reader'⟩ _ ⟨m, hm, hchunk, hzero, hreader, rfl⟩
      dsimp only at hchunk hreader ⊢
      by_cases hempty : chunk = []
      · subst hempty
        rw [if_pos List.isEmpty_nil]
        exact Fallible.Safe.pure ⟨(rest_nil hzero hrest hchunk).symm, Undisturbed.seekTo _ _⟩
      rw [if_neg (by simpa using hempty)]
      have hpos : 0 < chunk.length := List.length_pos_iff.mpr hempty
      have hle : chunk.length ≤ reader.remaining := by
        rw [hchunk, List.length_take]
        omega
      have hremaining : reader'.remaining = reader.remaining - chunk.length :=
        congrArg ContentReader.remaining hreader
      have hf' : (w.seekTo reader.file (f.pos + chunk.length)).files reader'.file =
          some { f with pos := f.pos + chunk.length } := by
        rw [hreader]
        exact World.seekTo_files_self hf
      refine Fallible.Safe.bind (Fallible.Safe.mono (ih (by omega) hf' rfl) ?_ ?_)
      · rintro bs w' ⟨rfl, hsame⟩
        refine Fallible.Safe.pure ⟨?_, (Undisturbed.seekTo _ _).trans hsame⟩
        rw [hremaining]
        exact (rest_eq hm hrest hchunk).symm
      · rintro e w' ⟨hsame, hfail⟩
        exact ⟨(Undisturbed.seekTo _ _).trans hsame, hfail⟩

end ContentReader

end TuxEncoding
