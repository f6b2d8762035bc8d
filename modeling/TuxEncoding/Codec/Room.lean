import TuxEncoding.Codec.Tags

/-!
# Room in a slice

A `Cursor<&mut [u8]>` is the one writer of the crate that runs out of room. `Needs n enc` says that
`n` bytes of room are enough for the encoder `enc`: it then leaves the slice as long as it was, ends
at most `n` bytes on, and fails only where a limit of the format is exceeded, never for want of
room.

* `Needs.bind`, `needs_emit`, `needs_writeEach`: the judgement is kept by sequencing and loops.
* `Tags.needs_write`: `size` is what a block needs, whether it is within the limits or not.
-/

namespace TuxEncoding

set_option linter.unusedSectionVars false

/-! ## The judgement -/

/-- A result of an encoder that had `n` bytes of room at `w`. -/
def StaysWithin {α : Type} (w : SliceCursor) (n : ℕ) :
    Except EncodingError (α × SliceCursor) → Prop
  | .ok (_, w') => w'.buffer.length = w.buffer.length ∧ w'.pos ≤ w.pos + n
  | .error e => ∀ io, e ≠ .ioError io

/-- With `n` bytes of room the encoder uses no more than these, and does not run out of room. -/
def Needs {α : Type} (n : ℕ) (enc : Encoder SliceCursor α) : Prop :=
  ∀ w, w.pos + n ≤ w.buffer.length → StaysWithin w n (enc w)

variable {α β : Type} {m n : ℕ}

lemma Needs.mono {enc : Encoder SliceCursor α} (h : Needs m enc) (hle : m ≤ n) : Needs n enc := by
  intro w hroom
  have hstays := h w (by omega)
  cases hw : enc w with
  | error e =>
      rw [hw] at hstays
      exact hstays
  | ok p =>
      rw [hw] at hstays
      exact ⟨hstays.1, Nat.le_trans hstays.2 (Nat.add_le_add_left hle w.pos)⟩

lemma needs_pure (a : α) : Needs 0 (pure a : Encoder SliceCursor α) :=
  fun _ _ => ⟨rfl, Nat.le_refl _⟩

/-- Two encoders in turn need what both need together. -/
lemma Needs.bind {enc : Encoder SliceCursor α} {f : α → Encoder SliceCursor β} (h : Needs m enc)
    (hf : ∀ a, Needs n (f a)) : Needs (m + n) (enc >>= f) := by
  intro w hroom
  have hstays := h w (by omega)
  show StaysWithin w (m + n) (enc w >>= fun p => f p.1 p.2)
  cases hw : enc w with
  | error e =>
      rw [hw] at hstays
      exact hstays
  | ok p =>
      rw [hw] at hstays
      obtain ⟨hlength, hpos⟩ := hstays
      have hrest := hf p.1 p.2 (by omega)
      show StaysWithin w (m + n) (f p.1 p.2)
      cases hp : f p.1 p.2 with
      | error e =>
          rw [hp] at hrest
          exact hrest
      | ok q =>
          rw [hp] at hrest
          obtain ⟨hlength', hpos'⟩ := hrest
          exact ⟨hlength'.trans hlength, by omega⟩

lemma needs_emit (bs : List UInt8) : Needs bs.length (emit bs : Encoder SliceCursor Unit) := by
  intro w hroom
  have hle : bs.length ≤ w.buffer.length - w.pos := by omega
  unfold emit
  rw [SliceCursor.writeAll_of_le hle]
  exact ⟨length_overwrite_of_le hle, Nat.le_refl _⟩

/-- A loop needs what its rounds need together. -/
lemma needs_writeEach {write : α → Encoder SliceCursor Unit} {need : α → ℕ} {as : List α}
    (h : ∀ a ∈ as, Needs (need a) (write a)) : Needs (as.map need).sum (writeEach write as) := by
  induction as with
  | nil => exact needs_pure ()
  | cons a as ih =>
      rw [List.map_cons, List.sum_cons]
      exact (h a List.mem_cons_self).bind fun _ => ih fun b hb => h b (List.mem_cons_of_mem a hb)

/-! ## Limits and lengths -/

lemma needs_lengthIsAllowed (typeName : String) (k : ℕ) :
    Needs 0 (lengthIsAllowed typeName k : Encoder SliceCursor Unit) := by
  unfold lengthIsAllowed
  split_ifs with hlarge
  · intro w _ io hio
    cases hio
  · exact needs_pure ()

lemma needs_countIsAllowed (typeName : String) (k : ℕ) :
    Needs 0 (countIsAllowed typeName k : Encoder SliceCursor Unit) := by
  unfold countIsAllowed
  split_ifs with hlarge
  · intro w _ io hio
    cases hio
  · exact needs_pure ()

/-- A value within the limits needs what `size` says. -/
lemma needs_of_fits [TuxIOType α] [WritableObjectType α] [ReadableObjectType α] [Codec α] {a : α}
    (h : Codec.Fits a) : Needs (size a) (writeToWriter a : Encoder SliceCursor Unit) := by
  rw [Codec.write_of_fits h, ← Codec.length_wire h]
  exact needs_emit _

lemma needs_writeLength (k : ℕ) : Needs 2 (writeLength k : Encoder SliceCursor Unit) :=
  needs_of_fits (a := UInt16.ofNat k) trivial

/-- A byte string behind its length, however long it is. -/
lemma needs_writePrefixed (typeName : String) (bytes : List UInt8) :
    Needs (bytes.length + 2) (writePrefixed typeName bytes : Encoder SliceCursor Unit) := by
  have hneeds : Needs (0 + (2 + bytes.length))
      (writePrefixed typeName bytes : Encoder SliceCursor Unit) :=
    (needs_lengthIsAllowed typeName _).bind fun _ =>
      (needs_writeLength _).bind fun _ => needs_emit bytes
  exact hneeds.mono (by omega)

/-! ## Values and blocks -/

/-- A value needs what `size` says, also where it is not within the limits. -/
lemma ValueType.needs_write (value : ValueType) :
    Needs (size value) (writeToWriter value : Encoder SliceCursor Unit) := by
  cases value with
  | string s =>
      have hneeds : Needs (1 + ((asBytes s).length + 2))
          (writeToWriter (ValueType.string s) : Encoder SliceCursor Unit) :=
        (needs_emit [typeKey String]).bind fun _ => needs_writePrefixed "String" (asBytes s)
      exact hneeds.mono (Nat.le_of_eq (Nat.add_comm _ _))
  | bytes bs =>
      have hitems : Needs (bs.map size).sum (writeEach writeToWriter bs) :=
        needs_writeEach fun b _ => needs_of_fits (a := b) trivial
      have hneeds : Needs (1 + (0 + (2 + (bs.map size).sum)))
          (writeToWriter (ValueType.bytes bs) : Encoder SliceCursor Unit) :=
        (needs_emit [typeKey (List UInt8)]).bind fun _ =>
          (needs_countIsAllowed "Vec" _).bind fun _ => (needs_writeLength _).bind fun _ => hitems
      refine hneeds.mono ?_
      show _ ≤ (bs.map size).sum + 2 + 1
      omega
  | _ => exact needs_of_fits trivial

/-- A block needs what `size` says when its keys do, in every iteration order. -/
lemma Tags.needs_write {Key : Type} [DecidableEq Key] [HashOrder Key] [TuxIOType Key]
    [WritableObjectType Key]
    (hkey : ∀ key : Key, Needs (size key) (writeToWriter key : Encoder SliceCursor Unit))
    (t : Tags Key) : Needs (size t) (writeToWriter t : Encoder SliceCursor Unit) := by
  have hentries : Needs (t.iter.map fun entry => size entry.1 + size entry.2).sum
      (writeEach writeEntry t.iter : Encoder SliceCursor Unit) :=
    needs_writeEach fun entry _ => (hkey entry.1).bind fun _ => entry.2.needs_write
  have hneeds : Needs (0 + (2 + (t.iter.map fun entry => size entry.1 + size entry.2).sum))
      (writeToWriter t : Encoder SliceCursor Unit) :=
    (needs_countIsAllowed "Tags" _).bind fun _ => (needs_writeLength _).bind fun _ => hentries
  refine hneeds.mono ?_
  show _ ≤ (t.iter.map fun entry => size entry.1 + size entry.2).sum + 2
  omega

end TuxEncoding
