import TuxEncoding.Codec.Async
import TuxEncoding.Lib.Interaction

/-!
# The async writers

`write_to_async_writer` of `src/tokio_io.rs` and of the types that implement it, on any stream.

* `PollWrite` is the one call of `AsyncWrite` they make: the stream takes some of the bytes, none of
  them, or fails. `PollWrite.Step` says which of that may happen.
* `PollWrite.writeAll` is `AsyncWriteExt::write_all`, which calls until the bytes are gone.
* `writeToAsyncWriter_safe`: what has gone out is at any time a beginning of the encoding, and all
  of it exactly when the writer returns without an error.
-/

namespace TuxEncoding

open Bytes Interaction Program

set_option linter.unusedSectionVars false

/-! ## Streams -/

/-- `AsyncWrite::poll_write`, once it is ready. -/
structure PollWrite where
  buf : List UInt8

namespace PollWrite

/-- The number of bytes that were taken, or an error. -/
abbrev Reply (_ : PollWrite) : Type := Except IoError ℕ

/-- The stream takes a beginning of the bytes, where only those may be none that `stalls` allows; or
it takes nothing and returns an error for which `fails` holds. -/
def Step (fails : IoError → Prop) (stalls : Prop) :
    (c : PollWrite) → List UInt8 → c.Reply → List UInt8 → Prop
  | c, s, .ok n, s' => n ≤ c.buf.length ∧ (n = 0 → stalls) ∧ s' = s ++ c.buf.take n
  | _, s, .error e, s' => fails e ∧ s' = s

/-- The error of `write_all` on a stream that takes nothing. -/
def writeZero : IoError := ⟨.writeZero, "write zero"⟩

/-- The loop of `AsyncWriteExt::write_all`, with at most `n` calls of `poll_write` to go. -/
def writeAllLoop : ℕ → List UInt8 → Fallible Reply IoError Unit
  | 0, _ => pure ()
  | n + 1, buf =>
      if buf.isEmpty then pure ()
      else do
        let written ← attempt id (request ⟨buf⟩)
        if written = 0 then throw writeZero
        writeAllLoop n (buf.drop written)

/-- `AsyncWriteExt::write_all` -/
def writeAll (buf : List UInt8) : Fallible Reply IoError Unit := writeAllLoop buf.length buf

end PollWrite

/-! ## The writers -/

/-- The body that `AsyncWritableObjectType` gives a type that has none of its own. -/
def encodeAndWrite {α : Type} [TuxIOType α] [WritableObjectType α] (a : α) :
    Fallible PollWrite.Reply EncodingError Unit := do
  let result ← Fallible.ofExcept (writeToBytes a)
  attempt .ioError (PollWrite.writeAll result).run

/-- `AsyncWritableObjectType` -/
class AsyncWritableObjectType (α : Type) [TuxIOType α] [WritableObjectType α] where
  writeToAsyncWriter : α → Fallible PollWrite.Reply EncodingError Unit := encodeAndWrite

export AsyncWritableObjectType (writeToAsyncWriter)

instance {α : Type} [Number α] : AsyncWritableObjectType α where
  writeToAsyncWriter a := attempt .ioError (PollWrite.writeAll (Number.toLeBytes a)).run

instance : AsyncWritableObjectType Uuid where
  writeToAsyncWriter a := attempt .ioError (PollWrite.writeAll a.bytes).run

instance : AsyncWritableObjectType String := {}
instance : AsyncWritableObjectType (List UInt8) := {}
instance : AsyncWritableObjectType RawDate := {}
instance : AsyncWritableObjectType RawTime := {}
instance : AsyncWritableObjectType RawTimeZone := {}
instance : AsyncWritableObjectType RawDateTime := {}
instance : AsyncWritableObjectType ValueType := {}
instance : AsyncWritableObjectType ObjectHeader := {}

instance {Key : Type} [DecidableEq Key] [HashOrder Key] [TuxIOType Key] [WritableObjectType Key] :
    AsyncWritableObjectType (Tags Key) := {}

/-! ## What goes out -/

section

variable {fails : IoError → Prop} {stalls : Prop} {s : List UInt8}

/-- The stream has failed, or has taken nothing. -/
def StreamFailed (fails : IoError → Prop) (stalls : Prop) (e : IoError) : Prop :=
  fails e ∨ stalls ∧ e = PollWrite.writeZero

/-- A beginning of the bytes is on the stream, and not all of them. -/
def PartSent (bs s s' : List UInt8) : Prop := ∃ k < bs.length, s' = s ++ bs.take k

/-- The loop of `write_all` goes on where it is, with enough calls to go. -/
lemma PollWrite.writeAllLoop_safe (bs : List UInt8) (n k : ℕ) (hk : k ≤ bs.length)
    (hn : bs.length - k ≤ n) :
    Fallible.Safe (Step fails stalls) (fun _ s' => PartSent bs s s') (writeAllLoop n (bs.drop k))
      (fun _ s' => s' = s ++ bs) (fun e s' => StreamFailed fails stalls e ∧ PartSent bs s s')
      (s ++ bs.take k) := by
  induction n generalizing k with
  | zero =>
      have hall : bs.length ≤ k := by omega
      rw [List.take_of_length_le hall]
      exact Fallible.Safe.pure rfl
  | succ n ih =>
      unfold writeAllLoop
      by_cases hall : bs.length ≤ k
      · rw [List.drop_eq_nil_of_le hall, List.take_of_length_le hall]
        exact Fallible.Safe.pure rfl
      have hlt : k < bs.length := Nat.not_le.mp hall
      rw [if_neg (by rw [List.isEmpty_iff, List.drop_eq_nil_iff]; exact hall)]
      refine Fallible.Safe.bind (Fallible.Safe.attempt (Program.Safe.request ⟨k, hlt, rfl⟩ ?_))
      rintro (e | m) s' hstep
      · obtain ⟨hfail, rfl⟩ := hstep
        exact ⟨.inl hfail, k, hlt, rfl⟩
      · obtain ⟨hm, hstalls, rfl⟩ := hstep
        rw [List.length_drop] at hm
        dsimp only
        by_cases hzero : m = 0
        · subst hzero
          rw [if_pos rfl, List.take_zero, List.append_nil]
          exact Fallible.Safe.throw ⟨.inr ⟨hstalls rfl, rfl⟩, k, hlt, rfl⟩
        · have hnext := ih (k + m) (by omega) (by omega)
          rw [if_neg hzero, List.append_assoc, ← List.take_add, List.drop_drop]
          exact hnext

lemma PollWrite.writeAll_safe (bs : List UInt8) :
    Fallible.Safe (Step fails stalls) (fun _ s' => PartSent bs s s') (writeAll bs)
      (fun _ s' => s' = s ++ bs)
      (fun e s' => StreamFailed fails stalls e ∧ PartSent bs s s') s := by
  have h := @writeAllLoop_safe fails stalls s bs bs.length 0 (Nat.zero_le _) (Nat.le_refl _)
  rwa [List.take_zero, List.append_nil] at h

variable {α : Type} [TuxIOType α] [WritableObjectType α]

/-- All of the value's encoding is on the stream. -/
def Sent (a : α) (s s' : List UInt8) : Prop := ∃ bs, writeToBytes a = .ok bs ∧ s' = s ++ bs

/-- The error says that the value has no encoding, or that the stream has failed on the way. -/
def SendFailed (fails : IoError → Prop) (stalls : Prop) (a : α) (e : EncodingError) : Prop :=
  writeToBytes a = .error e ∨ ∃ err, e = .ioError err ∧ StreamFailed fails stalls err

/-- Nothing of the value is on the stream, or a beginning of its encoding. -/
def Unsent (a : α) (s s' : List UInt8) : Prop :=
  s' = s ∨ ∃ bs, writeToBytes a = .ok bs ∧ PartSent bs s s'

lemma encodeAndWrite_safe (a : α) :
    Fallible.Safe (PollWrite.Step fails stalls) (fun _ s' => Unsent a s s') (encodeAndWrite a)
      (fun _ s' => Sent a s s') (fun e s' => SendFailed fails stalls a e ∧ Unsent a s s') s := by
  refine Fallible.Safe.bind (Fallible.Safe.ofExcept ?_)
  cases hwrite : writeToBytes a with
  | error e => exact ⟨.inl hwrite, .inl rfl⟩
  | ok bs =>
      have hsafe : Fallible.Safe (PollWrite.Step fails stalls) (fun _ s' => Unsent a s s')
          (PollWrite.writeAll bs) (fun _ s' => s' = s ++ bs)
          (fun e s' => StreamFailed fails stalls e ∧ PartSent bs s s') s :=
        Fallible.Safe.allow (fun _ _ hpart => .inr ⟨bs, hwrite, hpart⟩)
          (PollWrite.writeAll_safe bs)
      refine Fallible.Safe.attempt (Program.Safe.mono ?_ hsafe)
      rintro (e | ⟨⟩) s' hr
      · exact ⟨.inr ⟨e, rfl, hr.1⟩, .inr ⟨bs, hwrite, hr.2⟩⟩
      · exact ⟨bs, hwrite, hr⟩

end

/-- The writer of the type puts the encoding on the stream, as the default body does. -/
class LawfulAsyncWrite (α : Type) [TuxIOType α] [WritableObjectType α] [AsyncWritableObjectType α] :
    Prop where
  writeToAsyncWriter_eq : ∀ a : α, writeToAsyncWriter a = encodeAndWrite a

/-- A type that writes the bytes of its encoding without asking for them. -/
lemma LawfulAsyncWrite.of_wire {α : Type} [TuxIOType α] [WritableObjectType α]
    [AsyncWritableObjectType α] {wire : α → List UInt8} (hwire : ∀ a, writeToBytes a = .ok (wire a))
    (hwrite : ∀ a : α, writeToAsyncWriter a =
      attempt .ioError (PollWrite.writeAll (wire a)).run) : LawfulAsyncWrite α where
  writeToAsyncWriter_eq a := by
    rw [hwrite, encodeAndWrite, hwire]
    rfl

instance {α : Type} [Number α] : LawfulAsyncWrite α :=
  .of_wire (fun _ => writeToBytes_of_fits trivial) fun _ => rfl

instance : LawfulAsyncWrite Uuid :=
  .of_wire (fun _ => writeToBytes_of_fits trivial) fun _ => rfl

instance : LawfulAsyncWrite String := ⟨fun _ => rfl⟩
instance : LawfulAsyncWrite (List UInt8) := ⟨fun _ => rfl⟩
instance : LawfulAsyncWrite RawDate := ⟨fun _ => rfl⟩
instance : LawfulAsyncWrite RawTime := ⟨fun _ => rfl⟩
instance : LawfulAsyncWrite RawTimeZone := ⟨fun _ => rfl⟩
instance : LawfulAsyncWrite RawDateTime := ⟨fun _ => rfl⟩
instance : LawfulAsyncWrite ValueType := ⟨fun _ => rfl⟩
instance : LawfulAsyncWrite ObjectHeader := ⟨fun _ => rfl⟩

instance {Key : Type} [DecidableEq Key] [HashOrder Key] [TuxIOType Key] [WritableObjectType Key] :
    LawfulAsyncWrite (Tags Key) := ⟨fun _ => rfl⟩

/-- What a type's writer makes of a stream. -/
lemma writeToAsyncWriter_safe {α : Type} [TuxIOType α] [WritableObjectType α]
    [AsyncWritableObjectType α] [LawfulAsyncWrite α] {fails : IoError → Prop} {stalls : Prop}
    {s : List UInt8} (a : α) :
    Fallible.Safe (PollWrite.Step fails stalls) (fun _ s' => Unsent a s s') (writeToAsyncWriter a)
      (fun _ s' => Sent a s s') (fun e s' => SendFailed fails stalls a e ∧ Unsent a s s') s := by
  rw [LawfulAsyncWrite.writeToAsyncWriter_eq]
  exact encodeAndWrite_safe a

end TuxEncoding
