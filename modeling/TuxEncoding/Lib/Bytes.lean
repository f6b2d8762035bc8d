import Mathlib.Algebra.GroupWithZero.Nat
import Mathlib.Data.List.Basic
import Mathlib.Tactic.Lemma

/-!
# Byte strings: little-endian numbers and writing at an offset

Two things every binary format rests on.

* `leBytes w n` is the `w`-byte little-endian form of `n` and `ofLeBytes` reads one back; the
  pair is inverse in both directions (`ofLeBytes_leBytes`, `leBytes_ofLeBytes`).
* `overwrite z d p bs` is what a byte array holds after `bs` has been written into it at offset
  `p`, a gap before `p` being filled with `z`. Its algebra is what a writer that seeks needs:
  writing on from where the last write ended is one longer write (`overwrite_overwrite_append`),
  and writing a whole prefix leaves the rest (`overwrite_zero_append`).
-/

namespace Bytes

/-! ## Little-endian numbers -/

/-- The `w` little-endian bytes of `n`, higher digits dropped. -/
def leBytes : ℕ → ℕ → List UInt8
  | 0, _ => []
  | w + 1, n => UInt8.ofNat n :: leBytes w (n / 256)

/-- The number a little-endian byte string stands for. -/
def ofLeBytes : List UInt8 → ℕ
  | [] => 0
  | b :: bs => b.toNat + 256 * ofLeBytes bs

@[simp] lemma length_leBytes (w n : ℕ) : (leBytes w n).length = w := by
  induction w generalizing n with
  | zero => rfl
  | succ w ih => simp [leBytes, ih]

/-- Reading back `w` bytes gives the number modulo `256 ^ w`. -/
lemma ofLeBytes_leBytes (w n : ℕ) : ofLeBytes (leBytes w n) = n % 256 ^ w := by
  induction w generalizing n with
  | zero => simp [leBytes, ofLeBytes, Nat.mod_one]
  | succ w ih =>
      have hsplit : n % (256 * 256 ^ w) = n % 256 + 256 * (n / 256 % 256 ^ w) :=
        Nat.mod_mul
      rw [Nat.pow_succ, Nat.mul_comm (256 ^ w), hsplit]
      simp only [leBytes, ofLeBytes, ih, UInt8.toNat_ofNat']

/-- A number that fits its width reads back as itself. -/
lemma ofLeBytes_leBytes_of_lt {w n : ℕ} (h : n < 256 ^ w) : ofLeBytes (leBytes w n) = n := by
  rw [ofLeBytes_leBytes, Nat.mod_eq_of_lt h]

lemma ofLeBytes_lt (bs : List UInt8) : ofLeBytes bs < 256 ^ bs.length := by
  induction bs with
  | nil => simp [ofLeBytes]
  | cons b bs ih =>
      have hb : b.toNat < 256 := b.toNat_lt
      simp only [ofLeBytes, List.length_cons, Nat.pow_succ]
      omega

/-- Every byte string is the little-endian form of the number it stands for. -/
lemma leBytes_ofLeBytes (bs : List UInt8) : leBytes bs.length (ofLeBytes bs) = bs := by
  induction bs with
  | nil => rfl
  | cons b bs ih =>
      have hb : b.toNat < 256 := b.toNat_lt
      have hdiv : (b.toNat + 256 * ofLeBytes bs) / 256 = ofLeBytes bs := by omega
      have hmod : UInt8.ofNat (b.toNat + 256 * ofLeBytes bs) = b := by
        apply UInt8.toNat_inj.mp
        rw [UInt8.toNat_ofNat']
        omega
      simp only [List.length_cons, leBytes, ofLeBytes, hdiv, hmod, ih]

/-! ## Writing at an offset -/

section overwrite

variable {α : Type} (z : α)

/-- What a byte array `d` holds after `bs` is written into it at offset `p`: a gap between the
end of `d` and `p` is filled with `z`, and an empty write changes nothing. -/
def overwrite (d : List α) (p : ℕ) (bs : List α) : List α :=
  if bs.isEmpty then d
  else d.take p ++ List.replicate (p - d.length) z ++ bs ++ d.drop (p + bs.length)

@[simp] lemma overwrite_nil (d : List α) (p : ℕ) : overwrite z d p [] = d := rfl

lemma overwrite_of_ne_nil (d : List α) (p : ℕ) {bs : List α} (h : bs ≠ []) :
    overwrite z d p bs =
      d.take p ++ List.replicate (p - d.length) z ++ bs ++ d.drop (p + bs.length) := by
  cases bs with
  | nil => exact absurd rfl h
  | cons b bs => rfl

/-- A write at the start. -/
lemma overwrite_zero_eq (d bs : List α) : overwrite z d 0 bs = bs ++ d.drop bs.length := by
  by_cases hbs : bs = []
  · rw [hbs]
    rfl
  · rw [overwrite_of_ne_nil z d 0 hbs]
    simp

/-- The array grows exactly as far as the write reaches. -/
lemma length_overwrite (d : List α) (p : ℕ) {bs : List α} (h : bs ≠ []) :
    (overwrite z d p bs).length = max d.length (p + bs.length) := by
  rw [overwrite_of_ne_nil z d p h]
  simp only [List.length_append, List.length_take, List.length_replicate, List.length_drop]
  omega

/-- Writing into an empty array fills the gap before the write. -/
lemma overwrite_empty (p : ℕ) {bs : List α} (h : bs ≠ []) :
    overwrite z [] p bs = List.replicate p z ++ bs := by
  rw [overwrite_of_ne_nil z [] p h]
  simp

/-- Writing a whole prefix of the array replaces that prefix and nothing else. -/
lemma overwrite_zero_append {old bs : List α} (rest : List α) (h : bs.length = old.length) :
    overwrite z (old ++ rest) 0 bs = bs ++ rest := by
  cases bs with
  | nil =>
      have hold : old = [] := List.length_eq_zero_iff.mp h.symm
      simp [hold]
  | cons b bs =>
      rw [overwrite_of_ne_nil z _ 0 (by simp), h]
      simp

/-- Two writes, the second from where the first ended, are one write. -/
lemma overwrite_overwrite_append (d : List α) (p : ℕ) (a b : List α) :
    overwrite z (overwrite z d p a) (p + a.length) b = overwrite z d p (a ++ b) := by
  by_cases ha : a = []
  · subst ha; simp
  by_cases hb : b = []
  · subst hb; simp
  have hab : a ++ b ≠ [] := by simp [ha]
  set gap := d.take p ++ List.replicate (p - d.length) z with hgap
  have hgaplen : gap.length = p := by
    simp only [hgap, List.length_append, List.length_take, List.length_replicate]
    omega
  have hfirst : overwrite z d p a = gap ++ a ++ d.drop (p + a.length) :=
    overwrite_of_ne_nil z d p ha
  have hlen : (gap ++ a).length = p + a.length := by simp [hgaplen]
  have htake : (overwrite z d p a).take (p + a.length) = gap ++ a := by
    rw [hfirst, List.take_append_of_le_length (Nat.le_of_eq hlen.symm),
      List.take_of_length_le (Nat.le_of_eq hlen)]
  have hdrop : (overwrite z d p a).drop (p + a.length + b.length) =
      d.drop (p + (a ++ b).length) := by
    rw [hfirst, List.drop_append, List.drop_of_length_le (by rw [hlen]; omega), List.nil_append,
      List.drop_drop, hlen, List.length_append]
    congr 1
    omega
  have hfull : p + a.length - (overwrite z d p a).length = 0 := by
    rw [length_overwrite z d p ha]
    omega
  rw [overwrite_of_ne_nil z _ _ hb, overwrite_of_ne_nil z _ _ hab, htake, hdrop, hfull]
  simp [hgap]

end overwrite

end Bytes
