import Mathlib.Data.Nat.Notation
import Mathlib.Tactic.SplitIfs

/-!
# Arithmetic that wraps

Computations with numbers of a machine type. An operation whose exact result is not a value of the
type goes on with its residue, and the computation remembers that it did.

* `Wrapping.ofExact`: one operation, by its exact result and the number of values of its type.
* `Wrapping.Exactly`: nothing wraps and the result is a given one; `exactly_bind_iff` takes a
  computation apart into its operations.
-/

namespace TuxEncoding

/-- The result of a computation, and whether one of its operations has wrapped. -/
structure Wrapping (α : Type) where
  value : α
  wrapped : Bool
  deriving DecidableEq

namespace Wrapping

variable {α β : Type}

instance : Monad Wrapping where
  pure a := ⟨a, false⟩
  bind m f := ⟨(f m.value).value, m.wrapped || (f m.value).wrapped⟩

instance : LawfulMonad Wrapping := by
  apply LawfulMonad.mk'
  case id_map => exact fun m => congrArg (Wrapping.mk m.value) (Bool.or_false _)
  case pure_bind => exact fun a f => congrArg (Wrapping.mk (f a).value) (Bool.false_or _)
  case bind_assoc => exact fun m f g => congrArg (Wrapping.mk _) (Bool.or_assoc _ _ _)
  all_goals exact fun _ _ => rfl

/-- An operation whose exact result is `n`, in a type of `size` values. -/
def ofExact (size n : ℕ) : Wrapping ℕ := ⟨n % size, decide (size ≤ n)⟩

/-- Nothing wraps, and the result is `a`. -/
def Exactly (m : Wrapping α) (a : α) : Prop := m.wrapped = false ∧ m.value = a

@[simp] lemma exactly_pure_iff {a b : α} : (pure a : Wrapping α).Exactly b ↔ a = b :=
  ⟨fun h => h.2, fun h => ⟨rfl, h⟩⟩

@[simp] lemma exactly_ofExact_iff {size n k : ℕ} :
    (ofExact size n).Exactly k ↔ n < size ∧ n = k := by
  unfold Exactly ofExact
  rw [decide_eq_false_iff_not, Nat.not_le]
  refine and_congr_right fun hlt => ?_
  rw [Nat.mod_eq_of_lt hlt]

/-- A computation is exact when its parts are. -/
lemma exactly_bind_iff {m : Wrapping α} {f : α → Wrapping β} {b : β} :
    (m >>= f).Exactly b ↔ ∃ a, m.Exactly a ∧ (f a).Exactly b := by
  show ((m.wrapped || (f m.value).wrapped) = false ∧ (f m.value).value = b) ↔ _
  rw [Bool.or_eq_false_iff]
  constructor
  · rintro ⟨⟨hm, hf⟩, hb⟩
    exact ⟨m.value, ⟨hm, rfl⟩, hf, hb⟩
  · rintro ⟨_, ⟨hm, rfl⟩, hf, hb⟩
    exact ⟨⟨hm, hf⟩, hb⟩

/-- Behind an operation that is exact, the computation goes on with its exact result. -/
@[simp] lemma exactly_ofExact_bind_iff {size n : ℕ} {f : ℕ → Wrapping β} {b : β} :
    (ofExact size n >>= f).Exactly b ↔ n < size ∧ (f n).Exactly b := by
  rw [exactly_bind_iff]
  constructor
  · rintro ⟨k, hk, hf⟩
    obtain ⟨hlt, rfl⟩ := exactly_ofExact_iff.mp hk
    exact ⟨hlt, hf⟩
  · rintro ⟨hlt, hf⟩
    exact ⟨n, exactly_ofExact_iff.mpr ⟨hlt, rfl⟩, hf⟩

/-- A choice between two results. -/
@[simp] lemma exactly_ite_pure_iff {p : Prop} [Decidable p] {a b r : α} :
    (if p then pure a else pure b : Wrapping α).Exactly r ↔ (if p then a else b) = r := by
  split_ifs
  · exact exactly_pure_iff
  · exact exactly_pure_iff

/-- A computation wraps nowhere exactly when it has an exact result. -/
lemma wrapped_eq_false_iff {m : Wrapping α} : m.wrapped = false ↔ ∃ a, m.Exactly a := by
  constructor
  · intro h
    exact ⟨m.value, h, rfl⟩
  · rintro ⟨_, h, _⟩
    exact h

end Wrapping

end TuxEncoding
