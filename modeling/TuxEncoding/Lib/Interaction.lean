import Mathlib.Data.Nat.Notation
import Mathlib.Logic.Function.Basic
import Mathlib.Tactic.Lemma

/-!
# Programs that call an environment

A `Program R α` is a program that makes calls `c : C`, is answered with a reply in `R c` and ends
with a value in `α`. It says nothing about what a call does, so one program can be run in many
environments: `Reaches step` is the runs of a program against a relation `step` that allows several
answers, and `exec h` is its run against a handler.

* `Safe step may` is the judgement on all runs at once: every call the program makes is one it may
  make, and it can only end in the postcondition. `Safe.bind` composes it and `Safe.reaches` carries
  it along a run.
* `Fallible` adds an error that returns early and `Method` a receiver that is updated along the
  way; `Fallible.Safe` and `Method.Safe` are the judgement for them, with a postcondition for each
  way to return. `Fallible.Delivers` is the one for a function that does not fail. `consume` and
  `holding` end a receiver's life by running its destructor on
  whatever is left of it.
* `Fallible.Raises` and `Method.Raises` bound the errors of a function in any environment at all,
  and `Method.Keeps` what a method leaves of its receiver.
* `Pool.invariantAlong`: programs that share an environment keep each their own view of it, when
  every step one of them takes in the shared environment is a step in its own view and leaves the
  views of the others alone. `Pool.invariantEach` is the case of programs that are safe throughout.
-/

namespace Interaction

/-- A program that makes calls and is answered with replies in `R`. -/
inductive Program {C : Type} (R : C → Type) (α : Type) : Type
  /-- The program has ended with a value. -/
  | done (a : α)
  /-- The program makes the call `c` and goes on with the reply. -/
  | call (c : C) (k : R c → Program R α)

variable {C : Type} {R : C → Type} {α β γ S : Type}

namespace Program

/-- Run one program and go on with its value. -/
protected def bind : Program R α → (α → Program R β) → Program R β
  | .done a, f => f a
  | .call c k, f => .call c fun r => (k r).bind f

instance : Monad (Program R) where
  pure := .done
  bind := Program.bind

@[simp] lemma done_bind (a : α) (f : α → Program R β) : (Program.done a >>= f) = f a := rfl

@[simp] lemma call_bind (c : C) (k : R c → Program R α) (f : α → Program R β) :
    (Program.call c k >>= f) = .call c fun r => k r >>= f := rfl

private lemma bind_done : (p : Program R α) → (p >>= Program.done) = p
  | .done _ => rfl
  | .call c k => by
      rw [call_bind]
      congr 1
      funext r
      exact bind_done (k r)

private lemma bind_bind (f : α → Program R β) (g : β → Program R γ) :
    (p : Program R α) → (p >>= f >>= g) = (p >>= fun a => f a >>= g)
  | .done _ => rfl
  | .call c k => by
      simp only [call_bind]
      congr 1
      funext r
      exact bind_bind f g (k r)

instance : LawfulMonad (Program R) :=
  LawfulMonad.mk' (Program R) bind_done (fun _ _ => rfl) (fun p f g => bind_bind f g p)

/-- The program that makes one call and returns its reply. -/
def request (c : C) : Program R (R c) := .call c .done

/-! ## Runs -/

/-- `Reaches step p s q s'`: after some of its calls, answered as `step` allows, the program `p`
started in `s` has `q` left to do and the environment is in `s'`. -/
inductive Reaches (step : (c : C) → S → R c → S → Prop) :
    Program R α → S → Program R α → S → Prop
  | refl (p : Program R α) (s : S) : Reaches step p s p s
  | call {c : C} {k : R c → Program R α} {s s₁ s₂ : S} {r : R c} {q : Program R α}
      (h : step c s r s₁) (rest : Reaches step (k r) s₁ q s₂) : Reaches step (.call c k) s q s₂

/-- The program ends with the value `a`. -/
def Ends (step : (c : C) → S → R c → S → Prop) (p : Program R α) (s : S) (a : α) (s' : S) : Prop :=
  Reaches step p s (.done a) s'

/-- A run of two programs in sequence is a run of the one and then of the other. -/
lemma Ends.of_bind {step : (c : C) → S → R c → S → Prop} {f : α → Program R β} {b : β} {s' : S} :
    {p : Program R α} → {s : S} → Ends step (p >>= f) s b s' →
      ∃ a s₁, Ends step p s a s₁ ∧ Ends step (f a) s₁ b s'
  | .done a, s, h => ⟨a, s, .refl _ s, h⟩
  | .call _ _, _, .call hstep hrest => by
      obtain ⟨a, s₁, hp, hf⟩ := Ends.of_bind hrest
      exact ⟨a, s₁, .call hstep hp, hf⟩

lemma ends_done {step : (c : C) → S → R c → S → Prop} {a b : α} {s s' : S} :
    Ends step (.done b) s a s' ↔ a = b ∧ s' = s := by
  constructor
  · rintro ⟨⟩
    exact ⟨rfl, rfl⟩
  · rintro ⟨rfl, rfl⟩
    exact .refl _ _

lemma ends_call {step : (c : C) → S → R c → S → Prop} {c : C} {k : R c → Program R α} {a : α}
    {s s' : S} :
    Ends step (.call c k) s a s' ↔ ∃ r s₁, step c s r s₁ ∧ Ends step (k r) s₁ a s' := by
  constructor
  · rintro (_ | ⟨hstep, hrest⟩)
    exact ⟨_, _, hstep, hrest⟩
  · rintro ⟨r, s₁, hstep, hrest⟩
    exact .call hstep hrest

lemma Ends.bind {step : (c : C) → S → R c → S → Prop} {f : α → Program R β} {a : α} {b : β}
    {s₁ s' : S} : {p : Program R α} → {s : S} → Ends step p s a s₁ → Ends step (f a) s₁ b s' →
      Ends step (p >>= f) s b s'
  | .done _, _, .refl _ _, hf => hf
  | .call _ _, _, .call hstep hrest, hf => .call hstep (Ends.bind hrest hf)

lemma ends_bind {step : (c : C) → S → R c → S → Prop} {f : α → Program R β} {p : Program R α}
    {b : β}
    {s s' : S} :
    Ends step (p >>= f) s b s' ↔ ∃ a s₁, Ends step p s a s₁ ∧ Ends step (f a) s₁ b s' :=
  ⟨Ends.of_bind, fun ⟨_, _, hp, hf⟩ => hp.bind hf⟩

/-- A deterministic environment: the reply to each call and the state it leaves. -/
abbrev Handler (R : C → Type) (S : Type) := (c : C) → S → R c × S

/-- Run a program against a handler. -/
def exec (h : Handler R S) : Program R α → S → α × S
  | .done a, s => (a, s)
  | .call c k, s => exec h (k (h c s).1) (h c s).2

lemma exec_bind (h : Handler R S) (f : α → Program R β) :
    (p : Program R α) → (s : S) → exec h (p >>= f) s = exec h (f (exec h p s).1) (exec h p s).2
  | .done _, _ => rfl
  | .call c k, s => exec_bind h f (k (h c s).1) (h c s).2

/-- The handler answers the calls of the program as the environment may. -/
def Obeys (step : (c : C) → S → R c → S → Prop) (h : Handler R S) : Program R α → S → Prop
  | .done _, _ => True
  | .call c k, s => step c s (h c s).1 (h c s).2 ∧ Obeys step h (k (h c s).1) (h c s).2

/-- The run against such a handler is one of the runs in the environment. -/
lemma Obeys.ends {step : (c : C) → S → R c → S → Prop} {h : Handler R S} :
    {p : Program R α} → {s : S} → Obeys step h p s → Ends step p s (exec h p s).1 (exec h p s).2
  | .done a, s, _ => .refl (.done a) s
  | .call _ _, _, hp => .call hp.1 (Obeys.ends hp.2)

lemma Obeys.of_bind {step : (c : C) → S → R c → S → Prop} {h : Handler R S}
    {f : α → Program R β} : {p : Program R α} → {s : S} → Obeys step h (p >>= f) s →
      Obeys step h p s ∧ Obeys step h (f (exec h p s).1) (exec h p s).2
  | .done _, _, hf => ⟨trivial, hf⟩
  | .call _ _, _, hp => ⟨⟨hp.1, (Obeys.of_bind hp.2).1⟩, (Obeys.of_bind hp.2).2⟩

/-- Run a program against a handler for at most `n` calls. -/
def advance (h : Handler R S) : ℕ → Program R α → S → Program R α × S
  | 0, p, s => (p, s)
  | _ + 1, .done a, s => (.done a, s)
  | n + 1, .call c k, s => advance h n (k (h c s).1) (h c s).2

/-- The run against a handler is one of the runs in an environment that allows its answers. -/
lemma exec_ends {step : (c : C) → S → R c → S → Prop} {h : Handler R S}
    (hstep : ∀ c s, step c s (h c s).1 (h c s).2) :
    (p : Program R α) → (s : S) → Ends step p s (exec h p s).1 (exec h p s).2
  | .done a, s => .refl (.done a) s
  | .call c k, s => .call (hstep c s) (exec_ends hstep (k (h c s).1) (h c s).2)

/-- A run against a handler that ends well. -/
lemma exec_ends_ok {ε : Type} {step : (c : C) → S → R c → S → Prop} {h : Handler R S}
    (hstep : ∀ c s, step c s (h c s).1 (h c s).2) {p : Program R (Except ε α)} {s : S}
    (hok : (exec h p s).1.isOk = true) :
    ∃ a, (exec h p s).1 = .ok a ∧ Ends step p s (.ok a) (exec h p s).2 := by
  have hends := exec_ends hstep p s
  cases hresult : (exec h p s).1 with
  | error e =>
      rw [hresult] at hok
      cases hok
  | ok a =>
      rw [hresult] at hends
      exact ⟨a, rfl, hends⟩

/-- A run against a handler that ends well, with something known about its value. -/
lemma exec_ends_map {ε : Type} {step : (c : C) → S → R c → S → Prop} {h : Handler R S}
    (hstep : ∀ c s, step c s (h c s).1 (h c s).2) {p : Program R (Except ε α)} {s : S}
    {f : α → β} {b : β} (hmap : (exec h p s).1.map f = .ok b) :
    ∃ a s', f a = b ∧ Ends step p s (.ok a) s' := by
  have hends := exec_ends hstep p s
  cases hresult : (exec h p s).1 with
  | error e =>
      rw [hresult] at hmap
      cases hmap
  | ok a =>
      rw [hresult] at hends hmap
      exact ⟨a, _, Except.ok.inj hmap, hends⟩

/-! ## The safety judgement -/

/-- Every call is one the program may make in the state it makes it in, whatever `step` lets the
earlier ones answer, and the program can only end in `Q`. -/
def Safe (step : (c : C) → S → R c → S → Prop) (may : C → S → Prop) :
    Program R α → (α → S → Prop) → S → Prop
  | .done a, Q, s => Q a s
  | .call c k, Q, s => may c s ∧ ∀ r s', step c s r s' → Safe step may (k r) Q s'

variable {step : (c : C) → S → R c → S → Prop} {may : C → S → Prop}

/-- The postcondition may be weakened. -/
lemma Safe.mono {Q Q' : α → S → Prop} (hQ : ∀ a s, Q a s → Q' a s) :
    {p : Program R α} → {s : S} → Safe step may p Q s → Safe step may p Q' s
  | .done a, s, h => hQ a s h
  | .call _ _, _, h => ⟨h.1, fun r s' hr => Safe.mono hQ (h.2 r s' hr)⟩

/-- Two postconditions at once. -/
lemma Safe.and {may' : C → S → Prop} {Q Q' : α → S → Prop} :
    {p : Program R α} → {s : S} → Safe step may p Q s → Safe step may' p Q' s →
      Safe step may p (fun a s => Q a s ∧ Q' a s) s
  | .done _, _, h, h' => ⟨h, h'⟩
  | .call _ _, _, h, h' => ⟨h.1, fun r s' hr => Safe.and (h.2 r s' hr) (h'.2 r s' hr)⟩

/-- Sequencing: the first program has to end where the second one is safe. -/
lemma Safe.bind {Q : β → S → Prop} {f : α → Program R β} :
    {p : Program R α} → {s : S} → Safe step may p (fun a s => Safe step may (f a) Q s) s →
      Safe step may (p >>= f) Q s
  | .done _, _, h => h
  | .call _ _, _, h => ⟨h.1, fun r s' hr => Safe.bind (h.2 r s' hr)⟩

lemma Safe.request {c : C} {Q : R c → S → Prop} {s : S} (hmay : may c s)
    (h : ∀ r s', step c s r s' → Q r s') : Safe step may (request c) Q s := ⟨hmay, h⟩

lemma Safe.map {Q : β → S → Prop} {f : α → β} {p : Program R α} {s : S}
    (h : Safe step may p (fun a s => Q (f a) s) s) : Safe step may (f <$> p) Q s := by
  rw [map_eq_pure_bind]
  exact Safe.bind h

/-- What is left of a safe program after some calls is safe. -/
lemma Safe.reaches {Q : α → S → Prop} {p q : Program R α} {s s' : S}
    (hrun : Reaches step p s q s') (h : Safe step may p Q s) : Safe step may q Q s' := by
  induction hrun with
  | refl p s => exact h
  | call hstep _ ih => exact ih (h.2 _ _ hstep)

lemma Safe.ends {Q : α → S → Prop} {p : Program R α} {a : α} {s s' : S}
    (h : Safe step may p Q s) (hrun : Ends step p s a s') : Q a s' := h.reaches hrun

/-- What every step of an allowed call preserves holds at every point of a run. -/
lemma Safe.invariant {I : S → Prop} {Q : α → S → Prop}
    (hI : ∀ c s r s', may c s → step c s r s' → I s → I s') {p q : Program R α} {s s' : S}
    (hrun : Reaches step p s q s') (h : Safe step may p Q s) (hs : I s) : I s' := by
  induction hrun with
  | refl p s => exact hs
  | call hstep _ ih => exact ih (h.2 _ _ hstep) (hI _ _ _ _ h.1 hstep hs)

/-- What every step preserves holds at the end of every program. -/
lemma Safe.of_invariant {I : S → Prop} (hI : ∀ c s r s', step c s r s' → I s → I s') :
    (p : Program R α) → {s : S} → I s → Safe step (fun _ _ => True) p (fun _ s' => I s') s
  | .done _, _, hs => hs
  | .call _ k, _, hs => ⟨trivial, fun r _ hr => Safe.of_invariant hI (k r) (hI _ _ _ _ hr hs)⟩

/-- A safe program stays safe where it may make more calls and the environment answers in fewer
ways, also when that environment keeps track of more than the judgement speaks of. -/
lemma Safe.along {T : Type} {step' : (c : C) → T → R c → T → Prop} {may' : C → T → Prop}
    (π : T → S) (hstep : ∀ c t r t', step' c t r t' → step c (π t) r (π t'))
    (hmay : ∀ c t, may c (π t) → may' c t) {Q : α → S → Prop} :
    {p : Program R α} → {t : T} → Safe step may p Q (π t) →
      Safe step' may' p (fun a t => Q a (π t)) t
  | .done _, _, h => h
  | .call _ _, _, h =>
      ⟨hmay _ _ h.1, fun r t' hr => Safe.along π hstep hmay (h.2 r (π t') (hstep _ _ _ _ hr))⟩

/-- A safe program stays safe in an environment where each answer to a call that it makes is
matched, along `rel`, by one it is safe with. -/
lemma Safe.matched {T : Type} {step' : (c : C) → T → R c → T → Prop} {may' : C → T → Prop}
    {rel : T → S → Prop} (hstep : ∀ c t s r t', rel t s → may c s → step' c t r t' →
      ∃ s', step c s r s' ∧ rel t' s')
    (hmay : ∀ c t s, rel t s → may c s → may' c t) {Q : α → S → Prop} :
    {p : Program R α} → {t : T} → {s : S} → rel t s → Safe step may p Q s →
      Safe step' may' p (fun a t => ∃ s, rel t s ∧ Q a s) t
  | .done _, _, s, hrel, h => ⟨s, hrel, h⟩
  | .call _ _, _, _, hrel, h => ⟨hmay _ _ _ hrel h.1, fun r _ hr => by
      obtain ⟨s', hs', hrel'⟩ := hstep _ _ _ _ _ hrel h.1 hr
      exact Safe.matched hstep hmay hrel' (h.2 r s' hs')⟩

/-- A safe program may be allowed to make more calls. -/
lemma Safe.allow {may' : C → S → Prop} (hmay : ∀ c s, may c s → may' c s) {Q : α → S → Prop}
    {p : Program R α} {s : S} (h : Safe step may p Q s) : Safe step may' p Q s :=
  Safe.along id (fun _ _ _ _ h => h) hmay h

/-- With each end that is safe comes the run to it. -/
lemma Safe.ending {Q : α → S → Prop} : {p : Program R α} → {s : S} → Safe step may p Q s →
    Safe step may p (fun a s' => Q a s' ∧ Ends step p s a s') s
  | .done a, s, h => ⟨h, .refl (.done a) s⟩
  | .call _ _, _, h => ⟨h.1, fun r s' hr => Safe.mono
      (fun _ _ hend => ⟨hend.1, .call hr hend.2⟩) (Safe.ending (h.2 r s' hr))⟩

/-- The program may come to make the call. -/
inductive Makes : Program R α → C → Prop
  | here (c : C) (k : R c → Program R α) : Makes (.call c k) c
  | later {c c' : C} {k : R c → Program R α} {r : R c} (h : Makes (k r) c') : Makes (.call c k) c'

/-- How the environment answers the calls that a program does not make is no matter to it. -/
lemma Safe.of_makes {step' : (c : C) → S → R c → S → Prop} {Q : α → S → Prop} :
    {p : Program R α} → {s : S} →
      (∀ c, Makes p c → ∀ s r s', step' c s r s' → step c s r s') →
      Safe step may p Q s → Safe step' may p Q s
  | .done _, _, _, h => h
  | .call c k, s, hstep, h => ⟨h.1, fun r s' hr =>
      Safe.of_makes (fun c' hc' => hstep c' (.later hc'))
        (h.2 r s' (hstep c (.here c k) s r s' hr))⟩

/-- The program is safe until it comes to where `Then` holds of what is left of it. -/
def SafeUntil (step : (c : C) → S → R c → S → Prop) (may : C → S → Prop)
    (Then : Program R α → S → Prop) : Program R α → S → Prop
  | .done a, s => Then (.done a) s
  | .call c k, s => Then (.call c k) s ∨
      may c s ∧ ∀ r s', step c s r s' → SafeUntil step may Then (k r) s'

lemma SafeUntil.of_then {Then : Program R α → S → Prop} {p : Program R α} {s : S} (h : Then p s) :
    SafeUntil step may Then p s := by
  cases p with
  | done a => exact h
  | call c k => exact .inl h

/-- Sequencing: the first program is safe throughout. -/
lemma SafeUntil.bind {Then : Program R β → S → Prop} {f : α → Program R β} :
    {p : Program R α} → {s : S} → Safe step may p (fun a s => SafeUntil step may Then (f a) s) s →
      SafeUntil step may Then (p >>= f) s
  | .done _, _, h => h
  | .call _ _, _, h => .inr ⟨h.1, fun r s' hr => SafeUntil.bind (h.2 r s' hr)⟩

/-- The environment that a handler is. -/
def Answers (h : Handler R S) (c : C) (s : S) (r : R c) (s' : S) : Prop := (r, s') = h c s

/-- In a deterministic environment a program is as safe as its one run. -/
lemma Safe.of_exec {h : Handler R S} {Q : α → S → Prop} :
    {p : Program R α} → {s : S} → Q (exec h p s).1 (exec h p s).2 →
      Safe (Answers h) (fun _ _ => True) p Q s
  | .done _, _, hQ => hQ
  | .call c _, s, hQ => ⟨trivial, fun r s' hr => by
      have hreply : r = (h c s).1 := congrArg Prod.fst hr
      have hstate : s' = (h c s).2 := congrArg Prod.snd hr
      subst hreply hstate
      exact Safe.of_exec hQ⟩

lemma Safe.exec {h : Handler R S} {Q : α → S → Prop} {p : Program R α} {s : S}
    (hp : Safe (Answers h) may p Q s) : Q (exec h p s).1 (exec h p s).2 :=
  hp.ends (exec_ends (fun _ _ => rfl) p s)

end Program

/-! ## Functions that return early -/

open Program

variable {ε ε' σ : Type} {step : (c : C) → S → R c → S → Prop} {may : C → S → Prop}

/-- A function that may return early with an error. -/
abbrev Fallible (R : C → Type) (ε α : Type) := ExceptT ε (Program R) α

namespace Fallible

/-- The safety judgement with a postcondition for each way to return. -/
def Safe (step : (c : C) → S → R c → S → Prop) (may : C → S → Prop) (m : Fallible R ε α)
    (Q : α → S → Prop) (E : ε → S → Prop) (s : S) : Prop :=
  Program.Safe step may m.run (fun r s => match r with
    | .ok a => Q a s
    | .error e => E e s) s

variable {Q : α → S → Prop} {E : ε → S → Prop} {s : S}

lemma Safe.pure {a : α} (h : Q a s) : Safe step may (pure a : Fallible R ε α) Q E s := h

lemma Safe.throw {e : ε} (h : E e s) : Safe step may (throw e : Fallible R ε α) Q E s := h

lemma Safe.mono {m : Fallible R ε α} {Q' : α → S → Prop} {E' : ε → S → Prop}
    (h : Safe step may m Q E s) (hQ : ∀ a s, Q a s → Q' a s) (hE : ∀ e s, E e s → E' e s) :
    Safe step may m Q' E' s :=
  Program.Safe.mono (fun r s' => by cases r; exacts [hE _ s', hQ _ s']) h

/-- Two postconditions at once. -/
lemma Safe.and {may' : C → S → Prop} {m : Fallible R ε α} {Q' : α → S → Prop} {E' : ε → S → Prop}
    (h : Safe step may m Q E s) (h' : Safe step may' m Q' E' s) :
    Safe step may m (fun a s => Q a s ∧ Q' a s) (fun e s => E e s ∧ E' e s) s := by
  refine Program.Safe.mono ?_ (Program.Safe.and h h')
  rintro (_ | _) s' hr
  · exact hr
  · exact hr

lemma Safe.bind {m : Fallible R ε α} {f : α → Fallible R ε β} {Q : β → S → Prop}
    (h : Safe step may m (fun a s => Safe step may (f a) Q E s) E s) :
    Safe step may (m >>= f) Q E s := by
  refine Program.Safe.bind (Program.Safe.mono ?_ h)
  intro r s' hr
  cases r with
  | ok a => exact hr
  | error e => exact hr

/-- A sequence that ends well has gone well in both parts. -/
lemma ends_of_bind {m : Fallible R ε α} {f : α → Fallible R ε β} {b : β} {s' : S}
    (h : Ends step (m >>= f).run s (.ok b) s') :
    ∃ a s₁, Ends step m.run s (.ok a) s₁ ∧ Ends step (f a).run s₁ (.ok b) s' := by
  rw [ExceptT.run_bind] at h
  obtain ⟨e | a, s₁, hm, hf⟩ := Ends.of_bind h
  · cases hf
  · exact ⟨a, s₁, hm, hf⟩

lemma Safe.lift {p : Program R α} (h : Program.Safe step may p Q s) :
    Safe step may (liftM p : Fallible R ε α) Q E s := Program.Safe.map h

/-- Run a function and hand its result to the caller, who goes on either way. -/
def result (m : Fallible R ε' α) : Fallible R ε (Except ε' α) := liftM m.run

lemma Safe.result {m : Fallible R ε' α} {Q : Except ε' α → S → Prop} {E : ε → S → Prop} {s : S}
    (h : Safe step may m (fun a => Q (.ok a)) (fun e => Q (.error e)) s) :
    Safe step may (Fallible.result m : Fallible R ε (Except ε' α)) Q E s := by
  refine Safe.lift (Program.Safe.mono ?_ h)
  rintro (_ | _) s' hr
  · exact hr
  · exact hr

lemma Safe.allow {may' : C → S → Prop} (hmay : ∀ c s, may c s → may' c s) {m : Fallible R ε α}
    (h : Safe step may m Q E s) : Safe step may' m Q E s := Program.Safe.allow hmay h

/-- However the environment answers, the function returns a value, and one in `Q`. -/
def Delivers (step : (c : C) → S → R c → S → Prop) (m : Fallible R ε α) (Q : α → S → Prop) (s : S) :
    Prop := Safe step (fun _ _ => True) m Q (fun _ _ => False) s

/-- A function that does not fail in this environment delivers. -/
lemma Safe.delivers {m : Fallible R ε α} (h : Safe step may m Q E s) (hno : ∀ e s, ¬ E e s) :
    Delivers step m Q s :=
  Safe.mono (Safe.allow (fun _ _ _ => trivial) h) (fun _ _ h => h) (fun e s h => hno e s h)

/-- A function that delivers has a run against a handler that answers as the environment may. -/
lemma Delivers.exec {h : Handler R S} (hstep : ∀ c s, step c s (h c s).1 (h c s).2)
    {m : Fallible R ε α} (hm : Delivers step m Q s) :
    ∃ a s', Ends step m.run s (.ok a) s' ∧ Q a s' := by
  have hends := exec_ends hstep m.run s
  have hresult := Program.Safe.ends hm hends
  cases hexec : (Program.exec h m.run s).1 with
  | error e =>
      rw [hexec] at hresult
      exact hresult.elim
  | ok a =>
      rw [hexec] at hends hresult
      exact ⟨a, _, hends, hresult⟩

/-- A value that was computed without a call, its error returning early. -/
def ofExcept (r : Except ε α) : Fallible R ε α := ExceptT.mk (Pure.pure r)

lemma Safe.ofExcept {r : Except ε α} (h : match r with
    | .ok a => Q a s
    | .error e => E e s) : Safe step may (Fallible.ofExcept r : Fallible R ε α) Q E s := h

end Fallible

/-- A call whose reply is an error or a value, the error returning early after a conversion. -/
def attempt (conv : ε' → ε) (p : Program R (Except ε' α)) : Fallible R ε α :=
  ExceptT.mk (Except.mapError conv <$> p)

lemma Fallible.Safe.attempt {conv : ε' → ε} {p : Program R (Except ε' α)} {Q : α → S → Prop}
    {E : ε → S → Prop} {s : S}
    (h : Program.Safe step may p (fun r s => match r with
      | .ok a => Q a s
      | .error e => E (conv e) s) s) :
    Fallible.Safe step may (Interaction.attempt conv p) Q E s := by
  refine Program.Safe.map (Program.Safe.mono ?_ h)
  intro r s' hr
  cases r with
  | ok a => exact hr
  | error e => exact hr

/-! ## Methods with a receiver -/

/-- A method that may update its receiver and return early with an error; what it has done to
the receiver by then stays done. -/
abbrev Method (R : C → Type) (ε σ α : Type) := ExceptT ε (StateT σ (Program R)) α

/-- A function without a receiver, called from a method. -/
instance : MonadLift (Fallible R ε) (Method R ε σ) where
  monadLift f := ExceptT.mk (StateT.lift f.run)

namespace Method

/-- Run a method on a receiver. -/
def on (m : Method R ε σ α) (self : σ) : Program R (Except ε α × σ) := m.run.run self

/-- The safety judgement with a postcondition for each way to return; both speak of the receiver
as the method leaves it. -/
def Safe (step : (c : C) → S → R c → S → Prop) (may : C → S → Prop) (m : Method R ε σ α)
    (self : σ) (Q : α → σ → S → Prop) (E : ε → σ → S → Prop) (s : S) : Prop :=
  Program.Safe step may (m.on self) (fun r s => match r with
    | (.ok a, self') => Q a self' s
    | (.error e, self') => E e self' s) s

variable {Q : α → σ → S → Prop} {E : ε → σ → S → Prop} {self : σ} {s : S}

lemma Safe.pure {a : α} (h : Q a self s) :
    Safe step may (pure a : Method R ε σ α) self Q E s := h

lemma Safe.throw {e : ε} (h : E e self s) :
    Safe step may (throw e : Method R ε σ α) self Q E s := h

lemma Safe.get {Q : σ → σ → S → Prop} (h : Q self self s) :
    Safe step may (get : Method R ε σ σ) self Q E s := h

lemma Safe.modify {f : σ → σ} {Q : PUnit → σ → S → Prop} (h : Q ⟨⟩ (f self) s) :
    Safe step may (modify f : Method R ε σ PUnit) self Q E s := h

lemma Safe.set {Q : PUnit → σ → S → Prop} {new : σ} (h : Q ⟨⟩ new s) :
    Safe step may (set new : Method R ε σ PUnit) self Q E s := h

lemma Safe.mono {m : Method R ε σ α} {Q' : α → σ → S → Prop} {E' : ε → σ → S → Prop}
    (h : Safe step may m self Q E s) (hQ : ∀ a self s, Q a self s → Q' a self s)
    (hE : ∀ e self s, E e self s → E' e self s) : Safe step may m self Q' E' s := by
  refine Program.Safe.mono (fun r s' hr => ?_) h
  rcases r with ⟨_ | _, self'⟩
  · exact hE _ _ _ hr
  · exact hQ _ _ _ hr

lemma on_bind (m : Method R ε σ α) (f : α → Method R ε σ β) (self : σ) :
    (m >>= f).on self = (m.on self >>= fun p =>
      match p.1 with
      | .ok a => (f a).on p.2
      | .error e => pure (.error e, p.2)) := by
  show (ExceptT.run (m >>= f)).run self = _
  rw [ExceptT.run_bind, StateT.run_bind]
  congr 1
  funext p
  rcases p with ⟨_ | _, _⟩ <;> rfl

lemma Safe.bind {m : Method R ε σ α} {f : α → Method R ε σ β} {Q : β → σ → S → Prop}
    (h : Safe step may m self (fun a self s => Safe step may (f a) self Q E s) E s) :
    Safe step may (m >>= f) self Q E s := by
  unfold Safe
  rw [on_bind]
  refine Program.Safe.bind (Program.Safe.mono ?_ h)
  rintro ⟨_ | _, self'⟩ s' hr
  · exact hr
  · exact hr

lemma Safe.lift {m : Fallible R ε α}
    (h : Fallible.Safe step may m (fun a s => Q a self s) (fun e s => E e self s) s) :
    Safe step may (liftM m : Method R ε σ α) self Q E s := by
  refine Program.Safe.bind (Program.Safe.mono ?_ h)
  intro r s' hr
  cases r with
  | ok a => exact hr
  | error e => exact hr

lemma Safe.liftProgram {p : Program R α} (h : Program.Safe step may p (fun a s => Q a self s) s) :
    Safe step may (liftM p : Method R ε σ α) self Q E s := Safe.lift (Fallible.Safe.lift h)

/-- Run a method and hand its result to the caller, who goes on either way. -/
def result (m : Method R ε' σ α) : Method R ε σ (Except ε' α) := ExceptT.mk (Except.ok <$> m.run)

lemma Safe.result {m : Method R ε' σ α} {Q : Except ε' α → σ → S → Prop}
    (h : Safe step may m self (fun a => Q (.ok a)) (fun e => Q (.error e)) s) :
    Safe step may (Method.result m : Method R ε σ (Except ε' α)) self Q E s := by
  show Program.Safe step may ((Except.ok <$> m.run).run self) _ s
  rw [StateT.run_map]
  refine Program.Safe.map (Program.Safe.mono ?_ h)
  rintro ⟨_ | _, self'⟩ s' hr
  · exact hr
  · exact hr

/-- Run a method on a part of the receiver, which is `put` back whatever the method returns. -/
def focus {τ : Type} (put : σ → τ) (m : Method R ε σ α) (part : σ) : Method R ε τ α := do
  let (result, part) ← (m.on part : Program R (Except ε α × σ))
  set (put part)
  (Fallible.ofExcept result : Fallible R ε α)

lemma Safe.focus {τ : Type} {put : σ → τ} {m : Method R ε σ α} {part : σ} {self : τ}
    {Q : α → τ → S → Prop} {E : ε → τ → S → Prop}
    (h : Safe step may m part (fun a new => Q a (put new)) (fun e new => E e (put new)) s) :
    Safe step may (Method.focus put m part) self Q E s := by
  refine bind (liftProgram (Program.Safe.mono ?_ h))
  rintro ⟨e | a, new⟩ s' hr
  · exact bind (set (lift (Fallible.Safe.throw hr)))
  · exact bind (set (lift (Fallible.Safe.pure hr)))

lemma Safe.allow {may' : C → S → Prop} (hmay : ∀ c s, may c s → may' c s) {m : Method R ε σ α}
    (h : Safe step may m self Q E s) : Safe step may' m self Q E s := Program.Safe.allow hmay h

/-- With each end that is safe comes the run to it. -/
lemma Safe.ending {m : Method R ε σ α} (h : Safe step may m self Q E s) :
    Safe step may m self
      (fun a self' s' => Q a self' s' ∧ Ends step (m.on self) s (.ok a, self') s')
      (fun e self' s' => E e self' s' ∧ Ends step (m.on self) s (.error e, self') s') s := by
  refine Program.Safe.mono ?_ (Program.Safe.ending h)
  rintro ⟨e | a, self'⟩ s' hr
  · exact hr
  · exact hr

/-- However the environment answers, the method returns a value, in `Q` with the receiver it
leaves. -/
def Delivers (step : (c : C) → S → R c → S → Prop) (m : Method R ε σ α) (self : σ)
    (Q : α → σ → S → Prop) (s : S) : Prop :=
  Safe step (fun _ _ => True) m self Q (fun _ _ _ => False) s

/-- A run of a method against a handler that ends with an error. -/
lemma exec_ends_error {h : Handler R S} (hstep : ∀ c s, step c s (h c s).1 (h c s).2)
    (m : Method R ε σ α) (self : σ) (s : S) (hfails : (exec h (m.on self) s).1.1.isOk = false) :
    ∃ e self', (exec h (m.on self) s).1 = (.error e, self') ∧
      Ends step (m.on self) s (.error e, self') (exec h (m.on self) s).2 := by
  have hends := exec_ends hstep (m.on self) s
  rcases hresult : (exec h (m.on self) s).1 with ⟨e | a, self'⟩
  · rw [hresult] at hends
    exact ⟨e, self', rfl, hends⟩
  · rw [hresult] at hfails
    cases hfails

/-- A run of a method against a handler that ends well. -/
lemma exec_ends_ok {h : Handler R S} (hstep : ∀ c s, step c s (h c s).1 (h c s).2)
    (m : Method R ε σ α) (self : σ) (s : S) (hok : (exec h (m.on self) s).1.1.isOk = true) :
    ∃ a self', (exec h (m.on self) s).1 = (.ok a, self') ∧
      Ends step (m.on self) s (.ok a, self') (exec h (m.on self) s).2 := by
  have hends := exec_ends hstep (m.on self) s
  rcases hresult : (exec h (m.on self) s).1 with ⟨e | a, self'⟩
  · rw [hresult] at hok
    cases hok
  · rw [hresult] at hends
    exact ⟨a, self', rfl, hends⟩

/-- A method called from one with another type of errors. -/
def adapt (conv : ε' → ε) (m : Method R ε' σ α) : Method R ε σ α := ExceptT.adapt conv m

lemma Safe.adapt {conv : ε' → ε} {m : Method R ε' σ α}
    (h : Safe step may m self Q (fun e => E (conv e)) s) :
    Safe step may (Method.adapt conv m) self Q E s := by
  show Program.Safe step may ((Except.mapError conv <$> m.run).run self) _ s
  rw [StateT.run_map]
  refine Program.Safe.map (Program.Safe.mono ?_ h)
  rintro ⟨_ | _, self'⟩ s' hr
  · exact hr
  · exact hr

end Method

/-! ## Owned values -/

/-- Run a method that consumes its receiver: whatever the method returns, the destructor runs on
what is left of the receiver. -/
def consume (drop : σ → Program R Unit) (m : Method R ε σ α) (self : σ) : Fallible R ε α := do
  let (result, rest) ← (m.on self : Program R (Except ε α × σ))
  drop rest
  match result with
  | .ok a => return a
  | .error e => throw e

/-- Run a method on a value that is owned by the caller: when the method returns early, the
destructor runs on what is left of the value, and the caller returns early as well. -/
def holding (drop : σ → Program R Unit) (m : Method R ε σ α) (self : σ) :
    Fallible R ε (α × σ) := do
  let (result, rest) ← (m.on self : Program R (Except ε α × σ))
  match result with
  | .ok a => return (a, rest)
  | .error e => do
      drop rest
      throw e

lemma Fallible.Safe.consume {drop : σ → Program R Unit} {m : Method R ε σ α} {self : σ}
    {Q : α → S → Prop} {E : ε → S → Prop} {s : S}
    (h : Method.Safe step may m self
      (fun a rest s => Program.Safe step may (drop rest) (fun _ s => Q a s) s)
      (fun e rest s => Program.Safe step may (drop rest) (fun _ s => E e s) s) s) :
    Fallible.Safe step may (Interaction.consume drop m self) Q E s := by
  refine Fallible.Safe.bind (Fallible.Safe.lift (Program.Safe.mono ?_ h))
  rintro ⟨_ | _, rest⟩ s' hr
  · exact Fallible.Safe.bind (Fallible.Safe.lift hr)
  · exact Fallible.Safe.bind (Fallible.Safe.lift hr)

lemma Fallible.Safe.holding {drop : σ → Program R Unit} {m : Method R ε σ α} {self : σ}
    {Q : α × σ → S → Prop} {E : ε → S → Prop} {s : S}
    (h : Method.Safe step may m self (fun a rest s => Q (a, rest) s)
      (fun e rest s => Program.Safe step may (drop rest) (fun _ s => E e s) s) s) :
    Fallible.Safe step may (Interaction.holding drop m self) Q E s := by
  refine Fallible.Safe.bind (Fallible.Safe.lift (Program.Safe.mono ?_ h))
  rintro ⟨_ | _, rest⟩ s' hr
  · exact Fallible.Safe.bind (Fallible.Safe.lift hr)
  · exact hr

/-! ## Errors in any environment -/

/-- In an environment that answers anything a program ends anywhere. -/
lemma Program.Safe.of_any {Q : α → Unit → Prop} (hQ : ∀ a, Q a ()) :
    (p : Program R α) → Program.Safe (fun _ _ _ _ => True) (fun _ _ => True) p Q ()
  | .done a => hQ a
  | .call _ k => ⟨trivial, fun r _ _ => Program.Safe.of_any hQ (k r)⟩

/-- Whatever the environment answers, the program ends in `P`. -/
def Program.Always (P : α → Prop) (p : Program R α) : Prop :=
  Program.Safe (fun _ (_ : Unit) _ _ => True) (fun _ _ => True) p (fun a _ => P a) ()

lemma Program.Always.of_call {P : α → Prop} {c : C} {k : R c → Program R α}
    (h : Always P (.call c k)) (r : R c) : Always P (k r) := h.2 r () trivial

lemma Program.Always.mono {P Q : α → Prop} {p : Program R α} (h : Always P p)
    (hPQ : ∀ a, P a → Q a) : Always Q p := Program.Safe.mono (fun a _ => hPQ a) h

lemma Program.Always.exec {P : α → Prop} (h : Handler R S) :
    {p : Program R α} → Always P p → (s : S) → P (Program.exec h p s).1
  | .done _, hp, _ => hp
  | .call c _, hp, s => Always.exec h (hp.of_call (h c s).1) (h c s).2

lemma Program.Always.map {P : β → Prop} {f : α → β} {p : Program R α}
    (h : Always (fun a => P (f a)) p) : Always P (f <$> p) := Program.Safe.map h

/-- Whatever the environment answers, an error that the function returns is one in `E`. -/
def Fallible.Raises (E : ε → Prop) (m : Fallible R ε α) : Prop :=
  Fallible.Safe (fun _ _ _ _ => True) (fun _ _ => True) m (fun _ _ => True) (fun e _ => E e) ()

/-- Whatever the environment answers, an error that the method returns is one in `E`. -/
def Method.Raises (E : ε → Prop) (m : Method R ε σ α) : Prop :=
  ∀ self, Method.Safe (fun _ _ _ _ => True) (fun _ _ => True) m self (fun _ _ _ => True)
    (fun e _ _ => E e) ()

namespace Fallible.Raises

variable {E : ε → Prop}

lemma pure (a : α) : Raises E (Pure.pure a : Fallible R ε α) := trivial

lemma throw {e : ε} (h : E e) : Raises E (MonadExcept.throw e : Fallible R ε α) := h

lemma bind {m : Fallible R ε α} {f : α → Fallible R ε β} (h : Raises E m)
    (hf : ∀ a, Raises E (f a)) : Raises E (m >>= f) :=
  Safe.bind (Safe.mono h (fun a _ _ => hf a) fun _ _ he => he)

lemma lift (p : Program R α) : Raises E (liftM p : Fallible R ε α) :=
  Safe.lift (Program.Safe.of_any (fun _ => trivial) p)

lemma ofExcept {r : Except ε α} (h : ∀ e, r = .error e → E e) :
    Raises E (Fallible.ofExcept r : Fallible R ε α) := by
  refine Safe.ofExcept ?_
  cases r with
  | ok a => trivial
  | error e => exact h e rfl

lemma attempt {conv : ε' → ε} (h : ∀ e, E (conv e)) (p : Program R (Except ε' α)) :
    Raises E (Interaction.attempt conv p) := by
  refine Safe.attempt (Program.Safe.of_any ?_ p)
  intro r
  cases r with
  | ok a => trivial
  | error e => exact h e

lemma ite {p : Prop} [Decidable p] {m m' : Fallible R ε α} (h : p → Raises E m)
    (h' : ¬ p → Raises E m') : Raises E (if p then m else m') := by
  by_cases hp : p
  · rw [if_pos hp]
    exact h hp
  · rw [if_neg hp]
    exact h' hp

/-- What is raised in any environment is raised in this one. -/
lemma safe {m : Fallible R ε α} (h : Raises E m) (s : S) :
    Safe step (fun _ _ => True) m (fun _ _ => True) (fun e _ => E e) s :=
  Program.Safe.along (fun _ => ()) (fun _ _ _ _ _ => trivial) (fun _ _ _ => trivial) h

end Fallible.Raises

namespace Method.Raises

variable {E : ε → Prop}

lemma pure (a : α) : Raises E (Pure.pure a : Method R ε σ α) := fun _ => trivial

lemma get : Raises E (MonadState.get : Method R ε σ σ) := fun _ => trivial

lemma set (new : σ) : Raises E (MonadStateOf.set new : Method R ε σ PUnit) := fun _ => trivial

lemma update (f : σ → σ) :
    Raises E (modify f : Method R ε σ PUnit) := fun _ => trivial

lemma bind {m : Method R ε σ α} {f : α → Method R ε σ β} (h : Raises E m)
    (hf : ∀ a, Raises E (f a)) : Raises E (m >>= f) :=
  fun self => Safe.bind (Safe.mono (h self) (fun a self' _ _ => hf a self') fun _ _ _ he => he)

lemma lift {m : Fallible R ε α} (h : Fallible.Raises E m) :
    Raises E (liftM m : Method R ε σ α) := fun _ => Safe.lift h

lemma adapt {conv : ε' → ε} (h : ∀ e, E (conv e)) (m : Method R ε' σ α) :
    Raises E (Method.adapt conv m) := by
  refine fun self => Safe.adapt (Program.Safe.of_any ?_ (m.on self))
  rintro ⟨_ | a, _⟩
  · exact h _
  · trivial

lemma consume {drop : σ → Program R Unit} {m : Method R ε σ α} {self : σ}
    (h : Safe (fun _ _ _ _ => True) (fun _ _ => True) m self (fun _ _ _ => True)
      (fun e _ _ => E e) ()) : Fallible.Raises E (Interaction.consume drop m self) := by
  refine Fallible.Safe.consume (Safe.mono h ?_ ?_)
  · exact fun _ rest _ _ => Program.Safe.of_any (fun _ => trivial) (drop rest)
  · exact fun _ rest _ he => Program.Safe.of_any (fun _ => he) (drop rest)

lemma holding {drop : σ → Program R Unit} {m : Method R ε σ α} (h : Raises E m) (self : σ) :
    Fallible.Raises E (Interaction.holding drop m self) := by
  refine Fallible.Safe.holding (Safe.mono (h self) ?_ ?_)
  · exact fun _ _ _ _ => trivial
  · exact fun _ rest _ he => Program.Safe.of_any (fun _ => he) (drop rest)

/-- What is raised in any environment is raised in this one. -/
lemma safe {m : Method R ε σ α} (h : Raises E m) (self : σ) (s : S) :
    Safe step (fun _ _ => True) m self (fun _ _ _ => True) (fun e _ _ => E e) s :=
  Program.Safe.along (fun _ => ()) (fun _ _ _ _ _ => trivial) (fun _ _ _ => trivial) (h self)

end Method.Raises

/-! ## What is left of a receiver in any environment -/

/-- Two continuations are the same where they agree on all values that the program may end with. -/
lemma Program.bind_congr {Q : α → Prop} {f g : α → Program R β} (hfg : ∀ a, Q a → f a = g a) :
    {p : Program R α} →
      Program.Safe (fun _ _ _ _ => True) (fun _ _ => True) p (fun a _ => Q a) () →
      (p >>= f) = (p >>= g)
  | .done a, h => hfg a h
  | .call c k, h => by
      rw [call_bind, call_bind]
      congr 1
      funext r
      exact Program.bind_congr hfg (h.2 r () trivial)

/-- The same for methods, whose values come with the receiver they leave. -/
lemma Method.on_bind_congr {Q : α → σ → Prop} {m : Method R ε σ α} {f g : α → Method R ε σ β}
    {self : σ} (h : Method.Safe (fun _ _ _ _ => True) (fun _ _ => True) m self
      (fun a self' _ => Q a self') (fun _ _ _ => True) ())
    (hfg : ∀ a self', Q a self' → (f a).on self' = (g a).on self') :
    (m >>= f).on self = (m >>= g).on self := by
  rw [Method.on_bind, Method.on_bind]
  refine Program.bind_congr (Q := fun p => ∀ a, p.1 = .ok a → Q a p.2) ?_
    (Program.Safe.mono ?_ h)
  · rintro ⟨_ | a, self'⟩ hp
    · rfl
    · exact hfg a self' (hp a rfl)
  · rintro ⟨_ | a, self'⟩ _ hr b hb
    · cases hb
    · cases hb
      exact hr

/-- Whatever the environment answers, a value that the function returns is one in `Q`. -/
def Fallible.Yields (Q : α → Prop) (m : Fallible R ε α) : Prop :=
  Fallible.Safe (fun _ _ _ _ => True) (fun _ _ => True) m (fun a _ => Q a) (fun _ _ => True) ()

/-- Whatever the environment answers, the method leaves a receiver in `I` in `I`. -/
def Method.Keeps (I : σ → Prop) (m : Method R ε σ α) : Prop :=
  ∀ self, I self → Method.Safe (fun _ _ _ _ => True) (fun _ _ => True) m self
    (fun _ self' _ => I self') (fun _ self' _ => I self') ()

namespace Method.Keeps

variable {I : σ → Prop}

lemma pure (a : α) : Keeps I (Pure.pure a : Method R ε σ α) := fun _ h => h

lemma throw (e : ε) : Keeps I (MonadExcept.throw e : Method R ε σ α) := fun _ h => h

lemma get : Keeps I (MonadState.get : Method R ε σ σ) := fun _ h => h

lemma update {f : σ → σ} (hf : ∀ self, I self → I (f self)) :
    Keeps I (modify f : Method R ε σ PUnit) := hf

lemma bind {m : Method R ε σ α} {f : α → Method R ε σ β} (h : Keeps I m)
    (hf : ∀ a, Keeps I (f a)) : Keeps I (m >>= f) :=
  fun self hself => Safe.bind (Safe.mono (h self hself) (fun a self' _ hself' => hf a self' hself')
    fun _ _ _ he => he)

lemma lift (m : Fallible R ε α) : Keeps I (liftM m : Method R ε σ α) := by
  refine fun self hself => Safe.lift (Program.Safe.of_any ?_ m)
  rintro (_ | _)
  · exact hself
  · exact hself

lemma liftProgram (p : Program R α) : Keeps I (liftM p : Method R ε σ α) := Keeps.lift _

lemma adapt {conv : ε' → ε} {m : Method R ε' σ α} (h : Keeps I m) :
    Keeps I (Method.adapt conv m) := fun self hself => Safe.adapt (h self hself)

lemma ite {p : Prop} [Decidable p] {m m' : Method R ε σ α} (h : Keeps I m) (h' : Keeps I m') :
    Keeps I (if p then m else m') := by
  split
  · exact h
  · exact h'

lemma holding {drop : σ → Program R Unit} {m : Method R ε σ α} (h : Keeps I m) {self : σ}
    (hself : I self) : Fallible.Yields (fun p => I p.2) (Interaction.holding drop m self) := by
  refine Fallible.Safe.holding (Safe.mono (h self hself) (fun _ _ _ h => h) ?_)
  exact fun _ rest _ _ => Program.Safe.of_any (fun _ => trivial) (drop rest)

end Method.Keeps

/-- What comes behind a function has to do only with the values that it yields. -/
lemma Fallible.Raises.bind_of_yields {E : ε → Prop} {Q : α → Prop} {m : Fallible R ε α}
    {f : α → Fallible R ε β} (h : Raises E m) (hQ : Yields Q m)
    (hf : ∀ a, Q a → Raises E (f a)) : Raises E (m >>= f) :=
  Safe.bind (Safe.mono (Safe.and h hQ) (fun a _ ha => hf a ha.2) fun _ _ he => he.1)

/-! ## Programs that share an environment -/

/-- Programs that run against one shared environment, in any interleaving of their calls. -/
structure Pool (R : C → Type) (ι α G : Type) where
  threads : ι → Program R α
  shared : G

namespace Pool

variable {ι G : Type} [DecidableEq ι]

/-- One of the programs makes its next call. -/
inductive Step (gstep : ι → (c : C) → G → R c → G → Prop) : Pool R ι α G → Pool R ι α G → Prop
  | call {threads : ι → Program R α} {g g' : G} (i : ι) {c : C} {k : R c → Program R α} {r : R c}
      (hthread : threads i = .call c k) (h : gstep i c g r g') :
      Step gstep ⟨threads, g⟩ ⟨Function.update threads i (k r), g'⟩

/-- The pools that can be reached by any interleaving, each program stopping wherever it likes. -/
inductive Reachable (gstep : ι → (c : C) → G → R c → G → Prop) (init : Pool R ι α G) :
    Pool R ι α G → Prop
  | refl : Reachable gstep init init
  | tail {p q : Pool R ι α G} (hp : Reachable gstep init p) (h : Step gstep p q) :
      Reachable gstep init q

/-- What is left of each program and its own view of the environment go on agreeing. -/
theorem invariantAlong {gstep : ι → (c : C) → G → R c → G → Prop}
    {View : (ι → Program R α) → G → (ι → S) → Prop} {Inv : ι → Program R α → S → Prop}
    (hview : ∀ i c k threads g r g' v, threads i = .call c k → View threads g v →
      Inv i (.call c k) (v i) → gstep i c g r g' →
      ∃ s', Inv i (k r) s' ∧ View (Function.update threads i (k r)) g' (Function.update v i s'))
    {init p : Pool R ι α G} (hp : Reachable gstep init p)
    (hinit : ∃ v, View init.threads init.shared v ∧ ∀ i, Inv i (init.threads i) (v i)) :
    ∃ v, View p.threads p.shared v ∧ ∀ i, Inv i (p.threads i) (v i) := by
  induction hp with
  | refl => exact hinit
  | tail _ h ih =>
      obtain ⟨v, hv, hinv⟩ := ih
      obtain ⟨i, hthread, hstep⟩ := h
      have hi := hinv i
      simp only [hthread] at hi
      obtain ⟨s', hs', hv'⟩ := hview i _ _ _ _ _ _ v hthread hv hi hstep
      refine ⟨Function.update v i s', hv', fun j => ?_⟩
      by_cases hj : j = i
      · subst hj
        simp only [Function.update_self]
        exact hs'
      · simp only [Function.update_of_ne hj]
        exact hinv j

/-- Each program goes on being safe in its own view of the environment, in which its calls may be
answered in its own way. -/
theorem invariantEach {gstep : ι → (c : C) → G → R c → G → Prop}
    {step : ι → (c : C) → S → R c → S → Prop} {may : ι → C → S → Prop} {View : G → (ι → S) → Prop}
    {Q : ι → α → S → Prop}
    (hview : ∀ i c g r g' v, View g v → may i c (v i) → gstep i c g r g' →
      ∃ s', step i c (v i) r s' ∧ View g' (Function.update v i s'))
    {init p : Pool R ι α G} (hp : Reachable gstep init p)
    (hinit : ∃ v, View init.shared v ∧
      ∀ i, Program.Safe (step i) (may i) (init.threads i) (Q i) (v i)) :
    ∃ v, View p.shared v ∧ ∀ i, Program.Safe (step i) (may i) (p.threads i) (Q i) (v i) := by
  refine @invariantAlong _ _ _ _ _ _ _ gstep (fun _ => View)
    (fun i p s => Program.Safe (step i) (may i) p (Q i) s) ?_ _ _ hp hinit
  intro i c k _ g r g' v _ hv hi hstep
  obtain ⟨s', hs', hv'⟩ := hview i c g r g' v hv hi.1 hstep
  exact ⟨s', hi.2 r s' hs', hv'⟩

/-- One of the programs may go on for `n` calls while the others wait. -/
lemma Reachable.advance {gstep : ι → (c : C) → G → R c → G → Prop} {init : Pool R ι α G}
    {h : Handler R G} (i : ι) (hstep : ∀ c g, gstep i c g (h c g).1 (h c g).2) (n : ℕ)
    {p : Pool R ι α G} (hp : Reachable gstep init p) :
    Reachable gstep init
      ⟨Function.update p.threads i (Program.advance h n (p.threads i) p.shared).1,
        (Program.advance h n (p.threads i) p.shared).2⟩ := by
  induction n generalizing p with
  | zero =>
      rw [Program.advance, Function.update_eq_self]
      exact hp
  | succ n ih =>
      obtain ⟨threads, g⟩ := p
      cases hthread : threads i with
      | done a =>
          simp only [hthread, Program.advance]
          rw [← hthread, Function.update_eq_self]
          exact hp
      | call c k =>
          have hnext := ih (.tail hp (.call i hthread (hstep c g)))
          simp only [Function.update_self, Function.update_idem] at hnext
          simpa only [hthread, Program.advance] using hnext

/-- One of the programs may be run to its end while the others wait. -/
lemma Reachable.exec {gstep : ι → (c : C) → G → R c → G → Prop} {init : Pool R ι α G}
    {h : Handler R G} (i : ι) (hstep : ∀ c g, gstep i c g (h c g).1 (h c g).2) {q : Program R α}
    {p : Pool R ι α G} (hp : Reachable gstep init p) (hthread : p.threads i = q) :
    Reachable gstep init ⟨Function.update p.threads i (.done (Program.exec h q p.shared).1),
      (Program.exec h q p.shared).2⟩ := by
  induction q generalizing p with
  | done a =>
      rw [Program.exec, ← hthread, Function.update_eq_self]
      exact hp
  | call c k ih =>
      obtain ⟨threads, g⟩ := p
      have hnext := ih (h c g).1 (.tail hp (.call i hthread (hstep c g)))
        (Function.update_self i _ threads)
      simp only [Function.update_idem] at hnext
      exact hnext

/-- What a program is bound to end with it does end with, at some point. -/
lemma Reachable.bound {gstep : ι → (c : C) → G → R c → G → Prop} {init : Pool R ι α G}
    {h : Handler R G} {P : α → Prop} {i : ι} {p : Pool R ι α G} (hp : Reachable gstep init p)
    (hstep : ∀ c g, gstep i c g (h c g).1 (h c g).2) (halways : Program.Always P (p.threads i)) :
    ∃ a q, Reachable gstep init q ∧ q.threads i = .done a ∧ P a :=
  ⟨_, _, hp.exec i hstep rfl, Function.update_self _ _ _, halways.exec h p.shared⟩

end Pool

end Interaction
