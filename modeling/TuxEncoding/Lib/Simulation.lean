import TuxEncoding.Lib.Interaction

/-!
# Two programs side by side

`Similar step may Q p q` is the judgement that the program `q` makes the calls that `p` makes, one
by one, or does in a few calls of its own what one call of `p` does, and in between only makes calls
that have one answer and change nothing. The values that the two end with are related by `Q`, which
also sees the environment.

* `Similar.bind` composes it, and `Fallible.Similar` and `Method.Similar` are the judgement for
  programs that return early and for methods with a receiver.
* `Similar.ends` and `Similar.ends_of`: every run of one program is matched by a run of the other.
* `Similar.exec`: against one handler, whose answers the judgement covers, both leave the same
  environment.

As with `Safe`, the calls of `p` are under a contract `may`, and `Similar.keeps` adds what the
allowed calls preserve to the postcondition.
-/

namespace Interaction

variable {C : Type} {R : C → Type} {α β γ δ S : Type}

namespace Program

/-- The program `q` does what `p` does, up to calls of its own that change nothing. -/
inductive Similar (step : (c : C) → S → R c → S → Prop) (may : C → S → Prop)
    (Q : α → β → S → Prop) : Program R α → Program R β → S → Prop
  | done {a : α} {b : β} {s : S} (h : Q a b s) : Similar step may Q (.done a) (.done b) s
  /-- both make the same call -/
  | call {c : C} {k : R c → Program R α} {k' : R c → Program R β} {s : S} (hmay : may c s)
      (h : ∀ r s', step c s r s' → Similar step may Q (k r) (k' r) s') :
      Similar step may Q (.call c k) (.call c k') s
  /-- the second one does in its own way what a call of the first one does: each has one outcome, if
  any, and they are in the same state then -/
  | merge {δ : Type} {c : C} {k : R c → Program R α} {m : Program R δ} {k' : δ → Program R β}
      {s s₁ : S} {goesOn : Prop} {r : R c} {d : δ} (hmay : may c s)
      (hcall : ∀ r' s', step c s r' s' ↔ goesOn ∧ r' = r ∧ s' = s₁)
      (hm : ∀ d' s', Ends step m s d' s' ↔ goesOn ∧ d' = d ∧ s' = s₁)
      (h : goesOn → Similar step may Q (k r) (k' d) s₁) :
      Similar step may Q (.call c k) (m >>= k') s
  /-- the second one makes a call that changes nothing -/
  | idle {c : C} {r : R c} {p : Program R α} {k' : R c → Program R β} {s : S}
      (hstep : ∀ r' s', step c s r' s' ↔ r' = r ∧ s' = s) (h : Similar step may Q p (k' r) s) :
      Similar step may Q p (.call c k') s

namespace Similar

variable {step : (c : C) → S → R c → S → Prop} {may : C → S → Prop} {Q : α → β → S → Prop}
  {p : Program R α} {q : Program R β} {s s' : S}

/-- The postcondition may be weakened. -/
lemma mono {Q' : α → β → S → Prop} (hQ : ∀ a b s, Q a b s → Q' a b s)
    (h : Similar step may Q p q s) : Similar step may Q' p q s := by
  induction h with
  | done h => exact .done (hQ _ _ _ h)
  | call hmay _ ih => exact .call hmay ih
  | merge hmay hcall hm _ ih => exact .merge hmay hcall hm ih
  | idle hstep _ ih => exact .idle hstep ih

/-- Sequencing: the first two programs have to end where the second two are similar. -/
lemma bind {Q : γ → δ → S → Prop} {f : α → Program R γ} {g : β → Program R δ}
    (h : Similar step may (fun a b s => Similar step may Q (f a) (g b) s) p q s) :
    Similar step may Q (p >>= f) (q >>= g) s := by
  induction h with
  | done h => exact h
  | call hmay _ ih => exact .call hmay ih
  | merge hmay hcall hm _ ih =>
      rw [bind_assoc]
      exact .merge hmay hcall hm ih
  | idle hstep _ ih => exact .idle hstep ih

lemma request {c : C} {Q : R c → R c → S → Prop} (hmay : may c s)
    (h : ∀ r s', step c s r s' → Q r r s') :
    Similar step may Q (Program.request c) (Program.request c) s :=
  .call hmay fun r s' hr => .done (h r s' hr)

lemma map {Q : γ → δ → S → Prop} {f : α → γ} {g : β → δ}
    (h : Similar step may (fun a b s => Q (f a) (g b) s) p q s) :
    Similar step may Q (f <$> p) (g <$> q) s := by
  rw [map_eq_pure_bind, map_eq_pure_bind]
  exact bind (mono (fun _ _ _ hab => .done hab) h)

/-- A safe program is similar to itself. -/
lemma same {P : α → S → Prop} :
    {p : Program R α} → {s : S} → Safe step may p P s →
      Similar step may (fun a b s => a = b ∧ P a s) p p s
  | .done _, _, h => .done ⟨rfl, h⟩
  | .call _ _, _, h => .call h.1 fun r s' hr => same (h.2 r s' hr)

/-- What the allowed calls preserve is preserved. -/
lemma keeps {I : S → Prop} (hI : ∀ c s r s', may c s → step c s r s' → I s → I s')
    (h : Similar step may Q p q s) (hs : I s) :
    Similar step may (fun a b s => Q a b s ∧ I s) p q s := by
  induction h with
  | done h => exact .done ⟨h, hs⟩
  | call hmay _ ih => exact .call hmay fun r s' hr => ih r s' hr (hI _ _ _ _ hmay hr hs)
  | merge hmay hcall hm _ ih =>
      refine .merge hmay hcall hm fun hgoes => ih hgoes ?_
      exact hI _ _ _ _ hmay ((hcall _ _).mpr ⟨hgoes, rfl, rfl⟩) hs
  | idle hstep _ ih => exact .idle hstep (ih hs)

/-- The first program may be allowed to make more calls. -/
lemma allow {may' : C → S → Prop} (hmay : ∀ c s, may c s → may' c s)
    (h : Similar step may Q p q s) : Similar step may' Q p q s := by
  induction h with
  | done h => exact .done h
  | call hc _ ih => exact .call (hmay _ _ hc) ih
  | merge hc hcall hm _ ih => exact .merge (hmay _ _ hc) hcall hm ih
  | idle hstep _ ih => exact .idle hstep ih

/-- A run of the first program is matched by one of the second. -/
lemma ends {a : α} (h : Similar step may Q p q s) (hrun : Ends step p s a s') :
    ∃ b, Ends step q s b s' ∧ Q a b s' := by
  induction h with
  | done h =>
      cases hrun
      exact ⟨_, .refl _ _, h⟩
  | call hmay _ ih =>
      cases hrun with
      | call hstep rest =>
          obtain ⟨b, hends, hb⟩ := ih _ _ hstep rest
          exact ⟨b, .call hstep hends, hb⟩
  | merge _ hcall hm _ ih =>
      cases hrun with
      | call hstep rest =>
          obtain ⟨hgoes, rfl, rfl⟩ := (hcall _ _).mp hstep
          obtain ⟨b, hends, hb⟩ := ih hgoes rest
          exact ⟨b, ((hm _ _).mpr ⟨hgoes, rfl, rfl⟩).bind hends, hb⟩
  | idle hstep _ ih =>
      obtain ⟨b, hends, hb⟩ := ih hrun
      exact ⟨b, .call ((hstep _ _).mpr ⟨rfl, rfl⟩) hends, hb⟩

/-- A run of the second program is matched by one of the first. -/
lemma ends_of {b : β} (h : Similar step may Q p q s) (hrun : Ends step q s b s') :
    ∃ a, Ends step p s a s' ∧ Q a b s' := by
  induction h with
  | done h =>
      cases hrun
      exact ⟨_, .refl _ _, h⟩
  | call hmay _ ih =>
      cases hrun with
      | call hstep rest =>
          obtain ⟨a, hends, ha⟩ := ih _ _ hstep rest
          exact ⟨a, .call hstep hends, ha⟩
  | merge _ hcall hm _ ih =>
      obtain ⟨d, s₁, hd, rest⟩ := hrun.of_bind
      obtain ⟨hgoes, rfl, rfl⟩ := (hm _ _).mp hd
      obtain ⟨a, hends, ha⟩ := ih hgoes rest
      exact ⟨a, .call ((hcall _ _).mpr ⟨hgoes, rfl, rfl⟩) hends, ha⟩
  | idle hstep _ ih =>
      cases hrun with
      | call hidle rest =>
          obtain ⟨rfl, rfl⟩ := (hstep _ _).mp hidle
          exact ih rest

/-- Against one handler both programs leave the same environment. -/
lemma exec {handler : Handler R S} (h : Similar step may Q p q s)
    (hp : Obeys step handler p s) (hq : Obeys step handler q s) :
    Q (Program.exec handler p s).1 (Program.exec handler q s).1 (Program.exec handler p s).2 ∧
      (Program.exec handler q s).2 = (Program.exec handler p s).2 := by
  induction h with
  | done h => exact ⟨h, rfl⟩
  | call _ _ ih => exact ih _ _ hp.1 hp.2 hq.2
  | merge _ hcall hm _ ih =>
      obtain ⟨hgoes, hr, hs⟩ := (hcall _ _).mp hp.1
      obtain ⟨hd, hrest⟩ := hq.of_bind
      obtain ⟨_, hvalue, hstate⟩ := (hm _ _).mp hd.ends
      have hp' := hp.2
      rw [hr, hs] at hp'
      rw [hvalue, hstate] at hrest
      rw [exec_bind, hvalue, hstate, Program.exec, hr, hs]
      exact ih hgoes hp' hrest
  | idle hstep _ ih =>
      obtain ⟨hr, hs⟩ := (hstep _ _).mp hq.1
      have hq' := hq.2
      rw [hr, hs] at hq'
      rw [Program.exec, hr, hs]
      exact ih hp hq'

end Similar

end Program

open Program

variable {ε ε' ε₁ ε₂ σ τ : Type} {step : (c : C) → S → R c → S → Prop} {may : C → S → Prop}

/-! ## Functions that return early -/

/-- Two results are related when both are values, or both errors, and these are. -/
def BothReturn (Q : α → β → Prop) (E : ε → ε' → Prop) : Except ε α → Except ε' β → Prop
  | .ok a, .ok b => Q a b
  | .error e, .error e' => E e e'
  | _, _ => False

lemma BothReturn.ok {Q : α → β → Prop} {E : ε → ε' → Prop} {a : α} {b : β} (h : Q a b) :
    BothReturn Q E (.ok a) (.ok b) := h

lemma BothReturn.error {Q : α → β → Prop} {E : ε → ε' → Prop} {e : ε} {e' : ε'} (h : E e e') :
    BothReturn Q E (.error e) (.error e') := h

lemma BothReturn.mono {Q Q' : α → β → Prop} {E E' : ε → ε' → Prop} (hQ : ∀ a b, Q a b → Q' a b)
    (hE : ∀ e e', E e e' → E' e e') {r : Except ε α} {r' : Except ε' β}
    (h : BothReturn Q E r r') : BothReturn Q' E' r r' :=
  match r, r', h with
  | .ok a, .ok b, h => hQ a b h
  | .error e, .error e', h => hE e e' h

/-- A computation is related to itself when its outcomes are. -/
lemma BothReturn.same {Q : α → α → Prop} {E : ε → ε → Prop} {r : Except ε α}
    (hQ : ∀ a, r = .ok a → Q a a) (hE : ∀ e, r = .error e → E e e) : BothReturn Q E r r := by
  cases r with
  | ok a => exact hQ a rfl
  | error e => exact hE e rfl

namespace Fallible

/-- The judgement for functions that return early: both return a value or both an error. -/
def Similar (step : (c : C) → S → R c → S → Prop) (may : C → S → Prop) (m : Fallible R ε α)
    (m' : Fallible R ε' β) (Q : α → β → S → Prop) (E : ε → ε' → S → Prop) (s : S) : Prop :=
  Program.Similar step may (fun r r' s => BothReturn (Q · · s) (E · · s) r r') m.run m'.run s

namespace Similar

variable {m : Fallible R ε α} {m' : Fallible R ε' β} {Q : α → β → S → Prop}
  {E : ε → ε' → S → Prop} {s : S}

lemma pure {a : α} {b : β} (h : Q a b s) :
    Similar step may (pure a : Fallible R ε α) (pure b : Fallible R ε' β) Q E s := .done h

lemma throw {e : ε} {e' : ε'} (h : E e e' s) :
    Similar step may (throw e : Fallible R ε α) (throw e' : Fallible R ε' β) Q E s := .done h

lemma mono {Q' : α → β → S → Prop} {E' : ε → ε' → S → Prop} (h : Similar step may m m' Q E s)
    (hQ : ∀ a b s, Q a b s → Q' a b s) (hE : ∀ e e' s, E e e' s → E' e e' s) :
    Similar step may m m' Q' E' s :=
  Program.Similar.mono (fun _ _ s' => BothReturn.mono (hQ · · s') (hE · · s')) h

/-- What the allowed calls preserve is preserved, whichever way both return. -/
lemma keeps {I : S → Prop} (hI : ∀ c s r s', may c s → step c s r s' → I s → I s')
    (h : Similar step may m m' Q E s) (hs : I s) :
    Similar step may m m' (fun a b s => Q a b s ∧ I s) (fun e e' s => E e e' s ∧ I s) s := by
  refine Program.Similar.mono ?_ (Program.Similar.keeps hI h hs)
  rintro r r' s' ⟨hr, hs'⟩
  exact BothReturn.mono (fun _ _ h => ⟨h, hs'⟩) (fun _ _ h => ⟨h, hs'⟩) hr

lemma bind {f : α → Fallible R ε γ} {g : β → Fallible R ε' δ} {Q : γ → δ → S → Prop}
    (h : Similar step may m m' (fun a b s => Similar step may (f a) (g b) Q E s) E s) :
    Similar step may (m >>= f) (m' >>= g) Q E s := by
  refine Program.Similar.bind (Program.Similar.mono ?_ h)
  rintro (e | a) (e' | b) s' hr
  · exact .done hr
  · exact hr.elim
  · exact hr.elim
  · exact hr

lemma lift {p : Program R α} {q : Program R β} (h : Program.Similar step may Q p q s) :
    Similar step may (liftM p : Fallible R ε α) (liftM q : Fallible R ε' β) Q E s :=
  Program.Similar.map h

/-- A safe function is similar to itself. -/
lemma same {Q : α → S → Prop} {E : ε → S → Prop} (h : Safe step may m Q E s) :
    Similar step may m m (fun a b s => a = b ∧ Q a s) (fun e e' s => e = e' ∧ E e s) s := by
  refine Program.Similar.mono ?_ (Program.Similar.same h)
  rintro (e | a) _ s' ⟨rfl, hr⟩
  · exact ⟨rfl, hr⟩
  · exact ⟨rfl, hr⟩

lemma ofExcept {r : Except ε α} {r' : Except ε' β} (h : BothReturn (Q · · s) (E · · s) r r') :
    Similar step may (Fallible.ofExcept r : Fallible R ε α)
      (Fallible.ofExcept r' : Fallible R ε' β) Q E s := .done h

/-- Two calls whose errors are converted, each in its own way. -/
lemma attempt {conv : ε₁ → ε} {conv' : ε₂ → ε'} {p : Program R (Except ε₁ α)}
    {q : Program R (Except ε₂ β)}
    (h : Program.Similar step may
      (fun r r' s => BothReturn (Q · · s) (fun e e' => E (conv e) (conv' e') s) r r') p q s) :
    Similar step may (Interaction.attempt conv p) (Interaction.attempt conv' q) Q E s := by
  refine Program.Similar.map (Program.Similar.mono ?_ h)
  rintro (e | a) (e' | b) s' hr
  · exact hr
  · exact hr
  · exact hr
  · exact hr

end Similar

end Fallible

/-! ## Methods with a receiver -/

namespace Method

/-- The judgement for methods; the postconditions speak of both receivers. -/
def Similar (step : (c : C) → S → R c → S → Prop) (may : C → S → Prop) (m : Method R ε σ α)
    (m' : Method R ε' τ β) (self : σ) (self' : τ) (Q : α → β → σ → τ → S → Prop)
    (E : ε → ε' → σ → τ → S → Prop) (s : S) : Prop :=
  Program.Similar step may
    (fun r r' s => BothReturn (Q · · r.2 r'.2 s) (E · · r.2 r'.2 s) r.1 r'.1)
    (m.on self) (m'.on self') s

namespace Similar

variable {m : Method R ε σ α} {m' : Method R ε' τ β} {self : σ} {self' : τ}
  {Q : α → β → σ → τ → S → Prop} {E : ε → ε' → σ → τ → S → Prop} {s : S}

lemma pure {a : α} {b : β} (h : Q a b self self' s) :
    Similar step may (pure a : Method R ε σ α) (pure b : Method R ε' τ β) self self' Q E s :=
  .done h

lemma throw {e : ε} {e' : ε'} (h : E e e' self self' s) :
    Similar step may (throw e : Method R ε σ α) (throw e' : Method R ε' τ β) self self' Q E s :=
  .done h

lemma get {Q : σ → τ → σ → τ → S → Prop} (h : Q self self' self self' s) :
    Similar step may (get : Method R ε σ σ) (get : Method R ε' τ τ) self self' Q E s := .done h

lemma modify {f : σ → σ} {g : τ → τ} {Q : PUnit → PUnit → σ → τ → S → Prop}
    (h : Q ⟨⟩ ⟨⟩ (f self) (g self') s) :
    Similar step may (modify f : Method R ε σ PUnit) (modify g : Method R ε' τ PUnit) self self' Q E
      s := .done h

lemma set {new : σ} {new' : τ} {Q : PUnit → PUnit → σ → τ → S → Prop} (h : Q ⟨⟩ ⟨⟩ new new' s) :
    Similar step may (set new : Method R ε σ PUnit) (set new' : Method R ε' τ PUnit) self self' Q E
      s := .done h

lemma mono {Q' : α → β → σ → τ → S → Prop} {E' : ε → ε' → σ → τ → S → Prop}
    (h : Similar step may m m' self self' Q E s)
    (hQ : ∀ a b self self' s, Q a b self self' s → Q' a b self self' s)
    (hE : ∀ e e' self self' s, E e e' self self' s → E' e e' self self' s) :
    Similar step may m m' self self' Q' E' s :=
  Program.Similar.mono
    (fun r r' s' => BothReturn.mono (hQ · · r.2 r'.2 s') (hE · · r.2 r'.2 s')) h

/-- What the allowed calls preserve is preserved, whichever way both return. -/
lemma keeps {I : S → Prop} (hI : ∀ c s r s', may c s → step c s r s' → I s → I s')
    (h : Similar step may m m' self self' Q E s) (hs : I s) :
    Similar step may m m' self self' (fun a b self self' s => Q a b self self' s ∧ I s)
      (fun e e' self self' s => E e e' self self' s ∧ I s) s := by
  refine Program.Similar.mono ?_ (Program.Similar.keeps hI h hs)
  rintro r r' s' ⟨hr, hs'⟩
  exact BothReturn.mono (fun _ _ h => ⟨h, hs'⟩) (fun _ _ h => ⟨h, hs'⟩) hr

lemma bind {f : α → Method R ε σ γ} {g : β → Method R ε' τ δ} {Q : γ → δ → σ → τ → S → Prop}
    (h : Similar step may m m' self self'
      (fun a b self self' s => Similar step may (f a) (g b) self self' Q E s) E s) :
    Similar step may (m >>= f) (m' >>= g) self self' Q E s := by
  unfold Similar
  rw [on_bind, on_bind]
  refine Program.Similar.bind (Program.Similar.mono ?_ h)
  rintro ⟨e | a, self⟩ ⟨e' | b, self'⟩ s' hr
  · exact .done hr
  · exact hr.elim
  · exact hr.elim
  · exact hr

lemma lift {m : Fallible R ε α} {m' : Fallible R ε' β}
    (h : Fallible.Similar step may m m' (Q · · self self') (E · · self self') s) :
    Similar step may (liftM m : Method R ε σ α) (liftM m' : Method R ε' τ β) self self' Q E s := by
  refine Program.Similar.bind (Program.Similar.mono ?_ h)
  rintro (e | a) (e' | b) s' hr
  · exact .done hr
  · exact hr.elim
  · exact hr.elim
  · exact .done hr

lemma adapt {conv : ε₁ → ε} {conv' : ε₂ → ε'} {m : Method R ε₁ σ α} {m' : Method R ε₂ τ β}
    (h : Similar step may m m' self self' Q (fun e e' => E (conv e) (conv' e')) s) :
    Similar step may (Method.adapt conv m) (Method.adapt conv' m') self self' Q E s := by
  show Program.Similar step may _ ((Except.mapError conv <$> m.run).run self)
    ((Except.mapError conv' <$> m'.run).run self') s
  rw [StateT.run_map, StateT.run_map]
  refine Program.Similar.map (Program.Similar.mono ?_ h)
  rintro ⟨e | a, self⟩ ⟨e' | b, self'⟩ s' hr
  · exact hr
  · exact hr.elim
  · exact hr.elim
  · exact hr

lemma focus {σ₁ τ₁ : Type} {put : σ₁ → σ} {put' : τ₁ → τ} {m : Method R ε σ₁ α}
    {m' : Method R ε' τ₁ β} {part : σ₁} {part' : τ₁}
    (h : Similar step may m m' part part' (fun a b new new' => Q a b (put new) (put' new'))
      (fun e e' new new' => E e e' (put new) (put' new')) s) :
    Similar step may (Method.focus put m part) (Method.focus put' m' part') self self' Q E s := by
  refine bind (lift (Fallible.Similar.lift (Program.Similar.mono ?_ h)))
  rintro ⟨e | a, new⟩ ⟨e' | b, new'⟩ s' hr
  · exact bind (set (lift (Fallible.Similar.throw hr)))
  · exact hr.elim
  · exact hr.elim
  · exact bind (set (lift (Fallible.Similar.pure hr)))

end Similar

end Method

/-! ## Owned values -/

/-- A consuming method that goes on where another one ends. -/
lemma consume_bind (drop : σ → Program R Unit) (m : Method R ε σ α) (k : α → Method R ε σ β)
    (self : σ) : consume drop (m >>= k) self = (do
      let (result, rest) ← (m.on self : Program R (Except ε α × σ))
      match result with
      | .ok a => consume drop (k a) rest
      | .error e => do
          drop rest
          throw e : Fallible R ε β) := by
  unfold consume
  rw [Method.on_bind, liftM_bind, bind_assoc]
  congr 1
  funext ⟨r, rest⟩
  cases r with
  | error e => rfl
  | ok a => rfl

namespace Fallible.Similar

variable {drop : σ → Program R Unit} {drop' : τ → Program R Unit} {m : Method R ε σ α}
  {m' : Method R ε' τ β} {self : σ} {self' : τ} {E : ε → ε' → S → Prop} {s : S}

lemma consume {Q : α → β → S → Prop}
    (h : Method.Similar step may m m' self self'
      (fun a b rest rest' s =>
        Program.Similar step may (fun _ _ s => Q a b s) (drop rest) (drop' rest') s)
      (fun e e' rest rest' s =>
        Program.Similar step may (fun _ _ s => E e e' s) (drop rest) (drop' rest') s) s) :
    Similar step may (Interaction.consume drop m self) (Interaction.consume drop' m' self') Q E
      s := by
  refine bind (lift (Program.Similar.mono ?_ h))
  rintro ⟨e | a, rest⟩ ⟨e' | b, rest'⟩ s' hr
  · exact bind (lift (Program.Similar.mono (fun _ _ _ he => throw he) hr))
  · exact hr.elim
  · exact hr.elim
  · exact bind (lift (Program.Similar.mono (fun _ _ _ ha => pure ha) hr))

lemma holding {Q : α × σ → β × τ → S → Prop}
    (h : Method.Similar step may m m' self self'
      (fun a b rest rest' s => Q (a, rest) (b, rest') s)
      (fun e e' rest rest' s =>
        Program.Similar step may (fun _ _ s => E e e' s) (drop rest) (drop' rest') s) s) :
    Similar step may (Interaction.holding drop m self) (Interaction.holding drop' m' self') Q E
      s := by
  refine bind (lift (Program.Similar.mono ?_ h))
  rintro ⟨e | a, rest⟩ ⟨e' | b, rest'⟩ s' hr
  · exact bind (lift (Program.Similar.mono (fun _ _ _ he => throw he) hr))
  · exact hr.elim
  · exact hr.elim
  · exact pure hr

/-- The second method may do more before it is consumed, if that is what the destructor of the first
one does. -/
lemma consume_then {k : β → Method R ε' τ δ} {Q : α → δ → S → Prop}
    (h : Method.Similar step may m m' self self'
      (fun a b rest rest' s => Similar step may
        (do
          drop rest
          return a : Fallible R ε α)
        (Interaction.consume drop' (k b) rest') Q E s)
      (fun e e' rest rest' s =>
        Program.Similar step may (fun _ _ s => E e e' s) (drop rest) (drop' rest') s) s) :
    Similar step may (Interaction.consume drop m self)
      (Interaction.consume drop' (m' >>= k) self') Q E s := by
  rw [consume_bind]
  refine bind (lift (Program.Similar.mono ?_ h))
  rintro ⟨e | a, rest⟩ ⟨e' | b, rest'⟩ s' hr
  · exact bind (lift (Program.Similar.mono (fun _ _ _ he => throw he) hr))
  · exact hr.elim
  · exact hr.elim
  · exact hr

end Fallible.Similar

end Interaction
