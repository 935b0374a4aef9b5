import Mathlib.Tactic

/-!
# Programs that can fail or be stopped

A `Prog σ ε α` runs on a state `σ` and ends in one of three ways: with a value, with an error
that the caller may handle, or by being stopped (a power loss, a panic).  The state it leaves behind
is kept in all three cases, because what survives a power loss is exactly what has to be reasoned
about.

* `Outcome`, `Prog` with its monad structure, `Prog.throw`, `Prog.attempt` (the caller looks at
  the error), `Prog.zoom` (a program on a component of a larger state);
* `Triple P p Q E C`: started where `P` holds, `p` ends in `Q` on success, in `E` on an error and
  in `C` when it is stopped;
* the structural rules of the triples, `Keeps K p`: however `p` ends, `K` still holds,
  `Returns Q p`: what `p` returns is in `Q`, `ReadOnly view p`: `p` only reads, and
  `Erases look p q`: `p` is `q` with something more to return.
-/

namespace CrashLogic

/-- How a run ends. -/
inductive Outcome (ε α : Type)
  | ok (a : α)
  | error (e : ε)
  | halted
  deriving DecidableEq

/-- A program over the state `σ` with errors in `ε`. -/
def Prog (σ ε α : Type) : Type := σ → Outcome ε α × σ

variable {σ τ ε ε' α β : Type}

namespace Prog

/-- Sequencing; an error or a stop ends the whole program. -/
def bind (p : Prog σ ε α) (f : α → Prog σ ε β) : Prog σ ε β := fun s =>
  match p s with
  | (.ok a, s') => f a s'
  | (.error e, s') => (.error e, s')
  | (.halted, s') => (.halted, s')

instance : Monad (Prog σ ε) where
  pure a := fun s => (.ok a, s)
  bind := bind

/-- End with an error. -/
def throw (e : ε) : Prog σ ε α := fun s => (.error e, s)

/-- Be stopped. -/
def halt : Prog σ ε α := fun s => (.halted, s)

/-- The current state. -/
def get : Prog σ ε σ := fun s => (.ok s, s)

/-- Change the state. -/
def modify (f : σ → σ) : Prog σ ε Unit := fun s => (.ok (), f s)

/-- A computation that does not touch the state. -/
def ofExcept : Except ε α → Prog σ ε α
  | .ok a => pure a
  | .error e => throw e

/-- Run `p` and hand its error, if any, to the caller as a value.  A stop cannot be handled. -/
def attempt (p : Prog σ ε α) : Prog σ ε' (Except ε α) := fun s =>
  match p s with
  | (.ok a, s') => (.ok (.ok a), s')
  | (.error e, s') => (.ok (.error e), s')
  | (.halted, s') => (.halted, s')

/-- Run a program on a component of the state. -/
def zoom (look : τ → σ) (put : τ → σ → τ) (p : Prog σ ε α) : Prog τ ε α := fun t =>
  ((p (look t)).1, put t (p (look t)).2)

@[simp] theorem pure_run (a : α) (s : σ) : (pure a : Prog σ ε α) s = (.ok a, s) := rfl

@[simp] theorem throw_run (e : ε) (s : σ) : (throw e : Prog σ ε α) s = (.error e, s) := rfl

@[simp] theorem get_run (s : σ) : (get : Prog σ ε σ) s = (.ok s, s) := rfl

@[simp] theorem modify_run (f : σ → σ) (s : σ) :
    (modify f : Prog σ ε Unit) s = (.ok (), f s) := rfl

theorem bind_run (p : Prog σ ε α) (f : α → Prog σ ε β) (s : σ) :
    (p >>= f) s = match p s with
      | (.ok a, s') => f a s'
      | (.error e, s') => (.error e, s')
      | (.halted, s') => (.halted, s') := rfl

@[simp] theorem ofExcept_ok_bind (a : α) (f : α → Prog σ ε β) :
    (ofExcept (.ok a) >>= f) = f a := rfl

theorem bind_of_ok {p : Prog σ ε α} {f : α → Prog σ ε β} {s s' : σ} {a : α}
    (h : p s = (.ok a, s')) : (p >>= f) s = f a s' := by
  rw [bind_run, h]

theorem bind_of_error {p : Prog σ ε α} {f : α → Prog σ ε β} {s s' : σ} {e : ε}
    (h : p s = (.error e, s')) : (p >>= f) s = (.error e, s') := by
  rw [bind_run, h]

protected theorem bind_assoc {γ : Type} (p : Prog σ ε α) (f : α → Prog σ ε β)
    (g : β → Prog σ ε γ) : (p >>= f) >>= g = p >>= fun a => f a >>= g := by
  funext s
  simp only [bind_run]
  generalize p s = r
  obtain ⟨a | e | _, s'⟩ := r <;> rfl

end Prog

/-- The postconditions of the three ways to end, at one outcome. -/
def Outcome.Meets (Q : α → Prop) (E : ε → Prop) (C : Prop) : Outcome ε α → Prop
  | .ok a => Q a
  | .error e => E e
  | .halted => C

theorem Outcome.Meets.const {R : Prop} (o : Outcome ε α) (h : R) :
    o.Meets (fun _ => R) (fun _ => R) True := by
  cases o with
  | ok a => exact h
  | error e => exact h
  | halted => trivial

theorem Outcome.Meets.mono {Q Q' : α → Prop} {E E' : ε → Prop} {C C' : Prop}
    {o : Outcome ε α} (h : o.Meets Q E C) (hQ : ∀ a, Q a → Q' a) (hE : ∀ e, E e → E' e)
    (hC : C → C') : o.Meets Q' E' C' := by
  cases o with
  | ok a => exact hQ a h
  | error e => exact hE e h
  | halted => exact hC h

/-- Started in `P`, the program ends in `Q`, `E` or `C` according to how it ends. -/
def Triple (P : σ → Prop) (p : Prog σ ε α) (Q : α → σ → Prop) (E : ε → σ → Prop)
    (C : σ → Prop) : Prop :=
  ∀ s, P s → (p s).1.Meets (fun a => Q a (p s).2) (fun e => E e (p s).2) (C (p s).2)

namespace Triple

variable {P P' : σ → Prop} {Q Q' : α → σ → Prop} {E E' : ε → σ → Prop} {C C' : σ → Prop}
  {p : Prog σ ε α}

theorem weaken (h : Triple P p Q E C) (hP : ∀ s, P' s → P s) (hQ : ∀ a s, Q a s → Q' a s)
    (hE : ∀ e s, E e s → E' e s) (hC : ∀ s, C s → C' s) : Triple P' p Q' E' C' := fun s hs =>
  (h s (hP s hs)).mono (fun a => hQ a _) (fun e => hE e _) (hC _)

theorem pre (h : Triple P p Q E C) (hP : ∀ s, P' s → P s) : Triple P' p Q E C :=
  h.weaken hP (fun _ _ => id) (fun _ _ => id) (fun _ => id)

theorem pure (a : α) (h : ∀ s, P s → Q a s) : Triple P (Pure.pure a : Prog σ ε α) Q E C := h

theorem throw (e : ε) (h : ∀ s, P s → E e s) : Triple P (Prog.throw e : Prog σ ε α) Q E C := h

theorem modify {Q : Unit → σ → Prop} (f : σ → σ) (h : ∀ s, P s → Q () (f s)) :
    Triple P (Prog.modify f : Prog σ ε Unit) Q E C := h

theorem ofExcept {x : Except ε α} (hok : ∀ a s, x = .ok a → P s → Q a s)
    (herr : ∀ e s, x = .error e → P s → E e s) : Triple P (Prog.ofExcept x) Q E C := by
  cases x with
  | ok a => exact fun s hs => hok a s rfl hs
  | error e => exact fun s hs => herr e s rfl hs

theorem bind {M : α → σ → Prop} {f : α → Prog σ ε β} {R : β → σ → Prop} (h : Triple P p M E C)
    (hf : ∀ a, Triple (M a) (f a) R E C) : Triple P (p >>= f) R E C := by
  intro s hs
  have hp := h s hs
  rw [Prog.bind_run]
  generalize p s = r at hp
  rcases r with ⟨a | e | _, s'⟩
  · exact hf a s' hp
  · exact hp
  · exact hp

/-- A step that only reads the state. -/
theorem bindRead {f : α → Prog σ ε β} {R : β → σ → Prop}
    (h : ∀ s, P s → ∃ a, p s = (.ok a, s) ∧ Triple (fun t => t = s) (f a) R E C) :
    Triple P (p >>= f) R E C := by
  intro s hs
  obtain ⟨a, ha, hf⟩ := h s hs
  rw [Prog.bind_of_ok ha]
  exact hf s rfl

theorem attempt {R : Except ε α → σ → Prop} {E : ε' → σ → Prop} (h : Triple P p
    (fun a => R (.ok a)) (fun e => R (.error e)) C) :
    Triple P (p.attempt : Prog σ ε' (Except ε α)) R E C := by
  intro s hs
  have hp := h s hs
  unfold Prog.attempt
  generalize p s = r at hp
  rcases r with ⟨a | e | _, s'⟩ <;> exact hp

/-- The caller looks at how `p` ended. -/
theorem bindAttempt {f : Except ε α → Prog σ ε' β} {R : β → σ → Prop} {E' : ε' → σ → Prop}
    (h : Triple P p Q E C) (herror : ∀ e, Triple (E e) (f (.error e)) R E' C)
    (hok : ∀ a, Triple (Q a) (f (.ok a)) R E' C) :
    Triple P ((p.attempt : Prog σ ε' (Except ε α)) >>= f) R E' C := by
  refine bind (attempt (R := fun r s => match r with
    | .ok a => Q a s
    | .error e => E e s) h) ?_
  rintro (e | a)
  · exact herror e
  · exact hok a

/-- A program on a component, specified from the state it is run in. -/
theorem zoom {P : τ → Prop} {Q : α → τ → Prop} {E : ε → τ → Prop} {C : τ → Prop}
    {look : τ → σ} {put : τ → σ → τ}
    (h : ∀ t, P t → Triple (fun s => s = look t) p (fun a s => Q a (put t s))
      (fun e s => E e (put t s)) (fun s => C (put t s))) :
    Triple P (Prog.zoom look put p) Q E C := fun t ht => h t ht (look t) rfl

theorem ite {c : Prop} [Decidable c] {q : Prog σ ε α} (hp : c → Triple P p Q E C)
    (hq : ¬c → Triple P q Q E C) : Triple P (if c then p else q) Q E C := by
  split
  · exact hp ‹_›
  · exact hq ‹_›

/-- A fact that holds in every state meeting the precondition may be taken out of it. -/
theorem ofFact {c : Prop} (hc : ∀ s, P s → c) (h : c → Triple P p Q E C) : Triple P p Q E C :=
  fun s hs => h (hc s hs) s hs

/-- A triple may be proved from a fixed initial state. -/
theorem ofState (h : ∀ t, P t → Triple (fun s => s = t) p Q E C) : Triple P p Q E C :=
  fun s hs => h s hs s rfl

/-- A triple from one initial state is about one run. -/
theorem ofRun {t : σ} (h : (p t).1.Meets (fun a => Q a (p t).2) (fun e => E e (p t).2)
    (C (p t).2)) : Triple (fun s => s = t) p Q E C := by
  rintro _ rfl
  exact h

theorem ofRunEq {t t' : σ} {o : Outcome ε α} (hrun : p t = (o, t'))
    (h : o.Meets (fun a => Q a t') (fun e => E e t') (C t')) :
    Triple (fun s => s = t) p Q E C := by
  refine ofRun ?_
  rw [hrun]
  exact h

/-- Two specifications of one program. -/
theorem both (h : Triple P p Q E C) (h' : Triple P' p Q' E' C') :
    Triple (fun s => P s ∧ P' s) p (fun a s => Q a s ∧ Q' a s) (fun e s => E e s ∧ E' e s)
      (fun s => C s ∧ C' s) := by
  rintro s ⟨hs, hs'⟩
  have hp := h s hs
  have hp' := h' s hs'
  generalize p s = r at hp hp'
  obtain ⟨a | e | _, t⟩ := r <;> exact ⟨hp, hp'⟩

/-- A program that is never stopped, and ends in `R` otherwise. -/
theorem ends {R : σ → Prop} {s : σ} (h : Triple P p (fun _ => R) (fun _ => R) (fun _ => False))
    (hs : P s) : (p s).1 ≠ .halted ∧ R (p s).2 := by
  have hp := h s hs
  generalize p s = r at hp
  rcases r with ⟨a | e | _, s'⟩
  · exact ⟨nofun, hp⟩
  · exact ⟨nofun, hp⟩
  · exact hp.elim

end Triple

/-- However the program ends, `K` still holds. -/
def Keeps (K : σ → Prop) (p : Prog σ ε α) : Prop :=
  Triple K p (fun _ => K) (fun _ => K) K

namespace Keeps

variable {K : σ → Prop} {p : Prog σ ε α}

theorem pure (a : α) : Keeps K (Pure.pure a : Prog σ ε α) := Triple.pure _ fun _ => id

theorem throw (e : ε) : Keeps K (Prog.throw e : Prog σ ε α) := Triple.throw _ fun _ => id

theorem ofExcept (x : Except ε α) : Keeps K (Prog.ofExcept x : Prog σ ε α) :=
  Triple.ofExcept (fun _ _ _ => id) fun _ _ _ => id

theorem bind {f : α → Prog σ ε β} (h : Keeps K p) (hf : ∀ a, Keeps K (f a)) :
    Keeps K (p >>= f) := Triple.bind h hf

theorem attempt (h : Keeps K p) : Keeps K (p.attempt : Prog σ ε (Except ε α)) :=
  Triple.attempt h

theorem ite {c : Prop} [Decidable c] {q : Prog σ ε α} (hp : c → Keeps K p) (hq : ¬c → Keeps K q) :
    Keeps K (if c then p else q) := Triple.ite hp hq

/-- The state after the program. -/
theorem snd (h : Keeps K p) {s : σ} (hs : K s) : K (p s).2 := by
  have hp := h s hs
  generalize p s = r at hp
  obtain ⟨a | e | _, s'⟩ := r <;> exact hp

/-- A program that leaves the state alone. -/
theorem of_state (h : ∀ s, (p s).2 = s) : Keeps K p := by
  intro s hs
  have hstate := h s
  generalize p s = r at hstate
  obtain ⟨a | e | _, s'⟩ := r <;> (subst hstate; exact hs)

end Keeps

/-- Whatever the program returns has the property `Q`. -/
def Returns (Q : α → Prop) (p : Prog σ ε α) : Prop :=
  Triple (fun _ => True) p (fun a _ => Q a) (fun _ _ => True) (fun _ => True)

namespace Returns

variable {Q : α → Prop} {R : β → Prop} {p : Prog σ ε α}

theorem pure {a : α} (h : Q a) : Returns Q (Pure.pure a : Prog σ ε α) := Triple.pure _ fun _ _ => h

theorem throw (e : ε) : Returns Q (Prog.throw e : Prog σ ε α) := Triple.throw _ fun _ => id

theorem ofExcept {x : Except ε α} (h : ∀ a, x = .ok a → Q a) :
    Returns Q (Prog.ofExcept x : Prog σ ε α) :=
  Triple.ofExcept (fun a _ ha _ => h a ha) fun _ _ _ => id

theorem bind {f : α → Prog σ ε β} (h : Returns Q p) (hf : ∀ a, Q a → Returns R (f a)) :
    Returns R (p >>= f) :=
  Triple.bind h fun a => Triple.ofFact (fun _ ha => ha) fun ha => (hf a ha).pre fun _ _ => trivial

/-- Nothing is known about what `p` returns. -/
theorem any : Returns (fun _ => True) p := by
  intro s _
  generalize p s = r
  obtain ⟨a | e | _, s'⟩ := r <;> trivial

theorem bindAny {f : α → Prog σ ε β} (hf : ∀ a, Returns R (f a)) : Returns R (p >>= f) :=
  any.bind fun a _ => hf a

theorem ite {c : Prop} [Decidable c] {q : Prog σ ε α} (hp : c → Returns Q p)
    (hq : ¬c → Returns Q q) : Returns Q (if c then p else q) := Triple.ite hp hq

theorem of_ok {s s' : σ} {a : α} (h : Returns Q p) (hp : p s = (.ok a, s')) : Q a := by
  have hs := h s trivial
  rw [hp] at hs
  exact hs

end Returns

/-- `p` only reads, and only what `view` shows of the state. -/
def ReadOnly {ν : Type} (view : σ → ν) (p : Prog σ ε α) : Prop :=
  ∃ answer : ν → Outcome ε α, ∀ s, p s = (answer (view s), s)

namespace ReadOnly

variable {ν : Type} {view : σ → ν} {p : Prog σ ε α}

theorem pure (a : α) : ReadOnly view (Pure.pure a : Prog σ ε α) := ⟨fun _ => .ok a, fun _ => rfl⟩

theorem throw (e : ε) : ReadOnly view (Prog.throw e : Prog σ ε α) :=
  ⟨fun _ => .error e, fun _ => rfl⟩

theorem ofExcept (x : Except ε α) : ReadOnly view (Prog.ofExcept x : Prog σ ε α) := by
  cases x with
  | ok a => exact pure a
  | error e => exact throw e

theorem bind {f : α → Prog σ ε β} (h : ReadOnly view p) (hf : ∀ a, ReadOnly view (f a)) :
    ReadOnly view (p >>= f) := by
  obtain ⟨answer, hp⟩ := h
  choose next hnext using hf
  refine ⟨fun n => match answer n with
    | .ok a => next a n
    | .error e => .error e
    | .halted => .halted, fun s => ?_⟩
  rw [Prog.bind_run, hp]
  cases ha : answer (view s) with
  | ok a => simpa only [ha] using hnext a s
  | error e => simp only [ha]
  | halted => simp only [ha]

theorem attempt (h : ReadOnly view p) :
    ReadOnly view (p.attempt : Prog σ ε' (Except ε α)) := by
  obtain ⟨answer, hp⟩ := h
  refine ⟨fun n => match answer n with
    | .ok a => .ok (.ok a)
    | .error e => .ok (.error e)
    | .halted => .halted, fun s => ?_⟩
  unfold Prog.attempt
  rw [hp]
  cases ha : answer (view s) <;> simp only [ha]

theorem ite {c : Prop} [Decidable c] {q : Prog σ ε α} (hp : ReadOnly view p)
    (hq : ReadOnly view q) : ReadOnly view (if c then p else q) := by
  split
  · exact hp
  · exact hq

/-- A wider view will do. -/
theorem widen {μ : Type} {view' : σ → μ} {g : μ → ν} (h : ReadOnly (fun s => g (view' s)) p) :
    ReadOnly view' p := by
  obtain ⟨answer, hp⟩ := h
  exact ⟨fun n => answer (g n), hp⟩

/-- The state is left alone, and two states that look the same give the same answer. -/
theorem run_eq (h : ReadOnly view p) {s s' : σ} (hview : view s = view s') :
    p s = ((p s').1, s) := by
  obtain ⟨answer, hp⟩ := h
  rw [hp, hp, hview]

/-- Whatever holds of the state still holds. -/
theorem keeps {K : σ → Prop} (h : ReadOnly view p) : Keeps K p := by
  obtain ⟨answer, hp⟩ := h
  exact .of_state fun s => by rw [hp]

end ReadOnly

/-- `p` does what `q` does, and returns more than `q`: `look` gives what `q` returns. -/
def Erases (look : β → α) (p : Prog σ ε β) (q : Prog σ ε α) : Prop :=
  q = p >>= fun b => pure (look b)

namespace Erases

variable {look : β → α} {p : Prog σ ε β} {q : Prog σ ε α}

theorem pure (look : β → α) (b : β) : Erases look (Pure.pure b : Prog σ ε β) (Pure.pure (look b)) :=
  rfl

theorem throw (look : β → α) (e : ε) : Erases look (Prog.throw e : Prog σ ε β) (Prog.throw e) := rfl

theorem ofExcept {x : Except ε β} {y : Except ε α} (h : x.map look = y) :
    Erases look (Prog.ofExcept x : Prog σ ε β) (Prog.ofExcept y) := by
  subst h
  cases x <;> rfl

theorem bind {γ δ : Type} {look' : δ → γ} {f : β → Prog σ ε δ} {g : α → Prog σ ε γ}
    (h : Erases look p q) (hf : ∀ b, Erases look' (f b) (g (look b))) :
    Erases look' (p >>= f) (q >>= g) := by
  have hnext : (fun b => g (look b)) = fun b => f b >>= fun d => Pure.pure (look' d) :=
    funext hf
  unfold Erases
  rw [h, Prog.bind_assoc, Prog.bind_assoc]
  exact congrArg (p >>= ·) hnext

/-- Both begin with the same program. -/
theorem bindSame {γ : Type} {r : Prog σ ε γ} {f : γ → Prog σ ε β} {g : γ → Prog σ ε α}
    (hf : ∀ c, Erases look (f c) (g c)) : Erases look (r >>= f) (r >>= g) := by
  unfold Erases
  rw [Prog.bind_assoc]
  exact congrArg (r >>= ·) (funext hf)

theorem ite {c : Prop} [Decidable c] {p' : Prog σ ε β} {q' : Prog σ ε α}
    (h : Erases look p q) (h' : Erases look p' q') :
    Erases look (if c then p else p') (if c then q else q') := by
  split
  · exact h
  · exact h'

/-- `p` goes on to return even more. -/
theorem more {γ : Type} {look' : γ → α} {f : β → γ} (h : Erases look p q)
    (hf : ∀ b, look' (f b) = look b) : Erases look' (p >>= fun b => Pure.pure (f b)) q := by
  unfold Erases
  rw [h, Prog.bind_assoc]
  exact congrArg (p >>= ·) (funext fun b => congrArg Pure.pure (hf b).symm)

/-- What `q` returns comes from what `p` returns. -/
theorem of_ok {s s' : σ} {a : α} (h : Erases look p q) (hq : q s = (.ok a, s')) :
    ∃ b, p s = (.ok b, s') ∧ look b = a := by
  rw [h, Prog.bind_run] at hq
  cases hp : p s with
  | mk o t =>
    rw [hp] at hq
    cases o with
    | ok b =>
      have heq : (Outcome.ok (look b), t) = (.ok a, s') := hq
      rw [Prod.mk.injEq, Outcome.ok.injEq] at heq
      exact ⟨b, by rw [heq.2], heq.1⟩
    | error e => cases hq
    | halted => cases hq

end Erases

end CrashLogic
