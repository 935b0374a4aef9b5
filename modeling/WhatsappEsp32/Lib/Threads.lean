import WhatsappEsp32.Lib.CrashLogic

/-!
# Threads that share a state

A `Thread L W σ α` is what a thread still has to do: acquire and release locks of `L` and act on
the shared state `σ`, one atomic action at a time.  An action may put the thread on a watch of
`W`, a ghost that says which part of the state the thread relies on until its next action.

* `Thread` with its monad structure, `Thread.withLock`, and `Thread.ofProg`, one program of
  `CrashLogic` as an action; `Thread.toProg` is the thread run alone;
* `Config`, `Step`: any number of threads, each starting a call when it has nothing to do;
* `Protocol`: what a thread may do while it holds some locks (`guar`), what it may rely on (`env`)
  and what a free lock promises (`free`); `Sat` says that a thread keeps to the protocol, `Ensures`
  is the triple built on it;
* `Inv.step`, `Inv.run`: if every call keeps to the protocol, so does every run;
* `Config.schedule`: a run along given turns.
-/

open CrashLogic

namespace Threads

/-- What a thread still has to do. -/
inductive Thread (L W σ α : Type)
  /-- Nothing: the call has returned. -/
  | ret (a : α)
  | acquire (l : L) (next : Thread L W σ α)
  | release (l : L) (next : Thread L W σ α)
  /-- An atomic action, what the thread watches after it, and how it goes on. -/
  | act (f : σ → σ) (watch : σ → Option W) (next : σ → Thread L W σ α)
  /-- Stopped for good, by a power loss. -/
  | stop

variable {L W σ ε α β : Type}

namespace Thread

protected def bind : Thread L W σ α → (α → Thread L W σ β) → Thread L W σ β
  | .ret a, k => k a
  | .acquire l p, k => .acquire l (p.bind k)
  | .release l p, k => .release l (p.bind k)
  | .act f watch next, k => .act f watch fun s => (next s).bind k
  | .stop, _ => .stop

instance : Monad (Thread L W σ) where
  pure := .ret
  bind := Thread.bind

/-- How a thread goes on after an action that ends like a program. -/
def ofOutcome : Outcome ε α → Thread L W σ (Except ε α)
  | .ok a => .ret (.ok a)
  | .error e => .ret (.error e)
  | .halted => .stop

/-- A program as one atomic action, after which the thread may be on a watch. -/
def ofProg (p : Prog σ ε α) (watch : Outcome ε α → Option W) : ExceptT ε (Thread L W σ) α :=
  .act (fun s => (p s).2) (fun s => watch (p s).1) fun s => ofOutcome (p s).1

/-- A guard: the lock is released however `p` returns. -/
def withLock (l : L) (p : ExceptT ε (Thread L W σ) α) : ExceptT ε (Thread L W σ) α :=
  .acquire l (Thread.bind p fun r => .release l (.ret r))

/-- The thread run alone. -/
def toProg : Thread L W σ (Except ε α) → Prog σ ε α
  | .ret (.ok a) => pure a
  | .ret (.error e) => .throw e
  | .acquire _ p => p.toProg
  | .release _ p => p.toProg
  | .act f _ next => fun s => (next s).toProg (f s)
  | .stop => .halt

theorem toProg_ofProg (p : Prog σ ε α) (watch : Outcome ε α → Option W) :
    toProg (ofProg p watch : ExceptT ε (Thread L W σ) α) = p := by
  funext s
  show (ofOutcome (p s).1 : Thread L W σ (Except ε α)).toProg (p s).2 = p s
  generalize p s = r
  obtain ⟨a | e | _, s'⟩ := r <;> rfl

/-- A thread that returns the result of `p`, after more lock operations. -/
theorem toProg_bind_ret (p : Thread L W σ (Except ε α))
    (k : Except ε α → Thread L W σ (Except ε β)) :
    toProg (p.bind k) = fun s => match p.toProg s with
      | (.ok a, s') => (k (.ok a)).toProg s'
      | (.error e, s') => (k (.error e)).toProg s'
      | (.halted, s') => (.halted, s') := by
  induction p with
  | ret r =>
    funext s
    cases r <;> rfl
  | acquire l p ih => exact ih
  | release l p ih => exact ih
  | act f watch next ih =>
    funext s
    show ((next s).bind k).toProg (f s) = _
    rw [ih s]
    rfl
  | stop => rfl

theorem toProg_bind (p : ExceptT ε (Thread L W σ) α) (k : α → ExceptT ε (Thread L W σ) β) :
    toProg (p >>= k : ExceptT ε (Thread L W σ) β) = toProg p >>= fun a => toProg (k a) := by
  show toProg (Thread.bind p (ExceptT.bindCont k)) = _
  rw [toProg_bind_ret]
  funext s
  rw [Prog.bind_run]
  rfl

theorem toProg_pure (a : α) : toProg (pure a : ExceptT ε (Thread L W σ) α) = pure a := rfl

theorem toProg_withLock (l : L) (p : ExceptT ε (Thread L W σ) α) :
    toProg (withLock l p) = toProg p := by
  show toProg (Thread.bind p fun r => .release l (.ret r)) = _
  rw [toProg_bind_ret]
  funext s
  show _ = toProg p s
  generalize toProg p s = r
  obtain ⟨a | e | _, s'⟩ := r <;> rfl

end Thread

/-! ### Runs -/

/-- The shared state, the owners of the locks, the watches and the threads. -/
structure Config (ι L W σ α : Type) where
  state : σ
  owner : L → Option ι
  watch : ι → Option W
  threads : ι → Thread L W σ α

variable {ι : Type}

namespace Config

/-- The locks that thread `i` holds. -/
def held (c : Config ι L W σ α) (i : ι) : Set L := {l | c.owner l = some i}

/-- Nobody holds a lock or is on a watch, and thread `i` is about to do `threads i`. -/
def start (state : σ) (threads : ι → Thread L W σ α) : Config ι L W σ α :=
  ⟨state, fun _ => none, fun _ => none, threads⟩

/-- Two threads do not hold one lock. -/
theorem notMem_held {c : Config ι L W σ α} {i j : ι} {l : L} (hij : i ≠ j) (h : l ∈ c.held i) :
    l ∉ c.held j := by
  intro hj
  exact hij (Option.some.inj (h.symm.trans hj))

theorem held_start (state : σ) (threads : ι → Thread L W σ α) (i : ι) :
    (start state threads).held i = ∅ := by
  ext l
  exact ⟨nofun, nofun⟩

end Config

section

variable [DecidableEq ι] [DecidableEq L]

/-- One step of thread `i`.  A thread that has returned `a` may start any call of `calls i a`. -/
inductive Step (calls : ι → α → Thread L W σ α → Prop) (i : ι) :
    Config ι L W σ α → Config ι L W σ α → Prop
  | start {c : Config ι L W σ α} {a : α} {p : Thread L W σ α} (h : c.threads i = .ret a)
      (hp : calls i a p) : Step calls i c { c with threads := Function.update c.threads i p }
  | acquire {c : Config ι L W σ α} {l : L} {p : Thread L W σ α}
      (h : c.threads i = .acquire l p) (hfree : c.owner l = none) :
      Step calls i c { c with
        owner := Function.update c.owner l (some i)
        threads := Function.update c.threads i p }
  | release {c : Config ι L W σ α} {l : L} {p : Thread L W σ α}
      (h : c.threads i = .release l p) (howner : c.owner l = some i) :
      Step calls i c { c with
        owner := Function.update c.owner l none
        threads := Function.update c.threads i p }
  | act {c : Config ι L W σ α} {f : σ → σ} {watch : σ → Option W} {next : σ → Thread L W σ α}
      (h : c.threads i = .act f watch next) :
      Step calls i c { c with
        state := f c.state
        watch := Function.update c.watch i (watch c.state)
        threads := Function.update c.threads i (next c.state) }

end

/-! ### Protocols -/

/-- What threads promise each other. -/
structure Protocol (ι L W σ α : Type) where
  /-- The state when the lock is free. -/
  free : L → σ → Prop
  /-- What the others may do while a thread holds these locks and is on this watch. -/
  env : ι → Set L → Option W → σ → σ → Prop
  /-- What a thread may do while it holds these locks. -/
  guar : ι → Set L → σ → σ → Prop
  /-- The state while a thread that has returned does nothing. -/
  post : ι → α → σ → Prop

variable {X : Protocol ι L W σ β} {i : ι}

variable (X i) in
/-- A thread that holds the locks `H` and is on the watch `w` keeps to the protocol from the state
`s` on, and arrives in `Φ`. -/
def Sat (Φ : α → Set L → Option W → σ → Prop) :
    Set L → Option W → Thread L W σ α → σ → Prop
  | H, w, .ret a, s => Φ a H w s
  | H, w, .acquire l p, s =>
    l ∉ H ∧ ∀ s', X.env i H w s s' → X.free l s' → Sat Φ (insert l H) w p s'
  | H, w, .release l p, s =>
    l ∈ H ∧ ∀ s', X.env i H w s s' → X.free l s' ∧ Sat Φ (H \ {l}) w p s'
  | H, w, .act f watch next, s => ∀ s', X.env i H w s s' →
    X.guar i H s' (f s') ∧ Sat Φ H (watch s') (next s') (f s')
  | _, _, .stop, _ => True

section

variable {Φ Ψ : α → Set L → Option W → σ → Prop} {H : Set L} {w : Option W} {s : σ}

theorem Sat.mono {p : Thread L W σ α} (h : Sat X i Φ H w p s)
    (hΦ : ∀ a H w s, Φ a H w s → Ψ a H w s) : Sat X i Ψ H w p s := by
  induction p generalizing H w s with
  | ret a => exact hΦ a H w s h
  | acquire l p ih => exact ⟨h.1, fun s' henv hfree => ih (h.2 s' henv hfree)⟩
  | release l p ih => exact ⟨h.1, fun s' henv => ⟨(h.2 s' henv).1, ih (h.2 s' henv).2⟩⟩
  | act f watch next ih => exact fun s' henv => ⟨(h s' henv).1, ih s' (h s' henv).2⟩
  | stop => trivial

theorem Sat.bind {γ : Type} {Φ : γ → Set L → Option W → σ → Prop} {p : Thread L W σ α}
    {k : α → Thread L W σ γ} (h : Sat X i (fun a H w s => Sat X i Φ H w (k a) s) H w p s) :
    Sat X i Φ H w (p >>= k) s := by
  induction p generalizing H w s with
  | ret a => exact h
  | acquire l p ih => exact ⟨h.1, fun s' henv hfree => ih (h.2 s' henv hfree)⟩
  | release l p ih => exact ⟨h.1, fun s' henv => ⟨(h.2 s' henv).1, ih (h.2 s' henv).2⟩⟩
  | act f watch next ih => exact fun s' henv => ⟨(h s' henv).1, ih s' (h s' henv).2⟩
  | stop => trivial

theorem Sat.ofProg {Φ : Except ε α → Set L → Option W → σ → Prop} {q : Prog σ ε α}
    {watch : Outcome ε α → Option W}
    (h : ∀ s', X.env i H w s s' → X.guar i H s' (q s').2 ∧
      (q s').1.Meets (fun a => Φ (.ok a) H (watch (.ok a)) (q s').2)
        (fun e => Φ (.error e) H (watch (.error e)) (q s').2) True) :
    Sat X i Φ H w (Thread.ofProg q watch) s := by
  intro s' henv
  obtain ⟨hguar, hnext⟩ := h s' henv
  refine ⟨hguar, ?_⟩
  show Sat X i Φ H (watch (q s').1) (Thread.ofOutcome (q s').1) (q s').2
  generalize q s' = r at hnext ⊢
  obtain ⟨a | e | _, s''⟩ := r <;> exact hnext

end

/-! ### Triples -/

variable (X i) in
/-- The others do not break `I`. -/
def Stable (H : Set L) (w : Option W) (I : σ → Prop) : Prop :=
  ∀ s s', I s → X.env i H w s s' → I s'

variable (X i) in
/-- From `I`, with the locks `H` and on the watch `w`, the task `p` keeps to the protocol, gives
back the locks it takes and ends without a watch, in `J` or with an error in `E`. -/
def Ensures (H : Set L) (w : Option W) (I : σ → Prop) (p : ExceptT ε (Thread L W σ) α)
    (J : α → σ → Prop) (E : σ → Prop) : Prop :=
  ∀ s, I s → Sat X i (fun r H' w' s' => H' = H ∧ w' = none ∧
    match r with
    | .ok a => J a s'
    | .error _ => E s') H w p s

namespace Ensures

variable {H : Set L} {w : Option W} {I I' : σ → Prop} {J J' : α → σ → Prop} {E E' : σ → Prop}
  {p : ExceptT ε (Thread L W σ) α}

theorem weaken (h : Ensures X i H w I p J E) (hI : ∀ s, I' s → I s) (hJ : ∀ a s, J a s → J' a s)
    (hE : ∀ s, E s → E' s) : Ensures X i H w I' p J' E' := by
  intro s hs
  refine (h s (hI s hs)).mono ?_
  rintro (e | a) H' w' s' ⟨hH, hw, hr⟩
  · exact ⟨hH, hw, hE s' hr⟩
  · exact ⟨hH, hw, hJ a s' hr⟩

theorem pure (a : α) (h : ∀ s, I s → J a s) :
    Ensures X i H none I (Pure.pure a : ExceptT ε (Thread L W σ) α) J E :=
  fun s hs => ⟨rfl, rfl, h s hs⟩

theorem throw (e : ε) (h : ∀ s, I s → E s) :
    Ensures X i H none I (MonadExcept.throw e : ExceptT ε (Thread L W σ) α) J E :=
  fun s hs => ⟨rfl, rfl, h s hs⟩

/-- An error skips the rest. -/
theorem bind {γ : Type} {M : α → σ → Prop} {R : γ → σ → Prop}
    {k : α → ExceptT ε (Thread L W σ) γ} (h : Ensures X i H w I p M E)
    (hk : ∀ a, Ensures X i H none (M a) (k a) R E) : Ensures X i H w I (p >>= k) R E := by
  intro s hs
  refine Sat.bind ((h s hs).mono ?_)
  rintro (e | a) _ _ s' ⟨rfl, rfl, hr⟩
  · exact ⟨rfl, rfl, hr⟩
  · exact hk a s' hr

/-- An action, and what follows on the watch it sets. -/
theorem actBind {γ : Type} {M : α → σ → Prop} {R : γ → σ → Prop} {q : Prog σ ε α}
    {watch : Outcome ε α → Option W} {k : α → ExceptT ε (Thread L W σ) γ}
    (hstable : Stable X i H w I)
    (hq : ∀ s, I s → X.guar i H s (q s).2 ∧
      (q s).1.Meets (fun a => M a (q s).2) (fun _ => E (q s).2) True)
    (herror : ∀ e, watch (.error e) = none)
    (hk : ∀ a, Ensures X i H (watch (.ok a)) (M a) (k a) R E) :
    Ensures X i H w I (Thread.ofProg q watch >>= k) R E := by
  intro s hs
  refine Sat.bind (Sat.ofProg fun s' henv => ?_)
  obtain ⟨hguar, hnext⟩ := hq s' (hstable s s' hs henv)
  refine ⟨hguar, hnext.mono (fun a ha => hk a _ ha) (fun e he => ⟨rfl, herror e, he⟩) id⟩

/-- An action without a watch. -/
theorem act {q : Prog σ ε α} (hstable : Stable X i H w I)
    (hq : ∀ s, I s → X.guar i H s (q s).2 ∧
      (q s).1.Meets (fun a => J a (q s).2) (fun _ => E (q s).2) True) :
    Ensures X i H w I (Thread.ofProg q fun _ => none) J E := by
  intro s hs
  refine Sat.ofProg fun s' henv => ?_
  obtain ⟨hguar, hnext⟩ := hq s' (hstable s s' hs henv)
  exact ⟨hguar, hnext.mono (fun a ha => ⟨rfl, rfl, ha⟩) (fun e he => ⟨rfl, rfl, he⟩) id⟩

/-- A guard: `p` runs with the lock and restores what the free lock promises. -/
theorem withLock {l : L} {K F : σ → Prop} {M : α → σ → Prop} (hl : l ∉ H)
    (hI : ∀ s s', I s → X.env i H w s s' → X.free l s' → K s')
    (h : Ensures X i (insert l H) w K p M F)
    (hJ : ∀ a s s', M a s → X.env i (insert l H) none s s' → X.free l s' ∧ J a s')
    (hE : ∀ s s', F s → X.env i (insert l H) none s s' → X.free l s' ∧ E s') :
    Ensures X i H w I (Thread.withLock l p) J E := by
  intro s hs
  refine ⟨hl, fun s' henv hfree => Sat.bind ((h s' (hI s s' hs henv hfree)).mono ?_)⟩
  rintro (e | a) _ _ s₁ ⟨rfl, rfl, hr⟩
  · refine ⟨Set.mem_insert l H, fun s₂ henv₂ => ⟨(hE s₁ s₂ hr henv₂).1, ?_⟩⟩
    exact ⟨Set.insert_sdiff_self_of_notMem hl, rfl, (hE s₁ s₂ hr henv₂).2⟩
  · refine ⟨Set.mem_insert l H, fun s₂ henv₂ => ⟨(hJ a s₁ s₂ hr henv₂).1, ?_⟩⟩
    exact ⟨Set.insert_sdiff_self_of_notMem hl, rfl, (hJ a s₁ s₂ hr henv₂).2⟩

end Ensures

/-! ### Soundness -/

variable (X) in
/-- The protocol is about disjoint locks: what one thread may do, the others can rely on.  `ok` are
the steps that a run may take. -/
structure Protocol.Lawful (ok : Config ι L W σ β → Config ι L W σ β → Prop) : Prop where
  refl : ∀ i H w s, X.env i H w s s
  trans : ∀ {i H w s s' s''}, X.env i H w s s' → X.env i H w s' s'' → X.env i H w s s''
  free : ∀ {i H s s' l}, X.guar i H s s' → l ∉ H → X.free l s → X.free l s'
  compat : ∀ {c c' : Config ι L W σ β} {i j : ι}, i ≠ j → ok c c' →
    X.guar j (c.held j) c.state c'.state → X.env i (c.held i) (c.watch i) c.state c'.state

variable (X) in
/-- How a call ends: without locks, without a watch, and with what `post` says for as long as the
thread does nothing. -/
def Done (i : ι) (b : β) (H : Set L) (w : Option W) (s : σ) : Prop :=
  H = ∅ ∧ w = none ∧ ∀ s', X.env i ∅ none s s' → X.post i b s'

/-- A call that ensures what `post` says, for as long as the thread does nothing, keeps to the
protocol. -/
theorem Ensures.done {s : σ} {I : σ → Prop} {p : ExceptT ε (Thread L W σ) α}
    {X : Protocol ι L W σ (Except ε α)} {J : α → σ → Prop} {E : σ → Prop}
    (h : Ensures X i ∅ none I p J E) (hs : I s)
    (hJ : ∀ a s s', J a s → X.env i ∅ none s s' → X.post i (.ok a) s')
    (hE : ∀ e s s', E s → X.env i ∅ none s s' → X.post i (.error e) s') :
    Sat X i (Done X i) ∅ none p s := by
  refine (h s hs).mono ?_
  rintro (e | a) _ _ s₁ ⟨rfl, rfl, hr⟩
  · exact ⟨rfl, rfl, fun s₂ => hE e s₁ s₂ hr⟩
  · exact ⟨rfl, rfl, fun s₂ => hJ a s₁ s₂ hr⟩

variable (X) in
/-- Every thread keeps to the protocol. -/
structure Inv (c : Config ι L W σ β) : Prop where
  threads : ∀ i, Sat X i (Done X i) (c.held i) (c.watch i) (c.threads i) c.state
  free : ∀ l, c.owner l = none → X.free l c.state

variable {ok : Config ι L W σ β → Config ι L W σ β → Prop}

/-- What a thread relies on leaves its part of the proof intact. -/
theorem Sat.env_done (hX : X.Lawful ok) {H : Set L} {w : Option W} {p : Thread L W σ β} {s s' : σ}
    (h : Sat X i (Done X i) H w p s) (henv : X.env i H w s s') : Sat X i (Done X i) H w p s' := by
  cases p with
  | ret b =>
    obtain ⟨rfl, rfl, hpost⟩ := h
    exact ⟨rfl, rfl, fun s'' henv' => hpost s'' (hX.trans henv henv')⟩
  | acquire l p => exact ⟨h.1, fun s'' henv' => h.2 s'' (hX.trans henv henv')⟩
  | release l p => exact ⟨h.1, fun s'' henv' => h.2 s'' (hX.trans henv henv')⟩
  | act f watch next => exact fun s'' henv' => h s'' (hX.trans henv henv')
  | stop => trivial

/-- What an action of a thread that keeps to the protocol does. -/
theorem Inv.guar (hX : X.Lawful ok) {c : Config ι L W σ β} (h : Inv X c) {j : ι} {f : σ → σ}
    {watch : σ → Option W} {next : σ → Thread L W σ β} (hact : c.threads j = .act f watch next) :
    X.guar j (c.held j) c.state (f c.state) := by
  have hj := h.threads j
  rw [hact] at hj
  exact (hj c.state (hX.refl _ _ _ _)).1

section

variable [DecidableEq L] {calls : ι → β → Thread L W σ β → Prop} {c c' : Config ι L W σ β} {j : ι}

theorem Config.held_acquire_self {l : L} (threads : ι → Thread L W σ β) :
    Config.held { c with owner := Function.update c.owner l (some j), threads } j =
      insert l (c.held j) := by
  ext l'
  by_cases h : l' = l
  · simp [Config.held, h]
  · simp [Config.held, h]

theorem Config.held_acquire_of_ne {l : L} (threads : ι → Thread L W σ β) (hfree : c.owner l = none)
    (hij : i ≠ j) :
    Config.held { c with owner := Function.update c.owner l (some j), threads } i = c.held i := by
  ext l'
  by_cases h : l' = l
  · subst h
    simp [Config.held, hfree, Ne.symm hij]
  · simp [Config.held, h]

theorem Config.held_release_self {l : L} (threads : ι → Thread L W σ β) :
    Config.held { c with owner := Function.update c.owner l none, threads } j =
      c.held j \ {l} := by
  ext l'
  by_cases h : l' = l
  · simp [Config.held, h]
  · simp [Config.held, h]

theorem Config.held_release_of_ne {l : L} (threads : ι → Thread L W σ β)
    (howner : c.owner l = some j) (hij : i ≠ j) :
    Config.held { c with owner := Function.update c.owner l none, threads } i = c.held i := by
  ext l'
  by_cases h : l' = l
  · subst h
    simp [Config.held, howner, Ne.symm hij]
  · simp [Config.held, h]

variable [DecidableEq ι]

/-- A step of one thread keeps every thread to the protocol. -/
theorem Inv.step (hX : X.Lawful ok)
    (hcalls : ∀ j b p, calls j b p → ∀ s, X.post j b s → Sat X j (Done X j) ∅ none p s)
    (h : Inv X c) (hstep : Step calls j c c') (hok : ok c c') : Inv X c' := by
  have hj := h.threads j
  cases hstep with
  | @start b p hret hp =>
    rw [hret] at hj
    obtain ⟨hheld, hwatch, hpost⟩ := hj
    refine ⟨fun i => ?_, h.free⟩
    -- the other threads have taken no step, and neither has the state changed under them
    by_cases hij : i = j
    · subst hij
      have hsat := hcalls i b p hp c.state (hpost c.state (hX.refl i ∅ none c.state))
      rw [← hheld, ← hwatch] at hsat
      simp only [Function.update_self]
      exact hsat
    · simp only [Function.update_of_ne hij]
      exact h.threads i
  | @acquire l p hnext hfree =>
    rw [hnext] at hj
    refine ⟨fun i => ?_, fun l' hl' => ?_⟩
    · by_cases hij : i = j
      · subst hij
        -- whoever gives a lock back leaves what it guards in order
        have hsat := hj.2 c.state (hX.refl _ _ _ _) (h.free l hfree)
        rw [Config.held_acquire_self]
        simpa only [Function.update_self] using hsat
      · rw [Config.held_acquire_of_ne _ hfree hij]
        simpa only [Function.update_of_ne hij] using h.threads i
    · by_cases hll : l' = l
      · subst hll
        simp at hl'
      · exact h.free l' (by simpa [hll] using hl')
  | @release l p hnext howner =>
    rw [hnext] at hj
    obtain ⟨hfree, hsat⟩ := hj.2 c.state (hX.refl _ _ _ _)
    refine ⟨fun i => ?_, fun l' hl' => ?_⟩
    · by_cases hij : i = j
      · subst hij
        rw [Config.held_release_self]
        simpa only [Function.update_self] using hsat
      · rw [Config.held_release_of_ne _ howner hij]
        simpa only [Function.update_of_ne hij] using h.threads i
    · by_cases hll : l' = l
      · subst hll
        exact hfree
      · exact h.free l' (by simpa [hll] using hl')
  | @act f watch next hnext =>
    rw [hnext] at hj
    obtain ⟨hguar, hsat⟩ := hj c.state (hX.refl _ _ _ _)
    refine ⟨fun i => ?_, fun l hl => ?_⟩
    · by_cases hij : i = j
      · subst hij
        simp only [Function.update_self]
        exact hsat
      -- what one thread guarantees is what the others rely on
      · have henv := hX.compat hij hok hguar
        simp only [Function.update_of_ne hij]
        exact (h.threads i).env_done hX henv
    · refine hX.free hguar ?_ (h.free l hl)
      intro hmem
      exact nomatch (show c.owner l = some j from hmem).symm.trans hl

/-- The steps of any thread that a run may take. -/
def AnyStep (calls : ι → β → Thread L W σ β → Prop)
    (ok : Config ι L W σ β → Config ι L W σ β → Prop) (c c' : Config ι L W σ β) : Prop :=
  ∃ j, Step calls j c c' ∧ ok c c'

/-- A step of a thread leaves the state alone, or it is what the protocol lets the thread do. -/
theorem Inv.step_state (hX : X.Lawful ok) (h : Inv X c) (hstep : Step calls j c c') :
    c'.state = c.state ∨ X.guar j (c.held j) c.state c'.state := by
  cases hstep with
  | start => exact Or.inl rfl
  | acquire => exact Or.inl rfl
  | release => exact Or.inl rfl
  | act hact => exact Or.inr (h.guar hX hact)

/-- The other threads do not move. -/
theorem Step.threads_of_ne (hstep : Step calls j c c') (hij : i ≠ j) :
    c'.threads i = c.threads i := by
  cases hstep <;> exact Function.update_of_ne hij ..

/-- If every call keeps to the protocol, then every run does. -/
theorem Inv.run (hX : X.Lawful ok)
    (hcalls : ∀ j b p, calls j b p → ∀ s, X.post j b s → Sat X j (Done X j) ∅ none p s)
    (h : Inv X c) (hrun : Relation.ReflTransGen (AnyStep calls ok) c c') : Inv X c' := by
  induction hrun with
  | refl => exact h
  | tail _ hstep ih =>
    obtain ⟨j, hstep, hok⟩ := hstep
    exact ih.step hX hcalls hstep hok

/-! ### Schedules -/

/-- Thread `i` moves if it can. -/
def Config.next (i : ι) (c : Config ι L W σ β) : Config ι L W σ β :=
  match c.threads i with
  | .acquire l p =>
    if c.owner l = none then
      { c with
        owner := Function.update c.owner l (some i)
        threads := Function.update c.threads i p }
    else c
  | .release l p =>
    if c.owner l = some i then
      { c with
        owner := Function.update c.owner l none
        threads := Function.update c.threads i p }
    else c
  | .act f watch next =>
    { c with
      state := f c.state
      watch := Function.update c.watch i (watch c.state)
      threads := Function.update c.threads i (next c.state) }
  | .ret _ | .stop => c

/-- The threads move in turn. -/
def Config.schedule (c : Config ι L W σ β) (turns : List ι) : Config ι L W σ β :=
  turns.foldl (fun c i => c.next i) c

/-- Thread `i` starts a call. -/
def Config.call (i : ι) (p : Thread L W σ β) (c : Config ι L W σ β) : Config ι L W σ β :=
  { c with threads := Function.update c.threads i p }

theorem Config.next_run (i : ι) (c : Config ι L W σ β) (hok : ok c (c.next i)) :
    Relation.ReflTransGen (AnyStep calls ok) c (c.next i) := by
  unfold Config.next at hok ⊢
  split at hok
  next l p h =>
    split_ifs at hok ⊢ with hfree
    · exact .single ⟨i, .acquire h hfree, hok⟩
    · exact .refl
  next l p h =>
    split_ifs at hok ⊢ with howner
    · exact .single ⟨i, .release h howner, hok⟩
    · exact .refl
  next f watch next h => exact .single ⟨i, .act h, hok⟩
  next => exact .refl
  next => exact .refl

theorem Config.next_act {f : σ → σ} {watch : σ → Option W} {next : σ → Thread L W σ β}
    (h : c.threads i = .act f watch next) : Step calls i c (c.next i) := by
  unfold Config.next
  rw [h]
  exact .act h

/-- A schedule is a run if every turn may be taken. -/
theorem Config.schedule_run (turns : List ι) (c : Config ι L W σ β)
    (hok : ∀ n < turns.length, ok (c.schedule (turns.take n)) (c.schedule (turns.take (n + 1)))) :
    Relation.ReflTransGen (AnyStep calls ok) c (c.schedule turns) := by
  induction turns generalizing c with
  | nil => exact .refl
  | cons i turns ih =>
    refine (Config.next_run i c (hok 0 (by simp))).trans (ih (c.next i) fun n hn => ?_)
    exact hok (n + 1) (by simpa using hn)

theorem Config.call_run {b : β} {p : Thread L W σ β} (hret : c.threads i = .ret b)
    (hcall : calls i b p) (hok : ok c (c.call i p)) :
    Relation.ReflTransGen (AnyStep calls ok) c (c.call i p) :=
  .single ⟨i, .start hret hcall, hok⟩

end

end Threads
