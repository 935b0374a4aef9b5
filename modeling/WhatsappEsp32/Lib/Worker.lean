import Mathlib.Data.DFinsupp.WellFounded
import WhatsappEsp32.Lib.Threads

/-!
# Threads over a worker

A worker owns one part of the shared state.  An action on that part is a job: the thread puts it
on a bounded queue and waits for the answer; the worker runs one job at a time, does to its part
what it likes while the job runs, and hands the answer to the thread, which must come for it.

* `Part`: the part of the state; `Part.Job`, `Part.Apart`: actions on the part alone, and actions
  that neither touch it nor look at it;
* `Tidy`: every action is one of the two, and the locks are taken in order and given back;
* `Routed`, `Routed.Advance`, `Routed.Step`: threads, queue and worker;
* `Routed.view`, `Routed.Ok.step_view`: a run over the worker is a run of `Threads` in which each
  job is one action;
* `Routed.Ok.advance`, `Routed.wellFounded`: something can move until every thread has returned,
  and it cannot move for ever.
-/

namespace Threads

/-! ### The part and its actions -/

/-- A part of the state. -/
structure Part (σ φ : Type) where
  look : σ → φ
  put : σ → φ → σ
  put_look : ∀ s, put s (look s) = s
  look_put : ∀ s x, look (put s x) = x
  put_put : ∀ s x y, put (put s x) y = put s y

variable {ι L W σ α β φ : Type}

namespace Part

variable (part : Part σ φ)

/-- An action on the part alone: what it does to the part, and how the thread goes on, depends on
nothing else. -/
def Job (f : σ → σ) (watch : σ → Option W) (next : σ → Thread L W σ α) : Prop :=
  ∃ (g : φ → φ) (w : φ → Option W) (n : φ → Thread L W σ α), ∀ s,
    f s = part.put s (g (part.look s)) ∧ watch s = w (part.look s) ∧ next s = n (part.look s)

variable {part} in
/-- A job stays a job whatever the thread does with its result. -/
theorem Job.bind {f : σ → σ} {watch : σ → Option W} {next : σ → Thread L W σ α}
    (h : part.Job f watch next) (k : α → Thread L W σ β) :
    part.Job f watch fun s => (next s).bind k := by
  obtain ⟨g, w, n, hjob⟩ := h
  refine ⟨g, w, fun x => (n x).bind k, fun s => ⟨(hjob s).1, (hjob s).2.1, ?_⟩⟩
  exact congrArg (Thread.bind · k) (hjob s).2.2

/-- An action that leaves the part alone and does not look at it. -/
structure Apart (f : σ → σ) (watch : σ → Option W) (next : σ → Thread L W σ α) : Prop where
  act : ∀ s x, f (part.put s x) = part.put (f s) x
  watch : ∀ s x, watch (part.put s x) = watch s
  next : ∀ s x, next (part.put s x) = next s

end Part

/-- The thread keeps its actions on the part and the others apart, takes locks in increasing order
and ends with the locks that `Φ` allows. -/
def Tidy [LT L] (part : Part σ φ) (Φ : α → Set L → Prop) : Set L → Thread L W σ α → Prop
  | H, .ret a => Φ a H
  | H, .acquire l p => (∀ l' ∈ H, l' < l) ∧ Tidy part Φ (insert l H) p
  | H, .release l p => l ∈ H ∧ Tidy part Φ (H \ {l}) p
  | H, .act f watch next =>
    (part.Job f watch next ∨ part.Apart f watch next) ∧ ∀ s, Tidy part Φ H (next s)
  | _, .stop => True

namespace Tidy

variable [LT L] {part : Part σ φ} {Φ : α → Set L → Prop} {Ψ : β → Set L → Prop} {H : Set L}

theorem mono {Φ' : α → Set L → Prop} {p : Thread L W σ α} (h : Tidy part Φ H p)
    (hΦ : ∀ a H, Φ a H → Φ' a H) : Tidy part Φ' H p := by
  induction p generalizing H with
  | ret a => exact hΦ a H h
  | acquire l p ih => exact ⟨h.1, ih h.2⟩
  | release l p ih => exact ⟨h.1, ih h.2⟩
  | act f watch next ih => exact ⟨h.1, fun s => ih s (h.2 s)⟩
  | stop => trivial

theorem bind {p : Thread L W σ α} {k : α → Thread L W σ β}
    (h : Tidy part (fun a H => Tidy part Ψ H (k a)) H p) : Tidy part Ψ H (p.bind k) := by
  induction p generalizing H with
  | ret a => exact h
  | acquire l p ih => exact ⟨h.1, ih h.2⟩
  | release l p ih => exact ⟨h.1, ih h.2⟩
  | act f watch next ih =>
    refine ⟨?_, fun s => ih s (h.2 s)⟩
    obtain hjob | hapart := h.1
    · exact Or.inl (hjob.bind k)
    · refine Or.inr ⟨hapart.act, hapart.watch, fun s x => ?_⟩
      exact congrArg (Thread.bind · k) (hapart.next s x)
  | stop => trivial

end Tidy

/-- `p` is what `q` goes on with after its next operation. -/
inductive Child : Thread L W σ α → Thread L W σ α → Prop
  | acquire (l : L) (p : Thread L W σ α) : Child p (.acquire l p)
  | release (l : L) (p : Thread L W σ α) : Child p (.release l p)
  | act (f : σ → σ) (watch : σ → Option W) (next : σ → Thread L W σ α) (s : σ) :
      Child (next s) (.act f watch next)

theorem wellFounded_child : WellFounded (Child (L := L) (W := W) (σ := σ) (α := α)) := by
  refine ⟨fun p => ?_⟩
  induction p with
  | ret a => exact ⟨_, fun q h => by cases h⟩
  | acquire l p ih => exact ⟨_, fun q h => by cases h; exact ih⟩
  | release l p ih => exact ⟨_, fun q h => by cases h; exact ih⟩
  | act f watch next ih => exact ⟨_, fun q h => by cases h; exact ih _⟩
  | stop => exact ⟨_, fun q h => by cases h⟩

/-! ### Threads, queue and worker -/

/-- What the worker does. -/
inductive Stage (ι L W σ α φ : Type)
  | waiting
  /-- It runs the job of thread `i`, which has found the part as `found`. -/
  | running (i : ι) (found : φ)
  /-- It holds the answer, and what thread `i` will watch, until the thread comes for it. -/
  | answering (i : ι) (watch : Option W) (next : Thread L W σ α)

/-- The thread that the worker is occupied with. -/
def Stage.served : Stage ι L W σ α φ → List ι
  | .waiting => []
  | .running i _ => [i]
  | .answering i _ _ => [i]

/-- The threads that wait for the worker to take their job, the queue, and the worker.  A thread
stays in front of its job until it has the answer. -/
structure Routed (ι L W σ α φ : Type) where
  config : Config ι L W σ α
  sending : List ι
  queue : List ι
  stage : Stage ι L W σ α φ

namespace Routed

/-- The threads that wait for an answer. -/
def busy (c : Routed ι L W σ α φ) : List ι := c.sending ++ c.queue ++ c.stage.served

/-- No thread has a job yet. -/
def start (config : Config ι L W σ α) : Routed ι L W σ α φ := ⟨config, [], [], .waiting⟩

section

variable [DecidableEq ι] [DecidableEq L] (part : Part σ φ) (cap : ℕ)

/-- A thread that is not waiting moves, or a job moves on. -/
inductive Advance : Routed ι L W σ α φ → Routed ι L W σ α φ → Prop
  /-- A lock operation, or an action apart from the part. -/
  | thread {c : Routed ι L W σ α φ} {i : ι} {config : Config ι L W σ α} (hi : i ∉ c.busy)
      (h : Threads.Step (fun _ _ _ => False) i c.config config)
      (hact : ∀ f watch next, c.config.threads i = .act f watch next → part.Apart f watch next) :
      Advance c { c with config }
  | send {c : Routed ι L W σ α φ} {i : ι} {f : σ → σ} {watch : σ → Option W}
      {next : σ → Thread L W σ α} (hi : i ∉ c.busy) (h : c.config.threads i = .act f watch next)
      (hjob : part.Job f watch next) : Advance c { c with sending := c.sending ++ [i] }
  /-- There is room: any of the waiting senders is next. -/
  | enqueue {c : Routed ι L W σ α φ} {before after : List ι} {i : ι}
      (hi : c.sending = before ++ i :: after) (hroom : c.queue.length < cap) :
      Advance c { c with sending := before ++ after, queue := c.queue ++ [i] }
  | take {c : Routed ι L W σ α φ} {i : ι} {queue : List ι} (hstage : c.stage = .waiting)
      (hqueue : c.queue = i :: queue) :
      Advance c { c with queue, stage := .running i (part.look c.config.state) }
  /-- Whatever was in the part meanwhile, the job leaves it as if it had run at once. -/
  | finish {c : Routed ι L W σ α φ} {i : ι} {found : φ} {f : σ → σ} {watch : σ → Option W}
      {next : σ → Thread L W σ α} (hstage : c.stage = .running i found)
      (h : c.config.threads i = .act f watch next) :
      Advance c { c with
        config := { c.config with state := f (part.put c.config.state found) }
        stage := .answering i (watch (part.put c.config.state found))
          (next (part.put c.config.state found)) }
  | answer {c : Routed ι L W σ α φ} {i : ι} {watch : Option W} {next : Thread L W σ α}
      (hstage : c.stage = .answering i watch next) :
      Advance c { c with
        config := { c.config with
          watch := Function.update c.config.watch i watch
          threads := Function.update c.config.threads i next }
        stage := .waiting }

/-- The job that runs has changed the part to anything. -/
inductive Work : Routed ι L W σ α φ → Routed ι L W σ α φ → Prop
  | mk {c : Routed ι L W σ α φ} {i : ι} {found : φ} (hstage : c.stage = .running i found) (x : φ) :
      Work c { c with config := { c.config with state := part.put c.config.state x } }

/-- A thread starts a call, the running job works, or something moves on. -/
inductive Step (calls : ι → α → Thread L W σ α → Prop) :
    Routed ι L W σ α φ → Routed ι L W σ α φ → Prop
  | call {c : Routed ι L W σ α φ} {i : ι} {a : α} {p : Thread L W σ α}
      (h : c.config.threads i = .ret a) (hp : calls i a p) :
      Step calls c { c with
        config := { c.config with threads := Function.update c.config.threads i p } }
  | work {c c' : Routed ι L W σ α φ} (h : Work part c c') : Step calls c c'
  | advance {c c' : Routed ι L W σ α φ} (h : Advance part cap c c') : Step calls c c'

end

/-! ### The invariant -/

/-- Each waiting thread waits once, in front of a job, and every thread is tidy. -/
structure Ok [LT L] (part : Part σ φ) (cap : ℕ) (c : Routed ι L W σ α φ) : Prop where
  nodup : c.busy.Nodup
  room : c.queue.length ≤ cap
  jobs : ∀ i ∈ c.busy, ∃ f watch next,
    c.config.threads i = .act f watch next ∧ part.Job f watch next
  answer : ∀ i watch next, c.stage = .answering i watch next → Child next (c.config.threads i)
  tidy : ∀ i, Tidy part (fun _ H => H = ∅) (c.config.held i) (c.config.threads i)

variable {part : Part σ φ} {cap : ℕ} {c c' : Routed ι L W σ α φ} {i j : ι}

theorem served_subset_busy (h : i ∈ c.stage.served) : i ∈ c.busy := List.mem_append_right _ h

variable [LT L]

/-- A thread that has returned waits for nothing. -/
theorem Ok.notMem_busy (h : Ok part cap c) {a : α} (hret : c.config.threads i = .ret a) :
    i ∉ c.busy := by
  intro hmem
  obtain ⟨f, watch, next, hact, -⟩ := h.jobs i hmem
  rw [hret] at hact
  cases hact

/-- What `Ok` says of the waiting threads concerns nobody else. -/
theorem Ok.of_threads (h : Ok part cap c) {config : Config ι L W σ α}
    (hthreads : ∀ j ∈ c.busy, config.threads j = c.config.threads j)
    (htidy : ∀ i, Tidy part (fun _ H => H = ∅) (config.held i) (config.threads i)) :
    Ok part cap { c with config } where
  nodup := h.nodup
  room := h.room
  jobs j hj := by
    rw [show ({ c with config } : Routed ι L W σ α φ).config.threads j = _ from hthreads j hj]
    exact h.jobs j hj
  answer j watch next hstage := by
    have hserved : j ∈ c.stage.served := by
      rw [show c.stage = _ from hstage]
      exact List.mem_singleton_self j
    show Child next (config.threads j)
    rw [hthreads j (served_subset_busy hserved)]
    exact h.answer j watch next hstage
  tidy := htidy

/-- An answer leaves the thread where its job said. -/
theorem Ok.answer_tidy (h : Ok part cap c) {watch : Option W} {next : Thread L W σ α}
    (hstage : c.stage = .answering i watch next) :
    Tidy part (fun _ H => H = ∅) (c.config.held i) next := by
  have hi := h.tidy i
  have hchild := h.answer i watch next hstage
  obtain ⟨f, w, n, hact, -⟩ := h.jobs i
    (served_subset_busy (by rw [hstage]; exact List.mem_singleton_self i))
  rw [hact] at hi hchild
  cases hchild with
  | act f watch next s => exact hi.2 s

variable [DecidableEq ι] [DecidableEq L] {calls : ι → α → Thread L W σ α → Prop}

omit [DecidableEq ι] [DecidableEq L] in
/-- Nothing is under way. -/
theorem ok_start {state : σ} {threads : ι → Thread L W σ α} (h : ∀ i, ∃ a, threads i = .ret a) :
    Ok part cap (start (.start state threads)) := by
  refine ⟨List.nodup_nil, Nat.zero_le cap, fun i hi => ?_, fun i watch next hstage => ?_, fun i => ?_⟩
  · exact absurd hi List.not_mem_nil
  · cases hstage
  · obtain ⟨a, ha⟩ := h i
    show Tidy part _ ((Config.start state threads).held i) (threads i)
    rw [ha]
    exact Config.held_start state threads i

theorem tidy_step {config config' : Config ι L W σ α}
    (h : ∀ i, Tidy part (fun _ H => H = ∅) (config.held i) (config.threads i))
    (hcalls : ∀ i a p, calls i a p → Tidy part (fun _ H => H = ∅) ∅ p)
    (hstep : Threads.Step calls j config config') :
    ∀ i, Tidy part (fun _ H => H = ∅) (config'.held i) (config'.threads i) := by
  intro i
  have hj := h j
  cases hstep with
  | @start a p hret hp =>
    rw [hret] at hj
    -- only the thread that moves has another program, and other locks
    by_cases hij : i = j
    · subst hij
      show Tidy part _ (config.held i) (Function.update config.threads i p i)
      rw [Function.update_self, show config.held i = ∅ from hj]
      exact hcalls i a p hp
    · show Tidy part _ (config.held i) (Function.update config.threads j p i)
      rw [Function.update_of_ne hij]
      exact h i
  | @acquire l p hnext hfree =>
    rw [hnext] at hj
    by_cases hij : i = j
    · subst hij
      rw [Config.held_acquire_self]
      simpa only [Function.update_self] using hj.2
    · rw [Config.held_acquire_of_ne _ hfree hij]
      simpa only [Function.update_of_ne hij] using h i
  | @release l p hnext howner =>
    rw [hnext] at hj
    by_cases hij : i = j
    · subst hij
      rw [Config.held_release_self]
      simpa only [Function.update_self] using hj.2
    · rw [Config.held_release_of_ne _ howner hij]
      simpa only [Function.update_of_ne hij] using h i
  | @act f watch next hnext =>
    rw [hnext] at hj
    by_cases hij : i = j
    · subst hij
      show Tidy part _ (config.held i) (Function.update config.threads i (next config.state) i)
      rw [Function.update_self]
      exact hj.2 config.state
    · show Tidy part _ (config.held i) (Function.update config.threads j (next config.state) i)
      rw [Function.update_of_ne hij]
      exact h i

theorem Ok.advance_ok (h : Ok part cap c) (hstep : Advance part cap c c') : Ok part cap c' := by
  cases hstep with
  | @thread i config hi hmove hact =>
    refine h.of_threads (fun j hj => ?_) (tidy_step h.tidy (fun _ _ _ hp => hp.elim) hmove)
    apply hmove.threads_of_ne
    rintro rfl
    exact hi hj
  | @send i f watch next hi hact hjob =>
    refine ⟨?_, h.room, ?_, h.answer, h.tidy⟩
    -- the thread joins those that have a job, and was not one of them
    · have hperm : (c.sending ++ [i] ++ c.queue ++ c.stage.served).Perm (i :: c.busy) := by
        simp only [busy, List.append_assoc, List.singleton_append]
        exact List.perm_middle
      exact hperm.nodup_iff.mpr (List.nodup_cons.mpr ⟨hi, h.nodup⟩)
    · intro j hj
      have hj' : j = i ∨ j ∈ c.busy := by
        simp only [busy, List.mem_append, List.mem_singleton] at hj ⊢
        tauto
      obtain rfl | hj' := hj'
      · exact ⟨f, watch, next, hact, hjob⟩
      · exact h.jobs j hj'
  | @enqueue before after i hi hroom =>
    -- the queue does not say who is being answered
    have hbusy : (before ++ after ++ (c.queue ++ [i]) ++ c.stage.served).Perm c.busy := by
      rw [busy, hi]
      refine List.Perm.append_right _ ?_
      have hmiddle : (before ++ after ++ (c.queue ++ [i])).Perm (i :: (before ++ after ++ c.queue)) := by
        rw [← List.append_assoc]
        exact List.perm_append_singleton i _
      refine hmiddle.trans ?_
      rw [List.append_assoc before, List.append_assoc before, List.cons_append]
      exact List.perm_middle.symm
    exact ⟨hbusy.nodup_iff.mpr h.nodup, by simpa using hroom,
      fun j hj => h.jobs j (hbusy.mem_iff.mp hj), h.answer, h.tidy⟩
  | @take i queue hstage hqueue =>
    have hbusy : (c.sending ++ queue ++ [i]).Perm c.busy := by
      rw [busy, hstage, hqueue, Stage.served, List.append_nil, List.append_assoc]
      exact (List.perm_append_singleton i queue).append_left c.sending
    have hroom := h.room
    rw [hqueue, List.length_cons] at hroom
    refine ⟨hbusy.nodup_iff.mpr h.nodup, by show queue.length ≤ cap; omega,
      fun j hj => h.jobs j (hbusy.mem_iff.mp hj), ?_, h.tidy⟩
    intro j watch next hanswering
    cases hanswering
  | @finish i found f watch next hstage hact =>
    have hbusy : c.busy = c.sending ++ c.queue ++ [i] := by rw [busy, hstage, Stage.served]
    refine ⟨(congrArg List.Nodup hbusy).mp h.nodup, h.room,
      fun j hj => h.jobs j ((congrArg (j ∈ ·) hbusy).mpr hj), ?_, h.tidy⟩
    intro j w n hanswering
    cases hanswering
    show Child _ (c.config.threads i)
    rw [hact]
    exact .act f watch next _
  | @answer i watch next hstage =>
    have hbusy : c.busy = c.sending ++ c.queue ++ [i] := by rw [busy, hstage, Stage.served]
    have hnodup := h.nodup
    rw [hbusy] at hnodup
    -- no job is answered twice: the thread does not wait for a second one
    have hne : ∀ j ∈ c.sending ++ c.queue, j ≠ i := by
      rintro j hj rfl
      exact (List.disjoint_of_nodup_append hnodup) hj (List.mem_singleton_self j)
    refine ⟨by simpa [busy, Stage.served] using hnodup.of_append_left, h.room, ?_, ?_, ?_⟩
    · intro j hj
      have hj' : j ∈ c.sending ++ c.queue := by simpa [busy, Stage.served] using hj
      have hjob := h.jobs j (hbusy ▸ List.mem_append_left _ hj')
      show ∃ f watch next', Function.update c.config.threads i next j = _ ∧ _
      rw [Function.update_of_ne (hne j hj')]
      exact hjob
    · intro j w n hanswering
      cases hanswering
    · intro j
      show Tidy part _ (c.config.held j) (Function.update c.config.threads i next j)
      by_cases hji : j = i
      · subst hji
        rw [Function.update_self]
        exact h.answer_tidy hstage
      · rw [Function.update_of_ne hji]
        exact h.tidy j

omit [DecidableEq ι] [DecidableEq L] in
theorem Ok.work (h : Ok part cap c) (hwork : Work part c c') : Ok part cap c' := by
  cases hwork with
  | mk hstage x => exact ⟨h.nodup, h.room, h.jobs, h.answer, h.tidy⟩

omit [DecidableEq ι] [DecidableEq L] in
theorem Ok.works (h : Ok part cap c) (hwork : Relation.ReflTransGen (Work part) c c') :
    Ok part cap c' := by
  induction hwork with
  | refl => exact h
  | tail _ hwork ih => exact ih.work hwork

theorem Ok.step (h : Ok part cap c)
    (hcalls : ∀ i a p, calls i a p → Tidy part (fun _ H => H = ∅) ∅ p)
    (hstep : Step part cap calls c c') : Ok part cap c' := by
  cases hstep with
  | @call i a p hret hp =>
    refine h.of_threads (fun j hj => ?_) (tidy_step h.tidy hcalls (.start hret hp))
    apply Function.update_of_ne
    rintro rfl
    exact h.notMem_busy hret hj
  | work hwork => exact h.work hwork
  | advance hadvance => exact h.advance_ok hadvance

/-! ### Each job as one action -/

end Routed

variable [DecidableEq ι]

/-- The threads as they would be if the running job had not begun and the answer had been
fetched. -/
def Stage.view (part : Part σ φ) (config : Config ι L W σ α) :
    Stage ι L W σ α φ → Config ι L W σ α
  | .waiting => config
  | .running _ found => { config with state := part.put config.state found }
  | .answering i watch next => { config with
      watch := Function.update config.watch i watch
      threads := Function.update config.threads i next }

/-- A thread that is not served moves in the view as it does. -/
theorem Stage.view_step [DecidableEq L] {part : Part σ φ} {stage : Stage ι L W σ α φ}
    {config config' : Config ι L W σ α} {calls : ι → α → Thread L W σ α → Prop} {i : ι}
    (hi : i ∉ stage.served) (h : Threads.Step calls i config config')
    (hact : ∀ f watch next, config.threads i = .act f watch next → part.Apart f watch next) :
    Threads.Step calls i (stage.view part config) (stage.view part config') := by
  cases stage with
  | waiting => exact h
  | running j found =>
    cases h with
    | start hret hp => exact .start hret hp
    | acquire hnext hfree => exact .acquire hnext hfree
    | release hnext howner => exact .release hnext howner
    | @act f watch next hnext =>
      have hapart := hact f watch next hnext
      show Threads.Step calls i _ { config with
        state := part.put (f config.state) found
        watch := Function.update config.watch i (watch config.state)
        threads := Function.update config.threads i (next config.state) }
      -- an action apart from the job does the same after it as before it
      rw [← hapart.act, ← hapart.watch config.state found, ← hapart.next config.state found]
      exact .act hnext
  | answering j w n =>
    -- the thread that is about to be answered does not move
    have hij : i ≠ j := by simpa [Stage.served] using hi
    have hthreads : Function.update config.threads j n i = config.threads i :=
      Function.update_of_ne hij ..
    cases h with
    | @start a p hret hp =>
      show Threads.Step calls i _ { config with
        watch := Function.update config.watch j w
        threads := Function.update (Function.update config.threads i p) j n }
      rw [Function.update_comm hij]
      exact .start (hthreads.trans hret) hp
    | @acquire l p hnext hfree =>
      show Threads.Step calls i _ { config with
        owner := Function.update config.owner l (some i)
        watch := Function.update config.watch j w
        threads := Function.update (Function.update config.threads i p) j n }
      rw [Function.update_comm hij]
      exact .acquire (hthreads.trans hnext) hfree
    | @release l p hnext howner =>
      show Threads.Step calls i _ { config with
        owner := Function.update config.owner l none
        watch := Function.update config.watch j w
        threads := Function.update (Function.update config.threads i p) j n }
      rw [Function.update_comm hij]
      exact .release (hthreads.trans hnext) howner
    | @act f watch next hnext =>
      show Threads.Step calls i _ { config with
        state := f config.state
        watch := Function.update (Function.update config.watch i (watch config.state)) j w
        threads := Function.update (Function.update config.threads i (next config.state)) j n }
      rw [Function.update_comm hij, Function.update_comm hij]
      exact .act (hthreads.trans hnext)

namespace Routed

variable {part : Part σ φ} {cap : ℕ} {c c' : Routed ι L W σ α φ} {i j : ι}

/-- The configuration as an observer of `part` sees it. -/
def view (part : Part σ φ) (c : Routed ι L W σ α φ) : Config ι L W σ α := c.stage.view part c.config

variable [LT L] [DecidableEq L] {calls : ι → α → Thread L W σ α → Prop}

/-- A step over the worker is a step of a thread, or none. -/
theorem Ok.step_view (h : Ok part cap c) (hstep : Step part cap calls c c') :
    c'.view part = c.view part ∨ ∃ j, Threads.Step calls j (c.view part) (c'.view part) := by
  cases hstep with
  | @call i a p hret hp =>
    refine Or.inr ⟨i, Stage.view_step ?_ (.start hret hp) ?_⟩
    · exact fun hserved => h.notMem_busy hret (served_subset_busy hserved)
    · intro f watch next hact
      rw [hret] at hact
      cases hact
  | work hwork =>
    cases hwork with
    | @mk i found hstage x =>
      left
      show c.stage.view part _ = c.stage.view part c.config
      rw [hstage]
      show ({ c.config with state := part.put (part.put c.config.state x) found } : Config ..) = _
      rw [part.put_put]
      rfl
  | advance hadvance =>
    cases hadvance with
    | @thread i config hi hmove hact =>
      refine Or.inr ⟨i, Stage.view_step (fun hserved => hi (served_subset_busy hserved)) ?_ hact⟩
      cases hmove with
      | start hret hp => exact hp.elim
      | acquire hnext hfree => exact .acquire hnext hfree
      | release hnext howner => exact .release hnext howner
      | act hnext => exact .act hnext
    | send hi hact hjob => exact Or.inl rfl
    | enqueue hi hroom => exact Or.inl rfl
    | @take i queue hstage hqueue =>
      left
      show ({ c.config with
        state := part.put c.config.state (part.look c.config.state) } : Config ..) = _
      rw [part.put_look, view, hstage]
      rfl
    | @finish i found f watch next hstage hact =>
      -- the job takes effect here
      right
      refine ⟨i, ?_⟩
      rw [view, hstage]
      exact .act hact
    | @answer i watch next hstage =>
      left
      rw [view, view, hstage]
      rfl

variable (part cap calls) in
/-- What can be reached over the worker. -/
def Reaches (c c' : Routed ι L W σ α φ) : Prop :=
  Relation.ReflTransGen (Step part cap calls) c c'

/-- **A run over the worker** is a run of the threads in which each job is one action. -/
theorem Ok.reaches (h : Ok part cap c)
    (hcalls : ∀ i a p, calls i a p → Tidy part (fun _ H => H = ∅) ∅ p)
    (hrun : Reaches part cap calls c c') :
    Ok part cap c' ∧
      Relation.ReflTransGen (AnyStep calls fun _ _ => True) (c.view part) (c'.view part) := by
  induction hrun with
  | refl => exact ⟨h, .refl⟩
  | tail _ hstep ih =>
    obtain ⟨hok, hview⟩ := ih
    refine ⟨hok.step hcalls hstep, ?_⟩
    obtain heq | ⟨j, hj⟩ := hok.step_view hstep
    · rw [heq]
      exact hview
    · exact hview.tail ⟨j, hj, trivial⟩

/-! ### Nobody waits for ever -/

/-- A job that waits can move on. -/
theorem Ok.advance_of_busy (h : Ok part cap c) (hcap : 0 < cap) (hi : i ∈ c.busy) :
    ∃ c', Advance part cap c c' := by
  cases hstage : c.stage with
  | running j found =>
    obtain ⟨f, watch, next, hact, -⟩ := h.jobs j
      (served_subset_busy (by rw [hstage]; exact List.mem_singleton_self j))
    exact ⟨_, .finish hstage hact⟩
  | answering j watch next => exact ⟨_, .answer hstage⟩
  | waiting =>
    cases hqueue : c.queue with
    | cons j queue => exact ⟨_, .take hstage hqueue⟩
    | nil =>
      have hsending : i ∈ c.sending := by
        simpa [busy, hstage, hqueue, Stage.served] using hi
      obtain ⟨before, after, hsplit⟩ := List.append_of_mem hsending
      exact ⟨_, .enqueue hsplit (by rw [hqueue]; exact hcap)⟩

end Routed

namespace Routed

variable {part : Part σ φ} {cap : ℕ} {c c' : Routed ι L W σ α φ} {i j : ι} [PartialOrder L]
  [DecidableEq L]

/-- A thread that does not wait can move, except in front of a lock that is taken. -/
theorem Ok.advance_of_free (h : Ok part cap c) (hbusy : i ∉ c.busy)
    (hstop : c.config.threads i ≠ .stop) (hret : ∀ a, c.config.threads i ≠ .ret a)
    (hlock : ∀ l p, c.config.threads i = .acquire l p → c.config.owner l = none) :
    ∃ c', Advance part cap c c' := by
  have htidy := h.tidy i
  cases hnext : c.config.threads i with
  | ret a => exact absurd hnext (hret a)
  | stop => exact absurd hnext hstop
  | acquire l p =>
    refine ⟨_, .thread hbusy (.acquire hnext (hlock l p hnext)) ?_⟩
    intro f watch next hact
    rw [hnext] at hact
    cases hact
  | release l p =>
    rw [hnext] at htidy
    refine ⟨_, .thread hbusy (.release hnext htidy.1) ?_⟩
    intro f watch next hact
    rw [hnext] at hact
    cases hact
  | act f watch next =>
    rw [hnext] at htidy
    obtain hjob | hapart := htidy.1
    · exact ⟨_, .send hbusy hnext hjob⟩
    · refine ⟨_, .thread hbusy (.act hnext) ?_⟩
      intro f' watch' next' hact
      rw [hnext] at hact
      cases hact
      exact hapart

omit [DecidableEq ι] [DecidableEq L] in
/-- The owner of the greatest lock that is taken does not wait for a lock. -/
theorem Ok.exists_owner [Finite L] (h : Ok part cap c) {l₀ : L} (hl₀ : c.config.owner l₀ ≠ none) :
    ∃ i, (∀ a, c.config.threads i ≠ .ret a) ∧
      ∀ l p, c.config.threads i = .acquire l p → c.config.owner l = none := by
  obtain ⟨l, hl, hmax⟩ := Set.Finite.exists_maximal (s := {l | c.config.owner l ≠ none})
    (Set.toFinite _) ⟨l₀, hl₀⟩
  obtain ⟨i, hi⟩ := Option.ne_none_iff_exists'.mp hl
  have hheld : l ∈ c.config.held i := hi
  have htidy := h.tidy i
  refine ⟨i, fun a hret => ?_, fun l' p hnext => ?_⟩
  · rw [hret] at htidy
    rw [show c.config.held i = ∅ from htidy] at hheld
    exact hheld
  · rw [hnext] at htidy
    have hlt : l < l' := htidy.1 l hheld
    by_contra htaken
    exact absurd (hmax htaken hlt.le) (not_le_of_gt hlt)

/-- **No deadlock**: as long as a call is under way, something can move. -/
theorem Ok.advance [Finite L] (h : Ok part cap c) (hcap : 0 < cap)
    (hstop : ∀ i, c.config.threads i ≠ .stop) (hret : ∀ a, c.config.threads i ≠ .ret a) :
    ∃ c', Advance part cap c c' := by
  by_cases hbusy : ∃ j, j ∈ c.busy
  · obtain ⟨j, hj⟩ := hbusy
    exact h.advance_of_busy hcap hj
  · push Not at hbusy
    by_cases htaken : ∃ l, c.config.owner l ≠ none
    · obtain ⟨l, hl⟩ := htaken
      obtain ⟨j, hjret, hjlock⟩ := h.exists_owner hl
      exact h.advance_of_free (hbusy j) (hstop j) hjret hjlock
    · push Not at htaken
      exact h.advance_of_free (hbusy i) (hstop i) hret fun l _ _ => htaken l

/-! ### Nothing goes on for ever -/

end Routed

/-- How far thread `i` is from its answer, if the worker serves it. -/
def Stage.rank (i : ι) (otherwise : ℕ) : Stage ι L W σ α φ → ℕ
  | .waiting => otherwise
  | .running j _ => if i = j then 2 else otherwise
  | .answering j _ _ => if i = j then 1 else otherwise

theorem Stage.rank_of_notMem {stage : Stage ι L W σ α φ} {i : ι} (hi : i ∉ stage.served) (n : ℕ) :
    stage.rank i n = n := by
  cases stage with
  | waiting => rfl
  | running j found => exact if_neg (by simpa [served] using hi)
  | answering j watch next => exact if_neg (by simpa [served] using hi)

namespace Routed

variable {part : Part σ φ} {cap : ℕ} {c c' : Routed ι L W σ α φ} {i j : ι}

/-- How far thread `i` is from its answer. -/
def rank (c : Routed ι L W σ α φ) (i : ι) : ℕ :=
  c.stage.rank i (if i ∈ c.queue then 3 else if i ∈ c.sending then 4 else 5)

/-- What a thread still has to do, and how far its job is. -/
def ahead (c : Routed ι L W σ α φ) (i : ι) : Thread L W σ α × ℕ := (c.config.threads i, c.rank i)

/-- One thread gets on and the others stay where they are. -/
def Less (x y : ι → Thread L W σ α × ℕ) : Prop :=
  ∃ i, (∀ j, j ≠ i → x j = y j) ∧ Prod.Lex Child (· < ·) (x i) (y i)

omit [DecidableEq ι] in
theorem wellFounded_less [Finite ι] :
    WellFounded (Less (ι := ι) (L := L) (W := W) (σ := σ) (α := α)) := by
  have hthread : WellFounded (Prod.Lex (Child (L := L) (W := W) (σ := σ) (α := α))
      ((· < ·) : ℕ → ℕ → Prop)) := WellFounded.prod_lex wellFounded_child wellFounded_lt
  refine Subrelation.wf ?_ (Pi.Lex.wellFounded (WellOrderingRel (α := ι)) fun _ => hthread)
  rintro x y ⟨i, hsame, hless⟩
  refine ⟨i, fun j hj => hsame j ?_, hless⟩
  rintro rfl
  exact irrefl_of WellOrderingRel j hj

/-- A job that has come closer to its answer. -/
theorem less_of_rank (hthreads : c'.config.threads = c.config.threads)
    (hsame : ∀ j, j ≠ i → c'.rank j = c.rank j) (hless : c'.rank i < c.rank i) :
    Less c'.ahead c.ahead := by
  refine ⟨i, fun j hj => ?_, ?_⟩
  · simp only [ahead, hthreads, hsame j hj]
  · simp only [ahead, hthreads]
    exact Prod.Lex.right _ hless

/-- A thread that has made its next step. -/
theorem less_of_child (hchild : Child (c'.config.threads i) (c.config.threads i))
    (hthreads : ∀ j, j ≠ i → c'.config.threads j = c.config.threads j)
    (hsame : ∀ j, j ≠ i → c'.rank j = c.rank j) : Less c'.ahead c.ahead := by
  refine ⟨i, fun j hj => ?_, Prod.Lex.left _ _ hchild⟩
  simp only [ahead, hthreads j hj, hsame j hj]

theorem child_of_step [DecidableEq L] {config config' : Config ι L W σ α}
    (h : Threads.Step (fun _ _ _ => False) i config config') :
    Child (config'.threads i) (config.threads i) := by
  cases h with
  | start hret hp => exact hp.elim
  | @acquire l p hnext hfree =>
    simp only [hnext, Function.update_self]
    exact .acquire l p
  | @release l p hnext howner =>
    simp only [hnext, Function.update_self]
    exact .release l p
  | @act f watch next hnext =>
    simp only [hnext, Function.update_self]
    exact .act f watch next _

theorem Ok.less [LT L] [DecidableEq L] (h : Ok part cap c) (hstep : Advance part cap c c') :
    Less c'.ahead c.ahead := by
  have hnodup := h.nodup
  cases hstep with
  | @thread i config hi hmove hact =>
    exact less_of_child (child_of_step hmove) (fun j hj => hmove.threads_of_ne hj) fun j _ => rfl
  | @send i f watch next hi hact hjob =>
    simp only [busy, List.mem_append, not_or] at hi
    obtain ⟨⟨hsending, hqueue⟩, hserved⟩ := hi
    refine less_of_rank rfl (i := i) (fun j hj => ?_) ?_
    · simp only [rank, List.mem_append, List.mem_singleton, hj, or_false]
    · simp [rank, Stage.rank_of_notMem hserved, hsending, hqueue]
  | @enqueue before after i hi hroom =>
    rw [busy, hi] at hnodup
    have hserved : i ∉ c.stage.served := by
      intro hmem
      exact List.disjoint_of_nodup_append hnodup (by simp) hmem
    have hqueue : i ∉ c.queue := by
      intro hmem
      exact List.disjoint_of_nodup_append (List.Nodup.of_append_left hnodup) (by simp) hmem
    refine less_of_rank rfl (i := i) (fun j hj => ?_) ?_
    · simp only [rank, hi, List.mem_append, List.mem_cons, hj, List.not_mem_nil, or_false, false_or]
    · simp [rank, Stage.rank_of_notMem hserved, hqueue, hi]
  | @take i queue hstage hqueue =>
    refine less_of_rank rfl (i := i) (fun j hj => ?_) ?_
    · simp [rank, Stage.rank, hstage, hqueue, hj]
    · simp [rank, Stage.rank, hstage, hqueue]
  | @finish i found f watch next hstage hact =>
    refine less_of_rank rfl (i := i) (fun j hj => ?_) ?_
    · simp [rank, Stage.rank, hstage, hj]
    · simp [rank, Stage.rank, hstage]
  | @answer i watch next hstage =>
    have hchild := h.answer i watch next hstage
    refine less_of_child (i := i) ?_ (fun j hj => Function.update_of_ne hj ..) fun j hj => ?_
    · simpa using hchild
    · simp [rank, Stage.rank, hstage, hj]

theorem ahead_work (h : Relation.ReflTransGen (Work part) c c') : c'.ahead = c.ahead := by
  induction h with
  | refl => rfl
  | tail _ hwork ih =>
    cases hwork with
    | mk hstage x => exact ih

/-- **No run is endless**: whatever the jobs do, there are finitely many advances unless a thread
starts another call. -/
theorem wellFounded [Finite ι] [LT L] [DecidableEq L] :
    WellFounded fun c' c : Routed ι L W σ α φ => Ok part cap c ∧
      ∃ c₁, Relation.ReflTransGen (Work part) c c₁ ∧ Advance part cap c₁ c' := by
  refine Subrelation.wf ?_ (InvImage.wf ahead wellFounded_less)
  rintro c' c ⟨hok, c₁, hwork, hadvance⟩
  show Less c'.ahead c.ahead
  rw [← ahead_work hwork]
  exact (hok.works hwork).less hadvance

end Routed

end Threads
