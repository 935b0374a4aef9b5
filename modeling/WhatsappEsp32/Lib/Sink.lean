import WhatsappEsp32.Lib.RustIo

/-!
# Writers of the Rust standard library

A writer that takes bytes in order.  Each `write` accepts some of the bytes it is offered or fails,
and one that comes after a failure may succeed again.

* `Sink`, with `write`, `writeAll` and `flush`;
* `Puts`: some bytes have been accepted;
* `writeAll_spec`: all of the buffer has been accepted, or on an error a part of it that is not the
  whole.
-/

namespace RustIo

open CrashLogic

/-- What one `write` does. -/
inductive WriteEvent
  /-- At most `n` bytes are accepted. -/
  | accepts (n : ℕ)
  | fails (e : IoError)
  deriving DecidableEq

/-- A writer: what the writes and the flushes to come do, and the bytes accepted so far.  After the
listed ones, writes accept all they are offered and flushes succeed. -/
structure Sink where
  writes : List WriteEvent := []
  flushes : List (Option IoError) := []
  wire : List UInt8 := []
  deriving DecidableEq

namespace Sink

/-- `write`: the number of bytes that were accepted. -/
def write (buf : List UInt8) : Prog Sink IoError ℕ := fun s =>
  match s.writes with
  | [] => (.ok buf.length, { s with wire := s.wire ++ buf })
  | .accepts n :: rest =>
    (.ok (min n buf.length), { s with writes := rest, wire := s.wire ++ buf.take n })
  | .fails e :: rest => (.error e, { s with writes := rest })

/-- The error of `write_all` when a write accepts nothing. -/
def writeZero : IoError := ⟨.other, "failed to write whole buffer"⟩

/-- The loop of `write_all`; interrupted writes are made again. -/
def writeAllLoop : ℕ → List UInt8 → Prog Sink IoError Unit
  | 0, _ => .halt
  | fuel + 1, buf =>
    if buf = [] then
      pure ()
    else do
      match ← (write buf).attempt with
      | .ok n => if n = 0 then .throw writeZero else writeAllLoop fuel (buf.drop n)
      | .error e => if e.kind = .interrupted then writeAllLoop fuel buf else .throw e

/-- `write_all`.  Every write but the last two uses up one of the listed ones. -/
def writeAll (buf : List UInt8) : Prog Sink IoError Unit := fun s =>
  writeAllLoop (s.writes.length + 2) buf s

/-- A flush takes the next answer of the script; past its end every flush succeeds. -/
def flush : Prog Sink IoError Unit := fun s =>
  match s.flushes with
  | [] => (.ok (), s)
  | none :: rest => (.ok (), { s with flushes := rest })
  | some e :: rest => (.error e, { s with flushes := rest })

/-! ### What they do -/

/-- `bytes` have been accepted. -/
def Puts (s : Sink) (bytes : List UInt8) (s' : Sink) : Prop := s'.wire = s.wire ++ bytes

theorem Puts.refl (s : Sink) : s.Puts [] s := (List.append_nil _).symm

theorem Puts.trans {s s' s'' : Sink} {bytes bytes' : List UInt8} (h : s.Puts bytes s')
    (h' : s'.Puts bytes' s'') : s.Puts (bytes ++ bytes') s'' := by
  unfold Puts at *
  rw [h', h, List.append_assoc]

/-- A part of `bytes` that is not the whole has been accepted. -/
def PutsPart (s : Sink) (bytes : List UInt8) (s' : Sink) : Prop :=
  ∃ part rest, rest ≠ [] ∧ bytes = part ++ rest ∧ s.Puts part s'

theorem PutsPart.prepend {s s' s'' : Sink} {bytes bytes' : List UInt8} (h : s.Puts bytes s')
    (h' : s'.PutsPart bytes' s'') : s.PutsPart (bytes ++ bytes') s'' := by
  obtain ⟨part, rest, hrest, heq, hputs⟩ := h'
  exact ⟨bytes ++ part, rest, hrest, by rw [heq, List.append_assoc], h.trans hputs⟩

theorem PutsPart.extend {s s' : Sink} {bytes : List UInt8} (h : s.PutsPart bytes s')
    (more : List UInt8) : s.PutsPart (bytes ++ more) s' := by
  obtain ⟨part, rest, hrest, heq, hputs⟩ := h
  exact ⟨part, rest ++ more, by simp [hrest], by rw [heq, List.append_assoc], hputs⟩

/-- Everything one `write` can do: accept the front of the buffer, or fail. -/
theorem write_cases (buf : List UInt8) (s : Sink) :
    (∃ n s', write buf s = (.ok n, s') ∧ n ≤ buf.length ∧ s.Puts (buf.take n) s' ∧
      (s'.writes.length < s.writes.length ∨ n = buf.length)) ∨
    ∃ e s', write buf s = (.error e, s') ∧ s.Puts [] s' ∧ s'.writes.length < s.writes.length := by
  unfold write
  cases hwrites : s.writes with
  | nil =>
    refine Or.inl ⟨_, _, rfl, le_rfl, ?_, Or.inr rfl⟩
    rw [List.take_length]
    rfl
  | cons event rest =>
    cases event with
    | accepts n =>
      refine Or.inl ⟨_, _, rfl, min_le_right _ _, ?_, Or.inl (by simp)⟩
      show s.wire ++ buf.take n = s.wire ++ buf.take (min n buf.length)
      rw [← List.take_take, List.take_length]
    | fails e => exact Or.inr ⟨e, _, rfl, (List.append_nil _).symm, by simp⟩

theorem writeAllLoop_spec (fuel : ℕ) {buf : List UInt8} {s : Sink}
    (hfuel : s.writes.length + 2 ≤ fuel ∨ buf = [] ∧ 1 ≤ fuel) :
    Triple (fun t => t = s) (writeAllLoop fuel buf) (fun _ s' => s.Puts buf s')
      (fun _ s' => s.PutsPart buf s') (fun _ => False) := by
  induction fuel generalizing buf s with
  | zero => omega
  | succ fuel ih =>
    unfold writeAllLoop
    by_cases hbuf : buf = []
    · rw [if_pos hbuf, hbuf]
      exact Triple.ofRun (Puts.refl s)
    · rw [if_neg hbuf]
      have hfuel' : s.writes.length + 1 ≤ fuel := by
        rcases hfuel with hfuel | ⟨hnil, -⟩
        · omega
        · exact absurd hnil hbuf
      have hwrite : Triple (fun t => t = s) (write buf)
          (fun n s' => n ≤ buf.length ∧ s.Puts (buf.take n) s' ∧
            (s'.writes.length + 2 ≤ fuel ∨ n = buf.length))
          (fun _ s' => s.Puts [] s' ∧ s'.writes.length + 2 ≤ fuel) (fun _ => False) := by
        rcases write_cases buf s with ⟨n, s', hrun, hn, hputs, hleft⟩ | ⟨e, s', hrun, hputs, hleft⟩
        · refine Triple.ofRunEq hrun ⟨hn, hputs, ?_⟩
          rcases hleft with hleft | hall
          · exact Or.inl (by omega)
          · exact Or.inr hall
        · exact Triple.ofRunEq hrun ⟨hputs, by omega⟩
      refine Triple.bindAttempt hwrite (fun e => ?_) fun n => ?_
      · -- an interruption uses up a write; any other error ends the loop
        refine Triple.ofState fun s' ⟨hputs, hleft⟩ => Triple.ite (fun _ => ?_) fun _ => ?_
        · refine (ih (Or.inl hleft)).weaken (fun _ => id) (fun _ s'' h => ?_) (fun _ s'' h => ?_)
            (fun _ => id)
          · exact hputs.trans h
          · exact h.prepend hputs
        · exact Triple.ofRun ⟨[], buf, hbuf, rfl, hputs⟩
      · refine Triple.ofState fun s' ⟨hn, hputs, hleft⟩ => Triple.ite (fun hzero => ?_) fun hzero => ?_
        · refine Triple.ofRun ⟨[], buf, hbuf, rfl, ?_⟩
          rw [hzero, List.take_zero] at hputs
          exact hputs
        · have hnext : s'.writes.length + 2 ≤ fuel ∨ buf.drop n = [] ∧ 1 ≤ fuel := by
            rcases hleft with hleft | hall
            · exact Or.inl hleft
            · exact Or.inr ⟨by rw [hall, List.drop_length], by omega⟩
          refine (ih hnext).weaken (fun _ => id) (fun _ s'' h => ?_) (fun _ s'' h => ?_)
            (fun _ => id)
          · rw [← List.take_append_drop n buf]
            exact hputs.trans h
          · rw [← List.take_append_drop n buf]
            exact h.prepend hputs

/-- All of the buffer has been accepted; on an error, a part of it that is not the whole. -/
theorem writeAll_spec (buf : List UInt8) (s : Sink) :
    Triple (fun t => t = s) (writeAll buf) (fun _ s' => s.Puts buf s')
      (fun _ s' => s.PutsPart buf s') (fun _ => False) := by
  rintro _ rfl
  exact writeAllLoop_spec _ (Or.inl le_rfl) _ rfl

theorem flush_spec (s : Sink) :
    Triple (fun t => t = s) flush (fun _ s' => s.Puts [] s') (fun _ s' => s.Puts [] s')
      (fun _ => False) := by
  refine Triple.ofRun ?_
  unfold flush
  cases s.flushes with
  | nil => exact Puts.refl s
  | cons outcome rest =>
    cases outcome with
    | none => exact (List.append_nil _).symm
    | some e => exact (List.append_nil _).symm

end Sink

end RustIo
