import Mathlib.Tactic

/-!
# Scripted streams

A byte source that delivers its content in pieces: a `Script` is the list of what its reads will
give, a piece of data or an error, and then the end of the stream.  A read into a buffer that is
too small for the next piece leaves the rest of the piece for the next read.

* `Script.read`, `Script.payload` (the content, whatever the pieces), `Script.size`;
* `Script.Leaves`, `Script.read_cases`: everything one read can do;
* `Script.Clean`: a stream that reports no errors.
-/

namespace Scripted

variable {α ε : Type}

/-- What one read gives. -/
inductive Event (α ε : Type)
  | data (bytes : List α)
  | fails (e : ε)

/-- The reads to come; after them the stream is at its end. -/
abbrev Script (α ε : Type) := List (Event α ε)

namespace Script

/-- Read at most `n` bytes.  No bytes mean the end of the stream. -/
def read (n : ℕ) : Script α ε → Except ε (List α) × Script α ε
  | [] => (.ok [], [])
  | .data bytes :: rest =>
    if bytes.length ≤ n then
      (.ok bytes, rest)
    else
      (.ok (bytes.take n), .data (bytes.drop n) :: rest)
  | .fails e :: rest => (.error e, rest)

/-- The content of the stream. -/
def payload : Script α ε → List α
  | [] => []
  | .data bytes :: rest => bytes ++ payload rest
  | .fails _ :: rest => payload rest

/-- Every read that gives data gives some. -/
def NonEmpty (script : Script α ε) : Prop := ∀ bytes, Event.data bytes ∈ script → bytes ≠ []

/-- The number of reads and bytes that are left. -/
def size (script : Script α ε) : ℕ := script.length + script.payload.length

@[simp] theorem payload_nil : payload ([] : Script α ε) = [] := rfl

@[simp] theorem payload_data (bytes : List α) (rest : Script α ε) :
    payload (.data bytes :: rest) = bytes ++ payload rest := rfl

@[simp] theorem payload_fails (e : ε) (rest : Script α ε) :
    payload (.fails e :: rest) = payload rest := rfl

theorem NonEmpty.tail {event : Event α ε} {rest : Script α ε}
    (h : NonEmpty (event :: rest)) : NonEmpty rest :=
  fun bytes hmem => h bytes (List.mem_cons_of_mem _ hmem)

/-- `rest` is what a read that gave `bytes` leaves of `script`. -/
structure Leaves (script : Script α ε) (bytes : List α) (rest : Script α ε) : Prop where
  payload : script.payload = bytes ++ rest.payload
  size : rest.size + bytes.length ≤ script.size
  nonEmpty : script.NonEmpty → rest.NonEmpty
  fails : ∀ e, Event.fails e ∈ rest → Event.fails e ∈ script

/-- Everything that a piece of a script may be cut into: its first `n` bytes and the others. -/
theorem Leaves.cut (n : ℕ) (bytes : List α) (rest : Script α ε) (hn : n < bytes.length) :
    Leaves (.data bytes :: rest) (bytes.take n) (.data (bytes.drop n) :: rest) where
  payload := by
    rw [payload_data, payload_data, ← List.append_assoc, List.take_append_drop]
  size := by
    simp only [Script.size, payload_data, List.length_cons, List.length_append, List.length_drop,
      List.length_take]
    omega
  nonEmpty h := by
    intro b hb
    rcases List.mem_cons.mp hb with heq | hb
    · cases heq
      intro hnil
      have := congrArg List.length hnil
      simp only [List.length_drop, List.length_nil] at this
      omega
    · exact h.tail b hb
  fails e he := by
    rcases List.mem_cons.mp he with heq | he
    · cases heq
    · exact List.mem_cons_of_mem _ he

theorem Leaves.whole (bytes : List α) (rest : Script α ε) :
    Leaves (.data bytes :: rest) bytes rest where
  payload := rfl
  size := by
    simp only [Script.size, payload_data, List.length_cons, List.length_append]
    omega
  nonEmpty h := h.tail
  fails _ he := List.mem_cons_of_mem _ he

/-- What a read of at least one byte can do: give nothing (at the end of the stream, if every piece
has some data), give some bytes, or report the error that is due. -/
theorem read_cases (script : Script α ε) {n : ℕ} (hn : 0 < n) :
    (∃ rest, script.read n = (.ok [], rest) ∧ Leaves script [] rest ∧
      (script.NonEmpty → script = [])) ∨
    (∃ bytes rest, script.read n = (.ok bytes, rest) ∧ bytes ≠ [] ∧ bytes.length ≤ n ∧
      Leaves script bytes rest) ∨
    ∃ e rest, script.read n = (.error e, rest) ∧ Event.fails e ∈ script ∧
      Leaves script [] rest ∧ rest.size < script.size := by
  cases script with
  | nil => exact Or.inl ⟨[], rfl, ⟨rfl, le_rfl, id, fun _ => id⟩, fun _ => rfl⟩
  | cons event rest =>
    cases event with
    | fails e =>
      have hsize : size rest < size (.fails e :: rest) := by
        simp only [size, payload_fails, List.length_cons]
        omega
      exact Or.inr (Or.inr ⟨e, rest, rfl, List.mem_cons_self,
        ⟨rfl, hsize.le, NonEmpty.tail, fun _ => List.mem_cons_of_mem _⟩, hsize⟩)
    | data bytes =>
      by_cases hlen : bytes.length ≤ n
      · have hread : read n (.data bytes :: rest) = (Except.ok bytes, rest) := by
          simp only [read, if_pos hlen]
        by_cases hne : bytes = []
        · subst hne
          exact Or.inl ⟨rest, hread, .whole [] rest, fun h => (h [] List.mem_cons_self rfl).elim⟩
        · exact Or.inr (Or.inl ⟨bytes, rest, hread, hne, hlen, .whole bytes rest⟩)
      · have hread : read n (.data bytes :: rest) =
            (Except.ok (bytes.take n), .data (bytes.drop n) :: rest) := by
          simp only [read, if_neg hlen]
        refine Or.inr (Or.inl ⟨_, _, hread, ?_, by simp, .cut n bytes rest (by omega)⟩)
        intro hnil
        have := congrArg List.length hnil
        simp only [List.length_take, List.length_nil] at this
        omega

/-- Every read gives data, up to the end of the stream. -/
structure Clean (script : Script α ε) : Prop where
  nonEmpty : script.NonEmpty
  noFails : ∀ e, Event.fails e ∉ script

theorem Clean.leaves {script rest : Script α ε} {bytes : List α} (h : script.Clean)
    (hrest : script.Leaves bytes rest) : rest.Clean :=
  ⟨hrest.nonEmpty h.nonEmpty, fun e he => h.noFails e (hrest.fails e he)⟩

/-- A read of a stream that reports no errors. -/
theorem Clean.read {script : Script α ε} (h : script.Clean) {n : ℕ} (hn : 0 < n) :
    ∃ bytes rest, script.read n = (.ok bytes, rest) ∧ bytes.length ≤ n ∧
      script.Leaves bytes rest ∧ (bytes = [] → script.payload = []) := by
  rcases script.read_cases hn with ⟨rest, hread, hrest, hend⟩ |
    ⟨bytes, rest, hread, hne, hle, hrest⟩ | ⟨e, rest, hread, hmem, -, -⟩
  · exact ⟨[], rest, hread, Nat.zero_le _, hrest, fun _ => by rw [hend h.nonEmpty]; rfl⟩
  · exact ⟨bytes, rest, hread, hle, hrest, fun hnil => (hne hnil).elim⟩
  · exact (h.noFails e hmem).elim

end Script

end Scripted
