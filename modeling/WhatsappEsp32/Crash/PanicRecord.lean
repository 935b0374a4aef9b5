import Mathlib.Data.List.GetD
import WhatsappEsp32.Lib.RustStr
import WhatsappEsp32.Storage.Record

/-!
# The panic record

A panic leaves its message in memory that survives a reset, for the next boot to report.  The
record is written field by field, its magic number last; a reset can cut it off after any of the
writes, and the magic number of an earlier record is not cleared before.

* `FixedBuf`: the formatter that the panic hook writes into;
* `CrashLog`, `fieldWrites`, `recordPanic`, `takeLastPanic`;
* `Reports`: what may be reported after any steps, and `halfWritten_not_reported`: it is, if no
  record that is cut off writes over one that was not taken.
-/

namespace WhatsappEsp32

open RustStr

/-- The value of `magic` in a complete record. -/
def crashMagic : UInt32 := 0xC0DEDEAD

/-- The size of the message buffer. -/
def msgCap : ℕ := 256

/-! ### The formatter -/

/-- A buffer and how much of it is written. -/
structure FixedBuf where
  buf : Fin msgCap → UInt8
  len : ℕ
  len_le : len ≤ msgCap

namespace FixedBuf

/-- The empty buffer of `record_panic`. -/
def new : FixedBuf := ⟨fun _ => 0, 0, Nat.zero_le _⟩

/-- What does not fit is dropped. -/
def writeStr (fb : FixedBuf) (s : String) : FixedBuf where
  buf i := if fb.len ≤ i ∧ i < fb.len + min (asBytes s).length (msgCap - fb.len)
    then (asBytes s).getD (i - fb.len) 0 else fb.buf i
  len := fb.len + min (asBytes s).length (msgCap - fb.len)
  len_le := by have := fb.len_le; omega

/-- The bytes written so far. -/
def written (fb : FixedBuf) : Bytes := (List.ofFn fb.buf).take fb.len

@[simp] theorem length_written (fb : FixedBuf) : fb.written.length = fb.len := by
  have := fb.len_le
  simp [written, this]

theorem getElem_written (fb : FixedBuf) {i : ℕ} (h : i < fb.written.length) :
    fb.written[i] = fb.buf ⟨i, (fb.length_written ▸ h).trans_le fb.len_le⟩ := by
  simp [written]

theorem written_writeStr (fb : FixedBuf) (s : String) :
    (fb.writeStr s).written = (fb.written ++ asBytes s).take msgCap := by
  have hle := fb.len_le
  apply List.ext_getElem
  · simp only [length_written, List.length_take, List.length_append, writeStr]
    omega
  · intro i h₁ h₂
    rw [getElem_written]
    rw [length_written] at h₁
    simp only [writeStr] at h₁ ⊢
    by_cases hi : fb.len ≤ i
    · rw [if_pos ⟨hi, h₁⟩, List.getElem_take, List.getElem_append_right (by simpa using hi)]
      simp only [length_written]
      exact List.getD_eq_getElem _ _ _
    · rw [if_neg fun h => hi h.1, List.getElem_take,
        List.getElem_append_left (by simpa using not_le.mp hi), getElem_written]

end FixedBuf

/-- `write!(fb, "{info}")`, where `info` writes its text in fragments. -/
def format (fragments : List String) : FixedBuf := fragments.foldl FixedBuf.writeStr .new

/-- The first 256 bytes of the text. -/
theorem written_format (fragments : List String) :
    (format fragments).written = (fragments.flatMap asBytes).take msgCap := by
  induction fragments using List.reverseRecOn with
  | nil => simp [format, FixedBuf.new, FixedBuf.written]
  | append_singleton fragments s ih =>
    rw [format, List.foldl_append, List.foldl_cons, List.foldl_nil, ← format,
      FixedBuf.written_writeStr, ih, List.flatMap_append, List.flatMap_singleton,
      List.take_append, List.take_take, List.take_append]
    simp only [List.length_take, Nat.min_self]
    congr 2
    omega

/-! ### The record -/

/-- What a panic hands to `record_panic`: its text, and the free heap at that moment. -/
structure Panic where
  fragments : List String
  internalFree : UInt32
  internalLargest : UInt32

/-- The static in memory that is not initialised at boot. -/
structure CrashLog where
  magic : UInt32
  len : UInt16
  internalFree : UInt32
  internalLargest : UInt32
  msg : Fin msgCap → UInt8

/-- A single write to the static. -/
inductive FieldWrite
  | msg (i : Fin msgCap) (b : UInt8)
  | len (len : UInt16)
  | internalFree (free : UInt32)
  | internalLargest (largest : UInt32)
  | magic

/-- One volatile write to the record in RTC memory. -/
def CrashLog.write (log : CrashLog) : FieldWrite → CrashLog
  | .msg i b => { log with msg := Function.update log.msg i b }
  | .len len => { log with len }
  | .internalFree free => { log with internalFree := free }
  | .internalLargest largest => { log with internalLargest := largest }
  | .magic => { log with magic := crashMagic }

namespace Panic

/-- The copy of the text, byte by byte. -/
def msgWrites (fb : FixedBuf) : List FieldWrite :=
  ((List.finRange msgCap).take fb.len).map fun i => .msg i (fb.buf i)

/-- The writes of `record_panic` before its last one. -/
def bodyWrites (call : Panic) : List FieldWrite :=
  let fb := format call.fragments
  msgWrites fb ++ [.len (UInt16.ofNat fb.len), .internalFree call.internalFree,
    .internalLargest call.internalLargest]

/-- All the writes of a `record_panic`, the magic last. -/
def fieldWrites (call : Panic) : List FieldWrite := call.bodyWrites ++ [.magic]

/-- The text that is kept. -/
def text (call : Panic) : Bytes := (call.fragments.flatMap asBytes).take msgCap

end Panic

/-- `record_panic`, of which a reset lets only the first writes happen. -/
def recordPanic (call : Panic) (performed : ℕ) (log : CrashLog) : CrashLog :=
  (call.fieldWrites.take performed).foldl CrashLog.write log

/-- The message that is reported. -/
def message (text : Bytes) (free largest : UInt32) : String :=
  String.ofList (lossyAux 0 text) ++
    s!" | internal-DRAM @panic: free={free} B, largest_block={largest} B"

/-- `take_last_panic`: a record is reported once, since its magic is cleared with it. -/
def takeLastPanic (log : CrashLog) : Option String × CrashLog :=
  if log.magic ≠ crashMagic then
    (none, log)
  else
    let len := min log.len.toNat msgCap
    let slice := (List.ofFn log.msg).take len
    (some (message slice log.internalFree log.internalLargest), { log with magic := 0 })

/-! ### One record -/

/-- The fields, the magic number apart, are those of one call. -/
structure CrashLog.Holds (log : CrashLog) (call : Panic) : Prop where
  len : log.len.toNat = call.text.length
  msg : (List.ofFn log.msg).take call.text.length = call.text
  internalFree : log.internalFree = call.internalFree
  internalLargest : log.internalLargest = call.internalLargest

theorem CrashLog.Holds.message_eq {log : CrashLog} {call : Panic} (h : log.Holds call) :
    message ((List.ofFn log.msg).take (min log.len.toNat msgCap)) log.internalFree
      log.internalLargest = message call.text call.internalFree call.internalLargest := by
  have hle : call.text.length ≤ msgCap := by simp [Panic.text]
  rw [h.len, min_eq_left hle, h.msg, h.internalFree, h.internalLargest]

/-- Only the last write sets the magic number. -/
theorem magic_foldl {writes : List FieldWrite} (h : ∀ w ∈ writes, w ≠ .magic) (log : CrashLog) :
    (writes.foldl CrashLog.write log).magic = log.magic := by
  induction writes generalizing log with
  | nil => rfl
  | cons w writes ih =>
    rw [List.foldl_cons, ih fun w' hw' => h w' (List.mem_cons_of_mem _ hw')]
    have hw : w ≠ .magic := h w List.mem_cons_self
    cases w with
    | magic => exact absurd rfl hw
    | _ => rfl

theorem magic_notMem_bodyWrites (call : Panic) : ∀ w ∈ call.bodyWrites, w ≠ .magic := by
  intro w hw
  simp only [Panic.bodyWrites, Panic.msgWrites, List.mem_append, List.mem_map, List.mem_cons] at hw
  rcases hw with ⟨i, -, rfl⟩ | rfl | rfl | rfl | hw
  · exact nofun
  · exact nofun
  · exact nofun
  · exact nofun
  · cases hw

/-- A record that is cut off leaves the magic number as it was. -/
theorem magic_recordPanic {call : Panic} {performed : ℕ}
    (h : performed < call.fieldWrites.length) (log : CrashLog) :
    (recordPanic call performed log).magic = log.magic := by
  rw [Panic.fieldWrites, List.length_append, List.length_singleton] at h
  rw [recordPanic, Panic.fieldWrites, List.take_append_of_le_length (by omega)]
  exact magic_foldl (fun w hw => magic_notMem_bodyWrites call w (List.mem_of_mem_take hw)) log

/-- The bytes written at the places `is` are those of `buf`; the others stay. -/
theorem msg_foldl (buf : Fin msgCap → UInt8) (is : List (Fin msgCap)) (log : CrashLog) :
    (is.map fun i => FieldWrite.msg i (buf i)).foldl CrashLog.write log =
      { log with msg := fun i => if i ∈ is then buf i else log.msg i } := by
  induction is generalizing log with
  | nil => rfl
  | cons i is ih =>
    rw [List.map_cons, List.foldl_cons, ih]
    simp only [CrashLog.write, CrashLog.mk.injEq, true_and]
    funext j
    by_cases hj : j = i
    · subst hj
      simp
    · simp [hj]

/-- A record that is completed holds the data of its call alone. -/
theorem holds_recordPanic {call : Panic} {performed : ℕ}
    (h : call.fieldWrites.length ≤ performed) (log : CrashLog) :
    (recordPanic call performed log).magic = crashMagic ∧
      (recordPanic call performed log).Holds call := by
  have hwritten := written_format call.fragments
  have hlen : (format call.fragments).len = call.text.length := by
    rw [← FixedBuf.length_written, hwritten]
    rfl
  have hle : call.text.length ≤ msgCap := hlen ▸ (format call.fragments).len_le
  rw [recordPanic, List.take_of_length_le h, Panic.fieldWrites, Panic.bodyWrites, Panic.msgWrites,
    List.foldl_append, List.foldl_append, msg_foldl]
  refine ⟨rfl, ?_, ?_, rfl, rfl⟩
  · simp only [CrashLog.write, List.foldl_cons, List.foldl_nil, hlen]
    rw [UInt16.toNat_ofNat', Nat.mod_eq_of_lt]
    exact hle.trans_lt (by decide)
  · simp only [CrashLog.write, List.foldl_cons, List.foldl_nil]
    refine Eq.trans ?_ hwritten
    rw [FixedBuf.written, hlen]
    apply List.ext_getElem
    · simp
    · intro i h₁ h₂
      have hi : i < call.text.length := by
        simp only [List.length_take, List.length_ofFn] at h₁
        omega
      simp only [List.getElem_take, List.getElem_ofFn]
      rw [if_pos]
      exact List.mem_take_iff_getElem.mpr ⟨i, by simpa using ⟨hi, hi.trans_le hle⟩, by simp⟩

/-! ### Boots and panics -/

/-- What happens to the record over the resets of the device. -/
inductive CrashStep
  /-- A panic, of whose writes `performed` happen before a reset. -/
  | record (call : Panic) (performed : ℕ)
  | take

namespace CrashStep

/-- The record after one step. -/
def run (log : CrashLog) : CrashStep → CrashLog
  | .record call performed => recordPanic call performed log
  | .take => (takeLastPanic log).2

/-- All writes of the record happen. -/
def Completes : CrashStep → Prop
  | .record call performed => call.fieldWrites.length ≤ performed
  | .take => False

instance : DecidablePred Completes
  | .record call performed => inferInstanceAs (Decidable (call.fieldWrites.length ≤ performed))
  | .take => inferInstanceAs (Decidable False)

/-- What a step reports. -/
def report (log : CrashLog) : CrashStep → Option String
  | .record _ _ => none
  | .take => (takeLastPanic log).1

end CrashStep

/-- The record after some steps. -/
def runSteps (log : CrashLog) (steps : List CrashStep) : CrashLog := steps.foldl CrashStep.run log

/-- The messages reported on the way. -/
def reports (log : CrashLog) : List CrashStep → List String
  | [] => []
  | step :: steps => (step.report log).toList ++ reports (step.run log) steps

theorem runSteps_concat (log : CrashLog) (steps : List CrashStep) (step : CrashStep) :
    runSteps log (steps ++ [step]) = step.run (runSteps log steps) := by
  simp [runSteps]

theorem reports_concat (log : CrashLog) (steps : List CrashStep) (step : CrashStep) :
    reports log (steps ++ [step]) =
      reports log steps ++ (step.report (runSteps log steps)).toList := by
  induction steps generalizing log with
  | nil => simp [reports, runSteps]
  | cons first steps ih => simp [reports, ih, runSteps]

/-- A message that is reported is that of one call alone, which was completed before; and there are
no more reports than completed calls. -/
structure Reports (log : CrashLog) (steps : List CrashStep) : Prop where
  message_eq : ∀ before after, steps = before ++ .take :: after →
    ∀ msg, (takeLastPanic (runSteps log before)).1 = some msg →
      ∃ call performed, .record call performed ∈ before ∧ call.fieldWrites.length ≤ performed ∧
        msg = message call.text call.internalFree call.internalLargest
  length_le : (reports log steps).length ≤ steps.countP CrashStep.Completes

/-- A record that is cut off after some of its writes begins with the magic number cleared: every
record that was completed before has been taken. -/
def Undisturbed (log : CrashLog) (steps : List CrashStep) : Prop :=
  ∀ before call performed after, steps = before ++ .record call performed :: after →
    performed = 0 ∨ call.fieldWrites.length ≤ performed ∨ (runSteps log before).magic ≠ crashMagic

/-- While the magic number is set, the record is that of one completed call, and one report is
due. -/
structure Recorded (log : CrashLog) (steps : List CrashStep) : Prop where
  holds : (runSteps log steps).magic = crashMagic →
    ∃ call performed, .record call performed ∈ steps ∧ call.fieldWrites.length ≤ performed ∧
      (runSteps log steps).Holds call
  length_le : (reports log steps).length +
    (if (runSteps log steps).magic = crashMagic then 1 else 0) ≤ steps.countP CrashStep.Completes

section

variable {start : CrashLog} {steps : List CrashStep}

theorem Undisturbed.of_append {later : List CrashStep} (h : Undisturbed start (steps ++ later)) :
    Undisturbed start steps := by
  rintro before call performed after rfl
  exact h before call performed (after ++ later) (by simp)

theorem Recorded.record (h : Recorded start steps) (call : Panic) (performed : ℕ)
    (hcut : performed = 0 ∨ call.fieldWrites.length ≤ performed ∨
      (runSteps start steps).magic ≠ crashMagic) :
    Recorded start (steps ++ [.record call performed]) := by
  have hreports : reports start (steps ++ [.record call performed]) = reports start steps := by
    simp [reports_concat, CrashStep.report]
  by_cases hcomplete : call.fieldWrites.length ≤ performed
  · obtain ⟨hmagic, hholds⟩ := holds_recordPanic hcomplete (runSteps start steps)
    refine ⟨fun _ => ⟨call, performed, by simp, hcomplete, ?_⟩, ?_⟩
    · rw [runSteps_concat]
      exact hholds
    · have hone : [CrashStep.record call performed].countP CrashStep.Completes = 1 := by
        simp [CrashStep.Completes, hcomplete]
      have hle := h.length_le
      rw [hreports, List.countP_append, hone]
      split_ifs <;> omega
  · have hcount : (steps ++ [CrashStep.record call performed]).countP CrashStep.Completes =
        steps.countP CrashStep.Completes := by
      simp [List.countP_append, CrashStep.Completes, hcomplete]
    -- either nothing is written, or the magic number stays cleared
    by_cases hzero : performed = 0
    · subst hzero
      have hrun : runSteps start (steps ++ [.record call 0]) = runSteps start steps := by
        rw [runSteps_concat]
        rfl
      refine ⟨fun hmagic => ?_, ?_⟩
      · rw [hrun] at hmagic ⊢
        obtain ⟨call', performed', hmem, hle, hholds⟩ := h.holds hmagic
        exact ⟨call', performed', List.mem_append_left _ hmem, hle, hholds⟩
      · rw [hreports, hrun, hcount]
        exact h.length_le
    · have hclear := (hcut.resolve_left hzero).resolve_left hcomplete
      have hmagic : (runSteps start (steps ++ [.record call performed])).magic ≠ crashMagic := by
        rw [runSteps_concat]
        exact (magic_recordPanic (not_le.mp hcomplete) _).symm ▸ hclear
      refine ⟨fun h => absurd h hmagic, ?_⟩
      have hle := h.length_le
      rw [if_neg hclear] at hle
      rw [hreports, if_neg hmagic, hcount]
      exact hle

theorem takeLastPanic_of_ne {log : CrashLog} (h : log.magic ≠ crashMagic) :
    takeLastPanic log = (none, log) := if_pos h

theorem takeLastPanic_of_eq {log : CrashLog} (h : log.magic = crashMagic) :
    takeLastPanic log = (some (message ((List.ofFn log.msg).take (min log.len.toNat msgCap))
      log.internalFree log.internalLargest), { log with magic := 0 }) := if_neg (not_not_intro h)

theorem Recorded.take (h : Recorded start steps) : Recorded start (steps ++ [.take]) := by
  have hcount : (steps ++ [CrashStep.take]).countP CrashStep.Completes =
      steps.countP CrashStep.Completes := by
    rw [List.countP_append]
    rfl
  by_cases hmagic : (runSteps start steps).magic = crashMagic
  · have hclear : (runSteps start (steps ++ [.take])).magic ≠ crashMagic := by
      rw [runSteps_concat, CrashStep.run, takeLastPanic_of_eq hmagic]
      change (0 : UInt32) ≠ crashMagic
      decide
    refine ⟨fun h => absurd h hclear, ?_⟩
    have hle := h.length_le
    rw [if_pos hmagic] at hle
    rw [if_neg hclear, hcount, reports_concat, CrashStep.report, takeLastPanic_of_eq hmagic]
    simpa using hle
  · have hrun : runSteps start (steps ++ [.take]) = runSteps start steps := by
      rw [runSteps_concat, CrashStep.run, takeLastPanic_of_ne hmagic]
    refine ⟨fun h => absurd (hrun ▸ h) hmagic, ?_⟩
    rw [hrun, hcount, reports_concat, CrashStep.report, takeLastPanic_of_ne hmagic]
    simpa using h.length_le

theorem Undisturbed.recorded (h : Undisturbed start steps) (hstart : start.magic ≠ crashMagic) :
    Recorded start steps := by
  induction steps using List.reverseRecOn with
  | nil =>
    have hmagic : (runSteps start []).magic ≠ crashMagic := hstart
    exact ⟨fun h => absurd h hmagic, by simp [reports, if_neg hmagic]⟩
  | append_singleton steps step ih =>
    have hsteps := ih h.of_append
    cases step with
    | record call performed => exact hsteps.record call performed (h steps call performed [] rfl)
    | take => exact hsteps.take

end

/-- **A half-written record is not reported**, if no record that is cut off writes over one that has
not been taken: what is reported is the message of one call alone. -/
theorem halfWritten_not_reported (start : CrashLog) (hstart : start.magic ≠ crashMagic)
    (steps : List CrashStep) (h : Undisturbed start steps) : Reports start steps := by
  refine ⟨?_, ?_⟩
  · rintro before after rfl msg hmsg
    have hrecorded := h.of_append.recorded hstart
    by_cases hmagic : (runSteps start before).magic = crashMagic
    · obtain ⟨call, performed, hmem, hle, hholds⟩ := hrecorded.holds hmagic
      rw [takeLastPanic_of_eq hmagic, hholds.message_eq] at hmsg
      exact ⟨call, performed, hmem, hle, (Option.some.inj hmsg).symm⟩
    · rw [takeLastPanic_of_ne hmagic] at hmsg
      cases hmsg
  · exact (Nat.le_add_right _ _).trans (h.recorded hstart).length_le

/-- A cleared record. -/
def clearedLog : CrashLog := ⟨0, 0, 0, 0, fun _ => 0⟩

/-- A record that is cut off, one that is completed, and two boots. -/
theorem cutOff_reports :
    Reports clearedLog [.record ⟨["first"], 1, 1⟩ 3, .record ⟨["second"], 2, 2⟩ 300, .take, .take] := by
  refine halfWritten_not_reported _ (by decide) _ ?_
  intro before call performed after heq
  match before with
  | [] => exact Or.inr (Or.inr (by decide))
  | [_] =>
    obtain ⟨rfl, rfl⟩ : call = ⟨["second"], 2, 2⟩ ∧ performed = 300 := by
      simp only [List.cons_append, List.nil_append, List.cons.injEq, CrashStep.record.injEq] at heq
      exact ⟨heq.2.1.1.symm, heq.2.1.2.symm⟩
    exact Or.inr (Or.inl (by decide))
  | [_, _] => simp at heq
  | [_, _, _] => simp at heq
  | _ :: _ :: _ :: _ :: before => simp at heq

/-- The second of two panics is cut off after the first byte of its text: the report has that byte
with the heap numbers of the first panic. -/
theorem secondPanic_mixed :
    ¬Reports clearedLog [.record ⟨["a"], 1, 1⟩ 5, .record ⟨["b"], 2, 2⟩ 1, .take] := by
  intro h
  have hmixed : (takeLastPanic (runSteps clearedLog
      [.record ⟨["a"], 1, 1⟩ 5, .record ⟨["b"], 2, 2⟩ 1])).1 = some (message [98] 1 1) := by
    decide
  obtain ⟨call, performed, hmem, hle, heq⟩ := h.message_eq _ [] rfl _ hmixed
  rcases List.mem_cons.mp hmem with hcall | hmem
  · cases hcall
    exact absurd heq (by decide)
  · cases List.mem_singleton.mp hmem
    exact absurd hle (by decide)

end WhatsappEsp32
