import WhatsappEsp32.Lib.Trace
import WhatsappEsp32.Storage.CompositeKey

/-!
# Sent messages

The messages that were sent are kept in memory, for a peer that asks for one again.  A message is
handed out by `take_sent_message`, which removes it, and is dropped when it is too old, by a clock
that may be set while the messages wait.

* `deleteExpiredSentMessages`, and `SentCall.exec`: the three calls;
* `Unclaimed`: what a history of calls says about a message;
* `lookup_sentMessages`: it is what the table holds;
* `sentMessages_once`: every call is answered by what is unclaimed, and nothing is handed out twice.
-/

namespace WhatsappEsp32

open Trace

namespace PairTables

/-- Returns how many rows were dropped, as a `u32`. -/
def deleteExpiredSentMessages (s : PairTables) (cutoffTimestamp : ℤ) : ℕ × PairTables :=
  let kept := AList.retain (fun _ v => v.2 ≥ cutoffTimestamp) s.sentMessages
  ((s.sentMessages.size - kept.size) % 2 ^ 32, { s with sentMessages := kept })

end PairTables

/-- A call about sent messages; `now` is what the clock shows. -/
inductive SentCall
  | store (chatJid messageId : String) (payload : Bytes) (now : ℤ)
  | take (chatJid messageId : String)
  | deleteExpired (cutoffTimestamp : ℤ)
  deriving DecidableEq

/-- What a call answers. -/
inductive SentAnswer
  | stored
  | taken (payload : Option Bytes)
  | deleted (rows : ℕ)
  deriving DecidableEq

namespace SentCall

/-- One call: its answer, and the tables after it. -/
def exec (s : PairTables) : SentCall → SentAnswer × PairTables
  | store chatJid messageId payload now =>
    (.stored, s.storeSentMessage chatJid messageId payload now)
  | take chatJid messageId =>
    let (payload, s) := s.takeSentMessage chatJid messageId
    (.taken payload, s)
  | deleteExpired cutoffTimestamp =>
    let (rows, s) := s.deleteExpiredSentMessages cutoffTimestamp
    (.deleted rows, s)

/-- The message that a call names. -/
def key? : SentCall → Option String
  | store chatJid messageId _ _ => some (compositeKey chatJid messageId)
  | take chatJid messageId => some (compositeKey chatJid messageId)
  | deleteExpired _ => none

end SentCall

/-- The calls on empty tables, each with its answer, and the tables after them. -/
def runSent (calls : List SentCall) : List (SentCall × SentAnswer) × PairTables :=
  logged SentCall.exec {} calls

/-! ### What a history says about a message -/

/-- A call leaves a message of a key alone that was stored at a time. -/
def SentCall.Spares (key : String) (now : ℤ) (call : SentCall) : Prop :=
  call.key? ≠ some key ∧ ∀ cutoff, call = .deleteExpired cutoff → cutoff ≤ now

/-- The message was stored under the key at the time, and every call since has left it alone. -/
def Unclaimed (calls : List SentCall) (key : String) (payload : Bytes) (now : ℤ) : Prop :=
  ∃ before chatJid messageId after,
    calls = before ++ .store chatJid messageId payload now :: after ∧
    compositeKey chatJid messageId = key ∧ ∀ call ∈ after, call.Spares key now

/-- The answer that a call should get after some others. -/
def SentAnswerOk (past : List (SentCall × SentAnswer)) : SentCall × SentAnswer → Prop
  | (.store .., answer) => answer = .stored
  | (.take chatJid messageId, answer) =>
    ∃ payload?, answer = .taken payload? ∧ ∀ payload, payload? = some payload ↔
      ∃ now, Unclaimed (past.map Prod.fst) (compositeKey chatJid messageId) payload now
  | (.deleteExpired cutoff, answer) =>
    answer = .deleted ({key | ∃ payload now, Unclaimed (past.map Prod.fst) key payload now ∧
      now < cutoff}.ncard % 2 ^ 32)

/-- The payload that a caller is given. -/
def SentAnswer.payload? : SentAnswer → Option Bytes
  | .taken payload? => payload?
  | _ => none

/-- A message of the key was handed out. -/
def handsOut (key : String) (e : SentCall × SentAnswer) : Bool :=
  e.1.key? = some key && e.2.payload?.isSome

/-- A message of the key was stored. -/
def stores (key : String) (e : SentCall × SentAnswer) : Bool :=
  e.1.key? = some key && e.2 = .stored

variable {calls : List SentCall} {call : SentCall} {key : String} {payload : Bytes} {now : ℤ}

theorem runSent_concat (calls : List SentCall) (call : SentCall) :
    runSent (calls ++ [call]) =
      ((runSent calls).1 ++ [(call, (call.exec (runSent calls).2).1)],
        (call.exec (runSent calls).2).2) :=
  logged_concat calls call

theorem map_fst_runSent (calls : List SentCall) : (runSent calls).1.map Prod.fst = calls :=
  map_fst_logged calls

theorem unclaimed_iff_since :
    Unclaimed calls key payload now ↔
      Trace.Since (fun call => ∃ chatJid messageId, call = .store chatJid messageId payload now ∧
        compositeKey chatJid messageId = key) (·.Spares key now) calls := by
  constructor
  · rintro ⟨before, chatJid, messageId, after, heq, hkey, hafter⟩
    exact ⟨before, _, after, heq, ⟨chatJid, messageId, rfl, hkey⟩, hafter⟩
  · rintro ⟨before, _, after, heq, ⟨chatJid, messageId, rfl, hkey⟩, hafter⟩
    exact ⟨before, chatJid, messageId, after, heq, hkey, hafter⟩

/-- A message is unclaimed after one more call if that call stored it, or spared it. -/
theorem unclaimed_concat :
    Unclaimed (calls ++ [call]) key payload now ↔
      (∃ chatJid messageId, call = .store chatJid messageId payload now ∧
        compositeKey chatJid messageId = key) ∨
      Unclaimed calls key payload now ∧ call.Spares key now := by
  rw [unclaimed_iff_since, unclaimed_iff_since, since_append_singleton]

/-! ### What the table holds -/

/-- The table holds the unclaimed messages. -/
theorem lookup_sentMessages (calls : List SentCall) (key : String) (payload : Bytes) (now : ℤ) :
    (runSent calls).2.sentMessages.lookup key = some (payload, now) ↔
      Unclaimed calls key payload now := by
  induction calls using List.reverseRecOn with
  | nil =>
    constructor
    · intro h
      cases h
    · rintro ⟨before, chatJid, messageId, after, heq, -⟩
      simp at heq
  | append_singleton calls call ih =>
    rw [runSent_concat, unclaimed_concat, ← ih]
    -- a call makes the entry, or spares it, or does neither
    cases call with
    | store chatJid messageId payload' now' =>
      simp only [SentCall.exec, PairTables.storeSentMessage, AList.lookup_insert_eq,
        SentCall.store.injEq, SentCall.Spares, SentCall.key?, Option.some.injEq, ne_eq, reduceCtorEq,
        false_implies, implies_true, and_true]
      split_ifs with hkey
      · subst hkey
        simp only [not_true_eq_false, and_false, or_false, Option.some.injEq, Prod.mk.injEq]
        constructor
        · rintro ⟨rfl, rfl⟩
          exact ⟨chatJid, messageId, ⟨rfl, rfl, rfl, rfl⟩, rfl⟩
        · rintro ⟨_, _, ⟨-, -, hpayload, hnow⟩, -⟩
          exact ⟨hpayload, hnow⟩
      · constructor
        · exact fun h => .inr ⟨h, fun heq => hkey heq.symm⟩
        · rintro (⟨_, _, ⟨rfl, rfl, -, -⟩, heq⟩ | ⟨h, -⟩)
          · exact absurd heq.symm hkey
          · exact h
    | take chatJid messageId =>
      simp only [SentCall.exec, PairTables.takeSentMessage, AList.lookup_erase_eq, SentCall.Spares,
        SentCall.key?, Option.some.injEq, ne_eq, reduceCtorEq, false_and, exists_false, false_or,
        false_implies, implies_true, and_true]
      split_ifs with hkey
      · simp [hkey]
      · exact ⟨fun h => ⟨h, fun heq => hkey heq.symm⟩, And.left⟩
    | deleteExpired cutoff =>
      simp only [SentCall.exec, PairTables.deleteExpiredSentMessages, AList.lookup_retain,
        Option.filter_eq_some_iff, SentCall.Spares, SentCall.key?, decide_eq_true_eq, ge_iff_le,
        reduceCtorEq, false_and, exists_false, false_or, ne_eq, not_false_eq_true, true_and,
        SentCall.deleteExpired.injEq, forall_eq']

/-- A call gets the answer it should. -/
theorem sentAnswer_ok (calls : List SentCall) (call : SentCall) :
    SentAnswerOk (runSent calls).1 (call, (call.exec (runSent calls).2).1) := by
  cases call with
  | store chatJid messageId payload now => rfl
  | take chatJid messageId =>
    refine ⟨_, rfl, fun payload => ?_⟩
    simp only [map_fst_runSent, Option.map_eq_some_iff, Prod.exists,
      lookup_sentMessages]
    exact ⟨fun ⟨_, now, h, hp⟩ => ⟨now, hp ▸ h⟩, fun ⟨now, h⟩ => ⟨payload, now, h, rfl⟩⟩
  | deleteExpired cutoff =>
    have hcount := AList.size_sub_retain (fun _ v => decide (v.2 ≥ cutoff))
      (runSent calls).2.sentMessages
    have hkeys : ∀ key, (∃ v, (runSent calls).2.sentMessages.lookup key = some v ∧
        decide (v.2 ≥ cutoff) = false) ↔
        ∃ payload now, Unclaimed calls key payload now ∧ now < cutoff := by
      intro key
      simp only [Prod.exists, lookup_sentMessages, decide_eq_false_iff_not, ge_iff_le, not_le]
    simp only [hkeys] at hcount
    show SentAnswer.deleted _ = _
    rw [map_fst_runSent, hcount]

/-! ### Once -/

/-- What is handed out or still held was stored. -/
theorem handedOut_add_held_le (calls : List SentCall) (key : String) :
    (runSent calls).1.countP (handsOut key) +
        (if ((runSent calls).2.sentMessages.lookup key).isSome then 1 else 0) ≤
      (runSent calls).1.countP (stores key) := by
  induction calls using List.reverseRecOn with
  | nil => exact Nat.zero_le _
  | append_singleton calls call ih =>
    rw [runSent_concat, List.countP_append, List.countP_append, List.countP_singleton,
      List.countP_singleton]
    cases call with
    | store chatJid messageId payload now =>
      -- a message that is replaced is counted by its own store
      simp only [handsOut, stores, SentCall.exec, SentCall.key?, SentAnswer.payload?,
        PairTables.storeSentMessage, AList.lookup_insert_eq, Option.some.injEq]
      by_cases hkey : key = compositeKey chatJid messageId
      · rw [if_pos hkey]
        simp only [hkey, decide_true, Option.isSome_none, Bool.and_false, Bool.true_and, if_true,
          Option.isSome_some, Bool.false_eq_true, if_false]
        rw [hkey] at ih
        omega
      · rw [if_neg hkey]
        simpa [@eq_comm _ (compositeKey chatJid messageId), hkey] using ih
    | take chatJid messageId =>
      simp only [handsOut, stores, SentCall.exec, SentCall.key?, SentAnswer.payload?,
        PairTables.takeSentMessage, AList.lookup_erase_eq, Option.some.injEq]
      by_cases hkey : key = compositeKey chatJid messageId
      · subst hkey
        simpa using ih
      · rw [if_neg hkey]
        simpa [@eq_comm _ (compositeKey chatJid messageId), hkey] using ih
    | deleteExpired cutoff =>
      simp only [handsOut, stores, SentCall.exec, SentCall.key?,
        PairTables.deleteExpiredSentMessages, AList.lookup_retain]
      have hle : (if (((runSent calls).2.sentMessages.lookup key).filter
            fun v => decide (v.2 ≥ cutoff)).isSome then 1 else 0) ≤
          if ((runSent calls).2.sentMessages.lookup key).isSome then 1 else 0 := by
        cases (runSent calls).2.sentMessages.lookup key with
        | none => exact le_rfl
        | some v =>
          rw [Option.isSome_some, if_pos rfl]
          split_ifs <;> omega
      simp only [reduceCtorEq, decide_false, Bool.false_and, Bool.false_eq_true, if_false]
      omega

/-- **A sent message is handed out once**: a call finds just the message that was stored last under
its key, if that was not taken and every expiry since reached back less far; an expiry counts what it
drops; and no key is handed out more often than it was stored. -/
theorem sentMessages_once (calls : List SentCall) :
    Always SentAnswerOk (runSent calls).1 ∧
      ∀ key, (runSent calls).1.countP (handsOut key) ≤ (runSent calls).1.countP (stores key) := by
  refine ⟨always_logged sentAnswer_ok calls, fun key => ?_⟩
  exact (Nat.le_add_right _ _).trans (handedOut_add_held_le calls key)

end WhatsappEsp32
