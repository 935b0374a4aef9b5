import WhatsappEsp32.Lib.Dict
import WhatsappEsp32.Lib.RustStr
import WhatsappEsp32.Lib.Trace
import WhatsappEsp32.Storage.Record

/-!
# Composite keys

Two tables that are kept in memory only, the base keys and the sent messages, have the address or
chat and the message id in one string, with a colon between them.  Both parts can contain colons:
an address `user:dev@server` does, and the id is chosen by the peer.

* `IsAddress`: the addresses that the code documents, with their last colon before the `@`;
* `compositeKey_inj`: for such addresses the string determines its parts;
* `PairCall`, `PairTables`: the calls on the tables of the code;
* `SavedLast`, `StoredLast`: what a history of calls says about an address and an id;
* `lookup_baseKeys`, `lookup_storedMessages`: it is what the tables hold;
* `pairs_not_confused`: the keys differ, and every call is answered from its own pair.
-/

namespace WhatsappEsp32

open RustStr Trace

/-- `format!("{a}:{b}")`. -/
def compositeKey (a b : String) : String := a ++ ":" ++ b

/-- The string contains an `@`, and no colon after its first `@`. -/
def IsAddress (a : String) : Prop :=
  ∃ user server, a.toList = user ++ '@' :: server ∧ '@' ∉ user ∧ ':' ∉ server

/-- `user@server` or `user:dev@server`. -/
def Address := { a : String // IsAddress a }

/-- The first `@` ends the user, and the first colon after it ends the address. -/
theorem compositeKey_inj {a a' : String} (ha : IsAddress a) (ha' : IsAddress a') {m m' : String} :
    compositeKey a m = compositeKey a' m' ↔ a = a' ∧ m = m' := by
  constructor
  · intro h
    obtain ⟨user, server, hsplit, huser, hserver⟩ := ha
    obtain ⟨user', server', hsplit', huser', hserver'⟩ := ha'
    have hlist := congrArg String.toList h
    simp only [compositeKey, String.toList_append, hsplit, hsplit', List.append_assoc,
      List.cons_append] at hlist
    obtain ⟨rfl, hserverAndId⟩ := append_cons_inj_of_notMem_left huser huser' hlist
    have hcolon : ":".toList = [':'] := rfl
    rw [hcolon, List.singleton_append, List.singleton_append] at hserverAndId
    obtain ⟨rfl, hid⟩ := append_cons_inj_of_notMem_left hserver hserver' hserverAndId
    exact ⟨String.toList_inj.mp (hsplit.trans hsplit'.symm), String.toList_inj.mp hid⟩
  · rintro ⟨rfl, rfl⟩
    rfl

/-! ### The tables -/

/-- The base keys, and the sent messages with the time of sending. -/
structure PairTables where
  baseKeys : Dict String Bytes := ∅
  sentMessages : Dict String (Bytes × ℤ) := ∅

namespace PairTables

/-- The base key replaces an older one. -/
def saveBaseKey (s : PairTables) (address messageId : String) (baseKey : Bytes) : PairTables :=
  { s with baseKeys := s.baseKeys.insert (compositeKey address messageId) baseKey }

/-- Whether the saved base key is the current one. -/
def hasSameBaseKey (s : PairTables) (address messageId : String) (currentBaseKey : Bytes) : Bool :=
  (s.baseKeys.lookup (compositeKey address messageId)).any (· == currentBaseKey)

/-- The base key is removed. -/
def deleteBaseKey (s : PairTables) (address messageId : String) : PairTables :=
  { s with baseKeys := s.baseKeys.erase (compositeKey address messageId) }

/-- `now` is what the clock shows. -/
def storeSentMessage (s : PairTables) (chatJid messageId : String) (payload : Bytes) (now : ℤ) :
    PairTables :=
  { s with sentMessages := s.sentMessages.insert (compositeKey chatJid messageId) (payload, now) }

/-- The message is handed out and removed. -/
def takeSentMessage (s : PairTables) (chatJid messageId : String) : Option Bytes × PairTables :=
  ((s.sentMessages.lookup (compositeKey chatJid messageId)).map (·.1),
    { s with sentMessages := s.sentMessages.erase (compositeKey chatJid messageId) })

end PairTables

/-- A call of the two stores; `now` is the time at which it is made. -/
inductive PairCall
  | saveBaseKey (address : Address) (messageId : String) (baseKey : Bytes)
  | hasSameBaseKey (address : Address) (messageId : String) (currentBaseKey : Bytes)
  | deleteBaseKey (address : Address) (messageId : String)
  | storeSentMessage (chatJid : Address) (messageId : String) (payload : Bytes) (now : ℤ)
  | takeSentMessage (chatJid : Address) (messageId : String)

/-- What a call returns. -/
inductive PairAnswer
  | done
  | same (same : Bool)
  | taken (payload : Option Bytes)
  deriving DecidableEq

namespace PairCall

/-- The answer to a call, and the tables after it. -/
def exec (s : PairTables) : PairCall → PairAnswer × PairTables
  | saveBaseKey address messageId baseKey => (.done, s.saveBaseKey address.1 messageId baseKey)
  | hasSameBaseKey address messageId current =>
    (.same (s.hasSameBaseKey address.1 messageId current), s)
  | deleteBaseKey address messageId => (.done, s.deleteBaseKey address.1 messageId)
  | storeSentMessage chatJid messageId payload now =>
    (.done, s.storeSentMessage chatJid.1 messageId payload now)
  | takeSentMessage chatJid messageId =>
    let (payload, s) := s.takeSentMessage chatJid.1 messageId
    (.taken payload, s)

/-- The pair whose base key a call saves or deletes. -/
def baseKey? : PairCall → Option (Address × String)
  | saveBaseKey address messageId _ | deleteBaseKey address messageId => some (address, messageId)
  | _ => none

/-- The pair whose message a call stores or takes. -/
def sentMessage? : PairCall → Option (Address × String)
  | storeSentMessage chatJid messageId _ _ | takeSentMessage chatJid messageId =>
    some (chatJid, messageId)
  | _ => none

end PairCall

/-- The calls on empty tables, each with its answer, and the tables after them. -/
def runPairs (calls : List PairCall) : List (PairCall × PairAnswer) × PairTables :=
  logged PairCall.exec {} calls

/-! ### What a history says about a pair -/

/-- The base key was saved for the pair, and nothing was saved for it or deleted since. -/
def SavedLast (calls : List PairCall) (address : Address) (messageId : String) (baseKey : Bytes) :
    Prop :=
  Trace.Since (· = .saveBaseKey address messageId baseKey)
    (·.baseKey? ≠ some (address, messageId)) calls

/-- The message was stored for the pair, and nothing was stored for it or taken since. -/
def StoredLast (calls : List PairCall) (chatJid : Address) (messageId : String) (payload : Bytes)
    (now : ℤ) : Prop :=
  Trace.Since (· = .storeSentMessage chatJid messageId payload now)
    (·.sentMessage? ≠ some (chatJid, messageId)) calls

/-- The answer that a call should get after some others. -/
def PairAnswerOk (past : List (PairCall × PairAnswer)) : PairCall × PairAnswer → Prop
  | (.saveBaseKey .., answer) | (.deleteBaseKey .., answer) | (.storeSentMessage .., answer) =>
    answer = .done
  | (.hasSameBaseKey address messageId current, answer) =>
    ∃ same, answer = .same same ∧
      (same = true ↔ SavedLast (past.map Prod.fst) address messageId current)
  | (.takeSentMessage chatJid messageId, answer) =>
    ∃ payload?, answer = .taken payload? ∧ ∀ payload, payload? = some payload ↔
      ∃ now, StoredLast (past.map Prod.fst) chatJid messageId payload now

/-! ### What the tables hold -/

section Tables

variable {V : Type} {t : Dict String V} {a b : Address} {m n : String} {v w : V}

theorem compositeKey_eq_iff :
    compositeKey a.1 m = compositeKey b.1 n ↔ some (b, n) = some (a, m) := by
  rw [compositeKey_inj a.2 b.2, Option.some.injEq, Prod.mk.injEq]
  exact ⟨fun ⟨ha, hm⟩ => ⟨Subtype.ext ha.symm, hm.symm⟩, fun ⟨ha, hm⟩ => ⟨ha ▸ rfl, hm.symm⟩⟩

/-- An entry is the one that was inserted last, or that of another pair. -/
theorem lookup_insert_pair :
    (t.insert (compositeKey b.1 n) v).lookup (compositeKey a.1 m) = some w ↔
      (some (b, n) = some (a, m) ∧ v = w) ∨
        t.lookup (compositeKey a.1 m) = some w ∧ some (b, n) ≠ some (a, m) := by
  rw [AList.lookup_insert_eq]
  split_ifs with hkey
  · simp [compositeKey_eq_iff.mp hkey]
  · have hpair : some (b, n) ≠ some (a, m) := fun h => hkey (compositeKey_eq_iff.mpr h)
    simp only [hpair, false_and, false_or, ne_eq, not_false_eq_true, and_true]

theorem lookup_erase_pair :
    (t.erase (compositeKey b.1 n)).lookup (compositeKey a.1 m) = some w ↔
      t.lookup (compositeKey a.1 m) = some w ∧ some (b, n) ≠ some (a, m) := by
  rw [AList.lookup_erase_eq]
  split_ifs with hkey
  · simp [compositeKey_eq_iff.mp hkey]
  · have hpair : some (b, n) ≠ some (a, m) := fun h => hkey (compositeKey_eq_iff.mpr h)
    simp only [hpair, ne_eq, not_false_eq_true, and_true]

end Tables

theorem runPairs_concat (calls : List PairCall) (call : PairCall) :
    (runPairs (calls ++ [call])).2 = (call.exec (runPairs calls).2).2 := by
  rw [runPairs, logged_concat]
  rfl

/-- The base keys are those that were saved last. -/
theorem lookup_baseKeys (calls : List PairCall) (a : Address) (m : String) (baseKey : Bytes) :
    (runPairs calls).2.baseKeys.lookup (compositeKey a.1 m) = some baseKey ↔
      SavedLast calls a m baseKey := by
  induction calls using List.reverseRecOn with
  | nil =>
    refine ⟨fun h => ?_, fun h => absurd h not_since_nil⟩
    cases h
  | append_singleton calls call ih =>
    rw [runPairs_concat, SavedLast, since_append_singleton, ← SavedLast, ← ih]
    cases call with
    | saveBaseKey b n baseKey' =>
      simp only [PairCall.exec, PairTables.saveBaseKey, PairCall.baseKey?, lookup_insert_pair,
        Option.some.injEq, Prod.mk.injEq, PairCall.saveBaseKey.injEq, and_assoc]
    | deleteBaseKey b n =>
      simp only [PairCall.exec, PairTables.deleteBaseKey, PairCall.baseKey?, lookup_erase_pair,
        reduceCtorEq, false_or]
    | hasSameBaseKey | storeSentMessage | takeSentMessage =>
      simp only [PairCall.exec, PairTables.storeSentMessage, PairTables.takeSentMessage,
        PairCall.baseKey?, ne_eq, reduceCtorEq, not_false_eq_true, and_true, false_or]

/-- The messages are those that were stored last. -/
theorem lookup_storedMessages (calls : List PairCall) (a : Address) (m : String) (payload : Bytes)
    (now : ℤ) :
    (runPairs calls).2.sentMessages.lookup (compositeKey a.1 m) = some (payload, now) ↔
      StoredLast calls a m payload now := by
  induction calls using List.reverseRecOn with
  | nil =>
    refine ⟨fun h => ?_, fun h => absurd h not_since_nil⟩
    cases h
  | append_singleton calls call ih =>
    rw [runPairs_concat, StoredLast, since_append_singleton, ← StoredLast, ← ih]
    cases call with
    | storeSentMessage b n payload' now' =>
      simp only [PairCall.exec, PairTables.storeSentMessage, PairCall.sentMessage?,
        lookup_insert_pair, Option.some.injEq, Prod.mk.injEq, PairCall.storeSentMessage.injEq,
        and_assoc]
    | takeSentMessage b n =>
      simp only [PairCall.exec, PairTables.takeSentMessage, PairCall.sentMessage?,
        lookup_erase_pair, reduceCtorEq, false_or]
    | saveBaseKey | hasSameBaseKey | deleteBaseKey =>
      simp only [PairCall.exec, PairTables.saveBaseKey, PairTables.deleteBaseKey,
        PairCall.sentMessage?, ne_eq, reduceCtorEq, not_false_eq_true, and_true, false_or]

/-- A call gets the answer it should. -/
theorem pairAnswer_ok (calls : List PairCall) (call : PairCall) :
    PairAnswerOk (runPairs calls).1 (call, (call.exec (runPairs calls).2).1) := by
  have hpast : (runPairs calls).1.map Prod.fst = calls := map_fst_logged calls
  cases call with
  | saveBaseKey | deleteBaseKey | storeSentMessage => rfl
  | hasSameBaseKey a m current =>
    refine ⟨_, rfl, ?_⟩
    rw [hpast, ← lookup_baseKeys]
    simp only [PairTables.hasSameBaseKey, Option.any_eq_true, beq_iff_eq, exists_eq_right]
  | takeSentMessage a m =>
    refine ⟨_, rfl, fun payload => ?_⟩
    rw [hpast]
    simp only [← lookup_storedMessages, Option.map_eq_some_iff, Prod.exists]
    constructor
    · rintro ⟨_, now, h, rfl⟩
      exact ⟨now, h⟩
    · rintro ⟨now, h⟩
      exact ⟨payload, now, h, rfl⟩

/-- **Composite keys never confuse two messages**: different addresses and ids have different keys;
after any calls a base key is the same as the current one just when that was saved last for its own
address and id, and a message is handed out just when it was stored last for its own chat and id;
and so no message is handed out that was stored for another chat or id. -/
theorem pairs_not_confused :
    (∀ a a' : String, IsAddress a → IsAddress a' → ∀ m m',
      compositeKey a m = compositeKey a' m' → a = a' ∧ m = m') ∧
    ∀ calls : List PairCall,
      Always PairAnswerOk (runPairs calls).1 ∧
      ∀ past chat id payload rest,
        (runPairs calls).1 = past ++ (.takeSentMessage chat id, .taken (some payload)) :: rest →
        ∃ now, .storeSentMessage chat id payload now ∈ past.map Prod.fst := by
  refine ⟨fun a a' ha ha' m m' => (compositeKey_inj ha ha').mp, fun calls => ?_⟩
  have halways : Always PairAnswerOk (runPairs calls).1 := always_logged pairAnswer_ok calls
  refine ⟨halways, fun past chat id payload rest hlog => ?_⟩
  obtain ⟨payload?, hanswer, hstored⟩ := halways _ _ _ hlog
  obtain rfl := PairAnswer.taken.inj hanswer
  obtain ⟨now, hlast⟩ := (hstored payload).mp rfl
  obtain ⟨_, hmem, rfl⟩ := hlast.exists_mem
  exact ⟨now, hmem⟩

/-- The device `1:2@s`. -/
def deviceAddress : Address := ⟨"1:2@s", "1:2".toList, "s".toList, by decide, by decide, by decide⟩

/-- The user `1@s`. -/
def userAddress : Address := ⟨"1@s", "1".toList, "s".toList, by decide, by decide, by decide⟩

/-- A device and its user get messages and base keys whose parts read alike without their colons. -/
def colonCalls : List PairCall :=
  [.storeSentMessage deviceAddress "3" [8] 0, .storeSentMessage userAddress "2:3" [7] 0,
    .saveBaseKey deviceAddress "3" [1], .saveBaseKey userAddress "2:3" [2],
    .hasSameBaseKey deviceAddress "3" [1], .deleteBaseKey userAddress "2:3",
    .hasSameBaseKey userAddress "2:3" [2], .hasSameBaseKey deviceAddress "3" [1],
    .takeSentMessage deviceAddress "3", .takeSentMessage deviceAddress "3",
    .takeSentMessage userAddress "2:3"]

/-- An id with a colon does not make it another chat's message. -/
theorem colonInId_kept_apart :
    compositeKey "1:2@s" "3" ≠ compositeKey "1@s" "2:3" ∧
    Always PairAnswerOk (runPairs colonCalls).1 ∧
    (runPairs colonCalls).1.map Prod.snd =
      [.done, .done, .done, .done, .same true, .done, .same false, .same true,
        .taken (some [8]), .taken none, .taken (some [7])] ∧
    ∃ now, .storeSentMessage userAddress "2:3" [7] now ∈ colonCalls := by
  obtain ⟨hinj, hruns⟩ := pairs_not_confused
  obtain ⟨halways, hstored⟩ := hruns colonCalls
  refine ⟨fun h => ?_, halways, by decide, ?_⟩
  · have hsame := hinj _ _ deviceAddress.2 userAddress.2 _ _ h
    exact absurd hsame.1 (by decide)
  · obtain ⟨now, hmem⟩ := hstored ((runPairs colonCalls).1.take 10) userAddress "2:3" [7] [] rfl
    exact ⟨now, List.mem_of_mem_take (by simpa [List.map_take, runPairs, map_fst_logged] using hmem)⟩

end WhatsappEsp32
