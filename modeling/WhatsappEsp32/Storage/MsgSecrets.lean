import WhatsappEsp32.Lib.Dict
import WhatsappEsp32.Lib.Trace

/-!
# Message secrets

The rows of the `msg_secrets` table, which is kept in memory only: the secret of a message, until
when it is kept, and when its parent message was sent.  A row that is put again gets the new secret,
and a merge of the other two fields, which belongs to the client library.

* `putMsgSecrets`, `getStoredMsgSecret`, `deleteExpiredMsgSecrets`;
* `Surviving`, `StillKept`, `Since`: what a history of puts and expiries says about a key;
* `msgSecrets_kept`: a row is there exactly while some put of it is within its own window, holds the
  secret that was put last, and loses no window and no parent time.
-/

namespace WhatsappEsp32

/-- `MsgSecretKey`. -/
structure MsgSecretKey where
  chat : String
  sender : String
  msgId : String
  deriving DecidableEq

/-- `MsgSecretEntry` of the SDK: one row of a batch. -/
structure MsgSecretEntry (Secret : Type) where
  key : MsgSecretKey
  secret : Secret
  expiresAt : ℤ
  messageTs : ℤ
  deriving DecidableEq

/-- `MsgSecretValue`. -/
structure MsgSecretValue (Secret : Type) where
  secret : Secret
  expiresAt : ℤ
  messageTs : ℤ
  deriving DecidableEq

/-- `merge_msg_secret_expiry` and `merge_msg_secret_message_ts`, of the client library. -/
structure MsgSecretMerge where
  expiry : ℤ → ℤ → ℤ
  messageTs : ℤ → ℤ → ℤ

/-- A window of 0 never ends. -/
def retained (expiresAt cutoff : ℤ) : Bool := expiresAt = 0 || expiresAt > cutoff

theorem retained_iff {expiresAt cutoff : ℤ} :
    retained expiresAt cutoff ↔ expiresAt = 0 ∨ cutoff < expiresAt := by
  simp [retained]

/-- On conflict the longer window and a known parent time win. -/
structure MsgSecretMerge.Lawful (merge : MsgSecretMerge) : Prop where
  expiry_eq : ∀ a b, merge.expiry a b = a ∨ merge.expiry a b = b
  expiry_left : ∀ a b cutoff, retained a cutoff → retained (merge.expiry a b) cutoff
  expiry_right : ∀ a b cutoff, retained b cutoff → retained (merge.expiry a b) cutoff
  messageTs_eq : ∀ a b, merge.messageTs a b = a ∨ merge.messageTs a b = b
  messageTs_eq_zero : ∀ a b, merge.messageTs a b = 0 → a = 0 ∧ b = 0

variable {Secret : Type}

/-- `StoreInner::msg_secrets`. -/
abbrev MsgSecrets (Secret : Type) := Dict MsgSecretKey (MsgSecretValue Secret)

namespace MsgSecrets

variable (merge : MsgSecretMerge)

/-- One entry of a batch. -/
def putEntry (s : MsgSecrets Secret) (e : MsgSecretEntry Secret) : MsgSecrets Secret :=
  match s.lookup e.key with
  | some existing =>
    s.insert e.key ⟨e.secret, merge.expiry existing.expiresAt e.expiresAt,
      merge.messageTs existing.messageTs e.messageTs⟩
  | none => s.insert e.key ⟨e.secret, e.expiresAt, e.messageTs⟩

/-- Returns the length of the batch. -/
def putMsgSecrets (s : MsgSecrets Secret) (entries : List (MsgSecretEntry Secret)) :
    ℕ × MsgSecrets Secret :=
  (entries.length, entries.foldl (putEntry merge) s)

/-- The secret and the parent time, which is 0 when it is not known. -/
def getStoredMsgSecret (s : MsgSecrets Secret) (key : MsgSecretKey) : Option (Secret × ℤ) :=
  (s.lookup key).map fun value => (value.secret, value.messageTs)

/-- Returns how many rows were dropped, as a `u32`. -/
def deleteExpiredMsgSecrets (s : MsgSecrets Secret) (cutoff : ℤ) : ℕ × MsgSecrets Secret :=
  let kept := AList.retain (fun _ value => retained value.expiresAt cutoff) s
  ((s.size - kept.size) % 2 ^ 32, kept)

end MsgSecrets

open MsgSecrets

/-- The calls that change the table. -/
inductive MsgSecretCall (Secret : Type)
  | put (entries : List (MsgSecretEntry Secret))
  | deleteExpired (cutoff : ℤ)
  deriving DecidableEq

/-- The table after one call. -/
def MsgSecretCall.run (merge : MsgSecretMerge) (s : MsgSecrets Secret) :
    MsgSecretCall Secret → MsgSecrets Secret
  | .put entries => (s.putMsgSecrets merge entries).2
  | .deleteExpired cutoff => (s.deleteExpiredMsgSecrets cutoff).2

/-- The table after some calls on the empty one, which is what a store opens with. -/
def runMsgSecretCalls (merge : MsgSecretMerge) (calls : List (MsgSecretCall Secret)) :
    MsgSecrets Secret :=
  calls.foldl (MsgSecretCall.run merge) ∅

/-! ### What a history says about a key -/

/-- A call, or one entry of a batch. -/
inductive MsgSecretAct (Secret : Type)
  | put (e : MsgSecretEntry Secret)
  | expire (cutoff : ℤ)

/-- A call as single rows. -/
def MsgSecretCall.acts : MsgSecretCall Secret → List (MsgSecretAct Secret)
  | .put entries => entries.map .put
  | .deleteExpired cutoff => [.expire cutoff]

/-- The entry was put for the key, and every expiry since was within its window. -/
def Surviving (acts : List (MsgSecretAct Secret)) (key : MsgSecretKey) (e : MsgSecretEntry Secret) :
    Prop :=
  ∃ before after, acts = before ++ .put e :: after ∧ e.key = key ∧
    ∀ cutoff, .expire cutoff ∈ after → retained e.expiresAt cutoff

/-- Some put of `key` is inside its window. -/
def StillKept (acts : List (MsgSecretAct Secret)) (key : MsgSecretKey) : Prop := ∃ e, Surviving acts key e

/-- The entry was put for the key, and the key was kept ever since. -/
def Since (acts : List (MsgSecretAct Secret)) (key : MsgSecretKey) (e : MsgSecretEntry Secret) :
    Prop :=
  ∃ before after, acts = before ++ .put e :: after ∧ e.key = key ∧
    ∀ p, p <+: after → StillKept (before ++ .put e :: p) key

/-- The row that an act puts for `key`. -/
def MsgSecretAct.put? (key : MsgSecretKey) :
    MsgSecretAct Secret → Option (MsgSecretEntry Secret)
  | .put e => if e.key = key then some e else none
  | .expire _ => none

/-- The entry put last for a key. -/
def lastPut (acts : List (MsgSecretAct Secret)) (key : MsgSecretKey) :
    Option (MsgSecretEntry Secret) :=
  (acts.filterMap (MsgSecretAct.put? key)).getLast?

/-- What a row should hold: the last secret, the longest window of the puts since which the key was
kept, and one of their parent times, a known one if there is any. -/
structure Holds (acts : List (MsgSecretAct Secret)) (key : MsgSecretKey)
    (value : MsgSecretValue Secret) : Prop where
  secret : (lastPut acts key).map (·.secret) = some value.secret
  expiresAt : ∃ e, Surviving acts key e ∧ e.expiresAt = value.expiresAt
  longest : ∀ e cutoff, Since acts key e → retained e.expiresAt cutoff →
    retained value.expiresAt cutoff
  messageTs : ∃ e, Since acts key e ∧ e.messageTs = value.messageTs
  known : ∀ e, Since acts key e → value.messageTs = 0 → e.messageTs = 0

variable {acts : List (MsgSecretAct Secret)} {act : MsgSecretAct Secret} {key : MsgSecretKey}
  {e : MsgSecretEntry Secret}

theorem surviving_iff_since :
    Surviving acts key e ↔ Trace.Since (fun act => act = .put e ∧ e.key = key)
      (fun act => ∀ cutoff, act = .expire cutoff → retained e.expiresAt cutoff) acts := by
  constructor
  · rintro ⟨before, after, heq, hkey, hafter⟩
    exact ⟨before, _, after, heq, ⟨rfl, hkey⟩, fun act hmem cutoff hact => hafter cutoff (hact ▸ hmem)⟩
  · rintro ⟨before, _, after, heq, ⟨rfl, hkey⟩, hafter⟩
    exact ⟨before, after, heq, hkey, fun cutoff hmem => hafter _ hmem cutoff rfl⟩

theorem surviving_concat :
    Surviving (acts ++ [act]) key e ↔
      (act = .put e ∧ e.key = key) ∨
        (Surviving acts key e ∧ ∀ cutoff, act = .expire cutoff → retained e.expiresAt cutoff) := by
  rw [surviving_iff_since, surviving_iff_since, Trace.since_append_singleton]

theorem since_concat :
    Since (acts ++ [act]) key e ↔
      (act = .put e ∧ e.key = key) ∨ (Since acts key e ∧ StillKept (acts ++ [act]) key) := by
  constructor
  · rintro ⟨before, after, heq, hkey, hkept⟩
    rcases Trace.concat_eq_append_cons.mp heq with ⟨-, -, hput⟩ | ⟨rest, rfl, rfl⟩
    · exact .inl ⟨hput, hkey⟩
    · refine .inr ⟨⟨before, rest, rfl, hkey, fun p hp => ?_⟩, ?_⟩
      · exact hkept p (hp.trans (List.prefix_append _ _))
      · simpa using hkept _ (List.prefix_refl _)
  · rintro (⟨rfl, hkey⟩ | ⟨⟨before, after, rfl, hkey, hkept⟩, hact⟩)
    · refine ⟨acts, [], rfl, hkey, fun p hp => ?_⟩
      obtain rfl := List.prefix_nil.mp hp
      exact ⟨e, surviving_concat.mpr (.inl ⟨rfl, hkey⟩)⟩
    · refine ⟨before, after ++ [act], by simp, hkey, fun p hp => ?_⟩
      rcases List.prefix_concat_iff.mp hp with rfl | hp
      · simpa using hact
      · exact hkept p hp

theorem Surviving.kept (h : Surviving acts key e) : StillKept acts key := ⟨e, h⟩

theorem Since.kept (h : Since acts key e) : StillKept acts key := by
  obtain ⟨before, after, rfl, -, hkept⟩ := h
  exact hkept after (List.prefix_refl _)

theorem Surviving.since (h : Surviving acts key e) : Since acts key e := by
  obtain ⟨before, after, rfl, hkey, hafter⟩ := h
  refine ⟨before, after, rfl, hkey, fun p hp => ⟨e, before, p, rfl, hkey, fun cutoff hmem => ?_⟩⟩
  exact hafter cutoff (hp.subset hmem)

theorem kept_concat_put (h : StillKept acts key) (e : MsgSecretEntry Secret) :
    StillKept (acts ++ [.put e]) key := by
  obtain ⟨e', he'⟩ := h
  exact ⟨e', surviving_concat.mpr (.inr ⟨he', fun cutoff hact => nomatch hact⟩)⟩

theorem lastPut_concat (acts : List (MsgSecretAct Secret)) (act : MsgSecretAct Secret)
    (key : MsgSecretKey) :
    lastPut (acts ++ [act]) key = (act.put? key).or (lastPut acts key) := by
  rw [lastPut, List.filterMap_append]
  cases hput : act.put? key with
  | none => simp [hput, lastPut]
  | some e => simp [hput]

/-! ### One act -/

/-- A row is there exactly while its key is kept, and holds what it should. -/
def RowOk (acts : List (MsgSecretAct Secret)) (key : MsgSecretKey) :
    Option (MsgSecretValue Secret) → Prop
  | none => ¬StillKept acts key
  | some value => Holds acts key value

theorem Holds.kept {value : MsgSecretValue Secret} (h : Holds acts key value) : StillKept acts key := by
  obtain ⟨e, he, -⟩ := h.expiresAt
  exact he.kept

/-- The puts since which a key is kept after one more put of it. -/
theorem since_put (hkey : e.key = key) {e' : MsgSecretEntry Secret} :
    Since (acts ++ [.put e]) key e' ↔ e' = e ∨ Since acts key e' := by
  rw [since_concat]
  constructor
  · rintro (⟨heq, -⟩ | ⟨hsince, -⟩)
    · exact .inl (by injection heq with heq; exact heq.symm)
    · exact .inr hsince
  · rintro (rfl | hsince)
    · exact .inl ⟨rfl, hkey⟩
    · exact .inr ⟨hsince, kept_concat_put hsince.kept e⟩

/-- A first put. -/
theorem holds_new (h : ¬StillKept acts key) (hkey : e.key = key) :
    Holds (acts ++ [.put e]) key ⟨e.secret, e.expiresAt, e.messageTs⟩ := by
  have hsince : ∀ e', Since (acts ++ [.put e]) key e' → e' = e := by
    intro e' he'
    rcases (since_put hkey).mp he' with rfl | he'
    · rfl
    · exact absurd he'.kept h
  have hself : Surviving (acts ++ [.put e]) key e := surviving_concat.mpr (.inl ⟨rfl, hkey⟩)
  refine ⟨?_, ⟨e, hself, rfl⟩, ?_, ⟨e, hself.since, rfl⟩, ?_⟩
  · simp [lastPut_concat, MsgSecretAct.put?, hkey]
  · intro e' cutoff he' hret
    rwa [hsince e' he'] at hret
  · intro e' he' hzero
    rw [hsince e' he']
    exact hzero

variable {merge : MsgSecretMerge}

/-- A put on a row that is there. -/
theorem Holds.putAgain {value : MsgSecretValue Secret} (h : Holds acts key value)
    (hmerge : merge.Lawful) (hkey : e.key = key) :
    Holds (acts ++ [.put e]) key
      ⟨e.secret, merge.expiry value.expiresAt e.expiresAt,
        merge.messageTs value.messageTs e.messageTs⟩ := by
  have hself : Surviving (acts ++ [.put e]) key e := surviving_concat.mpr (.inl ⟨rfl, hkey⟩)
  refine ⟨?_, ?_, ?_, ?_, ?_⟩
  · simp [lastPut_concat, MsgSecretAct.put?, hkey]
  · -- the merged window is that of the row or that of the entry
    rcases hmerge.expiry_eq value.expiresAt e.expiresAt with heq | heq
    · obtain ⟨old, hold, hexp⟩ := h.expiresAt
      exact ⟨old, surviving_concat.mpr (.inr ⟨hold, fun cutoff hact => nomatch hact⟩),
        hexp.trans heq.symm⟩
    · exact ⟨e, hself, heq.symm⟩
  · intro e' cutoff he' hret
    rcases (since_put hkey).mp he' with rfl | he'
    · exact hmerge.expiry_right _ _ _ hret
    · exact hmerge.expiry_left _ _ _ (h.longest e' cutoff he' hret)
  · rcases hmerge.messageTs_eq value.messageTs e.messageTs with heq | heq
    · obtain ⟨old, hold, hts⟩ := h.messageTs
      exact ⟨old, (since_put hkey).mpr (.inr hold), hts.trans heq.symm⟩
    · exact ⟨e, hself.since, heq.symm⟩
  · intro e' he' hzero
    obtain ⟨hvalue, hentry⟩ := hmerge.messageTs_eq_zero _ _ hzero
    rcases (since_put hkey).mp he' with rfl | he'
    · exact hentry
    · exact h.known e' he' hvalue

/-- A put of another key. -/
theorem RowOk.put_other {row : Option (MsgSecretValue Secret)} (h : RowOk acts key row)
    (hkey : e.key ≠ key) : RowOk (acts ++ [.put e]) key row := by
  have hsurviving : ∀ e', Surviving (acts ++ [.put e]) key e' ↔ Surviving acts key e' := by
    intro e'
    rw [surviving_concat]
    constructor
    · rintro (⟨heq, hkey'⟩ | ⟨hold, -⟩)
      · injection heq with heq
        exact absurd (heq ▸ hkey') hkey
      · exact hold
    · exact fun hold => .inr ⟨hold, fun cutoff hact => nomatch hact⟩
  have hsince : ∀ e', Since (acts ++ [.put e]) key e' ↔ Since acts key e' := by
    intro e'
    rw [since_concat]
    constructor
    · rintro (⟨heq, hkey'⟩ | ⟨hold, -⟩)
      · injection heq with heq
        exact absurd (heq ▸ hkey') hkey
      · exact hold
    · exact fun hold => .inr ⟨hold, kept_concat_put hold.kept e⟩
  cases row with
  | none => exact fun ⟨e', he'⟩ => h ⟨e', (hsurviving e').mp he'⟩
  | some value =>
    have hlast : lastPut (acts ++ [.put e]) key = lastPut acts key := by
      simp [lastPut_concat, MsgSecretAct.put?, hkey]
    exact
      { secret := hlast ▸ h.secret
        expiresAt := by simpa only [hsurviving] using h.expiresAt
        longest := by simpa only [hsince] using h.longest
        messageTs := by simpa only [hsince] using h.messageTs
        known := by simpa only [hsince] using h.known }

/-- An expiry drops a row exactly if it ends the window of every put. -/
theorem RowOk.expire {row : Option (MsgSecretValue Secret)} (h : RowOk acts key row) (cutoff : ℤ) :
    RowOk (acts ++ [.expire cutoff]) key (row.filter fun value => retained value.expiresAt cutoff) := by
  have hsurviving : ∀ e', Surviving (acts ++ [.expire cutoff]) key e' ↔
      Surviving acts key e' ∧ retained e'.expiresAt cutoff := by
    intro e'
    rw [surviving_concat]
    constructor
    · rintro (⟨heq, -⟩ | ⟨hold, hret⟩)
      · exact nomatch heq
      · exact ⟨hold, hret cutoff rfl⟩
    · rintro ⟨hold, hret⟩
      refine .inr ⟨hold, fun c hact => ?_⟩
      injection hact with hact
      exact hact ▸ hret
  cases row with
  | none => exact fun ⟨e', he'⟩ => h ⟨e', ((hsurviving e').mp he').1⟩
  | some value =>
    by_cases hret : retained value.expiresAt cutoff
    · have hfilter : (some value).filter (fun value => retained value.expiresAt cutoff) = some value := by
        simp [Option.filter_some, hret]
      rw [hfilter]
      -- the put with the longest window is still within it
      obtain ⟨longest, hlongest, hexp⟩ := h.expiresAt
      have hstays : Surviving (acts ++ [.expire cutoff]) key longest :=
        (hsurviving longest).mpr ⟨hlongest, hexp ▸ hret⟩
      have hsince : ∀ e', Since (acts ++ [.expire cutoff]) key e' ↔ Since acts key e' := by
        intro e'
        rw [since_concat]
        constructor
        · rintro (⟨heq, -⟩ | ⟨hold, -⟩)
          · exact nomatch heq
          · exact hold
        · exact fun hold => .inr ⟨hold, hstays.kept⟩
      have hlast : lastPut (acts ++ [.expire cutoff]) key = lastPut acts key := by
        simp [lastPut_concat, MsgSecretAct.put?]
      exact
        { secret := hlast ▸ h.secret
          expiresAt := ⟨longest, hstays, hexp⟩
          longest := by simpa only [hsince] using h.longest
          messageTs := by simpa only [hsince] using h.messageTs
          known := by simpa only [hsince] using h.known }
    · have hfilter : (some value).filter (fun value => retained value.expiresAt cutoff) = none := by
        simp [Option.filter_some, hret]
      rw [hfilter]
      rintro ⟨e', he'⟩
      obtain ⟨hold, hret'⟩ := (hsurviving e').mp he'
      exact hret (h.longest e' cutoff hold.since hret')

/-! ### Whole runs -/

/-- The effect of an act on the table. -/
def MsgSecretAct.apply (merge : MsgSecretMerge) (s : MsgSecrets Secret) :
    MsgSecretAct Secret → MsgSecrets Secret
  | .put e => s.putEntry merge e
  | .expire cutoff => (s.deleteExpiredMsgSecrets cutoff).2

theorem lookup_putEntry_ne (s : MsgSecrets Secret) (hkey : e.key ≠ key) :
    (s.putEntry merge e).lookup key = s.lookup key := by
  unfold putEntry
  cases s.lookup e.key <;> simp [Ne.symm hkey]

theorem RowOk.step {s : MsgSecrets Secret} (h : RowOk acts key (s.lookup key))
    (hmerge : merge.Lawful) (act : MsgSecretAct Secret) :
    RowOk (acts ++ [act]) key ((act.apply merge s).lookup key) := by
  cases act with
  | put e =>
    rw [MsgSecretAct.apply]
    by_cases hkey : e.key = key
    · subst hkey
      unfold putEntry
      cases hrow : s.lookup e.key with
      | none =>
        rw [hrow] at h
        rw [AList.lookup_insert]
        exact holds_new h rfl
      | some value =>
        rw [hrow] at h
        rw [AList.lookup_insert]
        exact Holds.putAgain h hmerge rfl
    · rw [lookup_putEntry_ne s hkey]
      exact h.put_other hkey
  | expire cutoff =>
    rw [MsgSecretAct.apply, deleteExpiredMsgSecrets, AList.lookup_retain]
    exact h.expire cutoff

theorem RowOk.steps {s : MsgSecrets Secret} (h : RowOk acts key (s.lookup key))
    (hmerge : merge.Lawful) (more : List (MsgSecretAct Secret)) :
    RowOk (acts ++ more) key ((more.foldl (MsgSecretAct.apply merge) s).lookup key) := by
  induction more generalizing acts s with
  | nil => simpa using h
  | cons act more ih => simpa using ih (h.step hmerge act)

theorem run_eq_foldl_acts (s : MsgSecrets Secret) (call : MsgSecretCall Secret) :
    call.run merge s = call.acts.foldl (MsgSecretAct.apply merge) s := by
  cases call with
  | put entries =>
    rw [MsgSecretCall.run, putMsgSecrets, MsgSecretCall.acts, List.foldl_map]
    rfl
  | deleteExpired cutoff => rfl

theorem rowOk_run (hmerge : merge.Lawful) (calls : List (MsgSecretCall Secret)) (key : MsgSecretKey) :
    RowOk (calls.flatMap MsgSecretCall.acts) key ((runMsgSecretCalls merge calls).lookup key) := by
  induction calls using List.reverseRecOn with
  | nil =>
    rintro ⟨e, before, after, heq, -⟩
    exact List.append_ne_nil_of_right_ne_nil _ (List.cons_ne_nil _ _) heq.symm
  | append_singleton calls call ih =>
    rw [runMsgSecretCalls, List.foldl_concat, ← runMsgSecretCalls, run_eq_foldl_acts,
      List.flatMap_append, List.flatMap_singleton]
    exact ih.steps hmerge call.acts

/-- **A message secret is found exactly while some put of it is within its window.**  It is the one
that was put last, the row ends with the longest window of the puts since which it is there, and
the parent time of none of these is lost. -/
theorem msgSecrets_kept (hmerge : merge.Lawful) (calls : List (MsgSecretCall Secret))
    (key : MsgSecretKey) :
    (getStoredMsgSecret (runMsgSecretCalls merge calls) key = none ↔
      ¬StillKept (calls.flatMap MsgSecretCall.acts) key) ∧
    ∀ secret messageTs,
      getStoredMsgSecret (runMsgSecretCalls merge calls) key = some (secret, messageTs) →
        ∃ expiresAt,
          (runMsgSecretCalls merge calls).lookup key = some ⟨secret, expiresAt, messageTs⟩ ∧
          Holds (calls.flatMap MsgSecretCall.acts) key ⟨secret, expiresAt, messageTs⟩ := by
  have hrow := rowOk_run hmerge calls key
  rw [getStoredMsgSecret]
  cases hlookup : (runMsgSecretCalls merge calls).lookup key with
  | none =>
    rw [hlookup] at hrow
    exact ⟨⟨fun _ => hrow, fun _ => rfl⟩, fun _ _ h => nomatch h⟩
  | some value =>
    rw [hlookup] at hrow
    refine ⟨⟨?_, fun h => absurd (Holds.kept hrow) h⟩, fun secret messageTs h => ?_⟩
    · intro h
      cases h
    · obtain ⟨rfl, rfl⟩ : value.secret = secret ∧ value.messageTs = messageTs := by simpa using h
      exact ⟨value.expiresAt, rfl, hrow⟩

/-- The longer window and the first known parent time. -/
def MsgSecretMerge.longest : MsgSecretMerge where
  expiry a b := if a = 0 ∨ b = 0 then 0 else max a b
  messageTs a b := if a = 0 then b else a

theorem MsgSecretMerge.longest_lawful : MsgSecretMerge.longest.Lawful where
  expiry_eq a b := by
    simp only [longest]
    split_ifs <;> omega
  expiry_left a b cutoff h := by
    rw [retained_iff] at h ⊢
    simp only [longest]
    split_ifs <;> omega
  expiry_right a b cutoff h := by
    rw [retained_iff] at h ⊢
    simp only [longest]
    split_ifs <;> omega
  messageTs_eq a b := by
    simp only [longest]
    split_ifs <;> simp
  messageTs_eq_zero a b h := by
    simp only [longest] at h
    split_ifs at h <;> omega

/-- A secret that is put again with a shorter window stays for the longer one. -/
theorem shortened_secret_kept :
    let key : MsgSecretKey := ⟨"c", "s", "m"⟩
    let calls : List (MsgSecretCall ℕ) :=
      [.put [⟨key, 1, 100, 0⟩], .put [⟨key, 2, 200, 50⟩, ⟨key, 3, 100, 0⟩], .deleteExpired 100]
    getStoredMsgSecret (runMsgSecretCalls .longest calls) key = some (3, 50) ∧
    (∃ expiresAt, (runMsgSecretCalls .longest calls).lookup key = some ⟨3, expiresAt, 50⟩ ∧
      Holds (calls.flatMap MsgSecretCall.acts) key ⟨3, expiresAt, 50⟩) ∧
    ¬StillKept ((calls ++ [MsgSecretCall.deleteExpired 200]).flatMap MsgSecretCall.acts) key := by
  intro key calls
  have hfound : getStoredMsgSecret (runMsgSecretCalls .longest calls) key = some (3, 50) := by decide
  have hdropped : getStoredMsgSecret
      (runMsgSecretCalls .longest (calls ++ [.deleteExpired 200])) key = none := by decide
  exact ⟨hfound, (msgSecrets_kept MsgSecretMerge.longest_lawful calls key).2 3 50 hfound,
    (msgSecrets_kept MsgSecretMerge.longest_lawful _ key).1.mp hdropped⟩

end WhatsappEsp32
