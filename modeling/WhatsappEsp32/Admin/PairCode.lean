import WhatsappEsp32.Admin.DeviceStatus

/-!
# Linking codes

A linking code is asked for with `begin_pair_code` and comes, or fails to come, much later.  In the
meantime the device can have connected, or the code have expired and another attempt begun.

* `StatusOp`, `runOps`: any operations on the device status, with the attempts begun so far;
* `Attempt.Live`: an attempt whose code is being generated or is shown, told from what happened
  since it was begun;
* `pairCode_exclusive`: there is one of them at most, and no other attempt changes anything.
-/

namespace WhatsappEsp32

/-- The operations that change the device status. -/
inductive StatusOp
  | setQrCode (code : String)
  | clearQrCode
  | setConnected (pn lid : Option String)
  | setDisconnected
  | setLoggedOut
  | beginPairCode
  | completePairCode (requestId : UInt32) (code : String) (validFor : ℕ)
  | failPairCode (requestId : UInt32) (message : String)
  | recordMessage (entry : MessageLogEntry)

namespace StatusOp

/-- The status after an operation at the time `now`. -/
def run (s : DeviceStatus) (now : Instant) : StatusOp → DeviceStatus
  | .setQrCode code => s.setQrCode code
  | .clearQrCode => s.clearQrCode
  | .setConnected pn lid => s.setConnected pn lid
  | .setDisconnected => s.setDisconnected
  | .setLoggedOut => s.setLoggedOut
  | .beginPairCode => (s.beginPairCode now).2
  | .completePairCode requestId code validFor => s.completePairCode now requestId code validFor
  | .failPairCode requestId message => s.failPairCode requestId message
  | .recordMessage entry => s.recordMessage entry

/-- The device connects. -/
def isConnect : StatusOp → Bool
  | .setConnected _ _ => true
  | _ => false

/-- A pairing code is requested. -/
def isBegin : StatusOp → Bool
  | .beginPairCode => true
  | _ => false

/-- The answer that an operation gives to an attempt: when its code expires, or that it failed. -/
def answer? (id : UInt32) (now : Instant) : StatusOp → Option (Option Instant)
  | .completePairCode requestId _ validFor =>
    if requestId = id then some (some (now + validFor)) else none
  | .failPairCode requestId _ => if requestId = id then some none else none
  | _ => none

end StatusOp

/-! ### Attempts -/

/-- An attempt that was begun, and what was done since. -/
structure Attempt where
  id : UInt32
  since : List (Instant × StatusOp)

namespace Attempt

/-- The first answer to the attempt. -/
def answer? (a : Attempt) : Option (Option Instant) :=
  a.since.findSome? fun op => op.2.answer? a.id op.1

/-- No connection was made since. -/
def Unconnected (a : Attempt) : Prop := ∀ op ∈ a.since, op.2.isConnect = false

/-- The code is being generated, or it has come and not expired. -/
def Live (a : Attempt) (now : Instant) : Prop :=
  a.Unconnected ∧
    match a.answer? with
    | none => True
    | some none => False
    | some (some expiresAt) => now < expiresAt

/-- One more operation since the attempt began. -/
def extend (a : Attempt) (op : Instant × StatusOp) : Attempt := ⟨a.id, a.since ++ [op]⟩

end Attempt

/-- The status and the attempts begun so far, the latest one last. -/
structure PairRun where
  status : DeviceStatus
  attempts : List Attempt

/-- The attempt that an operation begins. -/
def begun? (s : DeviceStatus) (op : Instant × StatusOp) : Option Attempt :=
  match op.2 with
  | .beginPairCode => (s.beginPairCode op.1).1.toOption.map fun id => ⟨id, []⟩
  | _ => none

/-- One operation, which every attempt sees and which may begin a new one. -/
def PairRun.step (r : PairRun) (op : Instant × StatusOp) : PairRun where
  status := op.2.run r.status op.1
  attempts := r.attempts.map (·.extend op) ++ (begun? r.status op).toList

/-- Timed operations from a fresh status on. -/
def runOps (ops : List (Instant × StatusOp)) : PairRun := ops.foldl PairRun.step ⟨.new, []⟩

theorem runOps_concat (ops : List (Instant × StatusOp)) (op : Instant × StatusOp) :
    runOps (ops ++ [op]) = (runOps ops).step op := by
  simp [runOps]

/-! ### What the status says of the latest attempt -/

/-- The linking code is the one of an attempt: being generated while there is no answer, shown or
failed after the first answer, gone after a connection. -/
inductive Depicts (a : Attempt) : PairCodeState → Prop
  | idle (connected : ¬a.Unconnected) : Depicts a .idle
  | pending (unconnected : a.Unconnected) (answer : a.answer? = none) : Depicts a (.pending a.id)
  | ready (code : String) (expiresAt : Instant) (unconnected : a.Unconnected)
      (answer : a.answer? = some (some expiresAt)) : Depicts a (.ready code expiresAt)
  | error (message : String) (answer : a.answer? = some none) : Depicts a (.error message)

section

variable {a : Attempt} {p : PairCodeState} {op : Instant × StatusOp} {now : Instant}

theorem unconnected_extend : (a.extend op).Unconnected ↔ a.Unconnected ∧ op.2.isConnect = false := by
  simp only [Attempt.Unconnected, Attempt.extend, List.mem_append, List.mem_singleton]
  constructor
  · exact fun h => ⟨fun x hx => h x (Or.inl hx), h op (Or.inr rfl)⟩
  · rintro ⟨h, hop⟩ x (hx | rfl)
    · exact h x hx
    · exact hop

theorem answer?_extend : (a.extend op).answer? = a.answer?.or (op.2.answer? a.id op.1) := by
  simp [Attempt.answer?, Attempt.extend, List.findSome?_append]

/-- An attempt that is not live does not come back to life. -/
theorem Attempt.Live.of_extend (h : (a.extend op).Live now) : a.Live now := by
  obtain ⟨hconnect, hanswer⟩ := h
  refine ⟨(unconnected_extend.mp hconnect).1, ?_⟩
  rw [answer?_extend] at hanswer
  cases hfirst : a.answer? with
  | none => trivial
  | some first => simpa [hfirst] using hanswer

/-- The linking code is neither being generated nor shown. -/
def Vacant (p : PairCodeState) (now : Instant) : Prop :=
  match p with
  | .idle => True
  | .pending _ => False
  | .ready _ expiresAt => expiresAt ≤ now
  | .error _ => True

theorem Vacant.mono {later : Instant} (h : Vacant p now) (hle : now ≤ later) : Vacant p later := by
  cases p with
  | ready code expiresAt => exact le_trans h hle
  | _ => exact h

theorem Depicts.live_iff (h : Depicts a p) : a.Live now ↔ ¬Vacant p now := by
  cases h with
  | idle connected => exact iff_of_false (fun h => connected h.1) (not_not_intro trivial)
  | pending unconnected answer => simp [Attempt.Live, Vacant, unconnected, answer]
  | ready code expiresAt unconnected answer => simp [Attempt.Live, Vacant, unconnected, answer]
  | error message answer => simp [Attempt.Live, Vacant, answer]

/-- What is done for another attempt, or comes too late, leaves the picture as it is. -/
theorem Depicts.extend (h : Depicts a p) (hconnect : op.2.isConnect = false)
    (hanswer : p = .pending a.id → op.2.answer? a.id op.1 = none) : Depicts (a.extend op) p := by
  cases h with
  | idle connected => exact .idle fun h => connected (unconnected_extend.mp h).1
  | pending unconnected answer =>
    refine .pending (a := a.extend op) (unconnected_extend.mpr ⟨unconnected, hconnect⟩) ?_
    rw [answer?_extend, answer, hanswer rfl]
    rfl
  | ready code expiresAt unconnected answer =>
    refine .ready code expiresAt (unconnected_extend.mpr ⟨unconnected, hconnect⟩) ?_
    rw [answer?_extend, answer]
    rfl
  | error message answer =>
    refine .error message ?_
    rw [answer?_extend, answer]
    rfl

end

/-! ### Single operations -/

section

variable {s : DeviceStatus} {now : Instant}

theorem beginPairCode_of_vacant (h : Vacant s.pairCode now) :
    s.beginPairCode now = (.ok s.nextPairCodeRequest,
      { s with
        nextPairCodeRequest := s.nextPairCodeRequest + 1
        pairCode := .pending s.nextPairCodeRequest }) := by
  rw [DeviceStatus.beginPairCode]
  cases hp : s.pairCode with
  | idle => rfl
  | pending id => simp [Vacant, hp] at h
  | ready code expiresAt =>
    have hle : ¬expiresAt > now := by simpa [Vacant, hp] using h
    simp only [if_neg hle]
  | error message => rfl

theorem beginPairCode_of_not_vacant (h : ¬Vacant s.pairCode now) :
    ∃ message, s.beginPairCode now = (.error message, s) := by
  rw [DeviceStatus.beginPairCode]
  cases hp : s.pairCode with
  | idle => simp [Vacant, hp] at h
  | pending id => exact ⟨_, rfl⟩
  | ready code expiresAt =>
    have hlt : expiresAt > now := by simpa [Vacant, hp] using h
    exact ⟨"A linking code is already active", by simp only [if_pos hlt]⟩
  | error message => simp [Vacant, hp] at h

theorem beginPairCode_ok_iff : (∃ id, (s.beginPairCode now).1 = .ok id) ↔ Vacant s.pairCode now := by
  by_cases h : Vacant s.pairCode now
  · simp [beginPairCode_of_vacant h, h]
  · obtain ⟨message, heq⟩ := beginPairCode_of_not_vacant h
    simp [heq, h]

theorem pairCodeRequestIs_iff {p : PairCodeState} {id : UInt32} :
    DeviceStatus.pairCodeRequestIs p id = true ↔ p = .pending id := by
  cases p <;> simp [DeviceStatus.pairCodeRequestIs]

/-- Answers to another attempt than the pending one change nothing. -/
theorem answers_ignored {id : UInt32} (h : s.pairCode ≠ .pending id) :
    (∀ now code validFor, s.completePairCode now id code validFor = s) ∧
      ∀ message, s.failPairCode id message = s := by
  have hneg : ¬DeviceStatus.pairCodeRequestIs s.pairCode id = true := mt pairCodeRequestIs_iff.mp h
  exact ⟨fun _ _ _ => if_neg hneg, fun _ => if_neg hneg⟩

/-- An operation that begins no attempt, gives no answer to the pending one and connects nothing
leaves the linking code and the request counter alone. -/
theorem pairCode_run {op : StatusOp} (hconnect : op.isConnect = false)
    (hbegin : op.isBegin = true → ¬Vacant s.pairCode now)
    (hanswer : ∀ id, s.pairCode = .pending id → op.answer? id now = none) :
    (op.run s now).pairCode = s.pairCode ∧
      (op.run s now).nextPairCodeRequest = s.nextPairCodeRequest := by
  cases op with
  | setConnected pn lid => cases hconnect
  | beginPairCode =>
    obtain ⟨message, heq⟩ := beginPairCode_of_not_vacant (hbegin rfl)
    simp [StatusOp.run, heq]
  | completePairCode id code validFor =>
    have hne : s.pairCode ≠ .pending id := fun h => by
      simpa [StatusOp.answer?] using hanswer id h
    rw [StatusOp.run, (answers_ignored hne).1]
    exact ⟨rfl, rfl⟩
  | failPairCode id message =>
    have hne : s.pairCode ≠ .pending id := fun h => by
      simpa [StatusOp.answer?] using hanswer id h
    rw [StatusOp.run, (answers_ignored hne).2]
    exact ⟨rfl, rfl⟩
  | _ => exact ⟨rfl, rfl⟩

end

/-! ### Runs -/

/-- An operation answers the attempt `id` with the state `p`. -/
def Answers (op : Instant × StatusOp) (id : UInt32) (p : PairCodeState) : Prop :=
  match p with
  | .ready code expiresAt =>
    ∃ validFor, op.2 = .completePairCode id code validFor ∧ expiresAt = op.1 + validFor
  | .error message => op.2 = .failPairCode id message
  | _ => False

/-- The state `p` was set by the attempt begun last, which was pending then. -/
def SetByLatest (ops : List (Instant × StatusOp)) (p : PairCodeState) : Prop :=
  ∃ before op after a, ops = before ++ op :: after ∧ (runOps before).attempts.getLast? = some a ∧
    (runOps before).status.pairCode = .pending a.id ∧ Answers op a.id p ∧
    (runOps ops).attempts.length = (runOps before).attempts.length

/-- What holds after any operations. -/
structure Tracked (ops : List (Instant × StatusOp)) : Prop where
  id_eq : ∀ i a, (runOps ops).attempts[i]? = some a → a.id = UInt32.ofNat (i + 1)
  next_eq : (runOps ops).status.nextPairCodeRequest =
    UInt32.ofNat ((runOps ops).attempts.length + 1)
  length_le : (runOps ops).attempts.length ≤ ops.countP fun op => op.2.isBegin
  /-- An attempt that is not the latest is over. -/
  not_live : ∀ i a, (runOps ops).attempts[i]? = some a → i + 1 < (runOps ops).attempts.length →
    ∀ now, (∀ op ∈ ops, op.1 ≤ now) → ¬a.Live now
  idle : (runOps ops).attempts = [] → (runOps ops).status.pairCode = .idle
  shows : ∀ a, (runOps ops).attempts.getLast? = some a → Depicts a (runOps ops).status.pairCode
  set : ∀ p, (runOps ops).status.pairCode = p → p ≠ .idle → (∀ id, p ≠ .pending id) →
    SetByLatest ops p

section

variable {ops : List (Instant × StatusOp)} {op : Instant × StatusOp}

theorem SetByLatest.concat {p : PairCodeState} (h : SetByLatest ops p)
    (hbegun : begun? (runOps ops).status op = none) : SetByLatest (ops ++ [op]) p := by
  obtain ⟨before, op', after, a, rfl, hlast, hpending, hanswers, hlen⟩ := h
  refine ⟨before, op', after ++ [op], a, by simp, hlast, hpending, hanswers, ?_⟩
  rw [runOps_concat, PairRun.step, hbegun]
  simpa using hlen

theorem getElem?_extend {attempts : List Attempt} {i : ℕ} {a : Attempt}
    (h : (attempts.map (·.extend op))[i]? = some a) :
    ∃ a₀, attempts[i]? = some a₀ ∧ a = a₀.extend op := by
  rw [List.getElem?_map, Option.map_eq_some_iff] at h
  obtain ⟨a₀, ha₀, rfl⟩ := h
  exact ⟨a₀, ha₀, rfl⟩

theorem getElem?_concat {attempts : List Attempt} {i : ℕ} {a x : Attempt}
    (h : (attempts ++ [x])[i]? = some a) : attempts[i]? = some a ∨ i = attempts.length ∧ x = a := by
  by_cases hi : i < attempts.length
  · rw [List.getElem?_append_left hi] at h
    exact Or.inl h
  · rw [List.getElem?_append_right (not_lt.mp hi), List.getElem?_singleton] at h
    split_ifs at h with hzero
    exact Or.inr ⟨by omega, Option.some.inj h⟩

/-- An operation that begins no attempt. -/
theorem Tracked.extend (h : Tracked ops) (hbegun : begun? (runOps ops).status op = none)
    (hnext : (op.2.run (runOps ops).status op.1).nextPairCodeRequest =
      (runOps ops).status.nextPairCodeRequest)
    (hidle : (runOps ops).attempts = [] → (op.2.run (runOps ops).status op.1).pairCode = .idle)
    (hshows : ∀ a, (runOps ops).attempts.getLast? = some a →
      Depicts (a.extend op) (op.2.run (runOps ops).status op.1).pairCode)
    (hset : ∀ p, (op.2.run (runOps ops).status op.1).pairCode = p → p ≠ .idle →
      (∀ id, p ≠ .pending id) → SetByLatest (ops ++ [op]) p) :
    Tracked (ops ++ [op]) := by
  have hrun : runOps (ops ++ [op]) = ⟨op.2.run (runOps ops).status op.1,
      (runOps ops).attempts.map (·.extend op)⟩ := by
    rw [runOps_concat, PairRun.step, hbegun]
    simp
  refine ⟨?_, ?_, ?_, ?_, ?_, ?_, ?_⟩
  · intro i a ha
    rw [hrun] at ha
    obtain ⟨a₀, ha₀, rfl⟩ := getElem?_extend ha
    exact h.id_eq i a₀ ha₀
  · rw [hrun, List.length_map]
    exact hnext.trans h.next_eq
  · rw [hrun, List.length_map, List.countP_append]
    exact h.length_le.trans (Nat.le_add_right _ _)
  · intro i a ha hi now hnow hlive
    rw [hrun] at ha hi
    rw [List.length_map] at hi
    obtain ⟨a₀, ha₀, rfl⟩ := getElem?_extend ha
    exact h.not_live i a₀ ha₀ hi now (fun op' hop' => hnow op' (List.mem_append_left _ hop'))
      hlive.of_extend
  · intro hnil
    rw [hrun] at hnil ⊢
    exact hidle (List.map_eq_nil_iff.mp hnil)
  · intro a ha
    rw [hrun] at ha ⊢
    rw [List.getLast?_map, Option.map_eq_some_iff] at ha
    obtain ⟨a₀, ha₀, rfl⟩ := ha
    exact hshows a₀ ha₀
  · rw [hrun]
    exact hset

/-- An operation that does not concern the latest attempt. -/
theorem Tracked.other (h : Tracked ops) (hconnect : op.2.isConnect = false)
    (hbegin : op.2.isBegin = true → ¬Vacant (runOps ops).status.pairCode op.1)
    (hanswer : ∀ id, (runOps ops).status.pairCode = .pending id → op.2.answer? id op.1 = none) :
    Tracked (ops ++ [op]) := by
  obtain ⟨hpair, hnext⟩ := pairCode_run hconnect hbegin hanswer
  have hbegun : begun? (runOps ops).status op = none := by
    obtain ⟨now, op⟩ := op
    cases op with
    | beginPairCode =>
      obtain ⟨message, heq⟩ := beginPairCode_of_not_vacant (hbegin rfl)
      simp [begun?, heq, Except.toOption]
    | _ => rfl
  refine h.extend hbegun hnext ?_ ?_ ?_
  · rw [hpair]
    exact h.idle
  · intro a ha
    rw [hpair]
    exact (h.shows a ha).extend hconnect fun hp => hanswer a.id hp
  · intro p hp hidle hpending
    rw [hpair] at hp
    exact (h.set p hp hidle hpending).concat hbegun

theorem Tracked.connect (h : Tracked ops) (now : Instant) (pn lid : Option String) :
    Tracked (ops ++ [(now, .setConnected pn lid)]) := by
  refine h.extend rfl rfl (fun _ => rfl) (fun a _ => .idle fun hu => ?_) fun p hp hidle => ?_
  · cases (unconnected_extend.mp hu).2
  · exact absurd hp.symm hidle

/-- The pending attempt gets its answer. -/
theorem Tracked.answer (h : Tracked ops) {id : UInt32} {p : PairCodeState}
    (hpending : (runOps ops).status.pairCode = .pending id)
    (hbegun : begun? (runOps ops).status op = none)
    (hrun : op.2.run (runOps ops).status op.1 = { (runOps ops).status with pairCode := p })
    (hanswers : Answers op id p) : Tracked (ops ++ [op]) := by
  have hconnect : op.2.isConnect = false := by
    cases p with
    | ready code expiresAt =>
      obtain ⟨validFor, heq, -⟩ := hanswers
      rw [heq]
      rfl
    | error message =>
      have heq : op.2 = .failPairCode id message := hanswers
      rw [heq]
      rfl
    | idle => cases hanswers
    | pending id => cases hanswers
  have hlatest : ∃ a, (runOps ops).attempts.getLast? = some a := by
    cases hlast : (runOps ops).attempts.getLast? with
    | none =>
      rw [h.idle (List.getLast?_eq_none_iff.mp hlast)] at hpending
      cases hpending
    | some a => exact ⟨a, rfl⟩
  -- a code is pending, so there is an attempt, and it is the one that is answered
  obtain ⟨a, ha⟩ := hlatest
  have hshows := h.shows a ha
  rw [hpending] at hshows
  cases hshows with
  | pending unconnected none =>
    refine h.extend hbegun (by rw [hrun]) ?_ ?_ ?_
    · intro hnil
      rw [hnil] at ha
      cases ha
    · intro a' ha'
      obtain rfl : a = a' := Option.some.inj (ha.symm.trans ha')
      rw [hrun]
      cases p with
      | ready code expiresAt =>
        obtain ⟨validFor, heq, rfl⟩ := hanswers
        refine .ready code _ (unconnected_extend.mpr ⟨unconnected, hconnect⟩) ?_
        simp [answer?_extend, none, heq, StatusOp.answer?]
      | error message =>
        have heq : op.2 = .failPairCode a.id message := hanswers
        refine .error message ?_
        simp [answer?_extend, none, heq, StatusOp.answer?]
      | idle => cases hanswers
      | pending id => cases hanswers
    · intro p' hp' _ _
      rw [hrun] at hp'
      obtain rfl : p = p' := hp'
      refine ⟨ops, op, [], a, rfl, ha, hpending, hanswers, ?_⟩
      rw [runOps_concat, PairRun.step, hbegun]
      simp

/-- The next attempt begins when the one before it is over. -/
theorem Tracked.begin (h : Tracked ops) {now : Instant} (hnow : ∀ op ∈ ops, op.1 ≤ now)
    (hvacant : Vacant (runOps ops).status.pairCode now) : Tracked (ops ++ [(now, .beginPairCode)]) := by
  have hbegin := beginPairCode_of_vacant hvacant
  have hrun : runOps (ops ++ [(now, .beginPairCode)]) =
      ⟨{ (runOps ops).status with
          nextPairCodeRequest := (runOps ops).status.nextPairCodeRequest + 1
          pairCode := .pending (runOps ops).status.nextPairCodeRequest },
        (runOps ops).attempts.map (·.extend (now, .beginPairCode)) ++
          [⟨(runOps ops).status.nextPairCodeRequest, []⟩]⟩ := by
    rw [runOps_concat, PairRun.step, begun?]
    simp [StatusOp.run, hbegin, Except.toOption]
  refine ⟨?_, ?_, ?_, ?_, ?_, ?_, ?_⟩
  · intro i a ha
    rw [hrun] at ha
    rcases getElem?_concat ha with ha | ⟨hi, rfl⟩
    · obtain ⟨a₀, ha₀, rfl⟩ := getElem?_extend ha
      exact h.id_eq i a₀ ha₀
    · rw [hi, List.length_map]
      exact h.next_eq
  · rw [hrun]
    simp only [List.length_append, List.length_map, List.length_singleton, h.next_eq]
    exact (UInt32.ofNat_add _ 1).symm
  · rw [hrun, List.countP_append]
    simpa [StatusOp.isBegin] using h.length_le
  · intro i a ha hi now' hnow' hlive
    have hle : now ≤ now' := hnow' (now, .beginPairCode) (by simp)
    rw [hrun] at ha hi
    simp only [List.length_append, List.length_map, List.length_singleton] at hi
    rcases getElem?_concat ha with ha | ⟨heq, -⟩
    · obtain ⟨a₀, ha₀, rfl⟩ := getElem?_extend ha
      have hlive := hlive.of_extend
      by_cases hlast : i + 1 = (runOps ops).attempts.length
      · -- the latest attempt so far: its code is gone
        have ha₀ : (runOps ops).attempts.getLast? = some a₀ := by
          rw [List.getLast?_eq_getElem?, ← hlast]
          exact ha₀
        exact (h.shows a₀ ha₀).live_iff.mp hlive (hvacant.mono hle)
      · refine h.not_live i a₀ ha₀ (by omega) now' (fun op hop => ?_) hlive
        exact (hnow op hop).trans hle
    · rw [List.length_map] at heq
      omega
  · intro hnil
    rw [hrun] at hnil
    simp at hnil
  · intro a ha
    rw [hrun] at ha ⊢
    rw [List.getLast?_concat] at ha
    cases ha
    exact .pending (fun _ h => by cases h) rfl
  · intro p hp _ hpending
    rw [hrun] at hp
    exact absurd hp.symm (hpending _)

theorem Tracked.concat (h : Tracked ops) (hnow : ∀ op' ∈ ops, op'.1 ≤ op.1) :
    Tracked (ops ++ [op]) := by
  obtain ⟨now, op⟩ := op
  cases op with
  | setConnected pn lid => exact h.connect now pn lid
  | beginPairCode =>
    by_cases hvacant : Vacant (runOps ops).status.pairCode now
    · exact h.begin hnow hvacant
    · exact h.other rfl (fun _ => hvacant) fun _ _ => rfl
  | completePairCode id code validFor =>
    by_cases hpending : (runOps ops).status.pairCode = .pending id
    · refine h.answer (p := .ready code (now + validFor)) hpending rfl ?_ ⟨validFor, rfl, rfl⟩
      exact if_pos (pairCodeRequestIs_iff.mpr hpending)
    · refine h.other rfl nofun fun id' hid' => if_neg ?_
      rintro rfl
      exact hpending hid'
  | failPairCode id message =>
    by_cases hpending : (runOps ops).status.pairCode = .pending id
    · refine h.answer (p := .error message) hpending rfl ?_ rfl
      exact if_pos (pairCodeRequestIs_iff.mpr hpending)
    · refine h.other rfl nofun fun id' hid' => if_neg ?_
      rintro rfl
      exact hpending hid'
  | _ => exact h.other rfl nofun fun _ _ => rfl

theorem tracked_runOps (htimes : (ops.map Prod.fst).Pairwise (· ≤ ·)) : Tracked ops := by
  induction ops using List.reverseRecOn with
  | nil =>
    refine ⟨nofun, rfl, Nat.le_refl _, nofun, fun _ => rfl, nofun, fun p hp hidle => ?_⟩
    exact absurd hp.symm hidle
  | append_singleton ops op ih =>
    rw [List.map_append, List.pairwise_append] at htimes
    refine (ih htimes.1).concat fun op' hop' => ?_
    exact htimes.2.2 op'.1 (List.mem_map_of_mem hop') op.1 (by simp)

/-- Only the latest attempt can be live. -/
theorem Tracked.succ_eq_of_live (h : Tracked ops) {now : Instant} (hnow : ∀ op ∈ ops, op.1 ≤ now)
    {i : ℕ} {a : Attempt} (ha : (runOps ops).attempts[i]? = some a) (hlive : a.Live now) :
    i + 1 = (runOps ops).attempts.length := by
  by_contra hne
  have hi : i < (runOps ops).attempts.length := (List.getElem?_eq_some_iff.mp ha).1
  exact h.not_live i a ha (by omega) now hnow hlive

theorem Tracked.begin_iff (h : Tracked ops) {now : Instant} (hnow : ∀ op ∈ ops, op.1 ≤ now) :
    (∃ id, ((runOps ops).status.beginPairCode now).1 = .ok id) ↔
      ∀ a ∈ (runOps ops).attempts, ¬a.Live now := by
  rw [beginPairCode_ok_iff]
  constructor
  · intro hvacant a ha hlive
    obtain ⟨i, hi⟩ := List.mem_iff_getElem?.mp ha
    have hlast := h.succ_eq_of_live hnow hi hlive
    have hshows := h.shows a (by rw [List.getLast?_eq_getElem?, ← hlast]; exact hi)
    exact hshows.live_iff.mp hlive hvacant
  · intro hnone
    cases hlast : (runOps ops).attempts.getLast? with
    | none =>
      rw [h.idle (List.getLast?_eq_none_iff.mp hlast)]
      trivial
    | some a =>
      have hlive := hnone a (List.mem_of_getLast? hlast)
      rwa [(h.shows a hlast).live_iff, not_not] at hlive

/-- The attempt that is pending is the latest. -/
theorem Tracked.getLast?_of_pending (h : Tracked ops) {id : UInt32}
    (hpending : (runOps ops).status.pairCode = .pending id) :
    ∃ a, (runOps ops).attempts.getLast? = some a ∧ a.id = id := by
  cases hlast : (runOps ops).attempts.getLast? with
  | none =>
    rw [h.idle (List.getLast?_eq_none_iff.mp hlast)] at hpending
    cases hpending
  | some a =>
    have hshows := h.shows a hlast
    rw [hpending] at hshows
    cases hshows
    exact ⟨a, rfl, rfl⟩

/-- Of fewer than `2 ^ 32` attempts no two have the same id. -/
theorem Tracked.eq_of_id_eq (h : Tracked ops) (hcount : ops.countP (fun op => op.2.isBegin) < 2 ^ 32)
    {i j : ℕ} {a b : Attempt} (ha : (runOps ops).attempts[i]? = some a)
    (hb : (runOps ops).attempts[j]? = some b) (hid : a.id = b.id) : i = j := by
  have hlen := h.length_le
  have hi : i < (runOps ops).attempts.length := (List.getElem?_eq_some_iff.mp ha).1
  have hj : j < (runOps ops).attempts.length := (List.getElem?_eq_some_iff.mp hb).1
  rw [h.id_eq i a ha, h.id_eq j b hb] at hid
  have hnat := congrArg UInt32.toNat hid
  rw [UInt32.toNat_ofNat', UInt32.toNat_ofNat', Nat.mod_eq_of_lt (by omega),
    Nat.mod_eq_of_lt (by omega)] at hnat
  omega

end

/-- **One linking code at a time.**  After any operations, at times that do not go back and with
fewer than `2 ^ 32` attempts: at most one attempt is live, and the next one can begin exactly if
none is; a code that is shown, and an error, was set by the latest attempt while it was pending; and
an answer to any attempt but the pending one changes nothing. -/
theorem pairCode_exclusive (ops : List (Instant × StatusOp))
    (htimes : (ops.map Prod.fst).Pairwise (· ≤ ·))
    (hcount : ops.countP (fun op => op.2.isBegin) < 2 ^ 32) :
    (∀ now, (∀ op ∈ ops, op.1 ≤ now) →
      (∀ (i j : ℕ) (a b : Attempt), (runOps ops).attempts[i]? = some a →
        (runOps ops).attempts[j]? = some b → a.Live now → b.Live now → i = j) ∧
      ((∃ id, ((runOps ops).status.beginPairCode now).1 = .ok id) ↔
        ∀ a ∈ (runOps ops).attempts, ¬a.Live now)) ∧
    (∀ p, (runOps ops).status.pairCode = p → p ≠ .idle → (∀ id, p ≠ .pending id) →
      SetByLatest ops p) ∧
    ∀ (i : ℕ) (a : Attempt), (runOps ops).attempts[i]? = some a →
      ¬((∃ id, (runOps ops).status.pairCode = .pending id) ∧
        i + 1 = (runOps ops).attempts.length) →
      (∀ now code validFor, (runOps ops).status.completePairCode now a.id code validFor =
        (runOps ops).status) ∧
      ∀ message, (runOps ops).status.failPairCode a.id message = (runOps ops).status := by
  have h := tracked_runOps htimes
  refine ⟨fun now hnow => ⟨?_, h.begin_iff hnow⟩, h.set, ?_⟩
  · intro i j a b ha hb hlive hlive'
    have hi := h.succ_eq_of_live hnow ha hlive
    have hj := h.succ_eq_of_live hnow hb hlive'
    omega
  · intro i a ha hother
    refine answers_ignored fun hpending => hother ⟨⟨a.id, hpending⟩, ?_⟩
    obtain ⟨b, hb, hid⟩ := h.getLast?_of_pending hpending
    rw [List.getLast?_eq_getElem?] at hb
    have hi := h.eq_of_id_eq hcount ha hb hid.symm
    have hlt : i < (runOps ops).attempts.length := (List.getElem?_eq_some_iff.mp ha).1
    omega

/-- The device connects while a code is being generated; the second attempt's code is shown, and
then the answer to the first arrives. -/
def lateAnswer : List (Instant × StatusOp) :=
  [(0, .beginPairCode), (5, .setConnected none none), (9, .setLoggedOut), (10, .beginPairCode),
    (20, .completePairCode 2 "CODE" 180)]

theorem lateAnswer_ignored :
    (runOps lateAnswer).status.pairCode = .ready "CODE" 200 ∧
    (runOps lateAnswer).status.failPairCode 1 "timeout" = (runOps lateAnswer).status ∧
    SetByLatest lateAnswer (.ready "CODE" 200) := by
  obtain ⟨-, hset, hignored⟩ := pairCode_exclusive lateAnswer (by decide) (by decide)
  exact ⟨rfl, (hignored 0 _ rfl fun h => absurd h.2 (by decide)).2 "timeout", hset _ rfl nofun nofun⟩

end WhatsappEsp32
