import WhatsappEsp32.Lib.Dict
import WhatsappEsp32.Lib.Newest

/-!
# Privacy tokens

The rows of the `tc_tokens` table, which is kept in memory only.  Two writers own one side of a row
each: `store_received_tc_token` the token with its timestamp, `touch_tc_token_sender_timestamp` the
time at which we last sent one.

* `TcCall`, `runCalls`: any sequence of the two writes;
* `sender_runCalls`, `received_runCalls`: what each side of a row comes to;
* `tcTokens_converge`: both are independent of the order, as far as it does not matter.
-/

namespace WhatsappEsp32

open Newest

/-- `TcTokenEntry` of the SDK. -/
@[ext]
structure TcTokenEntry where
  token : List UInt8
  tokenTimestamp : ℤ
  senderTimestamp : Option ℤ
  deriving DecidableEq

/-- `StoreInner::tc_tokens`. -/
abbrev TcTokens := Dict String TcTokenEntry

namespace TcTokens

/-- The time of the last token sent only ever moves forward.  The row that is created for it holds
no token. -/
def touchTcTokenSenderTimestamp (tcTokens : TcTokens) (jid : String) (senderTimestamp : ℤ) :
    TcTokens :=
  match tcTokens.lookup jid with
  | some entry =>
    tcTokens.insert jid { entry with
      senderTimestamp := some (entry.senderTimestamp.elim senderTimestamp fun e =>
        max e senderTimestamp) }
  | none => tcTokens.insert jid ⟨[], senderTimestamp, some senderTimestamp⟩

/-- A token that is older than the one held is dropped. -/
def storeReceivedTcToken (tcTokens : TcTokens) (jid : String) (token : List UInt8)
    (tokenTimestamp : ℤ) : TcTokens :=
  match tcTokens.lookup jid with
  | some entry =>
    if !entry.token.isEmpty && tokenTimestamp < entry.tokenTimestamp then
      tcTokens
    else
      tcTokens.insert jid { entry with token, tokenTimestamp }
  | none => tcTokens.insert jid ⟨token, tokenTimestamp, none⟩

/-- The two sides of a row, each with a cutoff of its own. -/
def live (tokenCutoff senderCutoff : ℤ) (v : TcTokenEntry) : Bool :=
  let tokenLive := !v.token.isEmpty && v.tokenTimestamp ≥ tokenCutoff
  let senderLive := v.senderTimestamp.any fun ts => ts ≥ senderCutoff
  tokenLive || senderLive

/-- Returns how many rows were dropped, as a `u32`. -/
def deleteExpiredTcTokens (tcTokens : TcTokens) (tokenCutoff senderCutoff : ℤ) : ℕ × TcTokens :=
  let kept := AList.retain (fun _ v => live tokenCutoff senderCutoff v) tcTokens
  ((tcTokens.size - kept.size) % 2 ^ 32, kept)

end TcTokens

/-! ### Sequences of writes -/

/-- The calls that write an entry. -/
inductive TcCall
  | touch (jid : String) (senderTimestamp : ℤ)
  | received (jid : String) (token : List UInt8) (tokenTimestamp : ℤ)
  deriving DecidableEq

namespace TcCall

/-- The contact of a call. -/
def jid : TcCall → String
  | .touch jid _ => jid
  | .received jid _ _ => jid

/-- A token that is received is not empty. -/
def Real : TcCall → Prop
  | .touch _ _ => True
  | .received _ token _ => token ≠ []

/-- The table after one call. -/
def run (tcTokens : TcTokens) : TcCall → TcTokens
  | .touch jid senderTimestamp => tcTokens.touchTcTokenSenderTimestamp jid senderTimestamp
  | .received jid token tokenTimestamp => tcTokens.storeReceivedTcToken jid token tokenTimestamp

/-- The sender timestamp that a call brings for `jid`. -/
def touched? (jid : String) : TcCall → Option ℤ
  | .touch j senderTimestamp => if j = jid then some senderTimestamp else none
  | .received _ _ _ => none

/-- The token that a call brings for `jid`, with its timestamp. -/
def received? (jid : String) : TcCall → Option (List UInt8 × ℤ)
  | .touch _ _ => none
  | .received j token tokenTimestamp => if j = jid then some (token, tokenTimestamp) else none

end TcCall

/-- The table after a run. -/
def runCalls (tcTokens : TcTokens) (calls : List TcCall) : TcTokens := calls.foldl TcCall.run tcTokens

/-- The timestamps with which a row is touched. -/
def touched (jid : String) (calls : List TcCall) : List ℤ := calls.filterMap (TcCall.touched? jid)

/-- The tokens received for a row. -/
def received (jid : String) (calls : List TcCall) : List (List UInt8 × ℤ) :=
  calls.filterMap (TcCall.received? jid)

/-! ### The two sides of a row -/

/-- The sender side of a row. -/
def sender (row : Option TcTokenEntry) : Option ℤ := row.bind fun entry => entry.senderTimestamp

/-- The token of a row, unless the row is a placeholder. -/
def held (row : Option TcTokenEntry) : Option (List UInt8 × ℤ) :=
  row.bind fun entry => if entry.token = [] then none else some (entry.token, entry.tokenTimestamp)

section

variable (tcTokens : TcTokens) (jid j : String) (t : ℤ) (token : List UInt8)

theorem lookup_touch :
    (tcTokens.touchTcTokenSenderTimestamp j t).lookup jid =
      if jid = j then
        some ((tcTokens.lookup jid).elim ⟨[], t, some t⟩ fun entry =>
          { entry with senderTimestamp := some (entry.senderTimestamp.elim t fun e => max e t) })
      else tcTokens.lookup jid := by
  unfold TcTokens.touchTcTokenSenderTimestamp
  by_cases h : jid = j
  · subst h
    cases tcTokens.lookup jid <;> simp
  · cases tcTokens.lookup j <;> simp [AList.lookup_insert_ne h, h]

theorem lookup_received :
    (tcTokens.storeReceivedTcToken j token t).lookup jid =
      if jid = j then
        some ((tcTokens.lookup jid).elim ⟨token, t, none⟩ fun entry =>
          if entry.token ≠ [] ∧ t < entry.tokenTimestamp then entry
          else { entry with token, tokenTimestamp := t })
      else tcTokens.lookup jid := by
  unfold TcTokens.storeReceivedTcToken
  by_cases h : jid = j
  · subst h
    cases hrow : tcTokens.lookup jid with
    | none => simp
    | some entry =>
      by_cases hold : entry.token ≠ [] ∧ t < entry.tokenTimestamp
      · simp [hold, hrow]
      · have hnew : ¬(!entry.token.isEmpty && decide (t < entry.tokenTimestamp)) = true := by
          simpa using hold
        simp only [if_neg hnew, AList.lookup_insert, if_true, Option.elim_some, if_neg hold]
  · cases tcTokens.lookup j with
    | none => simp [AList.lookup_insert_ne h, h]
    | some entry =>
      simp only [if_neg h]
      split_ifs
      · rfl
      · exact AList.lookup_insert_ne h

/-- The sender side of a row takes the larger timestamp. -/
theorem sender_run (call : TcCall) :
    sender ((call.run tcTokens).lookup jid) =
      (call.touched? jid).elim (sender (tcTokens.lookup jid)) fun t =>
        some ((sender (tcTokens.lookup jid)).elim t fun e => max e t) := by
  cases call with
  | touch j t =>
    rw [TcCall.run, lookup_touch, TcCall.touched?]
    by_cases h : jid = j
    · subst h
      cases tcTokens.lookup jid <;> simp [sender]
    · simp [h, Ne.symm h]
  | received j token t =>
    rw [TcCall.run, lookup_received, TcCall.touched?]
    by_cases h : jid = j
    · subst h
      cases hrow : tcTokens.lookup jid with
      | none => simp [sender]
      | some entry =>
        by_cases hold : entry.token ≠ [] ∧ t < entry.tokenTimestamp
        · simp only [if_true, Option.elim_some, if_pos hold, Option.elim_none]
        · simp only [if_true, Option.elim_some, if_neg hold, Option.elim_none]
          rfl
    · simp [h]

/-- The token side of a row is a register that keeps the newest token. -/
theorem held_run {call : TcCall} (hreal : call.Real) :
    held ((call.run tcTokens).lookup jid) =
      (call.received? jid).elim (held (tcTokens.lookup jid)) (update (held (tcTokens.lookup jid))) := by
  cases call with
  | touch j t =>
    rw [TcCall.run, lookup_touch, TcCall.received?]
    by_cases h : jid = j
    · subst h
      cases tcTokens.lookup jid <;> simp [held]
    · simp [h]
  | received j token t =>
    have htoken : token ≠ [] := hreal
    rw [TcCall.run, lookup_received, TcCall.received?]
    by_cases h : jid = j
    · subst h
      cases hrow : tcTokens.lookup jid with
      | none => simp [held, update, htoken]
      | some entry =>
        by_cases hempty : entry.token = []
        · simp [held, update, hempty, htoken]
        · by_cases hold : t < entry.tokenTimestamp
          · simp [held, update, hempty, hold]
          · simp [held, update, hempty, hold, htoken]
    · simp [h, Ne.symm h]

/-- The token and its timestamp, of a placeholder too. -/
def tokenSide (row : Option TcTokenEntry) : Option (List UInt8 × ℤ) :=
  row.map fun entry => (entry.token, entry.tokenTimestamp)

/-- A touch creates a placeholder, and leaves the token side of a row alone. -/
theorem tokenSide_run {call : TcCall} (h : call.received? jid = none) :
    tokenSide ((call.run tcTokens).lookup jid) =
      (tokenSide (tcTokens.lookup jid)).or ((call.touched? jid).map fun t => ([], t)) := by
  cases call with
  | touch j t =>
    rw [TcCall.run, lookup_touch, TcCall.touched?]
    by_cases h : jid = j
    · subst h
      cases tcTokens.lookup jid <;> simp [tokenSide]
    · simp [h, Ne.symm h]
  | received j token t =>
    have hne : jid ≠ j := by
      rintro rfl
      simp [TcCall.received?] at h
    rw [TcCall.run, lookup_received, TcCall.touched?]
    simp [hne]

/-- A call for another row does nothing to this one. -/
theorem lookup_run_of_ne {call : TcCall} (h : call.jid ≠ jid) :
    (call.run tcTokens).lookup jid = tcTokens.lookup jid := by
  cases call with
  | touch j t =>
    have hne : j ≠ jid := h
    rw [TcCall.run, lookup_touch, if_neg hne.symm]
  | received j token t =>
    have hne : j ≠ jid := h
    rw [TcCall.run, lookup_received, if_neg hne.symm]

/-- What a call does to its row depends on that row only. -/
theorem lookup_run_congr {tcTokens' : TcTokens} (h : tcTokens.lookup jid = tcTokens'.lookup jid)
    (call : TcCall) : (call.run tcTokens).lookup jid = (call.run tcTokens').lookup jid := by
  cases call with
  | touch j t => simp only [TcCall.run, lookup_touch, h]
  | received j token t => simp only [TcCall.run, lookup_received, h]

end

/-! ### Whole runs -/

section

variable (tcTokens : TcTokens) (jid : String) (calls : List TcCall)

@[simp] theorem runCalls_cons (call : TcCall) :
    runCalls tcTokens (call :: calls) = runCalls (call.run tcTokens) calls := rfl

theorem touched_cons (call : TcCall) :
    touched jid (call :: calls) = (call.touched? jid).toList ++ touched jid calls := by
  cases h : call.touched? jid <;> simp [touched, h]

theorem received_cons (call : TcCall) :
    received jid (call :: calls) = (call.received? jid).toList ++ received jid calls := by
  cases h : call.received? jid <;> simp [received, h]

/-- The sender side of a row ends as the maximum of all it was given. -/
theorem sender_runCalls :
    sender ((runCalls tcTokens calls).lookup jid) =
      ((sender (tcTokens.lookup jid)).toList ++ touched jid calls).max? := by
  induction calls generalizing tcTokens with
  | nil => cases h : sender (tcTokens.lookup jid) <;> simp [runCalls, touched, h]
  | cons call calls ih =>
    rw [runCalls_cons, ih, sender_run, touched_cons]
    cases call.touched? jid with
    | none => rfl
    | some t => cases sender (tcTokens.lookup jid) <;> rfl

/-- The token side ends as the newest real token, the later one of two that are equally new. -/
theorem held_runCalls (hreal : ∀ call ∈ calls, call.Real) :
    held ((runCalls tcTokens calls).lookup jid) =
      newest ((held (tcTokens.lookup jid)).toList ++ received jid calls) := by
  rw [← foldl_update]
  induction calls generalizing tcTokens with
  | nil => rfl
  | cons call calls ih =>
    rw [runCalls_cons, ih _ fun c hc => hreal c (List.mem_cons_of_mem _ hc),
      held_run _ _ (hreal call List.mem_cons_self), received_cons]
    cases call.received? jid <;> rfl

/-- While no token is received, the token side is the one of the row at the start, else that of the
placeholder that the first touch creates. -/
theorem tokenSide_runCalls (h : received jid calls = []) :
    tokenSide ((runCalls tcTokens calls).lookup jid) =
      (tokenSide (tcTokens.lookup jid)).or ((touched jid calls).head?.map fun t => ([], t)) := by
  induction calls generalizing tcTokens with
  | nil => simp [runCalls, touched]
  | cons call calls ih =>
    obtain ⟨hcall, hrest⟩ := List.append_eq_nil_iff.mp ((received_cons jid calls call).symm.trans h)
    rw [Option.toList_eq_nil_iff] at hcall
    rw [runCalls_cons, ih _ hrest, tokenSide_run _ _ hcall, touched_cons]
    cases tokenSide (tcTokens.lookup jid) <;> cases call.touched? jid <;> simp

/-- A row goes through the calls that name it, and no others. -/
theorem lookup_runCalls :
    (runCalls tcTokens calls).lookup jid =
      (runCalls tcTokens (calls.filter fun call => call.jid = jid)).lookup jid := by
  -- the two runs agree on this row, not on the table
  have hrows : ∀ tcTokens' : TcTokens, tcTokens.lookup jid = tcTokens'.lookup jid →
      (runCalls tcTokens calls).lookup jid =
        (runCalls tcTokens' (calls.filter fun call => call.jid = jid)).lookup jid := by
    induction calls generalizing tcTokens with
    | nil => exact fun tcTokens' h => h
    | cons call calls ih =>
      intro tcTokens' h
      by_cases hjid : call.jid = jid
      · rw [List.filter_cons_of_pos (by simpa using hjid), runCalls_cons, runCalls_cons]
        exact ih _ _ (lookup_run_congr _ _ h call)
      · rw [List.filter_cons_of_neg (by simpa using hjid), runCalls_cons]
        exact ih _ _ ((lookup_run_of_ne _ _ hjid).trans h)
  exact hrows tcTokens rfl

end

/-! ### Orders -/

/-- A row is known by its two sides. -/
theorem row_ext {row row' : Option TcTokenEntry} (hside : tokenSide row = tokenSide row')
    (hsender : sender row = sender row') : row = row' := by
  cases row <;> cases row' <;> simp_all [tokenSide, sender, TcTokenEntry.ext_iff]

theorem tokenSide_of_held {row : Option TcTokenEntry} {e : List UInt8 × ℤ} (h : held row = some e) :
    tokenSide row = some e := by
  cases row with
  | none => cases h
  | some entry =>
    simp only [held, Option.bind_some] at h
    split_ifs at h
    simpa [tokenSide] using h

/-- The same calls in another order, in which equally new tokens for the row keep theirs. -/
structure SameCalls (jid : String) (calls calls' : List TcCall) : Prop where
  perm : calls.Perm calls'
  tokens : ∀ t, ((received jid calls).filter fun e => e.2 = t) =
    (received jid calls').filter fun e => e.2 = t

section

variable {tcTokens : TcTokens} {jid : String} {calls calls' : List TcCall}

theorem max?_eq_of_perm {l l' : List ℤ} (h : l.Perm l') : l.max? = l'.max? := by
  ext t
  rw [List.max?_eq_some_iff, List.max?_eq_some_iff]
  simp only [h.mem_iff]

theorem SameCalls.sender_eq (h : SameCalls jid calls calls') :
    sender ((runCalls tcTokens calls).lookup jid) =
      sender ((runCalls tcTokens calls').lookup jid) := by
  rw [sender_runCalls, sender_runCalls]
  exact max?_eq_of_perm ((h.perm.filterMap _).append_left _)

theorem SameCalls.held_eq (h : SameCalls jid calls calls') (hreal : ∀ call ∈ calls, call.Real) :
    held ((runCalls tcTokens calls).lookup jid) = held ((runCalls tcTokens calls').lookup jid) := by
  rw [held_runCalls _ _ _ hreal,
    held_runCalls _ _ _ fun call hcall => hreal call (h.perm.mem_iff.mpr hcall)]
  refine newest_congr fun t => ?_
  rw [List.filter_append, List.filter_append, h.tokens]

theorem SameCalls.touched_perm (h : SameCalls jid calls calls') :
    (touched jid calls).Perm (touched jid calls') := h.perm.filterMap _

theorem SameCalls.received_nil (h : SameCalls jid calls calls') (hnil : received jid calls = []) :
    received jid calls' = [] := by
  have hperm : (received jid calls).Perm (received jid calls') := h.perm.filterMap _
  rw [hnil] at hperm
  exact hperm.nil_eq.symm

/-- The token side is the same, unless the row is a placeholder that one of the calls created. -/
theorem SameCalls.tokenSide_eq (h : SameCalls jid calls calls') (hreal : ∀ call ∈ calls, call.Real)
    (hrow : (tcTokens.lookup jid).isSome ∨ received jid calls ≠ []) :
    tokenSide ((runCalls tcTokens calls).lookup jid) =
      tokenSide ((runCalls tcTokens calls').lookup jid) := by
  have hheld : held ((runCalls tcTokens calls).lookup jid) =
      held ((runCalls tcTokens calls').lookup jid) := h.held_eq hreal
  cases hfinal : held ((runCalls tcTokens calls).lookup jid) with
  | some e =>
    rw [tokenSide_of_held hfinal, tokenSide_of_held (hheld.symm.trans hfinal)]
  | none =>
    rw [held_runCalls _ _ _ hreal, newest_eq_none_iff, List.append_eq_nil_iff] at hfinal
    have hpresent := hrow.resolve_right (not_not_intro hfinal.2)
    obtain ⟨entry, hentry⟩ := Option.isSome_iff_exists.mp hpresent
    rw [tokenSide_runCalls _ _ _ hfinal.2, tokenSide_runCalls _ _ _ (h.received_nil hfinal.2),
      hentry]
    rfl

theorem SameCalls.token_eq (h : SameCalls jid calls calls') (hreal : ∀ call ∈ calls, call.Real) :
    ((runCalls tcTokens calls).lookup jid).map (·.token) =
      ((runCalls tcTokens calls').lookup jid).map (·.token) := by
  have htoken : ∀ row : Option TcTokenEntry, row.map (·.token) = (tokenSide row).map (·.1) := by
    intro row
    simp [tokenSide, Function.comp_def]
  rw [htoken, htoken]
  by_cases hrow : (tcTokens.lookup jid).isSome ∨ received jid calls ≠ []
  · rw [h.tokenSide_eq hreal hrow]
  · -- both rows are placeholders, or there is none
    obtain ⟨habsent, hnil⟩ := not_or.mp hrow
    rw [not_not] at hnil
    have hnone : tcTokens.lookup jid = none := by simpa using habsent
    rw [tokenSide_runCalls _ _ _ hnil, tokenSide_runCalls _ _ _ (h.received_nil hnil), hnone]
    have hlen := h.touched_perm.length_eq
    cases htouched : touched jid calls <;> cases htouched' : touched jid calls' <;>
      simp_all [tokenSide]

end

/-! ### Convergence -/

theorem live_eq_false_iff {tokenCutoff senderCutoff : ℤ} {entry : TcTokenEntry} :
    TcTokens.live tokenCutoff senderCutoff entry = false ↔
      (entry.token = [] ∨ entry.tokenTimestamp < tokenCutoff) ∧
      ∀ t, entry.senderTimestamp = some t → t < senderCutoff := by
  rw [TcTokens.live, Bool.or_eq_false_iff]
  refine and_congr ?_ ?_
  · simp [or_iff_not_imp_left]
  · cases entry.senderTimestamp <;> simp

theorem lookup_deleteExpired (tcTokens : TcTokens) (tokenCutoff senderCutoff : ℤ) (jid : String) :
    (tcTokens.deleteExpiredTcTokens tokenCutoff senderCutoff).2.lookup jid =
      (tcTokens.lookup jid).filter (TcTokens.live tokenCutoff senderCutoff) :=
  AList.lookup_retain _ _ _

/-- **Privacy tokens converge.**  After any calls for any rows: the sender side of a row is the
maximum of all it was given, and its token the last one of the newest.  The same calls in another
order end with the same token and sender side, and with the same timestamp of the token too, unless
the row is a placeholder that the first of the touches has created.  A row goes through the calls
that name it alone, and is dropped afterwards iff both its sides are stale. -/
theorem tcTokens_converge (tcTokens : TcTokens) (calls : List TcCall)
    (hreal : ∀ call ∈ calls, call.Real) (jid : String) :
    let start := tcTokens.lookup jid
    let row := (runCalls tcTokens calls).lookup jid
    sender row = ((sender start).toList ++ touched jid calls).max? ∧
    ((held start).toList ++ received jid calls ≠ [] → ∃ entry, row = some entry ∧
      Newest.IsNewest ((held start).toList ++ received jid calls)
        (entry.token, entry.tokenTimestamp)) ∧
    (∀ calls', SameCalls jid calls calls' →
      let row' := (runCalls tcTokens calls').lookup jid
      row.map (·.token) = row'.map (·.token) ∧ sender row = sender row' ∧
      (start.isSome ∨ received jid calls ≠ [] → row = row')) ∧
    row = (runCalls tcTokens (calls.filter fun call => call.jid = jid)).lookup jid ∧
    ∀ tokenCutoff senderCutoff entry, row = some entry →
      let kept := ((runCalls tcTokens calls).deleteExpiredTcTokens tokenCutoff senderCutoff).2
      (kept.lookup jid = none ↔ (entry.token = [] ∨ entry.tokenTimestamp < tokenCutoff) ∧
        ∀ t, entry.senderTimestamp = some t → t < senderCutoff) ∧
      (kept.lookup jid ≠ none → kept.lookup jid = some entry) := by
  refine ⟨sender_runCalls _ _ _, ?_, ?_, lookup_runCalls _ _ _, ?_⟩
  · intro hne
    have hheld := held_runCalls tcTokens jid calls hreal
    obtain ⟨e, he⟩ := Option.ne_none_iff_exists'.mp (mt newest_eq_none_iff.mp hne)
    rw [he] at hheld
    obtain ⟨entry, hentry, hside⟩ := Option.map_eq_some_iff.mp (tokenSide_of_held hheld)
    refine ⟨entry, hentry, ?_⟩
    rw [hside]
    exact newest_eq_some_iff.mp he
  · intro calls' h
    exact ⟨h.token_eq hreal, h.sender_eq, fun hrow => row_ext (h.tokenSide_eq hreal hrow) h.sender_eq⟩
  · intro tokenCutoff senderCutoff entry hentry
    simp only [lookup_deleteExpired, hentry]
    rw [← live_eq_false_iff]
    cases hlive : TcTokens.live tokenCutoff senderCutoff entry <;> simp [Option.filter, hlive]

/-- A token that arrives before the first touch, and a late one. -/
def lateToken : List TcCall :=
  [.received "a" [1] 5, .touch "b" 3, .touch "a" 9, .touch "a" 7, .received "a" [2] 4]

theorem lateToken_converges :
    (runCalls ∅ lateToken).lookup "a" = some ⟨[1], 5, some 9⟩ ∧
    (runCalls ∅ lateToken).lookup "a" =
      (runCalls ∅ (lateToken.filter fun call => call.jid = "a")).lookup "a" :=
  ⟨by decide, (tcTokens_converge ∅ lateToken (by simp [lateToken, TcCall.Real]) "a").2.2.2.1⟩

/-- Two touches of a row that is not there, in either order: the timestamp of the placeholder's
missing token is that of the first. -/
theorem placeholder_timestamp_differs :
    SameCalls "a" [.touch "a" 5, .touch "a" 7] [.touch "a" 7, .touch "a" 5] ∧
    (runCalls ∅ [.touch "a" 5, .touch "a" 7]).lookup "a" = some ⟨[], 5, some 7⟩ ∧
    (runCalls ∅ [.touch "a" 7, .touch "a" 5]).lookup "a" = some ⟨[], 7, some 7⟩ :=
  ⟨⟨List.Perm.swap _ _ _, fun _ => rfl⟩, by decide, by decide⟩

end WhatsappEsp32
