import WhatsappEsp32.Admin.PairCode
import WhatsappEsp32.Storage.Record

/-!
# The message log

The dashboard shows the last messages.  Their texts come from remote senders and can be of any
length, so `record_message` cuts them, at a byte position that must not fall into a character.

* `isCharBoundary`, `truncate?`, `preview?`: the cut, on bytes, where a position inside a character
  is a panic;
* `preview?_eq`: it does not panic, and gives the preview of the device status;
* `recordedSince`: the entries recorded since the last logout;
* `messageLog_faithful`: what the log holds after any operations.
-/

namespace WhatsappEsp32

open RustStr

/-! ### Positions between characters -/

/-- `str::is_char_boundary`: the byte at the index is the first one of a character, or the index is
the end of the string. -/
def isCharBoundary (s : String) (index : ℕ) : Bool :=
  index = s.utf8ByteSize || (asBytes s)[index]?.any fun b => decide b.IsUTF8FirstByte

/-- `String::truncate`.  `none` is a panic, and bytes that are not UTF-8. -/
def truncate? (s : String) (newLen : ℕ) : Option String :=
  if newLen ≤ s.utf8ByteSize then
    if isCharBoundary s newLen then fromUtf8 ((asBytes s).take newLen) else none
  else some s

/-- The text that `record_message` keeps. -/
def preview? (text : String) : Option String :=
  if text.utf8ByteSize > maxLoggedTextBytes then
    let budget := maxLoggedTextBytes - '…'.utf8Size
    let stop := ((List.range (budget + 1)).reverse.find? (isCharBoundary text)).getD 0
    (truncate? text stop).map (· ++ "…")
  else some text

theorem length_asBytes (s : String) : (asBytes s).length = s.utf8ByteSize := by
  simp [asBytes]

theorem utf8ByteSize_ofList (l : List Char) : (String.ofList l).utf8ByteSize = utf8Len l := by
  induction l with
  | nil => rfl
  | cons c l ih =>
    have hcons : String.ofList (c :: l) = String.singleton c ++ String.ofList l := by
      apply String.toList_inj.mp
      simp
    rw [hcons, String.utf8ByteSize_append, String.utf8ByteSize_singleton, ih, utf8Len_cons]

/-- A boundary is the end of a part of the string. -/
theorem isCharBoundary_iff {s : String} {i : ℕ} :
    isCharBoundary s i = true ↔ ∃ p t, s = p ++ t ∧ p.utf8ByteSize = i := by
  have hvalid : isCharBoundary s i = true ↔ (⟨i⟩ : String.Pos.Raw).IsValid s := by
    rw [String.Pos.Raw.isValid_iff_isUTF8FirstByte, isCharBoundary, Bool.or_eq_true,
      decide_eq_true_iff, Option.any_eq_true]
    refine or_congr ?_ ?_
    · rw [String.Pos.Raw.ext_iff, String.byteIdx_rawEndPos]
    · constructor
      · rintro ⟨b, hb, hfirst⟩
        obtain ⟨hlt, rfl⟩ := List.getElem?_eq_some_iff.mp hb
        refine ⟨?_, of_decide_eq_true hfirst⟩
        rwa [String.Pos.Raw.lt_iff, String.byteIdx_rawEndPos, ← length_asBytes]
      · rintro ⟨hlt, hfirst⟩
        rw [String.Pos.Raw.lt_iff, String.byteIdx_rawEndPos, ← length_asBytes] at hlt
        exact ⟨_, List.getElem?_eq_getElem hlt, decide_eq_true hfirst⟩
  rw [hvalid, String.Pos.Raw.isValid_iff_exists_append]
  simp only [String.Pos.Raw.ext_iff, String.byteIdx_rawEndPos, eq_comm]

theorem isCharBoundary_append (p t : String) : isCharBoundary (p ++ t) p.utf8ByteSize = true :=
  isCharBoundary_iff.mpr ⟨p, t, rfl, rfl⟩

theorem getTo_append (p t : String) :
    getTo (p ++ t).toList p.utf8ByteSize = some p.toList := by
  rw [getTo_eq_some_iff, ← utf8ByteSize_ofList, String.ofList_toList, String.toList_append]
  exact ⟨List.prefix_append _ _, rfl⟩

/-- The character positions of the device status are the boundaries. -/
theorem isSome_getTo (s : String) (i : ℕ) : (getTo s.toList i).isSome = isCharBoundary s i := by
  rw [Bool.eq_iff_iff, isCharBoundary_iff, Option.isSome_iff_exists]
  constructor
  · rintro ⟨p, hp⟩
    obtain ⟨⟨t, ht⟩, hlen⟩ := getTo_eq_some_iff.mp hp
    refine ⟨String.ofList p, String.ofList t, ?_, ?_⟩
    · rw [← String.ofList_append, ht, String.ofList_toList]
    · rw [utf8ByteSize_ofList, hlen]
  · rintro ⟨p, t, rfl, rfl⟩
    exact ⟨p.toList, getTo_append p t⟩

theorem truncate?_append (p t : String) : truncate? (p ++ t) p.utf8ByteSize = some p := by
  rw [truncate?, if_pos (by simp), if_pos (isCharBoundary_append p t), asBytes_append,
    ← length_asBytes, List.take_left, fromUtf8_asBytes]

/-! ### The cut -/

/-- The search from the end finds the last position. -/
theorem find?_reverse_range {q : ℕ → Bool} (h : q 0 = true) (n : ℕ) :
    ∃ i ≤ n, (List.range (n + 1)).reverse.find? q = some i ∧ q i = true ∧
      ∀ j ≤ n, q j = true → j ≤ i := by
  induction n with
  | zero => exact ⟨0, Nat.le_refl 0, by simp [h], h, fun j hj _ => hj⟩
  | succ n ih =>
    rw [List.range_succ, List.reverse_append, List.reverse_singleton, List.singleton_append,
      List.find?_cons]
    cases hlast : q (n + 1) with
    | true => exact ⟨n + 1, Nat.le_refl _, rfl, hlast, fun j hj _ => hj⟩
    | false =>
      obtain ⟨i, hi, hfind, hq, hmax⟩ := ih
      refine ⟨i, Nat.le_succ_of_le hi, hfind, hq, fun j hj hqj => ?_⟩
      rcases Nat.le_succ_iff.mp hj with hle | rfl
      · exact hmax j hle hqj
      · rw [hlast] at hqj
        cases hqj

theorem ellipsis_utf8Size : '…'.utf8Size = 3 := by decide

/-- A text that is too long is cut at the last boundary that leaves room for the ellipsis. -/
theorem preview_long {text : String} (h : maxLoggedTextBytes < text.utf8ByteSize) :
    ∃ p t, text = p ++ t ∧ p.utf8ByteSize ≤ 253 ∧
      (∀ i ≤ 253, isCharBoundary text i = true → i ≤ p.utf8ByteSize) ∧
      preview text = p ++ "…" ∧ preview? text = some (p ++ "…") := by
  have hzero : isCharBoundary text 0 = true :=
    isCharBoundary_iff.mpr ⟨"", text, (String.empty_append ..).symm, rfl⟩
  have hbudget : maxLoggedTextBytes - '…'.utf8Size = 253 := by rw [ellipsis_utf8Size]; rfl
  obtain ⟨stop, hstop, hfind, hboundary, hmax⟩ := find?_reverse_range hzero 253
  obtain ⟨p, t, rfl, rfl⟩ := isCharBoundary_iff.mp hboundary
  refine ⟨p, t, rfl, hstop, hmax, ?_, ?_⟩
  · simp only [preview, if_pos h, hbudget, isSome_getTo]
    rw [hfind, Option.getD_some, getTo_append, Option.getD_some, String.ofList_append,
      String.ofList_toList]
  · simp only [preview?, if_pos h, hbudget]
    rw [hfind, Option.getD_some, truncate?_append, Option.map_some]

theorem preview_short {text : String} (h : text.utf8ByteSize ≤ maxLoggedTextBytes) :
    preview text = text := if_neg (not_lt.mpr h)

/-- The cut does not panic. -/
theorem preview?_eq (text : String) : preview? text = some (preview text) := by
  by_cases h : maxLoggedTextBytes < text.utf8ByteSize
  · obtain ⟨p, t, -, -, -, hpreview, hpreview'⟩ := preview_long h
    rw [hpreview, hpreview']
  · rw [preview_short (not_lt.mp h), preview?, if_neg h]

theorem utf8ByteSize_preview_le (text : String) :
    (preview text).utf8ByteSize ≤ maxLoggedTextBytes := by
  by_cases h : maxLoggedTextBytes < text.utf8ByteSize
  · obtain ⟨p, t, -, hlen, -, hpreview, -⟩ := preview_long h
    have hellipsis : "…".utf8ByteSize = 3 := by decide
    rw [hpreview, String.utf8ByteSize_append, hellipsis]
    exact Nat.add_le_add_right hlen 3
  · rw [preview_short (not_lt.mp h)]
    exact not_lt.mp h

/-! ### The log -/

/-- The entries that were recorded since the last logout, oldest first. -/
def recordedSince (ops : List (Instant × StatusOp)) : List MessageLogEntry :=
  ops.foldl (fun recorded op => match op.2 with
    | .setLoggedOut => []
    | .recordMessage entry => recorded ++ [entry]
    | _ => recorded) []

/-- The last elements of a list, at most `n` of them. -/
def lastOf {α : Type} (n : ℕ) (l : List α) : List α := l.drop (l.length - n)

theorem length_lastOf {α : Type} (n : ℕ) (l : List α) : (lastOf n l).length = min n l.length := by
  rw [lastOf, List.length_drop]
  omega

/-- A ring that is full loses its oldest element. -/
theorem lastOf_concat {α : Type} {n : ℕ} (hn : 0 < n) (l : List α) (a : α) :
    lastOf n (l ++ [a]) =
      (if (lastOf n l).length = n then (lastOf n l).tail else lastOf n l) ++ [a] := by
  rw [length_lastOf]
  unfold lastOf
  rw [List.length_append, List.length_singleton]
  by_cases h : n ≤ l.length
  · rw [if_pos (by omega), List.tail_drop, List.drop_append_of_le_length (by omega)]
    congr 2
    omega
  · rw [if_neg (by omega), (by omega : l.length + 1 - n = 0), (by omega : l.length - n = 0),
      List.drop_zero, List.drop_zero]

/-- The log holds the last entries, with their texts cut. -/
theorem messages_runOps (ops : List (Instant × StatusOp)) :
    (runOps ops).status.messages = (lastOf messageLogCapacity (recordedSince ops)).map
      fun entry => { entry with text := entry.text.map preview } := by
  induction ops using List.reverseRecOn with
  | nil => rfl
  | append_singleton ops op ih =>
    obtain ⟨now, op⟩ := op
    rw [runOps_concat, recordedSince, List.foldl_concat, ← recordedSince]
    -- the pairing operations branch, but leave the log alone in every branch
    cases op with
    | recordMessage entry =>
      rw [lastOf_concat (by decide), List.map_append]
      simp only [PairRun.step, StatusOp.run, DeviceStatus.recordMessage, ih, List.length_map]
      split_ifs
      · rw [List.map_tail]
        rfl
      · rfl
    | setLoggedOut => rfl
    | beginPairCode =>
      simp only [PairRun.step, StatusOp.run, DeviceStatus.beginPairCode, ← ih]
      cases (runOps ops).status.pairCode with
      | ready code expiresAt =>
        simp only
        split_ifs <;> rfl
      | _ => rfl
    | completePairCode requestId code validFor =>
      simp only [PairRun.step, StatusOp.run, DeviceStatus.completePairCode, ← ih]
      split_ifs <;> rfl
    | failPairCode requestId message =>
      simp only [PairRun.step, StatusOp.run, DeviceStatus.failPairCode, ← ih]
      split_ifs <;> rfl
    | _ => exact ih

/-- After any operations the log holds the last entries recorded since the last logout, oldest
first and with only their texts changed: a text of at most 256 bytes is kept, a longer one is cut
at its last character boundary within 253 bytes and ends in an ellipsis.  The cut never panics. -/
theorem messageLog_faithful (ops : List (Instant × StatusOp)) :
    (let recorded := recordedSince ops
    (runOps ops).status.messages.length = min 16 recorded.length ∧
    (runOps ops).status.messages = (recorded.drop (recorded.length - 16)).map
      fun entry => { entry with text := entry.text.map preview }) ∧
    ∀ text : String,
      preview? text = some (preview text) ∧
      (asBytes (preview text)).length ≤ 256 ∧
      ((asBytes text).length ≤ 256 → preview text = text) ∧
      (256 < (asBytes text).length → ∃ stop ≤ 253, isCharBoundary text stop = true ∧
        (∀ i ≤ 253, isCharBoundary text i = true → i ≤ stop) ∧
        asBytes (preview text) = (asBytes text).take stop ++ asBytes "…") := by
  refine ⟨⟨?_, messages_runOps ops⟩, fun text => ⟨preview?_eq text, ?_, ?_, ?_⟩⟩
  · rw [messages_runOps, List.length_map, length_lastOf]
    rfl
  · rw [length_asBytes]
    exact utf8ByteSize_preview_le text
  · intro h
    rw [length_asBytes] at h
    exact preview_short h
  · intro h
    rw [length_asBytes] at h
    obtain ⟨p, t, rfl, hlen, hmax, hpreview, -⟩ := preview_long h
    refine ⟨p.utf8ByteSize, hlen, isCharBoundary_append p t, hmax, ?_⟩
    rw [hpreview, asBytes_append, asBytes_append, ← length_asBytes, List.take_left]

end WhatsappEsp32
