import WhatsappEsp32.Storage.FlashSpec

/-!
# The record format is a bijection

The layout of a record is computed in four places: `encode_record`, `decode_record`, the in-place
compaction of `load_record` and the mirror slice of `put_session`.

* `slice`, `copyWithin`, `checkedSub`: the operations that can panic, with `none` for a panic;
* `decodeRecordChecked`, `compact`: the decoder and the compaction in terms of them;
* `recordFormat_bijective`: the four agree on all byte strings, and nothing panics.
-/

namespace WhatsappEsp32

open CrashLogic FlashNamespaces

/-- `&b[i..j]`. -/
def slice (b : Bytes) (i j : ℕ) : Option Bytes :=
  if i ≤ j ∧ j ≤ b.length then some ((b.take j).drop i) else none

/-- `m - n` on `usize`. -/
def checkedSub (m n : ℕ) : Option ℕ := if n ≤ m then some (m - n) else none

/-- `b.copy_within(start.., 0)`. -/
def copyWithin (b : Bytes) (start : ℕ) : Option Bytes :=
  if start ≤ b.length then some (b.drop start ++ b.drop (b.length - start)) else none

/-- `decode_record`, with every index and subtraction checked. -/
def decodeRecordChecked (record : Bytes) : Option (Except StoreError (Bytes × Bytes)) :=
  let badHeader := .error (.validation "invalid WhatsApp NVS record header")
  if record.length < recordHeaderLen then
    some badHeader
  else do
    let magic ← slice record 0 3
    if magic ≠ recordMagic then
      some badHeader
    else do
      let lo ← record[3]?
      let hi ← record[4]?
      let keyLen := u16FromLeBytes lo hi
      let room ← checkedSub record.length recordHeaderLen
      if keyLen > maxLogicalKeyLen ∨ keyLen > room then
        some (.error (.validation "invalid WhatsApp NVS logical-key length"))
      else do
        let valueOffset := recordHeaderLen + keyLen
        let key ← slice record recordHeaderLen valueOffset
        let value ← slice record valueOffset record.length
        some (.ok (key, value))

/-- The end of `load_record`: the value is moved to the front of the buffer. -/
def compact (record : Bytes) (payloadLen : ℕ) : Option Bytes := do
  let payloadStart ← checkedSub record.length payloadLen
  let moved ← copyWithin record payloadStart
  some (moved.take payloadLen)

/-- The length of the key that the header declares. -/
def declaredKeyLen (record : Bytes) : ℕ := u16FromLeBytes (record.getD 3 0) (record.getD 4 0)

/-- What `decode_record` accepts. -/
structure WellFormed (record : Bytes) : Prop where
  magic : recordMagic <+: record
  length : recordHeaderLen ≤ record.length
  keyLen_le : declaredKeyLen record ≤ maxLogicalKeyLen
  keyLen_le_length : declaredKeyLen record ≤ record.length - recordHeaderLen

/-! ### Decoding -/

variable {r k v : Bytes}

/-- Every byte string with the magic number and a header, spelled out. -/
theorem exists_of_header (hlen : recordHeaderLen ≤ r.length) (hmagic : recordMagic <+: r) :
    ∃ lo hi rest, r = recordMagic ++ [lo, hi] ++ rest := by
  obtain ⟨rest, rfl⟩ := hmagic
  match rest with
  | lo :: hi :: rest => exact ⟨lo, hi, rest, by simp⟩
  | [lo] => simp [recordMagic, recordHeaderLen] at hlen
  | [] => exact absurd hlen (by decide)

theorem prefix_iff_take : recordMagic <+: r ↔ r.take 3 = recordMagic := by
  rw [List.prefix_iff_eq_take, eq_comm]
  rfl

/-- Decoding splits what follows the header. -/
theorem decodeRecord_header (lo hi : UInt8) (rest : Bytes) :
    decodeRecord (recordMagic ++ [lo, hi] ++ rest) =
      if u16FromLeBytes lo hi > maxLogicalKeyLen ∨ u16FromLeBytes lo hi > rest.length then
        .error (.validation "invalid WhatsApp NVS logical-key length")
      else .ok (rest.take (u16FromLeBytes lo hi), rest.drop (u16FromLeBytes lo hi)) := by
  have hheader : ¬((recordMagic ++ [lo, hi] ++ rest).length < recordHeaderLen ∨
      (recordMagic ++ [lo, hi] ++ rest).take 3 ≠ recordMagic) := by
    simp [recordMagic, recordHeaderLen]
  rw [decodeRecord, dif_neg hheader]
  simp [recordMagic, recordHeaderLen, Nat.add_comm 5]

theorem u16_ext {lo hi : UInt8} :
    u16ToLeBytes (u16FromLeBytes lo hi) = [lo, hi] := by
  have hlo := lo.toNat_lt
  have hhi := hi.toNat_lt
  simp only [u16ToLeBytes, u16FromLeBytes, List.cons.injEq, and_true]
  constructor
  · apply UInt8.toNat_inj.mp
    rw [UInt8.toNat_ofNat']
    omega
  · apply UInt8.toNat_inj.mp
    rw [UInt8.toNat_ofNat']
    omega

/-- What is decoded has a header. -/
theorem header_of_decodeRecord (h : decodeRecord r = .ok (k, v)) :
    recordHeaderLen ≤ r.length ∧ recordMagic <+: r := by
  rw [decodeRecord] at h
  split_ifs at h with hheader
  · obtain ⟨hlen, hmagic⟩ := not_or.mp hheader
    exact ⟨not_lt.mp hlen, prefix_iff_take.mpr (not_not.mp hmagic)⟩

/-- What is decoded is the record of its key and value. -/
theorem eq_record_of_decodeRecord (h : decodeRecord r = .ok (k, v)) :
    k.length ≤ maxLogicalKeyLen ∧ r = record k v := by
  obtain ⟨hlen, hmagic⟩ := header_of_decodeRecord h
  obtain ⟨lo, hi, rest, rfl⟩ := exists_of_header hlen hmagic
  rw [decodeRecord_header] at h
  split_ifs at h with hbad
  obtain ⟨hmax, hroom⟩ := not_or.mp hbad
  obtain ⟨rfl, rfl⟩ : rest.take (u16FromLeBytes lo hi) = k ∧
      rest.drop (u16FromLeBytes lo hi) = v := by simpa using h
  have hkey : (rest.take (u16FromLeBytes lo hi)).length = u16FromLeBytes lo hi := by
    rw [List.length_take]
    omega
  refine ⟨by rw [hkey]; omega, ?_⟩
  rw [record, hkey, u16_ext, List.append_assoc _ (List.take _ _), List.take_append_drop]

/-- Encoding undoes decoding. -/
theorem encodeRecord_of_decodeRecord (h : decodeRecord r = .ok (k, v)) : encodeRecord k v = .ok r := by
  obtain ⟨hk, rfl⟩ := eq_record_of_decodeRecord h
  exact encodeRecord_of_le hk v

theorem decodeRecord_isOk_iff : (∃ kv, decodeRecord r = .ok kv) ↔ WellFormed r := by
  constructor
  · rintro ⟨⟨k, v⟩, h⟩
    obtain ⟨hlen, hmagic⟩ := header_of_decodeRecord h
    obtain ⟨lo, hi, rest, rfl⟩ := exists_of_header hlen hmagic
    rw [decodeRecord_header] at h
    split_ifs at h with hbad
    obtain ⟨hmax, hroom⟩ := not_or.mp hbad
    refine ⟨hmagic, hlen, not_lt.mp hmax, ?_⟩
    simpa [recordMagic, recordHeaderLen, declaredKeyLen] using hroom
  · rintro ⟨hmagic, hlen, hmax, hroom⟩
    obtain ⟨lo, hi, rest, rfl⟩ := exists_of_header hlen hmagic
    refine ⟨_, (decodeRecord_header lo hi rest).trans (if_neg ?_)⟩
    have hmax : u16FromLeBytes lo hi ≤ maxLogicalKeyLen := hmax
    have hroom : u16FromLeBytes lo hi ≤ rest.length := by
      simpa [recordMagic, recordHeaderLen, declaredKeyLen] using hroom
    omega

/-! ### Nothing panics -/

theorem slice_of_le {b : Bytes} {i j : ℕ} (hij : i ≤ j) (hj : j ≤ b.length) :
    slice b i j = some ((b.take j).drop i) := if_pos ⟨hij, hj⟩

/-- No index of the decoder is out of range, on any input. -/
theorem decodeRecordChecked_eq (r : Bytes) : decodeRecordChecked r = some (decodeRecord r) := by
  by_cases hlen : r.length < recordHeaderLen
  · rw [decodeRecordChecked, if_pos hlen, decodeRecord, dif_pos (Or.inl hlen)]
  · have h5 : 5 ≤ r.length := not_lt.mp hlen
    rw [decodeRecordChecked, if_neg hlen, slice_of_le (Nat.zero_le _) (by omega), List.drop_zero]
    by_cases hmagic : r.take 3 = recordMagic
    · obtain ⟨lo, hi, rest, rfl⟩ := exists_of_header h5 (prefix_iff_take.mpr hmagic)
      have hroom : checkedSub (recordMagic ++ [lo, hi] ++ rest).length recordHeaderLen =
          some rest.length := by
        simp [checkedSub, recordMagic, recordHeaderLen]
      have hlo : (recordMagic ++ [lo, hi] ++ rest)[3]? = some lo := rfl
      have hhi : (recordMagic ++ [lo, hi] ++ rest)[4]? = some hi := rfl
      rw [decodeRecord_header, hmagic]
      simp only [Option.bind_eq_bind, Option.bind_some, ne_eq, not_true_eq_false, if_false, hlo, hhi,
        hroom]
      split_ifs with hbad
      · rfl
      · have hle : recordHeaderLen + u16FromLeBytes lo hi ≤
            (recordMagic ++ [lo, hi] ++ rest).length := by
          simp [recordMagic, recordHeaderLen]
          omega
        rw [slice_of_le (Nat.le_add_right _ _) hle, slice_of_le hle le_rfl]
        simp [recordMagic, recordHeaderLen, Nat.add_comm 5]
    · rw [decodeRecord, dif_pos (Or.inr hmagic)]
      simp [hmagic]

/-- The compaction leaves the value. -/
theorem compact_record (k v : Bytes) : compact (record k v) v.length = some v := by
  have hstart : (record k v).length - v.length = recordHeaderLen + k.length := by
    rw [record_length, recordHeaderLen]
    omega
  have hsub : checkedSub (record k v).length v.length = some (recordHeaderLen + k.length) := by
    rw [checkedSub, if_pos (by rw [record_length]; omega), hstart]
  have hmove : copyWithin (record k v) (recordHeaderLen + k.length) =
      some (v ++ (record k v).drop v.length) := by
    rw [copyWithin, if_pos (by rw [record_length, recordHeaderLen]; omega), record_payload]
    congr 3
    rw [record_length, recordHeaderLen]
    omega
  rw [compact, hsub, Option.bind_eq_bind, Option.bind_some, hmove]
  simp

/-! ### Loading and mirroring -/

section

variable {Device SyncKey : Type} {P : Platform Device SyncKey}

theorem rememberSessionSlot_namespaces (n : Ns) (name : String) (key : Bytes) (f : FlashNamespaces) :
    ∃ f', rememberSessionSlot n name key f = (.ok (), f') ∧ f'.namespaces = f.namespaces := by
  rw [rememberSessionSlot]
  split_ifs
  · exact ⟨f, rfl, rfl⟩
  · exact ⟨_, rfl, rfl⟩

/-- A record that is stored under the name of its key is loaded as its value. -/
theorem loadRecord_stored {n : Ns} {f : FlashNamespaces} {maxValueLen : ℕ}
    (hstored : (f.namespaces n).lookup (P.recordName k) = some r)
    (hdecode : decodeRecord r = .ok (k, v)) (hfits : v.length ≤ maxValueLen) :
    ∃ f', loadRecord P n k maxValueLen f = (.ok (some v), f') ∧ f'.namespaces = f.namespaces := by
  obtain ⟨hk, rfl⟩ := eq_record_of_decodeRecord hdecode
  have hread : readBlob n (P.recordName k) (recordHeaderLen + maxLogicalKeyLen + maxValueLen) f =
      (.ok (some (record k v)), f) := by
    rw [readBlob_eq, hstored]
    intro d hd
    rw [hstored] at hd
    cases hd
    rw [record_length, recordHeaderLen]
    omega
  obtain ⟨f', hremember, hsame⟩ := rememberSessionSlot_namespaces n (P.recordName k) k f
  refine ⟨f', ?_, hsame⟩
  rw [loadRecord, Prog.bind_of_ok hread]
  simp only [decodeRecord_record hk, Prog.ofExcept_ok_bind]
  rw [if_neg (by simp), if_neg (by omega), Prog.bind_of_ok hremember]
  have hpayload : ((record k v).drop ((record k v).length - v.length)).take v.length = v := by
    have hstart : (record k v).length - v.length = recordHeaderLen + k.length := by
      rw [record_length, recordHeaderLen]
      omega
    rw [hstart, record_payload, List.take_length]
  rw [hpayload]
  rfl

end

/-- **The record format is a bijection** between the keys of at most 512 bytes with their values and
the byte strings that are accepted.  The decoder accepts what `WellFormed` says, with no index out
of range; the compaction of a stored record and the mirror slice of an encoded one are the value. -/
theorem recordFormat_bijective {Device SyncKey : Type} (P : Platform Device SyncKey) :
    (∀ k v : Bytes, k.length ≤ maxLogicalKeyLen → ∃ r, encodeRecord k v = .ok r ∧
      decodeRecord r = .ok (k, v) ∧ slice r (recordHeaderLen + k.length) r.length = some v) ∧
    (∀ r k v, decodeRecord r = .ok (k, v) → encodeRecord k v = .ok r) ∧
    (∀ r, (∃ kv, decodeRecord r = .ok kv) ↔ WellFormed r) ∧
    (∀ r, decodeRecordChecked r = some (decodeRecord r)) ∧
    ∀ (n : Ns) (f : FlashNamespaces) (r k v : Bytes) (maxValueLen : ℕ),
      (f.namespaces n).lookup (P.recordName k) = some r → decodeRecord r = .ok (k, v) →
      v.length ≤ maxValueLen →
      compact r v.length = some v ∧ ∃ f', loadRecord P n k maxValueLen f = (.ok (some v), f') ∧
        f'.namespaces = f.namespaces := by
  refine ⟨?_, fun r k v => encodeRecord_of_decodeRecord, fun r => decodeRecord_isOk_iff,
    decodeRecordChecked_eq, ?_⟩
  · intro k v hk
    refine ⟨record k v, encodeRecord_of_le hk v, decodeRecord_record hk v, ?_⟩
    rw [slice_of_le (by rw [record_length, recordHeaderLen]; omega) le_rfl, List.take_length,
      record_payload]
  · intro n f r k v maxValueLen hstored hdecode hfits
    refine ⟨?_, loadRecord_stored hstored hdecode hfits⟩
    obtain ⟨-, rfl⟩ := eq_record_of_decodeRecord hdecode
    exact compact_record k v

end WhatsappEsp32
