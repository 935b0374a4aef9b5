import Mathlib.Tactic
import WhatsappEsp32.Lib.RustStr

/-!
# The flash record format

One NVS blob holds one record: the magic `WA1`, the length of the logical key as a little-endian
`u16`, the logical key, the value.  The physical name of a blob is a truncated hash, so the
logical key inside the record is what detects a name collision.

* `encodeRecord`, `decodeRecord`;
* `StoreError`: the errors of the store;
* the key codecs: addresses are UTF-8 strings (`asBytes`, `fromUtf8`), prekey ids are
  little-endian `u32`s (`u32ToLeBytes`, `decodeU32Key`).

Allocation failures are not modelled: every `try_reserve_exact` succeeds.
-/

namespace WhatsappEsp32

/-- A byte string. -/
abbrev Bytes := List UInt8

/-- `StoreError` with the messages it is made of, and `other` for the messages `NvsStore::open` raises
through `anyhow`. -/
inductive StoreError
  | validation (message : String)
  | io (message : String)
  | serialization (message : String)
  | other (message : String)
  deriving DecidableEq, Repr

/-- `RECORD_MAGIC`. -/
def recordMagic : Bytes := [0x57, 0x41, 0x31]

/-- `RECORD_HEADER_LEN`: the magic and the length of the key. -/
def recordHeaderLen : ℕ := 5

/-- `MAX_LOGICAL_KEY_LEN`. -/
def maxLogicalKeyLen : ℕ := 512

/-- `u16::to_le_bytes`. -/
def u16ToLeBytes (n : ℕ) : Bytes := [UInt8.ofNat n, UInt8.ofNat (n / 256)]

/-- `u16::from_le_bytes`. -/
def u16FromLeBytes (lo hi : UInt8) : ℕ := lo.toNat + 256 * hi.toNat

theorem u16FromLeBytes_toLeBytes {n : ℕ} (h : n < 65536) :
    u16FromLeBytes (UInt8.ofNat n) (UInt8.ofNat (n / 256)) = n := by
  simp only [u16FromLeBytes, UInt8.toNat_ofNat']
  omega

/-- The bytes of a record, for a key whose length has been checked. -/
def record (logicalKey value : Bytes) : Bytes :=
  recordMagic ++ u16ToLeBytes logicalKey.length ++ logicalKey ++ value

/-- `encode_record`: magic, length of the key, key, value. -/
def encodeRecord (logicalKey value : Bytes) : Except StoreError Bytes :=
  if logicalKey.length > maxLogicalKeyLen then
    .error (.validation s!"logical storage key is too long: {logicalKey.length} bytes")
  else
    .ok (record logicalKey value)

/-- `decode_record`: the key and the value, every index inside the record. -/
def decodeRecord (record : Bytes) : Except StoreError (Bytes × Bytes) :=
  if h : record.length < recordHeaderLen ∨ record.take 3 ≠ recordMagic then
    .error (.validation "invalid WhatsApp NVS record header")
  else
    have h5 : 5 ≤ record.length := by
      simp only [recordHeaderLen] at h
      omega
    let keyLen := u16FromLeBytes (record.get ⟨3, by omega⟩) (record.get ⟨4, by omega⟩)
    if keyLen > maxLogicalKeyLen ∨ keyLen > record.length - recordHeaderLen then
      .error (.validation "invalid WhatsApp NVS logical-key length")
    else
      let valueOffset := recordHeaderLen + keyLen
      .ok ((record.take valueOffset).drop recordHeaderLen, record.drop valueOffset)

@[simp] theorem record_length (k v : Bytes) : (record k v).length = 5 + k.length + v.length := by
  simp [record, recordMagic, u16ToLeBytes]
  omega

/-- The value part of a record. -/
theorem record_payload (k v : Bytes) : (record k v).drop (recordHeaderLen + k.length) = v := by
  simp [record, recordMagic, recordHeaderLen, u16ToLeBytes, Nat.add_comm 5]

theorem encodeRecord_of_le {k : Bytes} (h : k.length ≤ maxLogicalKeyLen) (v : Bytes) :
    encodeRecord k v = .ok (record k v) := by
  rw [encodeRecord, if_neg (by omega)]

/-- Decoding undoes encoding. -/
theorem decodeRecord_record {k : Bytes} (h : k.length ≤ maxLogicalKeyLen) (v : Bytes) :
    decodeRecord (record k v) = .ok (k, v) := by
  have hk : k.length < 65536 := lt_of_le_of_lt h (by decide)
  have hlen : ¬((record k v).length < recordHeaderLen ∨ (record k v).take 3 ≠ recordMagic) := by
    rw [record_length, recordHeaderLen]
    simp [record, recordMagic]
    omega
  rw [decodeRecord, dif_neg hlen]
  have hkey : u16FromLeBytes ((record k v).get ⟨3, by simp; omega⟩)
      ((record k v).get ⟨4, by simp; omega⟩) = k.length := by
    simpa [record, recordMagic, u16ToLeBytes] using u16FromLeBytes_toLeBytes hk
  simp only [hkey]
  rw [if_neg (by simp [recordHeaderLen]; omega)]
  have htake : (record k v).take (recordHeaderLen + k.length) =
      recordMagic ++ u16ToLeBytes k.length ++ k := by
    rw [record, List.take_left' (by simp [recordMagic, u16ToLeBytes, recordHeaderLen]; omega)]
  have hdrop : (record k v).drop (recordHeaderLen + k.length) = v := by
    rw [record, List.drop_left' (by simp [recordMagic, u16ToLeBytes, recordHeaderLen]; omega)]
  rw [htake, hdrop]
  rw [List.drop_left' (by simp [recordMagic, u16ToLeBytes, recordHeaderLen])]

/-- A record determines its key and its value. -/
theorem record_inj {k k' v v' : Bytes} (hk : k.length ≤ maxLogicalKeyLen)
    (hk' : k'.length ≤ maxLogicalKeyLen) (h : record k v = record k' v') : k = k' ∧ v = v' := by
  have hd := decodeRecord_record hk v
  rw [h, decodeRecord_record hk' v'] at hd
  simpa [eq_comm] using hd

/-! ### Logical keys -/

/-- `str::as_bytes`. -/
def asBytes (s : String) : Bytes := s.toByteArray.data.toList

/-- `String::from_utf8`. -/
def fromUtf8 (b : Bytes) : Option String := String.fromUTF8? ⟨b.toArray⟩

theorem asBytes_injective : Function.Injective asBytes := by
  intro s t h
  rw [← String.toByteArray_inj]
  exact ByteArray.ext (Array.toList_inj.mp h)

@[simp] theorem asBytes_inj {s t : String} : asBytes s = asBytes t ↔ s = t :=
  asBytes_injective.eq_iff

@[simp] theorem fromUtf8_asBytes (s : String) : fromUtf8 (asBytes s) = some s := by
  have hb : (⟨(asBytes s).toArray⟩ : ByteArray) = s.toByteArray := by
    simp [asBytes]
  rw [fromUtf8, hb, String.fromUTF8?, dif_pos s.isValidUTF8]
  rfl

theorem asBytes_of_fromUtf8 {b : Bytes} {s : String} (h : fromUtf8 b = some s) :
    asBytes s = b := by
  rw [fromUtf8, String.fromUTF8?] at h
  split_ifs at h with hv
  cases h
  simp [asBytes, String.fromUTF8]

theorem fromUtf8_eq_some_iff {b : Bytes} {s : String} : fromUtf8 b = some s ↔ asBytes s = b :=
  ⟨asBytes_of_fromUtf8, fun h => h ▸ fromUtf8_asBytes s⟩

theorem asBytes_append (s t : String) : asBytes (s ++ t) = asBytes s ++ asBytes t := by
  simp [asBytes]

/-- `u32::to_le_bytes`. -/
def u32ToLeBytes (n : UInt32) : Bytes :=
  [UInt8.ofNat n.toNat, UInt8.ofNat (n.toNat / 256), UInt8.ofNat (n.toNat / 65536),
    UInt8.ofNat (n.toNat / 16777216)]

/-- `decode_string_key`: the key as UTF-8. -/
def decodeStringKey (key : Bytes) (label : String) : Except StoreError String :=
  match fromUtf8 key with
  | some s => .ok s
  | none => .error (.other s!"invalid {label} key: {RustStr.utf8ErrorText key}")

/-- `decode_u32_key`: the key as four bytes, little-endian. -/
def decodeU32Key (key : Bytes) (label : String) : Except StoreError UInt32 :=
  match key with
  | [a, b, c, d] =>
    .ok (UInt32.ofNat (a.toNat + 256 * b.toNat + 65536 * c.toNat + 16777216 * d.toNat))
  | _ => .error (.other s!"invalid {label} numeric key length: {key.length}")

@[simp] theorem decodeU32Key_u32ToLeBytes (n : UInt32) (label : String) :
    decodeU32Key (u32ToLeBytes n) label = .ok n := by
  have hn := n.toNat_lt
  simp only [u32ToLeBytes, decodeU32Key, UInt8.toNat_ofNat', Except.ok.injEq]
  apply UInt32.toNat_inj.mp
  rw [UInt32.toNat_ofNat']
  omega

theorem u32ToLeBytes_injective : Function.Injective u32ToLeBytes := by
  intro m n h
  have hd := decodeU32Key_u32ToLeBytes m ""
  rw [h, decodeU32Key_u32ToLeBytes] at hd
  exact (Except.ok.inj hd).symm

@[simp] theorem u32ToLeBytes_inj {m n : UInt32} : u32ToLeBytes m = u32ToLeBytes n ↔ m = n :=
  u32ToLeBytes_injective.eq_iff

/-! ### Record names -/

/-- The base32 character with the given index of a digest. -/
def base32Char (digest : Bytes) (index : ℕ) : Char :=
  let alphabet := "abcdefghijklmnopqrstuvwxyz234567".toList
  let bit := index * 5
  let byte := bit / 8
  let shift := bit % 8
  let value := digest.getD byte 0 <<< UInt8.ofNat shift
  let value :=
    if shift > 3 then value ||| digest.getD (byte + 1) 0 >>> UInt8.ofNat (8 - shift) else value
  alphabet.getD (value >>> 3).toNat 'a'

/-- `record_name`, over the digest function of the SHA-256 crate. -/
def recordNameOf (sha256 : Bytes → Bytes) (logicalKey : Bytes) : String :=
  String.ofList ((List.range 15).map (base32Char (sha256 logicalKey)))

theorem base32Char_ne_nul (digest : Bytes) (index : ℕ) : base32Char digest index ≠ '\x00' := by
  have hall : ∀ n, "abcdefghijklmnopqrstuvwxyz234567".toList.getD n 'a' ∈
      "abcdefghijklmnopqrstuvwxyz234567".toList := by
    intro n
    rw [List.getD_eq_getElem?_getD]
    cases hc : "abcdefghijklmnopqrstuvwxyz234567".toList[n]? with
    | none => decide
    | some c => exact List.mem_of_getElem? hc
  have hmem : base32Char digest index ∈ "abcdefghijklmnopqrstuvwxyz234567".toList := hall _
  intro h
  rw [h] at hmem
  revert hmem
  decide

theorem recordNameOf_noNul (sha256 : Bytes → Bytes) (k : Bytes) :
    '\x00' ∉ (recordNameOf sha256 k).toList := by
  intro h
  rw [recordNameOf, String.toList_ofList] at h
  obtain ⟨index, -, hindex⟩ := List.mem_map.mp h
  exact base32Char_ne_nul _ index hindex

end WhatsappEsp32
