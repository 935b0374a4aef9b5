import Mathlib.Data.Bool.AllAny
import Mathlib.Data.Nat.Bitwise
import WhatsappEsp32.Storage.Nvs

/-!
# Record names

`record_name` spells the first 75 bits of a SHA-256 digest in base32.  A character takes five bits,
which lie in one byte of the digest or straddle two.

* `base32Char?`, `recordName?`: the loop of `record_name`, where an index out of range is a panic;
* `digestBit`, `letter`: the bits of a digest, most significant first, in groups of five;
* `recordName?_eq`: the loop does not panic, and gives the name that the store uses;
* `recordName_bits`: the characters are the letters, and what a name says about the digest.
-/

namespace WhatsappEsp32

/-- A SHA-256 digest. -/
abbrev Digest := Vector UInt8 32

/-- The lower-case letters and digits of base 32. -/
def base32Alphabet : List Char := "abcdefghijklmnopqrstuvwxyz234567".toList

/-- One iteration of the loop.  `none` is an index out of range. -/
def base32Char? (digest : Digest) (index : ℕ) : Option Char := do
  let bit := index * 5
  let byte := bit / 8
  let shift := bit % 8
  let first ← digest[byte]?
  let value ←
    if shift > 3 then do
      let next ← digest[byte + 1]?
      pure (first <<< UInt8.ofNat shift ||| next >>> UInt8.ofNat (8 - shift))
    else
      pure (first <<< UInt8.ofNat shift)
  base32Alphabet[(value >>> 3).toNat]?

/-- The name as the loop pushes it, `none` where an index is out of bounds. -/
def recordName? (sha256 : Bytes → Digest) (logicalKey : Bytes) : Option String :=
  ((List.range 15).mapM (base32Char? (sha256 logicalKey))).map String.ofList

/-! ### The bits of a digest -/

/-- Bit `n` of a digest, the most significant bit of its first byte being bit `0`. -/
def digestBit (digest : Digest) (n : ℕ) : Bool :=
  (digest.toList.getD (n / 8) 0).toNat.testBit (7 - n % 8)

/-- The bits `5 * i` to `5 * i + 4`, most significant first. -/
def letter (digest : Digest) (i : ℕ) : ℕ :=
  Nat.ofBits fun j : Fin 5 => digestBit digest (5 * i + (4 - j))

/-- Bit `n` of two bytes in a row. -/
def pairBit (first next : UInt8) (n : ℕ) : Bool :=
  if n < 8 then first.toNat.testBit (7 - n) else next.toNat.testBit (15 - n)

theorem testBit_byte_of_ge (b : UInt8) {n : ℕ} (h : 8 ≤ n) : b.toNat.testBit n = false :=
  Nat.testBit_lt_two_pow (b.toNat_lt.trans_le (Nat.pow_le_pow_right (by decide) h))

/-- The byte that has the five bits from position `shift` on at its front. -/
def window (first next : UInt8) (shift : ℕ) : UInt8 :=
  if shift > 3 then first <<< UInt8.ofNat shift ||| next >>> UInt8.ofNat (8 - shift)
  else first <<< UInt8.ofNat shift

theorem testBit_shiftLeft_byte (b : UInt8) {shift t : ℕ} (hshift : shift < 8) (ht : t < 8) :
    (b <<< UInt8.ofNat shift).toNat.testBit t =
      (decide (shift ≤ t) && b.toNat.testBit (t - shift)) := by
  have hmod : shift % 2 ^ 8 % 8 = shift := by omega
  rw [UInt8.toNat_shiftLeft, UInt8.toNat_ofNat', hmod, Nat.testBit_mod_two_pow,
    Nat.testBit_shiftLeft, decide_eq_true ht, Bool.true_and]

theorem testBit_shiftRight_byte (b : UInt8) {shift : ℕ} (hshift : shift < 8) (t : ℕ) :
    (b >>> UInt8.ofNat shift).toNat.testBit t = b.toNat.testBit (shift + t) := by
  have hmod : shift % 2 ^ 8 % 8 = shift := by omega
  rw [UInt8.toNat_shiftRight, UInt8.toNat_ofNat', hmod, Nat.testBit_shiftRight]

theorem testBit_window (first next : UInt8) {shift t : ℕ} (hshift : shift < 8) (h3 : 3 ≤ t)
    (h8 : t < 8) : (window first next shift).toNat.testBit t =
      pairBit first next (shift + 7 - t) := by
  unfold window pairBit
  by_cases hlong : shift > 3
  · rw [if_pos hlong, UInt8.toNat_or, Nat.testBit_or, testBit_shiftLeft_byte _ hshift h8,
      testBit_shiftRight_byte _ (by omega)]
    -- the bit still comes from the first byte, or it is borrowed from the next one
    by_cases hle : shift ≤ t
    · rw [if_pos (by omega), testBit_byte_of_ge next (by omega), decide_eq_true hle, Bool.true_and,
        Bool.or_false]
      congr 1
      omega
    · rw [if_neg (by omega), decide_eq_false hle, Bool.false_and, Bool.false_or]
      congr 1
      omega
  · rw [if_neg hlong, testBit_shiftLeft_byte _ hshift h8, if_pos (by omega),
      decide_eq_true (by omega : shift ≤ t), Bool.true_and]
    congr 1
    omega

theorem window_eq (first next : UInt8) {shift : ℕ} (hshift : shift < 8) :
    (window first next shift >>> 3).toNat =
      Nat.ofBits fun j : Fin 5 => pairBit first next (shift + (4 - j)) := by
  apply Nat.eq_of_testBit_eq
  intro t
  have hthree : (window first next shift >>> 3).toNat.testBit t =
      (window first next shift).toNat.testBit (3 + t) := testBit_shiftRight_byte _ (by decide) t
  rw [hthree]
  by_cases ht : t < 5
  · rw [Nat.testBit_ofBits_lt _ _ ht, testBit_window first next hshift (by omega) (by omega)]
    congr 1
    dsimp only
    omega
  · rw [Nat.testBit_ofBits_ge _ _ (not_lt.mp ht), testBit_byte_of_ge _ (by omega)]

/-! ### The loop -/

variable (digest : Digest)

/-- A bit from byte `byte` on. -/
theorem digestBit_eq (byte p : ℕ) (hp : p < 16) :
    digestBit digest (8 * byte + p) =
      pairBit (digest.toList.getD byte 0) (digest.toList.getD (byte + 1) 0) p := by
  unfold digestBit pairBit
  by_cases h : p < 8
  · rw [if_pos h, (by omega : (8 * byte + p) / 8 = byte),
      (by omega : (8 * byte + p) % 8 = p)]
  · rw [if_neg h, (by omega : (8 * byte + p) / 8 = byte + 1),
      (by omega : 7 - (8 * byte + p) % 8 = 15 - p)]

theorem getElem?_digest {n : ℕ} (h : n < 32) : digest[n]? = some (digest.toList.getD n 0) := by
  have hlength : n < digest.toList.length := by rwa [Vector.length_toList]
  rw [← Vector.getElem?_toList, List.getD_eq_getElem _ _ hlength, List.getElem?_eq_getElem hlength]

/-- A letter is a window of two bytes in a row. -/
theorem letter_eq (i : ℕ) : letter digest i = (window (digest.toList.getD (i * 5 / 8) 0)
    (digest.toList.getD (i * 5 / 8 + 1) 0) (i * 5 % 8) >>> 3).toNat := by
  rw [window_eq _ _ (Nat.mod_lt _ (by decide)), letter]
  congr 1
  funext j
  rw [← digestBit_eq digest _ _ (by omega)]
  congr 1
  omega

theorem letter_lt (i : ℕ) : letter digest i < 32 := Nat.ofBits_lt_two_pow _

/-- Every index of the loop is in range. -/
theorem base32Char?_eq {i : ℕ} (h : i < 15) :
    base32Char? digest i = base32Alphabet[letter digest i]? := by
  rw [letter_eq]
  unfold base32Char? window
  simp only [getElem?_digest digest (by omega : i * 5 / 8 < 32),
    getElem?_digest digest (by omega : i * 5 / 8 + 1 < 32)]
  by_cases hlong : i * 5 % 8 > 3
  · simp only [if_pos hlong]
    rfl
  · simp only [if_neg hlong]
    rfl

/-- The model of the loop that the store uses takes no default. -/
theorem base32Char_eq (i : ℕ) :
    base32Char digest.toList i = base32Alphabet.getD (letter digest i) 'a' := by
  rw [letter_eq]
  rfl

theorem getElem?_alphabet (i : ℕ) :
    base32Alphabet[letter digest i]? = some (base32Char digest.toList i) := by
  have hlength : letter digest i < base32Alphabet.length := letter_lt digest i
  rw [base32Char_eq, List.getD_eq_getElem _ _ hlength, List.getElem?_eq_getElem hlength]

/-- Different letters are different characters. -/
theorem base32Char_inj {digest' : Digest} {i : ℕ} :
    base32Char digest.toList i = base32Char digest'.toList i ↔
      letter digest i = letter digest' i := by
  have hnodup : base32Alphabet.Nodup := by decide +kernel
  constructor
  · intro h
    have hsome := (getElem?_alphabet digest i).trans
      ((congrArg some h).trans (getElem?_alphabet digest' i).symm)
    exact (List.getElem?_inj (letter_lt digest i) hnodup).mp hsome
  · intro h
    rw [base32Char_eq, base32Char_eq, h]

/-- Equal letters are equal bits. -/
theorem letter_inj {digest' : Digest} {i : ℕ} :
    letter digest i = letter digest' i ↔
      ∀ j < 5, digestBit digest (5 * i + j) = digestBit digest' (5 * i + j) := by
  constructor
  · intro h j hj
    have hbit := congrArg (fun n => Nat.testBit n (4 - j)) h
    simp only [letter] at hbit
    rw [Nat.testBit_ofBits_lt _ _ (by omega), Nat.testBit_ofBits_lt _ _ (by omega)] at hbit
    rwa [(by omega : 4 - (4 - j) = j)] at hbit
  · intro h
    unfold letter
    congr 1
    funext j
    exact h (4 - j) (by omega)

theorem mapM_some {α β : Type} {f : α → Option β} {g : α → β} {l : List α}
    (h : ∀ a ∈ l, f a = some (g a)) : l.mapM f = some (l.map g) := by
  induction l with
  | nil => rfl
  | cons a l ih =>
    rw [List.mapM_cons, h a List.mem_cons_self, ih fun b hb => h b (List.mem_cons_of_mem _ hb)]
    rfl

/-! ### Names -/

variable (sha256 : Bytes → Digest)

/-- The loop does not panic. -/
theorem recordName?_eq (key : Bytes) :
    recordName? sha256 key = some (recordNameOf (fun key => (sha256 key).toList) key) := by
  rw [recordName?, mapM_some (g := base32Char (sha256 key).toList)]
  · rfl
  · intro i hi
    rw [base32Char?_eq _ (List.mem_range.mp hi), getElem?_alphabet]

/-- Names are equal exactly if the first 75 bits are. -/
theorem recordName?_inj (key key' : Bytes) :
    recordName? sha256 key = recordName? sha256 key' ↔
      ∀ n < 75, digestBit (sha256 key) n = digestBit (sha256 key') n := by
  rw [recordName?_eq, recordName?_eq, Option.some_inj, recordNameOf, recordNameOf,
    String.ofList_inj, List.map_inj_left]
  constructor
  · intro h n hn
    have hletter := (base32Char_inj (sha256 key)).mp
      (h (n / 5) (List.mem_range.mpr (Nat.div_lt_of_lt_mul hn)))
    have hbit := (letter_inj (sha256 key)).mp hletter (n % 5) (Nat.mod_lt n (by decide))
    rwa [Nat.div_add_mod] at hbit
  · intro h i hi
    have hi := List.mem_range.mp hi
    exact (base32Char_inj (sha256 key)).mpr ((letter_inj (sha256 key)).mpr
      fun j hj => h (5 * i + j) (by omega))

theorem ascii_of_mem_alphabet {c : Char} (h : c ∈ base32Alphabet) : c.toNat < 128 ∧ c ≠ '\x00' := by
  have hall : ∀ c ∈ base32Alphabet, c.toNat < 128 ∧ c ≠ '\x00' :=
    List.all_iff_forall_prop.mp (by decide)
  exact hall c h

/-- The name of a record is the base32 text of the first 75 bits of the digest: 15 letters, whose
indices are all in range.  Two keys have the same name exactly if their digests agree on these
bits. -/
theorem recordName_bits (key : Bytes) :
    ∃ name, recordName? sha256 key = some name ∧
      name.toList.length = 15 ∧
      (∀ i < 15, letter (sha256 key) i < base32Alphabet.length ∧
        name.toList[i]? = base32Alphabet[letter (sha256 key) i]?) ∧
      (∀ c ∈ name.toList, c.toNat < 128 ∧ c ≠ '\x00') ∧
      ∀ key', recordName? sha256 key' = some name ↔
        ∀ n < 75, digestBit (sha256 key') n = digestBit (sha256 key) n := by
  refine ⟨_, recordName?_eq sha256 key, ?_, ?_, ?_, ?_⟩
  · simp [recordNameOf]
  · intro i hi
    refine ⟨letter_lt _ i, ?_⟩
    rw [getElem?_alphabet, recordNameOf, String.toList_ofList, List.getElem?_map,
      List.getElem?_range hi]
    rfl
  · intro c hc
    rw [recordNameOf, String.toList_ofList] at hc
    obtain ⟨i, -, rfl⟩ := List.mem_map.mp hc
    exact ascii_of_mem_alphabet (List.mem_of_getElem? (getElem?_alphabet _ i))
  · intro key'
    rw [← recordName?_eq]
    exact recordName?_inj sha256 key' key

end WhatsappEsp32
