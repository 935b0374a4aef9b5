import WhatsappEsp32.Http.Response

/-!
# Unambiguous body framings

Which heads of a response `parse_body_framing` accepts.  It scans the field lines with two
accumulators, each of which may be filled once, and leaves the length to the parser of integers,
which takes a leading `+`.

* `once`: a value that may be given once;
* `fields`, `transferEncodings`, `contentLengths`: the fields of a head that matter;
* `Unambiguous`: the framings that a head may be read as;
* `unambiguous_iff`: they are what is accepted, apart from a length with a sign.
-/

namespace WhatsappEsp32.Http

open RustStr

/-! ### A value that is given once -/

section Once

variable {α β : Type} {f : α → Option β} {as as' : List α}

/-- What is seen after more values, each of which must be good and none a second one. -/
def once (f : α → Option β) : Option β → List α → Option (Option β)
  | seen, [] => some seen
  | none, a :: as => (f a).bind fun b => once f (some b) as
  | some _, _ :: _ => none

theorem once_cons (seen : Option β) (a : α) (as : List α) :
    once f seen (a :: as) =
      (if seen.isSome then none else f a).bind fun b => once f (some b) as := by
  cases seen <;> rfl

theorem once_none_eq_some_iff {s : Option β} :
    once f none as = some s ↔ as = [] ∧ s = none ∨ ∃ a b, as = [a] ∧ f a = some b ∧ s = some b := by
  match as with
  | [] => simp [once, eq_comm]
  | [a] =>
    simp only [once, Option.bind_eq_some_iff, Option.some.injEq, reduceCtorEq, false_and,
      List.cons.injEq, and_true, exists_and_left, exists_eq_left', false_or]
    simp only [eq_comm]
  | a :: a' :: as => simp [once]

theorem once_perm (h : as.Perm as') : once f none as = once f none as' := by
  match as with
  | [] => rw [h.nil_eq]
  | [a] => rw [List.singleton_perm.mp h]
  | a :: b :: as =>
    match as' with
    | [] => exact absurd h.length_eq (by simp)
    | [a'] => exact absurd h.length_eq (by simp)
    | a' :: b' :: as' =>
      have hnone : ∀ (x y : α) xs, once f none (x :: y :: xs) = none := by
        intro x y xs
        cases hx : f x <;> simp [once, hx]
      rw [hnone, hnone]

end Once

/-! ### Integers -/

/-- The number that decimal digits denote. -/
def decimal (digits : Str) : ℕ := digits.foldl (fun n c => n * 10 + (c.toNat - '0'.toNat)) 0

theorem le_foldl_digits (digits : Str) (n : ℕ) :
    n ≤ digits.foldl (fun n c => n * 10 + (c.toNat - '0'.toNat)) n := by
  induction digits generalizing n with
  | nil => exact le_rfl
  | cons c digits ih =>
    have hstep : n ≤ n * 10 + (c.toNat - '0'.toNat) := by omega
    exact hstep.trans (ih _)

theorem parseDigits_eq_ok_iff {max n m : ℕ} {s : Str} (hn : n ≤ max) :
    parseDigits max n s = .ok m ↔ (∀ c ∈ s, c.isDigit = true) ∧
      s.foldl (fun n c => n * 10 + (c.toNat - '0'.toNat)) n = m ∧ m ≤ max := by
  induction s generalizing n with
  | nil =>
    rw [parseDigits]
    constructor
    · rintro h
      cases h
      exact ⟨nofun, rfl, hn⟩
    · rintro ⟨-, rfl, -⟩
      rfl
  | cons c s ih =>
    rw [parseDigits, List.foldl_cons]
    by_cases hc : c.isDigit = true
    · rw [if_neg (by simpa using hc)]
      by_cases hle : n * 10 + (c.toNat - '0'.toNat) ≤ max
      · rw [if_pos hle, ih hle]
        simp [hc]
      · rw [if_neg hle]
        -- the number only grows
        have hgrow := le_foldl_digits s (n * 10 + (c.toNat - '0'.toNat))
        constructor
        · exact nofun
        · rintro ⟨-, rfl, hm⟩
          exact absurd (hgrow.trans hm) hle
    · rw [if_pos (by simpa using hc)]
      constructor
      · exact nofun
      · rintro ⟨hall, -⟩
        exact absurd (hall c List.mem_cons_self) hc

/-- One digit at least. -/
def IsDecimal (s : Str) : Prop := s ≠ [] ∧ ∀ c ∈ s, c.isDigit = true

/-- The parser of integers takes digits, and digits after a `+`. -/
theorem parseUnsigned_eq_ok_iff {max n : ℕ} {s : Str} :
    parseUnsigned max s = .ok n ↔
      ∃ digits, (s = digits ∨ s = '+' :: digits) ∧ IsDecimal digits ∧ decimal digits = n ∧ n ≤ max := by
  have hdigits : ∀ digits : Str, digits ≠ [] → (parseDigits max 0 digits = .ok n ↔
      IsDecimal digits ∧ decimal digits = n ∧ n ≤ max) := by
    intro digits hne
    rw [parseDigits_eq_ok_iff (Nat.zero_le _), IsDecimal, decimal]
    tauto
  have hplus : ∀ digits : Str, ¬IsDecimal ('+' :: digits) := fun digits h =>
    absurd (h.2 '+' List.mem_cons_self) (by decide)
  fun_cases parseUnsigned max s with
  | case1 => simp [IsDecimal]
  | case2 => simp [IsDecimal]
  | case3 s hs =>
    have hne : s ≠ [] := fun h => hs (h ▸ rfl)
    rw [hdigits s hne]
    constructor
    · exact fun h => ⟨s, Or.inr rfl, h⟩
    · rintro ⟨digits, rfl | heq, hnumber, hrest⟩
      · exact absurd hnumber (hplus s)
      · rw [List.cons.inj heq |>.2]
        exact ⟨hnumber, hrest⟩
  | case4 s hnil _ hno =>
    rw [hdigits s hnil]
    constructor
    · exact fun h => ⟨s, Or.inl rfl, h⟩
    · rintro ⟨digits, rfl | heq, h⟩
      · exact h
      · exact absurd heq (hno digits)

/-! ### The fields that matter -/

/-- The name and the value of each field line; lines without a colon are skipped. -/
def fields (lines : List Str) : List (Str × Str) := lines.filterMap (splitOnce ':')

/-- The header lines that `parse_body_framing` takes for a Transfer-Encoding. -/
def isTransferEncoding (field : Str × Str) : Bool :=
  eqIgnoreAsciiCase (trim field.1) "transfer-encoding".toList

/-- The header lines that `parse_body_framing` takes for a Content-Length. -/
def isContentLength (field : Str × Str) : Bool :=
  eqIgnoreAsciiCase (trim field.1) "content-length".toList

/-- The trimmed values of the `Transfer-Encoding` fields. -/
def transferEncodings (lines : List Str) : List Str :=
  ((fields lines).filter isTransferEncoding).map fun field => trim field.2

/-- The trimmed values of the `Content-Length` fields. -/
def contentLengths (lines : List Str) : List Str :=
  ((fields lines).filter isContentLength).map fun field => trim field.2

/-- The one transfer coding that is accepted. -/
def isChunked (value : Str) : Bool := eqIgnoreAsciiCase value "chunked".toList

/-- The one transfer encoding that is taken. -/
def chunked? (value : Str) : Option Unit := if isChunked value then some () else none

/-- A length that is taken. -/
def length? (value : Str) : Option ℕ := (parseUnsigned (2 ^ 64 - 1) value).toOption

/-- An accumulator after one more field. -/
def next {β : Type} (f : Str → Option β) (relevant : Str × Str → Bool) (seen : Option β)
    (field : Str × Str) : Option (Option β) :=
  if relevant field then (if seen.isSome then none else f (trim field.2)).map some else some seen

theorem transferEncoding_toOption (chunked : Option Unit) (name value : Str) :
    (transferEncoding chunked.isSome name value).toOption =
      (next chunked? isTransferEncoding chunked (name, value)).map Option.isSome := by
  unfold transferEncoding next isTransferEncoding chunked? isChunked
  cases chunked <;> split_ifs <;> simp_all [Except.toOption]

theorem contentLength_toOption (seen : Option ℕ) (name value : Str) :
    (contentLength seen name value).toOption = next length? isContentLength seen (name, value) := by
  unfold contentLength next isContentLength length?
  by_cases hname : eqIgnoreAsciiCase (trim name) "content-length".toList = true
  · simp only [if_pos hname]
    cases parseUnsigned (2 ^ 64 - 1) (trim value) <;> cases seen <;> simp [Except.toOption]
  · simp only [if_neg hname]
    rfl

/-- What the fields of one name come to, one field at a time. -/
theorem once_fields {β : Type} (f : Str → Option β) (relevant : Str × Str → Bool) (seen : Option β)
    (field : Str × Str) (rest : List (Str × Str)) :
    once f seen (((field :: rest).filter relevant).map fun field => trim field.2) =
      (next f relevant seen field).bind fun seen =>
        once f seen ((rest.filter relevant).map fun field => trim field.2) := by
  by_cases h : relevant field = true
  · rw [next, if_pos h, List.filter_cons_of_pos h, List.map_cons, once_cons, Option.bind_map]
    rfl
  · rw [next, if_neg h, List.filter_cons_of_neg h]
    rfl

theorem toOption_bind {ε α β : Type} (x : Except ε α) (f : α → Except ε β) :
    (x >>= f).toOption = x.toOption.bind fun a => (f a).toOption := by
  cases x <;> rfl

/-- The loop fills the two accumulators independently. -/
theorem framingFields_toOption (lines : List Str) (seen : Option ℕ) (chunked : Option Unit) :
    (framingFields lines seen chunked.isSome).toOption =
      (once chunked? chunked (transferEncodings lines)).bind fun chunked =>
        (once length? seen (contentLengths lines)).map fun seen => (seen, chunked.isSome) := by
  induction lines generalizing seen chunked with
  | nil => rfl
  | cons line lines ih =>
    rw [framingFields]
    cases hsplit : splitOnce ':' line with
    | none =>
      have hfields : fields (line :: lines) = fields lines := List.filterMap_cons_none hsplit
      rw [transferEncodings, contentLengths, hfields]
      exact ih seen chunked
    | some field =>
      obtain ⟨name, value⟩ := field
      have hfields : fields (line :: lines) = (name, value) :: fields lines :=
        List.filterMap_cons_some hsplit
      simp only
      rw [toOption_bind, transferEncoding_toOption, transferEncodings, contentLengths, hfields,
        once_fields, once_fields]
      simp only [toOption_bind, contentLength_toOption]
      cases next chunked? isTransferEncoding chunked (name, value) with
      | none => rfl
      | some chunked =>
        cases next length? isContentLength seen (name, value) with
        | none => simp
        | some seen => exact ih seen chunked

/-! ### The framing of a head -/

/-- The field lines of a head. -/
def fieldLines (header : String) : List Str := (lines header.toList).drop 1

/-- The framing that the two accumulators amount to. -/
def combine : Option ℕ → Option Unit → Option BodyFraming
  | some _, some () => none
  | none, some () => some .chunked
  | some length, none => some (.length length)
  | none, none => some .close

/-- The framing of a header block, `none` when it is refused. -/
def framing? (lines : List Str) : Option BodyFraming :=
  (once chunked? none (transferEncodings lines)).bind fun chunked =>
    (once length? none (contentLengths lines)).bind fun seen => combine seen chunked

theorem framingOf_toOption (seen : Option ℕ) (chunked : Option Unit) :
    (framingOf (seen, chunked.isSome)).toOption = combine seen chunked := by
  cases seen <;> cases chunked <;> rfl

theorem parseBodyFraming_toOption (header : String) :
    (parseBodyFraming (asBytes header)).toOption = framing? (fieldLines header) := by
  have hfields := framingFields_toOption (fieldLines header) none none
  rw [parseBodyFraming, fromUtf8_asBytes]
  simp only
  rw [toOption_bind]
  change (framingFields (fieldLines header) none _).toOption.bind _ = _
  rw [show false = (none : Option Unit).isSome from rfl, hfields, framing?, Option.bind_assoc]
  congr 1
  funext chunked
  rw [Option.bind_map]
  congr 1
  funext seen
  exact framingOf_toOption seen chunked

section

variable {lines : List Str}

theorem chunked?_eq_some_iff {value : Str} {u : Unit} : chunked? value = some u ↔ isChunked value := by
  simp [chunked?]

/-- The cases of an accepted framing. -/
theorem framing?_eq_some_iff {b : BodyFraming} :
    framing? lines = some b ↔
      (∃ v, transferEncodings lines = [v] ∧ isChunked v ∧ contentLengths lines = [] ∧ b = .chunked) ∨
      (∃ v n, transferEncodings lines = [] ∧ contentLengths lines = [v] ∧ length? v = some n ∧
        b = .length n) ∨
      transferEncodings lines = [] ∧ contentLengths lines = [] ∧ b = .close := by
  rw [framing?, Option.bind_eq_some_iff]
  simp only [Option.bind_eq_some_iff, once_none_eq_some_iff, chunked?_eq_some_iff]
  constructor
  · rintro ⟨chunked, hchunked, seen, hseen, hb⟩
    rcases hchunked with ⟨hte, rfl⟩ | ⟨v, ⟨⟩, hte, hv, rfl⟩ <;>
      rcases hseen with ⟨hcl, rfl⟩ | ⟨w, n, hcl, hw, rfl⟩
    · exact Or.inr (Or.inr ⟨hte, hcl, (Option.some.inj hb).symm⟩)
    · exact Or.inr (Or.inl ⟨w, n, hte, hcl, hw, (Option.some.inj hb).symm⟩)
    · exact Or.inl ⟨v, hte, hv, hcl, (Option.some.inj hb).symm⟩
    · cases hb
  · rintro (⟨v, hte, hv, hcl, rfl⟩ | ⟨v, n, hte, hcl, hv, rfl⟩ | ⟨hte, hcl, rfl⟩)
    · exact ⟨some (), Or.inr ⟨v, (), hte, hv, rfl⟩, none, Or.inl ⟨hcl, rfl⟩, rfl⟩
    · exact ⟨none, Or.inl ⟨hte, rfl⟩, some n, Or.inr ⟨v, n, hcl, hv, rfl⟩, rfl⟩
    · exact ⟨none, Or.inl ⟨hte, rfl⟩, none, Or.inl ⟨hcl, rfl⟩, rfl⟩

/-- The order of the field lines does not matter. -/
theorem framing?_perm {lines' : List Str} (h : lines.Perm lines') : framing? lines = framing? lines' := by
  have hte : (transferEncodings lines).Perm (transferEncodings lines') :=
    ((h.filterMap _).filter _).map _
  have hcl : (contentLengths lines).Perm (contentLengths lines') :=
    ((h.filterMap _).filter _).map _
  rw [framing?, framing?, once_perm hte, once_perm hcl]

end

theorem toOption_eq_some {ε α : Type} {x : Except ε α} {a : α} : x.toOption = some a ↔ x = .ok a := by
  cases x <;> simp [Except.toOption]

theorem length?_eq_some_iff {value : Str} {n : ℕ} :
    length? value = some n ↔ ∃ digits, (value = digits ∨ value = '+' :: digits) ∧ IsDecimal digits ∧
      decimal digits = n ∧ n < 2 ^ 64 := by
  rw [length?, toOption_eq_some, parseUnsigned_eq_ok_iff]
  simp only [Nat.lt_iff_le_pred (Nat.two_pow_pos 64)]

/-! ### What is accepted -/

/-- A head is read as it must be: as chunked if its one transfer encoding is `chunked` and there is
no length, as a length if there is one, in digits, and no transfer encoding, up to the end of the
stream if there is neither; and in any order of the field lines. -/
structure Unambiguous (header : String) : Prop where
  chunked : parseBodyFraming (asBytes header) = .ok .chunked ↔
    ∃ v, transferEncodings (fieldLines header) = [v] ∧ isChunked v ∧
      contentLengths (fieldLines header) = []
  length : ∀ n, parseBodyFraming (asBytes header) = .ok (.length n) ↔
    transferEncodings (fieldLines header) = [] ∧
      ∃ v, contentLengths (fieldLines header) = [v] ∧ IsDecimal v ∧ decimal v = n ∧ n < 2 ^ 64
  close : parseBodyFraming (asBytes header) = .ok .close ↔
    transferEncodings (fieldLines header) = [] ∧ contentLengths (fieldLines header) = []
  perm : ∀ header', (lines header.toList).head? = (lines header'.toList).head? →
    (fieldLines header).Perm (fieldLines header') →
    (parseBodyFraming (asBytes header')).toOption = (parseBodyFraming (asBytes header)).toOption

/-- There is no transfer encoding, and the one length is digits after a `+`. -/
def SignedLength (header : String) : Prop :=
  transferEncodings (fieldLines header) = [] ∧
    ∃ digits, contentLengths (fieldLines header) = ['+' :: digits] ∧ IsDecimal digits ∧
      decimal digits < 2 ^ 64

theorem parseBodyFraming_eq_ok_iff {header : String} {b : BodyFraming} :
    parseBodyFraming (asBytes header) = .ok b ↔ framing? (fieldLines header) = some b := by
  rw [← parseBodyFraming_toOption, toOption_eq_some]

/-- **Framings are unambiguous** exactly if the length has no sign. -/
theorem unambiguous_iff (header : String) : Unambiguous header ↔ ¬SignedLength header := by
  constructor
  · rintro h ⟨hte, digits, hcl, hnumber, hlt⟩
    have hparse : parseBodyFraming (asBytes header) = .ok (.length (decimal digits)) := by
      rw [parseBodyFraming_eq_ok_iff, framing?_eq_some_iff]
      refine Or.inr (Or.inl ⟨_, decimal digits, hte, hcl, ?_, rfl⟩)
      exact length?_eq_some_iff.mpr ⟨digits, Or.inr rfl, hnumber, rfl, hlt⟩
    obtain ⟨-, v, hv, hnumber', -⟩ := (h.length _).mp hparse
    obtain rfl : '+' :: digits = v := by simpa [hcl] using hv
    exact absurd (hnumber'.2 '+' List.mem_cons_self) (by decide)
  · intro h
    refine ⟨?_, fun n => ?_, ?_, fun header' _ hperm => ?_⟩
    · rw [parseBodyFraming_eq_ok_iff, framing?_eq_some_iff]
      simp
    · rw [parseBodyFraming_eq_ok_iff, framing?_eq_some_iff]
      simp only [reduceCtorEq, and_false, exists_false, false_or, or_false, BodyFraming.length.injEq]
      constructor
      · rintro ⟨v, m, hte, hcl, hv, rfl⟩
        obtain ⟨digits, rfl | rfl, hnumber, hdecimal, hlt⟩ := length?_eq_some_iff.mp hv
        · exact ⟨hte, _, hcl, hnumber, hdecimal, hlt⟩
        · exact absurd ⟨hte, digits, hcl, hnumber, hdecimal.symm ▸ hlt⟩ h
      · rintro ⟨hte, v, hcl, hnumber, hdecimal, hlt⟩
        exact ⟨v, n, hte, hcl, length?_eq_some_iff.mpr ⟨v, Or.inl rfl, hnumber, hdecimal, hlt⟩, rfl⟩
    · rw [parseBodyFraming_eq_ok_iff, framing?_eq_some_iff]
      simp
    · rw [parseBodyFraming_toOption, parseBodyFraming_toOption, framing?_perm hperm]

/-- A length of `+5` is taken for `5`. -/
theorem signedLength_accepted :
    parseBodyFraming (asBytes "HTTP/1.1 200 OK\r\nContent-Length: +5\r\n\r\n") = .ok (.length 5) ∧
    contentLengths (fieldLines "HTTP/1.1 200 OK\r\nContent-Length: +5\r\n\r\n") = [['+', '5']] ∧
    ¬Unambiguous "HTTP/1.1 200 OK\r\nContent-Length: +5\r\n\r\n" := by
  have hcl : contentLengths (fieldLines "HTTP/1.1 200 OK\r\nContent-Length: +5\r\n\r\n") =
      [['+', '5']] := by decide
  have hparse : parseBodyFraming (asBytes "HTTP/1.1 200 OK\r\nContent-Length: +5\r\n\r\n") =
      .ok (.length 5) := by
    rw [parseBodyFraming_eq_ok_iff]
    decide
  refine ⟨hparse, hcl, fun h => ?_⟩
  obtain ⟨-, v, hv, hnumber, -⟩ := (h.length 5).mp hparse
  obtain rfl : ['+', '5'] = v := by simpa [hcl] using hv
  exact absurd (hnumber.2 '+' List.mem_cons_self) (by decide)

end WhatsappEsp32.Http
