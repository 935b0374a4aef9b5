import Mathlib.Tactic
import Mathlib.Data.List.TakeWhile

/-!
# String functions of the Rust standard library

The methods of `str` that protocol code uses, on lists of characters, with their documented
behaviour: `trim` removes Unicode white space, `eq_ignore_ascii_case` folds ASCII letters only,
byte indices must fall on a character boundary.  And `position`, the first occurrence of a
pattern in a slice, with its stability under appending.

* `trim`, `splitOnce`, `split`, `lines`, `splitWhitespace`, `parseUnsigned`;
* `getTo_eq_some_iff`, `splitOnce_append`, `split_intercalate`, `unbroken_split`: the parts of a
  string, and strings that are put together from parts;
* `lossyAux`, `utf8ErrorText`: text with replacement characters, and what is wrong with it;
* `lines_blank`: blank lines at the end of a text, and `lines_intercalate`: lines that are joined;
* `position_take`, `position_append`, `position_of_append`, `position_at_end`, `position_bound`.
-/

namespace RustStr

/-- A string as its characters. -/
abbrev Str := List Char

/-- `char::is_whitespace`, the Unicode property `White_Space`. -/
def isWhitespace (c : Char) : Bool :=
  let n := c.toNat
  (9 ≤ n && n ≤ 13) || n = 0x20 || n = 0x85 || n = 0xA0 || n = 0x1680 ||
    (0x2000 ≤ n && n ≤ 0x200A) || n = 0x2028 || n = 0x2029 || n = 0x202F || n = 0x205F ||
    n = 0x3000

/-- `str::trim_start`. -/
def trimStart (s : Str) : Str := s.dropWhile isWhitespace

/-- `str::trim_end`. -/
def trimEnd (s : Str) : Str := (s.reverse.dropWhile isWhitespace).reverse

/-- `str::trim`. -/
def trim (s : Str) : Str := trimEnd (trimStart s)

/-- `str::eq_ignore_ascii_case`. -/
def eqIgnoreAsciiCase (s t : Str) : Bool := s.map Char.toLower = t.map Char.toLower

theorem trim_eq_self {s : Str} (h : ∀ c ∈ s, isWhitespace c = false) : trim s = s := by
  have hstart : ∀ s : Str, (∀ c ∈ s, isWhitespace c = false) → s.dropWhile isWhitespace = s := by
    intro s hs
    cases s with
    | nil => rfl
    | cons c s => exact List.dropWhile_cons_of_neg (by simp [hs c List.mem_cons_self])
  rw [trim, trimStart, hstart s h, trimEnd, hstart _ fun c hc => h c (List.mem_reverse.mp hc),
    List.reverse_reverse]

theorem eqIgnoreAsciiCase_iff {s t : Str} :
    eqIgnoreAsciiCase s t = true ↔ s.map Char.toLower = t.map Char.toLower := decide_eq_true_iff

/-- White space has no case. -/
theorem toLower_of_isWhitespace {c : Char} (h : isWhitespace c = true) : c.toLower = c := by
  have hupper : ¬(c.val ≥ 'A'.val ∧ c.val ≤ 'Z'.val) := by
    rintro ⟨hle, hle'⟩
    have hnat : 65 ≤ c.toNat := hle
    have hnat' : c.toNat ≤ 90 := hle'
    simp only [isWhitespace, Bool.or_eq_true, Bool.and_eq_true, decide_eq_true_eq] at h
    omega
  exact dif_neg hupper

/-- A string that equals one without white space, apart from case, has none itself. -/
theorem trim_of_eqIgnoreAsciiCase {s t : Str} (h : eqIgnoreAsciiCase s t = true)
    (ht : ∀ c ∈ t, isWhitespace c.toLower = false) : trim s = s := by
  apply trim_eq_self
  intro c hc
  by_contra hspace
  have hmem : c.toLower ∈ t.map Char.toLower := by
    rw [← eqIgnoreAsciiCase_iff.mp h]
    exact List.mem_map_of_mem hc
  obtain ⟨d, hd, heq⟩ := List.mem_map.mp hmem
  have hnot := ht d hd
  rw [heq, toLower_of_isWhitespace (Bool.not_eq_false _ ▸ hspace)] at hnot
  exact hspace hnot

/-- `str::strip_prefix`. -/
def stripPrefix (p s : Str) : Option Str := if p.isPrefixOf s then some (s.drop p.length) else none

/-- `s.get(..n)` for a byte index `n`. -/
def getTo : Str → ℕ → Option Str
  | _, 0 => some []
  | [], _ + 1 => none
  | c :: s, n + 1 =>
    if c.utf8Size ≤ n + 1 then (getTo s (n + 1 - c.utf8Size)).map (c :: ·) else none

theorem stripPrefix_eq_some_iff {p s rest : Str} : stripPrefix p s = some rest ↔ s = p ++ rest := by
  unfold stripPrefix
  constructor
  · intro h
    split_ifs at h with hp
    obtain ⟨t, rfl⟩ := List.isPrefixOf_iff_prefix.mp hp
    rw [List.drop_left, Option.some_inj] at h
    rw [h]
  · rintro rfl
    rw [if_pos (List.isPrefixOf_iff_prefix.mpr (List.prefix_append p rest)), List.drop_left]

/-- The number of bytes of a string. -/
def utf8Len (s : Str) : ℕ := (s.map Char.utf8Size).sum

@[simp] theorem utf8Len_nil : utf8Len [] = 0 := rfl

@[simp] theorem utf8Len_cons (c : Char) (s : Str) : utf8Len (c :: s) = c.utf8Size + utf8Len s := by
  simp [utf8Len]

theorem getTo_cons {c : Char} {s : Str} {n : ℕ} (h : 0 < n) :
    getTo (c :: s) n =
      if c.utf8Size ≤ n then (getTo s (n - c.utf8Size)).map (c :: ·) else none := by
  cases n with
  | zero => exact absurd h (Nat.lt_irrefl 0)
  | succ n => rfl

/-- The part of a string up to a byte index is a prefix with that many bytes. -/
theorem getTo_eq_some_iff {s p : Str} {n : ℕ} :
    getTo s n = some p ↔ p <+: s ∧ utf8Len p = n := by
  induction s generalizing p n with
  | nil =>
    rw [List.prefix_nil]
    cases n with
    | zero =>
      rw [getTo, Option.some_inj]
      constructor
      · rintro rfl
        exact ⟨rfl, rfl⟩
      · exact fun h => h.1.symm
    | succ n =>
      rw [getTo]
      constructor
      · intro h
        cases h
      · rintro ⟨rfl, h⟩
        cases h
  | cons c s ih =>
    have hpos := c.utf8Size_pos
    rcases Nat.eq_zero_or_pos n with rfl | hn
    · rw [getTo, Option.some_inj]
      cases p with
      | nil => simp
      | cons d p =>
        have hd := d.utf8Size_pos
        simp only [utf8Len_cons, reduceCtorEq, false_iff, not_and]
        omega
    · rw [getTo_cons hn]
      cases p with
      | nil =>
        simp only [utf8Len_nil, List.nil_prefix, true_and, hn.ne, iff_false]
        split_ifs <;> simp
      | cons d p =>
        rw [List.cons_prefix_cons, utf8Len_cons]
        constructor
        · intro h
          split_ifs at h with hfits
          obtain ⟨q, hq, heq⟩ := Option.map_eq_some_iff.mp h
          obtain ⟨rfl, rfl⟩ := List.cons.inj heq
          obtain ⟨hstart, hlen⟩ := ih.mp hq
          exact ⟨⟨rfl, hstart⟩, by omega⟩
        · rintro ⟨⟨rfl, hstart⟩, hlen⟩
          rw [if_pos (by omega), ih.mpr ⟨hstart, by omega⟩, Option.map_some]

/-- `s.split_once(c)`. -/
def splitOnce (c : Char) (s : Str) : Option (Str × Str) :=
  match s.dropWhile (· ≠ c) with
  | [] => none
  | _ :: rest => some (s.takeWhile (· ≠ c), rest)

section SplitOnce

variable {c : Char} {s : Str}

theorem ne_of_notMem (h : c ∉ s) : ∀ d ∈ s, decide (d ≠ c) = true := by
  intro d hd
  rw [decide_eq_true_iff]
  rintro rfl
  exact h hd

theorem splitOnce_append (h : c ∉ s) (t : Str) : splitOnce c (s ++ c :: t) = some (s, t) := by
  have hne := ne_of_notMem h
  rw [splitOnce, List.dropWhile_append_of_pos hne, List.takeWhile_append_of_pos hne]
  simp

theorem splitOnce_eq_none (h : c ∉ s) : splitOnce c s = none := by
  rw [splitOnce, List.dropWhile_eq_nil_iff.mpr (ne_of_notMem h)]

end SplitOnce

/-- The pieces of `s.split(pat)`: `piece` is the current piece, reversed, and `skip` characters of
a match are still to be skipped. -/
def splitAux (pat : Str) : Str → ℕ → Str → List Str
  | piece, _, [] => [piece.reverse]
  | piece, skip + 1, _ :: s => splitAux pat piece skip s
  | piece, 0, c :: s =>
    if pat.isPrefixOf (c :: s) then
      piece.reverse :: splitAux pat [] (pat.length - 1) s
    else
      splitAux pat (c :: piece) 0 s

/-- `s.split(pat)` for a non-empty pattern. -/
def split (pat s : Str) : List Str := splitAux pat [] 0 s

/-! ### Line breaks of two characters -/

section Breaks

variable {a b : Char}

/-- The two characters do not occur one after the other. -/
def Unbroken (a b : Char) (s : Str) : Prop := s.IsChain fun c d => ¬(c = a ∧ d = b)

theorem isPrefixOf_pair {c : Char} {s : Str} :
    [a, b].isPrefixOf (c :: s) = true ↔ a = c ∧ s.head? = some b := by
  cases s with
  | nil => simp [List.isPrefixOf]
  | cons d s => simp [List.isPrefixOf, @eq_comm _ d]

/-- A break that follows an unbroken piece ends it. -/
theorem splitAux_append (hab : a ≠ b) {s : Str} (hs : Unbroken a b s) (piece rest : Str) :
    splitAux [a, b] piece 0 (s ++ a :: b :: rest) =
      (piece.reverse ++ s) :: splitAux [a, b] [] 0 rest := by
  induction s generalizing piece with
  | nil => simp [splitAux, List.isPrefixOf]
  | cons c s ih =>
    obtain ⟨hnext, hs⟩ := List.isChain_cons.mp hs
    have hno : ¬[a, b].isPrefixOf (c :: (s ++ a :: b :: rest)) = true := by
      rw [isPrefixOf_pair]
      rintro ⟨rfl, hhead⟩
      cases s with
      | nil => exact hab (Option.some.inj hhead)
      | cons d s => exact hnext d rfl ⟨rfl, Option.some.inj hhead⟩
    rw [List.cons_append, splitAux, if_neg hno, ih hs, List.reverse_cons, List.append_assoc,
      List.singleton_append]

theorem splitAux_unbroken {s : Str} (hs : Unbroken a b s) (piece : Str) :
    splitAux [a, b] piece 0 s = [piece.reverse ++ s] := by
  induction s generalizing piece with
  | nil => simp [splitAux]
  | cons c s ih =>
    obtain ⟨hnext, hs⟩ := List.isChain_cons.mp hs
    have hno : ¬[a, b].isPrefixOf (c :: s) = true := by
      rw [isPrefixOf_pair]
      rintro ⟨rfl, hhead⟩
      exact hnext b hhead ⟨rfl, rfl⟩
    rw [splitAux, if_neg hno, ih hs, List.reverse_cons, List.append_assoc, List.singleton_append]

/-- Unbroken pieces, joined by breaks, are split back. -/
theorem split_intercalate (hab : a ≠ b) {ls : List Str} (hls : ∀ l ∈ ls, Unbroken a b l)
    (hne : ls ≠ []) : split [a, b] ([a, b].intercalate ls) = ls := by
  induction ls with
  | nil => exact absurd rfl hne
  | cons l ls ih =>
    have hl := hls l List.mem_cons_self
    cases ls with
    | nil =>
      rw [List.intercalate, List.intersperse_singleton, List.flatten_singleton]
      exact splitAux_unbroken hl []
    | cons l' ls =>
      have hrest := ih (fun m hm => hls m (List.mem_cons_of_mem _ hm)) (List.cons_ne_nil _ _)
      have hjoin : [a, b].intercalate (l :: l' :: ls) =
          l ++ a :: b :: [a, b].intercalate (l' :: ls) := by
        simp [List.intercalate]
      rw [hjoin, split, splitAux_append hab hl]
      exact congrArg _ hrest

/-- The pieces are unbroken.  While a break is skipped, the next piece has not begun. -/
theorem unbroken_splitAux {s piece : Str} {skip : ℕ}
    (hpiece : piece.IsChain fun d c => ¬(c = a ∧ d = b)) (hskip : skip ≠ 0 → piece = [])
    (hnext : ¬(piece.head? = some a ∧ s.head? = some b)) :
    ∀ l ∈ splitAux [a, b] piece skip s, Unbroken a b l := by
  induction s generalizing piece skip with
  | nil =>
    intro l hl
    rw [splitAux, List.mem_singleton] at hl
    rw [hl]
    exact List.isChain_reverse.mpr hpiece
  | cons c s ih =>
    cases skip with
    | succ skip =>
      obtain rfl := hskip (Nat.succ_ne_zero skip)
      rw [splitAux]
      exact ih .nil (fun _ => rfl) fun h => nomatch h.1
    | zero =>
      rw [splitAux]
      split_ifs with hmatch
      · intro l hl
        rcases List.mem_cons.mp hl with rfl | hl
        · exact List.isChain_reverse.mpr hpiece
        · exact ih .nil (fun _ => rfl) (fun h => nomatch h.1) l hl
      · rw [isPrefixOf_pair] at hmatch
        refine ih ?_ (fun h => absurd rfl h) ?_
        · refine List.isChain_cons.mpr ⟨?_, hpiece⟩
          rintro d hd ⟨rfl, rfl⟩
          exact hnext ⟨hd, rfl⟩
        · rintro ⟨hc, hhead⟩
          exact hmatch ⟨(Option.some.inj hc).symm, hhead⟩

theorem unbroken_split {s l : Str} (h : l ∈ split [a, b] s) : Unbroken a b l :=
  unbroken_splitAux .nil (fun _ => rfl) (fun h => nomatch h.1) l h

theorem splitAux_ne_nil (pat piece : Str) (skip : ℕ) (s : Str) : splitAux pat piece skip s ≠ [] := by
  induction s generalizing piece skip with
  | nil => exact List.cons_ne_nil _ _
  | cons c s ih =>
    cases skip with
    | succ skip => exact ih _ _
    | zero =>
      rw [splitAux]
      split_ifs
      · exact List.cons_ne_nil _ _
      · exact ih _ _

end Breaks

/-- A line of `lines`, from its reversed characters: one carriage return before the line feed belongs
to the line end. -/
def lineOf : Str → Str
  | '\r' :: line => line.reverse
  | line => line.reverse

/-- The lines from here on; `line` is the current line, reversed. -/
def linesAux : Str → Str → List Str
  | line, [] => if line = [] then [] else [line.reverse]
  | line, c :: s => if c = '\n' then lineOf line :: linesAux [] s else linesAux (c :: line) s

/-- `s.lines()`: lines end in `\n` or `\r\n`, and a final line end starts no further line. -/
def lines (s : Str) : List Str := linesAux [] s

/-- Two line ends at the end only add empty lines. -/
theorem linesAux_blank (line s : Str) : ∃ n, linesAux line (s ++ ['\r', '\n', '\r', '\n']) =
    linesAux line s ++ List.replicate n [] := by
  induction s generalizing line with
  | nil =>
    cases line with
    | nil => exact ⟨2, rfl⟩
    | cons c line => exact ⟨1, by simp [linesAux, lineOf]⟩
  | cons c s ih =>
    simp only [List.cons_append, linesAux]
    by_cases hc : c = '\n'
    · obtain ⟨n, hn⟩ := ih []
      exact ⟨n, by rw [if_pos hc, if_pos hc, hn, List.cons_append]⟩
    · obtain ⟨n, hn⟩ := ih (c :: line)
      exact ⟨n, by rw [if_neg hc, if_neg hc, hn]⟩

theorem lines_blank (s : Str) : ∃ n, lines (s ++ ['\r', '\n', '\r', '\n']) =
    lines s ++ List.replicate n [] := linesAux_blank [] s

/-- A line up to its line end. -/
theorem linesAux_append {line : Str} (h : '\n' ∉ line) (front rest : Str) :
    linesAux front (line ++ '\r' :: '\n' :: rest) = (front.reverse ++ line) :: linesAux [] rest := by
  induction line generalizing front with
  | nil => simp [linesAux, lineOf]
  | cons c line ih =>
    have hc : c ≠ '\n' := fun heq => h (by simp [heq])
    have hline : '\n' ∉ line := fun hmem => h (List.mem_cons_of_mem c hmem)
    rw [List.cons_append, linesAux, if_neg hc, ih hline, List.reverse_cons, List.append_assoc,
      List.singleton_append]

/-- A last line without a line end. -/
theorem linesAux_unbroken {front line : Str} (h : '\n' ∉ line) (hne : front ++ line ≠ []) :
    linesAux front line = [front.reverse ++ line] := by
  induction line generalizing front with
  | nil =>
    have hfront : front ≠ [] := by simpa using hne
    rw [linesAux, if_neg hfront, List.append_nil]
  | cons c line ih =>
    have hc : c ≠ '\n' := fun heq => h (by simp [heq])
    have hline : '\n' ∉ line := fun hmem => h (List.mem_cons_of_mem c hmem)
    rw [linesAux, if_neg hc, ih hline (List.cons_ne_nil _ _), List.reverse_cons, List.append_assoc,
      List.singleton_append]

/-- Lines that are joined by line ends are read back. -/
theorem lines_intercalate {ls : List Str} (hls : ∀ l ∈ ls, l ≠ [] ∧ '\n' ∉ l) :
    lines (['\r', '\n'].intercalate ls) = ls := by
  induction ls with
  | nil => rfl
  | cons l ls ih =>
    obtain ⟨hne, hl⟩ := hls l List.mem_cons_self
    cases ls with
    | nil =>
      rw [List.intercalate, List.intersperse_singleton, List.flatten_singleton]
      exact linesAux_unbroken hl hne
    | cons l' ls =>
      have hrest := ih fun m hm => hls m (List.mem_cons_of_mem l hm)
      have hjoin : ['\r', '\n'].intercalate (l :: l' :: ls) =
          l ++ '\r' :: '\n' :: ['\r', '\n'].intercalate (l' :: ls) := by
        simp [List.intercalate]
      rw [hjoin, lines, linesAux_append hl]
      exact congrArg _ hrest

/-- The words from here on; `word` is the current one, reversed. -/
def splitWhitespaceAux : Str → Str → List Str
  | word, [] => if word = [] then [] else [word.reverse]
  | word, c :: s =>
    if isWhitespace c then
      if word = [] then splitWhitespaceAux [] s else word.reverse :: splitWhitespaceAux [] s
    else
      splitWhitespaceAux (c :: word) s

/-- `s.split_whitespace()`. -/
def splitWhitespace (s : Str) : List Str := splitWhitespaceAux [] s

/-- A word up to the white space behind it. -/
theorem splitWhitespaceAux_append {word front : Str} (h : ∀ c ∈ word, isWhitespace c = false)
    (hne : front ++ word ≠ []) {c : Char} (hc : isWhitespace c = true) (rest : Str) :
    splitWhitespaceAux front (word ++ c :: rest) =
      (front.reverse ++ word) :: splitWhitespaceAux [] rest := by
  induction word generalizing front with
  | nil =>
    have hfront : front ≠ [] := by simpa using hne
    rw [List.nil_append, splitWhitespaceAux, if_pos hc, if_neg hfront, List.append_nil]
  | cons d word ih =>
    have hd : ¬isWhitespace d = true := by simp [h d List.mem_cons_self]
    have hword : ∀ c ∈ word, isWhitespace c = false := fun c hmem => h c (List.mem_cons_of_mem d hmem)
    rw [List.cons_append, splitWhitespaceAux, if_neg hd, ih hword (List.cons_ne_nil _ _),
      List.reverse_cons, List.append_assoc, List.singleton_append]

theorem splitWhitespace_append {word : Str} (h : ∀ c ∈ word, isWhitespace c = false)
    (hne : word ≠ []) {c : Char} (hc : isWhitespace c = true) (rest : Str) :
    splitWhitespace (word ++ c :: rest) = word :: splitWhitespace rest := by
  have hword : [] ++ word ≠ [] := hne
  exact splitWhitespaceAux_append h hword hc rest

/-- The decimal digits from here on, for a type whose largest value is `max`. -/
def parseDigits (max : ℕ) : ℕ → Str → Except String ℕ
  | n, [] => .ok n
  | n, c :: s =>
    if !c.isDigit then
      .error "invalid digit found in string"
    else if n * 10 + (c.toNat - '0'.toNat) ≤ max then
      parseDigits max (n * 10 + (c.toNat - '0'.toNat)) s
    else
      .error "number too large to fit in target type"

/-- `s.parse()` for an unsigned type whose largest value is `max`. -/
def parseUnsigned (max : ℕ) : Str → Except String ℕ
  | [] => .error "cannot parse integer from empty string"
  | ['+'] => .error "invalid digit found in string"
  | '+' :: s => parseDigits max 0 s
  | s => parseDigits max 0 s

/-! ### Text that is not UTF-8 -/

/-- A continuation byte of UTF-8. -/
def isContinuation (b : UInt8) : Bool := 0x80 ≤ b && b ≤ 0xBF

/-- The second bytes that may follow a first byte of a sequence of three or four. -/
def isSecondByte (first b : UInt8) : Bool :=
  if first = 0xE0 then 0xA0 ≤ b && b ≤ 0xBF
  else if first = 0xED then 0x80 ≤ b && b ≤ 0x9F
  else if first = 0xF0 then 0x90 ≤ b && b ≤ 0xBF
  else if first = 0xF4 then 0x80 ≤ b && b ≤ 0x8F
  else isContinuation b

/-- How long the sequence is that a first byte starts; `0` for a byte that starts none. -/
def sequenceLength (b : UInt8) : ℕ :=
  if b < 0x80 then 1
  else if 0xC2 ≤ b && b ≤ 0xDF then 2
  else if 0xE0 ≤ b && b ≤ 0xEF then 3
  else if 0xF0 ≤ b && b ≤ 0xF4 then 4
  else 0

/-- How many bytes at the front belong together: a whole character, or as much of one as there is
before the bytes go wrong. -/
def sequenceAt (first : UInt8) (rest : List UInt8) : ℕ :=
  match sequenceLength first with
  | 0 | 1 => 1
  | 2 => 1 + (rest.take 1 |>.takeWhile isContinuation).length
  | n + 1 =>
    match rest with
    | b :: rest =>
      if isSecondByte first b then 2 + (rest.take (n - 1) |>.takeWhile isContinuation).length
      else 1
    | [] => 1

/-- The character of a sequence; one that is cut short is replaced. -/
def charOf (bytes : List UInt8) : Char :=
  match bytes with
  | [a] => if a < 0x80 then Char.ofNat a.toNat else '\uFFFD'
  | [a, b] =>
    if sequenceLength a = 2 then Char.ofNat ((a.toNat - 0xC0) * 64 + (b.toNat - 0x80))
    else '\uFFFD'
  | [a, b, c] =>
    if sequenceLength a = 3 then
      Char.ofNat ((a.toNat - 0xE0) * 4096 + (b.toNat - 0x80) * 64 + (c.toNat - 0x80))
    else '\uFFFD'
  | [a, b, c, d] => Char.ofNat ((a.toNat - 0xF0) * 262144 + (b.toNat - 0x80) * 4096 +
      (c.toNat - 0x80) * 64 + (d.toNat - 0x80))
  | _ => '\uFFFD'

/-- `String::from_utf8_lossy` of bytes that are not all UTF-8; `skip` bytes belong to the last
character. -/
def lossyAux : ℕ → List UInt8 → Str
  | _, [] => []
  | skip + 1, _ :: rest => lossyAux skip rest
  | 0, b :: rest =>
    charOf ((b :: rest).take (sequenceAt b rest)) :: lossyAux (sequenceAt b rest - 1) rest

/-- The text of the first `Utf8Error`, if there is one; `index` bytes have been read, and `skip` more
belong to the last character. -/
def utf8ErrorAux : ℕ → ℕ → List UInt8 → Option String
  | _, _, [] => none
  | index, skip + 1, _ :: rest => utf8ErrorAux (index + 1) skip rest
  | index, 0, b :: rest =>
    if sequenceAt b rest = sequenceLength b then
      utf8ErrorAux (index + 1) (sequenceAt b rest - 1) rest
    else if sequenceLength b ≠ 0 ∧ sequenceAt b rest = rest.length + 1 then
      some s!"incomplete utf-8 byte sequence from index {index}"
    else
      some s!"invalid utf-8 sequence of {sequenceAt b rest} bytes from index {index}"

/-- The `Display` of the `Utf8Error` of bytes that are not UTF-8. -/
def utf8ErrorText (bytes : List UInt8) : String := (utf8ErrorAux 0 0 bytes).getD ""

-- a byte that starts nothing, a sequence that breaks off, and one that the bytes do not complete
example : utf8ErrorText [0x61, 0xFF] = "invalid utf-8 sequence of 1 bytes from index 1" ∧
    utf8ErrorText [0xC3, 0xA9, 0xE2, 0x82, 0x28] =
      "invalid utf-8 sequence of 2 bytes from index 2" ∧
    utf8ErrorText [0x61, 0xF0, 0x9F] = "incomplete utf-8 byte sequence from index 1" := by
  decide +kernel

/-! ### Searching a slice -/

variable {α : Type}

/-- What stands before the first occurrence of an element is determined. -/
theorem append_cons_inj_of_notMem_left {c : α} {x y s t : List α} (hx : c ∉ x)
    (hy : c ∉ y) (h : x ++ c :: s = y ++ c :: t) : x = y ∧ s = t := by
  induction x generalizing y with
  | nil =>
    cases y with
    | nil => exact ⟨rfl, (List.cons.inj h).2⟩
    | cons b y => exact absurd (List.cons.inj h).1 (List.ne_of_not_mem_cons hy)
  | cons a x ih =>
    cases y with
    | nil => exact absurd (List.cons.inj h).1.symm (List.ne_of_not_mem_cons hx)
    | cons b y =>
      obtain ⟨rfl, htail⟩ := List.cons.inj h
      obtain ⟨rfl, hrest⟩ :=
        ih (List.not_mem_of_not_mem_cons hx) (List.not_mem_of_not_mem_cons hy) htail
      exact ⟨rfl, hrest⟩

variable [DecidableEq α]

/-- `windows(n).position(|w| w == pat)` for a pattern of length `n`. -/
def position (pat : List α) : List α → Option ℕ
  | [] => if pat = [] then some 0 else none
  | a :: s => if pat.isPrefixOf (a :: s) then some 0 else (position pat s).map (· + 1)

theorem position_bound {pat s : List α} {i : ℕ} (h : position pat s = some i) :
    i + pat.length ≤ s.length := by
  induction s generalizing i with
  | nil =>
    rw [position] at h
    split_ifs at h with hp
    cases h
    simp [hp]
  | cons a s ih =>
    rw [position] at h
    split_ifs at h with hp
    · cases h
      simpa using (List.isPrefixOf_iff_prefix.mp hp).length_le
    · obtain ⟨j, hj, rfl⟩ := Option.map_eq_some_iff.mp h
      have := ih hj
      simp only [List.length_cons]
      omega

/-- Where a match is found, the pattern stands. -/
theorem position_take {pat s : List α} {i : ℕ} (h : position pat s = some i) :
    s.take i ++ pat = s.take (i + pat.length) := by
  induction s generalizing i with
  | nil =>
    rw [position] at h
    split_ifs at h with hp
    cases h
    simp [hp]
  | cons a s ih =>
    rw [position] at h
    split_ifs at h with hp
    · cases h
      obtain ⟨t, ht⟩ := List.isPrefixOf_iff_prefix.mp hp
      rw [← ht]
      simp
    · obtain ⟨j, hj, rfl⟩ := Option.map_eq_some_iff.mp h
      rw [List.take_succ_cons, List.cons_append, ih hj,
        (by omega : j + 1 + pat.length = j + pat.length + 1), List.take_succ_cons]

/-- A match that is found stays the first one when more is appended. -/
theorem position_append {pat s : List α} {i : ℕ} (h : position pat s = some i) (t : List α) :
    position pat (s ++ t) = some i := by
  induction s generalizing i with
  | nil =>
    rw [position] at h
    split_ifs at h with hp
    cases h
    subst hp
    cases t <;> simp [position]
  | cons a s ih =>
    rw [position] at h
    rw [List.cons_append, position]
    split_ifs at h with hp
    · cases h
      have hpre : pat <+: a :: (s ++ t) :=
        (List.isPrefixOf_iff_prefix.mp hp).trans (List.prefix_append (a :: s) t)
      rw [if_pos (List.isPrefixOf_iff_prefix.mpr hpre)]
    · obtain ⟨j, hj, rfl⟩ := Option.map_eq_some_iff.mp h
      have hfull := ih hj
      have hlen := position_bound hj
      have hnot : ¬pat.isPrefixOf (a :: (s ++ t)) := by
        intro hpre
        refine hp (List.isPrefixOf_iff_prefix.mpr ?_)
        refine List.prefix_of_prefix_length_le (List.isPrefixOf_iff_prefix.mp hpre)
          (List.prefix_append (a :: s) t) ?_
        simp only [List.length_cons]
        omega
      rw [if_neg hnot, hfull]
      rfl

/-- A match in the whole that ends within a part is a match in the part. -/
theorem position_of_append {pat s t : List α} {i : ℕ} (h : position pat (s ++ t) = some i)
    (hlen : i + pat.length ≤ s.length) : position pat s = some i := by
  induction s generalizing i with
  | nil =>
    rw [List.length_nil] at hlen
    have hp : pat = [] := List.length_eq_zero_iff.mp (by omega)
    have hi : i = 0 := by omega
    simp [position, hp, hi]
  | cons a s ih =>
    rw [List.cons_append, position] at h
    rw [position]
    split_ifs at h with hp
    · cases h
      have hpre : pat <+: a :: s := by
        refine List.prefix_of_prefix_length_le (List.isPrefixOf_iff_prefix.mp hp)
          (List.prefix_append (a :: s) t) ?_
        simpa using hlen
      rw [if_pos (List.isPrefixOf_iff_prefix.mpr hpre)]
    · obtain ⟨j, hj, rfl⟩ := Option.map_eq_some_iff.mp h
      have hnot : ¬pat.isPrefixOf (a :: s) := by
        intro hpre
        exact hp (List.isPrefixOf_iff_prefix.mpr
          ((List.isPrefixOf_iff_prefix.mp hpre).trans (List.prefix_append (a :: s) t)))
      rw [if_neg hnot, ih hj (by simp only [List.length_cons] at hlen; omega)]
      rfl

/-- A pattern that stands only at the end is found there. -/
theorem position_at_end {pat : List α} (hne : pat ≠ []) {front : List α}
    (h : ∀ s t, front ++ pat = s ++ (pat ++ t) → t = []) :
    position pat (front ++ pat) = some front.length := by
  induction front with
  | nil =>
    cases pat with
    | nil => exact absurd rfl hne
    | cons a pat =>
      rw [List.nil_append, position, if_pos (List.isPrefixOf_iff_prefix.mpr (List.prefix_refl _))]
      rfl
  | cons a front ih =>
    have hnot : ¬pat.isPrefixOf (a :: (front ++ pat)) = true := by
      intro hp
      obtain ⟨t, ht⟩ := List.isPrefixOf_iff_prefix.mp hp
      obtain rfl := h [] t (by rw [List.nil_append, ht, List.cons_append])
      have hlen := congrArg List.length ht
      simp only [List.append_nil, List.length_cons, List.length_append] at hlen
      omega
    have hrest := ih fun s t heq => h (a :: s) t (by rw [List.cons_append, heq, List.cons_append])
    rw [List.cons_append, position, if_neg hnot, hrest]
    rfl

end RustStr
