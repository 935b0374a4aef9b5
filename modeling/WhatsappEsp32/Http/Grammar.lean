import WhatsappEsp32.Http.Chunked

/-!
# The grammar of the chunked transfer coding

A body is a number of chunks, each a size line, its data and a line end, then a last line with the
size zero, and the trailers.

* `Body`: the grammar, over the size lines and the trailers that are meant;
* `SizeLine`, `TrailerPart`: those that the reader takes;
* `dechunk_eq_ok_iff`: the reader decodes the bodies of the grammar, and no others;
* `readToEnd_decodes`: so do the reads of a client, whatever their sizes.
-/

namespace WhatsappEsp32.Http

open CrashLogic Scripted RustIo

/-! ### The grammar -/

/-- A line ends in CRLF, at its first line feed. -/
def IsLine (line : Bytes) : Prop := ∃ l, line = l ++ crlf ∧ 10 ∉ l

/-- The hexadecimal notation of a number. -/
structure IsNumber (digits : Bytes) (value : ℕ) : Prop where
  nonempty : digits ≠ []
  hex : ∀ b ∈ digits, isAsciiHexdigit b = true
  fromHex_eq : fromHex digits = value

/-- A size line: hexadecimal digits and perhaps an extension. -/
def SizeLine (value : ℕ) (line : Bytes) : Prop :=
  ∃ digits ext, line = digits ++ ext ++ crlf ∧ IsNumber digits value ∧ value < 2 ^ 64 ∧
    (ext = [] ∨ ∃ e, ext = 59 :: e ∧ 10 ∉ e) ∧ line.length ≤ maxMetadataBytes

/-- Trailer lines and the blank line after them. -/
inductive Trailers : Bytes → Prop
  | blank : Trailers crlf
  | line {l rest : Bytes} : 58 ∈ l → 10 ∉ l → Trailers rest → Trailers (l ++ crlf ++ rest)

/-- The trailers of a body. -/
def TrailerPart (bytes : Bytes) : Prop := Trailers bytes ∧ bytes.length ≤ maxMetadataBytes

/-- A body and its data. -/
inductive Body (sizeLine : ℕ → Bytes → Prop) (trailers : Bytes → Prop) : Bytes → Bytes → Prop
  | last {line rest : Bytes} : sizeLine 0 line → trailers rest →
      Body sizeLine trailers (line ++ rest) []
  | chunk {size : ℕ} {line data rest more : Bytes} : sizeLine size line → size ≠ 0 →
      data.length = size → Body sizeLine trailers rest more →
      Body sizeLine trailers (line ++ data ++ crlf ++ rest) (data ++ more)

/-- The bodies that the reader decodes. -/
abbrev ChunkedBody : Bytes → Bytes → Prop := Body SizeLine TrailerPart

/-! ### Lines -/

theorem cutLine_eq_ok_iff {limit : ℕ} {bytes line rest : Bytes} :
    cutLine limit bytes = .ok (line, rest) ↔
      bytes = line ++ rest ∧ IsLine line ∧ line.length ≤ limit := by
  constructor
  · intro h
    obtain ⟨hbytes, ⟨l, hl⟩, hle, htake⟩ := cutLine_eq_ok h
    refine ⟨hbytes, ⟨l, hl.symm, ?_⟩, hle⟩
    have hline : BufReader.takeUntil 10 limit bytes = (l ++ [13]) ++ [10] := by
      rw [htake, ← hl]
      simp [crlf]
    exact fun hlf => BufReader.not_mem_of_takeUntil hline (List.mem_append_left _ hlf)
  · rintro ⟨rfl, ⟨l, rfl, hl⟩, hle⟩
    have hmem : (10 : UInt8) ∈ l ++ crlf := by simp [crlf]
    have htake : BufReader.takeUntil 10 limit (l ++ crlf ++ rest) = l ++ crlf := by
      rw [BufReader.takeUntil_of_mem hmem hle, List.takeWhile_append_of_pos]
      · simp [crlf]
      · intro b hb
        simpa using fun h : b = 10 => hl (h ▸ hb)
    unfold cutLine
    simp only [htake, List.drop_left]
    rw [if_pos (List.isSuffixOf_iff_suffix.mpr ⟨l, rfl⟩)]

theorem isAsciiHexdigit_ne {b : UInt8} (h : isAsciiHexdigit b = true) : b ≠ 10 ∧ b ≠ 59 := by
  constructor
  · rintro rfl
    exact absurd h (by decide)
  · rintro rfl
    exact absurd h (by decide)

/-- The extension of a size line, as the reader splits it off. -/
theorem takeWhile_digits {digits ext : Bytes} (h : ∀ b ∈ digits, isAsciiHexdigit b = true) :
    (digits ++ ext).takeWhile (· ≠ 59) = digits ++ ext.takeWhile (· ≠ 59) := by
  refine List.takeWhile_append_of_pos fun b hb => ?_
  simpa using (isAsciiHexdigit_ne (h b hb)).2

theorem chunkSize_eq_ok_iff {l : Bytes} {value : ℕ} :
    chunkSize (l ++ crlf) = .ok value ↔
      ∃ digits ext, l = digits ++ ext ∧ IsNumber digits value ∧ value < 2 ^ 64 ∧
        (ext = [] ∨ ∃ e, ext = 59 :: e) := by
  have htake : (l ++ crlf).take ((l ++ crlf).length - 2) = l := by simp [crlf]
  unfold chunkSize
  simp only [htake]
  constructor
  · intro h
    split_ifs at h with hbad hlt
    cases h
    simp only [not_or, Bool.not_eq_true, Bool.not_eq_false'] at hbad
    refine ⟨_, l.dropWhile (· ≠ 59), (List.takeWhile_append_dropWhile).symm,
      ⟨hbad.1, List.all_eq_true.mp hbad.2, rfl⟩, hlt, ?_⟩
    cases hext : l.dropWhile (· ≠ 59) with
    | nil => exact Or.inl rfl
    | cons b e =>
      have hne : l.dropWhile (· ≠ 59) ≠ [] := hext ▸ List.cons_ne_nil b e
      have hhead : (l.dropWhile (· ≠ 59)).head hne = b := by simp only [hext, List.head_cons]
      have hb := List.head_dropWhile_not (· ≠ (59 : UInt8)) hne
      rw [hhead] at hb
      exact Or.inr ⟨e, by simpa using hb⟩
  · rintro ⟨digits, ext, rfl, hnumber, hlt, hext⟩
    have hext' : ext.takeWhile (· ≠ 59) = [] := by
      rcases hext with rfl | ⟨e, rfl⟩
      · rfl
      · simp
    have hall := List.all_eq_true.mpr hnumber.hex
    rw [takeWhile_digits hnumber.hex, hext', List.append_nil, hnumber.fromHex_eq, if_pos hlt]
    simp [hnumber.nonempty, hall]

theorem sizeLine_iff {value : ℕ} {line : Bytes} :
    SizeLine value line ↔
      IsLine line ∧ line.length ≤ maxMetadataBytes ∧ chunkSize line = .ok value := by
  constructor
  · rintro ⟨digits, ext, rfl, hnumber, hlt, hext, hle⟩
    refine ⟨⟨digits ++ ext, rfl, ?_⟩, hle, ?_⟩
    · rw [List.mem_append, not_or]
      refine ⟨fun h => (isAsciiHexdigit_ne (hnumber.hex _ h)).1 rfl, ?_⟩
      rcases hext with rfl | ⟨e, rfl, he⟩
      · exact List.not_mem_nil
      · rw [List.mem_cons, not_or]
        exact ⟨by decide, he⟩
    · refine chunkSize_eq_ok_iff.mpr ⟨digits, ext, rfl, hnumber, hlt, ?_⟩
      rcases hext with rfl | ⟨e, rfl, -⟩
      · exact Or.inl rfl
      · exact Or.inr ⟨e, rfl⟩
  · rintro ⟨⟨l, rfl, hl⟩, hle, hsize⟩
    obtain ⟨digits, ext, rfl, hnumber, hlt, hext⟩ := chunkSize_eq_ok_iff.mp hsize
    refine ⟨digits, ext, rfl, hnumber, hlt, ?_, hle⟩
    rcases hext with rfl | ⟨e, rfl⟩
    · exact Or.inl rfl
    · refine Or.inr ⟨e, rfl, fun he => hl ?_⟩
      exact List.mem_append_right _ (List.mem_cons_of_mem _ he)

/-! ### Trailers -/

theorem cutTrailers_cons {budget : ℕ} {bytes line rest : Bytes}
    (h : cutLine budget bytes = .ok (line, rest)) :
    cutTrailers budget bytes =
      if line = crlf then
        .ok rest
      else if 58 ∈ line.take (line.length - 2) then
        cutTrailers (budget - line.length) rest
      else
        .error (invalidData "Invalid HTTP trailer") := by
  rw [cutTrailers]
  split <;> simp_all

theorem cutTrailers_sound {budget : ℕ} {bytes rest : Bytes}
    (h : cutTrailers budget bytes = .ok rest) :
    ∃ part, bytes = part ++ rest ∧ Trailers part ∧ part.length ≤ budget := by
  induction budget using Nat.strong_induction_on generalizing bytes with
  | _ budget ih =>
    cases hline : cutLine budget bytes with
    | error e =>
      rw [cutTrailers] at h
      split at h <;> simp_all
    | ok p =>
      obtain ⟨line, after⟩ := p
      obtain ⟨hbytes, ⟨l, rfl, hl⟩, hle⟩ := cutLine_eq_ok_iff.mp hline
      rw [cutTrailers_cons hline] at h
      have hlength : (l ++ crlf).length = l.length + 2 := by simp [crlf]
      have htake : (l ++ crlf).take ((l ++ crlf).length - 2) = l := by simp [crlf]
      split_ifs at h with hblank hcolon
      · cases h
        rw [hblank] at hbytes hle
        exact ⟨crlf, hbytes, .blank, hle⟩
      · obtain ⟨part, hafter, hpart, hpartle⟩ := ih _ (by omega) h
        rw [htake] at hcolon
        refine ⟨l ++ crlf ++ part, ?_, .line hcolon hl hpart, ?_⟩
        · rw [hbytes, hafter, ← List.append_assoc]
        · rw [List.length_append]
          omega

theorem cutTrailers_complete {part : Bytes} (h : Trailers part) (rest : Bytes) {budget : ℕ}
    (hle : part.length ≤ budget) : cutTrailers budget (part ++ rest) = .ok rest := by
  induction h generalizing budget with
  | blank =>
    have hline : cutLine budget (crlf ++ rest) = .ok (crlf, rest) :=
      cutLine_eq_ok_iff.mpr ⟨rfl, ⟨[], rfl, List.not_mem_nil⟩, hle⟩
    rw [cutTrailers_cons hline, if_pos rfl]
  | @line l part hcolon hl _ ih =>
    have hlength : (l ++ crlf).length = l.length + 2 := by simp [crlf]
    have htake : (l ++ crlf).take ((l ++ crlf).length - 2) = l := by simp [crlf]
    rw [List.length_append] at hle
    have hline : cutLine budget (l ++ crlf ++ part ++ rest) = .ok (l ++ crlf, part ++ rest) :=
      cutLine_eq_ok_iff.mpr ⟨List.append_assoc _ _ _, ⟨l, rfl, hl⟩, by omega⟩
    have hne : l ++ crlf ≠ crlf := by
      intro heq
      have hnil : l = [] := by simpa using heq
      rw [hnil] at hcolon
      exact List.not_mem_nil hcolon
    rw [cutTrailers_cons hline, if_neg hne, htake, if_pos hcolon]
    exact ih (by omega)

/-! ### Bodies -/

/-- The line end that a reader still has to read. -/
def pendingCrlf (needsCrlf : Bool) : Bytes := if needsCrlf then crlf else []

theorem cutCrlf_eq_ok_iff {needsCrlf : Bool} {bytes rest : Bytes} :
    cutCrlf needsCrlf bytes = .ok rest ↔ bytes = pendingCrlf needsCrlf ++ rest := by
  unfold cutCrlf pendingCrlf
  cases needsCrlf with
  | false => simp
  | true =>
    simp only [if_true]
    constructor
    · intro h
      split_ifs at h with hlen hcrlf
      cases h
      rw [← hcrlf, List.take_append_drop]
    · rintro rfl
      simp [crlf]

/-- Everything up to the data of a chunk. -/
theorem cutChunk_eq_ok_iff {needsCrlf : Bool} {bytes rest : Bytes} {size : ℕ} :
    cutChunk needsCrlf bytes = .ok (size, rest) ↔
      ∃ line part, bytes = pendingCrlf needsCrlf ++ (line ++ (part ++ rest)) ∧
        SizeLine size line ∧ (if size = 0 then TrailerPart part else part = []) := by
  constructor
  · intro h
    unfold cutChunk at h
    split at h
    · cases h
    rename_i afterCrlf hcrlf
    split at h
    · cases h
    rename_i line afterLine hline
    obtain ⟨hafter, hisLine, hle⟩ := cutLine_eq_ok_iff.mp hline
    rw [cutCrlf_eq_ok_iff.mp hcrlf, hafter]
    split at h
    · cases h
    -- a size of zero: what follows are the trailers
    · rename_i hsize
      cases htrailers : cutTrailers maxMetadataBytes afterLine with
      | error e =>
        rw [htrailers] at h
        cases h
      | ok left =>
        rw [htrailers] at h
        cases h
        obtain ⟨part, hpart, htrailer, hpartle⟩ := cutTrailers_sound htrailers
        exact ⟨line, part, by rw [hpart], sizeLine_iff.mpr ⟨hisLine, hle, hsize⟩,
          htrailer, hpartle⟩
    · rename_i size' hne hsize
      cases h
      refine ⟨line, [], by simp, sizeLine_iff.mpr ⟨hisLine, hle, hsize⟩, ?_⟩
      rw [if_neg hne]
  · rintro ⟨line, part, rfl, hline, hpart⟩
    obtain ⟨hisLine, hle, hsize⟩ := sizeLine_iff.mp hline
    unfold cutChunk
    rw [cutCrlf_eq_ok_iff.mpr rfl]
    simp only
    rw [cutLine_eq_ok_iff.mpr ⟨rfl, hisLine, hle⟩]
    simp only [hsize]
    cases size with
    | zero =>
      simp only [if_true] at hpart
      simp only [cutTrailers_complete hpart.1 rest hpart.2]
      rfl
    | succ size =>
      rw [if_neg (Nat.succ_ne_zero size)] at hpart
      simp [hpart]

theorem dechunkFrom_eq_ok {remaining : ℕ} {needsCrlf : Bool} {bytes data left : Bytes}
    (h : dechunkFrom remaining needsCrlf bytes = .ok (data, left)) :
    ∃ front more after, bytes = front ++ after ∧ front.length = remaining ∧ data = front ++ more ∧
      dechunk needsCrlf after = .ok (more, left) := by
  unfold dechunkFrom at h
  split_ifs at h with hlt
  cases hrest : dechunk needsCrlf (bytes.drop remaining) with
  | error e =>
    rw [hrest] at h
    cases h
  | ok p =>
    rw [hrest] at h
    cases h
    refine ⟨bytes.take remaining, p.1, bytes.drop remaining,
      (List.take_append_drop _ _).symm, ?_, rfl, hrest⟩
    rw [List.length_take]
    omega

theorem dechunk_sound {needsCrlf : Bool} {bytes data left : Bytes}
    (h : dechunk needsCrlf bytes = .ok (data, left)) :
    ∃ body, bytes = pendingCrlf needsCrlf ++ (body ++ left) ∧ ChunkedBody body data := by
  -- every chunk takes some bytes
  induction hn : bytes.length using Nat.strong_induction_on
    generalizing needsCrlf bytes data with
  | _ n ih =>
    cases hcut : cutChunk needsCrlf bytes with
    | error e =>
      rw [dechunk_error hcut] at h
      cases h
    | ok p =>
      obtain ⟨size, rest⟩ := p
      obtain ⟨line, part, hbytes, hline, hpart⟩ := cutChunk_eq_ok_iff.mp hcut
      by_cases hsize : size = 0
      · subst hsize
        rw [dechunk_last hcut] at h
        cases h
        refine ⟨line ++ part, ?_, .last hline (by simpa using hpart)⟩
        rw [hbytes, List.append_assoc]
      · rw [dechunk_chunk hsize hcut] at h
        rw [if_neg hsize] at hpart
        subst hpart
        obtain ⟨front, more, after, rfl, hfront, rfl, hafter⟩ := dechunkFrom_eq_ok h
        have hlt : after.length < n := by
          have hpos : 0 < size := Nat.pos_of_ne_zero hsize
          rw [← hn, hbytes]
          simp only [List.length_append, List.length_nil]
          omega
        obtain ⟨body, hbody, hchunked⟩ := ih _ hlt hafter rfl
        refine ⟨line ++ front ++ crlf ++ body, ?_, .chunk hline hsize hfront hchunked⟩
        rw [hbytes, hbody]
        simp only [pendingCrlf, if_true, List.append_assoc, List.nil_append]

theorem dechunk_complete {body data : Bytes} (h : ChunkedBody body data) (needsCrlf : Bool)
    (left : Bytes) :
    dechunk needsCrlf (pendingCrlf needsCrlf ++ (body ++ left)) = .ok (data, left) := by
  induction h generalizing needsCrlf with
  | @last line rest hline htrailers =>
    refine dechunk_last (cutChunk_eq_ok_iff.mpr ⟨line, rest, ?_, hline, ?_⟩)
    · rw [List.append_assoc]
    · rwa [if_pos rfl]
  | @chunk size line data rest more hline hsize hdata _ ih =>
    have hcut : cutChunk needsCrlf
        (pendingCrlf needsCrlf ++ (line ++ data ++ crlf ++ rest ++ left)) =
          .ok (size, data ++ (crlf ++ (rest ++ left))) := by
      refine cutChunk_eq_ok_iff.mpr ⟨line, [], ?_, hline, ?_⟩
      · simp only [List.append_assoc, List.nil_append]
      · rw [if_neg hsize]
    have hrest : dechunk true (crlf ++ (rest ++ left)) = .ok (more, left) := ih true
    rw [dechunk_chunk hsize hcut, dechunkFrom_append _ _ _ hdata.le, hdata, Nat.sub_self,
      dechunkFrom_zero, hrest]
    rfl

/-- The decoder takes the bodies of the grammar, whatever follows them. -/
theorem dechunk_eq_ok_iff {bytes data left : Bytes} :
    dechunk false bytes = .ok (data, left) ↔
      ∃ body, bytes = body ++ left ∧ ChunkedBody body data := by
  constructor
  · exact fun h => dechunk_sound h
  · rintro ⟨body, rfl, hbody⟩
    exact dechunk_complete hbody false left

/-! ### Reading to the end -/

/-- A reader that has reached the end stays there. -/
theorem read_of_finished {c : ChunkedReader} (h : c.finished = true) (n : ℕ) :
    ChunkedReader.read n c = (.ok [], c) := by
  show (if n = 0 ∨ c.finished = true then pure [] else _ : ChunkedM Bytes) c = _
  rw [if_pos (Or.inr h), Prog.pure_run]

/-- Reading to the end of a new reader gives the decoded stream. -/
theorem readToEnd_new {script : Script UInt8 IoError} (h : Patient script) {sizes : ℕ → ℕ}
    (hsizes : ∀ i, 0 < sizes i) {calls : ℕ} (hcalls : script.size < calls) :
    ((readToEnd ChunkedReader.read calls sizes (.new script)).1).Meets
      (fun data => (dechunk false script.payload).map Prod.fst = .ok data ∧
        (readToEnd ChunkedReader.read calls sizes (.new script)).2.finished = true)
      (fun e => (dechunk false script.payload).map Prod.fst = .error e) False :=
  readToEnd_spec ChunkedReader.read_serves calls hsizes (ChunkedReader.new_holds h) hcalls _ rfl

/-- Reading to the end succeeds when the stream starts with a body of the grammar, and gives its
data; the first read without bytes is the one after the whole body, and all later reads are
without bytes as well. -/
theorem readToEnd_decodes {script : Script UInt8 IoError} (h : Patient script) {sizes : ℕ → ℕ}
    (hsizes : ∀ i, 0 < sizes i) {calls : ℕ} (hcalls : script.size < calls) :
    (∀ data, (readToEnd ChunkedReader.read calls sizes (.new script)).1 = .ok data ↔
      ∃ body more, script.payload = body ++ more ∧ ChunkedBody body data) ∧
    (readToEnd ChunkedReader.read calls sizes (.new script)).1 ≠ .halted ∧
    ∀ data, (readToEnd ChunkedReader.read calls sizes (.new script)).1 = .ok data →
      ∀ n, ChunkedReader.read n (readToEnd ChunkedReader.read calls sizes (.new script)).2 =
        (.ok [], (readToEnd ChunkedReader.read calls sizes (.new script)).2) := by
  have hrun := readToEnd_new h hsizes hcalls
  generalize readToEnd ChunkedReader.read calls sizes (.new script) = run at hrun
  obtain ⟨result, c⟩ := run
  -- the decoder and the grammar agree; what is left is that the reader is the decoder
  have hdecodes : ∀ data, (dechunk false script.payload).map Prod.fst = .ok data ↔
      ∃ body more, script.payload = body ++ more ∧ ChunkedBody body data := by
    intro data
    constructor
    · intro hmap
      cases hdechunk : dechunk false script.payload with
      | error e =>
        rw [hdechunk] at hmap
        cases hmap
      | ok p =>
        rw [hdechunk] at hmap
        cases hmap
        obtain ⟨body, hpayload, hbody⟩ := dechunk_eq_ok_iff.mp hdechunk
        exact ⟨body, p.2, hpayload, hbody⟩
    · rintro ⟨body, more, hpayload, hbody⟩
      rw [dechunk_eq_ok_iff.mpr ⟨body, hpayload, hbody⟩]
      rfl
  cases result with
  | ok data =>
    obtain ⟨hvalue, hfinished⟩ := hrun
    refine ⟨fun data' => ?_, nofun, fun _ _ n => read_of_finished hfinished n⟩
    rw [← hdecodes, hvalue]
    simp
  | error e =>
    have hvalue : (dechunk false script.payload).map Prod.fst = .error e := hrun
    refine ⟨fun data' => ?_, nofun, nofun⟩
    rw [← hdecodes, hvalue]
    simp
  | halted => exact hrun.elim

/-- `4;x` `Wi`, an interruption, `ki`, the last chunk and two more bytes. -/
def wikiScript : Script UInt8 IoError :=
  [.data [52, 59, 120, 13, 10, 87, 105], .fails ⟨.interrupted, "interrupted"⟩,
    .data [107, 105, 13, 10, 48, 13], .data [10, 13, 10, 33, 33]]

theorem wikiScript_decodes :
    (readToEnd ChunkedReader.read 40 (fun i => i % 2 + 1) (.new wikiScript)).1 =
      .ok [87, 105, 107, 105] := by
  have h : Patient wikiScript := by
    refine ⟨fun bytes hmem => ?_, fun e hmem => ?_⟩ <;>
      simp only [wikiScript, List.mem_cons, List.not_mem_nil, or_false, Event.data.injEq,
        Event.fails.injEq, reduceCtorEq, false_or] at hmem
    · rcases hmem with rfl | rfl | rfl <;> exact List.cons_ne_nil _ _
    · rw [hmem]
  refine ((readToEnd_decodes h (fun i => Nat.succ_pos _) (by decide)).1 _).mpr ?_
  refine ⟨[52, 59, 120, 13, 10] ++ [87, 105, 107, 105] ++ crlf ++ ([48, 13, 10] ++ crlf),
    [33, 33], rfl, ?_⟩
  have hfour : SizeLine 4 [52, 59, 120, 13, 10] := ⟨[52], [59, 120], rfl,
    ⟨nofun, by decide +kernel, rfl⟩, by decide, Or.inr ⟨[120], rfl, by decide⟩, by decide⟩
  have hzero : SizeLine 0 [48, 13, 10] := ⟨[48], [], rfl, ⟨nofun, by decide +kernel, rfl⟩,
    by decide, Or.inl rfl, by decide⟩
  exact .chunk hfour (by decide) rfl (.last hzero ⟨.blank, by decide⟩)

end WhatsappEsp32.Http
