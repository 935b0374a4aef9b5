import Mathlib.Data.Bool.AllAny
import WhatsappEsp32.Ws.Handshake

/-!
# Which upgrades are accepted

`verify_upgrade` reads the status code as a slice of three characters, and lets each header line
overwrite what an earlier one of the same name has said.

* `statusLine`, `headerLines`, `values`: a response head, by its fields;
* `scan_eq`, `accepts_iff`: what the scan makes of them;
* `ValidUpgrade`, `VerifiesExactly`: the upgrades that should be accepted, in any order of the header
  lines;
* `Unambiguous`, `verifyUpgrade_exact_iff`: exactly when they are.

A name with white space before its colon is not well formed.  Whether it still names the field is
left open (`trimmed`).
-/

namespace WhatsappEsp32.Ws

open RustStr

/-! ### The fields of a head -/

/-- The first line of a head. -/
def statusLine (head : String) : Str := (split ['\r', '\n'] head.toList).headD []

/-- The lines after it. -/
def headerLines (head : String) : List Str := (split ['\r', '\n'] head.toList).tail

/-- The fields that the upgrade depends on. -/
inductive UpgradeField
  | upgrade
  | connection
  | accept
  deriving DecidableEq

/-- The lower-case name of a field that the upgrade looks at. -/
def UpgradeField.name : UpgradeField → Str
  | upgrade => "upgrade".toList
  | connection => "connection".toList
  | accept => "sec-websocket-accept".toList

/-- A name as it is compared: as it stands, or without the white space around it. -/
def fieldName (trimmed : Bool) (name : Str) : Str := if trimmed then trim name else name

/-- The value of a line that is a field of the name. -/
def fieldValue? (trimmed : Bool) (field : UpgradeField) (line : Str) : Option Str :=
  (splitOnce ':' line).bind fun p =>
    if eqIgnoreAsciiCase (fieldName trimmed p.1) field.name then some (trim p.2) else none

/-- The values of a field, in the order of the lines. -/
def values (trimmed : Bool) (field : UpgradeField) (lines : List Str) : List Str :=
  lines.filterMap (fieldValue? trimmed field)

/-- The values of Upgrade that are accepted. -/
def isWebsocket (value : Str) : Bool := eqIgnoreAsciiCase value "websocket".toList

/-- The values of Connection that are accepted: `upgrade` is one of the tokens. -/
def listsUpgrade (value : Str) : Bool :=
  (value.splitOn ',').any fun token => eqIgnoreAsciiCase (trim token) "upgrade".toList

variable {trimmed : Bool} {field : UpgradeField} {line value : Str} {lines lines' : List Str}

theorem fieldValue?_eq_some_iff : fieldValue? trimmed field line = some value ↔
    ∃ p, splitOnce ':' line = some p ∧
      eqIgnoreAsciiCase (fieldName trimmed p.1) field.name = true ∧ trim p.2 = value := by
  simp only [fieldValue?, Option.bind_eq_some_iff, Option.ite_none_right_eq_some, Option.some_inj]

theorem values_concat (trimmed : Bool) (field : UpgradeField) (lines : List Str) (line : Str) :
    values trimmed field (lines ++ [line]) =
      values trimmed field lines ++ (fieldValue? trimmed field line).toList := by
  rw [values, values, List.filterMap_append]
  cases h : fieldValue? trimmed field line <;> simp [h]

theorem mem_values : value ∈ values trimmed field lines ↔
    ∃ line ∈ lines, fieldValue? trimmed field line = some value := List.mem_filterMap

theorem values_perm (h : lines.Perm lines') :
    (values trimmed field lines).Perm (values trimmed field lines') := h.filterMap _

/-- A line is a field of one name at most. -/
theorem UpgradeField.eq_of_name {f g : UpgradeField} {s : Str}
    (hf : eqIgnoreAsciiCase s f.name = true) (hg : eqIgnoreAsciiCase s g.name = true) : f = g := by
  have hname : f.name.map Char.toLower = g.name.map Char.toLower :=
    (eqIgnoreAsciiCase_iff.mp hf).symm.trans (eqIgnoreAsciiCase_iff.mp hg)
  revert hname
  cases f <;> cases g <;> decide

theorem fieldValue?_of_ne {g : UpgradeField} (h : fieldValue? trimmed field line = some value)
    (hne : g ≠ field) : fieldValue? trimmed g line = none := by
  obtain ⟨p, hp, hname, -⟩ := fieldValue?_eq_some_iff.mp h
  by_contra hsome
  obtain ⟨value', hvalue'⟩ := Option.ne_none_iff_exists'.mp hsome
  obtain ⟨p', hp', hname', -⟩ := fieldValue?_eq_some_iff.mp hvalue'
  obtain rfl := Option.some.inj (hp.symm.trans hp')
  exact hne (UpgradeField.eq_of_name hname' hname)

/-- A name that is found as it stands is found without white space. -/
theorem fieldValue?_trimmed (h : fieldValue? false field line = some value) (trimmed : Bool) :
    fieldValue? trimmed field line = some value := by
  obtain ⟨p, hp, hname, hvalue⟩ := fieldValue?_eq_some_iff.mp h
  refine fieldValue?_eq_some_iff.mpr ⟨p, hp, ?_, hvalue⟩
  have hlower : ∀ c ∈ field.name, isWhitespace c.toLower = false := by
    cases field <;> exact List.all_iff_forall_prop.mp (by decide)
  cases trimmed with
  | false => exact hname
  | true =>
    have hname : eqIgnoreAsciiCase p.1 field.name = true := hname
    rwa [fieldName, if_pos rfl, trim_of_eqIgnoreAsciiCase hname hlower]

theorem values_sublist (trimmed : Bool) (field : UpgradeField) (lines : List Str) :
    (values false field lines).Sublist (values trimmed field lines) := by
  induction lines using List.reverseRecOn with
  | nil => exact .slnil
  | append_singleton lines line ih =>
    rw [values_concat, values_concat]
    refine ih.append ?_
    cases h : fieldValue? false field line with
    | none => exact List.nil_sublist _
    | some value => rw [fieldValue?_trimmed h trimmed]

/-! ### The scan -/

/-- A line overwrites the flag of its field. -/
theorem scanHeader_eq (h : UpgradeHeaders) (line : Str) : scanHeader h line =
    { upgradeOk := (fieldValue? false .upgrade line).elim h.upgradeOk isWebsocket
      connectionOk := (fieldValue? false .connection line).elim h.connectionOk listsUpgrade
      accept := (fieldValue? false .accept line).or h.accept } := by
  cases hline : splitOnce ':' line with
  | none => simp [scanHeader, fieldValue?, hline]
  | some p =>
    obtain ⟨name, value⟩ := p
    have hvalue : ∀ f : UpgradeField, eqIgnoreAsciiCase name f.name = true →
        fieldValue? false f line = some (trim value) := fun f hf =>
      fieldValue?_eq_some_iff.mpr ⟨_, hline, hf, rfl⟩
    have hnone : ∀ f : UpgradeField, ¬eqIgnoreAsciiCase name f.name = true →
        fieldValue? false f line = none := by
      intro f hf
      simp only [fieldValue?, hline, Option.bind_some]
      exact if_neg hf
    rw [scanHeader, hline]
    simp only
    by_cases hupgrade : eqIgnoreAsciiCase name UpgradeField.upgrade.name = true
    · rw [hvalue _ hupgrade, fieldValue?_of_ne (hvalue _ hupgrade) (by decide : .connection ≠ _),
        fieldValue?_of_ne (hvalue _ hupgrade) (by decide : .accept ≠ _)]
      exact if_pos hupgrade
    · rw [hnone _ hupgrade]
      refine (if_neg hupgrade).trans ?_
      by_cases hconnection : eqIgnoreAsciiCase name UpgradeField.connection.name = true
      · rw [hvalue _ hconnection,
          fieldValue?_of_ne (hvalue _ hconnection) (by decide : .accept ≠ _)]
        exact if_pos hconnection
      · rw [hnone _ hconnection]
        refine (if_neg hconnection).trans ?_
        by_cases haccept : eqIgnoreAsciiCase name UpgradeField.accept.name = true
        · rw [hvalue _ haccept]
          exact if_pos haccept
        · rw [hnone _ haccept]
          exact if_neg haccept

/-- Each flag is the one of the last line of its name. -/
theorem scan_eq (lines : List Str) : lines.foldl scanHeader {} =
    { upgradeOk := (values false .upgrade lines).getLast?.any isWebsocket
      connectionOk := (values false .connection lines).getLast?.any listsUpgrade
      accept := (values false .accept lines).getLast? } := by
  induction lines using List.reverseRecOn with
  | nil => rfl
  | append_singleton lines line ih =>
    rw [List.foldl_concat, ih, scanHeader_eq, values_concat, values_concat, values_concat]
    cases fieldValue? false .upgrade line <;> cases fieldValue? false .connection line <;>
      cases fieldValue? false .accept line <;> simp

/-! ### The verdict -/

/-- The status line, as far as it is read. -/
def StatusStarts (status : Str) : Prop :=
  ∃ rest, status = "HTTP/1.1 101".toList ++ rest ∨ status = "HTTP/1.0 101".toList ++ rest

theorem code_eq_some_iff {status : Str} :
    ((stripPrefix "HTTP/1.1 ".toList status).or (stripPrefix "HTTP/1.0 ".toList status)).bind
      (getTo · 3) = some "101".toList ↔ StatusStarts status := by
  have hcode : ∀ rest : Str, getTo rest 3 = some "101".toList ↔ ∃ t, rest = "101".toList ++ t := by
    intro rest
    have hlen : utf8Len "101".toList = 3 := by decide
    rw [getTo_eq_some_iff, and_iff_left hlen]
    exact exists_congr fun t => eq_comm
  have hsplit : "HTTP/1.1 101".toList = "HTTP/1.1 ".toList ++ "101".toList := by decide
  have hsplit' : "HTTP/1.0 101".toList = "HTTP/1.0 ".toList ++ "101".toList := by decide
  rw [Option.bind_eq_some_iff]
  constructor
  · rintro ⟨rest, hrest, hget⟩
    obtain ⟨t, rfl⟩ := (hcode rest).mp hget
    refine ⟨t, ?_⟩
    rw [hsplit, hsplit', List.append_assoc, List.append_assoc]
    rcases Option.or_eq_some_iff.mp hrest with hfirst | ⟨-, hsecond⟩
    · exact Or.inl (stripPrefix_eq_some_iff.mp hfirst)
    · exact Or.inr (stripPrefix_eq_some_iff.mp hsecond)
  · rintro ⟨t, rfl | rfl⟩
    · refine ⟨"101".toList ++ t, ?_, (hcode _).mpr ⟨t, rfl⟩⟩
      rw [hsplit, List.append_assoc, stripPrefix_eq_some_iff.mpr rfl, Option.some_or]
    · refine ⟨"101".toList ++ t, ?_, (hcode _).mpr ⟨t, rfl⟩⟩
      have hnone : stripPrefix "HTTP/1.1 ".toList ("HTTP/1.0 101".toList ++ t) = none := rfl
      rw [hnone, Option.none_or, hsplit', List.append_assoc, stripPrefix_eq_some_iff.mpr rfl]

/-- What the code looks at: the start of the status line and the last line of each field. -/
structure Passes (C : Crypto) (head key : String) : Prop where
  status : StatusStarts (statusLine head)
  upgrade : (values false .upgrade (headerLines head)).getLast?.any isWebsocket = true
  connection : (values false .connection (headerLines head)).getLast?.any listsUpgrade = true
  accept : (values false .accept (headerLines head)).getLast? = some (expectedAccept C key).toList

theorem accepts_iff {C : Crypto} {head key : String} :
    verifyUpgrade C head key = .ok () ↔ Passes C head key := by
  have hpasses : Passes C head key ↔ StatusStarts (statusLine head) ∧ _ ∧ _ ∧ _ :=
    ⟨fun h => ⟨h.1, h.2, h.3, h.4⟩, fun h => ⟨h.1, h.2.1, h.2.2.1, h.2.2.2⟩⟩
  rw [hpasses, ← code_eq_some_iff]
  unfold verifyUpgrade statusLine headerLines
  generalize split ['\r', '\n'] head.toList = lines
  simp only [scan_eq]
  cases ((stripPrefix "HTTP/1.1 ".toList (lines.headD [])).or
    (stripPrefix "HTTP/1.0 ".toList (lines.headD []))).bind (getTo · 3) with
  | none => simp
  | some code =>
    by_cases hcode : code = "101".toList
    · simp only [hcode, ne_eq, not_true_eq_false, if_false, true_and]
      cases (values false .upgrade lines.tail).getLast?.any isWebsocket with
      | false => simp
      | true =>
        cases (values false .connection lines.tail).getLast?.any listsUpgrade with
        | false => simp
        | true =>
          cases (values false .accept lines.tail).getLast? with
          | none => simp
          | some got => by_cases hgot : got = (expectedAccept C key).toList <;> simp [hgot]
    · simp only [ne_eq, hcode, not_false_eq_true, if_true, reduceCtorEq, Option.some_inj, false_and]

/-! ### The upgrades that should be accepted -/

/-- The whole status code is 101. -/
def StatusExact (status : Str) : Prop :=
  ∃ rest, (status = "HTTP/1.1 101".toList ++ rest ∨ status = "HTTP/1.0 101".toList ++ rest) ∧
    (rest = [] ∨ rest.head? = some ' ')

/-- The response that a valid upgrade asks for. -/
structure ValidUpgrade (trimmed : Bool) (C : Crypto) (head key : String) : Prop where
  status : StatusExact (statusLine head)
  upgrade : ∃ v ∈ values trimmed .upgrade (headerLines head), isWebsocket v = true
  connection : ∃ v ∈ values trimmed .connection (headerLines head), listsUpgrade v = true
  accept : (values trimmed .accept (headerLines head)).getLast? = some (expectedAccept C key).toList

/-- The same status line and the same header lines, in another order. -/
def Permuted (head head' : String) : Prop :=
  statusLine head' = statusLine head ∧ (headerLines head').Perm (headerLines head)

/-- The valid upgrades are accepted and no others, and the order of the header lines does not matter
unless `Sec-WebSocket-Accept` is repeated. -/
structure VerifiesExactly (trimmed : Bool) (C : Crypto) (head key : String) : Prop where
  accepts : verifyUpgrade C head key = .ok () ↔ ValidUpgrade trimmed C head key
  order : (values trimmed .accept (headerLines head)).length ≤ 1 → ∀ head', Permuted head head' →
    (verifyUpgrade C head' key = .ok () ↔ verifyUpgrade C head key = .ok ())

/-! ### When they are -/

/-- In some order the header lines pass: the status line begins as it should, and among the lines of
each field there is one that says what is needed. -/
structure Acceptable (C : Crypto) (head key : String) : Prop where
  status : StatusStarts (statusLine head)
  upgrade : ∃ v ∈ values false .upgrade (headerLines head), isWebsocket v = true
  connection : ∃ v ∈ values false .connection (headerLines head), listsUpgrade v = true
  accept : (values false .accept (headerLines head)).getLast? = some (expectedAccept C key).toList

/-- No line contradicts another one of its field. -/
def Uniform (head : String) : Prop :=
  (∀ v ∈ values false .upgrade (headerLines head), isWebsocket v = true) ∧
    ∀ v ∈ values false .connection (headerLines head), listsUpgrade v = true

/-- The last `Upgrade` line and the last `Connection` line say what is needed. -/
def LastWords (head : String) : Prop :=
  (values false .upgrade (headerLines head)).getLast?.any isWebsocket = true ∧
    (values false .connection (headerLines head)).getLast?.any listsUpgrade = true

/-- No head is valid only by a padded name; and one that passes in some order has the whole code 101
and no contradicting lines.  Where `Sec-WebSocket-Accept` is repeated the order is fixed, and then the
last lines say what is needed exactly if the code is the whole code. -/
structure Unambiguous (trimmed : Bool) (C : Crypto) (head key : String) : Prop where
  unpadded : ValidUpgrade trimmed C head key → ValidUpgrade false C head key
  single : Acceptable C head key → (values trimmed .accept (headerLines head)).length ≤ 1 →
    StatusExact (statusLine head) ∧ Uniform head
  repeated : Acceptable C head key → 1 < (values trimmed .accept (headerLines head)).length →
    (LastWords head ↔ StatusExact (statusLine head) ∧
      (values trimmed .accept (headerLines head)).getLast? = some (expectedAccept C key).toList)

variable {C : Crypto} {head head' key : String}

theorem StatusExact.starts {status : Str} (h : StatusExact status) : StatusStarts status := by
  obtain ⟨rest, hrest, -⟩ := h
  exact ⟨rest, hrest⟩

theorem exists_of_getLast?_any {α : Type} {l : List α} {p : α → Bool}
    (h : l.getLast?.any p = true) : ∃ a ∈ l, p a = true := by
  obtain ⟨a, ha, hp⟩ := (Option.any_eq_true p _).mp h
  exact ⟨a, List.mem_of_getLast? ha, hp⟩

theorem getLast?_any_of_forall {α : Type} {l : List α} {p : α → Bool} (hne : ∃ a, a ∈ l)
    (h : ∀ a ∈ l, p a = true) : l.getLast?.any p = true := by
  obtain ⟨a, ha⟩ := hne
  have hlast := List.getLast?_eq_some_getLast (List.ne_nil_of_mem ha)
  rw [hlast]
  exact h _ (List.getLast_mem _)

theorem Passes.acceptable (h : Passes C head key) : Acceptable C head key :=
  ⟨h.status, exists_of_getLast?_any h.upgrade, exists_of_getLast?_any h.connection, h.accept⟩

theorem Passes.lastWords (h : Passes C head key) : LastWords head := ⟨h.upgrade, h.connection⟩

theorem Acceptable.passes (h : Acceptable C head key) (hlast : LastWords head) :
    Passes C head key := ⟨h.status, hlast.1, hlast.2, h.accept⟩

/-- Where no line contradicts another, one that says what is needed is enough. -/
theorem Acceptable.lastWords (h : Acceptable C head key) (huniform : Uniform head) :
    LastWords head := by
  obtain ⟨v, hv, -⟩ := h.upgrade
  obtain ⟨w, hw, -⟩ := h.connection
  exact ⟨getLast?_any_of_forall ⟨v, hv⟩ huniform.1, getLast?_any_of_forall ⟨w, hw⟩ huniform.2⟩

theorem ValidUpgrade.acceptable (h : ValidUpgrade false C head key) : Acceptable C head key :=
  ⟨h.status.starts, h.upgrade, h.connection, h.accept⟩

theorem exists_values_trimmed {p : Str → Bool} (h : ∃ v ∈ values false field lines, p v = true)
    (trimmed : Bool) : ∃ v ∈ values trimmed field lines, p v = true := by
  obtain ⟨v, hv, hp⟩ := h
  exact ⟨v, (values_sublist trimmed field lines).subset hv, hp⟩

/-- A single `Sec-WebSocket-Accept` that is found as it stands is the one. -/
theorem getLast?_values_trimmed (hone : (values trimmed field lines).length ≤ 1)
    (h : (values false field lines).getLast? = some value) :
    (values trimmed field lines).getLast? = some value := by
  have hpos : 0 < (values false field lines).length :=
    List.length_pos_of_mem (List.mem_of_getLast? h)
  rwa [← (values_sublist trimmed field lines).eq_of_length_le (by omega)]

/-! ### Rearranging the lines -/

theorem cons_headerLines (head : String) :
    split ['\r', '\n'] head.toList = statusLine head :: headerLines head := by
  obtain ⟨l, ls, hsplit⟩ := List.exists_cons_of_ne_nil
    (splitAux_ne_nil ['\r', '\n'] [] 0 head.toList)
  have hsplit : split ['\r', '\n'] head.toList = l :: ls := hsplit
  rw [statusLine, headerLines, hsplit]
  rfl

/-- Every order of the header lines is the order of a head. -/
theorem exists_permuted (h : lines.Perm (headerLines head)) :
    ∃ head', Permuted head head' ∧ headerLines head' = lines := by
  have hunbroken : ∀ l ∈ statusLine head :: lines, Unbroken '\r' '\n' l := by
    intro l hl
    apply unbroken_split (s := head.toList)
    rw [cons_headerLines]
    rcases List.mem_cons.mp hl with rfl | hl
    · exact List.mem_cons_self
    · exact List.mem_cons_of_mem _ (h.mem_iff.mp hl)
  have hsplit := split_intercalate (by decide : '\r' ≠ '\n') hunbroken (List.cons_ne_nil _ _)
  have hcons := cons_headerLines (String.ofList (['\r', '\n'].intercalate (statusLine head :: lines)))
  rw [String.toList_ofList, hsplit] at hcons
  obtain ⟨hstatus, hlines⟩ := List.cons.inj hcons
  exact ⟨_, ⟨hstatus.symm, hlines ▸ h⟩, hlines.symm⟩

theorem exists_perm_concat {α : Type} [DecidableEq α] {l : List α} {a : α} (h : a ∈ l) :
    ∃ l', (l' ++ [a]).Perm l :=
  ⟨l.erase a, (List.perm_append_singleton a _).trans (List.perm_cons_erase h).symm⟩

/-- A line that is moved to the end has the last word. -/
theorem exists_permuted_last (h : value ∈ values false field (headerLines head)) :
    ∃ head', Permuted head head' ∧
      (values false field (headerLines head')).getLast? = some value := by
  obtain ⟨line, hline, hvalue⟩ := mem_values.mp h
  obtain ⟨lines, hperm⟩ := exists_perm_concat hline
  obtain ⟨head', hpermuted, heq⟩ := exists_permuted hperm
  refine ⟨head', hpermuted, ?_⟩
  rw [heq, values_concat, hvalue]
  simp

theorem Permuted.refl (head : String) : Permuted head head := ⟨rfl, .refl _⟩

theorem Permuted.symm (h : Permuted head head') : Permuted head' head := ⟨h.1.symm, h.2.symm⟩

theorem Permuted.mem_values_iff (h : Permuted head head') :
    value ∈ values false field (headerLines head') ↔ value ∈ values false field (headerLines head) :=
  (values_perm h.2).mem_iff

theorem Permuted.uniform (h : Permuted head head') (huniform : Uniform head) : Uniform head' :=
  ⟨fun v hv => huniform.1 v (h.mem_values_iff.mp hv),
    fun v hv => huniform.2 v (h.mem_values_iff.mp hv)⟩

/-- A field that is not repeated has the same value in every order. -/
theorem Permuted.values_eq (h : Permuted head head')
    (hone : (values false field (headerLines head)).length ≤ 1) :
    values false field (headerLines head') = values false field (headerLines head) := by
  have hperm : (values false field (headerLines head')).Perm (values false field (headerLines head)) :=
    values_perm h.2
  rcases Nat.le_one_iff_eq_zero_or_eq_one.mp hone with hzero | hsingle
  · rw [List.length_eq_zero_iff.mp hzero] at hperm ⊢
    exact hperm.eq_nil
  · obtain ⟨v, hv⟩ := List.length_eq_one_iff.mp hsingle
    rw [hv] at hperm ⊢
    exact hperm.eq_singleton

/-- What some line says does not depend on the order. -/
theorem Acceptable.permuted (h : Acceptable C head key) (hpermuted : Permuted head head')
    (hone : (values false .accept (headerLines head)).length ≤ 1) : Acceptable C head' key := by
  obtain ⟨hstatus, ⟨v, hv, hwebsocket⟩, ⟨w, hw, hupgrade⟩, haccept⟩ := h
  refine ⟨?_, ⟨v, hpermuted.mem_values_iff.mpr hv, hwebsocket⟩,
    ⟨w, hpermuted.mem_values_iff.mpr hw, hupgrade⟩, ?_⟩
  · rwa [hpermuted.1]
  · rwa [hpermuted.values_eq hone]

/-- Some order passes: the lines that say what is needed come last. -/
theorem Acceptable.exists_passes (h : Acceptable C head key)
    (hone : (values false .accept (headerLines head)).length ≤ 1) :
    ∃ head', Permuted head head' ∧ Passes C head' key := by
  obtain ⟨v, hv, hwebsocket⟩ := h.upgrade
  obtain ⟨w, hw, hupgrade⟩ := h.connection
  obtain ⟨line, hline, hvalue⟩ := mem_values.mp hv
  obtain ⟨line', hline', hvalue'⟩ := mem_values.mp hw
  have hother : fieldValue? false .upgrade line' = none := fieldValue?_of_ne hvalue' (by decide)
  have hne : line' ≠ line := by
    rintro rfl
    rw [hvalue] at hother
    cases hother
  obtain ⟨lines, hperm⟩ := exists_perm_concat hline
  have hmem : line' ∈ lines := by
    have hconcat := hperm.mem_iff.mpr hline'
    simpa [hne] using hconcat
  obtain ⟨lines', hperm'⟩ := exists_perm_concat hmem
  obtain ⟨head', hpermuted, heq⟩ := exists_permuted ((hperm'.append_right [line]).trans hperm)
  have hacceptable := h.permuted hpermuted hone
  refine ⟨head', hpermuted, hacceptable.status, ?_, ?_, hacceptable.accept⟩
  · rw [heq, values_concat, hvalue]
    simpa using hwebsocket
  · rw [heq, values_concat, fieldValue?_of_ne hvalue (by decide), values_concat, hvalue']
    simpa using hupgrade

/-! ### The exact condition -/

/-- Where no line contradicts another, every order is accepted exactly if some order is. -/
theorem accepts_permuted_iff (h : Acceptable C head key → Uniform head)
    (hone : (values false .accept (headerLines head)).length ≤ 1) :
    ∀ head', Permuted head head' → (verifyUpgrade C head' key = .ok () ↔ Acceptable C head key) := by
  intro head' hpermuted
  rw [accepts_iff]
  constructor
  · intro hpasses
    refine hpasses.acceptable.permuted hpermuted.symm ?_
    rwa [hpermuted.values_eq hone]
  · intro hacceptable
    have hthere := hacceptable.permuted hpermuted hone
    exact hthere.passes (hthere.lastWords (hpermuted.uniform (h hacceptable)))

/-- If every order is judged alike, any line can have the last word. -/
theorem uniform_of_order (h : ∀ head', Permuted head head' → Passes C head' key) : Uniform head := by
  constructor
  · intro v hv
    obtain ⟨head', hpermuted, hlast⟩ := exists_permuted_last hv
    have hpasses := (h head' hpermuted).upgrade
    rwa [hlast] at hpasses
  · intro v hv
    obtain ⟨head', hpermuted, hlast⟩ := exists_permuted_last hv
    have hpasses := (h head' hpermuted).connection
    rwa [hlast] at hpasses

theorem Acceptable.valid (h : Acceptable C head key) (hstatus : StatusExact (statusLine head))
    (haccept : (values trimmed .accept (headerLines head)).getLast? =
      some (expectedAccept C key).toList) : ValidUpgrade trimmed C head key :=
  ⟨hstatus, exists_values_trimmed h.upgrade trimmed, exists_values_trimmed h.connection trimmed,
    haccept⟩

theorem VerifiesExactly.unambiguous (h : VerifiesExactly trimmed C head key) :
    Unambiguous trimmed C head key := by
  have haccepts := h.accepts
  rw [accepts_iff] at haccepts
  constructor
  case unpadded =>
    intro hvalid
    exact (haccepts.mpr hvalid).acceptable.valid hvalid.status (haccepts.mpr hvalid).accept
  case single =>
    intro hacceptable hone
    have hraw := (values_sublist trimmed .accept (headerLines head)).length_le.trans hone
    -- one order passes, so all do
    obtain ⟨head', hpermuted, hpasses⟩ := hacceptable.exists_passes hraw
    have hok := (h.order hone head' hpermuted).mp (accepts_iff.mpr hpasses)
    have hall : ∀ head', Permuted head head' → Passes C head' key := fun head' hpermuted =>
      accepts_iff.mp ((h.order hone head' hpermuted).mpr hok)
    exact ⟨(h.accepts.mp hok).status, uniform_of_order hall⟩
  case repeated =>
    intro hacceptable _
    constructor
    · intro hlast
      have hvalid := haccepts.mp (hacceptable.passes hlast)
      exact ⟨hvalid.status, hvalid.accept⟩
    · rintro ⟨hstatus, haccept⟩
      exact (haccepts.mpr (hacceptable.valid hstatus haccept)).lastWords

theorem Unambiguous.verifiesExactly (h : Unambiguous trimmed C head key) :
    VerifiesExactly trimmed C head key := by
  have hvalid : ValidUpgrade trimmed C head key → Acceptable C head key := fun hvalid =>
    (h.unpadded hvalid).acceptable
  by_cases hone : (values trimmed .accept (headerLines head)).length ≤ 1
  · have hraw := (values_sublist trimmed .accept (headerLines head)).length_le.trans hone
    have horder := accepts_permuted_iff (fun hacceptable => (h.single hacceptable hone).2) hraw
    have hhere := horder head (.refl head)
    constructor
    case accepts =>
      rw [hhere]
      constructor
      · intro hacceptable
        exact hacceptable.valid (h.single hacceptable hone).1
          (getLast?_values_trimmed hone hacceptable.accept)
      · exact hvalid
    case order =>
      intro _ head' hpermuted
      rw [horder head' hpermuted, hhere]
  · constructor
    case accepts =>
      rw [accepts_iff]
      constructor
      · intro hpasses
        obtain ⟨hstatus, haccept⟩ :=
          (h.repeated hpasses.acceptable (not_le.mp hone)).mp hpasses.lastWords
        exact hpasses.acceptable.valid hstatus haccept
      · intro hv
        have hacceptable := hvalid hv
        exact hacceptable.passes ((h.repeated hacceptable (not_le.mp hone)).mpr ⟨hv.status, hv.accept⟩)
    case order => exact fun hle => absurd hle hone

/-- The valid upgrades are accepted, no others, and in every order, exactly for the heads that are
unambiguous. -/
theorem verifyUpgrade_exact_iff (trimmed : Bool) (C : Crypto) (head key : String) :
    VerifiesExactly trimmed C head key ↔ Unambiguous trimmed C head key :=
  ⟨VerifiesExactly.unambiguous, Unambiguous.verifiesExactly⟩

/-- The example of `rfcResponse` with the status code 1010. -/
def nearMiss : String := "HTTP/1.1 1010 Odd\r\nUpgrade: websocket\r\nConnection: Upgrade\r\n" ++
  "Sec-WebSocket-Accept: s3pPLMBiTxaQ9kYGzzhZRbK+xOo="

/-- The example with an offer of another protocol after the first one. -/
def twoUpgrades : String := "HTTP/1.1 101 Switching Protocols\r\nUpgrade: websocket\r\n" ++
  "Upgrade: h2c\r\nConnection: Upgrade\r\nSec-WebSocket-Accept: s3pPLMBiTxaQ9kYGzzhZRbK+xOo="

/-- A status code that only begins with 101 is accepted, and an upgrade to `websocket` is refused
when a later line offers another protocol. -/
theorem nearMiss_accepted :
    ¬VerifiesExactly false rfcCrypto nearMiss "dGhlIHNhbXBsZSBub25jZQ==" ∧
    ¬VerifiesExactly true rfcCrypto nearMiss "dGhlIHNhbXBsZSBub25jZQ==" ∧
    ¬VerifiesExactly false rfcCrypto twoUpgrades "dGhlIHNhbXBsZSBub25jZQ==" ∧
    ¬VerifiesExactly true rfcCrypto twoUpgrades "dGhlIHNhbXBsZSBub25jZQ==" := by
  have hnear : ∀ trimmed,
      ¬VerifiesExactly trimmed rfcCrypto nearMiss "dGhlIHNhbXBsZSBub25jZQ==" := by
    intro trimmed h
    have hok : verifyUpgrade rfcCrypto nearMiss "dGhlIHNhbXBsZSBub25jZQ==" = .ok () := by
      decide +kernel
    -- accepted, though the code is not 101
    obtain ⟨rest, hstatus, hrest⟩ := (h.accepts.mp hok).status
    have hline : statusLine nearMiss = "HTTP/1.1 101".toList ++ "0 Odd".toList := by decide +kernel
    rw [hline] at hstatus
    rcases hstatus with hstatus | hstatus
    · obtain rfl := List.append_cancel_left hstatus
      exact absurd hrest (by decide)
    · simp at hstatus
  have htwo : ∀ trimmed,
      ¬VerifiesExactly trimmed rfcCrypto twoUpgrades "dGhlIHNhbXBsZSBub25jZQ==" := by
    intro trimmed h
    have hstatus : statusLine twoUpgrades =
        "HTTP/1.1 101".toList ++ " Switching Protocols".toList := by decide +kernel
    have hlines : headerLines twoUpgrades = ["Upgrade: websocket".toList, "Upgrade: h2c".toList,
        "Connection: Upgrade".toList,
        "Sec-WebSocket-Accept: s3pPLMBiTxaQ9kYGzzhZRbK+xOo=".toList] := by decide +kernel
    have hvalid : ValidUpgrade trimmed rfcCrypto twoUpgrades "dGhlIHNhbXBsZSBub25jZQ==" := by
      constructor
      case status => exact ⟨_, Or.inl hstatus, Or.inr rfl⟩
      case upgrade =>
        rw [hlines]
        cases trimmed <;> exact ⟨"websocket".toList, by decide +kernel, by decide +kernel⟩
      case connection =>
        rw [hlines]
        cases trimmed <;> exact ⟨"Upgrade".toList, by decide +kernel, by decide +kernel⟩
      case accept =>
        rw [hlines]
        cases trimmed <;> decide +kernel
    -- refused, though one of the two fields is as it should be
    exact absurd (h.accepts.mpr hvalid) (by decide +kernel)
  exact ⟨hnear false, hnear true, htwo false, htwo true⟩

end WhatsappEsp32.Ws
