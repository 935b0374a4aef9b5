import Mathlib.Data.PNat.Basic
import WhatsappEsp32.Lib.Heap
import WhatsappEsp32.Lib.Trace

/-!
# The global allocator

`PsramAllocator` gives every Rust object its memory.  It asks the heap of ESP-IDF for the preferred
kind of memory first and for any memory next, aligns more than the heap would, and reallocates in
place where the heap does.

* `alloc`, `dealloc`, `realloc`, `reallocCopy`: the methods, over any heap that keeps the laws of
  `Memory.Heap`;
* `Call`, `World`: what the program does with its memory, and what it may then rely on: the blocks
  that it has, and the bytes that it has put there;
* `Runs`: the program calls the allocator as `GlobalAlloc` allows, in any order;
* `allocations_sound`: blocks are aligned and apart, and bytes stay until they are overwritten or
  cut off, however often blocks are moved and memory is short.
-/

namespace WhatsappEsp32

open Memory Trace

namespace PsramAlloc

/-! ### The allocator -/

/-- What the build is for. -/
structure Board where
  spiram : Bool
  riscv32 : Bool
  unicore : Bool
  /-- The target has the atomic instructions. -/
  atomics : Bool

/-- The capabilities that the allocator asks for. -/
inductive Caps
  /-- `MALLOC_CAP_SPIRAM | MALLOC_CAP_8BIT`. -/
  | spiram
  /-- `MALLOC_CAP_RTCRAM | MALLOC_CAP_8BIT`. -/
  | rtcram
  | default
  deriving DecidableEq

/-- `PREFERRED_CAPS`: PSRAM where the board has it. -/
def preferredCaps (board : Board) : Caps :=
  if board.spiram then .spiram
  else if board.riscv32 && (board.unicore && !board.atomics) then .rtcram
  else .default

/-- A size that is not zero, and an alignment that is a power of two. -/
structure Layout where
  size : ℕ+
  alignLog : ℕ

/-- `Layout::align`, a power of two. -/
def Layout.align (layout : Layout) : ℕ := 2 ^ layout.alignLog

section

variable {σ : Type} (H : Heap Caps σ) (board : Board)

/-- `alloc`: the preferred memory first, then the default one. -/
def alloc (layout : Layout) (s : σ) : ℕ × σ :=
  let align := max layout.align 4
  let caps := preferredCaps board
  let r := H.alignedAlloc align layout.size caps s
  if r.1 ≠ 0 ∨ caps = .default then r else H.alignedAlloc align layout.size .default r.2

/-- `dealloc`. -/
def dealloc (p : ℕ) (s : σ) : σ := H.free p s

/-- The default of the library, kept for blocks that are aligned to more than a word. -/
def reallocCopy (p : ℕ) (layout : Layout) (newSize : ℕ+) (s : σ) : ℕ × σ :=
  let r := alloc H board { layout with size := newSize } s
  if r.1 ≠ 0 then
    (r.1, dealloc H p (H.store r.1 (read (H.view r.2).mem p (min layout.size newSize)) r.2))
  else r

/-- `realloc`: the heap moves the block itself unless its alignment is above 4. -/
def realloc (p : ℕ) (layout : Layout) (newSize : ℕ+) (s : σ) : ℕ × σ :=
  if layout.align > 4 then reallocCopy H board p layout newSize s
  else
    let caps := preferredCaps board
    let r := H.realloc p newSize caps s
    if r.1 ≠ 0 ∨ caps = .default then r else H.realloc p newSize .default r.2

/-! ### What the program does -/

/-- A use of memory by the program. -/
inductive Call
  | alloc (layout : Layout)
  | dealloc (p : ℕ) (layout : Layout)
  | realloc (p : ℕ) (layout : Layout) (newSize : ℕ+)
  /-- Bytes are written to the block at `p`. -/
  | write (p offset : ℕ) (data : List UInt8)

/-- The call, and the pointer it returns, if any. -/
def exec (s : σ) : Call → ℕ × σ
  | .alloc layout => alloc H board layout s
  | .dealloc p _ => (0, dealloc H p s)
  | .realloc p layout newSize => realloc H board p layout newSize s
  | .write p offset data => (0, H.store (p + offset) data s)

end

/-- The blocks that the program has, and the bytes in them that it knows. -/
structure World where
  layout : ℕ → Option Layout
  byte : ℕ → ℕ → Option UInt8

namespace World

/-- No block, and no byte written. -/
def initial : World := ⟨fun _ => none, fun _ _ => none⟩

/-- What the program knows after a call and its answer. -/
def apply (w : World) : Call × ℕ → World
  | (.alloc layout, result) =>
    if result = 0 then w
    else ⟨Function.update w.layout result (some layout),
      Function.update w.byte result fun _ => none⟩
  | (.dealloc p _, _) => { w with layout := Function.update w.layout p none }
  | (.realloc p layout newSize, result) =>
    if result = 0 then w
    else ⟨Function.update (Function.update w.layout p none) result
        (some { layout with size := newSize }),
      Function.update w.byte result fun i =>
        if i < min (layout.size : ℕ) newSize then w.byte p i else none⟩
  | (.write p offset data, _) =>
    { w with byte := Function.update w.byte p fun i =>
        if offset ≤ i ∧ i < offset + data.length then data[i - offset]? else w.byte p i }

/-- The blocks and their bytes after a trace. -/
def after (trace : List (Call × ℕ)) : World := trace.foldl apply initial

end World

/-- The contract of the callers: the pointer is that of a block, with its layout, and writes are
within it. -/
def Legal (w : World) : Call → Prop
  | .alloc _ => True
  | .dealloc p layout => w.layout p = some layout
  | .realloc p layout _ => w.layout p = some layout
  | .write p offset data =>
    ∃ layout, w.layout p = some layout ∧ offset + data.length ≤ (layout.size : ℕ)

/-- The program has called the allocator as it may, with these answers. -/
inductive Runs {σ : Type} (H : Heap Caps σ) (board : Board) : List (Call × ℕ) → σ → Prop
  | start {s : σ} (h : H.Valid s) : Runs H board [] s
  | call {trace : List (Call × ℕ)} {s : σ} {c : Call} (h : Runs H board trace s)
      (hlegal : Legal (.after trace) c) :
      Runs H board (trace ++ [(c, (exec H board s c).1)]) (exec H board s c).2

/-- A block is aligned, and apart from the other blocks. -/
def Placed (w : World) (old : Option ℕ) (layout : Layout) (p : ℕ) : Prop :=
  layout.align ∣ p ∧ ∀ q l, w.layout q = some l → old ≠ some q → Apart p layout.size q l.size

/-- What an answer promises. -/
def Promised (w : World) : Call × ℕ → Prop
  | (.alloc layout, result) => result ≠ 0 → Placed w none layout result
  | (.realloc p layout newSize, result) =>
    result ≠ 0 → Placed w (some p) { layout with size := newSize } result
  | _ => True

/-! ### The methods -/

section

variable {σ : Type} {H : Heap Caps σ} {board : Board} {s : σ} {layout : Layout} {p n : ℕ}
  {newSize : ℕ+}

/-- What is aligned to the larger of the alignment and a word has the alignment. -/
theorem align_dvd_max (layout : Layout) : layout.align ∣ max layout.align 4 := by
  by_cases hlarge : 4 ≤ layout.align
  · rw [max_eq_left hlarge]
  · have hlog : layout.alignLog ≤ 2 := by
      by_contra hlog
      exact hlarge (Nat.pow_le_pow_right Nat.two_pos (by omega : 2 ≤ layout.alignLog))
    rw [max_eq_right (Nat.le_of_not_le hlarge)]
    exact pow_dvd_pow 2 hlog

theorem alloc_granted (board : Board) (layout : Layout) (hvalid : H.Valid s) : H.Valid (alloc H board layout s).2 ∧
    Granted layout.align layout.size (H.view s) (alloc H board layout s).1
      (H.view (alloc H board layout s).2) := by
  have hspec : ∀ {s : σ} (caps : Caps), H.Valid s →
      H.Valid (H.alignedAlloc (max layout.align 4) layout.size caps s).2 ∧
      Granted layout.align layout.size (H.view s)
        (H.alignedAlloc (max layout.align 4) layout.size caps s).1
        (H.view (H.alignedAlloc (max layout.align 4) layout.size caps s).2) := by
    intro s caps hvalid
    refine ⟨(H.alignedAlloc_spec hvalid layout.size.pos).1, ?_⟩
    exact (H.alignedAlloc_spec hvalid layout.size.pos).2.of_dvd (align_dvd_max layout)
  obtain ⟨hvalid', hfirst⟩ := hspec (preferredCaps board) hvalid
  simp only [alloc]
  split
  · exact ⟨hvalid', hfirst⟩
  · -- The preferred memory is short, so any memory will do.
    rename_i hfail
    rw [not_or, not_not] at hfail
    obtain ⟨hvalid'', hsecond⟩ := hspec .default hvalid'
    rw [hfail.1] at hfirst
    exact ⟨hvalid'', hfirst.retry hsecond⟩

/-- The copy and the release of the old block. -/
theorem moved_of_copy {q : ℕ} {s' : σ} (hlive : (H.view s).live p = some (layout.size : ℕ))
    (hvalid' : H.Valid s') (hkeeps : Keeps (H.view s) 0 (H.view s')) (hvalid : H.Valid s)
    (hq : q ≠ 0) (hdvd : layout.align ∣ q)
    (hapart : ∀ q' n, (H.view s).live q' = some n → Apart q newSize q' n)
    (hnew : (H.view s').live = Function.update (H.view s).live q (some (newSize : ℕ))) :
    let data := read (H.view s').mem p (min layout.size newSize)
    H.Valid (dealloc H p (H.store q data s')) ∧
      Moved layout.align p layout.size newSize (H.view s) q
        (H.view (dealloc H p (H.store q data s'))) := by
  intro data
  unfold dealloc
  have hne : q ≠ p := (hapart p _ hlive).ne newSize.pos layout.size.pos
  have hp : p ≠ 0 := H.live_ne_zero hvalid hlive
  have hlength : data.length = min (layout.size : ℕ) newSize := length_read
  have hliveq : (H.view s').live q = some (newSize : ℕ) := by rw [hnew, Function.update_self]
  have hlivep : (H.view s').live p = some (layout.size : ℕ) := by
    rw [hnew, Function.update_of_ne hne.symm, hlive]
  obtain ⟨hstored, hview, hmem⟩ := H.store_spec hvalid' hliveq le_rfl (by rw [hlength]; omega)
  have hlivep' : (H.view (H.store q data s')).live p = some (layout.size : ℕ) := by rw [hview, hlivep]
  obtain ⟨hfreed, hothers, hrest⟩ := H.free_spec hstored hlivep'
  refine ⟨hfreed, fun q' n hq' hne' i hi => ?_, Or.inr ⟨hq, hdvd, ?_, ?_, fun i hi => ?_⟩⟩
  · have hqq' : q' ≠ q := ((hapart q' n hq').ne newSize.pos (Nat.zero_lt_of_lt hi)).symm
    have hlive' : (H.view (H.store q data s')).live q' = some n := by
      rw [hview, hnew, Function.update_of_ne hqq', hq']
    rw [hothers q' n hlive' hne' i hi, hmem]
    rw [write_apart (hapart q' n hq') (hlength ▸ min_le_right _ _) hi]
    exact hkeeps q' n hq' (H.live_ne_zero hvalid hq') i hi
  · exact fun q' m hq' _ => hapart q' m hq'
  · rw [hrest, hview, hnew, Function.update_comm hne]
  · have hliveq' : (H.view (H.store q data s')).live q = some (newSize : ℕ) := by rw [hview, hliveq]
    have hi' : i < data.length := hlength ▸ hi
    have hcopied : data[i]? = some ((H.view s').mem (p + i)) := getElem?_read hi
    rw [hothers q _ hliveq' hne i (hi.trans_le (min_le_right _ _)), hmem]
    rw [write_inside hi', Option.some.inj ((List.getElem?_eq_getElem hi').symm.trans hcopied)]
    exact hkeeps p _ hlive hp i (hi.trans_le (min_le_left _ _))

theorem reallocCopy_moved (hvalid : H.Valid s) (hlive : (H.view s).live p = some (layout.size : ℕ)) :
    H.Valid (reallocCopy H board p layout newSize s).2 ∧
      Moved layout.align p layout.size newSize (H.view s)
        (reallocCopy H board p layout newSize s).1
        (H.view (reallocCopy H board p layout newSize s).2) := by
  obtain ⟨hvalid', hkeeps, hanswer⟩ := alloc_granted board { layout with size := newSize } hvalid
  simp only [reallocCopy]
  split
  · rename_i hq
    obtain ⟨hfail, -⟩ | ⟨-, hdvd, hapart, hnew⟩ := hanswer
    · exact absurd hfail hq
    · exact moved_of_copy hlive hvalid' hkeeps hvalid hq hdvd hapart hnew
  · rename_i hq
    rw [not_not] at hq
    obtain ⟨-, hsame⟩ | ⟨hne, -⟩ := hanswer
    · refine ⟨hvalid', fun q' n hq' _ => hkeeps q' n hq' (H.live_ne_zero hvalid hq'),
        Or.inl ⟨hq, hsame, ?_⟩⟩
      exact hkeeps p _ hlive (H.live_ne_zero hvalid hlive)
    · exact absurd hq hne

theorem realloc_moved (board : Board) (newSize : ℕ+) (hvalid : H.Valid s) (hlive : (H.view s).live p = some (layout.size : ℕ)) :
    H.Valid (realloc H board p layout newSize s).2 ∧
      Moved layout.align p layout.size newSize (H.view s) (realloc H board p layout newSize s).1
        (H.view (realloc H board p layout newSize s).2) := by
  unfold realloc
  split
  · exact reallocCopy_moved hvalid hlive
  · rename_i hword
    -- The heap aligns to words, which is enough here.
    have hdvd : layout.align ∣ 4 := by
      have hmax := align_dvd_max layout
      rwa [max_eq_right (Nat.le_of_not_lt hword)] at hmax
    obtain ⟨hvalid', hfirst⟩ : H.Valid (H.realloc p newSize (preferredCaps board) s).2 ∧ _ :=
      H.realloc_spec hvalid hlive newSize.pos
    dsimp only
    split
    · exact ⟨hvalid', hfirst.of_dvd hdvd⟩
    · rename_i hfail
      rw [not_or, not_not] at hfail
      rw [hfail.1] at hfirst
      have hlive' : (H.view (H.realloc p newSize (preferredCaps board) s).2).live p =
          some (layout.size : ℕ) := by
        obtain ⟨-, ⟨-, hsame, -⟩ | ⟨hne, -⟩⟩ := hfirst
        · rw [hsame, hlive]
        · exact absurd rfl hne
      refine ⟨(H.realloc_spec hvalid' hlive' newSize.pos).1, ?_⟩
      exact (hfirst.retry (H.realloc_spec hvalid' hlive' newSize.pos).2).of_dvd hdvd

end

/-! ### The program and the heap -/

/-- What the program relies on is so. -/
structure Holds (w : World) (b : Blocks) : Prop where
  live : ∀ p layout, w.layout p = some layout → b.live p = some (layout.size : ℕ)
  apart : ∀ p q l l', w.layout p = some l → w.layout q = some l' → p ≠ q → Apart p l.size q l'.size
  byte : ∀ p layout i x, w.layout p = some layout → i < (layout.size : ℕ) → w.byte p i = some x →
    b.mem (p + i) = x

section

variable {w : World} {b b' : Blocks} {layout : Layout} {newSize : ℕ+} {p q : ℕ}

/-- A block is placed among those that are kept. -/
theorem Holds.place (h : Holds w b) {kept : ℕ → Option Layout} {bytes : ℕ → Option UInt8}
    (hkept : ∀ q l, kept q = some l → w.layout q = some l ∧ Apart p layout.size q l.size ∧
      b'.live q = some (l.size : ℕ) ∧ ∀ i < (l.size : ℕ), b'.mem (q + i) = b.mem (q + i))
    (hlive : b'.live p = some (layout.size : ℕ))
    (hbytes : ∀ i x, i < (layout.size : ℕ) → bytes i = some x → b'.mem (p + i) = x) :
    Holds ⟨Function.update kept p (some layout), Function.update w.byte p bytes⟩ b' := by
  have hcases : ∀ {q l}, Function.update kept p (some layout) q = some l →
      q = p ∧ l = layout ∨ q ≠ p ∧ kept q = some l := by
    intro q l hq
    by_cases hqp : q = p
    · subst hqp
      rw [Function.update_self] at hq
      exact Or.inl ⟨rfl, (Option.some.inj hq).symm⟩
    · rw [Function.update_of_ne hqp] at hq
      exact Or.inr ⟨hqp, hq⟩
  constructor
  · intro q l hq
    rcases hcases hq with ⟨rfl, rfl⟩ | ⟨-, hq⟩
    · exact hlive
    · exact (hkept q l hq).2.2.1
  · intro q q' l l' hq hq' hne
    rcases hcases hq with ⟨rfl, rfl⟩ | ⟨-, hold⟩
    · rcases hcases hq' with ⟨rfl, -⟩ | ⟨-, hold'⟩
      · exact absurd rfl hne
      · exact (hkept q' l' hold').2.1
    · rcases hcases hq' with ⟨rfl, rfl⟩ | ⟨-, hold'⟩
      · exact (hkept q l hold).2.1.symm
      · exact h.apart q q' l l' (hkept q l hold).1 (hkept q' l' hold').1 hne
  · intro q l i x hq hi hx
    dsimp only at hx
    rcases hcases hq with ⟨rfl, rfl⟩ | ⟨hqp, hq⟩
    · rw [Function.update_self] at hx
      exact hbytes i x hi hx
    · rw [Function.update_of_ne hqp] at hx
      rw [(hkept q l hq).2.2.2 i hi, h.byte q l i x (hkept q l hq).1 hi hx]

theorem Holds.alloc (h : Holds w b) (hzero : ∀ q n, b.live q = some n → q ≠ 0)
    (hgranted : Granted layout.align layout.size b p b') :
    Holds (w.apply (.alloc layout, p)) b' ∧ (p ≠ 0 → Placed w none layout p) := by
  obtain ⟨hkeeps, hanswer⟩ := hgranted
  have hbytes : ∀ q l, w.layout q = some l → ∀ i < (l.size : ℕ), b'.mem (q + i) = b.mem (q + i) :=
    fun q l hq => hkeeps q _ (h.live q l hq) (hzero q _ (h.live q l hq))
  obtain ⟨rfl, hlive⟩ | ⟨hp, hdvd, hapart, hlive⟩ := hanswer
  · refine ⟨⟨?_, h.apart, fun q l i x hq hi hx => ?_⟩, fun hne => absurd rfl hne⟩
    · rw [hlive]
      exact h.live
    · rw [hbytes q l hq i hi, h.byte q l i x hq hi hx]
  · refine ⟨?_, fun _ => ⟨hdvd, fun q l hq _ => hapart q _ (h.live q l hq)⟩⟩
    simp only [World.apply, if_neg hp]
    refine h.place (fun q l hq => ?_) (by rw [hlive, Function.update_self]) (by simp)
    have hqp : p ≠ q := (hapart q _ (h.live q l hq)).ne layout.size.pos l.size.pos
    refine ⟨hq, hapart q _ (h.live q l hq), ?_, hbytes q l hq⟩
    rw [hlive, Function.update_of_ne hqp.symm, h.live q l hq]

theorem Holds.dealloc (h : Holds w b) (hkeeps : Keeps b p b')
    (hlive : b'.live = Function.update b.live p none) : Holds (w.apply (.dealloc p layout, 0)) b' := by
  constructor
  · intro q l hq
    obtain ⟨hqp, hq⟩ := of_update_none hq
    rw [hlive, Function.update_of_ne hqp, h.live q l hq]
  · intro q q' l l' hq hq'
    exact h.apart q q' l l' (of_update_none hq).2 (of_update_none hq').2
  · intro q l i x hq hi hx
    obtain ⟨hqp, hq⟩ := of_update_none hq
    rw [hkeeps q _ (h.live q l hq) hqp i hi, h.byte q l i x hq hi hx]

theorem Holds.realloc (h : Holds w b) (hp : w.layout p = some layout)
    (hmoved : Moved layout.align p layout.size newSize b q b') :
    Holds (w.apply (.realloc p layout newSize, q)) b' ∧
      (q ≠ 0 → Placed w (some p) { layout with size := newSize } q) := by
  obtain ⟨hkeeps, ⟨rfl, hlive, hbytes⟩ | ⟨hq, hdvd, hapart, hlive, hbytes⟩⟩ := hmoved
  · refine ⟨⟨?_, h.apart, fun q l i x hq hi hx => ?_⟩, fun hne => absurd rfl hne⟩
    · rw [hlive]
      exact h.live
    · by_cases hqp : q = p
      · subst hqp
        cases hp.symm.trans hq
        rw [hbytes i hi, h.byte q layout i x hq hi hx]
      · rw [hkeeps q _ (h.live q l hq) hqp i hi, h.byte q l i x hq hi hx]
  · constructor
    · simp only [World.apply, if_neg hq]
      refine h.place (fun q' l hq' => ?_) (by rw [hlive, Function.update_self]) fun i x hi hx => ?_
      · obtain ⟨hqp, hq'⟩ := of_update_none hq'
        have hapart' := hapart q' _ (h.live q' l hq') hqp
        have hqq : q' ≠ q := (hapart'.ne newSize.pos l.size.pos).symm
        refine ⟨hq', hapart', ?_, hkeeps q' _ (h.live q' l hq') hqp⟩
        rw [hlive, Function.update_of_ne hqq, Function.update_of_ne hqp, h.live q' l hq']
      · -- The bytes that fit are those of the old block.
        split at hx
        · rename_i hmin
          rw [hbytes i hmin]
          exact h.byte p layout i x hp (hmin.trans_le (min_le_left _ _)) hx
        · cases hx
    · refine fun _ => ⟨hdvd, fun q' l hq' hne => hapart q' _ (h.live q' l hq') ?_⟩
      exact fun heq => hne (heq ▸ rfl)

theorem Holds.write (h : Holds w b) {offset : ℕ} {data : List UInt8} (hp : w.layout p = some layout)
    (hfits : offset + data.length ≤ (layout.size : ℕ)) (hlive : b'.live = b.live)
    (hmem : b'.mem = Memory.write b.mem (p + offset) data) :
    Holds (w.apply (.write p offset data, 0)) b' := by
  refine ⟨fun q l hq => ?_, h.apart, fun q l i x hq hi hx => ?_⟩
  · rw [hlive]
    exact h.live q l hq
  · rw [hmem]
    by_cases hqp : q = p
    · subst hqp
      cases hp.symm.trans hq
      simp only [World.apply, Function.update_self] at hx
      split at hx
      · rename_i hin
        have hi' : i - offset < data.length := by omega
        have haddr : q + i = q + offset + (i - offset) := by omega
        rw [List.getElem?_eq_getElem hi'] at hx
        rw [haddr, write_inside hi']
        exact Option.some.inj hx
      · rename_i hout
        rw [write_outside (by omega), h.byte q layout i x hq hi hx]
    · simp only [World.apply, Function.update_of_ne hqp] at hx
      have hapart := h.apart p q layout l hp hq (Ne.symm hqp)
      rw [write_outside ?_, h.byte q l i x hq hi hx]
      rcases hapart with hle | hle <;> omega

end

/-! ### Whole runs -/

section

variable {σ : Type} {H : Heap Caps σ} {board : Board} {trace : List (Call × ℕ)} {s : σ}

theorem World.after_append (trace : List (Call × ℕ)) (entry : Call × ℕ) :
    World.after (trace ++ [entry]) = (World.after trace).apply entry := by
  simp [World.after]

/-- One call. -/
theorem Holds.exec {w : World} {call : Call} (h : Holds w (H.view s)) (hvalid : H.Valid s)
    (hlegal : Legal w call) :
    H.Valid (exec H board s call).2 ∧
      Holds (w.apply (call, (exec H board s call).1)) (H.view (exec H board s call).2) ∧
      Promised w (call, (exec H board s call).1) := by
  cases call with
  | alloc layout =>
    obtain ⟨hvalid', hgranted⟩ := alloc_granted board layout hvalid
    exact ⟨hvalid', h.alloc (fun _ _ => H.live_ne_zero hvalid) hgranted⟩
  | dealloc p layout =>
    obtain ⟨hvalid', hkeeps, hlive⟩ := H.free_spec hvalid (h.live p layout hlegal)
    exact ⟨hvalid', h.dealloc hkeeps hlive, trivial⟩
  | realloc p layout newSize =>
    obtain ⟨hvalid', hmoved⟩ := realloc_moved board newSize hvalid (h.live p layout hlegal)
    exact ⟨hvalid', h.realloc hlegal hmoved⟩
  | write p offset data =>
    obtain ⟨layout, hp, hfits⟩ := hlegal
    have hinside : p + offset + data.length ≤ p + layout.size := by omega
    obtain ⟨hvalid', hlive, hmem⟩ := H.store_spec hvalid (h.live p layout hp)
      (Nat.le_add_right p offset) hinside
    exact ⟨hvalid', h.write hp hfits hlive hmem, trivial⟩

theorem Runs.holds (h : Runs H board trace s) : H.Valid s ∧ Holds (.after trace) (H.view s) ∧
    Always (fun past entry => Promised (.after past) entry) trace := by
  induction h with
  | start hvalid =>
    refine ⟨hvalid, ⟨fun p l hp => ?_, fun p q l l' hp => ?_, fun p l i x hp => ?_⟩, always_nil⟩
    all_goals cases hp
  | call _ hlegal ih =>
    obtain ⟨hvalid, hholds, halways⟩ := ih
    obtain ⟨hvalid', hholds', hpromised⟩ := hholds.exec hvalid hlegal
    rw [World.after_append]
    exact ⟨hvalid', hholds', always_append_singleton.mpr ⟨halways, hpromised⟩⟩

/-- The note changes nothing else. -/
theorem exec_checked (s : σ × Bool) (call : Call) :
    (exec H.checked board s call).1 = (exec H board s.1 call).1 ∧
      (exec H.checked board s call).2.1 = (exec H board s.1 call).2 := by
  have halloc : ∀ layout, (alloc H.checked board layout s).1 = (alloc H board layout s.1).1 ∧
      (alloc H.checked board layout s).2.1 = (alloc H board layout s.1).2 := by
    intro layout
    unfold alloc
    dsimp only [Heap.checked]
    split_ifs <;> exact ⟨rfl, rfl⟩
  cases call with
  | alloc layout => exact halloc layout
  | dealloc p layout => exact ⟨rfl, rfl⟩
  | write p offset data => exact ⟨rfl, rfl⟩
  | realloc p layout newSize =>
    obtain ⟨hanswer, hstate⟩ := halloc { layout with size := newSize }
    dsimp only [exec, realloc]
    split
    · dsimp only [reallocCopy]
      rw [hanswer]
      split
      · rw [← hstate]
        exact ⟨rfl, rfl⟩
      · exact ⟨hanswer, hstate⟩
    · have hfirst : (H.checked.realloc p newSize (preferredCaps board) s).1 =
          (H.realloc p newSize (preferredCaps board) s.1).1 := rfl
      rw [hfirst]
      split <;> exact ⟨rfl, rfl⟩

/-- A run on the heap is one on the heap that takes notes, and there is nothing to note. -/
theorem Runs.checked (h : Runs H board trace s) : Runs H.checked board trace (s, false) := by
  induction h with
  | start hvalid => exact .start ⟨hvalid, rfl⟩
  | @call trace s call _ hlegal ih =>
    have hnext := ih.call hlegal
    obtain ⟨hanswer, hstate⟩ : (exec H.checked board (s, false) call).1 = (exec H board s call).1 ∧
        (exec H.checked board (s, false) call).2.1 = (exec H board s call).2 :=
      exec_checked (s, false) call
    have hnote : (exec H.checked board (s, false) call).2.2 = false := hnext.holds.1.2
    rw [hanswer, ← Prod.eta (exec H.checked board (s, false) call).2, hstate, hnote] at hnext
    exact hnext

/-- **The allocator keeps the contract of `GlobalAlloc`.**  Over any heap that keeps its laws and on
any board, in every run of a program that uses its pointers as it may: every block is aligned and
apart from the blocks there are; the blocks of the program are in use on the heap with the sizes that
it asked for and apart from each other; every byte that it has written is still there, also after
blocks were moved, or could not be; and the heap is never given back or asked to move a block that is
not in use, so nothing is freed twice. -/
theorem allocations_sound (h : Runs H board trace s) :
    Always (fun past entry => Promised (.after past) entry) trace ∧
    (∀ p layout, (World.after trace).layout p = some layout →
      (H.view s).live p = some (layout.size : ℕ)) ∧
    (∀ p q l l', (World.after trace).layout p = some l → (World.after trace).layout q = some l' →
      p ≠ q → Apart p l.size q l'.size) ∧
    (∀ p layout i x, (World.after trace).layout p = some layout → i < (layout.size : ℕ) →
      (World.after trace).byte p i = some x → (H.view s).mem (p + i) = x) ∧
    Runs H.checked board trace (s, false) := by
  obtain ⟨-, hholds, halways⟩ := h.holds
  exact ⟨halways, hholds.live, hholds.apart, hholds.byte, h.checked⟩

end

/-- A heap that only ever goes up; it has no PSRAM. -/
structure Arena where
  next : ℕ
  blocks : Blocks

namespace Arena

/-- A block at the next free address, which is never handed out again. -/
def take (s : Arena) (align size : ℕ) (mem : ℕ → UInt8) (live : ℕ → Option ℕ) : ℕ × Arena :=
  let p := align * (s.next / align + 1)
  (p, ⟨p + size, ⟨Function.update live p (some size), mem⟩⟩)

/-- `heap_caps_aligned_alloc` of an arena that has no PSRAM. -/
def alignedAlloc (align size : ℕ) (caps : Caps) (s : Arena) : ℕ × Arena :=
  if caps = .spiram ∨ align = 0 then (0, s) else s.take align size s.blocks.mem s.blocks.live

/-- `heap_caps_realloc` of the arena: the block always moves. -/
def realloc (p size : ℕ) (caps : Caps) (s : Arena) : ℕ × Arena :=
  if caps = .spiram then (0, s)
  else
    let q := 4 * (s.next / 4 + 1)
    let n := (s.blocks.live p).getD 0
    s.take 4 size (write s.blocks.mem q (read s.blocks.mem p (min n size)))
      (Function.update s.blocks.live p none)

/-- All blocks are below `next`. -/
def Valid (s : Arena) : Prop := ∀ q n, s.blocks.live q = some n → q ≠ 0 ∧ q + n ≤ s.next

theorem next_lt (s : Arena) {align : ℕ} (h : 0 < align) : s.next < align * (s.next / align + 1) :=
  Nat.lt_mul_div_succ s.next h

theorem Valid.take {s : Arena} (h : s.Valid) {align size : ℕ} (halign : 0 < align)
    (mem : ℕ → UInt8) {live : ℕ → Option ℕ} (hlive : ∀ q n, live q = some n → s.blocks.live q = some n) :
    (s.take align size mem live).2.Valid := by
  intro q n hq
  have hnext := s.next_lt halign
  simp only [Arena.take, Function.update_apply] at hq ⊢
  split at hq
  · cases hq
    omega
  · have hq' := h q n (hlive q n hq)
    omega

/-- The arena keeps the laws. -/
def heap : Heap Caps Arena where
  Valid := Valid
  view := blocks
  alignedAlloc := alignedAlloc
  realloc := realloc
  free p s := ⟨s.next, ⟨Function.update s.blocks.live p none, s.blocks.mem⟩⟩
  store p data s := ⟨s.next, ⟨s.blocks.live, write s.blocks.mem p data⟩⟩
  live_ne_zero := fun hvalid hlive => (hvalid _ _ hlive).1
  alignedAlloc_spec := by
    intro align size caps s hvalid hsize
    unfold alignedAlloc
    split
    · exact ⟨hvalid, fun _ _ _ _ _ _ => rfl, Or.inl ⟨rfl, rfl⟩⟩
    · rename_i hcaps
      have halign : 0 < align := Nat.pos_of_ne_zero fun hzero => hcaps (Or.inr hzero)
      have hnext := s.next_lt halign
      refine ⟨hvalid.take halign _ fun _ _ => id, fun _ _ _ _ _ _ => rfl,
        Or.inr ⟨Nat.ne_zero_of_lt hnext, Nat.dvd_mul_right _ _, fun q n hq => Or.inr ?_, rfl⟩⟩
      exact (hvalid q n hq).2.trans hnext.le
  realloc_spec := by
    intro p n size caps s hvalid hlive hsize
    unfold realloc
    split
    · exact ⟨hvalid, fun _ _ _ _ _ _ => rfl, Or.inl ⟨rfl, rfl, fun _ _ => rfl⟩⟩
    · have hnext := s.next_lt (Nat.succ_pos 3)
      have hbelow : ∀ q m i, s.blocks.live q = some m → i < m → q + i < 4 * (s.next / 4 + 1) := by
        intro q m i hq hi
        have hq' := (hvalid q m hq).2
        omega
      refine ⟨hvalid.take (Nat.succ_pos 3) _ fun q m hq => ?_, fun q m hq _ i hi => ?_,
        Or.inr ⟨Nat.ne_zero_of_lt hnext, Nat.dvd_mul_right _ _, fun q m hq _ => Or.inr ?_, rfl,
          fun i hi => ?_⟩⟩
      · exact (of_update_none hq).2
      · exact write_outside (Or.inl (hbelow q m i hq hi))
      · exact (hvalid q m hq).2.trans hnext.le
      · rw [hlive]
        have hi' : i < (read s.blocks.mem p (min n size)).length := by simpa using hi
        have hread : (read s.blocks.mem p (min n size))[i]? = _ := getElem?_read hi
        rw [List.getElem?_eq_getElem hi'] at hread
        exact (write_inside hi').trans (Option.some.inj hread)
  free_spec := by
    intro p n s hvalid hlive
    exact ⟨fun q m hq => hvalid q m (of_update_none hq).2, fun _ _ _ _ _ _ => rfl, rfl⟩
  store_spec := fun hvalid _ _ _ => ⟨hvalid, rfl, rfl⟩

end Arena

/-- A block that is aligned to eight bytes grows: it is copied, since the heap aligns to words. -/
theorem grown_block_keeps_bytes : ∃ s : Arena,
    Runs Arena.heap ⟨true, false, false, true⟩
      [(.alloc ⟨8, 3⟩, 8), (.write 8 2 [7], 0), (.realloc 8 ⟨8, 3⟩ 16, 24)] s ∧
    s.blocks.mem 26 = 7 := by
  have hstart : Runs Arena.heap ⟨true, false, false, true⟩ [] ⟨1, ⟨fun _ => none, fun _ => 0⟩⟩ :=
    .start fun q n hq => by cases hq
  have hwritten := (hstart.call (c := .alloc ⟨8, 3⟩) trivial).call (c := .write 8 2 [7])
    ⟨⟨8, 3⟩, rfl, by decide⟩
  have hgrown := hwritten.call (c := .realloc 8 ⟨8, 3⟩ 16) rfl
  exact ⟨_, hgrown, (allocations_sound hgrown).2.2.2.1 24 ⟨16, 3⟩ 2 7 rfl (by decide) rfl⟩

end PsramAlloc

end WhatsappEsp32
