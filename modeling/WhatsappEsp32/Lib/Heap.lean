import Mathlib.Logic.Function.Basic
import Mathlib.Tactic.Common

/-!
# Heaps of bytes

What a program may rely on when it gets its memory from a heap: where blocks lie, and which bytes
change.

* `Apart`: two ranges of addresses that do not overlap; `read`, `write`: bytes at an address;
* `Heap`: an allocator with aligned allocation, reallocation and release, by the laws that its
  callers use; how it keeps its free space is its own business;
* `Heap.checked`: the heap with a note of whether it was ever given the address of no block.
-/

namespace Memory

/-! ### Bytes -/

/-- The ranges of `m` bytes from `p` and of `n` bytes from `q` do not overlap. -/
def Apart (p m q n : ℕ) : Prop := p + m ≤ q ∨ q + n ≤ p

theorem Apart.symm {p m q n : ℕ} (h : Apart p m q n) : Apart q n p m := Or.symm h

/-- Two blocks that are apart and not empty do not start at the same address. -/
theorem Apart.ne {p m q n : ℕ} (h : Apart p m q n) (hm : 0 < m) (hn : 0 < n) : p ≠ q := by
  rcases h with h | h <;> omega

/-- The `n` bytes from address `p`. -/
def read (mem : ℕ → UInt8) (p n : ℕ) : List UInt8 := (List.range n).map fun i => mem (p + i)

/-- The memory after `data` is written at `p`. -/
def write (mem : ℕ → UInt8) (p : ℕ) (data : List UInt8) : ℕ → UInt8 := fun a =>
  if p ≤ a then data[a - p]?.getD (mem a) else mem a

variable {mem : ℕ → UInt8} {p q i n : ℕ} {data : List UInt8}

@[simp] theorem length_read : (read mem p n).length = n := by simp [read]

theorem getElem?_read (h : i < n) : (read mem p n)[i]? = some (mem (p + i)) := by
  simp [read, h]

theorem write_inside (h : i < data.length) : write mem p data (p + i) = data[i] := by
  simp [write, h]

/-- Bytes before and after the data stay. -/
theorem write_outside (h : q < p ∨ p + data.length ≤ q) : write mem p data q = mem q := by
  unfold write
  split
  · have hlength : data.length ≤ q - p := by omega
    rw [List.getElem?_eq_none hlength, Option.getD_none]
  · rfl

/-- A write into one block does not reach a block apart from it. -/
theorem write_apart {m : ℕ} (h : Apart p m q n) (hlength : data.length ≤ m) (hi : i < n) :
    write mem p data (q + i) = mem (q + i) := by
  apply write_outside
  rcases h with h | h
  · exact Or.inr (by omega)
  · exact Or.inl (by omega)

/-! ### Heaps -/

/-- The blocks that are in use, each of them given by its address and its size, and all bytes. -/
structure Blocks where
  live : ℕ → Option ℕ
  mem : ℕ → UInt8

/-- The bytes of the blocks other than the one at `p` are the same. -/
def Keeps (b : Blocks) (p : ℕ) (b' : Blocks) : Prop :=
  ∀ q n, b.live q = some n → q ≠ p → ∀ i < n, b'.mem (q + i) = b.mem (q + i)

/-- A block was asked for and `p` was answered: `0` changes nothing; any other one is a new block,
aligned and apart from the others. -/
def Granted (align size : ℕ) (b : Blocks) (p : ℕ) (b' : Blocks) : Prop :=
  Keeps b 0 b' ∧ (p = 0 ∧ b'.live = b.live ∨ p ≠ 0 ∧ align ∣ p ∧
    (∀ q n, b.live q = some n → Apart p size q n) ∧ b'.live = Function.update b.live p (some size))

/-- The block of `n` bytes at `p` was to get another size and `q` was answered: `0` changes nothing;
any other one is the address of the block now, which has the bytes it had, as far as they fit. -/
def Moved (align p n size : ℕ) (b : Blocks) (q : ℕ) (b' : Blocks) : Prop :=
  Keeps b p b' ∧ (q = 0 ∧ b'.live = b.live ∧ (∀ i < n, b'.mem (p + i) = b.mem (p + i)) ∨
    q ≠ 0 ∧ align ∣ q ∧ (∀ q' m, b.live q' = some m → q' ≠ p → Apart q size q' m) ∧
      b'.live = Function.update (Function.update b.live p none) q (some size) ∧
      ∀ i < min n size, b'.mem (q + i) = b.mem (p + i))

/-- The laws of a heap.  `Valid` are the states that arise.  Address `0` is no block. -/
structure Heap (Caps σ : Type) where
  Valid : σ → Prop
  view : σ → Blocks
  alignedAlloc (align size : ℕ) (caps : Caps) : σ → ℕ × σ
  realloc (p size : ℕ) (caps : Caps) : σ → ℕ × σ
  free (p : ℕ) : σ → σ
  /-- A write through a pointer. -/
  store (p : ℕ) (data : List UInt8) : σ → σ
  live_ne_zero {s : σ} {p n : ℕ} : Valid s → (view s).live p = some n → p ≠ 0
  alignedAlloc_spec {align size : ℕ} {caps : Caps} {s : σ} : Valid s → 0 < size →
    Valid (alignedAlloc align size caps s).2 ∧
      Granted align size (view s) (alignedAlloc align size caps s).1
        (view (alignedAlloc align size caps s).2)
  /-- Blocks that are moved are aligned to words. -/
  realloc_spec {p n size : ℕ} {caps : Caps} {s : σ} : Valid s → (view s).live p = some n → 0 < size →
    Valid (realloc p size caps s).2 ∧
      Moved 4 p n size (view s) (realloc p size caps s).1 (view (realloc p size caps s).2)
  free_spec {p n : ℕ} {s : σ} : Valid s → (view s).live p = some n → Valid (free p s) ∧
    Keeps (view s) p (view (free p s)) ∧
      (view (free p s)).live = Function.update (view s).live p none
  store_spec {p q n : ℕ} {data : List UInt8} {s : σ} : Valid s → (view s).live q = some n → q ≤ p →
    p + data.length ≤ q + n → Valid (store p data s) ∧
      (view (store p data s)).live = (view s).live ∧
      (view (store p data s)).mem = write (view s).mem p data

/-- The heap, which notes whether a block was released or reallocated that is not in use. -/
def Heap.checked {Caps σ : Type} (H : Heap Caps σ) : Heap Caps (σ × Bool) where
  Valid s := H.Valid s.1 ∧ s.2 = false
  view s := H.view s.1
  alignedAlloc align size caps s :=
    ((H.alignedAlloc align size caps s.1).1, (H.alignedAlloc align size caps s.1).2, s.2)
  realloc p size caps s := ((H.realloc p size caps s.1).1, (H.realloc p size caps s.1).2,
    s.2 || ((H.view s.1).live p).isNone)
  free p s := (H.free p s.1, s.2 || ((H.view s.1).live p).isNone)
  store p data s := (H.store p data s.1, s.2)
  live_ne_zero hvalid := H.live_ne_zero hvalid.1
  alignedAlloc_spec := fun ⟨hvalid, hnote⟩ hsize =>
    ⟨⟨(H.alignedAlloc_spec hvalid hsize).1, hnote⟩, (H.alignedAlloc_spec hvalid hsize).2⟩
  realloc_spec := fun ⟨hvalid, hnote⟩ hlive hsize =>
    ⟨⟨(H.realloc_spec hvalid hlive hsize).1, by simp [hnote, hlive]⟩,
      (H.realloc_spec hvalid hlive hsize).2⟩
  free_spec := fun ⟨hvalid, hnote⟩ hlive =>
    ⟨⟨(H.free_spec hvalid hlive).1, by simp [hnote, hlive]⟩, (H.free_spec hvalid hlive).2⟩
  store_spec := fun ⟨hvalid, hnote⟩ hlive hp hfits =>
    ⟨⟨(H.store_spec hvalid hlive hp hfits).1, hnote⟩, (H.store_spec hvalid hlive hp hfits).2⟩

/-- The blocks other than `p`. -/
theorem of_update_none {α : Type} {f : ℕ → Option α} {x : α}
    (h : Function.update f p none q = some x) : q ≠ p ∧ f q = some x := by
  by_cases hqp : q = p
  · subst hqp
    rw [Function.update_self] at h
    cases h
  · rw [Function.update_of_ne hqp] at h
    exact ⟨hqp, h⟩

section

variable {align align' size : ℕ} {b b' b'' : Blocks}

theorem Granted.of_dvd (h : Granted align size b p b') (hdvd : align' ∣ align) :
    Granted align' size b p b' :=
  ⟨h.1, h.2.imp_right fun hnew => ⟨hnew.1, Nat.dvd_trans hdvd hnew.2.1, hnew.2.2⟩⟩

theorem Moved.of_dvd (h : Moved align p n size b q b') (hdvd : align' ∣ align) :
    Moved align' p n size b q b' :=
  ⟨h.1, h.2.imp_right fun hnew => ⟨hnew.1, Nat.dvd_trans hdvd hnew.2.1, hnew.2.2⟩⟩

/-- A second attempt after one that failed. -/
theorem Granted.retry (h : Granted align size b 0 b') (h' : Granted align size b' p b'') :
    Granted align size b p b'' := by
  obtain ⟨hkeeps, ⟨-, hlive⟩ | ⟨hne, -⟩⟩ := h
  · refine ⟨fun q n hq hne i hi => ?_, ?_⟩
    · rw [h'.1 q n (hlive ▸ hq) hne i hi, hkeeps q n hq hne i hi]
    · have hnew := h'.2
      rwa [hlive] at hnew
  · exact absurd rfl hne

theorem Moved.retry (h : Moved align p n size b 0 b') (h' : Moved align p n size b' q b'') :
    Moved align p n size b q b'' := by
  obtain ⟨hkeeps, ⟨-, hlive, hold⟩ | ⟨hne, -⟩⟩ := h
  · refine ⟨fun q n hq hne i hi => ?_, ?_⟩
    · rw [h'.1 q n (hlive ▸ hq) hne i hi, hkeeps q n hq hne i hi]
    · have hnew := h'.2
      rw [hlive] at hnew
      refine hnew.imp (fun hfail => ⟨hfail.1, hfail.2.1, fun i hi => ?_⟩) fun hmoved =>
        ⟨hmoved.1, hmoved.2.1, hmoved.2.2.1, hmoved.2.2.2.1, fun i hi => ?_⟩
      · rw [hfail.2.2 i hi, hold i hi]
      · rw [hmoved.2.2.2.2 i hi, hold i (Nat.lt_of_lt_of_le hi (Nat.min_le_left _ _))]
  · exact absurd rfl hne

end

end Memory
