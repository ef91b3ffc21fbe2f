import Srunix.Library.Arena
import Srunix.Library.Runs
import Srunix.Lib.Memory

/-!
# The heap (`lib/prddef.h`)

A bump allocator: `heap_start` moves up by every size asked for, and nothing is
ever given back. A client is the heap together with the blocks it has been
given, each with the size that was *asked for*: for `calloc` the product of its
two arguments, before it wraps.

As long as no sum of `heap_start` and a size asked for wraps below the limit,
the blocks are an instance of `Library/Arena.lean`; the first that does breaks
the discipline (`heapDiscipline_iff`).
-/

namespace Srunix

open Library

/-- The memory between `heap_start` and `heap_end`, with the nodes of the list in it. -/
structure Heap where
  heapStart : Nat
  heapEnd : Nat
  mem : Memory

/-- `NULL` is 0. -/
def malloc (h : Heap) (size : Nat) : Nat × Heap :=
  if uint64 (h.heapStart + size) > h.heapEnd then (0, h)
  else (h.heapStart, { h with heapStart := uint64 (h.heapStart + size) })

/-- `free` does nothing. -/
def free (h : Heap) (_ptr : Nat) : Heap := h

/-- `calloc`. The product wraps, both for `malloc` and for `memset`. -/
def calloc (h : Heap) (num size : Nat) : Nat × Heap :=
  let (ptr, h) := malloc h (uint64 (num * size))
  if ptr ≠ 0 then (ptr, { h with mem := memset h.mem ptr 0 (uint64 (num * size)) }) else (ptr, h)

/-- `realloc`, which copies `new_size` bytes from the old block, however long that
was. -/
def realloc (h : Heap) (ptr newSize : Nat) : Nat × Heap :=
  if newSize = 0 then (0, free h ptr)
  else
    let (newPtr, h) := malloc h newSize
    if newPtr ≠ 0 ∧ ptr ≠ 0 then
      (newPtr, free { h with mem := memcpy h.mem newPtr ptr newSize } ptr)
    else (newPtr, h)

/-! ## Clients -/

/-- `size_t`, and addresses. -/
abbrev SizeT := Fin (2 ^ 64)

/-- The calls, and the client writing a byte somewhere in between. -/
inductive HeapCall where
  | malloc (size : SizeT)
  | calloc (num size : SizeT)
  | realloc (ptr newSize : SizeT)
  | free (ptr : SizeT)
  | store (addr : SizeT) (c : UInt8)

/-- What the call returns, 0 if nothing. -/
def heapCall (h : Heap) : HeapCall → Nat × Heap
  | .malloc size => malloc h size
  | .calloc num size => calloc h num size
  | .realloc ptr newSize => realloc h ptr newSize
  | .free ptr => (0, free h ptr)
  | .store addr c => (0, { h with mem := Function.update h.mem addr c })

/-- The bytes the caller wants. -/
def HeapCall.requested : HeapCall → Nat
  | .malloc size => size
  | .calloc num size => num * size
  | .realloc _ newSize => newSize
  | .free _ | .store .. => 0

/-- A heap, and the blocks it gave out. -/
structure HeapClient where
  heap : Heap
  blocks : List Block

namespace HeapClient

/-- `heap_start` and `heap_end` of the program image. -/
def boot (mem : Memory) : HeapClient := ⟨⟨0x200000, 0x400000, mem⟩, []⟩

/-- A call that is answered with an address adds a block, of the size that was asked
for. -/
def call (c : HeapClient) (hc : HeapCall) : HeapClient :=
  let (ptr, heap) := heapCall c.heap hc
  ⟨heap, if ptr = 0 then c.blocks else c.blocks ++ [⟨ptr, hc.requested⟩]⟩

/-- What a call owes its caller, and everyone who has a block already. -/
structure Disciplined (c : HeapClient) (hc : HeapCall) : Prop where
  inside : (heapCall c.heap hc).1 ≠ 0 →
    0x200000 ≤ (heapCall c.heap hc).1 ∧ (heapCall c.heap hc).1 + hc.requested ≤ 0x400000
  apart : (heapCall c.heap hc).1 ≠ 0 →
    ∀ b ∈ c.blocks, b.Apart ⟨(heapCall c.heap hc).1, hc.requested⟩
  keeps : (∀ addr v, hc ≠ .store addr v) →
    ∀ b ∈ c.blocks, ∀ a, b.Covers a → (heapCall c.heap hc).2.mem a = c.heap.mem a
  copies : ∀ ptr newSize, hc = .realloc ptr newSize → (heapCall c.heap hc).1 ≠ 0 →
    ∀ b ∈ c.blocks, b.addr = ptr → ∀ i < min b.size newSize,
      (heapCall c.heap hc).2.mem ((heapCall c.heap hc).1 + i) = c.heap.mem (b.addr + i)

/-- The sum the limit check is about does not wrap, or wraps to one the check
turns away. -/
def NoWrap (c : HeapClient) (hc : HeapCall) : Prop :=
  c.heap.heapStart + hc.requested < 2 ^ 64 ∨
    c.heap.heapEnd < uint64 (c.heap.heapStart + hc.requested)

/-- What a client can rely on. -/
structure Inv (c : HeapClient) : Prop where
  heapEnd : c.heap.heapEnd = 0x400000
  heapStart_le : c.heap.heapStart ≤ 0x400000
  packed : Packed 0x200000 c.heap.heapStart c.blocks

theorem inv_boot (mem : Memory) : Inv (boot mem) where
  heapEnd := rfl
  heapStart_le := Nat.le_of_lt (show 0x200000 < 0x400000 by decide)
  packed := .nil (Nat.le_refl _)

/-! ## What a call can do -/

variable {c : HeapClient} {hc : HeapCall}

/-- Nothing was handed out. -/
structure Refused (c : HeapClient) (hc : HeapCall) : Prop where
  ptr : (heapCall c.heap hc).1 = 0
  heapStart : (heapCall c.heap hc).2.heapStart = c.heap.heapStart
  heapEnd : (heapCall c.heap hc).2.heapEnd = c.heap.heapEnd
  mem : (∀ addr v, hc ≠ .store addr v) → (heapCall c.heap hc).2.mem = c.heap.mem
  noWrap : NoWrap c hc

/-- What the limit check let through. If the sum did not wrap, only the new
block was written to, and it was what lay at the pointer given, as far as that
is below. -/
structure Granted (c : HeapClient) (hc : HeapCall) : Prop where
  ptr : (heapCall c.heap hc).1 = c.heap.heapStart
  fits : uint64 (c.heap.heapStart + hc.requested) ≤ c.heap.heapEnd
  heapStart : (heapCall c.heap hc).2.heapStart = uint64 (c.heap.heapStart + hc.requested)
  heapEnd : (heapCall c.heap hc).2.heapEnd = c.heap.heapEnd
  below : c.heap.heapStart + hc.requested < 2 ^ 64 → ∀ a < c.heap.heapStart,
    (heapCall c.heap hc).2.mem a = c.heap.mem a
  copied : c.heap.heapStart + hc.requested < 2 ^ 64 → ∀ ptr newSize, hc = .realloc ptr newSize →
    ptr ≠ 0 → ∀ i < newSize.val, ptr + i < c.heap.heapStart →
      (heapCall c.heap hc).2.mem (c.heap.heapStart + i) = c.heap.mem (ptr + i)

theorem Refused.of_eq (heq : heapCall c.heap hc = (0, c.heap)) (hnw : NoWrap c hc) : Refused c hc :=
  ⟨by rw [heq], by rw [heq], by rw [heq], fun _ => by rw [heq], hnw⟩

theorem Granted.of_eq (mem : Memory)
    (heq : heapCall c.heap hc = (c.heap.heapStart,
      { c.heap with heapStart := uint64 (c.heap.heapStart + hc.requested), mem := mem }))
    (hfits : uint64 (c.heap.heapStart + hc.requested) ≤ c.heap.heapEnd)
    (hbelow : c.heap.heapStart + hc.requested < 2 ^ 64 → ∀ a < c.heap.heapStart,
      mem a = c.heap.mem a)
    (hcopied : c.heap.heapStart + hc.requested < 2 ^ 64 → ∀ ptr newSize, hc = .realloc ptr newSize →
      ptr ≠ 0 → ∀ i < newSize.val, ptr + i < c.heap.heapStart →
        mem (c.heap.heapStart + i) = c.heap.mem (ptr + i)) : Granted c hc :=
  ⟨by rw [heq], hfits, by rw [heq], by rw [heq], by rw [heq]; exact hbelow, by rw [heq]; exact hcopied⟩

/-- A request that goes past the end is refused, unless the sum wraps. -/
theorem malloc_refused {h : Heap} {size : Nat} (hover : h.heapEnd < uint64 (h.heapStart + size)) :
    malloc h size = (0, h) := if_pos hover

/-- Any other request moves the start of the heap. -/
theorem malloc_granted {h : Heap} {size : Nat} (hfits : uint64 (h.heapStart + size) ≤ h.heapEnd) :
    malloc h size =
      (h.heapStart, { h with heapStart := uint64 (h.heapStart + size) }) :=
  if_neg (Nat.not_lt.mpr hfits)

theorem Inv.heapStart_pos (h : Inv c) : c.heap.heapStart ≠ 0 := by
  have := h.packed.le
  omega

theorem malloc_cases (c : HeapClient) (size : SizeT) :
    Refused c (.malloc size) ∨ Granted c (.malloc size) := by
  by_cases hfits : uint64 (c.heap.heapStart + size) ≤ c.heap.heapEnd
  · exact .inr (.of_eq _ (malloc_granted hfits) hfits (fun _ _ _ => rfl) fun _ _ _ hne => nomatch hne)
  · have hover := Nat.not_le.mp hfits
    exact .inl (.of_eq (malloc_refused hover) (.inr hover))

/-- `calloc` refuses or grants as `malloc` does with the product. -/
theorem calloc_cases (h : Inv c) (num size : SizeT) :
    Refused c (.calloc num size) ∨ Granted c (.calloc num size) := by
  have hwrap : uint64 (c.heap.heapStart + uint64 (num * size))
      = uint64 (c.heap.heapStart + num * size) := Nat.add_mod_mod ..
  by_cases hfits : uint64 (c.heap.heapStart + num * size) ≤ c.heap.heapEnd
  · right
    refine .of_eq (memset c.heap.mem c.heap.heapStart 0 (uint64 (num * size))) ?_ hfits ?_ ?_
    · rw [heapCall, calloc]
      dsimp only
      rw [malloc_granted (hwrap.trans_le hfits), hwrap]
      exact if_pos h.heapStart_pos
    -- the product did not wrap either, so `memset` clears the whole block
    · intro hsum a ha
      have hsum : c.heap.heapStart + num * size < 2 ^ 64 := hsum
      have hprod : uint64 (num * size) = num * size := Nat.mod_eq_of_lt (by omega)
      rw [hprod]
      exact memset_of_lt (Nat.le_of_lt hsum) ha
    · exact fun _ _ _ hne => nomatch hne
  · have hover := Nat.not_le.mp hfits
    refine .inl (.of_eq ?_ (.inr hover))
    rw [heapCall, calloc]
    dsimp only
    rw [malloc_refused (hwrap ▸ hover)]
    exact if_neg fun hne => hne rfl

/-- `realloc` refuses or grants as `malloc` does, and its copy stays in the new block. -/
theorem realloc_cases (h : Inv c) (ptr newSize : SizeT) :
    Refused c (.realloc ptr newSize) ∨ Granted c (.realloc ptr newSize) := by
  by_cases hzero : newSize.val = 0
  · -- size zero is a free, which does nothing
    refine .inl (.of_eq (if_pos hzero) (.inl ?_))
    show c.heap.heapStart + newSize.val < 2 ^ 64
    have := h.heapStart_le
    omega
  by_cases hfits : uint64 (c.heap.heapStart + newSize) ≤ c.heap.heapEnd
  · right
    -- with no block to copy from, the memory stays
    by_cases hptr : ptr.val = 0
    · refine .of_eq c.heap.mem ?_ hfits (fun _ _ _ => rfl) ?_
      · rw [heapCall, realloc]
        dsimp only
        rw [if_neg hzero, malloc_granted hfits]
        exact if_neg fun hboth => hboth.2 hptr
      · intro _ _ _ heq hne
        cases heq
        exact absurd (Fin.ext hptr) hne
    · refine .of_eq (memcpy c.heap.mem c.heap.heapStart ptr newSize) ?_ hfits ?_ ?_
      · rw [heapCall, realloc]
        dsimp only
        rw [if_neg hzero, malloc_granted hfits]
        exact if_pos ⟨h.heapStart_pos, hptr⟩
      · intro hsum a ha
        exact memcpy_of_lt (Nat.le_of_lt hsum) ha
      · intro hsum _ _ heq _ i hi hbelow
        cases heq
        exact memcpy_apply (Nat.le_of_lt hsum) hi hbelow
  · have hover := Nat.not_le.mp hfits
    refine .inl (.of_eq ?_ (.inr hover))
    rw [heapCall, realloc]
    dsimp only
    rw [if_neg hzero, malloc_refused hover]
    exact if_neg fun hboth => hboth.1 rfl

/-- **The inversion of a call.** -/
theorem call_cases (h : Inv c) (hc : HeapCall) : Refused c hc ∨ Granted c hc := by
  have hsmall : c.heap.heapStart + 0 < 2 ^ 64 := by
    have := h.heapStart_le
    omega
  cases hc with
  | malloc size => exact malloc_cases c size
  | calloc num size => exact calloc_cases h num size
  | realloc ptr newSize => exact realloc_cases h ptr newSize
  | free ptr => exact .inl (.of_eq rfl (.inl hsmall))
  | store addr v => exact .inl ⟨rfl, rfl, rfl, fun hne => absurd rfl (hne addr v), .inl hsmall⟩

/-! ## The discipline -/

/-- What was let through without wrapping was in range. -/
theorem Granted.sum_le (h : Inv c) (hg : Granted c hc) (hnw : NoWrap c hc) :
    c.heap.heapStart + hc.requested ≤ 0x400000 := by
  have hfits := hg.fits
  rw [h.heapEnd] at hfits
  rcases hnw with hsum | hover
  · rwa [uint64, Nat.mod_eq_of_lt hsum] at hfits
  · rw [h.heapEnd] at hover
    exact absurd hfits (Nat.not_le.mpr hover)

/-- Without a wrap, what is given out is free and as large as it should be. -/
theorem disciplined_of_noWrap (h : Inv c) (hnw : NoWrap c hc) : Disciplined c hc := by
  rcases call_cases h hc with href | hg
  · have hnull : ¬ (heapCall c.heap hc).1 ≠ 0 := fun hne => hne href.ptr
    refine ⟨fun hne => absurd hne hnull, fun hne => absurd hne hnull, fun hstore b _ a _ => ?_,
      fun _ _ _ hne => absurd hne hnull⟩
    rw [href.mem hstore]
  · have hle := hg.sum_le h hnw
    have hsum : c.heap.heapStart + hc.requested < 2 ^ 64 := by omega
    refine ⟨fun _ => ?_, fun _ => ?_, fun _ b hb a ha => ?_, ?_⟩
    · rw [hg.ptr]
      exact ⟨h.packed.le, hle⟩
    · rw [hg.ptr]
      exact h.packed.apart_top _
    · exact hg.below hsum a (h.packed.lt_top hb ha)
    · rintro ptr newSize rfl - b hb hptr i hi
      obtain ⟨hlo, hhi⟩ := h.packed.inside b hb
      have hpos : ptr ≠ 0 := by
        rintro rfl
        rw [hptr] at hlo
        cases hlo
      rw [hg.ptr, hptr]
      exact hg.copied hsum ptr newSize rfl hpos i (by omega) (by omega)

/-- With a wrap it is not. -/
theorem noWrap_of_disciplined (h : Inv c) (hd : Disciplined c hc) : NoWrap c hc := by
  rcases call_cases h hc with href | hg
  · exact href.noWrap
  · -- the block handed out has all it was asked for
    have hne : (heapCall c.heap hc).1 ≠ 0 := hg.ptr.trans_ne h.heapStart_pos
    have hle := (hd.inside hne).2
    rw [hg.ptr] at hle
    left
    omega

/-- The step lemma of `Inv`. -/
theorem inv_call (h : Inv c) (hnw : NoWrap c hc) : Inv (c.call hc) := by
  rcases call_cases h hc with href | hg
  · refine ⟨href.heapEnd.trans h.heapEnd, href.heapStart.trans_le h.heapStart_le, ?_⟩
    have hblocks : (c.call hc).blocks = c.blocks := if_pos href.ptr
    rw [hblocks]
    exact href.heapStart ▸ h.packed
  · have hle := hg.sum_le h hnw
    have htop : (heapCall c.heap hc).2.heapStart = c.heap.heapStart + hc.requested :=
      hg.heapStart.trans (Nat.mod_eq_of_lt (by omega))
    refine ⟨hg.heapEnd.trans h.heapEnd, htop.trans_le hle, ?_⟩
    have hblocks : (c.call hc).blocks = c.blocks ++ [⟨(heapCall c.heap hc).1, hc.requested⟩] :=
      if_neg (hg.ptr.trans_ne h.heapStart_pos)
    rw [hblocks, hg.ptr]
    exact htop ▸ h.packed.push _

/-- **The heap keeps its discipline** over a run, whatever else is written to
memory in between, exactly if no sum wraps below the limit. -/
theorem heapDiscipline_iff (mem : Memory) (calls : List HeapCall) :
    Guarded call Disciplined (boot mem) calls ↔ Guarded call NoWrap (boot mem) calls := by
  refine guarded_iff Inv ?_ ?_ (inv_boot mem)
  · intro c hc _ h
    exact ⟨noWrap_of_disciplined h, disciplined_of_noWrap h⟩
  · intro c hc _ h hd
    exact inv_call h (noWrap_of_disciplined h hd)

/-- All blocks of such a run lie in the heap, apart from each other. -/
theorem packed_of_noWrap {mem : Memory} {calls : List HeapCall}
    (h : Guarded call NoWrap (boot mem) calls) :
    Packed 0x200000 0x400000 (runOps call (boot mem) calls).blocks := by
  have hinv : Inv (runOps call (boot mem) calls) :=
    h.invariant (fun _ _ h hnw => inv_call h hnw) (inv_boot mem)
  exact hinv.packed.mono hinv.heapStart_le

/-- 1 MiB short of the whole address space: the block starts at the bottom of
the heap, and the next one lies below it. -/
theorem not_disciplined_wrap :
    ¬ Guarded call Disciplined (boot fun _ => 0) [.malloc ⟨2 ^ 64 - 0x100000, by decide⟩] ∧
      (runOps call (boot fun _ => 0)
        [.malloc ⟨2 ^ 64 - 0x100000, by decide⟩, .malloc ⟨16, by decide⟩]).blocks =
          [⟨0x200000, 2 ^ 64 - 0x100000⟩, ⟨0x100000, 16⟩] := by
  refine ⟨fun h => ?_, by decide⟩
  exact absurd (h.1.inside (by decide)).2 (by decide)

end HeapClient

end Srunix
