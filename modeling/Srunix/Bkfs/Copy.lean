import Srunix.Bkfs.Ops

/-!
# The two copy loops

`fs_write_file` spreads its data over the blocks of an inode and `fs_read_file`
collects it again, block by block. Seen from one byte, both are the same
indexing: byte `p` of a file is cell `p % BLOCK_SIZE` of block
`block[p / BLOCK_SIZE]`.

- `writeLoop_apply`, `writeLoop_of_ne`: the blocks written to hold the data, the
  others are left alone;
- `readLoop_apply`: the buffer holds the file up to where the loop stopped, and
  what it held before from there on.
-/

namespace Srunix

/-- Byte `p` of a file whose blocks are listed in `block`. -/
def fileByte (block : Nat → Nat) (blocks : Nat → Nat → UInt8) (p : Nat) : UInt8 :=
  blocks (block (p / blockSize)) (p % blockSize)

/-- The cells of one chunk, for any chunk size. -/
theorem div_mod_of_chunk {i p c : Nat} (hlo : i * c ≤ p) (hhi : p < i * c + c) :
    p / c = i ∧ p % c = p - i * c := by
  have hdiv : p / c = i := Nat.div_eq_of_lt_le hlo (by rw [Nat.succ_mul]; exact hhi)
  have hsplit := Nat.div_add_mod' p c
  rw [hdiv] at hsplit
  exact ⟨hdiv, by omega⟩

/-- A byte of the file is found in the block its position is in. -/
theorem fileByte_chunk (block : Nat → Nat) (blocks : Nat → Nat → UInt8) {i p : Nat}
    (hlo : i * blockSize ≤ p) (hhi : p < i * blockSize + blockSize) :
    blocks (block i) (p - i * blockSize) = fileByte block blocks p := by
  obtain ⟨hdiv, hmod⟩ := div_mod_of_chunk hlo hhi
  rw [fileByte]
  rw [hdiv, hmod]

/-- What is left of the data after one round reaches the same cells. -/
theorem chunk_left {i j q r c : Nat} (hij : i < j) (h : (j - i) * c + q < r) :
    (j - (i + 1)) * c + q < r - min c r := by
  have hround : j - i = (j - (i + 1)) + 1 := by omega
  rw [hround, Nat.succ_mul] at h
  omega

theorem toCopy_eq (m n : Nat) : (if m > n then n else m) = min n m := by
  split <;> omega

/-! ## Writing -/

/-- A copy to one block leaves the others. -/
theorem copyIn_of_ne {blocks : Nat → Nat → UInt8} {b c : Nat} (h : c ≠ b) (data : Nat → UInt8)
    (offset n : Nat) : copyIn blocks b data offset n c = blocks c :=
  Function.update_of_ne h ..

/-- What was copied to a block can be read there. -/
theorem copyIn_self {blocks : Nat → Nat → UInt8} {b : Nat} {data : Nat → UInt8}
    {offset n q : Nat} (hq : q < n) : copyIn blocks b data offset n b q = data (offset + q) := by
  rw [copyIn]
  rw [Function.update_self, if_pos hq]

variable {block : Nat → Nat} {data : Nat → UInt8}

/-- A block the loop does not visit keeps its bytes. -/
theorem writeLoop_of_ne {b : Nat} {blocks : Nat → Nat → UInt8} {i r n : Nat}
    (h : ∀ j, i ≤ j → j < i + n → block j ≠ b) :
    writeLoop block data blocks i r n b = blocks b := by
  induction n generalizing blocks i r with
  | zero => rfl
  | succ n ih =>
    rw [writeLoop]
    rw [ih fun j hj hj' => h j (by omega) (by omega)]
    exact copyIn_of_ne (h i (Nat.le_refl i) (by omega)).symm ..

/-- The loop puts each byte it has left into the cell it belongs to. -/
theorem writeLoop_apply {blocks : Nat → Nat → UInt8} {i r n : Nat}
    (hinj : ∀ j j', i ≤ j → j < i + n → i ≤ j' → j' < i + n → block j = block j' → j = j')
    {j q : Nat} (hij : i ≤ j) (hjn : j < i + n) (hq : q < blockSize)
    (hr : (j - i) * blockSize + q < r) :
    writeLoop block data blocks i r n (block j) q = data (j * blockSize + q) := by
  induction n generalizing blocks i r with
  | zero => omega
  | succ n ih =>
    unfold writeLoop
    dsimp only
    rw [toCopy_eq]
    by_cases hji : j = i
    · -- this round writes the block, and no later one comes back to it
      subst hji
      have hlater : ∀ j', j + 1 ≤ j' → j' < j + 1 + n → block j' ≠ block j := by
        intro j' hj' hj'' heq
        have := hinj j' j (by omega) (by omega) (Nat.le_refl j) (by omega) heq
        omega
      rw [writeLoop_of_ne hlater]
      rw [Nat.sub_self, Nat.zero_mul, Nat.zero_add] at hr
      exact copyIn_self (Nat.lt_min.mpr ⟨hq, hr⟩)
    · refine ih (fun j j' h₁ h₂ h₃ h₄ => hinj j j' (by omega) (by omega) (by omega) (by omega))
        (by omega) (by omega) (chunk_left (by omega) hr)

/-- All of the data, written from the start into enough distinct blocks. -/
theorem fileByte_writeLoop {blocks : Nat → Nat → UInt8} {size n p : Nat}
    (hinj : ∀ j j', j < n → j' < n → block j = block j' → j = j') (hsize : size ≤ n * blockSize)
    (hp : p < size) : fileByte block (writeLoop block data blocks 0 size n) p = data p := by
  have hsplit : p / blockSize * blockSize + p % blockSize = p := Nat.div_add_mod' p blockSize
  have hq : p % blockSize < blockSize := Nat.mod_lt _ (by decide)
  rw [fileByte]
  rw [writeLoop_apply (fun j j' _ hj _ hj' => hinj j j' (by omega) (by omega)) (Nat.zero_le _)
    (by simp only [blockSize] at hsize ⊢; omega) hq (by rw [Nat.sub_zero, hsplit]; exact hp), hsplit]

/-! ## Reading -/

/-- The buffer after the loop: the bytes of the file from block `i` on. -/
theorem readLoop_apply {blocks : Nat → Nat → UInt8} {buffer : Nat → UInt8} {i r n : Nat} (p : Nat) :
    readLoop block blocks buffer i r n p =
      if i * blockSize ≤ p ∧ p < i * blockSize + min r (n * blockSize) then fileByte block blocks p
      else buffer p := by
  induction n generalizing buffer i r with
  | zero =>
    rw [if_neg (by omega)]
    rfl
  | succ n ih =>
    rw [readLoop]
    by_cases hr : r > 0
    swap
    · rw [if_neg hr, if_neg (by omega)]
    rw [if_pos hr, toCopy_eq, ih]
    have hchunk := @fileByte_chunk block blocks i p
    rw [copyOut]
    generalize blockSize = c at hchunk ⊢
    have hround : (i + 1) * c = i * c + c := Nat.succ_mul ..
    have hrest : (n + 1) * c = n * c + c := Nat.succ_mul ..
    by_cases hlater : (i + 1) * c ≤ p ∧ p < (i + 1) * c + min (r - min c r) (n * c)
    · rw [if_pos hlater, if_pos (by omega)]
    · rw [if_neg hlater]
      by_cases hnow : i * c ≤ p ∧ p < i * c + min c r
      · -- the chunk this round copied: block `i` of the file
        rw [if_pos hnow, if_pos (by omega)]
        exact hchunk hnow.1 (by omega)
      · rw [if_neg hnow, if_neg (by omega)]

/-- `fs_read_file` on a valid inode number: how many bytes, and what the buffer
holds then. -/
theorem fsReadFile_eq {fs : Bkfs} {n : Nat} (hn : ¬ (n = 0 ∨ n > maxInodes))
    (buffer : Nat → UInt8) (size : Nat) :
    (fsReadFile fs n buffer size).1 = toInt (min size (fs.inodes (n - 1)).size) ∧
      ∀ p, (fsReadFile fs n buffer size).2.1 p =
        if p < min (min size (fs.inodes (n - 1)).size) ((fs.inodes (n - 1)).blocks * blockSize) then
          fileByte (fs.inodes (n - 1)).block fs.blocks p
        else buffer p := by
  rw [fsReadFile]
  rw [if_neg hn]
  dsimp only
  rw [toCopy_eq, Nat.min_comm]
  refine ⟨rfl, fun p => ?_⟩
  rw [readLoop_apply, Nat.zero_mul, Nat.zero_add]
  simp only [Nat.zero_le, true_and]

end Srunix
