import Srunix.Library.PageWalk

/-!
# Page tables of the boot code (`boot/boot.asm`)

`setup_page_tables` stores one entry in each upper table and 512 large pages in
`pd_table`, all with 32-bit stores: the upper halves of the entries are the zeros
of `.bss`. `enable_paging` turns the walk on. `boot_identity_map`: the walk takes
every address of the first gigabyte to itself, and no other address anywhere.
-/

namespace Srunix

open Library PageWalk

/-- Where the three tables are: each at the beginning of a page of its own. -/
structure BootTables where
  pml4Table : UInt32
  pdpTable : UInt32
  pdTable : UInt32
  pml4_aligned : pml4Table.toNat % 4096 = 0
  pdp_aligned : pdpTable.toNat % 4096 = 0
  pd_aligned : pdTable.toNat % 4096 = 0
  pml4_ne_pdp : pml4Table ≠ pdpTable
  pml4_ne_pd : pml4Table ≠ pdTable
  pdp_ne_pd : pdpTable ≠ pdTable

/-- `.map_pd_table`. A loop that needs more rounds is `none`. -/
def mapPdTable (pdTable : UInt32) (mem : Memory) (ecx : UInt32) : Nat → Option Memory
  | 0 => none
  | rounds + 1 =>
    -- `mul ecx` leaves the low half of the product in `eax`
    let eax : UInt32 := 0x200000 * ecx
    let eax := eax ||| 0b10000011
    let mem := storeLe mem (pdTable + ecx * 8).toNat 4 eax.toNat
    let ecx := ecx + 1
    if ecx ≠ 512 then mapPdTable pdTable mem ecx rounds else some mem

/-- `setup_page_tables` of `boot.asm`: one entry in each of the two upper tables, and
the loop over the 512 entries of the third. -/
def setupPageTables (t : BootTables) (mem : Memory) : Option Memory :=
  let eax := t.pdpTable ||| 0b11
  let mem := storeLe mem t.pml4Table.toNat 4 eax.toNat
  let eax := t.pdTable ||| 0b11
  let mem := storeLe mem t.pdpTable.toNat 4 eax.toNat
  mapPdTable t.pdTable mem 0 512

/-- The registers `enable_paging` works on; `efer` is the low half of the MSR. -/
structure PagingRegs where
  cr0 : UInt32
  cr3 : UInt32
  cr4 : UInt32
  efer : UInt32

/-- `enable_paging` of `boot.asm`: the registers it sets, in its order. -/
def enablePaging (t : BootTables) (regs : PagingRegs) : PagingRegs :=
  { cr3 := t.pml4Table
    cr4 := regs.cr4 ||| (1 : UInt32) <<< 5
    efer := regs.efer ||| (1 : UInt32) <<< 8
    cr0 := regs.cr0 ||| (1 : UInt32) <<< 31 }

/-- Paging is on, with entries of eight bytes and four levels (`CR0.PG`, `CR4.PAE`,
`EFER.LME`). -/
structure FourLevelPaging (regs : PagingRegs) : Prop where
  pg : regs.cr0.toNat.testBit 31 = true
  pae : regs.cr4.toNat.testBit 5 = true
  lme : regs.efer.toNat.testBit 8 = true

/-- The registers are those of four-level paging. -/
theorem enablePaging_fourLevel (t : BootTables) (regs : PagingRegs) :
    FourLevelPaging (enablePaging t regs) := by
  constructor
  · show (regs.cr0 ||| (1 : UInt32) <<< 31).toNat.testBit 31 = true
    rw [UInt32.toNat_or, Nat.testBit_or]
    exact Bool.or_eq_true_iff.mpr (Or.inr rfl)
  · show (regs.cr4 ||| (1 : UInt32) <<< 5).toNat.testBit 5 = true
    rw [UInt32.toNat_or, Nat.testBit_or]
    exact Bool.or_eq_true_iff.mpr (Or.inr rfl)
  · show (regs.efer ||| (1 : UInt32) <<< 8).toNat.testBit 8 = true
    rw [UInt32.toNat_or, Nat.testBit_or]
    exact Bool.or_eq_true_iff.mpr (Or.inr rfl)

/-! ## The entries -/

/-- Flags in the low bits of an aligned number are added to it. -/
theorem toNat_or_flags {a flags : UInt32} {k : Nat} (ha : a.toNat % 2 ^ k = 0) (hflags : flags.toNat < 2 ^ k) :
    (a ||| flags).toNat = a.toNat + flags.toNat := by
  obtain ⟨b, hb⟩ := Nat.dvd_of_mod_eq_zero ha
  rw [UInt32.toNat_or, hb, Nat.two_pow_add_eq_or_of_lt hflags]

/-- Entry `i` of a page directory: the `i`-th large page, present and writable. -/
def pageEntry (i : Nat) : Nat := 0x200000 * i + 0b10000011

/-- The entry the loop computes in 32 bits. -/
theorem toNat_pageEntry {i : Nat} (hi : i < 512) :
    ((0x200000 : UInt32) * UInt32.ofNat i ||| 0b10000011).toNat = pageEntry i := by
  have hmul : ((0x200000 : UInt32) * UInt32.ofNat i).toNat = 0x200000 * i := by
    rw [UInt32.toNat_mul, UInt32.toNat_ofNat', show (0x200000 : UInt32).toNat = 0x200000 from rfl]
    omega
  rw [toNat_or_flags (k := 21) (by rw [hmul]; omega) (by decide), hmul]
  rfl

theorem toNat_entryAddr {table : UInt32} (ht : table.toNat % 4096 = 0) {i : Nat} (hi : i < 512) :
    (table + UInt32.ofNat i * 8).toNat = table.toNat + 8 * i := by
  have hlt := table.toNat_lt
  rw [UInt32.toNat_add, UInt32.toNat_mul, UInt32.toNat_ofNat', show (8 : UInt32).toNat = 8 from rfl]
  omega

/-- The loop stores its entries from `i` on, and nothing else. -/
structure MapsFrom (pdTable : UInt32) (i : Nat) (mem mem' : Memory) : Prop where
  entries : ∀ j, i ≤ j → j < 512 → readLe mem' (pdTable.toNat + 8 * j) 4 = pageEntry j
  upper : ∀ j, j < 512 → readLe mem' (pdTable.toNat + 8 * j + 4) 4 = readLe mem (pdTable.toNat + 8 * j + 4) 4
  frame : ∀ a w, a + w ≤ pdTable.toNat + 8 * i ∨ pdTable.toNat + 4096 ≤ a → readLe mem' a w = readLe mem a w

theorem MapsFrom.refl (pdTable : UInt32) (mem : Memory) : MapsFrom pdTable 512 mem mem where
  entries _ hle hlt := absurd hle (Nat.not_le.mpr hlt)
  upper _ _ := rfl
  frame _ _ _ := rfl

/-- One more entry. -/
theorem MapsFrom.step {pdTable : UInt32} {i : Nat} {mem mem' : Memory} (hi : i < 512)
    (h : MapsFrom pdTable (i + 1) (storeLe mem (pdTable.toNat + 8 * i) 4 (pageEntry i)) mem') :
    MapsFrom pdTable i mem mem' where
  entries j hle hlt := by
    rcases Nat.eq_or_lt_of_le hle with rfl | hlater
    · rw [h.frame _ _ (by omega), readLe_storeLe]
      refine Nat.mod_eq_of_lt ?_
      show 0x200000 * i + 0b10000011 < 4294967296
      omega
    · exact h.entries j hlater hlt
  upper j hj := by
    rw [h.upper j hj]
    exact readLe_storeLe_of_disjoint (by omega)
  frame a w houtside := by
    rw [h.frame a w (by omega)]
    exact readLe_storeLe_of_disjoint (by omega)

/-- The loop stores an entry for each page, from `i` to the end of the table. The
induction is on the rounds that are left. -/
theorem mapPdTable_spec {pdTable : UInt32} (haligned : pdTable.toNat % 4096 = 0) {rounds i : Nat}
    (hrounds : i + (rounds + 1) = 512) (mem : Memory) :
    ∃ mem', mapPdTable pdTable mem (UInt32.ofNat i) (rounds + 1) = some mem' ∧ MapsFrom pdTable i mem mem' := by
  have hi : i < 512 := by omega
  have hnext : UInt32.ofNat i + 1 = UInt32.ofNat (i + 1) := (UInt32.ofNat_add i 1).symm
  induction rounds generalizing i mem with
  | zero =>
    obtain rfl : i = 511 := by omega
    refine ⟨_, ?_, (MapsFrom.refl pdTable _).step (i := 511) hi⟩
    rw [mapPdTable, toNat_pageEntry hi, toNat_entryAddr haligned hi]
    rfl
  | succ rounds ih =>
    have hne : UInt32.ofNat (i + 1) ≠ 512 := by
      intro heq
      have := congrArg UInt32.toNat heq
      rw [UInt32.toNat_ofNat', show (512 : UInt32).toNat = 512 from rfl] at this
      omega
    obtain ⟨mem', hloop, hmaps⟩ := ih (i := i + 1) (by omega)
      (storeLe mem (pdTable.toNat + 8 * i) 4 (pageEntry i)) (by omega) (UInt32.ofNat_add (i + 1) 1).symm
    refine ⟨mem', ?_, hmaps.step hi⟩
    rw [mapPdTable, toNat_pageEntry hi, toNat_entryAddr haligned hi, hnext]
    rw [if_pos hne, hloop]

/-! ## The map -/

/-- The tables are zero, as `.bss` is. -/
structure BootTables.Zeroed (t : BootTables) (mem : Memory) : Prop where
  pml4 : ∀ i < 4096, mem (t.pml4Table.toNat + i) = 0
  pdp : ∀ i < 4096, mem (t.pdpTable.toNat + i) = 0
  pd : ∀ i < 4096, mem (t.pdTable.toNat + i) = 0

theorem readLe_of_zero {mem : Memory} {a w : Nat} (h : ∀ i < w, mem (a + i) = 0) : readLe mem a w = 0 := by
  rw [← readLe_zero a w]
  exact readLe_congr h

/-- What the walk finds in the tables. -/
structure TablesOk (t : BootTables) (mem : Memory) : Prop where
  pml4 : ∀ i < 512, entry mem t.pml4Table.toNat i = if i = 0 then t.pdpTable.toNat + 3 else 0
  pdp : ∀ i < 512, entry mem t.pdpTable.toNat i = if i = 0 then t.pdTable.toNat + 3 else 0
  pd : ∀ i < 512, entry mem t.pdTable.toNat i = pageEntry i

/-- An entry is its two halves. -/
theorem entry_eq_of_halves {mem : Memory} {table i lo : Nat} (hlo : readLe mem (table + 8 * i) 4 = lo)
    (hhi : readLe mem (table + 8 * i + 4) 4 = 0) : entry mem table i = lo := by
  rw [entry, readLe_add mem _ 4 4, hlo, hhi, Nat.mul_zero, Nat.add_zero]

/-- A table with one entry stored in it. -/
theorem entry_first {mem : Memory} {table lo i : Nat} (hzero : ∀ k < 4096, mem (table + k) = 0) (hlo : lo < 2 ^ 32)
    (hi : i < 512) : entry (storeLe mem table 4 lo) table i = if i = 0 then lo else 0 := by
  have hread : ∀ k, k + 4 ≤ 4096 → readLe mem (table + k) 4 = 0 := fun k hk =>
    readLe_of_zero fun j hj => by
      rw [Nat.add_assoc]
      exact hzero (k + j) (by omega)
  have hupper : readLe (storeLe mem table 4 lo) (table + 8 * i + 4) 4 = 0 := by
    rw [readLe_storeLe_of_disjoint (by omega), Nat.add_assoc]
    exact hread _ (by omega)
  refine entry_eq_of_halves ?_ hupper
  by_cases hzero : i = 0
  · subst hzero
    rw [if_pos rfl, Nat.mul_zero, Nat.add_zero, readLe_storeLe]
    exact Nat.mod_eq_of_lt hlo
  · rw [if_neg hzero, readLe_storeLe_of_disjoint (by omega)]
    exact hread _ (by omega)

/-- Two different tables share no byte. -/
theorem tables_apart {p q : UInt32} (hp : p.toNat % 4096 = 0) (hq : q.toNat % 4096 = 0) (hne : p ≠ q) :
    p.toNat + 4096 ≤ q.toNat ∨ q.toNat + 4096 ≤ p.toNat := by
  have hne : p.toNat ≠ q.toNat := fun h => hne (UInt32.toNat_inj.mp h)
  omega

/-- A pointer to a table, with its two flags. -/
theorem toNat_tablePtr {table : UInt32} (h : table.toNat % 4096 = 0) :
    (table ||| 0b11).toNat = table.toNat + 3 ∧ table.toNat + 3 < 2 ^ 32 := by
  have hlt := table.toNat_lt
  refine ⟨toNat_or_flags (k := 12) h (by decide), ?_⟩
  omega

/-- The tables after `setup_page_tables`. -/
theorem setupPageTables_spec {t : BootTables} {mem : Memory} (h : t.Zeroed mem) :
    ∃ mem', setupPageTables t mem = some mem' ∧ TablesOk t mem' := by
  obtain ⟨hpdp, hpdpLt⟩ := toNat_tablePtr t.pdp_aligned
  obtain ⟨hpd, hpdLt⟩ := toNat_tablePtr t.pd_aligned
  have h43 := tables_apart t.pml4_aligned t.pdp_aligned t.pml4_ne_pdp
  have h42 := tables_apart t.pml4_aligned t.pd_aligned t.pml4_ne_pd
  have h32 := tables_apart t.pdp_aligned t.pd_aligned t.pdp_ne_pd
  -- the two stores for the upper tables come first, then the loop
  obtain ⟨mem', hloop, hmaps⟩ := @mapPdTable_spec t.pdTable t.pd_aligned 511 0 rfl
    (storeLe (storeLe mem t.pml4Table.toNat 4 (t.pdpTable ||| 0b11).toNat) t.pdpTable.toNat 4
      (t.pdTable ||| 0b11).toNat)
  rw [hpdp, hpd] at hmaps
  refine ⟨mem', hloop, ?_, ?_, ?_⟩
  · intro i hi
    rw [← entry_first h.pml4 hpdpLt hi, entry, entry, hmaps.frame _ _ (by omega),
      readLe_storeLe_of_disjoint (by omega)]
  · intro i hi
    have hzero : ∀ k < 4096, storeLe mem t.pml4Table.toNat 4 (t.pdpTable.toNat + 3) (t.pdpTable.toNat + k) = 0 :=
      fun k hk => (if_neg (by omega)).trans (h.pdp k hk)
    rw [← entry_first hzero hpdLt hi, entry, entry, hmaps.frame _ _ (by omega)]
  -- the upper halves of the entries stay zero
  · intro i hi
    refine entry_eq_of_halves (hmaps.entries i (Nat.zero_le i) hi) ?_
    rw [hmaps.upper i hi, readLe_storeLe_of_disjoint (by omega), readLe_storeLe_of_disjoint (by omega)]
    refine readLe_of_zero fun j hj => ?_
    rw [Nat.add_assoc, Nat.add_assoc]
    exact h.pd _ (by omega)

section

variable {t : BootTables} {mem : Memory} {v : Nat}

theorem frame_pml4 (t : BootTables) : frame t.pml4Table.toNat = t.pml4Table.toNat := by
  have hlt := t.pml4Table.toNat_lt
  exact @frame_addr_add t.pml4Table.toNat 0 t.pml4_aligned (by omega) (by omega)

/-- The two upper levels, for an address that goes by their first entries. -/
theorem walk_upper (h : TablesOk t mem) (hv : Canonical v) (h3 : index 3 v = 0) :
    walk mem t.pml4Table.toNat v = walkFrom mem v 2 t.pdpTable.toNat true := by
  have hlt := t.pdpTable.toNat_lt
  have he : entry mem t.pml4Table.toNat (index 3 v) = t.pdpTable.toNat + 3 := by
    rw [h3, h.pml4 0 (by omega), if_pos rfl]
  rw [walk, if_pos hv, frame_pml4, walkFrom_tableEntry he t.pdp_aligned (by omega)]

/-- The walk through the two upper tables. -/
theorem walk_pd (h : TablesOk t mem) (h2 : index 2 v = 0) :
    walkFrom mem v 2 t.pdpTable.toNat true = walkFrom mem v 1 t.pdTable.toNat true := by
  have hlt := t.pdTable.toNat_lt
  have he : entry mem t.pdpTable.toNat (index 2 v) = t.pdTable.toNat + 3 := by
    rw [h2, h.pdp 0 (by omega), if_pos rfl]
  exact walkFrom_tableEntry he t.pd_aligned (by omega)

/-- The walk through the third, which maps the page to itself. -/
theorem walk_page (h : TablesOk t mem) (hv : v < 2 ^ 30) :
    walkFrom mem v 1 t.pdTable.toNat true = some { phys := v, writable := true } := by
  have hindex : index 1 v = v / 2 ^ 21 := index_eq_div hv
  have hi : v / 2 ^ 21 < 512 := by omega
  have he : entry mem t.pdTable.toNat (index 1 v) = 2 ^ 21 * (v / 2 ^ 21) + 0b10000011 := by
    rw [hindex, h.pd _ hi]
    rfl
  have haligned : 2 ^ 21 * (v / 2 ^ 21) % 2 ^ 21 = 0 := Nat.mul_mod_right _ _
  have hbit : ∀ i < 21, (2 ^ 21 * (v / 2 ^ 21) + 0b10000011).testBit i = Nat.testBit 0b10000011 i := fun i hi =>
    testBit_addr_add haligned (by omega) hi
  have hframe : frame (2 ^ 21 * (v / 2 ^ 21) + 0b10000011) = 2 ^ 21 * (v / 2 ^ 21) :=
    frame_addr_add (by omega) (by omega) (by omega)
  rw [walkFrom_page he (hbit 0 (by omega)) (hbit 7 (by omega)) (Nat.zero_le 1) (by rw [hframe]; exact haligned),
    hframe, hbit 1 (by omega)]
  exact congrArg (fun phys => some (Translation.mk phys true)) (Nat.div_add_mod v (2 ^ 21))

/-- The walk, for every address. -/
theorem walk_eq (h : TablesOk t mem) (v : Nat) : walk mem t.pml4Table.toNat v =
    if v < 2 ^ 30 then some { phys := v, writable := true } else none := by
  by_cases hv : v < 2 ^ 30
  · rw [if_pos hv, walk_upper h (Or.inl (by omega)) (index_eq_zero (Nat.lt_of_lt_of_le hv (by decide))),
      walk_pd h (index_eq_zero hv), walk_page h hv]
  · rw [if_neg hv]
    by_cases hcanonical : Canonical v
    · by_cases h3 : index 3 v = 0
      · have h2 := (index_ne_zero hcanonical (Nat.not_lt.mp hv)).resolve_left (not_not_intro h3)
        rw [walk_upper h hcanonical h3]
        refine walkFrom_absent (testBit_zero_entry ?_)
        rw [h.pdp _ (index_lt _ _), if_neg h2]
      · rw [walk, if_pos hcanonical, frame_pml4]
        refine walkFrom_absent (testBit_zero_entry ?_)
        rw [h.pml4 _ (index_lt _ _), if_neg h3]
    · exact if_neg hcanonical

end

/-- **The first gigabyte, and nothing else.** The tables that the boot code makes
out of zeroed memory map each of its addresses to itself, to be read and written,
and no other address; and paging is on. -/
theorem boot_identity_map {t : BootTables} {mem : Memory} (h : t.Zeroed mem) (regs : PagingRegs) :
    ∃ mem', setupPageTables t mem = some mem' ∧ FourLevelPaging (enablePaging t regs) ∧
      ∀ v : UInt64, walk mem' (enablePaging t regs).cr3.toNat v.toNat =
        if v.toNat < 2 ^ 30 then some { phys := v.toNat, writable := true } else none := by
  obtain ⟨mem', hsetup, hok⟩ := setupPageTables_spec h
  exact ⟨mem', hsetup, enablePaging_fourLevel t regs, fun v => walk_eq hok v.toNat⟩

/-- Three pages from 1 MiB on. -/
def BootTables.atOneMiB : BootTables :=
  { pml4Table := 0x100000, pdpTable := 0x101000, pdTable := 0x102000
    pml4_aligned := rfl, pdp_aligned := rfl, pd_aligned := rfl
    pml4_ne_pdp := by decide, pml4_ne_pd := by decide, pdp_ne_pd := by decide }

theorem boot_identity_map_atOneMiB :
    ∃ mem', setupPageTables .atOneMiB (fun _ => 0) = some mem' ∧
      FourLevelPaging (enablePaging .atOneMiB ⟨0x11, 0, 0, 0⟩) ∧
      ∀ v : UInt64, walk mem' (enablePaging .atOneMiB ⟨0x11, 0, 0, 0⟩).cr3.toNat v.toNat =
        if v.toNat < 2 ^ 30 then some { phys := v.toNat, writable := true } else none :=
  boot_identity_map ⟨fun _ _ => rfl, fun _ _ => rfl, fun _ _ => rfl⟩ _

end Srunix
