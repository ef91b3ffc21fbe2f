import Srunix.Library.Decimal
import Srunix.Console.PrintfCalls

/-!
# `kill` (`kernel/kernel.c`)

`execute_kill` takes its two words through `atoi`, which reads the digits in
front and nothing else, and goes on adding after the sum has wrapped. So every
word is some number: `readNumber` of it. `kills_named_iff` says when the process
that is hit is the one that was named.
-/

namespace Srunix

open Library

/-- `execute_kill`: both words go through `atoi` and become `uint32_t`. -/
def executeKill (s : ProcState) (pidStr sigStr : CString) : ProcState :=
  -- `uint32_t pid = atoi(pid_str)`
  let pid := (atoi pidStr % 2 ^ 32).toNat
  let sig := (atoi sigStr % 2 ^ 32).toNat
  sendSignal s pid sig

/-- What `atoi` makes of a word, as a `uint32_t`. -/
def readNumber (str : CString) : Nat := numeralValue (digitRun str.bytes) % 2 ^ 32

/-- The word is a decimal numeral, and this is its value. -/
def Denotes (str : CString) (n : Nat) : Prop := IsNumeral str.bytes ∧ numeralValue str.bytes = n

/-- A numeral that fits in 32 bits. -/
def IsUint32 (str : CString) : Prop := ∃ n < 2 ^ 32, Denotes str n

/-! ## `atoi` -/

theorem isDigit_toNat {c : UInt8} (h : IsDigit c) : ((digitValue c : Nat) : Int) = (c.toNat : Int) - 48 := by
  have hlo : 48 ≤ c.toNat := UInt8.le_iff_toNat_le.mp h.1
  rw [digitValue]
  omega

theorem bmod_mul_ten_add (v d : Int) :
    (v.bmod (2 ^ 32) * 10 + d).bmod (2 ^ 32) = (10 * v + d).bmod (2 ^ 32) := by
  rw [Int.mul_comm 10 v, ← Int.bmod_add_bmod, Int.bmod_mul_bmod, Int.bmod_add_bmod]

/-- The sum so far may have wrapped. -/
theorem atoiLoop_eq (l : List UInt8) (v : Nat) :
    atoiLoop ((v : Int).bmod (2 ^ 32)) l =
      (((digitRun l).foldl (fun v c => 10 * v + digitValue c) v : Nat) : Int).bmod (2 ^ 32) := by
  induction l generalizing v with
  | nil => rfl
  | cons c l ih =>
    by_cases hc : IsDigit c
    · have hstep : ((v : Int).bmod (2 ^ 32) * 10 + ((c.toNat : Int) - 48)).bmod (2 ^ 32)
          = ((10 * v + digitValue c : Nat) : Int).bmod (2 ^ 32) := by
        rw [← isDigit_toNat hc, bmod_mul_ten_add]
        rfl
      rw [atoiLoop, if_pos (show 0x30 ≤ c ∧ c ≤ 0x39 from hc), hstep, ih, digitRun_cons_of_digit hc,
        List.foldl_cons]
    · rw [atoiLoop, if_neg (show ¬ (0x30 ≤ c ∧ c ≤ 0x39) from hc), digitRun_cons_of_not hc]
      rfl

/-- What `execute_kill` makes of a word. -/
theorem atoi_eq_readNumber (str : CString) : (atoi str % 2 ^ 32).toNat = readNumber str := by
  have hloop := atoiLoop_eq str.bytes 0
  rw [show ((0 : Nat) : Int).bmod (2 ^ 32) = 0 from rfl] at hloop
  have hwrap := Int.bmod_emod (x := ((numeralValue (digitRun str.bytes) : Nat) : Int)) (m := 2 ^ 32)
  rw [atoi, hloop]
  exact (congrArg Int.toNat hwrap).trans (Int.toNat_natCast (readNumber str))

theorem Denotes.readNumber {str : CString} {n : Nat} (h : Denotes str n) : readNumber str = n % 2 ^ 32 := by
  rw [Srunix.readNumber, h.1.digitRun_eq, h.2]

namespace ProcState

variable {s : ProcState}

/-! ## The table after a signal -/

/-- The table after signal `sig` to process `pid` and to no other. -/
def signalled (procs : List Process) (pid sig : Nat) : List Process :=
  if Kills sig then procs.filter fun p => p.pid ≠ pid
  else if sig = sigstop then procs.map fun p => if p.pid = pid then { p with state := 1 } else p
  else if sig = sigcont then procs.map fun p => if p.pid = pid then { p with state := 0 } else p
  else procs

/-- The signal leaves a process that gets it as it is. -/
def NoEffect (p : Process) (sig : Nat) : Prop :=
  ¬ Kills sig ∧ (sig = sigstop → p.state = 1) ∧ (sig = sigcont → p.state = 0)

/-- The record of a slot with its state set, where only that slot has the number. -/
theorem procs_update_state (hnd : s.pids.Nodup) {i : Nat} (hi : i < s.processCount) (state : Nat) :
    procs { s with processes := Function.update s.processes i { s.processes i with state := state } } =
      s.procs.map fun p => if p.pid = (s.processes i).pid then { p with state := state } else p := by
  rw [procs, procs, table, table, List.map_map]
  refine List.map_congr_left fun k hk => ?_
  have hk : k < s.processCount := List.mem_range.mp hk
  show Function.update s.processes i _ k = ite _ _ _
  by_cases hki : k = i
  · subst hki
    rw [Function.update_self, if_pos rfl]
  · have hne : (s.processes k).pid ≠ (s.processes i).pid := by
      intro heq
      rw [pids, procs, table, List.map_map] at hnd
      exact hki (List.inj_on_of_nodup_map hnd (List.mem_range.mpr hk) (List.mem_range.mpr hi) heq)
    rw [Function.update_of_ne hki, if_neg hne]

/-- No process has that pid. -/
theorem procs_map_absent {pid : Nat} (hscan : ∀ i < s.processCount, (s.processes i).pid ≠ pid)
    (f : Process → Process) : (s.procs.map fun p => if p.pid = pid then f p else p) = s.procs := by
  refine (List.map_congr_left fun p hp => ?_).trans (List.map_id _)
  obtain ⟨i, hi, rfl⟩ := mem_table.mp hp
  exact if_neg (hscan i hi)

/-- With distinct numbers, a signal reaches the process of its number. -/
theorem sendSignal_procs (hnd : s.pids.Nodup) (pid sig : Nat) :
    (sendSignal s pid sig).procs = signalled s.procs pid sig := by
  by_cases hsig : Kills sig
  · rw [signalled, if_pos hsig]
    exact (removesOne hnd pid hsig).1
  -- a signal that removes nothing changes the state of the first process of that pid, or none
  · rw [signalled, if_neg hsig, sendSignal]
    cases hscan : firstIndex s.processCount fun i => (s.processes i).pid == pid with
    | none =>
      have habsent : ∀ i < s.processCount, (s.processes i).pid ≠ pid := fun i hi => by
        simpa using firstIndex_eq_none_iff.mp hscan i hi
      dsimp only
      rw [procs_map_absent habsent, procs_map_absent habsent, ite_self, ite_self]
      rfl
    | some i =>
      obtain ⟨hi, hpid, -⟩ := firstIndex_eq_some_iff.mp hscan
      obtain rfl : (s.processes i).pid = pid := by simpa using hpid
      dsimp only
      rw [if_neg hsig]
      by_cases hstop : sig = sigstop
      · rw [if_pos hstop, if_pos hstop, procs_update_state hnd hi]
      · rw [if_neg hstop, if_neg hstop]
        by_cases hcont : sig = sigcont
        · rw [if_pos hcont, if_pos hcont, procs_update_state hnd hi]
        · rw [if_neg hcont, if_neg hcont]

theorem map_state_eq_self {procs : List Process} {pid state : Nat} :
    (procs.map fun p => if p.pid = pid then { p with state := state } else p) = procs ↔
      ∀ p ∈ procs, p.pid = pid → p.state = state := by
  conv_lhs => rhs; rw [← List.map_id procs]
  rw [List.map_inj_left]
  refine forall₂_congr fun p _ => ?_
  rw [id]
  by_cases hpid : p.pid = pid
  · rw [if_pos hpid]
    exact ⟨fun h _ => by rw [← h], fun h => by rw [← h hpid]⟩
  · rw [if_neg hpid]
    exact iff_of_true rfl fun h => absurd h hpid

/-- A signal changes nothing exactly if it has no effect on the process it is for. -/
theorem signalled_eq_self {procs : List Process} {pid sig : Nat} :
    signalled procs pid sig = procs ↔ ∀ p ∈ procs, p.pid = pid → NoEffect p sig := by
  rw [signalled]
  by_cases hsig : Kills sig
  · rw [if_pos hsig, List.filter_eq_self]
    refine forall₂_congr fun p _ => ?_
    rw [decide_eq_true_eq]
    exact forall_congr' fun _ => iff_of_false id fun h => h.1 hsig
  · rw [if_neg hsig]
    by_cases hstop : sig = sigstop
    · subst hstop
      rw [if_pos rfl, map_state_eq_self]
      refine forall₃_congr fun p _ _ => ?_
      exact ⟨fun h => ⟨hsig, fun _ => h, fun h' => absurd h' (by decide)⟩, fun h => h.2.1 rfl⟩
    · rw [if_neg hstop]
      by_cases hcont : sig = sigcont
      · subst hcont
        rw [if_pos rfl, map_state_eq_self]
        refine forall₃_congr fun p _ _ => ?_
        exact ⟨fun h => ⟨hsig, fun h' => absurd h' (by decide), fun _ => h⟩, fun h => h.2.2 rfl⟩
      · rw [if_neg hcont]
        exact iff_of_true rfl fun p _ _ => ⟨hsig, fun h => absurd h hstop, fun h => absurd h hcont⟩

/-! ## Who is hit -/

/-- The numbers in the table are distinct, and `uint32_t`s. -/
structure PidsOk (s : ProcState) : Prop where
  distinct : s.pids.Nodup
  small : ∀ pid ∈ s.pids, pid < 2 ^ 32

/-- Only the process the first word names is hit, and with the signal the second
word names. -/
def KillsNamed (s : ProcState) (pidStr sigStr : CString) : Prop :=
  (executeKill s pidStr sigStr).procs = s.procs ∨
    ∃ pid sig, Denotes pidStr pid ∧ Denotes sigStr sig ∧
      (executeKill s pidStr sigStr).procs = signalled s.procs pid sig

/-- The table after `kill`. -/
theorem executeKill_procs (h : s.pids.Nodup) (pidStr sigStr : CString) :
    (executeKill s pidStr sigStr).procs = signalled s.procs (readNumber pidStr) (readNumber sigStr) := by
  rw [executeKill, atoi_eq_readNumber, atoi_eq_readNumber]
  exact sendSignal_procs h _ _

/-- A word that does not name a 32-bit number names no process and no signal. -/
theorem signalled_of_large {procs : List Process} (hsmall : ∀ p ∈ procs, p.pid < 2 ^ 32) {pid sig : Nat}
    (h : 2 ^ 32 ≤ pid ∨ 2 ^ 32 ≤ sig) : signalled procs pid sig = procs := by
  refine signalled_eq_self.mpr fun p hp hpid => ?_
  have hsig : 2 ^ 32 ≤ sig := by
    have := hsmall p hp
    omega
  simp only [NoEffect, Kills, sigint, sigkill, sigstop, sigcont]
  omega

/-- For words that are no numbers, `kill` should do nothing. -/
theorem killsNamed_iff_unchanged (h : PidsOk s) (pidStr sigStr : CString)
    (hwords : ¬ (IsUint32 pidStr ∧ IsUint32 sigStr)) :
    KillsNamed s pidStr sigStr ↔ (executeKill s pidStr sigStr).procs = s.procs := by
  refine ⟨?_, Or.inl⟩
  rintro (hsame | ⟨pid, sig, hpid, hsig, heq⟩)
  · exact hsame
  · rw [heq]
    refine signalled_of_large (fun p hp => h.small _ (List.mem_map_of_mem hp)) ?_
    by_contra hlt
    rw [not_or, Nat.not_le, Nat.not_le] at hlt
    exact hwords ⟨⟨pid, hlt.1, hpid⟩, ⟨sig, hlt.2, hsig⟩⟩

/-- **Who is hit.** What `kill` does is what its words say if both are numerals
below 2³², and otherwise just if the process it takes the first word for, if
there is one, is left alone by the signal it takes the second word for. -/
theorem kills_named_iff (h : PidsOk s) (pidStr sigStr : CString) :
    KillsNamed s pidStr sigStr ↔
      (IsUint32 pidStr ∧ IsUint32 sigStr) ∨
        ∀ p ∈ s.procs, p.pid = readNumber pidStr → NoEffect p (readNumber sigStr) := by
  by_cases hwords : IsUint32 pidStr ∧ IsUint32 sigStr
  · refine iff_of_true (Or.inr ?_) (Or.inl hwords)
    obtain ⟨⟨pid, hpid, hpidStr⟩, ⟨sig, hsig, hsigStr⟩⟩ := hwords
    refine ⟨pid, sig, hpidStr, hsigStr, ?_⟩
    rw [executeKill_procs h.distinct, hpidStr.readNumber, hsigStr.readNumber, Nat.mod_eq_of_lt hpid,
      Nat.mod_eq_of_lt hsig]
  · rw [killsNamed_iff_unchanged h pidStr sigStr hwords, executeKill_procs h.distinct, signalled_eq_self,
      or_iff_right hwords]

/-- The table with one process, number 2. -/
def oneProcess : ProcState := (sysFork (boot programImage.term)).2

theorem pidsOk_oneProcess : PidsOk oneProcess where
  distinct := List.nodup_singleton 2
  small _ hpid := by
    rw [List.mem_singleton.mp (show _ ∈ [2] from hpid)]
    omega

theorem kills_named_oneProcess : PidsOk oneProcess ∧
    (KillsNamed oneProcess "2x" "9" ↔
      (IsUint32 "2x" ∧ IsUint32 "9") ∨
        ∀ p ∈ oneProcess.procs, p.pid = readNumber "2x" → NoEffect p (readNumber "9")) :=
  ⟨pidsOk_oneProcess, kills_named_iff pidsOk_oneProcess "2x" "9"⟩

/-- `kill 4294967298 9` takes out process 2. -/
theorem not_kills_named : ¬ ∀ s, PidsOk s → ∀ pidStr sigStr, KillsNamed s pidStr sigStr := by
  intro h
  have hwords : ¬ (IsUint32 "4294967298" ∧ IsUint32 "9") := by
    rintro ⟨⟨n, hn, -, hvalue⟩, -⟩
    rw [show numeralValue (CString.bytes "4294967298") = 4294967298 by decide] at hvalue
    omega
  have hsame := (killsNamed_iff_unchanged pidsOk_oneProcess _ _ hwords).mp
    (h oneProcess pidsOk_oneProcess "4294967298" "9")
  exact absurd (congrArg List.length hsame) (by decide)

end ProcState

end Srunix
