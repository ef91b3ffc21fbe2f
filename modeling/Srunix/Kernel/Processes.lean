import Srunix.Library.FirstIndex
import Srunix.Library.Runs
import Srunix.Bkfs.Boot

/-!
# The process table (`kernel/kernel.c`)

`sys_fork`, `sys_exit` and `send_signal` on `processes[0 .. process_count)`.
`current_process` is never assigned, so every fork copies slot 0.

A fork takes its number from the length of the table and a kill closes the gap
it leaves. Every number in the table is one that a fork of the run has returned
(`pids_after`). They stay distinct exactly as long as no fork is given a number
still in use (`processIdentity_iff`).
-/

namespace Srunix

open Library

/-- `MAX_PROCESSES`. -/
abbrev maxProcesses : Nat := 16

/-- `SIGINT`. -/
abbrev sigint : Nat := 2
/-- `SIGKILL`. -/
abbrev sigkill : Nat := 9
/-- `SIGSTOP`. -/
abbrev sigstop : Nat := 19
/-- `SIGCONT`. -/
abbrev sigcont : Nat := 18

/-- `Process` -/
structure Process where
  pid : Nat
  ppid : Nat
  pgid : Nat
  name : CString
  priority : Nat
  state : Nat
  stackPtr : Nat
  entryPoint : Nat
  exitCode : Nat

/-- A process record of the zeroed table. -/
def Process.zero : Process :=
  { pid := 0, ppid := 0, pgid := 0, name := .empty, priority := 0, state := 0, stackPtr := 0,
    entryPoint := 0, exitCode := 0 }

/-- The process globals, and the terminal `send_signal` prints to. -/
structure ProcState where
  term : Terminal
  processes : Nat → Process
  processCount : Nat
  currentProcess : Nat

namespace ProcState

/-- The empty table of the program image. -/
def boot (term : Terminal) : ProcState :=
  { term := term, processes := fun _ => .zero, processCount := 0, currentProcess := 0 }

/-- The processes there are. -/
def procs (s : ProcState) : List Process := table s.processes s.processCount

/-- The pids of the processes in the table. -/
def pids (s : ProcState) : List Nat := s.procs.map Process.pid

end ProcState

/-- The `-1` of a full table is a `uint32_t`. -/
def sysFork (s : ProcState) : Nat × ProcState :=
  if s.processCount ≥ maxProcesses then (2 ^ 32 - 1, s)
  else
    let parent := s.currentProcess
    let child := s.processCount
    let processCount := s.processCount + 1
    let processes := Function.update s.processes child (s.processes parent)
    let processes := Function.update processes child
      { processes child with pid := uint32 (processCount + 1) }
    -- `parent` may be the slot just filled
    let processes := Function.update processes child
      { processes child with ppid := (processes parent).pid }
    ((processes child).pid, { s with processes := processes, processCount := processCount })

/-- `sys_exit`: the record at `current_process` becomes a zombie, whether it is in use
or not. -/
def sysExit (s : ProcState) (status : Nat) : ProcState :=
  { s with
    processes := Function.update s.processes s.currentProcess
      { s.processes s.currentProcess with state := 2, exitCode := status } }

/-- `send_signal`, to the first process of that pid. `SIGINT` and `SIGKILL` take it
out of the table. -/
def sendSignal (s : ProcState) (pid sig : Nat) : ProcState :=
  match firstIndex s.processCount fun i => (s.processes i).pid == pid with
  | some i =>
    if sig = sigint ∨ sig = sigkill then
      { s with
        processes := shiftDown s.processes i (s.processCount - 1)
        processCount := s.processCount - 1 }
    else if sig = sigstop then
      { s with processes := Function.update s.processes i { s.processes i with state := 1 } }
    else if sig = sigcont then
      { s with processes := Function.update s.processes i { s.processes i with state := 0 } }
    else s
  | none => { s with term := terminalPrintf s.term "Process %d not found\n" [.int (toInt pid)] }

/-! ## Runs -/

/-- A call that changes the process table. -/
inductive ProcCall where
  | fork
  | exit (status : Nat)
  | signal (pid sig : Nat)
deriving DecidableEq

/-- What the call does. -/
def procStep (s : ProcState) : ProcCall → ProcState
  | .fork => (sysFork s).2
  | .exit status => sysExit s status
  | .signal pid sig => sendSignal s pid sig

/-- `SIGINT` and `SIGKILL` take a process out of the table. -/
abbrev Kills (sig : Nat) : Prop := sig = sigint ∨ sig = sigkill

namespace ProcState

variable {s : ProcState}

/-! ## What each call does to the table -/

/-- The record a fork adds: the current process with a new number, and as its
parent whatever number the current slot has by then. -/
def forked (s : ProcState) : Process :=
  { s.processes s.currentProcess with
    pid := s.processCount + 2
    ppid := if s.currentProcess = s.processCount then s.processCount + 2
      else (s.processes s.currentProcess).pid }

theorem sysFork_refused (h : maxProcesses ≤ s.processCount) : sysFork s = (2 ^ 32 - 1, s) :=
  if_pos h

/-- A fork adds one process, with the next number as its pid. -/
theorem sysFork_forked (h : s.processCount < maxProcesses) :
    (sysFork s).1 = s.processCount + 2 ∧ (sysFork s).2.procs = s.procs ++ [s.forked] ∧
      (sysFork s).2.processCount = s.processCount + 1 ∧
      (sysFork s).2.currentProcess = s.currentProcess := by
  have hpid : uint32 (s.processCount + 1 + 1) = s.processCount + 2 :=
    Nat.mod_eq_of_lt (by simp only [maxProcesses] at h; omega)
  rw [sysFork]
  rw [if_neg (Nat.not_le.mpr h)]
  dsimp only
  simp only [Function.update_self, Function.update_idem, hpid]
  refine ⟨trivial, ?_, trivial, trivial⟩
  rw [procs]
  rw [table_update_append]
  congr 2
  rw [forked]
  by_cases hslot : s.currentProcess = s.processCount
  · rw [if_pos hslot, hslot, Function.update_self]
  · rw [if_neg hslot, Function.update_of_ne hslot]

/-- A new record with the old number in one slot. -/
theorem pids_update {i : Nat} {p : Process} (hp : p.pid = (s.processes i).pid) :
    pids { s with processes := Function.update s.processes i p } = s.pids := by
  unfold pids procs table
  rw [List.map_map, List.map_map]
  refine List.map_congr_left fun k _ => ?_
  show (Function.update s.processes i p k).pid = (s.processes k).pid
  by_cases hk : k = i
  · rw [hk, Function.update_self, hp]
  · rw [Function.update_of_ne hk]

theorem sysExit_pids (s : ProcState) (status : Nat) : (sysExit s status).pids = s.pids :=
  pids_update rfl

/-- A killing signal takes the first process with the number out. -/
theorem sendSignal_procs_of_kills {sig : Nat} (hsig : Kills sig) (s : ProcState) (pid : Nat) :
    (sendSignal s pid sig).procs = s.procs.eraseP fun p => p.pid == pid := by
  rw [sendSignal]
  cases hscan : firstIndex s.processCount fun i => (s.processes i).pid == pid with
  | none => exact (eraseP_table_of_firstIndex (p := fun p : Process => p.pid == pid) hscan).symm
  | some i =>
    dsimp only
    rw [if_pos hsig]
    exact table_shiftDown_firstIndex (p := fun p : Process => p.pid == pid) hscan

/-- A signal that kills nobody leaves the pids. -/
theorem sendSignal_pids_of_not_kills {sig : Nat} (hsig : ¬ Kills sig) (s : ProcState) (pid : Nat) :
    (sendSignal s pid sig).pids = s.pids := by
  rw [sendSignal]
  cases firstIndex s.processCount fun i => (s.processes i).pid == pid with
  | none => rfl
  | some i =>
    dsimp only
    rw [if_neg hsig]
    split_ifs
    · exact pids_update rfl
    · exact pids_update rfl
    · rfl

theorem sendSignal_currentProcess (s : ProcState) (pid sig : Nat) :
    (sendSignal s pid sig).currentProcess = s.currentProcess := by
  rw [sendSignal]
  split
  · split_ifs <;> rfl
  · rfl

/-- What a call makes of the list of numbers. -/
def nextPids (s : ProcState) : ProcCall → List Nat
  | .fork => if s.processCount < maxProcesses then s.pids ++ [(sysFork s).1] else s.pids
  | .exit _ => s.pids
  | .signal pid sig => if Kills sig then s.pids.erase pid else s.pids

/-- The pids after a call. -/
theorem pids_procStep (s : ProcState) (c : ProcCall) : (procStep s c).pids = s.nextPids c := by
  unfold nextPids
  cases c with
  | fork =>
    show (sysFork s).2.pids = _
    by_cases hroom : s.processCount < maxProcesses
    -- the new process is the last of the table, with the next number
    · obtain ⟨hret, hprocs, -⟩ := sysFork_forked hroom
      rw [if_pos hroom, hret]
      unfold pids
      rw [hprocs, List.map_append]
      rfl
    · rw [if_neg hroom, sysFork_refused (Nat.not_lt.mp hroom)]
  | exit status => exact sysExit_pids s status
  | signal pid sig =>
    dsimp only
    show (sendSignal s pid sig).pids = _
    by_cases hsig : Kills sig
    · rw [if_pos hsig]
      unfold pids
      rw [sendSignal_procs_of_kills hsig, List.erase_eq_eraseP, List.eraseP_map]
      congr 2
      funext p
      exact Bool.beq_comm
    · rw [if_neg hsig]
      exact sendSignal_pids_of_not_kills hsig s pid

/-- Nothing ever changes `current_process`. -/
theorem procStep_currentProcess (s : ProcState) (c : ProcCall) :
    (procStep s c).currentProcess = s.currentProcess := by
  cases c with
  | fork =>
    by_cases hroom : s.processCount < maxProcesses
    · exact (sysFork_forked hroom).2.2.2
    · show (sysFork s).2.currentProcess = _
      rw [sysFork_refused (Nat.not_lt.mp hroom)]
  | exit status => rfl
  | signal pid sig => exact sendSignal_currentProcess s pid sig

/-- A number a call leaves in the table was there, or the call gave it. -/
theorem mem_nextPids {s : ProcState} {c : ProcCall} {p : Nat} (hp : p ∈ s.nextPids c) :
    p ∈ s.pids ∨ (c = .fork ∧ (sysFork s).1 = p) := by
  unfold nextPids at hp
  cases c with
  | fork =>
    dsimp only at hp
    split at hp
    · rcases List.mem_append.mp hp with hold | hnew
      · exact .inl hold
      · exact .inr ⟨rfl, (List.mem_singleton.mp hnew).symm⟩
    · exact .inl hp
  | exit status => exact .inl hp
  | signal pid sig =>
    dsimp only at hp
    split at hp
    · exact .inl (List.mem_of_mem_erase hp)
    · exact .inl hp

/-- Every number in the table was returned by a fork of the run. -/
theorem pids_after {term : Terminal} {calls : List ProcCall} {p : Nat}
    (hp : p ∈ (runOps procStep (boot term) calls).pids) :
    ∃ pre post, calls = pre ++ .fork :: post ∧
      (sysFork (runOps procStep (boot term) pre)).1 = p := by
  induction calls using List.reverseRecOn with
  | nil => cases hp
  | append_singleton calls c ih =>
    rw [runOps_snoc, pids_procStep] at hp
    rcases mem_nextPids hp with hold | ⟨rfl, hret⟩
    · obtain ⟨pre, post, rfl, hret⟩ := ih hold
      exact ⟨pre, post ++ [c], by simp, hret⟩
    · exact ⟨calls, [], rfl, hret⟩

/-! ## Identity -/

/-- The fork adds one process at the end, with the number it returns; its parent
is who the parent was before, and someone else. -/
def ChildOfParent (s : ProcState) : Prop :=
  ∃ child, (sysFork s).2.procs = s.procs ++ [child] ∧ child.pid = (sysFork s).1 ∧
    child.ppid = (s.processes s.currentProcess).pid ∧ child.ppid ≠ child.pid

/-- The signal takes out the one process of that number, if there is one, and
leaves the others as they are. -/
def RemovesOne (s : ProcState) (pid sig : Nat) : Prop :=
  (sendSignal s pid sig).procs = s.procs.filter (fun p => p.pid ≠ pid) ∧
    (pid ∈ s.pids → (sendSignal s pid sig).procs.length + 1 = s.procs.length)

/-- Numbers stay distinct, and a kill finds the one it means. -/
structure KeepsPids (s : ProcState) (c : ProcCall) : Prop where
  distinct : (procStep s c).pids.Nodup
  kill : ∀ pid sig, c = .signal pid sig → Kills sig → RemovesOne s pid sig

/-- A call that respects who is who. -/
structure Identity (s : ProcState) (c : ProcCall) : Prop extends KeepsPids s c where
  child : c = .fork → s.processCount < maxProcesses → ChildOfParent s

/-- The number a fork would give is not in use. -/
def FreshFork (s : ProcState) : ProcCall → Prop
  | .fork => s.processCount < maxProcesses → s.processCount + 2 ∉ s.pids
  | _ => True

/-- There also is a process to fork from. -/
def SafeFork (s : ProcState) : ProcCall → Prop
  | .fork => s.processCount < maxProcesses → s.processCount ≠ 0 ∧ s.processCount + 2 ∉ s.pids
  | _ => True

/-- Where pids are different, a killing signal takes out the one it is for. -/
theorem removesOne (hnd : s.pids.Nodup) (pid : Nat) {sig : Nat} (hsig : Kills sig) :
    RemovesOne s pid sig := by
  have herase := sendSignal_procs_of_kills hsig s pid
  refine ⟨herase.trans (eraseP_eq_filter Process.pid pid hnd), fun hmem => ?_⟩
  obtain ⟨p, hp, hpid⟩ := List.mem_map.mp hmem
  have hpos : 0 < s.procs.length := List.length_pos_of_mem hp
  rw [herase, List.length_eraseP_of_mem hp (by simpa using hpid)]
  omega

/-- The pids stay different exactly if a fork finds its pid unused. -/
theorem distinct_iff (hnd : s.pids.Nodup) (c : ProcCall) :
    (procStep s c).pids.Nodup ↔ FreshFork s c := by
  rw [pids_procStep]
  unfold nextPids
  cases c with
  | fork =>
    unfold FreshFork
    dsimp only
    by_cases hroom : s.processCount < maxProcesses
    · rw [if_pos hroom, (sysFork_forked hroom).1, ← List.concat_eq_append, List.nodup_concat]
      exact ⟨fun h _ => h.1, fun h => ⟨h hroom, hnd⟩⟩
    · rw [if_neg hroom]
      exact iff_of_true hnd fun h => absurd h hroom
  | exit status => exact iff_of_true hnd trivial
  | signal pid sig =>
    refine iff_of_true ?_ trivial
    dsimp only
    split
    · exact hnd.erase pid
    · exact hnd

theorem keepsPids_iff (hnd : s.pids.Nodup) (c : ProcCall) : KeepsPids s c ↔ FreshFork s c := by
  constructor
  · intro h
    exact (distinct_iff hnd c).mp h.distinct
  · intro h
    exact ⟨(distinct_iff hnd c).mpr h, fun pid sig _ hsig => removesOne hnd pid hsig⟩

/-- When the child's `ppid` is the pid of the caller. -/
theorem childOfParent_iff (hroom : s.processCount < maxProcesses) :
    ChildOfParent s ↔ s.currentProcess ≠ s.processCount ∧
      (s.processes s.currentProcess).pid ≠ s.processCount + 2 := by
  obtain ⟨hret, hprocs, -⟩ := sysFork_forked hroom
  rw [ChildOfParent]
  rw [hret, hprocs]
  constructor
  · rintro ⟨child, happ, -, hppid, hne⟩
    obtain rfl : s.forked = child := List.singleton_inj.mp (List.append_cancel_left happ)
    have hslot : s.currentProcess ≠ s.processCount := fun hslot => hne (if_pos hslot)
    refine ⟨hslot, fun hpid => hne ?_⟩
    rw [hppid, hpid]
    rfl
  · rintro ⟨hslot, hpid⟩
    have hppid : s.forked.ppid = (s.processes s.currentProcess).pid := if_neg hslot
    exact ⟨s.forked, rfl, rfl, hppid, hppid.trans_ne hpid⟩

/-- Where the numbers are distinct, a call respects them unless it is a fork
without a parent or with a number in use. -/
theorem identity_iff (hnd : s.pids.Nodup) (hcur : s.currentProcess = 0) (c : ProcCall) :
    Identity s c ↔ SafeFork s c := by
  constructor
  · intro h
    cases c with
    | fork =>
      intro hroom
      have hchild := (childOfParent_iff hroom).mp (h.child rfl hroom)
      rw [hcur] at hchild
      exact ⟨Ne.symm hchild.1, (keepsPids_iff hnd .fork).mp h.toKeepsPids hroom⟩
    | exit status => trivial
    | signal pid sig => trivial
  · intro h
    cases c with
    | fork =>
      refine ⟨(keepsPids_iff hnd .fork).mpr fun hroom => (h hroom).2, fun _ hroom => ?_⟩
      obtain ⟨hne, hfresh⟩ := h hroom
      rw [childOfParent_iff hroom, hcur]
      refine ⟨Ne.symm hne, fun hpid => hfresh ?_⟩
      -- slot 0 is in the table
      rw [← hpid]
      exact List.mem_map_of_mem (mem_table.mpr ⟨0, Nat.pos_of_ne_zero hne, rfl⟩)
    | exit status => exact ⟨(keepsPids_iff hnd _).mpr trivial, nofun⟩
    | signal pid sig => exact ⟨(keepsPids_iff hnd _).mpr trivial, nofun⟩

/-- From any table with distinct numbers: what one has to ask of the forks. -/
theorem guarded_identity_iff (hnd : s.pids.Nodup) (hcur : s.currentProcess = 0)
    (calls : List ProcCall) : Guarded procStep Identity s calls ↔ Guarded procStep SafeFork s calls := by
  refine guarded_iff (fun s => s.pids.Nodup ∧ s.currentProcess = 0) ?_ ?_ ⟨hnd, hcur⟩
  · intro s c _ hinv
    exact identity_iff hinv.1 hinv.2 c
  · intro s c _ hinv hgood
    exact ⟨hgood.distinct, (procStep_currentProcess s c).trans hinv.2⟩

/-- Nothing but a fork fills an empty table. -/
theorem procStep_empty (h : s.processCount = 0) {c : ProcCall} (hc : c ≠ .fork) :
    (procStep s c).processCount = 0 := by
  cases c with
  | fork => exact absurd rfl hc
  | exit status => exact h
  | signal pid sig =>
    show (sendSignal s pid sig).processCount = 0
    rw [sendSignal]
    rw [h]
    rfl

theorem safeFork_empty (h : s.processCount = 0) (c : ProcCall) : SafeFork s c ↔ c ≠ .fork := by
  cases c with
  | fork =>
    refine iff_of_false (fun hsafe => ?_) fun hne => hne rfl
    exact (hsafe (by rw [h]; decide)).1 h
  | exit status => exact iff_of_true trivial nofun
  | signal pid sig => exact iff_of_true trivial nofun

theorem distinct_boot (term : Terminal) : (boot term).pids.Nodup := List.nodup_nil

/-- So it is 0 for good. -/
theorem currentProcess_after (term : Terminal) (calls : List ProcCall) :
    (runOps procStep (boot term) calls).currentProcess = 0 := by
  induction calls using List.reverseRecOn with
  | nil => rfl
  | append_singleton calls c ih =>
    rw [runOps_snoc, procStep_currentProcess]
    exact ih

/-- **Who is who, from the empty table.** A run respects it throughout only if
nothing forks: the first process is its own parent. Its numbers stay distinct,
and each kill finds the one process it means, just when every fork is given a
number not in use. And the child a fork adds is its parent's just when there is
a parent and it has another number. -/
theorem processIdentity_iff (term : Terminal) (calls : List ProcCall) :
    (Guarded procStep Identity (boot term) calls ↔ ∀ c ∈ calls, c ≠ .fork) ∧
      (Guarded procStep KeepsPids (boot term) calls ↔
        Guarded procStep FreshFork (boot term) calls) ∧
      ∀ s, runOps procStep (boot term) calls = s → s.processCount < maxProcesses →
        (ChildOfParent s ↔ s.processCount ≠ 0 ∧ (s.processes 0).pid ≠ s.processCount + 2) := by
  refine ⟨?_, ?_, ?_⟩
  · calc Guarded procStep Identity (boot term) calls
        ↔ Guarded procStep SafeFork (boot term) calls := guarded_identity_iff (distinct_boot term) rfl calls
      _ ↔ Guarded procStep (fun _ c => c ≠ .fork) (boot term) calls :=
        guarded_iff (fun s => s.processCount = 0) (fun _ c _ h => safeFork_empty h c)
          (fun _ c _ h hsafe => procStep_empty h ((safeFork_empty h c).mp hsafe)) rfl
      _ ↔ ∀ c ∈ calls, c ≠ .fork := guarded_forall
  · exact guarded_iff (fun s => s.pids.Nodup) (fun _ c _ h => keepsPids_iff h c)
      (fun _ _ _ _ hgood => hgood.distinct) (distinct_boot term)
  · rintro s rfl hroom
    have hcur := currentProcess_after term calls
    rw [childOfParent_iff hroom, hcur]
    exact and_congr_left' ne_comm

/-- The first fork names itself as its parent; and after two forks, a kill of
the first process and another fork, two processes are number 3. -/
theorem not_identity_fork :
    ¬ Guarded procStep Identity (boot programImage.term) [.fork] ∧
      (runOps procStep (boot programImage.term)
        [.fork, .fork, .signal 2 sigkill, .fork]).pids = [3, 3] := by
  refine ⟨fun h => ?_, by decide⟩
  have hsafe := (identity_iff (distinct_boot programImage.term) rfl .fork).mp h.1
  exact (safeFork_empty rfl .fork).mp hsafe rfl

end ProcState

end Srunix
