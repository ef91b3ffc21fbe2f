import Srunix.Console.Echo
import Srunix.Kernel.Processes
import Srunix.Lib.Printf
import Srunix.Shell.Removal

/-!
# The calls of `terminal_printf` (`kernel/kernel.c`, `internet/internet.h`)

Most of what the commands say they say with `terminal_writestring`. Listed here,
command by command, are the calls of `terminal_printf` they reach, whose buffer
has 256 bytes. Four commands print a word of the line as it was typed, and for
these the words that fit are shorter than a line is; `kill` may be given a
number that `int_to_str` does not print. `printfs_safe_iff` puts this together.
-/

namespace Srunix

open Library

/-! ## The network device -/

/-- `struct net_device`, as far as the commands look at it. -/
structure NetDevice where
  mac : Nat → UInt8
  ip : Nat
  gateway : Nat
  netmask : Nat
  connected : Bool
  dhcpEnabled : Bool

/-- `network_init`: the device has its hardware address and nothing else. -/
def networkInit : NetDevice :=
  { mac := fun i => [0x52, 0x54, 0x00, 0x12, 0x34, 0x56].getD i 0
    ip := 0, gateway := 0, netmask := 0, connected := false, dhcpEnabled := true }

/-- `dhcp_discover`, which sends nothing and sets the same addresses each time. -/
def dhcpDiscover (net : NetDevice) : NetDevice :=
  { net with ip := 0xC0A80064, gateway := 0xC0A80001, netmask := 0xFFFFFF00, connected := true }

/-- The string in a `char` array with the bytes in front. -/
def arrayString (bytes : List UInt8) : CString :=
  ⟨bytes.takeWhile (· ≠ 0), nul_not_mem_takeWhile bytes⟩

/-- `ip_to_str`, as the string in its buffer. -/
def ipToStr (ip : Nat) : CString :=
  let octet (shift : Nat) : List UInt8 := intToStr (Int.ofNat (ip / 2 ^ shift % 256))
  arrayString (octet 24 ++ [0x2E] ++ octet 16 ++ [0x2E] ++ octet 8 ++ [0x2E] ++ octet 0)

/-- A hexadecimal digit, as `execute_ifconfig` writes it. -/
def macDigit (n : UInt8) : UInt8 := if n < 10 then 0x30 + n else 0x61 + (n - 10)

/-- `mac_str` of `execute_ifconfig`. -/
def macStr (mac : Nat → UInt8) : CString :=
  arrayString ((List.range 6).flatMap fun i =>
    macDigit (mac i >>> 4) :: macDigit (mac i &&& 0x0F) :: if i < 5 then [0x3A] else [])

/-! ## The calls, command by command -/

/-- The calls of `terminal_printf` in `execute_dhcpcd`. -/
def dhcpcdPrintfs (net : NetDevice) (interface : CString) : List PrintfCall :=
  if strcmp interface "eth0" ≠ 0 then [⟨"Interface %s not found\n", [.str interface]⟩]
  else
    let net := dhcpDiscover net
    ⟨"Starting DHCP on %s...\n", [.str interface]⟩ ::
      if net.connected then
        [⟨"Interface %s configured: %s\n", [.str interface, .str (ipToStr net.ip)]⟩]
      else []

/-- The calls of `terminal_printf` in `execute_ifconfig`. -/
def ifconfigPrintfs (net : NetDevice) : List PrintfCall :=
  if !net.dhcpEnabled then []
  else
    let addressStr (ip : Nat) : CString := if net.connected then ipToStr ip else "Not configured"
    [⟨"eth0:\n", []⟩,
      ⟨"  MAC:     %s\n", [.str (macStr net.mac)]⟩,
      ⟨"  IP:      %s\n", [.str (addressStr net.ip)]⟩,
      ⟨"  Gateway: %s\n", [.str (addressStr net.gateway)]⟩,
      ⟨"  Netmask: %s\n", [.str (addressStr net.netmask)]⟩,
      ⟨"  Status:  %s\n", [.str (if net.connected then "Connected" else "Disconnected")]⟩]

/-- The call of `terminal_printf` in `execute_ping`. -/
def pingPrintfs (net : NetDevice) (host : CString) : List PrintfCall :=
  if !net.connected then [] else [⟨"PING simulator %s\n", [.str host]⟩]

/-- What `execute_mkfile` and `execute_mkdir` say of a file they made. A name
too long for an entry does not get past `strncpy`. -/
def createPrintfs (format : CString) (type : UInt8) (s : KernelState) (filename : CString) :
    List PrintfCall :=
  if !isValidFilename filename then []
  else if fileExistsInCurrentDir s.fs filename then []
  else
    match entryName filename with
    | none => []
    | some name =>
      if (fsCreateFile s name s.fs.currentInode type).1 = fsSuccess then
        [⟨format, [.str filename]⟩]
      else []

/-- The calls of `terminal_printf` in `execute_mkfile`. -/
def mkfilePrintfs (s : KernelState) (filename : CString) : List PrintfCall :=
  createPrintfs "File '%s' created\n" fileRegular s filename

/-- The calls of `terminal_printf` in `execute_mkdir`. -/
def mkdirPrintfs (s : KernelState) (dirname : CString) : List PrintfCall :=
  createPrintfs "'%s' created\n" fileDir s dirname

/-- The message of `rm` and `cat` for a name that is not there. -/
def fileNotFound (name : CString) : PrintfCall := ⟨"File not found: %s\n", [.str name]⟩

/-- The call in `finishRm`. -/
def finishRmPrintfs (s : KernelState) (name : NamePtr) (i : Nat) : List PrintfCall :=
  let (r, s) := fsDeleteFile s (s.fs.files i).inode
  if r = fsSuccess then [⟨"'%s' deleted\n", [.str (name.deref s.fs)]⟩] else []

mutual

/-- The calls `executeRm` makes while its fuel lasts. -/
def rmPrintfs (fuel : Nat) (s : KernelState) (name : NamePtr) (recursive : Bool) :
    List PrintfCall :=
  match fuel with
  | 0 => []
  | fuel + 1 =>
    match findInCurrentDir s.fs (name.deref s.fs) with
    | none => [fileNotFound (name.deref s.fs)]
    | some i =>
      if (s.fs.files i).type = fileDir then
        if recursive then
          rmChildrenPrintfs fuel s (s.fs.files i).inode 0 ++
            match rmChildren fuel s (s.fs.files i).inode 0 with
            | none => []
            | some s => finishRmPrintfs s name i
        else []
      else finishRmPrintfs s name i

/-- The calls of `rmChildren`. -/
def rmChildrenPrintfs (fuel : Nat) (s : KernelState) (dirInode j : Nat) : List PrintfCall :=
  match fuel with
  | 0 => []
  | fuel + 1 =>
    if j < s.fs.fileCount then
      if (s.fs.files j).parentInode = dirInode then
        rmPrintfs fuel s (.entry j) true ++
          match executeRm fuel s (.entry j) true with
          | none => []
          | some s => rmChildrenPrintfs fuel s dirInode j
      else rmChildrenPrintfs fuel s dirInode (j + 1)
    else []

end

/-- The calls of `terminal_printf` in `execute_ps`, one for each process. -/
def psPrintfs (procs : ProcState) : List PrintfCall :=
  procs.procs.map fun p =>
    ⟨"%d\t%d\t%d\t%s\t%s\n",
      [.int (toInt p.pid), .int (toInt p.ppid), .int (toInt p.pgid),
        .str (if p.state = 0 then "RUN" else if p.state = 1 then "STOP" else "ZOMB"), .str p.name]⟩

/-- The calls of `terminal_printf` in `execute_jobs`, one for each process that leads
its group. -/
def jobsPrintfs (procs : ProcState) : List PrintfCall :=
  ((List.range procs.processCount).filter fun i =>
    (procs.processes i).pgid == (procs.processes i).pid).map fun (i : Nat) =>
      ⟨"[%d] %s %s\n",
        [.int (Int.ofNat i), .str (if (procs.processes i).state = 1 then "Stopped" else "Running"),
          .str (procs.processes i).name]⟩

/-- The loop of `atoi`; the sum wraps. -/
def atoiLoop (res : Int) : List UInt8 → Int
  | [] => res
  | c :: str =>
    if 0x30 ≤ c ∧ c ≤ 0x39 then atoiLoop ((res * 10 + ((c.toNat : Int) - 48)).bmod (2 ^ 32)) str
    else res

/-- `atoi`, whose result wraps at 32 bits. -/
def atoi (str : CString) : Int := atoiLoop 0 str.bytes

/-- The call in `send_signal`. -/
def killPrintfs (procs : ProcState) (pidStr : CString) : List PrintfCall :=
  let pid := (atoi pidStr % 2 ^ 32).toNat
  match firstIndex procs.processCount fun i => (procs.processes i).pid == pid with
  | some _ => []
  | none => [⟨"Process %d not found\n", [.int (toInt pid)]⟩]

/-- The call in `executeCat`. -/
def catPrintfs (fs : Bkfs) (filename : CString) : List PrintfCall :=
  match findRegular fs filename with
  | some _ => []
  | none => [fileNotFound filename]

/-- The message of `execute_cat_redirect` for a source it cannot read. -/
def sourceNotFound (sourceFile : CString) : PrintfCall :=
  ⟨"Source file not found or empty: %s\n", [.str sourceFile]⟩

/-- The calls of `executeCatRedirect`, with its `createWithContent`. -/
def catRedirectPrintfs (s : KernelState) (sourceFile destFile : CString) (append : Bool)
    (stack stack' : Nat → UInt8) : List PrintfCall :=
  match findRegular s.fs sourceFile with
  | none => [sourceNotFound sourceFile]
  | some i =>
    let source := readInto s.fs (s.fs.files i).inode stack
    let s : KernelState := { s with fs := source.fs }
    if source.bytesRead = 0 then [sourceNotFound sourceFile]
    else
      let sourceContent := stringAt source.content source.bytesRead
      match append, findRegular s.fs destFile with
      | true, some d =>
        let dest := readInto s.fs (s.fs.files d).inode stack'
        let new := newContent dest sourceContent
        if (writeText { s with fs := dest.fs } (s.fs.files d).inode new.str).1 = fsSuccess then
          [⟨"Content from %s appended to %s\n", [.str sourceFile, .str destFile]⟩]
        else []
      | false, some d =>
        if (writeText s (s.fs.files d).inode sourceContent).1 = fsSuccess then
          [⟨"Content from %s written to %s\n", [.str sourceFile, .str destFile]⟩]
        else []
      -- there is no such file yet, so it is created first
      | _, none =>
        match entryName destFile with
        | none => []
        | some dest =>
          let (r, s) := fsCreateFile s dest s.fs.currentInode fileRegular
          if r = fsSuccess then
            match findRegular s.fs destFile with
            | some i =>
              if (writeText s (s.fs.files i).inode sourceContent).1 = fsSuccess then
                [⟨"File %s created with content from %s\n", [.str destFile, .str sourceFile]⟩]
              else []
            | none => []
          else []

/-! ## The calls of a line -/

/-- The commands beside `cat` that get to `terminal_printf`. -/
inductive PrintfCommand where
  | uptime
  | dhcpcd (interface : CString)
  | ifconfig
  | ping (host : CString)
  | touch (filename : CString)
  | mkdir (dirname : CString)
  | rm (filename : CString) (recursive : Bool)
  | ps
  | jobs
  | kill (pidStr : CString)
  /-- All others, and those of these that lack an argument. -/
  | quiet

/-- The arguments of `rm`. -/
def rmCommand (args : List CString) : PrintfCommand :=
  if args.length > 1 then
    if strcmp (argAt args 1) "-rf" = 0 then
      if args.length > 2 then .rm (argAt args 2) true else .quiet
    else .rm (argAt args 1) false
  else .quiet

/-- The chain of comparisons, as far as it leads to `terminal_printf`. -/
def printfCommand (args : List CString) : PrintfCommand :=
  let arg (command : CString → PrintfCommand) : PrintfCommand :=
    if args.length > 1 then command (argAt args 1) else .quiet
  if strcmpCaseInsensitive (argAt args 0) "uptime" = 0 then .uptime
  else if strcmpCaseInsensitive (argAt args 0) "dhcpcd" = 0 then arg .dhcpcd
  else if strcmpCaseInsensitive (argAt args 0) "ifconfig" = 0 then .ifconfig
  else if strcmpCaseInsensitive (argAt args 0) "ping" = 0 then arg .ping
  else if strcmpCaseInsensitive (argAt args 0) "touch" = 0 then arg .touch
  else if strcmpCaseInsensitive (argAt args 0) "mkdir" = 0 then arg .mkdir
  else if strcmpCaseInsensitive (argAt args 0) "rm" = 0 then rmCommand args
  else if strcmpCaseInsensitive (argAt args 0) "ps" = 0 then .ps
  else if strcmpCaseInsensitive (argAt args 0) "jobs" = 0 then .jobs
  else if strcmpCaseInsensitive (argAt args 0) "kill" = 0 then
    if args.length ≥ 3 then .kill (argAt args 1) else .quiet
  else .quiet

/-- What the commands work on. -/
structure Machine where
  kernel : KernelState
  procs : ProcState
  net : NetDevice

/-- The calls of `terminal_printf` that a command comes to. -/
def commandPrintfs (m : Machine) (fuel : Nat) : PrintfCommand → List PrintfCall
  | .uptime => [⟨"Uptime: seconds\n", []⟩]
  | .dhcpcd interface => dhcpcdPrintfs m.net interface
  | .ifconfig => ifconfigPrintfs m.net
  | .ping host => pingPrintfs m.net host
  | .touch filename => mkfilePrintfs m.kernel filename
  | .mkdir dirname => mkdirPrintfs m.kernel dirname
  | .rm filename recursive => rmPrintfs fuel m.kernel (.buffer filename) recursive
  | .ps => psPrintfs m.procs
  | .jobs => jobsPrintfs m.procs
  | .kill pidStr => killPrintfs m.procs pidStr
  | .quiet => []

/-- The calls of `terminal_printf` that `execute_command(cmd)` reaches, those of
`rm` as far as its fuel goes. -/
def linePrintfs (m : Machine) (stack stack' : Nat → UInt8) (fuel : Nat) (cmd : CString) :
    List PrintfCall :=
  match parseCommand cmd with
  | .cat (some filename) => catPrintfs m.kernel.fs filename
  | .catRedirect sourceFile destFile append =>
    catRedirectPrintfs m.kernel sourceFile destFile append stack stack'
  | .other args => commandPrintfs m fuel (printfCommand args)
  | .empty | .redirectOutput .. | .appendOutput .. | .catRedirectUsage | .echo _ | .cat none => []

/-! ## The names of the entries -/

/-- A name an entry may have: it fits, and it is no redirection. -/
def StoredName (name : CString) : Prop := strlen name ≤ 30 ∧ isRedirect name = false

/-- Every name in `files[]`, used or not, is one that its field can hold. -/
def NamesOk (fs : Bkfs) : Prop := ∀ k, StoredName (fs.files k).name

/-- A name that is made fits its field. -/
theorem storedName_of_valid {name : Name} (h : isValidFilename name.str = true) :
    StoredName name.str := by
  refine ⟨name.fits, Bool.eq_false_iff.mpr fun hredirect => ?_⟩
  rcases isRedirect_iff.mp hredirect with heq | heq
  · rw [heq] at h
    exact absurd h (by decide)
  · rw [heq] at h
    exact absurd h (by decide)

/-- A removal moves entries and makes none. -/
theorem files_removeEntry (fs : Bkfs) (n k : Nat) :
    ∃ j, (removeEntry fs n).files k = fs.files j := by
  rcases entries_removeEntry fs n with ⟨i, -, -, -, heq⟩ | ⟨-, heq⟩
  · rw [heq]
    show ∃ j, shiftDown fs.files i (fs.fileCount - 1) k = fs.files j
    rw [shiftDown_apply]
    split
    · exact ⟨k + 1, rfl⟩
    · exact ⟨k, rfl⟩
  · rw [heq]
    exact ⟨k, rfl⟩

/-- A removal moves records and makes no new ones. -/
theorem files_fsDeleteFile (s : KernelState) (n k : Nat) :
    ∃ j, (fsDeleteFile s n).2.fs.files k = s.fs.files j := by
  rw [fsDeleteFile]
  split
  · exact ⟨k, rfl⟩
  dsimp only
  rw [ite_kernelPanic_fs]
  obtain ⟨used, free, hreleased⟩ :=
    releaseBlocks_frame s.fs (s.fs.inodes (n - 1)) (min (s.fs.inodes (n - 1)).blocks inodeDirectBlocks)
  rw [hreleased]
  obtain ⟨j, hj⟩ := files_removeEntry { s.fs with blockUsed := used, freeBlocks := free } n k
  refine ⟨j, ?_⟩
  rw [fsFreeInode]
  split
  · exact hj
  · exact hj

namespace NamesOk

variable {fs fs' : Bkfs}

/-- The step lemma of `NamesOk`. -/
theorem step (h : NamesOk fs) {c : FsCall} {r : Int} (hout : FsOutcome fs c r fs') : NamesOk fs' := by
  cases hout with
  | createRefused | writeRefused | deleteRefused | chdir | written | writeFailed => exact h
  | @created name parent type i href _ _ =>
    intro k
    by_cases hk : k = fs.fileCount
    · rw [hk, created_last]
      exact storedName_of_valid (not_createRefused_iff.mp href).1
    · show StoredName (Function.update fs.files fs.fileCount _ k).name
      rw [Function.update_of_ne hk]
      exact h k
  | @read n size buffer _ =>
    obtain ⟨inodes, heq, -⟩ := accessed_eq fs n
    rw [heq]
    exact h
  | @deleted n _ =>
    intro k
    obtain ⟨j, hj⟩ := files_removeEntry fs n k
    show StoredName ((removeEntry fs n).files k).name
    rw [hj]
    exact h j

theorem empty : NamesOk emptyFs := fun _ => ⟨Nat.zero_le 30, rfl⟩

theorem of_reachable {s : KernelState} (h : Reachable s) : NamesOk s.fs := by
  obtain ⟨calls, hrun⟩ := h
  have hboot : NamesOk kernelMain.fs :=
    kernelMain_invariant .empty fun hwf h => h.step (fsCall_outcome hwf _)
  exact (hrun.invariant hboot fun hwf hnames _ => hnames.step (fsCall_outcome hwf _)).2

theorem finishRm {s : KernelState} (h : NamesOk s.fs) (name : NamePtr) (i : Nat) :
    NamesOk (Srunix.finishRm s name i).fs := by
  intro k
  rw [finishRm_fs]
  obtain ⟨j, hj⟩ := files_fsDeleteFile s (s.fs.files i).inode k
  rw [hj]
  exact h j

/-- `rm` makes no new names. -/
theorem rm {task : RmTask} {s s' : KernelState} (hrun : RmRun task s s') (h : NamesOk s.fs) :
    NamesOk s'.fs := by
  induction hrun with
  | missing | refused | done => exact h
  | regular => exact h.finishRm _ _
  | dir hfind htype hchildren ih => exact (ih h).finishRm _ _
  | child hj hparent hcall hrest ihCall ihRest => exact ihRest (ihCall h)
  | other hj hparent hrest ih => exact ih h

end NamesOk

/-! ## The processes -/

/-- A process record as forks make it: small numbers and no name. -/
structure SmallProcess (p : Process) : Prop where
  pid_le : p.pid ≤ maxProcesses + 1
  ppid_le : p.ppid ≤ maxProcesses + 1
  pgid : p.pgid = 0
  name : p.name = .empty

theorem smallProcess_update {f : Nat → Process} (h : ∀ i, SmallProcess (f i)) {k : Nat} {p : Process}
    (hp : SmallProcess p) (i : Nat) : SmallProcess (Function.update f k p i) := by
  by_cases hi : i = k
  · rw [hi, Function.update_self]
    exact hp
  · rw [Function.update_of_ne hi]
    exact h i

/-- The processes are at most sixteen, and what `ps` prints of each is short. -/
structure ProcsOk (s : ProcState) : Prop where
  count_le : s.processCount ≤ maxProcesses
  small : ∀ i, SmallProcess (s.processes i)

namespace ProcsOk

variable {s : ProcState}

/-- A fork makes a process of small numbers. -/
theorem sysFork (h : ProcsOk s) : ProcsOk (Srunix.sysFork s).2 := by
  rw [Srunix.sysFork]
  by_cases hfull : s.processCount ≥ maxProcesses
  · rw [if_pos hfull]
    exact h
  rw [if_neg hfull]
  simp only [maxProcesses] at hfull
  have hpid : uint32 (s.processCount + 1 + 1) ≤ maxProcesses + 1 :=
    (Nat.mod_le _ _).trans (by simp only [maxProcesses]; omega)
  refine ⟨by simp only [maxProcesses]; omega, ?_⟩
  -- the copy, then its number, then its parent's
  have hcopy := fun i => smallProcess_update h.small (k := s.processCount) (h.small s.currentProcess) i
  have hnumber := fun i => smallProcess_update hcopy (k := s.processCount)
    (p := { Function.update s.processes s.processCount (s.processes s.currentProcess) s.processCount with
      pid := uint32 (s.processCount + 1 + 1) })
    ⟨hpid, (hcopy _).ppid_le, (hcopy _).pgid, (hcopy _).name⟩ i
  exact smallProcess_update hnumber
    ⟨(hnumber _).pid_le, (hnumber _).pid_le, (hnumber _).pgid, (hnumber _).name⟩

/-- A signal makes no new processes. -/
theorem sendSignal (h : ProcsOk s) (pid sig : Nat) : ProcsOk (Srunix.sendSignal s pid sig) := by
  rw [Srunix.sendSignal]
  cases firstIndex s.processCount fun i => (s.processes i).pid == pid with
  | none => exact ⟨h.count_le, h.small⟩
  | some i =>
    dsimp only
    split
    · refine ⟨(Nat.sub_le _ _).trans h.count_le, fun k => ?_⟩
      show SmallProcess (shiftDown s.processes i (s.processCount - 1) k)
      rw [shiftDown_apply]
      split
      · exact h.small _
      · exact h.small _
    have hi := h.small i
    split
    · exact ⟨h.count_le, smallProcess_update h.small ⟨hi.pid_le, hi.ppid_le, hi.pgid, hi.name⟩⟩
    split
    · exact ⟨h.count_le, smallProcess_update h.small ⟨hi.pid_le, hi.ppid_le, hi.pgid, hi.name⟩⟩
    · exact h

theorem step (h : ProcsOk s) (c : ProcCall) : ProcsOk (procStep s c) := by
  cases c with
  | fork => exact h.sysFork
  | exit status =>
    have hcur := h.small s.currentProcess
    exact ⟨h.count_le, smallProcess_update h.small ⟨hcur.pid_le, hcur.ppid_le, hcur.pgid, hcur.name⟩⟩
  | signal pid sig => exact h.sendSignal pid sig

/-- The run lemma of `ProcsOk`. -/
theorem of_run (term : Terminal) (calls : List ProcCall) :
    ProcsOk (runOps procStep (.boot term) calls) := by
  induction calls using List.reverseRecOn with
  | nil => exact ⟨Nat.zero_le _, fun _ => ⟨Nat.zero_le _, Nat.zero_le _, rfl, rfl⟩⟩
  | append_singleton calls c ih =>
    rw [runOps_snoc]
    exact ih.step c

end ProcsOk

/-- A state that file system calls and process calls can reach, with whatever
network device. -/
structure Machine.Reached (m : Machine) : Prop where
  kernel : ∃ s, Reachable s ∧ m.kernel.fs = s.fs
  procs : ∃ term calls, m.procs = runOps procStep (.boot term) calls

theorem Machine.Reached.namesOk {m : Machine} (h : m.Reached) : NamesOk m.kernel.fs := by
  obtain ⟨s, hs, hfs⟩ := h.kernel
  rw [hfs]
  exact .of_reachable hs

theorem Machine.Reached.procsOk {m : Machine} (h : m.Reached) : ProcsOk m.procs := by
  obtain ⟨term, calls, hprocs⟩ := h.procs
  rw [hprocs]
  exact .of_run term calls

/-! ## What fits -/

/-- 17 bytes of text, 238 of a name and a NUL are 256. -/
theorem fileNotFound_safe_iff (name : CString) : (fileNotFound name).Safe ↔ strlen name ≤ 238 :=
  PrintfCall.safe_str_iff "File not found: " "\n" rfl rfl (by decide) (by decide) rfl name

theorem interfaceNotFound_safe_iff (interface : CString) :
    PrintfCall.Safe ⟨"Interface %s not found\n", [.str interface]⟩ ↔ strlen interface ≤ 234 :=
  PrintfCall.safe_str_iff "Interface " " not found\n" rfl rfl (by decide) (by decide) rfl interface

theorem pingSimulator_safe_iff (host : CString) :
    PrintfCall.Safe ⟨"PING simulator %s\n", [.str host]⟩ ↔ strlen host ≤ 239 :=
  PrintfCall.safe_str_iff "PING simulator " "\n" rfl rfl (by decide) (by decide) rfl host

/-- A string that is no longer than 47 bytes, as all are but words of the line. -/
def ShortArg (arg : PrintfArg) : Prop := arg.Printable ∧ arg.render.length ≤ 47

theorem shortArg_str {str : CString} (h : strlen str ≤ 47) : ShortArg (.str str) := ⟨trivial, h⟩

theorem shortArg_ite {p : Prop} [Decidable p] {str str' : CString} (h : strlen str ≤ 47)
    (h' : strlen str' ≤ 47) : ShortArg (.str (if p then str else str')) := by
  split
  · exact shortArg_str h
  · exact shortArg_str h'

/-- The name of an entry. -/
theorem shortArg_name {name : CString} (h : strlen name ≤ 30) : ShortArg (.str name) :=
  shortArg_str (h.trans (by decide))

theorem shortArg_int {num : Int} (hlo : -2 ^ 31 < num) (hhi : num < 2 ^ 31) : ShortArg (.int num) :=
  ⟨⟨hlo, hhi⟩, (length_intToStr_le num).trans (by decide)⟩

theorem shortArg_toInt {n : Nat} (h : n < 2 ^ 31) : ShortArg (.int (toInt n)) := by
  rw [toInt_of_lt h]
  exact shortArg_int (by omega) (by omega)

theorem strlen_arrayString_le (bytes : List UInt8) : strlen (arrayString bytes) ≤ bytes.length :=
  (List.takeWhile_sublist _).length_le

/-- An address is short. -/
theorem strlen_ipToStr_le (ip : Nat) : strlen (ipToStr ip) ≤ 47 := by
  refine (strlen_arrayString_le _).trans ?_
  have hoctet := fun shift => length_intToStr_le (Int.ofNat (ip / 2 ^ shift % 256))
  have h₁ := hoctet 24
  have h₂ := hoctet 16
  have h₃ := hoctet 8
  have h₄ := hoctet 0
  simp only [List.length_append, List.length_singleton]
  omega

theorem strlen_macStr_le (mac : Nat → UInt8) : strlen (macStr mac) ≤ 47 := by
  refine (strlen_arrayString_le _).trans ?_
  rw [List.length_flatMap]
  exact of_decide_eq_true rfl

/-- Short arguments are safe in any format that is short enough. -/
theorem safe_of_shortArgs {format : CString} {args : List PrintfArg} (k : Nat)
    (hcount : args.length = k) (htyped : conversions format.bytes = args.map PrintfArg.letter)
    (hargs : ∀ arg ∈ args, ShortArg arg) (hroom : strlen format + k * 47 + 1 ≤ printfBufferSize) :
    PrintfCall.Safe ⟨format, args⟩ := by
  subst hcount
  exact PrintfCall.safe_of_short htyped hargs hroom

theorem safe_of_shortStr {format str : CString} (htyped : conversions format.bytes = [0x73])
    (hstr : ShortArg (.str str)) (hroom : strlen format + 1 * 47 + 1 ≤ printfBufferSize) :
    PrintfCall.Safe ⟨format, [.str str]⟩ :=
  safe_of_shortArgs 1 rfl htyped (List.forall_mem_singleton.mpr hstr) hroom

/-- `ifconfig` is always safe. -/
theorem ifconfigPrintfs_safe (net : NetDevice) : ∀ c ∈ ifconfigPrintfs net, c.Safe := by
  have haddress : ∀ ip, ShortArg (.str (if net.connected then ipToStr ip else "Not configured")) :=
    fun ip => shortArg_ite (strlen_ipToStr_le ip) (by decide)
  have hstatus : ShortArg (.str (if net.connected then "Connected" else "Disconnected")) :=
    shortArg_ite (by decide) (by decide)
  rw [ifconfigPrintfs]
  split
  · exact List.forall_mem_nil _
  · refine List.forall_mem_cons.mpr ⟨?_, List.forall_mem_cons.mpr ⟨?_, List.forall_mem_cons.mpr ⟨?_,
      List.forall_mem_cons.mpr ⟨?_, List.forall_mem_cons.mpr ⟨?_, List.forall_mem_singleton.mpr ?_⟩⟩⟩⟩⟩
    · exact safe_of_shortArgs 0 rfl rfl (List.forall_mem_nil _) (by decide)
    · exact safe_of_shortStr rfl (shortArg_str (strlen_macStr_le net.mac)) (by decide)
    · exact safe_of_shortStr rfl (haddress net.ip) (by decide)
    · exact safe_of_shortStr rfl (haddress net.gateway) (by decide)
    · exact safe_of_shortStr rfl (haddress net.netmask) (by decide)
    · exact safe_of_shortStr rfl hstatus (by decide)

/-- `dhcpcd` is safe for an interface of at most 234 bytes; the other branch prints a
short one. -/
theorem dhcpcdPrintfs_safe_iff (net : NetDevice) (interface : CString) :
    (∀ c ∈ dhcpcdPrintfs net interface, c.Safe) ↔ strlen interface ≤ 234 := by
  rw [dhcpcdPrintfs]
  by_cases hother : strcmp interface "eth0" ≠ 0
  · rw [if_pos hother, List.forall_mem_singleton]
    exact interfaceNotFound_safe_iff interface
  · rw [if_neg hother]
    obtain rfl : interface = "eth0" := strcmp_eq_zero_iff.mp (Classical.not_not.mp hother)
    have heth : ShortArg (.str "eth0") := shortArg_str (by decide)
    have hip : ShortArg (.str (ipToStr (dhcpDiscover net).ip)) := shortArg_str (strlen_ipToStr_le _)
    refine iff_of_true (List.forall_mem_cons.mpr ⟨?_, List.forall_mem_singleton.mpr ?_⟩) (by decide)
    · exact safe_of_shortStr rfl heth (by decide)
    · exact safe_of_shortArgs 2 rfl rfl
        (List.forall_mem_cons.mpr ⟨heth, List.forall_mem_singleton.mpr hip⟩) (by decide)

/-- `ping` prints its host only with a network. -/
theorem pingPrintfs_safe_iff (net : NetDevice) (host : CString) :
    (∀ c ∈ pingPrintfs net host, c.Safe) ↔ (net.connected = true → strlen host ≤ 239) := by
  rw [pingPrintfs]
  cases net.connected with
  | false => exact iff_of_true (List.forall_mem_nil _) (fun h => absurd h (by decide))
  | true =>
    show (∀ c ∈ [PrintfCall.mk "PING simulator %s\n" [.str host]], c.Safe) ↔ _
    rw [List.forall_mem_singleton, pingSimulator_safe_iff]
    exact ⟨fun h _ => h, fun h => h rfl⟩

/-- `touch` and `mkdir` print a name they have made, which is short. -/
theorem createPrintfs_safe {format : CString} (htyped : conversions format.bytes = [0x73])
    (hroom : strlen format + 1 * 47 + 1 ≤ printfBufferSize) (type : UInt8) (s : KernelState)
    (filename : CString) : ∀ c ∈ createPrintfs format type s filename, c.Safe := by
  have hnone : ∀ c ∈ ([] : List PrintfCall), c.Safe := List.forall_mem_nil _
  rw [createPrintfs]
  split
  · exact hnone
  split
  · exact hnone
  cases hname : entryName filename with
  | none => exact hnone
  | some name =>
    have hlen : strlen filename ≤ 30 := by
      rw [entryName] at hname
      split at hname
      · assumption
      · cases hname
    dsimp only
    split
    · rw [List.forall_mem_singleton]
      exact safe_of_shortStr htyped (shortArg_name hlen) hroom
    · exact hnone

/-- `ps` is always safe. -/
theorem psPrintfs_safe {procs : ProcState} (h : ProcsOk procs) : ∀ c ∈ psPrintfs procs, c.Safe := by
  intro c hc
  obtain ⟨p, hp, rfl⟩ := List.mem_map.mp hc
  obtain ⟨i, -, rfl⟩ := mem_table.mp hp
  obtain ⟨hpid, hppid, hpgid, hname⟩ := h.small i
  simp only [maxProcesses] at hpid hppid
  have hstate : ShortArg (.str (if (procs.processes i).state = 0 then "RUN"
      else if (procs.processes i).state = 1 then "STOP" else "ZOMB")) := by
    split
    · exact shortArg_str (by decide)
    · exact shortArg_ite (by decide) (by decide)
  refine safe_of_shortArgs 5 rfl rfl ?_ (by decide)
  refine List.forall_mem_cons.mpr ⟨shortArg_toInt (by omega), List.forall_mem_cons.mpr
    ⟨shortArg_toInt (by omega), List.forall_mem_cons.mpr ⟨shortArg_toInt (by omega),
      List.forall_mem_cons.mpr ⟨hstate, List.forall_mem_singleton.mpr ?_⟩⟩⟩⟩
  rw [hname]
  exact shortArg_str (by decide)

/-- `jobs` is always safe. -/
theorem jobsPrintfs_safe {procs : ProcState} (h : ProcsOk procs) :
    ∀ c ∈ jobsPrintfs procs, c.Safe := by
  intro c hc
  obtain ⟨i, hi, rfl⟩ := List.mem_map.mp hc
  have hlt : i < procs.processCount := List.mem_range.mp (List.mem_filter.mp hi).1
  have hcount := h.count_le
  simp only [maxProcesses] at hcount
  have hstate : ShortArg (.str (if (procs.processes i).state = 1 then "Stopped" else "Running")) :=
    shortArg_ite (by decide) (by decide)
  have hindex : -2 ^ 31 < Int.ofNat i ∧ Int.ofNat i < 2 ^ 31 := by
    show -2 ^ 31 < (i : Int) ∧ (i : Int) < 2 ^ 31
    omega
  refine safe_of_shortArgs 3 rfl rfl ?_ (by decide)
  refine List.forall_mem_cons.mpr ⟨shortArg_int hindex.1 hindex.2, List.forall_mem_cons.mpr
    ⟨hstate, List.forall_mem_singleton.mpr ?_⟩⟩
  rw [(h.small i).name]
  exact shortArg_str (by decide)

/-- What `atoi` returns is an `int`. -/
theorem atoi_range (str : CString) : -2 ^ 31 ≤ atoi str ∧ atoi str < 2 ^ 31 := by
  have hloop : ∀ (l : List UInt8) (res : Int), -2 ^ 31 ≤ res → res < 2 ^ 31 →
      -2 ^ 31 ≤ atoiLoop res l ∧ atoiLoop res l < 2 ^ 31 := by
    intro l
    induction l with
    | nil => exact fun res hlo hhi => ⟨hlo, hhi⟩
    | cons c l ih =>
      intro res hlo hhi
      rw [atoiLoop]
      split
      · exact ih _ (Int.le_bmod (by decide)) (Int.bmod_lt (by decide))
      · exact ⟨hlo, hhi⟩
  exact hloop str.bytes 0 (by decide) (by decide)

theorem toInt_atoi (str : CString) : toInt (atoi str % 2 ^ 32).toNat = atoi str := by
  obtain ⟨hlo, hhi⟩ := atoi_range str
  have hnonneg : 0 ≤ atoi str % 2 ^ 32 := by omega
  unfold toInt
  rw [Int.toNat_of_nonneg hnonneg, Int.bmod_def]
  omega

/-- Only the least `int` is not printed as it should. -/
theorem processNotFound_safe_iff {num : Int} (hlo : -2 ^ 31 ≤ num) (hhi : num < 2 ^ 31) :
    PrintfCall.Safe ⟨"Process %d not found\n", [.int num]⟩ ↔ num ≠ -2 ^ 31 := by
  constructor
  · rintro hsafe rfl
    have hgarbled := hsafe.printed
    revert hgarbled
    decide +kernel
  · intro hne
    have hnum : ShortArg (.int num) := shortArg_int (by omega) hhi
    exact safe_of_shortArgs 1 rfl rfl (List.forall_mem_singleton.mpr hnum) (by decide)

/-- No process has a number as large as the one that does not print. -/
theorem killPrintfs_safe_iff {procs : ProcState} (h : ProcsOk procs) (pidStr : CString) :
    (∀ c ∈ killPrintfs procs pidStr, c.Safe) ↔ atoi pidStr ≠ -2 ^ 31 := by
  obtain ⟨hlo, hhi⟩ := atoi_range pidStr
  rw [killPrintfs]
  cases hscan : firstIndex procs.processCount fun i =>
      (procs.processes i).pid == (atoi pidStr % 2 ^ 32).toNat with
  | none =>
    dsimp only
    rw [List.forall_mem_singleton, toInt_atoi]
    exact processNotFound_safe_iff hlo hhi
  | some i =>
    refine iff_of_true (List.forall_mem_nil _) fun hleast => ?_
    obtain ⟨-, hpid, -⟩ := firstIndex_eq_some_iff.mp hscan
    have hpid : (procs.processes i).pid = (atoi pidStr % 2 ^ 32).toNat := by simpa using hpid
    have hle := (h.small i).pid_le
    rw [hpid, hleast] at hle
    exact absurd hle (by decide)

/-- `cat` prints its word only if there is no such file; a name that is there is short
anyway. -/
theorem catPrintfs_safe_iff {fs : Bkfs} (h : NamesOk fs) (filename : CString) :
    (∀ c ∈ catPrintfs fs filename, c.Safe) ↔ strlen filename ≤ 238 := by
  rw [catPrintfs]
  cases hfind : findRegular fs filename with
  | some i =>
    obtain ⟨-, hmatch, -⟩ := firstIndex_eq_some_iff.mp hfind
    simp only [Bool.and_eq_true, beq_iff_eq, strcmp_eq_zero_iff] at hmatch
    have hlen : strlen filename ≤ 30 := hmatch.1.2 ▸ (h i).1
    exact iff_of_true (List.forall_mem_nil _) (hlen.trans (by decide))
  | none =>
    show (∀ c ∈ [fileNotFound filename], c.Safe) ↔ _
    rw [List.forall_mem_singleton, fileNotFound_safe_iff]

/-- No file is called as the redirections are. -/
theorem catRedirectPrintfs_safe {s : KernelState} (h : NamesOk s.fs) {sourceFile : CString}
    (hsource : isRedirect sourceFile = true) (destFile : CString) (append : Bool)
    (stack stack' : Nat → UInt8) :
    ∀ c ∈ catRedirectPrintfs s sourceFile destFile append stack stack', c.Safe := by
  have hnone : findRegular s.fs sourceFile = none := by
    refine firstIndex_eq_none_iff.mpr fun i _ => ?_
    have hne : (s.fs.files i).name ≠ sourceFile := by
      rintro rfl
      rw [(h i).2] at hsource
      cases hsource
    have hcmp : (strcmp (s.fs.files i).name sourceFile == 0) = false :=
      beq_eq_false_iff_ne.mpr fun heq => hne (strcmp_eq_zero_iff.mp heq)
    rw [hcmp, Bool.and_false, Bool.false_and]
  rw [catRedirectPrintfs, hnone]
  show ∀ c ∈ [sourceNotFound sourceFile], c.Safe
  rw [List.forall_mem_singleton]
  rcases isRedirect_iff.mp hsource with rfl | rfl
  · exact safe_of_shortStr rfl (shortArg_str (by decide)) (by decide)
  · exact safe_of_shortStr rfl (shortArg_str (by decide)) (by decide)

/-- What is behind the pointer stays short, whatever is removed. -/
def ShortPtr (name : NamePtr) : Prop := ∀ {fs : Bkfs}, NamesOk fs → strlen (name.deref fs) ≤ 30

theorem shortPtr_entry (j : Nat) : ShortPtr (.entry j) := fun h => (h j).1

/-- What `rm` prints of a file it has removed, which may be the name of another one by
then. -/
theorem finishRmPrintfs_safe {s : KernelState} (h : NamesOk s.fs) {name : NamePtr}
    (hname : ShortPtr name) (i : Nat) : ∀ c ∈ finishRmPrintfs s name i, c.Safe := by
  have hdeleted : NamesOk (fsDeleteFile s (s.fs.files i).inode).2.fs := by
    rw [← finishRm_fs s name i]
    exact h.finishRm name i
  rw [finishRmPrintfs]
  dsimp only
  split
  · rw [List.forall_mem_singleton]
    exact safe_of_shortStr rfl (shortArg_name (hname hdeleted)) (by decide)
  · exact List.forall_mem_nil _

/-- The names `rm -rf` goes through are those of entries. -/
theorem rmPrintfs_safe (fuel : Nat) :
    (∀ s name recursive, NamesOk s.fs → ShortPtr name →
      ∀ c ∈ rmPrintfs fuel s name recursive, c.Safe) ∧
    (∀ s dirInode j, NamesOk s.fs → ∀ c ∈ rmChildrenPrintfs fuel s dirInode j, c.Safe) := by
  have hnone : ∀ c ∈ ([] : List PrintfCall), c.Safe := List.forall_mem_nil _
  -- both calls at once, by induction on the fuel
  induction fuel with
  | zero =>
    refine ⟨fun s name recursive _ _ => ?_, fun s dirInode j _ => ?_⟩
    · rw [rmPrintfs]
      exact hnone
    · rw [rmChildrenPrintfs]
      exact hnone
  | succ fuel ih =>
    obtain ⟨ihCall, ihChildren⟩ := ih
    refine ⟨fun s name recursive h hname => ?_, fun s dirInode j h => ?_⟩
    · rw [rmPrintfs]
      cases findInCurrentDir s.fs (name.deref s.fs) with
      | none =>
        show ∀ c ∈ [fileNotFound (name.deref s.fs)], c.Safe
        rw [List.forall_mem_singleton]
        exact (fileNotFound_safe_iff _).mpr ((hname h).trans (by decide))
      | some i =>
        dsimp only
        split
        · split
          -- the names of the children are those of entries, at any point of the removal
          · refine List.forall_mem_append.mpr ⟨ihChildren s _ 0 h, ?_⟩
            cases hrest : rmChildren fuel s (s.fs.files i).inode 0 with
            | none => exact hnone
            | some s₁ =>
              exact finishRmPrintfs_safe (h.rm ((rmRun_of_fuel fuel).2 _ _ _ _ hrest)) hname i
          · exact hnone
        · exact finishRmPrintfs_safe h hname i
    · rw [rmChildrenPrintfs]
      split
      · split
        · refine List.forall_mem_append.mpr ⟨ihCall s (.entry j) true h (shortPtr_entry j), ?_⟩
          cases hcall : executeRm fuel s (.entry j) true with
          | none => exact hnone
          | some s₁ => exact ihChildren s₁ dirInode j (h.rm (rmRun_of_executeRm hcall))
        · exact ihChildren s dirInode (j + 1) h
      · exact hnone

/-- All that `rm` prints on the way, for every depth of its calls. -/
theorem rmCommand_safe_iff {s : KernelState} (h : NamesOk s.fs) (filename : CString)
    (recursive : Bool) :
    (∀ fuel, ∀ c ∈ rmPrintfs fuel s (.buffer filename) recursive, c.Safe) ↔
      strlen filename ≤ 238 := by
  cases hfind : findInCurrentDir s.fs filename with
  | some i =>
    obtain ⟨-, ⟨-, hname⟩, -⟩ := findInCurrentDir_eq_some_iff.mp hfind
    have hlen : strlen filename ≤ 30 := hname ▸ (h i).1
    exact iff_of_true (fun fuel => (rmPrintfs_safe fuel).1 s _ recursive h fun _ => hlen)
      (hlen.trans (by decide))
  | none =>
    have hcalls : ∀ fuel, rmPrintfs (fuel + 1) s (.buffer filename) recursive
        = [fileNotFound filename] := by
      intro fuel
      have hderef : findInCurrentDir s.fs (NamePtr.deref s.fs (.buffer filename)) = none := hfind
      rw [rmPrintfs, hderef]
      rfl
    -- it is the name that is missing, so the message is all there is
    rw [← fileNotFound_safe_iff]
    constructor
    · intro hsafe
      exact hsafe 1 _ (by rw [hcalls]; exact List.mem_singleton_self _)
    · intro hsafe fuel
      cases fuel with
      | zero =>
        rw [rmPrintfs]
        exact List.forall_mem_nil _
      | succ fuel =>
        rw [hcalls, List.forall_mem_singleton]
        exact hsafe

/-! ## The source of a redirected `cat` -/

theorem isRedirect_argAt {args : List CString} {pos : Nat} (h : redirectPos args = some pos) :
    isRedirect (argAt args pos) = true := by
  rw [redirectPos] at h
  obtain ⟨i, hscan, rfl⟩ := Option.map_eq_some_iff.mp h
  cases args with
  | nil => cases hscan
  | cons arg args =>
    rw [List.drop_succ_cons, List.drop_zero] at hscan
    obtain ⟨hi, hredirect, -⟩ := List.findIdx?_eq_some_iff_getElem.mp hscan
    have harg : argAt (arg :: args) (i + 1) = args[i] := by
      rw [argAt, List.getD_eq_getElem?_getD, List.getElem?_cons_succ, List.getElem?_eq_getElem hi]
      rfl
    rw [harg]
    exact hredirect

/-- A redirection of `cat` is found before. -/
theorem plainCommand_ne_catRedirect (cmd : CString) (args : List CString)
    {sourceFile destFile : CString} {append : Bool} :
    plainCommand cmd args ≠ .catRedirect sourceFile destFile append := by
  rw [plainCommand]
  split
  · exact Command.noConfusion
  split
  · exact Command.noConfusion
  · exact Command.noConfusion

/-- The source is taken to be the word behind `cat`, and that is the redirection. -/
theorem isRedirect_of_catRedirect {cmd sourceFile destFile : CString} {append : Bool}
    (h : parseCommand cmd = .catRedirect sourceFile destFile append) :
    isRedirect sourceFile = true := by
  by_cases hempty : tokens (foldCase cmd) = []
  · rw [parseCommand, hempty] at h
    cases h
  -- only a redirection in front of the last word can lead there
  by_cases hredirect : ∃ pos, redirectPos (tokens (foldCase cmd)) = some pos ∧
      pos < (tokens (foldCase cmd)).length - 1
  · obtain ⟨pos, hpos, hlt⟩ := hredirect
    rw [parseCommand_redirect rfl hpos hlt] at h
    split at h
    · split at h
      · cases h
      · cases h
    split at h
    · split at h
      -- the source of the command is the redirection itself, the word at `redirect_pos`
      · obtain ⟨rfl, -⟩ := ‹pos = 1 ∧ _›
        cases h
        exact isRedirect_argAt hpos
      · cases h
    · exact absurd h (plainCommand_ne_catRedirect _ _)
  · rw [parseCommand_plain rfl hempty fun pos hpos =>
      Nat.not_lt.mp fun hlt => hredirect ⟨pos, hpos, hlt⟩] at h
    exact absurd h (plainCommand_ne_catRedirect _ _)

/-! ## The lines whose calls are safe -/

/-- The words that are printed as they were typed leave room for the rest, and
`kill` is not given the least `int`. -/
def CommandSafe (m : Machine) : PrintfCommand → Prop
  | .dhcpcd interface => strlen interface ≤ 234
  | .ping host => m.net.connected = true → strlen host ≤ 239
  | .rm filename _ => strlen filename ≤ 238
  | .kill pidStr => atoi pidStr ≠ -2 ^ 31
  | _ => True

/-- The words of the line are short enough for the 256 bytes of `terminal_printf`, and
the number of `kill` is one that `int_to_str` can negate. -/
def LineSafe (m : Machine) (cmd : CString) : Prop :=
  match parseCommand cmd with
  | .cat (some filename) => strlen filename ≤ 238
  | .other args => CommandSafe m (printfCommand args)
  | _ => True

/-- The commands, one by one. -/
theorem commandPrintfs_safe_iff {m : Machine} (h : m.Reached) (command : PrintfCommand) :
    (∀ fuel, ∀ c ∈ commandPrintfs m fuel command, c.Safe) ↔ CommandSafe m command := by
  cases command with
  | uptime =>
    refine iff_of_true (fun fuel => List.forall_mem_singleton.mpr ?_) trivial
    exact safe_of_shortArgs 0 rfl rfl (List.forall_mem_nil _) (by decide)
  | dhcpcd interface => exact (forall_const Nat).trans (dhcpcdPrintfs_safe_iff m.net interface)
  | ifconfig => exact iff_of_true (fun _ => ifconfigPrintfs_safe m.net) trivial
  | ping host => exact (forall_const Nat).trans (pingPrintfs_safe_iff m.net host)
  | touch filename =>
    exact iff_of_true (fun _ => createPrintfs_safe rfl (by decide) fileRegular m.kernel filename) trivial
  | mkdir dirname =>
    exact iff_of_true (fun _ => createPrintfs_safe rfl (by decide) fileDir m.kernel dirname) trivial
  | rm filename recursive => exact rmCommand_safe_iff h.namesOk filename recursive
  | ps => exact iff_of_true (fun _ => psPrintfs_safe h.procsOk) trivial
  | jobs => exact iff_of_true (fun _ => jobsPrintfs_safe h.procsOk) trivial
  | kill pidStr => exact (forall_const Nat).trans (killPrintfs_safe_iff h.procsOk pidStr)
  | quiet => exact iff_of_true (fun _ => List.forall_mem_nil _) trivial

/-- **Which lines keep `terminal_printf` inside its buffer.** Whatever the state,
these are the lines whose every call leaves room for the NUL and prints the
expansion of its format. -/
theorem printfs_safe_iff {m : Machine} (h : m.Reached) (cmd : CString) :
    (∀ stack stack' fuel, ∀ c ∈ linePrintfs m stack stack' fuel cmd, c.Safe) ↔ LineSafe m cmd := by
  have hstack : Nonempty (Nat → UInt8) := ⟨fun _ => 0⟩
  unfold linePrintfs LineSafe
  cases hcmd : parseCommand cmd with
  | empty | redirectOutput | appendOutput | catRedirectUsage | echo =>
    exact iff_of_true (fun _ _ _ => List.forall_mem_nil _) trivial
  | catRedirect sourceFile destFile append =>
    refine iff_of_true (fun stack stack' _ => ?_) trivial
    exact catRedirectPrintfs_safe h.namesOk (isRedirect_of_catRedirect hcmd) destFile append stack stack'
  | cat filename =>
    cases filename with
    | none => exact iff_of_true (fun _ _ _ => List.forall_mem_nil _) trivial
    | some filename =>
      simp only [forall_const]
      exact catPrintfs_safe_iff h.namesOk filename
  | other args =>
    simp only [forall_const]
    exact commandPrintfs_safe_iff h (printfCommand args)

/-- The machine after `kernel_main`. -/
def bootMachine : Machine := ⟨kernelMain, .boot kernelMain.term, networkInit⟩

theorem bootMachine_reached : bootMachine.Reached :=
  ⟨⟨kernelMain, reachable_kernelMain, rfl⟩, ⟨kernelMain.term, [], rfl⟩⟩

/-- The name `readme`. -/
def wordReadme : Word := ⟨"readme", by decide, by decide⟩

theorem printfs_safe_readme : LineSafe bootMachine (catLine wordReadme) ∧
    ∀ stack stack' fuel, ∀ c ∈ linePrintfs bootMachine stack stack' fuel (catLine wordReadme),
      c.Safe := by
  have hsafe : LineSafe bootMachine (catLine wordReadme) := by
    rw [LineSafe]
    rw [parseCommand_catLine]
    exact Nat.le_of_ble_eq_true rfl
  exact ⟨hsafe, (printfs_safe_iff bootMachine_reached _).mpr hsafe⟩

/-- The longest word that fits on a line behind `cat`. -/
def wordLong : Word where
  str := ⟨List.replicate 250 0x61, fun h => absurd (List.eq_of_mem_replicate h) (by decide)⟩
  nonempty := by decide
  blankFree := fun h => absurd (List.eq_of_mem_replicate h) (by decide)

/-- `cat` of a file with a name of 250 letters, which is not there, writes 268
bytes into the buffer of 256. -/
theorem not_printfs_safe_long :
    ¬ ∀ m : Machine, m.Reached → ∀ cmd, strlen cmd ≤ maxCmdLen - 2 → ∀ stack stack' fuel,
      ∀ c ∈ linePrintfs m stack stack' fuel cmd, c.Safe := by
  intro h
  have hlen : strlen (catLine wordLong) ≤ maxCmdLen - 2 := by decide +kernel
  have hline := h bootMachine bootMachine_reached _ hlen (fun _ => 0) (fun _ => 0) 0
  rw [linePrintfs] at hline
  rw [parseCommand_catLine] at hline
  have hshort := (catPrintfs_safe_iff bootMachine_reached.namesOk _).mp hline
  rw [strlen_foldCase, show strlen wordLong.str = 250 from List.length_replicate] at hshort
  exact absurd hshort (by decide)

end Srunix
