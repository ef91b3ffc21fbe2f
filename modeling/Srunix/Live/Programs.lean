import Mathlib.Data.List.DropRight
import Mathlib.Tactic.FinCases
import Srunix.Console.Kill

/-!
# The programs of the shell (`kernel.c`, `bin/*.h`)

Most commands only print. Each is here the list of its calls on the terminal,
as a function of what it reads: the files, the processes, the network device or
the hardware. `Invocation` is the chain of comparisons of `execute_command`
after `echo`, `cat` and the redirections, with the arguments each branch takes.
-/

namespace Srunix

open Library

/-- `COLOR_GREEN`. -/
abbrev colorGreen : UInt8 := 0x2
/-- `COLOR_BRIGHT_GREEN`. -/
abbrev colorBrightGreen : UInt8 := 0xA
/-- `COLOR_YELLOW`. -/
abbrev colorYellow : UInt8 := 0xE

/-! ## Calls on the terminal -/

/-- What a program that only prints asks of the terminal. -/
inductive Out where
  | call (c : TermCall)
  | setcolor (fg bg : UInt8)
  | clear

namespace Out

/-- What it does to the terminal. -/
def run (s : KernelState) : Out → KernelState
  | .call c => { s with term := c.run s.term }
  | .setcolor fg bg => s.setcolor fg bg
  | .clear => { s with term := terminalClear s.term }

/-- A string, through `terminal_writestring`. -/
abbrev text (data : CString) : Out := .call (.writestring data)

/-- A call of `terminal_printf`. -/
abbrev printf (c : PrintfCall) : Out := .call (.printf c.format c.args)

end Out

/-- One after the other. -/
def KernelState.prints (s : KernelState) (outs : List Out) : KernelState := outs.foldl Out.run s

/-! ## What the hardware tells -/

/-- The registers `execute_date` and `execute_time` read: seconds, minutes,
hours, day, month, year. -/
def clockRegs : List UInt8 := [0x00, 0x02, 0x04, 0x07, 0x08, 0x09]

/-- What the kernel finds outside its own variables while it handles one key.
The clock counts in binary-coded decimal. -/
structure Hardware where
  cmos : UInt8 → UInt8
  bcd : ∀ reg ∈ clockRegs, cmos reg &&& 0x0F ≤ 9 ∧ cmos reg >>> 4 ≤ 9
  /-- The brand string of `cpuid`, 48 bytes. -/
  brand : List UInt8
  brand_length : brand.length = 48
  /-- What lies in `sec_str` of `execute_uptime`, which nothing writes. -/
  secStr : CString
  /-- What lies in the arrays the file commands read into. -/
  stack : Nat → UInt8
  stack' : Nat → UInt8

/-- Zeros are digits. -/
theorem bcd_zero : ∀ reg ∈ clockRegs, (0 : UInt8) &&& 0x0F ≤ 9 ∧ (0 : UInt8) >>> 4 ≤ 9 := by
  intro reg _
  decide

theorem length_noBrand : (List.replicate 48 (0 : UInt8)).length = 48 := List.length_replicate

/-- A machine whose memory and clock show zeros. -/
def Hardware.still : Hardware where
  cmos := fun _ => 0
  bcd := bcd_zero
  brand := List.replicate 48 0
  brand_length := length_noBrand
  secStr := ""
  stack := fun _ => 0
  stack' := fun _ => 0

/-- `bcd_to_bin`, as a number that fits its `uint8_t`. -/
def bcdToBin (bcd : UInt8) : Nat := (bcd &&& 0x0F).toNat + (bcd >>> 4).toNat * 10

/-- `int_to_str` of a clock register, into an array of three. -/
def Hardware.clockStr (hw : Hardware) (reg : UInt8) : CString := decimal (bcdToBin (hw.cmos reg))

/-- The scan to the first character that is no blank moves only the local
pointer, so what is printed keeps the blanks in front. -/
def getCpuName (brand : List UInt8) : CString :=
  let name := arrayString brand
  let front := name.bytes.takeWhile (· = 0x20)
  let rest := name.bytes.dropWhile (· = 0x20)
  arrayString (front ++ rest.rdropWhile (· = 0x20))

/-! ## The programs -/

/-- `execute_date`: the registers of the clock, each through an array of three. -/
def executeDate (hw : Hardware) : List Out :=
  [.text "", .text (hw.clockStr 0x07), .text "/", .text (hw.clockStr 0x08), .text "/",
    .text (decimal (bcdToBin (hw.cmos 0x09) + 2000)), .text " ", .text (hw.clockStr 0x04),
    .text ":", .text (hw.clockStr 0x02), .text ":", .text (hw.clockStr 0x00), .text "\n"]

/-- `execute_time`. -/
def executeTime (hw : Hardware) : List Out :=
  [.text "", .text (hw.clockStr 0x04), .text ":", .text (hw.clockStr 0x02), .text ":",
    .text (hw.clockStr 0x00), .text "\n"]

/-- `execute_whoami`. -/
def executeWhoami : List Out := [.text "root\n"]

/-- `execute_uptime`. What it prints for the seconds is a local array nothing was stored in. -/
def executeUptime (hw : Hardware) : List Out :=
  [.text "", .text hw.secStr, .text " seconds\n", .printf ⟨"Uptime: seconds\n", []⟩]

/-- `execute_ver`. -/
def executeVer : List Out :=
  [.setcolor colorGreen colorBlack, .text "Srunix86 LiveCD x86_64 v0.0.5-1\n"]

/-- `execute_cls`. -/
def executeCls : List Out := [.clear]

/-- `TOTAL_MEMORY_KB`. -/
abbrev totalMemoryKb : Nat := 640
/-- Nothing ever moves it. -/
abbrev nextNodeAddr : Nat := 0x100000
/-- The memory in use, as `get_memory_info` and `execute_memory` compute it. -/
def usedMemoryKb : Nat := (nextNodeAddr - 0x100000) / 1024

/-- `execute_memory`. -/
def executeMemory : List Out :=
  [.text "", .text "total: ", .text (decimal totalMemoryKb), .text " KB\n",
    .text "used:  ", .text (decimal usedMemoryKb), .text " KB\n",
    .text "free:  ", .text (decimal (totalMemoryKb - usedMemoryKb)), .text " KB\n"]

/-- A line of `execute_disk`. -/
structure Disk where
  name : CString
  totalBytes : Nat
  freeBytes : Nat

/-- The two disks `execute_disk` has in its source. -/
def disks : List Disk :=
  [⟨"sda", 500 * 1024 * 1024, 250 * 1024 * 1024⟩, ⟨"sdb", 1024 * 1024 * 1024, 768 * 1024 * 1024⟩]

/-- What it prints of one. -/
def diskOutput (disk : Disk) : List Out :=
  let megabytes (bytes : Nat) : CString := decimal (Int.ofNat (bytes / (1024 * 1024)))
  [.text disk.name, .text ":",
    .text "  Total: ", .text (megabytes disk.totalBytes), .text " MB\n",
    .text "  Used:  ", .text (megabytes (disk.totalBytes - disk.freeBytes)), .text " MB\n",
    .text "  Free:  ", .text (megabytes disk.freeBytes), .text " MB\n"]

/-- `execute_disk`. -/
def executeDisk : List Out :=
  [.text "", .text " \n"] ++ [.text "\n"].intercalate (disks.map diskOutput)

/-- One entry of `execute_ls`. -/
def lsEntry (e : File) : List Out :=
  [.text e.name, .text (if e.type = fileDir then "/ " else "  ")]

/-- `execute_ls`, which goes through all of `files[]` up to `file_count`. -/
def executeLs (fs : Bkfs) : List Out :=
  .text "" ::
    ((entries fs).filter fun e => e.parentInode == fs.currentInode).flatMap lsEntry ++ [.text "\n"]

/-- A line of `execute_fetch` with its label in yellow. -/
def fetchLine (label : CString) (values : List CString) : List Out :=
  [.setcolor colorYellow colorBlack, .text label, .setcolor colorWhite colorBlack] ++
    values.map .text

/-- `execute_fetch`: the picture on the left and the machine on the right. -/
def executeFetch (hw : Hardware) (currentTty : Nat) : List Out :=
  [.setcolor colorBrightGreen colorBlack, .text "              srunix@(unknown)\n",
    .setcolor colorWhite colorBlack, .text "              ----------- \n"] ++
  fetchLine "  ___ ___     OS:" [" Srunix86 v0.0.5-1 amd64\n"] ++
  fetchLine " / __| _ |    Host:" [" PC x86_64\n"] ++
  fetchLine " |__ |   /    Kernel:" [" Srunix Kernel 0.0.5-1\n"] ++
  fetchLine " |___/_|_| _  License:" [" BSD license\n"] ++
  fetchLine " | | | | || | Packages:" [" - \n"] ++
  fetchLine " | |_| | .\x60 | Shell:" [" ush 6.0-02\n"] ++
  fetchLine "  |___/|_|._| Resolution: " ["1920x1080", "\n"] ++
  fetchLine " |_ _| || /   Terminal: " ["/dev/tty", decimal (currentTty + 1), "\n"] ++
  fetchLine "  | | >  <    CPU: " [getCpuName hw.brand, "\n"] ++
  fetchLine " |___/_/|_|   GPU: " ["VGA (text mode)\n"] ++
  fetchLine "              Memory: " [decimal usedMemoryKb, " KB / ", decimal totalMemoryKb, " KB\n"]

/-- `execute_help`, with its two pages and the message for all others. -/
def executeHelp (page : Int) : List Out :=
  if page = 1 then
    [.setcolor colorBrightGreen colorBlack, .text "Commands (page 1/2):\n",
      .setcolor colorGray colorBlack, .text "help [page] - Show help\n", .text "cls - Clear screen\n",
      .text "ver - Show version\n", .text "ls - List files\n",
      .text "pwd - Print working directory\n", .text "cd - Change directory\n",
      .text "echo - Display message\n", .text "cat - Display file contents\n",
      .text "date - Show current date/time\n", .text "time - Show current time\n",
      .text "whoami - Show current user\n", .text "mem - Show memory usage\n",
      .setcolor colorBrightGreen colorBlack, .text "Type 'help 2' for more commands\n",
      .setcolor colorWhite colorBlack]
  else if page = 2 then
    [.setcolor colorBrightGreen colorBlack, .text "Commands (page 2/2):\n",
      .setcolor colorGray colorBlack, .text "kptest - Test Kernel Panic\n",
      .text "lsblk - Show disk information\n", .text "pause - Wait for keypress\n",
      .text "poweroff - Shut down\n", .text "reboot - Reboot\n", .text "exit - Log out\n",
      .text "srunix86 - restart the shell", .text "touch - Create file\n",
      .text "dhcpcd - Automatically configures the fake Internet\n",
      .text "ping - emulator for sending packets to the server\n",
      .text "mkdir - Create directory\n", .text "rm - Delete file (use -rf for directories)\n",
      .text "beep - Play test sound\n", .text "smouse - Test a mouse support\n",
      .setcolor colorWhite colorBlack]
  else [.text "Invalid help page\n"]

/-- A line of the logo with a text in white behind it. -/
def infoLine (line : CString × CString) : List Out :=
  [.text line.1, .setcolor colorWhite colorBlack, .text line.2, .setcolor colorYellow colorBlack]

/-- `display_info`. -/
def displayInfo : List Out :=
  .setcolor colorYellow colorBlack ::
  (["  *##*                 ****                *##*  \n",
    "   *####*****      *##########*      *****#####   \n",
    "    *###  ******   ***** #*####*#  +****  ###*    \n",
    "     *##     #*****        @*####*        ##*     \n",
    "      *#*       ##****       #*####*     *#*      \n",
    "       ***  ***#*  *#***  ***  *####**  *#*       \n",
    "          *#####*    *  *****    **** *##*        \n"] : List CString).map .text ++
  ([("        *#####*       ****#          ###*         ", "OS: Srunix86\n"),
    ("      *#####*       ****%  ***      *#*# ***      ", "Release: 0.0.5-1\n"),
    ("    #*####*  ***  **#*#    @*##*  ****  *###*#    ", "License: BSD-3-Clause license\n"),
    ("   *#####*   *##*  **        *###* #*    *####*   ", "Langs: ASM, Linker and C\n"),
    ("  *####*       *#* *#*        *#* #*     *####*   ", "POSIX support\n"),
    ("   *####*    *# *###*        **  *##*   *#####*   ", "FS: bkFS 0.3.1 \n"),
    ("    %*###*  ****  *##*@    #*#**  ***  *####*#    ", "Loader: GRUB2\n"),
    ("      *** %*#*      ***  #****       *#####*      ", "Arch: x86_64\n"),
    ("         *###          #****       *#####*        ", "Uploaded: /boot/krn.img\n")]
      : List (CString × CString)).flatMap infoLine ++
  (["        *##* ****    *****  *    *#####*          \n",
    "       *#*  **####*  ***  ***#*  *#***  ***       \n",
    "      *#*     *####*#       ****##       *#*      \n",
    "     *##        *####*@        *****#     ##*     \n",
    "    *###  ****+  #*####** *****   ******  ###*    \n",
    "   #####*****      *##########*      *****####*   \n",
    "   *##***%           *######*            ****#*   \n",
    "  ***                  ****                   **  \n"] : List CString).map .text

/-- The three stripes. -/
def zov : List Out :=
  [.setcolor colorWhite colorGray, .text "\n\n\n\n\n\n\n\n\n",
    .setcolor colorWhite colorYellow, .text "\n\n\n\n\n\n\n\n",
    .setcolor colorWhite colorWhite, .text "\n\n\n\n\n\n\n\n", .setcolor colorWhite colorBlack]

/-- `execute_ps`. -/
def executePs (procs : ProcState) : List Out :=
  .text "PID \t PPID \t PGID \t STATE \t NAME \n" :: (psPrintfs procs).map .printf

/-- `execute_jobs`. -/
def executeJobs (procs : ProcState) : List Out := (jobsPrintfs procs).map .printf

/-- `execute_ifconfig`. -/
def executeIfconfig (net : NetDevice) : List Out :=
  if !net.dhcpEnabled then [.text "No network interfaces found\n"]
  else (ifconfigPrintfs net).map .printf

/-- The branch `DHCP failed` is never taken: `dhcp_discover` always connects. -/
def executeDhcpcd (net : NetDevice) (interface : CString) : List Out × NetDevice :=
  if strcmp interface "eth0" ≠ 0 then ((dhcpcdPrintfs net interface).map .printf, net)
  else
    ((dhcpcdPrintfs net interface).map .printf ++
      (if (dhcpDiscover net).connected then [] else [.text "DHCP failed\n"]), dhcpDiscover net)

/-- `execute_ping`, which sends nothing. -/
def executePing (net : NetDevice) (host : CString) : List Out :=
  if !net.connected then [.text "Network not configured. Run 'dhcpcd eth0' first\n"]
  else
    (pingPrintfs net host).map .printf ++
      [.text "64 bytes from 192.168.0.1: icmp_seq=1 ttl=64 time=1.23 ms\n",
        .text "64 bytes from 192.168.0.1: icmp_seq=2 ttl=64 time=1.45 ms\n",
        .text "64 bytes from 192.168.0.1: icmp_seq=3 ttl=64 time=1.67 ms\n",
        .text "", .text "3 packets transmitted, 3 received, 0% packet loss\n"]

/-- The branch of `execute_smouse` that is taken: nothing calls `init_mouse`. -/
def executeSmouse : List Out := [.text "Mouse is not enabled\n"]

/-! ## The branches of `execute_command` -/

/-- What `execute_command` calls for the words of a line. -/
inductive Invocation where
  | help (page : Int)
  | cls
  | ver
  | ls
  | pwd
  | cd (dirname : Option CString)
  | date
  | time
  | whoami
  | uptime
  | shell
  | memory
  | disk
  | pause
  | poweroff
  | kptest
  | reboot
  | exit
  | info
  | dhcpcd (interface : CString)
  | ifconfig
  | ping (host : CString)
  | touch (filename : CString)
  | fetch
  | mkdir (dirname : CString)
  | rm (filename : CString) (recursive : Bool)
  | beep
  | z
  | ps
  | jobs
  | kill (pidStr sigStr : CString)
  | smouse
  /-- An argument is missing. -/
  | usage (message : CString)
  | notFound (word : CString)

/-- A command that asks for a word behind its name. -/
def Invocation.withArg (args : List CString) (message : CString) (run : CString → Invocation) :
    Invocation :=
  if args.length > 1 then run (argAt args 1) else .usage message

/-- The names of each branch and what it calls. -/
def branches : List (List CString × (List CString → Invocation)) :=
  [(["help"], fun args => .help (if args.length > 1 then atoi (argAt args 1) else 1)),
    (["cls", "clear"], fun _ => .cls), (["ver"], fun _ => .ver), (["ls"], fun _ => .ls),
    (["pwd"], fun _ => .pwd), (["cd"], fun args => .cd args[1]?),
    (["date"], fun _ => .date), (["time"], fun _ => .time), (["whoami"], fun _ => .whoami),
    (["uptime"], fun _ => .uptime), (["sh", "srunix64"], fun _ => .shell),
    (["mem", "memory"], fun _ => .memory), (["lsblk"], fun _ => .disk),
    (["pause"], fun _ => .pause), (["poweroff", "shutdown"], fun _ => .poweroff),
    (["kptest"], fun _ => .kptest), (["reboot", "restart"], fun _ => .reboot),
    (["exit"], fun _ => .exit), (["info"], fun _ => .info),
    (["dhcpcd"], fun args => .withArg args "Usage: dhcpcd <interface>\n" .dhcpcd),
    (["ifconfig"], fun _ => .ifconfig),
    (["ping"], fun args => .withArg args "Usage: ping <host>\n" .ping),
    (["touch"], fun args => .withArg args "Usage: touch <filename>\n" .touch),
    (["fetch", "neofetch", "./fetch"], fun _ => .fetch),
    (["mkdir"], fun args => .withArg args "Usage: mkdir <dirname>\n" .mkdir),
    (["rm"], fun args =>
      match rmCommand args with
      | .rm filename recursive => .rm filename recursive
      | _ => .usage "Usage: rm <filename> or rm -rf <dirname>\n"),
    (["beep"], fun _ => .beep), (["Z"], fun _ => .z), (["ps"], fun _ => .ps),
    (["jobs"], fun _ => .jobs),
    (["kill"], fun args =>
      if args.length ≥ 3 then .kill (argAt args 1) (argAt args 2)
      else .usage "Usage: kill <pid> <signal>\n"),
    (["smouse"], fun _ => .smouse)]

/-- The word is one of the names, in upper or lower case. -/
def isNamed (word : CString) (names : List CString) : Bool :=
  names.any fun name => strcmpCaseInsensitive word name == 0

/-- What a line that neither `echo` nor `cat` takes calls. -/
def invocation (args : List CString) : Invocation :=
  match branches.find? fun b => isNamed (argAt args 0) b.1 with
  | some b => b.2 args
  | none => .notFound (argAt args 0)

/-! ## Where control is afterwards -/

/-- What becomes of the calls, told from the command. -/
def Invocation.kind : Invocation → CommandKind
  | .shell => .shell
  | .pause | .info | .z => .waits
  | .exit => .exit
  | .poweroff | .reboot => .halts
  | _ => .returns

/-- Without its word a command prints its usage and returns. -/
theorem Invocation.kind_withArg {run : CString → Invocation} (h : ∀ arg, (run arg).kind = .returns)
    (args : List CString) (message : CString) : (withArg args message run).kind = .returns := by
  unfold withArg
  split
  · exact h _
  · rfl

/-- `commandKind` as a function of the first token. -/
def wordKind (word : List UInt8) : CommandKind :=
  if word = CString.bytes "sh" ∨ word = CString.bytes "srunix64" then .shell
  else if word = CString.bytes "pause" ∨ word = CString.bytes "info" ∨ word = CString.bytes "z" then
    .waits
  else if word = CString.bytes "exit" then .exit
  else if word = CString.bytes "poweroff" ∨ word = CString.bytes "shutdown" ∨
      word = CString.bytes "reboot" ∨ word = CString.bytes "restart" then .halts
  else .returns

theorem commandKind_eq_wordKind (cmd : CString) : commandKind cmd = wordKind (firstToken cmd) := rfl

/-- The names lead to the kind that `commandKind` tells. -/
theorem branches_names : ∀ b ∈ branches, ∀ name ∈ b.1,
    wordKind (foldCase name).bytes = (b.2 []).kind := by
  decide

/-- The branches that look at their arguments choose between calls that return. -/
theorem branches_args : ∀ b ∈ branches, ∀ args : List CString, (b.2 args).kind = (b.2 []).kind := by
  have hrm : ∀ args : List CString,
      (match rmCommand args with
        | .rm filename recursive => Invocation.rm filename recursive
        | _ => .usage "Usage: rm <filename> or rm -rf <dirname>\n").kind = .returns := by
    intro args
    split <;> rfl
  have hkill : ∀ args : List CString,
      (if args.length ≥ 3 then Invocation.kill (argAt args 1) (argAt args 2)
        else .usage "Usage: kill <pid> <signal>\n").kind = .returns := by
    intro args
    split <;> rfl
  intro b hb args
  fin_cases hb
  all_goals first
    | rfl
    | exact Invocation.kind_withArg (fun _ => rfl) args _
    | exact hrm args
    | exact hkill args

/-- A word in lower case is named exactly if it is one of the names in lower case. -/
theorem isNamed_iff {word : CString} {names : List CString} (hfold : foldCase word = word) :
    isNamed word names = true ↔ ∃ name ∈ names, word = foldCase name := by
  rw [isNamed, List.any_eq_true]
  refine exists_congr fun name => and_congr_right fun _ => ?_
  rw [beq_iff_eq, strcmpCaseInsensitive_eq_zero_iff, hfold]

/-- The words after which control is elsewhere. -/
def awayWords : List CString :=
  ["sh", "srunix64", "pause", "info", "z", "exit", "poweroff", "shutdown", "reboot", "restart"]

theorem awayWords_named : ∀ word ∈ awayWords, ∃ b ∈ branches, ∃ name ∈ b.1, foldCase name = word := by
  decide

/-- A word that names no command returns. -/
theorem wordKind_of_unnamed {word : CString} (hfold : foldCase word = word)
    (hnone : ∀ b ∈ branches, isNamed word b.1 = false) : wordKind word.bytes = .returns := by
  have hne : ∀ w ∈ awayWords, word.bytes ≠ w.bytes := by
    intro w hw heq
    obtain ⟨b, hb, name, hname, hfolded⟩ := awayWords_named w hw
    have hnamed := (isNamed_iff hfold).mpr ⟨name, hname, (CString.ext heq).trans hfolded.symm⟩
    rw [hnone b hb] at hnamed
    cases hnamed
  simp only [awayWords, List.forall_mem_cons] at hne
  obtain ⟨hsh, hsrunix, hpause, hinfo, hz, hexit, hpoweroff, hshutdown, hreboot, hrestart, -⟩ := hne
  rw [wordKind, if_neg (not_or.mpr ⟨hsh, hsrunix⟩),
    if_neg (not_or.mpr ⟨hpause, not_or.mpr ⟨hinfo, hz⟩⟩), if_neg hexit,
    if_neg (not_or.mpr ⟨hpoweroff, not_or.mpr ⟨hshutdown, not_or.mpr ⟨hreboot, hrestart⟩⟩⟩)]

/-- The arguments are in lower case. -/
theorem foldCase_token {cmd w : CString} (hw : w ∈ tokens (foldCase cmd)) : foldCase w = w := by
  have hmem : w.bytes ∈ cut 0x20 9 (foldCase cmd).bytes := by
    rw [← tokens_bytes]
    exact List.mem_map_of_mem hw
  refine CString.ext ((List.map_congr_left fun c hc => ?_).trans (List.map_id _))
  obtain ⟨b, -, rfl⟩ := List.mem_map.mp (mem_of_mem_cut hmem hc)
  exact toLower_toLower b

theorem foldCase_argAt (cmd : CString) (i : Nat) :
    foldCase (argAt (tokens (foldCase cmd)) i) = argAt (tokens (foldCase cmd)) i := by
  rw [argAt, List.getD_eq_getElem?_getD]
  cases harg : (tokens (foldCase cmd))[i]? with
  | none => rfl
  | some w => exact foldCase_token (List.mem_of_getElem? harg)

theorem plainCommand_other {cmd : CString} {args args' : List CString}
    (h : plainCommand cmd args' = .other args) : args = args' := by
  rw [plainCommand] at h
  split at h
  · cases h
  split at h
  · cases h
  · cases h
    rfl

/-- The words of the line are all there. -/
theorem parseCommand_other_args {cmd : CString} {args : List CString}
    (h : parseCommand cmd = .other args) : args = tokens (foldCase cmd) := by
  unfold parseCommand at h
  dsimp only at h
  split at h
  · cases h
  split at h
  · split at h
    · split at h
      · split at h <;> cases h
      split at h
      · split at h <;> cases h
      · exact plainCommand_other h
    · exact plainCommand_other h
  · exact plainCommand_other h

/-- Control goes where the branch leaves it. -/
theorem commandKind_of_other {cmd : CString} {args : List CString}
    (h : parseCommand cmd = .other args) : commandKind cmd = (invocation args).kind := by
  obtain rfl := parseCommand_other_args h
  have hfold := foldCase_argAt cmd 0
  rw [commandKind_eq_wordKind, firstToken_eq, invocation]
  cases hfind : branches.find? fun b => isNamed (argAt (tokens (foldCase cmd)) 0) b.1 with
  | none =>
    have hnone := List.find?_eq_none.mp hfind
    exact wordKind_of_unnamed hfold fun b hb => Bool.eq_false_iff.mpr (hnone b hb)
  | some b =>
    have hb := List.mem_of_find?_eq_some hfind
    have hnamed : isNamed (argAt (tokens (foldCase cmd)) 0) b.1 = true := by
      simpa using List.find?_some hfind
    obtain ⟨name, hname, heq⟩ := (isNamed_iff hfold).mp hnamed
    show wordKind _ = (b.2 _).kind
    rw [branches_args b hb, ← branches_names b hb name hname, ← heq]

end Srunix
