import Srunix.Live.View

/-!
# The network device and the processes

Both are what the lines make of them, and no line makes much: `dhcpcd eth0`
gives the device its addresses, once and for all, and there is never a process,
since no command calls `sys_fork`. So what `ping`, `ifconfig`, `ps`, `jobs` and
`kill` tell is known from the lines alone (`live_reports`).
-/

namespace Srunix

open Library

/-! ## The device and the processes of a run -/

/-- The lines that were executed. -/
def linesOf (inputs : List Input) : List CString :=
  outputs (fun c i => c.press i.key) (fun c i => c.executed i.key) Console.boot inputs

/-- It is `dhcpcd eth0`. -/
def Invocation.connects : Invocation → Bool
  | .dhcpcd interface => interface = "eth0"
  | _ => false

/-- The line is `dhcpcd eth0`. -/
def Command.connects : Command → Bool
  | .other args => (invocation args).connects
  | _ => false

/-- The device has its addresses. -/
def leased (inputs : List Input) : Bool := (linesOf inputs).any fun cmd => (parseCommand cmd).connects

/-- The device before and after it got its addresses. -/
def deviceOf : Bool → NetDevice
  | false => networkInit
  | true => dhcpDiscover networkInit

/-- The device is as the lines left it, and there is no process. -/
structure Devices (leased : Bool) (s : Live) : Prop where
  net : s.net = deviceOf leased
  procs : s.procs.processCount = 0

theorem linesOf_snoc (inputs : List Input) (i : Input) :
    linesOf (inputs ++ [i])
      = linesOf inputs ++ ((Console.after (inputs.map Input.key)).executed i.key).toList := by
  rw [linesOf, outputs_append, ← runOps_map, outputs, outputs, List.append_nil]
  rfl

/-- One more key makes the lease if it completes the line. -/
theorem leased_snoc (inputs : List Input) (i : Input) :
    leased (inputs ++ [i]) = (leased inputs ||
      ((Console.after (inputs.map Input.key)).executed i.key).any fun cmd =>
        (parseCommand cmd).connects) := by
  rw [leased, linesOf_snoc, List.any_append]
  cases (Console.after (inputs.map Input.key)).executed i.key with
  | none => simp [leased]
  | some cmd => simp [leased]

/-- The device and the processes stay as they are. -/
structure Live.Keeps (s t : Live) : Prop where
  net : t.net = s.net
  procs : t.procs = s.procs

namespace Live

variable {hw : Hardware} {fuel fuel' : Nat} {s t u : Live} {lease : Bool}

theorem Keeps.trans (h : s.Keeps t) (h' : t.Keeps u) : s.Keeps u :=
  ⟨h'.net.trans h.net, h'.procs.trans h.procs⟩

theorem keeps_withKernel {k : Option KernelState} (h : k.map s.withKernel = some t) : s.Keeps t := by
  obtain ⟨k, -, rfl⟩ := Option.map_eq_some_iff.mp h
  exact ⟨rfl, rfl⟩

theorem prints_keeps {outs : List Out} (h : some (s.prints outs) = some t) : s.Keeps t := by
  cases h
  exact ⟨rfl, rfl⟩

theorem waits_keeps {wake : CString} {outs : List Out}
    (h : some ((s.waits wake).prints outs) = some t) : s.Keeps t := by
  cases h
  exact ⟨rfl, rfl⟩

theorem runFile_keeps {c : ShellCmd} (h : s.runFile fuel c = some t) : s.Keeps t := keeps_withKernel h

theorem prompted_keeps (h : s.prompted fuel = some t) : s.Keeps t := by
  unfold prompted at h
  split at h
  · exact keeps_withKernel h
  · cases h
    exact ⟨rfl, rfl⟩

theorem runNamed_keeps {filename : CString} {command : Name → ShellCmd}
    (h : s.runNamed fuel filename command = some t) : s.Keeps t := by
  obtain ⟨name, -, hrun⟩ := Option.bind_eq_some_iff.mp h
  exact runFile_keeps hrun

theorem echoField_keeps (s : Live) (field : CString) (ch : KeyChar) (shown : UInt8) :
    s.Keeps (s.echoField field ch shown) := by
  unfold echoField
  split
  · split
    · exact ⟨rfl, rfl⟩
    · exact ⟨rfl, rfl⟩
  · split
    · exact ⟨rfl, rfl⟩
    · exact ⟨rfl, rfl⟩

/-- A login touches neither the device nor the processes. -/
theorem finishLogin_keeps {username password : CString}
    (h : s.finishLogin fuel fuel' username password = some t) : s.Keeps t := by
  unfold finishLogin at h
  dsimp only at h
  -- the check for `1` comes first, whatever the one for `root` says then
  generalize hwelcome : (if strcmp username "1" = 0 ∧ strcmp password "1" = 0 then
      s.withKernel (setLoggedIn ((s.kernel.setcolor colorGreen colorBlack).writestring
        "\nWelcome to Srunix86 livecd\n") true)
    else s) = u at h
  have hkeeps : s.Keeps u := by
    rw [← hwelcome]
    split
    · exact ⟨rfl, rfl⟩
    · exact ⟨rfl, rfl⟩
  refine hkeeps.trans ?_
  split at h
  · obtain ⟨v, hrun, hprompt⟩ := Option.bind_eq_some_iff.mp h
    exact (runFile_keeps hrun).trans (prompted_keeps hprompt)
  · cases h
    exact ⟨rfl, rfl⟩

/-- A key that completes no line. -/
theorem press_keeps {k : Key} (hexec : s.console.executed k = none)
    (h : s.press hw fuel fuel' k = some t) : s.Keeps t := by
  cases pressed_of_press h with
  | idle | switched | nameEnter => exact ⟨rfl, rfl⟩
  | nameChar | passwordChar => exact ⟨(echoField_keeps _ _ _ _).net, (echoField_keeps _ _ _ _).procs⟩
  | passwordEnter hstack hfinish => exact ⟨(finishLogin_keeps hfinish).net, (finishLogin_keeps hfinish).procs⟩
  | @line line _ ch _ hstack hline =>
    have hnone : (shellChar s.console.history line ch).2.2 = none :=
      (Console.executed_shell hstack ch).symm.trans hexec
    rw [shellKey, hnone] at hline
    dsimp only at hline
    -- a full line is given up, and there is a new prompt
    split at hline
    · exact ⟨(prompted_keeps hline).net, (prompted_keeps hline).procs⟩
    · cases hline
      exact ⟨rfl, rfl⟩
  | woken hstack hwake => exact ⟨(prompted_keeps hwake).net, (prompted_keeps hwake).procs⟩

end Live

theorem Devices.of_keeps {lease : Bool} {s t : Live} (h : Devices lease s) (hkeeps : s.Keeps t) :
    Devices (lease || false) t := by
  constructor
  · simpa using hkeeps.net.trans h.net
  · simpa [hkeeps.procs] using h.procs

/-- Where there is no process, none is found. -/
theorem sendSignal_none (procs : ProcState) (h : procs.processCount = 0) (pid sig : Nat) :
    sendSignal procs pid sig
      = { procs with term := terminalPrintf procs.term "Process %d not found\n" [.int (toInt pid)] } := by
  have hscan : (firstIndex procs.processCount fun i => (procs.processes i).pid == pid) = none := by
    rw [h]
    rfl
  rw [sendSignal, hscan]

/-- The addresses are the same each time. -/
theorem dhcpDiscover_deviceOf (lease : Bool) : dhcpDiscover (deviceOf lease) = deviceOf true := by
  cases lease with
  | false => rfl
  | true => rfl

namespace Live

variable {hw : Hardware} {fuel fuel' : Nat} {s t : Live} {lease : Bool}

/-- Only `dhcpcd eth0` changes the device, and no command makes a process. -/
theorem invoke_devices (h : Devices lease s) {inv : Invocation} (hrun : s.invoke hw fuel inv = some t) :
    Devices (lease || inv.connects) t := by
  cases inv with
  | pwd => exact h.of_keeps (keeps_withKernel hrun)
  | cd | rm => exact h.of_keeps (runFile_keeps hrun)
  | touch filename | mkdir filename => exact h.of_keeps (runNamed_keeps hrun)
  | kill pidStr sigStr =>
    cases hrun
    refine ⟨(h.of_keeps ⟨rfl, rfl⟩).net, ?_⟩
    have hnone := sendSignal_none { s.procs with term := s.kernel.term } h.procs
      (atoi pidStr % 2 ^ 32).toNat (atoi sigStr % 2 ^ 32).toNat
    show (sendSignal _ _ _).processCount = 0
    rw [hnone]
    exact h.procs
  | dhcpcd interface =>
    cases hrun
    refine ⟨?_, h.procs⟩
    show (executeDhcpcd s.net interface).2 = deviceOf (lease || decide (interface = "eth0"))
    rw [executeDhcpcd, h.net]
    -- only `eth0` asks for a lease
    by_cases hname : interface = "eth0"
    · rw [if_neg (not_not.mpr (strcmp_eq_zero_iff.mpr hname)), decide_eq_true hname, Bool.or_true]
      exact dhcpDiscover_deviceOf lease
    · rw [if_pos (mt strcmp_eq_zero_iff.mp hname), decide_eq_false hname, Bool.or_false]
  | shell | kptest | exit | beep =>
    cases hrun
    exact h.of_keeps ⟨rfl, rfl⟩
  | pause | info | z => exact h.of_keeps (waits_keeps hrun)
  | _ => exact h.of_keeps (prints_keeps hrun)

theorem execute_devices (h : Devices lease s) {cmd : CString} (hrun : s.execute hw fuel cmd = some t) :
    Devices (lease || (parseCommand cmd).connects) t := by
  rw [execute] at hrun
  cases hparse : parseCommand cmd with
  | other args =>
    rw [hparse] at hrun
    exact invoke_devices h hrun
  | redirectOutput filename text | appendOutput filename text =>
    rw [hparse] at hrun
    exact h.of_keeps (runNamed_keeps hrun)
  -- a copy writes files and prints
  | catRedirect sourceFile destFile append =>
    rw [hparse] at hrun
    refine h.of_keeps ?_
    have hrun : s.runCatRedirect hw sourceFile destFile append = some t := hrun
    rw [runCatRedirect] at hrun
    split at hrun
    · cases hrun
      exact ⟨rfl, rfl⟩
    · obtain ⟨dest, -, rfl⟩ := Option.map_eq_some_iff.mp hrun
      exact ⟨rfl, rfl⟩
  | empty | echo | cat | catRedirectUsage =>
    rw [hparse] at hrun
    obtain ⟨printed, -, rfl⟩ := Option.map_eq_some_iff.mp hrun
    exact h.of_keeps ⟨rfl, rfl⟩

/-- The step lemma of `Devices`. -/
theorem press_devices (h : Devices lease s) {i : Input} (hpress : s.press i.hw fuel fuel' i.key = some t) :
    Devices (lease || (s.console.executed i.key).any fun cmd => (parseCommand cmd).connects) t := by
  cases hexec : s.console.executed i.key with
  | none => exact h.of_keeps (press_keeps hexec hpress)
  | some cmd =>
    obtain ⟨u, hrun, hprompt⟩ := press_of_executed hexec hpress
    -- the echo and the prompt are drawn, the command does what it does
    have hecho : Devices lease (s.echoed i.key) := ⟨h.net, h.procs⟩
    have hdone := (execute_devices hecho hrun).of_keeps (prompted_keeps hprompt)
    rwa [Bool.or_false] at hdone

end Live

/-- Whatever becomes of the files, the device and the processes are what the lines
say. -/
theorem devices_of_run {inputs : List Input} {s : Live} (h : Steps Live.Answers Live.boot inputs s) :
    Devices (leased inputs) s := by
  induction inputs using List.reverseRecOn generalizing s with
  | nil =>
    cases h
    exact ⟨rfl, rfl⟩
  | append_singleton done i ih =>
    obtain ⟨u, hrun, fuel, fuel', hpress⟩ := h.of_snoc
    rw [leased_snoc, ← (mirrors_of_run hrun).1]
    exact Live.press_devices (ih hrun) hpress

/-! ## What is told -/

/-- What `ifconfig` prints. -/
def ifconfigLines (ip gateway netmask status : CString) : CString :=
  "eth0:\n  MAC:     52:54:00:12:34:56\n  IP:      " ++ ip ++ "\n  Gateway: " ++ gateway ++
    "\n  Netmask: " ++ netmask ++ "\n  Status:  " ++ status ++ "\n"

/-- What `ifconfig` prints, without and with addresses. -/
def ifconfigText : Bool → CString
  | false => ifconfigLines "Not configured" "Not configured" "Not configured" "Disconnected"
  | true => ifconfigLines "192.168.0.100" "192.168.0.1" "255.255.255.0" "Connected"

/-- What stands behind the host. -/
def pingText : CString :=
  "\n64 bytes from 192.168.0.1: icmp_seq=1 ttl=64 time=1.23 ms\n" ++
    "64 bytes from 192.168.0.1: icmp_seq=2 ttl=64 time=1.45 ms\n" ++
    "64 bytes from 192.168.0.1: icmp_seq=3 ttl=64 time=1.67 ms\n" ++
    "3 packets transmitted, 3 received, 0% packet loss\n"

/-- What a command tells of the device or of the processes, of which there are
none. -/
def report (lease : Bool) : Invocation → Option (List UInt8)
  | .dhcpcd interface =>
    if interface = "eth0" then
      some (CString.bytes "Starting DHCP on eth0...\nInterface eth0 configured: 192.168.0.100\n")
    else some (CString.bytes "Interface " ++ interface.bytes ++ CString.bytes " not found\n")
  | .ifconfig => some (ifconfigText lease).bytes
  | .ping host =>
    if lease then some (CString.bytes "PING simulator " ++ host.bytes ++ pingText.bytes)
    else some (CString.bytes "Network not configured. Run 'dhcpcd eth0' first\n")
  | .ps => some (CString.bytes "PID \t PPID \t PGID \t STATE \t NAME \n")
  | .jobs => some []
  | .kill pidStr _ =>
    some (CString.bytes "Process " ++ intToStr (atoi pidStr) ++ CString.bytes " not found\n")
  | _ => none

/-- The calls send these characters. -/
def Sends (outs : List Out) (sent : List UInt8) : Prop :=
  ∃ calls : List TermCall, outs = calls.map .call ∧ calls.flatMap TermCall.sent = sent

theorem Sends.prints {outs : List Out} {sent : List UInt8} (h : Sends outs sent) {k : KernelState}
    (hmode : k.term.smouseMode = false) : (k.prints outs).term = sent.foldl terminalPutchar k.term := by
  obtain ⟨calls, rfl, rfl⟩ := h
  exact KernelState.prints_calls hmode calls

theorem sends_text (data : CString) : Sends [.text data] data.bytes :=
  ⟨[.writestring data], rfl, List.flatMap_singleton ..⟩

/-- `ifconfig` tells the state of the device. -/
theorem sends_ifconfig (lease : Bool) :
    Sends (executeIfconfig (deviceOf lease)) (ifconfigText lease).bytes := by
  refine ⟨(ifconfigPrintfs (deviceOf lease)).map fun c => .printf c.format c.args, ?_, ?_⟩
  · rw [List.map_map]
    cases lease with
    | false => rfl
    | true => rfl
  · cases lease with
    | false => decide +kernel
    | true => decide +kernel

/-- `dhcpcd` tells the same, whether there were addresses before or not. -/
theorem sends_dhcpcd (lease : Bool) (interface : CString) {sent : List UInt8}
    (h : report lease (.dhcpcd interface) = some sent) :
    Sends (executeDhcpcd (deviceOf lease) interface).1 sent := by
  rw [report] at h
  rw [executeDhcpcd]
  by_cases hname : interface = "eth0"
  · rw [if_pos hname] at h
    rw [if_neg (not_not.mpr (strcmp_eq_zero_iff.mpr hname)), dhcpDiscover_deviceOf, hname]
    cases h
    refine ⟨[.printf "Starting DHCP on %s...\n" [.str "eth0"],
      .printf "Interface %s configured: %s\n" [.str "eth0", .str (ipToStr (deviceOf true).ip)]], ?_, ?_⟩
    -- a lease that is there already is asked for again
    · cases lease with
      | false => rfl
      | true => rfl
    · decide +kernel
  · rw [if_neg hname] at h
    rw [if_pos (mt strcmp_eq_zero_iff.mp hname)]
    cases h
    refine ⟨[.printf "Interface %s not found\n" [.str interface]], ?_, ?_⟩
    · rw [dhcpcdPrintfs, if_pos (mt strcmp_eq_zero_iff.mp hname)]
      rfl
    · rw [List.flatMap_singleton]
      exact sent_printf "Interface " "%s" " not found\n" (.str interface) (by decide) rfl (by decide)
        interface.nulFree

/-- `ping` answers with three lines that are in its source. -/
theorem sends_ping (lease : Bool) (host : CString) {sent : List UInt8}
    (h : report lease (.ping host) = some sent) : Sends (executePing (deviceOf lease) host) sent := by
  cases lease with
  | false =>
    cases h
    exact sends_text _
  | true =>
    cases h
    let replies : List TermCall :=
      [.writestring "64 bytes from 192.168.0.1: icmp_seq=1 ttl=64 time=1.23 ms\n",
        .writestring "64 bytes from 192.168.0.1: icmp_seq=2 ttl=64 time=1.45 ms\n",
        .writestring "64 bytes from 192.168.0.1: icmp_seq=3 ttl=64 time=1.67 ms\n",
        .writestring "", .writestring "3 packets transmitted, 3 received, 0% packet loss\n"]
    have hfirst : (TermCall.printf "PING simulator %s\n" [.str host]).sent
        = CString.bytes "PING simulator " ++ host.bytes ++ CString.bytes "\n" :=
      sent_printf "PING simulator " "%s" "\n" (.str host) (by decide) rfl (by decide) host.nulFree
    have hreplies : CString.bytes "\n" ++ replies.flatMap TermCall.sent = pingText.bytes := by
      decide +kernel
    refine ⟨.printf "PING simulator %s\n" [.str host] :: replies, rfl, ?_⟩
    rw [List.flatMap_cons, hfirst, List.append_assoc, hreplies]

/-- Not even the least `int`, which comes out garbled, has a `\0` in it. -/
theorem zero_not_mem_atoi (str : CString) : 0 ∉ intToStr (atoi str) := by
  obtain ⟨hlo, hhi⟩ := atoi_range str
  by_cases hleast : atoi str = -2 ^ 31
  · rw [hleast]
    decide +kernel
  · have hprintable : (PrintfArg.int (atoi str)).Printable := ⟨lt_of_le_of_ne hlo (Ne.symm hleast), hhi⟩
    have hzero := PrintfArg.zero_not_mem_shown hprintable
    rw [← PrintfArg.render_eq_shown hprintable] at hzero
    exact hzero

namespace Live

variable {hw : Hardware} {fuel : Nat} {s t : Live} {lease : Bool}

/-- `kill` finds no process. -/
theorem kill_reports (h : Devices lease s) (hmode : s.kernel.term.smouseMode = false)
    (pidStr sigStr : CString) :
    (executeKill { s.procs with term := s.kernel.term } pidStr sigStr).term
      = (CString.bytes "Process " ++ intToStr (atoi pidStr) ++ CString.bytes " not found\n").foldl
          terminalPutchar s.kernel.term := by
  have hnone := sendSignal_none { s.procs with term := s.kernel.term } h.procs
    (atoi pidStr % 2 ^ 32).toNat (atoi sigStr % 2 ^ 32).toNat
  have hsent : (TermCall.printf "Process %d not found\n" [.int (atoi pidStr)]).sent
      = CString.bytes "Process " ++ intToStr (atoi pidStr) ++ CString.bytes " not found\n" :=
    sent_printf "Process " "%d" " not found\n" (.int (atoi pidStr)) (by decide) rfl (by decide)
      (zero_not_mem_atoi pidStr)
  have hrun := TermCall.run_eq s.kernel.term (.printf "Process %d not found\n" [.int (atoi pidStr)])
  rw [hmode, hsent] at hrun
  rw [executeKill, hnone, toInt_atoi]
  exact hrun

/-- What each of the commands puts on the screen. -/
theorem invoke_reports (h : Devices lease s) (hmode : s.kernel.term.smouseMode = false) {inv : Invocation}
    {sent : List UInt8} (hreport : report lease inv = some sent) (hrun : s.invoke hw fuel inv = some t) :
    t.kernel.term = sent.foldl terminalPutchar s.kernel.term := by
  cases inv with
  | dhcpcd interface =>
    cases hrun
    have hsends := sends_dhcpcd lease interface hreport
    rw [← h.net] at hsends
    exact hsends.prints hmode
  | ifconfig =>
    cases hreport
    cases hrun
    have hsends := sends_ifconfig lease
    rw [← h.net] at hsends
    exact hsends.prints hmode
  | ping host =>
    cases hrun
    have hsends := sends_ping lease host hreport
    rw [← h.net] at hsends
    exact hsends.prints hmode
  | ps =>
    cases hreport
    cases hrun
    -- the process table is the one of the boot: nothing forks
    have hnone : psPrintfs s.procs = [] := by
      rw [psPrintfs, ProcState.procs, h.procs]
      rfl
    have houts : executePs s.procs = [.text "PID \t PPID \t PGID \t STATE \t NAME \n"] := by
      rw [executePs, hnone]
      rfl
    show (s.kernel.prints (executePs s.procs)).term = _
    rw [houts]
    exact (sends_text _).prints hmode
  | jobs =>
    cases hreport
    cases hrun
    have houts : executeJobs s.procs = [] := by
      rw [executeJobs, jobsPrintfs, h.procs]
      rfl
    show (s.kernel.prints (executeJobs s.procs)).term = _
    rw [houts]
    rfl
  | kill pidStr sigStr =>
    cases hreport
    cases hrun
    exact kill_reports h hmode pidStr sigStr
  | _ => cases hreport

end Live

theorem returns_of_report {lease : Bool} {inv : Invocation} {sent : List UInt8}
    (h : report lease inv = some sent) :
    inv.kind = .returns ∧ inv.fileCommand = none ∧ inv.newNames = [] := by
  cases inv with
  | dhcpcd | ifconfig | ping | ps | jobs | kill => exact ⟨rfl, rfl, rfl⟩
  | _ => cases h

/-- **The network and the processes, as they are told.** After any run in which nothing
goes wrong, on whatever terminal, the device is connected if a line was `dhcpcd eth0` and
not otherwise, there is no process, and `dhcpcd`, `ifconfig`, `ping`, `ps`, `jobs` and
`kill` tell just that, and leave the files alone. -/
theorem live_reports {inputs : List Input} {s t : Live} (h : LiveRun inputs s) {i : Input}
    (hstep : LiveStep s i t) {cmd : CString} {args : List CString} {sent : List UInt8}
    (hexec : s.console.executed i.key = some cmd) (hparse : parseCommand cmd = .other args)
    (hreport : report (leased inputs) (invocation args) = some sent) :
    ∃ names, (namespaceOf s.kernel).Leads names (namespaceOf s.kernel).cwd ∧
      t.kernel.term
        = (promptOf names { s.kernel with
            term := (0x0A :: sent).foldl terminalPutchar s.kernel.term }).term ∧
      namespaceOf t.kernel = namespaceOf s.kernel ∧ Devices (leased (inputs ++ [i])) t := by
  -- a line that reports returns to the shell and is no command on files
  obtain ⟨hkind, hfile, -⟩ := returns_of_report hreport
  have hkind : commandKind cmd = .returns := (commandKind_of_other hparse).trans hkind
  have hfile : (parseCommand cmd).fileCommand i.hw.stack = none := by
    rw [hparse]
    exact hfile
  obtain ⟨u, names, hprompted⟩ := hstep.prompts h hexec hkind hfile
  obtain ⟨fuel, hrun⟩ := hprompted.run
  have hanswered := h.mono LiveStep.answers
  have hbefore := devices_of_run hanswered
  have hdevices : Devices (leased inputs) (s.echoed i.key) := ⟨hbefore.net, hbefore.procs⟩
  have hinvoke : (s.echoed i.key).invoke i.hw fuel (invocation args) = some u := by
    rw [Live.execute, hparse] at hrun
    exact hrun
  have hterm := Live.invoke_reports hdevices hprompted.session.mode hreport hinvoke
  refine ⟨names, hprompted.leads, ?_, hprompted.same, devices_of_run (hanswered.snoc hstep.answers)⟩
  rw [hprompted.kernel]
  exact promptOf_term names hterm

theorem parseCommand_lease : parseCommand "dhcpcd eth0" = .other ["dhcpcd", "eth0"] := by
  decide +kernel

theorem parseCommand_pingA : parseCommand "ping a" = .other ["ping", "a"] := by
  decide +kernel

theorem tame_of_report (lease : Bool) {cmd : CString} {args : List CString} {sent : List UInt8}
    (hparse : parseCommand cmd = .other args) (hreport : report lease (invocation args) = some sent)
    (hsafe : ∀ m, LineSafe m cmd) : Tame cmd := by
  obtain ⟨-, hfile, hnew⟩ := returns_of_report hreport
  refine tame_of_silent ?_ (fun stack => ?_) hsafe
  · rw [hparse]
    exact hnew
  · rw [hparse]
    exact hfile

/-- `ping`, once there is a network. -/
theorem live_reports_ping : ∃ (s t : Live) (names : List CString),
    (namespaceOf s.kernel).Leads names (namespaceOf s.kernel).cwd ∧
      t.kernel.term
        = (promptOf names { s.kernel with
            term := (0x0A :: (CString.bytes "PING simulator a" ++ pingText.bytes)).foldl terminalPutchar
              s.kernel.term }).term := by
  let inputs : List Input := inputsFor "root\n1\ndhcpcd eth0\nping a"
  have hevents : outputs Console.press Console.event Console.boot
      (Console.typing "root\n1\ndhcpcd eth0\nping a" ++ [.enter])
        = [.ran 0 "dhcpcd eth0", .ran 0 "ping a"] := by
    decide +kernel
  -- neither line does anything to the files or the terminals
  have hlease : Tame "dhcpcd eth0" := by
    refine tame_of_report false parseCommand_lease rfl fun m => ?_
    unfold LineSafe
    rw [parseCommand_lease]
    show strlen "eth0" ≤ 234
    decide
  have hping : Tame "ping a" := by
    refine tame_of_report false parseCommand_pingA rfl fun m => ?_
    unfold LineSafe
    rw [parseCommand_pingA]
    intro _
    show strlen "a" ≤ 239
    decide
  obtain ⟨t, hrun⟩ := exists_liveRun_still hevents fun tty cmd hmem => by
    rcases List.mem_cons.mp hmem with heq | hmem
    · cases heq
      exact hlease
    · cases List.mem_singleton.mp hmem
      exact hping
  rw [List.map_append, List.map_singleton] at hrun
  obtain ⟨s, hfront, hstep⟩ := hrun.of_snoc
  have hexec : s.console.executed .enter = some "ping a" := by
    rw [console_of_run hfront]
    decide +kernel
  have hleased : leased inputs = true := by
    decide +kernel
  have hreport : report (leased inputs) (invocation ["ping", "a"])
      = some (CString.bytes "PING simulator a" ++ pingText.bytes) := by
    rw [hleased]
    decide +kernel
  obtain ⟨names, hleads, hterm, -, -⟩ := live_reports hfront hstep hexec parseCommand_pingA hreport
  exact ⟨s, t, names, hleads, hterm⟩

end Srunix
