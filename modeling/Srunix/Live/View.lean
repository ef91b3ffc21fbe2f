import Srunix.Shell.Whereabouts
import Srunix.Console.Echo
import Srunix.Live.Login
import Srunix.Live.Refinement

/-!
# What the user gets to see

The commands that only print show the namespace: `ls` the names of the working
directory, `cat` the content of a file, `pwd` and the prompt the way to the
working directory (`live_view`). Together with `live_refines`, what is read on
the screen after any session is what the lines before it were for.
-/

namespace Srunix

open Library

/-! ## Where the terminals stand -/

/-- A directory has one name, since its inode has one entry. -/
theorem FilesInv.oneName {s : KernelState} {m : Store} (h : FilesInv s.fs m) (hshell : ShellInv s) :
    (namespaceOf s).OneName := by
  intro p q n hp hq
  obtain ⟨e, he, hpath, hnode⟩ := (nodes_eq_some_iff h.names).mp hp
  obtain ⟨e', he', hpath', hnode'⟩ := (nodes_eq_some_iff h.names).mp hq
  have hinode : ∀ {e : File}, nodeOf s.fs e = .dir n → e.inode = n := by
    intro e hnode
    rw [nodeOf] at hnode
    split at hnode
    · exact Node.dir.inj hnode
    · cases hnode
  have hsame := hshell.tree.dirTree.eq_of_inode he he' ((hinode hnode).trans (hinode hnode').symm)
  rw [← hpath, ← hpath', hsame]

/-- The root has an entry in itself. -/
theorem FilesInv.root_node {s : KernelState} {m : Store} (h : FilesInv s.fs m) (hshell : ShellInv s) :
    ∃ name, (namespaceOf s).node (1, name) = some (.dir 1) := by
  obtain ⟨e, he, hinode, hparent⟩ := hshell.tree.dirTree.root
  obtain ⟨e', he', hinode', htype⟩ := hshell.tree.dirTree.parentDir e he
  obtain rfl := hshell.tree.dirTree.eq_of_inode he he' (hinode.trans (hparent.symm.trans hinode'.symm))
  refine ⟨e.name, ?_⟩
  have hnode := nodes_of_mem h.names he
  rw [nodeOf_dir htype, hinode] at hnode
  rw [← hnode]
  exact congrArg (nodes s.fs) (Prod.ext hparent.symm rfl)

/-- The names of the namespace are those of the entries. -/
theorem FilesInv.pathTo_of_leads {s : KernelState} {m : Store} (h : FilesInv s.fs m)
    {names : List CString} {n : Nat} (hleads : (namespaceOf s).Leads names n) :
    PathTo s.fs names n := by
  refine Steps.mono hleads fun {p name n} hdown => ⟨hdown.nonempty, hdown.notParent, ?_, hdown.notRoot⟩
  obtain ⟨e, he, hpath, hnode⟩ := (nodes_eq_some_iff h.names).mp hdown.entry
  rw [nodeOf] at hnode
  split at hnode
  · rename_i htype
    exact ⟨e, he, congrArg Prod.fst hpath, congrArg Prod.snd hpath, htype, Node.dir.inj hnode⟩
  · cases hnode

/-- A command that a key completes keeps clear of what goes wrong. -/
theorem KeyOk.removable {hw : Hardware} {s : Live} {k : Key} (h : KeyOk hw s k) {c : ShellCmd}
    (hc : s.console.fileCommand hw.stack k = some c) : (namespaceOf s.kernel).Removable c := by
  cases k with
  | function ttyNum =>
    have hswitch : c = .switchTty ttyNum.val := by
      unfold Console.fileCommand at hc
      dsimp only at hc
      split at hc
      · cases hc
      · cases hc
      · exact (Option.some.inj hc).symm
    rw [hswitch]
    trivial
  | char ch =>
    obtain ⟨cmd, hexec, hfile⟩ := Option.bind_eq_some_iff.mp hc
    exact ((h cmd hexec).file c hfile).removable

theorem placed_boot : (namespaceOf (loginScreen kernelMain)).Placed := by
  have hdirs : ∀ t < maxTtys, ttyDir kernelMain t = 1 := by
    decide +kernel
  rw [(loginScreen_prints kernelMain).namespaceOf]
  intro t ht
  have hdir : (namespaceOf kernelMain).dir t = 1 := hdirs t ht
  rw [hdir]
  exact ⟨[], .nil 1⟩

/-- In every good run the terminals stand in directories that names lead to. -/
theorem placed_of_run {inputs : List Input} {s : Live} (h : LiveRun inputs s) :
    (namespaceOf s.kernel).Placed := by
  let Inv : Live → Prop := fun s => (namespaceOf s.kernel).Placed
  have hboot : Inv Live.boot := placed_boot
  have hinv : Inv s := by
    refine h.invariant_of_run hboot fun {done u i t} hrun hstep hplaced => ?_
    have hns := hstep.namespace hrun
    have hsession := session_of_run hrun
    obtain ⟨m, hfiles⟩ := hsession.files
    have hshell := hsession.shell
    -- no command on files: the namespace is what it was
    cases hc : u.console.fileCommand i.hw.stack i.key with
    | none =>
      rw [hc] at hns
      have hsame : namespaceOf t.kernel = namespaceOf u.kernel := hns
      show (namespaceOf t.kernel).Placed
      rw [hsame]
      exact hplaced
    | some c =>
      rw [hc] at hns
      exact Namespace.Placed.step hplaced (hfiles.oneName hshell) hshell.currentTty_lt
        (hfiles.root_node hshell) (hstep.ok.removable hc) hns
  exact hinv

/-! ## `ls` -/

/-- The names of the working directory, each once. -/
structure Lists (ns : Namespace) (listing : List (CString × Node)) : Prop where
  names : (listing.map Prod.fst).Nodup
  mem_iff : ∀ {name nd}, (name, nd) ∈ listing ↔ ns.get name = some nd

/-- A name in a listing. -/
def lsTexts (entry : CString × Node) : List CString :=
  [entry.1, match entry.2 with
    | .dir _ => "/ "
    | .file _ => "  "]

theorem lsEntry_eq (fs : Bkfs) (e : File) : lsEntry e = (lsTexts (e.name, nodeOf fs e)).map .text := by
  rw [lsEntry, lsTexts]
  by_cases htype : e.type = fileDir
  · rw [if_pos htype, nodeOf_dir htype]
    rfl
  · rw [if_neg htype, nodeOf_file htype]
    rfl

/-- `ls` prints the entries of the working directory, as the namespace has them. -/
theorem FilesInv.executeLs_lists {s : KernelState} {m : Store} (h : FilesInv s.fs m) (hshell : ShellInv s) :
    ∃ listing, Lists (namespaceOf s) listing ∧
      executeLs s.fs = ((CString.empty :: listing.flatMap lsTexts) ++ [CString.ofString "\n"]).map .text := by
  let here : List File := (liveEntries s.fs).filter fun e => e.parentInode == s.fs.currentInode
  have hhere : ∀ {e}, e ∈ here ↔ e ∈ liveEntries s.fs ∧ e.parentInode = s.fs.currentInode := by
    intro e
    rw [List.mem_filter, beq_iff_eq]
  -- no blank entry is in a directory
  have hlive : (entries s.fs).filter (fun e => e.parentInode == s.fs.currentInode) = here := by
    rw [show here = _ from List.filter_filter]
    refine List.filter_congr fun e he => ?_
    cases hparent : e.parentInode == s.fs.currentInode with
    | false => rfl
    | true =>
      have hne : e.parentInode ≠ 0 := (beq_iff_eq.mp hparent) ▸ hshell.cur_ne_zero
      have hinode := (mem_liveEntries.mp (h.store.entries.live_of_parent he hne)).2
      simp [hinode]
  have hpath : ∀ {e}, e ∈ here → e.path = (s.fs.currentInode, e.name) :=
    fun he => Prod.ext (hhere.mp he).2 rfl
  refine ⟨here.map fun e => (e.name, nodeOf s.fs e), ⟨?_, ?_⟩, ?_⟩
  · rw [List.map_map]
    have hnodup : here.Nodup := (List.Nodup.of_map _ h.names).filter _
    refine hnodup.map_on fun e he e' he' hname => ?_
    exact List.inj_on_of_nodup_map h.names (hhere.mp he).1 (hhere.mp he').1
      ((hpath he).trans ((congrArg _ hname).trans (hpath he').symm))
  · intro name nd
    rw [List.mem_map, get_namespaceOf, nodes_eq_some_iff h.names]
    constructor
    · rintro ⟨e, he, heq⟩
      cases heq
      exact ⟨e, (hhere.mp he).1, hpath he, rfl⟩
    · rintro ⟨e, he, heq, rfl⟩
      have hname : e.name = name := congrArg Prod.snd heq
      refine ⟨e, hhere.mpr ⟨he, congrArg Prod.fst heq⟩, ?_⟩
      rw [hname]
  · have hlines : here.flatMap lsEntry
        = here.flatMap fun e => (lsTexts (e.name, nodeOf s.fs e)).map Out.text :=
      List.flatMap_congr fun e _ => lsEntry_eq s.fs e
    have hrow : (here.map fun e => (e.name, nodeOf s.fs e)).flatMap lsTexts
        = here.flatMap fun e => lsTexts (e.name, nodeOf s.fs e) := List.flatMap_map ..
    rw [executeLs, hlive, hlines, hrow, List.map_append, List.map_cons, List.map_flatMap]
    rfl

/-! ## `cat` -/

/-- `cat` shows the first block of a file. -/
theorem FilesInv.executeCat_file {s : KernelState} {m : Store} (h : FilesInv s.fs m) (hshell : ShellInv s)
    {name : CString} {d : List UInt8} (hget : (namespaceOf s).get name = some (.file d))
    (stack : Nat → UInt8) :
    (executeCat s.fs name stack).1.flatMap TermCall.sent = d.take blockSize ++ [0x0A] := by
  rw [get_namespaceOf] at hget
  rcases h.findRegular_cases hshell.cur_ne_zero name with
    ⟨i, hfound, hlive, hpath, htype⟩ | ⟨-, hnone⟩
  swap
  · exact absurd hget (hnone d)
  obtain ⟨old, hold, hlen, hnode⟩ := h.file_of_mem hlive htype
  rw [hpath, hget] at hnode
  obtain rfl : d = old.bytes := Node.file.inj (Option.some.inj hnode)
  have hfile : FileIs s.fs name old.bytes :=
    ⟨i, hfound, liveInode_iff.mpr ⟨_, hlive, rfl⟩, h.store.refines.holds _ _ hold⟩
  exact executeCat_take ⟨h.store.wf, h.store.entries⟩ hfile stack

/-- `terminal_printf` with one conversion, for an argument that has no `\0` in it. -/
theorem sent_printf (text conv rest : CString) (arg : PrintfArg) (htext : 0x25 ∉ text.bytes)
    (hconv : conv.bytes = [0x25, arg.letter]) (hrest : 0x25 ∉ rest.bytes) (harg : 0 ∉ arg.render) :
    (TermCall.printf (text ++ conv ++ rest) [arg]).sent = text.bytes ++ arg.render ++ rest.bytes := by
  have hbehind : printfLoop rest.bytes [] = rest.bytes := by
    have hloop := printfLoop_text hrest [] []
    rwa [List.append_nil, printfLoop, List.append_nil] at hloop
  have hone : printfLoop (conv.bytes ++ rest.bytes) [arg] = arg.render ++ rest.bytes := by
    rw [hconv]
    conv_rhs => rw [← hbehind]
    cases arg <;> rfl
  have hformat : printfLoop (text ++ conv ++ rest).bytes [arg] = text.bytes ++ arg.render ++ rest.bytes := by
    rw [CString.bytes_append, CString.bytes_append, List.append_assoc, printfLoop_text htext, hone,
      List.append_assoc]
  -- neither the text nor what is shown of the argument ends the string
  have hbytes : ∀ c ∈ text.bytes ++ arg.render ++ rest.bytes, decide (c ≠ 0) = true := by
    intro c hc
    rw [List.mem_append, List.mem_append] at hc
    refine decide_eq_true ?_
    rintro rfl
    rcases hc with (hc | hc) | hc
    · exact text.nulFree hc
    · exact harg hc
    · exact rest.nulFree hc
  rw [TermCall.sent, hformat, List.takeWhile_eq_self_iff.mpr hbytes]

/-- `cat` of what is no file. -/
theorem FilesInv.executeCat_other {s : KernelState} {m : Store} (h : FilesInv s.fs m) (hshell : ShellInv s)
    {name : CString} (hget : ∀ d, (namespaceOf s).get name ≠ some (.file d)) (stack : Nat → UInt8) :
    (executeCat s.fs name stack).1.flatMap TermCall.sent
      = CString.bytes "File not found: " ++ name.bytes ++ [0x0A] := by
  rcases h.findRegular_cases hshell.cur_ne_zero name with
    ⟨i, -, hlive, hpath, htype⟩ | ⟨hnone, -⟩
  · obtain ⟨old, -, -, hnode⟩ := h.file_of_mem hlive htype
    rw [hpath, ← get_namespaceOf] at hnode
    exact absurd hnode (hget _)
  · rw [executeCat, hnone]
    show [TermCall.printf _ _].flatMap TermCall.sent = _
    rw [List.flatMap_singleton]
    exact sent_printf "File not found: " "%s" "\n" (.str name) (by decide) rfl (by decide) name.nulFree

/-! ## On the screen -/

/-- Calls are the characters they send, one by one. -/
theorem foldl_run_eq {t : Terminal} (hmode : t.smouseMode = false) (calls : List TermCall) :
    calls.foldl TermCall.run t = (calls.flatMap TermCall.sent).foldl terminalPutchar t := by
  induction calls generalizing t with
  | nil => rfl
  | cons c calls ih =>
    have hmode' : (c.run t).smouseMode = false := (Undisturbed.termCall t c).mouse.trans hmode
    rw [List.foldl_cons, ih hmode', List.flatMap_cons, List.foldl_append, TermCall.run_eq, hmode]
    rfl

theorem KernelState.prints_calls {k : KernelState} (hmode : k.term.smouseMode = false)
    (calls : List TermCall) :
    (k.prints (calls.map .call)).term = (calls.flatMap TermCall.sent).foldl terminalPutchar k.term := by
  have hrun : (k.prints (calls.map .call)).term = calls.foldl TermCall.run k.term := by
    clear hmode
    induction calls generalizing k with
    | nil => rfl
    | cons c calls ih => exact ih
  rw [hrun, foldl_run_eq hmode]

theorem KernelState.prints_texts {k : KernelState} (hmode : k.term.smouseMode = false)
    (texts : List CString) :
    (k.prints (texts.map .text)).term = (texts.flatMap CString.bytes).foldl terminalPutchar k.term := by
  have hcalls := KernelState.prints_calls hmode (texts.map .writestring)
  rw [List.map_map, List.flatMap_map] at hcalls
  exact hcalls

/-- What a command that only looks at the files puts on the screen. -/
inductive Tells (ns : Namespace) : Command → List UInt8 → Prop where
  | ls {args : List CString} {listing : List (CString × Node)} (hinv : invocation args = .ls)
      (hlists : Lists ns listing) :
      Tells ns (.other args) ((listing.flatMap lsTexts).flatMap CString.bytes ++ [0x0A])
  | pwd {args names : List CString} (hinv : invocation args = .pwd) (hleads : ns.Leads names ns.cwd) :
      Tells ns (.other args) ((slashed names).bytes ++ [0x2F, 0x0A])
  | cat {name : CString} {d : List UInt8} (hget : ns.get name = some (.file d)) :
      Tells ns (.cat (some name)) (d.take blockSize ++ [0x0A])
  | catOther {name : CString} (hget : ∀ d, ns.get name ≠ some (.file d)) :
      Tells ns (.cat (some name)) (CString.bytes "File not found: " ++ name.bytes ++ [0x0A])

/-- `ls`, `pwd` and `cat`. -/
def Command.Looks : Command → Prop
  | .other args => invocation args = .ls ∨ invocation args = .pwd
  | .cat filename => filename ≠ none
  | _ => False

/-- The prompt of a directory that `names` lead to. -/
def promptOf (names : List CString) (k : KernelState) : KernelState :=
  promptEnd ((promptStart k).writestring (slashed names))

namespace Live

variable {hw : Hardware} {fuel fuel' : Nat} {s s' : Live}

/-- The command sends what it should. -/
theorem execute_looks {ns : Namespace} (h : SessionInv s.kernel ns) {names : List CString}
    (hleads : ns.Leads names ns.cwd) {cmd : CString} (hlooks : (parseCommand cmd).Looks)
    (hrun : s.execute hw fuel cmd = some s') :
    ∃ sent, Tells ns (parseCommand cmd) sent ∧
      s'.kernel.term = sent.foldl terminalPutchar s.kernel.term := by
  obtain rfl := h.view
  obtain ⟨m, hfiles⟩ := h.files
  cases hparse : parseCommand cmd with
  | other args =>
    rw [hparse] at hlooks
    rw [execute, hparse] at hrun
    rcases hlooks with hls | hpwd
    -- `ls`: the calls of printf draw their characters one after the other
    · obtain ⟨listing, hlists, houts⟩ := hfiles.executeLs_lists h.shell
      refine ⟨_, .ls hls hlists, ?_⟩
      have hkernel : some (s.prints (executeLs s.kernel.fs)) = some s' := by
        rw [← hrun]
        show _ = s.invoke hw fuel (invocation args)
        rw [hls]
        rfl
      cases hkernel
      show (s.kernel.prints (executeLs s.kernel.fs)).term = _
      rw [houts, KernelState.prints_texts h.mode, List.flatMap_append, List.flatMap_cons]
      rfl
    -- `pwd`: the walk settles, so the fuel of the run does not matter
    · have hpath := hfiles.pathTo_of_leads hleads
      rw [cwd_namespaceOf] at hpath
      refine ⟨_, .pwd hpwd hleads, ?_⟩
      have hkernel : (executePwd fuel s.kernel).map s.withKernel = some s' := by
        rw [← hrun]
        show _ = s.invoke hw fuel (invocation args)
        rw [hpwd]
        rfl
      obtain ⟨k, hk, rfl⟩ := Option.map_eq_some_iff.mp hkernel
      obtain ⟨fuel₁, hwalk⟩ := executePwd_of_path h.shell.tree.dirTree.walkable hpath
      obtain rfl := (settles_executePwd s.kernel).unique hk hwalk
      have hbytes : [CString.empty, slashed names ++ "/", "\n"].flatMap CString.bytes
          = (slashed names).bytes ++ [0x2F, 0x0A] := by
        show (slashed names).bytes ++ [0x2F] ++ [0x0A] = _
        rw [List.append_assoc]
        rfl
      have htexts := KernelState.prints_texts h.mode [CString.empty, slashed names ++ "/", "\n"]
      rw [hbytes] at htexts
      exact htexts
  | cat filename =>
    cases filename with
    | none =>
      rw [hparse] at hlooks
      cases hlooks rfl
    | some name =>
      rw [execute, hparse] at hrun
      have hcat : some (s.withKernel ⟨(executeCat s.kernel.fs name hw.stack).2,
          (executeCat s.kernel.fs name hw.stack).1.foldl TermCall.run s.kernel.term⟩) = some s' := hrun
      cases hcat
      show ∃ sent, _ ∧ (executeCat s.kernel.fs name hw.stack).1.foldl TermCall.run s.kernel.term = _
      rw [foldl_run_eq h.mode]
      by_cases hfile : ∃ d, (namespaceOf s.kernel).get name = some (.file d)
      · obtain ⟨d, hget⟩ := hfile
        rw [hfiles.executeCat_file h.shell hget]
        exact ⟨_, .cat hget, rfl⟩
      · have hget : ∀ d, (namespaceOf s.kernel).get name ≠ some (.file d) := fun d hd => hfile ⟨d, hd⟩
        rw [hfiles.executeCat_other h.shell hget]
        exact ⟨_, .catOther hget, rfl⟩
  | _ =>
    -- no other line looks at files
    rw [hparse] at hlooks
    cases hlooks

/-- The console after a key, and the newline on the screen. -/
def echoed (s : Live) (k : Key) : Live := putchar { s with console := s.console.press k } 0x0A

/-- The key that completes a line: its echo, the command, the prompt. -/
theorem press_of_executed {i : Input} {cmd : CString} (hexec : s.console.executed i.key = some cmd)
    (hpress : s.press i.hw fuel fuel' i.key = some s') :
    ∃ u, (s.echoed i.key).execute i.hw fuel cmd = some u ∧ u.prompted fuel' = some s' := by
  obtain ⟨ch, line, rest, hkey, hstack, hcmd⟩ := Console.executed_eq_some hexec
  obtain ⟨hnl, -⟩ := Console.pos_of_executes hcmd
  have hecho : echoChar s.kernel.term (line, s.console.history) ch = terminalPutchar s.kernel.term 0x0A :=
    if_pos hnl
  rw [hkey] at hpress ⊢
  rw [press_line hstack, shellKey, hcmd] at hpress
  dsimp only [withKernel] at hpress
  rw [hecho] at hpress
  exact Option.bind_eq_some_iff.mp hpress

/-- The prompt shows the way that names lead. -/
theorem prompted_of_path {ns : Namespace} (h : SessionInv s.kernel ns) {names : List CString}
    (hleads : ns.Leads names ns.cwd) {line : Line} {rest : List Frame}
    (hstack : s.console.stack = .shell line :: rest) (hrun : s.prompted fuel = some s') :
    s'.kernel = promptOf names s.kernel := by
  obtain rfl := h.view
  obtain ⟨m, hfiles⟩ := h.files
  have hpath := hfiles.pathTo_of_leads hleads
  rw [cwd_namespaceOf] at hpath
  unfold prompted at hrun
  rw [hstack] at hrun
  obtain ⟨k, hk, rfl⟩ := Option.map_eq_some_iff.mp hrun
  obtain ⟨fuel₁, hprompt⟩ := printPrompt_of_path h.shell.tree.dirTree.walkable hpath
  exact (settles_printPrompt s.kernel).unique hk hprompt

end Live

/-- The commands that look at the files come back to the prompt. -/
theorem Command.Looks.returns {cmd : CString} (h : (parseCommand cmd).Looks) (stack : Nat → UInt8) :
    commandKind cmd = .returns ∧ (parseCommand cmd).fileCommand stack = none ∧
      (parseCommand cmd).newNames = [] := by
  cases hparse : parseCommand cmd with
  | other args =>
    rw [hparse] at h
    rw [commandKind_of_other hparse, Command.fileCommand, Command.newNames]
    rcases h with hinv | hinv
    · rw [hinv]
      exact ⟨rfl, rfl, rfl⟩
    · rw [hinv]
      exact ⟨rfl, rfl, rfl⟩
  | cat filename =>
    have hkind : commandKind cmd = .returns := commandKind_of_parse fun args hargs => by
      rw [hparse] at hargs
      cases hargs
    exact ⟨hkind, rfl, rfl⟩
  | _ =>
    rw [hparse] at h
    cases h

/-- The kernel after a line that changes no file: the command `u` has carried out,
and the prompt behind it. -/
structure Prompted (i : Input) (s t : Live) (cmd : CString) (u : Live) (names : List CString) : Prop where
  run : ∃ fuel, (s.echoed i.key).execute i.hw fuel cmd = some u
  session : SessionInv (s.echoed i.key).kernel (namespaceOf s.kernel)
  leads : (namespaceOf s.kernel).Leads names (namespaceOf s.kernel).cwd
  kernel : t.kernel = promptOf names u.kernel
  same : namespaceOf t.kernel = namespaceOf s.kernel

/-- A line that changes no file: its command runs, and the prompt comes behind it. -/
theorem LiveStep.prompts {inputs : List Input} {s t : Live} (h : LiveRun inputs s) {i : Input}
    (hstep : LiveStep s i t) {cmd : CString} (hexec : s.console.executed i.key = some cmd)
    (hkind : commandKind cmd = .returns) (hfile : (parseCommand cmd).fileCommand i.hw.stack = none) :
    ∃ u names, Prompted i s t cmd u names := by
  have hbefore := session_of_run h
  obtain ⟨fuel, fuel', hpress⟩ := hstep.answers
  obtain ⟨ch, line, rest, hkey, hstack, hcmd⟩ := Console.executed_eq_some hexec
  -- the working directory has a way to it, whoever made or removed what
  obtain ⟨names, hleads⟩ : ∃ names, (namespaceOf s.kernel).Leads names (namespaceOf s.kernel).cwd :=
    placed_of_run h _ hbefore.shell.currentTty_lt
  obtain ⟨u, hrun, hprompt⟩ := Live.press_of_executed hexec hpress
  have hecho : Quiet s.kernel (s.echoed i.key).kernel := s.quiet_putchar 0x0A
  have hsession := hecho.session _ hbefore
  have hstays : commandKind cmd ≠ .exit := by
    rw [hkind]
    exact nofun
  have hquiet := Live.execute_quiet hsession hfile hstays hrun
  have hsession' := hquiet.kernel.session _ hsession
  -- the key is the Enter of the shell in front
  have hconsole : s.console.press i.key = s.console.edited line rest ch := by
    rw [hkey, Console.press_shell hstack, Console.shellKey, hcmd]
    dsimp only
    rw [Console.executeCommand, hkind]
  have hstack' : u.console.stack = .shell (shellStep (line, s.console.history) ch).1 :: rest := by
    rw [hquiet.console]
    exact congrArg Console.stack hconsole
  have hkernel := Live.prompted_of_path hsession' hleads hstack' hprompt
  have hsame := ((Live.prompted_quiet hprompt).kernel.session _ hsession').view
  exact ⟨u, names, ⟨fuel, hrun⟩, hsession, hleads, hkernel, hsame.symm⟩

/-- What was sent, and the way in the prompt behind it. -/
structure Shown (s t : Live) (command : Command) (sent : List UInt8) (names : List CString) : Prop where
  tells : Tells (namespaceOf s.kernel) command sent
  leads : (namespaceOf s.kernel).Leads names (namespaceOf s.kernel).cwd
  term : t.kernel.term
    = (promptOf names { s.kernel with
        term := (0x0A :: sent).foldl terminalPutchar s.kernel.term }).term
  same : namespaceOf t.kernel = namespaceOf s.kernel

/-- The prompt is drawn on the screen the command leaves, whatever the files are. -/
theorem promptOf_term (names : List CString) {k k' : KernelState} (h : k.term = k'.term) :
    (promptOf names k).term = (promptOf names k').term := by
  obtain ⟨fs, term⟩ := k
  obtain ⟨fs', term'⟩ := k'
  cases h
  rfl

/-- A line that looks at the files, in a run in which nothing goes wrong. -/
theorem LiveStep.looks {inputs : List Input} {s t : Live} (h : LiveRun inputs s) {i : Input}
    (hstep : LiveStep s i t) {cmd : CString} (hexec : s.console.executed i.key = some cmd)
    (hlooks : (parseCommand cmd).Looks) : ∃ sent names, Shown s t (parseCommand cmd) sent names := by
  obtain ⟨hkind, hfile, -⟩ := hlooks.returns i.hw.stack
  obtain ⟨u, names, hprompted⟩ := hstep.prompts h hexec hkind hfile
  obtain ⟨fuel, hrun⟩ := hprompted.run
  obtain ⟨sent, htells, hterm⟩ := Live.execute_looks hprompted.session hprompted.leads hlooks hrun
  refine ⟨sent, names, htells, hprompted.leads, ?_, hprompted.same⟩
  rw [hprompted.kernel]
  exact promptOf_term names hterm

/-- **What the user gets to see.** After any run in which nothing goes wrong, `ls` lists
the names of the working directory, `cat` shows the first block of a file, and `pwd` and
the prompt show the way from the root, which `cd` would take. -/
theorem live_view {inputs : List Input} {s t : Live} (h : LiveRun inputs s) {i : Input}
    (hstep : LiveStep s i t) {cmd : CString} (hexec : s.console.executed i.key = some cmd)
    (hlooks : (parseCommand cmd).Looks) :
    ∃ sent names, Tells (namespaceOf s.kernel) (parseCommand cmd) sent ∧
      (namespaceOf s.kernel).Leads names (namespaceOf s.kernel).cwd ∧
      t.kernel.term
        = (promptOf names { s.kernel with
            term := (0x0A :: sent).foldl terminalPutchar s.kernel.term }).term ∧
      namespaceOf t.kernel = namespaceOf s.kernel := by
  obtain ⟨sent, names, hshown⟩ := hstep.looks h hexec hlooks
  exact ⟨sent, names, hshown.tells, hshown.leads, hshown.term, hshown.same⟩

theorem parseCommand_ls : parseCommand "ls" = .other ["ls"] := by
  decide +kernel

theorem looks_ls : (parseCommand "ls").Looks := by
  rw [parseCommand_ls]
  exact .inl rfl

/-- A line that is no command on files. -/
theorem tame_of_silent {cmd : CString} (hnew : (parseCommand cmd).newNames = [])
    (hfile : ∀ stack, (parseCommand cmd).fileCommand stack = none) (hsafe : ∀ m, LineSafe m cmd) :
    Tame cmd := by
  refine ⟨fun hw s => ⟨fun name hmem => ?_, hsafe _, fun c hc => ?_⟩, fun hstep => ?_⟩
  · rw [hnew] at hmem
    cases hmem
  · rw [hfile] at hc
    cases hc
  · obtain ⟨stack, hns⟩ := hstep
    rw [Event.fileCommand, hfile] at hns
    cases hns
    exact ⟨rfl, rfl⟩

theorem tame_of_looks {cmd : CString} (hlooks : (parseCommand cmd).Looks) (hsafe : ∀ m, LineSafe m cmd) :
    Tame cmd :=
  tame_of_silent (hlooks.returns fun _ => 0).2.2 (fun stack => (hlooks.returns stack).2.1) hsafe

theorem tame_ls : Tame "ls" := by
  refine tame_of_looks looks_ls fun m => ?_
  unfold LineSafe
  rw [parseCommand_ls]
  trivial

/-- `ls`, right after logging in. -/
theorem live_view_ls : ∃ (s t : Live) (sent : List UInt8) (names : List CString),
    Tells (namespaceOf s.kernel) (parseCommand "ls") sent ∧
      (namespaceOf s.kernel).Leads names (namespaceOf s.kernel).cwd ∧
      t.kernel.term
        = (promptOf names { s.kernel with
            term := (0x0A :: sent).foldl terminalPutchar s.kernel.term }).term := by
  have hevents : outputs Console.press Console.event Console.boot
      (Console.typing "root\n1\nls" ++ [.enter]) = [.ran 0 "ls"] := by
    decide +kernel
  obtain ⟨t, hrun⟩ := exists_liveRun_still hevents fun tty cmd hmem => by
    cases List.mem_singleton.mp hmem
    exact tame_ls
  rw [List.map_append, List.map_singleton] at hrun
  obtain ⟨s, hfront, hstep⟩ := hrun.of_snoc
  have hexec : s.console.executed .enter = some "ls" := by
    rw [console_of_run hfront]
    decide +kernel
  obtain ⟨sent, names, htells, hleads, hterm, -⟩ := live_view hfront hstep hexec looks_ls
  exact ⟨s, t, sent, names, htells, hleads, hterm⟩

end Srunix
