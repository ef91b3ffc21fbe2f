import Srunix.Library.Parts
import Srunix.Shell.Namespace

/-!
# Every name is on its own

Nine terminals take turns at the files. A turn is a command, with the directory
its terminal stands in and whether there is room for another name. It touches
one entry at most, the one it names in that directory; so what becomes of an
entry is what the turns that name it make of it, in their order, whatever goes
on between them.
-/

namespace Srunix

open Library

/-- A command on files, when its turn comes. -/
structure Turn where
  dir : Nat
  room : Bool
  cmd : ShellCmd

/-- The name a command touches in the working directory. -/
def ShellCmd.target : ShellCmd → Option CString
  | .touch filename | .mkdir filename | .redirect filename _ | .append filename _ _ => some filename.str
  | .rm name _ => some name
  | .cd _ | .switchTty _ | .login => none

/-- The entry a turn names. -/
def Turn.entry (turn : Turn) : Option (Nat × CString) := turn.cmd.target.map fun name => (turn.dir, name)

/-! ## An entry -/

/-- A new name is given if it may be one, is not there yet and there is room. -/
def entryMade (room : Bool) (name : Name) (nd : Node) (old : Option Node) : Option Node :=
  if isValidFilename name.str = true ∧ old = none ∧ room = true then some nd else old

/-- A write, seen from the entry: a file gets the content, and a free name a new file. -/
def entryWritten (room : Bool) (name : Name) (content : List UInt8) : Option Node → Option Node
  | some (.file _) => some (.file content)
  | old => entryMade room name (.file content) old

/-- The text below what is there. -/
def textBelow (text : List UInt8) : Option Node → List UInt8
  | some (.file old) => joined old text
  | _ => text

/-- A removal, seen from the entry. -/
def entryRemoved (recursive : Bool) : Option Node → Option Node
  | none | some (.file _) => none
  | some (.dir n) => if recursive then none else some (.dir n)

/-- What a turn makes of the entry it names. -/
def EntryStep (old : Option Node) (turn : Turn) (new : Option Node) : Prop :=
  match turn.cmd with
  | .touch filename => new = entryMade turn.room filename (.file []) old
  | .mkdir dirname => ∃ n, new = entryMade turn.room dirname (.dir n) old
  | .rm _ recursive => new = entryRemoved recursive old
  | .redirect filename text => new = entryWritten turn.room filename text.bytes old
  | .append filename text _ => new = entryWritten turn.room filename (textBelow text.bytes old) old
  | .cd _ | .switchTty _ | .login => new = old

/-- A turn in a namespace. -/
structure Takes (ns : Namespace) (turn : Turn) (ns' : Namespace) : Prop where
  dir : turn.dir = ns.cwd
  room : turn.room = decide (ns.count < maxNames)
  step : NsStep ns turn.cmd ns'

theorem exists_takes {ns ns' : Namespace} {c : ShellCmd} (h : NsStep ns c ns') :
    ∃ turn : Turn, turn.cmd = c ∧ Takes ns turn ns' :=
  ⟨⟨ns.cwd, decide (ns.count < maxNames), c⟩, rfl, rfl, rfl, h⟩

/-! ## The names as parts -/

namespace Namespace

variable (ns : Namespace)

/-- What `make` does to each entry. -/
theorem make_node (name : Name) (nd : Node) (p : Nat × CString) :
    (ns.make name nd).node p = if p = (ns.cwd, name.str) then
      entryMade (decide (ns.count < maxNames)) name nd (ns.node p) else ns.node p := by
  rw [make]
  split
  · rename_i hok
    obtain ⟨hvalid, hnone, hcount⟩ := hok
    show Function.update ns.node (ns.cwd, name.str) (some nd) p = _
    by_cases hp : p = (ns.cwd, name.str)
    · subst hp
      have hnone : ns.node (ns.cwd, name.str) = none := hnone
      rw [Function.update_self, if_pos rfl, entryMade, if_pos ⟨hvalid, hnone, decide_eq_true hcount⟩]
    · rw [Function.update_of_ne hp, if_neg hp]
  · rename_i hno
    split
    · rename_i hp
      subst hp
      rw [entryMade, if_neg fun hok => hno ⟨hok.1, hok.2.1, of_decide_eq_true hok.2.2⟩]
    · rfl

/-- What `write` does to each entry. -/
theorem write_node (name : Name) (content : List UInt8) (p : Nat × CString) :
    (ns.write name content).node p = if p = (ns.cwd, name.str) then
      entryWritten (decide (ns.count < maxNames)) name content (ns.node p) else ns.node p := by
  rw [write]
  split
  -- a file of that name gets the content, anything else is made anew
  · rename_i old hold
    have hold : ns.node (ns.cwd, name.str) = some (.file old) := hold
    show Function.update ns.node (ns.cwd, name.str) (some (.file content)) p = _
    by_cases hp : p = (ns.cwd, name.str)
    · subst hp
      rw [Function.update_self, if_pos rfl, hold]
      rfl
    · rw [Function.update_of_ne hp, if_neg hp]
  · rename_i hno
    rw [make_node]
    split
    · rename_i hp
      subst hp
      rw [entryWritten]
      intro old hold
      exact hno old hold
    · rfl

/-- What `remove` does to each entry. -/
theorem remove_node (name : CString) (recursive : Bool) (p : Nat × CString) :
    (ns.remove name recursive).node p = if p = (ns.cwd, name) then
      entryRemoved recursive (ns.node p) else ns.node p := by
  have hunset : ∀ p, (ns.unset name).node p = if p = (ns.cwd, name) then none else ns.node p := by
    intro p
    show Function.update ns.node (ns.cwd, name) none p = _
    rw [Function.update_apply]
  by_cases hp : p = (ns.cwd, name)
  · subst hp
    rw [if_pos rfl, remove]
    have hget : ns.get name = ns.node (ns.cwd, name) := rfl
    cases hnode : ns.node (ns.cwd, name) with
    | none =>
      rw [hget, hnode]
      exact hnode
    | some nd =>
      rw [hget, hnode]
      cases nd with
      | file content => exact (hunset _).trans (if_pos rfl)
      | dir n =>
        cases recursive with
        | true => exact (hunset _).trans (if_pos rfl)
        | false => exact hnode
  -- every branch leaves the other entries alone
  · rw [if_neg hp, remove]
    split
    · rfl
    · exact (hunset p).trans (if_neg hp)
    · split
      · exact (hunset p).trans (if_neg hp)
      · rfl

theorem textBelow_node (name : CString) (text : List UInt8) :
    textBelow text (ns.node (ns.cwd, name)) = ns.withText name text := by
  have hget : ns.get name = ns.node (ns.cwd, name) := rfl
  rw [withText, hget]
  cases ns.node (ns.cwd, name) with
  | none => rfl
  | some nd => cases nd <;> rfl

end Namespace

/-- `cd` changes no entry. -/
theorem Namespace.Goes.node {ns ns' : Namespace} {dirname : Option CString} (h : ns.Goes dirname ns') :
    ns'.node = ns.node := by
  unfold Goes at h
  cases dirname with
  | none =>
    cases h
    rfl
  | some dirname =>
    dsimp only at h
    split at h
    · cases h
      rfl
    split at h
    · obtain ⟨p, name, -, rfl⟩ := h
      rfl
    · split at h
      · cases h
        rfl
      · cases h
        rfl

theorem Namespace.switchTo_node (ns : Namespace) (ttyNum : Int) : (ns.switchTo ttyNum).node = ns.node := by
  rw [switchTo]
  split <;> rfl

/-- What a turn does to the entry it names. -/
theorem Takes.own {ns ns' : Namespace} {turn : Turn} (h : Takes ns turn ns') {p : Nat × CString}
    (hentry : turn.entry = some p) : EntryStep (ns.node p) turn (ns'.node p) := by
  obtain ⟨dir, room, cmd⟩ := turn
  obtain ⟨rfl, rfl, hstep⟩ := h
  cases cmd with
  | touch filename =>
    cases hentry
    cases hstep
    exact (ns.make_node filename (.file []) _).trans (if_pos rfl)
  | mkdir dirname =>
    cases hentry
    obtain ⟨n, -, rfl⟩ := hstep
    exact ⟨n, (ns.make_node dirname (.dir n) _).trans (if_pos rfl)⟩
  | rm name recursive =>
    cases hentry
    cases hstep
    exact (ns.remove_node name recursive _).trans (if_pos rfl)
  | redirect filename text =>
    cases hentry
    cases hstep
    exact (ns.write_node filename text.bytes _).trans (if_pos rfl)
  | append filename text stack =>
    cases hentry
    cases hstep
    have hbelow := ns.textBelow_node filename.str text.bytes
    show _ = entryWritten _ filename (textBelow text.bytes (ns.node (ns.cwd, filename.str))) _
    rw [hbelow]
    exact (ns.write_node filename _ _).trans (if_pos rfl)
  -- these name no entry
  | cd | switchTty | login => cases hentry

/-- A turn leaves all other entries as they are. -/
theorem Takes.other {ns ns' : Namespace} {turn : Turn} (h : Takes ns turn ns') {p : Nat × CString}
    (hentry : turn.entry ≠ some p) : ns'.node p = ns.node p := by
  obtain ⟨dir, room, cmd⟩ := turn
  obtain ⟨rfl, rfl, hstep⟩ := h
  -- a command that names an entry names this one only
  have hne : ∀ {name : CString}, cmd.target = some name → p ≠ (ns.cwd, name) := by
    rintro name htarget rfl
    exact hentry (congrArg (Option.map fun name => (ns.cwd, name)) htarget)
  cases cmd with
  | touch filename =>
    cases hstep
    exact (ns.make_node filename (.file []) p).trans (if_neg (hne rfl))
  | mkdir dirname =>
    obtain ⟨n, -, rfl⟩ := hstep
    exact (ns.make_node dirname (.dir n) p).trans (if_neg (hne rfl))
  | rm name recursive =>
    cases hstep
    exact (ns.remove_node name recursive p).trans (if_neg (hne rfl))
  | redirect filename text =>
    cases hstep
    exact (ns.write_node filename text.bytes p).trans (if_neg (hne rfl))
  | append filename text stack =>
    cases hstep
    exact (ns.write_node filename _ p).trans (if_neg (hne rfl))
  | cd dirname => exact congrFun hstep.node p
  | switchTty ttyNum =>
    cases hstep
    exact congrFun (ns.switchTo_node ttyNum) p
  | login =>
    cases hstep
    rfl

/-- The namespace is made of its entries: a turn changes the one it names. -/
theorem madeOfNames : MadeOfParts Takes Turn.entry (fun p ns => ns.node p) EntryStep :=
  ⟨fun h hentry => h.own hentry, fun h hentry => h.other hentry⟩

end Srunix
