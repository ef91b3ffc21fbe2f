import Srunix.Library.Silent
import Srunix.Shell.Namespace

/-!
# Where the terminals stand

In a namespace a directory is a number. `Leads` are the names that lead to it
from the root, in the way `cd` takes them. Whatever a session does, every
terminal stands in a directory that names lead to (`Placed.step`): a directory
is entered by its name or left upwards, and `rm` keeps away from those that lead
to a terminal.
-/

namespace Srunix

open Library

namespace Namespace

/-- `cd name` leads from the directory `p` down to `n`. -/
structure Down (ns : Namespace) (p : Nat) (name : CString) (n : Nat) : Prop where
  nonempty : strlen name ≠ 0
  notParent : name ≠ ".."
  entry : ns.node (p, name) = some (.dir n)
  notRoot : n ≠ 1

/-- The names from the root to the directory `n`. -/
abbrev Leads (ns : Namespace) (names : List CString) (n : Nat) : Prop := Steps ns.Down 1 names n

/-- Every terminal stands in a directory that names lead to. -/
def Placed (ns : Namespace) : Prop := ∀ t < maxTtys, ∃ names, ns.Leads names (ns.dir t)

/-- No directory has two names. -/
def OneName (ns : Namespace) : Prop :=
  ∀ ⦃p q n⦄, ns.node p = some (.dir n) → ns.node q = some (.dir n) → p = q

/-- The directories of `ns` are in `ns'` too. -/
def KeepsDirs (ns ns' : Namespace) : Prop := ∀ ⦃p n⦄, ns.node p = some (.dir n) → ns'.node p = some (.dir n)

variable {ns ns' : Namespace}

/-- Where no directory goes, the ways stay. -/
theorem Placed.of_keepsDirs (h : ns.Placed) (hkeeps : ns.KeepsDirs ns') (hdir : ns'.dir = ns.dir) :
    ns'.Placed := by
  intro t ht
  obtain ⟨names, hleads⟩ := h t ht
  rw [hdir]
  exact ⟨names, hleads.mono fun hdown =>
    ⟨hdown.nonempty, hdown.notParent, hkeeps hdown.entry, hdown.notRoot⟩⟩

/-! ## What keeps the directories -/

theorem keepsDirs_update {p : Nat × CString} {nd : Option Node} (ns : Namespace) {count : Nat}
    (h : ∀ n, ns.node p ≠ some (.dir n)) :
    ns.KeepsDirs { ns with node := Function.update ns.node p nd, count := count } := by
  intro q n hq
  have hne : q ≠ p := by
    rintro rfl
    exact h n hq
  exact (Function.update_of_ne hne _ _).trans hq

theorem make_keepsDirs (ns : Namespace) (name : Name) (nd : Node) : ns.KeepsDirs (ns.make name nd) := by
  rw [make]
  split
  · rename_i hok
    refine ns.keepsDirs_update fun n hn => ?_
    have hnone : ns.node (ns.cwd, name.str) = none := hok.2.1
    rw [hnone] at hn
    cases hn
  · exact fun _ _ => id

theorem write_keepsDirs (ns : Namespace) (name : Name) (content : List UInt8) :
    ns.KeepsDirs (ns.write name content) := by
  rw [write]
  split
  · rename_i old hold
    refine ns.keepsDirs_update fun n hn => ?_
    have hfile : ns.node (ns.cwd, name.str) = some (.file old) := hold
    rw [hfile] at hn
    cases hn
  · exact ns.make_keepsDirs name _

theorem make_dir (ns : Namespace) (name : Name) (nd : Node) : (ns.make name nd).dir = ns.dir := by
  rw [make]
  split <;> rfl

theorem write_dir (ns : Namespace) (name : Name) (content : List UInt8) :
    (ns.write name content).dir = ns.dir := by
  rw [write]
  split
  · rfl
  · exact ns.make_dir name _

/-! ## `rm` -/

/-- A directory with nothing in it is on the way to none but itself. -/
theorem leads_of_unset {p : Nat × CString} {n m : Nat} (hp : ns.node p = some (.dir n))
    (hempty : ∀ inside, ns.node (n, inside) = none)
    (hnode : ns'.node = Function.update ns.node p none) {names : List CString} {q : Nat}
    (h : Steps ns.Down q names m) (hm : m ≠ n) : Steps ns'.Down q names m := by
  induction h with
  | nil => exact .nil _
  | @cons q r m name names hdown hrest ih =>
    have hr : r ≠ n := by
      rintro rfl
      cases hrest with
      | nil => exact hm rfl
      | cons hnext _ => exact absurd ((hempty _).symm.trans hnext.entry) (Option.some_ne_none _).symm
    have hne : (q, name) ≠ p := by
      rintro rfl
      exact hr (Node.dir.inj (Option.some.inj (hdown.entry.symm.trans hp)))
    refine .cons ⟨hdown.nonempty, hdown.notParent, ?_, hdown.notRoot⟩ (ih hm)
    rw [hnode, Function.update_of_ne hne]
    exact hdown.entry

/-- A removal of an empty directory under no terminal leaves all ways that are needed. -/
theorem Placed.remove (h : ns.Placed) {name : CString} {recursive : Bool}
    (hok : ns.Removable (.rm name recursive)) : (ns.remove name recursive).Placed := by
  rw [Namespace.remove]
  split
  · exact h
  · rename_i content hfile
    refine h.of_keepsDirs (ns.keepsDirs_update fun n hn => ?_) rfl
    have hfile : ns.node (ns.cwd, name) = some (.file content) := hfile
    rw [hfile] at hn
    cases hn
  · rename_i n hdir
    split
    · rename_i hrecursive
      obtain rfl : recursive = true := hrecursive
      obtain ⟨hempty, haway⟩ := hok n hdir
      intro t ht
      obtain ⟨names, hleads⟩ := h t ht
      exact ⟨names, leads_of_unset hdir hempty rfl hleads (haway t ht)⟩
    · exact h

/-! ## `cd` -/

/-- A terminal that goes somewhere is placed there. -/
theorem Placed.moveTo (h : ns.Placed) {n : Nat} (hn : ∃ names, ns.Leads names n) : (ns.moveTo n).Placed := by
  intro t ht
  obtain ⟨names, hleads⟩ : ∃ names, ns.Leads names ((ns.moveTo n).dir t) := by
    show ∃ names, ns.Leads names (Function.update ns.dir ns.tty n t)
    by_cases htty : t = ns.tty
    · rw [htty, Function.update_self]
      exact hn
    · rw [Function.update_of_ne htty]
      exact h t ht
  exact ⟨names, hleads.mono fun hdown => ⟨hdown.nonempty, hdown.notParent, hdown.entry, hdown.notRoot⟩⟩

/-- `cd` leads to a directory there is a way to: down by a name, up by one less, or to
the root. -/
theorem Placed.goes (h : ns.Placed) (hone : ns.OneName) (htty : ns.tty < maxTtys)
    (hroot : ∃ name, ns.node (1, name) = some (.dir 1)) {dirname : Option CString}
    (hgoes : ns.Goes dirname ns') : ns'.Placed := by
  have htop : ∃ names, ns.Leads names 1 := ⟨[], .nil 1⟩
  obtain ⟨names, hleads⟩ : ∃ names, ns.Leads names ns.cwd := h ns.tty htty
  unfold Goes at hgoes
  cases dirname with
  | none =>
    cases hgoes
    exact h.moveTo htop
  | some dirname =>
    dsimp only at hgoes
    split at hgoes
    · cases hgoes
      exact h.moveTo htop
    rename_i hnonempty
    split at hgoes
    · -- upwards: the directory has no other name than the last on the way to it
      obtain ⟨p, name, hentry, rfl⟩ := hgoes
      refine h.moveTo ?_
      rcases hleads.snoc_cases with ⟨-, hcwd⟩ | ⟨front, last, q, -, hfront, hlast⟩
      · obtain ⟨root, hroot⟩ := hroot
        rw [hcwd] at hentry
        cases hone hentry hroot
        exact htop
      · cases hone hentry hlast.entry
        exact ⟨front, hfront⟩
    · rename_i hup
      split at hgoes
      · rename_i n hentry
        cases hgoes
        refine h.moveTo ?_
        by_cases hn : n = 1
        · rw [hn]
          exact htop
        · exact ⟨names ++ [dirname], hleads.snoc ⟨hnonempty, hup, hentry, hn⟩⟩
      · cases hgoes
        exact h

/-- **Every step leaves the terminals where names lead.** -/
theorem Placed.step (h : ns.Placed) (hone : ns.OneName) (htty : ns.tty < maxTtys)
    (hroot : ∃ name, ns.node (1, name) = some (.dir 1)) {c : ShellCmd} (hok : ns.Removable c)
    (hstep : NsStep ns c ns') : ns'.Placed := by
  cases c with
  | touch filename =>
    cases hstep
    exact h.of_keepsDirs (ns.make_keepsDirs filename _) (ns.make_dir filename _)
  | mkdir dirname =>
    obtain ⟨n, -, rfl⟩ := hstep
    exact h.of_keepsDirs (ns.make_keepsDirs dirname _) (ns.make_dir dirname _)
  | rm name recursive =>
    cases hstep
    exact h.remove hok
  | cd dirname => exact h.goes hone htty hroot hstep
  | redirect filename text =>
    cases hstep
    exact h.of_keepsDirs (ns.write_keepsDirs filename _) (ns.write_dir filename _)
  | append filename text stack =>
    cases hstep
    exact h.of_keepsDirs (ns.write_keepsDirs filename _) (ns.write_dir filename _)
  | switchTty ttyNum =>
    cases hstep
    -- a number outside the terminals is ignored
    rw [Namespace.switchTo]
    split
    · exact h.of_keepsDirs (fun _ _ => id) rfl
    · exact h
  | login =>
    cases hstep
    exact h

end Namespace

end Srunix
