import Mathlib.Data.List.Perm.Subperm
import ApnaOS.Process.Waiting

/-!
# Reaping is exact

What a `wait_syscall` returns is the pid of a child that its caller forked and that
has exited, no child is returned twice, and no wake-up is lost.
-/

set_option autoImplicit false

namespace ApnaOS.Process

open ApnaOS.Lib
open Function (update update_self update_of_ne)

/-! ## The results in the history -/

/-- The caller of a `wait_syscall` that has returned, and what it returned. -/
def Event.waited : Event → Option (Addr × Int)
  | .waitReturned p _ result => some (p, result.value)
  | _ => none

/-- The caller of a `fork_syscall` that made a child, and what it returned. -/
def Event.forkedPid : Event → Option (Addr × Int)
  | .forked parent _ pid => some (parent, pid)
  | _ => none

namespace Control

def results (control : Control) : List (Addr × Int) :=
  control.history.filterMap Event.waited

def waits (control : Control) (p : Addr) : List Int :=
  (control.results.filter (·.1 = p)).map Prod.snd

def forks (control : Control) (p : Addr) : List Int :=
  ((control.history.filterMap Event.forkedPid).filter (·.1 = p)).map Prod.snd

theorem mem_waits {control : Control} {p : Addr} {value : Int} : value ∈ control.waits p →
    ∃ resumed result, .waitReturned p resumed result ∈ control.history ∧
      result.value = value := by
  intro present
  obtain ⟨⟨q, n⟩, chosen, same⟩ := List.mem_map.mp present
  obtain ⟨listed, mine⟩ := List.mem_filter.mp chosen
  obtain ⟨event, recorded, waited⟩ := List.mem_filterMap.mp listed
  cases event with
  | waitReturned r resumed result =>
      simp only [Event.waited, Option.some.injEq, Prod.mk.injEq] at waited
      simp only [decide_eq_true_iff] at mine
      rw [waited.1, mine] at recorded
      exact ⟨resumed, result, recorded, waited.2.trans same⟩
  | created | forked | exited => cases waited

theorem mem_forks {control : Control} {p c : Addr} {pid : Int}
    (recorded : .forked p c pid ∈ control.history) : pid ∈ control.forks p := by
  refine List.mem_map.mpr ⟨(p, pid), List.mem_filter.mpr ⟨?_, by simp⟩, rfl⟩
  exact List.mem_filterMap.mpr ⟨_, recorded, rfl⟩

end Control

/-! ## What the history says of families -/

/-- Pids, parents and exit statuses agree with what was forked, exited and returned. -/
structure Families (processes : Processes) (control : Control) : Prop where
  born_nodup : control.born.Nodup
  started : 0 < processes.nextPid
  pid : ∀ p ∈ control.born,
    0 < (processes.proc p).pid ∧ (processes.proc p).pid < processes.nextPid
  pid_injective : ∀ p ∈ control.born, ∀ q ∈ control.born,
    (processes.proc p).pid = (processes.proc q).pid → p = q
  parent : ∀ c ∈ control.born, ∀ p, processes.parent c = some p →
    p ∈ control.born ∧ .forked p c (asInt (processes.proc c).pid) ∈ control.history
  forked : ∀ p c n, .forked p c n ∈ control.history →
    c ∈ control.born ∧ processes.parent c = some p ∧ n = asInt (processes.proc c).pid
  zombie : ∀ c ∈ control.born, processes.state c = .zombie →
    .exited c (processes.proc c).exitStatus ∈ control.history
  exited : ∀ c status, .exited c status ∈ control.history →
    c ∈ control.born ∧ processes.state c = .zombie ∧ (processes.proc c).exitStatus = status
  returned : ∀ p resumed result, .waitReturned p resumed result ∈ control.history →
    ∃ c ∈ control.born, result = processes.collected c ∧ processes.parent c = some p ∧
      processes.state c = .zombie

structure SameKin (born : List Addr) (before after : Processes) : Prop where
  nextPid : before.nextPid ≤ after.nextPid
  pid : ∀ p ∈ born, (after.proc p).pid = (before.proc p).pid
  parent : ∀ p ∈ born, after.parent p = before.parent p
  exitStatus : ∀ p ∈ born, (after.proc p).exitStatus = (before.proc p).exitStatus
  zombie : ∀ p ∈ born, (after.state p = .zombie ↔ before.state p = .zombie)

theorem SameKin.of_proc {born : List Addr} {before after : Processes}
    (nextPid : before.nextPid ≤ after.nextPid)
    (same : ∀ p ∈ born, after.proc p = before.proc p) : SameKin born before after where
  nextPid := nextPid
  pid := fun p isBorn => congrArg Proc.pid (same p isBorn)
  parent := fun p isBorn => congrArg Proc.parent (same p isBorn)
  exitStatus := fun p isBorn => congrArg Proc.exitStatus (same p isBorn)
  zombie := by
    intro p isBorn
    rw [Processes.state, same p isBorn]
    exact Iff.rfl

theorem Processes.SameButTurns.sameKin {before after : Processes} (turns : SameButTurns before after)
    (born : List Addr) : SameKin born before after where
  nextPid := Nat.le_of_eq turns.nextPid.symm
  pid := fun p _ => turns.pid_eq p
  parent := fun p _ => turns.parent_eq p
  exitStatus := fun p _ => turns.exitStatus_eq p
  zombie := fun p _ => turns.state_iff p (by simp [Awake])

theorem SameKin.setState {processes : Processes} (born : List Addr) {p : Addr}
    {state : ProcessState} (alive : processes.state p ≠ .zombie) (alive' : state ≠ .zombie) :
    SameKin born processes (processes.setState p state) where
  nextPid := Nat.le_refl _
  pid := by
    intro q _
    rw [Processes.setState, Processes.proc_modify]
    split
    · next same => rw [same]
    · rfl
  parent := fun q _ => Processes.parent_setState processes p q state
  exitStatus := by
    intro q _
    rw [Processes.setState, Processes.proc_modify]
    split
    · next same => rw [same]
    · rfl
  zombie := by
    intro q _
    rw [Processes.state_setState_iff]
    constructor
    · rintro (⟨_, clash⟩ | ⟨_, old⟩)
      · exact absurd clash alive'
      · exact old
    · intro old
      exact Or.inr ⟨fun same => alive (same ▸ old), old⟩

namespace Families

variable {before after processes : Processes} {control : Control} {p child : Addr}

theorem keep (families : Families before control) (same : SameKin control.born before after)
    {control' : Control} (history : control'.history = control.history) :
    Families after control' := by
  have born : control'.born = control.born := by rw [Control.born, history, Control.born]
  refine ⟨?_, ?_, ?_, ?_, ?_, ?_, ?_, ?_, ?_⟩
  · rw [born]
    exact families.born_nodup
  · exact Nat.lt_of_lt_of_le families.started same.nextPid
  · intro p isBorn
    rw [born] at isBorn
    rw [same.pid p isBorn]
    obtain ⟨positive, given⟩ := families.pid p isBorn
    exact ⟨positive, Nat.lt_of_lt_of_le given same.nextPid⟩
  · intro p isBorn q isBorn' equal
    rw [born] at isBorn isBorn'
    rw [same.pid p isBorn, same.pid q isBorn'] at equal
    exact families.pid_injective p isBorn q isBorn' equal
  · intro c isBorn p parent
    rw [born] at isBorn ⊢
    rw [same.parent c isBorn] at parent
    rw [same.pid c isBorn, history]
    exact families.parent c isBorn p parent
  · intro p c n event
    rw [history] at event
    obtain ⟨isBorn, parent, pid⟩ := families.forked p c n event
    rw [born, same.parent c isBorn, same.pid c isBorn]
    exact ⟨isBorn, parent, pid⟩
  · intro c isBorn zombie
    rw [born] at isBorn
    rw [history, same.exitStatus c isBorn]
    exact families.zombie c isBorn ((same.zombie c isBorn).mp zombie)
  · intro c status event
    rw [history] at event
    obtain ⟨isBorn, zombie, exitStatus⟩ := families.exited c status event
    rw [born, same.exitStatus c isBorn]
    exact ⟨isBorn, (same.zombie c isBorn).mpr zombie, exitStatus⟩
  · intro p resumed result event
    rw [history] at event
    obtain ⟨c, isBorn, collected, parent, zombie⟩ := families.returned p resumed result event
    refine ⟨c, born ▸ isBorn, ?_, (same.parent c isBorn).trans parent,
      (same.zombie c isBorn).mpr zombie⟩
    rw [Processes.collected, same.pid c isBorn, same.exitStatus c isBorn]
    exact collected

theorem birth (families : Families before control) (fresh : p ∉ control.born)
    (nextPid : after.nextPid = before.nextPid + 1) (pid : (after.proc p).pid = before.nextPid)
    (alive : after.state p ≠ .zombie) (others : ∀ q, q ≠ p → after.proc q = before.proc q)
    {event : Event}
    (kin : (event = .created p ∧ after.parent p = none) ∨ ∃ q ∈ control.born,
      event = .forked q p (asInt before.nextPid) ∧ after.parent p = some q) :
    Families after (control.log event) := by
  have old : ∀ q ∈ control.born, after.proc q = before.proc q :=
    fun q isBorn => others q fun same => fresh (same ▸ isBorn)
  have kept : Families after control :=
    families.keep (.of_proc (by omega) old) rfl
  have born : (control.log event).born = p :: control.born := by
    rcases kin with ⟨created, _⟩ | ⟨q, _, forked, _⟩
    · rw [created]
      rfl
    · rw [forked]
      rfl
  have less : ∀ q ∈ control.born, (after.proc q).pid ≠ (after.proc p).pid := by
    intro q isBorn equal
    rw [old q isBorn, pid] at equal
    exact Nat.ne_of_lt (families.pid q isBorn).2 equal
  refine ⟨?_, kept.started, ?_, ?_, ?_, ?_, ?_, ?_, ?_⟩
  · rw [born]
    exact List.nodup_cons.mpr ⟨fresh, families.born_nodup⟩
  · intro q isBorn
    rw [born, List.mem_cons] at isBorn
    rcases isBorn with same | isBorn
    · rw [same, pid, nextPid]
      exact ⟨families.started, Nat.lt_succ_self _⟩
    · exact kept.pid q isBorn
  · intro q isBorn r isBorn' equal
    rw [born, List.mem_cons] at isBorn isBorn'
    rcases isBorn with same | isBorn <;> rcases isBorn' with same' | isBorn'
    · rw [same, same']
    · rw [same] at equal
      exact absurd equal.symm (less r isBorn')
    · rw [same'] at equal
      exact absurd equal (less q isBorn)
    · exact kept.pid_injective q isBorn r isBorn' equal
  · intro c isBorn q parent
    rw [born, List.mem_cons] at isBorn
    rcases isBorn with same | isBorn
    · rw [same] at parent ⊢
      rcases kin with ⟨_, none⟩ | ⟨r, isBorn, forked, parent'⟩
      · rw [none] at parent
        cases parent
      · rw [parent', Option.some.injEq] at parent
        rw [born, pid, ← parent, forked]
        exact ⟨List.mem_cons_of_mem p isBorn, List.mem_cons_self⟩
    · obtain ⟨isBorn', event'⟩ := kept.parent c isBorn q parent
      rw [born]
      exact ⟨List.mem_cons_of_mem p isBorn', List.mem_cons_of_mem event event'⟩
  · intro q c n recorded
    rw [born]
    rcases List.mem_cons.mp recorded with same | earlier
    · rcases kin with ⟨created, _⟩ | ⟨r, _, forked, parent⟩
      · rw [created] at same
        cases same
      · rw [forked, Event.forked.injEq] at same
        obtain ⟨rfl, rfl, rfl⟩ := same
        exact ⟨List.mem_cons_self, parent, by rw [pid]⟩
    · obtain ⟨isBorn, rest⟩ := kept.forked q c n earlier
      exact ⟨List.mem_cons_of_mem p isBorn, rest⟩
  · intro c isBorn zombie
    rw [born, List.mem_cons] at isBorn
    rcases isBorn with same | isBorn
    · rw [same] at zombie
      exact absurd zombie alive
    · exact List.mem_cons_of_mem event (kept.zombie c isBorn zombie)
  · intro c status recorded
    rw [born]
    rcases List.mem_cons.mp recorded with same | earlier
    · rcases kin with ⟨created, _⟩ | ⟨r, _, forked, _⟩
      · rw [created] at same
        cases same
      · rw [forked] at same
        cases same
    · obtain ⟨isBorn, rest⟩ := kept.exited c status earlier
      exact ⟨List.mem_cons_of_mem p isBorn, rest⟩
  · intro q resumed result recorded
    rw [born]
    rcases List.mem_cons.mp recorded with same | earlier
    · rcases kin with ⟨created, _⟩ | ⟨r, _, forked, _⟩
      · rw [created] at same
        cases same
      · rw [forked] at same
        cases same
    · obtain ⟨c, isBorn, rest⟩ := kept.returned q resumed result earlier
      exact ⟨c, List.mem_cons_of_mem p isBorn, rest⟩

theorem collect (families : Families processes control) (isBorn : child ∈ control.born)
    (parent : processes.parent child = some p) (zombie : processes.state child = .zombie)
    (resumed : Bool) : Families (processes.unlink child)
      (control.log (.waitReturned p resumed (processes.collected child))) := by
  refine ⟨families.born_nodup, families.started, families.pid, families.pid_injective,
    ?_, ?_, ?_, ?_, ?_⟩
  · intro c isBorn' q parent'
    obtain ⟨isBorn'', event⟩ := families.parent c isBorn' q parent'
    exact ⟨isBorn'', List.mem_cons_of_mem _ event⟩
  · intro q c n recorded
    rcases List.mem_cons.mp recorded with same | earlier
    · cases same
    · exact families.forked q c n earlier
  · intro c isBorn' zombie'
    exact List.mem_cons_of_mem _ (families.zombie c isBorn' zombie')
  · intro c status recorded
    rcases List.mem_cons.mp recorded with same | earlier
    · cases same
    · exact families.exited c status earlier
  · intro q resumed' result recorded
    rcases List.mem_cons.mp recorded with same | earlier
    · rw [Event.waitReturned.injEq] at same
      obtain ⟨rfl, _, rfl⟩ := same
      exact ⟨child, isBorn, rfl, parent, zombie⟩
    · exact families.returned q resumed' result earlier

end Families

/-! ## The exit of a process -/

theorem Families.exit {processes : Processes} {control : Control} {p : Addr}
    (families : Families processes control) (isBorn : p ∈ control.born)
    (alive : processes.state p ≠ .zombie) (status : Int) :
    Families (processes.exit p status) (control.log (.exited p status)) := by
  have nextPid := processes.nextPid_exit p status
  have not_collected : ∀ c, processes.state c = .zombie → c ≠ p :=
    fun c zombie same => alive (same ▸ zombie)
  refine ⟨families.born_nodup, nextPid ▸ families.started, ?_, ?_, ?_, ?_, ?_, ?_, ?_⟩
  · intro q isBorn'
    rw [Processes.pid_exit, nextPid]
    exact families.pid q isBorn'
  · intro q isBorn' r isBorn'' equal
    rw [Processes.pid_exit, Processes.pid_exit] at equal
    exact families.pid_injective q isBorn' r isBorn'' equal
  · intro c isBorn' q parent
    rw [Processes.parent_exit] at parent
    rw [Processes.pid_exit]
    obtain ⟨isBorn'', event⟩ := families.parent c isBorn' q parent
    exact ⟨isBorn'', List.mem_cons_of_mem _ event⟩
  · intro q c n recorded
    rw [Processes.parent_exit, Processes.pid_exit]
    rcases List.mem_cons.mp recorded with same | earlier
    · cases same
    · exact families.forked q c n earlier
  · intro c isBorn' zombie
    by_cases same : c = p
    · rw [same, Processes.proc_exit_self]
      exact List.mem_cons_self
    · rw [Processes.exitStatus_exit_of_ne _ _ _ _ same]
      rcases (Processes.state_exit_zombie_iff ..).mp zombie with equal | old
      · exact absurd equal same
      · exact List.mem_cons_of_mem _ (families.zombie c isBorn' old)
  · intro c status' recorded
    rcases List.mem_cons.mp recorded with same | earlier
    · rw [Event.exited.injEq] at same
      rw [same.1, same.2, Processes.state, Processes.proc_exit_self]
      exact ⟨isBorn, rfl, rfl⟩
    · obtain ⟨isBorn', zombie, exitStatus⟩ := families.exited c status' earlier
      rw [Processes.exitStatus_exit_of_ne _ _ _ _ (not_collected c zombie)]
      exact ⟨isBorn', (Processes.state_exit_zombie_iff ..).mpr (Or.inr zombie), exitStatus⟩
  · intro q resumed result recorded
    rcases List.mem_cons.mp recorded with same | earlier
    · cases same
    · obtain ⟨c, isBorn', collected, parent, zombie⟩ := families.returned q resumed result earlier
      refine ⟨c, isBorn', ?_, (Processes.parent_exit ..).trans parent,
        (Processes.state_exit_zombie_iff ..).mpr (Or.inr zombie)⟩
      rw [Processes.collected, Processes.pid_exit,
        Processes.exitStatus_exit_of_ne _ _ _ _ (not_collected c zombie)]
      exact collected

/-! ## No lost wake-up -/

/-- A child of `p` has exited and is still in the table. -/
def Processes.HasZombie (processes : Processes) (p : Addr) : Prop :=
  ∃ c ∈ processes.table, processes.parent c = some p ∧ processes.state c = .zombie

/-- Whoever was woken inside `wait_syscall` finds a zombie, and whoever is blocked there
has none. -/
structure NoLostWakeup (processes : Processes) (control : Control) : Prop where
  woken : ∀ p, control.inWait p = true → processes.state p ≠ .blocked → processes.HasZombie p
  blocked : ∀ p, processes.state p = .blocked → ¬ processes.HasZombie p

theorem Processes.hasZombie_found {processes : Processes} {p : Addr}
    (zombie : processes.HasZombie p) : processes.zombieChild p ≠ none := by
  obtain ⟨c, present, parent, zombie⟩ := zombie
  intro none_found
  refine List.find?_eq_none.mp none_found c present (Spec.isZombieChild_iff.mpr ⟨?_, zombie⟩)
  rw [parent]
  rfl

theorem Processes.SameButTurns.hasZombie_iff {before after : Processes}
    (turns : SameButTurns before after) (p : Addr) : after.HasZombie p ↔ before.HasZombie p := by
  rw [HasZombie, turns.table]
  refine exists_congr fun c => and_congr_right fun _ => ?_
  rw [turns.parent_eq, turns.state_iff c (by simp [Awake])]

theorem Processes.hasZombie_setState_iff {processes : Processes} {p : Addr}
    {state : ProcessState} (alive : processes.state p ≠ .zombie) (alive' : state ≠ .zombie)
    (q : Addr) : (processes.setState p state).HasZombie q ↔ processes.HasZombie q := by
  rw [HasZombie, table_setState]
  refine exists_congr fun c => and_congr_right fun present => and_congr ?_ ?_
  · rw [parent_setState]
  · exact (SameKin.setState [c] alive alive').zombie c List.mem_cons_self

namespace NoLostWakeup

variable {before after processes : Processes} {control control' : Control} {p child : Addr}

theorem keep (holds : NoLostWakeup before control)
    (zombie : ∀ q, after.HasZombie q ↔ before.HasZombie q)
    (inWait : ∀ q, control'.inWait q = true → after.state q ≠ .blocked →
      control.inWait q = true ∧ before.state q ≠ .blocked)
    (blocked : ∀ q, after.state q = .blocked → before.state q = .blocked) :
    NoLostWakeup after control' := by
  constructor
  · intro q inWait' unblocked
    obtain ⟨waits, unblocked'⟩ := inWait q inWait' unblocked
    exact (zombie q).mpr (holds.woken q waits unblocked')
  · intro q blocks found
    exact holds.blocked q (blocked q blocks) ((zombie q).mp found)

theorem reschedule (holds : NoLostWakeup processes control) (sound : processes.Sound) :
    NoLostWakeup (Spec.reschedule processes control).processes
      (Spec.reschedule processes control).control := by
  have turns := sound.schedule_turns
  have blocked : ∀ q, processes.schedule.2.state q = .blocked ↔ processes.state q = .blocked :=
    fun q => turns.state_iff q (by simp [Awake])
  refine holds.keep turns.hasZombie_iff ?_ (fun q => (blocked q).mp)
  intro q inWait unblocked
  exact ⟨inWait, fun blocks => unblocked ((blocked q).mpr blocks)⟩

theorem write (holds : NoLostWakeup before control)
    (accounted : Accounted before control) (fresh : p ∉ before.table)
    (table : after.table = before.table ∨ after.table = p :: before.table)
    (others : ∀ q, q ≠ p → after.proc q = before.proc q)
    (alive : p ∈ after.table → after.state p ≠ .zombie) (awake : after.state p ≠ .blocked)
    (inWait : control'.inWait = control.inWait) : NoLostWakeup after control' := by
  have other : ∀ q ∈ before.table, q ≠ p := fun q present same => fresh (same ▸ present)
  refine holds.keep ?_ ?_ ?_
  · intro q
    constructor
    · rintro ⟨c, present, parent, zombie⟩
      have different : c ≠ p := fun same => alive (same ▸ present) (same ▸ zombie)
      rw [Processes.parent, others c different] at parent
      rw [Processes.state, others c different] at zombie
      refine ⟨c, ?_, parent, zombie⟩
      rcases table with same | grown
      · exact same ▸ present
      · rw [grown, List.mem_cons] at present
        exact present.resolve_left different
    · rintro ⟨c, present, parent, zombie⟩
      refine ⟨c, ?_, ?_, ?_⟩
      · rcases table with same | grown
        · exact same ▸ present
        · rw [grown]
          exact List.mem_cons_of_mem p present
      · rw [Processes.parent, others c (other c present)]
        exact parent
      · rw [Processes.state, others c (other c present)]
        exact zombie
  · intro q waits unblocked
    rw [inWait] at waits
    have present := (accounted.inWait q waits).1
    rw [Processes.state, others q (other q present)] at unblocked
    exact ⟨waits, unblocked⟩
  · intro q blocks
    have different : q ≠ p := fun same => awake (same ▸ blocks)
    rwa [Processes.state, others q different] at blocks

theorem suspend (holds : NoLostWakeup processes control) (runs : processes.state p = .running)
    (none_found : processes.zombieChild p = none) :
    NoLostWakeup (processes.setState p .blocked) (control.setInWait p true) := by
  have zombie : ∀ q, (processes.setState p .blocked).HasZombie q ↔ processes.HasZombie q :=
    Processes.hasZombie_setState_iff (by simp [runs]) (by simp)
  constructor
  · intro q inWait unblocked
    have different : q ≠ p := by
      intro same
      rw [same, Processes.state_setState, if_pos rfl] at unblocked
      exact unblocked rfl
    rw [Processes.state_setState, if_neg different] at unblocked
    simp only [Control.setInWait, update_of_ne different] at inWait
    exact (zombie q).mpr (holds.woken q inWait unblocked)
  · intro q blocks found
    rcases (Processes.state_setState_iff ..).mp blocks with ⟨same, _⟩ | ⟨_, old⟩
    · rw [same] at found
      exact Processes.hasZombie_found ((zombie p).mp found) none_found
    · exact holds.blocked q old ((zombie q).mp found)

theorem stop (holds : NoLostWakeup processes control) (runs : processes.state p = .running)
    (outside : control.inWait p = false) :
    NoLostWakeup (processes.setState p .exit) control := by
  refine holds.keep (Processes.hasZombie_setState_iff (by simp [runs]) (by simp)) ?_ ?_
  · intro q inWait unblocked
    have different : q ≠ p := by
      intro same
      rw [same, outside] at inWait
      cases inWait
    rw [Processes.state_setState, if_neg different] at unblocked
    exact ⟨inWait, unblocked⟩
  · intro q blocks
    rcases (Processes.state_setState_iff ..).mp blocks with ⟨_, clash⟩ | ⟨_, old⟩
    · cases clash
    · exact old

theorem collect (holds : NoLostWakeup processes control)
    (parent : processes.parent child = some p)
    (inWait : ∀ q, control'.inWait q = true → q ≠ p ∧ control.inWait q = true) :
    NoLostWakeup (processes.unlink child) control' := by
  constructor
  · intro q waits unblocked
    obtain ⟨different, waits'⟩ := inWait q waits
    obtain ⟨c, present, parent', zombie⟩ := holds.woken q waits' unblocked
    refine ⟨c, (List.mem_erase_of_ne ?_).mpr present, parent', zombie⟩
    intro same
    rw [same, parent, Option.some.injEq] at parent'
    exact different parent'.symm
  · rintro q blocks ⟨c, present, rest⟩
    exact holds.blocked q blocks ⟨c, List.mem_of_mem_erase present, rest⟩

theorem exit (holds : NoLostWakeup processes control) (present : p ∈ processes.table)
    (outside : control.inWait p = false) (status : Int)
    (inWait : control'.inWait = control.inWait) :
    NoLostWakeup (processes.exit p status) control' := by
  have grows : ∀ q, processes.HasZombie q → (processes.exit p status).HasZombie q := by
    rintro q ⟨c, present', parent, zombie⟩
    exact ⟨c, by rwa [Processes.table_exit], (Processes.parent_exit ..).trans parent,
      (Processes.state_exit_zombie_iff ..).mpr (Or.inr zombie)⟩
  constructor
  · intro q waits unblocked
    rw [inWait] at waits
    have different : q ≠ p := by
      intro same
      rw [same, outside] at waits
      cases waits
    by_cases blocks : processes.state q = .blocked
    · have parent : processes.parent p = some q := by
        by_contra stranger
        exact unblocked ((Processes.state_exit_blocked_iff ..).mpr ⟨different, blocks, stranger⟩)
      exact ⟨p, by rwa [Processes.table_exit], (Processes.parent_exit ..).trans parent,
        (Processes.state_exit_zombie_iff ..).mpr (Or.inl rfl)⟩
    · exact grows q (holds.woken q waits blocks)
  · rintro q blocks ⟨c, present', parent, zombie⟩
    obtain ⟨_, blocks', stranger⟩ := (Processes.state_exit_blocked_iff ..).mp blocks
    rw [Processes.parent_exit] at parent
    rw [Processes.table_exit] at present'
    rcases (Processes.state_exit_zombie_iff ..).mp zombie with same | old
    · rw [same] at parent
      exact stranger parent
    · exact holds.blocked q blocks' ⟨c, present', parent, old⟩

end NoLostWakeup

/-! ## Every step -/

namespace Spec

structure Tracked (spec : Spec) : Prop where
  families : Families spec.processes spec.control
  wakeups : NoLostWakeup spec.processes spec.control

/-- PCBs are not reused: a process is born in memory that was never a process and has no
parent in it, and nothing is written over a process that has left the table. -/
structure UsedOnce (spec next : Spec) : Prop where
  fresh : ∀ p, next.control.born = p :: spec.control.born →
    p ∉ spec.control.born ∧ spec.processes.parent p = none
  untouched : ∀ p ∈ spec.control.born, p ∉ spec.processes.table →
    next.processes.proc p = spec.processes.proc p

theorem Orderly.born_of_present {spec : Spec} {p : Addr} (orderly : spec.Orderly)
    (present : p ∈ spec.processes.table) : p ∈ spec.control.born :=
  orderly.accounted.history.mem_iff.mpr (List.mem_append_right _ present)

theorem Tracked.reschedule {processes : Processes} {control : Control}
    (families : Families processes control) (wakeups : NoLostWakeup processes control)
    (sound : processes.Sound) : (reschedule processes control).Tracked :=
  ⟨families.keep (sound.schedule_turns.sameKin _) rfl, wakeups.reschedule sound⟩

/-- As long as there are few pids, none is taken modulo the size of a word. -/
theorem pid_unwrapped {pid : Nat} (few : pid + 1 ≤ 2147483648) : pid % wordRange = pid :=
  Nat.mod_eq_of_lt (by rw [wordRange]; omega)

section Step

variable {spec next : Spec} {action : Action} {p child : Addr}

/-- With distinct pids a zombie that `find_zombie_child` finds is a child. -/
theorem Tracked.found_own (tracked : spec.Tracked) (orderly : spec.Orderly)
    (present : p ∈ spec.processes.table) (found : spec.processes.zombieChild p = some child)
    (null : (spec.processes.proc p).pid ≠ spec.processes.pidAtNull) :
    child ∈ spec.control.born ∧ spec.processes.parent child = some p ∧
      spec.processes.state child = .zombie := by
  obtain ⟨present', test⟩ := zombieChild_spec found
  obtain ⟨pid, zombie⟩ := isZombieChild_iff.mp test
  have isBorn := orderly.born_of_present present'
  refine ⟨isBorn, ?_, zombie⟩
  cases parent : spec.processes.parent child with
  | none =>
      rw [parent] at pid
      exact absurd pid.symm null
  | some q =>
      rw [parent] at pid
      have born := (tracked.families.parent child isBorn q parent).1
      rw [tracked.families.pid_injective q born p (orderly.born_of_present present) pid]

theorem Tracked.step (tracked : spec.Tracked) (orderly : spec.Orderly)
    (taken : Step spec action next) (once : UsedOnce spec next)
    (pids : next.processes.nextPid ≤ 2147483648)
    (null : ∀ p ∈ spec.processes.table,
      (spec.processes.proc p).pid ≠ spec.processes.pidAtNull) : next.Tracked := by
  have sound := orderly.sound
  have families := tracked.families
  have wakeups := tracked.wakeups
  cases taken with
  | @created e priority d t p accepts fresh =>
      obtain ⟨unborn, orphan⟩ := once.fresh p rfl
      have small := pid_unwrapped pids
      have others : ∀ q, q ≠ p →
          (spec.processes.create p priority).proc q = spec.processes.proc q := by
        intro q different
        rw [Processes.proc_create, if_neg different]
      have ready : (spec.processes.create p priority).state p = .ready := by
        rw [Processes.state, Processes.proc_create, if_pos rfl]
      refine ⟨families.birth unborn rfl ?_ (by simp [ready]) others (Or.inl ⟨rfl, ?_⟩),
        wakeups.write orderly.accounted fresh (Or.inr rfl) others (by simp [ready])
          (by simp [ready]) rfl⟩
      · rw [Processes.proc_create, if_pos rfl]
        exact small
      · rw [Processes.parent, Processes.proc_create, if_pos rfl]
        exact orphan
  | notCreated accepts =>
      have same : SameKin spec.control.born spec.processes spec.processes.countPid :=
        .of_proc (Nat.le_succ _) fun _ _ => rfl
      exact ⟨families.keep same rfl,
        wakeups.keep (fun _ => Iff.rfl) (fun _ waits unblocked => ⟨waits, unblocked⟩)
          fun _ blocks => blocks⟩
  | started inCli => exact .reschedule families wakeups sound
  | @forked ebp p child caller fresh =>
      obtain ⟨unborn, _⟩ := once.fresh child rfl
      obtain ⟨present, _⟩ := orderly.caller_runs caller
      have small := pid_unwrapped pids
      have others : ∀ q, q ≠ child →
          (spec.processes.fork p child).proc q = spec.processes.proc q := by
        intro q different
        rw [Processes.proc_fork, if_neg different]
      have ready : (spec.processes.fork p child).state child = .ready := by
        rw [Processes.state, Processes.proc_fork, if_pos rfl]
      refine ⟨families.birth unborn rfl ?_ (by simp [ready]) others
          (Or.inr ⟨p, orderly.born_of_present present, by rw [small], ?_⟩),
        wakeups.write orderly.accounted fresh (Or.inr rfl) others (by simp [ready])
          (by simp [ready]) rfl⟩
      · rw [Processes.proc_fork, if_pos rfl]
        exact small
      · rw [Processes.parent, Processes.proc_fork, if_pos rfl]
  | noChild caller => exact tracked
  | @lostChild ebp p child caller fresh =>
      have others : ∀ q, q ≠ child →
          (spec.processes.forkChild p child).proc q = spec.processes.proc q := by
        intro q different
        rw [Processes.proc_forkChild, if_neg different]
      refine ⟨families.keep (.of_proc (Nat.le_succ _) ?_) rfl,
        wakeups.write orderly.accounted fresh (Or.inl rfl) others
          (fun present => absurd present fresh) ?_ rfl⟩
      · intro q isBorn
        by_cases same : q = child
        · exact once.untouched q isBorn (same ▸ fresh)
        · exact others q same
      · rw [Processes.state, Processes.proc_forkChild, if_pos rfl]
        exact fun blocks => fresh (sound.blocked child blocks)
  | yielded caller => exact .reschedule families wakeups sound
  | @collected ebp esp p child caller found =>
      obtain ⟨present, _⟩ := orderly.caller_runs caller
      obtain ⟨isBorn, parent, zombie⟩ := tracked.found_own orderly present found (null p present)
      refine ⟨families.collect isBorn parent zombie false, wakeups.collect parent ?_⟩
      intro q waits
      refine ⟨?_, waits⟩
      intro same
      rw [same] at waits
      exact absurd ((caller_eq_some.mp caller).2.2.symm.trans waits) (by simp)
  | @suspended ebp esp p caller none_found =>
      obtain ⟨present, runs⟩ := orderly.caller_runs caller
      have sound' := sound.block present runs
      exact .reschedule (families.keep (.setState _ (by simp [runs]) (by simp)) rfl)
        (wakeups.suspend runs none_found) sound'
  | @resumed p child resumer found =>
      obtain ⟨inCli, current, _⟩ := resumer_eq_some.mp resumer
      have present := (orderly.current_runs inCli current).1
      obtain ⟨isBorn, parent, zombie⟩ := tracked.found_own orderly present found (null p present)
      have returned : Families spec.processes (spec.control.setInWait p false) :=
        families.keep (.of_proc (Nat.le_refl _) fun _ _ => rfl) rfl
      refine ⟨returned.collect isBorn parent zombie true, wakeups.collect parent ?_⟩
      intro q waits
      have different : q ≠ p := by
        intro same
        simp [Control.log, Control.setInWait, same] at waits
      simp only [Control.log, Control.setInWait, update_of_ne different] at waits
      exact ⟨different, waits⟩
  | @missed p resumer none_found =>
      obtain ⟨inCli, current, inWait⟩ := resumer_eq_some.mp resumer
      have runs := (orderly.current_runs inCli current).2
      have zombie := wakeups.woken p inWait (by simp [runs])
      exact absurd none_found (Processes.hasZombie_found zombie)
  | @exited status esp p caller =>
      obtain ⟨present, runs⟩ := orderly.caller_runs caller
      have outside := (caller_eq_some.mp caller).2.2
      exact .reschedule (families.exit (orderly.born_of_present present) (by simp [runs]) status)
        (wakeups.exit present outside status rfl) (sound.exit present runs status)
  | @stateExited ebp esp p caller =>
      obtain ⟨present, runs⟩ := orderly.caller_runs caller
      have sound' := sound.stop present runs
      exact .reschedule (families.keep (.setState _ (by simp [runs]) (by simp)) rfl)
        (wakeups.stop runs (caller_eq_some.mp caller).2.2) sound'

end Step

end Spec

/-! ## Every run -/

variable {A : Type}

/-- What is or was a process stays allocated, and memory that never was has no parent. -/
structure NotReused (alloc : OnceAllocator A) (machine : Machine A) (spec : Spec) : Prop where
  born : ∀ p ∈ spec.control.born, alloc.live machine.kernel.allocator p
  blank : ∀ p, ¬ alloc.live machine.kernel.allocator p → spec.processes.parent p = none

/-- The machine shows this state, which is tracked as long as there are few pids. -/
structure Followed (alloc : OnceAllocator A) (machine : Machine A) (spec : Spec) : Prop where
  shows : Shows alloc.toIsolatingAllocator machine spec
  orderly : spec.Orderly
  notReused : NotReused alloc machine spec
  tracked : spec.processes.nextPid ≤ 2147483648 → spec.Tracked

theorem Spec.Step.nextPid_le {spec next : Spec} {action : Action} (taken : spec.Step action next)
    (orderly : spec.Orderly) : spec.processes.nextPid ≤ next.processes.nextPid := by
  have sound := orderly.sound
  cases taken with
  | created | notCreated | forked | lostChild => exact Nat.le_succ _
  | noChild | collected | resumed | missed => exact Nat.le_refl _
  | started | yielded => exact Nat.le_of_eq sound.schedule_turns.nextPid.symm
  | @suspended ebp esp p caller none_found =>
      obtain ⟨present, runs⟩ := orderly.caller_runs caller
      have sound' := sound.block present runs
      exact Nat.le_of_eq sound'.schedule_turns.nextPid.symm
  | @exited status esp p caller =>
      obtain ⟨present, runs⟩ := orderly.caller_runs caller
      have turns := (sound.exit present runs status).schedule_turns
      exact Nat.le_of_eq (turns.nextPid.trans (Processes.nextPid_exit ..)).symm
  | @stateExited ebp esp p caller =>
      obtain ⟨present, runs⟩ := orderly.caller_runs caller
      have sound' := sound.stop present runs
      exact Nat.le_of_eq sound'.schedule_turns.nextPid.symm

theorem OnceAllocator.stays {alloc : OnceAllocator A} {a a' : A}
    (step : AllocatorStep alloc.toIsolatingAllocator a a') {q : Addr} (used : alloc.live a q) :
    alloc.live a' q := by
  rcases step with grows | ⟨p, _, freed⟩
  · exact grows q used
  · rw [freed]
    exact alloc.never used

section Follow

variable {alloc : OnceAllocator A} {machine next : Machine A} {spec next' : Spec}
variable {action : Action}

theorem Followed.usedOnce (followed : Followed alloc machine spec)
    (simulated : Simulated alloc.toIsolatingAllocator machine spec action next next') :
    Spec.UsedOnce spec next' := by
  constructor
  · intro p born
    have unused := (simulated.born p born).1
    exact ⟨fun isBorn => unused (followed.notReused.born p isBorn),
      followed.notReused.blank p unused⟩
  · intro p isBorn absent
    exact simulated.untouched p absent (Or.inl (followed.notReused.born p isBorn))

theorem NotReused.step (notReused : NotReused alloc machine spec)
    (shows : Shows alloc.toIsolatingAllocator machine spec)
    (simulated : Simulated alloc.toIsolatingAllocator machine spec action next next') :
    NotReused alloc next next' := by
  have stays : ∀ q, alloc.live machine.kernel.allocator q → alloc.live next.kernel.allocator q :=
    fun q used => OnceAllocator.stays simulated.memory used
  constructor
  · intro q isBorn
    rcases simulated.step.born_cases with same | ⟨p, grown⟩
    · exact stays q (notReused.born q (same ▸ isBorn))
    · rw [grown, List.mem_cons] at isBorn
      rcases isBorn with here | old
      · rw [here]
        exact (simulated.born p grown).2
      · exact stays q (notReused.born q old)
  · intro q unused
    have unused' : ¬ alloc.live machine.kernel.allocator q := fun used => unused (stays q used)
    have absent : q ∉ spec.processes.table := fun present => unused' (shows.live q present)
    rw [Processes.parent, simulated.untouched q absent (Or.inr unused)]
    exact notReused.blank q unused'

theorem Followed.step (followed : Followed alloc machine spec)
    (simulated : Simulated alloc.toIsolatingAllocator machine spec action next next')
    (null : ∀ p, machine.kernel.InTable p →
      (machine.kernel.pcb p).pid ≠ machine.kernel.pidAtNull) :
    Followed alloc next next' := by
  have refines := followed.shows.refines
  refine ⟨simulated.shows, followed.orderly.step simulated.step,
    followed.notReused.step followed.shows simulated, ?_⟩
  intro few
  have earlier := Nat.le_trans (simulated.step.nextPid_le followed.orderly) few
  refine (followed.tracked earlier).step followed.orderly simulated.step
    (followed.usedOnce simulated) few ?_
  intro p present
  have apart := null p ((refines.inTable_iff p).mpr present)
  rwa [refines.pidAtNull, show (machine.kernel.pcb p).pid = (spec.processes.proc p).pid from
    congrArg Proc.pid (refines.proc p)] at apart

def MachineFollowed (alloc : OnceAllocator A) (machine : Machine A) : Prop :=
  ∃ spec, Followed alloc machine spec

theorem machineFollowed_initial {first : Machine A} (initial : first.Initial) :
    MachineFollowed alloc first := by
  obtain ⟨spec, shows, orderly⟩ := machineInvariant_initial alloc.toIsolatingAllocator initial
  have history : spec.control.history = [] := by
    rw [← shows.control, initial.control]
  have blank : ∀ p, spec.processes.proc p = Pcb.zero.proc := by
    intro p
    rw [← shows.refines.proc, initial.pcb]
  have nothing : spec.control.born = [] := by rw [Control.born, history]; rfl
  have new : ∀ p, spec.processes.state p ≠ .blocked := by
    intro p blocks
    rw [Processes.state, blank] at blocks
    cases blocks
  refine ⟨spec, shows, orderly, ⟨?_, ?_⟩, fun _ => ⟨⟨?_, ?_, ?_, ?_, ?_, ?_, ?_, ?_, ?_⟩, ?_, ?_⟩⟩
  · simp [nothing]
  · intro p _
    rw [Processes.parent, blank]
    rfl
  · simp [nothing]
  · rw [← shows.refines.nextPid, initial.pid]
    exact Nat.one_pos
  · simp [nothing]
  · simp [nothing]
  · simp [nothing]
  · simp [history]
  · simp [nothing]
  · simp [history]
  · simp [history]
  · intro p inWait
    rw [← shows.control, initial.control] at inWait
    cases inWait
  · intro p blocks
    exact absurd blocks (new p)

end Follow

/-! ## Reaping -/

/-- `child` was forked by `p`, has exited, and was not returned to anyone. -/
def Control.Uncollected (control : Control) (p child : Addr) : Prop :=
  (∃ pid, .forked p child pid ∈ control.history) ∧
    (∃ status, .exited child status ∈ control.history) ∧ child ∉ control.reaped

structure ReapingExact (alloc : Allocator A) (machine : Machine A) : Prop where
  /-- Who was returned is a child of the caller that exited with this status. -/
  collected : ∀ p resumed result, .waitReturned p resumed result ∈ machine.control.history →
    0 < result.value → ∃ child status, .forked p child result.value ∈ machine.control.history ∧
      .exited child status ∈ machine.control.history ∧ result.status = some status ∧
      result.reaped = some child
  /-- A wait that was resumed never returns -1. -/
  resumed : ∀ p result, .waitReturned p true result ∈ machine.control.history → 0 < result.value
  pids_once : (machine.control.results.map Prod.snd).Nodup
  children_once : machine.control.reaped.Nodup
  /-- As many waits as forks return every child. -/
  all : ∀ p, (machine.control.waits p).length = (machine.control.forks p).length →
    (machine.control.waits p).Perm (machine.control.forks p)
  /-- A process with a child to collect is not blocked. -/
  alert : ∀ p child, machine.control.Uncollected p child →
    (machine.kernel.pcb p).state ≠ .blocked
  /-- With a child to collect a wait returns at once. -/
  prompt : ∀ p child, machine.control.Uncollected p child → machine.caller = some p →
    ∀ ebp esp, ∃ next result, machine.step alloc (.wait ebp esp) = some next ∧
      next.control = machine.control.log (.waitReturned p false result) ∧ 0 < result.value

theorem asInt_of_few {pid : Nat} (few : pid < 2147483648) : asInt pid = pid := by
  rw [asInt, if_pos few]

namespace Families

variable {processes : Processes} {control : Control}

theorem asInt_pid (families : Families processes control) (few : processes.nextPid ≤ 2147483648)
    {p : Addr} (isBorn : p ∈ control.born) :
    asInt (processes.proc p).pid = (processes.proc p).pid ∧
      0 < asInt (processes.proc p).pid := by
  obtain ⟨positive, given⟩ := families.pid p isBorn
  have value := asInt_of_few (Nat.lt_of_lt_of_le given few)
  refine ⟨value, ?_⟩
  rw [value]
  exact Int.natCast_pos.mpr positive

theorem returned_positive (families : Families processes control)
    (few : processes.nextPid ≤ 2147483648) {p : Addr} {resumed : Bool} {result : WaitResult}
    (recorded : .waitReturned p resumed result ∈ control.history) : 0 < result.value := by
  obtain ⟨c, isBorn, collected, _⟩ := families.returned p resumed result recorded
  rw [collected]
  exact (families.asInt_pid few isBorn).2

theorem results_eq (families : Families processes control) :
    control.results.map Prod.snd = control.reaped.map fun c => asInt (processes.proc c).pid := by
  rw [Control.results, Control.reaped, List.map_filterMap, List.map_filterMap]
  apply List.filterMap_congr
  intro event recorded
  cases event with
  | waitReturned p resumed result =>
      obtain ⟨c, _, collected, _⟩ := families.returned p resumed result recorded
      rw [collected]
      rfl
  | created | forked | exited => rfl

end Families

theorem Spec.Orderly.reaped_nodup {spec : Spec} (orderly : spec.Orderly)
    (nodup : spec.control.born.Nodup) : spec.control.reaped.Nodup :=
  (List.nodup_append.mp (orderly.accounted.history.nodup_iff.mp nodup)).1

theorem Spec.Tracked.pids_once {spec : Spec} (tracked : spec.Tracked) (orderly : spec.Orderly)
    (few : spec.processes.nextPid ≤ 2147483648) :
    (spec.control.results.map Prod.snd).Nodup := by
  have families := tracked.families
  have isBorn : ∀ c ∈ spec.control.reaped, c ∈ spec.control.born := by
    intro c reaped
    exact orderly.accounted.history.mem_iff.mpr (List.mem_append_left _ reaped)
  rw [families.results_eq]
  refine List.Nodup.map_on ?_ (orderly.reaped_nodup families.born_nodup)
  intro c reaped d reaped' same
  rw [(families.asInt_pid few (isBorn c reaped)).1,
    (families.asInt_pid few (isBorn d reaped')).1] at same
  exact families.pid_injective c (isBorn c reaped) d (isBorn d reaped') (Int.ofNat_inj.mp same)

theorem Spec.Tracked.hasZombie {spec : Spec} (tracked : spec.Tracked) (orderly : spec.Orderly)
    {p child : Addr} (uncollected : spec.control.Uncollected p child) :
    spec.processes.HasZombie p := by
  obtain ⟨⟨pid, forked⟩, ⟨status, exited⟩, kept⟩ := uncollected
  obtain ⟨isBorn, parent, _⟩ := tracked.families.forked p child pid forked
  have zombie := (tracked.families.exited child status exited).2.1
  have listed := orderly.accounted.history.mem_iff.mp isBorn
  exact ⟨child, (List.mem_append.mp listed).resolve_left kept, parent, zombie⟩

theorem Followed.reapingExact {alloc : OnceAllocator A} {machine : Machine A} {spec : Spec}
    (followed : Followed alloc machine spec) (few : machine.kernel.nextPid ≤ 2147483648) :
    ReapingExact alloc.toAllocator machine := by
  have shows := followed.shows
  have orderly := followed.orderly
  rw [shows.refines.nextPid] at few
  have tracked := followed.tracked few
  have families := tracked.families
  have once := tracked.pids_once orderly few
  have own : ∀ p resumed result, .waitReturned p resumed result ∈ spec.control.history →
      ∃ child status, .forked p child result.value ∈ spec.control.history ∧
        .exited child status ∈ spec.control.history ∧ result.status = some status ∧
        result.reaped = some child := by
    intro p resumed result recorded
    obtain ⟨c, isBorn, collected, parent, zombie⟩ := families.returned p resumed result recorded
    refine ⟨c, (spec.processes.proc c).exitStatus, ?_, families.zombie c isBorn zombie, ?_, ?_⟩
    · rw [collected]
      exact (families.parent c isBorn p parent).2
    · rw [collected]
      rfl
    · rw [collected]
      rfl
  refine ⟨?_, ?_, ?_, ?_, ?_, ?_, ?_⟩ <;> rw [shows.control]
  · intro p resumed result recorded _
    exact own p resumed result recorded
  · intro p result recorded
    exact families.returned_positive few recorded
  · exact once
  · exact orderly.reaped_nodup families.born_nodup
  · intro p enough
    have nodup : (spec.control.waits p).Nodup := once.sublist (List.filter_sublist.map _)
    refine (List.subperm_of_subset nodup ?_).perm_of_length_le (Nat.le_of_eq enough.symm)
    intro value present
    obtain ⟨resumed, result, recorded, same⟩ := Control.mem_waits present
    obtain ⟨child, status, forked, _⟩ := own p resumed result recorded
    rw [← same]
    exact Control.mem_forks forked
  · intro p child uncollected blocks
    rw [shows.refines.state_eq] at blocks
    exact tracked.wakeups.blocked p blocks (tracked.hasZombie orderly uncollected)
  · intro p child uncollected caller ebp esp
    have caller' : spec.caller = some p := shows.caller_eq ▸ caller
    have found := Processes.hasZombie_found (tracked.hasZombie orderly uncollected)
    have enabled : machine.Enabled (.wait ebp esp) := Option.isSome_iff_exists.mpr ⟨p, caller⟩
    obtain ⟨next, next', simulated⟩ := shows.simulate orderly enabled
    have control := simulated.shows.control
    cases simulated.step with
    | @collected _ _ q c caller'' found' =>
        rw [caller', Option.some.injEq] at caller''
        rw [← caller''] at control
        have isBorn := orderly.born_of_present (Spec.zombieChild_spec found').1
        exact ⟨next, _, simulated.taken, control, (families.asInt_pid few isBorn).2⟩
    | @suspended _ _ q caller'' none_found =>
        rw [caller', Option.some.injEq] at caller''
        rw [← caller''] at none_found
        exact absurd none_found found

theorem reaping_exact (alloc : OnceAllocator A) {first last : Machine A}
    {trace : List (Transition (Machine A) Action)}
    (initial : (processSystem alloc.toAllocator).initial first)
    (run : (processSystem alloc.toAllocator).Trace first trace last)
    (few_pids : last.kernel.nextPid ≤ 2147483648)
    (null : ∀ transition ∈ trace, ∀ p, transition.before.kernel.InTable p →
      (transition.before.kernel.pcb p).pid ≠ transition.before.kernel.pidAtNull) :
    ReapingExact alloc.toAllocator last := by
  have base : MachineFollowed alloc first := machineFollowed_initial initial
  have followed : MachineFollowed alloc last := by
    refine run.follows ?_ null base
    intro machine action next invariant taken apart
    obtain ⟨spec, followed⟩ := invariant
    obtain ⟨next', spec', simulated⟩ :=
      followed.shows.simulate followed.orderly (enabled_of_step taken)
    have same : next = next' := Option.some.inj (taken.symm.trans simulated.taken)
    rw [same]
    exact ⟨spec', followed.step simulated apart⟩
  obtain ⟨spec, followed⟩ := followed
  exact followed.reapingExact few_pids

def bootOnce : Machine (Memory.Heap × List Addr) where
  kernel := { bootMachine.kernel with allocator := (Memory.memoryInit, []) }
  control := bootMachine.control

theorem reaping_exact_after_forkExitWait : ∃ trace last,
    (processSystem onceAllocator.toAllocator).record bootOnce forkExitWait = some (trace, last) ∧
      last.control.waits 8 = [2] ∧ ReapingExact onceAllocator.toAllocator last := by
  have runs : ((processSystem onceAllocator.toAllocator).record bootOnce forkExitWait).any
      fun run => decide (run.2.kernel.nextPid = 3 ∧ run.2.control.waits 8 = [2] ∧
        ∀ transition ∈ run.1, ∃ table ∈ [[], [8], [20488, 8]],
          Chain transition.before.kernel.pcb.nextInTable
            transition.before.kernel.processTableHead table none ∧
          ∀ p ∈ table, (transition.before.kernel.pcb p).pid ≠
            transition.before.kernel.pidAtNull) := by
    decide +kernel
  obtain ⟨⟨trace, last⟩, recorded, checked⟩ := (Option.any_eq_true ..).mp runs
  obtain ⟨pids, collected, tables⟩ := of_decide_eq_true checked
  refine ⟨trace, last, recorded, collected,
    reaping_exact onceAllocator ⟨rfl, rfl, rfl, rfl, rfl, rfl⟩ (System.trace_of_record recorded)
      (Nat.le_trans (Nat.le_of_eq pids) (by decide)) ?_⟩
  intro transition present p inTable
  obtain ⟨table, _, chain, apart⟩ := tables transition present
  obtain ⟨table', chain', listed⟩ := inTable
  rw [← chain.unique chain'] at listed
  exact apart p listed

end ApnaOS.Process
