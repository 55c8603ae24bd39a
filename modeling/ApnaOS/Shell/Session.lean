import ApnaOS.FileSystem.Catalog
import ApnaOS.Shell.Grammar
import ApnaOS.Shell.ReadBranch
import Mathlib.Data.List.GetD

/-!
# Sessions of the shell

What the shell is for: an interpreter of commands over a catalog of files.  What `cli_loop`
prints in a session, and the requests that it makes, are those of the interpreter.
-/

set_option autoImplicit false

namespace ApnaOS.Shell

open ApnaOS.Lib ApnaOS.FileSystem
open ApnaOS.StringOps (Byte Bytes)
open Function (update update_self update_of_ne)

/-! ## The loop -/

/-- A line that `read_line` returns, and whether `create_process` gets memory if the line asks
for a process. -/
structure Turn extends Entry where
  served : Bool

structure Session where
  printed : List Byte
  requests : List Request
  disk : Disk
  stage : Stage

/-- `cli_loop`, and itself when `schedule` calls it again, on the lines that `read_line` returns
up to the one behind which no more are read. -/
def cliLoop (disk : Disk) (loop : Loop) : List Turn → Session
  | [] => ⟨prompt, [], disk, .reading loop⟩
  | turn :: rest =>
      let outcome := cliLine disk turn.toEntry
      match loop.after turn.served outcome.request with
      | .reading loop =>
          let session := cliLoop outcome.disk loop rest
          { session with
            printed := prompt ++ outcome.printed ++ session.printed
            requests := outcome.request :: session.requests }
      | stage =>
          ⟨prompt ++ outcome.printed ++ stage.prints, [outcome.request], outcome.disk, stage⟩

/-! ## The interpreter -/

structure Response where
  printed : List Byte
  request : Request
  catalog : Catalog

def Texts.respond (texts : Texts) (answered : Answer × Catalog) : Response :=
  ⟨if answered.1.result = none then texts.failed else texts.done, .nothing, answered.2⟩

def listing (catalog : Catalog) : List Byte :=
  (List.range maxFiles).flatMap fun i =>
    match catalog i with
    | some record => record.file.name ++ message "\n"
    | none => []

def respondRead (answered : Answer × Catalog) : Response :=
  match answered.1.result with
  | none => ⟨readTexts.failed, .nothing, answered.2⟩
  | some _ => ⟨readTexts.done ++ answered.1.bytes ++ message "\n", .nothing, answered.2⟩

def Command.interpret (catalog : Catalog) : Command → Response
  | .blank => ⟨[], .nothing, catalog⟩
  | .exit => ⟨exiting, .exit, catalog⟩
  | .start => ⟨starting, .schedule, catalog⟩
  | .queue entryPoint priority =>
      ⟨queueing entryPoint, .createProcess entryPoint priority, catalog⟩
  | .make name => makeTexts.respond (catalog.createFile name)
  | .read name => respondRead (catalog.readFile name readBufferSize)
  | .write name data =>
      writeTexts.respond (catalog.writeFile name (fun i => data.getD i 0) data.length)
  | .append name data =>
      appendTexts.respond (catalog.appendToFile name (fun i => data.getD i 0) data.length)
  | .remove name => rmTexts.respond (catalog.deleteFile name)
  | .chmod name permissions => chmodTexts.respond (catalog.chmodFile name permissions)
  | .list => ⟨listing catalog, .nothing, catalog⟩
  | .refused complaint => ⟨complaint, .nothing, catalog⟩

def Command.request : Command → Request
  | .exit => .exit
  | .start => .schedule
  | .queue entryPoint priority => .createProcess entryPoint priority
  | _ => .nothing

theorem interpret_request (catalog : Catalog) (command : Command) :
    (command.interpret catalog).request = command.request := by
  cases command with
  | read name =>
      rw [Command.interpret, respondRead]
      split <;> rfl
  | blank | exit | start | queue | make | write | append | remove | chmod | list | refused => rfl

/-- What the interpreter has printed and asked for in a session, and where it ends. -/
structure Interpretation where
  printed : List Byte
  requests : List Request
  catalog : Catalog
  stage : Stage

def interpretAll (catalog : Catalog) (loop : Loop) : List (Command × Bool) → Interpretation
  | [] => ⟨prompt, [], catalog, .reading loop⟩
  | (command, served) :: rest =>
      let response := command.interpret catalog
      match loop.after served response.request with
      | .reading loop =>
          let later := interpretAll response.catalog loop rest
          { later with
            printed := prompt ++ response.printed ++ later.printed
            requests := response.request :: later.requests }
      | stage =>
          ⟨prompt ++ response.printed ++ stage.prints, [response.request], response.catalog, stage⟩

/-- The file that a command reads has room for its terminator in the buffer of the shell. -/
def Command.ReadsShort (catalog : Catalog) : Command → Prop
  | .read name => (catalog.readFile name readBufferSize).1.bytes.length < readBufferSize
  | _ => True

def SessionShort (catalog : Catalog) (loop : Loop) : List (Command × Bool) → Prop
  | [] => True
  | (command, served) :: rest =>
      command.ReadsShort catalog ∧
        match loop.after served (command.interpret catalog).request with
        | .reading loop => SessionShort (command.interpret catalog).catalog loop rest
        | _ => True

instance (catalog : Catalog) (command : Command) : Decidable (command.ReadsShort catalog) :=
  match command with
  | .read _ => inferInstanceAs (Decidable (_ < _))
  | .blank | .exit | .start | .queue _ _ | .make _ | .write _ _ | .append _ _ | .remove _
  | .chmod _ _ | .list | .refused _ => .isTrue trivial

def decideSessionShort (catalog : Catalog) (loop : Loop) :
    (commands : List (Command × Bool)) → Decidable (SessionShort catalog loop commands)
  | [] => .isTrue trivial
  | (command, served) :: rest =>
      have : Decidable (match loop.after served (command.interpret catalog).request with
          | .reading loop => SessionShort (command.interpret catalog).catalog loop rest
          | _ => True) :=
        match loop.after served (command.interpret catalog).request with
        | .reading loop => decideSessionShort (command.interpret catalog).catalog loop rest
        | .process | .spinning | .halted => .isTrue trivial
      inferInstanceAs (Decidable (_ ∧ _))

instance (catalog : Catalog) (loop : Loop) (commands : List (Command × Bool)) :
    Decidable (SessionShort catalog loop commands) := decideSessionShort catalog loop commands

/-! ## NUL-free files -/

def Clean (catalog : Catalog) : Prop :=
  ∀ i record, catalog i = some record → (0 : Byte) ∉ record.file.contents

theorem Clean.update {catalog : Catalog} (clean : Clean catalog) {i : Nat} {after : Option Record}
    (kept : ∀ record, after = some record → (0 : Byte) ∉ record.file.contents) :
    Clean (update catalog i after) := by
  intro i' record holds
  by_cases same : i' = i
  · subst same
    rw [update_self] at holds
    exact kept record holds
  · rw [update_of_ne same] at holds
    exact clean i' record holds

theorem Clean.onRecord {catalog : Catalog} (clean : Clean catalog) {name : List Byte}
    {act : Record → Answer × Option Record}
    (kept : ∀ record after, (0 : Byte) ∉ record.file.contents →
      (act record).2 = some after → (0 : Byte) ∉ after.file.contents) :
    Clean (catalog.onRecord name act).2 := by
  rw [Catalog.onRecord]
  cases catalog.find name with
  | none => exact clean
  | some i =>
      dsimp only
      cases holds : catalog i with
      | none => exact clean
      | some record =>
          apply clean.update
          exact fun after same => kept record after (clean i record holds) same

theorem guarded_kept {permitted : UInt16 → Bool} {act : Record → Answer × Option Record}
    (kept : ∀ record after, (0 : Byte) ∉ record.file.contents →
      (act record).2 = some after → (0 : Byte) ∉ after.file.contents) :
    ∀ record after, (0 : Byte) ∉ record.file.contents →
      (Catalog.guarded permitted act record).2 = some after →
        (0 : Byte) ∉ after.file.contents := by
  intro record after clean same
  rw [Catalog.guarded] at same
  split at same
  · exact kept record after clean same
  · rw [← Option.some.inj same]
    exact clean

theorem firstBytes_clean {data : Word} (proper : (0 : Byte) ∉ data) {count : Nat}
    (inside : count ≤ data.length) :
    (0 : Byte) ∉ Directory.firstBytes (fun i => data.getD i 0) count := by
  rw [Directory.firstBytes, List.mem_map]
  rintro ⟨i, member, zero⟩
  have before : i < data.length := Nat.lt_of_lt_of_le (List.mem_range.mp member) inside
  rw [List.getD_eq_getElem data 0 before] at zero
  exact proper (zero ▸ List.getElem_mem before)

def Command.Proper : Command → Prop
  | .write _ data => (0 : Byte) ∉ data
  | .append _ data => (0 : Byte) ∉ data
  | _ => True

theorem Clean.interpret {catalog : Catalog} (clean : Clean catalog) {command : Command}
    (proper : command.Proper) : Clean (command.interpret catalog).catalog := by
  cases command with
  | blank | exit | start | queue | list | refused => exact clean
  | make name =>
      show Clean (catalog.createFile name).2
      rw [Catalog.createFile]
      split
      · apply clean.update
        rintro record ⟨⟩
        exact List.not_mem_nil
      · exact clean
  | read name =>
      have kept : Clean (catalog.readFile name readBufferSize).2 := by
        apply clean.onRecord (guarded_kept _)
        rintro record after proper' ⟨⟩
        exact proper'
      rw [Command.interpret, respondRead]
      split <;> exact kept
  | write name data =>
      apply clean.onRecord (guarded_kept _)
      rintro record after _ ⟨⟩
      exact firstBytes_clean proper ((Nat.min_le_left _ _).trans (Nat.min_le_left _ _))
  | append name data =>
      apply clean.onRecord (guarded_kept _)
      intro record after proper' same
      split at same
      · cases same
        exact proper'
      · cases same
        rw [Record.append, List.mem_append, not_or]
        exact ⟨proper', firstBytes_clean proper ((Nat.min_le_left _ _).trans (Nat.min_le_left _ _))⟩
  | remove name =>
      apply clean.onRecord (guarded_kept _)
      rintro record after _ ⟨⟩
  | chmod name permissions =>
      apply clean.onRecord
      rintro record after proper' ⟨⟩
      exact proper'

/-! ### Data are part of the line -/

theorem behindWord_sublist (text : List Byte) : (behindWord text).Sublist text :=
  (List.tail_sublist _).trans ((List.dropWhile_sublist _).trans (List.dropWhile_sublist _))

theorem lineData_sublist {text data : List Byte} (found : lineData text = some data) :
    data.Sublist text := by
  rw [lineData, ← runs_dropWhile] at found
  by_cases nothing : text.dropWhile isNewline = []
  · rw [nothing] at found
    cases found
  · rw [runs_of_head nothing (List.head_dropWhile_not isNewline nothing), List.head?_cons,
      Option.some.injEq] at found
    rw [← found]
    exact (List.takeWhile_sublist _).trans (List.dropWhile_sublist _)

theorem parseData_proper {texts : Texts} {command : Word → Word → Command} {text : List Byte}
    (carries : ∀ name data, (0 : Byte) ∉ data → (command name data).Proper)
    (proper : (0 : Byte) ∉ text) : (parseData texts command text).Proper := by
  rw [parseData]
  split
  · rename_i name data _ found
    apply carries
    have inside := (lineData_sublist found).trans (behindWord_sublist text)
    exact fun member => proper (inside.subset member)
  · trivial

theorem parseName_proper {texts : Texts} {command : Word → Command} (names : List Word)
    (carries : ∀ name, (command name).Proper) : (parseName texts command names).Proper := by
  cases names with
  | nil => trivial
  | cons name _ => exact carries name

theorem parseProcess_proper (names : List Word) : (parseProcess names).Proper := by
  cases names with
  | nil => trivial
  | cons name more =>
      rw [parseProcess]
      split
      · trivial
      split
      · trivial
      split
      · trivial
      split <;> trivial

theorem parse_proper {line : List Byte} (proper : (0 : Byte) ∉ line) : (parse line).Proper := by
  have behind : ∀ {text : List Byte}, (0 : Byte) ∉ text → (0 : Byte) ∉ behindWord text :=
    fun clean member => clean ((behindWord_sublist _).subset member)
  rw [parse]
  split
  · trivial
  split
  · trivial
  split
  · exact parseProcess_proper _
  split
  · rw [parseFile]
    split
    · trivial
    split
    · exact parseName_proper _ fun _ => trivial
    split
    · exact parseName_proper _ fun _ => trivial
    split
    · exact parseData_proper (fun _ _ clean => clean) (behind (behind proper))
    split
    · exact parseData_proper (fun _ _ clean => clean) (behind (behind proper))
    split
    · exact parseName_proper _ fun _ => trivial
    split
    · trivial
    split
    · rw [parseChmod.eq_def]
      split <;> trivial
    · trivial
  split <;> trivial

/-! ## One line -/

structure Agrees (outcome : Outcome) (response : Response) : Prop where
  printed : outcome.printed = response.printed
  request : outcome.request = response.request
  catalog : catalogOf outcome.disk = response.catalog

theorem report_agrees {disk : Disk} (invariant : Invariant disk) (texts : Texts)
    (operation : Operation) :
    Agrees (answered (texts.report (perform disk operation)))
      (texts.respond ((catalogOf disk).perform operation)) := by
  rw [← perform_catalog invariant operation]
  exact ⟨rfl, rfl, rfl⟩

theorem stringIn_terminated {memory : Bytes} {size count : Nat} (inside : count < size)
    (clean : (0 : Byte) ∉ Directory.firstBytes memory count) :
    stringIn size (update memory count 0) = Directory.firstBytes memory count := by
  obtain ⟨more, rfl⟩ := Nat.exists_eq_add_of_lt inside
  have start : (List.range count).map (update memory count 0) =
      Directory.firstBytes memory count := by
    apply List.map_congr_left
    exact fun i member => update_of_ne (Nat.ne_of_lt (List.mem_range.mp member)) 0 memory
  rw [stringIn, Nat.add_assoc, List.range_add, List.map_append, start, List.range_succ_eq_map,
    List.map_cons, List.map_cons, Nat.add_zero, update_self,
    List.takeWhile_append_of_pos, List.takeWhile_cons_of_neg, List.append_nil]
  · exact fun holds => of_decide_eq_true holds rfl
  · exact fun c member => decide_eq_true fun zero => clean (zero ▸ member)

theorem listFiles_catalogOf (disk : Disk) : listFiles disk = listing (catalogOf disk) := by
  rw [listFiles, listing]
  apply List.flatMap_congr
  intro i member
  have bound := List.mem_range.mp member
  by_cases vacant : (disk.rootDirectory i).inodeNumber = 0
  · rw [if_neg (not_not.mpr vacant), (catalogOf_eq_none_iff bound).mpr vacant]
  · obtain ⟨k, number⟩ := Nat.exists_eq_succ_of_ne_zero vacant
    rw [if_pos vacant, catalogOf_occupied bound number]
    rfl

theorem Clean.readFile {catalog : Catalog} (clean : Clean catalog) (name : Word) (size : Nat) :
    (0 : Byte) ∉ (catalog.readFile name size).1.bytes := by
  rw [Catalog.readFile, Catalog.onRecord]
  cases catalog.find name with
  | none => exact List.not_mem_nil
  | some i =>
      dsimp only
      cases holds : catalog i with
      | none => exact List.not_mem_nil
      | some record =>
          dsimp only
          rw [Catalog.guarded]
          split
          · exact fun member => clean i record holds (List.mem_of_mem_take member)
          · exact List.not_mem_nil

theorem readAnswer_agrees {disk : Disk} (invariant : Invariant disk)
    (clean : Clean (catalogOf disk)) (filename : FileName) (buffer : Bytes)
    (short : (Command.read filename.chars).ReadsShort (catalogOf disk)) :
    Agrees (answered (readAnswer disk buffer filename))
      ((Command.read filename.chars).interpret (catalogOf disk)) := by
  have step : (answer disk (.readFile filename buffer readBufferSize), catalogOf disk) =
      (catalogOf disk).readFile filename.chars readBufferSize := perform_catalog invariant _
  have pure := clean.readFile filename.chars readBufferSize
  rw [Command.ReadsShort, ← step] at short
  rw [← step] at pure
  rw [Command.interpret, ← step, readAnswer]
  rw [answer] at short pure ⊢
  rw [perform] at short pure ⊢
  cases called : readFile disk filename buffer readBufferSize with
  | mk result delivered =>
      simp only [called] at short pure ⊢
      cases result with
      | none => exact ⟨rfl, rfl, rfl⟩
      | some bytesRead =>
          have count : bytesRead < readBufferSize := by
            rw [Option.getD_some, Directory.firstBytes, List.length_map, List.length_range] at short
            exact short
          refine ⟨?_, rfl, rfl⟩
          show readTexts.done ++ stringIn (readBufferSize + 1) (update delivered bytesRead 0) ++
            message "\n" = _
          rw [stringIn_terminated (Nat.lt_succ_of_lt count) pure]
          rfl

/-- A line is interpreted as its command. -/
theorem cliLine_agrees {disk : Disk} (invariant : Invariant disk) (clean : Clean (catalogOf disk))
    (entry : Entry) (short : (parse entry.line.chars).ReadsShort (catalogOf disk)) :
    Agrees (cliLine disk entry) ((parse entry.line.chars).interpret (catalogOf disk)) := by
  have does := cliLine_does disk entry
  revert short does
  cases parse entry.line.chars with
  | blank | exit | start | queue | refused =>
      rintro _ does
      rw [show cliLine disk entry = _ from does]
      exact ⟨rfl, rfl, rfl⟩
  | list =>
      rintro _ does
      rw [show cliLine disk entry = _ from does]
      exact ⟨listFiles_catalogOf disk, rfl, rfl⟩
  | make name =>
      rintro _ ⟨filename, rfl, does⟩
      rw [does]
      exact report_agrees invariant makeTexts (.createFile filename)
  | read name =>
      rintro short ⟨filename, rfl, does⟩
      rw [does]
      exact readAnswer_agrees invariant clean filename entry.buffer short
  | write name data =>
      rintro _ ⟨filename, rfl, does⟩
      rw [does]
      exact report_agrees invariant writeTexts (.writeFile filename _ _)
  | append name data =>
      rintro _ ⟨filename, rfl, does⟩
      rw [does]
      exact report_agrees invariant appendTexts (.appendToFile filename _ _)
  | remove name =>
      rintro _ ⟨filename, rfl, does⟩
      rw [does]
      exact report_agrees invariant rmTexts (.deleteFile filename)
  | chmod name permissions =>
      rintro _ ⟨filename, rfl, does⟩
      rw [does]
      exact report_agrees invariant chmodTexts (.chmodFile filename permissions)

/-! ## Sessions -/

theorem cliLine_invariant {disk : Disk} (invariant : Invariant disk) (entry : Entry) :
    Invariant (cliLine disk entry).disk := by
  rw [cliLine_disk]
  exact runLine_invariant invariant entry

theorem Entry.proper (entry : Entry) : (parse entry.line.chars).Proper := by
  apply parse_proper
  exact fun zero => entry.line.nul_free 0 zero rfl

def asked (turns : List Turn) : List (Command × Bool) :=
  turns.map fun turn => (parse turn.line.chars, turn.served)

structure Session.Interpreted (session : Session) (interpretation : Interpretation) : Prop where
  printed : session.printed = interpretation.printed
  requests : session.requests = interpretation.requests
  catalog : catalogOf session.disk = interpretation.catalog
  stage : session.stage = interpretation.stage

theorem cliLoop_interpreted {disk : Disk} {loop : Loop} {turns : List Turn}
    (invariant : Invariant disk) (clean : Clean (catalogOf disk))
    (short : SessionShort (catalogOf disk) loop (asked turns)) :
    (cliLoop disk loop turns).Interpreted (interpretAll (catalogOf disk) loop (asked turns)) := by
  induction turns generalizing disk loop with
  | nil => exact ⟨rfl, rfl, rfl, rfl⟩
  | cons turn rest ih =>
      obtain ⟨here, later⟩ := short
      have agrees := cliLine_agrees invariant clean turn.toEntry here
      have clean' := clean.interpret turn.toEntry.proper
      rw [asked, List.map_cons, cliLoop, interpretAll, ← agrees.request, ← agrees.printed,
        ← agrees.catalog]
      rw [← agrees.request, ← agrees.catalog] at later
      rw [← agrees.catalog] at clean'
      dsimp only
      cases stage : loop.after turn.served (cliLine disk turn.toEntry).request with
      | reading loop =>
          rw [stage] at later
          have rest' := ih (cliLine_invariant invariant turn.toEntry) clean' later
          exact ⟨congrArg (_ ++ ·) rest'.printed, congrArg (_ :: ·) rest'.requests,
            rest'.catalog, rest'.stage⟩
      | process | spinning | halted => exact ⟨rfl, rfl, rfl, rfl⟩

theorem clean_empty : Clean Catalog.empty := fun _ _ holds => nomatch holds

/-- From `format_disk` on the shell prints what an interpreter of its commands over an empty
catalog prints, makes the same requests and ends in the same way, as long as all reads are of
short files: what was on the disk and in the buffer of the read branch is never printed. -/
theorem session_interpreted (before : Disk) (turns : List Turn)
    (short : SessionShort Catalog.empty Loop.boot (asked turns)) :
    (cliLoop (formatDisk before) Loop.boot turns).Interpreted
      (interpretAll Catalog.empty Loop.boot (asked turns)) := by
  rw [← catalogOf_format before] at short ⊢
  apply cliLoop_interpreted (formatDisk_invariant before) _ short
  rw [catalogOf_format]
  exact clean_empty

def startLine : Text := ⟨message "process start", by decide +kernel, by decide +kernel⟩
def dummyLine : Text := ⟨message "process dummy1", by decide +kernel, by decide +kernel⟩

/-- A file is made, nobody is started, in the loop that `schedule` calls the file is written to
and read, and then somebody is started. -/
def startTwice : List Turn :=
  [⟨⟨makeLine, noBytes⟩, true⟩, ⟨⟨startLine, noBytes⟩, true⟩, ⟨⟨appendLine, noBytes⟩, true⟩,
    ⟨⟨readLine, fun _ => 9⟩, true⟩, ⟨⟨dummyLine, noBytes⟩, true⟩, ⟨⟨startLine, noBytes⟩, true⟩]

theorem session_interpreted_startTwice :
    (cliLoop (formatDisk { zeroDisk with storage := fun _ _ => 7 }) Loop.boot
      startTwice).Interpreted (interpretAll Catalog.empty Loop.boot (asked startTwice)) :=
  session_interpreted _ _ (by decide +kernel)

end ApnaOS.Shell
