import AccelFirmware.Console.Command
import AccelFirmware.Proofs.FileTrees

/-!
# Tasks in a session

What the operations of a shell come to where the system is a value, and which tasks leave the system as it is.
-/

namespace AccelFirmware

namespace Session

variable {α β : Type}

theorem runIn_bind (operation : Session α) (next : α → Session β) (w : World) :
    runIn (operation >>= next) w = runIn (next (runIn operation w).1) (runIn operation w).2 := rfl

@[simp] theorem runIn_isDirectory (path : String) (w : World) :
    runIn (Shell.isDirectory path) w = (w.files.isDirectory w.working path, w) := rfl

@[simp] theorem runIn_listNames (path : String) (w : World) :
    runIn (Shell.listNames path) w = (w.files.listNames w.working path, w) := rfl

theorem runIn_writeText (path text : String) (w : World) : runIn (Shell.writeText path text) w =
    match w.files.writeText w.working path text with
    | .ok files => (.ok (), { w with files })
    | .error e => (.error e, w) := rfl

end Session

namespace Task

variable {α β : Type} {w w' : World} {path : String}

/-! ## Operations -/

@[simp] theorem runIn_throw (e : CommandError) (w : World) : runIn (throw e : Task Session α) w = (.error e, w) := rfl

@[simp] theorem runIn_workingPlace (w : World) : runIn Shell.workingPlace w = (.ok w.working, w) := rfl

@[simp] theorem runIn_isPresent (path : String) (w : World) :
    runIn (Shell.isPresent path) w = (.ok (w.files.isPresent w.working path), w) := rfl

@[simp] theorem runIn_isFile (path : String) (w : World) :
    runIn (Shell.isFile path) w = (.ok (w.files.isFile w.working path), w) := rfl

theorem runIn_readText (path : String) (failure : FileError → CommandError) (w : World) :
    runIn (attempt (Shell.readText path) failure) w = ((w.files.readText w.working path).mapError failure, w) := by
  have hread : Session.runIn (Shell.readText path) w = (w.files.readText w.working path, w) := rfl
  rw [runIn_attempt, hread]
  cases w.files.readText w.working path <;> rfl

/-- A task that refuses to begin where something is there. -/
theorem runIn_unlessPresent (path : String) (e : CommandError) (task : Task Session Unit) (w : World) :
    runIn (do
      if ← Shell.isPresent path then throw e
      task) w = if w.files.isPresent w.working path then (.error e, w) else task.runIn w := by
  rw [runIn_bind, runIn_isPresent]
  cases w.files.isPresent w.working path <;> rfl

/-! ## Tasks that only look -/

/-- The task leaves the world as it is. -/
def Quiet (task : Task Session α) : Prop := ∀ w, (task.runIn w).2 = w

theorem quiet_pure (a : α) : Quiet (pure a) := fun _ => rfl

theorem quiet_throw (e : CommandError) : Quiet (throw e : Task Session α) := fun _ => rfl

theorem Quiet.bind {task : Task Session α} {next : α → Task Session β} (h : task.Quiet) (hnext : ∀ a, (next a).Quiet) :
    (task >>= next).Quiet := by
  intro w
  have hw := h w
  rw [runIn_bind]
  rcases hresult : runIn task w with ⟨error | a, between⟩
  · rwa [hresult] at hw
  · rw [hresult] at hw
    obtain rfl : between = w := hw
    exact hnext a between

theorem quiet_readText (path : String) (failure : FileError → CommandError) : Quiet (attempt (Shell.readText path) failure) :=
  fun w => by rw [runIn_readText]

theorem Quiet.runIn_eq {task : Task Session α} (h : task.Quiet) (w : World) : task.runIn w = ((task.runIn w).1, w) :=
  Prod.ext rfl (h w)

theorem Quiet.eq_ok {task : Task Session α} {a : α} (h : task.Quiet) (hrun : task.runIn w = (.ok a, w')) : w' = w := by
  have hw := h w
  rwa [hrun] at hw

end Task

namespace Project

theorem quiet_findFrom (places : List Place) : Task.Quiet (findFrom places : Task Session (Option Project)) := by
  induction places with
  | nil => exact Task.quiet_pure none
  | cons place places ih =>
    refine Task.Quiet.bind (fun _ => rfl) fun isFile => ?_
    cases isFile with
    | false => exact ih
    | true =>
      refine Task.Quiet.bind (Task.quiet_readText _ _) fun text => ?_
      cases Manifest.ofToml? text with
      | none => exact Task.quiet_throw _
      | some manifest => exact Task.quiet_pure _

theorem quiet_find : Task.Quiet (find : Task Session (Option Project)) :=
  Task.Quiet.bind (fun _ => rfl) fun place => quiet_findFrom place.outward

theorem quiet_directoryOrWorking : Task.Quiet (directoryOrWorking : Task Session String) :=
  Task.Quiet.bind quiet_find fun
    | some project => Task.quiet_pure project.directory
    | none => Task.Quiet.bind (fun _ => rfl) fun place => Task.quiet_pure place.path

end Project

/-! ## Commands -/

namespace Command

variable {c : Command} {w w' : World}

/-- What is left of the world when a command has ended with an error. -/
def complained (e : CommandError) (w : World) : World := { w with errors := w.errors ++ ("error: " ++ e.message ++ "\n") }

theorem runIn_perform (c : Command) (w : World) : Session.runIn c.perform w =
    match Task.runIn c.run w with
    | (.ok (), after) => (0, after)
    | (.error e, after) => (1, complained e after) := by
  rcases hresult : Task.runIn (c.run : Task Session Unit) w with ⟨error | done, after⟩ <;>
    · simp only [Task.runIn, Session.runIn] at hresult
      simp only [Session.runIn, perform, bind, StateT.bind, hresult]
      rfl

/-- A command ends with status 0 just when nothing fails. -/
theorem perform_eq_zero : Session.runIn c.perform w = (0, w') ↔ Task.runIn c.run w = (.ok (), w') := by
  rw [runIn_perform]
  rcases Task.runIn (c.run : Task Session Unit) w with ⟨error | done, after⟩ <;> simp

/-- The message about an error is no change to the files. -/
theorem files_perform (c : Command) (w : World) : (Session.runIn c.perform w).2.files = (Task.runIn c.run w).2.files := by
  rw [runIn_perform]
  rcases Task.runIn (c.run : Task Session Unit) w with ⟨error | done, after⟩ <;> rfl

end Command

end AccelFirmware
