import Locator.Proofs.Command.Run

namespace Locator.Command

/-- What may happen to the settings file while a machine is at work: someone
    writes it or removes it, or the program loads it. -/
inductive FileStep where
  | write (bytes : ByteArray)
  | delete
  | load

namespace FileStep

/-- The machine after a step. -/
def take (w : World) : FileStep → World
  | write bytes => { w with settingsFile := some bytes }
  | delete => { w with settingsFile := none }
  | load => (Work.on (loadSettings World.machine) w).2

/-- The file as those leave it who write and remove it. -/
def change (file : Option ByteArray) : FileStep → Option ByteArray
  | write bytes => some bytes
  | delete => none
  | load => file

end FileStep

/-- The machine after a run of steps. -/
def after (w : World) (steps : List FileStep) : World :=
  steps.foldl FileStep.take w

/-- The file that the last step to write or remove it has left, whatever has been
    loaded. -/
def standing (file : Option ByteArray) (steps : List FileStep) : Option ByteArray :=
  steps.foldl FileStep.change file

/-- What a load comes to on a machine. -/
def loaded (w : World) : Except Failure Settings :=
  (Work.on (loadSettings World.machine) w).1

/-- A file that has been left as it is, or one with the default settings where
    none was left. -/
def Holds (file left : Option ByteArray) : Prop :=
  file = left ∨ left = none ∧ file = some Settings.defaultText.toUTF8

variable {w : World} {left : Option ByteArray}

theorem after_concat (w : World) (steps : List FileStep) (step : FileStep) :
    after w (steps ++ [step]) = step.take (after w steps) := by
  rw [after, List.foldl_append]
  rfl

theorem take_load (w : World) :
    FileStep.load.take w = { w with settingsFile := some (Settings.load w.settingsFile).2 } :=
  congrArg Prod.snd (on_loadSettings w)

theorem loaded_eq (w : World) : loaded w = (Settings.load w.settingsFile).1.mapError Failure.settings :=
  congrArg Prod.fst (on_loadSettings w)

/-- A file that there is is left alone with all the rest of the machine, also when
    its settings are refused. -/
theorem take_load_of_some {bytes : ByteArray} (h : w.settingsFile = some bytes) : FileStep.load.take w = w := by
  rw [take_load, h]
  change { w with settingsFile := some bytes } = w
  rw [← h]

theorem take_load_of_none (h : w.settingsFile = none) :
    FileStep.load.take w = { w with settingsFile := some Settings.defaultText.toUTF8 } := by
  rw [take_load, h]
  rfl

/-- No step touches anything but the file. -/
theorem take_frame (w : World) (step : FileStep) :
    step.take w = { w with settingsFile := (step.take w).settingsFile } := by
  cases step with
  | write bytes => rfl
  | delete => rfl
  | load =>
    rw [take_load]

theorem after_frame (w : World) (steps : List FileStep) :
    after w steps = { w with settingsFile := (after w steps).settingsFile } := by
  induction steps generalizing w with
  | nil => rfl
  | cons step steps ih =>
    change after (step.take w) steps = { w with settingsFile := (after (step.take w) steps).settingsFile }
    rw [ih, take_frame]

theorem load_eq_of_holds {file : Option ByteArray} (h : Holds file left) :
    (Settings.load file).1 = (Settings.load left).1 := by
  obtain rfl | ⟨rfl, rfl⟩ := h
  · rfl
  · exact congrArg Prod.fst (Settings.load_load none)

/-- A step leaves the file that its writers have left, or makes one where there is
    none. -/
theorem holds_take (h : Holds w.settingsFile left) (step : FileStep) :
    Holds (step.take w).settingsFile (step.change left) := by
  cases step with
  | write bytes => exact Or.inl rfl
  | delete => exact Or.inl rfl
  | load =>
    cases hfile : w.settingsFile with
    | some bytes =>
      rw [take_load_of_some hfile]
      exact h
    | none =>
      rw [take_load_of_none hfile]
      have hleft : left = none := by
        obtain hsame | ⟨hnone, -⟩ := h
        · rw [← hsame, hfile]
        · exact hnone
      exact Or.inr ⟨hleft, rfl⟩

theorem holds_after (h : Holds w.settingsFile left) (steps : List FileStep) :
    Holds (after w steps).settingsFile (standing left steps) := by
  induction steps generalizing w left with
  | nil => exact h
  | cons step steps ih => exact ih (holds_take h step)

/-- Over any run, a load leaves a file that there is as it is, together with the
    rest of the machine, and comes to what its bytes say. A missing file is made
    with the default settings, which are those loaded, then and by the next load.
    So a run of loads cannot be told from none: what each of them comes to is
    settled by the last step that wrote the file or removed it. -/
theorem load_after_run (w : World) (steps : List FileStep) :
    (∀ bytes, (after w steps).settingsFile = some bytes →
      after w (steps ++ [.load]) = after w steps ∧
      loaded (after w steps) = (Settings.ofBytes bytes).mapError Failure.settings) ∧
    ((after w steps).settingsFile = none →
      after w (steps ++ [.load]) = { w with settingsFile := some Settings.defaultText.toUTF8 } ∧
      loaded (after w steps) = .ok Settings.default) ∧
    loaded (after w (steps ++ [.load])) = loaded (after w steps) ∧
    Holds (after w steps).settingsFile (standing w.settingsFile steps) ∧
    loaded (after w steps) = (Settings.load (standing w.settingsFile steps)).1.mapError Failure.settings := by
  have hholds : Holds (after w steps).settingsFile (standing w.settingsFile steps) := holds_after (Or.inl rfl) steps
  rw [after_concat]
  refine ⟨?_, ?_, ?_, hholds, ?_⟩
  · intro bytes hfile
    constructor
    · exact take_load_of_some hfile
    · rw [loaded_eq, hfile]
      rfl
  · intro hfile
    constructor
    · rw [take_load_of_none hfile, after_frame]
    · rw [loaded_eq, hfile]
      rfl
  · rw [loaded_eq, loaded_eq, take_load, Settings.load_load]
  · rw [loaded_eq, load_eq_of_holds hholds]

/-- A machine on which no settings were ever made. -/
def World.bare : World :=
  let nowhere : Text → Except FileFault ByteArray := fun _ => .error .missing
  ⟨⟨none, none, nowhere⟩, []⟩

/-- Made by a load, overwritten with what is no text, loaded in vain, removed, and
    made again. -/
theorem load_after_run_of_broken_file :
    World.bare.settingsFile = none ∧
      (after World.bare [.load, .write ⟨#[0xff]⟩, .load]).settingsFile = some ⟨#[0xff]⟩ ∧
      after World.bare [.load, .write ⟨#[0xff]⟩, .load, .load] = after World.bare [.load, .write ⟨#[0xff]⟩, .load] ∧
      loaded (after World.bare [.load, .write ⟨#[0xff]⟩, .load]) = .error (.settings .notUtf8) ∧
      (after World.bare [.load, .write ⟨#[0xff]⟩, .load, .delete]).settingsFile = none ∧
      loaded (after World.bare [.load, .write ⟨#[0xff]⟩, .load, .delete]) = .ok Settings.default := by
  have hbroken : (after World.bare [.load, .write ⟨#[0xff]⟩, .load]).settingsFile = some ⟨#[0xff]⟩ := rfl
  have hremoved : (after World.bare [.load, .write ⟨#[0xff]⟩, .load, .delete]).settingsFile = none := rfl
  have hdecode : String.fromUTF8? ⟨#[0xff]⟩ = none := by decide +kernel
  have hrefused : Settings.ofBytes ⟨#[0xff]⟩ = .error .notUtf8 := by rw [Settings.ofBytes, hdecode]
  obtain ⟨huntouched, -⟩ := load_after_run World.bare [.load, .write ⟨#[0xff]⟩, .load]
  obtain ⟨-, hmade, -⟩ := load_after_run World.bare [.load, .write ⟨#[0xff]⟩, .load, .delete]
  obtain ⟨hsame, houtcome⟩ := huntouched _ hbroken
  rw [hrefused] at houtcome
  exact ⟨rfl, hbroken, hsame, houtcome, hremoved, (hmade hremoved).2⟩

section Unreadable

variable {m : Type → Type} [Monad m] [LawfulMonad m] {machine : Machine m} {fault : FileFault}

/-- A settings file that is there but cannot be read is not made anew. -/
theorem loadSettings_of_unreadable (h : machine.settingsFile = pure (.error fault)) :
    (loadSettings machine).run = pure (.error (.settingsFile fault)) := by
  have hread : (orFail Failure.settingsFile machine.settingsFile).run = pure (.error (.settingsFile fault)) := by
    simp [orFail, h]
  rw [loadSettings, ExceptT.run_bind, hread, pure_bind]

/-- Without a settings file that can be read an accepted command is not begun. -/
theorem program_of_unreadable {args : List Text} {command : Command} (hargs : ofArgs args = .done command)
    (h : machine.settingsFile = pure (.error fault)) (manual : Manual) :
    program machine manual args = pure ⟨1, some fault.message⟩ := by
  have hend : (loadSettings machine >>= fun settings => perform machine manual settings command).run =
      pure (.error (.settingsFile fault)) := by
    rw [ExceptT.run_bind, loadSettings_of_unreadable h, pure_bind]
  simp only [program, hargs]
  rw [hend, pure_bind]
  rfl

end Unreadable

end Locator.Command
