import Locator.Command.Run
import Locator.Proofs.Settings.Default

namespace Locator.Command

open Text

/-- What a program does on a machine at work. -/
abbrev Work (α : Type) := ExceptT Failure (StateM World) α

variable {α β : Type}

namespace Work

/-- The end of an action, and the machine after it. -/
def on (action : Work α) (w : World) : Except Failure α × World :=
  action.run.run w

theorem on_bind (action : Work α) (next : α → Work β) (w : World) :
    (action >>= next).on w =
      match action.on w with
      | (.ok a, after) => (next a).on after
      | (.error failure, after) => (.error failure, after) := by
  unfold on
  rw [ExceptT.run_bind, StateT.run_bind]
  rcases action.run.run w with ⟨_ | _, after⟩ <;> rfl

@[simp] theorem on_pure (a : α) (w : World) : on (pure a) w = (.ok a, w) := rfl

@[simp] theorem on_throw (failure : Failure) (w : World) : on (throw failure : Work α) w = (.error failure, w) := rfl

@[simp] theorem on_cwd (w : World) : on (liftM World.machine.cwd) w = (.ok w.cwd, w) := rfl

theorem on_orFail (failure : FileFault → Failure) (action : StateM World (Except FileFault α)) (w : World) :
    on (orFail failure action) w =
      match action.run w with
      | (.ok a, after) => (.ok a, after)
      | (.error fault, after) => (.error (failure fault), after) := by
  have hlift : on (liftM action) w = (.ok (action.run w).1, (action.run w).2) := rfl
  rw [orFail, on_bind, hlift]
  rcases action.run w with ⟨_ | _, after⟩ <;> rfl

@[simp] theorem on_settingsFile (failure : FileFault → Failure) (w : World) :
    on (orFail failure World.machine.settingsFile) w = (.ok w.settingsFile, w) := rfl

@[simp] theorem on_makeSettingsFile (failure : FileFault → Failure) (bytes : ByteArray) (w : World) :
    on (orFail failure (World.machine.makeSettingsFile bytes)) w = (.ok (), { w with settingsFile := some bytes }) :=
  rfl

@[simp] theorem on_read (failure : FileFault → Failure) (path : Text) (w : World) :
    on (orFail failure (World.machine.read path)) w =
      match w.files.contents w.settingsFile path with
      | .ok bytes => (.ok bytes, w)
      | .error fault => (.error (failure fault), w) := by
  have hread : (World.machine.read path).run w = (w.files.contents w.settingsFile path, w) := rfl
  rw [on_orFail, hread]
  cases w.files.contents w.settingsFile path <;> rfl

@[simp] theorem on_print (s : Text) (w : World) :
    on (liftM (World.machine.print s)) w = (.ok (), { w with output := w.output ++ s }) := rfl

end Work

open Work

/-- Loading ends as the settings file says, which is there afterwards. -/
theorem on_loadSettings (w : World) :
    Work.on (loadSettings World.machine) w =
      ((Settings.load w.settingsFile).1.mapError Failure.settings,
        { w with settingsFile := some (Settings.load w.settingsFile).2 }) := by
  obtain ⟨⟨cwd, file, files⟩, output⟩ := w
  cases file with
  | none =>
    have hload : Settings.load none = (.ok Settings.default, Settings.defaultText.toUTF8) := rfl
    simp only [loadSettings, on_bind, on_settingsFile, hload, Option.isNone_none, if_true, on_makeSettingsFile]
    rfl
  | some bytes =>
    have hload : Settings.load (some bytes) = (Settings.ofBytes bytes, bytes) := rfl
    simp only [loadSettings, on_bind, on_settingsFile, hload, Option.isNone_some, Bool.false_eq_true, if_false]
    cases Settings.ofBytes bytes <;> rfl

/-- An action that prints and comes to its end. -/
def Prints (action : Work Unit) (w : World) : Prop :=
  ∃ s, action.on w = (.ok (), { w with output := w.output ++ s })

theorem prints_print (s : Text) (w : World) : Prints (liftM (World.machine.print s)) w :=
  ⟨s, on_print s w⟩

theorem prints_printLine (s : Text) (w : World) : Prints (printLine World.machine s) w :=
  prints_print (line s) w

theorem prints_pure (w : World) : Prints (pure ()) w :=
  ⟨[], by rw [on_pure, List.append_nil]⟩

theorem prints_printFound (found : Option Text) (w : World) : Prints (printFound World.machine found) w := by
  cases found with
  | none => exact prints_pure w
  | some s => exact prints_printLine s w

theorem prints_forM (rows : List Text) (w : World) : Prints (forM rows (printLine World.machine)) w := by
  induction rows generalizing w with
  | nil => exact prints_pure w
  | cons row rows ih =>
    obtain ⟨s, hs⟩ := prints_printLine row w
    obtain ⟨more, hmore⟩ := ih { w with output := w.output ++ s }
    refine ⟨s ++ more, ?_⟩
    rw [List.forM_cons, on_bind, hs]
    simp only [hmore, List.append_assoc]

/-- The commands that fail: to take the local path of what is not the address
    of a file, and to read a file that cannot be read as text. -/
def Fails (w : World) : Command → Prop
  | .localPath url => (Url.read url).scheme ≠ Scheme.file
  | .nextLinkInFile path => ∀ bytes, w.files.contents w.settingsFile path = .ok bytes → String.fromUTF8? bytes = none
  | _ => False

theorem on_place (settings : Settings) (w : World) :
    Work.on (place World.machine settings) w = (.ok (settings.place w.cwd), w) := by
  rw [place, on_bind, on_cwd]
  rfl

theorem Prints.bind {action : Work α} {a : α} {next : α → Work Unit} {w : World}
    (h : action.on w = (.ok a, w)) (hnext : Prints (next a) w) : Prints (action >>= next) w := by
  obtain ⟨s, hs⟩ := hnext
  refine ⟨s, ?_⟩
  rw [on_bind, h]
  exact hs

theorem requireLocalPath_cases (place : Place) (url : Text) :
    ((Url.read url).scheme = Scheme.file ∧ ∃ path, place.requireLocalPath url = .ok path) ∨
      ((Url.read url).scheme ≠ Scheme.file ∧ ∃ fault, place.requireLocalPath url = .error fault) := by
  unfold Place.requireLocalPath Place.localPath?
  by_cases hscheme : (Url.read url).scheme = Scheme.file
  · rw [if_pos hscheme]
    exact Or.inl ⟨hscheme, _, rfl⟩
  · rw [if_neg hscheme]
    exact Or.inr ⟨hscheme, _, rfl⟩

/-- A file is read as text or not at all, and the machine is as before. -/
theorem on_readText_cases (path : Text) (w : World) :
    ((∃ bytes s, w.files.contents w.settingsFile path = .ok bytes ∧ String.fromUTF8? bytes = some s) ∧
      ∃ s, Work.on (readText World.machine path) w = (.ok s, w)) ∨
    ((∀ bytes, w.files.contents w.settingsFile path = .ok bytes → String.fromUTF8? bytes = none) ∧
      ∃ failure, Work.on (readText World.machine path) w = (.error failure, w)) := by
  simp only [readText, on_bind, on_read]
  cases hread : w.files.contents w.settingsFile path with
  | error fault =>
    refine Or.inr ⟨fun bytes h => ?_, _, rfl⟩
    cases h
  | ok bytes =>
    cases hdecode : String.fromUTF8? bytes with
    | none =>
      refine Or.inr ⟨fun other h => ?_, .fileNotUtf8 path, ?_⟩
      · cases h
        exact hdecode
      · simp only [hdecode, on_throw]
    | some s =>
      refine Or.inl ⟨⟨bytes, s, rfl, hdecode⟩, s.toList, ?_⟩
      simp only [hdecode, on_pure]

/-- A command fails on an untouched machine, or prints and comes to its end. -/
theorem perform_cases (manual : Manual) (settings : Settings) (command : Command) (w : World) :
    (¬ Fails w command ∧ Prints (perform World.machine manual settings command) w) ∨
      (Fails w command ∧
        ∃ failure, Work.on (perform World.machine manual settings command) w = (.error failure, w)) := by
  cases command with
  | showParts s => exact Or.inl ⟨id, prints_forM (parts (Url.read s)) w⟩
  | canonical s => exact Or.inl ⟨id, prints_printLine (Url.canonical s) w⟩
  | join mode base components =>
    exact Or.inl ⟨id, Prints.bind (on_place settings w) (prints_printLine _ w)⟩
  | fileUrl path => exact Or.inl ⟨id, Prints.bind (on_place settings w) (prints_printLine _ w)⟩
  | localPath url =>
    obtain ⟨hscheme, path, hpath⟩ | ⟨hscheme, fault, hfault⟩ := requireLocalPath_cases (settings.place w.cwd) url
    · refine Or.inl ⟨fun hfails => hfails hscheme, Prints.bind (on_place settings w) ?_⟩
      rw [hpath]
      exact prints_printLine path w
    · refine Or.inr ⟨hscheme, .address fault, ?_⟩
      rw [perform, on_bind, on_place]
      simp only [hfault, on_throw]
  | nextLink value => exact Or.inl ⟨id, prints_printFound (Link.next? value) w⟩
  | nextLinkInFile path =>
    obtain ⟨⟨bytes, s, hread, hdecode⟩, text, htext⟩ | ⟨hfails, failure, hfailure⟩ := on_readText_cases path w
    · refine Or.inl ⟨fun hfails => ?_, Prints.bind htext (prints_printFound _ w)⟩
      have hnone := hfails bytes hread
      rw [hdecode] at hnone
      cases hnone
    · refine Or.inr ⟨hfails, failure, ?_⟩
      rw [perform, on_bind, hfailure]
  | downloadName url => exact Or.inl ⟨id, prints_printLine (settings.naming.name url) w⟩
  | completions shell => exact Or.inl ⟨id, prints_print (manual.completions shell) w⟩
  | manual => exact Or.inl ⟨id, prints_print manual.page w⟩

/-- Loading the settings and carrying a command out under them. -/
def whole (manual : Manual) (command : Command) : Work Unit :=
  loadSettings World.machine >>= fun settings => perform World.machine manual settings command

variable {manual : Manual}

theorem run_of_done {args : List Text} {command : Command} (h : ofArgs args = .done command) (host : Host) :
    run host args manual =
      match (whole manual command).on ⟨host, []⟩ with
      | (.ok (), w) => ⟨0, w.output, none, w.settingsFile⟩
      | (.error failure, w) => ⟨1, w.output, some failure.message, w.settingsFile⟩ := by
  unfold run program whole Work.on
  rw [h]
  simp only [StateT.run_bind]
  rcases StateT.run (ExceptT.run (loadSettings World.machine >>= fun settings =>
    perform World.machine manual settings command)) ⟨host, []⟩ with ⟨_ | _, w⟩ <;> rfl

/-- A host as loading its settings leaves it. -/
def Host.loaded (host : Host) : Host :=
  { host with settingsFile := some (Settings.load host.settingsFile).2 }

/-- An accepted command ends in one of three ways, and the settings file is there
    in each of them: its settings are refused, or it fails, or it prints. -/
theorem on_whole_cases (manual : Manual) (command : Command) (host : Host) :
    (∃ refusal, (Settings.load host.settingsFile).1 = .error refusal ∧
      (whole manual command).on ⟨host, []⟩ = (.error (.settings refusal), ⟨host.loaded, []⟩)) ∨
    (∃ settings, (Settings.load host.settingsFile).1 = .ok settings ∧ Fails ⟨host.loaded, []⟩ command ∧
      ∃ failure, (whole manual command).on ⟨host, []⟩ = (.error failure, ⟨host.loaded, []⟩)) ∨
    (∃ settings, (Settings.load host.settingsFile).1 = .ok settings ∧ ¬ Fails ⟨host.loaded, []⟩ command ∧
      ∃ s, (whole manual command).on ⟨host, []⟩ = (.ok (), ⟨host.loaded, s⟩)) := by
  have hload := on_loadSettings ⟨host, []⟩
  cases hloaded : (Settings.load host.settingsFile).1 with
  | error refusal =>
    rw [hloaded] at hload
    refine Or.inl ⟨refusal, rfl, ?_⟩
    rw [whole, on_bind, hload]
    rfl
  | ok settings =>
    rw [hloaded] at hload
    have hwhole : (whole manual command).on ⟨host, []⟩ =
        Work.on (perform World.machine manual settings command) ⟨host.loaded, []⟩ := by
      rw [whole, on_bind, hload]
      rfl
    rw [hwhole]
    obtain ⟨hfine, s, hs⟩ | ⟨hfails, failure, hfailure⟩ := perform_cases manual settings command ⟨host.loaded, []⟩
    · exact Or.inr (Or.inr ⟨settings, rfl, hfine, s, hs⟩)
    · exact Or.inr (Or.inl ⟨settings, rfl, hfails, failure, hfailure⟩)

theorem whole_loaded (manual : Manual) (command : Command) (host : Host) :
    (whole manual command).on ⟨host.loaded, []⟩ = (whole manual command).on ⟨host, []⟩ := by
  rw [whole, on_bind, on_bind, on_loadSettings, on_loadSettings]
  simp only [Host.loaded, Settings.load_load]

theorem load_eq_error_iff (file : Option ByteArray) :
    (∃ refusal, (Settings.load file).1 = .error refusal) ↔
      ∃ bytes refusal, file = some bytes ∧ Settings.ofBytes bytes = .error refusal := by
  cases file with
  | none => simp [Settings.load]
  | some bytes => simp [Settings.load]

/-- What makes an accepted command fail: the settings file there is, the scheme
    of an address, or the file that it names, as it is when the settings file is
    there. -/
def Failing (host : Host) (command : Command) : Prop :=
  (∃ bytes refusal, host.settingsFile = some bytes ∧ Settings.ofBytes bytes = .error refusal) ∨
  (∃ url, command = .localPath url ∧ (Url.read url).scheme ≠ Scheme.file) ∨
  (∃ path, command = .nextLinkInFile path ∧
    ∀ bytes, host.files.contents (some (Settings.load host.settingsFile).2) path = .ok bytes →
      String.fromUTF8? bytes = none)

theorem failing_iff (host : Host) (command : Command) :
    Failing host command ↔
      (∃ refusal, (Settings.load host.settingsFile).1 = .error refusal) ∨ Fails ⟨host.loaded, []⟩ command := by
  rw [Failing, load_eq_error_iff]
  refine or_congr Iff.rfl ?_
  cases command <;> simp [Fails, Host.loaded]

theorem run_of_refused {args : List Text} (h : ofArgs args = .refused) (host : Host) :
    run host args manual = ⟨2, [], some (manual.complaint args), host.settingsFile⟩ := by
  unfold run program
  rw [h]
  rfl

theorem run_of_help {args : List Text} {topic : Option Verb} (h : ofArgs args = .help topic) (host : Host) :
    run host args manual = ⟨0, manual.help topic, none, host.settingsFile⟩ := by
  unfold run program
  rw [h]
  rfl

/-- An accepted command fails and nothing is printed, or it ends well. -/
theorem run_cases {args : List Text} {command : Command} (h : ofArgs args = .done command) (host : Host) :
    (Failing host command ∧ ∃ complaint, run host args manual = ⟨1, [], some complaint, host.loaded.settingsFile⟩) ∨
      (¬ Failing host command ∧ ∃ s, run host args manual = ⟨0, s, none, host.loaded.settingsFile⟩) := by
  have hfailing := failing_iff host command
  rw [run_of_done h]
  obtain ⟨refusal, hload, hend⟩ | ⟨settings, hload, hfails, failure, hend⟩ | ⟨settings, hload, hfine, s, hend⟩ :=
    on_whole_cases manual command host
  · refine Or.inl ⟨hfailing.2 (Or.inl ⟨refusal, hload⟩), (Failure.settings refusal).message, ?_⟩
    rw [hend]
  · refine Or.inl ⟨hfailing.2 (Or.inr hfails), failure.message, ?_⟩
    rw [hend]
  · refine Or.inr ⟨fun hfails => ?_, s, ?_⟩
    · obtain ⟨refusal, hrefused⟩ | hfails := hfailing.1 hfails
      · rw [hload] at hrefused
        cases hrefused
      · exact hfine hfails
    · rw [hend]

/-- Accepted arguments end in status 1 when the command fails and otherwise in
    status 0, and the command finds the settings file there, made if need be,
    which other arguments do not make. Nothing is printed before a failure. -/
theorem run_fails_iff (manual : Manual) (host : Host) (args : List Text) :
    (∀ command, ofArgs args = .done command →
      ((run host args manual).status = 1 ↔ Failing host command) ∧
      ((run host args manual).status = 1 ∨ (run host args manual).status = 0) ∧
      (run host args manual).settingsFile = some (Settings.load host.settingsFile).2 ∧
      run host args manual = run host.loaded args manual) ∧
    ((run host args manual).status = 1 → (run host args manual).output = []) ∧
    (host.settingsFile = none →
      ((run host args manual).settingsFile.isSome = true ↔ ∃ command, ofArgs args = .done command)) := by
  cases hargs : ofArgs args with
  | refused =>
    rw [run_of_refused hargs]
    exact ⟨nofun, fun _ => rfl, fun hnone => by simp [hnone]⟩
  | help topic =>
    rw [run_of_help hargs]
    exact ⟨nofun, nofun, fun hnone => by simp [hnone]⟩
  | done command =>
    have hloaded : run host args manual = run host.loaded args manual := by
      rw [run_of_done hargs, run_of_done hargs, whole_loaded]
    obtain ⟨hfails, complaint, hrun⟩ | ⟨hfine, s, hrun⟩ := run_cases hargs host
    · rw [← hloaded, hrun]
      refine ⟨?_, fun _ => rfl, fun _ => iff_of_true rfl ⟨command, rfl⟩⟩
      rintro other ⟨⟩
      exact ⟨iff_of_true rfl hfails, Or.inl rfl, rfl, rfl⟩
    · rw [← hloaded, hrun]
      refine ⟨?_, nofun, fun _ => iff_of_true rfl ⟨command, rfl⟩⟩
      rintro other ⟨⟩
      exact ⟨iff_of_false nofun hfine, Or.inr rfl, rfl, rfl⟩

/-- A command that fails leaves the settings file that was made for it. -/
theorem run_of_refused_address :
    ofArgs ["to-path".toList, "http://x".toList] = .done (.localPath "http://x".toList) ∧
      (run ⟨none, none, ⟨fun _ _ => .error .missing⟩⟩ ["to-path".toList, "http://x".toList]).status = 1 ∧
      (run ⟨none, none, ⟨fun _ _ => .error .missing⟩⟩ ["to-path".toList, "http://x".toList]).output = [] ∧
      (run ⟨none, none, ⟨fun _ _ => .error .missing⟩⟩ ["to-path".toList, "http://x".toList]).settingsFile =
        some Settings.defaultText.toUTF8 := by
  have hargs : ofArgs ["to-path".toList, "http://x".toList] = .done (.localPath "http://x".toList) := rfl
  obtain ⟨haccepted, houtput, -⟩ := run_fails_iff .plain ⟨none, none, ⟨fun _ _ => .error .missing⟩⟩
    ["to-path".toList, "http://x".toList]
  obtain ⟨hstatus, -, hfile, -⟩ := haccepted _ hargs
  have hfailed := hstatus.2 (Or.inr (Or.inl ⟨_, rfl, by decide⟩))
  exact ⟨hargs, hfailed, houtput hfailed, hfile⟩

/-- The settings file that is made may itself be the file that a command names. -/
example :
    (run ⟨none, none, ⟨fun settings _ => settings.elim (.error .missing) .ok⟩⟩
      ["next-link".toList, "--headers".toList, "config.toml".toList]).status = 0 := by
  decide +kernel

end Locator.Command
