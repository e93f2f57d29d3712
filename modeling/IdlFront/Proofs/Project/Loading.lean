import IdlFront.Proofs.Project.Selection
import IdlFront.Proofs.Text.Utf8

/-! # How settings are loaded

* `FileStore.HoldsNoText` — a file whose bytes are not UTF-8.
* `FileStore.readText_notUtf8_iff` — reading a file fails over its bytes just if it is such a file.
* `SettingsReader.Signals`, `SettingsReader.Judges` — a reader of YAML and a check that signal their own
  failures. The check of this library does.
* `SettingsReader.readConfig_ends` — then a text gives settings, or an error of theirs.
* `loadConfig_ends_iff` — so does a file, unless it holds no text.
-/

namespace IdlFront

/-! ## Files without a text -/

namespace FileStore

/-- The file is there, but its bytes are those of no text. -/
def HoldsNoText (fs : FileStore) (p : Path) : Prop :=
  ∃ content t, fs.find p = .ok (.file content t) ∧ ∀ cs, content ≠ Text.Utf8.encode cs

variable {fs : FileStore} {p : Path}

theorem readText_notUtf8_iff : (∃ e, fs.readText p = .error (.notUtf8 e)) ↔ fs.HoldsNoText p := by
  unfold readText readBytes HoldsNoText
  cases found : fs.find p with
  | error refusal => exact ⟨nofun, nofun⟩
  | ok entry =>
    cases entry with
    | directory t => exact ⟨nofun, nofun⟩
    | file content t =>
      cases decoded : Text.Utf8.decode content with
      | error e =>
        refine ⟨fun _ => ⟨content, t, rfl, fun cs eq => ?_⟩, fun _ => ⟨e, by simp [decoded]⟩⟩
        rw [Text.Utf8.decode_eq_ok_iff.2 eq] at decoded
        cases decoded
      | ok cs =>
        refine ⟨fun ⟨e, failed⟩ => by simp [decoded] at failed, ?_⟩
        rintro ⟨content', t', eq, noText⟩
        cases eq
        exact absurd (Text.Utf8.decode_eq_ok_iff.1 decoded) (noText cs)

/-- Where nothing is, reading is refused. -/
theorem readText_of_absent (absent : ¬ fs.hasEntry p = true) :
    ∃ e, fs.readText p = .error (.refused e) := by
  unfold readText readBytes
  cases found : fs.find p with
  | error refusal => exact ⟨refusal, rfl⟩
  | ok entry => exact absurd (hasEntry_iff.2 ⟨entry, found⟩) absent

end FileStore

/-! ## Readers that signal their failures -/

namespace SettingsReader

variable {reader : SettingsReader} {text : String} {m : reader.Mapping} {path : Path}

/-- Whatever is wrong with the text, the reader signals as an error of YAML. -/
def Signals (reader : SettingsReader) (text : String) : Prop :=
  ∀ cause, reader.read text ≠ .error (.foreign cause)

/-- Whatever is wrong with a mapping, the check signals as faults of it. -/
def Judges (reader : SettingsReader) : Prop :=
  ∀ m cause, reader.check m ≠ .error (.foreign cause)

theorem checkConfig_ends (judges : reader.Judges) :
    (∃ config, reader.checkConfig path m = .ok config) ∨
      ∃ e, reader.checkConfig path m = .error (.config e) := by
  unfold checkConfig
  cases checked : reader.check m with
  | ok config => exact .inl ⟨config, rfl⟩
  | error failure =>
    cases failure with
    | invalid faults => exact .inr ⟨_, rfl⟩
    | foreign cause => exact absurd checked (judges m cause)

/-- Whatever the text, what is wrong with it is an error of the settings. -/
theorem readConfig_ends (signals : reader.Signals text) (judges : reader.Judges) :
    (∃ config, reader.readConfig path text = .ok config) ∨
      ∃ e, reader.readConfig path text = .error (.config e) := by
  unfold readConfig
  cases read : reader.read text with
  | error failure =>
    cases failure with
    | yaml cause => exact .inr ⟨_, rfl⟩
    | foreign cause => exact absurd read (signals cause)
  | ok document =>
    cases document with
    | nothing => exact checkConfig_ends judges
    | mapping m => exact checkConfig_ends judges
    | other => exact .inr ⟨_, rfl⟩

theorem judges_standard : standard.Judges := by
  intro settings cause failed
  have failed : (ProjectConfig.check settings).toExcept.mapError SettingsError.invalid =
      .error (.foreign cause) := failed
  cases checked : (ProjectConfig.check settings).toExcept with
  | ok config => simp [checked, Except.mapError] at failed
  | error faults => simp [checked, Except.mapError] at failed

/-- A text that gives settings has nothing wrong with it. -/
theorem Signals.of_ok {config : ProjectConfig} (done : reader.readConfig path text = .ok config) :
    reader.Signals text := by
  intro cause failed
  rw [readConfig, failed] at done
  cases done

end SettingsReader

/-! ## Loading -/

/-- Let the reader of YAML and the check of its mappings signal their own failures. Whatever is at a path that
    the platform can be asked about, and also where nothing is, loading settings from there gives settings or
    fails with an error of theirs, just if the path is not that of a file whose bytes are no text. -/
theorem loadConfig_ends_iff [Limits] (reader : SettingsReader) (fs : FileStore) (path : Path)
    (signals : ∀ text, fs.readText path = .ok text → reader.Signals text) (judges : reader.Judges) :
    ((∃ config, reader.loadConfig fs path = .ok config) ∨
        ∃ e, reader.loadConfig fs path = .error (.config e)) ↔
      Limits.lookup fs path = false ∧ ¬ fs.HoldsNoText path := by
  rw [← FileStore.readText_notUtf8_iff]
  unfold SettingsReader.loadConfig
  cases Limits.lookup fs path with
  | true => exact iff_of_false (by simp) (by simp)
  | false =>
    by_cases there : fs.hasEntry path = true
    · simp only [Bool.false_eq_true, if_false, if_pos there, true_and]
      cases read : fs.readText path with
      | ok text => exact iff_of_true (SettingsReader.readConfig_ends (signals text read) judges) (by simp)
      | error cause =>
        cases cause with
        | refused e => exact iff_of_true (.inr ⟨_, rfl⟩) (by simp)
        | notUtf8 e => exact iff_of_false (by simp) (by simp)
    · obtain ⟨e, refused⟩ := FileStore.readText_of_absent there
      simp only [Bool.false_eq_true, if_false, if_neg there, refused, true_and]
      exact iff_of_true (.inl ⟨_, rfl⟩) (by simp)

/-- A file of settings with a cap. -/
def cappedConfigStore : FileStore :=
  ⟨[([".xidl.yaml"], .file (Text.Utf8.encode "max-diagnostics: 1".toList) 0)], [], 0⟩

theorem loadConfig_ends_capped :
    (∀ text, cappedConfigStore.readText ⟨.root, [".xidl.yaml"]⟩ = .ok text →
      SettingsReader.standard.Signals text) ∧ SettingsReader.standard.Judges ∧
    ((∃ config, loadConfig cappedConfigStore ⟨.root, [".xidl.yaml"]⟩ = .ok config) ∨
      ∃ e, loadConfig cappedConfigStore ⟨.root, [".xidl.yaml"]⟩ = .error (.config e)) := by
  have content : cappedConfigStore.readText ⟨.root, [".xidl.yaml"]⟩ = .ok "max-diagnostics: 1" := by
    decide +kernel
  have done : SettingsReader.standard.readConfig ⟨.root, [".xidl.yaml"]⟩ "max-diagnostics: 1" =
      .ok ⟨["**/*.idl"], [], ".xidl-build", 1⟩ := by
    decide +kernel
  have signals : ∀ text, cappedConfigStore.readText ⟨.root, [".xidl.yaml"]⟩ = .ok text →
      SettingsReader.standard.Signals text := by
    intro text read
    cases content.symm.trans read
    exact .of_ok done
  have holdsText : ¬ cappedConfigStore.HoldsNoText ⟨.root, [".xidl.yaml"]⟩ := by
    rw [← FileStore.readText_notUtf8_iff, content]
    rintro ⟨e, failed⟩
    cases failed
  exact ⟨signals, SettingsReader.judges_standard,
    (loadConfig_ends_iff .standard cappedConfigStore _ signals SettingsReader.judges_standard).2
      ⟨rfl, holdsText⟩⟩

/-- A file of settings that holds one byte, which starts no character. -/
def undecodableStore : FileStore := ⟨[([".xidl.yaml"], .file [0xff] 0)], [], 0⟩

/-- Loading it fails, and with no error of the settings. -/
theorem loadConfig_undecodableStore :
    loadConfig undecodableStore ⟨.here, [configFileName]⟩ =
        .error (.notUtf8 ⟨0, 1, 0xff, .invalidStart⟩) ∧
      ¬ ((∃ config, loadConfig undecodableStore ⟨.here, [configFileName]⟩ = .ok config) ∨
        ∃ e, loadConfig undecodableStore ⟨.here, [configFileName]⟩ = .error (.config e)) := by
  have failed : loadConfig undecodableStore ⟨.here, [configFileName]⟩ =
      .error (.notUtf8 ⟨0, 1, 0xff, .invalidStart⟩) := rfl
  refine ⟨failed, ?_⟩
  rw [failed]
  rintro (⟨config, done⟩ | ⟨e, proper⟩)
  · cases done
  · cases proper

end IdlFront
