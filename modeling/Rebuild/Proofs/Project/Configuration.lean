import Rebuild.Config.Load
import Rebuild.Proofs.FileTree.Files
import Rebuild.Proofs.Json.Reading
import Rebuild.Proofs.Path.Characters

/-!
# Unusable configurations

Whatever stands in the place of the configuration, loading it gives a configuration or says what is
wrong with the configuration, but for two kinds of content: bytes that are no text, and a text with
a whole number of too many digits.
-/

namespace Rebuild

/-- The failures of the configuration at a path. -/
def Failure.IsOfConfig (path : Text) : Failure → Prop
  | .unreadableConfig place _ | .configNotObject place => place = path
  | .invalidConfig place errors => place = path ∧ errors ≠ []
  | _ => False

namespace Config

variable {α : Type} {fields : List (Text × Json)} {errors : List FieldError} {field : Field α}

theorem textItems_ne_error_nil (name : Text) (index : Nat) (items : List Json) :
    textItems name index items ≠ .error [] := by
  induction items generalizing index with
  | nil => nofun
  | cons item rest ih =>
      cases item with
      | string text =>
          have hrest := ih (index + 1)
          rw [textItems]
          cases hitems : textItems name (index + 1) rest with
          | ok texts => nofun
          | error errors =>
              rw [hitems] at hrest
              exact hrest
      | _ =>
          rw [textItems]
          · split <;> nofun
          · nofun

theorem textField_ne_error_nil (name missing : Text) (value : Option Json) :
    textField name missing value ≠ .error [] := by
  unfold textField
  split <;> nofun

theorem optionalTextField_ne_error_nil (name : Text) (value : Option Json) :
    optionalTextField name value ≠ .error [] := by
  unfold optionalTextField
  split <;> nofun

theorem textsField_ne_error_nil (name : Text) (missing : List Text) (value : Option Json) :
    textsField name missing value ≠ .error [] := by
  unfold textsField
  split
  next => nofun
  next => exact textItems_ne_error_nil name 0 _
  next => nofun

theorem exists_ok_of_errorsOf (hfield : field ≠ .error []) (herrors : errorsOf field = []) :
    ∃ value, field = .ok value := by
  cases field with
  | ok value => exact ⟨value, rfl⟩
  | error errors => exact (hfield (congrArg _ herrors)).elim

/-- Fields are refused for a reason. -/
theorem errors_ne_nil (hfields : ofFields fields = .error errors) : errors ≠ [] := by
  rintro rfl
  unfold ofFields at hfields
  dsimp only at hfields
  split at hfields
  next => cases hfields
  next hok =>
    have herrors := Except.error.inj hfields
    simp only [List.append_eq_nil_iff, and_assoc] at herrors
    obtain ⟨hsource, hbuild, hincluded, hexcluded, hmodule, hskipped⟩ := herrors
    obtain ⟨_, hsource⟩ := exists_ok_of_errorsOf (textField_ne_error_nil _ _ _) hsource
    obtain ⟨_, hbuild⟩ := exists_ok_of_errorsOf (optionalTextField_ne_error_nil _ _) hbuild
    obtain ⟨_, hincluded⟩ := exists_ok_of_errorsOf (textsField_ne_error_nil _ _ _) hincluded
    obtain ⟨_, hexcluded⟩ := exists_ok_of_errorsOf (textsField_ne_error_nil _ _ _) hexcluded
    obtain ⟨_, hmodule⟩ := exists_ok_of_errorsOf (textsField_ne_error_nil _ _ _) hmodule
    obtain ⟨_, hskipped⟩ := exists_ok_of_errorsOf (textsField_ne_error_nil _ _ _) hskipped
    exact hok _ _ _ _ _ _ hsource hbuild hincluded hexcluded hmodule hskipped

end Config

namespace Workspace

variable {ws : Workspace} {path text : Text} {characters : List Char} {file : File}

/-- A configuration, or what is wrong with the one at the path. -/
def IsConfigResult (path : Text) (result : Except Failure Config) : Prop :=
  (∃ config, result = .ok config) ∨ ∃ failure, result = .error failure ∧ failure.IsOfConfig path

/-- The characters of a text file with these bytes. -/
def IsTextOf (characters : List Char) (bytes : List UInt8) : Prop :=
  ∃ raw : List Char, bytes = raw.flatMap String.utf8EncodeChar ∧
    characters = Text.unifyNewlines raw

theorem configOfText_cases (path : Text) (characters : List Char) :
    IsConfigResult path (configOfText path characters) ∨
      ∃ count, configOfText path characters = .error (.longNumber count) ∧
        Json.read characters = .error (.longNumber count) := by
  unfold configOfText
  split
  next => exact .inl (.inr ⟨_, rfl, rfl⟩)
  next count hread => exact .inr ⟨count, rfl, hread⟩
  next =>
    split
    next config _ => exact .inl (.inl ⟨config, rfl⟩)
    next errors hfields => exact .inl (.inr ⟨_, rfl, rfl, Config.errors_ne_nil hfields⟩)
  next => exact .inl (.inr ⟨_, rfl, rfl⟩)

theorem readConfig_of_file (hpath : Path.tidy path = path) (hask : Askable path)
    (hlocate : ws.locate path = .ok (.file file)) :
    ws.readConfig path =
      match Text.decodeUtf8 file.content with
      | .error error => .error (.undecodable error)
      | .ok raw => configOfText path (Text.unifyNewlines raw) := by
  unfold readConfig readText readBytes
  rw [hpath]
  dsimp only
  rw [refusal?_eq_none_iff.2 hask, hlocate]
  dsimp only
  cases Text.decodeUtf8 file.content <;> rfl

theorem readConfig_of_isFolder (hpath : Path.tidy path = path) (hfolder : ws.isFolder path = true) :
    ws.readConfig path = .error (.unreadableConfig path (PathFault.isDirectory.message path)) := by
  obtain ⟨hask, modified, folder, hlocate⟩ := isFolder_iff.1 hfolder
  unfold readConfig readText readBytes
  rw [hpath]
  dsimp only
  rw [refusal?_eq_none_iff.2 hask, hlocate]

/-- Reading bytes as text fails exactly when there are no characters that they encode. -/
theorem exists_decodeUtf8_eq_error_iff {bytes : List UInt8} :
    (∃ error, Text.decodeUtf8 bytes = .error error) ↔
      ∀ characters, ¬IsTextOf characters bytes := by
  constructor
  · rintro ⟨error, herror⟩ characters ⟨raw, hraw, -⟩
    rw [Text.decodeUtf8_eq_ok_iff.2 hraw] at herror
    cases herror
  · intro hnone
    cases hdecode : Text.decodeUtf8 bytes with
    | error error => exact ⟨error, rfl⟩
    | ok raw => exact (hnone _ ⟨raw, Text.decodeUtf8_eq_ok_iff.1 hdecode, rfl⟩).elim

theorem readConfig_of_isTextOf (hpath : Path.tidy path = path) (hask : Askable path)
    (hlocate : ws.locate path = .ok (.file file)) (htext : IsTextOf characters file.content) :
    ws.readConfig path = configOfText path characters := by
  obtain ⟨raw, hraw, rfl⟩ := htext
  rw [readConfig_of_file hpath hask hlocate, Text.decodeUtf8_eq_ok_iff.2 hraw]

theorem configOfText_ne_undecodable (error : Text.Utf8Error) :
    configOfText path characters ≠ .error (.undecodable error) := by
  intro hresult
  rcases configOfText_cases path characters with
    (⟨_, hok⟩ | ⟨_, herror, hconfig⟩) | ⟨_, hlong, -⟩
  · rw [hresult] at hok
    cases hok
  · rw [hresult] at herror
    cases herror
    exact hconfig
  · rw [hresult] at hlong
    cases hlong

/-- Without a file the configuration is the default one, and a folder in its place is a failure of
the configuration.  A file gives a configuration or such a failure unless its bytes encode no
characters, or a whole number of too many digits stands among them. -/
theorem loadConfig_exact (ws : Workspace) (text : Text) :
    let path := Path.tidy text
    let result := (ws.loadConfig text).value
    (ws.isFile path = false → ws.isFolder path = false → result = .ok Config.default) ∧
      (ws.isFolder path = true →
        result = .error (.unreadableConfig path (PathFault.isDirectory.message path))) ∧
      ∀ file, ws.isFile path = true → ws.locate path = .ok (.file file) →
        ((∃ error, result = .error (.undecodable error)) ↔
          ∀ characters, ¬IsTextOf characters file.content) ∧
        ∀ characters, IsTextOf characters file.content →
          (IsConfigResult path result ∨
            ∃ count, result = .error (.longNumber count) ∧ Json.maxDigits < count ∧
              Json.HoldsDigits characters count) ∧
          ((∀ c ∈ characters, c.isDigit = true) → characters.head? ≠ some '0' →
            Json.maxDigits < characters.length →
              result = .error (.longNumber characters.length)) := by
  intro path result
  have hpath : Path.tidy path = path := Path.tidy_tidy text
  have hpresent (hthere : (ws.isFile path || ws.isFolder path) = true) :
      result = ws.readConfig path := by
    simp only [result, loadConfig]
    rw [if_pos hthere]
  refine ⟨fun hfile hfolder => ?_, fun hfolder => ?_, fun file hfile hlocate => ?_⟩
  · simp only [result, loadConfig]
    rw [if_neg (by simp [path, hfile, hfolder])]
  · rw [hpresent (by rw [hfolder, Bool.or_true]), readConfig_of_isFolder hpath hfolder]
  · have hask := (isFile_iff.1 hfile).1
    rw [hpresent (by rw [hfile, Bool.true_or])]
    constructor
    · rw [← exists_decodeUtf8_eq_error_iff, readConfig_of_file hpath hask hlocate]
      cases Text.decodeUtf8 file.content with
      | error error => exact iff_of_true ⟨error, rfl⟩ ⟨error, rfl⟩
      | ok raw =>
          exact iff_of_false (fun ⟨error, hresult⟩ => configOfText_ne_undecodable error hresult)
            nofun
    · intro characters htext
      rw [readConfig_of_isTextOf hpath hask hlocate htext]
      constructor
      · rcases configOfText_cases path characters with hresult | ⟨count, hresult, hread⟩
        · exact .inl hresult
        · exact .inr ⟨count, hresult, Json.holdsDigits_of_read hread⟩
      · intro hdigits hfirst hlong
        rw [configOfText, Json.read_of_isDigit hdigits hfirst hlong]

/-- A configuration file of the given bytes, and nothing else. -/
def withConfig (content : List UInt8) : Workspace where
  root := .file configName ⟨content, .ofSeconds 0 0⟩ .empty
  rootModified := .ofSeconds 0 0
  location := []

theorem isFile_withConfig (content : List UInt8) :
    (withConfig content).isFile (Path.tidy configName) = true :=
  isFile_iff.2 ⟨refusal?_eq_none_iff.1 (by decide +kernel), _, rfl⟩

/-- Bytes that are no text end the loading with a failure that is not one of the configuration. -/
theorem undecodable_configuration_escapes :
    (withConfig [0xff]).isFile configName = true ∧
      ((withConfig [0xff]).loadConfig configName).value =
        .error (.undecodable ⟨0, 0xff, 1, .start⟩) ∧
      ¬IsConfigResult configName ((withConfig [0xff]).loadConfig configName).value := by
  have hvalue : ((withConfig [0xff]).loadConfig configName).value =
      .error (.undecodable ⟨0, 0xff, 1, .start⟩) := rfl
  refine ⟨by decide +kernel, hvalue, ?_⟩
  rw [hvalue]
  rintro (⟨config, hconfig⟩ | ⟨failure, hfailure, hofConfig⟩)
  · cases hconfig
  · cases hfailure
    exact hofConfig

/-- One digit more than a number may have. -/
def longOne : List Char :=
  List.replicate (Json.maxDigits + 1) '1'

theorem unifyNewlines_replicate_one (count : Nat) :
    Text.unifyNewlines (List.replicate count '1') = List.replicate count '1' := by
  induction count with
  | zero => rfl
  | succ count ih =>
      rw [List.replicate_succ, Text.unifyNewlines, ih]
      · rfl
      · exact fun _ heq _ => absurd heq (by decide)

theorem isTextOf_longOne : IsTextOf longOne (longOne.flatMap String.utf8EncodeChar) :=
  ⟨longOne, rfl, (unifyNewlines_replicate_one _).symm⟩

theorem loadConfig_exact_withConfig :
    ((withConfig []).loadConfig "other.json").value = .ok Config.default ∧
      ((withConfig []).loadConfig ".").value =
        .error (.unreadableConfig "." "[Errno 21] Is a directory: '.'") ∧
      (∃ error, ((withConfig [0xff]).loadConfig configName).value = .error (.undecodable error)) ∧
      ((withConfig (longOne.flatMap String.utf8EncodeChar)).loadConfig configName).value =
        .error (.longNumber longOne.length) := by
  have hmissing := (loadConfig_exact (withConfig []) "other.json").1
  have hfolder := (loadConfig_exact (withConfig []) ".").2.1
  have hbytes := (loadConfig_exact (withConfig [0xff]) configName).2.2 _ (isFile_withConfig _) rfl
  have htext := (loadConfig_exact (withConfig (longOne.flatMap String.utf8EncodeChar))
    configName).2.2 _ (isFile_withConfig _) rfl
  refine ⟨hmissing (by decide +kernel) (by decide +kernel), hfolder (by decide +kernel),
    hbytes.1.2 (exists_decodeUtf8_eq_error_iff.1 ⟨_, rfl⟩), ?_⟩
  refine (htext.2 longOne isTextOf_longOne).2 (fun c hc => ?_) ?_ ?_
  · rw [List.eq_of_mem_replicate hc]
    decide
  · rw [longOne, List.replicate_succ, List.head?_cons]
    decide
  · rw [longOne, List.length_replicate]
    exact Nat.lt_succ_self _

end Workspace

end Rebuild
