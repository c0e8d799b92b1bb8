import TxBatch.CommandLine.Reader
import TxBatch.Proofs.ConfigText
import TxBatch.Proofs.Utf8

/-!
# Flags over a configuration file

A field of a configuration comes from a flag, else from the file, else from its default, and a null
ceiling in a file is something else than none at all. `Config.Sheet` is what a file says, with its
gaps; `CommandLine.effective` lays the flags over it and fills the gaps that are left. That is the
configuration a command line comes to, if its ceiling is allowed
(`CommandLine.schedulerConfig_of_allowed`). But a file is looked at before the flags are, so a
ceiling of zero in it is refused even where a flag would replace it
(`CommandLine.schedulerConfig_of_zero`).
-/

namespace TxBatch

/-! ## What a file says -/

namespace Config

open Json

/-- What a file gives of a configuration: a field may be left out, and a ceiling may be null. -/
structure Sheet where
  workers : Option Int64 := none
  ceiling : Option (Option UInt32) := none

namespace Sheet

def workersValue? (s : Sheet) : Option Value := s.workers.map fun w => .number (.ofInt w.toInt)

def ceilingValue? (s : Sheet) : Option Value := s.ceiling.map ceilingValue

/-- The value says what is on the sheet: as an object that has a member for each field that is
given, among any others, or as a row of the fields, where none is left out in front of another. -/
inductive SaidBy (s : Sheet) : Value → Prop where
  | object {members : List (Text × Value)} : (∀ m ∈ members, m.1.isSome = true) →
      named "workers" members = s.workersValue?.toList →
      named "max_incarnations" members = s.ceilingValue?.toList → SaidBy s (.object members)
  | row : (s.workers = none → s.ceiling = none) →
      SaidBy s (.array (s.workersValue?.toList ++ s.ceilingValue?.toList))

/-- The sheet as a configuration: a field that is left out takes its default. -/
def filled (s : Sheet) : Config where
  workers := s.workers.getD 0
  maxIncarnations := s.ceiling.getD (some 100)

/-- The default of the ceiling is allowed, so one of zero stands on the sheet itself. -/
theorem filled_zero_iff (s : Sheet) :
    s.filled.maxIncarnations = some 0 ↔ s.ceiling = some (some 0) := by
  obtain ⟨_, _ | ceiling⟩ := s
  · exact iff_of_false (by simp [filled]) nofun
  · simp [filled]

theorem fields?_of_saidBy {s : Sheet} {v : Value} (h : s.SaidBy v) :
    v.fields? ["workers", "max_incarnations"] = some [s.workersValue?, s.ceilingValue?] := by
  cases h with
  | object htexts hworkers hceiling =>
      have hone (o : Option Value) : o.toList.length ≤ 1 := by cases o <;> simp
      simp [Value.fields?, hworkers, hceiling, hone, List.all_eq_true.mpr htexts]
  | row hgap =>
      obtain ⟨_ | w, _ | ceiling⟩ := s
      · rfl
      · cases hgap rfl
      · rfl
      · rfl

/-- A value that says what is on a sheet gives the configuration of the sheet. -/
theorem ofValue?_of_saidBy {s : Sheet} {v : Value} (h : s.SaidBy v) :
    ofValue? v = some s.filled := by
  rw [ofValue?, fields?_of_saidBy h]
  obtain ⟨_ | w, _ | ceiling⟩ := s <;>
    simp [workersValue?, ceilingValue?, filled, Value.int64?_ofInt, ceiling?_ceilingValue]

/-! ## Sheets as texts -/

/-- The members of a sheet as characters. -/
def memberChars (s : Sheet) : List (List Char) :=
  (s.workers.map fun w => "\"workers\":".toList ++ Decimal.intChars w.toInt).toList ++
    (s.ceiling.map fun c => "\"max_incarnations\":".toList ++ ceilingChars c).toList

def text (s : Sheet) : String :=
  .ofList ('\x7b' :: ([','].intercalate s.memberChars ++ ['\x7d']))

def value (s : Sheet) : Value := .object <|
  (s.workersValue?.map fun v => (some "workers", v)).toList ++
    (s.ceilingValue?.map fun v => (some "max_incarnations", v)).toList

theorem saidBy_value (s : Sheet) : s.SaidBy s.value := by
  obtain ⟨_ | w, _ | ceiling⟩ := s <;>
    exact .object (by simp [workersValue?, ceilingValue?]) rfl rfl

/-- A sheet without gaps is written like a configuration. -/
theorem text_full (c : Config) : text ⟨some c.workers, some c.maxIncarnations⟩ = c.text := by
  rw [text, Config.text, chars_eq]
  simp [memberChars, List.intercalate]

theorem read?_text (s : Sheet) : Value.read? s.text = some s.value := by
  -- One case a choice of members, each cut token by token.
  obtain ⟨_ | w, _ | ceiling⟩ := s
  · rw [Value.read?, tokens?, text, String.toList_ofList]
    have hchars : [','].intercalate (memberChars ⟨none, none⟩) ++ ['\x7d'] = ['\x7d'] := rfl
    rw [hchars, Token.scan?_of_first? (t := .openObject) rfl,
      Token.scan?_of_first? (t := .closeObject) rfl, Token.scan?]
    rfl
  · have hchars : [','].intercalate (memberChars ⟨none, some ceiling⟩) ++ ['\x7d'] =
        '"' :: ("max_incarnations".toList ++ '"' :: ':' :: (ceilingChars ceiling ++ ['\x7d'])) := by
      simp [memberChars]
    rw [Value.read?, tokens?, text, String.toList_ofList, hchars,
      Token.scan?_of_first? (t := .openObject) rfl,
      Token.scan?_name (by simp [Token.Plain]), Token.scan?_of_first? (first?_ceiling bounds_close _),
      Token.scan?_of_first? (t := .closeObject) rfl, Token.scan?]
    cases ceiling <;> rfl
  · have hchars : [','].intercalate (memberChars ⟨some w, none⟩) ++ ['\x7d'] =
        '"' :: ("workers".toList ++ '"' :: ':' :: (Decimal.intChars w.toInt ++ ['\x7d'])) := by
      simp [memberChars]
    rw [Value.read?, tokens?, text, String.toList_ofList, hchars,
      Token.scan?_of_first? (t := .openObject) rfl,
      Token.scan?_name (by simp [Token.Plain]), Token.scan?_of_first? (bounds_close.first?_int _),
      Token.scan?_of_first? (t := .closeObject) rfl, Token.scan?]
    rfl
  · rw [text_full ⟨w, ceiling⟩]
    exact Config.read?_text ⟨w, ceiling⟩

end Sheet

end Config

open Config

/-- The file holds a text in JSON that says what is on the sheet. -/
def FileContent.Says (content : FileContent) (s : Sheet) : Prop :=
  ∃ text v, content = .bytes (Utf8.encode text) ∧ Json.Value.read? text = some v ∧ s.SaidBy v

namespace FileContent

def ofSheet (s : Sheet) : FileContent := .bytes (Utf8.encode s.text)

theorem says_ofSheet (s : Sheet) : (ofSheet s).Says s :=
  ⟨s.text, s.value, rfl, s.read?_text, s.saidBy_value⟩

theorem Says.ofFile {content : FileContent} {s : Sheet} (h : content.Says s) (path : String) :
    ofFile path content =
      if s.filled.maxIncarnations = some 0 then .error .zeroCeiling else .ok s.filled := by
  obtain ⟨text, v, rfl, hread, hsaid⟩ := h
  simp only [Config.ofFile, Utf8.decode?_encode, ofText, hread, Option.bind_some,
    Sheet.ofValue?_of_saidBy hsaid, map_validate]

end FileContent

/-! ## Flags over a file -/

namespace CommandLine

/-- What a command line finds of a configuration: nothing if it names no file. -/
inductive Finds (c : CommandLine) (files : String → FileContent) : Sheet → Prop where
  | nothing : c.config = none → Finds c files {}
  | file {path : String} {s : Sheet} : c.config = some path → (files path).Says s → Finds c files s

/-- A configuration field by field: what the flags say, else the sheet, else the default. -/
def effective (c : CommandLine) (s : Sheet) : Config where
  workers := (c.workers.or s.workers).getD 0
  maxIncarnations :=
    if c.noRetryLimit then none else ((c.maxIncarnations.map some).or s.ceiling).getD (some 100)

theorem override_filled (c : CommandLine) (s : Sheet) : c.override s.filled = c.effective s := by
  have hworkers : c.workers.getD s.filled.workers = (c.workers.or s.workers).getD 0 := by
    cases c.workers <;> rfl
  rw [override, effective, hworkers]
  cases c.maxIncarnations <;> rfl

theorem schedulerConfig_of_file {c : CommandLine} {path : String} (hpath : c.config = some path)
    (files : String → FileContent) :
    c.schedulerConfig files = (ofFile path (files path)).bind fun config =>
      (c.override config).validate.map fun () => c.override config := by
  simp only [schedulerConfig, hpath]

section Finds

variable {c : CommandLine} {files : String → FileContent} {s : Sheet} (h : c.Finds files s)

include h

theorem schedulerConfig_of_allowed (hceiling : s.ceiling ≠ some (some 0)) :
    c.schedulerConfig files =
      if (c.effective s).maxIncarnations = some 0 then .error .zeroCeiling
      else .ok (c.effective s) := by
  rw [← override_filled, ← map_validate]
  cases h with
  | nothing hnone => simp only [schedulerConfig, hnone]; rfl
  | @file path _ hpath hsays =>
      rw [schedulerConfig_of_file hpath, hsays.ofFile, if_neg (mt s.filled_zero_iff.mp hceiling)]
      rfl

theorem schedulerConfig_of_zero (hceiling : s.ceiling = some (some 0)) :
    c.schedulerConfig files = .error .zeroCeiling := by
  cases h with
  | nothing => cases hceiling
  | @file path _ hpath hsays =>
      rw [schedulerConfig_of_file hpath, hsays.ofFile, if_pos (s.filled_zero_iff.mpr hceiling)]
      rfl

end Finds

/-- A command line comes to what its flags say, else its file, else the defaults, if the ceiling of
that is allowed. This is so unless the file itself has a ceiling of zero; that one is refused
whatever the flags say. -/
theorem schedulerConfig_effective {c : CommandLine} {files : String → FileContent} {s : Sheet}
    (h : c.Finds files s) :
    (s.ceiling ≠ some (some 0) → c.schedulerConfig files =
      if (c.effective s).maxIncarnations = some 0 then .error .zeroCeiling
      else .ok (c.effective s)) ∧
    (s.ceiling = some (some 0) → c.schedulerConfig files = .error .zeroCeiling) :=
  ⟨schedulerConfig_of_allowed h, schedulerConfig_of_zero h⟩

/-- A flag for the workers replaces those of the file and leaves its ceiling; a ceiling of zero is
refused on the command line and in the file. -/
theorem workers_flag_effective :
    let eight : Sheet := ⟨some 8, some (some 12)⟩
    let zero : Sheet := { ceiling := some (some 0) }
    let c : CommandLine := { config := some "scheduler.json", workers := some 2 }
    (c.Finds (fun _ => .ofSheet eight) eight ∧ eight.ceiling ≠ some (some 0) ∧
      c.schedulerConfig (fun _ => .ofSheet eight) = .ok ⟨2, some 12⟩ ∧
      schedulerConfig { c with maxIncarnations := some 0 } (fun _ => .ofSheet eight) =
        .error .zeroCeiling) ∧
    zero.ceiling = some (some 0) ∧
      c.schedulerConfig (fun _ => .ofSheet zero) = .error .zeroCeiling := by
  intro eight zero c
  have height : c.Finds (fun _ => .ofSheet eight) eight := .file rfl (FileContent.says_ofSheet _)
  have hrefused : Finds { c with maxIncarnations := some 0 } (fun _ => .ofSheet eight) eight :=
    .file rfl (FileContent.says_ofSheet _)
  have hzero : c.Finds (fun _ => .ofSheet zero) zero := .file rfl (FileContent.says_ofSheet _)
  have hallowed : eight.ceiling ≠ some (some 0) := by decide
  exact ⟨⟨height, hallowed, (schedulerConfig_effective height).1 hallowed,
    (schedulerConfig_effective hrefused).1 hallowed⟩, rfl, (schedulerConfig_effective hzero).2 rfl⟩

/-- A ceiling of zero in a file is refused although a flag replaces it: what flag and file come to
has a ceiling of five. -/
theorem overridden_zero_is_refused :
    let c : CommandLine := { config := some "scheduler.json", maxIncarnations := some 5 }
    let s : Sheet := { ceiling := some (some 0) }
    read ["--config", "scheduler.json", "--max-incarnations", "5"] = .ok c ∧
    s.text = "\x7b\"max_incarnations\":0\x7d" ∧ c.Finds (fun _ => .ofSheet s) s ∧
    c.effective s = { workers := 0, maxIncarnations := some 5 } ∧
    c.schedulerConfig (fun _ => .ofSheet s) = .error .zeroCeiling := by
  intro c s
  have hfinds : c.Finds (fun _ => .ofSheet s) s := .file rfl (FileContent.says_ofSheet s)
  exact ⟨by decide +kernel, by decide +kernel, hfinds, rfl, schedulerConfig_of_zero hfinds rfl⟩

end CommandLine

end TxBatch
