import Graft.File.Edit
import Graft.Proofs.Results

/-! Runs of edits on files. A call on a file answers what the edit of the file's text answers in memory, unless the
system refuses to write the new code, and the size that is looked up before a file is read is the size of its text. A
call writes the new code or nothing at all, and what a place holds after any number of calls is the code of the last
call that wrote there. -/

namespace Graft

/-! ### Texts in files -/

theorem Text.bytes_eq_utf8ByteSize (text : Text) : bytes text = (String.ofList text).utf8ByteSize := by
  induction text with
  | nil => rfl
  | cons c rest ih => rw [bytes, String.ofList_cons, String.utf8ByteSize_append, String.utf8ByteSize_singleton, ih]

namespace FileEntry

theorem text_ofText (text : Text) : (ofText text).text = .ok text := by
  have read : String.fromUTF8? (String.ofList text).toUTF8 = some (String.ofList text) :=
    dif_pos (String.ofList text).isValidUTF8
  rw [ofText, FileEntry.text, read]
  exact congrArg Except.ok String.toList_ofList

theorem size_of_text {entry : FileEntry} {text : Text} (read : entry.text = .ok text) : entry.size = Text.bytes text := by
  cases entry with
  | directory => cases read
  | file bytes =>
    rw [FileEntry.text] at read
    split at read
    next string found =>
      cases read
      rw [Text.bytes_eq_utf8ByteSize, String.ofList_toList]
      unfold String.fromUTF8? at found
      split at found
      next => cases found; rfl
      next => cases found
    next => cases read

theorem isFile_of_text {entry : FileEntry} {text : Text} (read : entry.text = .ok text) : entry.isFile = true := by
  cases entry with
  | directory => cases read
  | file bytes => rfl

end FileEntry

/-! ### Writing -/

namespace Files
variable (files : Files) (place : Place) (text : Text)

/-- Writing at a place changes the file that is there, and nothing at any other place. -/
theorem at?_put (other : Place) : (files.put place text).at? other =
    (files.at? other).map fun entry => if other = place ∧ entry.isFile = true then .ofText text else entry := by
  simp only [at?, put, List.find?_map, List.any_map, Function.comp_def]
  cases found : files.entries.find? fun entry => Place.ofPath entry.1 = other with
  | none =>
    simp only [Option.map_none]
    split <;> simp [FileEntry.isFile]
  | some entry =>
    have here : Place.ofPath entry.1 = other := by simpa using List.find?_some found
    simp [here]

/-- Nothing that is written makes or removes a directory. -/
theorem step_put : (files.put place text).step = files.step := by
  funext other name
  unfold step
  rw [at?_put]
  cases files.at? other with
  | none => rfl
  | some entry =>
    cases entry with
    | directory => simp [FileEntry.isFile]
    | file bytes =>
      simp only [Option.map_some, FileEntry.isFile, and_true]
      split
      next same =>
        split at same <;> cases same
      next => rfl
      next same =>
        split at same <;> cases same

theorem follow_put (path : Text) : (files.put place text).follow path = files.follow path := by
  unfold follow
  rw [step_put]

end Files

/-! ### Calls -/

/-- A call to edit the file that a path leads to. -/
structure FileCall where
  config : Config
  path : Text
  request : Request
  write : Bool

/-- A call, what it answered, and the files before and behind it. -/
structure FileStep where
  call : FileCall
  before : Files
  answer : Except EditError FileEdit
  after : Files

def FileCall.step (call : FileCall) (rights : Rights) (files : Files) : FileStep :=
  let (answer, after) := call.config.editFile call.path call.request call.write files rights
  ⟨call, files, answer, after⟩

namespace Files

def steps (files : Files) (rights : Rights) : List FileCall → List FileStep
  | [] => []
  | call :: calls => call.step rights files :: (call.step rights files).after.steps rights calls

end Files

namespace FileStep

def written? (step : FileStep) : Option Text :=
  match step.answer with
  | .ok edit => if step.call.write && edit.outcome.applied then some edit.outcome.code else none
  | .error _ => none

theorem written?_of_ok {step : FileStep} {edit : FileEdit} (answered : step.answer = .ok edit) : step.written? =
    if step.call.write && edit.outcome.applied then some edit.outcome.code else none := by
  rw [written?, answered]

def place? (step : FileStep) : Option Place := (step.before.follow step.call.path).toOption

/-- An outcome is one to be written, and the system refuses to write it. -/
def Refused (step : FileStep) (rights : Rights) (outcome : Outcome) (failure : FileFailure) : Prop :=
  step.call.write = true ∧ outcome.applied = true ∧
    ∃ place, step.place? = some place ∧ rights.write place outcome.code = .error failure

/-- What a call on a file answers and does. -/
structure Faithful (rights : Rights) (step : FileStep) : Prop where
  /-- The answer for a file that holds a text is that of the edit in memory, the failures and the refusal of a text
  that is too large included, as long as writing is not refused. What the request holds itself does not count. -/
  inMemory : ∀ text, step.before.readText step.call.path rights = .ok text →
    (∀ outcome failure, step.call.config.edit { step.call.request with content := text } = .ok outcome →
      ¬step.Refused rights outcome failure) →
    step.answer = (step.call.config.edit { step.call.request with content := text }).map (FileEdit.mk text)
  /-- If it is refused, that is the answer, though the edit has an outcome. -/
  refused : ∀ text outcome failure, step.before.readText step.call.path rights = .ok text →
    step.call.config.edit { step.call.request with content := text } = .ok outcome →
    step.Refused rights outcome failure → step.answer = .error (.file failure)
  /-- What is too large is refused before it is read. -/
  tooLarge : ∀ entry, step.before.look step.call.path rights = .ok entry → step.call.config.maxBytes < entry.size →
    step.answer = .error (.tooLarge entry.size step.call.config.maxBytes)
  /-- What cannot be read is a failure, unless its size is one before. -/
  unread : ∀ failure, step.before.readText step.call.path rights = .error failure →
    step.answer = .error (.file failure) ∨
      ∃ entry, step.before.look step.call.path rights = .ok entry ∧ step.call.config.maxBytes < entry.size
  /-- What is written is the code, and it reads back. -/
  written : ∀ code, step.written? = some code → step.after.look step.call.path rights = .ok (.ofText code) ∧
    step.after.readText step.call.path rights = .ok code
  /-- A call that fails, applies nothing or is not to write leaves all as it was. -/
  unwritten : step.written? = none → step.after = step.before
  /-- Nothing happens at a place that the path does not lead to. -/
  elsewhere : ∀ place, step.place? ≠ some place → step.after.at? place = step.before.at? place

end FileStep

/-! ### One call -/

namespace Files
variable {files : Files} {path : Text} {rights : Rights}

theorem look_eq_ok {entry : FileEntry} : files.look path rights = .ok entry ↔
    ∃ place, files.follow path = .ok place ∧ rights.look place = .ok () ∧ files.at? place = some entry := by
  unfold look
  cases files.follow path with
  | error failure => simp [bind, Except.bind]
  | ok place =>
    cases seen : rights.look place <;> cases found : files.at? place <;> simp [bind, Except.bind, seen, found]

theorem readText_eq_ok {text : Text} : files.readText path rights = .ok text ↔
    ∃ place entry, files.follow path = .ok place ∧ files.look path rights = .ok entry ∧ rights.read place = .ok () ∧
      entry.text = .ok text := by
  unfold readText
  cases files.look path rights with
  | error failure => simp [bind, Except.bind]
  | ok entry =>
    cases files.follow path with
    | error failure => simp [bind, Except.bind]
    | ok place => cases found : rights.read place <;> simp [bind, Except.bind, found]

/-- What is written where a text was read is read back. -/
theorem readText_put {place : Place} {old : Text} (read : files.readText path rights = .ok old)
    (leads : files.follow path = .ok place) (text : Text) :
    (files.put place text).look path rights = .ok (.ofText text) ∧
      (files.put place text).readText path rights = .ok text := by
  obtain ⟨_, entry, led, there, readable, held⟩ := readText_eq_ok.mp read
  cases led.symm.trans leads
  obtain ⟨_, led, seen, found⟩ := look_eq_ok.mp there
  cases led.symm.trans leads
  have still : (files.put place text).follow path = .ok place := by rw [follow_put, leads]
  have stored : (files.put place text).look path rights = .ok (.ofText text) :=
    look_eq_ok.mpr ⟨place, still, seen, by simp [at?_put, found, FileEntry.isFile_of_text held]⟩
  exact ⟨stored, readText_eq_ok.mpr ⟨place, _, still, stored, readable, FileEntry.text_ofText text⟩⟩

end Files

namespace Config
variable {config : Config} {files : Files} {path : Text} {request : Request} {rights : Rights}

theorem readSource_of_look {entry : FileEntry} (there : files.look path rights = .ok entry) :
    config.readSource files path rights =
      (config.checkSize entry.size).bind fun _ => EditError.ofFile (files.readText path rights) := by
  rw [readSource, there]
  rfl

theorem checkSize_of_large {size : Nat} (large : config.maxBytes < size) :
    config.checkSize size = .error (.tooLarge size config.maxBytes) :=
  if_pos large

/-- Editing the text of a file is editing it in memory: where the one refuses the size of the file, the other refuses
the size of the text. -/
theorem previewFile_of_text {text : Text} (read : files.readText path rights = .ok text) :
    config.previewFile files path request rights =
      (config.edit { request with content := text }).map (FileEdit.mk text) := by
  obtain ⟨place, entry, -, there, -, held⟩ := Files.readText_eq_ok.mp read
  have size := FileEntry.size_of_text held
  rw [previewFile, readSource_of_look there, read, size]
  by_cases large : config.maxBytes < Text.bytes text
  · have refused : config.edit { request with content := text } = .error (.tooLarge (Text.bytes text) config.maxBytes) := by
      rw [edit, checkSize_of_large large]
      rfl
    rw [refused, checkSize_of_large large]
    rfl
  · rw [checkSize, if_neg large]
    cases ran : config.edit { request with content := text } <;>
      simp [bind, Except.bind, EditError.ofFile, ran, Except.map, pure, Except.pure]

theorem previewFile_of_large {entry : FileEntry} (there : files.look path rights = .ok entry)
    (large : config.maxBytes < entry.size) :
    config.previewFile files path request rights = .error (.tooLarge entry.size config.maxBytes) := by
  rw [previewFile, readSource_of_look there, checkSize_of_large large]
  rfl

theorem previewFile_of_unread {failure : FileFailure} (unread : files.readText path rights = .error failure) :
    config.previewFile files path request rights = .error (.file failure) ∨
      ∃ entry, files.look path rights = .ok entry ∧ config.maxBytes < entry.size := by
  cases found : files.look path rights with
  | error other =>
    rw [Files.readText, found] at unread
    cases unread
    left
    rw [previewFile, readSource, found]
    rfl
  | ok entry =>
    by_cases large : config.maxBytes < entry.size
    · exact .inr ⟨entry, rfl, large⟩
    · left
      rw [previewFile, readSource_of_look found, checkSize, if_neg large, unread]
      rfl

theorem text_of_previewFile {edit : FileEdit} (done : config.previewFile files path request rights = .ok edit) :
    ∃ text, files.readText path rights = .ok text := by
  cases read : files.readText path rights with
  | ok text => exact ⟨text, rfl⟩
  | error failure =>
    have failing : config.previewFile files path request rights = .error (.file failure) ∨
        ∃ entry, files.look path rights = .ok entry ∧ config.maxBytes < entry.size := previewFile_of_unread read
    rcases failing with failed | ⟨entry, there, large⟩
    · rw [failed] at done
      cases done
    · rw [previewFile_of_large there large] at done
      cases done

theorem edit_of_previewFile {edit : FileEdit} {text : Text}
    (done : config.previewFile files path request rights = .ok edit) (read : files.readText path rights = .ok text) :
    config.edit { request with content := text } = .ok edit.outcome ∧ edit.before = text := by
  rw [previewFile_of_text read] at done
  cases ran : config.edit { request with content := text } with
  | error error => rw [ran] at done; cases done
  | ok outcome => rw [ran] at done; cases done; exact ⟨rfl, rfl⟩

end Config

namespace FileCall
variable {rights : Rights} {call : FileCall} {files : Files}

/-- How a call can end: with a failure of the edit, with nothing to be written, or with something that is or is not
written at the place that the path leads to. -/
inductive Ends (rights : Rights) (call : FileCall) (files : Files) : Except EditError FileEdit → Files → Prop
  | failed {error : EditError} (preview : call.config.previewFile files call.path call.request rights = .error error) :
      Ends rights call files (.error error) files
  | kept {edit : FileEdit} (preview : call.config.previewFile files call.path call.request rights = .ok edit)
      (unasked : (call.write && edit.outcome.applied) = false) : Ends rights call files (.ok edit) files
  | refused {edit : FileEdit} {place : Place} {failure : FileFailure}
      (preview : call.config.previewFile files call.path call.request rights = .ok edit)
      (asked : (call.write && edit.outcome.applied) = true) (leads : files.follow call.path = .ok place)
      (write : rights.write place edit.outcome.code = .error failure) :
      Ends rights call files (.error (.file failure)) files
  | written {edit : FileEdit} {place : Place}
      (preview : call.config.previewFile files call.path call.request rights = .ok edit)
      (asked : (call.write && edit.outcome.applied) = true) (leads : files.follow call.path = .ok place)
      (write : rights.write place edit.outcome.code = .ok ()) :
      Ends rights call files (.ok edit) (files.put place edit.outcome.code)

namespace Ends
variable {answer : Except EditError FileEdit} {after : Files} (ends : call.Ends rights files answer after)
include ends

theorem of_failed {error : EditError}
    (preview : call.config.previewFile files call.path call.request rights = .error error) : answer = .error error := by
  cases ends with
  | failed other => rw [← other, preview]
  | kept other | refused other | written other => cases preview.symm.trans other

theorem faithful : FileStep.Faithful rights ⟨call, files, answer, after⟩ := by
  refine ⟨?inMemory, ?refused, ?tooLarge, ?unread, ?written, ?unwritten, ?elsewhere⟩
  case inMemory =>
    intro text read allowed
    cases ends with
    | failed preview | kept preview | written preview => exact preview.symm.trans (Config.previewFile_of_text read)
    | refused preview asked leads write =>
      obtain ⟨ran, -⟩ := Config.edit_of_previewFile preview read
      rw [Bool.and_eq_true] at asked
      exact absurd ⟨asked.1, asked.2, _, congrArg Except.toOption leads, write⟩ (allowed _ _ ran)
  case refused =>
    rintro text outcome failure read ran ⟨write, applied, place, leads, refused⟩
    have preview := (Config.previewFile_of_text read).trans (congrArg (Except.map (FileEdit.mk text)) ran)
    have led : files.follow call.path = .ok place := Except.ok_of_toOption leads
    have asks : (call.write && outcome.applied) = true := Bool.and_eq_true _ _ ▸ ⟨write, applied⟩
    cases ends with
    | failed other => cases preview.symm.trans other
    | kept other unasked =>
      cases preview.symm.trans other
      cases asks.symm.trans unasked
    | refused other _ there denied =>
      cases preview.symm.trans other
      cases led.symm.trans there
      cases refused.symm.trans denied
      rfl
    | written other _ there stored =>
      cases preview.symm.trans other
      cases led.symm.trans there
      cases refused.symm.trans stored
  case tooLarge =>
    intro entry there large
    exact ends.of_failed (Config.previewFile_of_large there large)
  case unread =>
    intro failure unread
    exact (Config.previewFile_of_unread unread).imp_left ends.of_failed
  case written =>
    intro code wrote
    cases ends with
    | failed | refused => cases wrote
    | kept _ unasked =>
      cases ((FileStep.written?_of_ok rfl).trans (if_neg (Bool.not_eq_true _ ▸ unasked))).symm.trans wrote
    | written preview asked leads write =>
      cases ((FileStep.written?_of_ok rfl).trans (if_pos asked)).symm.trans wrote
      obtain ⟨text, read⟩ := Config.text_of_previewFile preview
      exact Files.readText_put read leads _
  case unwritten =>
    intro unwritten
    cases ends with
    | failed | kept | refused => rfl
    | written preview asked =>
      cases ((FileStep.written?_of_ok rfl).trans (if_pos asked)).symm.trans unwritten
  case elsewhere =>
    intro place elsewhere
    cases ends with
    | failed | kept | refused => rfl
    | written preview asked leads =>
      have other : place ≠ _ := fun same => elsewhere (same ▸ congrArg Except.toOption leads)
      simp [Files.at?_put, other]

/-- Whatever is written, paths lead where they led before. -/
theorem follow (path : Text) : after.follow path = files.follow path := by
  cases ends with
  | failed | kept | refused => rfl
  | written => exact Files.follow_put ..

end Ends

variable (rights call files)

end FileCall

namespace Files

end Files
end Graft
