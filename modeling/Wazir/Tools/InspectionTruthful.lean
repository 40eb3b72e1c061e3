import Wazir.Tools.OutcomeInspection

/-! When the inspection of an interrupted `write` or `edit` tells the truth. -/

namespace Wazir.Tools

open Checkpoints (utf8Text utf8Text_valid)

/-! Texts and their bytes. -/

theorem utf16_ofList (cs : List Char) : utf16 (String.ofList cs) = cs.flatMap charUnits := by
  rw [utf16, String.toList_ofList]
  rfl

theorem utf8Text_toByteArray (s : String) : utf8Text s.toByteArray = s :=
  String.toByteArray_inj.mp (utf8Text_valid s.isValidUTF8)

theorem decode_encode (s : Units) : decode (encode s) = toWellFormed s := by
  rw [decode, encode, utf8Text_toByteArray, utf16_ofList, toWellFormed]

theorem split_length (separator : Units) (s : Units) (skip : ℕ) : 0 < (split separator skip s).length := by
  induction s generalizing skip with
  | nil => simp [split]
  | cons unit rest ih =>
    cases skip with
    | succ skip => exact ih skip
    | zero =>
      rw [split]
      split_ifs
      · simp
      · cases split separator 0 rest <;> simp

/-- A text is in one piece if it does not hold the separator. -/
theorem occurrences_eq_zero {separator : Units} (hne : separator ≠ []) (s : Units) :
    occurrences s separator = 0 ↔ includes s separator = false := by
  rw [occurrences, includes, decide_eq_false_iff_not]
  induction s with
  | nil => simp [split, hne]
  | cons unit rest ih =>
    rw [split, List.infix_cons_iff]
    by_cases hprefix : separator <+: unit :: rest
    · have hlength := split_length separator rest (separator.length - 1)
      rw [if_pos (List.isPrefixOf_iff_prefix.mpr hprefix)]
      simp only [List.length_cons, hprefix, true_or, not_true_eq_false, iff_false]
      omega
    · rw [if_neg (fun h => hprefix (List.isPrefixOf_iff_prefix.mp h)), or_iff_right hprefix, ← ih]
      cases split separator 0 rest <;> simp

/-! Where a call can be cut off. -/

theorem mem_writeProjectFile {target : Option ByteArray} {content : Units} {place : Place}
    (h : place ∈ writeProjectFile target content) :
    place.target = target ∨ place.target = some (encode content) := by
  simp only [writeProjectFile, List.cons_append, List.mem_cons, List.mem_append, List.mem_map,
    List.not_mem_nil, or_false] at h
  rcases h with rfl | ⟨n, -, rfl⟩ | rfl
  · exact Or.inl rfl
  · exact Or.inl rfl
  · exact Or.inr rfl

theorem writeProjectFile_start (target : Option ByteArray) (content : Units) :
    ⟨target, none⟩ ∈ writeProjectFile target content := List.mem_cons_self

theorem writeProjectFile_last (target : Option ByteArray) (content : Units) :
    (writeProjectFile target content).getLast? = some ⟨some (encode content), none⟩ := by
  rw [writeProjectFile, List.getLast?_append]
  rfl

theorem writeProjectFile_renamed (target : Option ByteArray) (content : Units) :
    ⟨some (encode content), none⟩ ∈ writeProjectFile target content :=
  List.mem_of_getLast? (writeProjectFile_last target content)

/-- The answers are true at every point where the call can be cut off. -/
structure Truthful (tool : FileTool) (access : Access) (input : ToolInput) (target : Option ByteArray) :
    Prop where
  applied : ∀ place ∈ tool.execute access input target,
    (inspectToolOutcome (tool.call input) access place.target).outcome = .applied →
      place.target = tool.completed access input target
  notApplied : ∀ place ∈ tool.execute access input target,
    (inspectToolOutcome (tool.call input) access place.target).outcome = .notApplied →
      place.target = target
  reissued : ∀ place ∈ tool.execute access input target,
    (inspectToolOutcome (tool.call input) access place.target).outcome = .notApplied →
      tool.completed access input place.target = tool.completed access input target

/-- The content is written as it is, or the file held what is written of it before; and the file did
not hold other bytes that read as the content. -/
def WriteSettled (content : Units) (target : Option ByteArray) : Prop :=
  (toWellFormed content = content ∨ target = some (encode content)) ∧
    ∀ bytes, target = some bytes → decode bytes = content → bytes = encode content

/-- Where the edit goes ahead, its contents, written and read back, hold the replacement or not the
original, or they are the bytes that the file held before. -/
def EditSettled (input : ToolInput) (target : Option ByteArray) : Prop :=
  ∀ bytes, target = some bytes → overlapping input = false →
    includes (decode bytes) input.oldString.text = true →
      let next := edited input (decode bytes)
      includes (toWellFormed next) input.oldString.text = true →
        includes (toWellFormed next) input.newString.text = true ∨ encode next = bytes

def Settled (tool : FileTool) (access : Access) (input : ToolInput) (target : Option ByteArray) : Prop :=
  access = .granted → input.path.isString = true →
    match tool with
    | .write => input.content.isString = true → WriteSettled input.content.text target
    | .edit => EditSettled input target

section Inspected

variable {tool : FileTool} {access : Access} {input : ToolInput} {target : Option ByteArray}

/-- Without access, or a path that is a string, nothing is decided. -/
theorem inspect_undetermined (h : access ≠ .granted ∨ input.path.isString = false) :
    (inspectToolOutcome (tool.call input) access target).outcome = .undetermined := by
  have hclass : (tool.call input).sideEffectClass ≠ .readOnly := by cases tool <;> nofun
  unfold inspectToolOutcome
  rw [if_neg hclass]
  cases access with
  | granted =>
    have hstring : (tool.call input).input.path.isString = false := h.resolve_left (fun hne => hne rfl)
    rw [if_pos (Or.inr (by rw [hstring]; rfl))]
  | unreadable _ => split_ifs <;> rfl
  | refused _ => split_ifs <;> rfl

theorem truthful_of_undetermined
    (h : ∀ target, (inspectToolOutcome (tool.call input) access target).outcome = .undetermined) :
    Truthful tool access input target where
  applied place _ heq := by
    rw [h] at heq
    cases heq
  notApplied place _ heq := by
    rw [h] at heq
    cases heq
  reissued place _ heq := by
    rw [h] at heq
    cases heq

theorem inspect_write (hpath : input.path.isString = true) :
    inspectToolOutcome (FileTool.write.call input) .granted target =
      inspectWrite input (target.map decode) := by
  simp [inspectToolOutcome, FileTool.call, FileTool.name, FileTool.sideEffectClass, hpath]

theorem inspect_edit (hpath : input.path.isString = true) :
    inspectToolOutcome (FileTool.edit.call input) .granted target =
      inspectEdit input (target.map decode) := by
  simp only [inspectToolOutcome, FileTool.call, FileTool.name, FileTool.sideEffectClass, hpath]
  rfl

theorem completed_write : FileTool.write.completed .granted input target =
    some (encode input.content.text) := by
  have hplaces : FileTool.write.execute .granted input target =
      writeProjectFile target input.content.text := rfl
  rw [FileTool.completed, hplaces, writeProjectFile_last]

/-! Writes. -/

theorem inspectWrite_applied {current : Option Units} : (inspectWrite input current).outcome = .applied ↔
    input.content.isString = true ∧ current = some input.content.text := by
  rw [inspectWrite]
  cases input.content.isString
  · simp
  · by_cases hcurrent : current = some input.content.text <;> simp [hcurrent]

theorem inspectWrite_notApplied {current : Option Units} :
    (inspectWrite input current).outcome = .notApplied ↔
      input.content.isString = true ∧ current ≠ some input.content.text := by
  rw [inspectWrite]
  cases input.content.isString
  · simp
  · by_cases hcurrent : current = some input.content.text <;> simp [hcurrent]

theorem truthful_write (hpath : input.path.isString = true) :
    Truthful .write .granted input target ↔
      (input.content.isString = true → WriteSettled input.content.text target) := by
  constructor
  · intro h hstring
    constructor
    · by_contra hnot
      rw [not_or] at hnot
      have hrenamed := h.notApplied _ (writeProjectFile_renamed target input.content.text) (by
        rw [inspect_write hpath, inspectWrite_notApplied, Option.map_some, decode_encode]
        exact ⟨hstring, fun heq => hnot.1 (Option.some.inj heq)⟩)
      exact hnot.2 hrenamed.symm
    · rintro bytes rfl hdecode
      have happlied := h.applied _ (writeProjectFile_start (some bytes) input.content.text) (by
        rw [inspect_write hpath, inspectWrite_applied]
        exact ⟨hstring, congrArg some hdecode⟩)
      rw [completed_write] at happlied
      exact Option.some.inj happlied
  · intro h
    refine ⟨fun place hplace heq => ?_, fun place hplace heq => ?_, fun place hplace heq => ?_⟩
    · rw [inspect_write hpath, inspectWrite_applied] at heq
      obtain ⟨hstring, hcurrent⟩ := heq
      rw [completed_write]
      rcases mem_writeProjectFile hplace with htarget | htarget
      · obtain ⟨bytes, hbytes, hdecode⟩ := Option.map_eq_some_iff.mp hcurrent
        rw [hbytes, (h hstring).2 bytes (htarget ▸ hbytes) hdecode]
      · exact htarget
    · rw [inspect_write hpath, inspectWrite_notApplied] at heq
      obtain ⟨hstring, hcurrent⟩ := heq
      rcases mem_writeProjectFile hplace with htarget | htarget
      · exact htarget
      · rcases (h hstring).1 with hformed | hsame
        · rw [htarget, Option.map_some, decode_encode, hformed] at hcurrent
          exact absurd rfl hcurrent
        · rw [htarget, hsame]
    · rw [completed_write, completed_write]

/-! Edits. -/

/-- Where presence decides, both texts are strings, and the original is not empty. -/
theorem overlapping_false (h : overlapping input = false) : input.oldString.text ≠ [] ∧
    input.oldString.orEmpty = input.oldString.text ∧ input.newString.orEmpty = input.newString.text := by
  simp only [overlapping, Bool.or_eq_false_iff, decide_eq_false_iff_not] at h
  obtain ⟨⟨⟨hold, -⟩, hnew⟩, -⟩ := h
  have holdString : input.oldString.isString = true := by
    by_contra hnot
    exact hold (if_neg hnot)
  have hnewString : input.newString.isString = true := by
    by_contra hnot
    rw [Argument.orEmpty, Argument.orEmpty, if_neg hnot] at hnew
    simp [includes] at hnew
  have horEmpty : input.oldString.orEmpty = input.oldString.text := if_pos holdString
  exact ⟨horEmpty ▸ hold, horEmpty, if_pos hnewString⟩

theorem inspectEdit_applied {current : Option Units} (h : (inspectEdit input current).outcome = .applied) :
    ∃ text, current = some text ∧ overlapping input = false ∧
      includes text input.oldString.text = false := by
  cases current with
  | none => cases h
  | some text =>
    rw [inspectEdit] at h
    split_ifs at h with hover
    have hover' : overlapping input = false := by simpa using hover
    obtain ⟨-, hold, hnew⟩ := overlapping_false hover'
    rw [hold, hnew] at h
    refine ⟨text, rfl, hover', ?_⟩
    cases hincluded : includes text input.oldString.text with
    | false => rfl
    | true => cases hnew' : includes text input.newString.text <;> simp [hincluded, hnew'] at h

theorem inspectEdit_notApplied {current : Option Units} :
    (inspectEdit input current).outcome = .notApplied ↔ ∃ text, current = some text ∧
      overlapping input = false ∧ includes text input.oldString.text = true ∧
        includes text input.newString.text = false := by
  cases current with
  | none => simp [inspectEdit]
  | some text =>
    rw [inspectEdit]
    cases hover : overlapping input with
    | true => simp
    | false =>
      obtain ⟨-, hold, hnew⟩ := overlapping_false hover
      rw [hold, hnew]
      cases hincluded : includes text input.oldString.text <;>
        cases hnew' : includes text input.newString.text <;> simp [hincluded, hnew']

theorem execute_edit {bytes : ByteArray} (hold : input.oldString.text ≠ [])
    (hincluded : includes (decode bytes) input.oldString.text = true) :
    FileTool.edit.execute .granted input (some bytes) =
      writeProjectFile (some bytes) (edited input (decode bytes)) := by
  have hcount : occurrences (decode bytes) input.oldString.text ≠ 0 := by
    rw [Ne, occurrences_eq_zero hold, hincluded]
    decide
  rw [FileTool.execute]
  exact if_neg (not_or.mpr ⟨hold, hcount⟩)

/-- An edit that does not go ahead leaves the file alone. -/
theorem execute_edit_cases (target : Option ByteArray) :
    FileTool.edit.execute .granted input target = [⟨target, none⟩] ∨
      ∃ bytes, target = some bytes ∧ includes (decode bytes) input.oldString.text = true ∧
        FileTool.edit.execute .granted input target =
          writeProjectFile target (edited input (decode bytes)) := by
  cases target with
  | none => exact Or.inl rfl
  | some bytes =>
    by_cases hold : input.oldString.text = []
    · exact Or.inl (if_pos (Or.inl hold))
    · cases hincluded : includes (decode bytes) input.oldString.text with
      | false => exact Or.inl (if_pos (Or.inr ((occurrences_eq_zero hold _).mpr hincluded)))
      | true => exact Or.inr ⟨bytes, rfl, hincluded, execute_edit hold hincluded⟩

theorem truthful_edit (hpath : input.path.isString = true) :
    Truthful .edit .granted input target ↔ EditSettled input target := by
  constructor
  · rintro h bytes rfl hover hincluded next hold
    by_contra hnot
    rw [not_or, Bool.not_eq_true] at hnot
    obtain ⟨hnew, hbytes⟩ := hnot
    have hrenamed := h.notApplied ⟨some (encode next), none⟩ (by
      rw [execute_edit (overlapping_false hover).1 hincluded]
      exact writeProjectFile_renamed _ _) (by
      rw [inspect_edit hpath, inspectEdit_notApplied]
      exact ⟨_, congrArg some (decode_encode next), hover, hold, hnew⟩)
    exact hbytes (Option.some.inj hrenamed)
  · intro h
    have hkept : ∀ place ∈ FileTool.edit.execute .granted input target,
        (inspectToolOutcome (FileTool.edit.call input) .granted place.target).outcome = .notApplied →
          place.target = target := by
      intro place hplace heq
      rw [inspect_edit hpath, inspectEdit_notApplied] at heq
      obtain ⟨text, htext, hover, hold, hnew⟩ := heq
      rcases @execute_edit_cases input target with hsame | ⟨bytes, hbytes, hincluded, hwrites⟩
      · rw [hsame] at hplace
        rw [List.mem_singleton.mp hplace]
      · rw [hwrites] at hplace
        rcases mem_writeProjectFile hplace with htarget | htarget
        · exact htarget
        · rw [htarget, Option.map_some, decode_encode] at htext
          obtain rfl := Option.some.inj htext
          rcases h bytes hbytes hover hincluded hold with hnew' | hsame
          · rw [hnew] at hnew'
            cases hnew'
          · rw [htarget, hbytes, hsame]
    refine ⟨fun place hplace heq => ?_, hkept, fun place hplace heq => by rw [hkept place hplace heq]⟩
    rw [inspect_edit hpath] at heq
    obtain ⟨text, htext, -, hold⟩ := inspectEdit_applied heq
    rcases @execute_edit_cases input target with hsame | ⟨bytes, hbytes, hincluded, hwrites⟩
    · rw [FileTool.completed, hsame]
      rw [hsame] at hplace
      rw [List.mem_singleton.mp hplace]
      rfl
    · rw [FileTool.completed, hwrites, writeProjectFile_last]
      rw [hwrites] at hplace
      rcases mem_writeProjectFile hplace with htarget | htarget
      · rw [htarget, hbytes, Option.map_some] at htext
        rw [Option.some.inj htext, hold] at hincluded
        cases hincluded
      · exact htarget

end Inspected

/-- The inspection is truthful exactly where the texts survive being written and read back. -/
theorem inspection_truthful_iff (tool : FileTool) (access : Access) (input : ToolInput)
    (target : Option ByteArray) : Truthful tool access input target ↔ Settled tool access input target := by
  by_cases haccess : access = .granted
  · subst haccess
    cases hpath : input.path.isString with
    | false =>
      have hundetermined := fun target => @inspect_undetermined tool .granted input target (Or.inr hpath)
      exact iff_of_true (truthful_of_undetermined hundetermined) fun _ hstring =>
        absurd (hpath.symm.trans hstring) nofun
    | true =>
      cases tool with
      | write =>
        rw [truthful_write hpath]
        exact ⟨fun h _ _ => h, fun h => h rfl hpath⟩
      | edit =>
        rw [truthful_edit hpath]
        exact ⟨fun h _ _ => h, fun h => h rfl hpath⟩
  · have hundetermined := fun target => @inspect_undetermined tool access input target (Or.inl haccess)
    exact iff_of_true (truthful_of_undetermined hundetermined) fun hgranted => absurd hgranted haccess

/-- A `write` of half a surrogate pair. -/
def halfPair : ToolInput where
  path := ⟨true, utf16 "a.txt"⟩
  content := ⟨true, [0xD83D]⟩
  oldString := ⟨false, []⟩
  newString := ⟨false, []⟩
  replaceAll := false

/-- The new file is in place, and the call is said to have done nothing. -/
theorem half_pair_not_truthful : ¬ Truthful .write .granted halfPair none := by
  rw [truthful_write rfl]
  intro h
  rcases (h rfl).1 with hformed | hsame
  · revert hformed
    decide
  · cases hsame

end Wazir.Tools
