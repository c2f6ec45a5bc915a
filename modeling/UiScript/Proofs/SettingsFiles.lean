import UiScript.Proofs.Documents
import UiScript.Proofs.Paths
import UiScript.Settings.File

/-!
# Saved settings

Settings that are saved are loaded as they were, if they can be used at all (`tryLoad_saved`). Two facts carry this:
the document that is written is read as the same settings, whatever its strings and however long its list
(`parse?_text`), and a file that is written is read as it was, at every path that can be written to
(`readText_writeText`).
-/

namespace UiScript

/-! ## Files -/

theorem Path.segments_eq (text : String) :
    (segments text).dropLast ++ [(segments text).getLastD ""] = segments text := by
  have hne : segments text ≠ [] := by simpa [segments] using splitSlashes_ne_nil text.toList
  rw [List.getLastD_eq_getLast?, List.getLast?_eq_some_getLast hne, Option.getD_some, List.dropLast_append_getLast hne]

namespace Disk

variable {d d' : Disk} {names next place : List String} {item : Item} {segment : String}

theorem lookup_filter_of_ne (items : List (List String × Item)) (h : names ≠ place) :
    (items.filter (·.1 != place)).lookup names = items.lookup names := by
  induction items with
  | nil => rfl
  | cons x items ih =>
    by_cases hx : x.1 = place
    · have hother : (names == x.1) = false := by simpa [hx] using h
      rw [List.filter_cons_of_neg (by simp [hx]), ih, List.lookup_cons, hother]
    · rw [List.filter_cons_of_pos (by simp [hx]), List.lookup_cons, List.lookup_cons, ih]

theorem lookup_filter_self (items : List (List String × Item)) :
    (items.filter (·.1 != place)).lookup place = none := by
  rw [List.lookup_eq_none_iff]
  intro x hx
  have hother : x.1 ≠ place := by simpa using List.of_mem_filter hx
  simpa using hother.symm

theorem get?_put_self (d : Disk) (item : Item) (h : place ≠ []) : (d.put place item).get? place = some item := by
  simp [get?, put, h, List.lookup_append, lookup_filter_self]

theorem get?_put_of_ne (d : Disk) (item : Item) (h : names ≠ place) : (d.put place item).get? names = d.get? names := by
  have hitem : List.lookup names [(place, item)] = none := by
    rw [List.lookup_cons, beq_false_of_ne h]
    rfl
  simp only [get?, put, List.lookup_append, lookup_filter_of_ne _ h, hitem, Option.or_none]

theorem ne_nil_of_not_folder (h : d.get? place ≠ some .folder) : place ≠ [] := by
  rintro rfl
  exact h rfl

/-- Whatever is put where there is no folder, each folder can be left as before. -/
theorem enter_put (hplace : d.get? place ≠ some .folder) (h : d.enter names segment = .ok next) (item : Item) :
    (d.put place item).enter names segment = .ok next := by
  have hfolder : d.get? names = some .folder := by
    unfold enter at h
    split at h
    · assumption
    · cases h
    · cases h
  have hne : names ≠ place := by
    rintro rfl
    exact hplace hfolder
  rw [enter, hfolder] at h
  rw [enter, get?_put_of_ne d item hne, hfolder]
  exact h

/-- The path that led to the place of a new file leads to the file. -/
theorem walk_put {segments : List String} {found : List String × Item} (hplace : d.get? place ≠ some .folder)
    (hway : d.walk names segments = .ok found) (hlast : d.enter found.1 segment = .ok place) (item : Item) :
    (d.put place item).walk names (segments ++ [segment]) = .ok (place, item) := by
  induction segments generalizing names with
  | nil =>
    have hhere : found.1 = names := by
      rw [walk] at hway
      split at hway
      · cases hway
        rfl
      · cases hway
    rw [hhere] at hlast
    rw [List.nil_append, walk, enter_put hplace hlast item]
    simp only [walk, get?_put_self d item (ne_nil_of_not_folder hplace)]
  | cons first segments ih =>
    rw [walk] at hway
    cases hstep : d.enter names first with
    | error e =>
      rw [hstep] at hway
      cases hway
    | ok after =>
      rw [hstep] at hway
      rw [List.cons_append, walk, enter_put hplace hstep item]
      exact ih hway

theorem fromUTF8?_toUTF8 (s : String) : String.fromUTF8? s.toUTF8 = some s := dif_pos s.isValidUTF8

/-- **A file that is written is read as it was written.** -/
theorem readText_writeText {directory : Path} {text content : String}
    (h : d.writeText directory text content = .ok d') : d'.readText directory text = .ok content := by
  unfold writeText at h
  split at h
  · cases h
  rename_i hopen
  split at h
  · cases h
  rename_i hway
  split at h
  · cases h
  rename_i hlast
  split at h
  · cases h
  rename_i hplace
  cases h
  rw [readText, resolve, hopen]
  have hwalk := walk_put hplace hway hlast (.file content.toUTF8)
  rw [Path.segments_eq] at hwalk
  simp only [hwalk, fromUTF8?_toUTF8]

/-- Whether a path can be written to does not depend on what is written. -/
theorem writeText_error {directory : Path} {text content : String} {e : DiskError}
    (h : d.writeText directory text content = .error e) (other : String) :
    d.writeText directory text other = .error e := by
  unfold writeText at h ⊢
  split at h
  · exact h
  · split at h
    · exact h
    · split at h
      · exact h
      · split at h
        · exact h
        · cases h

end Disk

/-! ## Documents of settings -/

namespace Settings

open Document

theorem Field.ofName?_name (field : Field) : Field.ofName? field.name = some field := by
  cases field <;> decide

theorem stringOf?_pieces (t : String) : stringOf? (.string (t.toList.map piece)) = some t := by
  rw [stringOf?, decode?_pieces, Option.map_some, String.ofList_toList]

theorem stringsOf?_pieces (ts : List String) :
    stringsOf? (.array (ts.map fun t => .string (t.toList.map piece))) = some ts := by
  rw [stringsOf?, List.mapM_map]
  induction ts with
  | nil => rfl
  | cons t ts ih => simp [List.mapM_cons, stringOf?_pieces, ih]

/-- What stands for a field in the document of the settings. -/
def document (s : Settings) : Field → Document
  | .environmentFallback => .bool s.environmentFallback
  | .commands => .array (s.commands.map fun t => .string (t.toList.map piece))
  | .allowUnknown => .bool s.allowUnknown
  | .arrayHelper => .string (s.arrayHelper.toList.map piece)
  | .jsonHelper => .string (s.jsonHelper.toList.map piece)
  | .extension => .string (s.extension.toList.map piece)

/-- The settings with one field taken from others. -/
def taking (t s : Settings) : Field → Settings
  | .environmentFallback => { t with environmentFallback := s.environmentFallback }
  | .commands => { t with commands := s.commands }
  | .allowUnknown => { t with allowUnknown := s.allowUnknown }
  | .arrayHelper => { t with arrayHelper := s.arrayHelper }
  | .jsonHelper => { t with jsonHelper := s.jsonHelper }
  | .extension => { t with extension := s.extension }

theorem assign?_document (t s : Settings) (field : Field) :
    t.assign? field (s.document field) = some (t.taking s field) := by
  cases field <;> simp only [assign?, document, taking, boolOf?, stringOf?_pieces, stringsOf?_pieces, Option.map_some]

/-- A member of the document of the settings, as it is read. -/
def member (s : Settings) (field : Field) : DocumentMember := .mk (field.name.toList.map piece) (s.document field)

theorem ofMembers?_member {seen : List Field} {field : Field} (s t : Settings) (hnew : field ∉ seen)
    (ms : List DocumentMember) :
    ofMembers? seen t (s.member field :: ms) = ofMembers? (field :: seen) (t.taking s field) ms := by
  have hseen : seen.contains field = false := by simpa using hnew
  rw [member, ofMembers?, decode?_pieces]
  simp only [Option.bind_eq_bind, Option.bind_some, String.ofList_toList, Field.ofName?_name, hseen, Bool.false_eq_true,
    if_false, assign?_document]

/-- Fields that are there once are all taken. -/
theorem ofMembers?_members {fields seen : List Field} (s t : Settings) (hone : fields.Nodup)
    (hnew : ∀ field ∈ fields, field ∉ seen) :
    ofMembers? seen t (fields.map s.member) = some (fields.foldl (taking · s) t) := by
  induction fields generalizing seen t with
  | nil => rfl
  | cons field fields ih =>
    rw [List.nodup_cons] at hone
    rw [List.map_cons, ofMembers?_member s t (hnew field List.mem_cons_self)]
    refine ih (t.taking s field) hone.2 fun other hother hseen => ?_
    rcases List.mem_cons.mp hseen with rfl | hseen
    · exact hone.1 hother
    · exact hnew other (List.mem_cons_of_mem _ hother) hseen

theorem accepts_commands (levels level : Nat) (ts : List String) :
    Accepts (readValue? (levels + 1)) ((Json.array (ts.map .string)).pretty level).toList
      (.array (ts.map fun t => .string (t.toList.map piece))) := by
  refine accepts_array level ?_
  induction ts with
  | nil => exact .nil
  | cons t ts ih => exact .cons (accepts_string t) ih

/-- The value of a field, as it is written. -/
def json (s : Settings) : Field → Json
  | .environmentFallback => .bool s.environmentFallback
  | .commands => .array (s.commands.map .string)
  | .allowUnknown => .bool s.allowUnknown
  | .arrayHelper => .string s.arrayHelper
  | .jsonHelper => .string s.jsonHelper
  | .extension => .string s.extension

theorem accepts_field (levels : Nat) (s : Settings) (field : Field) :
    Accepts (readValue? (levels + 1)) ((s.json field).pretty 1).toList (s.document field) := by
  cases field with
  | environmentFallback => exact accepts_bool _
  | commands => exact accepts_commands levels 1 s.commands
  | allowUnknown => exact accepts_bool _
  | arrayHelper => exact accepts_string _
  | jsonHelper => exact accepts_string _
  | extension => exact accepts_string _

theorem accepts_text (levels : Nat) (s : Settings) :
    Accepts (readValue? (levels + 2)) s.text.toList (.object (Field.all.map s.member)) := by
  have hfields : List.Forall₂ (Accepts (readMember? (readValue? (levels + 1))))
      ((Field.all.map fun field => jsonString field.name ++ ": " ++ (s.json field).pretty 1).map String.toList)
      (Field.all.map s.member) := by
    rw [List.map_map]
    induction Field.all with
    | nil => exact .nil
    | cons field fields ih => exact .cons (accepts_member field.name (accepts_field levels s field)) ih
  exact accepts_object 0 hfields

/-- **The document of settings is read as the same settings.** -/
theorem parse?_text (s : Settings) : parse? s.text = some s := by
  have hlength : 2 ≤ s.text.toList.length := by
    have hbreak : (lineBreak (0 + 1)).toList.length = 3 := rfl
    simp only [text, toJson, Json.pretty, onLines, prettyMembers, List.isEmpty_cons, Bool.false_eq_true, if_false,
      String.toList_append, List.length_append]
    omega
  obtain ⟨levels, hlevels⟩ := Nat.exists_eq_add_of_le' hlength
  have haccepts := accepts_text levels s
  rw [← hlevels] at haccepts
  rw [parse?, parse?_of_accepts haccepts]
  exact ofMembers?_members s {} (by decide) (by decide)

/-- **Saved settings are loaded as they were.** What is loaded after a save is the settings themselves, or the reason
why they cannot be used. A save fails only if nothing at all can be written to the path. -/
theorem tryLoad_saved (s : Settings) (d : Disk) (directory : Path) (path : String) :
    (∃ d', s.save d directory path = .ok d' ∧
      tryLoad d' directory path = match s.invalid? with
        | none => .ok s
        | some reason => .error (.invalid reason)) ∨
    ∃ e, s.save d directory path = .error (.disk e) ∧ ∀ content, d.writeText directory path content = .error e := by
  cases hwrite : d.writeText directory path s.text with
  | error e => exact .inr ⟨e, by rw [save, hwrite], Disk.writeText_error hwrite⟩
  | ok d' =>
    refine .inl ⟨d', by rw [save, hwrite], ?_⟩
    rw [tryLoad, Disk.readText_writeText hwrite]
    simp only [ofText, parse?_text, validated]
    cases s.invalid? <;> rfl

example : ∃ d, ({ arrayHelper := "\"é\\\x01" } : Settings).save ⟨[]⟩ ⟨[]⟩ "config.json" = .ok d := ⟨_, rfl⟩

end Settings

end UiScript
