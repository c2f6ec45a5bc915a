import Mathlib.Logic.Relation
import UiScript.Loader

/-!
# The absolute form of a path

A path has one absolute form, however it is spelled (`normalize_canonical`). Its text is canonical (`Path.Canonical`):
no segment is empty, `.` or `..`, and it is its own absolute form. Doubled slashes, a slash at the end, `.` and names
that are left again by `..` change nothing, wherever they stand (`Path.Respelled`).

The absolute form is reached in two steps, each of which treats some spellings in its own way: the path is taken from
the directory it is seen from (`Path.absolute?`), and the components of the result (`Path.components`) are followed from
the root on (`Path.ofComponents`). `Path.map_absolute?` says that the two steps give what one walk along the segments
gives.

* **Step** (`Path.enter_ordinary`, `Path.follow_component?`): one segment keeps the names ordinary, and it does what its
  component does.
* **Run** (`Path.walk_ordinary`, `Path.pushAll_segments`, `Path.foldl_component?`): so does a walk along all segments.
* **Step** (`Path.Respelled.normalize?_eq`): another spelling at one place leads to the same path; **run**
  (`Path.normalize?_respelled`): so do any number of them.
-/

namespace UiScript

namespace Path

/-! ## Components -/

/-- What a path is made of. -/
inductive Component where
  | root | current | parent
  | name (text : String)
deriving DecidableEq, Repr

/-- A component as it is written. -/
def Component.text : Component → String
  | root => "/"
  | current => "."
  | parent => ".."
  | name s => s

/-- The component that a segment makes; an empty one and `.` make none. -/
def component? (segment : String) : Option Component :=
  if segment = "" ∨ segment = "." then none
  else if segment = ".." then some .parent
  else some (.name segment)

/-- The components of a path. Repeated slashes and a slash at the end count for nothing, and so does `.` except at the
start of the path. -/
def components (text : String) : List Component :=
  (if isAbsolute text then [.root] else if (segments text).head? = some "." then [.current] else []) ++
    (segments text).filterMap component?

/-- A path with another one behind it, which takes its place if it is absolute. -/
def push (base text : String) : String :=
  if isAbsolute text then text else if base = "" then text else join base text

/-- A path with components behind it, one after the other. -/
def pushAll (base : String) (cs : List Component) : String := cs.foldl (fun base c => push base c.text) base

/-- Whether a path starts with two slashes and not with three; this start is kept. -/
def isDoubled (text : String) : Bool := "//".toList.isPrefixOf text.toList && !"///".toList.isPrefixOf text.toList

/-- The components of a path behind the place that they start from: the root for an absolute path, where two slashes
stay two, and otherwise `directory`, where the path is seen from. A `.` at the start of the path is dropped, and every
`..` stays. -/
def fromRoot (directory text : String) : String :=
  let parts := (components text).filter (· ≠ .current)
  if isDoubled text then pushAll "//" parts.tail else pushAll (if isAbsolute text then "" else directory) parts

/-- A path as it is seen from the root. A slash at its end stays. The empty path leads nowhere. -/
def absolute? (directory text : String) : Option String :=
  if text = "" then none
  else some (if text.toList.getLast? = some '/' then push (fromRoot directory text) "" else fromRoot directory text)

/-- The names from the root on after one more component. -/
def follow (names : List String) : Component → List String
  | .root => []
  | .current => names
  | .parent => names.dropLast
  | .name s => names ++ [s]

/-- Where components lead to. -/
def ofComponents (cs : List Component) : Path := ⟨cs.foldl follow []⟩

/-! ## Segments -/

section Segments

variable {a b s t : String} {names : List String}

theorem splitSlashes_ne_nil (cs : List Char) : splitSlashes cs ≠ [] := by
  cases cs with
  | nil => exact List.cons_ne_nil _ _
  | cons c cs =>
    rw [splitSlashes]
    split
    · exact List.cons_ne_nil _ _
    · split <;> exact List.cons_ne_nil _ _

theorem splitSlashes_append (as bs : List Char) :
    splitSlashes (as ++ '/' :: bs) = splitSlashes as ++ splitSlashes bs := by
  induction as with
  | nil => simp [splitSlashes]
  | cons c as ih =>
    rw [List.cons_append, splitSlashes, splitSlashes, ih]
    split
    · rfl
    · obtain ⟨first, rest, hfirst⟩ := List.exists_cons_of_ne_nil (splitSlashes_ne_nil as)
      rw [hfirst]
      rfl

theorem splitSlashes_of_not_mem {cs : List Char} (h : '/' ∉ cs) : splitSlashes cs = [cs] := by
  induction cs with
  | nil => rfl
  | cons c cs ih =>
    rw [List.mem_cons, not_or] at h
    rw [splitSlashes, if_neg (Ne.symm h.1), ih h.2]

theorem not_mem_of_mem_splitSlashes (cs : List Char) : ∀ s ∈ splitSlashes cs, '/' ∉ s := by
  induction cs with
  | nil => simp [splitSlashes]
  | cons c cs ih =>
    obtain ⟨first, rest, hfirst⟩ := List.exists_cons_of_ne_nil (splitSlashes_ne_nil cs)
    rw [hfirst, List.forall_mem_cons] at ih
    rw [splitSlashes, hfirst]
    split
    · exact List.forall_mem_cons.mpr ⟨by simp, List.forall_mem_cons.mpr ih⟩
    · rename_i hc
      exact List.forall_mem_cons.mpr ⟨by simp [Ne.symm hc, ih.1], ih.2⟩

/-- A slash divides the segments of a path. -/
theorem segments_append (a b : String) : segments (a ++ "/" ++ b) = segments a ++ segments b := by
  have htext : (a ++ "/" ++ b).toList = a.toList ++ '/' :: b.toList := by simp
  rw [segments, htext, splitSlashes_append, List.map_append, segments, segments]

theorem segments_of_not_mem (h : '/' ∉ s.toList) : segments s = [s] := by
  rw [segments, splitSlashes_of_not_mem h, List.map_singleton, String.ofList_toList]

theorem not_mem_of_mem_segments (h : s ∈ segments t) : '/' ∉ s.toList := by
  obtain ⟨cs, hcs, rfl⟩ := List.mem_map.mp h
  rw [String.toList_ofList]
  exact not_mem_of_mem_splitSlashes _ cs hcs

/-- Slashes between names make a path with these segments. -/
theorem segments_intercalate : ∀ {ns : List String}, ns ≠ [] → (∀ n ∈ ns, '/' ∉ n.toList) →
    segments ("/".intercalate ns) = ns
  | [n], _, h => by rw [String.intercalate_singleton, segments_of_not_mem (h n (by simp))]
  | n :: m :: ns, _, h => by
    obtain ⟨hn, hns⟩ := List.forall_mem_cons.mp h
    rw [String.intercalate_cons_cons, segments_append, segments_of_not_mem hn,
      segments_intercalate (List.cons_ne_nil m ns) hns, List.singleton_append]

/-- A path with a slash at its end, as that slash and what stands before it. -/
theorem exists_of_getLast? (h : t.toList.getLast? = some '/') : ∃ s, t = s ++ "/" := by
  obtain ⟨cs, hcs⟩ := List.getLast?_eq_some_iff.mp h
  exact ⟨String.ofList cs, by rw [← String.toList_inj, hcs]; simp⟩

theorem isAbsolute_append (ha : a ≠ "") (b : String) : isAbsolute (a ++ b) = isAbsolute a := by
  have hne : a.toList ≠ [] := fun h => ha (String.toList_eq_nil_iff.mp h)
  obtain ⟨c, cs, hc⟩ := List.exists_cons_of_ne_nil hne
  simp [isAbsolute, hc]

theorem isAbsolute_slash (s : String) : isAbsolute ("/" ++ s) = true := by simp [isAbsolute]

theorem isAbsolute_of_not_mem (h : '/' ∉ s.toList) : isAbsolute s = false := by
  rw [isAbsolute, beq_eq_false_iff_ne]
  exact fun hhead => h (List.mem_of_head? hhead)

end Segments

/-! ## Walking along segments -/

/-- The names from the root on after all segments of a path. -/
def walk (names : List String) (text : String) : List String := (segments text).foldl enter names

/-- A name that a folder or a file can have, and that leads there. -/
structure Ordinary (name : String) : Prop where
  nonempty : name ≠ ""
  ne_current : name ≠ "."
  ne_parent : name ≠ ".."
  one : '/' ∉ name.toList

section Walk

variable {a b s t base : String} {names : List String} {c : Component}

theorem walk_append (names : List String) (a b : String) : walk names (a ++ "/" ++ b) = walk (walk names a) b := by
  rw [walk, segments_append, List.foldl_append, walk, walk]

theorem walk_segment (names : List String) (h : '/' ∉ s.toList) : walk names s = enter names s := by
  rw [walk, segments_of_not_mem h, List.foldl_cons, List.foldl_nil]

@[simp] theorem walk_empty (names : List String) : walk names "" = names := rfl

theorem enter_of_ordinary (h : Ordinary s) (names : List String) : enter names s = names ++ [s] := by
  rw [enter, if_neg (not_or.mpr ⟨h.nonempty, h.ne_current⟩), if_neg h.ne_parent]

/-- **One segment keeps the names ordinary.** -/
theorem enter_ordinary (hnames : ∀ n ∈ names, Ordinary n) (hs : '/' ∉ s.toList) :
    ∀ n ∈ enter names s, Ordinary n := by
  unfold enter
  split
  · exact hnames
  · rename_i hempty
    rw [not_or] at hempty
    split
    · exact fun n hn => hnames n ((List.dropLast_sublist names).mem hn)
    · rename_i hparent
      exact List.forall_mem_append.mpr ⟨hnames, by simpa using ⟨hempty.1, hempty.2, hparent, hs⟩⟩

/-- **A walk keeps the names ordinary.** -/
theorem walk_ordinary (t : String) (hnames : ∀ n ∈ names, Ordinary n) : ∀ n ∈ walk names t, Ordinary n := by
  have hrun : ∀ segs : List String, (∀ s ∈ segs, '/' ∉ s.toList) → ∀ names : List String, (∀ n ∈ names, Ordinary n) →
      ∀ n ∈ segs.foldl enter names, Ordinary n := by
    intro segs
    induction segs with
    | nil => exact fun _ names hnames => hnames
    | cons s segs ih =>
      intro hsegs names hnames
      obtain ⟨hs, hsegs⟩ := List.forall_mem_cons.mp hsegs
      exact ih hsegs _ (enter_ordinary hnames hs)
  exact hrun _ (fun s hs => not_mem_of_mem_segments hs) names hnames

/-- A walk along names that are ordinary goes through them. -/
theorem foldl_enter (names : List String) {ns : List String} (h : ∀ n ∈ ns, Ordinary n) :
    ns.foldl enter names = names ++ ns := by
  induction ns generalizing names with
  | nil => simp
  | cons n ns ih =>
    obtain ⟨hn, hns⟩ := List.forall_mem_cons.mp h
    rw [List.foldl_cons, enter_of_ordinary hn, ih _ hns, List.append_assoc, List.singleton_append]

/-- **A segment does what its component does.** -/
theorem follow_component? (names : List String) (s : String) :
    (component? s).elim names (follow names) = enter names s := by
  unfold component? enter
  split
  · rfl
  · split <;> rfl

theorem foldl_component? (segs : List String) : ∀ names : List String,
    (segs.filterMap component?).foldl follow names = segs.foldl enter names := by
  induction segs with
  | nil => exact fun _ => rfl
  | cons s segs ih =>
    intro names
    have hstep := follow_component? names s
    rw [List.filterMap_cons, List.foldl_cons, ← hstep]
    cases component? s with
    | none => exact ih _
    | some c => exact ih _

end Walk

/-! ## The two steps -/

section TwoSteps

variable {base directory text s a : String} {c : Component}

theorem component?_text (h : component? s = some c) : c.text = s := by
  unfold component? at h
  split at h
  · cases h
  · split at h
    · rename_i hparent
      cases h
      exact hparent.symm
    · cases h
      rfl

theorem component?_ne_current (h : component? s = some c) : c ≠ .current := by
  unfold component? at h
  split at h
  · cases h
  · split at h <;> cases h <;> exact Component.noConfusion

/-- **One component behind a path is one more segment.** -/
theorem walk_push (hbase : isAbsolute base = true) (hs : '/' ∉ s.toList) :
    isAbsolute (push base s) = true ∧ walk [] (push base s) = enter (walk [] base) s := by
  have hne : base ≠ "" := by rintro rfl; cases hbase
  rw [push, if_neg (by simp [isAbsolute_of_not_mem hs]), if_neg hne, join]
  split
  · rename_i hlast
    obtain ⟨b, rfl⟩ := exists_of_getLast? hlast
    have hend : walk [] (b ++ "/") = walk [] b := by simpa using walk_append [] b ""
    rw [isAbsolute_append hne, walk_append, walk_segment _ hs, hend]
    exact ⟨hbase, rfl⟩
  · rw [String.append_assoc, isAbsolute_append hne, ← String.append_assoc, walk_append, walk_segment _ hs]
    exact ⟨hbase, rfl⟩

/-- **All components behind a path are all segments.** -/
theorem pushAll_segments {segs : List String} (hbase : isAbsolute base = true) (hsegs : ∀ s ∈ segs, '/' ∉ s.toList) :
    isAbsolute (pushAll base (segs.filterMap component?)) = true ∧
      walk [] (pushAll base (segs.filterMap component?)) = segs.foldl enter (walk [] base) := by
  induction segs generalizing base with
  | nil => exact ⟨hbase, rfl⟩
  | cons s segs ih =>
    obtain ⟨hs, hsegs⟩ := List.forall_mem_cons.mp hsegs
    have hstep := follow_component? (walk [] base) s
    rw [List.filterMap_cons, List.foldl_cons]
    cases hc : component? s with
    | none =>
      rw [hc, Option.elim_none] at hstep
      rw [← hstep]
      exact ih hbase hsegs
    | some c =>
      obtain ⟨habsolute, hwalk⟩ := walk_push hbase hs
      rw [← hwalk, pushAll, List.foldl_cons, component?_text hc]
      exact ih habsolute hsegs

/-- Without the `.` at its start a path has the root and the components of its segments. -/
theorem filter_components (text : String) : (components text).filter (· ≠ .current) =
    (if isAbsolute text then [.root] else []) ++ (segments text).filterMap component? := by
  have hsegments : ((segments text).filterMap component?).filter (· ≠ .current) =
      (segments text).filterMap component? := by
    rw [List.filter_eq_self]
    intro c hc
    obtain ⟨s, -, hs⟩ := List.mem_filterMap.mp hc
    simpa using component?_ne_current hs
  rw [components, List.filter_append, hsegments]
  split
  · rfl
  · split <;> rfl

theorem isAbsolute_of_isDoubled (h : isDoubled text = true) : isAbsolute text = true := by
  rw [isDoubled, Bool.and_eq_true, List.isPrefixOf_iff_prefix] at h
  obtain ⟨rest, hrest⟩ := h.1
  rw [isAbsolute, ← hrest]
  rfl

/-- The components of an absolute path lead where its segments lead. -/
theorem ofComponents_components (ha : isAbsolute a = true) : ofComponents (components a) = ⟨walk [] a⟩ := by
  rw [ofComponents, components, if_pos ha, List.singleton_append, List.foldl_cons, foldl_component?]
  rfl

/-- The components are pushed to where the segments lead, whichever of the three places they start from. -/
theorem walk_fromRoot (hdirectory : isAbsolute directory = true) (text : String) :
    isAbsolute (fromRoot directory text) = true ∧
      walk [] (fromRoot directory text) =
        (segments text).foldl enter (if isAbsolute text then [] else walk [] directory) := by
  have hsegs : ∀ s ∈ segments text, '/' ∉ s.toList := fun s hs => not_mem_of_mem_segments hs
  rw [fromRoot, filter_components]
  by_cases hdoubled : isDoubled text = true
  · have hbase : isAbsolute "//" = true := rfl
    rw [if_pos hdoubled, if_pos (isAbsolute_of_isDoubled hdoubled), if_pos (isAbsolute_of_isDoubled hdoubled)]
    exact pushAll_segments hbase hsegs
  · rw [if_neg hdoubled]
    by_cases hroot : isAbsolute text = true
    · have hbase : isAbsolute "/" = true := rfl
      rw [if_pos hroot, if_pos hroot, if_pos hroot]
      exact pushAll_segments hbase hsegs
    · rw [if_neg hroot, if_neg hroot, if_neg hroot]
      exact pushAll_segments hdirectory hsegs

/-- **The two steps are one walk**: from the root on, or from the directory that the path is seen from. -/
theorem map_absolute? (hdirectory : isAbsolute directory = true) (text : String) :
    (absolute? directory text).map (fun a => ofComponents (components a)) =
      normalize? (ofComponents (components directory)) text := by
  obtain ⟨habsolute, hwalk⟩ := walk_fromRoot hdirectory text
  rw [absolute?, normalize?, ofComponents_components hdirectory]
  split
  · rfl
  · rw [Option.map_some, ← hwalk]
    split
    · obtain ⟨hend, hwalkend⟩ := walk_push (s := "") habsolute (by simp)
      rw [ofComponents_components hend, hwalkend]
      rfl
    · rw [ofComponents_components habsolute]

end TwoSteps

/-! ## Canonical texts -/

/-- An absolute path with nothing in it that leads nowhere: a name that can be one stands behind every slash, except
that the root is a slash alone. -/
structure Canonical (text : String) : Prop where
  absolute : isAbsolute text = true
  ordinary : text ≠ "/" → ∀ s ∈ (segments text).tail, Ordinary s
  ending : text ≠ "/" → text.toList.getLast? ≠ some '/'

section Canonical

variable {directory p : Path} {text : String}

/-- The names of a path are ordinary, whatever text it is the absolute form of. -/
theorem normalize?_ordinary (hdirectory : ∀ n ∈ directory.names, Ordinary n)
    (h : normalize? directory text = some p) : ∀ n ∈ p.names, Ordinary n := by
  unfold normalize? at h
  split at h
  · cases h
  · cases h
    refine walk_ordinary text ?_
    split
    · simp
    · exact hdirectory

theorem segments_text (hnames : p.names ≠ []) (h : ∀ n ∈ p.names, Ordinary n) : segments p.text = "" :: p.names := by
  have hempty : "" ++ "/" ++ "/".intercalate p.names = p.text := by simp [text]
  rw [← hempty, segments_append, segments_intercalate hnames fun n hn => (h n hn).one]
  rfl

theorem text_canonical (h : ∀ n ∈ p.names, Ordinary n) : Canonical p.text := by
  have hordinary : p.text ≠ "/" → ∀ s ∈ (segments p.text).tail, Ordinary s := by
    intro hroot
    have hnames : p.names ≠ [] := fun hnames => hroot (by rw [text, hnames]; rfl)
    rw [segments_text hnames h]
    exact h
  refine ⟨isAbsolute_slash _, hordinary, fun hroot hlast => ?_⟩
  -- a slash at the end would leave an empty segment behind it
  obtain ⟨s, hs⟩ := exists_of_getLast? hlast
  have hsegments : segments p.text = segments s ++ [""] := by simpa [hs, segments, splitSlashes] using segments_append s ""
  have hne : segments s ≠ [] := by simpa [segments] using splitSlashes_ne_nil s.toList
  have hmem : "" ∈ (segments p.text).tail := by
    rw [hsegments, List.tail_append_of_ne_nil hne]
    exact List.mem_append_right _ (List.mem_singleton_self _)
  exact (hordinary hroot "" hmem).nonempty rfl

/-- A path with ordinary names is its own absolute form, wherever it is seen from. -/
theorem normalize?_text (directory : Path) (h : ∀ n ∈ p.names, Ordinary n) : normalize? directory p.text = some p := by
  have hne : p.text ≠ "" := by simp [text]
  have habsolute : isAbsolute p.text = true := isAbsolute_slash _
  rw [normalize?, if_neg hne, if_pos habsolute]
  by_cases hnames : p.names = []
  · obtain ⟨names⟩ := p
    cases hnames
    rfl
  · rw [segments_text hnames h, List.foldl_cons, foldl_enter _ h]
    rfl

end Canonical

/-! ## Other spellings -/

/-- A piece of a path that changes nothing: `.`, or a name that is left again. -/
inductive Idle : String → Prop where
  | current : Idle "."
  | left {x : String} (hx : Ordinary x) : Idle (x ++ "/..")

/-- A path is spelled in another way at one place: a slash is doubled or put at the end, or a piece that changes nothing
stands before, between or after the others. -/
inductive Respelled : String → String → Prop where
  | doubled (a b : String) : Respelled (a ++ "/" ++ b) (a ++ "//" ++ b)
  | trailing {a : String} (ha : a ≠ "") : Respelled a (a ++ "/")
  | before {b m : String} (hb : b ≠ "") (hrelative : isAbsolute b = false) (hm : Idle m) : Respelled b (m ++ "/" ++ b)
  | between (a b : String) {m : String} (hm : Idle m) : Respelled (a ++ "/" ++ b) (a ++ "/" ++ m ++ "/" ++ b)
  | after {a m : String} (ha : a ≠ "") (hm : Idle m) : Respelled a (a ++ "/" ++ m)

section Respelled

variable {directory : Path} {m t u : String}

theorem Idle.walk_eq (h : Idle m) (names : List String) : walk names m = names := by
  cases h with
  | current => rfl
  | left hx =>
    rename_i x
    have hparent : x ++ "/.." = x ++ "/" ++ ".." := by rw [String.append_assoc]; rfl
    rw [hparent, walk_append, walk_segment names hx.one, enter_of_ordinary hx, walk_segment _ (by decide)]
    simp [enter]

theorem Idle.relative (h : Idle m) : m ≠ "" ∧ isAbsolute m = false := by
  cases h with
  | current => exact ⟨by decide, rfl⟩
  | left hx => exact ⟨by simp, by rw [isAbsolute_append hx.nonempty, isAbsolute_of_not_mem hx.one]⟩

/-- Two spellings lead to the same path if both start at the root or neither does, and the walks along them agree. -/
theorem normalize?_congr (ht : t ≠ "") (hu : u ≠ "") (habsolute : isAbsolute u = isAbsolute t)
    (hwalk : ∀ names, walk names u = walk names t) : normalize? directory u = normalize? directory t := by
  rw [normalize?, normalize?, if_neg ht, if_neg hu, habsolute]
  exact congrArg (fun names => some (Path.mk names)) (hwalk _)

/-- What follows a slash does not decide whether a path starts at the root. -/
theorem isAbsolute_slash_append (a b c : String) : isAbsolute (a ++ "/" ++ b) = isAbsolute (a ++ "/" ++ c) := by
  have hne : a ++ "/" ≠ "" := by simp
  rw [isAbsolute_append hne, isAbsolute_append hne]

/-- **Another spelling at one place leads to the same path.** -/
theorem Respelled.normalize?_eq (h : Respelled t u) : normalize? directory u = normalize? directory t := by
  cases h with
  | doubled a b =>
    have htext : a ++ "//" ++ b = a ++ "/" ++ ("" ++ "/" ++ b) := by simp [← String.toList_inj]
    rw [htext]
    refine normalize?_congr (by simp) (by simp) (isAbsolute_slash_append _ _ _) fun names => ?_
    rw [walk_append, walk_append, walk_append, walk_empty]
  | trailing ha =>
    refine normalize?_congr ha (by simp) (isAbsolute_append ha _) fun names => ?_
    simpa using walk_append names t ""
  | before hb hrelative hm =>
    refine normalize?_congr hb (by simp) ?_ fun names => ?_
    · rw [String.append_assoc, isAbsolute_append hm.relative.1, hm.relative.2, hrelative]
    · rw [walk_append, hm.walk_eq]
  | between a b hm =>
    rename_i m
    have htext : a ++ "/" ++ m ++ "/" ++ b = a ++ "/" ++ (m ++ "/" ++ b) := by simp [← String.toList_inj]
    rw [htext]
    refine normalize?_congr (by simp) (by simp) (isAbsolute_slash_append _ _ _) fun names => ?_
    rw [walk_append, walk_append, walk_append, hm.walk_eq]
  | after ha hm =>
    refine normalize?_congr ha (by simp) ?_ fun names => ?_
    · rw [String.append_assoc, isAbsolute_append ha]
    · rw [walk_append, hm.walk_eq]

/-- **Other spellings at any number of places lead to the same path.** -/
theorem normalize?_respelled (h : Relation.EqvGen Respelled t u) : normalize? directory u = normalize? directory t := by
  induction h with
  | rel t u h => exact h.normalize?_eq
  | refl t => rfl
  | symm t u _ ih => exact ih.symm
  | trans t u v _ _ ihtu ihuv => exact ihuv.trans ihtu

end Respelled

end Path

/-- **The absolute form of a path is canonical.** At a workplace whose directory is an absolute path, in whatever
spelling, every path has an absolute form except the empty one, and it is what the two steps lead to. Its text is
canonical, it is its own absolute form at every workplace, and all other spellings of the path have the same form. -/
theorem normalize_canonical (w : Workplace) (directory text : String) (hdirectory : Path.isAbsolute directory = true)
    (hw : w.directory = .ofComponents (Path.components directory)) :
    w.normalize text = ((Path.absolute? directory text).map fun a => Path.ofComponents (Path.components a)).elim
        (.error .emptyPath) .ok ∧
      (w.normalize text = .error .emptyPath ↔ text = "") ∧
      (text ≠ "" → ∃ p, w.normalize text = .ok p ∧ Path.Canonical p.text ∧
        (∀ v : Workplace, v.normalize p.text = .ok p) ∧
        ∀ other, Relation.EqvGen Path.Respelled text other → w.normalize other = .ok p) := by
  have hnormalize : ∀ (v : Workplace) {text : String} {p : Path}, Path.normalize? v.directory text = some p →
      v.normalize text = .ok p := by
    intro v text p h
    rw [Workplace.normalize, h]
  by_cases hempty : text = ""
  · subst hempty
    exact ⟨rfl, ⟨fun _ => rfl, fun _ => rfl⟩, fun hne => absurd rfl hne⟩
  · obtain ⟨p, hp⟩ : ∃ p, Path.normalize? w.directory text = some p := ⟨_, if_neg hempty⟩
    have hnames : ∀ n ∈ p.names, Path.Ordinary n := by
      refine Path.normalize?_ordinary ?_ hp
      rw [hw, Path.ofComponents_components hdirectory]
      exact Path.walk_ordinary directory (by simp)
    refine ⟨?_, ⟨fun h => ?_, fun h => absurd h hempty⟩, fun _ => ⟨p, hnormalize w hp, Path.text_canonical hnames,
      fun v => hnormalize v (Path.normalize?_text v.directory hnames), fun other hother => ?_⟩⟩
    · rw [Path.map_absolute? hdirectory, ← hw, hp, hnormalize w hp]
      rfl
    · rw [hnormalize w hp] at h
      cases h
    · exact hnormalize w ((Path.normalize?_respelled hother).trans hp)

/-- Seen from a folder, a file in a folder there is spelled with `.` in front, a doubled slash and a slash at the end. -/
theorem normalize_canonical_relative : ∃ w : Workplace, Path.isAbsolute "/a/../tmp//x/" = true ∧
    w.directory = .ofComponents (Path.components "/a/../tmp//x/") ∧
    w.normalize "c/é" = .ok ⟨["tmp", "x", "c", "é"]⟩ ∧ w.normalize ".//c/é/" = .ok ⟨["tmp", "x", "c", "é"]⟩ := by
  let w : Workplace := { directory := .ofComponents (Path.components "/a/../tmp//x/"), disk := default }
  have hform : w.normalize "c/é" = .ok ⟨["tmp", "x", "c", "é"]⟩ := rfl
  obtain ⟨p, hp, -, -, hother⟩ := (normalize_canonical w "/a/../tmp//x/" "c/é" rfl rfl).2.2 (by decide)
  obtain rfl : ⟨["tmp", "x", "c", "é"]⟩ = p := Except.ok.inj (hform.symm.trans hp)
  refine ⟨w, rfl, rfl, hp, hother _ (.trans _ "./c/é" _ (.rel _ _ ?_) (.trans _ ".//c/é" _ (.rel _ _ ?_) (.rel _ _ ?_)))⟩
  · exact .before (by decide) rfl .current
  · exact .doubled "." "c/é"
  · exact .trailing (by decide)

end UiScript
