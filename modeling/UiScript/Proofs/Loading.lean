import Mathlib.Data.Finset.Card
import Mathlib.Data.List.Induction
import UiScript.Loader
import UiScript.Proofs.Reading.Progress

/-!
# Loading through a shared cache

What a step at a workplace does to the cache is said once (`step_cases`): it leaves the cache as it is, or it binds one
path that was not bound, to the script that it gives. Everything about runs follows from that:

* **Step** (`step_keeps`, `step_bound`): a binding stays, and what a step gives is what its path is bound to.
* **Run** (`run_keeps`, `run_bound`, `run_paths`): the same along a run; the bound paths are those that were served.
* **Insertion once** (`run_binds_once`): the whole of it for the runs that start with an empty cache.
* **Origins** (`run_origin`): without direct insertions, a script in the cache is what the loader that first loaded its
  path makes of its text. Another loader may make something else of it (`load_other_catalog`); one that knows the same
  commands does not (`load_parses_text`).
-/

namespace UiScript

/-! ## Catalogs -/

namespace Reading

section Catalogs

variable {catalog catalog' : Catalog}

theorem command_catalog (h : ∀ name, catalog.contains name = catalog'.contains name) (s : Source)
    (read : Cursor → Element × Cursor) (t : Token) (c : Cursor) :
    command catalog s read t c = command catalog' s read t c := by
  simp only [command, h]

theorem commands_catalog (h : ∀ name, catalog.contains name = catalog'.contains name) (s : Source)
    (read : Cursor → Element × Cursor) (c : Cursor) :
    commands catalog s read c = commands catalog' s read c := by
  induction hn : c.rest.length using Nat.strongRecOn generalizing c with
  | ind n ih =>
    rw [commands, commands]
    cases c.skipBlank.rest with
    | nil => rfl
    | cons t ts =>
      simp only [command_catalog h]
      split
      · rfl
      · split
        · rename_i hlt
          rw [ih _ (hn ▸ hlt) _ rfl]
        · rfl

/-- An operand depends only on the names that are commands. -/
theorem operand_catalog (h : ∀ name, catalog.contains name = catalog'.contains name) (levels : Nat) :
    operand catalog levels = operand catalog' levels := by
  induction levels with
  | zero =>
    funext s multiline c
    simp only [operand]
  | succ levels ih =>
    funext s multiline c
    simp only [operand, ih, block, commands_catalog h]

end Catalogs

end Reading

/-- **A script depends only on the names that are commands.** -/
theorem Script.parse_catalog {catalog catalog' : Catalog} (h : ∀ name, catalog.contains name = catalog'.contains name)
    (text : String) : Script.parse catalog text = Script.parse catalog' text := by
  have helement : Reading.element catalog = Reading.element catalog' := by
    funext multiline s c
    simp only [Reading.element, Reading.operand_catalog h]
  simp only [Script.parse, helement, Reading.commands_catalog h]

/-! ## The cache -/

namespace Cache

variable {c : Cache} {p q : Path} {s t : Script}

/-- The paths that are bound. -/
def paths (c : Cache) : List Path := c.entries.map Prod.fst

theorem get?_eq_none_iff : c.get? p = none ↔ p ∉ c.paths := by
  rw [get?, List.lookup_eq_none_iff, paths, List.mem_map]
  constructor
  · rintro h ⟨x, hx, rfl⟩
    simpa using h x hx
  · intro h x hx
    exact bne_iff_ne.mpr fun heq => h ⟨x, hx, heq.symm⟩

theorem mem_paths_of_some (h : c.get? p = some s) : p ∈ c.paths := by
  by_contra hp
  rw [get?_eq_none_iff.mpr hp] at h
  cases h

theorem insertOnce_of_some (h : c.get? p = some t) (s : Script) : c.insertOnce p s = (t, c) := by
  simp only [insertOnce, h]

theorem insertOnce_of_none (h : c.get? p = none) (s : Script) :
    c.insertOnce p s = (s, ⟨c.entries ++ [(p, s)]⟩) := by
  simp only [insertOnce, h]

/-- A new binding at the end leaves the others as they are. -/
theorem get?_append (c : Cache) (p q : Path) (s : Script) :
    Cache.get? ⟨c.entries ++ [(p, s)]⟩ q = (c.get? q).or (if q = p then some s else none) := by
  unfold get?
  rw [List.lookup_append]
  by_cases h : q = p
  · simp [h]
  · have hne : (q == p) = false := beq_false_of_ne h
    simp only [List.lookup_cons, hne, List.lookup_nil, if_neg h]

end Cache

namespace Workplace

/-- A workplace whose cache is empty. -/
def fresh (directory : Path) (disk : Disk) : Workplace := { directory, disk }

variable {w : Workplace} {a : Action} {as bs : List Action} {p : Path} {s : Script}

/-! ## One step -/

/-- What a step serves: the path and the script of a load or an insertion that did not fail. -/
def served? (w : Workplace) (a : Action) (outcome : Option (Except LoadError Script)) : Option (Path × Script) :=
  match a, outcome with
  | .load _ path, some (.ok s) | .insert path _, some (.ok s) => (w.normalize path).toOption.map (·, s)
  | _, _ => none

/-- Where a script comes from that a step binds: it is what the loader made of a text, or it was handed in. -/
def Action.Gives (s : Script) : Action → Prop
  | .load l _ => ∃ text, s = l.parse text
  | .insert _ s' => s = s'
  | _ => False

/-- **What a step does to the cache.** It leaves the cache as it is and serves only what is bound, or it binds one path
that was not bound and serves that. -/
theorem step_cases (w : Workplace) (a : Action) :
    ((w.step a).2.cache = w.cache ∧ ∀ p s, w.served? a (w.step a).1 = some (p, s) → w.cache.get? p = some s) ∨
      ∃ p s, w.served? a (w.step a).1 = some (p, s) ∧ w.cache.get? p = none ∧ a.Gives s ∧
        (w.step a).2.cache = ⟨w.cache.entries ++ [(p, s)]⟩ := by
  cases a with
  | load l path =>
    cases hp : w.normalize path with
    | error e => exact Or.inl (by simp [step, load, hp, served?])
    | ok p =>
      cases hget : w.cache.get? p with
      | some s =>
        refine Or.inl ⟨by simp [step, load, hp, hget], fun q t h => ?_⟩
        simp only [step, load, hp, hget, served?, Except.toOption, Option.map_some, Option.some.injEq,
          Prod.mk.injEq] at h
        rw [← h.1, ← h.2, hget]
      | none =>
        cases hread : w.disk.readText w.directory p.text with
        | error e => exact Or.inl (by simp [step, load, hp, hget, hread, served?])
        | ok text =>
          refine Or.inr ⟨p, l.parse text, ?_, hget, ⟨text, rfl⟩, ?_⟩
          · simp [step, load, hp, hget, hread, served?, Cache.insertOnce_of_none hget, Except.toOption]
          · simp [step, load, hp, hget, hread, Cache.insertOnce_of_none hget]
  | insert path s =>
    cases hp : w.normalize path with
    | error e => exact Or.inl (by simp [step, insert, hp, served?])
    | ok p =>
      cases hget : w.cache.get? p with
      | some t =>
        refine Or.inl ⟨by simp [step, insert, hp, Cache.insertOnce_of_some hget], fun q u h => ?_⟩
        simp only [step, insert, hp, Cache.insertOnce_of_some hget, served?, Except.toOption, Option.map_some,
          Option.some.injEq, Prod.mk.injEq] at h
        rw [← h.1, ← h.2, hget]
      | none =>
        refine Or.inr ⟨p, s, ?_, hget, rfl, ?_⟩
        · simp [step, insert, hp, served?, Cache.insertOnce_of_none hget, Except.toOption]
        · simp [step, insert, hp, Cache.insertOnce_of_none hget]
  | writeFile path content => exact Or.inl (by simp [step, served?])
  | makeFolder path => exact Or.inl (by simp [step, served?])
  | remove path => exact Or.inl (by simp [step, served?])

/-- What a load serves is the script that it gives, under its path. -/
theorem served?_load {l : Loader} {path : String} {outcome : Option (Except LoadError Script)}
    (h : w.served? (.load l path) outcome = some (p, s)) : w.normalize path = .ok p ∧ outcome = some (.ok s) := by
  rcases outcome with _ | _ | t
  · cases h
  · cases h
  · cases hp : w.normalize path with
    | error e => simp [served?, hp, Except.toOption] at h
    | ok q =>
      simp only [served?, hp, Except.toOption, Option.map_some, Option.some.injEq, Prod.mk.injEq] at h
      exact ⟨by rw [h.1], by rw [h.2]⟩

/-- Nobody leaves the directory. -/
theorem step_directory (w : Workplace) (a : Action) : (w.step a).2.directory = w.directory := by
  cases a with
  | load l path =>
    simp only [step, load]
    repeat' split
    all_goals rfl
  | insert path s =>
    simp only [step, insert]
    split <;> rfl
  | _ => rfl

/-- A binding stays. -/
theorem step_keeps (a : Action) (h : w.cache.get? p = some s) : (w.step a).2.cache.get? p = some s := by
  rcases step_cases w a with ⟨hcache, -⟩ | ⟨q, t, -, hnone, -, hcache⟩
  · rw [hcache, h]
  · rw [hcache, Cache.get?_append, h]
    rfl

/-- What a step serves is what its path is bound to afterwards. -/
theorem step_bound (h : w.served? a (w.step a).1 = some (p, s)) : (w.step a).2.cache.get? p = some s := by
  rcases step_cases w a with ⟨hcache, hold⟩ | ⟨q, t, hserved, hnone, -, hcache⟩
  · rw [hcache, hold p s h]
  · rw [h] at hserved
    cases hserved
    rw [hcache, Cache.get?_append, hnone]
    simp

/-- A load that fails changes nothing. -/
theorem load_error {l : Loader} {path : String} {e : LoadError} (h : (w.load l path).1 = .error e) :
    (w.load l path).2 = w := by
  unfold load at h ⊢
  split at h
  · rfl
  · split at h
    · cases h
    · split at h
      · rfl
      · cases h

/-! ## Runs -/

@[simp] theorem run_nil (w : Workplace) : w.run [] = ([], w) := rfl

@[simp] theorem run_cons (w : Workplace) (a : Action) (as : List Action) :
    w.run (a :: as) = ((w.step a).1 :: ((w.step a).2.run as).1, ((w.step a).2.run as).2) := rfl

theorem run_append (w : Workplace) (as bs : List Action) :
    w.run (as ++ bs) = ((w.run as).1 ++ ((w.run as).2.run bs).1, ((w.run as).2.run bs).2) := by
  induction as generalizing w with
  | nil => simp
  | cons a as ih => simp [ih]

/-- A run with one step more. -/
theorem run_concat (w : Workplace) (as : List Action) (a : Action) :
    w.run (as ++ [a]) = ((w.run as).1 ++ [((w.run as).2.step a).1], ((w.run as).2.step a).2) := by
  rw [run_append]
  rfl

theorem length_run (w : Workplace) (as : List Action) : (w.run as).1.length = as.length := by
  induction as generalizing w with
  | nil => rfl
  | cons a as ih => simp [ih]

theorem run_directory (w : Workplace) (as : List Action) : (w.run as).2.directory = w.directory := by
  induction as generalizing w with
  | nil => rfl
  | cons a as ih => rw [run_cons, ih, step_directory]

theorem normalize_run (w : Workplace) (as : List Action) (path : String) :
    (w.run as).2.normalize path = w.normalize path := by
  rw [normalize, normalize, run_directory]

/-- A binding stays along a run. -/
theorem run_keeps (as : List Action) (h : w.cache.get? p = some s) : (w.run as).2.cache.get? p = some s := by
  induction as generalizing w with
  | nil => exact h
  | cons a as ih => exact ih (step_keeps a h)

/-- What a run serves: the paths and the scripts of its loads and insertions that did not fail. -/
def served (w : Workplace) (as : List Action) : List (Path × Script) :=
  (as.zip (w.run as).1).filterMap fun x => w.served? x.1 x.2

theorem served?_congr {v : Workplace} (h : v.directory = w.directory) (a : Action)
    (outcome : Option (Except LoadError Script)) : v.served? a outcome = w.served? a outcome := by
  have hnormalize : ∀ path, v.normalize path = w.normalize path := fun path => by rw [normalize, normalize, h]
  cases a <;> simp only [served?, hnormalize]

theorem served_concat (w : Workplace) (as : List Action) (a : Action) :
    w.served (as ++ [a]) = w.served as ++ (w.served? a ((w.run as).2.step a).1).toList := by
  rw [served, run_concat, List.zip_append (length_run w as).symm, List.filterMap_append]
  cases h : w.served? a ((w.run as).2.step a).1 <;> simp [served, h]

/-- What a run serves is what its path is bound to in the end. -/
theorem run_bound (w : Workplace) (as : List Action) : ∀ x ∈ w.served as, (w.run as).2.cache.get? x.1 = some x.2 := by
  induction as using List.reverseRecOn with
  | nil => simp [served]
  | append_singleton as a ih =>
    intro x hx
    rw [served_concat] at hx
    rw [run_concat]
    rcases List.mem_append.mp hx with hx | hx
    · exact step_keeps a (ih x hx)
    · rw [Option.mem_toList, ← served?_congr (run_directory w as)] at hx
      exact step_bound hx

/-- **The bound paths** of a run that starts with an empty cache are those that it served, each of them once. -/
theorem run_paths (h : w.cache.entries = []) (as : List Action) :
    (w.run as).2.cache.paths.Nodup ∧ ∀ p, p ∈ (w.run as).2.cache.paths ↔ p ∈ (w.served as).map Prod.fst := by
  induction as using List.reverseRecOn with
  | nil => simp [served, Cache.paths, h]
  | append_singleton as a ih =>
    obtain ⟨hnodup, hpaths⟩ := ih
    rw [run_concat, served_concat, ← served?_congr (run_directory w as)]
    rcases step_cases (w.run as).2 a with ⟨hcache, hold⟩ | ⟨q, t, hserved, hnone, -, hcache⟩
    · rw [hcache]
      refine ⟨hnodup, fun p => ?_⟩
      rw [List.map_append, List.mem_append, ← hpaths p]
      refine ⟨Or.inl, fun hp => hp.elim id fun hp => ?_⟩
      obtain ⟨x, hx, rfl⟩ := List.mem_map.mp hp
      exact Cache.mem_paths_of_some (hold x.1 x.2 (Option.mem_toList.mp hx))
    · have hq : q ∉ (w.run as).2.cache.paths := Cache.get?_eq_none_iff.mp hnone
      have hnew : Cache.paths ⟨(w.run as).2.cache.entries ++ [(q, t)]⟩ = (w.run as).2.cache.paths ++ [q] := by
        simp [Cache.paths]
      rw [hcache, hserved, hnew]
      refine ⟨?_, fun p => ?_⟩
      · rw [List.nodup_append]
        refine ⟨hnodup, List.nodup_singleton q, fun x hx y hy => ?_⟩
        rw [List.mem_singleton.mp hy]
        rintro rfl
        exact hq hx
      · simp [hpaths p]

/-- The cache holds as many scripts as paths were served. -/
theorem run_size (h : w.cache.entries = []) (as : List Action) :
    (w.run as).2.cache.size = ((w.served as).map Prod.fst).toFinset.card := by
  obtain ⟨hnodup, hpaths⟩ := run_paths h as
  have hset : (w.run as).2.cache.paths.toFinset = ((w.served as).map Prod.fst).toFinset := by
    ext p
    rw [List.mem_toFinset, List.mem_toFinset, hpaths p]
  rw [← hset, List.toFinset_card_of_nodup hnodup, Cache.size, Cache.paths, List.length_map]

/-- The step of a run at a position is a load of a path, however it is written, and gives a script. -/
def LoadsAt (w : Workplace) (as : List Action) (i : Nat) (l : Loader) (p : Path) (s : Script) : Prop :=
  ∃ path, as[i]? = some (.load l path) ∧ w.normalize path = .ok p ∧ (w.run as).1[i]? = some (some (.ok s))

/-- A load in a run that gives a script serves its path. -/
theorem LoadsAt.mem_served {i : Nat} {l : Loader} (h : w.LoadsAt as i l p s) : (p, s) ∈ w.served as := by
  obtain ⟨path, ha, hp, hs⟩ := h
  refine List.mem_filterMap.mpr ⟨(.load l path, some (.ok s)), ?_, by simp [served?, hp, Except.toOption]⟩
  exact List.mem_of_getElem? (List.getElem?_zip_eq_some.mpr ⟨ha, hs⟩)

/-- Two loads of one path give one script. -/
theorem LoadsAt.agree {i j : Nat} {l l' : Loader} {s' : Script} (h : w.LoadsAt as i l p s)
    (h' : w.LoadsAt as j l' p s') : s = s' := by
  have hbound := run_bound w as _ h.mem_served
  rw [run_bound w as _ h'.mem_served] at hbound
  exact (Option.some.inj hbound).symm

/-- An insertion gives the script that its path is bound to: the old one, or the new one if there was none. -/
theorem insert_stored {path : String} (hp : w.normalize path = .ok p) (s : Script) :
    ∃ stored, (w.insert path s).1 = .ok stored ∧ (w.insert path s).2.cache.get? p = some stored ∧
      stored = (w.cache.get? p).getD s := by
  refine ⟨(w.cache.insertOnce p s).1, by simp [insert, hp], by simp [insert, hp, Cache.get?_insertOnce_self], ?_⟩
  cases hget : w.cache.get? p with
  | some t => rw [Cache.insertOnce_of_some hget, Option.getD_some]
  | none => rw [Cache.insertOnce_of_none hget, Option.getD_none]

/-- What it means that a run binds every path once. -/
structure BindsOnce (w : Workplace) (as : List Action) : Prop where
  /-- A path that is bound stays bound to its script. -/
  keeps : ∀ bs p s, (w.run as).2.cache.get? p = some s → (w.run (as ++ bs)).2.cache.get? p = some s
  /-- Any two loads of one path that do not fail give one script, whatever happened to the file between them. -/
  agree : ∀ i j l l' p s s', w.LoadsAt as i l p s → w.LoadsAt as j l' p s' → s = s'
  /-- An insertion gives the script that its path is bound to, which is the old one if there is one. -/
  stored : ∀ path p s, w.normalize path = .ok p →
    ∃ stored, ((w.run as).2.step (.insert path s)).1 = some (.ok stored) ∧
      ((w.run as).2.step (.insert path s)).2.cache.get? p = some stored ∧
      stored = ((w.run as).2.cache.get? p).getD s
  /-- A load that fails changes nothing. -/
  failed : ∀ l path e, ((w.run as).2.step (.load l path)).1 = some (.error e) →
    ((w.run as).2.step (.load l path)).2 = (w.run as).2
  /-- The cache holds as many scripts as different paths were loaded or inserted. -/
  size : (w.run as).2.cache.size = ((w.served as).map Prod.fst).toFinset.card

/-- **A path is bound once**, in every run of loads by any loaders, insertions and changes of files that starts with an
empty cache. -/
theorem run_binds_once (directory : Path) (disk : Disk) (as : List Action) : BindsOnce (fresh directory disk) as where
  keeps bs p s h := by
    rw [run_append]
    exact run_keeps bs h
  agree _ _ _ _ _ _ _ h h' := h.agree h'
  stored path p s hp := by
    rw [← normalize_run _ as] at hp
    obtain ⟨stored, hgives, hget, hold⟩ := insert_stored hp s
    exact ⟨stored, congrArg some hgives, hget, hold⟩
  failed l path e h := load_error (Option.some.inj h)
  size := run_size rfl as

/-! ## Origins -/

/-- Whether a script is handed in. -/
def Action.isInsert : Action → Bool
  | .insert .. => true
  | _ => false

/-- A load of a path that gives a script, and no load before it gave one for this path. -/
structure FirstLoad (w : Workplace) (as : List Action) (i : Nat) (l : Loader) (p : Path) (s : Script) : Prop where
  loads : w.LoadsAt as i l p s
  first : ∀ k < i, ∀ l' s', ¬ w.LoadsAt as k l' p s'

theorem LoadsAt.concat {i : Nat} {l : Loader} (h : w.LoadsAt as i l p s) (a : Action) :
    w.LoadsAt (as ++ [a]) i l p s := by
  obtain ⟨path, ha, hp, hs⟩ := h
  have hi : i < as.length := (List.getElem?_eq_some_iff.mp ha).1
  refine ⟨path, ?_, hp, ?_⟩
  · rw [List.getElem?_append_left hi, ha]
  · rw [run_concat, List.getElem?_append_left (by rw [length_run]; exact hi), hs]

/-- The steps before the last one are those of the shorter run. -/
theorem LoadsAt.of_concat {i : Nat} {l : Loader} (h : w.LoadsAt (as ++ [a]) i l p s) (hi : i < as.length) :
    w.LoadsAt as i l p s := by
  obtain ⟨path, ha, hp, hs⟩ := h
  rw [List.getElem?_append_left hi] at ha
  rw [run_concat, List.getElem?_append_left (by rw [length_run]; exact hi)] at hs
  exact ⟨path, ha, hp, hs⟩

theorem FirstLoad.concat {i : Nat} {l : Loader} (h : w.FirstLoad as i l p s) (a : Action) :
    w.FirstLoad (as ++ [a]) i l p s := by
  obtain ⟨path, ha, -, -⟩ := id h.loads
  have hi : i < as.length := (List.getElem?_eq_some_iff.mp ha).1
  exact ⟨h.loads.concat a, fun k hk l' s' hloads => h.first k hk l' s' (hloads.of_concat (hk.trans hi))⟩

/-- A load that binds its path is the first that gives a script for it. -/
theorem firstLoad_of_new {l : Loader} {path : String} (hp : w.normalize path = .ok p)
    (hs : ((w.run as).2.step (.load l path)).1 = some (.ok s)) (hnone : (w.run as).2.cache.get? p = none) :
    w.FirstLoad (as ++ [.load l path]) as.length l p s := by
  refine ⟨⟨path, by simp, hp, ?_⟩, fun k hk l' s' hloads => ?_⟩
  · rw [run_concat, List.getElem?_append_right (by rw [length_run]), length_run, Nat.sub_self, hs]
    rfl
  · have hbound := run_bound w as _ (hloads.of_concat hk).mem_served
    rw [hnone] at hbound
    cases hbound

/-- **Where a script of the cache comes from.** In a run without insertions that starts with an empty cache, a bound
path was loaded, and its script is what the first loader that succeeded made of its text. -/
theorem run_origin (h : w.cache.entries = []) (as : List Action) : (∀ a ∈ as, a.isInsert = false) →
    ∀ p s, (w.run as).2.cache.get? p = some s → ∃ i l, w.FirstLoad as i l p s ∧ s = l.parse s.text := by
  induction as using List.reverseRecOn with
  | nil =>
    intro _ p s hget
    rw [run_nil, Cache.get?, h] at hget
    cases hget
  | append_singleton as a ih =>
    intro hinsert p s hget
    have ih := ih fun b hb => hinsert b (List.mem_append_left _ hb)
    rw [run_concat] at hget
    rcases step_cases (w.run as).2 a with ⟨hcache, -⟩ | ⟨q, t, hserved, hnone, hgives, hcache⟩
    · rw [hcache] at hget
      obtain ⟨i, l, hfirst, hparse⟩ := ih p s hget
      exact ⟨i, l, hfirst.concat a, hparse⟩
    · rw [hcache, Cache.get?_append] at hget
      by_cases hpq : p = q
      · -- the step binds the path, so it is a load and nothing loaded the path before
        subst hpq
        rw [hnone, if_pos rfl] at hget
        cases hget
        cases a with
        | load l path =>
          obtain ⟨text, rfl⟩ := hgives
          obtain ⟨hp, hs⟩ := served?_load hserved
          rw [normalize_run] at hp
          exact ⟨as.length, l, firstLoad_of_new hp hs hnone, rfl⟩
        | insert path s' => cases hinsert (.insert path s') (by simp)
        | _ => exact hgives.elim
      · rw [if_neg hpq, Option.or_none] at hget
        obtain ⟨i, l, hfirst, hparse⟩ := ih p s hget
        exact ⟨i, l, hfirst.concat a, hparse⟩

/-- **A cached load gives what the first loader of the path makes of the text.** In every run of loads by any loaders
and changes of files that starts with an empty cache, a load that gives a script gives the one that the first successful
load of its path gave, which is what that load's loader makes of the script's text. A loader that knows the same
commands makes the same of it. -/
theorem load_parses_text (directory : Path) (disk : Disk) (as : List Action)
    (hinsert : ∀ a ∈ as, a.isInsert = false) {i : Nat} {l : Loader} {p : Path} {s : Script}
    (h : (fresh directory disk).LoadsAt as i l p s) :
    ∃ j first, j ≤ i ∧ (fresh directory disk).FirstLoad as j first p s ∧ s = first.parse s.text ∧
      ((∀ name, first.settings.catalog.contains name = l.settings.catalog.contains name) → s = l.parse s.text) := by
  have hget := run_bound _ _ _ h.mem_served
  obtain ⟨j, first, hfirst, hparse⟩ := run_origin rfl as hinsert p s hget
  have hj : j ≤ i := Nat.le_of_not_lt fun hlt => hfirst.first i hlt l s h
  refine ⟨j, first, hj, hfirst, hparse, fun hcatalog => ?_⟩
  rw [hparse, Loader.parse, Script.parse_catalog hcatalog]
  rfl

/-- A loader that knows one command. -/
def strictLoader : Loader := ⟨{ commands := ["reload"] }⟩

/-- A loader that takes every name for a command. -/
def openLoader : Loader := ⟨{ allowUnknown := true }⟩

/-- A disk with one script, which holds one command. -/
def oneScript : Disk := ⟨[(["a"], .file "x: 1".toUTF8)]⟩

/-- Two loads by different loaders, the second through another spelling of the path. -/
theorem load_parses_text_second :
    (fresh ⟨[]⟩ oneScript).LoadsAt [.load strictLoader "a", .load openLoader "./b/../a"] 1 openLoader ⟨["a"]⟩
      (strictLoader.parse "x: 1") ∧
    ∃ j first, j ≤ 1 ∧ (fresh ⟨[]⟩ oneScript).FirstLoad [.load strictLoader "a", .load openLoader "./b/../a"] j first
        ⟨["a"]⟩ (strictLoader.parse "x: 1") ∧
      strictLoader.parse "x: 1" = first.parse (strictLoader.parse "x: 1").text ∧
      ((∀ name, first.settings.catalog.contains name = openLoader.settings.catalog.contains name) →
        strictLoader.parse "x: 1" = openLoader.parse (strictLoader.parse "x: 1").text) :=
  have h : (fresh ⟨[]⟩ oneScript).LoadsAt [.load strictLoader "a", .load openLoader "./b/../a"] 1 openLoader ⟨["a"]⟩
      (strictLoader.parse "x: 1") := ⟨"./b/../a", rfl, rfl, rfl⟩
  ⟨h, load_parses_text ⟨[]⟩ oneScript _ (by decide) h⟩

/-- A loader that shares its cache with one that knows other commands can give a script that it would not make of the
text itself. -/
theorem load_other_catalog :
    ¬ ∀ (directory : Path) (disk : Disk) (as : List Action), (∀ a ∈ as, ∃ l path, a = .load l path) →
      ∀ i l p s, (fresh directory disk).LoadsAt as i l p s → s = l.parse s.text := by
  intro h
  have hsecond : (fresh ⟨[]⟩ oneScript).LoadsAt [.load strictLoader "a", .load openLoader "a"] 1 openLoader ⟨["a"]⟩
      (strictLoader.parse "x: 1") := ⟨"a", rfl, rfl, rfl⟩
  have heq := h ⟨[]⟩ oneScript _ (by simp) 1 openLoader ⟨["a"]⟩ _ hsecond
  have hstrict : (strictLoader.parse "x: 1").hasFatal = true := by decide +kernel
  have hopen : (openLoader.parse "x: 1").hasFatal = false := by decide +kernel
  rw [heq] at hstrict
  exact absurd (hopen.symm.trans hstrict) (by simp)

end Workplace

end UiScript
