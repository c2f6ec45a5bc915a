import Mathlib.Data.List.Dedup
import Mathlib.Data.List.Perm.Subperm
import Mathlib.Logic.Relation
import UiScript.Equality
import UiScript.Proofs.Element.Occurrence
import UiScript.Proofs.Equality.Content

/-!
# Equality of dictionaries

Two dictionaries of one size are equal if every key of the first is found in the second and has an equal value there.
Only the first entry of a name is ever found, so where a dictionary repeats a key this is no equality: it looks at one
side only. Where no dictionary repeats a key (`Element.wellKeyed`), the entry that is found is the only one of its name
(`findEntry_eq_some_iff`), and the laws follow: a dictionary is equal to itself (`looseEq_self`), equality holds from
both sides (`looseEq_comm`), and equal dictionaries have the same keys (`names_perm_of_looseEq`).

The order of the entries does not matter then (`looseEq_reordered`). One step (`Reorders`) reorders the entries of one
dictionary, at the top or at a value below it; on the left side a step changes nothing for any dictionary on the right
(`Reorders.looseEq_left`), and the right side follows by symmetry.
-/

namespace UiScript

/-! ## Entries by name -/

/-- What an entry is looked up by: the string value of its key. -/
def Entry.name (p : Entry) : String := p.key.stringValue

/-- Whether two entries of one name have equal values, or none of the two has a value. -/
def Entry.agrees : Entry → Entry → Bool
  | .pair _ v, .pair _ w => v.looseEq w
  | .bare _, .bare _ => true
  | _, _ => false

section Entries

variable {xs ys : List Entry} {x y : Entry} {key : String}

theorem mem_of_findEntry (h : findEntry key xs = some x) : x ∈ xs ∧ x.name = key :=
  ⟨List.mem_of_find?_eq_some h, by simpa [Entry.name] using List.find?_some h⟩

/-- Where no key is repeated, look-up finds the only entry of a name. -/
theorem findEntry_eq_some_iff (hxs : (xs.map Entry.name).Nodup) :
    findEntry key xs = some x ↔ x ∈ xs ∧ x.name = key := by
  refine ⟨mem_of_findEntry, ?_⟩
  rintro ⟨hx, hname⟩
  cases hfind : findEntry key xs with
  | none =>
    have hnone := List.find?_eq_none.mp hfind x hx
    exact absurd (beq_iff_eq.mpr hname) hnone
  | some y =>
    obtain ⟨hy, hname'⟩ := mem_of_findEntry hfind
    rw [List.inj_on_of_nodup_map hxs hx hy (hname.trans hname'.symm)]

theorem Entry.looseEq_eq_any (x : Entry) (ys : List Entry) :
    x.looseEq ys = (findEntry x.name ys).any x.agrees := by
  cases x with
  | pair k v =>
    rw [Entry.looseEq, Entry.name, Entry.key]
    rcases findEntry k.stringValue ys with _ | ⟨⟩ | ⟨⟩ <;> rfl
  | bare k =>
    rw [Entry.looseEq, Entry.name, Entry.key]
    rcases findEntry k.stringValue ys with _ | ⟨⟩ | ⟨⟩ <;> rfl

theorem looseEqEntries_eq_all (xs ys : List Entry) : looseEqEntries xs ys = xs.all (·.looseEq ys) := by
  induction xs with
  | nil => rfl
  | cons x xs ih => rw [looseEqEntries, ih, List.all_cons]

end Entries

/-! ## Equality by look-up -/

section Lookup

variable {a b : Element} {i j : Info} {xs ys : List Entry}

theorem exists_json (h : a.kind = .json) : ∃ i xs, a = .json i xs := by
  cases a with
  | json i xs => exact ⟨i, xs, rfl⟩
  | leaf i l => cases l <;> cases h
  | _ => cases h

theorem value_mem_children {k v : Element} (h : Entry.pair k v ∈ xs) : v ∈ (Element.json i xs).children :=
  mem_children_json h (List.mem_cons_of_mem _ List.mem_cons_self)

theorem looseEq_json (i j : Info) (xs ys : List Entry) : (Element.json i xs).looseEq (.json j ys) =
    (xs.length == ys.length && xs.all (·.looseEq ys)) := by
  rw [Element.looseEq, looseEqEntries_eq_all]

/-- What is not a dictionary is compared by its string value. -/
theorem looseEq_text (h : a.kind ≠ .json ∨ b.kind ≠ .json) :
    a.looseEq b = (a.stringValue == b.stringValue) := by
  unfold Element.looseEq
  split
  · rcases h with h | h
    · exact absurd rfl h
    · exact absurd rfl h
  · rfl

theorem looseEq_json_iff (hys : (ys.map Entry.name).Nodup) :
    (Element.json i xs).looseEq (.json j ys) = true ↔
      xs.length = ys.length ∧ ∀ x ∈ xs, ∃ y ∈ ys, y.name = x.name ∧ x.agrees y = true := by
  rw [looseEq_json, Bool.and_eq_true, beq_iff_eq, List.all_eq_true]
  refine and_congr_right fun _ => forall₂_congr fun x _ => ?_
  rw [Entry.looseEq_eq_any, Option.any_eq_true]
  simp only [findEntry_eq_some_iff hys, and_assoc]

end Lookup

/-! ## Other places -/

section Relabelling

variable {ρ : Relabel} {a a' b b' : Element}

@[simp] theorem Entry.relabel_name (p : Entry) : (p.relabel ρ).name = p.name := by
  cases p <;> exact Element.relabel_stringValue _

theorem findEntry_relabel (key : String) (xs : List Entry) :
    findEntry key (xs.map (Entry.relabel ρ)) = (findEntry key xs).map (Entry.relabel ρ) := by
  rw [findEntry, List.find?_map]
  congr 2
  funext p
  exact congrArg (· == key) p.relabel_name

/-- Places play no part in equality. -/
@[simp] theorem relabel_looseEq (a : Element) : ∀ b : Element,
    (a.relabel ρ).looseEq (b.relabel ρ) = a.looseEq b := by
  induction a using Element.byChildren with
  | h a ih =>
    intro b
    by_cases hkind : a.kind = .json ∧ b.kind = .json
    · obtain ⟨⟨i, xs, rfl⟩, ⟨j, ys, rfl⟩⟩ := And.imp exists_json exists_json hkind
      have hentry : ∀ x ∈ xs, (x.relabel ρ).looseEq (ys.map (Entry.relabel ρ)) = x.looseEq ys := by
        intro x hx
        have hagrees : ∀ y, (x.relabel ρ).agrees (y.relabel ρ) = x.agrees y := by
          intro y
          cases x with
          | pair k v =>
            cases y with
            | pair k' w => exact ih v (value_mem_children hx) w
            | bare k' => rfl
          | bare k => cases y <;> rfl
        rw [Entry.looseEq_eq_any, Entry.looseEq_eq_any, Entry.relabel_name, findEntry_relabel, Option.any_map]
        congr 1
        funext y
        exact hagrees y
      simp only [Element.relabel, relabelEntries_eq_map, looseEq_json, List.length_map, List.all_map]
      congr 1
      rw [Bool.eq_iff_iff, List.all_eq_true, List.all_eq_true]
      exact forall₂_congr fun x hx => by rw [Function.comp_apply, hentry x hx]
    · rw [Decidable.not_and_iff_or_not] at hkind
      rw [looseEq_text hkind, looseEq_text (by simpa using hkind), Element.relabel_stringValue,
        Element.relabel_stringValue]

theorem looseEq_congr (ha : a.erase = a'.erase) (hb : b.erase = b'.erase) : a.looseEq b = a'.looseEq b' := by
  calc a.looseEq b = a.erase.looseEq b.erase := (relabel_looseEq a b).symm
    _ = a'.erase.looseEq b'.erase := by rw [ha, hb]
    _ = a'.looseEq b' := relabel_looseEq a' b'

end Relabelling

/-! ## Well-keyed elements -/

mutual

/-- Whether no dictionary repeats a key: neither the element nor any dictionary that is reached from it through the
values of dictionaries. -/
def Element.wellKeyed : Element → Bool
  | .json _ entries => decide (entries.map Entry.name).Nodup && allWellKeyed entries
  | _ => true

/-- Whether no dictionary repeats a key in the value of an entry. -/
def Entry.wellKeyed : Entry → Bool
  | .pair _ v => v.wellKeyed
  | .bare _ => true

/-- Whether no dictionary repeats a key in the values of several entries. -/
def allWellKeyed : List Entry → Bool
  | [] => true
  | p :: ps => p.wellKeyed && allWellKeyed ps

end

theorem allWellKeyed_eq_all (ps : List Entry) : allWellKeyed ps = ps.all Entry.wellKeyed := by
  induction ps with
  | nil => rfl
  | cons p ps ih => rw [allWellKeyed, ih, List.all_cons]

section WellKeyed

variable {a b : Element} {i j : Info} {xs ys : List Entry}

theorem wellKeyed_json_iff :
    (Element.json i xs).wellKeyed = true ↔ (xs.map Entry.name).Nodup ∧ ∀ x ∈ xs, x.wellKeyed = true := by
  rw [Element.wellKeyed, Bool.and_eq_true, decide_eq_true_iff, allWellKeyed_eq_all, List.all_eq_true]

/-- **A well-keyed element is equal to itself.** -/
theorem looseEq_self (a : Element) : a.wellKeyed = true → a.looseEq a = true := by
  induction a using Element.byChildren with
  | h a ih =>
    intro ha
    by_cases hkind : a.kind = .json
    · obtain ⟨i, xs, rfl⟩ := exists_json hkind
      obtain ⟨hnodup, hvalues⟩ := wellKeyed_json_iff.mp ha
      refine (looseEq_json_iff hnodup).mpr ⟨rfl, fun x hx => ⟨x, hx, rfl, ?_⟩⟩
      cases x with
      | pair k v => exact ih v (value_mem_children hx) (hvalues _ hx)
      | bare k => rfl
    · rw [looseEq_text (Or.inl hkind)]
      exact beq_self_eq_true _

/-- **Equal dictionaries that repeat no key have the same keys.** -/
theorem names_perm_of_looseEq (hxs : (xs.map Entry.name).Nodup) (hys : (ys.map Entry.name).Nodup)
    (h : (Element.json i xs).looseEq (.json j ys) = true) : (xs.map Entry.name).Perm (ys.map Entry.name) := by
  obtain ⟨hlength, hfound⟩ := (looseEq_json_iff hys).mp h
  have hsubset : xs.map Entry.name ⊆ ys.map Entry.name := by
    intro name hname
    obtain ⟨x, hx, rfl⟩ := List.mem_map.mp hname
    obtain ⟨y, hy, hsame, -⟩ := hfound x hx
    exact List.mem_map.mpr ⟨y, hy, hsame⟩
  refine (hxs.subperm hsubset).perm_of_length_le ?_
  rw [List.length_map, List.length_map]
  exact Nat.le_of_eq hlength.symm

/-- What is equal from one side is equal from the other. -/
theorem looseEq_symm (a : Element) : ∀ {b : Element}, a.wellKeyed = true → b.wellKeyed = true →
    a.looseEq b = true → b.looseEq a = true := by
  induction a using Element.byChildren with
  | h a ih =>
    intro b ha hb h
    by_cases hkind : a.kind = .json ∧ b.kind = .json
    · obtain ⟨⟨i, xs, rfl⟩, ⟨j, ys, rfl⟩⟩ := And.imp exists_json exists_json hkind
      obtain ⟨hxs, hvalues⟩ := wellKeyed_json_iff.mp ha
      obtain ⟨hys, hvalues'⟩ := wellKeyed_json_iff.mp hb
      have hnames := names_perm_of_looseEq hxs hys h
      obtain ⟨hlength, hfound⟩ := (looseEq_json_iff hys).mp h
      refine (looseEq_json_iff hxs).mpr ⟨hlength.symm, fun y hy => ?_⟩
      -- the entry that is found for `x` is `y`, since no other entry has its name
      obtain ⟨x, hx, hname⟩ := List.mem_map.mp (hnames.mem_iff.mpr (List.mem_map_of_mem hy))
      obtain ⟨y', hy', hname', hagrees⟩ := hfound x hx
      obtain rfl := List.inj_on_of_nodup_map hys hy' hy (hname'.trans hname)
      refine ⟨x, hx, hname, ?_⟩
      cases x with
      | pair k v =>
        cases y' with
        | pair k' w => exact ih v (value_mem_children hx) (hvalues _ hx) (hvalues' _ hy) hagrees
        | bare k' => cases hagrees
      | bare k =>
        cases y' with
        | pair k' w => cases hagrees
        | bare k' => rfl
    · rw [Decidable.not_and_iff_or_not] at hkind
      rw [looseEq_text hkind] at h
      rw [looseEq_text hkind.symm, beq_iff_eq.mp h]
      exact beq_self_eq_true _

/-- **Equality of well-keyed elements holds from both sides.** -/
theorem looseEq_comm (ha : a.wellKeyed = true) (hb : b.wellKeyed = true) : a.looseEq b = b.looseEq a := by
  rw [Bool.eq_iff_iff]
  exact ⟨looseEq_symm a ha hb, looseEq_symm b hb ha⟩

end WellKeyed

/-! ## Other orders -/

/-- Under every key that two dictionaries share, both values are dictionaries or neither is, and so on below them. -/
inductive Matches : Element → Element → Prop where
  | json {i j : Info} {xs ys : List Entry}
      (h : ∀ k v k' w, .pair k v ∈ xs → .pair k' w ∈ ys → k.stringValue = k'.stringValue → Matches v w) :
      Matches (.json i xs) (.json j ys)
  | other {a b : Element} (ha : a.kind ≠ .json) (hb : b.kind ≠ .json) : Matches a b

/-- The entries of one dictionary come in another order: of the element itself, or of one that is reached from it
through the values of dictionaries. -/
inductive Reorders : Element → Element → Prop where
  | here {i : Info} {xs ys : List Entry} (h : xs.Perm ys) : Reorders (.json i xs) (.json i ys)
  | inside {i : Info} {k v w : Element} {before after : List Entry} (h : Reorders v w) :
      Reorders (.json i (before ++ .pair k v :: after)) (.json i (before ++ .pair k w :: after))

/-- Dictionaries at any number of places come in another order. -/
abbrev Reordered : Element → Element → Prop := Relation.ReflTransGen Reorders

section Orders

variable {a a' b b' : Element}

theorem Matches.symm (h : Matches a b) : Matches b a := by
  induction h with
  | json _ ih => exact .json fun k v k' w hv hw hname => ih k' w k v hw hv hname.symm
  | other ha hb => exact .other hb ha

/-- The values under one key match. -/
theorem Matches.value {i j : Info} {xs ys : List Entry} {k v k' w : Element} (h : Matches (.json i xs) (.json j ys))
    (hv : .pair k v ∈ xs) (hw : .pair k' w ∈ ys) (hname : k.stringValue = k'.stringValue) : Matches v w := by
  cases h with
  | json h => exact h k v k' w hv hw hname
  | other ha hb => exact absurd rfl ha

theorem Matches.exists_json {i : Info} {xs : List Entry} (h : Matches (.json i xs) b) : ∃ j ys, b = .json j ys := by
  cases h with
  | json h => exact ⟨_, _, rfl⟩
  | other ha hb => exact absurd rfl ha

/-- What matches still matches after a step. -/
theorem Reorders.matches (hr : Reorders a a') : ∀ {b : Element}, Matches a b → Matches a' b := by
  induction hr with
  | here hperm =>
    intro b h
    obtain ⟨j, ys, rfl⟩ := h.exists_json
    exact .json fun k v k' w hv hw hname => h.value (hperm.mem_iff.mpr hv) hw hname
  | @inside i k v v' before after hr ih =>
    intro b h
    obtain ⟨j, ys, rfl⟩ := h.exists_json
    have hkept : ∀ p, p ∈ before ++ .pair k v' :: after → p ∈ before ++ .pair k v :: after ∨ p = .pair k v' := by
      intro p hp
      rw [List.mem_append, List.mem_cons] at hp ⊢
      tauto
    refine .json fun k₁ v₁ k₂ w hv hw hname => ?_
    rcases hkept _ hv with hv | heq
    · exact h.value hv hw hname
    · cases heq
      exact ih (h.value List.mem_append_cons_self hw hname)

/-- **A step on the left side changes nothing.** -/
theorem Reorders.looseEq_left (hr : Reorders a a') : ∀ {b : Element}, Matches a b → a'.looseEq b = a.looseEq b := by
  induction hr with
  | @here i xs xs' hperm =>
    intro b h
    obtain ⟨j, ys, rfl⟩ := h.exists_json
    rw [looseEq_json, looseEq_json, hperm.length_eq, hperm.all_eq]
  | @inside i k v v' before after hr ih =>
    intro b h
    obtain ⟨j, ys, rfl⟩ := h.exists_json
    have hentry : (Entry.pair k v').looseEq ys = (Entry.pair k v).looseEq ys := by
      rw [Entry.looseEq_eq_any, Entry.looseEq_eq_any, Entry.name, Entry.name, Entry.key, Entry.key]
      cases hfind : findEntry k.stringValue ys with
      | none => rfl
      | some y =>
        obtain ⟨hy, hname⟩ := mem_of_findEntry hfind
        cases y with
        | pair k' w => exact ih (h.value List.mem_append_cons_self hy hname.symm)
        | bare k' => rfl
    rw [looseEq_json, looseEq_json, List.all_append, List.all_append, List.all_cons, List.all_cons, hentry,
      List.length_append, List.length_append, List.length_cons, List.length_cons]

/-- A step repeats no key. -/
theorem Reorders.wellKeyed (hr : Reorders a a') : a'.wellKeyed = a.wellKeyed := by
  induction hr with
  | here hperm =>
    rw [Element.wellKeyed, Element.wellKeyed, allWellKeyed_eq_all, allWellKeyed_eq_all, hperm.all_eq]
    simp only [(hperm.map Entry.name).nodup_iff]
  | @inside i k v v' before after hr ih =>
    simp [Element.wellKeyed, allWellKeyed_eq_all, Entry.wellKeyed, Entry.name, Entry.key, ih]

/-- **A run on the left side changes nothing.** -/
theorem Reordered.looseEq_left (hr : Reordered a a') (h : Matches a b) :
    Matches a' b ∧ a'.looseEq b = a.looseEq b := by
  induction hr with
  | refl => exact ⟨h, rfl⟩
  | tail _ hstep ih => exact ⟨hstep.matches ih.1, (hstep.looseEq_left ih.1).trans ih.2⟩

theorem Reordered.wellKeyed (hr : Reordered a a') : a'.wellKeyed = a.wellKeyed := by
  induction hr with
  | refl => rfl
  | tail _ hstep ih => exact hstep.wellKeyed.trans ih

/-- **The order of entries does not matter.** Let no dictionary in two elements repeat a key, and under the keys that
two dictionaries share let both values be dictionaries or neither. Then the elements are equal if and only if they are
with their dictionaries in any other order, at any number of places. -/
theorem looseEq_reordered (ha : a.wellKeyed = true) (hb : b.wellKeyed = true) (h : Matches a b)
    (hra : Reordered a a') (hrb : Reordered b b') : a'.looseEq b' = a.looseEq b := by
  obtain ⟨hmatches, hleft⟩ := hra.looseEq_left h
  have ha' : a'.wellKeyed = true := hra.wellKeyed.trans ha
  have hb' : b'.wellKeyed = true := hrb.wellKeyed.trans hb
  calc a'.looseEq b' = b'.looseEq a' := looseEq_comm ha' hb'
    _ = b.looseEq a' := (hrb.looseEq_left hmatches.symm).2
    _ = a'.looseEq b := looseEq_comm hb ha'
    _ = a.looseEq b := hleft

end Orders

/-- An entry with a number. -/
def numberEntry (name digits : String) : Entry :=
  .pair (.leaf default (.string name '"')) (.leaf default (.number digits false false))

/-- A dictionary in a dictionary, each of them in one of two orders. -/
def nestedDictionary (inner outer : Bool) : Element :=
  let pair := [numberEntry "a" "1", numberEntry "b" "2"]
  let nested : Entry := .pair (.leaf default (.string "x" '"')) (.json default (if inner then pair.reverse else pair))
  let entries := [nested, numberEntry "y" "3"]
  .json default (if outer then entries.reverse else entries)

theorem looseEq_reordered_nested :
    (nestedDictionary false false).wellKeyed = true ∧ (nestedDictionary true false).wellKeyed = true ∧
      Matches (nestedDictionary false false) (nestedDictionary true false) ∧
      Reordered (nestedDictionary false false) (nestedDictionary true true) ∧
      Reordered (nestedDictionary true false) (nestedDictionary false false) ∧
      (nestedDictionary true true).looseEq (nestedDictionary false false) =
        (nestedDictionary false false).looseEq (nestedDictionary true false) := by
  have ha : (nestedDictionary false false).wellKeyed = true := by decide
  have hb : (nestedDictionary true false).wellKeyed = true := by decide
  have hmatches : Matches (nestedDictionary false false) (nestedDictionary true false) := by
    refine .json fun k v k' w hv hw hname => ?_
    simp only [numberEntry, Bool.false_eq_true, if_false, if_true, List.mem_cons, Entry.pair.injEq, List.not_mem_nil,
      or_false] at hv hw
    rcases hv with ⟨rfl, rfl⟩ | ⟨rfl, rfl⟩
    · rcases hw with ⟨rfl, rfl⟩ | ⟨rfl, rfl⟩
      · refine .json fun k v k' w hv hw _ => .other ?_ ?_
        · simp only [List.mem_cons, Entry.pair.injEq, List.not_mem_nil, or_false] at hv
          rcases hv with ⟨-, rfl⟩ | ⟨-, rfl⟩ <;> decide
        · simp only [List.mem_reverse, List.mem_cons, Entry.pair.injEq, List.not_mem_nil, or_false] at hw
          rcases hw with ⟨-, rfl⟩ | ⟨-, rfl⟩ <;> decide
      · exact absurd hname (by decide)
    · rcases hw with ⟨rfl, rfl⟩ | ⟨rfl, rfl⟩
      · exact absurd hname (by decide)
      · exact .other (by decide) (by decide)
  have hinner : Reorders (nestedDictionary false false) (nestedDictionary true false) :=
    @Reorders.inside _ _ _ _ [] _ (.here (.swap _ _ _))
  have hinner' : Reorders (nestedDictionary true false) (nestedDictionary false false) :=
    @Reorders.inside _ _ _ _ [] _ (.here (.swap _ _ _))
  have houter : Reorders (nestedDictionary true false) (nestedDictionary true true) := .here (.swap _ _ _)
  have hra : Reordered (nestedDictionary false false) (nestedDictionary true true) := .head hinner (.single houter)
  have hrb : Reordered (nestedDictionary true false) (nestedDictionary false false) := .single hinner'
  exact ⟨ha, hb, hmatches, hra, hrb, looseEq_reordered ha hb hmatches hra hrb⟩

end UiScript
