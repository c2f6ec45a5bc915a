import UiScript.Proofs.Element.Shape
import UiScript.Proofs.Reading.Progress

/-!
# How deep a tree can be read

No more containers stand inside each other than there are levels, blocks and what they hold included. A reader is
shallow (`Shallow`) if this holds of all that it reads; each form is shallow if the reader of its parts is, and a
container adds one level (`container_shallow`). By induction on the levels, an operand is as deep as the levels that
are left (`operand_shallow`), so that no text gives a deeper tree (`parse_depth`, `script_depth`).
-/

namespace UiScript

/-! ## Depths of lists -/

section Bounds

variable {n : Nat}

theorem depthOf_le_iff {es : List Element} : depthOf es ≤ n ↔ ∀ e ∈ es, e.depth ≤ n := by
  induction es with
  | nil => simp [depthOf]
  | cons e es ih => rw [depthOf, Nat.max_le, ih, List.forall_mem_cons]

theorem entryDepth_le_iff {ps : List Entry} : entryDepth ps ≤ n ↔ ∀ p ∈ ps, p.depth ≤ n := by
  induction ps with
  | nil => simp [entryDepth]
  | cons p ps ih => rw [entryDepth, Nat.max_le, ih, List.forall_mem_cons]

theorem commandDepth_le_iff {cs : List Command} : commandDepth cs ≤ n ↔ ∀ c ∈ cs, c.depth ≤ n := by
  induction cs with
  | nil => simp [commandDepth]
  | cons c cs ih => rw [commandDepth, Nat.max_le, ih, List.forall_mem_cons]

@[simp] theorem Element.depth_noting (e : Element) (p : Option Problem) : (e.noting p).depth = e.depth := by
  cases e <;> rfl

end Bounds

namespace Reading

/-- In all that is read, at most `n` containers stand inside each other. -/
def Shallow (n : Nat) (read : Cursor → Element × Cursor) : Prop := ∀ c, (read c).1.depth ≤ n

section Parts

variable {n : Nat} {read : Cursor → Element × Cursor}

theorem leaf_depth (s : Source) (c : Cursor) : (leaf s c).1.depth = 0 := by
  obtain ⟨i, l, heq⟩ := leaf_eq s c
  rw [heq, Element.depth]

/-! ## Chains and lists -/

theorem chainTail_depth (h : Shallow n read) (multiline : Bool) (c : Cursor) :
    ∀ e ∈ (chainTail multiline read c).parts, e.depth ≤ n := by
  fun_induction chainTail multiline read c with
  | case1 c _ => simp
  | case2 c t ts _ op _ sign doubled ahead _ _ right after hright _ tail ih =>
    have hfirst := h ahead
    rw [hright] at hfirst
    exact List.forall_mem_cons.mpr ⟨Nat.zero_le n, List.forall_mem_cons.mpr ⟨hfirst, ih⟩⟩
  | case3 c t ts _ op _ sign doubled ahead _ _ right after hright _ =>
    have hfirst := h ahead
    rw [hright] at hfirst
    exact List.forall_mem_cons.mpr ⟨Nat.zero_le n, List.forall_mem_singleton.mpr hfirst⟩
  | case4 c t ts _ op _ sign doubled ahead _ _ => exact List.forall_mem_singleton.mpr (Nat.zero_le n)
  | case5 c t ts _ _ => simp

/-- An expression is no container. -/
theorem chain_shallow (s : Source) (multiline : Bool) (h : Shallow n read) : Shallow n (chain s multiline read) := by
  intro c
  unfold chain
  dsimp only
  split
  · exact h c
  · rw [Element.depth, depthOf_le_iff]
    exact List.forall_mem_cons.mpr ⟨h c, chainTail_depth h multiline _⟩

/-- The items of a list are what is read as items. -/
theorem listing_items {α : Type} (Q : α → Prop) (s : Source) (g : Group) (item : Cursor → Item α)
    (h : ∀ c, Q (item c).value) (awaiting : Bool) (c : Cursor) : ∀ a ∈ (listing s g item awaiting c).items, Q a := by
  fun_induction listing s g item awaiting c with
  | case1 => simp
  | case2 => simp
  | case3 _ _ _ _ _ _ _ _ _ ih => exact ih
  | case4 _ _ _ _ _ _ _ _ _ _ ih => exact ih
  | case5 _ _ _ _ _ ahead _ _ _ _ read problem _ ih => exact List.forall_mem_cons.mpr ⟨h ahead, ih⟩
  | case6 _ _ _ _ _ ahead _ _ _ _ read problem _ => exact List.forall_mem_singleton.mpr (h ahead)

theorem entry_depth (h : Shallow n read) (c : Cursor) : (entry read c).value.depth ≤ n := by
  have hkey : ((read c).1.noting (keyProblem? (read c).1)).depth ≤ n := by
    rw [Element.depth_noting]
    exact h c
  unfold entry
  dsimp only
  split
  · exact hkey
  · split
    · split
      · exact hkey
      · exact hkey
      · exact hkey
      · exact Nat.max_le.mpr ⟨hkey, h _⟩
    · exact hkey

/-! ## Commands -/

theorem command_depth (catalog : Catalog) (s : Source) (h : Shallow n read) (t : Token) (c : Cursor) :
    (command catalog s read t c).1.depth ≤ n := by
  have hargument : ∀ c, ∀ a ∈ (argument read c).1, a.depth ≤ n := by
    intro c
    unfold argument
    split
    · simp
    · simp
    · rintro a ⟨⟩
      exact h _
  unfold command
  split
  · split
    · exact Nat.zero_le n
    · rename_i u us _
      split
      · dsimp only
        split
        · cases harg : (argument read (c.skipComments.past u us)).1 with
          | none => exact Nat.zero_le n
          | some a => exact hargument _ a harg
        · exact Nat.zero_le n
      · exact Nat.zero_le n
  · exact Nat.zero_le n

theorem commands_depth (catalog : Catalog) (s : Source) (h : Shallow n read) (ha : Advances read) (c : Cursor) :
    ∀ k ∈ commands catalog s read c, k.depth ≤ n := by
  induction hn : c.rest.length using Nat.strongRecOn generalizing c with
  | ind m ih =>
    cases hrest : c.skipBlank.rest with
    | nil => simp [commands_nil hrest]
    | cons t ts =>
      rw [commands_cons ha hrest]
      refine List.forall_mem_cons.mpr ⟨command_depth catalog s h t _, ?_⟩
      split
      · simp
      · exact ih _ (hn ▸ command_lt ha hrest) _ rfl

end Parts

/-! ## Containers -/

section Containers

variable {catalog : Catalog} {n : Nat}

theorem block_shallow (s : Source) (h : ∀ inner, Shallow n (operand catalog n inner false)) (t : Token) :
    Shallow (n + 1) (container catalog n s .block t) := by
  intro c
  show (block catalog s (fun inner => chain inner false (operand catalog n inner false)) t c).1.depth ≤ n + 1
  cases hrest : c.skipBlank.rest with
  | nil =>
    rw [block_nil hrest]
    exact Nat.zero_le _
  | cons brace ts =>
    obtain ⟨i, -, heq⟩ := block_inside hrest
    rw [heq, Element.depth]
    refine Nat.succ_le_succ (commandDepth_le_iff.mpr ?_)
    have ha := fun inner => chain_reaches inner false (operand_reaches catalog n inner false)
    exact commands_depth catalog _ (chain_shallow _ false (h _)) (ha _) _

/-- **A container takes one level more than its parts.** -/
theorem container_shallow (s : Source) (h : ∀ inner multiline, Shallow n (operand catalog n inner multiline))
    (g : Group) (t : Token) : Shallow (n + 1) (container catalog n s g t) := by
  have hparts := chain_shallow s true (h s true)
  cases g with
  | block => exact block_shallow s (fun inner => h inner false) t
  | json =>
    intro c
    have hentries := listing_items (Entry.depth · ≤ n) s .json (entry _) (entry_depth hparts) true c
    exact Nat.succ_le_succ (entryDepth_le_iff.mpr hentries)
  | tuple =>
    intro c
    have hitems := listing_items (Element.depth · ≤ n) s .tuple (elementItem _) hparts true c
    exact Nat.succ_le_succ (depthOf_le_iff.mpr hitems)
  | array =>
    intro c
    have hitems := listing_items (Element.depth · ≤ n) s .array (elementItem _) hparts true c
    exact Nat.succ_le_succ (depthOf_le_iff.mpr hitems)

/-- **An operand is no deeper than the levels that are left.** -/
theorem operand_shallow (catalog : Catalog) (n : Nat) :
    ∀ (s : Source) (multiline : Bool), Shallow n (operand catalog n s multiline) := by
  induction n with
  | zero =>
    intro s multiline c
    rcases operand_cases catalog 0 s multiline c with ⟨-, h⟩ | ⟨-, h⟩ | ⟨_, _, _, _, hlevels, -⟩
    · exact Nat.le_of_eq (h ▸ leaf_depth s _)
    · rw [h]
      exact Nat.le_refl 0
    · cases hlevels
  | succ n ih =>
    intro s multiline c
    rcases operand_cases catalog (n + 1) s multiline c with ⟨-, h⟩ | ⟨hlevels, -⟩ | ⟨below, g, t, ts, hlevels, -, -, h⟩
    · rw [h, leaf_depth]
      exact Nat.zero_le _
    · cases hlevels
    · cases hlevels
      rw [h]
      exact container_shallow s ih g t _

theorem element_shallow (catalog : Catalog) (multiline : Bool) (s : Source) :
    Shallow maxNesting (element catalog multiline s) :=
  chain_shallow s multiline (operand_shallow catalog maxNesting s multiline)

end Containers

end Reading

/-! ## Texts -/

open Reading

/-- **No text gives an element that is deeper than there are levels.** -/
theorem parse_depth (text : String) : (Element.parse text).depth ≤ maxNesting := by
  simp only [Element.parse]
  split
  · split
    · exact Nat.zero_le _
    · exact element_shallow .any true _ _
  · rw [Element.depth_noting]
    split
    · exact Nat.zero_le _
    · exact element_shallow .any true _ _

/-- **No script has a command that is deeper than there are levels.** -/
theorem script_depth (catalog : Catalog) (text : String) :
    ∀ c ∈ (Script.parse catalog text).commands, c.depth ≤ maxNesting :=
  commands_depth catalog _ (element_shallow catalog false _)
    (chain_reaches _ false (operand_reaches catalog maxNesting _ false)) _

end UiScript
