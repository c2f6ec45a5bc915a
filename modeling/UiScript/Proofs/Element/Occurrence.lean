import UiScript.Element.Tree

/-!
# What occurs in a tree

An element occurs in itself, in the elements that it is a part of and, if blocks are opened too, in the commands of
blocks (`Occurs`). A property of trees that is given part by part is one that every occurrence has (`Element.Every`);
a tree without mistakes, variables or open expressions has only such occurrences. Trees are proved about by their
parts (`Element.byChildren`), and commands by the commands in their blocks (`Command.byBlocks`, `Command.Within`).
-/

namespace UiScript

/-- The element occurs in the tree; in the blocks of the tree as well, if `deep` says so. -/
inductive Occurs (deep : Bool) : Element → Element → Prop where
  | self (e : Element) : Occurs deep e e
  | part {x c e : Element} (hc : c ∈ e.children) (h : Occurs deep x c) : Occurs deep x e
  | command {x a : Element} {c : Command} {i : Info} {commands : List Command} {text : String} (hdeep : deep = true)
      (hc : c ∈ commands) (ha : c.argument? = some a) (h : Occurs deep x a) : Occurs deep x (.block i commands text)

/-- All that occurs in the tree has the property. -/
def Element.Every (deep : Bool) (P : Element → Prop) (e : Element) : Prop := ∀ x, Occurs deep x e → P x

section Every

variable {deep : Bool} {P Q : Element → Prop} {e c x : Element}

theorem Occurs.trans (h : Occurs deep x c) (h' : Occurs deep c e) : Occurs deep x e := by
  induction h' with
  | self => exact h
  | part hc _ ih => exact .part hc ih
  | command hdeep hc ha _ ih => exact .command hdeep hc ha ih

/-- What passes from a tree to its parts passes to all that occurs outside blocks. -/
theorem Occurs.keeps (hP : ∀ {e c : Element}, c ∈ e.children → P e → P c) (h : Occurs false x e) (he : P e) : P x := by
  induction h with
  | self => exact he
  | part hc _ ih => exact ih (hP hc he)
  | command hdeep _ _ _ _ => cases hdeep

/-- What occurs outside blocks occurs. -/
theorem Occurs.deepen (h : Occurs false x e) : Occurs deep x e := by
  induction h with
  | self => exact .self x
  | part hc _ ih => exact .part hc ih
  | command hdeep _ _ _ _ => cases hdeep

theorem Element.Every.here (h : e.Every deep P) : P e := h e (.self e)

theorem Element.Every.of_occurs (h : e.Every deep P) (hx : Occurs deep x e) : x.Every deep P :=
  fun y hy => h y (hy.trans hx)

theorem Element.Every.child (h : e.Every deep P) (hc : c ∈ e.children) : c.Every deep P :=
  h.of_occurs (.part hc (.self c))

theorem Element.Every.mono (h : e.Every deep P) (hPQ : ∀ x, P x → Q x) : e.Every deep Q := fun x hx => hPQ x (h x hx)

theorem Element.Every.shallow (h : e.Every deep P) : e.Every false P := fun x hx => h x hx.deepen

/-- A property of a tree and of its parts, where no block is opened. -/
theorem Element.every_of_children (h : P e) (hparts : ∀ c ∈ e.children, c.Every deep P)
    (hblock : e.kind = .block → deep = false) : e.Every deep P := by
  intro x hx
  cases hx with
  | self => exact h
  | part hc hx => exact hparts _ hc x hx
  | command hdeep _ _ _ =>
    rw [hblock rfl] at hdeep
    cases hdeep

theorem Leaf.kind_ne_block (l : Leaf) : l.kind ≠ .block := by
  cases l <;> exact Kind.noConfusion

theorem Element.exists_of_kind_block (h : e.kind = .block) : ∃ i commands text, e = .block i commands text := by
  cases e with
  | block i commands text => exact ⟨i, commands, text, rfl⟩
  | leaf i l => exact absurd h l.kind_ne_block
  | _ => cases h

theorem Element.every_leaf {i : Info} {l : Leaf} (h : P (.leaf i l)) : (Element.leaf i l).Every deep P := by
  apply Element.every_of_children h
  · intro c hc
    cases hc
  · exact fun hk => absurd hk l.kind_ne_block

/-- A property of a block and of the arguments of its commands. -/
theorem Element.every_block {i : Info} {commands : List Command} {text : String} (h : P (.block i commands text))
    (hcommands : ∀ c ∈ commands, ∀ a, c.argument? = some a → a.Every deep P) :
    (Element.block i commands text).Every deep P := by
  intro x hx
  cases hx with
  | self => exact h
  | part hc _ => cases hc
  | command _ hc ha hx => exact hcommands _ hc _ ha x hx

@[simp] theorem Element.children_noting (e : Element) (p : Option Problem) : (e.noting p).children = e.children := by
  cases e <;> rfl

@[simp] theorem Element.kind_noting (e : Element) (p : Option Problem) : (e.noting p).kind = e.kind := by
  cases e <;> rfl

@[simp] theorem Element.problem_noting (e : Element) (p : Option Problem) :
    (e.noting p).problem = Problem.note e.problem p := by
  cases e <;> rfl

@[simp] theorem Element.children_withInfo (e : Element) (i : Info) : (e.withInfo i).children = e.children := by
  cases e <;> rfl

/-- Another place or problem is seen on the tree alone. -/
theorem Element.Every.withInfo (h : e.Every deep P) {i : Info} (hP : P (e.withInfo i)) :
    (e.withInfo i).Every deep P := by
  intro x hx
  generalize he : e.withInfo i = e' at hx
  cases hx with
  | self => exact he ▸ hP
  | part hc hx =>
    rw [← he, Element.children_withInfo] at hc
    exact h x (.part hc hx)
  | command hdeep hc ha hx =>
    cases e with
    | block i commands text =>
      cases he
      exact h x (.command hdeep hc ha hx)
    | _ => cases he

/-- A problem noted on a tree is seen on the tree alone. -/
theorem Element.Every.noting (h : e.Every deep P) {p : Option Problem} (hP : P (e.noting p)) :
    (e.noting p).Every deep P := h.withInfo hP

theorem Element.Every.of_noting {p : Option Problem} (h : (e.noting p).Every deep P) (hP : P e) : e.Every deep P := by
  have he : (e.noting p).withInfo e.info = e := by
    cases e <;> rfl
  have hall := h.withInfo (i := e.info) (by rw [he]; exact hP)
  rwa [he] at hall

end Every

/-! ## Parts -/

section Parts

variable {e c : Element}

theorem mem_children_json {i : Info} {entries : List Entry} {p : Entry} (hp : p ∈ entries) (hc : c ∈ p.parts) :
    c ∈ (Element.json i entries).children := List.mem_flatMap.mpr ⟨p, hp, hc⟩

theorem Entry.sizeOf_lt_of_mem {p : Entry} (h : c ∈ p.parts) : sizeOf c < sizeOf p := by
  cases p with
  | pair k v =>
    simp only [Entry.parts, List.mem_cons, List.not_mem_nil, or_false] at h
    rw [Entry.pair.sizeOf_spec]
    rcases h with rfl | rfl
    · omega
    · omega
  | bare k =>
    simp only [Entry.parts, List.mem_cons, List.not_mem_nil, or_false] at h
    subst h
    simp

theorem Element.sizeOf_lt_of_mem (h : c ∈ e.children) : sizeOf c < sizeOf e := by
  have hlist : ∀ items : List Element, c ∈ items → sizeOf c < sizeOf items := fun _ hc => List.sizeOf_lt_of_mem hc
  cases e with
  | leaf i l => cases h
  | tuple i items trailing => have := hlist items h; simp; omega
  | array i items => have := hlist items h; simp; omega
  | json i entries =>
    obtain ⟨p, hp, hc⟩ := List.mem_flatMap.mp h
    have h₁ := Entry.sizeOf_lt_of_mem hc
    have h₂ := List.sizeOf_lt_of_mem hp
    simp
    omega
  | expression i parts resolved => have := hlist parts h; simp; omega
  | block i commands text => cases h

/-- What holds of a tree whenever it holds of its parts holds of every tree. -/
theorem Element.byChildren {motive : Element → Prop} (h : ∀ e, (∀ c ∈ e.children, motive c) → motive e) (e : Element) :
    motive e :=
  h e fun c hc =>
    have := Element.sizeOf_lt_of_mem hc
    Element.byChildren h c
termination_by sizeOf e

/-- To ask the entries is to ask their parts. -/
theorem any_parts {p : Element → Bool} {q : Entry → Bool} (h : ∀ entry, q entry = entry.parts.any p)
    (entries : List Entry) : entries.any q = (entries.flatMap Entry.parts).any p := by
  rw [List.any_flatMap]
  congr 1
  funext entry
  exact h entry

/-- A tree other than a block has no mistake if it has none of its own and its parts have none. -/
theorem Element.hasErrors_eq_false_iff (hblock : e.kind ≠ .block) :
    e.hasErrors = false ↔ e.problem = none ∧ ∀ c ∈ e.children, c.hasErrors = false := by
  cases e with
  | json i entries =>
    have hentry : ∀ p : Entry, p.hasErrors = p.parts.any Element.hasErrors := by
      intro p
      cases p <;> simp [Entry.hasErrors, Entry.parts]
    rw [Element.hasErrors, anyEntryErrors_eq_any, any_parts hentry, Bool.or_eq_false_iff, List.any_eq_false]
    simp [Element.problem, Element.info, Element.children]
  | block i commands text => exact absurd rfl hblock
  | _ => simp [Element.hasErrors, Element.problem, Element.info, Element.children]

/-- A tree has no variable if it is none and its parts have none. -/
theorem Element.hasVariable_eq_false_iff :
    e.hasVariable = false ↔ e.kind ≠ .reference ∧ ∀ c ∈ e.children, c.hasVariable = false := by
  cases e with
  | leaf i l => cases l <;> simp [Element.hasVariable, Element.kind, Leaf.kind, Element.children]
  | json i entries =>
    have hentry : ∀ p : Entry, p.hasVariable = p.parts.any Element.hasVariable := by
      intro p
      cases p <;> simp [Entry.hasVariable, Entry.parts]
    rw [Element.hasVariable, anyEntryVariable_eq_any, any_parts hentry, List.any_eq_false]
    simp [Element.kind, Element.children]
  | _ => simp [Element.hasVariable, Element.kind, Element.children]

/-- A tree has no open expression if it is none and its parts have none. -/
theorem Element.hasUnresolved_eq_false_iff :
    e.hasUnresolved = false ↔
      (∀ i parts, e ≠ .expression i parts none) ∧ ∀ c ∈ e.children, c.hasUnresolved = false := by
  cases e with
  | json i entries =>
    have hentry : ∀ p : Entry, p.hasUnresolved = p.parts.any Element.hasUnresolved := by
      intro p
      cases p <;> simp [Entry.hasUnresolved, Entry.parts]
    rw [Element.hasUnresolved, anyEntryUnresolved_eq_any, any_parts hentry, List.any_eq_false]
    simp [Element.children]
  | expression i parts resolved => cases resolved <;> simp [Element.hasUnresolved, Element.children]
  | _ => simp [Element.hasUnresolved, Element.children]

theorem Element.problem_eq_none (h : e.hasErrors = false) : e.problem = none := by
  by_cases hblock : e.kind = .block
  · obtain ⟨i, commands, text, rfl⟩ := Element.exists_of_kind_block hblock
    rw [Element.hasErrors, Bool.or_eq_false_iff] at h
    exact Option.isNone_iff_eq_none.mp (Option.isSome_eq_false_iff.mp h.1)
  · exact ((Element.hasErrors_eq_false_iff hblock).mp h).1

theorem Element.kind_ne_block (hc : c ∈ e.children) : e.kind ≠ .block := by
  intro hblock
  cases e with
  | leaf i l => cases hc
  | block i commands text => cases hc
  | _ => cases hblock

theorem Element.hasErrors_child (hc : c ∈ e.children) (h : e.hasErrors = false) : c.hasErrors = false :=
  ((Element.hasErrors_eq_false_iff (Element.kind_ne_block hc)).mp h).2 c hc

theorem Element.hasVariable_child (hc : c ∈ e.children) (h : e.hasVariable = false) : c.hasVariable = false :=
  (Element.hasVariable_eq_false_iff.mp h).2 c hc

theorem Element.hasUnresolved_child (hc : c ∈ e.children) (h : e.hasUnresolved = false) : c.hasUnresolved = false :=
  (Element.hasUnresolved_eq_false_iff.mp h).2 c hc

theorem Command.hasErrors_argument {k : Command} {a : Element} (ha : k.argument? = some a) (h : k.hasErrors = false) :
    a.hasErrors = false := by
  cases k with
  | bare head => cases ha
  | given head b =>
    cases ha
    rw [Command.hasErrors, Bool.or_eq_false_iff] at h
    exact h.2

/-- Where the tree has no mistake, nothing that occurs in it has one, in blocks neither. -/
theorem Occurs.hasErrors {deep : Bool} (h : Occurs deep c e) (he : e.hasErrors = false) : c.hasErrors = false := by
  induction h with
  | self => exact he
  | part hc _ ih => exact ih (Element.hasErrors_child hc he)
  | @command a k i commands text _ hk ha _ ih =>
    apply ih
    simp only [Element.hasErrors, anyCommandErrors_eq_any, Bool.or_eq_false_iff, List.any_eq_false,
      Bool.not_eq_true] at he
    exact Command.hasErrors_argument ha (he.2 k hk)

end Parts

/-- Nothing differs from a kind if and only if all that is decided is of this kind. -/
theorem findOther_eq_none {kind : Kind} (position : Nat) (es : List Element) :
    findOther kind position es = none ↔ ∀ e ∈ es, e.isDecided = true → e.valueKind = kind := by
  induction es generalizing position with
  | nil => simp [findOther]
  | cons e es ih =>
    rw [findOther, List.forall_mem_cons, ← ih (position + 1)]
    by_cases hd : e.isDecided = true
    · by_cases hk : e.valueKind = kind <;> simp [hd, hk]
    · simp [hd]

/-- Items that are all decided are not mixed if and only if all of them are of one kind. -/
theorem mixedKinds?_eq_none_iff {items : List Element} (hdecided : ∀ a ∈ items, a.isDecided = true) :
    mixedKinds? items = none ↔ ∀ a ∈ items, ∀ b ∈ items, a.valueKind = b.valueKind := by
  cases items with
  | nil => simp [mixedKinds?]
  | cons first items =>
    rw [mixedKinds?, if_pos (hdecided first List.mem_cons_self), findOther_eq_none]
    constructor
    · intro h a ha b hb
      have hall : ∀ a ∈ first :: items, a.valueKind = first.valueKind := List.forall_mem_cons.mpr
        ⟨rfl, fun a ha => h a ha (hdecided a (List.mem_cons_of_mem _ ha))⟩
      rw [hall a ha, hall b hb]
    · exact fun h a ha _ => h a (List.mem_cons_of_mem _ ha) first List.mem_cons_self

/-! ## Commands in blocks -/

@[simp] theorem Command.head_make (head : Heading) (argument : Option Element) :
    (Command.make head argument).head = head := by
  cases argument <;> rfl

@[simp] theorem Command.argument?_make (head : Heading) (argument : Option Element) :
    (Command.make head argument).argument? = argument := by
  cases argument <;> rfl

/-- Except for a block, the outermost blocks of a tree are those of its parts. -/
theorem Element.blockCommands_eq_flatMap {e : Element} (hblock : e.kind ≠ .block) :
    e.blockCommands = e.children.flatMap Element.blockCommands := by
  cases e with
  | json i entries =>
    have hentry : ∀ p : Entry, p.blockCommands = p.parts.flatMap Element.blockCommands := by
      intro p
      cases p <;> simp [Entry.blockCommands, Entry.parts]
    rw [Element.blockCommands, entryBlockCommands_eq_flatMap, Element.children, List.flatMap_assoc]
    congr 1
    funext p
    exact hentry p
  | block i commands text => exact absurd rfl hblock
  | _ => simp [Element.blockCommands, Element.children]

/-- The commands of the outermost blocks are those of the blocks that occur outside blocks. -/
theorem Element.mem_blockCommands {k : Command} (e : Element) :
    k ∈ e.blockCommands → ∃ i commands text, Occurs false (.block i commands text) e ∧ k ∈ commands := by
  induction e using Element.byChildren with
  | h e ih =>
    intro hk
    by_cases hblock : e.kind = .block
    · obtain ⟨i, commands, text, rfl⟩ := Element.exists_of_kind_block hblock
      exact ⟨i, commands, text, .self _, hk⟩
    · rw [Element.blockCommands_eq_flatMap hblock] at hk
      obtain ⟨c, hc, hk⟩ := List.mem_flatMap.mp hk
      obtain ⟨i, commands, text, hoccurs, hk⟩ := ih c hc hk
      exact ⟨i, commands, text, .part hc hoccurs, hk⟩

theorem Element.sizeOf_blockCommands_lt {k : Command} (e : Element) : k ∈ e.blockCommands → sizeOf k < sizeOf e := by
  induction e using Element.byChildren with
  | h e ih =>
    intro hk
    by_cases hblock : e.kind = .block
    · obtain ⟨i, commands, text, rfl⟩ := Element.exists_of_kind_block hblock
      have hlt : sizeOf k < sizeOf commands := List.sizeOf_lt_of_mem hk
      rw [Element.block.sizeOf_spec]
      omega
    · rw [Element.blockCommands_eq_flatMap hblock] at hk
      obtain ⟨c, hc, hk⟩ := List.mem_flatMap.mp hk
      exact Nat.lt_trans (ih c hc hk) (Element.sizeOf_lt_of_mem hc)

/-- The commands in the blocks of a command are those of the blocks in its argument. -/
theorem Command.mem_blockCommands {c k : Command} (hk : k ∈ c.blockCommands) :
    ∃ a i commands text, c.argument? = some a ∧ Occurs false (.block i commands text) a ∧ k ∈ commands := by
  cases c with
  | bare h => cases hk
  | given h a =>
    obtain ⟨i, commands, text, hblock, hk⟩ := Element.mem_blockCommands a hk
    exact ⟨a, i, commands, text, rfl, hblock, hk⟩

/-- What holds of a command whenever it holds of the commands in its blocks holds of every command. -/
theorem Command.byBlocks {motive : Command → Prop} (h : ∀ c, (∀ k ∈ c.blockCommands, motive k) → motive c)
    (c : Command) : motive c :=
  h c fun k hk =>
    have : sizeOf k < sizeOf c := by
      cases c with
      | bare head => cases hk
      | given head a =>
        have hlt := Element.sizeOf_blockCommands_lt a hk
        rw [Command.given.sizeOf_spec]
        omega
    Command.byBlocks h k
termination_by sizeOf c

/-- The first command is the second one, or stands in its blocks at any depth. -/
inductive Command.Within : Command → Command → Prop where
  | self (c : Command) : Within c c
  | inside {d k c : Command} (hk : k ∈ c.blockCommands) (h : Within d k) : Within d c

/-- What passes from a command to the commands in its blocks passes to all commands within it. -/
theorem Command.Within.keeps {P : Command → Prop} (hP : ∀ {c k : Command}, k ∈ c.blockCommands → P c → P k)
    {c d : Command} (h : d.Within c) (hc : P c) : P d := by
  induction h with
  | self => exact hc
  | inside hk _ ih => exact ih (hP hk hc)

end UiScript
