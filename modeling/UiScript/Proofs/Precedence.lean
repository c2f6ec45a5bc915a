import UiScript.Element
import UiScript.Token.Scan

/-!
# Reading with precedence

The texts that leave the program are read by readers that know precedence. `Precedence.parse` is such a reader: it
goes through the tokens of a text one by one and keeps the operators that still wait for their right operands on a
stack; of two operators the one that binds more tightly is finished first, of two that bind alike the left one.
Parentheses come before everything, and a minus sign right before a number, where an operand is due, is the sign of
that number.

A text keeps a tree of a binding level if the reader, wherever nothing that waits binds as tightly as that level, goes
over it and holds the tree (`Keeps`). Leaves and parentheses keep their trees at the highest level (`Keeps.token`,
`Keeps.paren`), and two texts with an operator between them keep its node if the left one binds no less and the right
one binds more tightly than the operator (`Keeps.node`).
-/

namespace UiScript.Precedence

/-- A tree of binary operators. -/
inductive Tree where
  | leaf (l : Leaf)
  | node (op : Operator) (left right : Tree)
deriving DecidableEq, Repr

/-- What was begun and is not finished: an operator that waits for its right operand, or a parenthesis. -/
inductive Pending where
  | operator (left : Tree) (op : Operator)
  | paren
deriving DecidableEq, Repr

/-- What is due next: an operand, the number after its sign, or what follows an operand. -/
inductive Phase where
  | operand
  | number (sign : Token)
  | operator (found : Tree)

/-- The state of the reader. -/
structure State where
  stack : List Pending
  phase : Phase

/-- Finishes the operators on the stack that bind at least as tightly as the level. -/
def reduce (level : Nat) (right : Tree) : List Pending → Tree × List Pending
  | .operator left op :: stack =>
    if level ≤ op.precedence then reduce level (.node op left right) stack else (right, .operator left op :: stack)
  | stack => (right, stack)

/-- One token. -/
def step (s : State) (t : Token) : Option State :=
  match s.phase, t.kind with
  | .operand, .string value quote => some ⟨s.stack, .operator (.leaf (.string value quote))⟩
  | .operand, .number float => some ⟨s.stack, .operator (.leaf (.number t.text false float))⟩
  | .operand, .boolean value => some ⟨s.stack, .operator (.leaf (.boolean value))⟩
  | .operand, .word => some ⟨s.stack, .operator (.leaf (.ident t.text))⟩
  | .operand, .opening .round => some ⟨.paren :: s.stack, .operand⟩
  | .operand, .operator .sub => some ⟨s.stack, .number t⟩
  | .number sign, .number float =>
    if t.span.start = sign.span.stop then some ⟨s.stack, .operator (.leaf (.number t.text true float))⟩ else none
  | .operator found, .operator op =>
    let (left, stack) := reduce op.precedence found s.stack
    some ⟨.operator left op :: stack, .operand⟩
  | .operator found, .closing .round =>
    match reduce 0 found s.stack with
    | (tree, .paren :: stack) => some ⟨stack, .operator tree⟩
    | _ => none
  | _, _ => none

/-- Several tokens. -/
def run (s : State) : List Token → Option State
  | [] => some s
  | t :: ts => (step s t).bind (run · ts)

/-- The tree when all tokens are read: nothing may be due or open. -/
def finish (s : State) : Option Tree :=
  match s.phase with
  | .operator found =>
    match reduce 0 found s.stack with
    | (tree, []) => some tree
    | _ => none
  | _ => none

/-- The tree of a text. Comments and line ends say nothing. -/
def parse (text : String) : Option Tree :=
  (run ⟨[], .operand⟩ ((scan text.toList).filter (!·.kind.isTrivia))).bind finish

example : parse "1 - (2 + -3) * 4 - 5" =
    some (.node .sub (.node .sub (.leaf (.number "1" false false)) (.node .mul
      (.node .add (.leaf (.number "2" false false)) (.leaf (.number "3" true false)))
      (.leaf (.number "4" false false)))) (.leaf (.number "5" false false))) := by
  decide +kernel

/-! ## Runs -/

theorem run_append (s : State) (ts us : List Token) : run s (ts ++ us) = (run s ts).bind (run · us) := by
  induction ts generalizing s with
  | nil => rfl
  | cons t ts ih =>
    rw [List.cons_append, run, run, Option.bind_assoc]
    congr 1
    funext s'
    exact ih s'

theorem run_cons {s s' : State} {t : Token} (h : step s t = some s') (ts : List Token) :
    run s (t :: ts) = run s' ts := by
  rw [run, h]
  rfl

/-! ## Levels -/

/-- The level above all operators. -/
def highest : Nat := 6

theorem precedence_lt_highest (op : Operator) : op.precedence < highest := by
  cases op <;> decide

/-- Nothing on top of the stack binds as tightly as the level. -/
def Looser (level : Nat) : List Pending → Prop
  | .operator _ op :: _ => op.precedence < level
  | _ => True

theorem Looser.mono {level level' : Nat} {stack : List Pending} (h : Looser level stack) (hle : level ≤ level') :
    Looser level' stack := by
  unfold Looser at h ⊢
  split
  · exact Nat.lt_of_lt_of_le h hle
  · trivial

/-- Where all that waits binds less tightly, nothing is finished. -/
theorem reduce_looser {level : Nat} {stack : List Pending} (h : Looser level stack) (t : Tree) :
    reduce level t stack = (t, stack) := by
  unfold reduce
  split
  · exact if_neg (Nat.not_le.mpr h)
  · rfl

theorem reduce_node {level : Nat} {op : Operator} (h : level ≤ op.precedence) (left right : Tree)
    (stack : List Pending) :
    reduce level right (.operator left op :: stack) = reduce level (.node op left right) stack := by
  rw [reduce, if_pos h]

/-- The reader goes over the tokens and holds the tree, finished down to the level. -/
def Keeps (tokens : List Token) (tree : Tree) (level : Nat) : Prop :=
  ∀ stack, Looser level stack → ∃ found stack', run ⟨stack, .operand⟩ tokens = some ⟨stack', .operator found⟩ ∧
    ∀ level' ≤ level, reduce level' found stack' = reduce level' tree stack

section Keeps

variable {tokens : List Token} {tree : Tree} {level : Nat}

/-- A token that is a leaf. -/
theorem Keeps.token {t : Token} {l : Leaf}
    (h : ∀ stack, step ⟨stack, .operand⟩ t = some ⟨stack, .operator (.leaf l)⟩) : Keeps [t] (.leaf l) highest := by
  intro stack _
  refine ⟨.leaf l, stack, ?_, fun _ _ => rfl⟩
  rw [run_cons (h stack)]
  rfl

/-- A number with its sign. -/
theorem Keeps.negative {sign number : Token} {float : Bool} (hsign : sign.kind = .operator .sub)
    (hnumber : number.kind = .number float) (hnext : number.span.start = sign.span.stop) :
    Keeps [sign, number] (.leaf (.number number.text true float)) highest := by
  intro stack _
  have h₁ : step ⟨stack, .operand⟩ sign = some ⟨stack, .number sign⟩ := by simp [step, hsign]
  have h₂ : step ⟨stack, .number sign⟩ number = some ⟨stack, .operator (.leaf (.number number.text true float))⟩ := by
    simp [step, hnumber, hnext]
  refine ⟨_, stack, ?_, fun _ _ => rfl⟩
  rw [run_cons h₁, run_cons h₂]
  rfl

/-- Parentheses. -/
theorem Keeps.paren {opener closer : Token} (hopener : opener.kind = .opening .round)
    (hcloser : closer.kind = .closing .round) (h : Keeps tokens tree level) :
    Keeps (opener :: (tokens ++ [closer])) tree highest := by
  intro stack _
  obtain ⟨found, stack', hrun, hreduce⟩ := h (.paren :: stack) trivial
  have hopen : step ⟨stack, .operand⟩ opener = some ⟨.paren :: stack, .operand⟩ := by simp [step, hopener]
  have hclose : step ⟨stack', .operator found⟩ closer = some ⟨stack, .operator tree⟩ := by
    have h₀ := hreduce 0 (Nat.zero_le _)
    rw [reduce_looser (show Looser 0 (.paren :: stack) from trivial)] at h₀
    simp [step, hcloser, h₀]
  refine ⟨tree, stack, ?_, fun _ _ => rfl⟩
  rw [run_cons hopen, run_append, hrun, Option.bind_some, run_cons hclose]
  rfl

/-- **Two operands with an operator between them**, of which the left one binds no less tightly than the operator and
the right one more tightly. -/
theorem Keeps.node {op : Operator} {sign : Token} {as bs : List Token} {l r : Tree} {lower upper : Nat}
    (hsign : sign.kind = .operator op) (hl : Keeps as l lower) (hlower : op.precedence ≤ lower) (hr : Keeps bs r upper)
    (hupper : op.precedence < upper) : Keeps (as ++ sign :: bs) (.node op l r) op.precedence := by
  intro stack hstack
  obtain ⟨found, stack₁, hrun₁, hreduce₁⟩ := hl stack (hstack.mono hlower)
  -- the operator finishes the left operand, and nothing below it
  have hstep : step ⟨stack₁, .operator found⟩ sign = some ⟨.operator l op :: stack, .operand⟩ := by
    have h₁ := hreduce₁ op.precedence hlower
    rw [reduce_looser hstack] at h₁
    simp [step, hsign, h₁]
  obtain ⟨found₂, stack₂, hrun₂, hreduce₂⟩ := hr (.operator l op :: stack) hupper
  refine ⟨found₂, stack₂, ?_, fun level' hlevel => ?_⟩
  · rw [run_append, hrun₁, Option.bind_some, run_cons hstep, hrun₂]
  · rw [hreduce₂ level' (by omega), reduce_node hlevel]

/-- What is kept is read. -/
theorem Keeps.finish_run (h : Keeps tokens tree level) : (run ⟨[], .operand⟩ tokens).bind finish = some tree := by
  obtain ⟨found, stack, hrun, hreduce⟩ := h [] trivial
  have h₀ := hreduce 0 (Nat.zero_le _)
  rw [hrun, Option.bind_some]
  simp [finish, h₀, reduce]

end Keeps

end UiScript.Precedence
