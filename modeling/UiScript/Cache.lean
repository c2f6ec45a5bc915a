import UiScript.Path
import UiScript.Script

/-!
# The cache of scripts

Scripts by the absolute path they were read from. A path that is bound keeps its script for good.
-/

namespace UiScript

/-- Scripts by their paths. -/
structure Cache where
  entries : List (Path × Script) := []

instance : Inhabited Cache := ⟨{}⟩

namespace Cache

/-- The script of a path. -/
def get? (c : Cache) (p : Path) : Option Script := c.entries.lookup p

/-- Whether a path is bound. -/
def contains (c : Cache) (p : Path) : Bool := (c.get? p).isSome

/-- The number of paths. -/
def size (c : Cache) : Nat := c.entries.length

/-- Binds a path unless it is bound already, and gives the script that it is bound to. -/
def insertOnce (c : Cache) (p : Path) (s : Script) : Script × Cache :=
  match c.get? p with
  | some stored => (stored, c)
  | none => (s, ⟨c.entries ++ [(p, s)]⟩)

/-! ## Insertion -/

/-- What an insertion gives is what the path is bound to afterwards. -/
theorem get?_insertOnce_self (c : Cache) (p : Path) (s : Script) :
    (c.insertOnce p s).2.get? p = some (c.insertOnce p s).1 := by
  unfold insertOnce
  split
  · assumption
  · rename_i h
    unfold get? at h ⊢
    rw [List.lookup_append, h]
    simp

end Cache

end UiScript
