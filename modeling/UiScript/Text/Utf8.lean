/-!
# Byte offsets in a text

Positions in a script are offsets in its UTF-8 form, while the text itself is a list of characters. `width` measures a
text in bytes and `slice?` cuts a range of bytes out of it, provided that both ends fall between two characters.
-/

namespace UiScript.Text

/-- The number of bytes of a text in UTF-8. -/
def width : List Char → Nat
  | [] => 0
  | c :: cs => c.utf8Size + width cs

/-- The number of line ends in a text. -/
def newlines : List Char → Nat
  | [] => 0
  | c :: cs => (if c = '\n' then 1 else 0) + newlines cs

/-- What follows the first `n` bytes, if a character ends there. -/
def dropBytes? : List Char → Nat → Option (List Char)
  | cs, 0 => some cs
  | [], _ + 1 => none
  | c :: cs, n + 1 => if c.utf8Size ≤ n + 1 then dropBytes? cs (n + 1 - c.utf8Size) else none

/-- The first `n` bytes, if a character ends there. -/
def takeBytes? : List Char → Nat → Option (List Char)
  | _, 0 => some []
  | [], _ + 1 => none
  | c :: cs, n + 1 =>
    if c.utf8Size ≤ n + 1 then (takeBytes? cs (n + 1 - c.utf8Size)).map (c :: ·) else none

/-- The bytes from `start` up to `stop`, if both are boundaries of characters of the text and in this order. -/
def slice? (cs : List Char) (start stop : Nat) : Option (List Char) :=
  if start ≤ stop then (dropBytes? cs start).bind (takeBytes? · (stop - start)) else none

/-- The bytes from `start` up to `stop`; nothing where `slice?` has no answer. -/
def slice (cs : List Char) (start stop : Nat) : List Char := (slice? cs start stop).getD []

/-! ## Widths and cuts -/

@[simp] theorem width_nil : width [] = 0 := rfl

@[simp] theorem width_cons (c : Char) (cs : List Char) : width (c :: cs) = c.utf8Size + width cs := rfl

@[simp] theorem width_append (as bs : List Char) : width (as ++ bs) = width as + width bs := by
  induction as with
  | nil => simp
  | cons c cs ih => simp [ih, Nat.add_assoc]

@[simp] theorem newlines_append (as bs : List Char) : newlines (as ++ bs) = newlines as + newlines bs := by
  induction as with
  | nil => simp [newlines]
  | cons c cs ih => simp [newlines, ih, Nat.add_assoc]

theorem dropBytes?_width (as bs : List Char) : dropBytes? (as ++ bs) (width as) = some bs := by
  induction as with
  | nil => cases bs <;> rfl
  | cons c cs ih =>
    have hpos : 0 < c.utf8Size := c.utf8Size_pos
    obtain ⟨n, hn⟩ : ∃ n, c.utf8Size + width cs = n + 1 := ⟨c.utf8Size + width cs - 1, by omega⟩
    rw [List.cons_append, width_cons, hn, dropBytes?, if_pos (by omega)]
    have : n + 1 - c.utf8Size = width cs := by omega
    rw [this, ih]

theorem takeBytes?_width (as bs : List Char) : takeBytes? (as ++ bs) (width as) = some as := by
  induction as with
  | nil => cases bs <;> rfl
  | cons c cs ih =>
    have hpos : 0 < c.utf8Size := c.utf8Size_pos
    obtain ⟨n, hn⟩ : ∃ n, c.utf8Size + width cs = n + 1 := ⟨c.utf8Size + width cs - 1, by omega⟩
    rw [List.cons_append, width_cons, hn, takeBytes?, if_pos (by omega)]
    have : n + 1 - c.utf8Size = width cs := by omega
    rw [this, ih, Option.map_some]

/-- Cutting at the ends of a part gives that part. -/
theorem slice?_append (as bs cs : List Char) :
    slice? (as ++ bs ++ cs) (width as) (width as + width bs) = some bs := by
  rw [slice?, if_pos (by omega), List.append_assoc, dropBytes?_width]
  have : width as + width bs - width as = width bs := by omega
  rw [this, Option.bind_some, takeBytes?_width]

end UiScript.Text
