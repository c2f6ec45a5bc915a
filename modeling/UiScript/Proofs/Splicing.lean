import UiScript.Proofs.Reparsing

/-!
# Structured values are spliced as their text is read

A structured value that takes the place of a variable is the tree that reading its text gives, places apart, and it has
the same mistakes (`parse_spliced_text`). Two ways lead to the tree: it is made from the value at once, or the value is
written, scanned and read. The second is followed by what the marks of a written tree are read as (`Rereads`). Unlike a
derivation, this leaves room for mistakes, which arrays of several kinds have at any depth.
-/

namespace UiScript

/-! ## Containers inside each other -/

mutual

/-- The greatest number of arrays and objects that stand inside each other. -/
def Json.depth : Json → Nat
  | .array items => jsonDepth items + 1
  | .object members => memberDepth members + 1
  | _ => 0

/-- The greatest depth of several values. -/
def jsonDepth : List Json → Nat
  | [] => 0
  | v :: vs => max v.depth (jsonDepth vs)

/-- The depth of a member's value. -/
def Member.depth : Member → Nat
  | .mk _ v => v.depth

/-- The greatest depth of several members. -/
def memberDepth : List Member → Nat
  | [] => 0
  | m :: ms => max m.depth (memberDepth ms)

end

namespace Grammar

open Reading

/-! ## Written trees with mistakes -/

/-- The marks start an element, and wherever they stand in the text they are read as the tree. -/
structure ReadAs (text : List Char) (n : Nat) (ms : List Mark) (e : Element) : Prop where
  starts : ∃ m rest, ms = m :: rest ∧ Form.starts .element m.1.kind = true
  reads : ElementReads (scan text) (chain (.whole text) true (operand .any n (.whole text) true)) ms e

/-- The marks of an entry start it, and wherever they stand in the text they are read as the entry. -/
structure Keyed.ReadAs (text : List Char) (n : Nat) (k : Keyed) : Prop where
  starts : ∃ m rest, k.marks = m :: rest ∧ Form.starts .element m.1.kind = true
  reads : ItemReads (scan text) .json (Reading.entry (chain (.whole text) true (operand .any n (.whole text) true)))
    Entry.erase k.marks k.entry

/-- Wherever the text of the tree stands before a stop, it is read as that tree. -/
def Rereads (n : Nat) (e : Element) : Prop :=
  ∀ text : List Char, Writes text e.text.toList fun ms => ReadAs text n ms e

section Containers

variable {n : Nat} {e : Element} {items : List Element}

/-- What is derived is read. -/
theorem Legible.rereads (h : Legible .element n e) : Rereads n e := by
  refine fun text => (h text).mono fun ms hms => ⟨hms.head (lawfulBlock_blockIn .any text), ?_⟩
  exact hms.read (lawfulBlock_blockIn .any text) (blocksComplete_blockIn .any text) (scan_orderly text)

/-- **The text of a tree that is reread is read as that tree.** -/
theorem Rereads.parse (h : Rereads maxNesting e) : (Element.parse e.text).erase = e := by
  have hread := (h e.text.toList).scan
  obtain ⟨m, rest, hm, -⟩ := hread.starts
  exact parse_reads hm hread.reads

/-- Items with commas between them. -/
theorem writes_items (h : ∀ e ∈ items, Rereads n e) (text : List Char) :
    Writes text ([',', ' '].intercalate ((items.map Piece.ofTree).map fun p => p.tree.text.toList)) fun ms =>
      ∃ ps : List Piece, Separated (ps.map Piece.marks) ms false ∧
        ps.map Piece.tree = (items.map Piece.ofTree).map Piece.tree ∧ ∀ p ∈ ps, ReadAs text n p.marks p.tree := by
  refine writes_list Piece.marks Piece.tree (fun p => ReadAs text n p.marks p.tree) ?_
  exact List.forall_mem_map.mpr fun e he => (h e he text).mono fun ms hms => ⟨⟨ms, e⟩, rfl, rfl, hms⟩

theorem ReadAs.tuple {text : List Char} {opener closer : Mark} {body : List Mark} {ps : List Piece} {trailing : Bool}
    (hopener : opener.1.kind = .opening .round) (hcloser : closer.1.kind = .closing .round)
    (hbody : Separated (ps.map Piece.marks) body trailing) (h : ∀ p ∈ ps, ReadAs text n p.marks p.tree) :
    ReadAs text (n + 1) (opener :: (body ++ [closer]))
      (.tuple (.blank none) (ps.map Piece.tree) (trailing && ps.length == 1)) := by
  refine ⟨⟨opener, _, rfl, by rw [hopener]; rfl⟩, fun c more hc hs hstops => chain_reads_first ?_ hstops⟩
  exact tuple_reads hopener hcloser hbody (fun p hp => (h p hp).starts) (fun p hp => (h p hp).reads) hc hs

/-- Items make a tuple. The comma after an only item is written and read. -/
theorem rereads_tuple (trailing : Bool) (h : ∀ e ∈ items, Rereads n e) :
    Rereads (n + 1) (.tuple (.blank none) items (trailing && items.length == 1)) := by
  intro text
  by_cases htrailing : (trailing && items.length == 1) = true
  · rw [htrailing]
    simp only [Bool.and_eq_true, beq_iff_eq] at htrailing
    obtain ⟨e, rfl⟩ := List.length_eq_one_iff.mp htrailing.2
    have htext : (Element.tuple (.blank none) [e] true).text.toList = '(' :: (e.text.toList ++ [','] ++ [')']) := by
      simp [Element.text]
    rw [htext]
    refine ((h e List.mem_cons_self text).trailing.bracket (b := .round) ⟨by decide, rfl⟩ ⟨by decide, rfl⟩
      (by decide)).mono fun ms hms => ?_
    obtain ⟨opener, _, closer, rfl, hopener, hcloser, a, comma, rfl, hcomma, ha⟩ := hms
    have hone : Separated ([(⟨a, e⟩ : Piece)].map Piece.marks) (a ++ [comma]) true := .cons a hcomma .nil
    exact ReadAs.tuple hopener hcloser hone (List.forall_mem_singleton.mpr ha)
  · rw [Bool.not_eq_true] at htrailing
    have htext : (Element.tuple (.blank none) items false).text.toList =
        '(' :: ([',', ' '].intercalate ((items.map Piece.ofTree).map fun p => p.tree.text.toList) ++ [')']) := by
      simp [Element.text, Function.comp_def, Piece.ofTree]
    rw [htrailing, htext]
    refine ((writes_items h text).bracket (b := .round) ⟨by decide, rfl⟩ ⟨by decide, rfl⟩ (by decide)).mono
      fun ms hms => ?_
    obtain ⟨opener, body, closer, rfl, hopener, hcloser, ps, hps, htrees, hread⟩ := hms
    rw [map_tree_ofTree] at htrees
    have hreads := ReadAs.tuple hopener hcloser hps hread
    rwa [htrees, Bool.false_and] at hreads

/-- Items of any kinds make an array, which says so if there are several. -/
theorem rereads_array (h : ∀ e ∈ items, Rereads n e) :
    Rereads (n + 1) (.array (.blank (mixedKinds? items)) items) := by
  intro text
  have htext : (Element.array (.blank (mixedKinds? items)) items).text.toList =
      '[' :: ([',', ' '].intercalate ((items.map Piece.ofTree).map fun p => p.tree.text.toList) ++ [']']) := by
    simp [Element.text, Function.comp_def, Piece.ofTree]
  rw [htext]
  refine ((writes_items h text).bracket (b := .square) ⟨by decide, rfl⟩ ⟨by decide, rfl⟩ (by decide)).mono
    fun ms hms => ?_
  obtain ⟨opener, body, closer, rfl, hopener, hcloser, ps, hps, htrees, hread⟩ := hms
  rw [map_tree_ofTree] at htrees
  refine ⟨⟨opener, _, rfl, by rw [hopener]; rfl⟩, fun c more hc hs hstops => ?_⟩
  have hreads := array_reads hopener hcloser hps (fun p hp => (hread p hp).starts) (fun p hp => (hread p hp).reads)
    hc hs
  rw [htrees] at hreads
  exact chain_reads_first hreads hstops

/-- A key that is a string, a colon and a value are read as an entry. -/
theorem ReadAs.entry {text : List Char} {k : Keyed} (hkey : ReadAs text n k.key.marks k.key.tree)
    (hcolon : k.colon.1.kind = .colon) (hkind : k.key.tree.kind = .string) (hproblem : k.key.tree.problem = none)
    (hvalue : ReadAs text n k.value.marks k.value.tree) :
    k.ReadAs text n := by
  obtain ⟨m, rest, hm, hstarts⟩ := hkey.starts
  refine ⟨⟨m, rest ++ k.colon :: k.value.marks, by rw [Keyed.marks, hm]; rfl, hstarts⟩, ?_⟩
  exact entry_reads (chain_reaches _ true (operand_reaches .any n _ true)) hcolon (Or.inl hkind) hproblem hvalue.starts
    hkey.reads hvalue.reads

/-- A dictionary, given by the keys and the values of its entries. -/
theorem rereads_json {α : Type} {entries : List α} (key value : α → Element)
    (hstrings : ∀ a ∈ entries, (key a).kind = .string ∧ (key a).problem = none)
    (hkeys : ∀ a ∈ entries, Rereads n (key a)) (hvalues : ∀ a ∈ entries, Rereads n (value a)) :
    Rereads (n + 1) (.json (.blank none) (entries.map fun a => .pair (key a) (value a))) := by
  intro text
  let keyed : α → Keyed := fun a => ⟨.ofTree (key a), default, .ofTree (value a)⟩
  have hentries : ∀ k ∈ entries.map keyed,
      Writes text (k.key.tree.text.toList ++ ([':', ' '] ++ k.value.tree.text.toList)) fun ms =>
        ∃ q : Keyed, ms = q.marks ∧ q.entry = k.entry ∧ q.ReadAs text n := by
    refine List.forall_mem_map.mpr fun a ha => ?_
    obtain ⟨hkind, hproblem⟩ := hstrings a ha
    refine ((hkeys a ha text).append separates_colon (hvalues a ha text)).mono fun ms hms => ?_
    obtain ⟨as, m, bs, rfl, hm, has, hbs⟩ := hms
    exact ⟨⟨⟨as, key a⟩, m, ⟨bs, value a⟩⟩, rfl, rfl, has.entry hm hkind hproblem hbs⟩
  have hlist := writes_list Keyed.marks Keyed.entry (fun k => k.ReadAs text n) hentries
  have htext : (Element.json (.blank none) ((entries.map keyed).map Keyed.entry)).text.toList =
      '\x7b' :: ([',', ' '].intercalate ((entries.map keyed).map fun k =>
        k.key.tree.text.toList ++ ([':', ' '] ++ k.value.tree.text.toList)) ++ ['\x7d']) := by
    simp [Element.text, Function.comp_def, Keyed.entry, Entry.text]
  have hkeyed : (entries.map fun a => Entry.pair (key a) (value a)) = (entries.map keyed).map Keyed.entry := by
    rw [List.map_map]
    rfl
  rw [hkeyed, htext]
  refine (hlist.bracket (b := .curly) ⟨by decide, rfl⟩ ⟨by decide, rfl⟩ (by decide)).mono fun ms hms => ?_
  obtain ⟨opener, body, closer, rfl, hopener, hcloser, ks, hks, htrees, hread⟩ := hms
  refine ⟨⟨opener, _, rfl, by rw [hopener]; rfl⟩, fun c more hc hs hstops => ?_⟩
  have hreads := json_reads hopener hcloser hks (fun k hk => (hread k hk).starts) (fun k hk => (hread k hk).reads) hc hs
  rw [htrees] at hreads
  exact chain_reads_first hreads hstops

end Containers

end Grammar

/-! ## Structured values -/

section Values

open Grammar

mutual

/-- **The element of a structured value is reread, with the mistakes of its arrays.** -/
theorem Json.element_rereads (place : Place) : (v : Json) → v.fits = true → ∀ n, v.depth ≤ n →
    Rereads n (v.element place).erase
  | .null, hfits, n, _ | .bool _, hfits, n, _ | .integer _, hfits, n, _ | .float _, hfits, n, _
  | .string _, hfits, n, _ => (Json.element_legible place _ hfits n ⟨rfl, Nat.zero_le n, rfl⟩).rereads
  | .array items, _, 0, h | .object members, _, 0, h => by
    rw [Json.depth] at h
    exact absurd h (Nat.not_succ_le_zero _)
  | .array items, hfits, n + 1, h => by
    rw [Json.fits] at hfits
    rw [Json.depth] at h
    have hitems := jsonElements_rereads place items hfits n (Nat.le_of_succ_le_succ h)
    rw [Json.element, Element.erase_array]
    have harray := rereads_array (List.forall_mem_map.mpr hitems)
    rwa [mixedKinds?_relabel] at harray
  | .object members, hfits, n + 1, h => by
    rw [Json.fits] at hfits
    rw [Json.depth] at h
    have hmembers := members_reread place members hfits n (Nat.le_of_succ_le_succ h)
    have hjson := rereads_json (fun m : Member => literal (.string m.name '"')) (fun m => (m.value.element place).erase)
      (fun _ _ => ⟨rfl, rfl⟩) (fun m _ => (legible_string m.name (Or.inl rfl)).first.element.rereads) hmembers
    rw [Json.element, Element.erase_json, jsonEntries_eq_map, List.map_map]
    simp only [Function.comp_def, Member.entry_erase]
    exact hjson

theorem jsonElements_rereads (place : Place) : (vs : List Json) → allFit vs = true → ∀ n, jsonDepth vs ≤ n →
    ∀ e ∈ jsonElements place vs, Rereads n e.erase
  | [], _, _, _ => by simp [jsonElements]
  | v :: vs, hfits, n, h => by
    rw [allFit, Bool.and_eq_true] at hfits
    rw [jsonDepth, Nat.max_le] at h
    rw [jsonElements]
    exact List.forall_mem_cons.mpr
      ⟨Json.element_rereads place v hfits.1 n h.1, jsonElements_rereads place vs hfits.2 n h.2⟩

theorem members_reread (place : Place) : (ms : List Member) → allMembersFit ms = true → ∀ n, memberDepth ms ≤ n →
    ∀ m ∈ ms, Rereads n (m.value.element place).erase
  | [], _, _, _ => by simp
  | .mk name v :: ms, hfits, n, h => by
    rw [allMembersFit, Member.fits, Bool.and_eq_true] at hfits
    rw [memberDepth, Member.depth, Nat.max_le] at h
    exact List.forall_mem_cons.mpr
      ⟨Json.element_rereads place v hfits.1 n h.1, members_reread place ms hfits.2 n h.2⟩

end

end Values

/-- **Structured values are spliced as their text is read.** Let a variable without a mistake have a structured value,
whose integers fit a 64-bit word and whose containers fit the levels that there are. The text of what stands in the
place of the variable is read as just that, places apart: the same leaves, the same items and entries in the same order,
and the same mistakes of arrays of several kinds. -/
theorem parse_spliced_text {scope : Scope} {i : Info} {name : String} {v : Json} (hi : i.problem = none)
    (hvalue : scope.lookup name = some (.structured v)) (hfits : v.fits = true) (hdepth : v.depth ≤ maxNesting) :
    (Element.parse ((Element.leaf i (.reference name)).substitute scope false).text).erase =
      ((Element.leaf i (.reference name)).substitute scope false).erase := by
  have hsplice : (Element.leaf i (.reference name)).substitute scope false = v.element i.toPlace := by
    rw [Element.substitute, resolveVariable, hvalue]
    simp [hi, Grammar.noting_none]
  have hread := (Json.element_rereads i.toPlace v hfits maxNesting hdepth).parse
  rw [Element.relabel_text] at hread
  rw [hsplice, hread]

/-- A dictionary with arrays of several kinds on two levels, a missing value, numbers with signs and points, and a
control character in a key. -/
def unevenScope : Scope :=
  { globals := some ⟨[("v", .structured (.object [
      .mk "a\x01" (.array [.integer (-3), .string "x\n", .float (.finite true 5 (-1)), .null]),
      .mk "b" (.array [.array [.bool true, .object []], .array [.integer 7]])]))]⟩
    useEnvironment := false }

/-- What `|v|` is read as. -/
def unevenVariable : Element := .leaf ⟨⟨⟨0, 3⟩, 1, "|v|"⟩, none⟩ (.reference "v")

/-- The mistakes of arrays on two levels are read again. -/
theorem parse_spliced_text_uneven :
    (unevenVariable.substitute unevenScope false).text =
        "\x7b\"a\\u0001\": [-3, \"x\\n\", -2.5, null], \"b\": [[true, \x7b\x7d], [7]]\x7d" ∧
      (unevenVariable.substitute unevenScope false).diagnostics.length = 2 ∧
      (Element.parse (unevenVariable.substitute unevenScope false).text).erase =
        (unevenVariable.substitute unevenScope false).erase :=
  ⟨by decide +kernel, by decide +kernel,
    parse_spliced_text rfl (v := .object _) rfl (by decide +kernel) (by decide +kernel)⟩

end UiScript
