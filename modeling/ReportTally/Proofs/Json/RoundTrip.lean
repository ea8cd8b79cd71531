import Mathlib.Data.Char
import ReportTally.Proofs.Json.Number
import ReportTally.Report.Json

/-!
# JSON documents are read back

Whatever value is written, the reader reads the text of the value up to its end (`value?_write`), so
a document is one JSON text and a line feed, and the text says what the value is (`read?_write`).
`Json.tree` is what it says: nothing is lost but which integers and floats the number tokens stand
for, and floats that are not finite.

Every character is read back from its escape (`character?_escape`), and no escape starts with a
quote, so a text ends at its closing quote whatever stands in it. Between the tokens there are only
blanks, and a value does not start with a blank or a closing bracket (`exists_cons_of_write`).
-/

namespace ReportTally.Json

/-! ## What a value says -/

mutual

/-- What the text of a value says. -/
def tree : Json → Tree
  | null => .null
  | integer n => .number (Numeral.ofInt n)
  | number x => ((Decimal.token? x).map Tree.number).getD .null
  | text t => .text t
  | list items => .list (treeItems items)
  | record members => .record (treeMembers members)

/-- What the texts of the items say. -/
def treeItems : List Json → List Tree
  | [] => []
  | item :: items => tree item :: treeItems items

/-- What the texts of the members say. -/
def treeMembers : List (Text × Json) → List (Text × Tree)
  | [] => []
  | (name, value) :: members => (name, tree value) :: treeMembers members

end

/-! ## Blanks -/

theorem skip_append {s t : Text} (h : ∀ c ∈ s, isSpace c = true) : skip (s ++ t) = skip t :=
  List.dropWhile_append_of_pos h

theorem skip_cons_of_not_isSpace {c : Char} {t : Text} (h : isSpace c = false) :
    skip (c :: t) = c :: t := by
  rw [skip, List.dropWhile_cons, h]
  rfl

theorem isSpace_newLine (level : Nat) : ∀ c ∈ newLine level, isSpace c = true := by
  intro c hc
  rcases List.mem_cons.1 hc with rfl | hc
  · decide
  · rw [List.eq_of_mem_replicate hc]
    decide

theorem skip_newLine (level : Nat) (t : Text) : skip (newLine level ++ t) = skip t :=
  skip_append (isSpace_newLine level)

theorem value?_of_skip_eq {s t : Text} (h : skip s = skip t) (n : Nat) :
    value? n s = value? n t := by
  cases n with
  | zero => rw [value?, value?]
  | succ n => rw [value?, value?, h]

theorem items?_newLine (n level : Nat) (t : Text) : items? n (newLine level ++ t) = items? n t := by
  cases n with
  | zero => rw [items?, items?]
  | succ n => rw [items?, items?, value?_of_skip_eq (skip_newLine level t)]

theorem members?_newLine (n level : Nat) (t : Text) :
    members? n (newLine level ++ t) = members? n t := by
  cases n with
  | zero => rw [members?, members?]
  | succ n => rw [members?, members?, skip_newLine]

/-! ## Texts -/

theorem hex?_hexDigit (n : Nat) : hex? (hexDigit n) = some (n % 16) := by
  have h : ∀ k < 16, hex? (Nat.digitChar k) = some k := by decide
  exact h (n % 16) (Nat.mod_lt n (by decide))

/-- The escape of a control that has no letter. -/
theorem coded?_hexDigit {c : Char} (hc : c.toNat < 0x20) (t : Text) :
    coded? ('0' :: '0' :: hexDigit (c.toNat / 16) :: hexDigit c.toNat :: t) = some (c, t) := by
  have hcode : 0x1000 * 0 + 0x100 * 0 + 0x10 * (c.toNat / 16 % 16) + c.toNat % 16 = c.toNat := by
    omega
  have hzero : hex? '0' = some 0 := by decide
  have hunit : unit? ('0' :: '0' :: hexDigit (c.toNat / 16) :: hexDigit c.toNat :: t) =
      some (c.toNat, t) := by
    simp [unit?, hzero, hex?_hexDigit]
    omega
  have hlow : (decide (c.toNat < 0xD800) || decide (0xDFFF < c.toNat)) = true := by
    rw [decide_eq_true (by omega : c.toNat < 0xD800), Bool.true_or]
  simp only [coded?, hunit, Option.bind_eq_bind, Option.bind_some, if_pos hlow, Option.pure_def,
    Char.ofNat_toNat]

/-- A character is read back from its escape. -/
theorem character?_escape (c : Char) (t : Text) : character? (escape c ++ t) = some (c, t) := by
  unfold escape
  split_ifs with hquote hslash hcontrol
  · rw [hquote]; rfl
  · rw [hslash]; rfl
  · rw [List.singleton_append, character?, if_neg hslash, if_pos hcontrol]
  · subst_vars; rfl
  · subst_vars; rfl
  · subst_vars; rfl
  · subst_vars; rfl
  · subst_vars; rfl
  · exact coded?_hexDigit (Nat.not_le.1 hcontrol) t

theorem head?_escape (c : Char) (t : Text) : (escape c ++ t).head? ≠ some '"' := by
  unfold escape
  split_ifs with hquote <;> simp [hquote]

/-- A text ends at its closing quote, whatever stands in it. -/
theorem characters?_flatMap_escape {n : Nat} (s t : Text) (h : s.length ≤ n) :
    characters? n (s.flatMap escape ++ '"' :: t) = some (s, t) := by
  induction s generalizing n with
  | nil => cases n <;> rfl
  | cons c s ih =>
    obtain ⟨n, rfl⟩ := Nat.exists_eq_add_of_le' (Nat.one_le_of_lt h)
    rw [List.flatMap_cons, List.append_assoc, characters?]
    · simp [character?_escape, ih (by simpa using h)]
    · intro t' ht'
      exact head?_escape c _ (by rw [ht']; rfl)

theorem length_le_length_flatMap_escape (s : Text) : s.length ≤ (s.flatMap escape).length := by
  induction s with
  | nil => exact Nat.le_refl 0
  | cons c s ih =>
    have hpos : 0 < (escape c).length := by
      unfold escape
      split_ifs <;> simp
    rw [List.flatMap_cons, List.length_append, List.length_cons]
    omega

theorem text?_flatMap_escape (s t : Text) : text? (s.flatMap escape ++ '"' :: t) = some (s, t) := by
  refine characters?_flatMap_escape s t ((length_le_length_flatMap_escape s).trans ?_)
  rw [List.length_append]
  omega

/-! ## Lists and records -/

/-- Pieces, one on a line, up to the closing bracket. -/
def body (last : Char) (level : Nat) (p : Text) (ps : List Text) : Text :=
  p ++ (ps.flatMap (fun q => ',' :: (newLine (level + 1) ++ q)) ++ (newLine level ++ [last]))

theorem body_nil (last : Char) (level : Nat) (p : Text) :
    body last level p [] = p ++ (newLine level ++ [last]) :=
  rfl

theorem body_cons (last : Char) (level : Nat) (p q : Text) (ps : List Text) :
    body last level p (q :: ps) = p ++ ',' :: (newLine (level + 1) ++ body last level q ps) := by
  simp [body]

theorem intercalate_cons (c : Char) (p : Text) (ps : List Text) :
    [c].intercalate (p :: ps) = p ++ ps.flatMap (c :: ·) := by
  induction ps generalizing p with
  | nil => simp
  | cons q ps ih => rw [List.intercalate_cons_cons, ih, List.flatMap_cons, List.append_assoc]; rfl

theorem bracketed_cons (first last : Char) (level : Nat) (p : Text) (ps : List Text) :
    bracketed first last level (p :: ps) =
      first :: (newLine (level + 1) ++ body last level p ps) := by
  rw [bracketed, List.isEmpty_cons, if_neg Bool.false_ne_true, List.map_cons, intercalate_cons,
    List.flatMap_map, body]
  simp only [List.append_assoc]

theorem exists_cons_of_bracketed (first last : Char) (level : Nat) (ps : List Text) :
    ∃ t, bracketed first last level ps = first :: t := by
  cases ps with
  | nil => exact ⟨[last], rfl⟩
  | cons p ps => exact ⟨_, bracketed_cons first last level p ps⟩

/-- A digit or a minus sign starts nothing but a number. -/
theorem IsNumber.head {token : Text} (h : IsNumber token) :
    ∃ c t, token = c :: t ∧ isSpace c = false ∧
      c ∉ ['"', '[', ']', '\x7b', '\x7d', 'n', 't', 'f'] := by
  obtain ⟨c, t, rfl, hc⟩ := h.exists_cons
  refine ⟨c, t, rfl, ?_⟩
  rcases hc with rfl | hc
  · decide
  · have hall : ∀ d ∈ [' ', '\n', '\r', '\t', '"', '[', ']', '\x7b', '\x7d', 'n', 't', 'f'],
        Numeral.isDigit d = false := by simp [Numeral.isDigit]
    have hnot : c ∉ [' ', '\n', '\r', '\t', '"', '[', ']', '\x7b', '\x7d', 'n', 't', 'f'] := by
      intro hmem
      rw [hall c hmem] at hc
      cases hc
    simp only [List.mem_cons, not_or] at hnot ⊢
    simp [isSpace, hnot]

/-- A value starts with what is neither a blank nor a closing bracket. -/
theorem exists_cons_of_write (level : Nat) (j : Json) :
    ∃ c t, write level j = c :: t ∧ isSpace c = false ∧ c ≠ ']' ∧ c ≠ '\x7d' := by
  have hnumber {token : Text} (h : IsNumber token) :
      ∃ c t, token = c :: t ∧ isSpace c = false ∧ c ≠ ']' ∧ c ≠ '\x7d' := by
    obtain ⟨c, t, rfl, hspace, hc⟩ := h.head
    exact ⟨c, t, rfl, hspace, fun h => hc (by simp [h]), fun h => hc (by simp [h])⟩
  cases j with
  | null => exact ⟨'n', "ull".toList, by rw [write]; rfl, by decide⟩
  | integer n =>
    rw [write]
    exact hnumber (isNumber_ofInt n)
  | number x =>
    rw [write]
    cases htoken : Decimal.token? x with
    | none => exact ⟨'n', "ull".toList, rfl, by decide⟩
    | some token => exact hnumber (isNumber_of_token? htoken)
  | text t => exact ⟨'"', _, by rw [write, quoted], by decide⟩
  | list items =>
    obtain ⟨t, ht⟩ := exists_cons_of_bracketed '[' ']' level (writeItems (level + 1) items)
    exact ⟨'[', t, by rw [write, ht], by decide⟩
  | record members =>
    obtain ⟨t, ht⟩ :=
      exists_cons_of_bracketed '\x7b' '\x7d' level (writeMembers (level + 1) members)
    exact ⟨'\x7b', t, by rw [write, ht], by decide⟩

/-! ## Values -/

theorem value?_null (n : Nat) (t : Text) :
    value? (n + 1) ("null".toList ++ t) = some (.null, t) := by
  rfl

theorem value?_number {token t : Text} (h : IsNumber token) (ht : EndsNumber t) (n : Nat) :
    value? (n + 1) (token ++ t) = some (.number token, t) := by
  have hnumber := h.number?_append ht
  obtain ⟨c, u, rfl, hspace, hc⟩ := h.head
  simp only [List.mem_cons, not_or] at hc
  rw [List.cons_append] at hnumber ⊢
  rw [value?, skip_cons_of_not_isSpace hspace]
  have hword : word? (c :: (u ++ t)) = none := by
    unfold word?
    split <;> simp_all
  split
  · simp_all
  · simp_all
  · simp_all
  · rw [hword, hnumber]
    rfl

theorem value?_text (n : Nat) (s t : Text) :
    value? (n + 1) (quoted s ++ t) = some (.text s, t) := by
  rw [quoted, List.cons_append, List.append_assoc, List.singleton_append, value?,
    skip_cons_of_not_isSpace (by decide)]
  simp [text?_flatMap_escape]

theorem value?_list {c : Char} {t u : Text} {n : Nat} {items : List Tree}
    (hspace : isSpace c = false) (hclose : c ≠ ']') (h : items? n (c :: t) = some (items, u))
    (level : Nat) : value? (n + 1) ('[' :: (newLine level ++ c :: t)) = some (.list items, u) := by
  rw [value?, skip_cons_of_not_isSpace (by decide)]
  simp only [skip_newLine, skip_cons_of_not_isSpace hspace]
  split
  · next heq => exact absurd (List.cons.inj heq).1 hclose
  · rw [h]
    rfl

theorem value?_record {c : Char} {t u : Text} {n : Nat} {members : List (Text × Tree)}
    (hspace : isSpace c = false) (hclose : c ≠ '\x7d')
    (h : members? n (c :: t) = some (members, u)) (level : Nat) :
    value? (n + 1) ('\x7b' :: (newLine level ++ c :: t)) = some (.record members, u) := by
  rw [value?, skip_cons_of_not_isSpace (by decide)]
  simp only [skip_newLine, skip_cons_of_not_isSpace hspace]
  split
  · next heq => exact absurd (List.cons.inj heq).1 hclose
  · rw [h]
    rfl

/-- What may follow a value: a comma, a new line or nothing. -/
theorem endsNumber_comma (t : Text) : EndsNumber (',' :: t) := by
  rintro _ ⟨rfl⟩
  decide

theorem endsNumber_newLine (level : Nat) (t : Text) : EndsNumber (newLine level ++ t) := by
  rintro _ ⟨rfl⟩
  decide

/-- Values are read with this count, if they are not longer. -/
def ReadsValues (n : Nat) : Prop :=
  ∀ level j t, EndsNumber t → (write level j).length ≤ n →
    value? n (write level j ++ t) = some (j.tree, t)

/-- Items are read with this count, if they are not longer. -/
def ReadsItems (n : Nat) : Prop :=
  ∀ level item items t,
    (body ']' level (write (level + 1) item) (writeItems (level + 1) items)).length ≤ n →
    items? n (body ']' level (write (level + 1) item) (writeItems (level + 1) items) ++ t) =
      some (item.tree :: treeItems items, t)

/-- A member on a line. -/
def member (level : Nat) (name : Text) (value : Json) : Text :=
  quoted name ++ ": ".toList ++ write level value

/-- Members are read with this count, if they are not longer. -/
def ReadsMembers (n : Nat) : Prop :=
  ∀ level name value members t,
    (body '\x7d' level (member (level + 1) name value)
      (writeMembers (level + 1) members)).length ≤ n →
    members? n (body '\x7d' level (member (level + 1) name value)
      (writeMembers (level + 1) members) ++ t) = some ((name, value.tree) :: treeMembers members, t)

theorem readsValues_succ {n : Nat} (hitems : ReadsItems n) (hmembers : ReadsMembers n) :
    ReadsValues (n + 1) := by
  intro level j t ht hlen
  cases j with
  | null =>
    rw [write, tree]
    exact value?_null n t
  | integer i =>
    rw [write, tree]
    exact value?_number (isNumber_ofInt i) ht n
  | number x =>
    rw [write, tree]
    cases htoken : Decimal.token? x with
    | none => exact value?_null n t
    | some token => exact value?_number (isNumber_of_token? htoken) ht n
  | text s =>
    rw [write, tree]
    exact value?_text n s t
  | list items =>
    rw [write] at hlen ⊢
    rw [tree]
    cases items with
    | nil => rfl
    | cons item items =>
      rw [writeItems, bracketed_cons] at hlen ⊢
      rw [List.length_cons, List.length_append] at hlen
      have hread := hitems level item items t (by omega)
      obtain ⟨c, u, hwrite, hspace, hclose, -⟩ := exists_cons_of_write (level + 1) item
      rw [body, hwrite] at hread ⊢
      simp only [List.cons_append, List.append_assoc] at hread ⊢
      exact value?_list hspace hclose hread (level + 1)
  | record members =>
    rw [write] at hlen ⊢
    rw [tree]
    cases members with
    | nil => rfl
    | cons m members =>
      obtain ⟨name, value⟩ := m
      rw [writeMembers, ← member, bracketed_cons] at hlen ⊢
      rw [List.length_cons, List.length_append] at hlen
      have hread := hmembers level name value members t (by omega)
      rw [member, quoted, body] at hread ⊢
      simp only [List.cons_append, List.append_assoc] at hread ⊢
      exact value?_record (by decide) (by decide) hread (level + 1)

theorem readsItems_succ {n : Nat} (hvalues : ReadsValues n) (hitems : ReadsItems n) :
    ReadsItems (n + 1) := by
  intro level item items t hlen
  cases items with
  | nil =>
    rw [writeItems, body_nil] at hlen ⊢
    simp only [List.length_append, List.length_singleton] at hlen
    rw [List.append_assoc, List.append_assoc, items?,
      hvalues _ _ _ (endsNumber_newLine level _) (by omega)]
    simp only [Option.bind_eq_bind, Option.bind_some, skip_newLine]
    rfl
  | cons next items =>
    rw [writeItems, body_cons] at hlen ⊢
    simp only [List.length_append, List.length_cons] at hlen
    have hrest := hitems level next items t (by omega)
    rw [List.append_assoc, List.cons_append, List.append_assoc, items?,
      hvalues _ _ _ (endsNumber_comma _) (by omega)]
    simp only [Option.bind_eq_bind, Option.bind_some, skip_cons_of_not_isSpace
      (by decide : isSpace ',' = false), items?_newLine, hrest]
    rfl

theorem members?_member {n : Nat} (hvalues : ReadsValues n) {level : Nat} (name : Text)
    {value : Json} {t : Text} (ht : EndsNumber t) (hlen : (write level value).length ≤ n) :
    members? (n + 1) (member level name value ++ t) =
      match skip t with
      | ',' :: t => do
        let (members, t) ← members? n t
        return ((name, value.tree) :: members, t)
      | '\x7d' :: t => return ([(name, value.tree)], t)
      | _ => none := by
  have hname := text?_flatMap_escape name (": ".toList ++ (write level value ++ t))
  have hvalue : value? n (' ' :: (write level value ++ t)) = some (value.tree, t) := by
    have hskip : skip (' ' :: (write level value ++ t)) = skip (write level value ++ t) := rfl
    rw [value?_of_skip_eq hskip]
    exact hvalues level value t ht hlen
  have hcolon : skip (": ".toList ++ (write level value ++ t)) =
      ':' :: ' ' :: (write level value ++ t) := skip_cons_of_not_isSpace (by decide)
  simp only [member, quoted, List.cons_append, List.append_assoc, List.nil_append]
  rw [members?, skip_cons_of_not_isSpace (by decide)]
  simp only [hname, hcolon, Option.bind_eq_bind, Option.bind_some]
  rw [hvalue]
  rfl

theorem readsMembers_succ {n : Nat} (hvalues : ReadsValues n) (hmembers : ReadsMembers n) :
    ReadsMembers (n + 1) := by
  intro level name value members t hlen
  have hwrite : (write (level + 1) value).length ≤ (member (level + 1) name value).length := by
    simp [member]
    omega
  cases members with
  | nil =>
    rw [writeMembers, body_nil] at hlen ⊢
    simp only [List.length_append, List.length_singleton] at hlen
    rw [List.append_assoc, List.append_assoc,
      members?_member hvalues name (endsNumber_newLine level _) (by omega), skip_newLine]
    rfl
  | cons next members =>
    obtain ⟨name', value'⟩ := next
    rw [writeMembers, ← member, body_cons] at hlen ⊢
    simp only [List.length_append, List.length_cons] at hlen
    have hrest := hmembers level name' value' members t (by omega)
    rw [List.append_assoc, List.cons_append, List.append_assoc,
      members?_member hvalues name (endsNumber_comma _) (by omega),
      skip_cons_of_not_isSpace (by decide)]
    simp only [members?_newLine, hrest]
    rfl

/-- Whatever is not longer than the count is read: by induction on the count, each value by its
items or members, and these by the first one and the others. -/
theorem reads (n : Nat) : ReadsValues n ∧ ReadsItems n ∧ ReadsMembers n := by
  induction n with
  | zero =>
    refine ⟨fun level j t _ hlen => ?_, fun level item items t hlen => ?_,
      fun level name value members t hlen => ?_⟩
    · obtain ⟨c, u, hwrite, -⟩ := exists_cons_of_write level j
      simp [hwrite] at hlen
    · simp [body] at hlen
    · simp [body] at hlen
  | succ n ih =>
    obtain ⟨hvalues, hitems, hmembers⟩ := ih
    exact ⟨readsValues_succ hitems hmembers, readsItems_succ hvalues hitems,
      readsMembers_succ hvalues hmembers⟩

/-- A document is one JSON text and a line feed. -/
theorem read?_write (j : Json) : read? (write 0 j) = some j.tree := by
  have h := (reads (write 0 j).length).1 0 j [] (by rintro _ ⟨⟩) (Nat.le_refl _)
  rw [List.append_nil] at h
  rw [read?, h]
  rfl

end ReportTally.Json
