import Mathlib.Data.List.Infix
import Mathlib.Tactic.NormNum
import Mathlib.Tactic.Ring
import ReportTally.Proofs.Text.Lines
import ReportTally.Proofs.Text.Search
import ReportTally.Text.Utf8

/-!
# Damaged bytes

The decoder reads any bytes, and an ASCII byte always stands for itself: it ends what came before it
and is never part of a longer sequence (`decode_append_ascii`). No other byte is read as an ASCII
character, so an ASCII character in the text comes from its byte (`exists_of_decode_eq`). This needs
that a sequence which is complete is a character beyond ASCII (`Unfinished.Sound`).

So an ASCII text occurs in a damaged file just where its bytes do (`infix_decode_iff`), and the
lines of the text are the lines of the bytes, read one by one (`lines_decode`). Bytes that are UTF-8
are read as the text they stand for, whatever follows (`decode_encode_append`).
-/

namespace ReportTally

/-! ## Lines of characters or of bytes -/

section Lines

variable {α : Type} [DecidableEq α]

/-- The lines of a list, by the rule for texts, with these characters as line feed and carriage
return. -/
def linesOf (lf cr : α) : List α → List (List α)
  | [] => []
  | c :: t =>
    if c = lf then [] :: linesOf lf cr t
    else if c = cr ∧ t.head? = some lf then linesOf lf cr t
    else match linesOf lf cr t with
      | [] => [[c]]
      | l :: ls => (c :: l) :: ls

/-- A list without its last element, if that is this one. -/
def withoutLast (cr : α) (t : List α) : List α :=
  if t.getLast? = some cr then t.dropLast else t

theorem withoutLast_cons {cr c : α} {t : List α} (h : t ≠ [] ∨ c ≠ cr) :
    withoutLast cr (c :: t) = c :: withoutLast cr t := by
  unfold withoutLast
  cases t with
  | nil => simpa using h
  | cons d t =>
    rw [List.getLast?_cons_cons, List.dropLast_cons_cons]
    split <;> rfl

theorem linesOf_of_notMem {lf cr : α} {t : List α} (h : lf ∉ t) (hne : t ≠ []) :
    linesOf lf cr t = [t] := by
  induction t with
  | nil => exact absurd rfl hne
  | cons c t ih =>
    rw [List.mem_cons, not_or] at h
    have hhead : t.head? ≠ some lf := fun hlf => h.2 (List.mem_of_mem_head? hlf)
    rw [linesOf, if_neg (Ne.symm h.1), if_neg fun hcr => hhead hcr.2]
    cases t with
    | nil => rfl
    | cons d t => rw [ih h.2 (by simp)]

/-- A line, its end, and what follows. -/
theorem linesOf_append {lf cr : α} {t : List α} (h : lf ∉ t) (u : List α) :
    linesOf lf cr (t ++ lf :: u) = withoutLast cr t :: linesOf lf cr u := by
  induction t with
  | nil => rw [List.nil_append, linesOf, if_pos rfl]; rfl
  | cons c t ih =>
    rw [List.mem_cons, not_or] at h
    rw [List.cons_append, linesOf, if_neg (Ne.symm h.1), ih h.2]
    cases t with
    | nil =>
      by_cases hcr : c = cr
      · rw [if_pos ⟨hcr, rfl⟩, hcr]
        simp [withoutLast]
      · rw [if_neg fun hc => hcr hc.1, withoutLast_cons (Or.inr hcr)]
    | cons d t =>
      have hd : d ≠ lf := fun hd => h.2 (hd ▸ List.mem_cons_self)
      have hhead : ¬(c = cr ∧ (d :: t ++ lf :: u).head? = some lf) :=
        fun hc => hd (Option.some.inj hc.2)
      rw [if_neg hhead, withoutLast_cons (t := d :: t) (Or.inl (List.cons_ne_nil d t))]

end Lines

theorem Text.lines_eq_linesOf (t : Text) : Text.lines t = linesOf '\n' '\r' t := by
  induction t with
  | nil => rfl
  | cons c t ih =>
    rw [linesOf]
    split_ifs with hlf hcr
    · rw [hlf, Text.lines_lf, ih]
    · obtain ⟨rfl, hhead⟩ := hcr
      obtain ⟨u, rfl⟩ := List.head?_eq_some_iff.1 hhead
      rw [Text.lines_crlf, ← ih, Text.lines_lf]
    · rw [Text.lines_cons hlf fun hc hhead => hcr ⟨hc, hhead⟩, ih]
      cases linesOf '\n' '\r' t <;> rfl

namespace Utf8

/-- The lines of bytes, without their ends. -/
def lines (bs : Bytes) : List Bytes :=
  linesOf 0x0A 0x0D bs

/-! ## The decoder from a state on -/

/-- What is said for a sequence that is left unfinished. -/
def pending : Option Unfinished → Text
  | none => []
  | some _ => [replacement]

/-- What is read from a state on. -/
def decodeFrom (state : Option Unfinished) : Bytes → Text
  | [] => pending state
  | b :: bs => (step state b).1 ++ decodeFrom (step state b).2 bs

@[simp] theorem decodeFrom_nil (state : Option Unfinished) : decodeFrom state [] = pending state :=
  rfl

theorem decodeFrom_cons (state : Option Unfinished) (b : UInt8) (bs : Bytes) :
    decodeFrom state (b :: bs) = (step state b).1 ++ decodeFrom (step state b).2 bs :=
  rfl

theorem text_foldl_push (bs : Bytes) (r : Reading) :
    (bs.foldl Reading.push r).text = r.reversed.reverse ++ decodeFrom r.state bs := by
  induction bs generalizing r with
  | nil =>
    obtain ⟨reversed, state⟩ := r
    cases state <;> simp [Reading.text, pending]
  | cons b bs ih => simp [ih, Reading.push, decodeFrom_cons]

theorem decode_eq (bs : Bytes) : decode bs = decodeFrom none bs :=
  text_foldl_push bs ⟨[], none⟩

/-! ## Sequences -/

/-- All code points with these leading bits, `k` bytes before their end, are characters beyond
ASCII. -/
def AreChars (k bits : Nat) : Prop :=
  0x80 ≤ bits * 64 ^ k ∧
    (bits * 64 ^ k + 64 ^ k ≤ 0xD800 ∨
      0xDFFF < bits * 64 ^ k ∧ bits * 64 ^ k + 64 ^ k ≤ 0x110000)

theorem AreChars.next {k bits j : Nat} (h : AreChars (k + 1) bits) (hj : j < 64) :
    AreChars k (64 * bits + j) := by
  have hhigh : j * 64 ^ k ≤ 63 * 64 ^ k := Nat.mul_le_mul_right _ (by omega)
  have hlow : (64 * bits + j) * 64 ^ k = bits * 64 ^ (k + 1) + j * 64 ^ k := by ring
  unfold AreChars at h ⊢
  rw [hlow]
  rw [pow_succ] at h ⊢
  omega

theorem AreChars.toNat_ofNat {n : Nat} (h : AreChars 0 n) :
    (Char.ofNat n).toNat = n ∧ 0x80 ≤ n := by
  unfold AreChars at h
  have hvalid : n.isValidChar := by
    unfold Nat.isValidChar
    omega
  refine ⟨?_, by omega⟩
  rw [Char.ofNat, dif_pos hvalid]
  rfl

/-- What may still complete a sequence: bytes beyond ASCII, and only to characters beyond ASCII. -/
structure Unfinished.Sound (u : Unfinished) : Prop where
  /-- A byte is missing. -/
  missing : 1 ≤ u.missing
  /-- The next byte is not ASCII. -/
  low : 0x80 ≤ u.low
  /-- The next byte continues a sequence. -/
  high : u.high ≤ 0xBF
  /-- Whatever byte follows, characters come of it. -/
  chars : ∀ n, u.low ≤ n → n ≤ u.high → AreChars (u.missing - 1) (64 * u.bits + (n - 0x80))

/-- A sequence that is unfinished, if there is one, can be completed only to a character. -/
def Sound (state : Option Unfinished) : Prop :=
  ∀ u, state = some u → u.Sound

theorem sound_none : Sound none :=
  nofun

theorem sound_start (b : UInt8) : Sound (start b).2 := by
  intro u hu
  unfold start at hu
  dsimp only at hu
  split_ifs at hu <;> cases hu <;>
    refine ⟨by norm_num, by norm_num, by norm_num, fun n hlow hhigh => ?_⟩ <;>
    norm_num [AreChars] at hlow hhigh ⊢ <;> omega

theorem sound_step {state : Option Unfinished} (h : Sound state) (b : UInt8) :
    Sound (step state b).2 := by
  cases state with
  | none => exact sound_start b
  | some u =>
    have hu := h u rfl
    unfold step
    dsimp only
    split_ifs with hin hlast
    · exact sound_none
    · rw [Bool.and_eq_true, decide_eq_true_eq, decide_eq_true_eq] at hin
      rintro - ⟨rfl⟩
      have hchars := hu.chars b.toNat hin.1 hin.2
      refine ⟨by dsimp only; omega, le_refl _, le_refl _, fun n hlow hhigh => ?_⟩
      dsimp only at hlow hhigh ⊢
      rw [(by omega : u.missing - 1 = u.missing - 1 - 1 + 1)] at hchars
      exact hchars.next (by omega)
    · exact sound_start b

/-! ## Steps -/

/-- An ASCII byte ends what is unfinished, and stands for itself. -/
theorem step_ascii {state : Option Unfinished} (h : Sound state) {a : UInt8} (ha : a.toNat < 0x80) :
    step state a = (pending state ++ [Char.ofNat a.toNat], none) := by
  have hstart : start a = ([Char.ofNat a.toNat], none) := by
    unfold start
    rw [if_pos ha]
  cases state with
  | none => exact hstart
  | some u =>
    have hlow := (h u rfl).low
    have hout : (decide (u.low ≤ a.toNat) && decide (a.toNat ≤ u.high)) = false := by
      rw [decide_eq_false (by omega), Bool.false_and]
    unfold step
    dsimp only
    rw [hout, hstart]
    rfl

theorem toNat_replacement : replacement.toNat = 0xFFFD := by
  decide

theorem start_of_not_ascii {b : UInt8} (hb : 0x80 ≤ b.toNat) :
    ∀ c ∈ (start b).1, 0x80 ≤ c.toNat := by
  unfold start
  dsimp only
  rw [if_neg (by omega)]
  split_ifs <;> simp [toNat_replacement]

/-- No other byte gives an ASCII character. -/
theorem step_of_not_ascii {state : Option Unfinished} (h : Sound state) {b : UInt8}
    (hb : 0x80 ≤ b.toNat) : ∀ c ∈ (step state b).1, 0x80 ≤ c.toNat := by
  cases state with
  | none => exact start_of_not_ascii hb
  | some u =>
    have hu := h u rfl
    unfold step
    dsimp only
    split_ifs with hin hlast
    · rw [Bool.and_eq_true, decide_eq_true_eq, decide_eq_true_eq] at hin
      have hchars := hu.chars b.toNat hin.1 hin.2
      rw [(by omega : u.missing - 1 = 0)] at hchars
      obtain ⟨hchar, hlow⟩ := hchars.toNat_ofNat
      intro c hc
      rw [List.mem_singleton.1 hc, hchar]
      exact hlow
    · simp
    · intro c hc
      rcases List.mem_cons.1 hc with rfl | hc
      · rw [toNat_replacement]
        norm_num
      · exact start_of_not_ascii hb c hc

/-- A byte says something at once, or leaves something unfinished. -/
theorem step_reads_or_leaves (state : Option Unfinished) (b : UInt8) :
    (step state b).1 ≠ [] ∨ (step state b).2 ≠ none := by
  have hstart : (start b).1 ≠ [] ∨ (start b).2 ≠ none := by
    unfold start
    dsimp only
    split_ifs <;> simp
  cases state with
  | none => exact hstart
  | some u =>
    unfold step
    dsimp only
    split_ifs <;> simp

theorem decodeFrom_some_ne_nil (u : Unfinished) (bs : Bytes) : decodeFrom (some u) bs ≠ [] := by
  induction bs generalizing u with
  | nil => simp [pending]
  | cons b bs ih =>
    rw [decodeFrom_cons]
    rcases step_reads_or_leaves (some u) b with hsays | hleaves
    · exact List.append_ne_nil_of_left_ne_nil hsays _
    · obtain ⟨u', hu'⟩ := Option.ne_none_iff_exists'.1 hleaves
      rw [hu']
      exact List.append_ne_nil_of_right_ne_nil _ (ih u')

theorem eq_nil_of_decode_eq_nil {bs : Bytes} (h : decode bs = []) : bs = [] := by
  rw [decode_eq] at h
  cases bs with
  | nil => rfl
  | cons b bs =>
    rw [decodeFrom_cons, List.append_eq_nil_iff] at h
    have hleaves := (step_reads_or_leaves none b).resolve_left (not_not.2 h.1)
    obtain ⟨u, hu⟩ := Option.ne_none_iff_exists'.1 hleaves
    rw [hu] at h
    exact absurd h.2 (decodeFrom_some_ne_nil u bs)

/-! ## ASCII bytes and ASCII characters -/

theorem decodeFrom_append_ascii {state : Option Unfinished} (h : Sound state) (x y : Bytes)
    {a : UInt8} (ha : a.toNat < 0x80) :
    decodeFrom state (x ++ a :: y) = decodeFrom state x ++ Char.ofNat a.toNat :: decode y := by
  induction x generalizing state with
  | nil =>
    rw [List.nil_append, decodeFrom_cons, step_ascii h ha, decode_eq, decodeFrom_nil,
      List.append_assoc, List.singleton_append]
  | cons b x ih =>
    rw [List.cons_append, decodeFrom_cons, ih (sound_step h b), decodeFrom_cons, List.append_assoc]

/-- An ASCII byte stands for itself, and what is before it is read apart from what follows. -/
theorem decode_append_ascii (x y : Bytes) {a : UInt8} (ha : a.toNat < 0x80) :
    decode (x ++ a :: y) = decode x ++ Char.ofNat a.toNat :: decode y := by
  rw [decode_eq, decode_eq x]
  exact decodeFrom_append_ascii sound_none x y ha

/-- The byte of an ASCII character. -/
def byte (c : Char) : UInt8 :=
  UInt8.ofNat c.toNat

theorem toNat_byte {c : Char} (hc : c.toNat < 0x80) : (byte c).toNat = c.toNat := by
  rw [byte, UInt8.toNat_ofNat']
  omega

theorem byte_ofNat_toNat {a : UInt8} (ha : a.toNat < 0x80) : byte (Char.ofNat a.toNat) = a := by
  have hvalid : a.toNat.isValidChar := Or.inl (by omega)
  have hchar : (Char.ofNat a.toNat).toNat = a.toNat := by
    rw [Char.ofNat, dif_pos hvalid]
    rfl
  rw [byte, hchar, UInt8.ofNat_toNat]

/-- What is said for an unfinished sequence is not ASCII. -/
theorem pending_not_ascii {state : Option Unfinished} : ∀ c ∈ pending state, 0x80 ≤ c.toNat := by
  cases state <;> simp [pending, toNat_replacement]

/-- The first ASCII character after characters that are not ASCII. -/
theorem append_eq_append_of_not_ascii {p t u r : Text} {c : Char} (hp : ∀ d ∈ p, 0x80 ≤ d.toNat)
    (hc : c.toNat < 0x80) (h : p ++ r = t ++ c :: u) : ∃ t', t = p ++ t' ∧ r = t' ++ c :: u := by
  rcases List.append_eq_append_iff.1 h with ⟨t', ht, hr⟩ | ⟨q, hq, hr⟩
  · exact ⟨t', ht, hr⟩
  · cases q with
    | nil => exact ⟨[], by simpa using hq.symm, hr.symm⟩
    | cons d q =>
      obtain ⟨rfl, -⟩ := List.cons.inj hr
      have := hp c (by rw [hq]; simp)
      omega

theorem exists_of_decodeFrom_eq {state : Option Unfinished} (h : Sound state) {bs : Bytes}
    {c : Char} (hc : c.toNat < 0x80) {t u : Text} (hbs : decodeFrom state bs = t ++ c :: u) :
    ∃ x y, bs = x ++ byte c :: y ∧ decodeFrom state x = t ∧ decode y = u := by
  induction bs generalizing state t with
  | nil =>
    have hmem : c ∈ pending state := by
      rw [← decodeFrom_nil, hbs]
      simp
    have := pending_not_ascii c hmem
    omega
  | cons b bs ih =>
    rcases Nat.lt_or_ge b.toNat 0x80 with hb | hb
    · have hstep := step_ascii h hb
      rw [decodeFrom_cons, hstep, List.append_assoc, List.singleton_append] at hbs
      obtain ⟨t', rfl, htail⟩ := append_eq_append_of_not_ascii pending_not_ascii hc hbs
      cases t' with
      | nil =>
        obtain ⟨rfl, rfl⟩ := List.cons.inj htail
        refine ⟨[], bs, ?_, ?_, decode_eq bs⟩
        · rw [byte_ofNat_toNat hb, List.nil_append]
        · rw [List.append_nil, decodeFrom_nil]
      | cons d t' =>
        obtain ⟨rfl, hrest⟩ := List.cons.inj htail
        obtain ⟨x, y, rfl, hx, hy⟩ := ih sound_none hrest
        refine ⟨b :: x, y, rfl, ?_, hy⟩
        rw [decodeFrom_cons, hstep, hx, List.append_assoc, List.singleton_append]
    · rw [decodeFrom_cons] at hbs
      obtain ⟨t', rfl, htail⟩ := append_eq_append_of_not_ascii (step_of_not_ascii h hb) hc hbs
      obtain ⟨x, y, rfl, hx, hy⟩ := ih (sound_step h b) htail
      exact ⟨b :: x, y, rfl, by rw [decodeFrom_cons, hx], hy⟩

/-- An ASCII character in the text comes from its byte. -/
theorem exists_of_decode_eq {bs : Bytes} {c : Char} (hc : c.toNat < 0x80) {t u : Text}
    (hbs : decode bs = t ++ c :: u) :
    ∃ x y, bs = x ++ byte c :: y ∧ decode x = t ∧ decode y = u := by
  rw [decode_eq] at hbs
  obtain ⟨x, y, rfl, hx, hy⟩ := exists_of_decodeFrom_eq sound_none hc hbs
  exact ⟨x, y, rfl, by rw [decode_eq, hx], hy⟩

/-! ## Where an ASCII text occurs -/

theorem exists_of_decode_eq_append {m : Text} (hm : ∀ c ∈ m, c.toNat < 0x80) {bs : Bytes} {u : Text}
    (h : decode bs = m ++ u) : ∃ y, bs = m.map byte ++ y ∧ decode y = u := by
  induction m generalizing bs with
  | nil => exact ⟨bs, rfl, h⟩
  | cons c m ih =>
    obtain ⟨x, y, rfl, hx, hy⟩ := exists_of_decode_eq (hm c List.mem_cons_self) (t := []) h
    obtain rfl := eq_nil_of_decode_eq_nil hx
    obtain ⟨z, rfl, hz⟩ := ih (fun d hd => hm d (List.mem_cons_of_mem c hd)) hy
    exact ⟨z, rfl, hz⟩

theorem decode_map_byte_append {m : Text} (hm : ∀ c ∈ m, c.toNat < 0x80) (y : Bytes) :
    decode (m.map byte ++ y) = m ++ decode y := by
  induction m with
  | nil => rfl
  | cons c m ih =>
    have hc := hm c List.mem_cons_self
    have hbyte : (byte c).toNat < 0x80 := by
      rw [toNat_byte hc]
      exact hc
    rw [List.map_cons, List.cons_append, ← List.nil_append (byte c :: _),
      decode_append_ascii [] _ hbyte, ih fun d hd => hm d (List.mem_cons_of_mem c hd),
      toNat_byte hc, Char.ofNat_toNat]
    rfl

/-- An ASCII text occurs in what is read just where its bytes do. -/
theorem infix_decode_iff {m : Text} (hne : m ≠ []) (hm : ∀ c ∈ m, c.toNat < 0x80) (bs : Bytes) :
    m <:+: decode bs ↔ m.map byte <:+: bs := by
  obtain ⟨c, m, rfl⟩ := List.exists_cons_of_ne_nil hne
  have hc := hm c List.mem_cons_self
  have hm' : ∀ d ∈ m, d.toNat < 0x80 := fun d hd => hm d (List.mem_cons_of_mem c hd)
  constructor
  · rintro ⟨t, u, h⟩
    rw [List.append_assoc, List.cons_append] at h
    obtain ⟨x, y, rfl, -, hy⟩ := exists_of_decode_eq hc h.symm
    obtain ⟨z, rfl, -⟩ := exists_of_decode_eq_append hm' hy
    exact ⟨x, z, by simp⟩
  · rintro ⟨x, z, rfl⟩
    have hbyte : (byte c).toNat < 0x80 := by
      rw [toNat_byte hc]
      exact hc
    refine ⟨decode x, decode z, ?_⟩
    rw [List.map_cons, List.append_assoc x, List.cons_append, decode_append_ascii x _ hbyte,
      decode_map_byte_append hm', toNat_byte hc, Char.ofNat_toNat]
    simp

/-! ## Lines -/

theorem notMem_decode {bs : Bytes} {c : Char} (hc : c.toNat < 0x80) (h : byte c ∉ bs) :
    c ∉ decode bs := by
  intro hmem
  obtain ⟨t, u, htu⟩ := List.append_of_mem hmem
  obtain ⟨x, y, rfl, -⟩ := exists_of_decode_eq hc htu
  exact h (by simp)

theorem decode_withoutLast (x : Bytes) :
    decode (withoutLast 0x0D x) = withoutLast '\r' (decode x) := by
  have hcr : (0x0D : UInt8).toNat < 0x80 := by decide
  unfold withoutLast
  by_cases h : x.getLast? = some 0x0D
  · obtain ⟨x, rfl⟩ := List.getLast?_eq_some_iff.1 h
    have hdecode : decode (x ++ [0x0D]) = decode x ++ ['\r'] := decode_append_ascii x [] hcr
    rw [if_pos h, hdecode, List.dropLast_concat, if_pos List.getLast?_concat,
      List.dropLast_concat]
  · rw [if_neg h, if_neg]
    intro h'
    obtain ⟨t, ht⟩ := List.getLast?_eq_some_iff.1 h'
    obtain ⟨y, z, rfl, -, hz⟩ := exists_of_decode_eq (by decide) ht
    obtain rfl := eq_nil_of_decode_eq_nil hz
    exact h List.getLast?_concat

/-- The lines of the text are the lines of the bytes, read one by one. -/
theorem lines_decode (bs : Bytes) : Text.lines (decode bs) = (lines bs).map decode := by
  rw [Text.lines_eq_linesOf]
  by_cases hlf : (0x0A : UInt8) ∈ bs
  · obtain ⟨x, y, rfl, hx⟩ := List.eq_append_cons_of_mem hlf
    have hdecode : decode (x ++ 0x0A :: y) = decode x ++ '\n' :: decode y :=
      decode_append_ascii x y (by decide)
    have hrest := lines_decode y
    rw [Text.lines_eq_linesOf] at hrest
    have hlines : lines (x ++ 0x0A :: y) = withoutLast 0x0D x :: lines y := linesOf_append hx y
    rw [hdecode, linesOf_append (notMem_decode (c := '\n') (by decide) hx), hrest, hlines,
      List.map_cons, decode_withoutLast]
  · rcases eq_or_ne bs [] with rfl | hne
    · rfl
    · have hne' : decode bs ≠ [] := fun h => hne (eq_nil_of_decode_eq_nil h)
      rw [linesOf_of_notMem (notMem_decode (c := '\n') (by decide) hlf) hne', lines,
        linesOf_of_notMem hlf hne]
      rfl
termination_by bs.length
decreasing_by
  subst_vars
  rw [List.length_append, List.length_cons]
  omega

/-! ## Bytes that are UTF-8 -/

/-- The byte that completes a sequence. -/
theorem decodeFrom_last {bits low high : Nat} {b : UInt8} (hlow : low ≤ b.toNat)
    (hhigh : b.toNat ≤ high) (bs : Bytes) :
    decodeFrom (some ⟨1, bits, low, high⟩) (b :: bs) =
      Char.ofNat (64 * bits + (b.toNat - 0x80)) :: decodeFrom none bs := by
  simp [decodeFrom_cons, step, hlow, hhigh]

/-- A byte inside a sequence. -/
theorem decodeFrom_inside {k bits low high : Nat} {b : UInt8} (hlow : low ≤ b.toNat)
    (hhigh : b.toNat ≤ high) (bs : Bytes) :
    decodeFrom (some ⟨k + 2, bits, low, high⟩) (b :: bs) =
      decodeFrom (some ⟨k + 1, 64 * bits + (b.toNat - 0x80), 0x80, 0xBF⟩) bs := by
  simp [decodeFrom_cons, step, hlow, hhigh]

/-- The first byte of two. -/
theorem decodeFrom_two {b : UInt8} (h : 0xC2 ≤ b.toNat) (h' : b.toNat < 0xE0) (bs : Bytes) :
    decodeFrom none (b :: bs) = decodeFrom (some ⟨1, b.toNat - 0xC0, 0x80, 0xBF⟩) bs := by
  simp only [decodeFrom_cons, step, start]
  rw [if_neg (by omega), if_neg (by omega), if_pos h']
  rfl

/-- The first byte of three. -/
theorem decodeFrom_three {b : UInt8} (h : 0xE0 ≤ b.toNat) (h' : b.toNat < 0xF0) (bs : Bytes) :
    decodeFrom none (b :: bs) =
      decodeFrom (some ⟨2, b.toNat - 0xE0, if b.toNat = 0xE0 then 0xA0 else 0x80,
        if b.toNat = 0xED then 0x9F else 0xBF⟩) bs := by
  simp only [decodeFrom_cons, step, start]
  rw [if_neg (by omega), if_neg (by omega), if_neg (by omega), if_pos h']
  rfl

/-- The first byte of four. -/
theorem decodeFrom_four {b : UInt8} (h : 0xF0 ≤ b.toNat) (h' : b.toNat < 0xF5) (bs : Bytes) :
    decodeFrom none (b :: bs) =
      decodeFrom (some ⟨3, b.toNat - 0xF0, if b.toNat = 0xF0 then 0x90 else 0x80,
        if b.toNat = 0xF4 then 0x8F else 0xBF⟩) bs := by
  simp only [decodeFrom_cons, step, start]
  rw [if_neg (by omega), if_neg (by omega), if_neg (by omega), if_neg (by omega), if_pos h']
  rfl

theorem decode_utf8EncodeChar_append (c : Char) (y : Bytes) :
    decode (String.utf8EncodeChar c ++ y) = c :: decode y := by
  have hvalid := c.valid
  have hv : c.val.toNat = c.toNat := rfl
  simp only [UInt32.isValidChar, Nat.isValidChar, hv] at hvalid
  have hbyte : ∀ n < 256, (UInt8.ofNat n).toNat = n := fun n hn => by
    rw [UInt8.toNat_ofNat']
    omega
  have hchar : ∀ n, n = c.toNat → Char.ofNat n :: decodeFrom none y = c :: decodeFrom none y := by
    rintro n rfl
    rw [Char.ofNat_toNat]
  simp only [decode_eq, String.utf8EncodeChar, hv]
  generalize c.toNat = v at hvalid hchar
  split_ifs with h₁ h₂ h₃
  · have h₀ := hbyte v (by omega)
    rw [List.singleton_append, decodeFrom_cons, step_ascii sound_none (by omega), h₀]
    exact hchar v rfl
  · have h₀ := hbyte (v / 64 % 32 + 192) (by omega)
    have h₁ := hbyte (v % 64 + 128) (by omega)
    rw [List.cons_append, List.singleton_append, decodeFrom_two (by omega) (by omega),
      decodeFrom_last (by omega) (by omega), h₀, h₁]
    exact hchar _ (by omega)
  · have h₀ := hbyte (v / 4096 % 16 + 224) (by omega)
    have h₁ := hbyte (v / 64 % 64 + 128) (by omega)
    have h₂ := hbyte (v % 64 + 128) (by omega)
    rw [List.cons_append, List.cons_append, List.singleton_append,
      decodeFrom_three (by omega) (by omega), decodeFrom_inside,
      decodeFrom_last (by omega) (by omega), h₀, h₁, h₂]
    · exact hchar _ (by omega)
    · split_ifs <;> omega
    · split_ifs <;> omega
  · have h₀ := hbyte (v / 262144 % 8 + 240) (by omega)
    have h₁ := hbyte (v / 4096 % 64 + 128) (by omega)
    have h₂ := hbyte (v / 64 % 64 + 128) (by omega)
    have h₃ := hbyte (v % 64 + 128) (by omega)
    rw [List.cons_append, List.cons_append, List.cons_append, List.singleton_append,
      decodeFrom_four (by omega) (by omega), decodeFrom_inside,
      decodeFrom_inside (by omega) (by omega), decodeFrom_last (by omega) (by omega), h₀, h₁, h₂,
      h₃]
    · exact hchar _ (by omega)
    · split_ifs <;> omega
    · split_ifs <;> omega

/-- Bytes of a text are read as the text, whatever follows. -/
theorem decode_encode_append (t : Text) (y : Bytes) : decode (encode t ++ y) = t ++ decode y := by
  induction t with
  | nil => rfl
  | cons c t ih =>
    rw [encode, List.flatMap_cons, List.append_assoc, decode_utf8EncodeChar_append, ← encode, ih]
    rfl

theorem decode_encode (t : Text) : decode (encode t) = t := by
  have h := decode_encode_append t []
  rw [List.append_nil] at h
  rw [h]
  exact List.append_nil t

/-! ## Reading damaged bytes -/

/-- Reading damaged bytes neither hides nor forges what is ASCII. An ASCII byte stands for itself
and keeps apart what is read on its two sides, an ASCII text occurs just where its bytes do, the
lines of the text are read from the lines of the bytes, each from its own line alone, and bytes that
are UTF-8 are read as the text they stand for. -/
theorem decode_locally :
    (∀ (x y : Bytes) (a : UInt8), a.toNat < 0x80 →
      decode (x ++ [a] ++ y) = decode x ++ [Char.ofNat a.toNat] ++ decode y) ∧
    (∀ (bs : Bytes) (m : Text), m ≠ [] → (∀ c ∈ m, c.toNat < 0x80) →
      (Text.occurs m (decode bs) = true ↔ m.map byte <:+: bs)) ∧
    (∀ bs, Text.lines (decode bs) = (lines bs).map decode) ∧
    (∀ (bs bs' : Bytes) (i : Nat), (lines bs')[i]? = (lines bs)[i]? →
      (Text.lines (decode bs'))[i]? = (Text.lines (decode bs))[i]?) ∧
    ∀ t, decode (encode t) = t := by
  refine ⟨fun x y a ha => ?_, fun bs m hne hm => ?_, lines_decode, fun bs bs' i h => ?_,
    decode_encode⟩
  · rw [List.append_assoc, List.append_assoc]
    exact decode_append_ascii x y ha
  · rw [Text.occurs_iff]
    exact infix_decode_iff hne hm bs
  · rw [lines_decode, lines_decode, List.getElem?_map, List.getElem?_map, h]

/-- A damaged first line, which ends within a sequence of three bytes. -/
def damagedLine : Bytes :=
  [0x4D, 0xE2, 0x82, 0x0D, 0x0A] ++ "Methods: 1\n".toList.map byte

theorem decode_damagedLine :
    decode ([0x4D, 0xE2, 0x82] ++ [0x0D] ++ 0x0A :: "Methods: 1\n".toList.map byte) =
      decode [0x4D, 0xE2, 0x82] ++ ['\r'] ++ decode (0x0A :: "Methods: 1\n".toList.map byte) ∧
    Text.occurs "Methods:".toList (decode damagedLine) = true ∧
    Text.lines (decode damagedLine) = [['M', replacement], "Methods: 1".toList] ∧
    (Text.lines (decode damagedLine))[1]? =
      (Text.lines (decode (0x0A :: "Methods: 1\n".toList.map byte)))[1]? ∧
    decode (encode "é€".toList) = "é€".toList := by
  obtain ⟨hascii, hoccurs, hlines, hline, hutf8⟩ := decode_locally
  refine ⟨hascii _ _ 0x0D (by decide), ?_, ?_, hline _ _ 1 (by decide +kernel), hutf8 _⟩
  · refine (hoccurs _ _ (by decide) (by simp)).2 ?_
    exact ⟨[0x4D, 0xE2, 0x82, 0x0D, 0x0A], " 1\n".toList.map byte, by decide +kernel⟩
  · rw [hlines]
    decide +kernel

end Utf8

end ReportTally
