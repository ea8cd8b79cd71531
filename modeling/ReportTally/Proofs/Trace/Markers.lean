import Mathlib.Data.List.Infix
import Mathlib.Data.List.Permutation
import ReportTally.Trace.Outcome

/-!
# Marker lines

`Feeds.label` says for each total how its lines start, and `markers` is the table of just these
labels (`mem_markers_iff`). No label starts another one, so a line belongs to at most one marker
(`prefixFree_markers`), and looking for the first marker of a line finds the only one
(`PrefixFree.find?_eq_some_iff`).

`feedLine_of_starts`, `feedLine_of_unknown` and `feed_cases` say what a line does to the
statistics.

Which marker is tried first does not matter: by a table with the same entries in another order every
trace is read as by `markers` (`outcome_of_table`).
-/

namespace ReportTally.Trace

/-! ## Labels -/

/-- How the lines of a count start. -/
def Count.label : Count → Text
  | .methods => "Methods:".toList
  | .failedMethods => "Methods failed".toList
  | .interestingMethods => "Interesting methods".toList
  | .unsupportedMethods => "Unsupported".toList
  | .concreteMethods => "Concrete-columns".toList
  | .concreteMethodsMapped => "Concrete methods".toList
  | .unionUnused => "Union unused:".toList
  | .unionAllUsed => "Union all used".toList
  | .unionSuperset => "Union superset".toList
  | .inputUnused => "Input unused:".toList
  | .inputAllUsed => "Input all used".toList
  | .outputUnused => "Output unused:".toList
  | .outputAllUsed => "Output all used".toList
  | .stringAccesses => "Used columns string accesses".toList
  | .indexAccesses => "Used columns index accesses".toList
  | .unionSavings => "!Union columns count cumulative".toList
  | .inputSavings => "!Input columns count cumulative".toList
  | .outputSavings => "!Output columns count cumulative".toList

/-- How the lines of a share start. -/
def Share.label : Share → Text
  | .union => "!Union columns percentage count cumulative".toList
  | .input => "!Input columns percentage count cumulative".toList
  | .output => "!Output columns percentage count cumulative".toList

/-- How the lines of a total start. -/
def Feeds.label : Feeds → Text
  | .count k => k.label
  | .share r => r.label
  | .time => "Total analysis time".toList

/-- The table lists every total under its label, and nothing else. -/
theorem mem_markers_iff {m : Marker} : m ∈ markers ↔ m.label = m.feeds.label := by
  have labels : markers.map Marker.label = markers.map fun m => m.feeds.label := rfl
  have feeds : ∀ f : Feeds, f ∈ markers.map Marker.feeds := by
    rintro (k | r | _)
    · cases k <;> decide
    · cases r <;> decide
    · decide
  constructor
  · exact fun h => List.map_inj_left.1 labels m h
  · intro h
    obtain ⟨m', hm', hf⟩ := List.mem_map.1 (feeds m.feeds)
    have hl : m'.label = m.label := by rw [List.map_inj_left.1 labels m' hm', hf, h]
    obtain ⟨l, f⟩ := m
    obtain ⟨l', f'⟩ := m'
    obtain rfl : f' = f := hf
    obtain rfl : l' = l := hl
    exact hm'

/-! ## One marker for a line -/

/-- No line starts with the labels of two markers of the table. -/
def PrefixFree (table : List Marker) : Prop :=
  ∀ m ∈ table, ∀ m' ∈ table, ∀ line : Text, m.label <+: line → m'.label <+: line → m = m'

theorem prefixFree_markers : PrefixFree markers := by
  have labels : ∀ m ∈ markers, ∀ m' ∈ markers, m.label <+: m'.label → m = m' := by
    decide +kernel
  intro m hm m' hm' line h h'
  rcases List.prefix_or_prefix_of_prefix h h' with hp | hp
  · exact labels m hm m' hm' hp
  · exact (labels m' hm' m hm hp).symm

/-- In such a table the first marker of a line is its only one. -/
theorem PrefixFree.find?_eq_some_iff {table : List Marker} (ht : PrefixFree table) {m : Marker}
    {line : Text} :
    (table.find? fun m => m.label.isPrefixOf line) = some m ↔ m ∈ table ∧ m.label <+: line := by
  constructor
  · intro h
    exact ⟨List.mem_of_find?_eq_some h, by simpa using List.find?_some h⟩
  · rintro ⟨hm, hp⟩
    cases h : table.find? fun m => m.label.isPrefixOf line with
    | none =>
      have := List.find?_eq_none.1 h m hm
      exact absurd (List.isPrefixOf_iff_prefix.2 hp) this
    | some m' =>
      have hp' : m'.label <+: line := by simpa using List.find?_some h
      rw [ht m' (List.mem_of_find?_eq_some h) m hm line hp' hp]

theorem nodup_markers : markers.Nodup :=
  List.Nodup.of_map Marker.feeds (by decide)

section Order

variable {table table' : List Marker}

theorem PrefixFree.perm (ht : PrefixFree table) (hp : table'.Perm table) : PrefixFree table' :=
  fun m hm m' hm' => ht m (hp.mem_iff.1 hm) m' (hp.mem_iff.1 hm')

/-- No line belongs to two entries. -/
theorem PrefixFree.countP_le_one (ht : PrefixFree table) (hnodup : table.Nodup) (line : Text) :
    (table.countP fun m => m.label.isPrefixOf line) ≤ 1 := by
  rw [List.countP_eq_length_filter]
  have hfilter := hnodup.filter fun m => m.label.isPrefixOf line
  have hsame : ∀ m ∈ table.filter (fun m => m.label.isPrefixOf line),
      ∀ m' ∈ table.filter (fun m => m.label.isPrefixOf line), m = m' := by
    intro m hm m' hm'
    rw [List.mem_filter, List.isPrefixOf_iff_prefix] at hm hm'
    exact ht m hm.1 m' hm'.1 line hm.2 hm'.2
  generalize table.filter (fun m => m.label.isPrefixOf line) = fits at hfilter hsame
  cases fits with
  | nil => simp
  | cons m rest =>
    cases rest with
    | nil => simp
    | cons m' rest =>
      have hne : m ≠ m' := List.rel_of_pairwise_cons hfilter List.mem_cons_self
      exact absurd (hsame m (by simp) m' (by simp)) hne

/-- The marker of a line is found in any order of the table. -/
theorem PrefixFree.find?_perm (ht : PrefixFree table) (hp : table'.Perm table) (line : Text) :
    (table'.find? fun m => m.label.isPrefixOf line) =
      table.find? fun m => m.label.isPrefixOf line := by
  refine Option.ext fun m => ?_
  rw [(ht.perm hp).find?_eq_some_iff, ht.find?_eq_some_iff, hp.mem_iff]

end Order

/-- A line that starts with a label belongs to the total of that label. -/
theorem Feeds.label_prefix_iff {m : Marker} {line : Text} (hm : m ∈ markers)
    (hp : m.label <+: line) (f : Feeds) : f.label <+: line ↔ m.feeds = f := by
  constructor
  · intro hf
    have hmem : (⟨f.label, f⟩ : Marker) ∈ markers := mem_markers_iff.2 rfl
    rw [prefixFree_markers m hm _ hmem line hp hf]
  · rintro rfl
    rwa [← mem_markers_iff.1 hm]

namespace Statistics

/-- A line that starts with a marker of the table is read by that marker. -/
theorem feedLine_of_starts {table : List Marker} (ht : PrefixFree table) {m : Marker} {line : Text}
    (hm : m ∈ table) (hp : m.label <+: Text.trim line) (s : Statistics) :
    feedLine table s line = s.feed m (Text.trim line) := by
  simp only [feedLine, ht.find?_eq_some_iff.2 ⟨hm, hp⟩]

/-- A line that starts with no marker of the table says nothing. -/
theorem feedLine_of_unknown {table : List Marker} {line : Text}
    (h : ∀ m ∈ table, ¬m.label <+: Text.trim line) (s : Statistics) :
    feedLine table s line = .ok s := by
  have hnone : (table.find? fun m => m.label.isPrefixOf (Text.trim line)) = none :=
    List.find?_eq_none.2 fun m hm hp => h m hm (List.isPrefixOf_iff_prefix.1 hp)
  simp only [feedLine, hnone]

/-- What a marker line does, for each kind of marker. -/
theorem feed_cases {st st' : Statistics} {m : Marker} {line : Text}
    (h : st.feed m line = .ok st') :
    (∃ k n, m.feeds = .count k ∧ Payload.integer m.label line = .ok n ∧
      st' = ⟨st.counters.bump k n, st.interesting && !(k = .interestingMethods && n = 0)⟩) ∨
    (∃ r x, m.feeds = .share r ∧ Payload.number m.label line = .ok x ∧
      st' = ⟨st.counters.bumpShare r x, st.interesting⟩) ∨
    (∃ x, m.feeds = .time ∧ Payload.elapsed m.label line = .ok x ∧
      st' = if st.interesting then ⟨st.counters.bumpSeconds x, true⟩ else st) := by
  unfold feed at h
  cases hf : m.feeds with
  | count k =>
    rw [hf] at h
    cases hn : Payload.integer m.label line with
    | error e => simp [hn, bind, Except.bind] at h
    | ok n =>
      refine Or.inl ⟨k, n, rfl, rfl, ?_⟩
      simpa [hn, bind, Except.bind, pure, Except.pure] using h.symm
  | share r =>
    rw [hf] at h
    cases hx : Payload.number m.label line with
    | error e => simp [hx, bind, Except.bind] at h
    | ok x =>
      refine Or.inr (Or.inl ⟨r, x, rfl, rfl, ?_⟩)
      simpa [hx, bind, Except.bind, pure, Except.pure] using h.symm
  | time =>
    rw [hf] at h
    cases hx : Payload.elapsed m.label line with
    | error e => simp [hx, bind, Except.bind] at h
    | ok x =>
      refine Or.inr (Or.inr ⟨x, rfl, rfl, ?_⟩)
      simpa [hx, bind, Except.bind, pure, Except.pure] using h.symm

/-! ## The order of the table -/

theorem feedLine_perm {table table' : List Marker} (ht : PrefixFree table)
    (hp : table'.Perm table) : feedLine table' = feedLine table := by
  funext st line
  rw [feedLine, feedLine, ht.find?_perm hp]

theorem ofText_perm {table table' : List Marker} (ht : PrefixFree table)
    (hp : table'.Perm table) : ofText table' = ofText table := by
  funext t
  rw [ofText, ofText, feedLine_perm ht hp]

end Statistics

/-- The order of the markers decides nothing. At most one entry of the table stands at the start
of a line, so by the same entries in any order a trace is read with the same outcome, with the same
statistics if it has any, and with the same flaw if it has one. -/
theorem outcome_of_table {table : List Marker} (hp : table.Perm markers) :
    (∀ line : Text, (table.countP fun m => m.label.isPrefixOf line) ≤ 1) ∧
      ∀ t : Text, Outcome.ofTextWith table t = Outcome.ofText t := by
  refine ⟨(prefixFree_markers.perm hp).countP_le_one (hp.nodup_iff.2 nodup_markers), fun t => ?_⟩
  unfold Outcome.ofText Outcome.ofTextWith
  rw [Statistics.ofText_perm prefixFree_markers hp]

/-- By the table from its end, the first flaw of a trace with two is still that of its first line. -/
theorem outcome_of_reversedTable : Outcome.ofTextWith markers.reverse
    "Done analyzing the assembly\nMethods failed 3\nMethods: x\nSUCCESS".toList =
      .error (.noColon "Methods failed".toList "Methods failed 3".toList) := by
  rw [(outcome_of_table (List.reverse_perm markers)).2]
  cbv

end ReportTally.Trace
