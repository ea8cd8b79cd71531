import Mathlib.Algebra.Ring.Nat
import Mathlib.Data.Finset.Card
import ReportTally.Proofs.Report.Feeding
import ReportTally.Proofs.Savings.Reading
import ReportTally.Proofs.Text.Order

/-!
# Grouping of savings traces

Groups are kept `Sorted` by processor, and `assembliesOf` looks a processor up in them. To insert
an assembly adds it at the end of one group and changes no other one (`assembliesOf_insert`).

`Tally.Groups` says which groups belong to a list of traces; one trace more keeps it
(`Tally.Groups.add`), so a run ends with the groups of its traces (`Tally.groups_foldl_add`,
`summarize_savings`), and `grouping_of_traces` reads the summary off them.
-/

namespace ReportTally.Savings

/-! ## Sorted groups -/

/-- The processors increase. -/
def Sorted (gs : List Group) : Prop :=
  gs.Pairwise fun g h => g.processor < h.processor

/-- The assemblies of a processor, if there is a group for it. -/
def assembliesOf (p : Text) : List Group → List Text
  | [] => []
  | g :: gs => if g.processor = p then g.assemblies else assembliesOf p gs

theorem assembliesOf_of_notMem {p : Text} {gs : List Group} (h : p ∉ gs.map Group.processor) :
    assembliesOf p gs = [] := by
  induction gs with
  | nil => rfl
  | cons g gs ih =>
    rw [List.map_cons, List.mem_cons, not_or] at h
    rw [assembliesOf, if_neg fun hg => h.1 hg.symm]
    exact ih h.2

theorem assembliesOf_of_mem {g : Group} {gs : List Group} (hs : Sorted gs) (hg : g ∈ gs) :
    assembliesOf g.processor gs = g.assemblies := by
  induction gs with
  | nil => simp at hg
  | cons h gs ih =>
    obtain ⟨hlt, hs⟩ := List.pairwise_cons.1 hs
    rw [assembliesOf]
    rcases List.mem_cons.1 hg with rfl | hg
    · rw [if_pos rfl]
    · have hne : h.processor ≠ g.processor := Text.ne_of_lt (hlt g hg)
      rw [if_neg hne]
      exact ih hs hg

theorem mem_insert_iff (p a q : Text) (gs : List Group) :
    q ∈ (insert p a gs).map Group.processor ↔ q = p ∨ q ∈ gs.map Group.processor := by
  induction gs with
  | nil => simp [insert]
  | cons g gs ih =>
    rw [insert]
    split_ifs with hg hle
    · simp [hg]
    · simp
    · rw [List.map_cons, List.mem_cons, ih, List.map_cons, List.mem_cons]
      tauto

theorem Sorted.insert {gs : List Group} (h : Sorted gs) (p a : Text) :
    Sorted (Savings.insert p a gs) := by
  induction gs with
  | nil => exact List.pairwise_singleton _ _
  | cons g gs ih =>
    obtain ⟨hlt, hs⟩ := List.pairwise_cons.1 h
    rw [Savings.insert]
    split_ifs with hg hle
    · subst hg
      exact List.pairwise_cons.2 ⟨hlt, hs⟩
    · have hpg : p < g.processor := Text.lt_of_le_of_ne hle fun he => hg he.symm
      refine List.pairwise_cons.2 ⟨fun g' hg' => ?_, h⟩
      rcases List.mem_cons.1 hg' with rfl | hg'
      · exact hpg
      · exact List.lt_trans hpg (hlt g' hg')
    · refine List.pairwise_cons.2 ⟨fun g' hg' => ?_, ih hs⟩
      have hmem := (mem_insert_iff p a g'.processor gs).1 (List.mem_map_of_mem hg')
      rcases hmem with hp | hmem
      · rw [hp]
        exact Text.lt_of_not_le hle
      · obtain ⟨g'', hg'', heq⟩ := List.mem_map.1 hmem
        rw [← heq]
        exact hlt g'' hg''

/-- An assembly goes to the end of its group. -/
theorem assembliesOf_insert {gs : List Group} (h : Sorted gs) (p a q : Text) :
    assembliesOf q (insert p a gs) = assembliesOf q gs ++ if p = q then [a] else [] := by
  induction gs with
  | nil => by_cases hq : p = q <;> simp [insert, assembliesOf, hq]
  | cons g gs ih =>
    obtain ⟨hlt, hs⟩ := List.pairwise_cons.1 h
    rw [insert]
    by_cases hg : g.processor = p
    · rw [if_pos hg]
      by_cases hq : p = q <;> simp [assembliesOf, hg, hq]
    · rw [if_neg hg]
      by_cases hle : Text.le p g.processor = true
      · have hpg : p < g.processor := Text.lt_of_le_of_ne hle fun he => hg he.symm
        have hnew : assembliesOf p gs = [] := by
          refine assembliesOf_of_notMem fun hmem => ?_
          obtain ⟨g', hg', heq⟩ := List.mem_map.1 hmem
          exact Text.ne_of_lt (List.lt_trans hpg (hlt g' hg')) heq.symm
        rw [if_pos hle]
        by_cases hq : p = q
        · subst hq
          simp [assembliesOf, hg, hnew]
        · simp [assembliesOf, hq]
      · rw [if_neg hle]
        by_cases hq : g.processor = q
        · have hne : p ≠ q := fun he => hg (hq.trans he.symm)
          simp [assembliesOf, hq, hne]
        · simp only [assembliesOf, if_neg hq]
          exact ih hs

/-- The number of assemblies in all groups. -/
def size (gs : List Group) : Nat :=
  (gs.map fun g => g.assemblies.length).sum

theorem size_insert (p a : Text) (gs : List Group) : size (insert p a gs) = size gs + 1 := by
  induction gs with
  | nil => rfl
  | cons g gs ih =>
    rw [insert]
    split_ifs
    · simp only [size, List.map_cons, List.sum_cons, List.length_append, List.length_singleton]
      omega
    · simp only [size, List.map_cons, List.sum_cons, List.length_singleton]
      omega
    · simp only [size, List.map_cons, List.sum_cons] at ih ⊢
      omega

/-! ## One trace more -/

/-- One assembly for each of some processors. -/
def insertAll (a : Text) (ps : List Text) (gs : List Group) : List Group :=
  ps.foldl (fun gs p => insert p a gs) gs

theorem Sorted.insertAll {gs : List Group} (h : Sorted gs) (a : Text) (ps : List Text) :
    Sorted (Savings.insertAll a ps gs) := by
  induction ps generalizing gs with
  | nil => exact h
  | cons p ps ih => exact ih (h.insert p a)

theorem mem_insertAll_iff (a q : Text) (ps : List Text) (gs : List Group) :
    q ∈ (insertAll a ps gs).map Group.processor ↔ q ∈ ps ∨ q ∈ gs.map Group.processor := by
  induction ps generalizing gs with
  | nil => simp [insertAll]
  | cons p ps ih =>
    rw [insertAll, List.foldl_cons, ← insertAll, ih, mem_insert_iff, List.mem_cons]
    tauto

theorem assembliesOf_insertAll {gs : List Group} {ps : List Text} (h : Sorted gs) (hps : ps.Nodup)
    (a q : Text) :
    assembliesOf q (insertAll a ps gs) = assembliesOf q gs ++ if q ∈ ps then [a] else [] := by
  induction ps generalizing gs with
  | nil => simp [insertAll]
  | cons p ps ih =>
    obtain ⟨hp, hps⟩ := List.nodup_cons.1 hps
    rw [insertAll, List.foldl_cons, ← insertAll, ih (h.insert p a) hps, assembliesOf_insert h,
      List.append_assoc]
    by_cases hq : p = q
    · subst hq
      simp [hp]
    · simp [hq, Ne.symm hq]

theorem size_insertAll (a : Text) (ps : List Text) (gs : List Group) :
    size (insertAll a ps gs) = size gs + ps.length := by
  induction ps generalizing gs with
  | nil => rfl
  | cons p ps ih =>
    rw [insertAll, List.foldl_cons, ← insertAll, ih, size_insert, List.length_cons]
    omega

/-! ## Traces -/

/-- A trace that can be read gives its assembly and its processors, each once. It has an assembly if
it names any processor. -/
theorem Trace.eq_of_ofText {t : Text} {tr : Trace} (h : Trace.ofText t = .ok tr) :
    tr = ⟨named? t, (mentioned t).eraseDups⟩ ∧ (named? t = none → mentioned t = []) := by
  by_cases hlacks : LacksAssembly (Text.lines t)
  · obtain ⟨p, hp, -⟩ := ofText_of_lacksAssembly hlacks
    rw [hp] at h
    cases h
  · rw [ofText_of_not_lacksAssembly hlacks] at h
    rw [lacksAssembly_iff, not_and_not_right] at hlacks
    exact ⟨(Except.ok.inj h).symm, hlacks⟩

/-! ## Runs -/

/-- These are the groups of traces with these contents. -/
structure Tally.Groups (t : Tally) (contents : List Text) : Prop where
  /-- Every trace is a file. -/
  files : t.files = contents.length
  /-- The groups are sorted. -/
  sorted : Sorted t.groups
  /-- The processors of the groups are those that the traces name. -/
  mem_iff : ∀ p, p ∈ t.groups.map Group.processor ↔ ∃ c ∈ contents, p ∈ mentioned c
  /-- The assemblies of a processor are those of the traces that name it. -/
  assemblies : ∀ p, (assembliesOf p t.groups).map some =
    (contents.filter fun c => decide (p ∈ mentioned c)).map named?
  /-- There is an assembly for every trace and every processor in it. -/
  size : size t.groups = (contents.map fun c => (mentioned c).toFinset.card).sum

theorem Tally.groups_start : ({} : Tally).Groups [] where
  files := rfl
  sorted := List.Pairwise.nil
  mem_iff := by simp
  assemblies := fun _ => rfl
  size := rfl

/-- One trace more keeps the groups. -/
theorem Tally.Groups.add {t : Tally} {contents : List Text} (h : t.Groups contents) {c : Text}
    {tr : Trace} (hread : Trace.ofText c = .ok tr) : (t.add tr).Groups (contents ++ [c]) := by
  obtain ⟨rfl, hnone⟩ := Trace.eq_of_ofText hread
  cases hn : named? c with
  | none =>
    have hempty : mentioned c = [] := hnone hn
    constructor
    case files => simp [Tally.add, h.files]
    case sorted => exact h.sorted
    case mem_iff => simpa [Tally.add, hempty] using h.mem_iff
    case assemblies => simpa [Tally.add, hempty] using h.assemblies
    case size => simpa [Tally.add, hempty] using h.size
  | some a =>
    have hgroups : (t.add ⟨some a, (mentioned c).eraseDups⟩).groups =
        insertAll a (mentioned c).eraseDups t.groups := rfl
    constructor
    case files => simp [Tally.add, h.files]
    case sorted => exact h.sorted.insertAll a _
    case mem_iff =>
      intro p
      rw [hgroups, mem_insertAll_iff, h.mem_iff, List.mem_eraseDups]
      simp [or_comm]
    case assemblies =>
      intro p
      rw [hgroups, assembliesOf_insertAll h.sorted (nodup_eraseDups _), List.map_append,
        h.assemblies, List.filter_append, List.map_append]
      by_cases hp : p ∈ mentioned c <;> simp [hp, hn, List.mem_eraseDups]
    case size =>
      rw [hgroups, size_insertAll, h.size, length_eraseDups]
      simp

/-- The trace of a report without flaws. -/
def read (r : Named) : Except Flaw Trace :=
  Trace.ofText r.contents

theorem Tally.groups_foldl_add {reports : List Named} (h : ∀ r ∈ reports, ∃ tr, read r = .ok tr)
    {t : Tally} {contents : List Text} (ht : t.Groups contents) :
    ((reports.filterMap fun r => (read r).toOption).foldl Tally.add t).Groups
      (contents ++ reports.map Named.contents) := by
  induction reports generalizing t contents with
  | nil => simpa using ht
  | cons r reports ih =>
    obtain ⟨tr, htr⟩ := h r List.mem_cons_self
    have hrest := ih (fun r' hr' => h r' (List.mem_cons_of_mem r hr')) (ht.add htr)
    rw [List.filterMap_cons, htr, List.map_cons, List.append_cons]
    exact hrest

/-- Some traces, one after the other. -/
def Tally.ofTraces (trs : List Trace) : Tally :=
  trs.foldl add {}

/-- The summary of some traces. -/
def Summary.ofTraces (folder generatedSuffix : Text) (trs : List Trace) : Summary :=
  (Tally.ofTraces trs).finish folder generatedSuffix

theorem summarize_ofTraces (rules : Rules) (folder : Text) {reports : List Named}
    (h : ∀ r ∈ reports, ∃ tr, Trace.ofText r.contents = .ok tr) :
    summarize rules .savings folder reports = .ok (.savings (.ofTraces folder rules.generatedSuffix
      (reports.filterMap fun r => (read r).toOption))) := by
  have hfeed : ∀ (t : Tally) r, (ReportTally.Tally.savings t).feed rules r.name r.contents =
      (read r).map fun tr => .savings (t.add tr) := by
    intro t r
    rw [ReportTally.Tally.feed, read]
    cases Trace.ofText r.contents <;> rfl
  exact summarize_of_feedAll (feedAll_of_reads hfeed h {}) rfl

/-- A run over traces that can be read ends with the summary of their groups. -/
theorem summarize_savings (rules : Rules) (folder : Text) {reports : List Named}
    (h : ∀ r ∈ reports, ∃ tr, Trace.ofText r.contents = .ok tr) :
    ∃ t : Tally, t.Groups (reports.map Named.contents) ∧
      summarize rules .savings folder reports =
        .ok (.savings (t.finish folder rules.generatedSuffix)) :=
  ⟨_, Tally.groups_foldl_add h Tally.groups_start, summarize_ofTraces rules folder h⟩

/-- A run over traces that can be read groups their assemblies by processor. The groups stand in
the order of the bytes of their processors, which are those that the traces name. The assemblies of
a group are those of the traces that name its processor, in order and one for each of these traces.
So no group is empty, and all groups together have an assembly for every trace and every processor
in it. -/
theorem grouping_of_traces (rules : Rules) (folder : Text) {reports : List Named}
    (h : ∀ r ∈ reports, ∃ tr, Trace.ofText r.contents = .ok tr) :
    ∃ s, summarize rules .savings folder reports = .ok (.savings s) ∧ s.files = reports.length ∧
      s.processors.Pairwise (fun e e' => Utf8.encode e.processor < Utf8.encode e'.processor) ∧
      (∀ p, p ∈ s.processors.map Entry.processor ↔ ∃ r ∈ reports, p ∈ mentioned r.contents) ∧
      (∀ e ∈ s.processors, e.assemblies ≠ [] ∧ e.assemblies.map some =
        (reports.filter fun r => decide (e.processor ∈ mentioned r.contents)).map
          fun r => named? r.contents) ∧
      (s.processors.map fun e => e.assemblies.length).sum =
        (reports.map fun r => (mentioned r.contents).toFinset.card).sum := by
  obtain ⟨t, hgroups, hrun⟩ := summarize_savings rules folder h
  have hnames : ∀ p, p ∈ t.groups.map Group.processor ↔
      ∃ r ∈ reports, p ∈ mentioned r.contents := by
    simpa using hgroups.mem_iff
  refine ⟨t.finish folder rules.generatedSuffix, hrun, ?_, ?_, fun p => ?_, fun e he => ?_, ?_⟩
  · exact hgroups.files.trans (List.length_map _)
  · exact hgroups.sorted.map _ fun g g' hlt => Utf8.encode_lt_encode hlt
  · rw [← hnames, Tally.finish, List.map_map]
    rfl
  · obtain ⟨g, hg, rfl⟩ := List.mem_map.1 he
    have hassemblies := hgroups.assemblies g.processor
    rw [assembliesOf_of_mem hgroups.sorted hg, List.filter_map, List.map_map] at hassemblies
    refine ⟨fun (hempty : g.assemblies = []) => ?_, hassemblies⟩
    obtain ⟨r, hr, hp⟩ := (hnames g.processor).1 (List.mem_map_of_mem hg)
    rw [hempty, List.map_nil, eq_comm, List.map_eq_nil_iff, List.filter_eq_nil_iff] at hassemblies
    exact hassemblies r hr (by simpa using hp)
  · have hsize := hgroups.size
    rw [List.map_map] at hsize
    rw [Tally.finish, List.map_map]
    exact hsize

/-- Two traces of assemblies that share a processor, which the first one names twice. -/
def sharedProcessor : List Named :=
  [⟨[], "== Analyzing assembly: A.dll ==\nSAVINGS P: 1\nSAVINGS Q: 1\nSAVINGS P: 2\n".toList⟩,
    ⟨[], "SAVINGS P: 3\n== Analyzing assembly: B.dll ==\n".toList⟩]

theorem grouping_of_sharedProcessor :
    (∀ r ∈ sharedProcessor, ∃ tr, Trace.ofText r.contents = .ok tr) ∧
      ∃ s, summarize ⟨[], [], 0⟩ .savings [] sharedProcessor = .ok (.savings s) ∧ s.files = 2 ∧
        (∃ e ∈ s.processors, e.processor = ['P'] ∧
          e.assemblies.map some = [some "A.dll".toList, some "B.dll".toList]) ∧
        (s.processors.map fun e => e.assemblies.length).sum = 3 := by
  have hread : ∀ r ∈ sharedProcessor, ∃ tr, Trace.ofText r.contents = .ok tr := by
    simp only [exists_eq_ok_iff]
    decide +kernel
  obtain ⟨s, hs, hfiles, -, hnames, hassemblies, hsize⟩ :=
    grouping_of_traces ⟨[], [], 0⟩ [] hread
  refine ⟨hread, s, hs, hfiles, ?_, ?_⟩
  · obtain ⟨e, he, hp⟩ := List.mem_map.1 ((hnames ['P']).2 (by decide +kernel))
    refine ⟨e, he, hp, ?_⟩
    rw [(hassemblies e he).2, hp]
    decide +kernel
  · rw [hsize]
    decide +kernel

end ReportTally.Savings
