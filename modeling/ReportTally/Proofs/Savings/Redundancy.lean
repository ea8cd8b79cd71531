import Mathlib.Algebra.Order.BigOperators.Group.Finset
import Mathlib.Data.List.Sort
import ReportTally.Proofs.Savings.Grouping

/-!
# Redundant assemblies

The redundant assemblies of a group are those that are different and not generated, all but one
(`redundant_eq`). So their number depends on the set of assemblies only, and it does not decrease
when assemblies are added (`redundant_mono`).

`Tally.Holds` says which assemblies stand in the groups of a list of traces, up to order and
repetition. One trace more keeps it (`Tally.Holds.add`), and it speaks of the members of the list
only. So two lists with the same members have the same counts (`Summary.counts_ofTraces_eq`), and a
list with more members has no smaller ones (`Summary.exists_redundant_le`,
`Summary.redundant_ofTraces_le`). `Summary.redundancy_of_traces` applies this to traces that are fed
in another order, again, or anew.
-/

namespace ReportTally.Savings

variable {suffix : Text} {as bs : List Text}

/-! ## Redundant assemblies of a group -/

/-- The assemblies that are not generated, without the blanks at their ends. -/
def handwritten (generatedSuffix : Text) (assemblies : List Text) : Finset Text :=
  {a ∈ (assemblies.map Text.trim).toFinset | ¬generatedSuffix <:+ a}

theorem redundant_eq (suffix : Text) (as : List Text) :
    redundant suffix as = (handwritten suffix as).card - 1 := by
  rw [redundant, length_eraseDups, List.toFinset_filter, handwritten]
  simp [← List.isSuffixOf_iff_suffix]

example : redundant "Gen.dll".toList
    ["A.dll".toList, " A.dll ".toList, "B.dll".toList, "C.Gen.dll ".toList] = 1 := by
  decide +kernel

theorem handwritten_mono (h : as ⊆ bs) : handwritten suffix as ⊆ handwritten suffix bs := by
  refine Finset.filter_subset_filter _ fun a ha => ?_
  exact List.mem_toFinset.2 (List.map_subset _ h (List.mem_toFinset.1 ha))

/-- More assemblies have no less redundant ones. -/
theorem redundant_mono (h : as ⊆ bs) : redundant suffix as ≤ redundant suffix bs := by
  rw [redundant_eq, redundant_eq]
  exact Nat.sub_le_sub_right (Finset.card_le_card (handwritten_mono h)) 1

/-! ## The members of groups -/

theorem Sorted.pairwise_processors {gs : List Group} (h : Sorted gs) :
    (gs.map Group.processor).Pairwise (· < ·) :=
  List.pairwise_map.2 h

theorem mem_assembliesOf_insertAll {gs : List Group} (h : Sorted gs) {a b q : Text}
    {ps : List Text} : b ∈ assembliesOf q (insertAll a ps gs) ↔
      b ∈ assembliesOf q gs ∨ b = a ∧ q ∈ ps := by
  induction ps generalizing gs with
  | nil => simp [insertAll]
  | cons p ps ih =>
    rw [insertAll, List.foldl_cons, ← insertAll, ih (h.insert p a), assembliesOf_insert h,
      List.mem_append, List.mem_cons, or_assoc]
    refine or_congr_right ?_
    by_cases hp : p = q
    · simp [hp, or_iff_left_of_imp And.left]
    · simp [hp, Ne.symm hp]

/-- The trace reports savings for this processor in this assembly. -/
def Trace.Reports (tr : Trace) (p a : Text) : Prop :=
  tr.assembly = some a ∧ p ∈ tr.processors

/-- These are the groups of these traces, up to the order and the repetition of assemblies. -/
structure Tally.Holds (t : Tally) (trs : List Trace) : Prop where
  /-- The groups are sorted. -/
  sorted : Sorted t.groups
  /-- There is a group for every processor with an assembly. -/
  mem_iff : ∀ p, p ∈ t.groups.map Group.processor ↔ ∃ tr ∈ trs, ∃ a, tr.Reports p a
  /-- It has the assemblies that are reported for the processor. -/
  mem_assembliesOf_iff : ∀ p a, a ∈ assembliesOf p t.groups ↔ ∃ tr ∈ trs, tr.Reports p a

namespace Tally

variable {t t' : Tally} {trs trs' : List Trace}

theorem holds_start : ({} : Tally).Holds [] where
  sorted := List.Pairwise.nil
  mem_iff := by simp
  mem_assembliesOf_iff := by simp [assembliesOf]

/-- One trace more. -/
theorem Holds.add (h : t.Holds trs) (tr : Trace) : (t.add tr).Holds (trs ++ [tr]) := by
  obtain ⟨assembly, processors⟩ := tr
  cases assembly with
  | none =>
    constructor
    case sorted => exact h.sorted
    case mem_iff => simpa [Tally.add, Trace.Reports] using h.mem_iff
    case mem_assembliesOf_iff => simpa [Tally.add, Trace.Reports] using h.mem_assembliesOf_iff
  | some a =>
    have hgroups : (t.add ⟨some a, processors⟩).groups = insertAll a processors t.groups := rfl
    constructor
    case sorted => exact h.sorted.insertAll a processors
    case mem_iff =>
      intro p
      rw [hgroups, mem_insertAll_iff, h.mem_iff]
      simp [Trace.Reports, or_and_right, exists_or, or_comm]
    case mem_assembliesOf_iff =>
      intro p b
      rw [hgroups, mem_assembliesOf_insertAll h.sorted, h.mem_assembliesOf_iff]
      simp [Trace.Reports, or_and_right, exists_or, eq_comm]

theorem Holds.foldl_add (h : t.Holds trs) (trs' : List Trace) :
    (trs'.foldl Tally.add t).Holds (trs ++ trs') := by
  induction trs' generalizing t trs with
  | nil => simpa using h
  | cons tr trs' ih =>
    rw [List.append_cons]
    exact ih (h.add tr)

theorem holds_ofTraces (trs : List Trace) : (ofTraces trs).Holds trs :=
  holds_start.foldl_add trs

variable (h : t.Holds trs) (h' : t'.Holds trs') (hsub : trs ⊆ trs')
include h h' hsub

theorem Holds.processors_subset :
    t.groups.map Group.processor ⊆ t'.groups.map Group.processor := by
  intro p hp
  obtain ⟨tr, htr, hreports⟩ := (h.mem_iff p).1 hp
  exact (h'.mem_iff p).2 ⟨tr, hsub htr, hreports⟩

theorem Holds.redundant_le (suffix p : Text) :
    redundant suffix (assembliesOf p t.groups) ≤ redundant suffix (assembliesOf p t'.groups) := by
  refine redundant_mono fun a ha => ?_
  obtain ⟨tr, htr, hreports⟩ := (h.mem_assembliesOf_iff p a).1 ha
  exact (h'.mem_assembliesOf_iff p a).2 ⟨tr, hsub htr, hreports⟩

end Tally

/-! ## Summaries -/

namespace Summary

/-- The processors with the number of their redundant assemblies. -/
def counts (s : Summary) : List (Text × Nat) :=
  s.processors.map fun e => (e.processor, e.redundant)

theorem processors_finish (t : Tally) (folder suffix : Text) :
    (t.finish folder suffix).processors.map Entry.processor = t.groups.map Group.processor := by
  rw [Tally.finish, List.map_map]
  rfl

theorem counts_finish {t : Tally} (h : Sorted t.groups) (folder suffix : Text) :
    (t.finish folder suffix).counts = (t.groups.map Group.processor).map fun p =>
      (p, Savings.redundant suffix (assembliesOf p t.groups)) := by
  rw [Tally.finish, counts, List.map_map, List.map_map]
  refine List.map_congr_left fun g hg => ?_
  simp only [Function.comp_apply, assembliesOf_of_mem h hg]

theorem redundant_finish {t : Tally} (h : Sorted t.groups) (folder suffix : Text) :
    (t.finish folder suffix).redundant = ∑ p ∈ (t.groups.map Group.processor).toFinset,
      Savings.redundant suffix (assembliesOf p t.groups) := by
  have hcounts : (t.finish folder suffix).redundant =
      ((t.finish folder suffix).counts.map Prod.snd).sum := by
    rw [counts, List.map_map]
    rfl
  rw [hcounts, counts_finish h, List.map_map, List.sum_toFinset _ h.pairwise_processors.nodup]
  rfl

/-! ## Traces and more traces -/

/-- There is a group for every processor with an assembly. -/
theorem mem_processors_iff (folder suffix : Text) (trs : List Trace) (p : Text) :
    p ∈ (ofTraces folder suffix trs).processors.map Entry.processor ↔
      ∃ tr ∈ trs, ∃ a, tr.Reports p a := by
  rw [ofTraces, processors_finish, (Tally.holds_ofTraces trs).mem_iff]

/-- The assemblies of a group are those that the traces report for its processor. -/
theorem mem_assemblies_iff {folder suffix : Text} {trs : List Trace} {e : Entry}
    (he : e ∈ (ofTraces folder suffix trs).processors) (a : Text) :
    a ∈ e.assemblies ↔ ∃ tr ∈ trs, tr.Reports e.processor a := by
  obtain ⟨g, hg, rfl⟩ := List.mem_map.1 he
  have h := Tally.holds_ofTraces trs
  rw [← h.mem_assembliesOf_iff, assembliesOf_of_mem h.sorted hg]

section Members

variable {trs trs' : List Trace} (hsub : trs ⊆ trs')
include hsub

/-- Traces with the same members have the same counts. -/
theorem counts_ofTraces_eq (hsub' : trs' ⊆ trs) (folder suffix : Text) :
    (ofTraces folder suffix trs).counts = (ofTraces folder suffix trs').counts := by
  have h := Tally.holds_ofTraces trs
  have h' := Tally.holds_ofTraces trs'
  have hnames : (Tally.ofTraces trs).groups.map Group.processor =
      (Tally.ofTraces trs').groups.map Group.processor :=
    List.Subset.antisymm_of_pairwise h.sorted.pairwise_processors h'.sorted.pairwise_processors
      (h.processors_subset h' hsub) (h'.processors_subset h hsub')
  rw [ofTraces, ofTraces, counts_finish h.sorted, counts_finish h'.sorted, hnames]
  refine List.map_congr_left fun p _ => ?_
  rw [le_antisymm (h.redundant_le h' hsub suffix p) (h'.redundant_le h hsub' suffix p)]

/-- With more traces every group is still there, and no less of its assemblies are redundant. -/
theorem exists_redundant_le {folder suffix : Text} {e : Entry}
    (he : e ∈ (ofTraces folder suffix trs).processors) :
    ∃ e' ∈ (ofTraces folder suffix trs').processors,
      e'.processor = e.processor ∧ e.redundant ≤ e'.redundant := by
  have h := Tally.holds_ofTraces trs
  have h' := Tally.holds_ofTraces trs'
  obtain ⟨g, hg, rfl⟩ := List.mem_map.1 he
  obtain ⟨g', hg', hp⟩ :=
    List.mem_map.1 (h.processors_subset h' hsub (List.mem_map_of_mem hg))
  refine ⟨_, List.mem_map_of_mem hg', hp, ?_⟩
  have hle := h.redundant_le h' hsub suffix g.processor
  rwa [assembliesOf_of_mem h.sorted hg, ← hp, assembliesOf_of_mem h'.sorted hg'] at hle

theorem redundant_ofTraces_le (folder suffix : Text) :
    (ofTraces folder suffix trs).redundant ≤ (ofTraces folder suffix trs').redundant := by
  have h := Tally.holds_ofTraces trs
  have h' := Tally.holds_ofTraces trs'
  rw [ofTraces, ofTraces, redundant_finish h.sorted, redundant_finish h'.sorted]
  have hnames := h.processors_subset h' hsub
  calc ∑ p ∈ ((Tally.ofTraces trs).groups.map Group.processor).toFinset,
          Savings.redundant suffix (assembliesOf p (Tally.ofTraces trs).groups)
      ≤ ∑ p ∈ ((Tally.ofTraces trs).groups.map Group.processor).toFinset,
          Savings.redundant suffix (assembliesOf p (Tally.ofTraces trs').groups) :=
        Finset.sum_le_sum fun p _ => h.redundant_le h' hsub suffix p
    _ ≤ ∑ p ∈ ((Tally.ofTraces trs').groups.map Group.processor).toFinset,
          Savings.redundant suffix (assembliesOf p (Tally.ofTraces trs').groups) :=
        Finset.sum_le_sum_of_subset fun p hp =>
          List.mem_toFinset.2 (hnames (List.mem_toFinset.1 hp))

end Members

/-- Every processor that some trace reports with an assembly has one group, and no other one has a
group. It has the assemblies that the traces report for the processor. Those are redundant that are
different and not generated, all but one, and the summary has their sum over all groups. So the
counts are the same for the same traces in another order and if some trace is fed again, and no
further trace makes a count or the sum smaller. -/
theorem redundancy_of_traces (folder suffix : Text) (trs : List Trace) :
    ((ofTraces folder suffix trs).processors.map Entry.processor).Nodup ∧
      (∀ p, p ∈ (ofTraces folder suffix trs).processors.map Entry.processor ↔
        ∃ tr ∈ trs, ∃ a, tr.Reports p a) ∧
      (∀ e ∈ (ofTraces folder suffix trs).processors,
        (∀ a, a ∈ e.assemblies ↔ ∃ tr ∈ trs, tr.Reports e.processor a) ∧
        e.redundant = (handwritten suffix e.assemblies).card - 1) ∧
      (ofTraces folder suffix trs).redundant =
        ((ofTraces folder suffix trs).processors.map Entry.redundant).sum ∧
      (∀ trs', trs.Perm trs' →
        (ofTraces folder suffix trs').counts = (ofTraces folder suffix trs).counts ∧
        (ofTraces folder suffix trs').redundant = (ofTraces folder suffix trs).redundant) ∧
      (∀ tr ∈ trs,
        (ofTraces folder suffix (trs ++ [tr])).counts = (ofTraces folder suffix trs).counts ∧
        (ofTraces folder suffix (trs ++ [tr])).redundant =
          (ofTraces folder suffix trs).redundant) ∧
      ∀ tr, (∀ e ∈ (ofTraces folder suffix trs).processors,
          ∃ e' ∈ (ofTraces folder suffix (trs ++ [tr])).processors,
            e'.processor = e.processor ∧ e.redundant ≤ e'.redundant) ∧
        (ofTraces folder suffix trs).redundant ≤
          (ofTraces folder suffix (trs ++ [tr])).redundant := by
  have hsame : ∀ {trs'}, trs ⊆ trs' → trs' ⊆ trs →
      (ofTraces folder suffix trs').counts = (ofTraces folder suffix trs).counts ∧
      (ofTraces folder suffix trs').redundant = (ofTraces folder suffix trs).redundant :=
    fun hsub hsub' => ⟨counts_ofTraces_eq hsub' hsub folder suffix,
      le_antisymm (redundant_ofTraces_le hsub' folder suffix)
        (redundant_ofTraces_le hsub folder suffix)⟩
  refine ⟨?_, mem_processors_iff folder suffix trs, fun e he => ⟨mem_assemblies_iff he, ?_⟩, rfl,
    fun trs' hperm => hsame hperm.subset hperm.symm.subset, fun tr htr => ?_, fun tr => ?_⟩
  · rw [ofTraces, processors_finish]
    exact (Tally.holds_ofTraces trs).sorted.pairwise_processors.nodup
  · obtain ⟨g, -, rfl⟩ := List.mem_map.1 he
    exact redundant_eq suffix g.assemblies
  · refine hsame (List.subset_append_left _ _) (List.append_subset.2 ⟨List.Subset.refl _, ?_⟩)
    simpa using htr
  · have hsub : trs ⊆ trs ++ [tr] := List.subset_append_left _ _
    exact ⟨fun e he => exists_redundant_le hsub he, redundant_ofTraces_le hsub folder suffix⟩

/-- Two assemblies and a generated one that report the first processor. Only one of them reports the
second processor. -/
def twoGroups : List Trace :=
  [⟨some "A.dll".toList, [['P'], ['Q']]⟩, ⟨some "B.dll".toList, [['P']]⟩,
    ⟨some "C.Gen.dll".toList, [['P']]⟩]

theorem redundancy_of_twoGroups :
    (∃ e ∈ (ofTraces [] "Gen.dll".toList twoGroups).processors,
      e.processor = ['P'] ∧ "B.dll".toList ∈ e.assemblies) ∧
    (ofTraces [] "Gen.dll".toList twoGroups).counts = [(['P'], 1), (['Q'], 0)] ∧
    (ofTraces [] "Gen.dll".toList twoGroups.reverse).counts = [(['P'], 1), (['Q'], 0)] ∧
    (∀ tr ∈ twoGroups, (ofTraces [] "Gen.dll".toList (twoGroups ++ [tr])).counts =
      [(['P'], 1), (['Q'], 0)]) ∧
    ∀ tr, 1 ≤ (ofTraces [] "Gen.dll".toList (twoGroups ++ [tr])).redundant := by
  obtain ⟨-, hnames, hgroups, -, hperm, hagain, hmore⟩ :=
    redundancy_of_traces [] "Gen.dll".toList twoGroups
  have hcounts : (ofTraces [] "Gen.dll".toList twoGroups).counts = [(['P'], 1), (['Q'], 0)] := by
    decide +kernel
  have hredundant : (ofTraces [] "Gen.dll".toList twoGroups).redundant = 1 := by decide +kernel
  have hreports : ∃ tr ∈ twoGroups, tr.Reports ['P'] "B.dll".toList :=
    ⟨⟨some "B.dll".toList, [['P']]⟩, by simp [twoGroups], rfl, by simp⟩
  refine ⟨?_, hcounts, ?_, fun tr htr => ?_, fun tr => ?_⟩
  · obtain ⟨tr, htr, hp⟩ := hreports
    obtain ⟨e, he, hprocessor⟩ := List.mem_map.1 ((hnames ['P']).2 ⟨tr, htr, _, hp⟩)
    refine ⟨e, he, hprocessor, ((hgroups e he).1 _).2 ⟨tr, htr, ?_⟩⟩
    rwa [hprocessor]
  · rw [(hperm _ (List.reverse_perm twoGroups).symm).1, hcounts]
  · rw [(hagain tr htr).1, hcounts]
  · rw [← hredundant]
    exact (hmore tr).2

end Summary

end ReportTally.Savings
