import ReportTally.Proofs.Savings.Grouping
import ReportTally.Proofs.Text.Lines

/-!
# The text of a savings summary

The text of a summary says all of it, for summaries that a run can reach. A processor and an
assembly come from one line each, so no line feed is in them. A processor is trimmed, so it does not
start with a tab, and a group has an assembly (`Group.Printable`, `Tally.Groups.printable`). So a
line is a processor just if the next line starts with a tab, and the groups can be read back
(`groups_text_inj`).
-/

namespace ReportTally.Savings

/-! ## Groups that can be read back -/

/-- The lines of a group can be told from those of other groups. -/
structure Group.Printable (g : Group) : Prop where
  /-- The processor is one line. -/
  processor : '\n' ∉ g.processor
  /-- The line does not start with a tab. -/
  head : g.processor.head? ≠ some '\t'
  /-- The next line does. -/
  assemblies_ne_nil : g.assemblies ≠ []
  /-- Every assembly is one line. -/
  assemblies : ∀ a ∈ g.assemblies, '\n' ∉ a

/-- The groups of traces can be read back. -/
theorem Tally.Groups.printable {t : Tally} {contents : List Text} (h : t.Groups contents)
    {g : Group} (hg : g ∈ t.groups) : g.Printable := by
  obtain ⟨c, hc, hp⟩ := (h.mem_iff g.processor).1 (List.mem_map_of_mem hg)
  have hassemblies := h.assemblies g.processor
  rw [assembliesOf_of_mem h.sorted hg] at hassemblies
  have hname := isName_of_mem_mentioned hp
  refine ⟨hname.oneLine, hname.head?_ne, fun hempty => ?_, fun a ha => ?_⟩
  · rw [hempty, List.map_nil, eq_comm, List.map_eq_nil_iff, List.filter_eq_nil_iff] at hassemblies
    exact hassemblies c hc (by simpa using hp)
  · have hmem := List.mem_map_of_mem (f := some) ha
    rw [hassemblies] at hmem
    obtain ⟨c', -, hnamed⟩ := List.mem_map.1 hmem
    exact (isName_of_named? hnamed).oneLine

/-- The lines of a group. -/
def Group.text (g : Group) : Text :=
  g.processor ++ '\n' :: g.assemblies.flatMap fun a => '\t' :: (a ++ ['\n'])

/-- What may follow the groups: a line, and no tab at its start or after it. -/
def EndsGroups (t : Text) : Prop :=
  ∃ line rest, t = line ++ '\n' :: rest ∧ '\n' ∉ line ∧ line.head? ≠ some '\t' ∧
    rest.head? ≠ some '\t'

theorem head?_line {line : Text} (h : line.head? ≠ some '\t') (rest : Text) :
    (line ++ '\n' :: rest).head? ≠ some '\t' := by
  cases line with
  | nil => simp
  | cons c line => simpa using h

theorem head?_groups {gs : List Group} (hgs : ∀ g ∈ gs, g.Printable) {s : Text}
    (hs : EndsGroups s) : (gs.flatMap Group.text ++ s).head? ≠ some '\t' := by
  cases gs with
  | nil =>
    obtain ⟨line, rest, rfl, -, hhead, -⟩ := hs
    exact head?_line hhead rest
  | cons g gs =>
    rw [List.flatMap_cons, List.append_assoc, Group.text, List.append_assoc, List.cons_append]
    exact head?_line (hgs g List.mem_cons_self).head _

/-- Lines after tabs, up to one that starts without a tab, determine what they say. -/
theorem tabbed_inj {as bs : List Text} {s t : Text} (has : ∀ a ∈ as, '\n' ∉ a)
    (hbs : ∀ b ∈ bs, '\n' ∉ b) (hs : s.head? ≠ some '\t') (ht : t.head? ≠ some '\t')
    (h : (as.flatMap fun a => '\t' :: (a ++ ['\n'])) ++ s =
      (bs.flatMap fun b => '\t' :: (b ++ ['\n'])) ++ t) : as = bs ∧ s = t := by
  induction as generalizing bs with
  | nil =>
    cases bs with
    | nil => exact ⟨rfl, h⟩
    | cons b bs =>
      rw [List.flatMap_nil, List.nil_append] at h
      rw [h] at hs
      simp at hs
  | cons a as ih =>
    cases bs with
    | nil =>
      rw [List.flatMap_nil, List.nil_append] at h
      rw [← h] at ht
      simp at ht
    | cons b bs =>
      simp only [List.flatMap_cons, List.cons_append, List.append_assoc, List.nil_append,
        List.cons.injEq, true_and] at h
      obtain ⟨rfl, hrest⟩ := Text.append_lineEnd_inj (has a List.mem_cons_self)
        (hbs b List.mem_cons_self) h
      obtain ⟨rfl, rfl⟩ := ih (fun a' ha' => has a' (List.mem_cons_of_mem a ha'))
        (fun b' hb' => hbs b' (List.mem_cons_of_mem a hb')) hrest
      exact ⟨rfl, rfl⟩

/-- A group is not what follows the groups: its line is followed by one that starts with a tab. -/
theorem EndsGroups.ne_group {s rest : Text} (hs : EndsGroups s) {g : Group} (hg : g.Printable) :
    s ≠ g.text ++ rest := by
  rintro rfl
  obtain ⟨line, after, heq, hline, -, hafter⟩ := hs
  rw [Group.text, List.append_assoc, List.cons_append] at heq
  obtain ⟨-, htail⟩ := Text.append_lineEnd_inj hg.processor hline heq
  obtain ⟨a, as, has⟩ := List.exists_cons_of_ne_nil hg.assemblies_ne_nil
  rw [← htail, has] at hafter
  simp at hafter

/-- The lines of groups determine the groups. -/
theorem groups_text_inj {gs gs' : List Group} {s t : Text} (hgs : ∀ g ∈ gs, g.Printable)
    (hgs' : ∀ g ∈ gs', g.Printable) (hs : EndsGroups s) (ht : EndsGroups t)
    (h : gs.flatMap Group.text ++ s = gs'.flatMap Group.text ++ t) : gs = gs' := by
  induction gs generalizing gs' with
  | nil =>
    cases gs' with
    | nil => rfl
    | cons g gs' =>
      rw [List.flatMap_cons, List.append_assoc] at h
      exact absurd h (hs.ne_group (hgs' g List.mem_cons_self))
  | cons g gs ih =>
    cases gs' with
    | nil =>
      rw [List.flatMap_cons, List.append_assoc] at h
      exact absurd h.symm (ht.ne_group (hgs g List.mem_cons_self))
    | cons g' gs' =>
      have hg := hgs g List.mem_cons_self
      have hg' := hgs' g' List.mem_cons_self
      have hrest := fun x hx => hgs x (List.mem_cons_of_mem g hx)
      have hrest' := fun x hx => hgs' x (List.mem_cons_of_mem g' hx)
      simp only [List.flatMap_cons, List.append_assoc, Group.text, List.cons_append] at h
      obtain ⟨hprocessor, htail⟩ := Text.append_lineEnd_inj hg.processor hg'.processor h
      obtain ⟨hassemblies, hgroups⟩ := tabbed_inj hg.assemblies hg'.assemblies
        (head?_groups hrest hs) (head?_groups hrest' ht) htail
      obtain ⟨p, as⟩ := g
      obtain ⟨p', as'⟩ := g'
      obtain ⟨rfl, rfl⟩ : p = p' ∧ as = as' := ⟨hprocessor, hassemblies⟩
      rw [ih hrest hrest' hgroups]

/-! ## Summaries -/

theorem flatMap_text_finish (t : Tally) (folder suffix : Text) :
    (t.finish folder suffix).processors.flatMap Entry.text = t.groups.flatMap Group.text := by
  rw [Tally.finish, List.flatMap_map]
  rfl

/-- What follows the groups of a summary. -/
theorem endsGroups_total (isEmpty : Bool) (redundant : Nat) :
    EndsGroups ((if isEmpty then [] else ['\n']) ++
      Labelled.count "Potential redundant processors" redundant) := by
  have hlabel : '\n' ∉ "Potential redundant processors: ".toList := by decide
  cases isEmpty with
  | true =>
    refine ⟨"Potential redundant processors: ".toList ++ Numeral.ofNat redundant, [], rfl, ?_,
      nofun, nofun⟩
    rw [List.mem_append, not_or]
    exact ⟨hlabel, Text.notMem_ofNat redundant⟩
  | false => exact ⟨[], _, rfl, List.not_mem_nil, nofun, nofun⟩

/-- Tallies with the same text are the same, if their groups can be read back. -/
theorem finish_inj {t t' : Tally} {folder suffix : Text} (ht : ∀ g ∈ t.groups, g.Printable)
    (ht' : ∀ g ∈ t'.groups, g.Printable)
    (h : (t.finish folder suffix).text = (t'.finish folder suffix).text) : t = t' := by
  simp only [Summary.text, List.flatten_cons, List.flatten_nil, List.append_nil,
    flatMap_text_finish] at h
  obtain ⟨hfiles, hrest⟩ := Text.count_append_inj (List.append_cancel_left h)
  have hgroups := groups_text_inj ht ht' (endsGroups_total _ _) (endsGroups_total _ _)
    (List.append_cancel_left hrest)
  obtain ⟨files, groups⟩ := t
  obtain ⟨files', groups'⟩ := t'
  obtain ⟨rfl, rfl⟩ : files = files' ∧ groups = groups' := ⟨hfiles, hgroups⟩
  rfl

/-! ## Runs -/

/-- Two runs over traces that can be read, with one folder and one suffix of generated assemblies,
end with the same summary if they end with the same text. -/
theorem summary_eq_of_text_eq (rules : Rules) (folder : Text) {reports reports' : List Named}
    (h : ∀ r ∈ reports, ∃ tr, Trace.ofText r.contents = .ok tr)
    (h' : ∀ r ∈ reports', ∃ tr, Trace.ofText r.contents = .ok tr) :
    ∃ s s', summarize rules .savings folder reports = .ok (.savings s) ∧
      summarize rules .savings folder reports' = .ok (.savings s') ∧
      (s.text = s'.text → s = s') := by
  obtain ⟨t, hgroups, hrun⟩ := summarize_savings rules folder h
  obtain ⟨t', hgroups', hrun'⟩ := summarize_savings rules folder h'
  refine ⟨_, _, hrun, hrun', fun htext => ?_⟩
  rw [finish_inj (fun g => hgroups.printable) (fun g => hgroups'.printable) htext]

/-- A trace of an assembly and a processor without names. -/
def namelessTrace : Text :=
  "Analyzing assembly:\nSAVINGS\n".toList

/-- The same names in other words. -/
def namelessTrace' : Text :=
  " SAVINGS :\nAnalyzing assembly: = x\nSAVINGS: 1".toList

theorem summary_eq_of_nameless :
    ∃ s s', summarize ⟨[], [], 0⟩ .savings [] [⟨['a'], namelessTrace⟩] = .ok (.savings s) ∧
      summarize ⟨[], [], 0⟩ .savings [] [⟨['b'], namelessTrace'⟩] = .ok (.savings s') ∧ s = s' := by
  have hread : ∀ r ∈ [(⟨['a'], namelessTrace⟩ : Named)],
      ∃ tr, Trace.ofText r.contents = .ok tr := by
    simp only [exists_eq_ok_iff]
    decide +kernel
  have hread' : ∀ r ∈ [(⟨['b'], namelessTrace'⟩ : Named)],
      ∃ tr, Trace.ofText r.contents = .ok tr := by
    simp only [exists_eq_ok_iff]
    decide +kernel
  obtain ⟨s, s', hrun, hrun', heq⟩ := summary_eq_of_text_eq ⟨[], [], 0⟩ [] hread hread'
  have htext : (summarize ⟨[], [], 0⟩ .savings [] [⟨['a'], namelessTrace⟩]).toOption.map (·.text) =
      (summarize ⟨[], [], 0⟩ .savings [] [⟨['b'], namelessTrace'⟩]).toOption.map (·.text) := by
    decide +kernel
  rw [hrun, hrun'] at htext
  exact ⟨s, s', hrun, hrun', heq (Option.some.inj htext)⟩

end ReportTally.Savings
