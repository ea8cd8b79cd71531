import ReportTally.Proofs.Json.RoundTrip
import ReportTally.Proofs.Number.Signs
import ReportTally.Report.Summary

/-!
# What a JSON report says

`Summary.Shown` says member by member what a document has to say about a summary: the names in their
order, texts and integers as they are, floats as number tokens, and nothing for a float that is not
finite or a value that is missing. Every summary is shown by its JSON report (`decode_render`), so
summaries without floats are known from their reports.
-/

namespace ReportTally

namespace Json.Tree

/-! ## Values of documents -/

/-- The value is this text. -/
def IsText (t : Text) (tree : Tree) : Prop :=
  tree = .text t

/-- The value is a token of this integer. -/
def IsInteger (n : Int) (tree : Tree) : Prop :=
  ∃ token, tree = .number token ∧ Numeral.signed? token = some n

/-- The value is the token of this float, or nothing if the float is not finite. -/
def IsFloat (x : Float) (tree : Tree) : Prop :=
  if x.isFinite then ∃ token, Decimal.token? x = some token ∧ tree = .number token
  else tree = .null

/-- The value is what is said of something, or nothing if it is missing. -/
def IsOption {α : Type} (p : α → Tree → Prop) : Option α → Tree → Prop
  | none, tree => tree = .null
  | some a, tree => p a tree

/-- The value is a list, item by item what is said of something. -/
def IsList {α : Type} (p : α → Tree → Prop) (as : List α) (tree : Tree) : Prop :=
  ∃ items, tree = .list items ∧ List.Forall₂ p as items

/-- The members have these names, in this order, and of each value holds what is said. -/
def AreMembers : List (String × (Tree → Prop)) → List (Text × Tree) → Prop
  | [], [] => True
  | (name, p) :: ps, m :: ms => m.1 = name.toList ∧ p m.2 ∧ AreMembers ps ms
  | _, _ => False

/-- The value is a record of just these members. -/
def IsRecord (ps : List (String × (Tree → Prop))) (tree : Tree) : Prop :=
  ∃ members, tree = .record members ∧ AreMembers ps members

end Json.Tree

open Json (Tree)
open Json.Tree

/-! ## Summaries -/

/-- What is said about mapping files. -/
def Mapping.Summary.Shown (s : Mapping.Summary) : Tree → Prop :=
  IsRecord
    [("folder", IsText s.folder),
      ("files", IsInteger s.files),
      ("unique_mappings", IsInteger s.keys),
      ("empty_files", IsInteger s.empty)]

/-- What is said about a group of assemblies. -/
def Savings.Entry.Shown (e : Savings.Entry) : Tree → Prop :=
  IsRecord
    [("processor", IsText e.processor),
      ("assemblies", IsList IsText e.assemblies),
      ("redundant", IsInteger e.redundant)]

/-- What is said about savings. -/
def Savings.Summary.Shown (s : Savings.Summary) : Tree → Prop :=
  IsRecord
    [("folder", IsText s.folder),
      ("files", IsInteger s.files),
      ("processors", IsList Savings.Entry.Shown s.processors),
      ("redundant", IsInteger s.redundant)]

/-- What is said about classes. -/
def Classes.Summary.Shown (s : Classes.Summary) : Tree → Prop :=
  IsRecord
    [("folder", IsText s.folder),
      ("files", IsInteger s.files),
      ("classes", IsInteger s.classes)]

/-- What is said about a log with an exception. -/
def Exceptions.Site.Shown (s : Exceptions.Site) : Tree → Prop :=
  IsRecord [("file", IsText s.file), ("context", IsList IsText s.context)]

/-- What is said about exceptions. -/
def Exceptions.Summary.Shown (s : Exceptions.Summary) : Tree → Prop :=
  IsRecord
    [("folder", IsText s.folder),
      ("files", IsInteger s.files),
      ("sites", IsList Exceptions.Site.Shown s.sites)]

/-- What is said about a row with a ratio above one. -/
def Passthrough.Excess.Shown (e : Passthrough.Excess) : Tree → Prop :=
  IsRecord [("file", IsText e.file), ("row", IsText e.row), ("ratio", IsFloat e.ratio)]

/-- What is said about passthrough reports. -/
def Passthrough.Summary.Shown (s : Passthrough.Summary) : Tree → Prop :=
  IsRecord
    [("folder", IsText s.folder),
      ("files", IsInteger s.tally.files),
      ("classes", IsInteger s.tally.classes),
      ("filtered_classes", IsInteger s.tally.counted),
      ("top_classes", IsInteger s.tally.imprecise),
      ("classes_with_passthrough", IsInteger s.tally.withPassthrough),
      ("total_columns", IsInteger s.tally.columns.toInt),
      ("total_passthrough", IsInteger s.tally.passthrough.toInt),
      ("total_ratio", IsFloat s.tally.ratios),
      ("min_ratio", IsOption IsFloat s.tally.least),
      ("max_ratio", IsOption IsFloat s.tally.greatest),
      ("max_passthrough", IsInteger s.tally.most.toInt),
      ("file_with_max", IsOption IsText s.tally.fileWithMost),
      ("input_found", IsInteger s.tally.inputFound.toInt),
      ("input_schema", IsInteger s.tally.inputSchema.toInt),
      ("output_found", IsInteger s.tally.outputFound.toInt),
      ("output_schema", IsInteger s.tally.outputSchema.toInt),
      ("problematic", IsList Passthrough.Excess.Shown s.tally.excesses),
      ("classes_percentage", IsFloat s.classesPercentage),
      ("columns_percentage", IsFloat s.columnsPercentage),
      ("input_percentage", IsFloat s.inputPercentage),
      ("output_percentage", IsFloat s.outputPercentage)]

/-- What is said about the totals of traces. -/
def Trace.Counters.Shown (c : Trace.Counters) : Tree → Prop :=
  IsRecord
    [("methods", IsInteger (c.get .methods).toInt),
      ("failed_methods", IsInteger (c.get .failedMethods).toInt),
      ("interesting_methods", IsInteger (c.get .interestingMethods).toInt),
      ("unsupported_methods", IsInteger (c.get .unsupportedMethods).toInt),
      ("concrete_methods", IsInteger (c.get .concreteMethods).toInt),
      ("concrete_methods_mapped", IsInteger (c.get .concreteMethodsMapped).toInt),
      ("union_unused", IsInteger (c.get .unionUnused).toInt),
      ("union_all_used", IsInteger (c.get .unionAllUsed).toInt),
      ("union_superset", IsInteger (c.get .unionSuperset).toInt),
      ("input_unused", IsInteger (c.get .inputUnused).toInt),
      ("input_all_used", IsInteger (c.get .inputAllUsed).toInt),
      ("output_unused", IsInteger (c.get .outputUnused).toInt),
      ("output_all_used", IsInteger (c.get .outputAllUsed).toInt),
      ("string_accesses", IsInteger (c.get .stringAccesses).toInt),
      ("index_accesses", IsInteger (c.get .indexAccesses).toInt),
      ("union_savings", IsInteger (c.get .unionSavings).toInt),
      ("union_percentage", IsFloat (c.getShare .union)),
      ("input_savings", IsInteger (c.get .inputSavings).toInt),
      ("input_percentage", IsFloat (c.getShare .input)),
      ("output_savings", IsInteger (c.get .outputSavings).toInt),
      ("output_percentage", IsFloat (c.getShare .output)),
      ("analysis_seconds", IsFloat c.seconds)]

/-- What is said about averages. -/
def Trace.Averages.Shown (a : Trace.Averages) : Tree → Prop :=
  IsRecord
    [("union_unused_columns", IsFloat a.unionColumns),
      ("union_unused_percentage", IsFloat a.unionPercentage),
      ("input_unused_columns", IsFloat a.inputColumns),
      ("input_unused_percentage", IsFloat a.inputPercentage),
      ("output_unused_columns", IsFloat a.outputColumns),
      ("output_unused_percentage", IsFloat a.outputPercentage),
      ("seconds_per_assembly", IsFloat a.secondsPerAssembly),
      ("seconds_per_method", IsFloat a.secondsPerMethod)]

/-- What is said about traces. -/
def Trace.Summary.Shown (s : Trace.Summary) : Tree → Prop :=
  IsRecord
    [("folder", IsText s.folder),
      ("files", IsInteger s.files),
      ("failed_assemblies", IsInteger s.failed),
      ("native_assemblies", IsInteger s.native),
      ("not_interesting_assemblies", IsInteger s.notInteresting),
      ("counters", s.counters.Shown),
      ("averages", s.averages.Shown)]

namespace Summary

/-- What is said about a summary of any kind. -/
def Shown : Summary → Tree → Prop
  | traces s => s.Shown
  | mappings s => s.Shown
  | savings s => s.Shown
  | passthrough s => s.Shown
  | classes s => s.Shown
  | exceptions s => s.Shown

/-- The kinds of summaries without floats. -/
def HasNoFloat : Summary → Prop
  | traces _ | passthrough _ => False
  | mappings _ | savings _ | classes _ | exceptions _ => True

end Summary

/-! ## Every summary is shown -/

theorem Decimal.isSome_token?_iff (x : Float) :
    (Decimal.token? x).isSome = true ↔ x.isFinite = true := by
  rw [Binary64.isFinite_iff, Decimal.token?, ← not_le]
  dsimp only
  split_ifs with hinf <;> simp [hinf]

namespace Json.Tree

@[simp] theorem isText_tree (t : Text) : IsText t (Json.text t).tree := by
  rw [IsText, Json.tree]

@[simp] theorem isInteger_tree (n : Int) : IsInteger n (Json.integer n).tree := by
  rw [Json.tree]
  exact ⟨_, rfl, Numeral.signed?_ofInt n⟩

@[simp] theorem isFloat_tree (x : Float) : IsFloat x (Json.number x).tree := by
  have hfinite := Decimal.isSome_token?_iff x
  rw [IsFloat, Json.tree]
  cases htoken : Decimal.token? x with
  | none =>
    rw [htoken] at hfinite
    rw [if_neg (by simp [← hfinite])]
    rfl
  | some token =>
    rw [htoken] at hfinite
    rw [if_pos (hfinite.1 rfl)]
    exact ⟨token, rfl, rfl⟩

theorem isOption_tree {α : Type} {p : α → Tree → Prop} {f : α → Json} (h : ∀ a, p a (f a).tree)
    (o : Option α) : IsOption p o ((o.map f).getD .null).tree := by
  cases o with
  | none =>
    rw [Option.map_none, Option.getD_none, Json.tree]
    rfl
  | some a => exact h a

theorem isList_tree {α : Type} {p : α → Tree → Prop} {f : α → Json} (h : ∀ a, p a (f a).tree)
    (as : List α) : IsList p as (Json.list (as.map f)).tree := by
  rw [Json.tree]
  refine ⟨_, rfl, ?_⟩
  induction as with
  | nil =>
    rw [List.map_nil, Json.treeItems]
    exact .nil
  | cons a as ih =>
    rw [List.map_cons, Json.treeItems]
    exact .cons (h a) ih

@[simp] theorem isRecord_tree_iff {ps : List (String × (Tree → Prop))}
    {members : List (Text × Json)} :
    IsRecord ps (Json.record members).tree ↔ AreMembers ps (Json.treeMembers members) := by
  rw [Json.tree]
  constructor
  · rintro ⟨_, htree, h⟩
    cases htree
    exact h
  · exact fun h => ⟨_, rfl, h⟩

@[simp] theorem areMembers_nil : AreMembers [] (Json.treeMembers []) := by
  rw [Json.treeMembers, AreMembers]
  trivial

@[simp] theorem areMembers_cons_iff {name : String} {p : Tree → Prop} {t : Text} {value : Json}
    {ps : List (String × (Tree → Prop))} {members : List (Text × Json)} :
    AreMembers ((name, p) :: ps) (Json.treeMembers ((t, value) :: members)) ↔
      t = name.toList ∧ p value.tree ∧ AreMembers ps (Json.treeMembers members) := by
  rw [Json.treeMembers, AreMembers]

end Json.Tree

theorem Savings.Entry.shown_tree (e : Savings.Entry) : e.Shown e.json.tree := by
  simp [Shown, json, isList_tree isText_tree]

theorem Exceptions.Site.shown_tree (s : Exceptions.Site) :
    s.Shown (Exceptions.Summary.siteJson s).tree := by
  simp [Shown, Exceptions.Summary.siteJson, isList_tree isText_tree]

theorem Passthrough.Excess.shown_tree (e : Passthrough.Excess) :
    e.Shown (Passthrough.Summary.excessJson e).tree := by
  simp [Shown, Passthrough.Summary.excessJson]

theorem Passthrough.Summary.shown_tree (s : Passthrough.Summary) : s.Shown s.json.tree := by
  simp [Shown, json, isOption_tree isFloat_tree, isOption_tree isText_tree,
    isList_tree Passthrough.Excess.shown_tree]

theorem Trace.Counters.shown_tree (c : Trace.Counters) :
    c.Shown (Json.record c.members).tree := by
  simp [Shown, members]

theorem Trace.Summary.shown_tree (s : Trace.Summary) : s.Shown s.json.tree := by
  simp [Shown, json, Averages.Shown, Trace.Counters.shown_tree]

/-- A summary is shown by its document. -/
theorem Summary.shown_tree (s : Summary) : s.Shown s.json.tree := by
  cases s with
  | traces s => exact s.shown_tree
  | mappings s => simp [Shown, Mapping.Summary.Shown, json, Mapping.Summary.json]
  | savings s =>
    simp [Shown, Savings.Summary.Shown, json, Savings.Summary.json,
      isList_tree Savings.Entry.shown_tree]
  | passthrough s => exact s.shown_tree
  | classes s => simp [Shown, Classes.Summary.Shown, json, Classes.Summary.json]
  | exceptions s =>
    simp [Shown, Exceptions.Summary.Shown, json, Exceptions.Summary.json,
      isList_tree Exceptions.Site.shown_tree]

/-! ## What is known from a document -/

namespace Json.Tree

variable {tree : Tree}

theorem IsText.eq {s t : Text} (hs : IsText s tree) (ht : IsText t tree) : s = t := by
  rw [IsText] at hs ht
  rw [hs] at ht
  exact Tree.text.inj ht

theorem IsInteger.eq {m n : Int} (hm : IsInteger m tree) (hn : IsInteger n tree) : m = n := by
  obtain ⟨token, rfl, hm⟩ := hm
  obtain ⟨_, ⟨rfl⟩, hn⟩ := hn
  rw [hm] at hn
  exact Option.some.inj hn

theorem IsList.eq {α : Type} {p : α → Tree → Prop} (hp : ∀ a b t, p a t → p b t → a = b)
    {as bs : List α} (has : IsList p as tree) (hbs : IsList p bs tree) : as = bs := by
  obtain ⟨items, rfl, has⟩ := has
  obtain ⟨_, ⟨rfl⟩, hbs⟩ := hbs
  induction has generalizing bs with
  | nil =>
    cases hbs
    rfl
  | cons ha _ ih =>
    obtain _ | ⟨hb, hbs⟩ := hbs
    rw [hp _ _ _ ha hb, ih hbs]

/-- Two things that are said of one record have the same names, and are said of the same values. -/
def Agree (ps qs : List (String × (Tree → Prop))) : Prop :=
  List.Forall₂ (fun a b => a.1 = b.1 ∧ ∃ value, a.2 value ∧ b.2 value) ps qs

theorem IsRecord.agree {ps qs : List (String × (Tree → Prop))} (hp : IsRecord ps tree)
    (hq : IsRecord qs tree) : Agree ps qs := by
  obtain ⟨members, rfl, hp⟩ := hp
  obtain ⟨_, ⟨rfl⟩, hq⟩ := hq
  unfold Agree
  induction members generalizing ps qs with
  | nil =>
    cases ps <;> cases qs <;> first | exact .nil | exact hp.elim | exact hq.elim
  | cons m members ih =>
    cases ps with
    | nil => exact hp.elim
    | cons a ps =>
      cases qs with
      | nil => exact hq.elim
      | cons b qs =>
        obtain ⟨hname, ha, hp⟩ := hp
        obtain ⟨hname', hb, hq⟩ := hq
        exact .cons ⟨String.toList_inj.1 (hname.symm.trans hname'), m.2, ha, hb⟩ (ih hp hq)

end Json.Tree

theorem Savings.Entry.eq_of_shown (d e : Savings.Entry) (tree : Tree) (hd : d.Shown tree)
    (he : e.Shown tree) : d = e := by
  have h := hd.agree he
  simp only [Agree, List.forall₂_cons] at h
  obtain ⟨⟨-, _, hp, hp'⟩, ⟨-, _, ha, ha'⟩, ⟨-, _, hr, hr'⟩, -⟩ := h
  cases d
  cases e
  cases hp.eq hp'
  cases ha.eq (fun _ _ _ hs ht => hs.eq ht) ha'
  cases hr.eq hr'
  rfl

theorem Exceptions.Site.eq_of_shown (s t : Exceptions.Site) (tree : Tree) (hs : s.Shown tree)
    (ht : t.Shown tree) : s = t := by
  have h := hs.agree ht
  simp only [Agree, List.forall₂_cons] at h
  obtain ⟨⟨-, _, hf, hf'⟩, ⟨-, _, hc, hc'⟩, -⟩ := h
  cases s
  cases t
  cases hf.eq hf'
  cases hc.eq (fun _ _ _ hs ht => hs.eq ht) hc'
  rfl

theorem Mapping.Summary.eq_of_shown {s t : Mapping.Summary} {tree : Tree} (hs : s.Shown tree)
    (ht : t.Shown tree) : s = t := by
  have h := hs.agree ht
  simp only [Agree, List.forall₂_cons] at h
  obtain ⟨⟨-, _, hfolder, hfolder'⟩, ⟨-, _, hfiles, hfiles'⟩, ⟨-, _, hkeys, hkeys'⟩,
    ⟨-, _, hempty, hempty'⟩, -⟩ := h
  cases s
  cases t
  cases hfolder.eq hfolder'
  cases hfiles.eq hfiles'
  cases hkeys.eq hkeys'
  cases hempty.eq hempty'
  rfl

theorem Savings.Summary.eq_of_shown {s t : Savings.Summary} {tree : Tree} (hs : s.Shown tree)
    (ht : t.Shown tree) : s = t := by
  have h := hs.agree ht
  simp only [Agree, List.forall₂_cons] at h
  obtain ⟨⟨-, _, hfolder, hfolder'⟩, ⟨-, _, hfiles, hfiles'⟩, ⟨-, _, hentries, hentries'⟩,
    ⟨-, _, hredundant, hredundant'⟩, -⟩ := h
  cases s
  cases t
  cases hfolder.eq hfolder'
  cases hfiles.eq hfiles'
  cases hentries.eq Savings.Entry.eq_of_shown hentries'
  cases hredundant.eq hredundant'
  rfl

theorem Classes.Summary.eq_of_shown {s t : Classes.Summary} {tree : Tree} (hs : s.Shown tree)
    (ht : t.Shown tree) : s = t := by
  have h := hs.agree ht
  simp only [Agree, List.forall₂_cons] at h
  obtain ⟨⟨-, _, hfolder, hfolder'⟩, ⟨-, _, hfiles, hfiles'⟩, ⟨-, _, hclasses, hclasses'⟩, -⟩ := h
  cases s
  cases t
  cases hfolder.eq hfolder'
  cases hfiles.eq hfiles'
  cases hclasses.eq hclasses'
  rfl

theorem Exceptions.Summary.eq_of_shown {s t : Exceptions.Summary} {tree : Tree}
    (hs : s.Shown tree) (ht : t.Shown tree) : s = t := by
  have h := hs.agree ht
  simp only [Agree, List.forall₂_cons] at h
  obtain ⟨⟨-, _, hfolder, hfolder'⟩, ⟨-, _, hfiles, hfiles'⟩, ⟨-, _, hsites, hsites'⟩, -⟩ := h
  cases s
  cases t
  cases hfolder.eq hfolder'
  cases hfiles.eq hfiles'
  cases hsites.eq Exceptions.Site.eq_of_shown hsites'
  rfl

namespace Summary

/-- Summaries without floats are known from their documents. The names of the members tell the kinds
apart. -/
theorem eq_of_shown {s t : Summary} {tree : Tree} (hs : s.HasNoFloat) (ht : t.HasNoFloat)
    (hshown : s.Shown tree) (hshown' : t.Shown tree) : s = t := by
  cases s with
  | traces s | passthrough s => exact hs.elim
  | mappings s =>
    cases t with
    | traces t | passthrough t => exact ht.elim
    | mappings t => rw [Mapping.Summary.eq_of_shown hshown hshown']
    | savings t | classes t | exceptions t => exact absurd (hshown.agree hshown') (by simp [Agree])
  | savings s =>
    cases t with
    | traces t | passthrough t => exact ht.elim
    | savings t => rw [Savings.Summary.eq_of_shown hshown hshown']
    | mappings t | classes t | exceptions t => exact absurd (hshown.agree hshown') (by simp [Agree])
  | classes s =>
    cases t with
    | traces t | passthrough t => exact ht.elim
    | classes t => rw [Classes.Summary.eq_of_shown hshown hshown']
    | mappings t | savings t | exceptions t => exact absurd (hshown.agree hshown') (by simp [Agree])
  | exceptions s =>
    cases t with
    | traces t | passthrough t => exact ht.elim
    | exceptions t => rw [Exceptions.Summary.eq_of_shown hshown hshown']
    | mappings t | savings t | classes t => exact absurd (hshown.agree hshown') (by simp [Agree])

/-- A document ends with the bracket of its record. -/
theorem getLast?_write (s : Summary) : (s.json.write 0).getLast? = some '\x7d' := by
  obtain ⟨members, hjson⟩ : ∃ members, s.json = .record members := by
    cases s <;> exact ⟨_, rfl⟩
  rw [hjson, Json.write]
  cases Json.writeMembers (0 + 1) members with
  | nil => rfl
  | cons p ps =>
    rw [Json.bracketed_cons, Json.body]
    simp only [← List.append_assoc, ← List.cons_append]
    exact List.getLast?_concat

/-- The JSON report of any summary is one JSON text and a line feed, and the text says of every
member of the summary what it is. So summaries without floats that have the same report are the
same. -/
theorem decode_render :
    (∀ s : Summary, ∃ doc tree, s.render .json = doc ++ ['\n'] ∧ doc.getLast? = some '\x7d' ∧
      Json.read? doc = some tree ∧ s.Shown tree) ∧
    ∀ s t : Summary, s.HasNoFloat → t.HasNoFloat → s.render .json = t.render .json → s = t := by
  have hread (s : Summary) : Json.read? (s.json.write 0) = some s.json.tree := s.json.read?_write
  refine ⟨fun s => ⟨_, _, rfl, s.getLast?_write, hread s, s.shown_tree⟩,
    fun s t hs ht h => eq_of_shown hs ht s.shown_tree ?_⟩
  have hdoc : s.json.write 0 = t.json.write 0 := List.append_cancel_right h
  have htree := hread t
  rw [← hdoc, hread s] at htree
  rw [Option.some.inj htree]
  exact t.shown_tree

/-- A folder with a name that has to be escaped, and groups of assemblies in it. -/
def escapedFolder : Savings.Summary :=
  { folder := ['a', '"', '\\', '\n', '\x01', 'é']
    files := 3
    processors := [⟨['P'], ["A.dll".toList, "B.dll".toList], 1⟩, ⟨['Q'], ["C.Gen.dll".toList], 0⟩]
    redundant := 1 }

/-- The document with these groups. -/
def escapedFolderDocument : Text :=
  ["\x7b",
    "  \"folder\": \"a\\\"\\\\\\n\\u0001é\",",
    "  \"files\": 3,",
    "  \"processors\": [",
    "    \x7b",
    "      \"processor\": \"P\",",
    "      \"assemblies\": [",
    "        \"A.dll\",",
    "        \"B.dll\"",
    "      ],",
    "      \"redundant\": 1",
    "    \x7d,",
    "    \x7b",
    "      \"processor\": \"Q\",",
    "      \"assemblies\": [",
    "        \"C.Gen.dll\"",
    "      ],",
    "      \"redundant\": 0",
    "    \x7d",
    "  ],",
    "  \"redundant\": 1",
    "\x7d"].flatMap fun line => line.toList ++ ['\n']

/-- Two rows with a ratio above one, and floats that are missing or not finite. -/
def oddRatios : Passthrough.Summary :=
  { folder := ['d']
    tally :=
      { files := 2
        ratios := 1 / 0
        least := some 1.25
        excesses := [⟨['f'], "A+5+4".toList, 1.25⟩, ⟨['"'], "B+3+1".toList, 1 / 0⟩] }
    columnsPercentage := 0.1 }

/-- The document with these rows. -/
def oddRatiosDocument : Text :=
  ["\x7b",
    "  \"folder\": \"d\",",
    "  \"files\": 2,",
    "  \"classes\": 0,",
    "  \"filtered_classes\": 0,",
    "  \"top_classes\": 0,",
    "  \"classes_with_passthrough\": 0,",
    "  \"total_columns\": 0,",
    "  \"total_passthrough\": 0,",
    "  \"total_ratio\": null,",
    "  \"min_ratio\": 1.25,",
    "  \"max_ratio\": null,",
    "  \"max_passthrough\": 0,",
    "  \"file_with_max\": null,",
    "  \"input_found\": 0,",
    "  \"input_schema\": 0,",
    "  \"output_found\": 0,",
    "  \"output_schema\": 0,",
    "  \"problematic\": [",
    "    \x7b",
    "      \"file\": \"f\",",
    "      \"row\": \"A+5+4\",",
    "      \"ratio\": 1.25",
    "    \x7d,",
    "    \x7b",
    "      \"file\": \"\\\"\",",
    "      \"row\": \"B+3+1\",",
    "      \"ratio\": null",
    "    \x7d",
    "  ],",
    "  \"classes_percentage\": 0.0,",
    "  \"columns_percentage\": 0.1,",
    "  \"input_percentage\": 0.0,",
    "  \"output_percentage\": 0.0",
    "\x7d"].flatMap fun line => line.toList ++ ['\n']

theorem decode_nestedDocuments :
    (savings escapedFolder).render .json = escapedFolderDocument ∧
    (∃ doc tree, (savings escapedFolder).render .json = doc ++ ['\n'] ∧
      doc.getLast? = some '\x7d' ∧ Json.read? doc = some tree ∧
      (savings escapedFolder).Shown tree) ∧
    (savings escapedFolder).HasNoFloat ∧
    savings escapedFolder = (Tally.savings
      { files := 3
        groups := [⟨['P'], ["A.dll".toList, "B.dll".toList]⟩, ⟨['Q'], ["C.Gen.dll".toList]⟩] }).finish
      ⟨"Gen.dll".toList, [], 0⟩ escapedFolder.folder ∧
    (passthrough oddRatios).render .json = oddRatiosDocument ∧
    ∃ doc tree, (passthrough oddRatios).render .json = doc ++ ['\n'] ∧
      doc.getLast? = some '\x7d' ∧ Json.read? doc = some tree ∧
      (passthrough oddRatios).Shown tree := by
  refine ⟨by decide +kernel, decode_render.1 _, trivial, ?_, by decide +kernel, decode_render.1 _⟩
  exact decode_render.2 _ _ trivial trivial (by decide +kernel)

end Summary

end ReportTally
