import ReportTally.Proofs.CommandLine.Precedence
import ReportTally.Proofs.Text.Cuts

/-!
# Where options may stand

The options of both levels may stand before the command, between it and the folder, and after the
folder. A word of such an option adds it to what its level gives (`Level.word_word`), provided that
the level gives no option of the same choice yet. So what a level gives after some words is what was
given before and what the words say (`Given.has_foldl_put`), in any order.

Both levels together give what all words say (`has_of_placement`), and only that counts when they
are combined (`combine_of_has`). So it does not matter where an option stands, with a value of the
environment or without (`read_of_placement`).
-/

namespace ReportTally

namespace CommandLine

/-! ## Options of both levels -/

/-- An option that may stand at either level. -/
inductive Global where
  /-- Log more. -/
  | verbose
  /-- Log less. -/
  | quiet
  /-- The format of the summary. -/
  | format (f : Format)
  /-- The end of the names of reports. -/
  | extension (value : Text)
  /-- The file with settings. -/
  | config (path : Text)
  deriving DecidableEq, Repr

/-- A word that gives an option by its long name, with a value. -/
def assignment (name value : Text) : Text :=
  "--".toList ++ name ++ '=' :: value

namespace Global

/-- The word of an option. -/
def word : Global → Text
  | verbose => "-v".toList
  | quiet => "-q".toList
  | format .text => assignment "format".toList "text".toList
  | format .json => assignment "format".toList "json".toList
  | extension value => assignment "ext".toList value
  | config path => assignment "config".toList path

/-- What an option chooses. -/
def choice : Global → Choice
  | verbose => .flag .verbose
  | quiet => .flag .quiet
  | format _ => .valued .format
  | extension _ => .valued .extension
  | config _ => .valued .config

theorem head?_word (o : Global) : o.word.head? = some '-' := by
  rcases o with _ | _ | (_ | _) | _ | _ <;> rfl

end Global

namespace Given

variable {g : Given} {o o' : Global} {os os' : List Global}

/-- The level gives an option. -/
def Has (g : Given) : Global → Prop
  | .verbose => g.verbose = true
  | .quiet => g.quiet = true
  | .format f => g.format = some f
  | .extension value => g.extension = some value
  | .config path => g.config = some path

/-- The level with one option more. -/
def put (g : Given) : Global → Given
  | .verbose => { g with verbose := true }
  | .quiet => { g with quiet := true }
  | .format f => { g with format := some f }
  | .extension value => { g with extension := some value }
  | .config path => { g with config := some path }

/-- The options of both levels that are given. -/
def globals (g : Given) : List Global :=
  (if g.verbose then [.verbose] else []) ++ (if g.quiet then [.quiet] else []) ++
    (g.format.map .format).toList ++ (g.extension.map .extension).toList ++
    (g.config.map .config).toList

theorem mem_globals_iff : o ∈ g.globals ↔ g.Has o := by
  cases o <;> simp [globals, Has]

theorem pairwise_globals (g : Given) : g.globals.Pairwise fun o o' => o.choice ≠ o'.choice := by
  obtain ⟨config, format, extension, -, -, verbose, quiet, -⟩ := g
  cases verbose <;> cases quiet <;> cases format <;> cases extension <;> cases config <;>
    simp [globals, Global.choice]

/-- The level gives no option of the same choice. -/
def Lacks (g : Given) (o : Global) : Prop :=
  ∀ o', o'.choice = o.choice → ¬g.Has o'

theorem not_has_empty (o : Global) : ¬({} : Given).Has o := by
  cases o <;> simp [Has]

theorem lacks_empty (o : Global) : ({} : Given).Lacks o :=
  fun o' _ => not_has_empty o'

theorem has_put (h : g.Lacks o) : (g.put o).Has o' ↔ o' = o ∨ g.Has o' := by
  by_cases hchoice : o'.choice = o.choice
  · rw [or_iff_left (h o' hchoice)]
    cases o <;> cases o' <;> cases hchoice <;> simp [put, Has, eq_comm]
  · rw [or_iff_right (ne_of_apply_ne _ hchoice)]
    cases o <;> cases o' <;> first | exact absurd rfl hchoice | rfl

theorem Lacks.put (h : g.Lacks o') (hchoice : o.choice ≠ o'.choice) (ho : g.Lacks o) :
    (g.put o).Lacks o' := by
  intro o'' hsame hhas
  rcases (has_put ho).1 hhas with rfl | hhas
  · exact hchoice hsame
  · exact h o'' hsame hhas

theorem has_foldl_put (hos : os.Pairwise fun o o' => o.choice ≠ o'.choice)
    (h : ∀ o ∈ os, g.Lacks o) : (os.foldl put g).Has o ↔ o ∈ os ∨ g.Has o := by
  induction os generalizing g with
  | nil => simp
  | cons o' os ih =>
    have hput : ∀ o ∈ os, (g.put o').Lacks o := fun o ho =>
      (h o (List.mem_cons_of_mem _ ho)).put (List.rel_of_pairwise_cons hos ho)
        (h o' List.mem_cons_self)
    rw [List.foldl_cons, ih hos.of_cons hput, has_put (h o' List.mem_cons_self), List.mem_cons]
    tauto

/-- The options of a list are still to be given after those before it. -/
theorem lacks_foldl_put (hos : (os ++ os').Pairwise fun o o' => o.choice ≠ o'.choice) :
    ∀ o ∈ os', (os.foldl put {}).Lacks o := by
  intro o ho o' hchoice hhas
  obtain ⟨hos, -, hcross⟩ := List.pairwise_append.1 hos
  rcases (has_foldl_put hos fun o _ => lacks_empty o).1 hhas with hmem | hempty
  · exact hcross o' hmem o ho hchoice
  · exact not_has_empty o' hempty

/-- The level with a folder. -/
def inFolder (g : Given) (dir : Text) : Given :=
  { g with folder := some dir }

theorem has_inFolder (dir : Text) : (g.inFolder dir).Has o ↔ g.Has o := by
  cases o <;> rfl

theorem Lacks.inFolder (h : g.Lacks o) (dir : Text) : (g.inFolder dir).Lacks o :=
  fun o' hchoice hhas => h o' hchoice ((has_inFolder dir).1 hhas)

/-- Options of both levels say nothing about the folder, the number of lines and the starter
document. -/
theorem foldl_put_rest (g : Given) (os : List Global) :
    (os.foldl put g).folder = g.folder ∧ (os.foldl put g).contextLines = g.contextLines ∧
      (os.foldl put g).initConfig = g.initConfig := by
  induction os generalizing g with
  | nil => exact ⟨rfl, rfl, rfl⟩
  | cons o os ih =>
    obtain ⟨hfolder, hlines, hinit⟩ := ih (g.put o)
    cases o <;> exact ⟨hfolder, hlines, hinit⟩

end Given

/-! ## Words of one level -/

variable {scope : Option Kind} {g : Given} {o : Global} {os : List Global} {dir : Text}

theorem path?_of_ne (h : dir ≠ []) : path? dir = some dir := by
  rw [path?, if_neg]
  simpa using h

theorem Level.word_short {f : Flag} {letter : Char} {g' : Given} (hletter : letter ≠ '-')
    (hname : short? scope letter = some (.flag f)) (hraise : g.raise scope f = .ok g') :
    Level.word scope { given := g } ['-', letter] = .ok { given := g' } := by
  have hflag : Level.flag scope { given := g } f = .ok { given := g' } := by
    rw [Level.flag, Level.settle]
    change (g.raise scope f >>= fun g' => pure (Level.settled { given := g } g')) = _
    rw [hraise]
    rfl
  have hword : Level.word scope { given := g } ['-', letter] =
      Level.shortWord scope { given := g } [letter] := by
    simp [Level.word, hletter]
  rw [hword, Level.shortWord, hname]
  dsimp only
  rw [hflag]
  rfl

theorem Level.word_long {s : Valued} {name value : Text} {g' : Given}
    (hname : long? scope name = some (.valued s)) (hequals : '=' ∉ name)
    (hset : g.set value s = .ok g') :
    Level.word scope { given := g } (assignment name value) = .ok { given := g' } := by
  have hword : ∀ t, t ≠ [] → Level.word scope { given := g } ("--".toList ++ t) =
      Level.longWord scope { given := g } t := by
    intro t ht
    cases t with
    | nil => exact absurd rfl ht
    | cons c t => rfl
  rw [assignment, List.append_assoc, hword _ (by simp), Level.longWord,
    Text.before_append_cons hequals, Text.after?_append_cons hequals, hname]
  change (g.set value s >>= fun g' => pure (Level.settled { given := g } g')) = _
  rw [hset]
  rfl

/-- A word of an option adds it to a level that gives no option of the same choice. -/
theorem Level.word_word (hlacks : g.Lacks o) (ho : o ≠ .config []) :
    Level.word scope { given := g } o.word = .ok { given := g.put o } := by
  -- A command has the same options as the level before it, and maybe one more.
  have hshort : short? scope 'v' = some (.flag .verbose) ∧
      short? scope 'q' = some (.flag .quiet) := by
    rcases scope with _ | _ | _ <;> exact ⟨rfl, rfl⟩
  have hlong : long? scope "format".toList = some (.valued .format) ∧
      long? scope "ext".toList = some (.valued .extension) ∧
      long? scope "config".toList = some (.valued .config) := by
    rcases scope with _ | _ | _ <;> exact ⟨rfl, rfl, rfl⟩
  cases o with
  | verbose =>
    refine Level.word_short (by decide) hshort.1 ?_
    exact if_neg (hlacks .verbose rfl)
  | quiet =>
    refine Level.word_short (by decide) hshort.2 ?_
    exact if_neg (hlacks .quiet rfl)
  | format f =>
    have hnone : g.format = none :=
      Option.eq_none_iff_forall_ne_some.2 fun f => hlacks (.format f) rfl
    cases f <;> refine Level.word_long hlong.1 (by decide) ?_ <;> rw [Given.set, hnone] <;> rfl
  | extension value =>
    have hnone : g.extension = none :=
      Option.eq_none_iff_forall_ne_some.2 fun t => hlacks (.extension t) rfl
    refine Level.word_long hlong.2.1 (by decide) ?_
    rw [Given.set, hnone]
    rfl
  | config path =>
    have hnone : g.config = none :=
      Option.eq_none_iff_forall_ne_some.2 fun t => hlacks (.config t) rfl
    have hpath : path ≠ [] := fun h => ho (h ▸ rfl)
    refine Level.word_long hlong.2.2 (by decide) ?_
    rw [Given.set, hnone, path?_of_ne hpath]
    rfl

theorem foldlM_word (scope : Option Kind) (hos : os.Pairwise fun o o' => o.choice ≠ o'.choice)
    (hlacks : ∀ o ∈ os, g.Lacks o) (hconfig : .config [] ∉ os) :
    (os.map Global.word).foldlM (Level.word scope) { given := g } =
      .ok { given := os.foldl Given.put g } := by
  induction os generalizing g with
  | nil => rfl
  | cons o os ih =>
    -- The words that follow choose other things, so the level still lacks them.
    have hput : ∀ o' ∈ os, (g.put o).Lacks o' := fun o' ho' =>
      (hlacks o' (List.mem_cons_of_mem _ ho')).put (List.rel_of_pairwise_cons hos ho')
        (hlacks o List.mem_cons_self)
    rw [List.map_cons, List.foldlM_cons, Level.word_word (hlacks o List.mem_cons_self)
      (fun h => hconfig (h ▸ List.mem_cons_self))]
    exact ih hos.of_cons hput fun h => hconfig (List.mem_cons_of_mem _ h)

/-- A word that is not empty and does not start with a dash is the folder of a command. -/
theorem Level.word_dir {kind : Kind} (hdir : dir ≠ []) (hdash : dir.head? ≠ some '-')
    (hfolder : g.folder = none) :
    Level.word (some kind) { given := g } dir = .ok { given := g.inFolder dir } := by
  have hplain : Level.word (some kind) { given := g } dir =
      Level.plainWord (some kind) { given := g } dir := by
    obtain ⟨c, t, rfl⟩ := List.exists_cons_of_ne_nil hdir
    have hc : c ≠ '-' := fun h => hdash (h ▸ rfl)
    simp [Level.word, hc]
  rw [hplain]
  simp [Level.plainWord, Level.settle, Level.settled, Given.setFolder, Given.inFolder, once,
    hfolder, path?_of_ne hdir, bind, Except.bind, pure, Except.pure]

/-! ## Both levels -/

variable {env : Option Text} {kind : Kind} {before between after : List Global}

theorem readCommand_of_placement (kind : Kind)
    (hos : (between ++ after).Pairwise fun o o' => o.choice ≠ o'.choice)
    (hconfig : .config [] ∉ between ++ after) (hdir : dir ≠ []) (hdash : dir.head? ≠ some '-') :
    readCommand none kind (between.map Global.word ++ dir :: after.map Global.word) =
      .ok (dir, after.foldl Given.put ((between.foldl Given.put {}).inFolder dir)) := by
  have hbetween := foldlM_word (some kind) (hos.sublist (List.sublist_append_left _ _))
    (fun o _ => Given.lacks_empty o) fun h => hconfig (List.mem_append_left _ h)
  have hfolder : (between.foldl Given.put {}).folder = none := (Given.foldl_put_rest _ _).1
  have hafter := foldlM_word (some kind) (hos.sublist (List.sublist_append_right _ _))
    (fun o ho => (Given.lacks_foldl_put hos o ho).inFolder dir)
    fun h => hconfig (List.mem_append_right _ h)
  have hlevel : (between.map Global.word ++ dir :: after.map Global.word).foldlM
      (Level.word (some kind)) {} =
      .ok { given := after.foldl Given.put ((between.foldl Given.put {}).inFolder dir) } := by
    rw [List.foldlM_append, hbetween]
    change List.foldlM (Level.word (some kind)) { given := between.foldl Given.put {} }
      (dir :: after.map Global.word) = _
    rw [List.foldlM_cons, Level.word_dir hdir hdash hfolder]
    exact hafter
  have hdone : (after.foldl Given.put ((between.foldl Given.put {}).inFolder dir)).folder =
      some dir := (Given.foldl_put_rest _ _).1
  simp only [readCommand, bind_eq_ok_iff]
  refine ⟨_, hlevel, _, rfl, (), environment_none _, ?_⟩
  rw [hdone]
  rfl

theorem ofName?_of_dash {t : Text} (h : t.head? = some '-') : Kind.ofName? t = none := by
  refine List.find?_eq_none.2 fun k _ => ?_
  rw [decide_eq_true_eq]
  rintro rfl
  cases k <;> cases h

/-- Before the command, a word that starts with a dash names none. -/
theorem readWords_append {ts : List Text} (h : ∀ t ∈ ts, t.head? = some '-') (l : Level)
    (words : List Text) : readWords env l (ts ++ words) =
      ts.foldlM (Level.word none) l >>= fun l => readWords env l words := by
  induction ts generalizing l with
  | nil => rfl
  | cons t ts ih =>
    have hdash := h t List.mem_cons_self
    have hhelp : t ≠ "help".toList := by
      rintro rfl
      cases hdash
    have hstep : readWords env l (t :: (ts ++ words)) =
        Level.word none l t >>= fun l => readWords env l (ts ++ words) := by
      rw [readWords, ofName?_of_dash hdash]
      cases l.mayName with
      | true => exact if_neg hhelp
      | false => rfl
    rw [List.cons_append, hstep, List.foldlM_cons, bind_assoc]
    exact congrArg _ (funext fun l => ih (fun t ht => h t (List.mem_cons_of_mem _ ht)) l)

theorem readWords_of_placement (kind : Kind)
    (hos : (before ++ (between ++ after)).Pairwise fun o o' => o.choice ≠ o'.choice)
    (hconfig : .config [] ∉ before ++ (between ++ after)) (hdir : dir ≠ [])
    (hdash : dir.head? ≠ some '-') :
    readWords none {} (before.map Global.word ++ kind.name ::
        (between.map Global.word ++ dir :: after.map Global.word)) =
      .ok (before.foldl Given.put {}, some (kind, dir,
        after.foldl Given.put ((between.foldl Given.put {}).inFolder dir))) := by
  have hbefore := foldlM_word none (hos.sublist (List.sublist_append_left _ _))
    (fun o _ => Given.lacks_empty o) fun h => hconfig (List.mem_append_left _ h)
  have hcommand := readCommand_of_placement kind
    (hos.sublist (List.sublist_append_right _ _)) (fun h => hconfig (List.mem_append_right _ h))
    hdir hdash
  rw [readWords_append (fun t ht => ?_), hbefore]
  · change readWords none { given := before.foldl Given.put {} } (kind.name :: _) = _
    rw [readWords, Kind.ofName?_name]
    change (readCommand none kind _ >>= fun read =>
      pure (before.foldl Given.put {}, some (kind, read))) = _
    rw [hcommand]
    rfl
  · obtain ⟨o, -, rfl⟩ := List.mem_map.1 ht
    exact o.head?_word

/-- Both levels together give the options of all words. -/
theorem has_of_placement
    (hos : (before ++ (between ++ after)).Pairwise fun o o' => o.choice ≠ o'.choice) :
    (after.foldl Given.put ((between.foldl Given.put {}).inFolder dir)).Has o ∨
      (before.foldl Given.put {}).Has o ↔ o ∈ before ++ (between ++ after) := by
  obtain ⟨hbefore, hrest, -⟩ := List.pairwise_append.1 hos
  obtain ⟨hbetween, hafter, -⟩ := List.pairwise_append.1 hrest
  rw [Given.has_foldl_put hafter fun o ho => (Given.lacks_foldl_put hrest o ho).inFolder dir,
    Given.has_inFolder, Given.has_foldl_put hbetween fun o _ => Given.lacks_empty o,
    Given.has_foldl_put hbefore fun o _ => Given.lacks_empty o]
  have hempty := Given.not_has_empty o
  simp only [List.mem_append]
  tauto

theorem orElse_eq_of_forall {α : Type} {x y z : Option α}
    (h : ∀ a, x = some a ∨ y = some a ↔ z = some a) : (x <|> y) = z := by
  cases x with
  | none => exact Option.ext fun a => by simpa using h a
  | some a => exact ((h a).1 (Or.inl rfl)).symm

/-- Two levels that together have the options of one are combined to what that one says. -/
theorem combine_of_has {outer inner : Given} (h : ∀ o, inner.Has o ∨ outer.Has o ↔ g.Has o) :
    combine none outer (some (kind, dir, inner)) =
      { command := some ⟨kind, dir, inner.contextLines⟩
        config := g.config
        verbose := g.verbose
        quiet := g.quiet
        format := g.format.getD .text
        extension := g.extension
        initConfig := outer.initConfig } := by
  have hconfig : (inner.config <|> outer.config) = g.config :=
    orElse_eq_of_forall fun path => h (.config path)
  have hformat : (inner.format <|> outer.format) = g.format :=
    orElse_eq_of_forall fun f => h (.format f)
  have hextension : (inner.extension <|> outer.extension) = g.extension :=
    orElse_eq_of_forall fun value => h (.extension value)
  have hverbose : (outer.verbose || inner.verbose) = g.verbose := by
    rw [Bool.eq_iff_iff, Bool.or_eq_true, or_comm]
    exact h .verbose
  have hquiet : (outer.quiet || inner.quiet) = g.quiet := by
    rw [Bool.eq_iff_iff, Bool.or_eq_true, or_comm]
    exact h .quiet
  have hnone (x y : Option Text) : (x <|> y <|> none) = (x <|> y) := by
    cases x <;> cases y <;> rfl
  simp only [combine, Option.map_some, Option.getD_some, hnone, hconfig, hformat, hextension,
    hverbose, hquiet]

/-- The options of both levels may stand anywhere. However those that are given are placed before
the command, between it and the folder, and after the folder, the words can be read, and they ask
for the same. A path that the words give goes before the one of the environment. -/
theorem read_of_placement (kind : Kind) (g : Given) (hpath : g.config ≠ some [])
    (henv : env ≠ some []) (hdir : dir ≠ []) (hdash : dir.head? ≠ some '-')
    (hplaced : (before ++ between ++ after).Perm g.globals) :
    read env (before.map Global.word ++ kind.name ::
        (between.map Global.word ++ dir :: after.map Global.word)) =
      .ok { command := some ⟨kind, dir, none⟩
            config := g.config <|> env
            verbose := g.verbose
            quiet := g.quiet
            format := g.format.getD .text
            extension := g.extension } := by
  rw [List.append_assoc] at hplaced
  have hmem (o : Global) : o ∈ before ++ (between ++ after) ↔ g.Has o :=
    hplaced.mem_iff.trans Given.mem_globals_iff
  have hos : (before ++ (between ++ after)).Pairwise fun o o' => o.choice ≠ o'.choice :=
    hplaced.symm.pairwise g.pairwise_globals fun h => h.symm
  have hconfig : .config [] ∉ before ++ (between ++ after) := fun h => hpath ((hmem _).1 h)
  have hread : read none (before.map Global.word ++ kind.name ::
      (between.map Global.word ++ dir :: after.map Global.word)) =
      .ok { command := some ⟨kind, dir, none⟩
            config := g.config
            verbose := g.verbose
            quiet := g.quiet
            format := g.format.getD .text
            extension := g.extension } := by
    refine read_eq_ok_iff.2 ⟨_, _, readWords_of_placement kind hos hconfig hdir hdash,
      environment_none _, nofun, ?_⟩
    rw [combine_of_has fun o => (has_of_placement hos).trans (hmem o),
      (Given.foldl_put_rest _ after).2.1, (Given.foldl_put_rest _ before).2.2, Given.inFolder,
      (Given.foldl_put_rest _ between).2.1]
  exact read_of_read_none henv hread

/-- A level with all options that may stand at either level. -/
def fullyGiven : Given where
  config := some "c.toml".toList
  format := some .json
  extension := some []
  verbose := true
  quiet := true

/-- All options are given, in reverse order after the folder, or around the command. The folder may
have the name of a command. -/
theorem read_of_scatteredWords :
    read (some "e.toml".toList) ["classes".toList, "help".toList, "--config=c.toml".toList,
        "--ext=".toList, "--format=json".toList, "-q".toList, "-v".toList] =
      read (some "e.toml".toList) ["--ext=".toList, "-q".toList, "classes".toList,
        "--config=c.toml".toList, "-v".toList, "help".toList, "--format=json".toList] ∧
    read (some "e.toml".toList) ["classes".toList, "help".toList, "--config=c.toml".toList,
        "--ext=".toList, "--format=json".toList, "-q".toList, "-v".toList] =
      .ok { command := some ⟨.classes, "help".toList, none⟩
            config := some "c.toml".toList
            verbose := true
            quiet := true
            format := .json
            extension := some [] } := by
  have henv : some "e.toml".toList ≠ some [] := by decide
  have hdir : "help".toList ≠ [] := by decide
  have hafter : ([] ++ [] ++ fullyGiven.globals.reverse).Perm fullyGiven.globals :=
    List.reverse_perm _
  have haround : ([Global.extension [], Global.quiet] ++
      [Global.config "c.toml".toList, Global.verbose] ++
      [Global.format .json]).Perm fullyGiven.globals := by
    decide
  have hread := read_of_placement .classes fullyGiven (by decide) henv hdir (by decide) hafter
  have hread' := read_of_placement .classes fullyGiven (by decide) henv hdir (by decide) haround
  exact ⟨hread.trans hread'.symm, hread⟩

end CommandLine

end ReportTally
