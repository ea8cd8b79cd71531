import ReportTally.Flaw
import ReportTally.Number.Ratio
import ReportTally.Report.Json
import ReportTally.Report.Labelled
import ReportTally.Text.Lines
import ReportTally.Text.Search

/-!
# Passthrough reports

After the banner of a passthrough report each line is a row: the name of a class, how many of its
columns pass through, how many output and input columns were found, and how many the schemas have.
The fields stand between plus signs. A negative count says that the analysis found no precise
answer.

A row is *ignored* if it has at most two fields, *generated* if its class is known by name as
generated code, and *counted* otherwise (`Row.ofText`). Only the counts of a counted row are read.
`Tally.addCounts` says what they add: a row without precise columns adds nothing to the totals, and
a row without a precise passthrough adds its columns and no ratio.
-/

namespace ReportTally.Passthrough

/-! ## Rows -/

/-- The line before the rows. -/
def banner : Text := "=== Summary ===".toList

/-- The lines after the banner that are not empty. -/
def rows (t : Text) : List Text :=
  (((Text.lines t).dropWhile (!Text.occurs banner ·)).drop 1).filter (!·.isEmpty)

/-- The counts of a row. -/
structure Counts where
  /-- Columns that pass through. -/
  passthrough : Counter
  /-- Output columns found. -/
  outputFound : Counter
  /-- Input columns found. -/
  inputFound : Counter
  /-- Columns of the output schema. -/
  outputSchema : Counter
  /-- Columns of the input schema. -/
  inputSchema : Counter
  deriving DecidableEq

/-- What a row says. -/
inductive Row where
  /-- Nothing. -/
  | ignored
  /-- That there is a class of generated code. -/
  | generated
  /-- The counts of a class. -/
  | counted (c : Counts)

/-- The counter in the field of this index. -/
def field (row : Text) (fields : List Text) (index : Nat) : Except Flaw Counter :=
  match fields[index]? with
  | none => .error (.missingField index row)
  | some value =>
    match Numeral.counter? (Text.trim value) with
    | none => .error (.notIntegerField index value row)
    | some n => .ok n

/-- The counts in the fields of a row, read from left to right. -/
def Counts.ofFields (row : Text) (fields : List Text) : Except Flaw Counts := do
  let passthrough ← field row fields 1
  let outputFound ← field row fields 2
  let inputFound ← field row fields 3
  let outputSchema ← field row fields 4
  let inputSchema ← field row fields 5
  return ⟨passthrough, outputFound, inputFound, outputSchema, inputSchema⟩

/-- Does the name of a class contain one of the names of generated code? -/
def isGenerated (generatedNames : List Text) (name : Text) : Bool :=
  generatedNames.any fun g => Text.occurs g name

/-- Reads a row. -/
def Row.ofText (generatedNames : List Text) (row : Text) : Except Flaw Row :=
  match Text.fields '+' row with
  | name :: first :: second :: rest =>
    if isGenerated generatedNames name then .ok .generated
    else do
      let c ← Counts.ofFields row (name :: first :: second :: rest)
      return .counted c
  | _ => .ok .ignored

/-! ## Totals -/

/-- A row of which more columns pass through than were found. -/
structure Excess where
  /-- The file of the row. -/
  file : Text
  /-- The row. -/
  row : Text
  /-- Its ratio. -/
  ratio : Float

/-- The rows so far. -/
structure Tally where
  /-- All files. -/
  files : Nat := 0
  /-- The rows that are not ignored. -/
  classes : Nat := 0
  /-- The counted rows. -/
  counted : Nat := 0
  /-- The counted rows without a precise answer. -/
  imprecise : Nat := 0
  /-- The rows with a column that passes through. -/
  withPassthrough : Nat := 0
  /-- The output columns of rows with a ratio. -/
  columns : Counter := 0
  /-- The columns that pass through. -/
  passthrough : Counter := 0
  /-- The sum of the ratios. -/
  ratios : Float := 0
  /-- The least ratio. -/
  least : Option Float := none
  /-- The greatest ratio. -/
  greatest : Option Float := none
  /-- The most columns of one row that pass through. -/
  most : Counter := 0
  /-- The first file with a row of that many. -/
  fileWithMost : Option Text := none
  /-- Input columns found. -/
  inputFound : Counter := 0
  /-- Columns of the input schemas. -/
  inputSchema : Counter := 0
  /-- Output columns found. -/
  outputFound : Counter := 0
  /-- Columns of the output schemas. -/
  outputSchema : Counter := 0
  /-- The rows with a ratio above one. -/
  excesses : List Excess := []

namespace Tally

/-- The columns of a row. -/
def addColumns (t : Tally) (c : Counts) : Tally :=
  { t with
    outputFound := Counter.add t.outputFound c.outputFound
    inputFound := Counter.add t.inputFound c.inputFound
    outputSchema := Counter.add t.outputSchema c.outputSchema
    inputSchema := Counter.add t.inputSchema c.inputSchema }

/-- The ratio of a row: the part of its output columns that passes through. -/
def rowRatio (c : Counts) : Float :=
  ratio (Binary64.ofCounter c.passthrough) (Binary64.ofCounter c.outputFound)

/-- The columns of a row that pass through, and its ratio. -/
def addRatio (t : Tally) (file row : Text) (c : Counts) : Tally :=
  let r := rowRatio c
  let more := t.most < c.passthrough
  { t with
    withPassthrough := t.withPassthrough + if 0 < c.passthrough then 1 else 0
    columns := Counter.add t.columns c.outputFound
    passthrough := Counter.add t.passthrough c.passthrough
    ratios := t.ratios + r
    least := some (match t.least with | none => r | some x => if r < x then r else x)
    greatest := some (match t.greatest with | none => r | some x => if x < r then r else x)
    most := if more then c.passthrough else t.most
    fileWithMost := if more then some file else t.fileWithMost
    excesses := if 1 < r then t.excesses ++ [⟨file, row, r⟩] else t.excesses }

/-- The counts of a row. -/
def addCounts (t : Tally) (file row : Text) (c : Counts) : Tally :=
  if c.outputFound < 0 || c.inputFound < 0 then { t with imprecise := t.imprecise + 1 }
  else if c.passthrough < 0 then { t.addColumns c with imprecise := t.imprecise + 1 }
  else (t.addColumns c).addRatio file row c

/-- One row more. -/
def addRow (t : Tally) (file row : Text) : Row → Tally
  | .ignored => t
  | .generated => { t with classes := t.classes + 1 }
  | .counted c =>
    { t with classes := t.classes + 1, counted := t.counted + 1 }.addCounts file row c

/-- One file more, row by row. -/
def addFile (generatedNames : List Text) (t : Tally) (file contents : Text) :
    Except Flaw Tally :=
  (rows contents).foldlM
    (fun t row => return t.addRow file row (← Row.ofText generatedNames row))
    { t with files := t.files + 1 }

end Tally

/-! ## Summaries -/

/-- What is reported about a folder of passthrough reports. -/
structure Summary where
  /-- The folder. -/
  folder : Text := []
  /-- The totals. -/
  tally : Tally := {}
  /-- The part of the counted rows with a column that passes through. -/
  classesPercentage : Float := 0
  /-- The part of the output columns found that passes through. -/
  columnsPercentage : Float := 0
  /-- The part of the input schemas that was found. -/
  inputPercentage : Float := 0
  /-- The part of the output schemas that was found. -/
  outputPercentage : Float := 0

/-- The summary of the rows so far. -/
def Tally.finish (t : Tally) (folder : Text) : Summary :=
  let counter := Binary64.ofCounter
  { folder := folder
    tally := t
    classesPercentage := percentage (Binary64.ofNat t.withPassthrough) (Binary64.ofNat t.counted)
    columnsPercentage := percentage (counter t.passthrough) (counter t.outputFound)
    inputPercentage := percentage (counter t.inputFound) (counter t.inputSchema)
    outputPercentage := percentage (counter t.outputFound) (counter t.outputSchema) }

/-- The counted rows with a ratio. -/
def Tally.precise (t : Tally) : Nat :=
  t.counted - t.imprecise

namespace Summary

/-- A line with columns found, columns of the schemas, and their ratio. -/
def foundLine (label : String) (found schema : Counter) (percentage : Float) : Text :=
  label.toList ++ ": ".toList ++ Numeral.ofCounter found ++ " Total schema: ".toList ++
    Numeral.ofCounter schema ++ " Ratio: ".toList ++ Decimal.twoPlaces percentage ++ ['\n']

/-- The line of a row with a ratio above one. -/
def excessLine (e : Excess) : Text :=
  "Problematic: ".toList ++ e.file ++ ' ' :: e.row ++ " (".toList ++
    Decimal.twoPlaces e.ratio ++ ")\n".toList

open Labelled in
/-- The labelled lines of a summary. -/
def text (s : Summary) : Text :=
  let t := s.tally
  [line "Analyzing folder" s.folder,
    count "Total files" t.files,
    count "Total classes" t.classes,
    count "Total classes (filtered)" t.counted,
    count "Total classes without _TOP_" t.precise,
    count "Total classes with passthrough" t.withPassthrough,
    float "Percentage of classes" s.classesPercentage,
    counter "Total columns" t.columns,
    counter "Total passthrough" t.passthrough,
    float "Percentage of columns" s.columnsPercentage,
    float "Min ratio" (t.least.getD 0),
    float "Max ratio" (t.greatest.getD 0),
    counter "Max passthrough" t.most,
    line "File with max passthrough" (t.fileWithMost.getD ['-']),
    foundLine "Total input" t.inputFound t.inputSchema s.inputPercentage,
    foundLine "Total output" t.outputFound t.outputSchema s.outputPercentage,
    t.excesses.flatMap excessLine].flatten

/-- The row as a value. -/
def excessJson (e : Excess) : Json :=
  .record
    [("file".toList, .text e.file), ("row".toList, .text e.row), ("ratio".toList, .number e.ratio)]

/-- The summary as a document. -/
def json (s : Summary) : Json :=
  let t := s.tally
  .record
    [("folder".toList, .text s.folder),
      ("files".toList, .integer t.files),
      ("classes".toList, .integer t.classes),
      ("filtered_classes".toList, .integer t.counted),
      ("top_classes".toList, .integer t.imprecise),
      ("classes_with_passthrough".toList, .integer t.withPassthrough),
      ("total_columns".toList, .integer t.columns.toInt),
      ("total_passthrough".toList, .integer t.passthrough.toInt),
      ("total_ratio".toList, .number t.ratios),
      ("min_ratio".toList, (t.least.map Json.number).getD .null),
      ("max_ratio".toList, (t.greatest.map Json.number).getD .null),
      ("max_passthrough".toList, .integer t.most.toInt),
      ("file_with_max".toList, (t.fileWithMost.map Json.text).getD .null),
      ("input_found".toList, .integer t.inputFound.toInt),
      ("input_schema".toList, .integer t.inputSchema.toInt),
      ("output_found".toList, .integer t.outputFound.toInt),
      ("output_schema".toList, .integer t.outputSchema.toInt),
      ("problematic".toList, .list (t.excesses.map excessJson)),
      ("classes_percentage".toList, .number s.classesPercentage),
      ("columns_percentage".toList, .number s.columnsPercentage),
      ("input_percentage".toList, .number s.inputPercentage),
      ("output_percentage".toList, .number s.outputPercentage)]

end Summary

end ReportTally.Passthrough
