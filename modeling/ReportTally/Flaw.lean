import ReportTally.Number.Numeral

/-!
# Flaws

A flaw is a report line that is recognised and cannot be read. The first flaw ends a run. That a
report lacks a part, or that a line is unknown, is no flaw.
-/

namespace ReportTally

/-- Why a report cannot be read. -/
inductive Flaw where
  /-- A marker line without a colon. -/
  | noColon (marker line : Text)
  /-- A marker line whose value is no integer. -/
  | notInteger (marker value : Text)
  /-- A marker line whose value is no finite number. -/
  | notNumber (marker value : Text)
  /-- A time that is not hours, minutes and seconds. -/
  | notElapsed (value : Text)
  /-- A row that ends before this field. -/
  | missingField (index : Nat) (row : Text)
  /-- A row with a field that is no integer. -/
  | notIntegerField (index : Nat) (value row : Text)
  /-- Savings of a processor in a trace that names no assembly. -/
  | noAssembly (processor : Text)
  deriving DecidableEq, Repr

namespace Flaw

/-- A value between quotes. -/
def quoted (t : Text) : Text :=
  '\'' :: (t ++ ['\''])

/-- What is reported about a flaw. -/
def message : Flaw → Text
  | noColon marker line =>
    "marker ".toList ++ quoted marker ++ " has no ':' separated value in line ".toList ++
      quoted line
  | notInteger marker value =>
    "marker ".toList ++ quoted marker ++ " expects an integer, found ".toList ++ quoted value
  | notNumber marker value =>
    "marker ".toList ++ quoted marker ++ " expects a number, found ".toList ++ quoted value
  | notElapsed value =>
    "invalid elapsed time ".toList ++ quoted value ++ ", expected H:M:S.fraction".toList
  | missingField index row =>
    "row is missing field ".toList ++ Numeral.ofNat index ++ ": ".toList ++ quoted row
  | notIntegerField index value row =>
    "field ".toList ++ Numeral.ofNat index ++ " expects an integer, found ".toList ++
      quoted value ++ " in row ".toList ++ quoted row
  | noAssembly processor =>
    "SAVINGS line for processor ".toList ++ quoted processor ++
      " has no 'Analyzing assembly:' line".toList

end Flaw

end ReportTally
