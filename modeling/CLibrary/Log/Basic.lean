import CLibrary.Library.Calendar
import CLibrary.Library.Runs

/-!
`log.c`, `log.h`: the log, which goes to a file for each day.

* `LogLevel`, `Tm`: the level of a message and the time of a call.
* `fileName`, `LogMessage.line`: the texts that `snprintf` and `fprintf` make.
  `fileName_injective`: two dates have two files.
* `Log`: the static variables and the files of the directory.  A file is the list of
  its lines, and an open `FILE` the name of its file.
* `logFile`, `logWrite`: `log_file`, `log_write`; whether `fopen` opens the file is up to
  the caller.  `Log.step`: a call, `none` where `fprintf` gets no file.
-/

namespace CLibrary

/-! ### Texts -/

/-- `log_level_e`. -/
inductive LogLevel
  | none | log | error | warn | info | debug
  deriving DecidableEq, Repr

namespace LogLevel

/-- Its number. -/
def toNat : LogLevel → ℕ
  | none => 0
  | log => 1
  | error => 2
  | warn => 3
  | info => 4
  | debug => 5

/-- `level_text`. -/
def text : LogLevel → List Char
  | log => ['L', 'O', 'G']
  | error => ['E', 'R', 'R', 'O', 'R']
  | warn => ['W', 'A', 'R', 'N', 'I', 'N', 'G']
  | info => ['I', 'N', 'F', 'O']
  | debug => ['D', 'E', 'B', 'U', 'G']
  | none => ['N', 'O', 'N', 'E']

end LogLevel

/-- What `localtime` returns, with the year and the month as they are written. -/
structure Tm where
  date : Date
  hour : ℕ
  min : ℕ
  sec : ℕ
  year_lt : date.year < 2 ^ 32

/-- `snprintf` into `size` bytes, the last of which ends the text. -/
def snprintf (size : ℕ) (text : List Char) : List Char := text.take (size - 1)

/-- `%u`. -/
def formatU (n : ℕ) : List Char := Nat.toDigits 10 n

/-- `%02u`. -/
def format02U (n : ℕ) : List Char := if n < 10 then '0' :: formatU n else formatU n

/-- `%u-%02u-%02u`. -/
def formatDate (d : Date) : List Char :=
  formatU d.year ++ ['-'] ++ format02U d.month ++ ['-'] ++ format02U d.day

/-- The name of the file of a date. -/
def fileName (d : Date) : List Char := snprintf 27 (formatDate d ++ ['.', 'l', 'o', 'g'])

/-- `time_head`. -/
def timeHead (tm : Tm) : List Char :=
  snprintf 27 (formatDate tm.date ++ [' '] ++ format02U tm.hour ++ [':'] ++ format02U tm.min ++
    [':'] ++ format02U tm.sec)

/-- A message, as it was formatted, and when it was printed. -/
structure LogMessage where
  level : LogLevel
  text : List Char
  tm : Tm

namespace LogMessage

/-- The line of a message. -/
def line (m : LogMessage) : List Char :=
  timeHead m.tm ++ ['|', 'E', 'n', 'S', 'S', 'L', '|'] ++ m.level.text ++ ['|'] ++
    snprintf 1023 m.text ++ ['|', '\n']

/-- The date of a message. -/
def date (m : LogMessage) : Date := m.tm.date

end LogMessage

lemma formatU_injective : Function.Injective formatU := by
  intro n m h
  rw [← Nat.ofDigitChars_ten_toDigits (n := n), ← Nat.ofDigitChars_ten_toDigits (n := m)]
  exact congrArg (fun text => Nat.ofDigitChars 10 text 0) h

/-- Two digits are two digits. -/
lemma length_format02U {n : ℕ} (h : n < 100) : (format02U n).length = 2 := by
  have hpos : 0 < (formatU n).length := Nat.length_toDigits_pos
  have hone : (formatU n).length ≤ 1 ↔ n < 10 ^ 1 :=
    Nat.length_toDigits_le_iff (by decide) (by decide)
  have htwo : (formatU n).length ≤ 2 ↔ n < 10 ^ 2 :=
    Nat.length_toDigits_le_iff (by decide) (by decide)
  rw [format02U]
  split_ifs with hlt
  · rw [List.length_cons]
    omega
  · omega

lemma format02U_inj {n m : ℕ} (h : format02U n = format02U m) : n = m := by
  have hvalue : ∀ n, Nat.ofDigitChars 10 (format02U n) 0 = n := by
    intro n
    have hdigits : Nat.ofDigitChars 10 (formatU n) 0 = n := Nat.ofDigitChars_ten_toDigits
    rw [format02U]
    split_ifs
    · exact hdigits
    · exact hdigits
  rw [← hvalue n, h, hvalue]

/-- **Two dates have two files.** -/
lemma fileName_injective {d e : Date} (hd : d.year < 2 ^ 32) (he : e.year < 2 ^ 32)
    (h : fileName d = fileName e) : d = e := by
  have hmonth : ∀ d : Date, (format02U d.month).length = 2 := fun d =>
    length_format02U (d.month_le.trans_lt (by norm_num))
  have hday : ∀ d : Date, (format02U d.day).length = 2 := fun d =>
    length_format02U ((d.day_le.trans (daysIn_le _ _)).trans_lt (by norm_num))
  have hyear : ∀ d : Date, d.year < 2 ^ 32 → (formatU d.year).length ≤ 10 := fun d hd =>
    (Nat.length_toDigits_le_iff (by decide) (by decide)).mpr (hd.trans (by norm_num))
  have hwhole : ∀ d : Date, d.year < 2 ^ 32 →
      fileName d = formatDate d ++ ['.', 'l', 'o', 'g'] := by
    intro d hd
    have hlen := hyear d hd
    rw [fileName, snprintf, List.take_of_length_le]
    simp only [formatDate, List.length_append, List.length_cons, List.length_nil, hmonth, hday]
    omega
  rw [hwhole d hd, hwhole e he] at h
  -- from the end: the day, the month, the year
  have hdate := List.append_inj_left' h rfl
  rw [formatDate, formatDate] at hdate
  obtain ⟨hdate, hdays⟩ := List.append_inj' hdate (by rw [hday, hday])
  obtain ⟨hdate, -⟩ := List.append_inj' hdate rfl
  obtain ⟨hdate, hmonths⟩ := List.append_inj' hdate (by rw [hmonth, hmonth])
  obtain ⟨hyears, -⟩ := List.append_inj' hdate rfl
  exact Date.ext (formatU_injective hyears) (format02U_inj hmonths) (format02U_inj hdays)

/-! ### The log -/

/-- The static variables, with the files of the directory and a record of the calls of
`print_f` functions. -/
structure Log (κ : Type) where
  gLogLevel : LogLevel
  gOutFp : Option (List Char)
  dayValue : ℕ × ℕ
  needCheck : Bool
  gPrint : Option κ
  files : List Char → Option (List (List Char))
  printed : List (κ × LogLevel × List Char)

/-- Calls of the interface, and whether the `fopen` in them opens the file; a `print_f`
that is not `log_write` is a `κ`. -/
inductive LogAction (κ : Type)
  | init (printcb : Option κ)
  | file (name : List Char) (opens : Bool)
  | setlevel (level : LogLevel)
  | print (level : LogLevel) (text : List Char) (tm : Tm) (opens : Bool)

namespace Log

variable {κ : Type} (s : Log κ)

/-- Before the first call. -/
def start (files : List Char → Option (List (List Char))) : Log κ where
  gLogLevel := .info
  gOutFp := none
  dayValue := (0, 0)
  needCheck := false
  gPrint := none
  files := files
  printed := []

/-- `log_file`. -/
def logFile (name : List Char) (opens : Bool) : Log κ :=
  if opens then
    { s with files := Function.update s.files name (some []), gOutFp := some name }
  else s

/-- `fprintf(g_out_fp, ..)`. -/
def fprintf (line : List Char) : Option (Log κ) :=
  s.gOutFp.map fun name =>
    { s with files := Function.update s.files name (some ((s.files name).getD [] ++ [line])) }

/-- The file of the day, where it has to be opened. -/
def logOpen (tm : Tm) (opens : Bool) : Log κ :=
  if s.needCheck = false ∨ s.gOutFp = none then
    logFile { s with dayValue := (tm.date.month, tm.date.day), needCheck := true }
      (fileName tm.date) opens
  else if tm.date.day ≠ s.dayValue.2 then
    { logFile s (fileName tm.date) opens with dayValue := (tm.date.month, tm.date.day) }
  else s

/-- `log_write`. -/
def logWrite (level : LogLevel) (text : List Char) (tm : Tm) (opens : Bool) : Option (Log κ) :=
  if s.gLogLevel.toNat < level.toNat then some s
  else (s.logOpen tm opens).fprintf (LogMessage.line ⟨level, text, tm⟩)

/-- A call. -/
def step : LogAction κ → Option (Log κ)
  | .init none => some s
  | .init (some printcb) => some { s with gPrint := some printcb }
  | .file name opens => some (s.logFile name opens)
  | .setlevel level => some { s with gLogLevel := level }
  | .print level text tm opens =>
      match s.gPrint with
      | none => s.logWrite level text tm opens
      | some printcb => some { s with printed := s.printed ++ [(printcb, level, text)] }

end Log

end CLibrary
