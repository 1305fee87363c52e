import CLibrary.Log.Basic

/-!
The log as a journal: books that are begun one after the other.

* `accepted`: the messages that a list of calls has written.
* `Journal`: the books, the newest first, each with the name of its file; a book is
  begun where the day of the month changes.  `Journal.step`: a call.
* `Log.Shows`: every file is the newest book of its name, or as it was before.
* `log_keeps_journal`: so it is in every run, and the books together are all messages
  that are accepted.
-/

namespace CLibrary

variable {κ : Type}

/-! ### The messages -/

/-- The level, the `print_f` and the messages written, behind a call. -/
def tell (x : LogLevel × Option κ × List LogMessage) :
    LogAction κ → LogLevel × Option κ × List LogMessage
  | .init none => x
  | .init (some printcb) => (x.1, some printcb, x.2.2)
  | .file _ _ => x
  | .setlevel level => (level, x.2)
  | .print level text tm _ =>
      if x.2.1.isSome ∨ x.1.toNat < level.toNat then x
      else (x.1, x.2.1, x.2.2 ++ [⟨level, text, tm⟩])

/-- The messages that the calls `as` write. -/
def accepted (as : List (LogAction κ)) : List LogMessage :=
  (as.foldl tell (.info, none, [])).2.2

/-! ### The journal -/

/-- A book: the name of its file and its messages. -/
abbrev Book := List Char × List LogMessage

/-- The books, and the day of the month that the newest is for. -/
structure Journal (κ : Type) where
  level : LogLevel
  printcb : Option κ
  day : Option ℕ
  books : List Book
  printed : List (κ × LogLevel × List Char)

namespace Journal

/-- A message at the end of the newest book. -/
def enter (m : LogMessage) : List Book → Option (List Book)
  | [] => none
  | (name, messages) :: books => some ((name, messages ++ [m]) :: books)

variable (j : Journal κ)

/-- The books with one for the message: the newest, if it is for the day of the month, or
if no other can be begun. -/
def booksFor (m : LogMessage) (opens : Bool) : List Book :=
  if j.books ≠ [] ∧ j.day = some m.date.day ∨ opens = false then j.books
  else (fileName m.date, []) :: j.books

/-- A message is written. -/
def write (m : LogMessage) (opens : Bool) : Option (Journal κ) :=
  (enter m (j.booksFor m opens)).map fun books =>
    { j with books := books, day := some m.date.day }

/-- A call. -/
def step : LogAction κ → Option (Journal κ)
  | .init none => some j
  | .init (some printcb) => some { j with printcb := some printcb }
  | .file name opens => some { j with books := if opens then (name, []) :: j.books else j.books }
  | .setlevel level => some { j with level := level }
  | .print level text tm opens =>
      match j.printcb with
      | none => if j.level.toNat < level.toNat then some j else j.write ⟨level, text, tm⟩ opens
      | some printcb => some { j with printed := j.printed ++ [(printcb, level, text)] }

/-- No book. -/
def start : Journal κ := ⟨.info, none, none, [], []⟩

/-- The file of a name: the newest book that has it. -/
def file (name : List Char) : Option (List (List Char)) :=
  (j.books.find? fun b => b.1 = name).map fun b => b.2.map LogMessage.line

end Journal

/-- The log is the journal: a file that no book has is as it was. -/
structure Log.Shows (files : List Char → Option (List (List Char))) (s : Log κ)
    (j : Journal κ) : Prop where
  level : s.gLogLevel = j.level
  printcb : s.gPrint = j.printcb
  printed : s.printed = j.printed
  outFp : s.gOutFp = j.books.head?.map Prod.fst
  day : (if s.needCheck then some s.dayValue.2 else none) = j.day
  files : ∀ name, s.files name = (j.file name).or (files name)

section Refinement

variable {files : List Char → Option (List (List Char))} {s s' : Log κ} {j j' : Journal κ}
  {a : LogAction κ} {name : List Char} {m : LogMessage} {opens : Bool}

lemma Log.Shows.start : (Log.start files : Log κ).Shows files .start :=
  ⟨rfl, rfl, rfl, rfl, rfl, fun _ => rfl⟩

/-- A file that is opened is empty: a book is begun. -/
lemma Journal.file_cons (book : Book) (other : List Char) :
    ({ j with books := book :: j.books } : Journal κ).file other =
      if book.1 = other then some (book.2.map LogMessage.line) else j.file other := by
  rw [Journal.file, List.find?_cons]
  by_cases h : book.1 = other
  · rw [if_pos h]
    simp only [h, decide_true, Option.map_some]
  · rw [if_neg h]
    simp only [h, decide_false]
    rfl

/-- `log_file` begins a book. -/
lemma Log.Shows.logFile (h : s.Shows files j) (name : List Char) (opens : Bool) :
    (s.logFile name opens).Shows files
      { j with books := if opens then (name, []) :: j.books else j.books } := by
  cases opens with
  | false => exact h
  | true =>
    refine ⟨h.level, h.printcb, h.printed, rfl, h.day, fun other => ?_⟩
    simp only [if_true, Journal.file_cons, Log.logFile]
    by_cases heq : name = other
    · rw [heq, if_pos rfl, Function.update_self]
      rfl
    · rw [if_neg heq, Function.update_of_ne (Ne.symm heq)]
      exact h.files other

/-- `g_out_fp` is `NULL` if there is no book. -/
lemma Log.Shows.outFp_eq_none_iff (h : s.Shows files j) : s.gOutFp = none ↔ j.books = [] := by
  rw [h.outFp, Option.map_eq_none_iff, List.head?_eq_none_iff]

/-- The newest book is for another day, or there is none. -/
lemma Journal.booksFor_of_new (h : ¬ (j.books ≠ [] ∧ j.day = some m.date.day)) :
    j.booksFor m opens = if opens then (fileName m.date, []) :: j.books else j.books := by
  rw [Journal.booksFor]
  cases opens with
  | false => rw [if_pos (.inr rfl), if_neg Bool.false_ne_true]
  | true => rw [if_neg (not_or.mpr ⟨h, fun htrue => by cases htrue⟩), if_pos rfl]

/-- The file of the day is the book for the message. -/
lemma Log.Shows.logOpen (h : s.Shows files j) (m : LogMessage) (opens : Bool) :
    (s.logOpen m.tm opens).Shows files
      { j with books := j.booksFor m opens, day := some m.date.day } := by
  have hday := h.day
  have hnone := h.outFp_eq_none_iff
  by_cases hfirst : s.needCheck = false ∨ s.gOutFp = none
  · -- the first message, or no file is open
    have hnew : ¬ (j.books ≠ [] ∧ j.day = some m.date.day) := by
      rintro ⟨hne, heq⟩
      rcases hfirst with hcheck | hout
      · rw [← hday, hcheck] at heq
        cases heq
      · exact hne (hnone.mp hout)
    have hmark : { s with dayValue := (m.tm.date.month, m.tm.date.day), needCheck := true }.Shows
        files { j with day := some m.date.day } :=
      ⟨h.level, h.printcb, h.printed, h.outFp, rfl, h.files⟩
    rw [Log.logOpen, if_pos hfirst, Journal.booksFor_of_new hnew]
    exact hmark.logFile (fileName m.date) opens
  · obtain ⟨hcheck, hout⟩ := not_or.mp hfirst
    rw [Bool.not_eq_false] at hcheck
    rw [hcheck, if_pos rfl] at hday
    rw [Log.logOpen, if_neg hfirst]
    by_cases hsame : m.tm.date.day ≠ s.dayValue.2
    · -- the day of the month has changed
      have hnew : ¬ (j.books ≠ [] ∧ j.day = some m.date.day) := by
        rintro ⟨-, heq⟩
        rw [← hday] at heq
        exact hsame (Option.some.inj heq).symm
      have hopen := h.logFile (fileName m.date) opens
      rw [if_pos hsame, Journal.booksFor_of_new hnew]
      refine ⟨hopen.level, hopen.printcb, hopen.printed, hopen.outFp, ?_, hopen.files⟩
      rw [if_pos]
      · rfl
      · rw [Log.logFile]
        split_ifs <;> exact hcheck
    · rw [not_not] at hsame
      have hsome : j.day = some m.date.day := by
        rw [← hday, ← hsame]
        rfl
      have hne : j.books ≠ [] := fun hnil => hout (hnone.mpr hnil)
      rw [if_neg (not_not.mpr hsame), Journal.booksFor, if_pos (.inl ⟨hne, hsome⟩), ← hsome]
      exact h

/-- A line more is a message more in the newest book. -/
lemma Log.Shows.fprintf (h : s.Shows files j) (m : LogMessage) :
    Option.Rel (Log.Shows files) (s.fprintf m.line)
      ((Journal.enter m j.books).map fun books => { j with books := books }) := by
  rw [Log.fprintf, h.outFp]
  rcases hbooks : j.books with _ | ⟨⟨name, messages⟩, books⟩
  · exact .none
  · refine .some ⟨h.level, h.printcb, h.printed, rfl, h.day, fun other => ?_⟩
    have hj : j = { j with books := (name, messages) :: books } := by rw [← hbooks]
    have hcons := fun messages => Journal.file_cons (j := { j with books := books })
      (name, messages) other
    have hfile := h.files other
    rw [hj] at hfile
    dsimp only at hcons hfile ⊢
    rw [hcons] at hfile ⊢
    by_cases heq : name = other
    · subst heq
      rw [if_pos rfl] at hfile ⊢
      rw [Function.update_self, hfile, List.map_append, List.map_singleton]
      rfl
    · rw [if_neg heq] at hfile ⊢
      rw [Function.update_of_ne (Ne.symm heq), hfile]

/-- **A call is one of the journal**, and ends badly exactly if that does. -/
lemma Log.Shows.step (h : s.Shows files j) (a : LogAction κ) :
    Option.Rel (Log.Shows files) (s.step a) (j.step a) := by
  cases a with
  | init printcb =>
    cases printcb with
    | none => exact .some h
    | some printcb => exact .some ⟨h.level, rfl, h.printed, h.outFp, h.day, h.files⟩
  | file name opens => exact .some (h.logFile name opens)
  | setlevel level => exact .some ⟨rfl, h.printcb, h.printed, h.outFp, h.day, h.files⟩
  | print level text tm opens =>
    rw [Log.step, Journal.step, h.printcb]
    cases j.printcb with
    | some printcb =>
      exact .some ⟨h.level, rfl, by rw [h.printed], h.outFp, h.day, h.files⟩
    | none =>
      dsimp only
      rw [Log.logWrite, h.level]
      split_ifs
      · exact .some h
      · have hwrite := (h.logOpen ⟨level, text, tm⟩ opens).fprintf ⟨level, text, tm⟩
        rw [Journal.write]
        exact hwrite

lemma Log.Shows.step_some (h : s.Shows files j) (hs : s.step a = some s') :
    ∃ j', j.step a = some j' ∧ s'.Shows files j' := by
  have hrel := h.step a
  rw [hs] at hrel
  generalize j.step a = o at hrel ⊢
  cases hrel with
  | some hj => exact ⟨_, rfl, hj⟩

lemma Log.Shows.step_eq_none_iff (h : s.Shows files j) : s.step a = none ↔ j.step a = none := by
  have hrel := h.step a
  generalize s.step a = o at hrel ⊢
  generalize j.step a = o' at hrel ⊢
  cases hrel with
  | some _ => exact iff_of_false (Option.some_ne_none _) (Option.some_ne_none _)
  | none => exact iff_of_true rfl rfl

/-- There is no book for a message if there is none and none can be begun. -/
lemma Journal.step_eq_none_iff : j.step a = none ↔ j.books = [] ∧ j.printcb = none ∧
    ∃ level text tm, a = .print level text tm false ∧ ¬ j.level.toNat < level.toNat := by
  cases a with
  | init printcb =>
    refine iff_of_false ?_ fun ⟨_, _, _, _, _, ha, _⟩ => by cases ha
    cases printcb <;> exact Option.some_ne_none _
  | file name opens =>
    exact iff_of_false (Option.some_ne_none _) fun ⟨_, _, _, _, _, ha, _⟩ => by cases ha
  | setlevel level =>
    exact iff_of_false (Option.some_ne_none _) fun ⟨_, _, _, _, _, ha, _⟩ => by cases ha
  | print level text tm opens =>
    have henter : ∀ books : List Book,
        enter (⟨level, text, tm⟩ : LogMessage) books = none ↔ books = [] := by
      rintro (_ | ⟨⟨name, messages⟩, books⟩)
      · exact iff_of_true rfl rfl
      · exact iff_of_false (Option.some_ne_none _) (List.cons_ne_nil _ _)
    rw [Journal.step]
    cases hcb : j.printcb with
    | some printcb =>
      exact iff_of_false (Option.some_ne_none _) fun ⟨_, hnone, _⟩ => by cases hnone
    | none =>
      dsimp only
      by_cases hlow : j.level.toNat < level.toNat
      · rw [if_pos hlow]
        refine iff_of_false (Option.some_ne_none _) fun ⟨_, _, _, _, _, ha, hhigh⟩ => ?_
        obtain ⟨rfl, -⟩ := LogAction.print.inj ha
        exact hhigh hlow
      · rw [if_neg hlow, Journal.write, Option.map_eq_none_iff, henter, Journal.booksFor]
        constructor
        · intro hnil
          split_ifs at hnil with hnew
          · rcases hnew with ⟨hne, -⟩ | rfl
            · exact absurd hnil hne
            · exact ⟨hnil, rfl, level, text, tm, rfl, hlow⟩
        · rintro ⟨hnil, -, _, _, _, ha, -⟩
          obtain ⟨-, -, -, rfl⟩ := LogAction.print.inj ha
          rw [if_pos (.inr rfl), hnil]

/-! ### Runs -/

/-- The books are the messages accepted, and go by the level and the `print_f` in force. -/
structure Journal.Told (as : List (LogAction κ)) (j : Journal κ) : Prop where
  level : (as.foldl tell (.info, none, [])).1 = j.level
  printcb : (as.foldl tell (.info, none, [])).2.1 = j.printcb
  messages : j.books.reverse.flatMap Prod.snd = accepted as

lemma Journal.told_iff {as : List (LogAction κ)} : j.Told as ↔
    as.foldl tell (.info, none, []) =
      (j.level, j.printcb, j.books.reverse.flatMap Prod.snd) := by
  constructor
  · rintro ⟨hlevel, hprint, hmessages⟩
    rw [hmessages, accepted, ← hlevel, ← hprint]
  · intro h
    exact ⟨by rw [h], by rw [h], by rw [accepted, h]⟩

lemma flatMap_enter {books books' : List Book} (h : Journal.enter m books = some books') :
    books'.reverse.flatMap Prod.snd = books.reverse.flatMap Prod.snd ++ [m] := by
  rcases books with _ | ⟨⟨name, messages⟩, books⟩
  · cases h
  · obtain rfl := Option.some.inj h
    simp only [List.reverse_cons, List.flatMap_append, List.flatMap_singleton, List.append_assoc]

/-- A book that is begun has no message. -/
lemma flatMap_booksFor : (j.booksFor m opens).reverse.flatMap Prod.snd =
    j.books.reverse.flatMap Prod.snd := by
  rw [Journal.booksFor]
  split_ifs
  · rfl
  · rw [List.reverse_cons, List.flatMap_append, List.flatMap_singleton, List.append_nil]

/-- A call keeps the books complete. -/
lemma Journal.Told.step {as : List (LogAction κ)} (h : j.Told as) (hs : j.step a = some j') :
    j'.Told (as ++ [a]) := by
  rw [Journal.told_iff] at h ⊢
  rw [List.foldl_append, List.foldl_cons, List.foldl_nil, h]
  cases a with
  | init printcb =>
    cases printcb <;> obtain rfl := Option.some.inj hs <;> rfl
  | file name opens =>
    obtain rfl := Option.some.inj hs
    cases opens with
    | false => rfl
    | true =>
      simp only [tell, if_true, List.reverse_cons, List.flatMap_append, List.flatMap_singleton,
        List.append_nil]
  | setlevel level =>
    obtain rfl := Option.some.inj hs
    rfl
  | print level text tm opens =>
    rw [Journal.step] at hs
    rw [tell]
    cases hcb : j.printcb with
    | some printcb =>
      rw [hcb] at hs
      obtain rfl := Option.some.inj hs
      exact if_pos (.inl rfl)
    | none =>
      rw [hcb] at hs
      dsimp only at hs ⊢
      split_ifs at hs with hlow
      · obtain rfl := Option.some.inj hs
        rw [if_pos (.inr hlow), hcb]
      · obtain ⟨books, hbooks, rfl⟩ := Option.map_eq_some_iff.mp hs
        have hwrites : ¬ ((none : Option κ).isSome = true ∨ j.level.toNat < level.toNat) :=
          not_or.mpr ⟨Bool.false_ne_true, hlow⟩
        rw [if_neg hwrites, flatMap_enter hbooks, flatMap_booksFor, hcb]

end Refinement

/-- **The log keeps a journal**: in every run of calls, whatever the clock says and
whether files can be opened or not, every file is the newest book of its name or as it
was before, the books one after the other are exactly the messages accepted, and the next
call writes through `NULL` exactly if there is no book and none can be begun. -/
theorem log_keeps_journal {files : List Char → Option (List (List Char))}
    {as : List (LogAction κ)} {s : Log κ}
    (hrun : Run Log.step (fun _ _ => True) (Log.start files) as s) :
    ∃ j : Journal κ, Run Journal.step (fun _ _ => True) .start as j ∧ s.Shows files j ∧
      j.books.reverse.flatMap Prod.snd = accepted as ∧
      ∀ a, s.step a = none ↔ j.books = [] ∧ s.gPrint = none ∧
        ∃ level text tm, a = .print level text tm false ∧ ¬ s.gLogLevel.toNat < level.toNat := by
  obtain ⟨j, hj, hshows⟩ : ∃ j : Journal κ, Run Journal.step (fun _ _ => True) .start as j ∧
      s.Shows files j :=
    hrun.simulates Log.Shows.start fun _ _ _ _ h _ hs => h.step_some hs
  have htold : j.Told as := hj.invariant (I := fun as j => j.Told as) ⟨rfl, rfl, rfl⟩
    fun as t a u h _ hs => h.step hs
  refine ⟨j, hj, hshows, htold.messages, fun a => ?_⟩
  rw [hshows.step_eq_none_iff, Journal.step_eq_none_iff, hshows.printcb, hshows.level]

/-- The end of January 2024. -/
def lateJanuary : Tm where
  date := .of 2024 1 31 (by decide)
  hour := 23
  min := 59
  sec := 59
  year_lt := by norm_num [Date.of]

/-- The first of February. -/
def earlyFebruary : Tm where
  date := .of 2024 2 1 (by decide)
  hour := 0
  min := 0
  sec := 0
  year_lt := by norm_num [Date.of]

/-- A message on each day, and one that is below the level. -/
def twoDays : List (LogAction Unit) :=
  [.print .info ['a'] lateJanuary true, .print .debug ['b'] earlyFebruary true,
    .print .error ['c'] earlyFebruary true]

/-- Two books. -/
theorem two_days_in_journal : ∃ (s : Log Unit) (j : Journal Unit),
    s.Shows (fun _ => none) j ∧ j.books.reverse.flatMap Prod.snd = accepted twoDays ∧
      (accepted twoDays).map LogMessage.text = [['a'], ['c']] := by
  have hexec : (exec Log.step (Log.start fun _ => none) twoDays).isSome = true := by decide +kernel
  obtain ⟨s, hs⟩ := Option.isSome_iff_exists.mp hexec
  obtain ⟨j, -, hshows, hbooks, -⟩ := log_keeps_journal (run_of_exec hs)
  exact ⟨s, j, hshows, hbooks, rfl⟩

end CLibrary
