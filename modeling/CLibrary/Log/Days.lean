import CLibrary.Log.Journal

/-!
A file for each day.

* `LogAction.Plain`: messages and levels, where every file can be opened.
* `shelves`: the messages by the changes of the day of the month; `books_eq`: in a plain
  run they are the books.
* `Dated`: while the clock does not go back, a shelf has the messages from its date on
  up to the date of the next.
* `uniform_iff`: they are all of that date if the day of the month changes with the date.
* `log_files_are_days_iff`: then every file is the messages of its date, and only then.
-/

namespace CLibrary

variable {κ : Type}

/-! ### Shelves -/

/-- A date and the messages in the file of that date. -/
abbrev Shelf := Date × List LogMessage

/-- A message more; the newest shelf is the first. -/
def shelve : List Shelf → LogMessage → List Shelf
  | [], m => [(m.date, [m])]
  | (date, messages) :: shelves, m =>
      if m.date.day = date.day then (date, messages ++ [m]) :: shelves
      else (m.date, [m]) :: (date, messages) :: shelves

/-- The shelves of some messages. -/
def shelves (messages : List LogMessage) : List Shelf := messages.foldl shelve []

section Shelves

variable {messages : List LogMessage} {m : LogMessage} {shelf shelf' : Shelf} {l : List Shelf}
  {date : Date}

lemma shelves_concat (messages : List LogMessage) (m : LogMessage) :
    shelves (messages ++ [m]) = shelve (shelves messages) m := by
  rw [shelves, List.foldl_append, List.foldl_cons, List.foldl_nil, shelves]

lemma flatMap_shelve (l : List Shelf) (m : LogMessage) :
    (shelve l m).reverse.flatMap Prod.snd = l.reverse.flatMap Prod.snd ++ [m] := by
  rcases l with _ | ⟨⟨date, old⟩, l⟩
  · rfl
  · rw [shelve]
    split_ifs
    · rw [List.reverse_cons, List.reverse_cons, List.flatMap_append, List.flatMap_append,
        List.flatMap_singleton, List.flatMap_singleton, List.append_assoc]
    · rw [List.reverse_cons, List.flatMap_append, List.flatMap_singleton]

/-- Nothing is lost between the shelves. -/
lemma flatMap_shelves (messages : List LogMessage) :
    (shelves messages).reverse.flatMap Prod.snd = messages := by
  induction messages using List.reverseRecOn with
  | nil => rfl
  | append_singleton messages m ih => rw [shelves_concat, flatMap_shelve, ih]

lemma mem_messages (hshelf : shelf ∈ shelves messages) (hm : m ∈ shelf.2) : m ∈ messages := by
  rw [← flatMap_shelves messages]
  exact List.mem_flatMap.mpr ⟨shelf, List.mem_reverse.mpr hshelf, hm⟩

/-- A shelf begins with a message of its date, all its messages have the day of the month
of that date, and all of them are before the next shelf. -/
structure Dated (l : List Shelf) : Prop where
  first : ∀ shelf ∈ l, ∃ m messages, shelf.2 = m :: messages ∧ m.date = shelf.1
  days : ∀ shelf ∈ l, ∀ m ∈ shelf.2, m.date.day = shelf.1.day ∧ shelf.1 ≤ m.date
  apart : l.Pairwise fun shelf shelf' => ∀ m ∈ shelf'.2, m.date < shelf.1

lemma dated_cons : Dated (shelf :: l) ↔
    ((∃ m messages, shelf.2 = m :: messages ∧ m.date = shelf.1) ∧
      (∀ m ∈ shelf.2, m.date.day = shelf.1.day ∧ shelf.1 ≤ m.date) ∧
        ∀ shelf' ∈ l, ∀ m ∈ shelf'.2, m.date < shelf.1) ∧ Dated l := by
  constructor
  · rintro ⟨hfirst, hdays, hapart⟩
    obtain ⟨hfirst, hfirsts⟩ := List.forall_mem_cons.mp hfirst
    obtain ⟨hday, hdays⟩ := List.forall_mem_cons.mp hdays
    obtain ⟨hbefore, hapart⟩ := List.pairwise_cons.mp hapart
    exact ⟨⟨hfirst, hday, hbefore⟩, hfirsts, hdays, hapart⟩
  · rintro ⟨⟨hfirst, hday, hbefore⟩, hfirsts, hdays, hapart⟩
    exact ⟨List.forall_mem_cons.mpr ⟨hfirst, hfirsts⟩, List.forall_mem_cons.mpr ⟨hday, hdays⟩,
      List.pairwise_cons.mpr ⟨hbefore, hapart⟩⟩

lemma dated_nil : Dated [] := ⟨nofun, nofun, .nil⟩

/-- A shelf is of a date before every newer one. -/
lemma Dated.dates_lt (h : Dated l) : l.Pairwise fun shelf shelf' => shelf'.1 < shelf.1 := by
  refine h.apart.imp_of_mem fun {shelf shelf'} _ hmem hlt => ?_
  obtain ⟨m, messages, heq, hdate⟩ := h.first shelf' hmem
  exact hdate ▸ hlt m (heq ▸ List.mem_cons_self)

/-- A shelf with one message. -/
lemma Dated.begin (h : Dated l) (hlate : ∀ shelf ∈ l, ∀ m' ∈ shelf.2, m'.date < m.date) :
    Dated ((m.date, [m]) :: l) := by
  refine dated_cons.mpr ⟨⟨⟨m, [], rfl, rfl⟩, fun m' hm' => ?_, hlate⟩, h⟩
  obtain rfl := List.mem_singleton.mp hm'
  exact ⟨rfl, le_rfl⟩

/-- **A message more**, not before the ones that there are. -/
lemma Dated.shelve (h : Dated l)
    (hlate : ∀ shelf ∈ l, ∀ m' ∈ shelf.2, m'.date ≤ m.date) : Dated (shelve l m) := by
  rcases l with _ | ⟨⟨date, old⟩, l⟩
  · exact dated_nil.begin nofun
  · obtain ⟨⟨⟨m₀, rest, hold, hm₀⟩, hdays, hbefore⟩, htail⟩ := dated_cons.mp h
    obtain ⟨hlate, -⟩ := List.forall_mem_cons.mp hlate
    have hdate : date ≤ m.date := by
      rw [← show m₀.date = date from hm₀]
      exact hlate m₀ (hold ▸ List.mem_cons_self)
    rw [CLibrary.shelve]
    split_ifs with hday
    · refine dated_cons.mpr ⟨⟨⟨m₀, rest ++ [m], ?_, hm₀⟩, fun m' hm' => ?_, hbefore⟩, htail⟩
      · rw [show old = m₀ :: rest from hold]
        rfl
      · rcases List.mem_append.mp hm' with hm' | hm'
        · exact hdays m' hm'
        · obtain rfl := List.mem_singleton.mp hm'
          exact ⟨hday, hdate⟩
    · refine h.begin (List.forall_mem_cons.mpr ⟨fun m' hm' => ?_, fun shelf hshelf m' hm' => ?_⟩)
      · -- on another day of the month, so not on the same date
        refine lt_of_le_of_ne (hlate m' hm') fun heq => hday ?_
        rw [← show m'.date = m.date from heq]
        exact (hdays m' hm').1
      · exact (hbefore shelf hshelf m' hm').trans_le hdate

/-- While the clock does not go back. -/
lemma dated_shelves (h : messages.Pairwise fun m m' => m.date ≤ m'.date) :
    Dated (shelves messages) := by
  induction messages using List.reverseRecOn with
  | nil => exact dated_nil
  | append_singleton messages m ih =>
    obtain ⟨hold, -, hlate⟩ := List.pairwise_append.mp h
    rw [shelves_concat]
    exact (ih hold).shelve fun shelf hshelf m' hm' =>
      hlate m' (mem_messages hshelf hm') m (List.mem_singleton_self m)

/-! ### Shelves of one date -/

/-- The shelves of some messages have their messages of one date each. -/
def Uniform (l : List Shelf) : Prop := ∀ shelf ∈ l, ∀ m ∈ shelf.2, m.date = shelf.1

lemma uniform_cons : Uniform (shelf :: l) ↔ (∀ m ∈ shelf.2, m.date = shelf.1) ∧ Uniform l :=
  List.forall_mem_cons

/-- A message is on the newest shelf, which is for its day of the month. -/
lemma head_shelve (l : List Shelf) (m : LogMessage) :
    ∃ shelf, (shelve l m).head? = some shelf ∧ m ∈ shelf.2 ∧ m.date.day = shelf.1.day := by
  rcases l with _ | ⟨⟨date, old⟩, l⟩
  · exact ⟨_, rfl, List.mem_singleton_self m, rfl⟩
  · rw [shelve]
    split_ifs with hday
    · exact ⟨_, rfl, List.mem_append_right _ (List.mem_singleton_self m), hday⟩
    · exact ⟨_, rfl, List.mem_singleton_self m, rfl⟩

/-- The newest shelf has the newest message. -/
lemma head_shelves (messages : List LogMessage) :
    ∀ shelf ∈ (shelves messages).head?, ∃ m ∈ shelf.2, messages.getLast? = some m ∧
      m.date.day = shelf.1.day := by
  rcases List.eq_nil_or_concat' messages with rfl | ⟨messages, m, rfl⟩
  · exact fun shelf hshelf => by cases hshelf
  · intro shelf hshelf
    obtain ⟨newest, hhead, hmem, hday⟩ := head_shelve (shelves messages) m
    rw [shelves_concat, hhead] at hshelf
    obtain rfl := Option.some.inj hshelf
    exact ⟨m, hmem, List.getLast?_concat, hday⟩

/-- **Shelves of one date**: exactly if the day of the month changes with the date. -/
lemma uniform_iff (messages : List LogMessage) : Uniform (shelves messages) ↔
    messages.IsChain fun m m' => m.date = m'.date ∨ m.date.day ≠ m'.date.day := by
  induction messages using List.reverseRecOn with
  | nil => exact iff_of_true nofun .nil
  | append_singleton messages m ih =>
    have hhead := head_shelves messages
    have hpair : ∀ {y}, messages.getLast? = some y →
        ((∀ x ∈ messages.getLast?, ∀ z ∈ [m].head?, x.date = z.date ∨ x.date.day ≠ z.date.day) ↔
          (y.date = m.date ∨ y.date.day ≠ m.date.day)) := by
      intro y hy
      rw [hy]
      exact ⟨fun h => h y rfl m rfl, fun h x hx z hz => by cases hx; cases hz; exact h⟩
    rw [shelves_concat, List.isChain_append, ← ih]
    rcases hl : shelves messages with _ | ⟨⟨date, old⟩, l⟩
    · have hnil : messages = [] := by
        rw [← flatMap_shelves messages, hl]
        rfl
      rw [hnil]
      refine iff_of_true (fun shelf hshelf m' hm' => ?_) ⟨nofun, List.isChain_singleton m, nofun⟩
      obtain rfl := List.mem_singleton.mp hshelf
      exact congrArg _ (List.mem_singleton.mp hm')
    · rw [hl] at hhead
      obtain ⟨y, hy, hlast, hyday⟩ := hhead _ rfl
      rw [hpair hlast, shelve]
      split_ifs with hday
      · rw [uniform_cons, uniform_cons, List.forall_mem_append, List.forall_mem_singleton]
        constructor
        · rintro ⟨⟨hold, hm⟩, htail⟩
          exact ⟨⟨hold, htail⟩, List.isChain_singleton m, .inl ((hold y hy).trans hm.symm)⟩
        · rintro ⟨⟨hold, htail⟩, -, hchange⟩
          have hsame : y.date = m.date :=
            hchange.resolve_right (not_not.mpr (hyday.trans hday.symm))
          exact ⟨⟨hold, hsame.symm.trans (hold y hy)⟩, htail⟩
      · rw [uniform_cons, List.forall_mem_singleton]
        constructor
        · rintro ⟨-, h⟩
          exact ⟨h, List.isChain_singleton m, .inr fun heq => hday (heq.symm.trans hyday)⟩
        · rintro ⟨h, -, -⟩
          exact ⟨rfl, h⟩

/-- The lines of a date, if there are any. -/
def filed (messages : List LogMessage) (date : Date) : Option (List (List Char)) :=
  let today := messages.filter fun m => m.date = date
  if today = [] then none else some (today.map LogMessage.line)

/-- The lines of the newest shelf of a date. -/
def shelved (l : List Shelf) (date : Date) : Option (List (List Char)) :=
  (l.find? fun shelf => shelf.1 = date).map fun shelf => shelf.2.map LogMessage.line

/-- The messages of a date are those of its shelf. -/
lemma filter_flatMap (hlt : l.Pairwise fun shelf shelf' => shelf'.1 < shelf.1)
    (huniform : Uniform l) (date : Date) :
    (l.reverse.flatMap Prod.snd).filter (fun m => m.date = date) =
      (l.find? fun shelf => shelf.1 = date).elim [] Prod.snd := by
  induction l with
  | nil => rfl
  | cons shelf l ih =>
    obtain ⟨hhead, htail⟩ := List.pairwise_cons.mp hlt
    have hold := ih htail fun shelf' hshelf' => huniform shelf' (List.mem_cons_of_mem _ hshelf')
    have hnew := huniform shelf List.mem_cons_self
    rw [List.reverse_cons, List.flatMap_append, List.flatMap_singleton, List.filter_append, hold,
      List.find?_cons]
    by_cases heq : shelf.1 = date
    · have hnone : (l.find? fun shelf => shelf.1 = date) = none := by
        refine List.find?_eq_none.mpr fun shelf' hshelf' => ?_
        simpa [← heq] using (hhead shelf' hshelf').ne
      have hall : shelf.2.filter (fun m => m.date = date) = shelf.2 :=
        List.filter_eq_self.mpr fun m hm => by simpa using (hnew m hm).trans heq
      simp only [hnone, heq, decide_true, Option.elim_none, List.nil_append, Option.elim_some, hall]
    · have hnone : shelf.2.filter (fun m => m.date = date) = [] :=
        List.filter_eq_nil_iff.mpr fun m hm => by simpa [hnew m hm] using heq
      simp only [hnone, heq, decide_false, List.append_nil]

/-- **The shelves are the dates** exactly if they are of one date each. -/
lemma shelved_eq_filed_iff (h : Dated (shelves messages)) :
    (∀ date : Date, date.year < 2 ^ 32 → shelved (shelves messages) date = filed messages date) ↔
      Uniform (shelves messages) := by
  have hlt := h.dates_lt
  constructor
  · intro hall shelf hshelf m hm
    by_contra hne
    -- the file of the date of `m` has a shelf of its own
    have hmem : m ∈ messages := mem_messages hshelf hm
    have hfile := hall m.date m.tm.year_lt
    have htoday : messages.filter (fun m' => m'.date = m.date) ≠ [] :=
      List.ne_nil_of_mem (List.mem_filter.mpr ⟨hmem, decide_eq_true rfl⟩)
    rw [filed, if_neg htoday, shelved, Option.map_eq_some_iff] at hfile
    obtain ⟨own, hown, -⟩ := hfile
    have hdate : own.1 = m.date := by simpa using List.find?_some hown
    obtain ⟨m₀, rest, hfirst, hm₀⟩ := h.first own (List.mem_of_find?_eq_some hown)
    have hdays := (h.days shelf hshelf m hm).2
    -- which is neither newer nor older than the one that `m` is in
    have hcases : own = shelf ∨ (∀ m ∈ shelf.2, m.date < own.1) ∨ ∀ m ∈ own.2, m.date < shelf.1 :=
      (h.apart.imp fun hlt => .inr (.inl hlt)).forall_of_forall_of_flip
        (R := fun a b : Shelf => a = b ∨ (∀ m ∈ b.2, m.date < a.1) ∨ ∀ m ∈ a.2, m.date < b.1)
        (fun _ _ => .inl rfl) (h.apart.imp fun hlt => .inr (.inr hlt))
        (List.mem_of_find?_eq_some hown) hshelf
    rcases hcases with rfl | hnewer | holder
    · exact hne hdate.symm
    · exact (hnewer m hm).ne hdate.symm
    · have hlt := holder m₀ (hfirst ▸ List.mem_cons_self)
      rw [hm₀, hdate] at hlt
      exact absurd hlt (not_lt.mpr hdays)
  · intro huniform date _
    have hfilter := filter_flatMap hlt huniform date
    rw [flatMap_shelves] at hfilter
    rw [filed, hfilter, shelved]
    cases hfind : (shelves messages).find? fun shelf => shelf.1 = date with
    | none => rfl
    | some shelf =>
      obtain ⟨m, rest, hfirst, -⟩ := h.first shelf (List.mem_of_find?_eq_some hfind)
      have hne : shelf.2 ≠ [] := by
        rw [hfirst]
        exact List.cons_ne_nil m rest
      rw [Option.map_some, Option.elim_some, if_neg hne]

end Shelves

/-! ### Plain runs -/

/-- A message or a level, and every file can be opened. -/
def LogAction.Plain : LogAction κ → Prop
  | .setlevel _ => True
  | .print _ _ _ opens => opens = true
  | .init _ | .file _ _ => False

/-- The book of a shelf. -/
def Shelf.book (shelf : Shelf) : Book := (fileName shelf.1, shelf.2)

/-- **The books of a plain run** are the shelves of its messages. -/
structure Journal.Plain (as : List (LogAction κ)) (j : Journal κ) : Prop where
  told : j.Told as
  printcb : j.printcb = none
  books : j.books = (shelves (accepted as)).map Shelf.book
  day : j.day = (shelves (accepted as)).head?.map fun shelf => shelf.1.day

section PlainRuns

variable {as : List (LogAction κ)} {j j' : Journal κ} {a : LogAction κ}

/-- A message goes on a shelf. -/
lemma enter_book {m : LogMessage} (l : List Shelf) (hbooks : j.books = l.map Shelf.book)
    (hday : j.day = l.head?.map fun shelf => shelf.1.day) :
    Journal.enter m (j.booksFor m true) = some ((shelve l m).map Shelf.book) := by
  rcases l with _ | ⟨⟨date, old⟩, l⟩
  · rw [Journal.booksFor_of_new fun ⟨hne, _⟩ => hne hbooks, hbooks]
    rfl
  · have hhead : j.day = some date.day := hday
    rw [shelve]
    by_cases hsame : m.date.day = date.day
    · rw [Journal.booksFor, hbooks, hhead,
        if_pos (.inl ⟨List.cons_ne_nil _ _, congrArg some hsame.symm⟩), if_pos hsame]
      rfl
    · have hnew : ¬ (j.books ≠ [] ∧ j.day = some m.date.day) := by
        rintro ⟨-, heq⟩
        rw [hhead] at heq
        exact hsame (Option.some.inj heq).symm
      rw [Journal.booksFor_of_new hnew, hbooks, if_neg hsame]
      rfl

/-- **A plain call.** -/
lemma Journal.Plain.step (h : j.Plain as) (ha : a.Plain) (hs : j.step a = some j') :
    j'.Plain (as ++ [a]) := by
  have htold := h.told.step hs
  obtain ⟨told, hprint, hbooks, hday⟩ := h
  have hmessages := told.messages.symm
  have hmessages' := htold.messages.symm
  cases a with
  | init printcb => exact ha.elim
  | file name opens => exact ha.elim
  | setlevel level =>
    obtain rfl := Option.some.inj hs
    have hsame : accepted (as ++ [.setlevel level]) = accepted as := hmessages'.trans told.messages
    exact ⟨htold, hprint, hsame ▸ hbooks, hsame ▸ hday⟩
  | print level text tm opens =>
    obtain rfl : opens = true := ha
    rw [Journal.step, hprint] at hs
    dsimp only at hs
    split_ifs at hs with hlow
    · obtain rfl := Option.some.inj hs
      have hsame : accepted (as ++ [.print level text tm true]) = accepted as :=
        hmessages'.trans told.messages
      exact ⟨htold, hprint, hsame ▸ hbooks, hsame ▸ hday⟩
    · have henter := enter_book (m := ⟨level, text, tm⟩) _ hbooks hday
      obtain ⟨books, hnew, rfl⟩ := Option.map_eq_some_iff.mp hs
      have hmore : accepted (as ++ [.print level text tm true]) =
          accepted as ++ [⟨level, text, tm⟩] := by
        rw [hmessages', hmessages]
        exact (flatMap_enter hnew).trans (congrArg (· ++ _) flatMap_booksFor)
      rw [henter] at hnew
      obtain rfl := Option.some.inj hnew
      refine ⟨htold, hprint, ?_, ?_⟩
      · rw [hmore, shelves_concat]
      · obtain ⟨newest, hhead, -, hdays⟩ := head_shelve (shelves (accepted as)) ⟨level, text, tm⟩
        rw [hmore, shelves_concat, hhead]
        exact congrArg some hdays

/-- A shelf is of the date of a message. -/
lemma year_lt_shelves (messages : List LogMessage) :
    ∀ shelf ∈ shelves messages, shelf.1.year < 2 ^ 32 := by
  induction messages using List.reverseRecOn with
  | nil => exact nofun
  | append_singleton messages m ih =>
    rw [shelves_concat]
    rcases hl : shelves messages with _ | ⟨⟨date, old⟩, l⟩
    · exact List.forall_mem_singleton.mpr m.tm.year_lt
    · rw [hl] at ih
      obtain ⟨hhead, htail⟩ := List.forall_mem_cons.mp ih
      rw [shelve]
      split_ifs
      · exact List.forall_mem_cons.mpr ⟨hhead, htail⟩
      · exact List.forall_mem_cons.mpr ⟨m.tm.year_lt, ih⟩

/-- The file of a date is its shelf. -/
lemma Journal.Plain.file (h : j.Plain as) {date : Date} (hyear : date.year < 2 ^ 32) :
    j.file (fileName date) = shelved (shelves (accepted as)) date := by
  have hfind : (shelves (accepted as)).find? ((fun b : Book => b.1 = fileName date) ∘ Shelf.book) =
      (shelves (accepted as)).find? fun shelf => shelf.1 = date := by
    refine List.find?_congr fun shelf hshelf => decide_eq_decide.mpr ?_
    exact ⟨fileName_injective (year_lt_shelves _ shelf hshelf) hyear, congrArg fileName⟩
  rw [Journal.file, h.books, shelved, List.find?_map, Option.map_map, hfind]
  rfl

end PlainRuns

/-- **A file for each day**: while every file can be opened and the clock does not go
back, the files are the messages of each date exactly if no two messages that follow one
another are of one day of different months; so they are if the messages are at most 27
days apart. -/
theorem log_files_are_days_iff {as : List (LogAction κ)} {s : Log κ}
    (hrun : Run Log.step (fun _ a => a.Plain) (Log.start fun _ => none) as s)
    (hclock : (accepted as).Pairwise fun m m' => m.date ≤ m'.date) :
    ((∀ date : Date, date.year < 2 ^ 32 → s.files (fileName date) = filed (accepted as) date) ↔
      (accepted as).IsChain fun m m' => m.date = m'.date ∨ m.date.day ≠ m'.date.day) ∧
    ((accepted as).IsChain (fun m m' => Date.Within 27 m.date m'.date) →
      ∀ date : Date, date.year < 2 ^ 32 → s.files (fileName date) = filed (accepted as) date) := by
  obtain ⟨j, hshows, hplain⟩ : ∃ j : Journal κ, s.Shows (fun _ => none) j ∧ j.Plain as := by
    refine hrun.invariant (I := fun as s => ∃ j : Journal κ, s.Shows (fun _ => none) j ∧ j.Plain as)
      ⟨.start, .start, ⟨rfl, rfl, rfl⟩, rfl, rfl, rfl⟩ fun as t a u ⟨j, hj, hplain⟩ ha hs => ?_
    obtain ⟨j', hj', hshows⟩ := hj.step_some hs
    exact ⟨j', hshows, hplain.step ha hj'⟩
  have hfiles : ∀ date : Date, date.year < 2 ^ 32 →
      s.files (fileName date) = shelved (shelves (accepted as)) date := by
    intro date hyear
    rw [hshows.files, hplain.file hyear, Option.or_none]
  have hiff : (∀ date : Date, date.year < 2 ^ 32 →
      s.files (fileName date) = filed (accepted as) date) ↔ (accepted as).IsChain fun m m' =>
        m.date = m'.date ∨ m.date.day ≠ m'.date.day := by
    rw [← uniform_iff, ← shelved_eq_filed_iff (dated_shelves hclock)]
    exact forall₂_congr fun date hyear => by rw [hfiles date hyear]
  refine ⟨hiff, fun hwithin => hiff.mpr (hwithin.imp fun m m' h => ?_)⟩
  exact h.day_ne (by norm_num)

instance : DecidablePred (@LogAction.Plain κ)
  | .setlevel _ => inferInstanceAs (Decidable True)
  | .print _ _ _ opens => inferInstanceAs (Decidable (opens = true))
  | .init _ | .file _ _ => inferInstanceAs (Decidable False)

/-- The end of March 2024. -/
def lateMarch : Tm where
  date := .of 2024 3 31 (by decide)
  hour := 12
  min := 0
  sec := 0
  year_lt := by norm_num [Date.of]

/-- A message at the end of January, and the next at the end of March. -/
def monthsApart : List (LogAction Unit) :=
  [.print .info ['a'] lateJanuary true, .print .info ['b'] lateMarch true]

/-- **A quiet February**: the message of March is not in the file of its day. -/
theorem march_not_in_its_file : ∃ s : Log Unit,
    Run Log.step (fun _ a => a.Plain) (Log.start fun _ => none) monthsApart s ∧
      ¬ ∀ date : Date, date.year < 2 ^ 32 →
        s.files (fileName date) = filed (accepted monthsApart) date := by
  have hexec : (exec (fun s a => if LogAction.Plain a then Log.step s a else none)
      (Log.start fun _ => none) monthsApart).isSome = true := by
    decide +kernel
  obtain ⟨s, hs⟩ := Option.isSome_iff_exists.mp hexec
  have hrun : Run Log.step (fun _ a => a.Plain) (Log.start fun _ => none) monthsApart s :=
    run_of_exec_guarded hs
  have hclock : (accepted monthsApart).Pairwise fun m m' => m.date ≤ m'.date := by decide +kernel
  refine ⟨s, hrun, fun hall => ?_⟩
  have hchain := (log_files_are_days_iff hrun hclock).1.mp hall
  revert hchain
  decide +kernel

end CLibrary
