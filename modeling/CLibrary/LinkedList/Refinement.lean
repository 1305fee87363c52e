import CLibrary.LinkedList.Sequences

/-!
Lists represent sequences.

* `Represents`: the memory holds the sequences.  `Represents.put`, `hook`, `unhook`:
  one list is changed, and the others stay.
* `Represents.rpush`, `lpush`, `rpop`, `lpop`, `remove`, `listNew`, `destroy`: the
  functions of the source keep it, and none of them follows a pointer to nothing.
-/

namespace CLibrary

variable {π φ ν : Type}

/-- The structure of a list. -/
def Sequence.header (L : Sequence π φ ν) : ListT π φ ν :=
  ⟨L.seq.head?, L.seq.getLast?, L.seq.length, L.free, L.matchVal⟩

/-- The sequences alone. -/
def Sequences.shelf (a : Sequences π φ ν) (l : π) : Option (List π) := (a.lists l).map Sequence.seq

/-- The memory holds the sequences: every list is linked and has its header, a
node in no list has no neighbours, and everything else is as it should be. -/
structure Represents (m : ListMem π φ ν) (a : Sequences π φ ν) : Prop where
  shelved : Shelved some (fun _ => none) m.nodes a.shelf a.home
  val : ∀ p, (m.nodes p).map Cell.val = a.val p
  loose : ∀ p c, m.nodes p = some c → a.home p = none → c.prev = none ∧ c.next = none
  lists : ∀ l, m.lists l = (a.lists l).map Sequence.header
  short : ∀ l L, a.lists l = some L → L.seq.length < 2 ^ 32
  iters : m.iters = a.iters
  freed : m.freed = a.freed

namespace Represents

variable {m : ListMem π φ ν} {a b : Sequences π φ ν} {l p : π} {L : Sequence π φ ν}
  {q₁ q₂ : List π} {r : Option π}

lemma shelf_eq (hL : a.lists l = some L) : a.shelf l = some L.seq := by
  rw [Sequences.shelf, hL, Option.map_some]

lemma header_eq (h : Represents m a) (hL : a.lists l = some L) : m.lists l = some L.header := by
  rw [h.lists, hL, Option.map_some]

lemma linked (h : Represents m a) (hL : a.lists l = some L) :
    Linked some m.nodes none L.seq none :=
  h.shelved.linked l _ (shelf_eq hL)

lemma nodup (h : Represents m a) (hL : a.lists l = some L) : L.seq.Nodup :=
  h.shelved.nodup l _ (shelf_eq hL)

/-- The cell of a node that has a value. -/
lemma exists_cell (h : Represents m a) (hp : (a.val p).isSome = true) :
    ∃ c, m.nodes p = some c := by
  rw [← h.val, Option.isSome_map] at hp
  exact Option.isSome_iff_exists.mp hp

/-- A node in a list has a value. -/
lemma home_none (h : Represents m a) (hp : a.val p = none) : a.home p = none := by
  cases hhome : a.home p with
  | none => rfl
  | some l =>
      obtain ⟨q, hq, hmem⟩ := (h.shelved.home_iff p l).mp hhome
      obtain ⟨c, hc⟩ := (h.shelved.linked l q hq).exists_cell hmem
      rw [← h.val, hc] at hp
      cases hp

variable [DecidableEq π]

lemma shelf_put (q : List π) (home : π → Option π) :
    (a.put l L q home).shelf = Function.update a.shelf l (some q) :=
  Function.comp_update (Option.map Sequence.seq) a.lists l (some { L with seq := q })

/-- **One list is changed**, and its header with it. -/
lemma put (h : Represents m a) {nodes : Cells π (Option π) ν} {q : List π} {home : π → Option π}
    {val : π → Option ν} {freed freed' : List (φ × ν)}
    (hshelved : Shelved some (fun _ => none) nodes (Function.update a.shelf l (some q)) home)
    (hval : ∀ p, (nodes p).map Cell.val = val p)
    (hloose : ∀ p c, nodes p = some c → home p = none → c.prev = none ∧ c.next = none)
    (hshort : q.length < 2 ^ 32) (hfreed : freed = freed') :
    Represents { m.stored nodes l { L with seq := q : Sequence π φ ν }.header with freed := freed }
      { a.put l L q home with val := val, freed := freed' } := by
  refine ⟨?_, hval, hloose, fun k => ?_, fun k K hK => ?_, h.iters, hfreed⟩
  · rw [← shelf_put (L := L) q home] at hshelved
    exact hshelved
  · dsimp only [ListMem.stored, Sequences.put]
    by_cases hk : k = l
    · rw [hk, Function.update_self, Function.update_self]
      rfl
    · rw [Function.update_of_ne hk, Function.update_of_ne hk]
      exact h.lists k
  · dsimp only [Sequences.put] at hK
    by_cases hk : k = l
    · rw [hk, Function.update_self] at hK
      obtain rfl := Option.some.inj hK
      exact hshort
    · rw [Function.update_of_ne hk] at hK
      exact h.short k K hK

/-- A node is put into a list. -/
lemma hook (h : Represents m a) {c : Cell π (Option π) ν} (hL : a.lists l = some L)
    (hseq : L.seq = q₁ ++ q₂) (hp : m.nodes p = some c) (hhome : a.home p = none)
    (hshort : L.seq.length + 1 < 2 ^ 32) :
    Represents (m.stored (m.nodes.hook some none q₁ q₂ p c.val) l
        { L with seq := q₁ ++ p :: q₂ : Sequence π φ ν }.header)
      (a.put l L (q₁ ++ p :: q₂) (Function.update a.home p (some l))) := by
  have hshelf : a.shelf l = some (q₁ ++ q₂) := hseq ▸ shelf_eq hL
  have hshelved := h.shelved.hook hshelf hhome c.val
  have hval : ∀ x, (m.nodes.hook some none q₁ q₂ p c.val x).map Cell.val = a.val x :=
    fun x => (Cells.hook_val hp x).trans (h.val x)
  have hloose : ∀ x d, m.nodes.hook some none q₁ q₂ p c.val x = some d →
      Function.update a.home p (some l) x = none → d.prev = none ∧ d.next = none := by
    intro x d hx hd
    -- a node in no list is none of those that were stored to
    have hne : x ≠ p := by
      rintro rfl
      rw [Function.update_self] at hd
      cases hd
    rw [Function.update_of_ne hne] at hd
    have hx' := h.shelved.notMem (p := x) (by rw [hd]; exact (Option.some_ne_none l).symm) hshelf
    rw [List.mem_append, not_or] at hx'
    rw [Cells.hook_of_ne hne hx'.1 hx'.2] at hx
    exact h.loose x d hx hd
  have hlen : (q₁ ++ p :: q₂).length < 2 ^ 32 := by
    rw [hseq, List.length_append] at hshort
    rw [List.length_append, List.length_cons]
    omega
  exact h.put hshelved hval hloose hlen h.freed

/-- A node is taken out of a list, and its cell becomes `c`. -/
lemma unhook (h : Represents m a) {c : Option (Cell π (Option π) ν)} {freed freed' : List (φ × ν)}
    (hL : a.lists l = some L) (hseq : L.seq = q₁ ++ p :: q₂)
    (hc : ∀ d, c = some d → d.prev = none ∧ d.next = none) (hfreed : freed = freed') :
    Represents { m.stored (Function.update (m.nodes.unhook some none q₁ q₂) p c) l
        { L with seq := q₁ ++ q₂ : Sequence π φ ν }.header with freed := freed }
      { a.put l L (q₁ ++ q₂) (Function.update a.home p none) with
        val := Function.update a.val p (c.map Cell.val), freed := freed' } := by
  have hshelf : a.shelf l = some (q₁ ++ p :: q₂) := hseq ▸ shelf_eq hL
  have hframe : ∀ x, Function.update a.home p none x ≠ none →
      Function.update (m.nodes.unhook some none q₁ q₂) p c x =
        m.nodes.unhook some none q₁ q₂ x := by
    intro x hx
    refine Function.update_of_ne ?_ _ _
    rintro rfl
    exact hx (Function.update_self ..)
  have hshelved := (h.shelved.unhook hshelf).congr hframe
  have hval : ∀ x, (Function.update (m.nodes.unhook some none q₁ q₂) p c x).map Cell.val =
      Function.update a.val p (c.map Cell.val) x := by
    intro x
    by_cases hx : x = p
    · rw [hx, Function.update_self, Function.update_self]
    · rw [Function.update_of_ne hx, Function.update_of_ne hx, Cells.unhook_val, h.val]
  have hloose : ∀ x d, Function.update (m.nodes.unhook some none q₁ q₂) p c x = some d →
      Function.update a.home p none x = none → d.prev = none ∧ d.next = none := by
    intro x d hx hd
    by_cases hxp : x = p
    · rw [hxp, Function.update_self] at hx
      exact hc d hx
    · rw [Function.update_of_ne hxp] at hx hd
      have hx' := h.shelved.notMem (p := x) (by rw [hd]; exact (Option.some_ne_none l).symm) hshelf
      rw [List.mem_append, List.mem_cons, not_or, not_or] at hx'
      rw [Cells.unhook_of_notMem hx'.1 hx'.2.2] at hx
      exact h.loose x d hx hd
  have hlen : (q₁ ++ q₂).length < 2 ^ 32 := by
    have hshort := h.short l L hL
    rw [hseq, List.length_append, List.length_cons] at hshort
    rw [List.length_append]
    omega
  exact h.put hshelved hval hloose hlen hfreed

/-- A node is detached: it keeps its value. -/
lemma detach (h : Represents m a) {c : Cell π (Option π) ν} (hL : a.lists l = some L)
    (hseq : L.seq = q₁ ++ p :: q₂) (hp : m.nodes p = some c) :
    Represents (m.stored (Function.update (m.nodes.unhook some none q₁ q₂) p
        (some ⟨none, none, c.val⟩)) l { L with seq := q₁ ++ q₂ : Sequence π φ ν }.header)
      (a.put l L (q₁ ++ q₂) (Function.update a.home p none)) := by
  have hunhook := h.unhook (c := some ⟨none, none, c.val⟩) hL hseq
    (fun d hd => by obtain rfl := Option.some.inj hd; exact ⟨rfl, rfl⟩) h.freed
  have hval : Function.update a.val p (some c.val) = a.val := by
    rw [Function.update_eq_self_iff, ← h.val, hp, Option.map_some]
  rw [Option.map_some, hval] at hunhook
  exact hunhook

/-- The two stores that a node gets. -/
lemma setPrev_setNext {nodes : Cells π (Option π) ν} {c : Cell π (Option π) ν}
    (hp : nodes p = some c) (x e : Option π) {β : Type} (k : Cells π (Option π) ν → Option β) :
    ((nodes.setPrev p x).bind fun nodes => (nodes.setNext p e).bind k) =
      k (Function.update nodes p (some ⟨x, e, c.val⟩)) := by
  rw [Cells.setPrev_eq hp, Option.bind_some, Cells.setNext_eq (Function.update_self ..),
    Option.bind_some, Function.update_idem]

lemma setNext_setPrev {nodes : Cells π (Option π) ν} {c : Cell π (Option π) ν}
    (hp : nodes p = some c) (x e : Option π) {β : Type} (k : Cells π (Option π) ν → Option β) :
    ((nodes.setNext p e).bind fun nodes => (nodes.setPrev p x).bind k) =
      k (Function.update nodes p (some ⟨x, e, c.val⟩)) := by
  rw [Cells.setNext_eq hp, Option.bind_some, Cells.setPrev_eq (Function.update_self ..),
    Option.bind_some, Function.update_idem]

/-- **`list_rpush`**. -/
lemma rpush (h : Represents m a) {c : Cell π (Option π) ν} (hL : a.lists l = some L)
    (hp : m.nodes p = some c) (hhome : a.home p = none) (hshort : L.seq.length + 1 < 2 ^ 32) :
    ∃ m', m.listRpush l (some p) = some (some p, m') ∧
      Represents m' (a.put l L (L.seq ++ [p]) (Function.update a.home p (some l))) := by
  refine ⟨_, ?_, h.hook hL (List.append_nil _).symm hp hhome hshort⟩
  have hlen : uadd 32 L.seq.length 1 = L.seq.length + 1 := uadd_of_lt hshort
  rw [ListMem.listRpush]
  simp only [h.header_eq hL, Option.bind_eq_bind, Option.bind_some, Sequence.header, hlen]
  rcases List.eq_nil_or_concat' L.seq with hnil | ⟨front, x, hseq⟩
  · rw [if_neg (by simp [hnil]), setNext_setPrev hp]
    simp [hnil, Cells.hook]
  · have hx : x ∈ L.seq := by simp [hseq]
    have hne : x ≠ p := by
      rintro rfl
      rw [h.shelved.home_eq (shelf_eq hL) hx] at hhome
      cases hhome
    obtain ⟨d, hd⟩ := (h.linked hL).exists_cell hx
    rw [if_pos (by simp [hseq]), setPrev_setNext hp]
    simp only [hseq, List.getLast?_concat, Option.bind_some]
    rw [Cells.setNext_eq_linkNext (c := d) (by rw [Function.update_of_ne hne, hd])]
    simp [Cells.hook]

/-- **`list_lpush`**. -/
lemma lpush (h : Represents m a) {c : Cell π (Option π) ν} (hL : a.lists l = some L)
    (hp : m.nodes p = some c) (hhome : a.home p = none) (hshort : L.seq.length + 1 < 2 ^ 32) :
    ∃ m', m.listLpush l (some p) = some (some p, m') ∧
      Represents m' (a.put l L (p :: L.seq) (Function.update a.home p (some l))) := by
  have hfront : L.seq = [] ++ L.seq := rfl
  refine ⟨_, ?_, h.hook hL hfront hp hhome hshort⟩
  have hlen : uadd 32 L.seq.length 1 = L.seq.length + 1 := uadd_of_lt hshort
  rw [ListMem.listLpush]
  simp only [h.header_eq hL, Option.bind_eq_bind, Option.bind_some, Sequence.header, hlen]
  cases hseq : L.seq with
  | nil =>
      rw [if_neg (by simp), setNext_setPrev hp]
      simp [Cells.hook]
  | cons x rest =>
      have hx : x ∈ L.seq := by simp [hseq]
      have hne : x ≠ p := by
        rintro rfl
        rw [h.shelved.home_eq (shelf_eq hL) hx] at hhome
        cases hhome
      obtain ⟨d, hd⟩ := (h.linked hL).exists_cell hx
      rw [if_pos (by simp), setNext_setPrev hp]
      simp only [List.head?_cons, Option.bind_some]
      rw [Cells.setPrev_eq_linkPrev (c := d) (by rw [Function.update_of_ne hne, hd])]
      simp [Cells.hook, List.getLast?_cons]

/-- **`list_rpop`**. -/
lemma rpop (h : Represents m a) (hL : a.lists l = some L) (hseq : L.seq = q₁ ++ [p]) :
    ∃ m', m.listRpop l = some (some p, m') ∧
      Represents m' (a.put l L q₁ (Function.update a.home p none)) := by
  have hlinked := h.linked hL
  rw [hseq] at hlinked
  obtain ⟨v, hp⟩ := hlinked.cell
  have hdetach := h.detach hL hseq hp
  rw [List.append_nil] at hdetach
  refine ⟨_, ?_, hdetach⟩
  have hnodup := h.nodup hL
  rw [hseq] at hnodup
  have hlen : usub 32 L.seq.length 1 = q₁.length := by
    have hshort := h.short l L hL
    rw [hseq, List.length_append, List.length_singleton] at hshort ⊢
    rw [usub_of_le (by omega) (by omega)]
    omega
  rw [ListMem.listRpop]
  simp only [h.header_eq hL, Option.bind_eq_bind, Option.bind_some, Sequence.header, hlen]
  rw [if_neg (by simp [hseq])]
  simp only [hseq, List.getLast?_concat, Option.bind_some]
  rcases List.eq_nil_or_concat' q₁ with rfl | ⟨front, x, rfl⟩
  · rw [if_neg (by simp), setPrev_setNext hp]
    simp [Cells.unhook]
  · have hx : x ∈ L.seq := by simp [hseq]
    have hne : x ≠ p := by
      rintro rfl
      exact (List.nodup_append.mp hnodup).2.2 x (by simp) x (by simp) rfl
    obtain ⟨d, hd⟩ := (h.linked hL).exists_cell hx
    rw [if_pos (by simp), hp]
    simp only [lastName_concat, Option.bind_some]
    rw [Cells.setNext_eq_linkNext hd, Option.bind_some,
      setPrev_setNext ((Cells.linkNext_of_ne (by simpa using hne)).trans hp)]
    simp [Cells.unhook]

/-- **`list_lpop`**. -/
lemma lpop (h : Represents m a) (hL : a.lists l = some L) (hseq : L.seq = p :: q₂) :
    ∃ m', m.listLpop l = some (some p, m') ∧
      Represents m' (a.put l L q₂ (Function.update a.home p none)) := by
  have hlinked := h.linked hL
  have hfront : L.seq = [] ++ p :: q₂ := hseq
  rw [hfront] at hlinked
  obtain ⟨v, hp⟩ := hlinked.cell
  refine ⟨_, ?_, h.detach hL hfront hp⟩
  have hnodup := h.nodup hL
  rw [hseq] at hnodup
  have hlen : usub 32 L.seq.length 1 = q₂.length := by
    have hshort := h.short l L hL
    rw [hseq, List.length_cons] at hshort ⊢
    rw [usub_of_le (by omega) (by omega)]
    omega
  rw [ListMem.listLpop]
  simp only [h.header_eq hL, Option.bind_eq_bind, Option.bind_some, Sequence.header, hlen]
  rw [if_neg (by simp [hseq])]
  simp only [hseq, List.head?_cons, Option.bind_some]
  cases q₂ with
  | nil =>
      rw [if_neg (by simp), setPrev_setNext hp]
      simp [Cells.unhook]
  | cons x rest =>
      have hx : x ∈ L.seq := by simp [hseq]
      have hne : x ≠ p := by
        rintro rfl
        exact (List.nodup_cons.mp hnodup).1 List.mem_cons_self
      obtain ⟨d, hd⟩ := (h.linked hL).exists_cell hx
      rw [if_pos (by simp), hp]
      simp only [List.head?_cons, Option.some_or, Option.bind_some]
      rw [Cells.setPrev_eq_linkPrev hd, Option.bind_some,
        setPrev_setNext ((Cells.linkPrev_of_ne (by simpa using hne)).trans hp)]
      simp [Cells.unhook, List.getLast?_cons]

/-- The first store of `list_remove`: what is before the node skips it. -/
lemma skipNext {nodes : Cells π (Option π) ν} {t : ListT π φ ν}
    (hlinked : Linked some nodes none (q₁ ++ p :: q₂) none)
    (hhead : t.head = (q₁ ++ p :: q₂).head?) :
    ListMem.storeNext nodes t q₁.getLast? q₂.head? =
      some (nodes.linkNext q₁.getLast? q₂.head?, { t with head := (q₁ ++ q₂).head? }) := by
  rcases List.eq_nil_or_concat' q₁ with rfl | ⟨front, x, rfl⟩
  · rfl
  · obtain ⟨d, hd⟩ := hlinked.exists_cell (p := x) (by simp)
    have hsame : t.head = (front ++ [x] ++ q₂).head? := by
      rw [hhead]
      cases front <;> rfl
    rw [List.getLast?_concat, ← hsame, ListMem.storeNext, Cells.setNext_eq_linkNext hd,
      Option.map_some]

/-- The second store of `list_remove`. -/
lemma skipPrev {nodes : Cells π (Option π) ν} {t : ListT π φ ν} {b : Option π}
    (hlinked : Linked some nodes b q₂ none) (htail : t.tail = (q₁ ++ p :: q₂).getLast?) :
    ListMem.storePrev nodes t q₂.head? q₁.getLast? =
      some (nodes.linkPrev q₂.head? q₁.getLast?, { t with tail := (q₁ ++ q₂).getLast? }) := by
  cases q₂ with
  | nil => rw [List.append_nil]; rfl
  | cons y rest =>
      obtain ⟨d, hd⟩ := hlinked.exists_cell (p := y) List.mem_cons_self
      have hsame : t.tail = (q₁ ++ y :: rest).getLast? := by
        rw [htail, List.getLast?_append_cons, List.getLast?_append_cons, List.getLast?_cons_cons]
      rw [List.head?_cons, ← hsame, ListMem.storePrev, Cells.setPrev_eq_linkPrev hd,
        Option.map_some]

/-- **`list_remove`**. -/
lemma remove (h : Represents m a) (hL : a.lists l = some L) (hseq : L.seq = q₁ ++ p :: q₂) {v : ν}
    (hv : a.val p = some v) :
    ∃ m', m.listRemove l p = some m' ∧
      Represents m' { a.put l L (q₁ ++ q₂) (Function.update a.home p none) with
        val := Function.update a.val p none, freed := callFree L.free v a.freed } := by
  have hlinked := h.linked hL
  have hnodup := h.nodup hL
  have hshort := h.short l L hL
  have hheader := h.header_eq hL
  have hfreed : callFree L.free v m.freed = callFree L.free v a.freed := by rw [h.freed]
  have hunhook := h.unhook (c := none) hL hseq (fun d hd => by cases hd) hfreed
  refine ⟨_, ?_, hunhook⟩
  rw [Sequence.header] at hheader
  rw [hseq] at hlinked hnodup hshort hheader
  obtain ⟨w, hp⟩ := hlinked.cell
  obtain rfl : w = v := by
    have hval := h.val p
    rw [hp, hv] at hval
    exact Option.some.inj hval
  obtain ⟨-, hnodup₂, hdisj⟩ := List.nodup_append.mp hnodup
  have hp₁ : q₁.getLast? ≠ some p := fun heq =>
    hdisj p (List.mem_of_getLast? heq) p List.mem_cons_self rfl
  have hp₂ : q₂.head? ≠ some p := fun heq =>
    (List.nodup_cons.mp hnodup₂).1 (List.mem_of_head? heq)
  have hlen : usub 32 (q₁ ++ p :: q₂).length 1 = (q₁ ++ q₂).length := by
    rw [List.length_append, List.length_cons] at hshort ⊢
    rw [usub_of_le (by omega) (by omega), List.length_append]
    omega
  rw [Option.or_none, lastName_some] at hp
  obtain ⟨hbefore, -, hbehind⟩ := linked_append.mp hlinked
  have hbehind' : Linked some (m.nodes.linkNext q₁.getLast? q₂.head?) (some p) q₂ none :=
    (linked_linkNext fun x hx heq =>
      hdisj x (List.mem_of_getLast? heq) x (List.mem_cons_of_mem p hx) rfl).mpr hbehind
  have hp' : m.nodes.linkNext q₁.getLast? q₂.head? p = some ⟨q₁.getLast?, q₂.head?, w⟩ :=
    (Cells.linkNext_of_ne hp₁).trans hp
  have hp'' : (m.nodes.linkNext q₁.getLast? q₂.head?).linkPrev q₂.head? q₁.getLast? p =
      some ⟨q₁.getLast?, q₂.head?, w⟩ :=
    (Cells.linkPrev_of_ne hp₂).trans hp'
  rw [ListMem.listRemove]
  simp only [hheader, Option.bind_eq_bind, Option.bind_some, hp]
  rw [skipNext hlinked rfl]
  simp only [Option.bind_some, hp']
  rw [skipPrev (p := p) hbehind' rfl]
  simp only [Option.bind_some, hp'', Cells.free_eq hp'', hlen]
  rw [Cells.unhook, lastName_some]
  rfl

/-! ### Nodes and lists made and given up -/

/-- A cell in no list is made or given up. -/
lemma update_node (h : Represents m a) {c : Option (Cell π (Option π) ν)} (hhome : a.home p = none)
    (hc : ∀ d, c = some d → d.prev = none ∧ d.next = none) :
    Represents { m with nodes := Function.update m.nodes p c }
      { a with val := Function.update a.val p (c.map Cell.val) } := by
  refine ⟨h.shelved.congr fun x hx => ?_, fun x => ?_, fun x d hd hx => ?_, h.lists, h.short,
    h.iters, h.freed⟩
  · refine Function.update_of_ne ?_ _ _
    rintro rfl
    exact hx hhome
  · dsimp only
    by_cases hx : x = p
    · rw [hx, Function.update_self, Function.update_self]
    · rw [Function.update_of_ne hx, Function.update_of_ne hx, h.val]
  · dsimp only at hd
    by_cases hxp : x = p
    · rw [hxp, Function.update_self] at hd
      exact hc d hd
    · rw [Function.update_of_ne hxp] at hd
      exact h.loose x d hd hx

/-- **`list_new`**. -/
lemma listNew (h : Represents m a) (hl : a.lists l = none) :
    Represents (m.listNew (some l)).2
      { a with lists := Function.update a.lists l (some ⟨[], none, none⟩) } := by
  have hshelf : a.shelf l = none := by rw [Sequences.shelf, hl, Option.map_none]
  have hshelves :
      Sequences.shelf { a with lists := Function.update a.lists l (some ⟨[], none, none⟩) } =
        Function.update a.shelf l (some []) :=
    Function.comp_update (Option.map Sequence.seq) a.lists l _
  refine ⟨?_, h.val, h.loose, fun k => ?_, fun k K hK => ?_, h.iters, h.freed⟩
  · rw [hshelves]
    exact h.shelved.add hshelf
  · dsimp only [ListMem.listNew]
    by_cases hk : k = l
    · rw [hk, Function.update_self, Function.update_self]
      rfl
    · rw [Function.update_of_ne hk, Function.update_of_ne hk]
      exact h.lists k
  · dsimp only at hK
    by_cases hk : k = l
    · rw [hk, Function.update_self] at hK
      obtain rfl := Option.some.inj hK
      exact Nat.two_pow_pos 32
    · rw [Function.update_of_ne hk] at hK
      exact h.short k K hK

/-- Stores to the members `free` and `match`. -/
lemma configure (h : Represents m a) (hL : a.lists l = some L) (free : Option φ)
    (matchVal : Option (ν → ν → Bool)) :
    Represents { m with
        lists := Function.update m.lists l
          (some { L.header with free := free, matchVal := matchVal }) }
      { a with lists := Function.update a.lists l (some ⟨L.seq, free, matchVal⟩) } := by
  have hshelves : Sequences.shelf
      { a with lists := Function.update a.lists l (some ⟨L.seq, free, matchVal⟩) } = a.shelf := by
    refine (Function.comp_update (Option.map Sequence.seq) a.lists l _).trans ?_
    exact Function.update_eq_self_iff.mpr (shelf_eq hL).symm
  refine ⟨?_, h.val, h.loose, fun k => ?_, fun k K hK => ?_, h.iters, h.freed⟩
  · rw [hshelves]
    exact h.shelved
  · dsimp only
    by_cases hk : k = l
    · rw [hk, Function.update_self, Function.update_self]
      rfl
    · rw [Function.update_of_ne hk, Function.update_of_ne hk]
      exact h.lists k
  · dsimp only at hK
    by_cases hk : k = l
    · rw [hk, Function.update_self] at hK
      obtain rfl := Option.some.inj hK
      exact h.short l L hL
    · rw [Function.update_of_ne hk] at hK
      exact h.short k K hK

/-- The loop of `list_destroy` frees the cells of a list, and their values in
order. -/
lemma destroyLoop (free : Option φ) {q : List π} {x : Option π}
    (hlinked : Linked some m.nodes x q none) (hnodup : q.Nodup) :
    ListMem.destroyLoop free q.length q.head? m = some { m with
      nodes := fun p => if p ∈ q then none else m.nodes p
      freed := (q.filterMap fun p => (m.nodes p).map Cell.val).foldl
        (fun freed val => callFree free val freed) m.freed } := by
  induction q generalizing m x with
  | nil => simp [ListMem.destroyLoop]
  | cons p q ih =>
      obtain ⟨⟨v, hv⟩, hrest⟩ := hlinked
      obtain ⟨hp, hnodup⟩ := List.nodup_cons.mp hnodup
      have hne : ∀ y ∈ q, y ≠ p := by
        rintro y hy rfl
        exact hp hy
      rw [List.length_cons, List.head?_cons, ListMem.destroyLoop]
      simp only [Option.bind_eq_bind, Option.bind_some, hv, Cells.free_eq hv, Option.or_none]
      have hvals : (q.filterMap fun y => (Function.update m.nodes p none y).map Cell.val) =
          q.filterMap fun y => (m.nodes y).map Cell.val :=
        List.filterMap_congr fun y hy => by rw [Function.update_of_ne (hne y hy)]
      rw [ih ((linked_update hp).mpr hrest) hnodup, hvals]
      have hcells : (fun y => if y ∈ q then none else Function.update m.nodes p none y) =
          fun y => if y ∈ p :: q then none else m.nodes y := by
        funext y
        by_cases hy : y = p
        · rw [hy, Function.update_self]
          simp
        · rw [Function.update_of_ne hy]
          simp [hy]
      have hfreed : (p :: q).filterMap (fun y => (m.nodes y).map Cell.val) =
          v :: q.filterMap fun y => (m.nodes y).map Cell.val :=
        List.filterMap_cons_some (by rw [hv, Option.map_some])
      rw [hcells, hfreed, List.foldl_cons]

/-- **`list_destroy`**. -/
lemma destroy (h : Represents m a) (hL : a.lists l = some L) :
    ∃ m', m.listDestroy l = some m' ∧
      Represents m' { a with
        lists := Function.update a.lists l none
        val := fun p => if p ∈ L.seq then none else a.val p
        home := fun p => if a.home p = some l then none else a.home p
        freed := (L.seq.filterMap a.val).foldl (fun freed val => callFree L.free val freed)
          a.freed } := by
  have hhome : ∀ p, p ∈ L.seq ↔ a.home p = some l := fun p => by
    rw [h.shelved.home_iff, shelf_eq hL]
    simp
  have hshelves : Sequences.shelf { a with
      lists := Function.update a.lists l none
      val := fun p => if p ∈ L.seq then none else a.val p
      home := fun p => if a.home p = some l then none else a.home p
      freed := (L.seq.filterMap a.val).foldl (fun freed val => callFree L.free val freed)
        a.freed } = Function.update a.shelf l none :=
    Function.comp_update (Option.map Sequence.seq) a.lists l _
  have hvals : (fun p => (m.nodes p).map Cell.val) = a.val := funext h.val
  rw [ListMem.listDestroy]
  simp only [h.header_eq hL, Option.bind_eq_bind, Option.bind_some, Sequence.header]
  rw [destroyLoop L.free (h.linked hL) (h.nodup hL), hvals, h.freed]
  refine ⟨_, rfl, ?_, fun p => ?_, fun p c hc hp => ?_, fun k => ?_, fun k K hK => ?_, h.iters, rfl⟩
  · rw [hshelves]
    exact h.shelved.drop (shelf_eq hL) fun p hp => if_neg hp
  · dsimp only
    split_ifs with hp
    · rfl
    · exact h.val p
  · dsimp only at hc hp
    by_cases hmem : p ∈ L.seq
    · rw [if_pos hmem] at hc
      cases hc
    · rw [if_neg hmem] at hc
      rw [if_neg fun heq => hmem ((hhome p).mpr heq)] at hp
      exact h.loose p c hc hp
  · dsimp only
    by_cases hk : k = l
    · rw [hk, Function.update_self, Function.update_self]
      rfl
    · rw [Function.update_of_ne hk, Function.update_of_ne hk]
      exact h.lists k
  · dsimp only at hK
    by_cases hk : k = l
    · rw [hk, Function.update_self] at hK
      cases hK
    · rw [Function.update_of_ne hk] at hK
      exact h.short k K hK

end Represents

end CLibrary
