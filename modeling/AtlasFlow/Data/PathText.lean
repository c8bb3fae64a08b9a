import AtlasFlow.Data.Lines
import AtlasFlow.Data.LinkedFiles

/-!
# Paths as text

Texts with `/` between the names, and what is left of them when the dot segments are taken out, without a look at
what is there. Whether one full path is below another shows in the texts (`below_iff`), except below the root of
the file system, whose text ends in a separator already.
-/

namespace PathText

open LinkedFiles

/-! ## Names -/

/-- One segment further, as the text has it. -/
def push (names : Location) (segment : Segment) : Location :=
  if segment = [] ∨ segment = ['.'] then names
  else if segment = ['.', '.'] then names.dropLast
  else names ++ [segment]

def isRooted (text : List Char) : Bool := text.head? = some '/'

/-- The names of a text, read in a directory. -/
def namesIn (directory : Location) (text : List Char) : Location :=
  (text.splitOn '/').foldl push (if isRooted text then [] else directory)

/-- A text as a path whose links are yet to be followed. -/
def pathOf (text : List Char) : Path := ⟨isRooted text, text.splitOn '/'⟩

/-! ## Full paths -/

/-- Every name after a separator. -/
def slashed (names : Location) : List Char := names.flatMap fun name => '/' :: name

/-- The text of a full path. -/
def textOf (names : Location) (isEnded : Bool) : List Char :=
  if names = [] then ['/'] else slashed names ++ if isEnded then ['/'] else []

/-- `Path.GetFullPath` of a text without U+0000. -/
def getFullPath (directory : Location) (text : List Char) : List Char :=
  textOf (namesIn directory text) (text.getLast? = some '/')

/-- `Path.TrimEndingDirectorySeparator`. -/
def trimEnding (text : List Char) : List Char :=
  if text.getLast? = some '/' ∧ text ≠ ['/'] then text.dropLast else text

/-- `Path.Combine`, of two texts. -/
def combine (first second : List Char) : List Char :=
  if first = [] then second
  else if second = [] then first
  else if isRooted second then second
  else if first.getLast? = some '/' then first ++ second
  else first ++ '/' :: second

/-! ## What the names are -/

variable {names above below : Location} {segment : Segment} {directory : Location} {text : List Char}

theorem push_isName (hnames : ∀ name ∈ names, IsName name) (hslash : '/' ∉ segment) (hnul : '\x00' ∉ segment) :
    ∀ name ∈ push names segment, IsName name := by
  unfold push
  split
  · exact hnames
  · next hdot =>
    split
    · exact fun name hname => hnames name (List.mem_of_mem_dropLast hname)
    · next hup =>
      intro name hname
      rcases List.mem_append.mp hname with hname | hname
      · exact hnames name hname
      · rw [List.mem_singleton] at hname
        subst hname
        rw [not_or] at hdot
        exact ⟨hdot.1, hdot.2, hup, hslash, hnul⟩

theorem foldl_push_isName {segments : List Segment} (hnames : ∀ name ∈ names, IsName name)
    (hsegments : ∀ segment ∈ segments, '/' ∉ segment ∧ '\x00' ∉ segment) :
    ∀ name ∈ segments.foldl push names, IsName name := by
  induction segments generalizing names with
  | nil => exact hnames
  | cons segment segments ih =>
      obtain ⟨⟨hslash, hnul⟩, hrest⟩ := List.forall_mem_cons.mp hsegments
      exact ih (push_isName hnames hslash hnul) hrest

/-- The names of a text without U+0000 are names of a file system. -/
theorem namesIn_isName (hdirectory : ∀ name ∈ directory, IsName name) (hnul : '\x00' ∉ text) :
    ∀ name ∈ namesIn directory text, IsName name := by
  apply foldl_push_isName
  · split
    · exact fun name hname => (List.not_mem_nil hname).elim
    · exact hdirectory
  · intro segment hsegment
    refine ⟨Lines.not_mem_of_mem_splitOn '/' hsegment, fun hmem => hnul ?_⟩
    rw [List.splitOn_eq_splitOnP] at hsegment
    exact (Lines.mem_of_mem_splitOnP hsegment hmem).1

/-! ## One full path below another -/

theorem slashed_cons (name : Segment) (names : Location) : slashed (name :: names) = '/' :: (name ++ slashed names) :=
  rfl

/-- A name ends where the next separator is. -/
theorem eq_of_prefix {a b x y : List Char} (ha : '/' ∉ a) (hb : '/' ∉ b) (hy : y = [] ∨ y.head? = some '/')
    (h : a ++ '/' :: x <+: b ++ y) : a = b ∧ '/' :: x <+: y := by
  induction a generalizing b with
  | nil =>
      cases b with
      | nil => exact ⟨rfl, h⟩
      | cons c b =>
          rw [List.nil_append, List.cons_append, List.cons_prefix_cons] at h
          exact absurd (h.1 ▸ List.mem_cons_self) hb
  | cons c a ih =>
      cases b with
      | nil =>
          rw [List.nil_append, List.cons_append] at h
          rcases hy with rfl | hy
          · exact absurd h.length_le (by simp)
          · cases y with
            | nil => cases hy
            | cons d y =>
                rw [List.head?_cons, Option.some.injEq] at hy
                rw [List.cons_prefix_cons] at h
                exact absurd (h.1.trans hy ▸ List.mem_cons_self) ha
      | cons d b =>
          rw [List.cons_append, List.cons_append, List.cons_prefix_cons] at h
          obtain ⟨rfl, h⟩ := h
          obtain ⟨rfl, hrest⟩ := ih (fun hmem => ha (List.mem_cons_of_mem _ hmem))
            (fun hmem => hb (List.mem_cons_of_mem _ hmem)) h
          exact ⟨rfl, hrest⟩

/-- A path ended by a separator is a prefix of those of what is below it, and of no others. -/
theorem slashed_prefix_iff (habove : ∀ name ∈ above, IsName name) (hbelow : ∀ name ∈ below, IsName name)
    (isEnded : Bool) :
    slashed above ++ ['/'] <+: slashed below ++ (if isEnded then ['/'] else []) ↔
      above <+: below ∧ (above = below → isEnded = true) := by
  induction above generalizing below with
  | nil =>
      cases below with
      | nil => cases isEnded <;> simp [slashed]
      | cons name below =>
          rw [slashed_cons]
          simp [slashed]
  | cons name above ih =>
      obtain ⟨hname, habove⟩ := List.forall_mem_cons.mp habove
      cases below with
      | nil =>
          constructor
          · intro h
            have hle := h.length_le
            rw [slashed_cons] at hle
            cases isEnded
            · simp [slashed] at hle
            · simp [slashed] at hle
          · rintro ⟨h, -⟩
            exact absurd h (by simp)
      | cons name' below =>
          obtain ⟨hname', hbelow⟩ := List.forall_mem_cons.mp hbelow
          have hslash : ∃ x, slashed above ++ ['/'] = '/' :: x := by
            cases above with
            | nil => exact ⟨[], rfl⟩
            | cons a above => exact ⟨_, rfl⟩
          obtain ⟨x, hx⟩ := hslash
          rw [slashed_cons, slashed_cons, List.cons_append, List.cons_append, List.cons_prefix_cons, List.append_assoc,
            List.append_assoc, hx]
          have hrest := ih habove hbelow
          rw [hx] at hrest
          constructor
          · rintro ⟨-, h⟩
            have htail : slashed below ++ (if isEnded then ['/'] else []) = [] ∨
                (slashed below ++ (if isEnded then ['/'] else [])).head? = some '/' := by
              cases below with
              | nil => cases isEnded <;> simp [slashed]
              | cons b below => exact .inr rfl
            obtain ⟨rfl, hafter⟩ := eq_of_prefix hname.2.2.2.1 hname'.2.2.2.1 htail h
            obtain ⟨hbegins, hended⟩ := hrest.mp hafter
            refine ⟨List.cons_prefix_cons.mpr ⟨rfl, hbegins⟩, fun heq => hended (List.cons.inj heq).2⟩
          · rintro ⟨h, hended⟩
            obtain ⟨rfl, hbegins⟩ := List.cons_prefix_cons.mp h
            refine ⟨rfl, (List.prefix_append_right_inj name).mpr (hrest.mpr ⟨hbegins, fun heq => hended (heq ▸ rfl)⟩)⟩

theorem slashed_append (names names' : Location) : slashed (names ++ names') = slashed names ++ slashed names' :=
  List.flatMap_append

theorem slashed_injective (habove : ∀ name ∈ above, IsName name) (hbelow : ∀ name ∈ below, IsName name)
    (h : slashed above = slashed below) : above = below := by
  have hle : ∀ {above below : Location}, (∀ name ∈ above, IsName name) → (∀ name ∈ below, IsName name) →
      slashed above = slashed below → above <+: below := by
    intro above below habove hbelow h
    exact ((slashed_prefix_iff habove hbelow true).mp (h ▸ List.prefix_rfl)).1
  exact (hle habove hbelow h).eq_of_length_le (hle hbelow habove h.symm).length_le

/-- No path's names end in a separator. -/
theorem slashed_ne_ended (habove : ∀ name ∈ above, IsName name) (hbelow : ∀ name ∈ below, IsName name) :
    slashed above ≠ slashed below ++ ['/'] := by
  intro h
  have hbegins : slashed below ++ ['/'] <+: slashed above ++ (if false then ['/'] else []) := by
    rw [h]
    exact List.prefix_append _ _
  obtain ⟨⟨rest, rfl⟩, hne⟩ := (slashed_prefix_iff hbelow habove false).mp hbegins
  rw [slashed_append] at h
  have hrest := List.append_cancel_left h
  cases rest with
  | nil => cases hrest
  | cons name rest =>
      obtain ⟨hempty, -⟩ := habove name (List.mem_append_right _ List.mem_cons_self)
      simp [slashed, hempty] at hrest


theorem textOf_of_ne (h : names ≠ []) (isEnded : Bool) :
    textOf names isEnded = slashed names ++ if isEnded then ['/'] else [] := if_neg h

/-- **The text of a full path shows what it is below**, the root of the file system apart. -/
theorem below_iff (habove : ∀ name ∈ above, IsName name) (hbelow : ∀ name ∈ below, IsName name) (isEnded : Bool) :
    textOf below isEnded = textOf above false ∨ textOf above false ++ ['/'] <+: textOf below isEnded ↔
      above <+: below ∧ (above = [] → below = []) := by
  by_cases hroot : above = []
  · subst hroot
    cases below with
    | nil => simp [textOf]
    | cons name below =>
        obtain ⟨hempty, -, -, hslash, -⟩ := hbelow name List.mem_cons_self
        obtain ⟨c, cs, rfl⟩ := List.exists_cons_of_ne_nil hempty
        have hc : '/' ≠ c := fun heq => hslash (heq ▸ List.mem_cons_self)
        simp [textOf, slashed, hc]
  · rw [textOf_of_ne hroot, if_neg Bool.false_ne_true, List.append_nil]
    by_cases hempty : below = []
    · subst hempty
      obtain ⟨name, rest, rfl⟩ := List.exists_cons_of_ne_nil hroot
      obtain ⟨hname, -⟩ := habove name List.mem_cons_self
      simp [textOf, slashed, hname]
    · rw [textOf_of_ne hempty, slashed_prefix_iff habove hbelow]
      constructor
      · rintro (heq | ⟨hbegins, -⟩)
        · cases isEnded with
          | false =>
              rw [if_neg Bool.false_ne_true, List.append_nil] at heq
              rw [slashed_injective hbelow habove heq]
              exact ⟨List.prefix_rfl, id⟩
          | true => exact absurd heq.symm (slashed_ne_ended habove hbelow)
        · exact ⟨hbegins, fun h => absurd h hroot⟩
      · rintro ⟨hbegins, -⟩
        by_cases heq : above = below ∧ isEnded = false
        · obtain ⟨rfl, rfl⟩ := heq
          exact .inl (by simp)
        · exact .inr ⟨hbegins, fun h => by simpa [h] using heq⟩

/-! ## Texts of full paths read again -/

theorem foldl_push_names (hnames : ∀ name ∈ names, IsName name) (directory : Location) :
    names.foldl push directory = directory ++ names := by
  induction names generalizing directory with
  | nil => exact (List.append_nil _).symm
  | cons name names ih =>
      obtain ⟨⟨hempty, hdot, hup, -⟩, hnames⟩ := List.forall_mem_cons.mp hnames
      rw [List.foldl_cons, push, if_neg (not_or.mpr ⟨hempty, hdot⟩), if_neg hup, ih hnames, List.append_assoc]
      rfl

theorem splitOn_names (name : Segment) (names : Location) (hname : '/' ∉ name) (hnames : ∀ name ∈ names, IsName name) :
    (name ++ slashed names).splitOn '/' = name :: names := by
  induction names generalizing name with
  | nil =>
      rw [slashed, List.flatMap_nil, List.append_nil]
      refine List.splitOnP_eq_singleton fun c hc => ?_
      exact beq_eq_false_iff_ne.mpr fun heq => hname (heq ▸ hc)
  | cons next names ih =>
      obtain ⟨⟨-, -, -, hslash, -⟩, hnames⟩ := List.forall_mem_cons.mp hnames
      have hfirst := ih [] List.not_mem_nil hnames
      rw [slashed_cons, Lines.splitOn_append_cons, ih next hslash hnames]
      have hone : name.splitOn '/' = [name] := by
        refine List.splitOnP_eq_singleton fun c hc => ?_
        exact beq_eq_false_iff_ne.mpr fun heq => hname (heq ▸ hc)
      rw [hone, List.singleton_append]

/-- The text of a full path has its names, whatever comes after a separator is read from there. -/
theorem splitOn_slashed (hnames : ∀ name ∈ names, IsName name) : (slashed names).splitOn '/' = [] :: names :=
  splitOn_names [] names List.not_mem_nil hnames

theorem isRooted_textOf (names : Location) (isEnded : Bool) : isRooted (textOf names isEnded) = true := by
  unfold textOf
  split
  · rfl
  · cases names with
    | nil => contradiction
    | cons name names => rfl

theorem getLast?_slashed (hnames : ∀ name ∈ names, IsName name) : (slashed names).getLast? ≠ some '/' := by
  rcases List.eq_nil_or_concat names with rfl | ⟨rest, last, rfl⟩
  · simp [slashed]
  · obtain ⟨hempty, -, -, hslash, -⟩ := hnames last (by simp)
    rw [List.concat_eq_append, slashed_append, slashed_cons]
    have hlast : (slashed rest ++ '/' :: (last ++ slashed [])).getLast? = last.getLast? := by
      rw [slashed, slashed, List.flatMap_nil, List.append_nil, List.getLast?_append_of_ne_nil _ (List.cons_ne_nil _ _),
        ← List.singleton_append, List.getLast?_append_of_ne_nil _ hempty]
    rw [hlast]
    exact fun h => hslash (List.mem_of_getLast? h)

theorem textOf_ne_nil (names : Location) (isEnded : Bool) : textOf names isEnded ≠ [] := by
  intro h
  have hrooted := isRooted_textOf names isEnded
  rw [h] at hrooted
  cases hrooted

theorem mem_textOf {c : Char} (isEnded : Bool) (h : c ∈ textOf names isEnded) : c = '/' ∨ ∃ name ∈ names, c ∈ name := by
  unfold textOf at h
  split at h
  · exact .inl (List.mem_singleton.mp h)
  · rcases List.mem_append.mp h with h | h
    · obtain ⟨name, hname, h⟩ := List.mem_flatMap.mp h
      rcases List.mem_cons.mp h with h | h
      · exact .inl h
      · exact .inr ⟨name, hname, h⟩
    · cases isEnded with
      | false => cases h
      | true => exact .inl (List.mem_singleton.mp h)

/-- A full path loses the separator at its end, unless it has no names. -/
theorem trimEnding_textOf (hnames : ∀ name ∈ names, IsName name) (isEnded : Bool) :
    trimEnding (textOf names isEnded) = textOf names false := by
  by_cases hroot : names = []
  · subst hroot
    rfl
  · rw [textOf_of_ne hroot, textOf_of_ne hroot, if_neg Bool.false_ne_true, List.append_nil, trimEnding]
    cases isEnded with
    | false =>
        rw [if_neg Bool.false_ne_true, List.append_nil]
        exact if_neg fun h => getLast?_slashed hnames h.1
    | true =>
        obtain ⟨name, rest, rfl⟩ := List.exists_cons_of_ne_nil hroot
        rw [if_pos rfl, if_pos ⟨List.getLast?_concat, by simp [slashed]⟩, List.dropLast_concat]

theorem foldl_push_splitOn (hnames : ∀ name ∈ names, IsName name) :
    ((textOf names false).splitOn '/').foldl push [] = names := by
  by_cases hroot : names = []
  · subst hroot
    rfl
  · rw [textOf_of_ne hroot, if_neg Bool.false_ne_true, List.append_nil, splitOn_slashed hnames, List.foldl_cons, push,
      if_pos (.inl rfl), foldl_push_names hnames, List.nil_append]

theorem namesIn_textOf (hnames : ∀ name ∈ names, IsName name) (directory : Location) :
    namesIn directory (textOf names false) = names := by
  rw [namesIn, if_pos (isRooted_textOf names false), foldl_push_splitOn hnames]

/-- **What is combined with a full path is read in its directory**. -/
theorem namesIn_combine (hnames : ∀ name ∈ names, IsName name) (directory : Location) (text : List Char) :
    namesIn directory (combine (textOf names false) text) = namesIn names text := by
  have hrooted := isRooted_textOf names false
  have hne := textOf_ne_nil names false
  unfold combine
  rw [if_neg hne]
  split
  · next hempty =>
    subst hempty
    exact namesIn_textOf hnames directory
  · split
    · next htext => rw [namesIn, namesIn, if_pos htext, if_pos htext]
    · next htext =>
      split
      · next hlast =>
        by_cases hroot : names = []
        · subst hroot
          have hsplit := Lines.splitOn_append_cons '/' [] text
          rw [List.nil_append] at hsplit
          have hjoin : textOf [] false ++ text = '/' :: text := rfl
          rw [hjoin, namesIn, hsplit, namesIn, if_neg htext]
          rfl
        · rw [textOf_of_ne hroot, if_neg Bool.false_ne_true, List.append_nil] at hlast
          exact absurd hlast (getLast?_slashed hnames)
      · have hrooted' : isRooted (textOf names false ++ '/' :: text) = true := by
          rw [isRooted, List.head?_append_of_ne_nil _ hne]
          exact hrooted
        rw [namesIn, if_pos hrooted', Lines.splitOn_append_cons, List.foldl_append, foldl_push_splitOn hnames, namesIn,
          if_neg htext]

theorem combine_ne_nil (names : Location) (text : List Char) : combine (textOf names false) text ≠ [] := by
  unfold combine
  rw [if_neg (textOf_ne_nil names false)]
  split
  · exact textOf_ne_nil names false
  · next htext =>
    split
    · exact htext
    · split
      · exact List.append_ne_nil_of_left_ne_nil (textOf_ne_nil names false) text
      · exact List.append_ne_nil_of_left_ne_nil (textOf_ne_nil names false) _

/-- Names with separators between them make a path that does not start at the root. -/
theorem pathOf_intercalate (hnames : ∀ name ∈ names, IsName name) (hne : names ≠ []) :
    pathOf (['/'].intercalate names) = ⟨false, names⟩ := by
  have hsplit : (['/'].intercalate names).splitOn '/' = names :=
    List.splitOn_intercalate '/' (fun name hname => (hnames name hname).2.2.2.1) hne
  have hrooted : isRooted (['/'].intercalate names) = false := by
    obtain ⟨name, rest, rfl⟩ := List.exists_cons_of_ne_nil hne
    obtain ⟨hempty, -, -, hslash, -⟩ := hnames name List.mem_cons_self
    obtain ⟨c, cs, rfl⟩ := List.exists_cons_of_ne_nil hempty
    have hc : c ≠ '/' := fun heq => hslash (heq ▸ List.mem_cons_self)
    cases rest with
    | nil => simpa [isRooted, List.intercalate] using hc
    | cons next rest => simpa [isRooted, List.intercalate] using hc
  rw [pathOf, hsplit, hrooted]

theorem namesIn_eq (directory : Location) (text : List Char) :
    namesIn directory text = (pathOf text).segments.foldl push ((pathOf text).start directory) := rfl

/-- It is read in a directory. -/
theorem namesIn_intercalate (hnames : ∀ name ∈ names, IsName name) (hne : names ≠ []) (directory : Location) :
    namesIn directory (['/'].intercalate names) = directory ++ names := by
  rw [namesIn_eq, pathOf_intercalate hnames hne]
  exact foldl_push_names hnames directory

theorem intercalate_inj {names' : Location} (hnames : ∀ name ∈ names, IsName name)
    (hnames' : ∀ name ∈ names', IsName name) (hne : names ≠ []) (hne' : names' ≠ [])
    (h : ['/'].intercalate names = ['/'].intercalate names') : names = names' := by
  have hread := namesIn_intercalate hnames hne []
  rw [h, namesIn_intercalate hnames' hne'] at hread
  exact hread.symm

theorem nul_not_mem_intercalate (hnames : ∀ name ∈ names, IsName name) : '\x00' ∉ ['/'].intercalate names := by
  rw [Lines.mem_intercalate_iff (by decide)]
  rintro ⟨name, hname, hmem⟩
  exact (hnames name hname).2.2.2.2 hmem

/-- What stands in a combined text stands in the second, if it can stand in neither a name nor between names. -/
theorem mem_combine {c : Char} (hc : c ≠ '/') (hnames : ∀ name ∈ names, c ∉ name) :
    c ∈ combine (textOf names false) text ↔ c ∈ text := by
  have hfirst : c ∉ textOf names false := by
    intro h
    rcases mem_textOf false h with h | ⟨name, hname, h⟩
    · exact hc h
    · exact hnames name hname h
  unfold combine
  rw [if_neg (textOf_ne_nil names false)]
  split
  · next hempty => simp [hempty, hfirst]
  · split
    · exact Iff.rfl
    · split
      · simp [hfirst]
      · simp [hfirst, hc]

end PathText
