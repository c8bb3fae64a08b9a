import AtlasFlow.Data.LinkedFiles

/-!
# Making directories and files

What is put at a free place of a file system of links is a directory or a file, so that the links stay what they are
and every path leads where it led (`leads_congr`). `mkdir` makes the directories on a way that are not there yet, until
one cannot be made; what it leaves, and when it succeeds, `mkdir_spec` says.
-/

namespace LinkedFiles.FileSystem

variable {C : Type} {fs fs' : FileSystem C} {loc l : Location} {item : Item C}

/-! ## Free places -/

/-- There is nothing, in a directory, under a name. -/
structure Free (fs : FileSystem C) (loc : Location) : Prop where
  vacant : fs.item loc = none
  parent : fs.isDirectory loc.dropLast = true
  names : ∀ name ∈ loc, IsName name

instance (fs : FileSystem C) (loc : Location) : Decidable (fs.Free loc) :=
  decidable_of_iff
    ((fs.item loc).isNone = true ∧ fs.isDirectory loc.dropLast = true ∧ ∀ name ∈ loc, IsName name)
    ⟨fun h => ⟨Option.isNone_iff_eq_none.mp h.1, h.2.1, h.2.2⟩,
      fun h => ⟨Option.isNone_iff_eq_none.mpr h.vacant, h.parent, h.names⟩⟩

theorem Free.ne_nil (h : fs.Free loc) : loc ≠ [] := by
  rintro rfl
  have hvacant := h.vacant
  rw [item_root] at hvacant
  cases hvacant

theorem Free.not_mem (h : fs.Free loc) : loc ∉ fs.items.keys := by
  have hvacant := h.vacant
  rw [item_of_ne h.ne_nil] at hvacant
  exact Dict.get?_eq_none.mp hvacant

theorem itemAt_set (items : Dict Location (Item C)) (hloc : loc ≠ []) (l : Location) :
    itemAt (items.set loc item) l = if l = loc then some item else itemAt items l := by
  unfold itemAt
  by_cases hl : l = []
  · subst hl
    rw [if_pos rfl, if_pos rfl, if_neg (Ne.symm hloc)]
  · rw [if_neg hl, if_neg hl, Dict.get?_set]
    by_cases heq : loc = l
    · rw [if_pos heq, if_pos heq.symm]
    · rw [if_neg heq, if_neg (Ne.symm heq)]

/-- Something is put at a free place. -/
def put (fs : FileSystem C) (loc : Location) (item : Item C) (h : fs.Free loc) : FileSystem C where
  items := fs.items.set loc item
  nodup := Dict.keys_set_nodup fs.nodup loc item
  named := by
    intro l hl
    rcases Dict.mem_keys_set.mp hl with rfl | hl
    · exact ⟨h.ne_nil, h.names⟩
    · exact fs.named l hl
  placed := by
    have hkept : ∀ l, (itemAt fs.items l).any Item.isDirectory = true →
        (itemAt (fs.items.set loc item) l).any Item.isDirectory = true := by
      intro l hl
      have hne : l ≠ loc := by
        rintro rfl
        rw [show itemAt fs.items l = none from h.vacant] at hl
        cases hl
      rwa [itemAt_set _ h.ne_nil, if_neg hne]
    intro l hl
    rcases Dict.mem_keys_set.mp hl with rfl | hl
    · exact hkept _ h.parent
    · exact hkept _ (fs.placed l hl)

@[simp] theorem item_put (h : fs.Free loc) (l : Location) :
    (fs.put loc item h).item l = if l = loc then some item else fs.item l := itemAt_set _ h.ne_nil l

/-! ## The same links -/

/-- There are links in the same places, and they point to the same paths. -/
def SameLinks (fs fs' : FileSystem C) : Prop :=
  ∀ l target, fs'.item l = some (.link target) ↔ fs.item l = some (.link target)

theorem sameLinks_put (h : fs.Free loc) (hitem : item.isLink = false) : SameLinks fs (fs.put loc item h) := by
  intro l target
  rw [item_put]
  split
  · next heq =>
      refine iff_of_false (fun hlink => ?_) (fun hlink => ?_)
      · cases hlink
        cases hitem
      · rw [heq, h.vacant] at hlink
        cases hlink
  · exact Iff.rfl

theorem SameLinks.trans {fs'' : FileSystem C} (h : SameLinks fs fs') (h' : SameLinks fs' fs'') : SameLinks fs fs'' :=
  fun l target => (h' l target).trans (h l target)

theorem stepTo_link {e : Location → Path → Option Location} {segment : Segment} (hplain : IsPlain segment)
    {target : Path} (h : fs.item (loc ++ [segment]) = some (.link target)) :
    fs.stepTo false e loc segment = e loc target := by
  unfold stepTo
  rw [if_neg (by simp), if_neg (not_or.mpr ⟨hplain.1, hplain.2.1⟩), if_neg hplain.2.2, h]

theorem stepTo_other {e : Location → Path → Option Location} {segment : Segment} (hplain : IsPlain segment)
    (h : ∀ target, fs.item (loc ++ [segment]) ≠ some (.link target)) :
    fs.stepTo false e loc segment = some (loc ++ [segment]) := by
  unfold stepTo
  rw [if_neg (by simp), if_neg (not_or.mpr ⟨hplain.1, hplain.2.1⟩), if_neg hplain.2.2]
  split
  · next target hlink => exact absurd hlink (h target)
  · rfl

theorem stepTo_congr (h : SameLinks fs fs') (e : Location → Path → Option Location) (loc : Location)
    (segment : Segment) : fs'.stepTo false e loc segment = fs.stepTo false e loc segment := by
  by_cases hplain : IsPlain segment
  · by_cases hlink : ∃ target, fs.item (loc ++ [segment]) = some (.link target)
    · obtain ⟨target, htarget⟩ := hlink
      rw [stepTo_link hplain htarget, stepTo_link hplain ((h _ target).mpr htarget)]
    · have hnone : ∀ target, fs.item (loc ++ [segment]) ≠ some (.link target) := fun target heq => hlink ⟨target, heq⟩
      rw [stepTo_other hplain hnone, stepTo_other hplain fun target heq => hnone target ((h _ target).mp heq)]
  · unfold stepTo
    by_cases hdot : segment = [] ∨ segment = ['.']
    · rw [if_pos hdot, if_pos hdot]
      simp
    · have hup : segment = ['.', '.'] := by
        by_contra hup
        exact hplain ⟨(not_or.mp hdot).1, (not_or.mp hdot).2, hup⟩
      rw [if_neg hdot, if_pos hup, if_neg hdot, if_pos hup]
      simp

theorem follow_congr (h : SameLinks fs fs') (n : Nat) (loc : Location) (segments : List Segment) :
    fs'.follow false n loc segments = fs.follow false n loc segments := by
  induction n generalizing loc segments with
  | zero =>
      rw [follow, follow]
      congr 1
      funext loc segment
      exact stepTo_congr h _ loc segment
  | succ n ih =>
      rw [follow, follow]
      congr 1
      funext loc segment
      rw [stepTo_congr h]
      simp only [ih]

/-- **With the same links every path leads to the same place**, there or not. -/
theorem leads_congr (h : SameLinks fs fs') (loc : Location) (segments : List Segment) :
    fs'.leads false loc segments = fs.leads false loc segments := by
  have hback : SameLinks fs' fs := fun l target => (h l target).symm
  refine Option.ext fun l => ⟨fun hl => ?_, fun hl => ?_⟩
  · unfold leads at hl
    rw [follow_congr h] at hl
    exact follow_enough hl
  · unfold leads at hl
    rw [← follow_congr h] at hl
    exact follow_enough hl

/-! ## Directories on a way -/

section Directories

variable (refuses : Location → Bool)

/-- From a directory on, one directory below the other, where there is none yet. -/
def makeDirs : Location → List Segment → FileSystem C → Bool × FileSystem C
  | _, [], fs => (true, fs)
  | above, name :: names, fs =>
    if fs.isDirectory (above ++ [name]) then makeDirs (above ++ [name]) names fs
    else if h : fs.Free (above ++ [name]) ∧ refuses (above ++ [name]) = false then
      makeDirs (above ++ [name]) names (fs.put (above ++ [name]) (.directory true) h.1)
    else (false, fs)

/-- `path.mkdir(parents=True, exist_ok=True)`: whether it succeeded, and what it left. -/
def mkdir (fs : FileSystem C) (loc : Location) : Bool × FileSystem C := makeDirs refuses [] loc fs

/-- There is a directory, or one can be made in the directory above. -/
def CanPass (fs : FileSystem C) (loc : Location) : Prop :=
  fs.isDirectory loc = true ∨ fs.item loc = none ∧ refuses loc = false ∧ ∀ name ∈ loc, IsName name

/-- Directories were added on the way to a place, and nothing else changed. -/
def Widened (fs fs' : FileSystem C) (loc : Location) : Prop :=
  ∀ l, fs'.item l = fs.item l ∨
    fs.item l = none ∧ fs'.item l = some (.directory true) ∧ CanPass refuses fs l ∧ l <+: loc

variable {refuses} {above : Location} {names : List Segment}

theorem Widened.sameLinks (h : Widened refuses fs fs' loc) : SameLinks fs fs' := by
  intro l target
  rcases h l with heq | ⟨hnone, hdirectory, _⟩
  · rw [heq]
  · rw [hnone, hdirectory]
    exact iff_of_false (fun h => by cases h) (fun h => by cases h)

theorem isDirectory_put_of_ne (h : fs.Free loc) (hne : l ≠ loc) :
    (fs.put loc item h).isDirectory l = fs.isDirectory l := by
  unfold isDirectory
  rw [item_put, if_neg hne]

/-- One directory more is one that could be passed. -/
theorem canPass_put (h : fs.Free loc) (hrefuses : refuses loc = false) (l : Location) :
    CanPass refuses (fs.put loc (.directory true) h) l ↔ CanPass refuses fs l := by
  by_cases hl : l = loc
  · subst hl
    refine iff_of_true (.inl ?_) (.inr ⟨h.vacant, hrefuses, h.names⟩)
    unfold isDirectory
    rw [item_put, if_pos rfl]
    rfl
  · rw [CanPass, CanPass, isDirectory_put_of_ne h hl, item_put, if_neg hl]

theorem makeDirs_spec (habove : fs.isDirectory above = true) :
    ((makeDirs refuses above names fs).1 = true ↔ ∀ below, below <+: names → CanPass refuses fs (above ++ below)) ∧
      Widened refuses fs (makeDirs refuses above names fs).2 (above ++ names) ∧
      ((makeDirs refuses above names fs).1 = true →
        (makeDirs refuses above names fs).2.isDirectory (above ++ names)) := by
  induction names generalizing above fs with
  | nil =>
      rw [List.append_nil]
      refine ⟨iff_of_true rfl fun below hbelow => ?_, fun l => .inl rfl, fun _ => habove⟩
      rw [List.prefix_nil.mp hbelow, List.append_nil]
      exact .inl habove
  | cons name names ih =>
      have hway : ∀ P : Location → Prop, P above → ((∀ below, below <+: name :: names → P (above ++ below)) ↔
          ∀ below, below <+: names → P (above ++ [name] ++ below)) := by
        intro P hP
        constructor
        · intro h below hbelow
          rw [List.append_assoc]
          exact h _ (List.cons_prefix_cons.mpr ⟨rfl, hbelow⟩)
        · intro h below hbelow
          rcases List.prefix_cons_iff.mp hbelow with rfl | ⟨rest, rfl, hrest⟩
          · rwa [List.append_nil]
          · have hP' := h rest hrest
            rwa [List.append_assoc] at hP'
      have hwhole : above ++ [name] ++ names = above ++ name :: names := by
        rw [List.append_assoc]
        rfl
      rw [makeDirs, hway (CanPass refuses fs) (.inl habove)]
      split
      · next hdirectory =>
          have hrest := ih hdirectory
          rwa [hwhole] at hrest
      · next hdirectory =>
          split
          · next hfree =>
              have hmade :
                  (fs.put (above ++ [name]) (.directory true) hfree.1).isDirectory (above ++ [name]) = true := by
                unfold isDirectory
                rw [item_put, if_pos rfl]
                rfl
              obtain ⟨hiff, hwidened, hdone⟩ := ih hmade
              rw [hwhole] at hwidened hdone
              refine ⟨hiff.trans (forall_congr' fun below => imp_congr_right fun _ => canPass_put hfree.1 hfree.2 _),
                fun l => ?_, hdone⟩
              have hl := hwidened l
              rw [item_put, canPass_put hfree.1 hfree.2] at hl
              by_cases heq : l = above ++ [name]
              · rw [if_pos heq] at hl
                rcases hl with hsame | ⟨hnone, _⟩
                · refine .inr ⟨by rw [heq]; exact hfree.1.vacant, hsame, ?_, ?_⟩
                  · rw [heq]
                    exact .inr ⟨hfree.1.vacant, hfree.2, hfree.1.names⟩
                  · rw [heq, ← hwhole]
                    exact List.prefix_append _ _
                · cases hnone
              · rwa [if_neg heq] at hl
          · next hblocked =>
              refine ⟨iff_of_false Bool.false_ne_true fun h => ?_, fun l => .inl rfl,
                fun h => absurd h Bool.false_ne_true⟩
              have hpass := h [] (List.nil_prefix)
              rw [List.append_nil] at hpass
              rcases hpass with hdir | ⟨hnone, hrefuses, hnames⟩
              · exact hdirectory hdir
              · exact hblocked ⟨⟨hnone, by rwa [List.dropLast_concat], hnames⟩, hrefuses⟩

/-- Above a directory there are directories. -/
theorem isDirectory_of_prefix (h : l <+: loc) (hloc : fs.isDirectory loc = true) : fs.isDirectory l = true := by
  obtain ⟨below, rfl⟩ := h
  by_cases hbelow : below = []
  · rwa [hbelow, List.append_nil] at hloc
  · obtain ⟨isReadable, hitem⟩ := isDirectory_iff.mp hloc
    exact isDirectory_of_append hitem hbelow

/-- A place is not on the way to the directory it is in. -/
theorem ne_of_prefix_dropLast (hloc : loc ≠ []) (h : l <+: loc.dropLast) : l ≠ loc := by
  rintro rfl
  have hlength := h.length_le
  rw [List.length_dropLast] at hlength
  have hpos := List.length_pos_of_ne_nil hloc
  omega

theorem prefix_dropLast (h : l <+: loc) (hne : l ≠ loc) : l <+: loc.dropLast := by
  have hloc : loc ≠ [] := by
    rintro rfl
    exact hne (List.prefix_nil.mp h)
  rw [← List.dropLast_append_getLast hloc] at h hne
  exact (List.prefix_concat_iff.mp h).resolve_left hne

/-- **`mkdir`**: it succeeds if and only if every place on the way can be passed, and adds directories on the way
only. -/
theorem mkdir_spec (refuses : Location → Bool) (fs : FileSystem C) (loc : Location) :
    ((fs.mkdir refuses loc).1 = true ↔ ∀ l, l <+: loc → CanPass refuses fs l) ∧
      Widened refuses fs (fs.mkdir refuses loc).2 loc ∧
      ((fs.mkdir refuses loc).1 = true → (fs.mkdir refuses loc).2.isDirectory loc) :=
  makeDirs_spec rfl

end Directories

end LinkedFiles.FileSystem
