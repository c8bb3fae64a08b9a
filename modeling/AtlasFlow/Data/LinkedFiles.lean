import Mathlib.Data.Finset.Card
import Mathlib.Data.List.Infix
import AtlasFlow.Data.Dict

/-!
# Directories, files and links

A file system of directories, files and symbolic links, and where a path leads in it: segment by segment, with
every link on the way replaced by where it leads itself. Links may lead anywhere, also round in a circle, and then
nowhere. To find that out it is enough to follow links within links as deep as there are links (`follow_enough`).
-/

namespace LinkedFiles

/-- A name, a dot segment, or nothing between two separators. -/
abbrev Segment := List Char

/-- The names on the way to it from the root of the file system. -/
abbrev Location := List Segment

structure Path where
  isRooted : Bool
  segments : List Segment
  deriving DecidableEq, Repr

/-- Where a path starts that is read at a location. -/
def Path.start (path : Path) (loc : Location) : Location := if path.isRooted then [] else loc

/-- What a directory has under a name; `C` is what a file holds. -/
inductive Item (C : Type) where
  | file (content : C)
  | directory (isReadable : Bool)
  | link (target : Path)
  deriving DecidableEq, Repr

variable {C : Type}

def Item.isDirectory : Item C → Bool
  | .directory _ => true
  | _ => false

def Item.isLink : Item C → Bool
  | .link _ => true
  | _ => false

/-- What is at a location; the root is a directory. -/
def itemAt (items : Dict Location (Item C)) (loc : Location) : Option (Item C) :=
  if loc = [] then some (.directory true) else items.get? loc

/-- A segment that leads further, down. -/
def IsPlain (segment : Segment) : Prop := segment ≠ [] ∧ segment ≠ ['.'] ∧ segment ≠ ['.', '.']

/-- A segment that names something in a directory. -/
def IsName (segment : Segment) : Prop :=
  segment ≠ [] ∧ segment ≠ ['.'] ∧ segment ≠ ['.', '.'] ∧ '/' ∉ segment ∧ '\x00' ∉ segment

theorem IsName.isPlain {segment : Segment} (h : IsName segment) : IsPlain segment := ⟨h.1, h.2.1, h.2.2.1⟩

instance (segment : Segment) : Decidable (IsName segment) := inferInstanceAs (Decidable (_ ∧ _ ∧ _ ∧ _ ∧ _))

/-- Everything has a name and stands in a directory, which has no other of that name. -/
structure FileSystem (C : Type) where
  items : Dict Location (Item C)
  nodup : items.keys.Nodup
  named : ∀ loc ∈ items.keys, loc ≠ [] ∧ ∀ name ∈ loc, IsName name
  placed : ∀ loc ∈ items.keys, (itemAt items loc.dropLast).any Item.isDirectory = true

namespace FileSystem

variable (fs : FileSystem C)

def item (loc : Location) : Option (Item C) := itemAt fs.items loc

def isDirectory (loc : Location) : Bool := (fs.item loc).any Item.isDirectory

/-- The names of a directory. -/
def names (loc : Location) : List Segment :=
  fs.items.keys.filterMap fun key => if key.dropLast = loc then key.getLast? else none

/-- The links there are. -/
def links : List Location := fs.items.keys.filter fun loc => (fs.item loc).any Item.isLink

/-! ## Following a path -/

/-- One segment further, given how links are followed. If `strict`, this has to start in a directory. -/
def stepTo (strict : Bool) (expand : Location → Path → Option Location) (loc : Location) (segment : Segment) :
    Option Location :=
  if strict && !fs.isDirectory loc then none
  else if segment = [] ∨ segment = ['.'] then some loc
  else if segment = ['.', '.'] then some loc.dropLast
  else
    match fs.item (loc ++ [segment]) with
    | some (.link target) => expand loc target
    | _ => some (loc ++ [segment])

/-- Where some segments lead, with links followed within links at most so deep. -/
def follow (strict : Bool) : Nat → Location → List Segment → Option Location
  | 0, loc, segments => segments.foldlM (fs.stepTo strict fun _ _ => none) loc
  | n + 1, loc, segments =>
    segments.foldlM (fs.stepTo strict fun loc target => follow strict n (target.start loc) target.segments) loc

/-- How a link is followed at a depth. -/
def expand (strict : Bool) : Nat → Location → Path → Option Location
  | 0, _, _ => none
  | n + 1, loc, target => fs.follow strict n (target.start loc) target.segments

/-- Where some segments lead. -/
def leads (strict : Bool) (loc : Location) (segments : List Segment) : Option Location :=
  fs.follow strict fs.links.length loc segments

/-- One segment further. -/
def leadsBy (strict : Bool) : Location → Segment → Option Location :=
  fs.stepTo strict (fs.expand strict fs.links.length)

variable {fs} {strict : Bool} {n : Nat} {loc loc' : Location} {segment : Segment} {segments : List Segment}

theorem follow_eq (n : Nat) (loc : Location) (segments : List Segment) :
    fs.follow strict n loc segments = segments.foldlM (fs.stepTo strict (fs.expand strict n)) loc := by
  cases n <;> rfl

theorem leads_eq (loc : Location) (segments : List Segment) :
    fs.leads strict loc segments = segments.foldlM (fs.leadsBy strict) loc := follow_eq _ _ _

@[simp] theorem leads_nil (loc : Location) : fs.leads strict loc [] = some loc := by
  rw [leads_eq]
  rfl

theorem leads_cons (loc : Location) (segment : Segment) (segments : List Segment) :
    fs.leads strict loc (segment :: segments) =
      (fs.leadsBy strict loc segment).bind fun loc' => fs.leads strict loc' segments := by
  simp only [leads_eq, List.foldlM_cons]
  rfl

theorem leads_append (loc : Location) (segments segments' : List Segment) :
    fs.leads strict loc (segments ++ segments') =
      (fs.leads strict loc segments).bind fun loc' => fs.leads strict loc' segments' := by
  simp only [leads_eq, List.foldlM_append]
  rfl

theorem leads_snoc (loc : Location) (segments : List Segment) (segment : Segment) :
    fs.leads strict loc (segments ++ [segment]) =
      (fs.leads strict loc segments).bind fun loc' => fs.leadsBy strict loc' segment := by
  rw [leads_append]
  congr 1
  funext loc'
  rw [leads_cons]
  cases fs.leadsBy strict loc' segment <;> simp

/-! ### Folds that may stop -/

section Folds

variable {α β : Type} {f g : β → α → Option β} {as : List α} {b b' : β}

theorem foldlM_mono (h : ∀ b a b', f b a = some b' → g b a = some b') (hfold : as.foldlM f b = some b') :
    as.foldlM g b = some b' := by
  induction as generalizing b with
  | nil => exact hfold
  | cons a as ih =>
      rw [List.foldlM_cons] at hfold ⊢
      cases hstep : f b a with
      | none =>
          rw [hstep] at hfold
          cases hfold
      | some next =>
          rw [hstep] at hfold
          rw [h b a next hstep]
          exact ih hfold

theorem foldlM_keeps {P : β → Prop} (h : ∀ b a b', P b → f b a = some b' → P b') (hb : P b)
    (hfold : as.foldlM f b = some b') : P b' := by
  induction as generalizing b with
  | nil =>
      cases hfold
      exact hb
  | cons a as ih =>
      rw [List.foldlM_cons] at hfold
      cases hstep : f b a with
      | none =>
          rw [hstep] at hfold
          cases hfold
      | some next =>
          rw [hstep] at hfold
          exact ih (h b a next hb hstep) hfold

end Folds

/-! ### Depth is enough -/

section Depth

variable (fs) in
/-- Where following links one way finds something, following them the other way finds the same. -/
def Finds (e e' : Location → Path → Option Location) : Prop :=
  ∀ loc name target l, fs.item (loc ++ [name]) = some (.link target) → e loc target = some l → e' loc target = some l

theorem stepTo_mono {e e' : Location → Path → Option Location} (h : Finds fs e e')
    (hstep : fs.stepTo strict e loc segment = some loc') : fs.stepTo strict e' loc segment = some loc' := by
  unfold stepTo at hstep ⊢
  split at hstep
  · cases hstep
  · next hdir =>
    rw [if_neg hdir]
    split at hstep
    · next hdot => rwa [if_pos hdot]
    · next hdot =>
      rw [if_neg hdot]
      split at hstep
      · next hup => rwa [if_pos hup]
      · next hup =>
        rw [if_neg hup]
        cases hitem : fs.item (loc ++ [segment]) with
        | none =>
            rw [hitem] at hstep
            exact hstep
        | some item =>
            rw [hitem] at hstep
            cases item with
            | file content => exact hstep
            | directory isReadable => exact hstep
            | link target => exact h loc segment target loc' hitem hstep

theorem follow_mono {m : Nat} (h : Finds fs (fs.expand strict n) (fs.expand strict m))
    (hfollow : fs.follow strict n loc segments = some loc') : fs.follow strict m loc segments = some loc' := by
  rw [follow_eq] at hfollow ⊢
  exact foldlM_mono (fun _ _ _ => stepTo_mono h) hfollow

/-- Deeper finds at least as much. -/
theorem finds_succ (n : Nat) : Finds fs (fs.expand strict n) (fs.expand strict (n + 1)) := by
  induction n with
  | zero =>
      intro loc name target l _ h
      cases h
  | succ n ih =>
      intro loc name target l _ h
      exact follow_mono ih h

theorem finds_of_le {m n : Nat} (h : m ≤ n) : Finds fs (fs.expand strict m) (fs.expand strict n) := by
  induction h with
  | refl => exact fun _ _ _ _ _ h => h
  | step _ ih => exact fun loc name target l hlink h => finds_succ _ loc name target l hlink (ih loc name target l hlink h)

variable (fs strict) in
/-- A link that has to be followed so deep. -/
def Needs (n : Nat) (link : Location) : Prop :=
  ∃ loc name target l, link = loc ++ [name] ∧ fs.item link = some (.link target) ∧
    fs.expand strict (n + 1) loc target = some l ∧ fs.expand strict n loc target = none

/-- Where no link has to be followed so deep, no link has to be followed deeper. -/
theorem finds_of_not_needs (h : ∀ link, ¬Needs fs strict n link) {m : Nat} (hm : n ≤ m) :
    Finds fs (fs.expand strict (m + 1)) (fs.expand strict m) := by
  induction hm with
  | refl =>
      intro loc name target l hlink hl
      cases hn : fs.expand strict n loc target with
      | none => exact absurd ⟨loc, name, target, l, rfl, hlink, hl, hn⟩ (h (loc ++ [name]))
      | some l' =>
          have hl' := finds_succ n loc name target l' hlink hn
          rw [hl] at hl'
          exact hl'.symm
  | @step m _ ih =>
      intro loc name target l _ hl
      exact follow_mono (n := m + 1) (m := m) ih hl

theorem needs_mem_links {link : Location} (h : Needs fs strict n link) : link ∈ fs.links := by
  obtain ⟨loc, name, target, l, rfl, hlink, _⟩ := h
  have hmem : loc ++ [name] ∈ fs.items.keys := by
    have hget : fs.items.get? (loc ++ [name]) = some (.link target) := by
      simpa [item, itemAt] using hlink
    exact Dict.mem_keys.mpr ⟨_, Dict.mem_of_get? hget⟩
  refine List.mem_filter.mpr ⟨hmem, ?_⟩
  rw [hlink]
  rfl

/-- A link has to be followed to one depth only. -/
theorem needs_unique {m n : Nat} {link : Location} (hm : Needs fs strict m link) (hn : Needs fs strict n link) :
    m = n := by
  by_contra hne
  rcases Nat.lt_or_gt_of_ne hne with hlt | hlt
  · obtain ⟨loc, name, target, l, rfl, hlink, hl, _⟩ := hm
    obtain ⟨loc', name', target', l', heq, hlink', _, hnone⟩ := hn
    obtain ⟨rfl, -⟩ := List.append_inj' heq rfl
    rw [hlink] at hlink'
    cases hlink'
    rw [finds_of_le hlt loc name target l hlink hl] at hnone
    cases hnone
  · obtain ⟨loc, name, target, l, rfl, hlink, hl, _⟩ := hn
    obtain ⟨loc', name', target', l', heq, hlink', _, hnone⟩ := hm
    obtain ⟨rfl, -⟩ := List.append_inj' heq rfl
    rw [hlink] at hlink'
    cases hlink'
    rw [finds_of_le hlt loc name target l hlink hl] at hnone
    cases hnone

variable (fs strict) in
/-- There are not enough links for one of them at every depth. -/
theorem exists_not_needs : ∃ n ≤ fs.links.length, ∀ link, ¬Needs fs strict n link := by
  by_contra hall
  push Not at hall
  have hchoose : ∀ n ∈ Finset.range (fs.links.length + 1), ∃ link, Needs fs strict n link := by
    intro n hn
    exact hall n (Nat.lt_succ_iff.mp (Finset.mem_range.mp hn))
  choose! at_ hat using hchoose
  have hcard : (Finset.range (fs.links.length + 1)).card ≤ fs.links.toFinset.card := by
    apply Finset.card_le_card_of_injOn at_
    · intro n hn
      exact List.mem_toFinset.mpr (needs_mem_links (hat n hn))
    · intro m hm n hn heq
      have hm := hat m hm
      rw [heq] at hm
      exact needs_unique hm (hat n hn)
  have hle := List.toFinset_card_le fs.links
  rw [Finset.card_range] at hcard
  omega

/-- **As deep as there are links is deep enough**. -/
theorem follow_enough (h : fs.follow strict n loc segments = some loc') : fs.leads strict loc segments = some loc' := by
  obtain ⟨k, hk, hnot⟩ := exists_not_needs fs strict
  rcases Nat.le_total n fs.links.length with hle | hle
  · exact follow_mono (finds_of_le hle) h
  · induction n, hle using Nat.le_induction with
    | base => exact h
    | succ n hle ih => exact ih (follow_mono (finds_of_not_needs hnot (hk.trans hle)) h)

end Depth

/-! ### What is led to -/

@[simp] theorem leadsBy_empty (loc : Location) : fs.leadsBy false loc [] = some loc := rfl

theorem item_root : fs.item [] = some (.directory true) := rfl

theorem item_of_ne (h : loc ≠ []) : fs.item loc = fs.items.get? loc := if_neg h

theorem mem_keys_of_item {item : Item C} (h : fs.item loc = some item) (hroot : loc ≠ []) :
    loc ∈ fs.items.keys := by
  rw [item_of_ne hroot] at h
  exact Dict.mem_keys.mpr ⟨item, Dict.mem_of_get? h⟩

theorem isDirectory_iff : fs.isDirectory loc = true ↔ ∃ isReadable, fs.item loc = some (.directory isReadable) := by
  unfold isDirectory
  cases fs.item loc with
  | none => simp
  | some item => cases item <;> simp [Item.isDirectory]

theorem mem_names : segment ∈ fs.names loc ↔ loc ++ [segment] ∈ fs.items.keys := by
  rw [names, List.mem_filterMap]
  constructor
  · rintro ⟨key, hkey, h⟩
    split at h
    · next hloc =>
      have hsplit := List.dropLast_append_getLast? segment h
      rw [hloc] at hsplit
      rwa [hsplit]
    · cases h
  · intro h
    exact ⟨loc ++ [segment], h, by simp⟩

theorem isName_of_mem_names (h : segment ∈ fs.names loc) : IsName segment :=
  (fs.named _ (mem_names.mp h)).2 segment (List.mem_append_right _ (List.mem_singleton_self _))

theorem names_nodup (fs : FileSystem C) (loc : Location) : (fs.names loc).Nodup := by
  refine List.Nodup.filterMap ?_ fs.nodup
  intro key key' name hname hname'
  rw [Option.mem_def] at hname hname'
  split at hname
  · next hloc =>
    split at hname'
    · next hloc' =>
      have hkey := List.dropLast_append_getLast? name hname
      have hkey' := List.dropLast_append_getLast? name hname'
      rw [← hkey, ← hkey', hloc, hloc']
    · cases hname'
  · cases hname

/-- What has something below it is a directory. -/
theorem isDirectory_of_snoc {item : Item C} (h : fs.item (loc ++ [segment]) = some item) :
    fs.isDirectory loc = true := by
  have hkey := mem_keys_of_item h (List.append_ne_nil_of_right_ne_nil _ (List.cons_ne_nil _ _))
  have hplaced := fs.placed _ hkey
  rwa [List.dropLast_concat] at hplaced

/-- A name that is not a link's leads to what has it. -/
theorem leadsBy_name (hname : IsPlain segment) (hdir : strict = true → fs.isDirectory loc = true)
    (hlink : ∀ target, fs.item (loc ++ [segment]) ≠ some (.link target)) :
    fs.leadsBy strict loc segment = some (loc ++ [segment]) := by
  obtain ⟨hempty, hhere, hup⟩ := hname
  unfold leadsBy stepTo
  have hcheck : (strict && !fs.isDirectory loc) ≠ true := by
    cases strict with
    | false => simp
    | true => simp [hdir rfl]
  rw [if_neg hcheck, if_neg (not_or.mpr ⟨hempty, hhere⟩), if_neg hup]
  cases hitem : fs.item (loc ++ [segment]) with
  | none => rfl
  | some item =>
      cases item with
      | file content => rfl
      | directory isReadable => rfl
      | link target => exact absurd hitem (hlink target)

/-- There is nothing but directories on the way to what there is. -/
theorem isDirectory_of_append {below : Location} {item : Item C} (h : fs.item (loc ++ below) = some item)
    (hbelow : below ≠ []) : fs.isDirectory loc = true := by
  induction below using List.reverseRecOn generalizing item with
  | nil => exact absurd rfl hbelow
  | append_singleton below name ih =>
      rw [← List.append_assoc] at h
      have hdir := isDirectory_of_snoc h
      by_cases hnil : below = []
      · rwa [hnil, List.append_nil] at hdir
      · obtain ⟨isReadable, hitem⟩ := isDirectory_iff.mp hdir
        exact ih hitem hnil

/-- The way to what there is, and is no link, leads there. -/
theorem leads_names {below : Location} {item : Item C} (h : fs.item (loc ++ below) = some item)
    (hlink : item.isLink = false) : fs.leads strict loc below = some (loc ++ below) := by
  induction below using List.reverseRecOn generalizing item with
  | nil => rw [leads_nil, List.append_nil]
  | append_singleton below name ih =>
      rw [← List.append_assoc] at h
      have hdir := isDirectory_of_snoc h
      obtain ⟨isReadable, hitem⟩ := isDirectory_iff.mp hdir
      rw [leads_snoc, ih hitem rfl, Option.bind_some, ← List.append_assoc]
      have hkey := mem_keys_of_item h (List.append_ne_nil_of_right_ne_nil _ (List.cons_ne_nil _ _))
      have hname := (fs.named _ hkey).2 name (List.mem_append_right _ (List.mem_singleton_self _))
      refine leadsBy_name hname.isPlain (fun _ => hdir) ?_
      intro target heq
      rw [h] at heq
      cases heq
      cases hlink

/-- A place that can be led to: every name of it leads further, and there is no link on the way or at it. -/
structure Physical (fs : FileSystem C) (loc : Location) : Prop where
  plain : ∀ name ∈ loc, IsPlain name
  linkless : ∀ above below, above ++ below = loc → ∀ target, fs.item above ≠ some (.link target)

theorem physical_nil : fs.Physical [] := by
  refine ⟨fun name hname => (List.not_mem_nil hname).elim, ?_⟩
  intro above below heq target
  rw [(List.append_eq_nil_iff.mp heq).1, item_root]
  exact fun h => by cases h

theorem Physical.of_append {below : Location} (h : fs.Physical (loc ++ below)) : fs.Physical loc := by
  refine ⟨fun name hname => h.plain name (List.mem_append_left _ hname), ?_⟩
  intro above rest heq
  exact h.linkless above (rest ++ below) (by rw [← List.append_assoc, heq])

theorem Physical.snoc (h : fs.Physical loc) (hplain : IsPlain segment)
    (hlink : ∀ target, fs.item (loc ++ [segment]) ≠ some (.link target)) : fs.Physical (loc ++ [segment]) := by
  constructor
  · intro name hname
    rcases List.mem_append.mp hname with hname | hname
    · exact h.plain name hname
    · rw [List.mem_singleton.mp hname]
      exact hplain
  · intro above below heq
    rcases List.eq_nil_or_concat below with rfl | ⟨rest, last, rfl⟩
    · rw [List.append_nil] at heq
      rwa [heq]
    · rw [List.concat_eq_append, ← List.append_assoc] at heq
      exact h.linkless above rest (List.append_inj' heq rfl).1

theorem stepTo_physical {e : Location → Path → Option Location}
    (he : ∀ loc target l, fs.Physical loc → e loc target = some l → fs.Physical l) (h : fs.Physical loc)
    (hstep : fs.stepTo strict e loc segment = some loc') : fs.Physical loc' := by
  unfold stepTo at hstep
  split at hstep
  · cases hstep
  · split at hstep
    · cases hstep
      exact h
    · next hdot =>
      split at hstep
      · cases hstep
        rcases List.eq_nil_or_concat loc with rfl | ⟨rest, last, rfl⟩
        · exact h
        · rw [List.concat_eq_append, List.dropLast_concat]
          rw [List.concat_eq_append] at h
          exact h.of_append
      · next hup =>
        rw [not_or] at hdot
        have hplain : IsPlain segment := ⟨hdot.1, hdot.2, hup⟩
        cases hitem : fs.item (loc ++ [segment]) with
        | none =>
            rw [hitem] at hstep
            cases hstep
            exact h.snoc hplain fun target heq => by simp [hitem] at heq
        | some item =>
            rw [hitem] at hstep
            cases item with
            | file content =>
                cases hstep
                exact h.snoc hplain fun target heq => by simp [hitem] at heq
            | directory isReadable =>
                cases hstep
                exact h.snoc hplain fun target heq => by simp [hitem] at heq
            | link target => exact he loc target loc' h hstep

theorem expand_physical (n : Nat) {target : Path} (h : fs.Physical loc)
    (hexpand : fs.expand strict n loc target = some loc') : fs.Physical loc' := by
  induction n generalizing loc loc' target with
  | zero => cases hexpand
  | succ n ih =>
      have hstart : fs.Physical (target.start loc) := by
        unfold Path.start
        split
        · exact physical_nil
        · exact h
      rw [expand, follow_eq] at hexpand
      exact foldlM_keeps (fun _ _ _ h => stepTo_physical (fun _ _ _ => ih) h) hstart hexpand

/-- **No link is left where a path leads**. -/
theorem leads_physical (h : fs.Physical loc) (hleads : fs.leads strict loc segments = some loc') :
    fs.Physical loc' := by
  rw [leads_eq] at hleads
  exact foldlM_keeps (fun _ _ _ h => stepTo_physical (fun _ _ _ => expand_physical _) h) h hleads

/-- A place that can be led to is where its own names lead. -/
theorem leads_of_physical {below : Location} (h : fs.Physical (loc ++ below)) :
    fs.leads false loc below = some (loc ++ below) := by
  induction below using List.reverseRecOn with
  | nil => rw [leads_nil, List.append_nil]
  | append_singleton below name ih =>
      rw [← List.append_assoc] at h ⊢
      rw [leads_snoc, ih h.of_append, Option.bind_some]
      have hplain := h.plain name (List.mem_append_right _ (List.mem_singleton_self _))
      exact leadsBy_name hplain (fun h => by cases h) (h.linkless _ [] (List.append_nil _))

/-! ### Starting in directories only -/

theorem stepTo_of_strict {e : Location → Path → Option Location} (h : fs.stepTo true e loc segment = some loc') :
    fs.stepTo false e loc segment = some loc' := by
  unfold stepTo at h ⊢
  split at h
  · cases h
  · rwa [if_neg (by simp)]

theorem finds_of_strict (n : Nat) : Finds fs (fs.expand true n) (fs.expand false n) := by
  induction n with
  | zero =>
      intro loc name target l _ h
      cases h
  | succ n ih =>
      intro loc name target l _ h
      rw [expand, follow_eq] at h ⊢
      exact foldlM_mono (fun _ _ _ h => stepTo_mono ih (stepTo_of_strict h)) h

theorem leadsBy_of_strict (h : fs.leadsBy true loc segment = some loc') : fs.leadsBy false loc segment = some loc' :=
  stepTo_mono (finds_of_strict _) (stepTo_of_strict h)

/-- Where segments lead from directory to directory, they lead also if this is not asked. -/
theorem leads_of_strict (h : fs.leads true loc segments = some loc') : fs.leads false loc segments = some loc' := by
  rw [leads_eq] at h ⊢
  exact foldlM_mono (fun _ _ _ => leadsBy_of_strict) h

end FileSystem

/-! ## What a process sees -/

structure StoredFile where
  isReadable : Bool
  bytes : List UInt8
  deriving DecidableEq

/-- The working directory of a process. -/
structure Working where
  directory : Location
  isNames : ∀ name ∈ directory, IsName name

theorem isNames_nil : ∀ name ∈ ([] : Location), IsName name := fun _ hname => absurd hname List.not_mem_nil

/-- The file system, as a process with a working directory sees it. -/
structure Machine where
  files : FileSystem StoredFile
  working : Working

end LinkedFiles
