import Mathlib.Data.List.Infix
import Mathlib.Data.List.Nodup
import AtlasFlow.Data.Lines

/-!
# The environment of a child process

A backend that is launched from inside the bundle must not inherit what points into it. `bundleEnvironmentPlan` decides
by the values: a variable with the text of the bundle's directory anywhere in its value is dropped, and from PATH the
entries with that text. Whether a path is the bundle or below it is a matter of components, so the plan is right exactly
where the two agree (`stripsBundle_iff`): a sibling whose name begins like the bundle's is dropped with it
(`sibling_dropped`).
-/

namespace AtlasFlow.Desktop

open Lines

/-- Environment variables: a name, and the text of the value. -/
abbrev Vars := List (String × List Char)

/-- What to change about a child's environment. -/
structure EnvironmentPlan where
  remove : List String := []
  path : Option (List Char) := none
  deriving DecidableEq, Repr

/-- `kept`, joined. -/
def keptPath (bundle value : List Char) : List Char :=
  [':'].intercalate ((value.splitOn ':').filter fun entry => ¬ bundle <:+: entry)

/-- One variable. -/
def planVariable (bundle : List Char) (plan : EnvironmentPlan) (v : String × List Char) : EnvironmentPlan :=
  if ¬ bundle <:+: v.2 then plan
  else if v.1 = "PATH" then { plan with path := some (keptPath bundle v.2) }
  else { plan with remove := plan.remove ++ [v.1] }

/-- `bundle_environment_plan`. -/
def bundleEnvironmentPlan (vars : Vars) (bundle : List Char) : EnvironmentPlan :=
  if bundle = [] then {} else vars.foldl (planVariable bundle) {}

/-- The environment with the plan carried out, as `strip_bundle_environment` does. -/
def EnvironmentPlan.applyTo (plan : EnvironmentPlan) (vars : Vars) : Vars :=
  (vars.filter (·.1 ∉ plan.remove)).map fun v => (v.1, if v.1 = "PATH" then plan.path.getD v.2 else v.2)

/-! ## What the plan says -/

section Plan

variable {bundle : List Char} {vars : Vars}

theorem foldl_remove (plan : EnvironmentPlan) :
    (vars.foldl (planVariable bundle) plan).remove =
      plan.remove ++ (vars.filter fun v => v.1 ≠ "PATH" ∧ bundle <:+: v.2).map Prod.fst := by
  induction vars generalizing plan with
  | nil => simp
  | cons v vars ih =>
      rw [List.foldl_cons, ih, planVariable]
      by_cases hmention : bundle <:+: v.2
      · by_cases hpath : v.1 = "PATH" <;> simp [hmention, hpath]
      · simp [hmention]

theorem foldl_path_of_not_mem (plan : EnvironmentPlan) (h : "PATH" ∉ vars.map Prod.fst) :
    (vars.foldl (planVariable bundle) plan).path = plan.path := by
  induction vars generalizing plan with
  | nil => rfl
  | cons v vars ih =>
      rw [List.map_cons, List.mem_cons, not_or] at h
      rw [List.foldl_cons, ih _ h.2, planVariable, if_neg (Ne.symm h.1)]
      split <;> rfl

theorem foldl_path (plan : EnvironmentPlan) (hnodup : (vars.map Prod.fst).Nodup) {value : List Char}
    (h : ("PATH", value) ∈ vars) :
    (vars.foldl (planVariable bundle) plan).path =
      if bundle <:+: value then some (keptPath bundle value) else plan.path := by
  induction vars generalizing plan with
  | nil => cases h
  | cons v vars ih =>
      obtain ⟨hv, hvars⟩ := List.nodup_cons.mp hnodup
      rw [List.foldl_cons]
      rcases List.mem_cons.mp h with rfl | h
      · rw [foldl_path_of_not_mem _ hv, planVariable]
        by_cases hmention : bundle <:+: value <;> simp [hmention]
      · have hne : v.1 ≠ "PATH" := fun heq => hv (heq ▸ List.mem_map_of_mem h)
        rw [ih _ hvars h, planVariable, if_neg hne]
        split_ifs <;> rfl

variable (hnodup : (vars.map Prod.fst).Nodup) (hbundle : bundle ≠ [])
include hnodup hbundle

/-- **The variables dropped** are those with the text of the bundle in the value, PATH apart. -/
theorem mem_remove {v : String × List Char} (hv : v ∈ vars) :
    v.1 ∈ (bundleEnvironmentPlan vars bundle).remove ↔ v.1 ≠ "PATH" ∧ bundle <:+: v.2 := by
  rw [bundleEnvironmentPlan, if_neg hbundle, foldl_remove, List.nil_append, List.mem_map]
  constructor
  · rintro ⟨other, hother, hname⟩
    obtain ⟨hmem, hmention⟩ := List.mem_filter.mp hother
    rw [← List.inj_on_of_nodup_map hnodup hmem hv hname]
    exact of_decide_eq_true hmention
  · intro h
    exact ⟨v, List.mem_filter.mpr ⟨hv, decide_eq_true h⟩, rfl⟩

/-- **PATH keeps the entries without the text of the bundle**. -/
theorem path_eq {value : List Char} (h : ("PATH", value) ∈ vars) :
    (bundleEnvironmentPlan vars bundle).path.getD value = keptPath bundle value := by
  rw [bundleEnvironmentPlan, if_neg hbundle, foldl_path _ hnodup h]
  split
  · rfl
  · next hmention =>
      have hall : (value.splitOn ':').filter (fun entry => ¬ bundle <:+: entry) = value.splitOn ':' :=
        List.filter_eq_self.mpr fun entry hentry => decide_eq_true fun h =>
          hmention (h.trans (infix_of_mem_splitOn ':' hentry))
      rw [keptPath, hall, List.intercalate_splitOn]
      rfl

end Plan

/-! ## What it should say -/

/-- A segment that is a component of its own. -/
def IsPart (segment : List Char) : Prop := segment ≠ [] ∧ segment ≠ ['.']

instance (segment : List Char) : Decidable (IsPart segment) := inferInstanceAs (Decidable (_ ∧ _))

/-- The components of a path: the root is the empty one, and a dot counts at the beginning only. -/
def components (text : List Char) : List (List Char) :=
  if text = [] then [] else (text.splitOn '/').take 1 ++ ((text.splitOn '/').drop 1).filter fun s => IsPart s

/-- The path is the bundle's directory or below it. -/
def AtOrBelow (bundle entry : List Char) : Prop := components bundle <+: components entry

instance (bundle entry : List Char) : Decidable (AtOrBelow bundle entry) := inferInstanceAs (Decidable (_ <+: _))

/-- The value, a path or several with colons between, names the bundle or something below it. -/
def Names (bundle value : List Char) : Prop := ∃ entry ∈ value.splitOn ':', AtOrBelow bundle entry

instance (bundle value : List Char) : Decidable (Names bundle value) := inferInstanceAs (Decidable (∃ entry ∈ _, _))

/-- PATH without the entries at or below the bundle. -/
def strippedPath (bundle value : List Char) : List Char :=
  [':'].intercalate ((value.splitOn ':').filter fun entry => ¬ AtOrBelow bundle entry)

/-- Only the bundle is removed. -/
structure StripsBundle (vars : Vars) (bundle : List Char) (plan : EnvironmentPlan) : Prop where
  removed : ∀ v ∈ vars, v.1 ≠ "PATH" → (v.1 ∈ plan.remove ↔ Names bundle v.2)
  path : ∀ value, ("PATH", value) ∈ vars → ("PATH", strippedPath bundle value) ∈ plan.applyTo vars
  clean : ∀ v ∈ plan.applyTo vars, ¬ Names bundle v.2

section Strips

variable {vars : Vars} {bundle : List Char}

theorem components_ne_nil (h : bundle ≠ []) : components bundle ≠ [] := by
  rw [components, if_neg h]
  have hsplit := List.splitOn_ne_nil '/' bundle
  obtain ⟨first, rest, heq⟩ := List.exists_cons_of_ne_nil hsplit
  rw [heq]
  simp

/-- The empty entry names nothing. -/
theorem not_atOrBelow_nil (h : bundle ≠ []) : ¬ AtOrBelow bundle [] :=
  fun hprefix => components_ne_nil h (List.prefix_nil.mp hprefix)

/-- Entries that are joined can be read back, but for the empty list. -/
theorem eq_of_joined {entries entries' : List (List Char)} (h : ∀ entry ∈ entries, ':' ∉ entry)
    (h' : ∀ entry ∈ entries', ':' ∉ entry) (hnil : [] ∈ entries ↔ [] ∈ entries')
    (hjoin : [':'].intercalate entries = [':'].intercalate entries') : entries = entries' := by
  have hread : ∀ entries : List (List Char), (∀ entry ∈ entries, ':' ∉ entry) → entries ≠ [] →
      ([':'].intercalate entries).splitOn ':' = entries := fun entries h hne => List.splitOn_intercalate ':' h hne
  by_cases hne : entries = [] <;> by_cases hne' : entries' = []
  · rw [hne, hne']
  · have hsplit := hread entries' h' hne'
    rw [← hjoin, hne] at hsplit
    rw [hne, ← hsplit] at hnil
    exact absurd (hnil.mpr (by decide)) List.not_mem_nil
  · have hsplit := hread entries h hne
    rw [hjoin, hne'] at hsplit
    rw [hne', ← hsplit] at hnil
    exact absurd (hnil.mp (by decide)) List.not_mem_nil
  · rw [← hread entries h hne, hjoin, hread entries' h' hne']

/-- **PATH keeps what it should** where each entry has the text of the bundle if and only if it is at or below it. -/
theorem keptPath_eq_iff (hbundle : bundle ≠ []) {value : List Char} :
    keptPath bundle value = strippedPath bundle value ↔
      ∀ entry ∈ value.splitOn ':', bundle <:+: entry ↔ AtOrBelow bundle entry := by
  have hcolon : ∀ p : List Char → Bool, ∀ entry ∈ (value.splitOn ':').filter p, ':' ∉ entry := fun p entry hentry =>
    not_mem_of_mem_splitOn ':' (List.mem_filter.mp hentry).1
  constructor
  · intro hjoin
    have hkept := eq_of_joined (hcolon _) (hcolon _) (by simp [hbundle, not_atOrBelow_nil hbundle]) hjoin
    intro entry hentry
    have hmem : entry ∈ (value.splitOn ':').filter (fun entry => ¬ bundle <:+: entry) ↔
        entry ∈ (value.splitOn ':').filter (fun entry => ¬ AtOrBelow bundle entry) := by rw [hkept]
    simpa [hentry, not_iff_not] using hmem
  · intro hagree
    rw [keptPath, strippedPath]
    refine congrArg _ (List.filter_congr fun entry hentry => ?_)
    rw [decide_eq_decide, hagree entry hentry]

/-- What is left of PATH names nothing in the bundle. -/
theorem not_names_strippedPath (hbundle : bundle ≠ []) (value : List Char) :
    ¬ Names bundle (strippedPath bundle value) := by
  rintro ⟨entry, hentry, hbelow⟩
  by_cases hne : (value.splitOn ':').filter (fun entry => ¬ AtOrBelow bundle entry) = []
  · rw [strippedPath, hne] at hentry
    rw [List.mem_singleton.mp (show entry ∈ [[]] from hentry)] at hbelow
    exact not_atOrBelow_nil hbundle hbelow
  · have hcolon : ∀ l ∈ (value.splitOn ':').filter (fun entry => ¬ AtOrBelow bundle entry), ':' ∉ l := fun l hl =>
      not_mem_of_mem_splitOn ':' (List.mem_filter.mp hl).1
    rw [strippedPath, List.splitOn_intercalate ':' hcolon hne] at hentry
    exact of_decide_eq_true (List.mem_filter.mp hentry).2 hbelow

/-- **When only the bundle is removed**: where each value, and each entry of PATH, has the text of the bundle if and
only if it names the bundle or something below it. -/
theorem stripsBundle_iff (vars : Vars) (bundle : List Char) (hnodup : (vars.map Prod.fst).Nodup)
    (hbundle : bundle ≠ []) :
    StripsBundle vars bundle (bundleEnvironmentPlan vars bundle) ↔
      (∀ v ∈ vars, v.1 ≠ "PATH" → (bundle <:+: v.2 ↔ Names bundle v.2)) ∧
        ∀ value, ("PATH", value) ∈ vars → ∀ entry ∈ value.splitOn ':', bundle <:+: entry ↔ AtOrBelow bundle entry := by
  have hstays : ∀ value, ("PATH", value) ∈ vars →
      ("PATH", keptPath bundle value) ∈ (bundleEnvironmentPlan vars bundle).applyTo vars := by
    intro value hvalue
    refine List.mem_map.mpr ⟨("PATH", value), List.mem_filter.mpr ⟨hvalue, decide_eq_true fun h => ?_⟩, ?_⟩
    · exact ((mem_remove hnodup hbundle hvalue).mp h).1 rfl
    · show ("PATH", _) = ("PATH", _)
      rw [if_pos rfl, path_eq hnodup hbundle hvalue]
  have honly : ∀ value, ("PATH", value) ∈ vars → ∀ value',
      ("PATH", value') ∈ (bundleEnvironmentPlan vars bundle).applyTo vars → value' = keptPath bundle value := by
    intro value hvalue value' hvalue'
    obtain ⟨v, hv, heq⟩ := List.mem_map.mp hvalue'
    have hname : v.1 = "PATH" := congrArg Prod.fst heq
    have hsame : v = ("PATH", value) := List.inj_on_of_nodup_map hnodup (List.mem_filter.mp hv).1 hvalue hname
    have htext : (if v.1 = "PATH" then _ else v.2) = value' := congrArg Prod.snd heq
    rw [← htext, if_pos hname, hsame, path_eq hnodup hbundle hvalue]
  constructor
  · intro h
    refine ⟨fun v hv hname => ?_, fun value hvalue => ?_⟩
    · rw [← h.removed v hv hname, mem_remove hnodup hbundle hv]
      exact (and_iff_right hname).symm
    · exact (keptPath_eq_iff hbundle).mp (honly value hvalue _ (h.path value hvalue)).symm
  · rintro ⟨hvalues, hentries⟩
    refine ⟨fun v hv hname => ?_, fun value hvalue => ?_, fun v hv hnames => ?_⟩
    · rw [mem_remove hnodup hbundle hv, ← hvalues v hv hname]
      exact and_iff_right hname
    · rw [← (keptPath_eq_iff hbundle).mpr (hentries value hvalue)]
      exact hstays value hvalue
    · obtain ⟨⟨name, value⟩, hold, rfl⟩ := List.mem_map.mp hv
      obtain ⟨hmem, hkept⟩ := List.mem_filter.mp hold
      by_cases hname : name = "PATH"
      · subst hname
        have hvalue := honly value hmem _ hv
        rw [hvalue, (keptPath_eq_iff hbundle).mpr (hentries value hmem)] at hnames
        exact not_names_strippedPath hbundle value hnames
      · have hremoved := mt (mem_remove hnodup hbundle hmem).mpr (of_decide_eq_true hkept)
        dsimp only at hnames
        rw [if_neg hname] at hnames
        exact hremoved ⟨hname, (hvalues _ hmem hname).mpr hnames⟩

/-- An environment as a child inherits it from inside the bundle. -/
def inherited : Vars :=
  [("PYTHONHOME", "/tmp/.mount_x/usr".toList), ("PATH", "/tmp/.mount_x/usr/bin:/usr/local/bin:/usr/bin".toList),
    ("EDITOR", "/tmp/.mounted-elsewhere/bin/vi".toList)]

example : bundleEnvironmentPlan inherited "/tmp/.mount_x".toList =
    { remove := ["PYTHONHOME"], path := some "/usr/local/bin:/usr/bin".toList } := by decide

theorem stripsBundle_iff_inherited :
    StripsBundle inherited "/tmp/.mount_x".toList (bundleEnvironmentPlan inherited "/tmp/.mount_x".toList) ↔
      (∀ v ∈ inherited, v.1 ≠ "PATH" → ("/tmp/.mount_x".toList <:+: v.2 ↔ Names "/tmp/.mount_x".toList v.2)) ∧
        ∀ value, ("PATH", value) ∈ inherited → ∀ entry ∈ value.splitOn ':',
          "/tmp/.mount_x".toList <:+: entry ↔ AtOrBelow "/tmp/.mount_x".toList entry :=
  stripsBundle_iff inherited "/tmp/.mount_x".toList (by decide) (by decide)

/-- **A sibling is dropped**: a variable with a path beside the bundle, whose name begins like the bundle's. -/
theorem sibling_dropped :
    ¬ StripsBundle [("EDITOR", "/tmp/.mount_x2/bin/vi".toList)] "/tmp/.mount_x".toList
      (bundleEnvironmentPlan [("EDITOR", "/tmp/.mount_x2/bin/vi".toList)] "/tmp/.mount_x".toList) :=
  fun h => absurd ((h.removed _ List.mem_cons_self (by decide)).mp (by decide +kernel)) (by decide +kernel)

end Strips

end AtlasFlow.Desktop
