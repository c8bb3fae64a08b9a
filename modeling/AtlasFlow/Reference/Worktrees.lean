import AtlasFlow.Reference.Documents
import AtlasFlow.Reference.GoalFile

/-!
# Integrating a worktree

`integrate` merges the branch of a task into a target branch of the user's repository, by one command of git after the
other: the status must be clean, a merge in the object database must find no conflict, and then the target is checked
out, where it is not already, and the branch merged. Git is a function of the command and the repository; `σ` is what
the user has in front of him, the branch checked out and the working tree.

A refusal should leave both alone. It does if and only if no conflict comes without a path, and nothing goes wrong
after a checkout that moved something (`leavesCheckout_iff`): without a path the conflict goes unseen
(`pathless_conflict_moves`).
-/

namespace AtlasFlow.Reference.Worktrees

/-- How a command ended, and the repository after it. -/
structure Ran (σ : Type) where
  stdout : String := ""
  stderr : String := ""
  code : Int := 0
  after : σ

/-- `git`, in the repository. -/
abbrev Git (σ : Type) := List String → σ → Ran σ

inductive GitException
  | gitError (args : List String) (returncode : Int) (stderr : String)
  | securityError (message : String)
  deriving DecidableEq, Repr

/-- The repository, and the commands that were run. -/
structure World (σ : Type) where
  repo : σ
  issued : List (List String) := []

/-- What a coroutine returned or raised. -/
abbrev Answer (σ α : Type) := Except GitException α × World σ

structure Worktree where
  goalId : String
  taskId : String
  branch : String
  path : String
  deriving DecidableEq, Repr

structure IntegrationResult where
  branch : String
  target : String
  integrated : Bool
  conflicts : List String := []
  reason : String := ""
  deriving DecidableEq, Repr

variable {σ α β : Type}

/-- `str.strip`. -/
def strip (text : String) : String := String.ofList (GoalFile.strip text.toList)

def andThen (r : Answer σ α) (k : α → World σ → Answer σ β) : Answer σ β :=
  match r with
  | (.error e, w) => (.error e, w)
  | (.ok a, w) => k a w

@[simp] theorem andThen_error (e : GitException) (w : World σ) (k : α → World σ → Answer σ β) :
    andThen (.error e, w) k = (.error e, w) := rfl

@[simp] theorem andThen_ok (a : α) (w : World σ) (k : α → World σ → Answer σ β) : andThen (.ok a, w) k = k a w := rfl

/-! ## Commands -/

def forbiddenGitSubcommands : List String :=
  ["push", "reset", "rebase", "filter-branch", "filter-repo", "clean", "gc", "prune", "reflog"]

/-- The word that `validate_git_command` refuses. Only letters of ASCII are lowered: no other character becomes one of
a forbidden word. -/
def forbiddenWord (args : List String) : Option String := args.find? (·.toLower ∈ forbiddenGitSubcommands)

/-- The guard lets the command pass. -/
def Allowed (args : List String) : Prop := forbiddenWord args = none

instance (args : List String) : Decidable (Allowed args) := inferInstanceAs (Decidable (_ = _))

/-- `SecurityGuard.validate_git_command`. -/
def validateGitCommand (args : List String) : Except GitException Unit :=
  match forbiddenWord args with
  | some word =>
    let command := " ".intercalate args
    .error (.securityError s!"git {word} is never performed by Atlas Flow: {command}")
  | none => .ok ()

/-- `_run_git_raw`. -/
def runGitRaw (git : Git σ) (args : List String) (w : World σ) : World σ :=
  { repo := (git args w.repo).after, issued := w.issued ++ [args] }

/-- `run_git`. -/
def runGit (git : Git σ) (args : List String) (w : World σ) : Answer σ String :=
  match validateGitCommand args with
  | .error e => (.error e, w)
  | .ok () =>
    let ran := git args w.repo
    (if ran.code ≠ 0 then .error (.gitError args ran.code (strip ran.stderr)) else .ok ran.stdout, runGitRaw git args w)

def statusArgs : List String := ["status", "--porcelain"]

def mergeTreeArgs (branch target : String) : List String :=
  ["merge-tree", "--write-tree", "--name-only", target, branch]

def revParseArgs : List String := ["rev-parse", "--abbrev-ref", "HEAD"]

def checkoutArgs (target : String) : List String := ["checkout", target]

def mergeArgs (branch : String) : List String := ["merge", "--no-ff", "-m", s!"Integrate {branch}", branch]

/-! ## Integration -/

/-- The lines up to a blank one, after the first. -/
def conflictedPaths (stdout : String) : List String :=
  (((Documents.splitLines [] stdout.toList).drop 1).map fun line => strip (String.ofList line)).takeWhile (· ≠ "")

/-- `detect_conflicts`. -/
def detectConflicts (git : Git σ) (branch target : String) (w : World σ) : Answer σ (List String) :=
  let ran := git (mergeTreeArgs branch target) w.repo
  (if ran.code = 0 then .ok []
    else if ran.code ≠ 1 then .error (.gitError ["merge-tree", target, branch] ran.code (strip ran.stderr))
    else .ok (conflictedPaths ran.stdout),
    runGitRaw git (mergeTreeArgs branch target) w)

/-- `is_dirty`. -/
def isDirty (git : Git σ) (w : World σ) : Answer σ Bool :=
  andThen (runGit git statusArgs w) fun stdout w => (.ok (strip stdout ≠ ""), w)

/-- `_integrate_locked`. -/
def integrateLocked (git : Git σ) (repoRoot : String) (worktree : Worktree) (target : String) (w : World σ) :
    Answer σ IntegrationResult :=
  let result : IntegrationResult := { branch := worktree.branch, target, integrated := false }
  andThen (isDirty git w) fun dirty w =>
    if dirty then
      (.ok { result with
        reason := s!"Target checkout {repoRoot} has uncommitted changes; integration would risk overwriting " ++
          "unrelated user work." }, w)
    else andThen (detectConflicts git worktree.branch target w) fun conflicts w =>
      if conflicts ≠ [] then
        (.ok { result with
          conflicts
          reason := s!"{conflicts.length} conflicting path(s) between {worktree.branch} and {target}; resolve them " ++
            "explicitly." }, w)
      else andThen (runGit git revParseArgs w) fun current w =>
        andThen (if strip current ≠ target then runGit git (checkoutArgs target) w else (.ok "", w)) fun _ w =>
          andThen (runGit git (mergeArgs worktree.branch) w) fun _ w =>
            (.ok { result with integrated := true, reason := s!"Merged {worktree.branch} into {target}." }, w)

/-- `integrate`; no other integration runs meanwhile. -/
def integrate (git : Git σ) (repoRoot : String) (worktree : Worktree) (target : String) (repo : σ) :
    Answer σ IntegrationResult :=
  integrateLocked git repoRoot worktree target { repo }

/-! ## What is left alone -/

/-- The branch was merged. -/
def Integrated : Except GitException IntegrationResult → Prop
  | .ok result => result.integrated = true
  | .error _ => False

instance (answer : Except GitException IntegrationResult) : Decidable (Integrated answer) :=
  match answer with
  | .ok result => inferInstanceAs (Decidable (result.integrated = true))
  | .error _ => inferInstanceAs (Decidable False)

/-- The command can move the user's branch or working tree. -/
def Touches (args : List String) : Prop := args.head? = some "checkout" ∨ args.head? = some "merge"

/-- **An integration that is refused or fails leaves the checkout alone**, and nothing is checked out or merged over
a status that is not blank or a merge that was not clean. -/
structure LeavesCheckout (git : Git σ) (repoRoot : String) (worktree : Worktree) (target : String) (repo : σ) :
    Prop where
  kept : ¬ Integrated (integrate git repoRoot worktree target repo).1 →
    (integrate git repoRoot worktree target repo).2.repo = repo
  silent : strip (git statusArgs repo).stdout ≠ "" ∨ (git (mergeTreeArgs worktree.branch target) repo).code ≠ 0 →
    ∀ args ∈ (integrate git repoRoot worktree target repo).2.issued, ¬ Touches args

/-- What is relied on: a command that fails changes nothing, and neither do those that only look. -/
structure Faithful (git : Git σ) : Prop where
  failed : ∀ args s, (git args s).code ≠ 0 → (git args s).after = s
  status : ∀ s, (git statusArgs s).after = s
  mergeTree : ∀ branch target s, (git (mergeTreeArgs branch target) s).after = s
  revParse : ∀ s, (git revParseArgs s).after = s

section Steps

variable (git : Git σ) (worktree : Worktree) (target : String) (repo : σ)

/-- The checks find nothing to refuse: a status that is blank, no conflicting path, and a branch that is checked out. -/
structure Proceeds : Prop where
  status : (git statusArgs repo).code = 0 ∧ strip (git statusArgs repo).stdout = ""
  mergeTree : (git (mergeTreeArgs worktree.branch target) repo).code = 0 ∨
    (git (mergeTreeArgs worktree.branch target) repo).code = 1 ∧
      conflictedPaths (git (mergeTreeArgs worktree.branch target) repo).stdout = []
  revParse : (git revParseArgs repo).code = 0

/-- The branch checked out. -/
def currentBranch : String := strip (git revParseArgs repo).stdout

/-- The first command that is not a check. -/
def nextArgs : List String :=
  if currentBranch git repo ≠ target then checkoutArgs target else mergeArgs worktree.branch

/-- After the checks. -/
def checkedWorld : World σ :=
  { repo, issued := [statusArgs, mergeTreeArgs worktree.branch target, revParseArgs] }

def merge (w : World σ) : Answer σ IntegrationResult :=
  andThen (runGit git (mergeArgs worktree.branch) w) fun _ w =>
    (.ok { branch := worktree.branch, target, integrated := true
           reason := s!"Merged {worktree.branch} into {target}." }, w)

/-- Checkout, where it is needed, and merge. -/
def switchAndMerge : Answer σ IntegrationResult :=
  andThen (if currentBranch git repo ≠ target then runGit git (checkoutArgs target) (checkedWorld worktree target repo)
    else (.ok "", checkedWorld worktree target repo)) fun _ w => merge git worktree target w

/-- **When the checkout is left alone**: where `merge-tree` finds a conflict it names a path, or else the guard refuses
what comes next; and where a checkout moved something the merge succeeds. -/
structure GoesWell : Prop where
  clean : Proceeds git worktree target repo → (git (mergeTreeArgs worktree.branch target) repo).code ≠ 0 →
    ¬ Allowed (nextArgs git worktree target repo)
  moved : Proceeds git worktree target repo → currentBranch git repo ≠ target → Allowed (checkoutArgs target) →
    (git (checkoutArgs target) repo).code = 0 → (git (checkoutArgs target) repo).after ≠ repo →
    Allowed (mergeArgs worktree.branch) ∧
      (git (mergeArgs worktree.branch) (git (checkoutArgs target) repo).after).code = 0

end Steps

section Spec

variable {git : Git σ} {worktree : Worktree} {target : String} {repo : σ}

theorem runGit_of_allowed {args : List String} (h : Allowed args) (w : World σ) :
    runGit git args w =
      (if (git args w.repo).code ≠ 0 then
          .error (.gitError args (git args w.repo).code (strip (git args w.repo).stderr))
        else .ok (git args w.repo).stdout, runGitRaw git args w) := by
  have hnone : forbiddenWord args = none := h
  rw [runGit, validateGitCommand, hnone]

theorem runGit_of_not_allowed (git : Git σ) {args : List String} (h : ¬ Allowed args) (w : World σ) :
    ∃ e, runGit git args w = (.error e, w) := by
  obtain ⟨word, hword⟩ := Option.ne_none_iff_exists'.mp h
  rw [runGit, validateGitCommand, hword]
  exact ⟨_, rfl⟩

theorem statusArgs_allowed : Allowed statusArgs := by decide +kernel

theorem revParseArgs_allowed : Allowed revParseArgs := by decide +kernel

/-- How the first check ends. -/
theorem isDirty_eq (h : Faithful git) :
    isDirty git { repo } =
      (if (git statusArgs repo).code ≠ 0 then
          .error (.gitError statusArgs (git statusArgs repo).code (strip (git statusArgs repo).stderr))
        else .ok (strip (git statusArgs repo).stdout ≠ ""), { repo, issued := [statusArgs] }) := by
  rw [isDirty, runGit_of_allowed statusArgs_allowed]
  dsimp only [runGitRaw]
  rw [h.status]
  split <;> rfl

/-- Nothing was merged, and nothing was done but to look. -/
structure Stopped (worktree : Worktree) (target : String) (repo : σ) (r : Answer σ IntegrationResult) : Prop where
  refused : ¬ Integrated r.1
  kept : r.2.repo = repo
  looked : ∀ args ∈ r.2.issued, args ∈ (checkedWorld worktree target repo).issued

theorem looked_not_touches : ∀ args ∈ (checkedWorld worktree target repo).issued, ¬ Touches args := by
  simp [checkedWorld, Touches, statusArgs, mergeTreeArgs, revParseArgs]

/-- **The checks**: they pass, or nothing is done. -/
theorem integrate_cases (h : Faithful git) (repoRoot : String) (worktree : Worktree) (target : String) (repo : σ) :
    (Proceeds git worktree target repo ∧
      integrate git repoRoot worktree target repo = switchAndMerge git worktree target repo) ∨
    (¬ Proceeds git worktree target repo ∧
      Stopped worktree target repo (integrate git repoRoot worktree target repo)) := by
  have hfirst : ∀ args ∈ [statusArgs], args ∈ (checkedWorld worktree target repo).issued := by simp [checkedWorld]
  have hsecond : ∀ args ∈ [statusArgs, mergeTreeArgs worktree.branch target],
      args ∈ (checkedWorld worktree target repo).issued := by simp +contextual [checkedWorld]
  rw [integrate, integrateLocked]
  dsimp only
  rw [isDirty_eq h]
  by_cases hcode : (git statusArgs repo).code = 0
  case neg =>
    rw [if_pos hcode, andThen_error]
    exact .inr ⟨fun hproceeds => hcode hproceeds.status.1, id, rfl, hfirst⟩
  rw [if_neg (not_not_intro hcode), andThen_ok]
  by_cases hblank : strip (git statusArgs repo).stdout = ""
  case neg =>
    rw [if_pos (decide_eq_true hblank)]
    exact .inr ⟨fun hproceeds => hblank hproceeds.status.2, Bool.false_ne_true, rfl, hfirst⟩
  rw [if_neg (by simp [hblank]), detectConflicts, runGitRaw]
  dsimp only
  rw [h.mergeTree]
  by_cases hclean : (git (mergeTreeArgs worktree.branch target) repo).code = 0 ∨
      (git (mergeTreeArgs worktree.branch target) repo).code = 1 ∧
        conflictedPaths (git (mergeTreeArgs worktree.branch target) repo).stdout = []
  case neg =>
    refine .inr ⟨fun hproceeds => hclean hproceeds.mergeTree, ?_⟩
    rw [not_or, not_and] at hclean
    rw [if_neg hclean.1]
    by_cases hone : (git (mergeTreeArgs worktree.branch target) repo).code = 1
    · rw [if_neg (not_not_intro hone), andThen_ok, if_pos (hclean.2 hone)]
      exact ⟨Bool.false_ne_true, rfl, hsecond⟩
    · rw [if_pos hone, andThen_error]
      exact ⟨id, rfl, hsecond⟩
  have hconflicts : (if (git (mergeTreeArgs worktree.branch target) repo).code = 0 then Except.ok []
      else if (git (mergeTreeArgs worktree.branch target) repo).code ≠ 1 then
        .error (.gitError ["merge-tree", target, worktree.branch] (git (mergeTreeArgs worktree.branch target) repo).code
          (strip (git (mergeTreeArgs worktree.branch target) repo).stderr))
      else .ok (conflictedPaths (git (mergeTreeArgs worktree.branch target) repo).stdout)) =
      (.ok [] : Except GitException (List String)) := by
    rcases hclean with hzero | ⟨hone, hnone⟩
    · exact if_pos hzero
    · simp [hone, hnone]
  rw [hconflicts, andThen_ok, if_neg (not_not_intro rfl), runGit_of_allowed revParseArgs_allowed, runGitRaw]
  dsimp only
  rw [h.revParse]
  by_cases hrevParse : (git revParseArgs repo).code = 0
  · rw [if_neg (not_not_intro hrevParse), andThen_ok]
    exact .inl ⟨⟨⟨hcode, hblank⟩, hclean, hrevParse⟩, rfl⟩
  · rw [if_pos hrevParse, andThen_error]
    exact .inr ⟨fun hproceeds => hrevParse hproceeds.revParse, id, rfl, fun args hargs => hargs⟩

theorem checkout_touches : Touches (checkoutArgs target) := .inl rfl

theorem merge_touches (branch : String) : Touches (mergeArgs branch) := .inr rfl

/-- How the merge ends. -/
theorem merge_cases (h : Faithful git) (worktree : Worktree) (target : String) (w : World σ) :
    (¬ Allowed (mergeArgs worktree.branch) ∧ ¬ Integrated (merge git worktree target w).1 ∧
      (merge git worktree target w).2 = w) ∨
    (Allowed (mergeArgs worktree.branch) ∧
      (Integrated (merge git worktree target w).1 ↔ (git (mergeArgs worktree.branch) w.repo).code = 0) ∧
      ((git (mergeArgs worktree.branch) w.repo).code ≠ 0 → (merge git worktree target w).2.repo = w.repo) ∧
      mergeArgs worktree.branch ∈ (merge git worktree target w).2.issued) := by
  rw [merge]
  by_cases hallowed : Allowed (mergeArgs worktree.branch)
  · refine .inr ⟨hallowed, ?_⟩
    rw [runGit_of_allowed hallowed]
    by_cases hcode : (git (mergeArgs worktree.branch) w.repo).code = 0
    · rw [if_neg (not_not_intro hcode), andThen_ok]
      exact ⟨iff_of_true rfl hcode, fun hne => absurd hcode hne, by simp [runGitRaw]⟩
    · rw [if_pos hcode, andThen_error]
      exact ⟨iff_of_false id hcode, fun hne => h.failed _ _ hne, by simp [runGitRaw]⟩
  · obtain ⟨e, he⟩ := runGit_of_not_allowed git hallowed w
    rw [he]
    exact .inl ⟨hallowed, id, rfl⟩

/-- The commands are only added to. -/
theorem issued_runGit (git : Git σ) (args : List String) {other : List String} {w : World σ} (h : other ∈ w.issued) :
    other ∈ (runGit git args w).2.issued := by
  by_cases hallowed : Allowed args
  · rw [runGit_of_allowed hallowed]
    exact List.mem_append_left _ h
  · obtain ⟨e, he⟩ := runGit_of_not_allowed git hallowed w
    rw [he]
    exact h

theorem issued_merge {other : List String} {w : World σ} (h : other ∈ w.issued) :
    other ∈ (merge git worktree target w).2.issued := by
  have hrun := issued_runGit git (mergeArgs worktree.branch) h
  rw [merge]
  revert hrun
  generalize runGit git (mergeArgs worktree.branch) w = r
  obtain ⟨answer | answer, w'⟩ := r <;> exact id

/-- What comes after the checks does what the condition says, and no more. -/
theorem switchAndMerge_spec (h : Faithful git) (worktree : Worktree) (target : String) (repo : σ) :
    ((¬ Integrated (switchAndMerge git worktree target repo).1 →
        (switchAndMerge git worktree target repo).2.repo = repo) ↔
      (currentBranch git repo ≠ target → Allowed (checkoutArgs target) → (git (checkoutArgs target) repo).code = 0 →
        (git (checkoutArgs target) repo).after ≠ repo →
        Allowed (mergeArgs worktree.branch) ∧
          (git (mergeArgs worktree.branch) (git (checkoutArgs target) repo).after).code = 0)) ∧
    ((∀ args ∈ (switchAndMerge git worktree target repo).2.issued, ¬ Touches args) ↔
      ¬ Allowed (nextArgs git worktree target repo)) := by
  rw [switchAndMerge, nextArgs]
  by_cases hcurrent : currentBranch git repo = target
  · rw [if_neg (not_not_intro hcurrent), andThen_ok, if_neg (not_not_intro hcurrent)]
    rcases merge_cases h worktree target (checkedWorld worktree target repo) with
      ⟨hrefused, hfails, hsame⟩ | ⟨hallowed, hiff, hkept, hissued⟩
    · rw [hsame]
      exact ⟨iff_of_true (fun _ => rfl) fun hne => absurd hcurrent hne, iff_of_true looked_not_touches hrefused⟩
    · refine ⟨iff_of_true (fun hnot => hkept (mt hiff.mpr hnot)) fun hne => absurd hcurrent hne, ?_⟩
      exact iff_of_false (fun hall => hall _ hissued (merge_touches _)) (not_not_intro hallowed)
  · rw [if_pos hcurrent, if_pos hcurrent]
    by_cases hallowed : Allowed (checkoutArgs target)
    case neg =>
      obtain ⟨e, he⟩ := runGit_of_not_allowed git hallowed (checkedWorld worktree target repo)
      rw [he, andThen_error]
      exact ⟨iff_of_true (fun _ => rfl) fun _ hyes => absurd hyes hallowed, iff_of_true looked_not_touches hallowed⟩
    rw [runGit_of_allowed hallowed]
    have hissued : checkoutArgs target ∈
        (runGitRaw git (checkoutArgs target) (checkedWorld worktree target repo)).issued :=
      List.mem_append_right _ List.mem_cons_self
    by_cases hcode : (git (checkoutArgs target) repo).code = 0
    case neg =>
      have hcode' : (git (checkoutArgs target) (checkedWorld worktree target repo).repo).code ≠ 0 := hcode
      rw [if_pos hcode', andThen_error]
      refine ⟨iff_of_true (fun _ => h.failed _ _ hcode) fun _ _ hzero => absurd hzero hcode, ?_⟩
      exact iff_of_false (fun hall => hall _ hissued checkout_touches) (not_not_intro hallowed)
    have hcode' : ¬ (git (checkoutArgs target) (checkedWorld worktree target repo).repo).code ≠ 0 := not_not_intro hcode
    rw [if_neg hcode', andThen_ok]
    refine ⟨?_, iff_of_false (fun hall => hall _ (issued_merge hissued) checkout_touches) (not_not_intro hallowed)⟩
    -- the merge starts from what the checkout left
    rcases merge_cases h worktree target
        (runGitRaw git (checkoutArgs target) (checkedWorld worktree target repo)) with
      ⟨hrefused, hfails, hsame⟩ | ⟨hmerge, hiff, hkept, _⟩
    · rw [hsame]
      constructor
      · exact fun hrepo _ _ _ hmoved => absurd (hrepo hfails) hmoved
      · intro hcondition _
        by_contra hmoved
        exact hrefused (hcondition hcurrent hallowed hcode hmoved).1
    · constructor
      · intro hrepo _ _ _ hmoved
        refine ⟨hmerge, ?_⟩
        by_contra hfailed
        have hstays := hkept hfailed
        rw [hrepo (mt hiff.mp hfailed)] at hstays
        exact hmoved hstays.symm
      · intro hcondition hnot
        have hfailed := mt hiff.mpr hnot
        rw [hkept hfailed]
        by_contra hmoved
        exact hfailed (hcondition hcurrent hallowed hcode hmoved).2

/-- **When a refused or failed integration leaves the checkout alone**. -/
theorem leavesCheckout_iff (git : Git σ) (repoRoot : String) (worktree : Worktree) (target : String) (repo : σ)
    (h : Faithful git) :
    LeavesCheckout git repoRoot worktree target repo ↔ GoesWell git worktree target repo := by
  rcases integrate_cases h repoRoot worktree target repo with ⟨hproceeds, heq⟩ | ⟨hstops, hstopped⟩
  · obtain ⟨hkept, hsilent⟩ := switchAndMerge_spec h worktree target repo
    constructor
    · rintro ⟨hkept', hsilent'⟩
      rw [heq] at hkept' hsilent'
      exact ⟨fun _ hconflict => hsilent.mp (hsilent' (.inr hconflict)), fun _ => hkept.mp hkept'⟩
    · rintro ⟨hclean, hmoved⟩
      refine ⟨?_, ?_⟩
      · rw [heq]
        exact hkept.mpr (hmoved hproceeds)
      · rw [heq]
        rintro (hdirty | hconflict)
        · exact absurd hproceeds.status.2 hdirty
        · exact hsilent.mpr (hclean hproceeds hconflict)
  · refine iff_of_true ⟨fun _ => hstopped.kept, fun _ args hargs => ?_⟩ ?_
    · exact looked_not_touches args (hstopped.looked args hargs)
    · exact ⟨fun hproceeds => absurd hproceeds hstops, fun hproceeds => absurd hproceeds hstops⟩

end Spec

/-! ## A conflict without a path -/

/-- A repository with a branch checked out and a revision in the working tree. With a conflict, `merge-tree` names no
path for it. -/
def scripted (conflict : Bool) : Git (String × Nat) := fun args s =>
  if args.head? = some "rev-parse" then { stdout := s.1 ++ "\n", after := s }
  else if args.head? = some "checkout" then { after := (args.getD 1 "", 1) }
  else if args.head? = some "merge-tree" then
    if conflict then { stdout := "3f2a1c\n\nCONFLICT (distinct types)\n", code := 1, after := s } else { after := s }
  else if args.head? = some "merge" then
    if conflict then { stderr := "Automatic merge failed", code := 1, after := s } else { after := (s.1, 2) }
  else { after := s }

theorem scripted_faithful (conflict : Bool) : Faithful (scripted conflict) := by
  refine ⟨fun args s hcode => ?_, fun _ => rfl, fun _ _ _ => by cases conflict <;> rfl, fun _ => rfl⟩
  revert hcode
  unfold scripted
  repeat' split
  all_goals simp

def taskWorktree : Worktree := { goalId := "G1", taskId := "t1", branch := "atlas/G1/t1", path := "/w" }

example : (integrate (scripted false) "/repo" taskWorktree "main" ("work", 0)).2.repo = ("main", 2) := by decide +kernel

theorem leavesCheckout_iff_scripted :
    LeavesCheckout (scripted false) "/repo" taskWorktree "main" ("work", 0) ↔
      GoesWell (scripted false) taskWorktree "main" ("work", 0) :=
  leavesCheckout_iff (scripted false) "/repo" taskWorktree "main" ("work", 0) (scripted_faithful false)

/-- **A conflict without a path is merged over**: the target is checked out, the merge fails, and the user is on another
branch than before. -/
theorem pathless_conflict_moves : ¬ LeavesCheckout (scripted true) "/repo" taskWorktree "main" ("work", 0) :=
  fun h => absurd (h.kept (by decide +kernel)) (by decide +kernel)

end AtlasFlow.Reference.Worktrees
