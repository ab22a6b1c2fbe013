import DashQL.Library.KeyRenames
import DashQL.Scripts.State

/-!
# Inserting a script

A new script goes to the bottom of its folder: `planScriptInsertion` numbers it one
past the others, and lists the files whose numbers have to be padded to the width
of the new one; `applyScriptRepad` renames them.
-/

namespace DashQL.Scripts

open Storage Notebook

/-! ## Numbers -/

/-- What a `Number` does to natural numbers: `parseInt` and sums round, and `String` prints.  Up to
`2 ^ 53` both are exact. -/
structure Numbers where
  round : ℕ → ℕ
  print : ℕ → Text
  round_of_le : ∀ n ≤ 2 ^ 53, round n = n
  print_of_le : ∀ n ≤ 2 ^ 53, print n = decimal n

def Numbers.exact : Numbers where
  round n := n
  print := decimal
  round_of_le _ _ := rfl
  print_of_le _ _ := rfl

variable (numbers : Numbers)

def scriptOrderIndex (fileName : Text) : ℕ :=
  match orderPrefix? fileName with
  | some entry => numbers.round (Nat.ofDigitChars 10 entry.1 0)
  | none => 0

/-! ## The plan -/

structure ScriptInsertionPlan where
  newFileName : Text
  repad : List (Text × Text)

def newIndex (keys : List Text) : ℕ :=
  let maxPrefix := keys.foldl (fun maxPrefix key => max maxPrefix (scriptOrderIndex numbers key)) 0
  max (numbers.round (maxPrefix + 1)) (keys.length + 1)

/-- The loop of `planScriptInsertion` over the files. -/
def repadNames (width : ℕ) (keys : List Text) : List (Text × Text) :=
  keys.filterMap fun key =>
    let n := scriptOrderIndex numbers key
    if n = 0 then none
    else
      let desired := (numbers.print n).leftpad width '0' ++ '_' :: normalizeScriptName key
      if desired ≠ key then some (key, desired) else none

/-- `planScriptInsertion`, with a base name that was requested or drawn. -/
def planScriptInsertion (existingScripts : InsertionMap Text ScriptRef) (base : Text) :
    ScriptInsertionPlan :=
  let keys := objectKeys existingScripts
  let index := newIndex numbers keys
  let width := (numbers.print index).length
  let clean := uniqueScriptBase base keys []
  -- `formatScriptOrderPrefix(newIndex, newIndex)`
  let orderPrefix := (numbers.print index).leftpad (numbers.print (max index 1)).length '0' ++ ['_']
  { newFileName := orderPrefix ++ clean ++ ".sql".toList
    repad := repadNames numbers width keys }

/-! ## The renames -/

/-- What `applyScriptRepad` returns. -/
structure Repadded where
  pageScripts : InsertionMap Text ScriptRef
  scripts : InsertionMap ℕ ScriptData
  focusFileName : Text

def repadScript (done : Repadded) (rename : Text × Text) : Repadded :=
  match done.pageScripts.get? rename.1 with
  | none => done
  | some entry =>
    { pageScripts := (done.pageScripts.delete rename.1).set rename.2
        { entry with fileName := rename.2 }
      scripts := updateScript done.scripts entry.scriptId
        fun scriptData => { scriptData with fileName := rename.2 }
      focusFileName := if done.focusFileName = rename.1 then rename.2 else done.focusFileName }

def applyScriptRepad (repad : List (Text × Text)) (pageScripts : InsertionMap Text ScriptRef)
    (scripts : InsertionMap ℕ ScriptData) (focusFileName : Text) : Repadded :=
  repad.foldl repadScript ⟨pageScripts, scripts, focusFileName⟩

/-- The folder that the callers build: the files as they are renamed, and the new one. -/
def insertScript (page : ScriptFolder) (base : Text) (scriptKey : ℕ)
    (scripts : InsertionMap ℕ ScriptData) (focusFileName : Text) : ScriptFolder :=
  let plan := planScriptInsertion numbers page.scripts base
  let repadded := applyScriptRepad plan.repad page.scripts scripts focusFileName
  { page with
    scripts := repadded.pageScripts.set plan.newFileName ⟨some scriptKey, plan.newFileName⟩ }

/-! ## What an insertion is for -/

section Views

variable (localeCompare : Text → Text → ℤ)

/-- A folder with a new script at the bottom: every other one has exactly one file name, with its
number and its clean name, and another display name than the new one. -/
structure InsertedLast (before after : ScriptFolder) (newFileName : Text) (scriptKey : ℕ) :
    Prop where
  kept : ∃ rename : Text → Text,
    after.scripts.keys.Perm (newFileName :: before.scripts.keys.map rename) ∧
      ∀ name ∈ before.scripts.keys,
        (after.scripts.get? (rename name)).map ScriptRef.scriptId =
            (before.scripts.get? name).map ScriptRef.scriptId ∧
          orderNumber (rename name) = orderNumber name ∧
          normalizeScriptName (rename name) = normalizeScriptName name ∧
          scriptDisplayName (rename name) ≠ scriptDisplayName newFileName
  added : (after.scripts.get? newFileName).map ScriptRef.scriptId = some (some scriptKey)
  last : (getSortedScriptFileNames localeCompare after).getLast? = some newFileName

/-- A collation that orders all names, and compares the numbers in front of them. -/
structure OrdersNumbers : Prop where
  numbers : ComparesNumbers localeCompare
  total : ∀ a b, localeCompare a b ≤ 0 ∨ localeCompare b a ≤ 0
  trans : ∀ a b c, localeCompare a b ≤ 0 → localeCompare b c ≤ 0 → localeCompare a c ≤ 0

end Views

/-- The numbers of a folder are exact, and so is their count. -/
structure SafeNumbers (names : List Text) : Prop where
  number : ∀ name ∈ names, orderNumber name < 2 ^ 53
  count : names.length < 2 ^ 53

/-- One past the largest number and the count of a folder's files. -/
def nextNumber (names : List Text) : ℕ :=
  max ((names.map orderNumber).foldl max 0 + 1) (names.length + 1)

/-- A folder that takes a new script of any name at its bottom: no two files have the same positive
number and the same clean name, a file without a name hides no display name, and the files without
an ordering prefix come before all new names with the next number. -/
structure TakesAtBottom (localeCompare : Text → Text → ℤ) (names : List Text) : Prop where
  distinct : ∀ name ∈ names, ∀ other ∈ names, 0 < orderNumber name →
    orderNumber name = orderNumber other → normalizeScriptName name = normalizeScriptName other →
      name = other
  named : [] ∈ names → ∃ other ∈ names, other ≠ [] ∧ scriptDisplayName other = []
  unnumbered : ∀ name ∈ names, orderPrefix? name = none → ∀ clean, clean ∉ names.map scriptDisplayName →
    localeCompare name
      (formatScriptOrderPrefix (nextNumber names) (nextNumber names) ++ clean ++ ".sql".toList) ≤ 0

end DashQL.Scripts
