import DashQL.Library.StrictOrders
import DashQL.Notebook.Names

/-!
# The scripts of a notebook and their names

A script file is called `<n>_<clean>.sql`: the number orders the file within its
folder, and the clean name is what the script is known by.  A prefix that is
formatted is read back as its number and taken off again by
`normalizeScriptName`, so that a script keeps its clean name when it gets another
number.

The runtime state of a notebook: its scripts by key, and its folders, which list
scripts by file name.  Folders and files are kept in objects, and an object that
is asked for a name also answers with what every object inherits
(`objectPrototype`).
-/

namespace DashQL.Scripts

open List

open Storage Notebook Candidates

/-! ## Ordering prefixes -/

/-- What `SCRIPT_ORDER_PREFIX_RE` matches: the digits, and what follows the separator. -/
def orderPrefix? (fileName : Text) : Option (Text × Text) :=
  match fileName.takeWhile Char.isDigit, fileName.dropWhile Char.isDigit with
  | digit :: digits, separator :: rest =>
    if separator = '-' ∨ separator = '_' then some (digit :: digits, rest) else none
  | _, _ => none

def normalizeScriptName (fileName : Text) : Text :=
  match orderPrefix? fileName with
  | some entry => entry.2
  | none => fileName

def orderNumber (fileName : Text) : ℕ :=
  match orderPrefix? fileName with
  | some entry => Nat.ofDigitChars 10 entry.1 0
  | none => 0

/-- `String(n).padStart(width, '0')`. -/
def padNumber (n width : ℕ) : Text := (decimal n).leftpad width '0'

def formatScriptOrderPrefix (index1 total : ℕ) : Text :=
  padNumber index1 (decimal (max total 1)).length ++ ['_']

/-- What `SCRIPT_EXTENSION_RE` matches is removed. -/
def stripExtension (name : Text) : Text :=
  if (name.drop (name.length - 4)).map Char.toLower = ".sql".toList then name.take (name.length - 4)
  else name

def scriptDisplayName (fileName : Text) : Text := stripExtension (normalizeScriptName fileName)

/-- `uniqueScriptBase`, on the file names of a folder. -/
def uniqueScriptBase (base : Text) (existingScripts : List Text) (excludeFileName : Text) : Text :=
  let taken := (existingScripts.filter (· ≠ excludeFileName)).map scriptDisplayName
  firstFree (numbered '-' base) taken taken.length 1

/-! ## Numbers that are read back -/

theorem padNumber_ne_nil (n width : ℕ) : padNumber n width ≠ [] := by
  intro hnil
  have hlength := congrArg List.length hnil
  have hpos : decimal n ≠ [] := Nat.toDigits_ne_nil
  rw [padNumber, length_leftpad, length_nil] at hlength
  exact hpos (length_eq_zero_iff.mp (by omega))

theorem isDigit_of_mem_padNumber {n width : ℕ} {c : Char} (h : c ∈ padNumber n width) :
    c.isDigit = true := by
  rw [padNumber, List.leftpad, mem_append] at h
  rcases h with hzero | hdigit
  · rw [eq_of_mem_replicate hzero]
    decide
  · exact Nat.isDigit_of_mem_toDigits (by decide) (by decide) hdigit

theorem value_padNumber (n width : ℕ) : Nat.ofDigitChars 10 (padNumber n width) 0 = n := by
  rw [padNumber, List.leftpad, Nat.ofDigitChars_append, Nat.ofDigitChars_replicate_zero, Nat.mul_zero]
  exact Nat.ofDigitChars_ten_toDigits

theorem takeWhile_padNumber (n width : ℕ) (clean : Text) :
    (padNumber n width ++ '_' :: clean).takeWhile Char.isDigit = padNumber n width := by
  rw [takeWhile_append_of_pos fun c hc => isDigit_of_mem_padNumber hc,
    takeWhile_cons_of_neg (by decide), append_nil]

theorem orderPrefix?_padNumber (n width : ℕ) (clean : Text) :
    orderPrefix? (padNumber n width ++ '_' :: clean) = some (padNumber n width, clean) := by
  have htake := takeWhile_padNumber n width clean
  have hdrop : (padNumber n width ++ '_' :: clean).dropWhile Char.isDigit = '_' :: clean := by
    rw [dropWhile_append_of_pos fun c hc => isDigit_of_mem_padNumber hc,
      dropWhile_cons_of_neg (by decide)]
  obtain ⟨digit, digits, hdigits⟩ := exists_cons_of_ne_nil (padNumber_ne_nil n width)
  rw [orderPrefix?, htake, hdrop, hdigits]
  rfl

@[simp] theorem normalizeScriptName_padNumber (n width : ℕ) (clean : Text) :
    normalizeScriptName (padNumber n width ++ '_' :: clean) = clean := by
  rw [normalizeScriptName, orderPrefix?_padNumber]

@[simp] theorem orderNumber_padNumber (n width : ℕ) (clean : Text) :
    orderNumber (padNumber n width ++ '_' :: clean) = n := by
  rw [orderNumber, orderPrefix?_padNumber]
  exact value_padNumber n width

theorem formatScriptOrderPrefix_append (index1 total : ℕ) (clean : Text) :
    formatScriptOrderPrefix index1 total ++ clean =
      padNumber index1 (decimal (max total 1)).length ++ '_' :: clean := by
  rw [formatScriptOrderPrefix, append_assoc, singleton_append]

theorem formatScriptFolderOrderPrefix_append (index1 total : ℕ) (clean : Text) :
    formatScriptFolderOrderPrefix index1 total ++ clean =
      padNumber index1 (decimal (max total 1)).length ++ '_' :: clean := by
  rw [formatScriptFolderOrderPrefix, append_assoc, singleton_append]
  rfl

/-! ## Collation -/

/-- The value of the digits that a name begins with. -/
def leadingNumber? (name : Text) : Option ℕ :=
  match name.takeWhile Char.isDigit with
  | [] => none
  | digits => some (Nat.ofDigitChars 10 digits 0)

theorem leadingNumber?_padNumber (n width : ℕ) (clean : Text) :
    leadingNumber? (padNumber n width ++ '_' :: clean) = some n := by
  obtain ⟨digit, digits, hdigits⟩ := exists_cons_of_ne_nil (padNumber_ne_nil n width)
  have hvalue := value_padNumber n width
  rw [leadingNumber?, takeWhile_padNumber]
  rw [hdigits] at hvalue ⊢
  exact congrArg some hvalue

/-- With the option `numeric`, a collation compares the numbers that names begin with. -/
def ComparesNumbers (localeCompare : Text → Text → ℤ) : Prop :=
  ∀ name other n m, leadingNumber? name = some n → leadingNumber? other = some m → n < m →
    localeCompare name other < 0 ∧ 0 < localeCompare other name

/-- The number in front of a name, if any, and then its characters. -/
def collationKey (name : Text) : List ℕ :=
  match leadingNumber? name with
  | some n => 0 :: n :: (name.dropWhile Char.isDigit).map Char.toNat
  | none => 1 :: name.map Char.toNat

/-- A collation that compares the numbers in front, sorts digits before everything else, and the
rest by characters. -/
def numericCompare (name other : Text) : ℤ :=
  if collationKey name < collationKey other then -1
  else if collationKey other < collationKey name then 1 else 0

theorem numericCompare_neg_iff {name other : Text} :
    numericCompare name other < 0 ↔ collationKey name < collationKey other := by
  unfold numericCompare
  split_ifs with hlt hgt <;> simp [hlt]

theorem numericCompare_pos_iff {name other : Text} :
    0 < numericCompare name other ↔ collationKey other < collationKey name := by
  unfold numericCompare
  split_ifs with hlt hgt
  · simpa using hlt.le
  · simp [hgt]
  · simp [hgt]

theorem comparesNumbers_numericCompare : ComparesNumbers numericCompare := by
  intro name other n m hname hother hlt
  have hkey : collationKey name < collationKey other := by
    rw [collationKey, collationKey, hname, hother]
    exact List.Lex.cons (List.Lex.rel hlt)
  exact ⟨numericCompare_neg_iff.mpr hkey, numericCompare_pos_iff.mpr hkey⟩

/-! ## Objects -/

/-- The names that every object inherits. -/
def objectPrototype : List Text :=
  ["constructor", "__defineGetter__", "__defineSetter__", "hasOwnProperty", "__lookupGetter__",
    "__lookupSetter__", "isPrototypeOf", "propertyIsEnumerable", "toString", "valueOf",
    "__proto__", "toLocaleString"].map String.toList

/-- `m[name]`: an own value, or what stands for an inherited one. -/
def readMember {α : Type} (m : InsertionMap Text α) (inherited : α) (name : Text) : Option α :=
  match m.get? name with
  | some value => some value
  | none => if name ∈ objectPrototype then some inherited else none

/-! ## State -/

/-- `ScriptRef`.  The copy of an inherited function has no script id. -/
structure ScriptRef where
  scriptId : Option ℕ
  fileName : Text

structure ScriptFolder where
  folderName : Text
  scripts : InsertionMap Text ScriptRef

structure ScriptData where
  scriptKey : ℕ
  text : Text
  fileName : Text
  folderName : Text

structure ScriptFocus where
  folderName : Text
  fileName : Text

structure NotebookScripts where
  scripts : InsertionMap ℕ ScriptData
  scriptFolders : InsertionMap Text ScriptFolder
  uncommittedScriptId : ℕ
  scriptFocus : ScriptFocus

def NotebookScripts.Keyed (state : NotebookScripts) : Prop :=
  ∀ name page, state.scriptFolders.get? name = some page → page.folderName = name

def NotebookScripts.text (state : NotebookScripts) (scriptId : ℕ) : Option Text :=
  (state.scripts.get? scriptId).map ScriptData.text

def NotebookScripts.focusedScript (state : NotebookScripts) : Option ℕ :=
  ((state.scriptFolders.get? state.scriptFocus.folderName).bind fun page =>
    page.scripts.get? state.scriptFocus.fileName).bind ScriptRef.scriptId

/-! ## Views -/

section Views

variable (localeCompare : Text → Text → ℤ)

/-- Names by `localeCompare` with the option `numeric`. -/
def sortNumerically (names : List Text) : List Text :=
  names.insertionSort fun a b => localeCompare a b ≤ 0

def getSortedScriptFolderNames (pages : InsertionMap Text ScriptFolder) : List Text :=
  sortNumerically localeCompare (objectKeys pages)

def getSortedScriptFileNames (page : ScriptFolder) : List Text :=
  sortNumerically localeCompare (objectKeys page.scripts)

theorem sortNumerically_perm (names : List Text) : (sortNumerically localeCompare names).Perm names :=
  List.perm_insertionSort _ names

theorem sorted_perm_keys {α : Type} (m : InsertionMap Text α) :
    (sortNumerically localeCompare (objectKeys m)).Perm m.keys :=
  (sortNumerically_perm localeCompare _).trans (objectKeys_perm m)

end Views

theorem sortNumerically_eq {localeCompare : Text → Text → ℤ} (h : ComparesNumbers localeCompare)
    {order names : List Text} (hperm : names.Perm order) (hnumbers : order.Pairwise fun a b =>
      ∃ n m, leadingNumber? a = some n ∧ leadingNumber? b = some m ∧ n < m) :
    sortNumerically localeCompare names = order := by
  refine insertionSort_eq_of_strict hperm (hnumbers.imp ?_)
  rintro a b ⟨n, m, ha, hb, hlt⟩
  have hless := h a b n m ha hb hlt
  exact ⟨hless.1.le, not_le.mpr hless.2⟩

/-! ## Updates of scripts -/

/-- `if (sd) newScripts[scriptId] = { ...sd, … }`. -/
def updateScript (scripts : InsertionMap ℕ ScriptData) (scriptId : Option ℕ)
    (change : ScriptData → ScriptData) : InsertionMap ℕ ScriptData :=
  match scriptId with
  | none => scripts
  | some scriptId =>
    match scripts.get? scriptId with
    | some scriptData => scripts.set scriptId (change scriptData)
    | none => scripts

theorem text_updateScript {change : ScriptData → ScriptData}
    (hchange : ∀ scriptData, (change scriptData).text = scriptData.text)
    (scripts : InsertionMap ℕ ScriptData) (moved : Option ℕ) (scriptId : ℕ) :
    ((updateScript scripts moved change).get? scriptId).map ScriptData.text =
      (scripts.get? scriptId).map ScriptData.text := by
  cases moved with
  | none => rfl
  | some moved =>
    cases hmoved : scripts.get? moved with
    | none => rw [updateScript, hmoved]
    | some scriptData =>
      rw [updateScript, hmoved]
      dsimp only
      rw [InsertionMap.get?_set]
      split_ifs with hsame
      · rw [hsame, hmoved, Option.map_some, Option.map_some, hchange]
      · rfl

end DashQL.Scripts
