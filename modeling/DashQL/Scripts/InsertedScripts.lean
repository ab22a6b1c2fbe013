import DashQL.Scripts.Insertion

/-!
# Inserted scripts

Padding settles the name of a file: it becomes the padded number in front of the
clean name.  Different files are settled differently unless they share a number
and a clean name, and then one of them is lost.  The new script is last among the
numbered files, and among the others if they come before its number
(`insertedLast_iff`).
-/

namespace DashQL.Scripts

open List Option

open Storage Notebook Candidates

/-! ## Settled names -/

/-- The name of a file with its number padded. -/
def settleName (width : ℕ) (name : Text) : Text :=
  if orderNumber name = 0 then name
  else padNumber (orderNumber name) width ++ '_' :: normalizeScriptName name

section Settle

variable {width : ℕ} {name : Text}

theorem settleName_of_zero (h : orderNumber name = 0) : settleName width name = name := if_pos h

theorem settleName_of_pos (h : 0 < orderNumber name) :
    settleName width name = padNumber (orderNumber name) width ++ '_' :: normalizeScriptName name :=
  if_neg h.ne'

@[simp] theorem orderNumber_settleName : orderNumber (settleName width name) = orderNumber name := by
  rcases Nat.eq_zero_or_pos (orderNumber name) with hzero | hpos
  · rw [settleName_of_zero hzero]
  · rw [settleName_of_pos hpos, orderNumber_padNumber]

@[simp] theorem normalizeScriptName_settleName :
    normalizeScriptName (settleName width name) = normalizeScriptName name := by
  rcases Nat.eq_zero_or_pos (orderNumber name) with hzero | hpos
  · rw [settleName_of_zero hzero]
  · rw [settleName_of_pos hpos, normalizeScriptName_padNumber]

theorem settleName_settleName : settleName width (settleName width name) = settleName width name := by
  rcases Nat.eq_zero_or_pos (orderNumber name) with hzero | hpos
  · rw [settleName_of_zero hzero, settleName_of_zero hzero]
  · have hpos' : 0 < orderNumber (settleName width name) := by rwa [orderNumber_settleName]
    rw [settleName_of_pos hpos', orderNumber_settleName, normalizeScriptName_settleName,
      settleName_of_pos hpos]

theorem leadingNumber?_of_orderPrefix {entry : Text × Text} (h : orderPrefix? name = some entry) :
    leadingNumber? name = some (orderNumber name) := by
  have hnumber : orderNumber name = Nat.ofDigitChars 10 entry.1 0 := by rw [orderNumber, h]
  rw [hnumber]
  unfold orderPrefix? at h
  unfold leadingNumber?
  split at h
  · rename_i digit digits separator rest htake hdrop
    split_ifs at h
    obtain rfl := some.inj h
    rw [htake]
  · exact absurd h (some_ne_none entry).symm

theorem settleName_of_none (h : orderPrefix? name = none) : settleName width name = name :=
  settleName_of_zero (by rw [orderNumber, h])

/-- Names that are settled alike have the same number and the same clean name. -/
theorem settleName_inj {other : Text} (h : settleName width name = settleName width other) :
    orderNumber name = orderNumber other ∧ normalizeScriptName name = normalizeScriptName other := by
  constructor
  · calc orderNumber name = orderNumber (settleName width name) := orderNumber_settleName.symm
      _ = orderNumber other := by rw [h, orderNumber_settleName]
  · calc normalizeScriptName name
        = normalizeScriptName (settleName width name) := normalizeScriptName_settleName.symm
      _ = normalizeScriptName other := by rw [h, normalizeScriptName_settleName]

/-- Different files are settled differently as long as no two of them share a positive number and
a clean name. -/
theorem settleName_injective_iff {names : List Text} :
    (∀ name ∈ names, ∀ other ∈ names, settleName width name = settleName width other →
      name = other) ↔
    ∀ name ∈ names, ∀ other ∈ names, 0 < orderNumber name →
      orderNumber name = orderNumber other →
        normalizeScriptName name = normalizeScriptName other → name = other := by
  constructor
  · intro h name hname other hother hpos hnumber hclean
    refine h name hname other hother ?_
    rw [settleName_of_pos hpos, settleName_of_pos (hnumber ▸ hpos), hnumber, hclean]
  · intro h name hname other hother heq
    obtain ⟨hnumber, hclean⟩ := settleName_inj heq
    rcases Nat.eq_zero_or_pos (orderNumber name) with hzero | hpos
    · rwa [settleName_of_zero hzero, settleName_of_zero (hnumber ▸ hzero)] at heq
    · exact h name hname other hother hpos hnumber hclean

end Settle

/-! ## The largest number -/

theorem foldl_max_le_iff {numbers : List ℕ} {first bound : ℕ} :
    numbers.foldl max first ≤ bound ↔ first ≤ bound ∧ ∀ n ∈ numbers, n ≤ bound := by
  induction numbers generalizing first with
  | nil => simp
  | cons n numbers ih => rw [foldl_cons, ih, Nat.max_le, forall_mem_cons, and_assoc]

theorem foldl_max_perm {numbers numbers' : List ℕ} (h : numbers.Perm numbers') :
    numbers.foldl max 0 = numbers'.foldl max 0 := by
  apply le_antisymm
  · exact foldl_max_le_iff.mpr ⟨Nat.zero_le _, fun n hn =>
      (foldl_max_le_iff.mp le_rfl).2 n (h.mem_iff.mp hn)⟩
  · exact foldl_max_le_iff.mpr ⟨Nat.zero_le _, fun n hn =>
      (foldl_max_le_iff.mp le_rfl).2 n (h.mem_iff.mpr hn)⟩

theorem orderNumber_lt_nextNumber {names : List Text} {name : Text} (h : name ∈ names) :
    orderNumber name < nextNumber names := by
  have hle := (foldl_max_le_iff.mp (le_refl ((names.map orderNumber).foldl max 0))).2
    (orderNumber name) (mem_map_of_mem h)
  exact lt_max_of_lt_left (Nat.lt_succ_of_le hle)

theorem nextNumber_pos (names : List Text) : 0 < nextNumber names :=
  lt_max_of_lt_left (Nat.succ_pos _)

theorem nextNumber_le {names : List Text} (h : SafeNumbers names) : nextNumber names ≤ 2 ^ 53 := by
  refine max_le ?_ h.count
  have hle : (names.map orderNumber).foldl max 0 ≤ 2 ^ 53 - 1 := by
    refine foldl_max_le_iff.mpr ⟨Nat.zero_le _, fun n hn => ?_⟩
    obtain ⟨name, hname, rfl⟩ := mem_map.mp hn
    exact Nat.le_sub_one_of_lt (h.number name hname)
  omega

/-! ## The plan on safe numbers -/

section Plan

variable {numbers : Numbers} {m : InsertionMap Text ScriptRef} (hsafe : SafeNumbers m.keys)

theorem scriptOrderIndex_eq {name : Text} (h : orderNumber name < 2 ^ 53) :
    scriptOrderIndex numbers name = orderNumber name := by
  unfold scriptOrderIndex
  unfold orderNumber at h ⊢
  cases hprefixed : orderPrefix? name with
  | none => rfl
  | some entry =>
    rw [hprefixed] at h
    exact numbers.round_of_le _ (le_of_lt h)

include hsafe

theorem scriptOrderIndex_of_mem {name : Text} (h : name ∈ objectKeys m) :
    scriptOrderIndex numbers name = orderNumber name :=
  scriptOrderIndex_eq (hsafe.number name ((objectKeys_perm m).mem_iff.mp h))

theorem newIndex_eq : newIndex numbers (objectKeys m) = nextNumber m.keys := by
  have hperm := objectKeys_perm m
  have hnumbers : (objectKeys m).map (scriptOrderIndex numbers) = (objectKeys m).map orderNumber :=
    map_congr_left fun name hname => scriptOrderIndex_of_mem hsafe hname
  have hfold : (objectKeys m).foldl
      (fun maxPrefix key => max maxPrefix (scriptOrderIndex numbers key)) 0 =
        (m.keys.map orderNumber).foldl max 0 := by
    rw [← foldl_max_perm (hperm.map orderNumber), ← hnumbers, foldl_map]
  have hle := nextNumber_le hsafe
  unfold newIndex
  dsimp only
  rw [hfold, numbers.round_of_le _ ((le_max_left _ _).trans hle), hperm.length_eq]
  rfl

theorem print_nextNumber : numbers.print (nextNumber m.keys) = decimal (nextNumber m.keys) :=
  numbers.print_of_le _ (nextNumber_le hsafe)

/-- The files that are repadded are those whose names are not settled. -/
theorem repadNames_eq (width : ℕ) : repadNames numbers width (objectKeys m) =
    InsertionMap.unsettled (settleName width) (objectKeys m) := by
  refine filterMap_congr fun name hname => ?_
  have hlt := hsafe.number name ((objectKeys_perm m).mem_iff.mp hname)
  dsimp only
  rw [scriptOrderIndex_of_mem hsafe hname, numbers.print_of_le _ hlt.le]
  rcases Nat.eq_zero_or_pos (orderNumber name) with hzero | hpos
  · rw [if_pos hzero, if_pos (settleName_of_zero hzero)]
  · rw [if_neg hpos.ne', settleName_of_pos hpos, ite_not]
    rfl

theorem newFileName_eq (base : Text) : (planScriptInsertion numbers m base).newFileName =
    formatScriptOrderPrefix (nextNumber m.keys) (nextNumber m.keys) ++
      uniqueScriptBase base (objectKeys m) [] ++ ".sql".toList := by
  have hone : max (nextNumber m.keys) 1 = nextNumber m.keys := max_eq_left (nextNumber_pos _)
  unfold planScriptInsertion
  dsimp only
  rw [newIndex_eq hsafe, hone, print_nextNumber hsafe, formatScriptOrderPrefix, hone]
  rfl

theorem repad_eq (base : Text) : (planScriptInsertion numbers m base).repad =
    InsertionMap.unsettled (settleName (decimal (nextNumber m.keys)).length) (objectKeys m) := by
  unfold planScriptInsertion
  dsimp only
  rw [newIndex_eq hsafe, print_nextNumber hsafe, repadNames_eq hsafe]

end Plan

/-! ## The renamed files -/

theorem pageScripts_applyScriptRepad (repad : List (Text × Text))
    (pageScripts : InsertionMap Text ScriptRef) (scripts : InsertionMap ℕ ScriptData)
    (focusFileName : Text) :
    (applyScriptRepad repad pageScripts scripts focusFileName).pageScripts =
      InsertionMap.renameKeys (fun newName entry => { entry with fileName := newName }) repad
        pageScripts := by
  unfold applyScriptRepad InsertionMap.renameKeys
  induction repad generalizing pageScripts scripts focusFileName with
  | nil => rfl
  | cons rename repad ih =>
    rw [foldl_cons, foldl_cons]
    have hstep : repadScript ⟨pageScripts, scripts, focusFileName⟩ rename =
        ⟨InsertionMap.renameKey (fun newName entry => { entry with fileName := newName })
            pageScripts rename,
          (repadScript ⟨pageScripts, scripts, focusFileName⟩ rename).scripts,
          (repadScript ⟨pageScripts, scripts, focusFileName⟩ rename).focusFileName⟩ := by
      unfold repadScript InsertionMap.renameKey
      cases hget : pageScripts.get? rename.1 <;> rfl
    rw [hstep]
    exact ih _ _ _

/-! ## The new name -/

section NewName

variable {base clean : Text} {names : List Text} {index : ℕ}

theorem stripExtension_sql (clean : Text) : stripExtension (clean ++ ".sql".toList) = clean := by
  have hlength : (clean ++ ".sql".toList).length - 4 = clean.length := by simp
  rw [stripExtension, hlength, drop_left, if_pos (by decide), take_left]

theorem newName_eq_padNumber : formatScriptOrderPrefix index index ++ clean ++ ".sql".toList =
    padNumber index (decimal (max index 1)).length ++ '_' :: (clean ++ ".sql".toList) := by
  rw [append_assoc, formatScriptOrderPrefix_append]

theorem displayName_newName :
    scriptDisplayName (formatScriptOrderPrefix index index ++ clean ++ ".sql".toList) = clean := by
  rw [scriptDisplayName, newName_eq_padNumber, normalizeScriptName_padNumber, stripExtension_sql]

theorem orderNumber_newName :
    orderNumber (formatScriptOrderPrefix index index ++ clean ++ ".sql".toList) = index := by
  rw [newName_eq_padNumber, orderNumber_padNumber]

theorem leadingNumber?_newName :
    leadingNumber? (formatScriptOrderPrefix index index ++ clean ++ ".sql".toList) = some index := by
  rw [newName_eq_padNumber, leadingNumber?_padNumber]

theorem arrayIndex?_newName :
    arrayIndex? (formatScriptOrderPrefix index index ++ clean ++ ".sql".toList) = none := by
  unfold arrayIndex?
  dsimp only
  refine if_neg fun h => ?_
  have hmem : '_' ∈ decimal (Nat.ofDigitChars 10
      (formatScriptOrderPrefix index index ++ clean ++ ".sql".toList) 0) := by
    rw [← h.1, newName_eq_padNumber]
    exact mem_append_right _ mem_cons_self
  exact absurd (Nat.isDigit_of_mem_toDigits (by decide) (by decide) hmem) (by decide)

theorem uniqueScriptBase_not_mem (base : Text) (names : List Text) :
    uniqueScriptBase base names [] ∉ (names.filter (· ≠ [])).map scriptDisplayName :=
  firstFree_not_mem (numbered_injective '-' base) 1

theorem uniqueScriptBase_of_not_mem
    (h : base ∉ (names.filter (· ≠ [])).map scriptDisplayName) :
    uniqueScriptBase base names [] = base :=
  firstFree_of_not_mem (show numbered '-' base 1 ∉ _ from h)

end NewName

/-- A new name goes to the end of the keys. -/
theorem objectKeys_set {α : Type} {m : InsertionMap Text α} {name : Text} (value : α)
    (hnew : name ∉ m.keys) (hindex : arrayIndex? name = none) :
    objectKeys (m.set name value) = objectKeys m ++ [name] := by
  have hfront : ([name].filter fun key => (arrayIndex? key).isSome) = [] := by simp [hindex]
  have hback : ([name].filter fun key => !(arrayIndex? key).isSome) = [name] := by simp [hindex]
  unfold objectKeys
  rw [InsertionMap.keys_set_of_not_mem hnew, filter_append, filter_append, hfront, hback,
    append_nil, append_assoc]

/-! ## The folder with the new script -/

section Folder

variable {numbers : Numbers} {page : ScriptFolder}

/-- The files of a folder under their settled names. -/
def settledScripts (m : InsertionMap Text ScriptRef) : InsertionMap Text ScriptRef :=
  InsertionMap.renameKeys (fun newName entry => { entry with fileName := newName })
    (InsertionMap.unsettled (settleName (decimal (nextNumber m.keys)).length) (objectKeys m)) m

/-- The settled name of a file of a folder. -/
abbrev settledName (m : InsertionMap Text ScriptRef) (name : Text) : Text :=
  settleName (decimal (nextNumber m.keys)).length name

theorem keys_settledScripts_subset (m : InsertionMap Text ScriptRef) :
    ∀ key ∈ (settledScripts m).keys, key ∈ m.keys.map (settledName m) :=
  InsertionMap.keys_settled_subset (objectKeys_perm m)

theorem orderNumber_lt_of_mem_settled {m : InsertionMap Text ScriptRef} {key : Text}
    (h : key ∈ m.keys.map (settledName m)) : orderNumber key < nextNumber m.keys := by
  obtain ⟨name, hname, rfl⟩ := mem_map.mp h
  rw [orderNumber_settleName]
  exact orderNumber_lt_nextNumber hname

variable (hsafe : SafeNumbers page.scripts.keys)

include hsafe

theorem newFileName_not_mem_settled (base : Text) :
    (planScriptInsertion numbers page.scripts base).newFileName ∉
      page.scripts.keys.map (settledName page.scripts) := by
  intro hmem
  have hlt := orderNumber_lt_of_mem_settled hmem
  rw [newFileName_eq hsafe, orderNumber_newName] at hlt
  exact absurd hlt (lt_irrefl _)

theorem newFileName_not_mem (base : Text) :
    (planScriptInsertion numbers page.scripts base).newFileName ∉
      (settledScripts page.scripts).keys :=
  fun hmem => newFileName_not_mem_settled hsafe base (keys_settledScripts_subset _ _ hmem)

variable (base : Text) (scriptKey : ℕ) (scripts : InsertionMap ℕ ScriptData) (focusFileName : Text)

theorem scripts_insertScript :
    (insertScript numbers page base scriptKey scripts focusFileName).scripts =
      (settledScripts page.scripts).set (planScriptInsertion numbers page.scripts base).newFileName
        ⟨some scriptKey, (planScriptInsertion numbers page.scripts base).newFileName⟩ := by
  unfold insertScript
  dsimp only
  rw [pageScripts_applyScriptRepad, repad_eq hsafe]
  rfl

theorem keys_insertScript :
    (insertScript numbers page base scriptKey scripts focusFileName).scripts.keys =
      (settledScripts page.scripts).keys ++
        [(planScriptInsertion numbers page.scripts base).newFileName] := by
  rw [scripts_insertScript hsafe, InsertionMap.keys_set_of_not_mem (newFileName_not_mem hsafe base)]

theorem last_insertScript_iff {localeCompare : Text → Text → ℤ}
    (hcompare : OrdersNumbers localeCompare) :
    (getSortedScriptFileNames localeCompare
        (insertScript numbers page base scriptKey scripts focusFileName)).getLast? =
        some (planScriptInsertion numbers page.scripts base).newFileName ↔
      ∀ key ∈ (settledScripts page.scripts).keys,
        localeCompare key (planScriptInsertion numbers page.scripts base).newFileName ≤ 0 := by
  have hnew : (planScriptInsertion numbers page.scripts base).newFileName ∉
      (settledScripts page.scripts).keys := newFileName_not_mem hsafe base
  have hindex : arrayIndex? (planScriptInsertion numbers page.scripts base).newFileName = none := by
    rw [newFileName_eq hsafe]
    exact arrayIndex?_newName
  have hperm := objectKeys_perm (settledScripts page.scripts)
  rw [getSortedScriptFileNames, scripts_insertScript hsafe, objectKeys_set _ hnew hindex,
    sortNumerically]
  constructor
  · intro hlast key hkey
    have : Std.Total fun a b => localeCompare a b ≤ 0 := ⟨hcompare.total⟩
    have : IsTrans Text fun a b => localeCompare a b ≤ 0 := ⟨hcompare.trans⟩
    have hmem := mem_append_left
      [(planScriptInsertion numbers page.scripts base).newFileName] (hperm.mem_iff.mpr hkey)
    refine (getLast_insertionSort hlast key hmem).resolve_left ?_
    rintro rfl
    exact hnew hkey
  · intro hle
    rw [insertionSort_concat fun key hkey => hle key (hperm.mem_iff.mp hkey), getLast?_concat]

end Folder

/-! ## No file is lost -/

section Distinct

variable {m : InsertionMap Text ScriptRef}
  (hdistinct : ∀ name ∈ m.keys, ∀ other ∈ m.keys, settledName m name = settledName m other →
    name = other)

include hdistinct

theorem scriptId_settledScripts {name : Text} (h : name ∈ m.keys) :
    ((settledScripts m).get? (settledName m name)).map ScriptRef.scriptId =
      (m.get? name).map ScriptRef.scriptId := by
  have hget : (settledScripts m).get? (settledName m name) = (m.get? name).map fun entry =>
      if settledName m name = name then entry else { entry with fileName := settledName m name } :=
    InsertionMap.get?_settled (objectKeys_perm m) (fun _ => settleName_settleName) hdistinct h
  rw [hget, Option.map_map]
  refine congrArg (fun f => (m.get? name).map f) (funext fun entry => ?_)
  rw [Function.comp_apply]
  split_ifs <;> rfl

theorem keys_settledScripts : (settledScripts m).keys.Perm (m.keys.map (settledName m)) := by
  refine (perm_ext_iff_of_nodup (settledScripts m).nodup_keys
    (m.nodup_keys.map_on hdistinct)).mpr fun key => ⟨keys_settledScripts_subset m key, ?_⟩
  intro hkey
  obtain ⟨name, hname, rfl⟩ := mem_map.mp hkey
  have hid := scriptId_settledScripts hdistinct hname
  obtain ⟨entry, hentry⟩ := InsertionMap.mem_keys_iff.mp hname
  rw [hentry, map_some, map_eq_some_iff] at hid
  obtain ⟨entry', hentry', -⟩ := hid
  exact InsertionMap.mem_keys_iff.mpr ⟨entry', hentry'⟩

end Distinct

/-! ## Last place -/

section Last

variable {numbers : Numbers} {page : ScriptFolder} {localeCompare : Text → Text → ℤ}
  (hsafe : SafeNumbers page.scripts.keys)

include hsafe

theorem TakesAtBottom.insertedLast (hcompare : OrdersNumbers localeCompare)
    (h : TakesAtBottom localeCompare page.scripts.keys) (base : Text) (scriptKey : ℕ)
    (scripts : InsertionMap ℕ ScriptData) (focusFileName : Text) :
    InsertedLast localeCompare page (insertScript numbers page base scriptKey scripts focusFileName)
      (planScriptInsertion numbers page.scripts base).newFileName scriptKey := by
  have hdistinct : ∀ name ∈ page.scripts.keys, ∀ other ∈ page.scripts.keys,
      settledName page.scripts name = settledName page.scripts other → name = other :=
    settleName_injective_iff.mpr h.distinct
  have hkeys := keys_settledScripts hdistinct
  have hnew : (planScriptInsertion numbers page.scripts base).newFileName ∉
      page.scripts.keys.map (settledName page.scripts) := newFileName_not_mem_settled hsafe base
  -- the clean name is none of the display names
  have hfree : uniqueScriptBase base (objectKeys page.scripts) [] ∉
      page.scripts.keys.map scriptDisplayName := by
    intro hmem
    obtain ⟨name, hname, heq⟩ := mem_map.mp hmem
    have htaken : ∃ other ∈ page.scripts.keys, other ≠ [] ∧
        scriptDisplayName other = uniqueScriptBase base (objectKeys page.scripts) [] := by
      by_cases hnil : name = []
      · obtain ⟨other, hother, hne, hdisplay⟩ := h.named (hnil ▸ hname)
        refine ⟨other, hother, hne, ?_⟩
        rw [hdisplay, ← heq, hnil]
        rfl
      · exact ⟨name, hname, hnil, heq⟩
    obtain ⟨other, hother, hne, hdisplay⟩ := htaken
    refine uniqueScriptBase_not_mem base (objectKeys page.scripts) ?_
    rw [← hdisplay]
    refine mem_map_of_mem (mem_filter.mpr ⟨?_, by simpa using hne⟩)
    exact (objectKeys_perm page.scripts).mem_iff.mpr hother
  refine ⟨⟨settledName page.scripts, ?_, fun name hname => ⟨?_, ?_, ?_, ?_⟩⟩, ?_, ?_⟩
  · rw [keys_insertScript hsafe]
    exact (perm_append_singleton _ _).trans (hkeys.cons _)
  · have hne : settledName page.scripts name ≠
        (planScriptInsertion numbers page.scripts base).newFileName :=
      fun heq => hnew (heq ▸ mem_map_of_mem hname)
    rw [scripts_insertScript hsafe, InsertionMap.get?_set_of_ne hne]
    exact scriptId_settledScripts hdistinct hname
  · exact orderNumber_settleName
  · exact normalizeScriptName_settleName
  · rw [newFileName_eq hsafe, displayName_newName, scriptDisplayName,
      normalizeScriptName_settleName]
    exact fun heq => hfree (heq ▸ mem_map_of_mem hname)
  · rw [scripts_insertScript hsafe, InsertionMap.get?_set_self]
    rfl
  · rw [last_insertScript_iff hsafe _ _ _ _ hcompare]
    intro key hkey
    obtain ⟨name, hname, rfl⟩ := mem_map.mp (keys_settledScripts_subset _ key hkey)
    cases hprefixed : orderPrefix? (settledName page.scripts name) with
    | some entry =>
      have hlt := orderNumber_lt_of_mem_settled (mem_map_of_mem hname)
      refine (hcompare.numbers _ _ _ _ (leadingNumber?_of_orderPrefix hprefixed) ?_ hlt).1.le
      rw [newFileName_eq hsafe, leadingNumber?_newName]
    | none =>
      -- a file without a prefix kept its name
      have hsettled : settledName page.scripts name = name := by
        have hzero : orderNumber name = 0 := by
          calc orderNumber name
              = orderNumber (settledName page.scripts name) := orderNumber_settleName.symm
            _ = 0 := by rw [orderNumber, hprefixed]
        exact settleName_of_zero hzero
      rw [hsettled] at hprefixed ⊢
      rw [newFileName_eq hsafe]
      exact h.unnumbered name hname hprefixed _ hfree

section Converse

variable {scriptKey : ℕ} {scripts : InsertionMap ℕ ScriptData} {focusFileName : Text}
  (h : ∀ base, InsertedLast localeCompare page
    (insertScript numbers page base scriptKey scripts focusFileName)
    (planScriptInsertion numbers page.scripts base).newFileName scriptKey)

include h

/-- A folder in which every file is found afterwards had no two files that are settled alike. -/
theorem distinct_of_insertedLast : ∀ name ∈ page.scripts.keys, ∀ other ∈ page.scripts.keys,
    settledName page.scripts name = settledName page.scripts other → name = other := by
  obtain ⟨rename, hperm, -⟩ := (h []).kept
  have hlength := hperm.length_eq
  rw [keys_insertScript hsafe, length_append, length_singleton, length_cons, length_map] at hlength
  have hsub := subperm_of_subset (settledScripts page.scripts).nodup_keys
    (keys_settledScripts_subset page.scripts)
  have hkeys := hsub.perm_of_length_le (by rw [length_map]; omega)
  have hnodup := hkeys.nodup_iff.mp (settledScripts page.scripts).nodup_keys
  intro name hname other hother heq
  exact inj_on_of_nodup_map hnodup hname hother heq

/-- A file without a name would have the display name of a new script that is requested without
one. -/
theorem named_of_insertedLast (hnil : [] ∈ page.scripts.keys) :
    ∃ other ∈ page.scripts.keys, other ≠ [] ∧ scriptDisplayName other = [] := by
  by_contra hnone
  have hbase : uniqueScriptBase [] (objectKeys page.scripts) [] = [] := by
    refine uniqueScriptBase_of_not_mem fun hmem => hnone ?_
    obtain ⟨other, hother, hdisplay⟩ := mem_map.mp hmem
    obtain ⟨hother, hne⟩ := mem_filter.mp hother
    exact ⟨other, (objectKeys_perm page.scripts).mem_iff.mp hother, by simpa using hne, hdisplay⟩
  obtain ⟨rename, -, hkept⟩ := (h []).kept
  obtain ⟨-, -, hclean, hdisplay⟩ := hkept [] hnil
  refine hdisplay ?_
  rw [newFileName_eq hsafe, displayName_newName, hbase, scriptDisplayName, hclean]
  rfl

theorem unnumbered_of_insertedLast (hcompare : OrdersNumbers localeCompare) {name clean : Text}
    (hname : name ∈ page.scripts.keys) (hprefixed : orderPrefix? name = none)
    (hclean : clean ∉ page.scripts.keys.map scriptDisplayName) :
    localeCompare name
      (formatScriptOrderPrefix (nextNumber page.scripts.keys) (nextNumber page.scripts.keys) ++
        clean ++ ".sql".toList) ≤ 0 := by
  have hbase : uniqueScriptBase clean (objectKeys page.scripts) [] = clean := by
    refine uniqueScriptBase_of_not_mem fun hmem => hclean ?_
    obtain ⟨other, hother, hdisplay⟩ := mem_map.mp hmem
    rw [← hdisplay]
    exact mem_map_of_mem ((objectKeys_perm page.scripts).mem_iff.mp (mem_of_mem_filter hother))
  have hlast := (last_insertScript_iff hsafe _ _ _ _ hcompare).mp (h clean).last
  rw [newFileName_eq hsafe, hbase] at hlast
  refine hlast name ((keys_settledScripts (distinct_of_insertedLast hsafe h)).mem_iff.mpr ?_)
  exact mem_map.mpr ⟨name, hname, settleName_of_none hprefixed⟩

end Converse

/-- Every insertion does what it is for if and only if the folder takes new scripts at its
bottom. -/
theorem insertedLast_iff (hcompare : OrdersNumbers localeCompare) (scriptKey : ℕ)
    (scripts : InsertionMap ℕ ScriptData) (focusFileName : Text) :
    (∀ base, InsertedLast localeCompare page
      (insertScript numbers page base scriptKey scripts focusFileName)
      (planScriptInsertion numbers page.scripts base).newFileName scriptKey) ↔
      TakesAtBottom localeCompare page.scripts.keys := by
  constructor
  · intro h
    exact
      { distinct := settleName_injective_iff.mp (distinct_of_insertedLast hsafe h)
        named := named_of_insertedLast hsafe h
        unnumbered := fun name hname hprefixed clean hclean =>
          unnumbered_of_insertedLast hsafe h hcompare hname hprefixed hclean }
  · intro h base
    exact h.insertedLast hsafe hcompare base scriptKey scripts focusFileName

end Last

/-! ## Two folders -/

theorem ordersNumbers_numericCompare : OrdersNumbers numericCompare where
  numbers := comparesNumbers_numericCompare
  total a b := by
    rw [← not_lt, ← not_lt, numericCompare_pos_iff, numericCompare_pos_iff]
    exact not_and_or.mp fun h => lt_asymm h.1 h.2
  trans a b c hab hbc := by
    rw [← not_lt, numericCompare_pos_iff, not_lt] at hab hbc ⊢
    exact hab.trans hbc

def folderOf (names : List Text) : ScriptFolder where
  folderName := "main".toList
  scripts := names.zipIdx.foldl (fun m entry => m.set entry.1 ⟨some (entry.2 + 1), entry.1⟩) .empty

def insertedX (names : List Text) : ScriptFolder :=
  insertScript .exact (folderOf names) "x".toList 7 .empty []

def fileNameX (names : List Text) : Text :=
  (planScriptInsertion .exact (folderOf names).scripts "x".toList).newFileName

theorem insertedLast_numbered :
    InsertedLast numericCompare (folderOf ["1_a.sql".toList, "2-b.sql".toList])
      (insertedX ["1_a.sql".toList, "2-b.sql".toList])
      (fileNameX ["1_a.sql".toList, "2-b.sql".toList]) 7 := by
  have hsafe : SafeNumbers (folderOf ["1_a.sql".toList, "2-b.sql".toList]).scripts.keys :=
    ⟨by decide +kernel, by decide +kernel⟩
  refine (insertedLast_iff hsafe ordersNumbers_numericCompare 7 .empty []).mpr
    ⟨by decide +kernel, by decide +kernel, fun name hname hprefixed => ?_⟩ "x".toList
  have hnumbers : ∀ name ∈ (folderOf ["1_a.sql".toList, "2-b.sql".toList]).scripts.keys,
      orderPrefix? name ≠ none := by decide +kernel
  exact absurd hprefixed (hnumbers name hname)

/-- The new script `2_x.sql` comes before `notes.sql`, and when `01_a.sql` gets the name `1_a.sql`,
the script that had it is lost. -/
theorem not_insertedLast :
    ¬ InsertedLast numericCompare (folderOf ["notes.sql".toList]) (insertedX ["notes.sql".toList])
        (fileNameX ["notes.sql".toList]) 7 ∧
      ¬ InsertedLast numericCompare (folderOf ["1_a.sql".toList, "01_a.sql".toList])
        (insertedX ["1_a.sql".toList, "01_a.sql".toList])
        (fileNameX ["1_a.sql".toList, "01_a.sql".toList]) 7 := by
  constructor
  · intro h
    have hlast : (getSortedScriptFileNames numericCompare
        (insertedX ["notes.sql".toList])).getLast? = some "notes.sql".toList := by decide +kernel
    have hname : fileNameX ["notes.sql".toList] = "2_x.sql".toList := by decide +kernel
    have heq := some.inj (hlast.symm.trans (h.last.trans (congrArg some hname)))
    exact absurd heq (by decide)
  · intro h
    obtain ⟨rename, hperm, -⟩ := h.kept
    have hlength := hperm.length_eq
    rw [length_cons, length_map] at hlength
    revert hlength
    decide +kernel

end DashQL.Scripts
