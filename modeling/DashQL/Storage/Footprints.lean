import DashQL.Library.Replay
import DashQL.Storage.Backend

/-!
# The files a task touches

A task touches the files in `touches` and no others, so tasks that touch
different files commute, and a task that writes every file another one touches
makes that one irrelevant.  `conflicts` and `supersedes` decide this from the
areas of the tasks: single files, whole folders and drafts.
-/

namespace DashQL.Storage

open Function List

/-- The files that a task may change, and that decide how. -/
def touches : ScriptTask → Set Location
  | .writeScript n f x _ | .deleteScript n f x => {.script n f x}
  | .writeScriptDraft n _ => {.draft n}
  | .createScriptFolder n f scripts => {l | ∃ s ∈ scripts, l = .script n f s.1}
  | .deleteScriptFolder n f => Set.range (.script n f)
  | .renameScriptFolder n a b =>
    if a = b then ∅ else Set.range (.script n a) ∪ Set.range (.script n b)
  | .renameScript n f x y => if x = y then ∅ else {.script n f x, .script n f y}

/-- The files that a task gives a content of its own, whatever they were. -/
def overwrites : ScriptTask → Set Location
  | .renameScriptFolder .. | .renameScript .. => ∅
  | task => touches task

theorem localTo_update (l : Location) (content : Option Text) :
    LocalTo {l} fun files : Files => Function.update files l content := by
  refine ⟨?_, ?_⟩
  · intro files i hi
    exact update_of_ne hi _ _
  · intro files files' _ i hi
    obtain rfl := Set.mem_singleton_iff.mp hi
    simp

theorem localTo_dropFolder (n f : Text) : LocalTo (Set.range (.script n f)) (dropFolder n f) := by
  refine ⟨?_, ?_⟩
  · intro files l hl
    cases l with
    | script n' f' x' =>
      simp only [dropFolder]
      rw [if_neg]
      rintro ⟨rfl, rfl⟩
      exact hl ⟨x', rfl⟩
    | draft n' => rfl
  · rintro files files' - _ ⟨x, rfl⟩
    simp [dropFolder]

theorem saveFiles_apply (n f : Text) (scripts : List (Text × Text)) (files : Files) (l : Location) :
    (¬ (∃ s ∈ scripts, l = .script n f s.1) → saveFiles n f scripts files l = files l) ∧
    ∀ files' : Files, (∃ s ∈ scripts, l = .script n f s.1) →
      saveFiles n f scripts files l = saveFiles n f scripts files' l := by
  induction scripts generalizing files with
  | nil => simp [saveFiles]
  | cons script scripts ih =>
    obtain ⟨hframe, hwrite⟩ := ih (Function.update files (.script n f script.1) (some script.2))
    have hcons : ∀ files : Files, saveFiles n f (script :: scripts) files =
        saveFiles n f scripts (Function.update files (.script n f script.1) (some script.2)) :=
      fun _ => rfl
    constructor
    · intro hl
      rw [hcons, hframe, update_of_ne]
      · rintro rfl
        exact hl ⟨script, by simp, rfl⟩
      · rintro ⟨s, hs, heq⟩
        exact hl ⟨s, mem_cons_of_mem _ hs, heq⟩
    · intro files' hl
      rw [hcons, hcons]
      by_cases hrest : ∃ s ∈ scripts, l = .script n f s.1
      · exact hwrite _ hrest
      · -- only the first script writes the file
        have hhead : l = .script n f script.1 := by
          obtain ⟨s, hs, heq⟩ := hl
          rcases mem_cons.mp hs with rfl | hs
          · exact heq
          · exact absurd ⟨s, hs, heq⟩ hrest
        rw [hframe hrest, (ih _).1 hrest, hhead]
        simp

theorem localTo_moveFolder (n a b : Text) (hab : a ≠ b) :
    LocalTo (Set.range (.script n a) ∪ Set.range (.script n b))
      (effect (.renameScriptFolder n a b)) := by
  have hmem : ∀ x, Location.script n b x ∈ Set.range (Location.script n a) ∪
      Set.range (Location.script n b) := fun x => .inr ⟨x, rfl⟩
  refine ⟨?_, ?_⟩
  · intro files l hl
    simp only [effect]
    split_ifs
    · rfl
    · cases l with
      | script n' f' x' =>
        simp only [moveFolder]
        rw [if_neg, if_neg]
        · rintro ⟨rfl, rfl⟩
          exact hl (.inl ⟨x', rfl⟩)
        · rintro ⟨rfl, rfl⟩
          exact hl (.inr ⟨x', rfl⟩)
      | draft n' => rfl
  · intro files files' hsame l hl
    have hoccupied : Occupied files n b ↔ Occupied files' n b := by
      unfold Occupied
      simp only [hsame (hmem _)]
    simp only [effect]
    by_cases hocc : Occupied files n b
    · rw [if_pos (.inr hocc), if_pos (.inr (hoccupied.mp hocc))]
      exact hsame hl
    · rw [if_neg (by simp [hab, hocc]), if_neg (by simp [hab, ← hoccupied, hocc])]
      rcases hl with ⟨x, rfl⟩ | ⟨x, rfl⟩
      · simp [moveFolder, hab]
      · simp only [moveFolder, and_self, if_true]
        exact hsame (.inl ⟨x, rfl⟩)

theorem localTo_renameScript (n f x y : Text) (hxy : x ≠ y) :
    LocalTo {.script n f x, .script n f y} (effect (.renameScript n f x y)) := by
  refine ⟨?_, ?_⟩
  · intro files l hl
    simp only [Set.mem_insert_iff, Set.mem_singleton_iff, not_or] at hl
    simp only [effect]
    split_ifs
    · rfl
    · rw [update_of_ne hl.2, update_of_ne hl.1]
  · intro files files' hsame l hl
    have hx : files (.script n f x) = files' (.script n f x) := hsame (by simp)
    simp only [effect, hxy, false_or, hx]
    split_ifs
    · exact hsame hl
    · rcases hl with rfl | rfl
      · have hne : Location.script n f x ≠ .script n f y := by simpa using hxy
        simp [update_of_ne hne]
      · simp

/-- What a task does is confined to the files it touches. -/
theorem localTo_effect (task : ScriptTask) : LocalTo (touches task) (effect task) := by
  cases task with
  | writeScript n f x sql => exact localTo_update _ _
  | writeScriptDraft n sql => exact localTo_update _ _
  | createScriptFolder n f scripts =>
    refine ⟨fun files l hl => (saveFiles_apply n f scripts files l).1 hl, ?_⟩
    intro files files' _ l hl
    exact (saveFiles_apply n f scripts files l).2 files' hl
  | deleteScriptFolder n f => exact localTo_dropFolder n f
  | renameScriptFolder n a b =>
    by_cases hab : a = b
    · refine ⟨fun files l _ => by simp [effect, hab], fun files files' _ l hl => ?_⟩
      simp [touches, hab] at hl
    · rw [touches, if_neg hab]
      exact localTo_moveFolder n a b hab
  | deleteScript n f x => exact localTo_update _ _
  | renameScript n f x y =>
    by_cases hxy : x = y
    · refine ⟨fun files l _ => by simp [effect, hxy], fun files files' _ l hl => ?_⟩
      simp [touches, hxy] at hl
    · rw [touches, if_neg hxy]
      exact localTo_renameScript n f x y hxy

/-- Tasks other than renames write what they touch without reading it. -/
theorem eqOn_overwrites (task : ScriptTask) (files files' : Files) :
    Set.EqOn (effect task files) (effect task files') (overwrites task) := by
  intro l hl
  cases task with
  | writeScript n f x sql =>
    obtain rfl := Set.mem_singleton_iff.mp hl
    simp [effect]
  | writeScriptDraft n sql =>
    obtain rfl := Set.mem_singleton_iff.mp hl
    simp [effect]
  | createScriptFolder n f scripts => exact (saveFiles_apply n f scripts files l).2 files' hl
  | deleteScriptFolder n f =>
    obtain ⟨x, rfl⟩ := hl
    simp [effect, dropFolder]
  | deleteScript n f x =>
    obtain rfl := Set.mem_singleton_iff.mp hl
    simp [effect]
  | renameScriptFolder n a b => exact absurd hl (Set.notMem_empty l)
  | renameScript n f x y => exact absurd hl (Set.notMem_empty l)

/-- A repeated rename of a folder finds nothing to move. -/
theorem absorbs_renameScriptFolder (n a b : Text) :
    Absorbs (effect (.renameScriptFolder n a b)) (effect (.renameScriptFolder n a b)) := by
  intro files
  by_cases hskip : a = b ∨ Occupied files n b
  · have hsame : effect (.renameScriptFolder n a b) files = files := by simp [effect, hskip]
    rw [hsame, hsame]
  have hmoved : effect (.renameScriptFolder n a b) files = moveFolder n a b files := by
    simp [effect, hskip]
  rw [hmoved]
  simp only [effect]
  split_ifs with hagain
  · rfl
  · -- the folder had no files
    rw [not_or] at hagain hskip
    have hfree : ∀ x, moveFolder n a b files (.script n b x) = none := by
      intro x
      by_contra hne
      exact hagain.2 ⟨x, hne⟩
    funext l
    cases l with
    | script n' f' x' =>
      by_cases hnew : n' = n ∧ f' = b
      · obtain ⟨rfl, rfl⟩ := hnew
        rw [hfree]
        simp [moveFolder, hagain.1]
      · by_cases hold : n' = n ∧ f' = a
        · obtain ⟨rfl, rfl⟩ := hold
          simp [moveFolder, hagain.1]
        · simp only [moveFolder, hnew, hold, if_false]
    | draft n' => rfl

theorem absorbs_renameScript (n f x y : Text) :
    Absorbs (effect (.renameScript n f x y)) (effect (.renameScript n f x y)) := by
  intro files
  by_cases hskip : x = y ∨ files (.script n f x) = none
  · have hsame : effect (.renameScript n f x y) files = files := by simp [effect, hskip]
    rw [hsame, hsame]
  · rw [not_or] at hskip
    have hne : Location.script n f x ≠ .script n f y := by simpa using hskip.1
    have hgone : effect (.renameScript n f x y) files (.script n f x) = none := by
      simp [effect, hskip]
    have hsame : ∀ files' : Files, files' (.script n f x) = none →
        effect (.renameScript n f x y) files' = files' := by
      intro files' hnone
      simp [effect, hnone]
    exact hsame _ hgone

/-! ## Areas -/

/-- A file, all files of a folder, or a draft. -/
inductive Area
  | file (notebookId folderName fileName : Text)
  | folder (notebookId folderName : Text)
  | draft (notebookId : Text)
  deriving DecidableEq

/-- Whether a file lies in an area. -/
def Area.contains : Area → Location → Bool
  | .file n f x, .script n' f' x' => n' = n ∧ f' = f ∧ x' = x
  | .folder n f, .script n' f' _ => n' = n ∧ f' = f
  | .draft n, .draft n' => n' = n
  | _, _ => false

/-- Whether two areas have a file in common. -/
def Area.overlaps : Area → Area → Bool
  | .file n f x, .file n' f' x' => n = n' ∧ f = f' ∧ x = x'
  | .file n f _, .folder n' f' | .folder n f, .file n' f' _ | .folder n f, .folder n' f' =>
    n = n' ∧ f = f'
  | .draft n, .draft n' => n = n'
  | _, _ => false

/-- Whether an area has all files of another one. -/
def Area.covers : Area → Area → Bool
  | .file n f x, .file n' f' x' => n = n' ∧ f = f' ∧ x = x'
  | .folder n f, .file n' f' _ | .folder n f, .folder n' f' => n = n' ∧ f = f'
  | .draft n, .draft n' => n = n'
  | _, _ => false

def ScriptTask.areas : ScriptTask → List Area
  | .writeScript n f x _ | .deleteScript n f x => [.file n f x]
  | .writeScriptDraft n _ => [.draft n]
  | .createScriptFolder n f scripts => scripts.map fun s => .file n f s.1
  | .deleteScriptFolder n f => [.folder n f]
  | .renameScriptFolder n a b => if a = b then [] else [.folder n a, .folder n b]
  | .renameScript n f x y => if x = y then [] else [.file n f x, .file n f y]

/-- The areas that a task gives contents of its own. -/
def ScriptTask.written : ScriptTask → List Area
  | .renameScriptFolder .. | .renameScript .. => []
  | task => task.areas

/-- Two tasks that touch a common file. -/
def conflicts (task other : ScriptTask) : Bool :=
  task.areas.any fun a => other.areas.any fun b => a.overlaps b

/-- A task that makes an older one irrelevant: it repeats it, or it writes all files
that the older one touches. -/
def supersedes (new old : ScriptTask) : Bool :=
  new = old || old.areas.all fun a => new.written.any fun b => b.covers a

theorem Area.overlaps_of_contains {a b : Area} {l : Location} (ha : a.contains l = true)
    (hb : b.contains l = true) : a.overlaps b = true := by
  cases a <;> cases b <;> cases l <;> simp_all [contains, overlaps]

theorem Area.contains_of_covers {a b : Area} {l : Location} (h : b.covers a = true)
    (ha : a.contains l = true) : b.contains l = true := by
  cases a <;> cases b <;> cases l <;> simp_all [contains, covers]

theorem contains_file_iff {n f x : Text} {l : Location} :
    (Area.file n f x).contains l = true ↔ l = .script n f x := by
  cases l <;> simp [Area.contains]

theorem contains_folder_iff {n f : Text} {l : Location} :
    (Area.folder n f).contains l = true ↔ l ∈ Set.range (Location.script n f) := by
  cases l with
  | script n' f' x' =>
    simp only [Area.contains, decide_eq_true_eq, Set.mem_range, Location.script.injEq]
    constructor
    · rintro ⟨rfl, rfl⟩
      exact ⟨x', rfl, rfl, rfl⟩
    · rintro ⟨x, rfl, rfl, -⟩
      exact ⟨rfl, rfl⟩
  | draft n' => simp [Area.contains]

theorem contains_draft_iff {n : Text} {l : Location} :
    (Area.draft n).contains l = true ↔ l = .draft n := by
  cases l <;> simp [Area.contains]

theorem mem_touches_iff {task : ScriptTask} {l : Location} :
    l ∈ touches task ↔ ∃ a ∈ task.areas, a.contains l = true := by
  cases task with
  | writeScript n f x sql => simp [touches, ScriptTask.areas, contains_file_iff]
  | writeScriptDraft n sql => simp [touches, ScriptTask.areas, contains_draft_iff]
  | createScriptFolder n f scripts => simp [touches, ScriptTask.areas, contains_file_iff]
  | deleteScriptFolder n f =>
    simp only [touches, ScriptTask.areas, mem_singleton, exists_eq_left, contains_folder_iff]
  | renameScriptFolder n a b =>
    by_cases hab : a = b
    · simp [touches, ScriptTask.areas, hab]
    · simp only [touches, ScriptTask.areas, hab, if_false, Set.mem_union, mem_cons,
        not_mem_nil, or_false, exists_eq_or_imp, exists_eq_left, contains_folder_iff]
  | deleteScript n f x => simp [touches, ScriptTask.areas, contains_file_iff]
  | renameScript n f x y =>
    by_cases hxy : x = y
    · simp [touches, ScriptTask.areas, hxy]
    · simp [touches, ScriptTask.areas, hxy, contains_file_iff]

theorem mem_overwrites_iff {task : ScriptTask} {l : Location} :
    l ∈ overwrites task ↔ ∃ a ∈ task.written, a.contains l = true := by
  cases task with
  | renameScriptFolder n a b => simp [overwrites, ScriptTask.written]
  | renameScript n f x y => simp [overwrites, ScriptTask.written]
  | writeScript n f x sql => exact @mem_touches_iff (.writeScript n f x sql) l
  | writeScriptDraft n sql => exact @mem_touches_iff (.writeScriptDraft n sql) l
  | createScriptFolder n f scripts => exact @mem_touches_iff (.createScriptFolder n f scripts) l
  | deleteScriptFolder n f => exact @mem_touches_iff (.deleteScriptFolder n f) l
  | deleteScript n f x => exact @mem_touches_iff (.deleteScript n f x) l

/-- Tasks without a common file may be done in any order. -/
theorem commute_of_not_conflicts {task other : ScriptTask} (h : conflicts task other = false) :
    Function.Commute (effect task) (effect other) := by
  apply (localTo_effect task).commute (localTo_effect other)
  rw [Set.disjoint_left]
  intro l hl hl'
  obtain ⟨a, ha, hal⟩ := mem_touches_iff.mp hl
  obtain ⟨b, hb, hbl⟩ := mem_touches_iff.mp hl'
  have hconflict : conflicts task other = true := by
    rw [conflicts, any_eq_true]
    exact ⟨a, ha, any_eq_true.mpr ⟨b, hb, Area.overlaps_of_contains hal hbl⟩⟩
  simp [h] at hconflict

/-- A task that supersedes an older one may stand alone. -/
theorem absorbs_of_supersedes {new old : ScriptTask} (h : supersedes new old = true) :
    Absorbs (effect new) (effect old) := by
  have hoverwrites : overwrites new = touches new → touches old ⊆ overwrites new →
      Absorbs (effect new) (effect old) := by
    intro heq hsub
    refine (localTo_effect new).absorbs (localTo_effect old) (heq ▸ hsub) ?_
    intro files files'
    rw [← heq]
    exact eqOn_overwrites new files files'
  have hnothing : touches old ⊆ ∅ → Absorbs (effect new) (effect old) := by
    intro hsub files
    have hsame : effect old files = files := by
      funext l
      exact (localTo_effect old).frame files l fun hl => hsub hl
    rw [hsame]
  rw [supersedes, Bool.or_eq_true, decide_eq_true_eq, all_eq_true] at h
  rcases h with rfl | hwritten
  · cases new with
    | renameScriptFolder n a b => exact absorbs_renameScriptFolder n a b
    | renameScript n f x y => exact absorbs_renameScript n f x y
    | _ => exact hoverwrites rfl (le_refl _)
  · have hsub : touches old ⊆ overwrites new := by
      intro l hl
      obtain ⟨a, ha, hal⟩ := mem_touches_iff.mp hl
      obtain ⟨b, hb, hcovers⟩ := any_eq_true.mp (hwritten a ha)
      exact mem_overwrites_iff.mpr ⟨b, hb, Area.contains_of_covers hcovers hal⟩
    cases new with
    | renameScriptFolder n a b => exact hnothing hsub
    | renameScript n f x y => exact hnothing hsub
    | _ => exact hoverwrites rfl hsub

end DashQL.Storage
