import DashQL.Storage.Archives

/-!
# The entries of a notebook archive

What `createNotebookZip` writes, and what `importScriptsFromZip` makes of it.  The
entries are listed once (`archiveEntries`), an archive holds exactly these
(`holds_notebookArchive`), and the tests on paths find every folder and every script of
it again (`mem_importedFolders`, `mem_scriptsInFolder`).
-/

namespace DashQL.Storage

open List Option

open Paths

variable {R Z B : Type} {zip : JSZip Z B} {z : Z} {json : ManifestJson R}
  {data : StoredManifest R} {folders : List (Text × List (Text × Text))} {draftSql : Option Text}
  {listed : List (Text × ZipEntry)} {name path folderName : Text} {e : ZipEntry}

/-! ## Paths of the scripts folder -/

theorem slash_not_mem_scriptsFolder : '/' ∉ scriptsFolder := by decide

theorem slash_not_mem_scriptDraft : '/' ∉ scriptDraft := by decide

theorem isName_scriptDraft : IsName scriptDraft := ⟨by decide, slash_not_mem_scriptDraft⟩

theorem scriptsPath_inj {name' : Text} : scriptsPath name = scriptsPath name' ↔ name = name' := by
  unfold scriptsPath
  rw [append_cancel_left_eq, cons_inj_right]

theorem scriptsPath_append (name rest : Text) :
    scriptsPath name ++ rest = scriptsPath (name ++ rest) :=
  append_assoc _ _ _

theorem scriptsPath_ne_notebookFile (name : Text) : scriptsPath name ≠ notebookFile := by
  intro h
  have hhead : (scriptsPath name).head? = some 's' := rfl
  have hother : notebookFile.head? = some 'd' := rfl
  rw [h, hother] at hhead
  exact absurd hhead (by decide)

theorem scriptsPath_ne_nil (name : Text) : scriptsPath name ≠ [] := by
  intro h
  exact absurd (congrArg List.head? h) (some_ne_none 's')

/-- A path does not end in a separator if its last component is a name. -/
theorem getLast?_of_isName (front : Text) (hname : IsName name) :
    (front ++ '/' :: name).getLast? ≠ some '/' := by
  obtain ⟨c, hc⟩ := ne_none_iff_exists'.mp (mt getLast?_eq_none_iff.mp hname.1)
  have hlast : (front ++ '/' :: name).getLast? = some c := by
    rw [getLast?_append, getLast?_cons, hc]
    rfl
  rw [hlast]
  intro heq
  obtain rfl := some.inj heq
  exact hname.2 (mem_of_getLast? hc)

/-! ## Adding entries -/

/-- An archive with exactly the listed entries. -/
def Holds (zip : JSZip Z B) (listed : List (Text × ZipEntry)) (z : Z) : Prop :=
  ∀ path e, zip.entry? path z = some e ↔ (path, e) ∈ listed

theorem Holds.add {z' : Z} (h : Holds zip listed z) (hnew : path ∉ listed.map Prod.fst)
    (hadd : ∀ probe, zip.entry? probe z' = if probe = path then some e else zip.entry? probe z) :
    Holds zip (listed ++ [(path, e)]) z' := by
  intro probe e'
  rw [hadd, mem_append, mem_singleton, ← h probe e', Prod.mk.injEq]
  by_cases hprobe : probe = path
  · have hfree : zip.entry? probe z ≠ some e' := by
      intro hentry
      exact hnew (hprobe ▸ List.mem_map_of_mem ((h probe e').mp hentry))
    rw [if_pos hprobe, some_inj]
    exact ⟨fun heq => .inr ⟨hprobe, heq.symm⟩, fun hor => (hor.resolve_left hfree).2.symm⟩
  · rw [if_neg hprobe]
    exact ⟨.inl, fun hor => hor.resolve_right fun heq => hprobe heq.1⟩

theorem Holds.hasParents (h : Holds zip listed z)
    (hparents : ∀ front back, path = front ++ '/' :: back → (front ++ ['/'], .dir) ∈ listed) :
    zip.HasParents path z :=
  fun front back hpath => (h _ _).mpr (hparents front back hpath)

theorem parent_of_name (hname : IsName name) (hroot : (scriptsPath [], .dir) ∈ listed) :
    ∀ front back, scriptsPath name = front ++ '/' :: back → (front ++ ['/'], .dir) ∈ listed := by
  intro front back hpath
  rcases cut_cases slash_not_mem_scriptsFolder hpath with ⟨rfl, -⟩ | ⟨middle, -, hcut⟩
  · exact hroot
  · exact absurd hcut (ne_cut hname.2)

theorem parents_of_script (hfolderName : IsName folderName) (hname : IsName name)
    (hroot : (scriptsPath [], .dir) ∈ listed)
    (hfolder : (scriptsPath (folderName ++ ['/']), .dir) ∈ listed) :
    ∀ front back, scriptsPath (folderName ++ '/' :: name) = front ++ '/' :: back →
      (front ++ ['/'], .dir) ∈ listed := by
  intro front back hpath
  rcases cut_cases slash_not_mem_scriptsFolder hpath with ⟨rfl, -⟩ | ⟨middle, hfront, hcut⟩
  · exact hroot
  · rcases cut_cases hfolderName.2 hcut with ⟨rfl, -⟩ | ⟨_, -, hdeeper⟩
    · rw [hfront]
      exact (scriptsPath_append middle ['/']) ▸ hfolder
    · exact absurd hdeeper (ne_cut hname.2)

def folderEntries (folder : Text × List (Text × Text)) : List (Text × ZipEntry) :=
  (scriptsPath (folder.1 ++ ['/']), .dir) ::
    folder.2.map fun script => (scriptsPath (folder.1 ++ '/' :: script.1), .file script.2)

def draftEntries : Option Text → List (Text × ZipEntry)
  | some (c :: sql) => [(scriptsPath scriptDraft, .file (c :: sql))]
  | _ => []

def archiveEntries (json : ManifestJson R) (data : StoredManifest R)
    (folders : List (Text × List (Text × Text))) (draftSql : Option Text) :
    List (Text × ZipEntry) :=
  (notebookFile, .file (json.stringify data)) :: (scriptsPath [], .dir) ::
    folders.flatMap folderEntries ++ draftEntries draftSql

/-- A listing of folders with distinct names, and of scripts that are taken for scripts. -/
structure WellListed (folders : List (Text × List (Text × Text))) : Prop where
  nodup : (folders.map Prod.fst).Nodup
  names : ∀ folder ∈ folders, IsName folder.1
  scripts : ∀ folder ∈ folders, (folder.2.map Prod.fst).Nodup
  scriptNames : ∀ folder ∈ folders, ∀ script ∈ folder.2, IsName script.1
  taken : ∀ folder ∈ folders, ∀ script ∈ folder.2,
    scriptExtension.isSuffixOf script.1 ∧ script.1 ≠ scriptDraft

theorem holds_addScripts (hzip : zip.Faithful) (hfolderName : IsName folderName)
    {scripts : List (Text × Text)} (hnames : ∀ script ∈ scripts, IsName script.1)
    (hnodup : (scripts.map Prod.fst).Nodup) :
    ∀ {listed : List (Text × ZipEntry)} {z : Z}, Holds zip listed z →
      (scriptsPath [], .dir) ∈ listed → (scriptsPath (folderName ++ ['/']), .dir) ∈ listed →
      (∀ script ∈ scripts, scriptsPath (folderName ++ '/' :: script.1) ∉ listed.map Prod.fst) →
      Holds zip
        (listed ++ scripts.map fun script =>
          (scriptsPath (folderName ++ '/' :: script.1), .file script.2))
        (addScripts zip folderName scripts z) := by
  induction scripts with
  | nil =>
    intro listed z h _ _ _
    rw [map_nil, append_nil]
    exact h
  | cons script scripts ih =>
    intro listed z h hroot hfolder hnew
    obtain ⟨hhead, htail⟩ := nodup_cons.mp hnodup
    have hscript := hnames script mem_cons_self
    have hadded : Holds zip
        (listed ++ [(scriptsPath (folderName ++ '/' :: script.1), .file script.2)])
        (zip.file (scriptsPath (folderName ++ '/' :: script.1)) script.2 z) := by
      refine h.add (hnew script mem_cons_self) (hzip.file _ _ _ (scriptsPath_ne_nil _) ?_ ?_)
      · rw [← scriptsPath_append]
        exact getLast?_of_isName _ hscript
      · exact h.hasParents (parents_of_script hfolderName hscript hroot hfolder)
    have hrest := ih (fun other hother => hnames other (mem_cons_of_mem _ hother)) htail
      hadded (mem_append_left _ hroot) (mem_append_left _ hfolder) (by
        intro other hother
        rw [map_append, mem_append, not_or]
        refine ⟨hnew other (mem_cons_of_mem _ hother), ?_⟩
        intro hsame
        have hpath := scriptsPath_inj.mp (mem_singleton.mp hsame)
        exact hhead ((List.cons.inj (append_cancel_left hpath)).2 ▸ List.mem_map_of_mem hother))
    rw [append_assoc] at hrest
    exact hrest

theorem holds_addFolders (hzip : zip.Faithful) (hlisted : WellListed folders) :
    ∀ {listed : List (Text × ZipEntry)} {z : Z}, Holds zip listed z →
      (scriptsPath [], .dir) ∈ listed →
      (∀ folder ∈ folders, ∀ rest, scriptsPath (folder.1 ++ '/' :: rest) ∉ listed.map Prod.fst) →
      Holds zip (listed ++ folders.flatMap folderEntries) (addFolders zip folders z) := by
  induction folders with
  | nil =>
    intro listed z h _ _
    rw [flatMap_nil, append_nil]
    exact h
  | cons folder folders ih =>
    intro listed z h hroot hnew
    obtain ⟨hhead, htail⟩ := nodup_cons.mp hlisted.nodup
    have hname := hlisted.names folder mem_cons_self
    have hrest : WellListed folders :=
      { nodup := htail
        names := fun other hother => hlisted.names other (mem_cons_of_mem _ hother)
        scripts := fun other hother => hlisted.scripts other (mem_cons_of_mem _ hother)
        scriptNames := fun other hother =>
          hlisted.scriptNames other (mem_cons_of_mem _ hother)
        taken := fun other hother => hlisted.taken other (mem_cons_of_mem _ hother) }
    have hfolderNew : ∀ rest, scriptsPath (folder.1 ++ '/' :: rest) ∉ listed.map Prod.fst :=
      hnew folder mem_cons_self
    have hcreated : Holds zip (listed ++ [(scriptsPath (folder.1 ++ ['/']), .dir)])
        (zip.folder (scriptsPath folder.1) z) := by
      refine h.add (hfolderNew []) ?_
      rw [← scriptsPath_append]
      exact hzip.folder _ _ (scriptsPath_ne_nil _) (getLast?_of_isName _ hname)
        (h.hasParents (parent_of_name hname hroot))
    have hscripts := holds_addScripts hzip hname
      (hlisted.scriptNames folder mem_cons_self) (hlisted.scripts folder mem_cons_self)
      hcreated (mem_append_left _ hroot)
      (mem_append_right _ (mem_singleton_self _)) (by
        intro script hscript
        rw [map_append, mem_append, not_or]
        refine ⟨hfolderNew script.1, ?_⟩
        intro hsame
        -- a script is not its folder
        have hpath := scriptsPath_inj.mp (mem_singleton.mp hsame)
        exact (hlisted.scriptNames folder mem_cons_self script hscript).1
          (List.cons.inj (append_cancel_left hpath)).2)
    rw [append_assoc, singleton_append] at hscripts
    have hall := ih hrest hscripts (mem_append_left _ hroot) (by
      intro other hother rest
      rw [map_append, mem_append, not_or]
      refine ⟨hnew other (mem_cons_of_mem _ hother) rest, ?_⟩
      -- what is below another folder is not below this one
      have hapart : ∀ rest', other.1 ++ '/' :: rest ≠ folder.1 ++ '/' :: rest' := by
        intro rest' heq
        have hsame := ((append_cons_inj (hrest.names other hother).2 hname.2).mp heq).1
        exact hhead (hsame ▸ List.mem_map_of_mem hother)
      rw [map_cons, mem_cons, List.map_map, not_or]
      refine ⟨fun heq => hapart [] (scriptsPath_inj.mp heq), ?_⟩
      intro hmem
      obtain ⟨script, -, heq⟩ := List.mem_map.mp hmem
      exact hapart script.1 (scriptsPath_inj.mp heq.symm))
    rw [append_assoc] at hall
    exact hall

theorem holds_notebookArchive (hzip : zip.Faithful) (hlisted : WellListed folders) :
    Holds zip (archiveEntries json data folders draftSql)
      (notebookArchive zip json data folders draftSql) := by
  have hempty : Holds zip [] zip.create := by
    intro path e
    rw [hzip.create path]
    exact iff_of_false (some_ne_none e).symm not_mem_nil
  have hslash : '/' ∉ notebookFile := by decide
  have hmanifest : Holds zip [(notebookFile, .file (json.stringify data))]
      (zip.file notebookFile (json.stringify data) zip.create) :=
    hempty.add not_mem_nil (hzip.file notebookFile (json.stringify data) zip.create (by decide)
      (by decide) (hempty.hasParents fun front back hpath => absurd hpath (ne_cut hslash)))
  have hscripts : Holds zip
      [(notebookFile, .file (json.stringify data)), (scriptsPath [], .dir)]
      (zip.folder scriptsFolder (zip.file notebookFile (json.stringify data) zip.create)) := by
    refine hmanifest.add ?_ (hzip.folder scriptsFolder _ (by decide) (by decide)
      (hmanifest.hasParents fun front back hpath =>
        absurd hpath (ne_cut slash_not_mem_scriptsFolder)))
    intro hsame
    exact scriptsPath_ne_notebookFile [] (mem_singleton.mp hsame)
  have hfolders := holds_addFolders hzip hlisted hscripts
    (mem_cons_of_mem _ (mem_singleton_self _)) (by
      intro folder hfolder rest hmem
      rcases mem_cons.mp hmem with heq | hmem
      · exact scriptsPath_ne_notebookFile _ heq
      · have hpath := scriptsPath_inj.mp (mem_singleton.mp hmem)
        exact append_ne_nil_of_right_ne_nil _ (cons_ne_nil _ _) hpath)
  unfold notebookArchive archiveEntries
  rcases draftSql with _ | _ | ⟨c, sql⟩
  · rw [draftEntries, append_nil]
    · exact hfolders
    · exact fun c sql h => some_ne_none _ h.symm
  · rw [draftEntries, append_nil]
    · exact hfolders
    · intro c sql h
      exact cons_ne_nil _ _ (some.inj h).symm
  · refine hfolders.add ?_ (hzip.file _ _ _ (scriptsPath_ne_nil _)
      (getLast?_of_isName _ isName_scriptDraft)
      (hfolders.hasParents (parent_of_name isName_scriptDraft
        (mem_append_left _ (mem_cons_of_mem _ (mem_singleton_self _))))))
    intro hmem
    rw [map_append, mem_append] at hmem
    rcases hmem with hmem | hmem
    · rcases mem_cons.mp hmem with heq | hmem
      · exact scriptsPath_ne_notebookFile _ heq
      · exact isName_scriptDraft.1 (scriptsPath_inj.mp (mem_singleton.mp hmem))
    · -- the other entries are below a folder
      obtain ⟨entry, hentry, heq⟩ := List.mem_map.mp hmem
      obtain ⟨folder, -, hfolder⟩ := mem_flatMap.mp hentry
      obtain ⟨rest, hrest⟩ : ∃ rest, entry.1 = scriptsPath (folder.1 ++ '/' :: rest) := by
        rcases mem_cons.mp hfolder with rfl | hscript
        · exact ⟨[], rfl⟩
        · obtain ⟨script, -, rfl⟩ := List.mem_map.mp hscript
          exact ⟨script.1, rfl⟩
      exact ne_cut slash_not_mem_scriptDraft (scriptsPath_inj.mp (heq.symm.trans hrest))

/-! ## Reading the entries -/

section Reading

variable {naturalSort : Text → Text → Bool} {rel text : Text}

theorem Holds.readFile (h : Holds zip listed z) (hmem : (path, .file text) ∈ listed) :
    zip.readFile path z = some text := by
  rw [JSZip.readFile, (h path _).mpr hmem]

theorem mem_scriptEntries (h : Holds zip listed z) :
    (rel, e) ∈ scriptEntries zip z ↔ rel ≠ [] ∧ (scriptsPath rel, e) ∈ listed := by
  unfold scriptEntries
  rw [mem_filterMap, ← h]
  unfold JSZip.entry?
  constructor
  · rintro ⟨entry, hentry, hrel⟩
    obtain ⟨⟨hroot, hne⟩, heq⟩ := ite_none_right_eq_some.mp hrel
    obtain ⟨rest, hpath⟩ := List.isPrefixOf_iff_prefix.mp hroot
    obtain ⟨hrest, rfl⟩ := Prod.mk.inj (some.inj heq)
    rw [← hpath, drop_left] at hrest
    obtain rfl := hrest
    rw [scriptsPath_append, nil_append] at hpath
    refine ⟨?_, ?_⟩
    · rintro rfl
      exact hne hpath.symm
    · rw [hpath]
      exact InsertionMap.get?_eq_some_iff.mpr hentry
  · rintro ⟨hne, hget⟩
    refine ⟨(scriptsPath rel, e), InsertionMap.get?_eq_some_iff.mp hget, ?_⟩
    have hpath : scriptsPath rel = scriptsPath [] ++ rel := (scriptsPath_append [] rel).symm
    rw [if_pos]
    · dsimp only
      rw [hpath, drop_left]
    · refine ⟨List.isPrefixOf_iff_prefix.mpr ⟨rel, hpath.symm⟩, ?_⟩
      exact fun heq => hne (scriptsPath_inj.mp heq)

theorem nodup_scriptEntries : ((scriptEntries zip z).map Prod.fst).Nodup := by
  have hkeys : (scriptEntries zip z).map Prod.fst = (zip.entries z).keys.filterMap fun path =>
      if (scriptsPath []).isPrefixOf path ∧ path ≠ scriptsPath [] then
        some (path.drop (scriptsPath []).length)
      else none := by
    unfold scriptEntries InsertionMap.keys
    rw [map_filterMap, filterMap_map]
    refine filterMap_congr fun entry _ => ?_
    rw [Function.comp_apply]
    split_ifs <;> rfl
  rw [hkeys]
  refine List.Nodup.filterMap ?_ (zip.entries z).nodup_keys
  intro path path' rel hrel hrel'
  obtain ⟨⟨hroot, -⟩, heq⟩ := ite_none_right_eq_some.mp hrel
  obtain ⟨⟨hroot', -⟩, heq'⟩ := ite_none_right_eq_some.mp hrel'
  obtain ⟨rest, rfl⟩ := List.isPrefixOf_iff_prefix.mp hroot
  obtain ⟨rest', rfl⟩ := List.isPrefixOf_iff_prefix.mp hroot'
  rw [drop_left] at heq heq'
  rw [some.inj heq, some.inj heq']

theorem mem_scriptEntries_archive
    (h : Holds zip (archiveEntries json data folders draftSql) z) :
    (rel, e) ∈ scriptEntries zip z ↔
      (∃ folder ∈ folders, (rel, e) = (folder.1 ++ ['/'], .dir)) ∨
      (∃ folder ∈ folders, ∃ script ∈ folder.2,
        (rel, e) = (folder.1 ++ '/' :: script.1, .file script.2)) ∨
      (scriptsPath rel, e) ∈ draftEntries draftSql := by
  have hentry : ∀ rel', (scriptsPath rel, e) = (scriptsPath rel', e) ↔ rel = rel' := by
    intro rel'
    rw [Prod.mk.injEq, and_iff_left rfl, scriptsPath_inj]
  have hdraft : (scriptsPath rel, e) ∈ draftEntries draftSql → rel ≠ [] := by
    rintro hmem rfl
    unfold draftEntries at hmem
    split at hmem
    · have hpath := (Prod.mk.inj (mem_singleton.mp hmem)).1
      exact isName_scriptDraft.1 (scriptsPath_inj.mp hpath).symm
    · exact not_mem_nil hmem
  rw [mem_scriptEntries h]
  unfold archiveEntries
  rw [mem_append, mem_cons, mem_cons, mem_flatMap]
  constructor
  · rintro ⟨hne, ((hmanifest | hroot | ⟨folder, hfolder, hmem⟩) | hmem)⟩
    · exact absurd (Prod.mk.inj hmanifest).1 (scriptsPath_ne_notebookFile rel)
    · exact absurd (scriptsPath_inj.mp (Prod.mk.inj hroot).1) hne
    · rcases mem_cons.mp hmem with heq | hscript
      · obtain ⟨hpath, rfl⟩ := Prod.mk.inj heq
        exact .inl ⟨folder, hfolder, by rw [scriptsPath_inj.mp hpath]⟩
      · obtain ⟨stored, hstored, heq⟩ := List.mem_map.mp hscript
        obtain ⟨hpath, rfl⟩ := Prod.mk.inj heq
        exact .inr (.inl ⟨folder, hfolder, stored, hstored, by rw [scriptsPath_inj.mp hpath]⟩)
    · exact .inr (.inr hmem)
  · rintro (⟨folder, hfolder, heq⟩ | ⟨folder, hfolder, script, hscript, heq⟩ | hmem)
    · obtain ⟨rfl, rfl⟩ := Prod.mk.inj heq
      refine ⟨append_ne_nil_of_right_ne_nil _ (cons_ne_nil _ _), .inl (.inr (.inr ?_))⟩
      exact ⟨folder, hfolder, mem_cons_self⟩
    · obtain ⟨rfl, rfl⟩ := Prod.mk.inj heq
      refine ⟨append_ne_nil_of_right_ne_nil _ (cons_ne_nil _ _), .inl (.inr (.inr ?_))⟩
      exact ⟨folder, hfolder, mem_cons_of_mem _ (List.mem_map.mpr ⟨script, hscript, rfl⟩)⟩
    · exact ⟨hdraft hmem, .inr hmem⟩

theorem mem_draftEntries : (scriptsPath rel, e) ∈ draftEntries draftSql ↔
    rel = scriptDraft ∧ ∃ sql, draftSql = some sql ∧ sql ≠ [] ∧ e = .file sql := by
  unfold draftEntries
  split
  next c sql =>
    rw [mem_singleton, Prod.mk.injEq, scriptsPath_inj]
    apply and_congr_right'
    constructor
    · rintro rfl
      exact ⟨_, rfl, cons_ne_nil _ _, rfl⟩
    · rintro ⟨_, heq, -, rfl⟩
      rw [some.inj heq]
  next hother =>
    refine iff_of_false not_mem_nil ?_
    rintro ⟨-, sql, rfl, hne, -⟩
    obtain ⟨c, rest, rfl⟩ := exists_cons_of_ne_nil hne
    exact hother c rest rfl

/-! ## What the import finds -/

theorem withoutSlash_append (name : Text) : withoutSlash (name ++ ['/']) = name := by
  rw [withoutSlash, if_pos getLast?_concat, dropLast_concat]

theorem mem_pageEntries (h : Holds zip (archiveEntries json data folders draftSql) z) :
    (name, path) ∈ pageEntries zip naturalSort z ↔
      ∃ folder ∈ folders, (name, path) = (folder.1, folder.1 ++ ['/']) := by
  unfold pageEntries
  rw [(mergeSort_perm _ _).mem_iff, mem_filterMap]
  constructor
  · rintro ⟨entry, hentry, hpage⟩
    obtain ⟨⟨hdir, -⟩, heq⟩ := ite_none_right_eq_some.mp hpage
    obtain ⟨rfl, rfl⟩ := Prod.mk.inj (some.inj heq)
    rcases (mem_scriptEntries_archive h).mp hentry with ⟨folder, hfolder, hsame⟩ |
      ⟨folder, -, script, -, hsame⟩ | hdraft
    · refine ⟨folder, hfolder, ?_⟩
      rw [(Prod.mk.inj hsame).1, withoutSlash_append]
    · rw [(Prod.mk.inj hsame).2] at hdir
      cases hdir
    · obtain ⟨-, sql, -, -, hfile⟩ := mem_draftEntries.mp hdraft
      rw [hfile] at hdir
      cases hdir
  · rintro ⟨folder, hfolder, heq⟩
    obtain ⟨rfl, rfl⟩ := Prod.mk.inj heq
    refine ⟨(folder.1 ++ ['/'], .dir),
      (mem_scriptEntries_archive h).mpr (.inl ⟨folder, hfolder, rfl⟩), ?_⟩
    rw [if_pos ⟨rfl, append_ne_nil_of_right_ne_nil _ (cons_ne_nil _ _)⟩, withoutSlash_append]

variable {folder : Text × List (Text × Text)}

theorem mem_scriptFiles (hlisted : WellListed folders)
    (h : Holds zip (archiveEntries json data folders draftSql) z) (hfolder : folder ∈ folders) :
    (name, path) ∈ scriptFiles zip naturalSort (folder.1 ++ ['/']) z ↔
      ∃ script ∈ folder.2, (name, path) = (script.1, folder.1 ++ '/' :: script.1) := by
  unfold scriptFiles
  rw [(mergeSort_perm _ _).mem_iff, mem_filterMap]
  constructor
  · rintro ⟨entry, hentry, hscript⟩
    obtain ⟨⟨hfile, hbelow, -⟩, heq⟩ := ite_none_right_eq_some.mp hscript
    obtain ⟨rfl, rfl⟩ := Prod.mk.inj (some.inj heq)
    obtain ⟨rest, hrest⟩ := List.isPrefixOf_iff_prefix.mp hbelow
    rw [append_assoc, singleton_append] at hrest
    rcases (mem_scriptEntries_archive h).mp hentry with ⟨other, -, hsame⟩ |
      ⟨other, hother, script, hscript, hsame⟩ | hdraft
    · exact absurd (Prod.mk.inj hsame).2 hfile
    · -- the path begins with one folder only
      have hpath := (Prod.mk.inj hsame).1
      obtain ⟨hname, -⟩ := (append_cons_inj (hlisted.names folder hfolder).2
        (hlisted.names other hother).2).mp (hrest.trans hpath)
      have hfound : other = folder :=
        inj_on_of_nodup_map hlisted.nodup hother hfolder hname.symm
      rw [hfound] at hscript hpath
      refine ⟨script, hscript, ?_⟩
      rw [hpath, lastComponent_append (hlisted.scriptNames folder hfolder script hscript).2]
    · obtain ⟨hpath, -⟩ := mem_draftEntries.mp hdraft
      exact absurd (hrest.trans hpath).symm (ne_cut slash_not_mem_scriptDraft)
  · rintro ⟨script, hscript, heq⟩
    obtain ⟨rfl, rfl⟩ := Prod.mk.inj heq
    have hname := hlisted.scriptNames folder hfolder script hscript
    obtain ⟨hextension, hnotDraft⟩ := hlisted.taken folder hfolder script hscript
    refine ⟨(folder.1 ++ '/' :: script.1, .file script.2), (mem_scriptEntries_archive h).mpr
      (.inr (.inl ⟨folder, hfolder, script, hscript, rfl⟩)), ?_⟩
    dsimp only
    rw [lastComponent_append hname.2, if_pos]
    have hfile : ZipEntry.file script.2 ≠ .dir := by
      intro hdir
      cases hdir
    refine ⟨hfile, ?_, ?_, hname.1, hnotDraft⟩
    · refine List.isPrefixOf_iff_prefix.mpr ⟨script.1, ?_⟩
      rw [append_assoc, singleton_append]
    · obtain ⟨front, hfront⟩ := isSuffixOf_iff_suffix.mp hextension
      refine isSuffixOf_iff_suffix.mpr ⟨folder.1 ++ '/' :: front, ?_⟩
      rw [append_assoc, cons_append, hfront]

theorem mem_scriptsInFolder (hlisted : WellListed folders)
    (h : Holds zip (archiveEntries json data folders draftSql) z) (hfolder : folder ∈ folders)
    {script : Text × Text} :
    script ∈ scriptsInFolder zip naturalSort (folder.1 ++ ['/']) z ↔ script ∈ folder.2 := by
  have hread : ∀ stored ∈ folder.2,
      zip.readFile (scriptsPath (folder.1 ++ '/' :: stored.1)) z = some stored.2 := by
    intro stored hstored
    apply h.readFile
    apply mem_append_left
    refine mem_cons_of_mem _ (mem_cons_of_mem _ (mem_flatMap.mpr ?_))
    exact ⟨folder, hfolder, mem_cons_of_mem _ (List.mem_map.mpr ⟨stored, hstored, rfl⟩)⟩
  unfold scriptsInFolder
  rw [mem_filterMap]
  constructor
  · rintro ⟨file, hfile, hcontent⟩
    obtain ⟨stored, hstored, hsame⟩ := (mem_scriptFiles hlisted h hfolder).mp hfile
    obtain ⟨hname, hpath⟩ := Prod.mk.inj hsame
    rw [hpath, hread stored hstored, map_some, hname] at hcontent
    rw [← some.inj hcontent]
    exact hstored
  · intro hscript
    refine ⟨(script.1, folder.1 ++ '/' :: script.1),
      (mem_scriptFiles hlisted h hfolder).mpr ⟨script, hscript, rfl⟩, ?_⟩
    rw [hread script hscript]
    rfl

theorem map_filterMap_sublist {α β γ : Type} {select : α → Option β} {key : α → γ} {key' : β → γ}
    (hkey : ∀ a b, select a = some b → key' b = key a) (l : List α) :
    ((l.filterMap select).map key').Sublist (l.map key) := by
  induction l with
  | nil => exact .slnil
  | cons a l ih =>
    rw [filterMap_cons, map_cons]
    cases hselect : select a with
    | none => exact ih.cons _
    | some b =>
      rw [map_cons, hkey a b hselect]
      exact ih.cons_cons _

/-- Pairs with distinct paths have distinct names if the name gives the path. -/
theorem nodup_names {pairs : List (Text × Text)} (hpaths : (pairs.map Prod.snd).Nodup)
    (hnames : ∀ pair ∈ pairs, ∀ pair' ∈ pairs, pair.1 = pair'.1 → pair.2 = pair'.2) :
    (pairs.map Prod.fst).Nodup := by
  refine (nodup_map_iff_inj_on hpaths.of_map).mpr ?_
  intro pair hpair pair' hpair' heq
  exact Prod.ext heq (hnames pair hpair pair' hpair' heq)

theorem nodup_importedFolders (h : Holds zip (archiveEntries json data folders draftSql) z) :
    ((importedFolders zip naturalSort z).map Prod.fst).Nodup := by
  unfold importedFolders
  rw [List.map_map]
  refine nodup_names ?_ ?_
  · unfold pageEntries
    rw [((mergeSort_perm _ _).map _).nodup_iff]
    refine nodup_scriptEntries.sublist (map_filterMap_sublist ?_ (scriptEntries zip z))
    intro entry page hpage
    rw [← some.inj (ite_none_right_eq_some.mp hpage).2]
  · intro pair hpair pair' hpair' heq
    obtain ⟨folder, -, hsame⟩ := (mem_pageEntries h).mp hpair
    obtain ⟨folder', -, hsame'⟩ := (mem_pageEntries h).mp hpair'
    rw [(Prod.mk.inj hsame).1, (Prod.mk.inj hsame').1] at heq
    rw [(Prod.mk.inj hsame).2, (Prod.mk.inj hsame').2, heq]

theorem nodup_scriptsInFolder (hlisted : WellListed folders)
    (h : Holds zip (archiveEntries json data folders draftSql) z) (hfolder : folder ∈ folders) :
    ((scriptsInFolder zip naturalSort (folder.1 ++ ['/']) z).map Prod.fst).Nodup := by
  have hfiles : ((scriptFiles zip naturalSort (folder.1 ++ ['/']) z).map Prod.fst).Nodup := by
    refine nodup_names ?_ ?_
    · unfold scriptFiles
      rw [((mergeSort_perm _ _).map _).nodup_iff]
      refine nodup_scriptEntries.sublist (map_filterMap_sublist ?_ (scriptEntries zip z))
      intro entry script hscript
      rw [← some.inj (ite_none_right_eq_some.mp hscript).2]
    · intro pair hpair pair' hpair' heq
      obtain ⟨script, -, hsame⟩ := (mem_scriptFiles hlisted h hfolder).mp hpair
      obtain ⟨script', -, hsame'⟩ := (mem_scriptFiles hlisted h hfolder).mp hpair'
      rw [(Prod.mk.inj hsame).1, (Prod.mk.inj hsame').1] at heq
      rw [(Prod.mk.inj hsame).2, (Prod.mk.inj hsame').2, heq]
  refine hfiles.sublist (map_filterMap_sublist ?_ _)
  intro file script hscript
  obtain ⟨content, -, heq⟩ := map_eq_some_iff.mp hscript
  rw [← heq]

section

variable (h : Holds zip (archiveEntries json data folders draftSql) z)

include h

theorem mem_importedFolders {scripts : List (Text × Text)} :
    (name, scripts) ∈ importedFolders zip naturalSort z ↔
      ∃ folder ∈ folders,
        (name, scripts) = (folder.1, scriptsInFolder zip naturalSort (folder.1 ++ ['/']) z) := by
  unfold importedFolders
  rw [List.mem_map]
  constructor
  · rintro ⟨page, hpage, heq⟩
    obtain ⟨folder, hfolder, hsame⟩ := (mem_pageEntries h).mp hpage
    refine ⟨folder, hfolder, ?_⟩
    rw [← heq, (Prod.mk.inj hsame).1, (Prod.mk.inj hsame).2]
  · rintro ⟨folder, hfolder, heq⟩
    exact ⟨(folder.1, folder.1 ++ ['/']), (mem_pageEntries h).mpr ⟨folder, hfolder, rfl⟩, heq.symm⟩

theorem readFile_manifest : zip.readFile notebookFile z = some (json.stringify data) :=
  h.readFile (mem_append_left _ mem_cons_self)

/-- The draft that the import finds. -/
theorem readFile_draft :
    zip.readFile (scriptsPath scriptDraft) z = draftSql.filter fun sql => sql ≠ [] := by
  have hentry : ∀ sql, zip.entry? (scriptsPath scriptDraft) z = some (.file sql) ↔
      draftSql = some sql ∧ sql ≠ [] := by
    intro sql
    have hfound : (scriptDraft, ZipEntry.file sql) ∈ scriptEntries zip z ↔ _ :=
      mem_scriptEntries_archive h
    rw [mem_scriptEntries h, and_iff_right isName_scriptDraft.1, mem_draftEntries,
      and_iff_right rfl] at hfound
    rw [h, hfound]
    constructor
    · rintro (⟨folder, -, hsame⟩ | ⟨folder, -, script, -, hsame⟩ | ⟨sql', hdraft, hne, hsame⟩)
      · cases (Prod.mk.inj hsame).2
      · exact absurd (Prod.mk.inj hsame).1 (ne_cut slash_not_mem_scriptDraft)
      · cases hsame
        exact ⟨hdraft, hne⟩
    · rintro ⟨hdraft, hne⟩
      exact .inr (.inr ⟨sql, hdraft, hne, rfl⟩)
  unfold JSZip.readFile
  split
  next sql hsql =>
    obtain ⟨rfl, hne⟩ := (hentry sql).mp hsql
    rw [filter_some, if_pos (decide_eq_true hne)]
  next hother =>
    refine (filter_eq_none_iff.mpr ?_).symm
    intro sql hsql hne
    exact hother sql ((hentry sql).mpr ⟨hsql, of_decide_eq_true hne⟩)

end

end Reading

end DashQL.Storage
