import Mathlib
import CampusQuery.Proofs.Machine
import CampusQuery.Proofs.Registry.Files
import CampusQuery.Proofs.Registry.Registry

/-!
# Archives and registries

An archive agrees with a registry when the files of datasets in its directory are just those of the
registered datasets, each read back as its dataset. Saving a dataset and removing its file change
nothing but the file and its draft, and carry the agreement over to the changed registry.

* `Archive.on_save_cases`, `Archive.on_delete_cases` — all that can come of saving and removing.
* `Archive.Holds` — the agreement, with `Holds.insert` and `Holds.erase`.
* `Archive.on_load` — an archive that agrees with a registry loads its datasets.
-/

namespace CampusQuery

namespace Archive

open CampusQuery.FileTree

/-- The directory that the root of an archive leads to. -/
structure IsAt (a : Archive) (t : FileTree) (directory : List String) : Prop where
  located : t.locate a.root = .ok directory
  found : t.find? directory = some .directory

/-- An id that can have a file of its own in the directory of an archive. -/
structure HasFile (id : String) : Prop where
  nonempty : id ≠ ""
  undivided : Path.slash ∉ id.toList

variable {a : Archive} {t t' : FileTree} {directory : List String} {id : String}

theorem IsAt.root_ne (h : a.IsAt t directory) : a.root ≠ "" :=
  (locate_eq_ok_iff.mp h.located).2.1

theorem IsAt.of_same (h : a.IsAt t directory) (hsame : SameDirectories t t') :
    a.IsAt t' directory :=
  ⟨hsame.locate h.located, (hsame.find? _).mp h.found⟩

/-- The path of a file leads to its name in the directory, if it leads anywhere. -/
theorem IsAt.locate_path (h : a.IsAt t directory) (hid : HasFile id) {place : List String}
    (hplace : t.locate (a.pathOf id) = .ok place) : place = directory ++ [fileName id] :=
  locate_join_plain h.located (isPlain_fileName hid.undivided) hplace

/-- The path of a draft leads to its name in the directory, or to the directory above. -/
theorem IsAt.locate_draft (h : a.IsAt t directory) (hid : HasFile id) {place : List String}
    (hplace : t.locate (a.draftPathOf id) = .ok place) (hnot : t.find? place ≠ some .directory) :
    place = directory ++ [draftName id] := by
  rw [draftPathOf_eq h.root_ne hid.nonempty hid.undivided] at hplace
  split_ifs at hplace with hdot
  · have habove : t.walk directory [".."] = .ok directory.dropLast := by
      simp [walk, h.found]
    rw [locate_join h.located (by decide) (by decide), habove] at hplace
    split_ifs at hplace
    cases hplace
    exact absurd (find?_dropLast_of_locate h.located h.found) hnot
  · exact locate_join_plain h.located (isPlain_draftName hid.undivided) hplace

/-- A plain name in the directory, found by way of the directory itself. -/
theorem IsAt.locate_dotted (h : a.IsAt t directory) {name : String} (hname : IsPlain name)
    {place : List String}
    (hplace : t.locate (Path.join (Path.join a.root ".") name) = .ok place) :
    place = directory ++ [name] := by
  have hself : t.locate (Path.join a.root ".") = .ok directory := by
    have hdot : Path.slash ∉ ".".toList := by decide
    have hsize : (Path.join a.root ".").utf8ByteSize ≤ pathLimit := by
      obtain ⟨-, -, hsize, -⟩ := locate_eq_ok_iff.mp hplace
      have hne : Path.join a.root "." ≠ "" := by
        rw [Path.join_eq h.root_ne hdot]
        split_ifs <;> simp
      rw [Path.join_eq hne hname.undivided] at hsize
      split_ifs at hsize <;> simp only [String.utf8ByteSize_append] at hsize <;> omega
    rw [locate_join h.located (by decide) hdot, if_neg (by decide), if_neg (not_lt.mpr hsize)]
    exact walk_stay h.found
  exact locate_join_plain hself hname hplace

/-! ## Saving and removing -/

theorem on_save (a : Archive) (d : Dataset) (machine : Machine) :
    machine.on (a.save d) =
      match machine.files.write (a.draftPathOf d.id) d.document with
      | .error fault => (.error (.disk (a.draftPathOf d.id) fault), machine)
      | .ok t =>
        match t.rename (a.draftPathOf d.id) (a.pathOf d.id) with
        | .error fault => (.error (.disk (a.pathOf d.id) fault), { machine with files := t })
        | .ok t' => (.ok (), { machine with files := t' }) := by
  rw [save, Machine.on_bind, Machine.on_write]
  cases machine.files.write (a.draftPathOf d.id) d.document with
  | error fault => rfl
  | ok t =>
    dsimp only
    rw [Machine.on_bind, Machine.on_rename]
    dsimp only
    cases t.rename (a.draftPathOf d.id) (a.pathOf d.id) <;> rfl

theorem on_delete (a : Archive) (id : String) (machine : Machine) :
    machine.on (a.delete id) =
      match machine.files.remove (a.pathOf id) with
      | .error .noEntry => (.ok (), machine)
      | .error fault => (.error (.disk (a.pathOf id) fault), machine)
      | .ok t => (.ok (), { machine with files := t }) := by
  rw [delete, Machine.on_bind, Machine.on_remove]
  cases machine.files.remove (a.pathOf id) with
  | error fault => cases fault <;> rfl
  | ok t => rfl

/-- The files after a draft is written. -/
def drafted (directory : List String) (id : String) (bytes : List UInt8) (t : FileTree) :
    FileTree :=
  t.set (directory ++ [draftName id]) (.file bytes)

/-- The files after a draft is written and has become the file of a dataset. -/
def published (directory : List String) (id : String) (bytes : List UInt8) (t : FileTree) :
    FileTree :=
  ((drafted directory id bytes t).erase (directory ++ [draftName id])).set
    (directory ++ [fileName id]) (.file bytes)

/-- Writing a draft and giving it the name of the file fails, stops at the draft, or is done. -/
theorem write_rename_cases (h : a.IsAt t directory) (hid : HasFile id) (bytes : List UInt8) :
    (∃ fault, t.write (a.draftPathOf id) bytes = .error fault) ∨
    t.write (a.draftPathOf id) bytes = .ok (drafted directory id bytes t) ∧
      t.find? (directory ++ [draftName id]) ≠ some .directory ∧
      ((∃ fault, (drafted directory id bytes t).rename (a.draftPathOf id) (a.pathOf id) =
          .error fault) ∨
        (drafted directory id bytes t).rename (a.draftPathOf id) (a.pathOf id) =
            .ok (published directory id bytes t) ∧
          t.find? (directory ++ [fileName id]) ≠ some .directory ∧
          (drafted directory id bytes t).locate (a.pathOf id) =
            .ok (directory ++ [fileName id])) := by
  cases hwrite : t.write (a.draftPathOf id) bytes with
  | error fault => exact Or.inl ⟨fault, rfl⟩
  | ok t' =>
    obtain ⟨draft, hdraft, hnot, rfl⟩ := write_eq_ok_iff.mp hwrite
    obtain rfl := h.locate_draft hid hdraft hnot
    have hsame : SameDirectories t (drafted directory id bytes t) := sameDirectories_set hnot bytes
    refine Or.inr ⟨rfl, hnot, ?_⟩
    cases hrename : (drafted directory id bytes t).rename (a.draftPathOf id) (a.pathOf id) with
    | error fault => exact Or.inl ⟨fault, rfl⟩
    | ok t' =>
      obtain ⟨old, bytes', new, hold, hbytes, hnew, hnot', rfl⟩ := rename_eq_ok_iff.mp hrename
      rw [hsame.locate hdraft] at hold
      obtain rfl := Except.ok.inj hold
      rw [drafted, find?_set hnot, if_pos rfl] at hbytes
      obtain rfl := Node.file.inj (Option.some.inj hbytes)
      obtain rfl := (h.of_same hsame).locate_path hid hnew
      exact Or.inr ⟨rfl, fun hdir => hnot' ((hsame.find? _).mp hdir), hnew⟩

/-- After an attempt to remove the file of a dataset that is there, it is not. -/
theorem remove_eq_ok (hid : t.locate (a.pathOf id) = .ok (directory ++ [fileName id]))
    {bytes : List UInt8} (hfile : t.find? (directory ++ [fileName id]) = some (.file bytes)) :
    t.remove (a.pathOf id) = .ok (t.erase (directory ++ [fileName id])) :=
  remove_eq_ok_iff.mpr ⟨_, bytes, hid, hfile, rfl⟩

/-! ## Agreement -/

/-- An archive agrees with a registry: its directory has the files of the registered datasets and
of no others, and each reads as its dataset. -/
structure Holds (reads : List UInt8 → Dataset → Prop) (a : Archive) (t : FileTree)
    (directory : List String) (r : Registry) : Prop where
  isAt : a.IsAt t directory
  sorted : r.Sorted
  registrable : ∀ d ∈ r.datasets, d.IsRegistrable
  hasFile : ∀ d ∈ r.datasets, HasFile d.id
  names : ((t.namesIn directory).filter isFileName).Perm
    (r.datasets.map fun d => .text (fileName d.id))
  located : ∀ d ∈ r.datasets, t.locate (a.pathOf d.id) = .ok (directory ++ [fileName d.id])
  files : ∀ d ∈ r.datasets, ∃ bytes,
    t.find? (directory ++ [fileName d.id]) = some (.file bytes) ∧ reads bytes d

variable {reads : List UInt8 → Dataset → Prop} {r : Registry}

theorem place_inj {name name' : String} (h : directory ++ [name] = directory ++ [name']) :
    name = name' := by
  simpa using h

theorem Holds.draft (h : Holds reads a t directory r)
    (hnot : t.find? (directory ++ [draftName id]) ≠ some .directory) (bytes : List UInt8) :
    Holds reads a (drafted directory id bytes t) directory r := by
  have hsame : SameDirectories t (drafted directory id bytes t) := sameDirectories_set hnot bytes
  refine ⟨h.isAt.of_same hsame, h.sorted, h.registrable, h.hasFile, ?_, ?_, ?_⟩
  · have hfilter : ((t.namesIn directory).filter fun name => name != .text (draftName id)).filter
        isFileName = (t.namesIn directory).filter isFileName := by
      rw [List.filter_filter]
      refine List.filter_congr fun name _ => ?_
      by_cases hname : name = .text (draftName id)
      · simp [hname, isFileName_draftName]
      · simp [hname]
    rw [drafted, namesIn_set, List.filter_cons_of_neg (by simp [isFileName_draftName]), hfilter]
    exact h.names
  · exact fun d hd => hsame.locate (h.located d hd)
  · intro d hd
    have hne : directory ++ [fileName d.id] ≠ directory ++ [draftName id] := fun heq =>
      draftName_ne_fileName (h.hasFile d hd).nonempty (place_inj heq).symm
    rw [drafted, find?_set hnot, if_neg hne]
    exact h.files d hd

theorem sameDirectories_published
    (hdraft : t.find? (directory ++ [draftName id]) ≠ some .directory)
    (hfile : t.find? (directory ++ [fileName id]) ≠ some .directory) (bytes : List UInt8) :
    SameDirectories t (published directory id bytes t) := by
  have hfirst : SameDirectories t (drafted directory id bytes t) := sameDirectories_set hdraft bytes
  have hsecond := hfirst.trans (sameDirectories_erase (mt (hfirst.find? _).mpr hdraft))
  exact hsecond.trans (sameDirectories_set (mt (hsecond.find? _).mpr hfile) bytes)

theorem find?_published (hdraft : t.find? (directory ++ [draftName id]) ≠ some .directory)
    (hfile : t.find? (directory ++ [fileName id]) ≠ some .directory) (bytes : List UInt8)
    (place : List String) :
    (published directory id bytes t).find? place =
      if place = directory ++ [fileName id] then some (.file bytes)
      else if place = directory ++ [draftName id] then none else t.find? place := by
  have hfirst : SameDirectories t (drafted directory id bytes t) := sameDirectories_set hdraft bytes
  have hdraft' := mt (hfirst.find? _).mpr hdraft
  have hsecond := hfirst.trans (sameDirectories_erase hdraft')
  rw [published, find?_set (mt (hsecond.find? _).mpr hfile), find?_erase hdraft', drafted,
    find?_set hdraft]
  split_ifs <;> rfl

theorem Holds.publish (h : Holds reads a t directory r) {d : Dataset} {r' : Registry}
    (hid : HasFile d.id) (hadd : r.add d = .ok r') {bytes : List UInt8} (hreads : reads bytes d)
    (hdraft : t.find? (directory ++ [draftName d.id]) ≠ some .directory)
    (hfile : t.find? (directory ++ [fileName d.id]) ≠ some .directory)
    (hlocate : t.locate (a.pathOf d.id) = .ok (directory ++ [fileName d.id])) :
    Holds reads a (published directory d.id bytes t) directory r' := by
  have hsorted := h.sorted.add hadd
  obtain ⟨hregistrable, hnew, rfl⟩ := Registry.add_eq_ok_iff.mp hadd
  have hsame := sameDirectories_published hdraft hfile bytes
  -- The datasets are the new one and those there were; what is claimed of all is claimed of each.
  have hmem {p : Dataset → Prop} (hd : p d) (hr : ∀ x ∈ r.datasets, p x) :
      ∀ x ∈ Registry.insert d r.datasets, p x := by
    intro x hx
    rcases Registry.mem_insert.mp hx with rfl | hx
    · exact hd
    · exact hr x hx
  refine ⟨h.isAt.of_same hsame, hsorted, hmem hregistrable h.registrable, hmem hid h.hasFile, ?_,
    hmem (hsame.locate hlocate) fun x hx => hsame.locate (h.located x hx), hmem ?_ fun x hx => ?_⟩
  · have hnames := (h.draft hdraft bytes).names
    have hother : ∀ name ∈ (drafted directory d.id bytes t).namesIn directory,
        (isFileName name && (name != .text (fileName d.id) && name != .text (draftName d.id))) =
          isFileName name := by
      intro name hname
      cases hisFile : isFileName name with
      | false => rfl
      | true =>
        obtain ⟨x, hx, rfl⟩ := List.mem_map.mp
          (hnames.mem_iff.mp (List.mem_filter.mpr ⟨hname, hisFile⟩))
        have hfile : fileName x.id ≠ fileName d.id := fun heq => hnew x hx (fileName_inj heq)
        have hdraft : fileName x.id ≠ draftName d.id :=
          (draftName_ne_fileName (h.hasFile x hx).nonempty).symm
        simp [hfile, hdraft]
    rw [published, namesIn_set, namesIn_erase, List.filter_filter,
      List.filter_cons_of_pos (isFileName_text_iff.mpr ⟨d.id, hid.nonempty, rfl⟩),
      List.filter_filter, List.filter_congr hother]
    have hinsert := (Registry.insert_perm d r.datasets).map fun x : Dataset =>
      Name.text (fileName x.id)
    exact (hnames.cons _).trans hinsert.symm
  · exact ⟨bytes, by rw [find?_published hdraft hfile, if_pos rfl], hreads⟩
  · have hfile' : directory ++ [fileName x.id] ≠ directory ++ [fileName d.id] := fun heq =>
      hnew x hx (fileName_inj (place_inj heq))
    have hdraft' : directory ++ [fileName x.id] ≠ directory ++ [draftName d.id] := fun heq =>
      draftName_ne_fileName (h.hasFile x hx).nonempty (place_inj heq).symm
    rw [find?_published hdraft hfile, if_neg hfile', if_neg hdraft']
    exact h.files x hx

theorem Holds.erase (h : Holds reads a t directory r) {d : Dataset} {r' : Registry}
    (hremove : r.remove id = .ok (d, r')) :
    Holds reads a (t.erase (directory ++ [fileName id])) directory r' := by
  have hsorted := h.sorted.remove hremove
  obtain ⟨-, hget, rfl⟩ := Registry.remove_eq_ok_iff.mp hremove
  have hd : d ∈ r.datasets ∧ d.id = id :=
    ⟨List.mem_of_find?_eq_some hget, by simpa using List.find?_some hget⟩
  obtain ⟨bytes, hfile, -⟩ := h.files d hd.1
  rw [hd.2] at hfile
  have hnot : t.find? (directory ++ [fileName id]) ≠ some .directory := by rw [hfile]; simp
  have hsame := sameDirectories_erase hnot
  have hkept {x : Dataset} (hx : x ∈ r.datasets.filter fun x => x.id != id) :
      x ∈ r.datasets ∧ x.id ≠ id := by
    simpa using List.mem_filter.mp hx
  refine ⟨h.isAt.of_same hsame, hsorted, fun x hx => h.registrable x (hkept hx).1,
    fun x hx => h.hasFile x (hkept hx).1, ?_,
    fun x hx => hsame.locate (h.located x (hkept hx).1), fun x hx => ?_⟩
  · rw [namesIn_erase, List.filter_filter]
    have hfilter := h.names.filter fun name => name != .text (fileName id)
    rw [List.filter_filter, List.filter_map] at hfilter
    have hsame : (r.datasets.filter
        ((fun name : Name => name != .text (fileName id)) ∘ fun x => Name.text (fileName x.id))) =
        r.datasets.filter fun x => x.id != id := by
      refine List.filter_congr fun x _ => ?_
      have hiff : fileName x.id = fileName id ↔ x.id = id := ⟨fileName_inj, congrArg fileName⟩
      simp [bne, Bool.beq_eq_decide_eq, hiff]
    rw [hsame] at hfilter
    simpa [Bool.and_comm] using hfilter
  · have hne : directory ++ [fileName x.id] ≠ directory ++ [fileName id] := fun heq =>
      (hkept hx).2 (fileName_inj (place_inj heq))
    rw [find?_erase hnot, if_neg hne]
    exact h.files x (hkept hx).1

/-! ## Loading -/

/-- The dataset in the file of a given name. -/
def datasetIn (a : Archive) (now : Instant) (t : FileTree) (name : Name) :
    Except RegistryError Dataset :=
  match t.readIn a.root name with
  | .error fault => .error (.disk (name.within a.root) fault)
  | .ok bytes => Dataset.ofFile (name.within a.root) (stem name) bytes now

theorem datasetIn_eq_ok_iff {now : Instant} {name : Name} {d : Dataset} :
    a.datasetIn now t name = .ok d ↔
      ∃ bytes, t.readIn a.root name = .ok bytes ∧
        Dataset.ofFile (name.within a.root) (stem name) bytes now = .ok d := by
  unfold datasetIn
  cases t.readIn a.root name <;> simp

/-- A dataset is in the file that is named after its id: a name that is not a text gives the empty
id, which no dataset has. -/
theorem exists_of_datasetIn {now : Instant} {name : Name} (hname : isFileName name = true)
    {d : Dataset} (hd : a.datasetIn now t name = .ok d) :
    name = .text (fileName d.id) ∧ d.IsRegistrable ∧
      ∃ bytes path, t.read (a.pathOf d.id) = .ok bytes ∧
        Dataset.ofFile path d.id bytes now = .ok d := by
  obtain ⟨bytes, hread, hofFile⟩ := datasetIn_eq_ok_iff.mp hd
  have hid := Dataset.id_of_ofFile hofFile
  have hregistrable := Dataset.isRegistrable_of_ofFile hofFile
  cases name with
  | text s =>
    obtain ⟨id, hne, rfl⟩ := isFileName_text_iff.mp hname
    rw [stem_fileName hne] at hid hofFile
    obtain rfl := hid
    exact ⟨rfl, hregistrable, bytes, _, hread, hofFile⟩
  | raw name => exact absurd hid (Dataset.ne_of_isValidId hregistrable.valid)

theorem on_loadFile (a : Archive) (now : Instant) (name : Name) (machine : Machine) :
    machine.on (a.loadFile now name) = (a.datasetIn now machine.files name, machine) := by
  rw [loadFile, Machine.on_bind, Machine.on_readIn, datasetIn]
  cases machine.files.readIn a.root name <;> rfl

theorem on_loadFiles (a : Archive) (now : Instant) (names : List Name) (machine : Machine) :
    machine.on (a.loadFiles now names) =
      (names.mapM (a.datasetIn now machine.files), machine) := by
  induction names with
  | nil => rfl
  | cons name names ih =>
    rw [loadFiles, Machine.on_bind, on_loadFile, List.mapM_cons]
    cases a.datasetIn now machine.files name with
    | error => rfl
    | ok d =>
      dsimp only
      rw [Machine.on_bind, ih]
      cases names.mapM (a.datasetIn now machine.files) <;> rfl

theorem mapM_eq_ok_iff {α β ε : Type} {f : α → Except ε β} {as : List α} {bs : List β} :
    as.mapM f = .ok bs ↔ List.Forall₂ (fun x y => f x = .ok y) as bs := by
  induction as generalizing bs with
  | nil => simp [pure, Except.pure, eq_comm]
  | cons x as ih =>
    rw [List.mapM_cons, List.forall₂_cons_left_iff]
    simp only [← ih]
    cases f x with
    | error => simp [bind, Except.bind]
    | ok y => cases as.mapM f <;> simp [bind, Except.bind, pure, Except.pure, eq_comm]

theorem mem_iff_of_mapM {α β ε : Type} {f : α → Except ε β} {as : List α} {bs : List β}
    (h : as.mapM f = .ok bs) {b : β} : b ∈ bs ↔ ∃ a ∈ as, f a = .ok b := by
  have hforall := mapM_eq_ok_iff.mp h
  clear h
  induction hforall with
  | nil => simp
  | cons ha _ ih => simp [ih, ha, eq_comm]

/-- Datasets that are loaded from files have the ids of which these are the names. -/
theorem names_eq_of_mapM {now : Instant} {names : List Name} {ds : List Dataset}
    (hnames : ∀ name ∈ names, isFileName name = true)
    (hds : names.mapM (a.datasetIn now t) = .ok ds) :
    names = ds.map fun d => .text (fileName d.id) := by
  induction mapM_eq_ok_iff.mp hds with
  | nil => rfl
  | cons hd hrest ih =>
    obtain ⟨hname, hothers⟩ := List.forall_mem_cons.mp hnames
    obtain ⟨rfl, -⟩ := exists_of_datasetIn hname hd
    exact congrArg (_ :: ·) (ih hothers (mapM_eq_ok_iff.mpr hrest))

theorem mem_datasetNames {names : List Name} {name : Name} :
    name ∈ datasetNames names ↔ name ∈ names ∧ isFileName name = true := by
  rw [datasetNames, (List.mergeSort_perm _ _).mem_iff, List.mem_filter]

/-- Files that read as registered datasets are loaded as these. -/
theorem Holds.mapM_datasetIn (h : Holds reads a t directory r) {now : Instant}
    (hreads : ∀ d ∈ r.datasets, ∀ bytes path, reads bytes d →
      Dataset.ofFile path d.id bytes now = .ok d) {names : List Name}
    (hnames : ∀ name ∈ names, ∃ d ∈ r.datasets, .text (fileName d.id) = name) :
    ∃ ds, names.mapM (a.datasetIn now t) = .ok ds ∧
      ds.map (fun d => .text (fileName d.id)) = names ∧ ∀ d ∈ ds, d ∈ r.datasets := by
  induction names with
  | nil => exact ⟨[], rfl, rfl, by simp⟩
  | cons name names ih =>
    obtain ⟨⟨d, hd, rfl⟩, hrest⟩ := List.forall_mem_cons.mp hnames
    obtain ⟨ds, hds, hmap, hmem⟩ := ih hrest
    obtain ⟨bytes, hfile, hbytes⟩ := h.files d hd
    have hread : t.readIn a.root (.text (fileName d.id)) = .ok bytes :=
      read_eq_ok_iff.mpr ⟨_, h.located d hd, hfile⟩
    have hfirst : a.datasetIn now t (.text (fileName d.id)) = .ok d := by
      refine datasetIn_eq_ok_iff.mpr ⟨bytes, hread, ?_⟩
      rw [stem_fileName (h.hasFile d hd).nonempty]
      exact hreads d hd bytes _ hbytes
    refine ⟨d :: ds, mapM_eq_ok_iff.mpr (.cons hfirst (mapM_eq_ok_iff.mp hds)), ?_, ?_⟩
    · rw [List.map_cons, hmap]
    · exact List.forall_mem_cons.mpr ⟨hd, hmem⟩

theorem on_load (a : Archive) (now : Instant) (machine : Machine) :
    machine.on (a.load now) =
      (match machine.files.list a.root with
        | .error fault => .error (.disk a.root fault)
        | .ok names => (datasetNames names).mapM (a.datasetIn now machine.files), machine) := by
  rw [load, Machine.on_bind, Machine.on_list]
  cases machine.files.list a.root with
  | error => rfl
  | ok names => exact on_loadFiles a now _ machine

/-- An archive that agrees with a registry loads the registered datasets, in some order. -/
theorem Holds.on_load {machine : Machine} (h : Holds reads a machine.files directory r)
    {now : Instant} (hreads : ∀ d ∈ r.datasets, ∀ bytes path, reads bytes d →
      Dataset.ofFile path d.id bytes now = .ok d) :
    ∃ ds, machine.on (a.load now) = (.ok ds, machine) ∧ ds.Perm r.datasets := by
  have hlist : machine.files.list a.root = .ok (machine.files.namesIn directory) :=
    list_eq_ok_iff.mpr ⟨directory, h.isAt.located, h.isAt.found, rfl⟩
  have hperm : (datasetNames (machine.files.namesIn directory)).Perm
      (r.datasets.map fun d => .text (fileName d.id)) :=
    (List.mergeSort_perm _ _).trans h.names
  obtain ⟨ds, hds, hmap, hmem⟩ := h.mapM_datasetIn hreads
    (fun name hname => List.mem_map.mp (hperm.mem_iff.mp hname))
  refine ⟨ds, ?_, ?_⟩
  · rw [Archive.on_load, hlist]
    exact congrArg (·, machine) hds
  · rw [← hmap] at hperm
    have hnodup : (r.datasets.map fun d => Name.text (fileName d.id)).Nodup := by
      have := h.sorted.nodup.map fun x y heq => fileName_inj (Name.text.inj heq)
      rwa [List.map_map] at this
    have hnodup' := hperm.nodup_iff.mpr hnodup
    refine (List.perm_ext_iff_of_nodup hnodup'.of_map hnodup.of_map).mpr fun d => ?_
    constructor
    · exact hmem d
    · intro hd
      obtain ⟨x, hx, heq⟩ := List.mem_map.mp (hperm.mem_iff.mpr (List.mem_map_of_mem hd))
      rwa [← h.sorted.eq_of_id (hmem x hx) hd (fileName_inj (Name.text.inj heq))]

/-! ## What an archive holds when it is loaded -/

theorem Holds.mono {reads' : List UInt8 → Dataset → Prop} (h : Holds reads a t directory r)
    (hreads : ∀ d ∈ r.datasets, ∀ bytes, reads bytes d → reads' bytes d) :
    Holds reads' a t directory r :=
  ⟨h.isAt, h.sorted, h.registrable, h.hasFile, h.names, h.located, fun d hd =>
    (h.files d hd).imp fun bytes hbytes => ⟨hbytes.1, hreads d hd bytes hbytes.2⟩⟩

/-- A dataset that is in the file of its id, where the path of the file leads. -/
structure IsStored (a : Archive) (t : FileTree) (directory : List String) (now : Instant)
    (d : Dataset) : Prop where
  hasFile : HasFile d.id
  located : t.locate (a.pathOf d.id) = .ok (directory ++ [fileName d.id])
  read : ∃ bytes, t.find? (directory ++ [fileName d.id]) = some (.file bytes) ∧
    ∃ path, Dataset.ofFile path d.id bytes now = .ok d

theorem IsAt.isStored_of_datasetIn (h : a.IsAt t directory) {now : Instant} {name : Name}
    (hname : isFileName name = true) (hslash : ∀ s, name = .text s → Path.slash ∉ s.toList)
    {d : Dataset} (hd : a.datasetIn now t name = .ok d) : IsStored a t directory now d := by
  obtain ⟨rfl, hregistrable, bytes, path, hread, hofFile⟩ := exists_of_datasetIn hname hd
  have hfile : HasFile d.id :=
    ⟨Dataset.ne_of_isValidId hregistrable.valid, undivided_fileName.mp (hslash _ rfl)⟩
  obtain ⟨place, hplace, hbytes⟩ := read_eq_ok_iff.mp hread
  obtain rfl := h.locate_path hfile hplace
  exact ⟨hfile, hplace, bytes, hbytes, path, hofFile⟩

/-- An archive whose datasets have been loaded and registered agrees with the registry. -/
theorem Holds.of_load {names : List Name} {ds : List Dataset} {now : Instant}
    (hnames : t.list a.root = .ok names)
    (hds : (datasetNames names).mapM (a.datasetIn now t) = .ok ds)
    (hr : Engine.registerAll .empty ds = .ok r)
    (hslash : ∀ s, .text s ∈ datasetNames names → Path.slash ∉ s.toList) :
    ∃ directory, Holds (fun bytes d => ∃ path, Dataset.ofFile path d.id bytes now = .ok d) a t
      directory r := by
  obtain ⟨directory, hlocate, hfind, rfl⟩ := list_eq_ok_iff.mp hnames
  have hisAt : a.IsAt t directory := ⟨hlocate, hfind⟩
  have hsort : (datasetNames (t.namesIn directory)).Perm
      ((t.namesIn directory).filter isFileName) := List.mergeSort_perm _ _
  obtain ⟨hsorted, hperm, hregistrable⟩ := Engine.registerAll_eq_ok_perm Registry.sorted_empty hr
  have hmap := names_eq_of_mapM (fun name hname => (mem_datasetNames.mp hname).2) hds
  have hstored : ∀ d ∈ ds, IsStored a t directory now d := by
    intro d hd
    obtain ⟨name, hname, hd⟩ := (mem_iff_of_mapM hds).mp hd
    exact hisAt.isStored_of_datasetIn (mem_datasetNames.mp hname).2
      (fun s heq => hslash s (heq ▸ hname)) hd
  have hmem : ∀ d ∈ r.datasets, d ∈ ds := fun d hd => by
    simpa [Registry.empty] using hperm.mem_iff.mp hd
  refine ⟨directory, hisAt, hsorted, fun d hd => hregistrable d (hmem d hd),
    fun d hd => (hstored d (hmem d hd)).hasFile, ?_,
    fun d hd => (hstored d (hmem d hd)).located, fun d hd => (hstored d (hmem d hd)).read⟩
  rw [hmap] at hsort
  exact hsort.symm.trans (hperm.map _).symm

end Archive

end CampusQuery
