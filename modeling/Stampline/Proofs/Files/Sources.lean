import Mathlib.Data.List.Lex
import Mathlib.Data.List.TakeWhile
import Stampline.Files.Source
import Stampline.Proofs.Fallible
import Stampline.Proofs.Files.Components
import Stampline.Proofs.Files.Written

/-!
# Sources in directories

The sources that the path of a directory names are the files in it and below it whose names have one
of the extensions of sources. Each of them is there once, and they come in the order of the components
of their paths: the names of each directory are in order, and what is below a directory has its name
as the next component.
-/

namespace Stampline

open Stampline.Path (Component IsName below components)

/-! ## Names of sources -/

/-- Whether a name has one of the extensions of sources behind a point, and something before it. -/
def SourceNamed (name : String) : Prop :=
  ∃ stem extension, stem ≠ "" ∧ extension ∈ sourceExtensions ∧ name = stem ++ "." ++ extension

namespace Path

theorem extension?_append (stem : String) {extension : String} (hpoint : '.' ∉ extension.toList) :
    extension? (stem ++ "." ++ extension) = if stem = "" then none else some extension := by
  have hkept : ∀ c ∈ extension.toList.reverse, decide (c ≠ '.') = true := by
    intro c hc
    have hne : c ≠ '.' := fun h => hpoint (by simpa [h] using hc)
    simpa using hne
  have hreverse : (stem ++ "." ++ extension).toList.reverse =
      extension.toList.reverse ++ '.' :: stem.toList.reverse := by
    simp
  have htake : (extension.toList.reverse ++ '.' :: stem.toList.reverse).takeWhile (· ≠ '.') =
      extension.toList.reverse := by
    rw [List.takeWhile_append_of_pos hkept]
    simp
  have hdrop : (extension.toList.reverse ++ '.' :: stem.toList.reverse).dropWhile (· ≠ '.') =
      '.' :: stem.toList.reverse := by
    rw [List.dropWhile_append_of_pos hkept]
    simp
  unfold extension?
  dsimp only
  rw [hreverse, htake, hdrop]
  by_cases hstem : stem = ""
  · subst hstem
    rfl
  · rw [if_neg hstem]
    have hne : stem.toList.reverse ≠ [] := by simpa using hstem
    obtain ⟨c, cs, hcs⟩ := List.exists_cons_of_ne_nil hne
    rw [hcs, List.reverse_reverse, String.ofList_toList]

theorem extension?_of_not_mem {name : String} (h : '.' ∉ name.toList) : extension? name = none := by
  have hdrop : name.toList.reverse.dropWhile (· ≠ '.') = [] := by
    rw [List.dropWhile_eq_nil_iff]
    intro c hc
    have hne : c ≠ '.' := fun hpoint => h (by simpa [hpoint] using hc)
    simpa using hne
  unfold extension?
  dsimp only
  rw [hdrop]

/-- A name with a point in it has a last one. -/
theorem exists_eq_append_point {name : String} (h : '.' ∈ name.toList) :
    ∃ stem extension, '.' ∉ extension.toList ∧ name = stem ++ "." ++ extension := by
  obtain ⟨behind, before, hname, hpoint⟩ := List.eq_append_cons_of_mem (List.mem_reverse.2 h)
  refine ⟨String.ofList before.reverse, String.ofList behind.reverse, by simpa using hpoint, ?_⟩
  apply String.toList_injective
  rw [← List.reverse_inj, hname]
  simp

/-- An extension is what stands behind the last point, unless there is nothing before that point. -/
theorem extension?_eq_some_iff {name extension : String} :
    extension? name = some extension ↔
      ∃ stem, stem ≠ "" ∧ '.' ∉ extension.toList ∧ name = stem ++ "." ++ extension := by
  constructor
  · intro h
    by_cases hmem : '.' ∈ name.toList
    · obtain ⟨stem, behind, hpoint, rfl⟩ := exists_eq_append_point hmem
      rw [extension?_append stem hpoint] at h
      by_cases hstem : stem = ""
      · rw [if_pos hstem] at h
        cases h
      · rw [if_neg hstem] at h
        obtain rfl := Option.some.inj h
        exact ⟨stem, hstem, hpoint, rfl⟩
    · rw [extension?_of_not_mem hmem] at h
      cases h
  · rintro ⟨stem, hstem, hpoint, rfl⟩
    rw [extension?_append stem hpoint, if_neg hstem]

end Path

theorem noPoint_of_mem_sourceExtensions :
    ∀ extension ∈ sourceExtensions, '.' ∉ extension.toList := by
  decide

theorem isSourceName_iff {name : String} : isSourceName name = true ↔ SourceNamed name := by
  unfold isSourceName SourceNamed
  rw [Option.any_eq_true]
  constructor
  · rintro ⟨extension, hextension, hmem⟩
    obtain ⟨stem, hstem, -, hname⟩ := Path.extension?_eq_some_iff.1 hextension
    exact ⟨stem, extension, hstem, by simpa using hmem, hname⟩
  · rintro ⟨stem, extension, hstem, hmem, hname⟩
    have hpoint : '.' ∉ extension.toList := noPoint_of_mem_sourceExtensions extension hmem
    exact ⟨extension, Path.extension?_eq_some_iff.2 ⟨stem, hstem, hpoint, hname⟩, by simpa using hmem⟩

/-! ## Trees of directories -/

/-- A tree in which every entry of a directory has a name, and no two of them have the same one. -/
inductive Entry.Proper : Entry → Prop where
  | file (contents : List UInt8) : Proper (.file contents)
  | directory (entries : List (String × Entry)) (hdistinct : (entries.map (·.1)).Nodup)
      (hnames : ∀ entry ∈ entries, IsName entry.1) (hbelow : ∀ entry ∈ entries, entry.2.Proper) :
      Proper (.directory entries)

namespace Entry

variable {e : Entry} {path name : String} {entries : List (String × Entry)}

/-- Names lead to a file that has the name of a source. -/
def HasSource (e : Entry) (names : List String) (contents : List UInt8) : Prop :=
  e.at? names = some (.file contents) ∧ ∃ name, names.getLast? = some name ∧ SourceNamed name

/-- No directory has too long a path to be listed. -/
def Listed (e : Entry) (path : String) : Prop :=
  ∀ names entries, e.at? names = some (.directory entries) →
    (below path names).utf8ByteSize ≤ Path.maxPath

/-- The path of every source leads to it. -/
def Opened (e : Entry) (path : String) : Prop :=
  ∀ names contents, e.HasSource names contents → Path.fault? (below path names) = none

/-- Every source is text. -/
def Readable (e : Entry) : Prop :=
  ∀ names contents, e.HasSource names contents → ∃ text, textOf contents = .ok text

theorem lookup_eq_some_iff {e : Entry} (hdistinct : (entries.map (·.1)).Nodup) :
    entries.lookup name = some e ↔ (name, e) ∈ entries := by
  induction entries with
  | nil => simp
  | cons first rest ih =>
    obtain ⟨m, e'⟩ := first
    rw [List.map_cons, List.nodup_cons] at hdistinct
    obtain ⟨hm, hrest⟩ := hdistinct
    rw [lookup_cons_eq_ite, List.mem_cons, Prod.mk.injEq]
    by_cases hname : name = m
    · subst hname
      have hnot : (name, e) ∉ rest := fun h => hm (List.mem_map.2 ⟨_, h, rfl⟩)
      simp [hnot, eq_comm]
    · rw [if_neg hname, ih hrest]
      simp [hname]

/-- Names that lead somewhere in a tree are names. -/
theorem Proper.isName (h : e.Proper) {found : Entry} {names : List String}
    (hfound : e.at? names = some found) : ∀ name ∈ names, IsName name := by
  induction names generalizing e with
  | nil => exact fun name hname => absurd hname List.not_mem_nil
  | cons m names ih =>
    obtain ⟨entries, below, rfl, hbelow, hfound⟩ := at?_cons_eq_some hfound
    cases h with
    | directory _ hdistinct hnames hproper =>
      have hmem : (m, below) ∈ entries := (lookup_eq_some_iff hdistinct).1 hbelow
      intro name hname
      rcases List.mem_cons.1 hname with rfl | hname
      · exact hnames _ hmem
      · exact ih (hproper _ hmem) hfound name hname

end Entry

/-! ## What is found in a directory -/

/-- The path of what was found. -/
def Found.path : Found → String
  | source path _ => path
  | unlisted path => path

theorem mem_inNameOrder {α : Type} {named : List (String × List α)} {a : α} :
    a ∈ inNameOrder named ↔ ∃ entry ∈ named, a ∈ entry.2 := by
  unfold inNameOrder
  rw [List.mem_flatMap]
  simp only [List.mem_mergeSort]

/-- What belongs to distinct names is in order if what belongs to each of them is, and what belongs
to a name is before what belongs to the names behind it. -/
theorem pairwise_inNameOrder {α : Type} {R : α → α → Prop} {named : List (String × List α)}
    (hdistinct : (named.map (·.1)).Nodup) (hwithin : ∀ entry ∈ named, entry.2.Pairwise R)
    (hacross : ∀ entry ∈ named, ∀ entry' ∈ named, entry.1 < entry'.1 →
      ∀ a ∈ entry.2, ∀ b ∈ entry'.2, R a b) :
    (inNameOrder named).Pairwise R := by
  have hperm := List.mergeSort_perm named (fun a b => decide (a.1 ≤ b.1))
  have hsorted : (named.mergeSort (fun a b => decide (a.1 ≤ b.1))).Pairwise (·.1 ≤ ·.1) := by
    refine (List.pairwise_mergeSort ?_ ?_ named).imp of_decide_eq_true
    · intro a b c hab hbc
      exact decide_eq_true (String.le_trans (of_decide_eq_true hab) (of_decide_eq_true hbc))
    · intro a b
      simpa using String.le_total a.1 b.1
  have hne : (named.mergeSort (fun a b => decide (a.1 ≤ b.1))).Pairwise (·.1 ≠ ·.1) := by
    have hnodup := (hperm.map Prod.fst).nodup_iff.2 hdistinct
    exact List.pairwise_map.1 hnodup
  unfold inNameOrder
  rw [List.pairwise_flatMap]
  constructor
  · intro entry hentry
    exact hwithin entry (hperm.mem_iff.1 hentry)
  · refine List.Pairwise.imp_of_mem ?_ (hsorted.and hne)
    rintro entry entry' hentry hentry' ⟨hle, hne⟩
    have hlt : entry.1 < entry'.1 := by
      by_contra hnot
      exact hne (String.le_antisymm hle hnot)
    exact hacross entry (hperm.mem_iff.1 hentry) entry' (hperm.mem_iff.1 hentry') hlt

theorem sourcesIn_eq_map (path : String) (entries : List (String × Entry)) :
    sourcesIn path entries =
      entries.map fun entry => (entry.1, entry.2.sources (Path.join path entry.1) entry.1) := by
  induction entries with
  | nil => rfl
  | cons first rest ih => rw [sourcesIn, ih, List.map_cons]

/-- What is found in the listing of a directory is found at one of its entries. -/
theorem mem_listing {path : String} {entries : List (String × Entry)} {found : Found} :
    found ∈ inNameOrder (sourcesIn path entries) ↔
      ∃ entry ∈ entries, found ∈ entry.2.sources (Path.join path entry.1) entry.1 := by
  rw [mem_inNameOrder, sourcesIn_eq_map]
  constructor
  · rintro ⟨_, hlisted, hfound⟩
    obtain ⟨entry, hentry, rfl⟩ := List.mem_map.1 hlisted
    exact ⟨entry, hentry, hfound⟩
  · rintro ⟨entry, hentry, hfound⟩
    exact ⟨_, List.mem_map_of_mem hentry, hfound⟩

namespace Entry

variable {e : Entry} {path name : String} {entries : List (String × Entry)} {found : Found}

/-- Names lead to what was found. The last of them, or that of the entry itself, is the name of a
source unless what was found is a directory that cannot be listed. -/
def Leads (e : Entry) (path name : String) (names : List String) : Found → Prop
  | .source path' contents =>
    path' = below path names ∧ e.at? names = some (.file contents) ∧
      SourceNamed (names.getLastD name)
  | .unlisted path' =>
    path' = below path names ∧ Path.maxPath < path'.utf8ByteSize ∧
      ∃ entries, e.at? names = some (.directory entries)

theorem Leads.path_eq {names : List String} (h : e.Leads path name names found) :
    found.path = below path names := by
  cases found <;> exact h.1

theorem Leads.exists_at? {names : List String} (h : e.Leads path name names found) :
    ∃ e', e.at? names = some e' := by
  cases found with
  | source path' contents => exact ⟨_, h.2.1⟩
  | unlisted path' => exact ⟨_, h.2.2.choose_spec⟩

theorem at?_cons_of_lookup {m : String} (hlookup : entries.lookup m = some e) (names : List String) :
    (directory entries).at? (m :: names) = e.at? names := by
  rw [at?, child?, hlookup]
  rfl

/-- What a directory leads to is what the entry of the first name leads to. -/
theorem leads_cons_iff {m : String} {names : List String} (hlookup : entries.lookup m = some e) :
    (directory entries).Leads path name (m :: names) found ↔
      e.Leads (Path.join path m) m names found := by
  unfold Leads
  simp only [at?_cons_of_lookup hlookup, List.getLastD_cons]
  rfl

/-- Whatever is found is led to. -/
theorem Proper.exists_leads (h : e.Proper) (hfound : found ∈ e.sources path name) :
    ∃ names, e.Leads path name names found := by
  induction h generalizing path name with
  | file contents =>
    unfold sources at hfound
    split at hfound
    next hname =>
      obtain rfl := List.mem_singleton.1 hfound
      exact ⟨[], rfl, rfl, isSourceName_iff.1 hname⟩
    · exact absurd hfound List.not_mem_nil
  | directory entries hdistinct hnames hproper ih =>
    unfold sources at hfound
    split at hfound
    next hlong =>
      obtain rfl := List.mem_singleton.1 hfound
      exact ⟨[], rfl, hlong, entries, rfl⟩
    next hshort =>
      obtain ⟨⟨m, e⟩, hmem, hfound⟩ := mem_listing.1 hfound
      obtain ⟨names, hleads⟩ := ih _ hmem hfound
      have hlookup : entries.lookup m = some e := (lookup_eq_some_iff hdistinct).2 hmem
      exact ⟨m :: names, (leads_cons_iff hlookup).2 hleads⟩

/-- What names lead to is found, unless a directory on the way cannot be listed. -/
theorem Leads.mem_sources {names : List String} (h : e.Leads path name names found) :
    found ∈ e.sources path name ∨ ∃ path', .unlisted path' ∈ e.sources path name := by
  induction names generalizing e path name with
  | nil =>
    cases found with
    | source path' contents =>
      obtain ⟨rfl, hat, hname⟩ := h
      obtain rfl := Option.some.inj hat
      have hsource : isSourceName name = true := isSourceName_iff.2 hname
      rw [sources, if_pos hsource]
      exact .inl (List.mem_singleton_self _)
    | unlisted path' =>
      obtain ⟨rfl, hlong, entries, hat⟩ := h
      obtain rfl := Option.some.inj hat
      rw [sources, if_pos hlong]
      exact .inl (List.mem_singleton_self _)
  | cons m names ih =>
    obtain ⟨e'', hat⟩ := h.exists_at?
    obtain ⟨entries, e', rfl, hlookup, -⟩ := at?_cons_eq_some hat
    have hmem : (m, e') ∈ entries := by
      obtain ⟨before, behind, rfl, -⟩ := List.lookup_eq_some_iff.1 hlookup
      exact List.mem_append_right _ List.mem_cons_self
    rw [sources]
    by_cases hlong : Path.maxPath < path.utf8ByteSize
    · rw [if_pos hlong]
      exact .inr ⟨path, List.mem_singleton_self _⟩
    · rw [if_neg hlong]
      rcases ih ((leads_cons_iff hlookup).1 h) with hfound | ⟨path', hfound⟩
      · exact .inl (mem_listing.2 ⟨_, hmem, hfound⟩)
      · exact .inr ⟨path', mem_listing.2 ⟨_, hmem, hfound⟩⟩

/-- What is found below a directory has its path and the names that lead there as components. -/
theorem Proper.components_eq (h : e.Proper) (hfound : found ∈ e.sources path name) :
    ∃ names : List String, components found.path = components path ++ names.map .name := by
  obtain ⟨names, hleads⟩ := h.exists_leads hfound
  obtain ⟨e', hat⟩ := hleads.exists_at?
  exact ⟨names, hleads.path_eq ▸ Path.components_below path (h.isName hat)⟩

/-- What is found at entries of a directory is in the order of their names. -/
theorem components_lt {m n : String} {e e' : Entry} {found found' : Found} (he : e.Proper)
    (he' : e'.Proper) (hm : IsName m) (hn : IsName n) (hlt : m < n)
    (hfound : found ∈ e.sources (Path.join path m) m)
    (hfound' : found' ∈ e'.sources (Path.join path n) n) :
    components found.path < components found'.path := by
  obtain ⟨names, hnames⟩ := he.components_eq hfound
  obtain ⟨names', hnames'⟩ := he'.components_eq hfound'
  rw [hnames, hnames', Path.components_join path hm, Path.components_join path hn,
    List.append_assoc, List.append_assoc]
  exact List.Lex.append_left _ (List.Lex.rel (Component.name_lt_name hlt)) _

/-- What is found comes in the order of the components of its paths. The induction is on the tree: the
entries of a directory are in order by their names, which are the components that differ first. -/
theorem Proper.pairwise_sources (h : e.Proper) (path name : String) :
    (e.sources path name).Pairwise (components ·.path < components ·.path) := by
  induction h generalizing path name with
  | file contents =>
    unfold sources
    split
    · exact List.pairwise_singleton _ _
    · exact List.Pairwise.nil
  | directory entries hdistinct hnames hproper ih =>
    unfold sources
    split
    · exact List.pairwise_singleton _ _
    · rw [sourcesIn_eq_map]
      apply pairwise_inNameOrder
      · rw [List.map_map]
        exact hdistinct
      · rintro _ hlisted
        obtain ⟨entry, hentry, rfl⟩ := List.mem_map.1 hlisted
        exact ih entry hentry _ _
      · rintro _ hlisted _ hlisted' hlt found hfound found' hfound'
        obtain ⟨entry, hentry, rfl⟩ := List.mem_map.1 hlisted
        obtain ⟨entry', hentry', rfl⟩ := List.mem_map.1 hlisted'
        exact components_lt (hproper _ hentry) (hproper _ hentry') (hnames _ hentry)
          (hnames _ hentry') hlt hfound hfound'

/-- The sources of a directory are the files that the names which lead to what is found lead to. -/
theorem hasSource_iff_leads (hdirectory : e.isDirectory = true) (path name : String)
    {names : List String} {contents : List UInt8} :
    e.HasSource names contents ↔ e.Leads path name names (.source (below path names) contents) := by
  cases names with
  | nil =>
    cases e with
    | file contents => cases hdirectory
    | directory entries =>
      constructor
      · rintro ⟨hat, -⟩
        cases hat
      · rintro ⟨-, hat, -⟩
        cases hat
  | cons m names =>
    unfold HasSource Leads
    rw [List.getLast?_cons, List.getLastD_cons]
    simp

end Entry

/-! ## Loading a directory -/

theorem eq_notText_of_textOf {bytes : List UInt8} {fault : FileFault}
    (h : textOf bytes = .error fault) : fault = .notText := by
  unfold textOf at h
  split at h
  · cases h
  · exact (Except.error.inj h).symm

theorem SourceFile.ofBytes_eq_ok_iff {name : String} {bytes : List UInt8} {file : SourceFile} :
    ofBytes name bytes = .ok file ↔ file.name = name ∧ textOf bytes = .ok file.contents := by
  obtain ⟨name', contents⟩ := file
  unfold ofBytes
  cases textOf bytes <;> simp [Except.map, eq_comm]

namespace Found

theorem read_source_of_opened {path : String} {contents : List UInt8}
    (h : Path.fault? path = none) : (source path contents).read = SourceFile.ofBytes path contents := by
  simp only [read]
  rw [h]

theorem read_source_eq_ok_iff {path : String} {contents : List UInt8} {file : SourceFile} :
    (source path contents).read = .ok file ↔
      Path.fault? path = none ∧ file.name = path ∧ textOf contents = .ok file.contents := by
  cases hfault : Path.fault? path with
  | none => simp [read_source_of_opened hfault, SourceFile.ofBytes_eq_ok_iff]
  | some fault => simp [read, hfault]

/-- What is read has the path of what was found. -/
theorem name_of_read {found : Found} {file : SourceFile} (h : found.read = .ok file) :
    file.name = found.path := by
  cases found with
  | unlisted path => cases h
  | source path contents => exact (read_source_eq_ok_iff.1 h).2.1

end Found

/-- A directory was loaded as some files: they are its sources, with their paths and texts, in the
order of the components of their paths, and none is there twice. -/
structure Entry.LoadedAs (e : Entry) (path : String) (files : List SourceFile) : Prop where
  mem_iff : ∀ file, file ∈ files ↔ ∃ names contents, e.HasSource names contents ∧
    file.name = below path names ∧ textOf contents = .ok file.contents
  ordered : files.Pairwise (components ·.name < components ·.name)
  distinct : (files.map (·.name)).Nodup

namespace Disk

variable {d : Disk} {path : String} {e : Entry}

theorem fault?_of_look (h : d.look path = .ok e) : Path.fault? path = none := by
  unfold look at h
  split at h
  · cases h
  · assumption

/-- A directory that is looked at can be listed. -/
theorem load_of_look (hlook : d.look path = .ok e) (hdirectory : e.isDirectory = true) :
    d.load path = (e.sources path "").mapM Found.read := by
  have hshort : ¬Path.maxPath < path.utf8ByteSize := by
    intro hlong
    have hfault := fault?_of_look hlook
    unfold Path.fault? at hfault
    rw [if_pos hlong] at hfault
    split at hfault
    · cases hfault
    · split at hfault <;> cases hfault
  unfold load
  rw [hlook]
  cases e with
  | file contents => cases hdirectory
  | directory entries =>
    simp only [Entry.load, Entry.sources]
    rw [if_neg hshort]

/-- Where a directory was loaded, all that its names lead to was found and read. -/
theorem exists_read_of_load {files : List SourceFile} {names : List String} {found : Found}
    (hlook : d.look path = .ok e) (hdirectory : e.isDirectory = true)
    (hload : d.load path = .ok files) (hleads : e.Leads path "" names found) :
    found ∈ e.sources path "" ∧ ∃ file, found.read = .ok file := by
  rw [load_of_look hlook hdirectory] at hload
  have hmap := map_eq_of_mapM_eq_ok hload
  have hall : ∀ found ∈ e.sources path "", ∃ file, found.read = .ok file := by
    intro found hfound
    have hmem : found.read ∈ files.map Except.ok := hmap ▸ List.mem_map_of_mem hfound
    obtain ⟨file, -, hfile⟩ := List.mem_map.1 hmem
    exact ⟨file, hfile.symm⟩
  rcases hleads.mem_sources with hfound | ⟨path', hfound⟩
  · exact ⟨hfound, hall _ hfound⟩
  · obtain ⟨file, hfile⟩ := hall _ hfound
    cases hfile

/-- Where a directory was loaded, everything could be listed, opened and read. -/
theorem readable_of_load {files : List SourceFile} (hlook : d.look path = .ok e)
    (hdirectory : e.isDirectory = true) (hload : d.load path = .ok files) :
    e.Listed path ∧ e.Opened path ∧ e.Readable := by
  have hread : ∀ {names contents}, e.HasSource names contents →
      ∃ file, (Found.source (below path names) contents).read = .ok file := fun hsource =>
    (exists_read_of_load hlook hdirectory hload
      ((Entry.hasSource_iff_leads hdirectory path "").1 hsource)).2
  refine ⟨?_, ?_, ?_⟩
  · intro names entries hat
    by_contra hlong
    have hleads : e.Leads path "" names (.unlisted (below path names)) :=
      ⟨rfl, Nat.not_le.1 hlong, entries, hat⟩
    obtain ⟨-, file, hfile⟩ := exists_read_of_load hlook hdirectory hload hleads
    cases hfile
  · intro names contents hsource
    obtain ⟨file, hfile⟩ := hread hsource
    exact (Found.read_source_eq_ok_iff.1 hfile).1
  · intro names contents hsource
    obtain ⟨file, hfile⟩ := hread hsource
    exact ⟨_, (Found.read_source_eq_ok_iff.1 hfile).2.2⟩

/-- What a directory is loaded as, if it is loaded. -/
theorem loadedAs_of_load {files : List SourceFile} (hlook : d.look path = .ok e)
    (hdirectory : e.isDirectory = true) (hproper : e.Proper) (hload : d.load path = .ok files) :
    e.LoadedAs path files := by
  have hmap : (e.sources path "").map Found.read = files.map .ok :=
    map_eq_of_mapM_eq_ok (load_of_look hlook hdirectory ▸ hload)
  have hread : ∀ file, file ∈ files ↔ ∃ found ∈ e.sources path "", found.read = .ok file := by
    intro file
    rw [← List.mem_map, hmap]
    simp
  have hordered : files.Pairwise (components ·.name < components ·.name) := by
    refine pairwise_of_map_eq_ok ?_ hmap (hproper.pairwise_sources path "")
    intro found found' file file' hlt hfile hfile'
    rw [Found.name_of_read hfile, Found.name_of_read hfile']
    exact hlt
  have hdistinct : (files.map (·.name)).Nodup := by
    rw [List.Nodup, List.pairwise_map]
    refine hordered.imp ?_
    intro file file' hlt heq
    rw [heq] at hlt
    exact List.lt_irrefl _ hlt
  refine ⟨fun file => ?_, hordered, hdistinct⟩
  rw [hread]
  constructor
  · rintro ⟨found, hfound, hfile⟩
    obtain ⟨names, hleads⟩ := hproper.exists_leads hfound
    cases found with
    | unlisted path' => cases hfile
    | source path' contents =>
      obtain ⟨-, hname, htext⟩ := Found.read_source_eq_ok_iff.1 hfile
      obtain rfl : path' = below path names := hleads.path_eq
      exact ⟨names, contents, (Entry.hasSource_iff_leads hdirectory path "").2 hleads, hname, htext⟩
  · rintro ⟨names, contents, hsource, hname, htext⟩
    have hleads := (Entry.hasSource_iff_leads hdirectory path "").1 hsource
    obtain ⟨hfound, file', hfile'⟩ := exists_read_of_load hlook hdirectory hload hleads
    obtain ⟨hopened, -, -⟩ := Found.read_source_eq_ok_iff.1 hfile'
    exact ⟨_, hfound, Found.read_source_eq_ok_iff.2 ⟨hopened, hname, htext⟩⟩

/-- Where everything can be listed and opened, a directory fails to be loaded only since one of its
sources is not text. -/
theorem exists_notText_of_load {fault : FileFault} (hlook : d.look path = .ok e)
    (hdirectory : e.isDirectory = true) (hproper : e.Proper) (hlisted : e.Listed path)
    (hopened : e.Opened path) (hload : d.load path = .error fault) :
    fault = .notText ∧ ∃ names contents, e.HasSource names contents ∧
      textOf contents = .error .notText := by
  rw [load_of_look hlook hdirectory] at hload
  obtain ⟨found, hfound, hfault⟩ := exists_of_mapM_eq_error hload
  obtain ⟨names, hleads⟩ := hproper.exists_leads hfound
  cases found with
  | unlisted path' =>
    obtain ⟨rfl, hlong, entries, hat⟩ := hleads
    exact absurd (hlisted names entries hat) (Nat.not_le.2 hlong)
  | source path' contents =>
    obtain rfl : path' = below path names := hleads.path_eq
    have hsource := (Entry.hasSource_iff_leads hdirectory path "").2 hleads
    rw [Found.read_source_of_opened (hopened names contents hsource)] at hfault
    unfold SourceFile.ofBytes at hfault
    cases htext : textOf contents with
    | ok text =>
      rw [htext] at hfault
      cases hfault
    | error fault' =>
      rw [htext] at hfault
      obtain rfl : fault' = fault := Except.error.inj hfault
      obtain rfl := eq_notText_of_textOf htext
      exact ⟨rfl, names, contents, hsource, htext⟩

/-- Loading a directory. It is loaded if, and only if, everything in it and below it can be listed and
opened and all its sources are text. What it is loaded as are all its sources and nothing else, each
of them once, in the order of the components of their paths. And if one of its sources is not text
then there are no files but a fault, and it is this one if there is no other. -/
theorem load_directory (hlook : d.look path = .ok e) (hdirectory : e.isDirectory = true)
    (hproper : e.Proper) :
    ((∃ files, d.load path = .ok files) ↔ e.Listed path ∧ e.Opened path ∧ e.Readable) ∧
    (∀ files, d.load path = .ok files → e.LoadedAs path files) ∧
    (∀ names contents fault, e.HasSource names contents → textOf contents = .error fault →
      ∃ fault', d.load path = .error fault' ∧
        (e.Listed path → e.Opened path → fault' = .notText)) := by
  refine ⟨⟨?_, ?_⟩, ?_, ?_⟩
  · rintro ⟨files, hload⟩
    exact readable_of_load hlook hdirectory hload
  · rintro ⟨hlisted, hopened, hreadable⟩
    cases hload : d.load path with
    | ok files => exact ⟨files, rfl⟩
    | error fault =>
      obtain ⟨-, names, contents, hsource, hfault⟩ :=
        exists_notText_of_load hlook hdirectory hproper hlisted hopened hload
      obtain ⟨text, htext⟩ := hreadable names contents hsource
      rw [htext] at hfault
      cases hfault
  · intro files hload
    exact loadedAs_of_load hlook hdirectory hproper hload
  · intro names contents fault hsource hfault
    cases hload : d.load path with
    | ok files =>
      obtain ⟨-, -, hreadable⟩ := readable_of_load hlook hdirectory hload
      obtain ⟨text, htext⟩ := hreadable names contents hsource
      rw [htext] at hfault
      cases hfault
    | error fault' =>
      refine ⟨fault', rfl, ?_⟩
      intro hlisted hopened
      exact (exists_notText_of_load hlook hdirectory hproper hlisted hopened hload).1

/-- A directory that has sources beside and below each other, a file that is none, and one whose name
is nothing but an extension. -/
def mixedTree : Entry :=
  .directory [("b.txt", .file [0xff]), ("a.py", .file [0x32]), (".py", .file [0xff]),
    ("a", .directory [("x.lpy", .file [0x31])])]

def mixedDisk : Disk := { root := .directory [("d", mixedTree)] }

theorem proper_mixedTree : mixedTree.Proper := by
  refine .directory _ (by decide) (by decide) ?_
  have hbelow : (Entry.directory [("x.lpy", .file [0x31])]).Proper := by
    refine .directory _ (by decide) (by decide) ?_
    simp [Entry.Proper.file]
  simp [Entry.Proper.file, hbelow]

/-- The file `a.py` comes behind what is in `a`, although its path is before that by its text. -/
theorem sources_mixedTree :
    mixedTree.sources "d" "" = [.source "d/a/x.lpy" [0x31], .source "d/a.py" [0x32]] := by
  have hnames : isSourceName "b.txt" = false ∧ isSourceName "a.py" = true ∧
      isSourceName ".py" = false ∧ isSourceName "x.lpy" = true := by decide +kernel
  have hpaths : Path.join "d" "a" = "d/a" ∧ Path.join "d" "a.py" = "d/a.py" ∧
      Path.join "d/a" "x.lpy" = "d/a/x.lpy" := by decide +kernel
  have hshort : ¬Path.maxPath < "d".utf8ByteSize ∧ ¬Path.maxPath < "d/a".utf8ByteSize := by
    decide +kernel
  simp only [mixedTree, Entry.sources, sourcesIn, hnames, hpaths, hshort, if_true, if_false,
    Bool.false_eq_true]
  simp [inNameOrder, List.mergeSort]

theorem load_directory_mixedDisk :
    mixedDisk.look "d" = .ok mixedTree ∧
    mixedDisk.load "d" = .ok [⟨"d/a/x.lpy", "1"⟩, ⟨"d/a.py", "2"⟩] ∧
    (mixedTree.Listed "d" ∧ mixedTree.Opened "d" ∧ mixedTree.Readable) ∧
    mixedTree.LoadedAs "d" [⟨"d/a/x.lpy", "1"⟩, ⟨"d/a.py", "2"⟩] := by
  have hlook : mixedDisk.look "d" = .ok mixedTree := by rfl
  have hread : ([.source "d/a/x.lpy" [0x31], .source "d/a.py" [0x32]].mapM Found.read).toOption =
      some [⟨"d/a/x.lpy", "1"⟩, ⟨"d/a.py", "2"⟩] := by decide +kernel
  have hload : mixedDisk.load "d" = .ok [⟨"d/a/x.lpy", "1"⟩, ⟨"d/a.py", "2"⟩] := by
    rw [load_of_look hlook rfl, sources_mixedTree]
    cases hfiles : [.source "d/a/x.lpy" [0x31], .source "d/a.py" [0x32]].mapM Found.read with
    | error fault =>
      rw [hfiles] at hread
      cases hread
    | ok files =>
      rw [hfiles] at hread
      exact congrArg Except.ok (Option.some.inj hread)
  have hdirectory := load_directory hlook rfl proper_mixedTree
  exact ⟨hlook, hload, hdirectory.1.1 ⟨_, hload⟩, hdirectory.2.1 _ hload⟩

end Disk

end Stampline
