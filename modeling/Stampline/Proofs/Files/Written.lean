import Stampline.Files.Disk

/-!
# Written files

A file that was written is found at its path, with the contents that were written.
-/

namespace Stampline

/-! ## Entries -/

namespace Entry

theorem lookup_cons_eq_ite (n m : String) (e : Entry) (rest : List (String × Entry)) :
    ((m, e) :: rest).lookup n = if n = m then some e else rest.lookup n := by
  by_cases h : n = m
  · subst h
    rw [List.lookup_cons_self, if_pos rfl]
  · have hne : (n == m) = false := by simpa using h
    rw [List.lookup_cons, hne, if_neg h]

theorem lookup_insert (name n : String) (new : Entry) (entries : List (String × Entry)) :
    (insert name new entries).lookup n = if n = name then some new else entries.lookup n := by
  induction entries with
  | nil => exact lookup_cons_eq_ite n name new []
  | cons first rest ih =>
    obtain ⟨m, e⟩ := first
    unfold insert
    by_cases hm : m = name
    · subst hm
      simp only [if_true, lookup_cons_eq_ite]
      split <;> rfl
    · rw [if_neg hm, lookup_cons_eq_ite, lookup_cons_eq_ite, ih]
      by_cases hn : n = m
      · rw [if_pos hn, if_pos hn, if_neg (hn ▸ hm)]
      · rw [if_neg hn, if_neg hn]

theorem at?_cons_eq_some {e found : Entry} {name : String} {names : List String}
    (h : e.at? (name :: names) = some found) :
    ∃ entries below, e = .directory entries ∧ entries.lookup name = some below ∧
      below.at? names = some found := by
  cases e with
  | file contents => cases h
  | directory entries =>
    obtain ⟨below, hbelow, h⟩ := Option.bind_eq_some_iff.1 h
    exact ⟨entries, below, rfl, hbelow, h⟩

/-- The directories of an entry are directories of another one, where they have the same names at
least. -/
def Extends (e e' : Entry) : Prop :=
  ∀ names entries, e.at? names = some (.directory entries) →
    ∃ entries', e'.at? names = some (.directory entries') ∧
      ∀ name, (entries.lookup name).isSome → (entries'.lookup name).isSome

/-- A file has no directories. -/
theorem extends_file {contents : List UInt8} {e' : Entry} : (file contents).Extends e' := by
  intro names entries h
  cases names <;> cases h

/-- A directory is extended where an entry is put in place of one that it extends. -/
theorem Extends.insert {name : String} {new : Entry} {entries : List (String × Entry)}
    (h : ∀ old, entries.lookup name = some old → old.Extends new) :
    (directory entries).Extends (directory (insert name new entries)) := by
  intro names found hfound
  cases names with
  | nil =>
    obtain rfl : entries = found := directory.inj (Option.some.inj hfound)
    refine ⟨_, rfl, fun n hn => ?_⟩
    rw [lookup_insert]
    split
    · rfl
    · exact hn
  | cons n names =>
    obtain ⟨below, hbelow, hfound⟩ := Option.bind_eq_some_iff.1 hfound
    by_cases hn : n = name
    · subst hn
      obtain ⟨found', hfound', hnames⟩ := h below hbelow names found hfound
      exact ⟨found', Option.bind_eq_some_iff.2 ⟨new, by simp [child?, lookup_insert], hfound'⟩, hnames⟩
    · refine ⟨found, Option.bind_eq_some_iff.2 ⟨below, ?_, hfound⟩, fun _ => id⟩
      rw [child?, lookup_insert, if_neg hn]
      exact hbelow

theorem put_cons {m : String} {ms : List String} {new below : Entry} {outer : List (String × Entry)}
    (hms : ms ≠ []) (h : outer.lookup m = some below) :
    (directory outer).put new (m :: ms) = directory (insert m (below.put new ms) outer) := by
  cases ms with
  | nil => exact absurd rfl hms
  | cons n ns =>
    simp only [put]
    rw [h]

/-- An entry is put into the directory that the names before the last lead to. Where it does not take
the place of a directory all directories are kept. -/
theorem at?_put {names : List String} {e : Entry} {entries : List (String × Entry)} (name : String)
    (new : Entry) (h : e.at? names = some (.directory entries)) :
    (e.put new (names ++ [name])).at? names = some (.directory (insert name new entries)) ∧
      ((entries.lookup name).any (·.isDirectory) = false →
        e.Extends (e.put new (names ++ [name]))) := by
  induction names generalizing e with
  | nil =>
    obtain rfl := Option.some.inj h
    refine ⟨rfl, fun hfile => Extends.insert fun old hold => ?_⟩
    cases old with
    | file contents => exact extends_file
    | directory inner =>
      rw [hold] at hfile
      cases hfile
  | cons m ms ih =>
    obtain ⟨outer, below, rfl, hbelow, h⟩ := at?_cons_eq_some h
    obtain ⟨hfound, hextends⟩ := ih h
    rw [List.cons_append, put_cons (by simp) hbelow]
    refine ⟨?_, fun hfile => Extends.insert fun old hold => ?_⟩
    · exact Option.bind_eq_some_iff.2 ⟨_, by simp [child?, lookup_insert], hfound⟩
    · obtain rfl := Option.some.inj (hbelow.symm.trans hold)
      exact hextends hfile

theorem at?_append (e : Entry) (names names' : List String) :
    e.at? (names ++ names') = (e.at? names).bind (·.at? names') := by
  induction names generalizing e with
  | nil => rfl
  | cons name names ih =>
    simp only [List.cons_append, at?, ih, Option.bind_assoc]

end Entry

/-! ## Disks -/

namespace Disk

variable {d d' : Disk} {path : String}

theorem follow_cons_eq_ok {names names' parts : List String} {part : String}
    (h : d.follow names (part :: parts) = .ok names') :
    ∃ entries, d.root.at? names = some (.directory entries) ∧
      (((part = "" ∨ part = ".") ∧ d.follow names parts = .ok names') ∨
       (¬(part = "" ∨ part = ".") ∧ part = ".." ∧ d.follow names.dropLast parts = .ok names') ∨
       (¬(part = "" ∨ part = ".") ∧ part ≠ ".." ∧ ¬Path.maxName < part.utf8ByteSize ∧
        (entries.lookup part).isSome ∧ d.follow (names ++ [part]) parts = .ok names')) := by
  unfold follow at h
  split at h
  · cases h
  · cases h
  next entries hentries =>
    refine ⟨entries, hentries, ?_⟩
    split at h
    · next hstays => exact .inl ⟨hstays, h⟩
    split at h
    · next hmoves hup => exact .inr (.inl ⟨hmoves, hup, h⟩)
    split at h
    · cases h
    split at h
    · next hmoves hdown hshort hthere => exact .inr (.inr ⟨hmoves, hdown, hshort, hthere, h⟩)
    · cases h

/-- Where directories are kept, parts lead where they led. -/
theorem follow_append {names names' parts : List String} (h : d.root.Extends d'.root)
    (hfollow : d.follow names parts = .ok names') (further : List String) :
    d'.follow names (parts ++ further) = d'.follow names' further := by
  induction parts generalizing names with
  | nil =>
    obtain rfl := Except.ok.inj hfollow
    rfl
  | cons part parts ih =>
    obtain ⟨entries, hentries, hcases⟩ := follow_cons_eq_ok hfollow
    obtain ⟨entries', hentries', hnames⟩ := h names entries hentries
    rw [List.cons_append, follow, hentries']
    dsimp only
    rcases hcases with ⟨hstays, hrest⟩ | ⟨hmoves, hup, hrest⟩ | ⟨hmoves, hdown, hshort, hthere, hrest⟩
    · rw [if_pos hstays]
      exact ih hrest
    · rw [if_neg hmoves, if_pos hup]
      exact ih hrest
    · rw [if_neg hmoves, if_neg hdown, if_neg hshort, if_pos (hnames part hthere)]
      exact ih hrest

/-- Parts that end in an empty one get fewer if the empty ones at the end are left out. -/
theorem eq_append_of_trimmed {parts whole : List String} {name : String}
    (hwhole : (parts.reverse.dropWhile (· == "")).reverse = whole)
    (hlength : ¬whole.length < parts.length) (hname : whole.getLast? = some name) :
    parts = whole.dropLast ++ [name] ∧ name ≠ "" := by
  have hsuffix : whole.reverse <:+ parts.reverse := by
    rw [← hwhole, List.reverse_reverse]
    exact List.dropWhile_suffix _
  have hall : whole.reverse = parts.reverse :=
    hsuffix.eq_of_length_le (by simpa using hlength)
  have hparts : parts = whole.dropLast ++ [name] := by
    obtain ⟨above, habove⟩ := List.getLast?_eq_some_iff.1 hname
    rw [← List.reverse_inj.1 hall, habove, List.dropLast_concat]
  refine ⟨hparts, fun hempty => hlength ?_⟩
  rw [← hwhole, hparts, hempty]
  have hle := (List.dropWhile_sublist (fun part : String => part == "")
    (l := whole.dropLast.reverse)).length_le
  simp only [List.reverse_append, List.reverse_cons, List.reverse_nil, List.nil_append,
    List.singleton_append, List.dropWhile_cons, beq_self_eq_true, if_true, List.length_reverse,
    List.length_append, List.length_singleton] at hle ⊢
  omega

theorem writeFile_eq_ok {contents : List UInt8} (h : d.writeFile path contents = .ok d') :
    ∃ above name names entries, Path.fault? path = none ∧ Path.parts path = above ++ [name] ∧
      ¬(name = "" ∨ name = ".") ∧ name ≠ ".." ∧ ¬Path.maxName < name.utf8ByteSize ∧
      d.follow (d.start path) above = .ok names ∧ d.root.at? names = some (.directory entries) ∧
      (entries.lookup name).any (·.isDirectory) = false ∧
      d' = { d with root := d.root.put (.file contents) (names ++ [name]) } := by
  unfold writeFile at h
  split at h
  · cases h
  next hfault =>
    dsimp only at h
    split at h
    · cases h
    next names hfollow =>
      split at h
      · cases h
      · cases h
      · cases h
      next entries name hentries hname =>
        split at h
        · cases h
        next hplain =>
          split at h
          · cases h
          next hshort =>
            split at h
            · cases h
            next hfile =>
              obtain rfl := Except.ok.inj h
              simp only [not_or] at hplain
              obtain ⟨hlength, hhere, hup⟩ := hplain
              obtain ⟨hparts, hempty⟩ := eq_append_of_trimmed rfl hlength hname
              exact ⟨_, name, names, entries, hfault, hparts, by simp [hempty, hhere], hup, hshort,
                hfollow, hentries, by simpa using hfile, rfl⟩

/-- A file that was written is found at its path. -/
theorem look_of_writeFile {contents : List UInt8} (h : d.writeFile path contents = .ok d') :
    d'.look path = .ok (.file contents) := by
  obtain ⟨above, name, names, entries, hfault, hparts, hstays, hup, hshort, hfollow, hentries, hfile,
    hd'⟩ := writeFile_eq_ok h
  have hroot : d'.root = d.root.put (.file contents) (names ++ [name]) := by rw [hd']
  have hstart : d'.start path = d.start path := by rw [hd', start, start]
  obtain ⟨hat, hextends⟩ := Entry.at?_put name (.file contents) hentries
  rw [← hroot] at hat hextends
  have hthere : d'.follow names [name] = .ok (names ++ [name]) := by
    rw [follow, hat]
    dsimp only
    rw [if_neg hstays, if_neg hup, if_neg hshort, if_pos (by simp [Entry.lookup_insert]), follow]
  have hleads : d'.follow (d'.start path) (Path.parts path) = .ok (names ++ [name]) := by
    rw [hstart, hparts, follow_append (hextends hfile) hfollow, hthere]
  have hfound : d'.root.at? (names ++ [name]) = some (.file contents) := by
    rw [Entry.at?_append, hat]
    simp [Entry.at?, Entry.child?, Entry.lookup_insert]
  unfold look
  rw [hfault]
  dsimp only
  rw [hleads]
  dsimp only
  rw [hfound]

end Disk

end Stampline
