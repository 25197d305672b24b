import TagFormula.Proofs.StoredFormula
import TagFormula.Storage.FormulaFile

/-!
Writing a file and reading it again. A write that goes through leaves all folders in their places,
so the path of the file leads to it as before: what was written is read back, and the next write
goes through as well. A save that fails takes nothing away, for a file that can be read can be
written.
-/
namespace TagFormula

namespace Disk

/-! ## Entries -/

theorem entry?_put_self {place : List String} (below : place ≠ []) (d : Disk) (e : Entry) :
    Disk.entry? (d.put place e) place = some e := by
  simp [put, entry?, below]

theorem entry?_put_other {place other : List String} (apart : other ≠ place) (d : Disk)
    (e : Entry) : Disk.entry? (d.put place e) other = d.entry? other := by
  have missed : (place == other) = false := beq_eq_false_iff_ne.mpr apart.symm
  have kept : (d.entries.filter (·.1 != place)).find? (·.1 == other) =
      d.entries.find? (·.1 == other) := by
    induction d.entries with
    | nil => rfl
    | cons entry rest ih =>
      by_cases here : entry.1 = place
      · have first : (entry.1 == other) = false := here ▸ missed
        rw [List.filter_cons_of_neg (by simp [here]), ih, List.find?_cons_of_neg (by simp [first])]
      · rw [List.filter_cons_of_pos (by simp [here]), List.find?_cons, List.find?_cons, ih]
  simp only [put, entry?, List.find?_cons, missed, kept]

theorem ne_nil_of_not_folder {d : Disk} {place : List String} (h : d.entry? place ≠ some .folder) :
    place ≠ [] := by
  rintro rfl
  exact h rfl

/-! ## Folders on the way -/

def HasFolders (d : Disk) (place : List String) : List String → Prop
  | [] => True
  | part :: rest =>
    d.entry? (enter place part) = some .folder ∧ d.HasFolders (enter place part) rest

theorem HasFolders.put {d : Disk} {place start : List String} {parts : List String}
    (h : d.HasFolders start parts) (free : d.entry? place ≠ some .folder) (e : Entry) :
    (d.put place e).HasFolders start parts := by
  induction parts generalizing start with
  | nil => trivial
  | cons part rest ih =>
    obtain ⟨first, later⟩ := h
    have apart : enter start part ≠ place := fun same => free (same ▸ first)
    exact ⟨(entry?_put_other apart d e).trans first, ih later⟩

theorem HasFolders.createParts {d : Disk} {start : List String} {parts : List String}
    (h : d.HasFolders start parts) : d.createParts start parts = .ok d := by
  induction parts generalizing start with
  | nil => rfl
  | cons part rest ih =>
    simp only [Disk.createParts, h.1]
    exact ih h.2

theorem entry?_of_createParts {d d' : Disk} {start parts place : List String} {e : Entry}
    (made : d.createParts start parts = .ok d') (there : d.entry? place = some e) :
    d'.entry? place = some e := by
  induction parts generalizing d start with
  | nil =>
    cases made
    exact there
  | cons part rest ih =>
    simp only [createParts] at made
    split at made
    · exact ih made there
    · cases made
    · next missing =>
      have apart : place ≠ enter start part := by
        rintro rfl
        cases missing.symm.trans there
      exact ih made ((entry?_put_other apart d .folder).trans there)

theorem hasFolders_of_createParts {d d' : Disk} {start parts : List String}
    (made : d.createParts start parts = .ok d') : d'.HasFolders start parts := by
  induction parts generalizing d start with
  | nil => trivial
  | cons part rest ih =>
    simp only [createParts] at made
    split at made
    · next folder => exact ⟨entry?_of_createParts made folder, ih made⟩
    · cases made
    · next missing =>
      have below : enter start part ≠ [] := by
        refine ne_nil_of_not_folder (d := d) ?_
        simp [missing]
      exact ⟨entry?_of_createParts made (entry?_put_self below d .folder), ih made⟩

theorem current_of_createParts {d d' : Disk} {start parts : List String}
    (made : d.createParts start parts = .ok d') : d'.current = d.current := by
  induction parts generalizing d start with
  | nil =>
    cases made
    rfl
  | cons part rest ih =>
    simp only [createParts] at made
    split at made
    · exact ih made
    · cases made
    · exact (ih made).trans rfl

theorem walk_put {d : Disk} {start place goal : List String} {parts : List String}
    (walked : d.walk start parts = .ok goal) (free : d.entry? place ≠ some .folder) (e : Entry) :
    (d.put place e).walk start parts = .ok goal := by
  induction parts generalizing start with
  | nil => exact walked
  | cons part rest ih =>
    simp only [walk] at walked ⊢
    split at walked
    · cases walked
    · cases walked
    · next folder =>
      have apart : start ≠ place := fun same => free (same ▸ folder)
      rw [entry?_put_other apart, folder]
      exact ih walked

theorem walk_of_createParts {d d' : Disk} {start parts goal : List String}
    (made : d.createParts start parts = .ok d') {way : List String} {place : List String}
    (walked : d.walk place way = .ok goal) : d'.walk place way = .ok goal := by
  induction way generalizing place with
  | nil => exact walked
  | cons part rest ih =>
    simp only [walk] at walked ⊢
    split at walked
    · cases walked
    · cases walked
    · next folder =>
      rw [entry?_of_createParts made folder]
      exact ih walked

/-! ## Files -/

structure Writable (d : Disk) (path : String) (place : List String) : Prop where
  named : path.isEmpty = false
  plain : Path.endsInSlash path = false
  walked : d.walk (d.origin path) (Path.parts path) = .ok place
  free : d.entry? place ≠ some .folder

theorem write_eq_ok_iff {d d' : Disk} {path : String} {content : ByteArray} :
    d.write path content = .ok d' ↔
      ∃ place, d.Writable path place ∧ d' = d.put place (.file content) := by
  constructor
  · intro written
    simp only [write, bind, Except.bind] at written
    split at written
    · cases written
    · next place walked =>
      split at written
      · cases written
      · next named =>
        split at written
        · cases written
        · next free =>
          split at written
          · cases written
          · next plain =>
            cases written
            exact ⟨place, ⟨by simpa using named, by simpa using plain, walked, free⟩, rfl⟩
  · rintro ⟨place, ⟨named, plain, walked, free⟩, rfl⟩
    simp only [write, walked, named, plain, bind, Except.bind, Bool.false_eq_true, ↓reduceIte]
    rfl

theorem Writable.put {d : Disk} {path : String} {place : List String} (h : d.Writable path place)
    (content : ByteArray) : (d.put place (.file content)).Writable path place where
  named := h.named
  plain := h.plain
  walked := walk_put h.walked h.free (.file content)
  free := by
    rw [entry?_put_self (ne_nil_of_not_folder h.free)]
    intro same
    cases same

theorem find_put {d : Disk} {path : String} {place : List String} (h : d.Writable path place)
    (content : ByteArray) : (d.put place (.file content)).find path = .ok (.file content) := by
  have after := h.put content
  have located : (d.put place (.file content)).locate path = .ok place := by
    simp only [locate, after.named, after.plain, Bool.false_eq_true, ↓reduceIte]
    exact after.walked
  simp only [find, located, bind, Except.bind, entry?_put_self (ne_nil_of_not_folder h.free)]
  rfl

theorem readText_put {d : Disk} {path : String} {place : List String} (h : d.Writable path place)
    (text : String) : (d.put place (.file text.toUTF8)).readText path = .ok text := by
  have valid : text.toUTF8.IsValidUTF8 := text.isValidUTF8
  have decoded : String.fromUTF8? text.toUTF8 = some text := dif_pos valid
  simp only [readText, find_put h, bind, Except.bind, decoded]
  rfl

/-- A slash at the end leads to folders only. -/
theorem folder_of_walk_dot {d : Disk} {start parts place : List String}
    (walked : d.walk start (parts ++ ["."]) = .ok place) : d.entry? place = some .folder := by
  induction parts generalizing start with
  | nil =>
    simp only [List.nil_append, walk] at walked
    split at walked
    · cases walked
    · cases walked
    · next folder =>
      cases walked
      exact folder
  | cons part rest ih =>
    simp only [List.cons_append, walk] at walked
    split at walked
    · cases walked
    · cases walked
    · exact ih walked

theorem find_of_readText {d : Disk} {path text : String} (read : d.readText path = .ok text) :
    ∃ content, d.find path = .ok (.file content) := by
  unfold readText at read
  cases found : d.find path with
  | error cause =>
    rw [found] at read
    cases read
  | ok entry =>
    rw [found] at read
    cases entry with
    | folder => cases read
    | file content => exact ⟨content, rfl⟩

theorem writable_of_find {d : Disk} {path : String} {content : ByteArray}
    (found : d.find path = .ok (.file content)) :
    ∃ place, d.Writable path place ∧ d.entry? place = some (.file content) := by
  unfold find at found
  cases located : d.locate path with
  | error cause =>
    rw [located] at found
    cases found
  | ok place =>
    have there : d.entry? place = some (.file content) := by
      rw [located] at found
      simp only [bind, Except.bind] at found
      split at found
      · next e entry =>
        cases found
        exact entry
      · cases found
    have free : d.entry? place ≠ some .folder := by
      rw [there]
      intro same
      cases same
    unfold locate at located
    split at located
    · cases located
    · next named =>
      simp only at located
      split at located
      · exact (free (folder_of_walk_dot located)).elim
      · next plain =>
        exact ⟨place, ⟨by simpa using named, by simpa using plain, located, free⟩, there⟩

theorem Writable.of_createFolders {d d' : Disk} {folder path : String} {place : List String}
    {content : ByteArray} (h : d.Writable path place)
    (there : d.entry? place = some (.file content))
    (made : d.createFolders folder = .ok d') : d'.Writable path place where
  named := h.named
  plain := h.plain
  walked := by
    have origin : d'.origin path = d.origin path := by
      rw [origin, origin, current_of_createParts made]
    rw [origin]
    exact walk_of_createParts made h.walked
  free := by
    rw [entry?_of_createParts made there]
    intro same
    cases same

end Disk

namespace FormulaFile

/-- Saving goes through: the folder of the file is there or can be made, and the file can be
written. -/
def Saveable (s : FormulaFile) : Prop := ∀ f, (s.save f).1 = .ok ()

theorem save_cases {s : FormulaFile} {f : Formula} (saved : (s.save f).1 = .ok ()) :
    ∃ disk place, s.withParent = .ok disk ∧ disk.Writable s.path place ∧
      (s.save f).2 = { s with disk := disk.put place (.file f.toStored.toUTF8) } := by
  unfold save at saved ⊢
  cases made : s.withParent with
  | error fault =>
    rw [made] at saved
    cases saved
  | ok disk =>
    rw [made] at saved
    simp only at saved ⊢
    cases written : disk.write s.path f.toStored.toUTF8 with
    | error cause =>
      rw [written] at saved
      cases saved
    | ok after =>
      obtain ⟨place, writable, rfl⟩ := Disk.write_eq_ok_iff.mp written
      exact ⟨disk, place, rfl, writable, rfl⟩

theorem save_of_writable {s : FormulaFile} {disk : Disk} {place : List String}
    (made : s.withParent = .ok disk) (writable : disk.Writable s.path place) (f : Formula) :
    (s.save f).1 = .ok () := by
  have written := Disk.write_eq_ok_iff.mpr
    ⟨place, writable, (rfl : _ = disk.put place (.file f.toStored.toUTF8))⟩
  simp only [save, made, written]

theorem saveable_of_saved {s : FormulaFile} {f : Formula} (saved : (s.save f).1 = .ok ()) :
    s.Saveable := by
  obtain ⟨disk, place, made, writable, _⟩ := save_cases saved
  exact save_of_writable made writable

theorem withParent_put {s : FormulaFile} {disk : Disk} {place : List String}
    (made : s.withParent = .ok disk) (free : disk.entry? place ≠ some .folder) (e : Entry) :
    ({ s with disk := disk.put place e } : FormulaFile).withParent = .ok (disk.put place e) := by
  unfold withParent at made ⊢
  simp only
  cases parent : Path.parent? s.path with
  | none => rfl
  | some folder =>
    simp only [parent] at made ⊢
    cases created : s.disk.createFolders folder with
    | error cause =>
      rw [created] at made
      cases made
    | ok after =>
      rw [created] at made
      cases made
      have current := Disk.current_of_createParts created
      have folders := (Disk.hasFolders_of_createParts created).put free e
      have origin : (disk.put place e).origin folder = s.disk.origin folder := by
        simp only [Disk.origin, Disk.put, current]
      have again : (disk.put place e).createFolders folder = .ok (disk.put place e) := by
        rw [Disk.createFolders, origin]
        exact folders.createParts
      rw [again]

theorem load_of_readText {s : FormulaFile} {text : String}
    (read : s.disk.readText s.path = .ok text) : s.load = (Formula.ofStored text).map some := by
  obtain ⟨content, found⟩ := Disk.find_of_readText read
  have there : s.disk.exists s.path = true := by
    rw [Disk.exists, found]
    rfl
  rw [load, there, read]
  rfl

/-- What was saved is loaded, and the next save goes through. -/
theorem load_save {s : FormulaFile} (saveable : s.Saveable) (f : Formula) :
    (s.save f).2.path = s.path ∧ (s.save f).2.Saveable ∧ (s.save f).2.load = .ok (some f) := by
  obtain ⟨disk, place, made, writable, after⟩ := save_cases (saveable f)
  rw [after]
  refine ⟨rfl, ?_, ?_⟩
  · exact save_of_writable (withParent_put made writable.free _) (writable.put _)
  · rw [load_of_readText (Disk.readText_put writable f.toStored), Formula.ofStored_toStored]
    rfl

/-- The text in the file, if there is one that can be read. -/
def content (s : FormulaFile) : Option String := (s.disk.readText s.path).toOption

theorem content_of_saved {s : FormulaFile} {f : Formula} (saved : (s.save f).1 = .ok ()) :
    (s.save f).2.content = some f.toStored := by
  obtain ⟨disk, place, _, writable, after⟩ := save_cases saved
  rw [after, content, Disk.readText_put writable]
  rfl

theorem exists_content_of_load {s : FormulaFile} {f : Formula} (loaded : s.load = .ok (some f)) :
    ∃ text, s.content = some text ∧ Formula.ofStored text = .ok f := by
  unfold load at loaded
  split at loaded
  · cases loaded
  · split at loaded
    · next text read => exact ⟨text, by rw [content, read]; rfl, Formula.ofStored_of_map loaded⟩
    · cases loaded

theorem content_eq_none {s : FormulaFile} (unread : ∀ text, s.disk.readText s.path ≠ .ok text) :
    s.content = none := by
  unfold content
  cases read : s.disk.readText s.path with
  | error cause => rfl
  | ok text => exact (unread text read).elim

theorem save_of_readText {s : FormulaFile} {disk : Disk} {text : String}
    (made : s.withParent = .ok disk) (read : disk.readText s.path = .ok text) (f : Formula) :
    (s.save f).1 = .ok () := by
  obtain ⟨content, found⟩ := Disk.find_of_readText read
  obtain ⟨place, writable, _⟩ := Disk.writable_of_find found
  exact save_of_writable made writable f

theorem saveable_of_readText {s : FormulaFile} {disk : Disk} {text : String}
    (made : s.withParent = .ok disk) (read : s.disk.readText s.path = .ok text) : s.Saveable := by
  obtain ⟨content, found⟩ := Disk.find_of_readText read
  obtain ⟨place, writable, there⟩ := Disk.writable_of_find found
  have after : disk.Writable s.path place := by
    unfold withParent at made
    split at made
    · cases made
      exact writable
    · split at made
      · next created =>
        cases made
        exact writable.of_createFolders there created
      · cases made
  exact save_of_writable made after

/-- A file that can be read can be written too, so a save that fails finds none and leaves none. -/
theorem content_of_failed {s : FormulaFile} {f : Formula} {fault : StorageFault}
    (failed : (s.save f).1 = .error fault) : (s.save f).2.content = s.content := by
  cases made : s.withParent with
  | error cause => simp only [save, made]
  | ok disk =>
    have after : (s.save f).2 = { s with disk := disk } := by
      unfold save at failed ⊢
      rw [made] at failed ⊢
      simp only at failed ⊢
      cases written : disk.write s.path f.toStored.toUTF8 with
      | error cause => rfl
      | ok disk =>
        rw [written] at failed
        cases failed
    have before : s.content = none := content_eq_none fun text read => by
      cases (saveable_of_readText made read f).symm.trans failed
    rw [after, before]
    refine content_eq_none fun text read => ?_
    cases (save_of_readText made read f).symm.trans failed

end FormulaFile

end TagFormula
