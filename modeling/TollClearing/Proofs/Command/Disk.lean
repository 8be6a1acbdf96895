import TollClearing.Command.Disk
import TollClearing.Proofs.Command.Folder
import TollClearing.Proofs.Except

/-!
A file that has been saved is what its path leads to, and saving another one in its place leaves no
trace of the first.
-/

set_option autoImplicit false

namespace TollClearing.Command.Disk

variable {d d' : Disk} {location before : List String} {rows : List (String × Entry)}
  {part name path : String} {bytes : ByteArray}

theorem rows_eq_ok : d.rows location = .ok rows ↔ d.root.find? location = some (.folder rows) := by
  unfold Disk.rows
  split <;> simp_all

def Leads (rows : List (String × Entry)) (location : List String) (part : String)
    (next : List String) : Prop :=
  (part = "" ∨ part = ".") ∧ next = location ∨ part = ".." ∧ next = location.dropLast ∨
    isName part = true ∧ (rows.lookup part).isSome = true ∧ next = location ++ [part]

theorem dots_of_isName (h : isName part = true) : part ≠ "" ∧ part ≠ "." ∧ part ≠ ".." := by
  simp only [isName, Bool.and_eq_true, decide_eq_true_eq] at h
  exact ⟨h.1.1.1, h.1.1.2, h.1.2⟩

theorem walk_cons_eq_ok {parts target : List String} :
    d.walk location (part :: parts) = .ok target ↔
      ∃ rows next, d.rows location = .ok rows ∧ Leads rows location part next ∧
        d.walk next parts = .ok target := by
  simp only [Disk.walk, bind_eq_ok]
  constructor
  · rintro ⟨rows, hrows, h⟩
    refine ⟨rows, ?_⟩
    split at h
    · rename_i hstay
      exact ⟨location, hrows, .inl ⟨hstay, rfl⟩, h⟩
    · split at h
      · rename_i hup
        exact ⟨location.dropLast, hrows, .inr (.inl ⟨hup, rfl⟩), h⟩
      · split at h
        · simp at h
        · rename_i hname
          split at h
          · rename_i hsome
            exact ⟨location ++ [part], hrows, .inr (.inr ⟨by simpa using hname, hsome, rfl⟩), h⟩
          · simp at h
  · rintro ⟨rows, next, hrows, hleads, h⟩
    refine ⟨rows, hrows, ?_⟩
    rcases hleads with ⟨hstay, rfl⟩ | ⟨rfl, rfl⟩ | ⟨hname, hsome, rfl⟩
    · rw [if_pos hstay]
      exact h
    · rw [if_neg (by decide), if_pos rfl]
      exact h
    · obtain ⟨hempty, hdot, hdots⟩ := dots_of_isName hname
      rw [if_neg (not_or.2 ⟨hempty, hdot⟩), if_neg hdots, if_neg (by simp [hname]), if_pos hsome]
      exact h

structure Grows (d d' : Disk) : Prop where
  here_eq : d'.here = d.here
  exists_rows : ∀ {location rows}, d.rows location = .ok rows →
    ∃ rows', d'.rows location = .ok rows' ∧
      ∀ name, (rows.lookup name).isSome → (rows'.lookup name).isSome

namespace Grows

theorem start_eq (h : Grows d d') (parts : List String) : d'.start parts = d.start parts := by
  unfold Disk.start
  split <;> simp [h.here_eq]

theorem walk (h : Grows d d') {parts target : List String}
    (hwalk : d.walk location parts = .ok target) : d'.walk location parts = .ok target := by
  induction parts generalizing location with
  | nil => exact hwalk
  | cons part parts ih =>
    obtain ⟨rows, next, hrows, hleads, hwalk⟩ := walk_cons_eq_ok.1 hwalk
    obtain ⟨rows', hrows', hnames⟩ := h.exists_rows hrows
    have hleads' : Leads rows' location part next :=
      hleads.imp id fun hleads => hleads.imp id fun ⟨hname, hsome, hnext⟩ =>
        ⟨hname, hnames part hsome, hnext⟩
    exact walk_cons_eq_ok.2 ⟨rows', next, hrows', hleads', ih hwalk⟩

theorem lookup_folder (h : Grows d d') (hrows : d.rows location = .ok rows)
    {inner : List (String × Entry)} (hinner : rows.lookup name = some (.folder inner)) :
    ∃ rows' inner', d'.rows location = .ok rows' ∧
      rows'.lookup name = some (.folder inner') := by
  have hfind := Entry.find?_snoc (rows_eq_ok.1 hrows) name
  obtain ⟨inner', hinner', -⟩ := h.exists_rows (rows_eq_ok.2 (hfind.trans hinner))
  obtain ⟨rows', hrows', -⟩ := h.exists_rows hrows
  refine ⟨rows', inner', hrows', ?_⟩
  rw [← Entry.find?_snoc (rows_eq_ok.1 hrows') name]
  exact rows_eq_ok.1 hinner'

end Grows

def putAt (d : Disk) (location : List String) (e : Entry) : Disk :=
  { d with root := Entry.put e location d.root }

theorem grows_putAt (hrows : d.rows location = .ok rows)
    (hname : ∀ inner, rows.lookup name ≠ some (.folder inner)) (e : Entry) :
    Grows d (d.putAt (location ++ [name]) e) where
  here_eq := rfl
  exists_rows h := by
    have htarget : ∀ inner, d.root.find? (location ++ [name]) ≠ some (.folder inner) := by
      intro inner
      rw [Entry.find?_snoc (rows_eq_ok.1 hrows)]
      exact hname inner
    obtain ⟨rows', hrows', hnames⟩ := Entry.exists_folder_put (e := e) htarget (rows_eq_ok.1 h)
    exact ⟨rows', rows_eq_ok.2 hrows', hnames⟩

theorem find?_putAt (hrows : d.rows location = .ok rows) (name : String) (e : Entry) :
    (d.putAt (location ++ [name]) e).root.find? (location ++ [name]) = some e :=
  Entry.find?_put_self (rows_eq_ok.1 hrows) name e

/-- A folder that is there, so that making it changes nothing. -/
def HasFolder (d : Disk) (before : List String) (part : String) : Prop :=
  isPath (String.intercalate "/" (before ++ [part])) = true ∧
    ∃ location rows, d.walk (d.start before) before = .ok location ∧ d.rows location = .ok rows ∧
      ((part = "" ∨ part = "." ∨ part = "..") ∨
        isName part = true ∧ ∃ inner, rows.lookup part = some (.folder inner))

theorem HasFolder.makeFolder_eq (h : d.HasFolder before part) :
    d.makeFolder before part = .ok d := by
  obtain ⟨hpath, location, rows, hwalk, hrows, hpart⟩ := h
  simp only [makeFolder, hpath, hwalk, hrows, bind, Except.bind]
  by_cases hdots : part = "" ∨ part = "." ∨ part = ".."
  · simp [hdots]
  · obtain ⟨hname, inner, hinner⟩ := hpart.resolve_left hdots
    simp [hdots, hname, hinner]

theorem HasFolder.grows (h : d.HasFolder before part) (hgrows : Grows d d') :
    d'.HasFolder before part := by
  obtain ⟨hpath, location, rows, hwalk, hrows, hpart⟩ := h
  have hwalk' := hgrows.walk hwalk
  rw [← hgrows.start_eq] at hwalk'
  rcases hpart with hdots | ⟨hname, inner, hinner⟩
  · obtain ⟨rows', hrows', -⟩ := hgrows.exists_rows hrows
    exact ⟨hpath, location, rows', hwalk', hrows', .inl hdots⟩
  · obtain ⟨rows', inner', hrows', hinner'⟩ := hgrows.lookup_folder hrows hinner
    exact ⟨hpath, location, rows', hwalk', hrows', .inr ⟨hname, inner', hinner'⟩⟩

theorem hasFolder_of_makeFolder (h : d.makeFolder before part = .ok d') :
    d'.HasFolder before part := by
  unfold makeFolder at h
  split at h
  · simp at h
  · rename_i hpath
    have hpath' : isPath (String.intercalate "/" (before ++ [part])) = true := by simpa using hpath
    simp only [bind_eq_ok] at h
    obtain ⟨location, hwalk, rows, hrows, h⟩ := h
    split at h
    · rename_i hdots
      obtain rfl := Except.ok.inj h
      exact ⟨hpath', location, rows, hwalk, hrows, .inl hdots⟩
    · split at h
      · simp at h
      · rename_i hname
        have hname' : isName part = true := by simpa using hname
        split at h
        · rename_i inner hinner
          obtain rfl := Except.ok.inj h
          exact ⟨hpath', location, rows, hwalk, hrows, .inr ⟨hname', inner, hinner⟩⟩
        · simp at h
        · rename_i hnone
          have hgrows : Grows d (d.putAt (location ++ [part]) (.folder [])) :=
            grows_putAt hrows (by simp [hnone]) (.folder [])
          obtain rfl : d.putAt (location ++ [part]) (.folder []) = d' := Except.ok.inj h
          obtain ⟨rows', hrows', -⟩ := hgrows.exists_rows hrows
          refine ⟨hpath', location, rows', ?_, hrows', .inr ⟨hname', [], ?_⟩⟩
          · rw [hgrows.start_eq]
            exact hgrows.walk hwalk
          · rw [← Entry.find?_snoc (rows_eq_ok.1 hrows')]
            exact find?_putAt hrows part _

def HasFolders (d : Disk) : List String → Prop
  | [] => True
  | part :: before =>
    if part = "" ∨ part = "." then HasFolders d before else d.HasFolder before.reverse part

theorem HasFolders.makeFolders_eq {parts : List String} (h : d.HasFolders parts) :
    d.makeFolders parts = (d, true) := by
  induction parts with
  | nil => rfl
  | cons part before ih =>
    unfold HasFolders at h
    unfold makeFolders
    split
    · rename_i hstay
      rw [if_pos hstay] at h
      exact ih h
    · rename_i hstay
      rw [if_neg hstay] at h
      rw [h.makeFolder_eq]

theorem HasFolders.grows {parts : List String} (h : d.HasFolders parts) (hgrows : Grows d d') :
    d'.HasFolders parts := by
  induction parts with
  | nil => trivial
  | cons part before ih =>
    unfold HasFolders at h ⊢
    split
    · rename_i hstay
      rw [if_pos hstay] at h
      exact ih h
    · rename_i hstay
      rw [if_neg hstay] at h
      exact h.grows hgrows

theorem hasFolders_of_makeFolders {parts : List String} (h : d.makeFolders parts = (d', true)) :
    d'.HasFolders parts := by
  induction parts generalizing d d' with
  | nil => trivial
  | cons part before ih =>
    unfold makeFolders at h
    unfold HasFolders
    split
    · rename_i hstay
      rw [if_pos hstay] at h
      exact ih h
    · rename_i hstay
      rw [if_neg hstay] at h
      split at h
      · rename_i made hmade
        obtain rfl : made = d' := congrArg Prod.fst h
        exact hasFolder_of_makeFolder hmade
      · simp at h
      · cases hbefore : d.makeFolders before with
        | mk made done =>
          cases done with
          | false => simp [hbefore] at h
          | true =>
            simp only [hbefore, if_true] at h
            split at h
            · rename_i made' hmade
              obtain rfl : made' = d' := congrArg Prod.fst h
              exact hasFolder_of_makeFolder hmade
            · simp at h

def fileName (path : String) : String := (parts path).getLast?.getD ""

theorem write_eq_ok (h : d.write path bytes = .ok d') :
    isPath path = true ∧ isName (fileName path) = true ∧ ∃ location rows,
      d.walk (d.start (parts path)) (parts path).dropLast = .ok location ∧
      d.rows location = .ok rows ∧ (∀ inner, rows.lookup (fileName path) ≠ some (.folder inner)) ∧
      d' = d.putAt (location ++ [fileName path]) (.file bytes) := by
  unfold write at h
  simp only at h
  split at h
  · simp at h
  · rename_i hnames
    have hnames' : isPath path = true ∧ isName (fileName path) = true := by
      simpa [fileName] using hnames
    simp only [bind_eq_ok] at h
    obtain ⟨location, hwalk, rows, hrows, h⟩ := h
    split at h
    · simp at h
    · rename_i hfolder
      exact ⟨hnames'.1, hnames'.2, location, rows, hwalk, hrows, hfolder, (Except.ok.inj h).symm⟩

theorem write_of_walk (hpath : isPath path = true) (hname : isName (fileName path) = true)
    (hwalk : d.walk (d.start (parts path)) (parts path).dropLast = .ok location)
    (hrows : d.rows location = .ok rows)
    (hfolder : ∀ inner, rows.lookup (fileName path) ≠ some (.folder inner)) (bytes : ByteArray) :
    d.write path bytes = .ok (d.putAt (location ++ [fileName path]) (.file bytes)) := by
  simp only [fileName] at hname hfolder
  simp only [write, hpath, hname, hwalk, hrows, bind, Except.bind, Bool.not_true, Bool.or_self,
    Bool.false_eq_true, if_false]
  rfl

theorem exists_of_save (h : (d.save path bytes).2 = true) :
    ∃ made, d.makeFolders (above (parts path)) = (made, true) ∧
      made.write path bytes = .ok (d.save path bytes).1 := by
  unfold save at h ⊢
  cases hfolders : d.makeFolders (above (parts path)) with
  | mk made done =>
    cases done with
    | false => simp [hfolders] at h
    | true =>
      cases hwrite : made.write path bytes with
      | error e => simp [hfolders, hwrite] at h
      | ok after => exact ⟨made, rfl, by simp [hwrite]⟩

theorem save_of_write {made after : Disk}
    (hfolders : d.makeFolders (above (parts path)) = (made, true))
    (hwrite : made.write path bytes = .ok after) : d.save path bytes = (after, true) := by
  simp [save, hfolders, hwrite]

/-- Another file saved in the place of one leaves no trace of it. -/
theorem save_save {a b : ByteArray} (h : (d.save path a).2 = true) :
    (d.save path a).1.save path b = d.save path b := by
  obtain ⟨made, hfolders, hwrite⟩ := exists_of_save h
  obtain ⟨hpath, hname, location, rows, hwalk, hrows, hfolder, hafter⟩ := write_eq_ok hwrite
  have hgrows := grows_putAt hrows hfolder (.file a)
  rw [hafter]
  obtain ⟨rows', hrows', -⟩ := hgrows.exists_rows hrows
  have hfile : rows'.lookup (fileName path) = some (.file a) := by
    rw [← Entry.find?_snoc (rows_eq_ok.1 hrows')]
    exact find?_putAt hrows _ _
  have hfirst := save_of_write hfolders (write_of_walk hpath hname hwalk hrows hfolder b)
  have hwalk' := hgrows.walk hwalk
  rw [← hgrows.start_eq] at hwalk'
  have hsecond := save_of_write
    ((hasFolders_of_makeFolders hfolders).grows hgrows).makeFolders_eq
    (write_of_walk hpath hname hwalk' hrows' (by simp [hfile]) b)
  rw [hfirst, hsecond]
  simp [putAt, Entry.put_put]

theorem walk_append {target first rest : List String} :
    d.walk location (first ++ rest) = .ok target ↔
      ∃ middle, d.walk location first = .ok middle ∧ d.walk middle rest = .ok target := by
  induction first generalizing location with
  | nil => exact ⟨fun h => ⟨location, rfl, h⟩, fun ⟨_, h, h'⟩ => Except.ok.inj h ▸ h'⟩
  | cons part first ih =>
    simp only [List.cons_append, walk_cons_eq_ok, ih]
    exact ⟨fun ⟨rows, next, hrows, hleads, middle, hfirst, hrest⟩ =>
        ⟨middle, ⟨rows, next, hrows, hleads, hfirst⟩, hrest⟩,
      fun ⟨middle, ⟨rows, next, hrows, hleads, hfirst⟩, hrest⟩ =>
        ⟨rows, next, hrows, hleads, middle, hfirst, hrest⟩⟩

theorem walk_name (hrows : d.rows location = .ok rows) (hname : isName name = true)
    (hsome : (rows.lookup name).isSome = true) :
    d.walk location [name] = .ok (location ++ [name]) :=
  walk_cons_eq_ok.2 ⟨rows, _, hrows, .inr (.inr ⟨hname, hsome, rfl⟩), rfl⟩

theorem parts_eq_dropLast_append (hname : isName (fileName path) = true) :
    parts path = (parts path).dropLast ++ [fileName path] := by
  have hne : parts path ≠ [] := by
    intro h
    simp [fileName, h, isName] at hname
  rw [fileName, List.getLast?_eq_some_getLast hne, Option.getD_some,
    List.dropLast_concat_getLast]

theorem parts_empty : parts "" = [""] := by
  unfold parts String.splitOn String.splitOnAux
  decide

theorem look_save (h : (d.save path bytes).2 = true) :
    (d.save path bytes).1.look path = some (.file bytes) := by
  obtain ⟨made, hfolders, hwrite⟩ := exists_of_save h
  obtain ⟨hpath, hname, location, rows, hwalk, hrows, hfolder, hafter⟩ := write_eq_ok hwrite
  have hgrows := grows_putAt hrows hfolder (.file bytes)
  obtain ⟨rows', hrows', -⟩ := hgrows.exists_rows hrows
  have hfind := find?_putAt hrows (fileName path) (.file bytes)
  have hfile : rows'.lookup (fileName path) = some (.file bytes) := by
    rw [← Entry.find?_snoc (rows_eq_ok.1 hrows'), hfind]
  have hwalk' := hgrows.walk hwalk
  rw [← hgrows.start_eq] at hwalk'
  have hreach := walk_append.2 ⟨location, hwalk', walk_name hrows' hname (by simp [hfile])⟩
  rw [← parts_eq_dropLast_append hname] at hreach
  have hempty : path ≠ "" := by
    rintro rfl
    rw [fileName, parts_empty] at hname
    simp [isName] at hname
  rw [hafter, look]
  simp [hempty, hpath, hreach, hfind]

end TollClearing.Command.Disk

namespace TollClearing.Command

def emptyDisk : Disk := ⟨.folder [], []⟩

theorem parts_s : Disk.parts "s" = ["s"] := by
  unfold Disk.parts String.splitOn String.splitOnAux String.splitOnAux
  decide

theorem save_emptyDisk (bytes : ByteArray) : (emptyDisk.save "s" bytes).2 = true := by
  simp only [Disk.save, Disk.write, parts_s]
  rfl

end TollClearing.Command
