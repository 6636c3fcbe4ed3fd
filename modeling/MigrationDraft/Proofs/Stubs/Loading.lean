import Mathlib.Data.List.Nodup
import MigrationDraft.Stubs
import MigrationDraft.Proofs.Files.Writing

set_option autoImplicit false

/-!
# Stubs are loaded file by file

There are five kinds of stubs, each with a file of its own (`Kind.file`). Loading is one pass over
the kinds in which each file decides on the source of its own kind (`load_eq_collect`), so the
sources do not depend on each other, and the first file that cannot be read decides the failure.
A set of stubs that is written to a directory is what is loaded from there (`load_writeOut`).
-/

namespace MigrationDraft

namespace Stubs

/-! ## Kinds of stubs -/

/-- What a stub is for. -/
inductive Kind where
  | schemaCreate
  | schemaChange
  | migration
  | pivot
  | pivotSchema
  deriving DecidableEq, Repr

namespace Kind

def all : List Kind := [schemaCreate, schemaChange, migration, pivot, pivotSchema]

theorem mem_all (k : Kind) : k ∈ all := by
  cases k <;> decide

def file : Kind → String
  | schemaCreate => schemaCreateFile
  | schemaChange => schemaChangeFile
  | migration => migrationStubFile
  | pivot => pivotStubFile
  | pivotSchema => pivotSchemaStubFile

@[simp] theorem map_file_all : all.map file = fileNames := rfl

theorem file_injective {j k : Kind} (h : j.file = k.file) : j = k := by
  have hnodup : (all.map file).Nodup := by
    rw [map_file_all]
    decide
  exact List.inj_on_of_nodup_map hnodup (mem_all j) (mem_all k) h

theorem isPathName_file (k : Kind) : FileTree.IsPathName k.file where
  ne_empty := by cases k <;> decide
  ne_here := by cases k <;> decide
  ne_up := by cases k <;> decide
  size_le := by cases k <;> decide
  no_slash := by cases k <;> decide
  no_zero := by cases k <;> decide

end Kind

def source (s : Stubs) : Kind → String
  | .schemaCreate => s.schemaCreate
  | .schemaChange => s.schemaChange
  | .migration => s.migration
  | .pivot => s.pivot
  | .pivotSchema => s.pivotSchema

def set (s : Stubs) (k : Kind) (text : String) : Stubs :=
  match k with
  | .schemaCreate => { s with schemaCreate := text }
  | .schemaChange => { s with schemaChange := text }
  | .migration => { s with migration := text }
  | .pivot => { s with pivot := text }
  | .pivotSchema => { s with pivotSchema := text }

@[simp] theorem source_set (s : Stubs) (k j : Kind) (text : String) :
    (s.set k text).source j = if j = k then text else s.source j := by
  cases k <;> cases j <;> rfl

theorem ext_source {s s' : Stubs} (h : ∀ k, s.source k = s'.source k) : s = s' := by
  obtain ⟨a, b, c, d, e⟩ := s
  obtain ⟨a', b', c', d', e'⟩ := s'
  rw [mk.injEq]
  exact ⟨h .schemaCreate, h .schemaChange, h .migration, h .pivot, h .pivotSchema⟩

/-! ## One pass over the kinds -/

/-- The stubs with the sources that are given for some kinds, one after the other. -/
def collect (given : Kind → Except ReadError String) (s : Stubs) (ks : List Kind) :
    Except ReadError Stubs :=
  ks.foldlM (fun s k => (given k).map (s.set k)) s

section

variable {given : Kind → Except ReadError String}

theorem collect_cons (s : Stubs) (k : Kind) (ks : List Kind) :
    collect given s (k :: ks) = (given k).bind fun text => collect given (s.set k text) ks := by
  rw [collect, List.foldlM_cons]
  cases given k <;> rfl

/-- All goes well exactly if a source is given for each of the kinds. The others keep theirs. -/
theorem collect_eq_ok_iff {s s' : Stubs} {ks : List Kind} :
    collect given s ks = .ok s'
      ↔ ∀ k, (k ∈ ks → given k = .ok (s'.source k)) ∧ (k ∉ ks → s'.source k = s.source k) := by
  induction ks generalizing s with
  | nil =>
      constructor
      · intro h
        cases h
        simp
      · intro h
        have hs : s = s' := ext_source fun k => ((h k).2 List.not_mem_nil).symm
        rw [hs]
        rfl
  | cons j ks ih =>
      rw [collect_cons]
      cases hj : given j with
      | error e =>
          constructor
          · intro h
            cases h
          · intro h
            have hok := (h j).1 List.mem_cons_self
            rw [hj] at hok
            cases hok
      | ok text =>
          show collect given (s.set j text) ks = .ok s' ↔ _
          rw [ih]
          refine forall_congr' fun k => ?_
          rw [source_set]
          by_cases hk : k = j
          · subst hk
            -- a kind that comes again is given the same source
            by_cases hmem : k ∈ ks
            · simp [hmem]
            · simp [hmem, hj, eq_comm]
          · simp [hk]

/-- Things go wrong at the first kind for which no source is given. -/
theorem collect_eq_error_iff {s : Stubs} {ks : List Kind} {e : ReadError} :
    collect given s ks = .error e
      ↔ ∃ before k after, ks = before ++ k :: after
        ∧ (∀ j ∈ before, ∃ text, given j = .ok text) ∧ given k = .error e := by
  induction ks generalizing s with
  | nil =>
      constructor
      · intro h
        cases h
      · rintro ⟨before, k, after, h, -⟩
        simp at h
  | cons j ks ih =>
      rw [collect_cons]
      cases hj : given j with
      | error e' =>
          constructor
          · intro h
            cases h
            exact ⟨[], j, ks, rfl, by simp, hj⟩
          · rintro ⟨before, k, after, h, hbefore, hk⟩
            -- no kind comes before the first one, which fails
            cases before with
            | nil =>
                cases h
                exact congrArg _ (Except.error.inj (hj.symm.trans hk))
            | cons i before =>
                cases h
                obtain ⟨text, htext⟩ := hbefore _ List.mem_cons_self
                rw [hj] at htext
                cases htext
      | ok text =>
          -- the first kind is out of the way, and its source does not matter for a failure
          show collect given (s.set j text) ks = .error e ↔ _
          rw [ih]
          constructor
          · rintro ⟨before, k, after, rfl, hbefore, hk⟩
            refine ⟨j :: before, k, after, rfl, ?_, hk⟩
            exact List.forall_mem_cons.mpr ⟨⟨text, hj⟩, hbefore⟩
          · rintro ⟨before, k, after, h, hbefore, hk⟩
            cases before with
            | nil =>
                cases h
                rw [hj] at hk
                cases hk
            | cons i before =>
                cases h
                exact ⟨before, k, after, rfl, (List.forall_mem_cons.mp hbefore).2, hk⟩

end

def readKind (files : Files) (directory : String) (k : Kind) : Except ReadError String :=
  readOr files directory k.file (builtin.source k)

theorem load_eq_collect (files : Files) (directory : String) :
    load files directory = collect (readKind files directory) builtin Kind.all := by
  simp only [Kind.all, collect_cons]
  rfl

/-- The stubs are loaded if each kind has a source, and these are the sources. -/
theorem load_eq_ok_iff {files : Files} {directory : String} {s : Stubs} :
    load files directory = .ok s ↔ ∀ k, readKind files directory k = .ok (s.source k) := by
  rw [load_eq_collect, collect_eq_ok_iff]
  simp [Kind.mem_all]

/-- The first kind without a source decides the failure. -/
theorem load_eq_error_iff {files : Files} {directory : String} {e : ReadError} :
    load files directory = .error e
      ↔ ∃ before k after, Kind.all = before ++ k :: after
        ∧ (∀ j ∈ before, ∃ text, readKind files directory j = .ok text)
        ∧ readKind files directory k = .error e := by
  rw [load_eq_collect, collect_eq_error_iff]

/-! ## Stubs in a file tree -/

def Kind.path (directory : String) (k : Kind) : String := Path.join directory k.file

section

variable {t : FileTree} {working : List String} {directory : String}

theorem readKind_files (t : FileTree) (working : List String) (directory : String) (k : Kind) :
    readKind (t.files working) directory k
      = match t.read working (k.path directory) with
        | .ok text => .ok text
        | .error .notFound => .ok (builtin.source k)
        | .error e => .error e := by
  have hfiles : (t.files working).read (Path.join directory k.file)
      = t.read working (k.path directory) := rfl
  cases hread : t.read working (k.path directory) with
  | ok text => simp only [readKind, readOr, hfiles, hread]
  | error e => cases e <;> simp only [readKind, readOr, hfiles, hread]

/-- A file that is read is the source. Where there is none it is the built-in one. -/
theorem readKind_eq_ok_iff {k : Kind} {text : String} :
    readKind (t.files working) directory k = .ok text
      ↔ (t.resolve working (k.path directory) = .error .notFound ∧ text = builtin.source k)
        ∨ t.resolve working (k.path directory) = .ok (.file text.toUTF8) := by
  rw [← FileTree.read_eq_ok_iff, ← FileTree.read_eq_notFound_iff, readKind_files]
  cases t.read working (k.path directory) with
  | ok text' => simp
  | error e =>
      by_cases he : e = .notFound
      · subst he
        simp [eq_comm]
      · simp [he]

/-- What a file decides on is what its path leads to. -/
theorem readKind_congr {t' : FileTree} {k : Kind}
    (h : t'.resolve working (k.path directory) = t.resolve working (k.path directory)) :
    readKind (t'.files working) directory k = readKind (t.files working) directory k := by
  have hread : t'.read working (k.path directory) = t.read working (k.path directory) := by
    rw [FileTree.read, FileTree.read, h]
  rw [readKind_files, readKind_files, hread]

theorem readKind_eq_error_iff {k : Kind} {e : ReadError} :
    readKind (t.files working) directory k = .error e
      ↔ t.Unreadable working (k.path directory) e := by
  rw [FileTree.unreadable_iff, readKind_files]
  cases t.read working (k.path directory) with
  | ok text => simp
  | error e' =>
      by_cases he : e' = .notFound
      · subst he
        simp [eq_comm]
      · simp only [Except.error.injEq]
        constructor
        · rintro rfl
          exact ⟨rfl, he⟩
        · exact fun h => h.1

theorem exists_readKind_eq_ok_iff {k : Kind} :
    (∃ text, readKind (t.files working) directory k = .ok text)
      ↔ t.Loadable working (k.path directory) := by
  simp only [readKind_eq_ok_iff, exists_or, exists_and_left, exists_eq, and_true,
    FileTree.Loadable]

/-- Loading succeeds exactly if no file gets in the way. -/
theorem load_succeeds_iff : (∃ s, load (t.files working) directory = .ok s)
    ↔ ∀ k : Kind, t.Loadable working (k.path directory) := by
  constructor
  · rintro ⟨s, h⟩ k
    exact exists_readKind_eq_ok_iff.mp ⟨s.source k, load_eq_ok_iff.mp h k⟩
  · intro h
    cases hload : load (t.files working) directory with
    | ok s => exact ⟨s, rfl⟩
    | error e =>
        obtain ⟨-, k, -, -, -, hk⟩ := load_eq_error_iff.mp hload
        obtain ⟨text, htext⟩ := exists_readKind_eq_ok_iff.mpr (h k)
        rw [hk] at htext
        cases htext

/-- The files of the other kinds are the same, and so are their sources. -/
theorem eq_set_of_agree {t' : FileTree} {k : Kind} {s s' : Stubs}
    (hsame : ∀ j, j ≠ k →
      t'.resolve working (j.path directory) = t.resolve working (j.path directory))
    (hload : load (t.files working) directory = .ok s)
    (hload' : load (t'.files working) directory = .ok s') : s' = s.set k (s'.source k) := by
  apply ext_source
  intro j
  rw [source_set]
  by_cases hj : j = k
  · rw [if_pos hj, hj]
  · rw [if_neg hj]
    have hread := readKind_congr (hsame j hj)
    rw [load_eq_ok_iff.mp hload j, load_eq_ok_iff.mp hload' j] at hread
    exact Except.ok.inj hread

end

/-! ## Stubs that are written to a directory -/

/-- The files of all kinds can be written to the directory of the path: it is there, its path
leaves room for their names, and no directory has one of their names. -/
structure Receives (t : FileTree) (working : List String) (directory : String)
    (place : List String) : Prop where
  leadsTo : t.LeadsTo working directory place
  size : ∀ k : Kind, (k.path directory).utf8ByteSize < FileTree.pathSizeLimit
  not_directory : ∀ k : Kind, ¬ t.IsDirectory (place ++ [k.file])

/-- The tree after a source was written to the file of its kind. -/
def writeKind (place : List String) (t : FileTree) (k : Kind) (text : String) : FileTree :=
  FileTree.insert (.file text.toUTF8) (place ++ [k.file]) t

/-- The tree after the stubs of all kinds were written. -/
def writeOut (place : List String) (t : FileTree) (s : Stubs) : FileTree :=
  Kind.all.foldl (fun t k => writeKind place t k (s.source k)) t

section

variable {t : FileTree} {working place : List String} {directory : String}

theorem get?_writeKind (h : t.IsDirectory place) (k j : Kind) (text : String) :
    (writeKind place t k text).get? (place ++ [j.file])
      = if j = k then some (.file text.toUTF8) else t.get? (place ++ [j.file]) := by
  rw [writeKind, FileTree.get?_insert_file h]
  by_cases hj : j = k
  · rw [if_pos hj, if_pos (congrArg Kind.file hj)]
  · rw [if_neg hj, if_neg fun hfile => hj (Kind.file_injective hfile)]

theorem Receives.writeKind (h : Receives t working directory place) (k : Kind) (text : String) :
    Receives (writeKind place t k text) working directory place where
  leadsTo := h.leadsTo.mono
    (FileTree.Keeps.insert_file h.leadsTo.isDirectory (h.not_directory k) text.toUTF8)
  size := h.size
  not_directory := by
    rintro j ⟨entries, hj⟩
    rw [get?_writeKind h.leadsTo.isDirectory] at hj
    split at hj
    · cases hj
    · exact h.not_directory j ⟨entries, hj⟩

/-- What is written to the file of a kind is its source, and the other kinds keep theirs. -/
theorem Receives.readKind_writeKind (h : Receives t working directory place) (k j : Kind)
    (text : String) :
    readKind ((Stubs.writeKind place t k text).files working) directory j
      = if j = k then .ok text else readKind (t.files working) directory j := by
  have hnew := (h.writeKind k text).leadsTo.resolve_join j.isPathName_file (h.size j)
  rw [get?_writeKind h.leadsTo.isDirectory] at hnew
  by_cases hj : j = k
  · rw [if_pos hj]
    rw [if_pos hj] at hnew
    exact readKind_eq_ok_iff.mpr (Or.inr hnew)
  · rw [if_neg hj]
    rw [if_neg hj, ← h.leadsTo.resolve_join j.isPathName_file (h.size j)] at hnew
    exact readKind_congr hnew

/-- The tree after the stubs of some kinds were written, one after the other. -/
theorem Receives.readKind_foldl (h : Receives t working directory place) (s : Stubs)
    (ks : List Kind) (j : Kind) :
    readKind ((ks.foldl (fun t k => Stubs.writeKind place t k (s.source k)) t).files working)
        directory j
      = if j ∈ ks then .ok (s.source j) else readKind (t.files working) directory j := by
  induction ks generalizing t with
  | nil => rfl
  | cons k ks ih =>
      rw [List.foldl_cons, ih (h.writeKind k (s.source k)), h.readKind_writeKind]
      by_cases hj : j = k
      · subst hj
        simp
      · simp [hj]

/-- Stubs that are written out are what is loaded. -/
theorem load_writeOut (h : Receives t working directory place) (s : Stubs) :
    load ((writeOut place t s).files working) directory = .ok s := by
  rw [load_eq_ok_iff]
  intro k
  rw [writeOut, h.readKind_foldl, if_pos (Kind.mem_all k)]

/-- A source that is written to the file of its kind is put in its place. -/
theorem load_writeKind (h : Receives t working directory place) {s : Stubs}
    (hload : load (t.files working) directory = .ok s) (k : Kind) (text : String) :
    load ((Stubs.writeKind place t k text).files working) directory = .ok (s.set k text) := by
  rw [load_eq_ok_iff] at hload ⊢
  intro j
  rw [h.readKind_writeKind, source_set]
  by_cases hj : j = k
  · rw [if_pos hj, if_pos hj]
  · rw [if_neg hj, if_neg hj, hload j]

end

/-- What is loaded from a directory is decided file by file, for every file tree and every path of
a directory.

* Loading succeeds exactly if none of the files gets in the way: each is not there or is a text.
* The source of a kind is then the text of its file, be it empty, or the built-in source where the
  file is not there.
* Loading fails with the cause that the first file in the way gives, in the order of the kinds.
* Where two trees agree on all files but one, what is loaded differs in the source of its kind
  only.
* Stubs that are written to the directory are loaded from there, and a single source that is
  written changes its own kind only. -/
theorem load_file_by_file (t : FileTree) (working : List String) (directory : String) :
    ((∃ s, load (t.files working) directory = .ok s)
        ↔ ∀ k : Kind, t.Loadable working (k.path directory))
      ∧ (∀ s, load (t.files working) directory = .ok s
        ↔ ∀ k : Kind,
          (t.resolve working (k.path directory) = .error .notFound
              ∧ s.source k = builtin.source k)
            ∨ t.resolve working (k.path directory) = .ok (.file (s.source k).toUTF8))
      ∧ (∀ e, load (t.files working) directory = .error e
        ↔ ∃ before k after, Kind.all = before ++ k :: after
          ∧ (∀ j ∈ before, t.Loadable working (j.path directory))
          ∧ t.Unreadable working (k.path directory) e)
      ∧ (∀ (t' : FileTree) (k : Kind) (s s' : Stubs),
        (∀ j, j ≠ k →
          t'.resolve working (j.path directory) = t.resolve working (j.path directory)) →
        load (t.files working) directory = .ok s →
        load (t'.files working) directory = .ok s' → s' = s.set k (s'.source k))
      ∧ ∀ place, Receives t working directory place →
        (∀ s, load ((writeOut place t s).files working) directory = .ok s)
          ∧ ∀ s k text, load (t.files working) directory = .ok s →
            load ((writeKind place t k text).files working) directory = .ok (s.set k text) := by
  refine ⟨load_succeeds_iff, fun s => ?_, fun e => ?_, ?_, fun place h => ?_⟩
  · rw [load_eq_ok_iff]
    exact forall_congr' fun k => readKind_eq_ok_iff
  · simp only [load_eq_error_iff, exists_readKind_eq_ok_iff, readKind_eq_error_iff]
  · intro t' k s s' hsame hload hload'
    exact eq_set_of_agree hsame hload hload'
  · exact ⟨load_writeOut h, fun s k text hload => load_writeKind h hload k text⟩

/-- A tree with a directory of stubs that holds one file, and that is empty. -/
def emptyPivotStub : FileTree :=
  .directory [("stubs", .directory [("pivot.stub", .file ByteArray.empty)])]

theorem receives_emptyPivotStub : Receives emptyPivotStub [] "stubs" ["stubs"] where
  leadsTo := ⟨rfl, ⟨_, rfl⟩, by decide⟩
  size k := by cases k <;> decide
  not_directory := by
    rintro k ⟨entries, h⟩
    cases k <;> cases h

theorem load_file_by_file_emptyPivotStub :
    load (emptyPivotStub.files []) "stubs" = .ok { builtin with pivot := "" }
      ∧ load ((writeOut ["stubs"] emptyPivotStub builtin).files []) "stubs" = .ok builtin
      ∧ load ((writeKind ["stubs"] emptyPivotStub .migration "text").files []) "stubs"
        = .ok { builtin with pivot := "", migration := "text" } := by
  obtain ⟨-, hsources, -, -, hwritten⟩ := load_file_by_file emptyPivotStub [] "stubs"
  obtain ⟨hall, hone⟩ := hwritten ["stubs"] receives_emptyPivotStub
  have hload : load (emptyPivotStub.files []) "stubs" = .ok { builtin with pivot := "" } := by
    rw [hsources]
    intro k
    cases k with
    | pivot => exact Or.inr rfl
    | schemaCreate | schemaChange | migration | pivotSchema => exact Or.inl ⟨rfl, rfl⟩
  exact ⟨hload, hall builtin, hone _ .migration "text" hload⟩

end Stubs

end MigrationDraft
