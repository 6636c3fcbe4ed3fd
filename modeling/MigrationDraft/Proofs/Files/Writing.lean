import MigrationDraft.FileTree
import MigrationDraft.Files
import MigrationDraft.Proofs.Text.Splitting

set_option autoImplicit false

/-!
# Files that are written and read

What reads as a text is a file with the bytes of that text (`read_eq_ok_iff`). A file that is put
into a directory is what its name leads to from then on, and all else is where it was
(`get?_insert_file`, `Keeps.insert_file`). A path that is made of a directory and a name leads to
the entry of that name (`LeadsTo.resolve_join`), so what was written there is what is read.
-/

namespace MigrationDraft

namespace FileTree

/-! ## What can be read -/

theorem textOfBytes_eq_ok_iff {bytes : ByteArray} {text : String} :
    textOfBytes bytes = .ok text ↔ bytes = text.toUTF8 := by
  constructor
  · intro h
    unfold textOfBytes at h
    split at h
    · next s hs =>
        cases h
        unfold String.fromUTF8? at hs
        split at hs
        · cases hs
          rfl
        · cases hs
    · cases h
  · rintro rfl
    exact textOfBytes_toUTF8 text

theorem textOfBytes_eq_error_iff {bytes : ByteArray} {e : ReadError} :
    textOfBytes bytes = .error e ↔ e = .invalidText ∧ ∀ text : String, bytes ≠ text.toUTF8 := by
  have hcases : (∃ text, textOfBytes bytes = .ok text)
      ∨ textOfBytes bytes = .error .invalidText := by
    unfold textOfBytes
    split
    · next text _ => exact Or.inl ⟨text, rfl⟩
    · exact Or.inr rfl
  constructor
  · intro h
    rcases hcases with ⟨text, htext⟩ | herror
    · rw [htext] at h
      cases h
    · have he : e = .invalidText := by rw [herror] at h; cases h; rfl
      refine ⟨he, fun text htext => ?_⟩
      rw [textOfBytes_eq_ok_iff.mpr htext] at h
      cases h
  · rintro ⟨rfl, hbytes⟩
    rcases hcases with ⟨text, htext⟩ | herror
    · exact absurd (textOfBytes_eq_ok_iff.mp htext) (hbytes text)
    · exact herror

section

variable {t : FileTree} {working : List String} {path : String}

theorem read_eq_ok_iff {text : String} :
    t.read working path = .ok text ↔ t.resolve working path = .ok (.file text.toUTF8) := by
  unfold read
  cases t.resolve working path with
  | error e => simp
  | ok u =>
      cases u with
      | directory entries => simp
      | file bytes => simp [textOfBytes_eq_ok_iff]

theorem read_eq_notFound_iff :
    t.read working path = .error .notFound ↔ t.resolve working path = .error .notFound := by
  unfold read
  cases t.resolve working path with
  | error e => simp
  | ok u =>
      cases u with
      | directory entries => simp
      | file bytes => simp [textOfBytes_eq_error_iff]

/-- There is something at the path that is no text, or the path cannot be followed to where it
leads. -/
inductive Unreadable (t : FileTree) (working : List String) (path : String) : ReadError → Prop where
  | directory {entries : List (String × FileTree)}
      (h : t.resolve working path = .ok (.directory entries)) :
      Unreadable t working path .isDirectory
  | notText {bytes : ByteArray} (h : t.resolve working path = .ok (.file bytes))
      (hbytes : ∀ text : String, bytes ≠ text.toUTF8) : Unreadable t working path .invalidText
  | blocked {e : ReadError} (h : t.resolve working path = .error e) (he : e ≠ .notFound) :
      Unreadable t working path e

/-- There is nothing at the path, or there is a text. -/
def Loadable (t : FileTree) (working : List String) (path : String) : Prop :=
  t.resolve working path = .error .notFound
    ∨ ∃ text : String, t.resolve working path = .ok (.file text.toUTF8)

theorem unreadable_iff {e : ReadError} :
    Unreadable t working path e ↔ t.read working path = .error e ∧ e ≠ .notFound := by
  constructor
  · rintro (h | ⟨h, hbytes⟩ | ⟨h, he⟩)
    · simp [read, h]
    · simpa [read, h, textOfBytes_eq_error_iff] using hbytes
    · simp [read, h, he]
  · rintro ⟨h, he⟩
    unfold read at h
    split at h
    · next hpath =>
        cases h
        exact .blocked hpath he
    · next hpath =>
        cases h
        exact .directory hpath
    · next bytes hpath =>
        obtain ⟨rfl, hbytes⟩ := textOfBytes_eq_error_iff.mp h
        exact .notText hpath hbytes

end

/-! ## Places -/

def IsDirectory (t : FileTree) (place : List String) : Prop :=
  ∃ entries, t.get? place = some (.directory entries)

theorem get?_append (t : FileTree) (place rest : List String) :
    t.get? (place ++ rest) = (t.get? place).bind fun u => u.get? rest := by
  induction place generalizing t with
  | nil => rfl
  | cons name names ih =>
      rw [List.cons_append, get?_cons, get?_cons, Option.bind_assoc]
      exact congrArg (Option.bind (t.child? name)) (funext fun u => ih u)

theorem get?_append_singleton {t : FileTree} {place : List String}
    {entries : List (String × FileTree)} (h : t.get? place = some (.directory entries))
    (name : String) : t.get? (place ++ [name]) = entries.lookup name := by
  simp [get?_append, h]

theorem isDirectory_nil_iff {t : FileTree} :
    t.IsDirectory [] ↔ ∃ entries, t = .directory entries := by
  simp [IsDirectory]

theorem isDirectory_cons_iff {t : FileTree} {name : String} {names : List String} :
    t.IsDirectory (name :: names)
      ↔ ∃ entries u, t = .directory entries ∧ entries.lookup name = some u
        ∧ u.IsDirectory names := by
  cases t with
  | file bytes => simp [IsDirectory]
  | directory entries =>
      cases h : entries.lookup name with
      | none => simp [IsDirectory, h]
      | some u => simp [IsDirectory, h]

/-! ## A file is written -/

@[simp] theorem lookup_setEntry (name n : String) (u : FileTree)
    (entries : List (String × FileTree)) :
    (setEntry name u entries).lookup n = if n = name then some u else entries.lookup n := by
  induction entries with
  | nil => by_cases h : n = name <;> simp [setEntry, h]
  | cons e es ih =>
      obtain ⟨m, v⟩ := e
      rw [setEntry]
      by_cases hm : m = name
      · subst hm
        rw [if_pos rfl, List.lookup_cons, List.lookup_cons]
        by_cases hn : n = m
        · simp [hn]
        · simp [hn, beq_eq_false_iff_ne.mpr hn]
      · rw [if_neg hm, List.lookup_cons, List.lookup_cons, ih]
        by_cases hn : n = m
        · simp [hn, hm]
        · simp [beq_eq_false_iff_ne.mpr hn]

/-- A file in a directory is what its name leads to, and the other names lead to what they led
to. -/
theorem get?_insert_file {t : FileTree} {place : List String} (h : t.IsDirectory place)
    (bytes : ByteArray) (name n : String) :
    (insert (.file bytes) (place ++ [name]) t).get? (place ++ [n])
      = if n = name then some (.file bytes) else t.get? (place ++ [n]) := by
  induction place generalizing t with
  | nil =>
      obtain ⟨entries, rfl⟩ := isDirectory_nil_iff.mp h
      by_cases hn : n = name <;> simp [insert, hn]
  | cons p place ih =>
      obtain ⟨entries, u, rfl, hu, hplace⟩ := isDirectory_cons_iff.mp h
      simpa [insert, hu] using ih hplace

/-- The directories of a tree are directories of the other, and where there is something in the
one there is something in the other. -/
structure Keeps (t t' : FileTree) : Prop where
  isDirectory : ∀ place, t.IsDirectory place → t'.IsDirectory place
  isSome : ∀ place, (t.get? place).isSome → (t'.get? place).isSome

/-- A file has no places but its own. -/
theorem Keeps.file (bytes bytes' : ByteArray) : Keeps (.file bytes) (.file bytes') where
  isDirectory := by
    rintro (_ | ⟨name, names⟩) ⟨entries, h⟩ <;> cases h
  isSome := by
    rintro (_ | ⟨name, names⟩) h
    · rfl
    · cases h

/-- An entry is set to what keeps the one that it replaces, if it replaces one. -/
theorem Keeps.setEntry {name : String} {u' : FileTree} {entries : List (String × FileTree)}
    (h : ∀ u, entries.lookup name = some u → Keeps u u') :
    Keeps (.directory entries) (.directory (setEntry name u' entries)) where
  isDirectory := by
    rintro (_ | ⟨n, names⟩) hplace
    · exact isDirectory_nil_iff.mpr ⟨_, rfl⟩
    · obtain ⟨_, u, ⟨⟩, hu, hnames⟩ := isDirectory_cons_iff.mp hplace
      by_cases hn : n = name
      · subst hn
        exact isDirectory_cons_iff.mpr
          ⟨_, u', rfl, by simp, (h u hu).isDirectory names hnames⟩
      · exact isDirectory_cons_iff.mpr ⟨_, u, rfl, by simp [hn, hu], hnames⟩
  isSome := by
    rintro (_ | ⟨n, names⟩) hplace
    · rfl
    · simp only [get?_cons, child?_directory, lookup_setEntry] at hplace ⊢
      -- only what is below the entry can have changed
      by_cases hn : n = name
      · subst hn
        cases hu : entries.lookup n with
        | none => rw [hu] at hplace; cases hplace
        | some u =>
            rw [hu, Option.bind_some] at hplace
            simpa using (h u hu).isSome names hplace
      · simpa [hn] using hplace

/-- A file is written where there is no directory. -/
theorem Keeps.insert_file {t : FileTree} {place : List String} {name : String}
    (h : t.IsDirectory place) (hname : ¬ t.IsDirectory (place ++ [name])) (bytes : ByteArray) :
    Keeps t (insert (.file bytes) (place ++ [name]) t) := by
  induction place generalizing t with
  | nil =>
      obtain ⟨entries, rfl⟩ := isDirectory_nil_iff.mp h
      apply Keeps.setEntry
      intro u hu
      -- what the new file replaces is a file as well
      cases u with
      | file bytes' => exact .file bytes' bytes
      | directory es =>
          exact absurd (isDirectory_cons_iff.mpr
            ⟨_, _, rfl, hu, isDirectory_nil_iff.mpr ⟨es, rfl⟩⟩) hname
  | cons p place ih =>
      obtain ⟨entries, u, rfl, hu, hplace⟩ := isDirectory_cons_iff.mp h
      apply Keeps.setEntry
      intro v hv
      obtain rfl : u = v := Option.some.inj (hu.symm.trans hv)
      rw [hu, Option.getD_some]
      exact ih hplace fun hdir => hname (isDirectory_cons_iff.mpr ⟨_, u, rfl, hu, hdir⟩)

/-! ## The way to a file -/

def steps (path : String) : List String := (path.toList.splitOn '/').map String.ofList

def start (working : List String) (path : String) : List String :=
  if Text.startsWith ['/'] path.toList then [] else working

def move (t : FileTree) (place : List String) (step : String) : Except ReadError (List String) :=
  match t.get? place with
  | none => .error .notFound
  | some (.file _) => .error .notDirectory
  | some (.directory entries) =>
      if step = "" ∨ step = "." then .ok place
      else if step = ".." then .ok place.dropLast
      else if maxNameSize < step.utf8ByteSize then .error .nameTooLong
      else if (entries.lookup step).isNone then .error .notFound
      else .ok (place ++ [step])

theorem walk_cons (t : FileTree) (place : List String) (step : String) (steps : List String) :
    t.walk place (step :: steps) = (t.move place step).bind fun p => t.walk p steps := by
  rw [walk, move]
  cases t.get? place with
  | none => rfl
  | some u =>
      cases u with
      | file bytes => rfl
      | directory entries =>
          dsimp only
          split
          · rfl
          · split
            · rfl
            · split
              · rfl
              · split <;> rfl

theorem walk_append (t : FileTree) (place front rest : List String) :
    t.walk place (front ++ rest) = (t.walk place front).bind fun p => t.walk p rest := by
  induction front generalizing place with
  | nil => rfl
  | cons step front ih =>
      rw [List.cons_append, walk_cons, walk_cons]
      cases t.move place step with
      | error e => rfl
      | ok p => exact ih p

/-- A step that is the name of an entry: it neither stays nor goes up, and it is not too long. -/
structure IsEntryName (name : String) : Prop where
  ne_empty : name ≠ ""
  ne_here : name ≠ "."
  ne_up : name ≠ ".."
  size_le : name.utf8ByteSize ≤ maxNameSize

/-- A step to the name of an entry leads there if there is something. -/
theorem move_entryName {t : FileTree} {place : List String} {name : String}
    (h : t.IsDirectory place) (hname : IsEntryName name) :
    t.move place name
      = if (t.get? (place ++ [name])).isSome then .ok (place ++ [name]) else .error .notFound := by
  obtain ⟨entries, hplace⟩ := h
  have hstay : ¬ (name = "" ∨ name = ".") := not_or.mpr ⟨hname.ne_empty, hname.ne_here⟩
  rw [move, hplace, get?_append_singleton hplace]
  dsimp only
  rw [if_neg hstay, if_neg hname.ne_up, if_neg (Nat.not_lt.mpr hname.size_le)]
  cases entries.lookup name <;> rfl

/-- The ways in which a step can be taken. -/
inductive Moves (t : FileTree) : List String → String → List String → Prop where
  | stay {place : List String} {step : String} (h : t.IsDirectory place)
      (hstep : step = "" ∨ step = ".") : Moves t place step place
  | up {place : List String} (h : t.IsDirectory place) : Moves t place ".." place.dropLast
  | enter {place : List String} {name : String} (h : t.IsDirectory place)
      (hname : IsEntryName name) (hsome : (t.get? (place ++ [name])).isSome) :
      Moves t place name (place ++ [name])

theorem move_eq_ok_iff {t : FileTree} {place place' : List String} {step : String} :
    t.move place step = .ok place' ↔ Moves t place step place' := by
  constructor
  · intro h
    cases hplace : t.get? place with
    | none => simp [move, hplace] at h
    | some u =>
        cases u with
        | file bytes => simp [move, hplace] at h
        | directory entries =>
            have hdir : t.IsDirectory place := ⟨entries, hplace⟩
            -- the tests of `move`, in their order
            by_cases hstay : step = "" ∨ step = "."
            · simp only [move, hplace, if_pos hstay] at h
              cases h
              exact .stay hdir hstay
            by_cases hup : step = ".."
            · subst hup
              simp only [move, hplace, if_neg hstay, if_true] at h
              cases h
              exact .up hdir
            by_cases hsize : maxNameSize < step.utf8ByteSize
            · simp only [move, hplace, if_neg hstay, if_neg hup, if_pos hsize] at h
              cases h
            obtain ⟨hempty, hhere⟩ := not_or.mp hstay
            have hname : IsEntryName step := ⟨hempty, hhere, hup, Nat.not_lt.mp hsize⟩
            rw [move_entryName hdir hname] at h
            split at h
            · next hsome =>
                cases h
                exact .enter hdir hname hsome
            · cases h
  · rintro (⟨⟨entries, hplace⟩, hstep⟩ | ⟨entries, hplace⟩ | ⟨h, hname, hsome⟩)
    · simp [move, hplace, hstep]
    · simp [move, hplace]
    · rw [move_entryName h hname, if_pos hsome]

theorem Keeps.moves {t t' : FileTree} (h : Keeps t t') {place place' : List String}
    {step : String} (hmove : Moves t place step place') : Moves t' place step place' := by
  cases hmove with
  | stay hdir hstep => exact .stay (h.isDirectory _ hdir) hstep
  | up hdir => exact .up (h.isDirectory _ hdir)
  | enter hdir hname hsome => exact .enter (h.isDirectory _ hdir) hname (h.isSome _ hsome)

/-- A way that can be gone can still be gone where everything is kept. -/
theorem Keeps.walk {t t' : FileTree} (h : Keeps t t') {place place' steps : List String}
    (hwalk : t.walk place steps = .ok place') : t'.walk place steps = .ok place' := by
  induction steps generalizing place with
  | nil => exact hwalk
  | cons step steps ih =>
      rw [walk_cons] at hwalk ⊢
      cases hmove : t.move place step with
      | error e => rw [hmove] at hwalk; cases hwalk
      | ok p =>
          rw [hmove] at hwalk
          rw [move_eq_ok_iff.mpr (h.moves (move_eq_ok_iff.mp hmove))]
          exact ih hwalk

/-- The path leads to a directory, and this is the place of the directory. -/
structure LeadsTo (t : FileTree) (working : List String) (path : String) (place : List String) :
    Prop where
  walk : t.walk (start working path) (steps path) = .ok place
  isDirectory : t.IsDirectory place
  no_zero : '\x00' ∉ path.toList

theorem LeadsTo.mono {t t' : FileTree} {working place : List String} {path : String}
    (h : t.LeadsTo working path place) (hkeeps : Keeps t t') : t'.LeadsTo working path place where
  walk := hkeeps.walk h.walk
  isDirectory := hkeeps.isDirectory place h.isDirectory
  no_zero := h.no_zero

/-- A path into the working directory is the name. Any other is the path of the directory and the
name, with a slash between them that the directory's path may bring with it. -/
theorem toList_join (directory : String) {name : String} (hslash : '/' ∉ name.toList) :
    (directory.toList = [] ∧ (Path.join directory name).toList = name.toList)
      ∨ ∃ a, (Path.join directory name).toList = a ++ '/' :: name.toList
        ∧ (directory.toList = a ++ ['/'] ∨ directory.toList = a ∧ a ≠ []) := by
  have hrelative : Text.startsWith ['/'] name.toList = false := by
    rw [Text.startsWith_singleton, decide_eq_false_iff_not]
    exact fun h => hslash (List.mem_of_mem_head? h)
  rw [Path.join, hrelative, if_neg Bool.false_ne_true]
  by_cases hempty : directory = ""
  · left
    simp [hempty]
  by_cases hend : Text.endsWith ['/'] directory.toList = true
  · right
    obtain ⟨a, ha⟩ := Text.endsWith_iff.mp hend
    exact ⟨a, by simp [ha], Or.inl ha⟩
  · right
    refine ⟨directory.toList, by simp [hempty, hend], Or.inr ⟨rfl, ?_⟩⟩
    simpa using hempty

/-- The steps of a directory's path, and behind them a name in the directory. A slash at the end
of the path makes a last step that stays. -/
theorem steps_join (directory : String) {name : String} (hslash : '/' ∉ name.toList) :
    ∃ front, steps (Path.join directory name) = front ++ [name]
      ∧ (steps directory = front ∨ steps directory = front ++ [""]) := by
  have hname : name.toList.splitOn '/' = [name.toList] := List.splitOn_eq_singleton hslash
  rcases toList_join directory hslash with ⟨hdir, hjoin⟩ | ⟨a, hjoin, hdir⟩
  · exact ⟨[], by simp [steps, hjoin, hname], Or.inr (by rw [steps, hdir]; rfl)⟩
  · refine ⟨(a.splitOn '/').map String.ofList, ?_, ?_⟩
    · rw [steps, hjoin, List.splitOn_append_cons_self, hname]
      simp
    · rcases hdir with hdir | ⟨hdir, -⟩
      · right
        rw [steps, hdir, List.splitOn_append_cons_self]
        simp
      · exact Or.inl (by rw [steps, hdir])

theorem start_join {name : String} (working : List String) (directory : String)
    (hslash : '/' ∉ name.toList) :
    start working (Path.join directory name) = start working directory := by
  have hhead : (Path.join directory name).toList.head? = some '/'
      ↔ directory.toList.head? = some '/' := by
    rcases toList_join directory hslash with ⟨hdir, hjoin⟩ | ⟨a, hjoin, hdir⟩
    · have hname : name.toList.head? ≠ some '/' := fun h => hslash (List.mem_of_mem_head? h)
      simp [hjoin, hdir, hname]
    · rcases hdir with hdir | ⟨hdir, hne⟩
      · cases a <;> simp [hjoin, hdir]
      · cases a with
        | nil => exact absurd rfl hne
        | cons c a => simp [hjoin, hdir]
  simp only [start, Text.startsWith_singleton, hhead]

/-- An empty step stays in a directory. -/
theorem walk_empty_eq_ok_iff {t : FileTree} {place place' : List String} :
    t.walk place [""] = .ok place' ↔ t.IsDirectory place ∧ place = place' := by
  cases h : t.get? place with
  | none => simp [walk, IsDirectory, h]
  | some u => cases u <;> simp [walk, IsDirectory, h]

/-- The name of an entry as it can stand in a path. -/
structure IsPathName (name : String) : Prop extends IsEntryName name where
  no_slash : '/' ∉ name.toList
  no_zero : '\x00' ∉ name.toList

section

variable {t : FileTree} {working place : List String} {directory name : String}

/-- A path into a directory leads on from the directory to the entry of the name. -/
theorem LeadsTo.walk_join (h : t.LeadsTo working directory place) (hname : IsPathName name) :
    t.walk (start working (Path.join directory name)) (steps (Path.join directory name))
      = if (t.get? (place ++ [name])).isSome then .ok (place ++ [name]) else .error .notFound := by
  obtain ⟨front, hjoin, hdir⟩ := steps_join directory hname.no_slash
  have hfront : t.walk (start working directory) front = .ok place := by
    have hwalk := h.walk
    rcases hdir with hdir | hdir
    · rwa [hdir] at hwalk
    · -- the slash at the end of the directory's path
      rw [hdir, walk_append] at hwalk
      cases hp : t.walk (start working directory) front with
      | error e => rw [hp] at hwalk; cases hwalk
      | ok p =>
          rw [hp] at hwalk
          rw [(walk_empty_eq_ok_iff.mp hwalk).2]
  rw [start_join working directory hname.no_slash, hjoin, walk_append, hfront]
  show t.walk place [name] = _
  rw [walk_cons, move_entryName h.isDirectory hname.toIsEntryName]
  split <;> rfl

theorem mem_join_iff {c : Char} (hc : c ≠ '/') (hslash : '/' ∉ name.toList) :
    c ∈ (Path.join directory name).toList ↔ c ∈ directory.toList ∨ c ∈ name.toList := by
  rcases toList_join directory hslash with ⟨hdir, hjoin⟩ | ⟨a, hjoin, hdir⟩
  · simp [hjoin, hdir]
  · rcases hdir with hdir | ⟨hdir, -⟩ <;> simp [hjoin, hdir, hc]

theorem join_ne_empty (hname : IsPathName name) : Path.join directory name ≠ "" := by
  intro h
  have hlist : (Path.join directory name).toList = [] := by rw [h]; rfl
  rcases toList_join directory hname.no_slash with ⟨-, hjoin⟩ | ⟨a, hjoin, -⟩
  · rw [hjoin] at hlist
    exact hname.ne_empty (by simpa using hlist)
  · simp [hjoin] at hlist

/-- A path into a directory leads to the entry of the name, if it is not too long. -/
theorem LeadsTo.resolve_join (h : t.LeadsTo working directory place) (hname : IsPathName name)
    (hsize : (Path.join directory name).utf8ByteSize < pathSizeLimit) :
    t.resolve working (Path.join directory name)
      = match t.get? (place ++ [name]) with
        | some u => .ok u
        | none => .error .notFound := by
  have hzero : ¬ '\x00' ∈ (Path.join directory name).toList := by
    rw [mem_join_iff (by decide) hname.no_slash]
    exact not_or.mpr ⟨h.no_zero, hname.no_zero⟩
  have hwalk := h.walk_join hname
  unfold start steps at hwalk
  rw [resolve, if_neg (by simpa using hzero), if_neg (join_ne_empty hname),
    if_neg (Nat.not_le.mpr hsize)]
  simp only [hwalk]
  cases hentry : t.get? (place ++ [name]) with
  | none => rfl
  | some u => simp [hentry]

end

end FileTree

end MigrationDraft
