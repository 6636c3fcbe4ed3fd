import MigrationDraft.Proofs.Inflection.Endings
import MigrationDraft.Proofs.Shorthand.Commas
import MigrationDraft.Proofs.Text.Bytes
import Mathlib.Data.List.Forall2
import Mathlib.Data.List.Induction
import Mathlib.Order.Bounds.Basic

set_option autoImplicit false

/-!
# Outer commas by their bytes

A text is cut at its outer commas in one pass over its characters, each with the byte it begins at
(`Scan.run`). The pass counts the depth of parentheses and keeps the byte at which the current piece
begins; a piece is named by its bounds in bytes. All bounds are boundaries of characters, and the
slices between them are the pieces of the text.

What one character does is `Scan.Reached.step`, and the whole pass follows by induction
(`Scan.Reached.run`).
-/

namespace MigrationDraft.Shorthand

open Text Inflection

/-! ## The pass -/

/-- A pass over a text: the depth of parentheses, the byte at which the current piece begins, and
the bounds of the pieces before it. -/
structure Scan where
  depth : Nat
  start : Nat
  cut : List (Nat × Nat)
  deriving DecidableEq, Repr

namespace Scan

def initial : Scan := ⟨0, 0, []⟩

/-- The pass after a character that begins at byte `i`. -/
def step (scan : Scan) (i : Nat) (c : Char) : Scan :=
  if c = '(' then { scan with depth := scan.depth + 1 }
  else if c = ')' then { scan with depth := scan.depth - 1 }
  else if c = ',' ∧ scan.depth = 0 then
    { scan with start := i + 1, cut := scan.cut ++ [(scan.start, i)] }
  else scan

def run (scan : Scan) : Nat → List Char → Scan
  | _, [] => scan
  | i, c :: s => run (scan.step i c) (i + c.utf8Size) s

/-- The bounds of all pieces, when the text is over at byte `size`. -/
def bounds (scan : Scan) (size : Nat) : List (Nat × Nat) := scan.cut ++ [(scan.start, size)]

end Scan

def pieceBounds (text : String) : List (Nat × Nat) :=
  (Scan.initial.run 0 text.toList).bounds text.utf8ByteSize

def outerCommas (s : List Char) : Nat :=
  (List.range s.length).countP fun i => s[i]? = some ',' ∧ depthAfter 0 (s.take i) = 0

theorem outerCommas_concat (s : List Char) (c : Char) :
    outerCommas (s ++ [c])
      = outerCommas s + if c = ',' ∧ depthAfter 0 s = 0 then 1 else 0 := by
  have hfront : ∀ i ∈ List.range s.length,
      decide ((s ++ [c])[i]? = some ',' ∧ depthAfter 0 ((s ++ [c]).take i) = 0)
        = decide (s[i]? = some ',' ∧ depthAfter 0 (s.take i) = 0) := by
    intro i hi
    have hlt : i < s.length := List.mem_range.mp hi
    rw [List.getElem?_append_left hlt, List.take_append_of_le_length hlt.le]
  rw [outerCommas, List.length_append, List.length_singleton, List.range_succ, List.countP_append,
    List.countP_congr (fun i hi => by rw [hfront i hi])]
  simp [outerCommas, List.countP_singleton]

/-! ## Depth -/

/-- How many more parentheses a text opens than it closes. -/
def surplus (s : List Char) : Int := s.count '(' - s.count ')'

@[simp] theorem surplus_concat (s : List Char) (c : Char) :
    surplus (s ++ [c]) = surplus s + (if c = '(' then 1 else 0) - if c = ')' then 1 else 0 := by
  simp only [surplus, List.count_append, List.count_singleton, beq_iff_eq]
  split <;> split <;> omega

/-- The depth is the greatest surplus of a stretch of text that ends here. The empty one has none,
so it is never negative. -/
theorem isGreatest_depthAfter (read : List Char) :
    IsGreatest {n : Int | ∃ t, t <:+ read ∧ n = surplus t} (depthAfter 0 read) := by
  induction read using List.reverseRecOn with
  | nil =>
      refine ⟨⟨[], List.suffix_rfl, rfl⟩, ?_⟩
      rintro n ⟨t, ht, rfl⟩
      rw [List.suffix_nil.mp ht]
      decide
  | append_singleton read c ih =>
      obtain ⟨⟨t, ht, hmax⟩, hle⟩ := ih
      have hdepth : depthAfter 0 (read ++ [c]) = nextDepth (depthAfter 0 read) c :=
        depthAfter_append 0 read [c]
      -- a suffix of the longer text is empty, or a suffix of the shorter one with the character
      rw [hdepth, nextDepth]
      constructor
      · -- the greatest surplus goes on, unless a parenthesis is closed where there is none
        by_cases hstray : c = ')' ∧ depthAfter 0 read = 0
        · refine ⟨[], List.nil_suffix, ?_⟩
          simp [hstray, surplus]
        · refine ⟨t ++ [c], List.suffix_concat_iff.mpr (Or.inr ⟨t, rfl, ht⟩), ?_⟩
          rw [surplus_concat, ← hmax]
          grind
      · rintro n ⟨u, hu, rfl⟩
        rcases List.suffix_concat_iff.mp hu with rfl | ⟨v, rfl, hv⟩
        · exact Int.natCast_nonneg _
        · have hsurplus : surplus v ≤ depthAfter 0 read := hle ⟨v, hv, rfl⟩
          rw [surplus_concat]
          grind

namespace Scan

/-! ## One character and the whole pass -/

@[simp] theorem depth_step (scan : Scan) (i : Nat) (c : Char) :
    (scan.step i c).depth = nextDepth scan.depth c := by
  unfold step nextDepth
  split
  · rfl
  · split
    · rfl
    · split <;> rfl

theorem step_of_cut {scan : Scan} (hdepth : scan.depth = 0) (i : Nat) :
    scan.step i ',' = { scan with start := i + 1, cut := scan.cut ++ [(scan.start, i)] } := by
  simp [step, hdepth]

theorem step_of_not_cut {scan : Scan} {c : Char} (h : ¬ (c = ',' ∧ scan.depth = 0)) (i : Nat) :
    (scan.step i c).start = scan.start ∧ (scan.step i c).cut = scan.cut := by
  unfold step
  rw [if_neg h]
  split
  · exact ⟨rfl, rfl⟩
  · split <;> exact ⟨rfl, rfl⟩

/-- The pass has found the pieces `done`, which make up the text `before` with its last comma, and
has come to the end of the text `current` in the piece after them. -/
structure Reached (scan : Scan) (before current : List Char) (done : List (List Char)) :
    Prop where
  depth_before : depthAfter 0 before = 0
  pieces_append : ∀ s, pieces (before ++ s) = done ++ pieces s
  uncut : Uncut 0 current
  depth : scan.depth = depthAfter 0 current
  start : scan.start = byteSize before
  cut : List.Forall₂ (Spans before) scan.cut done
  count : done.length = outerCommas (before ++ current)

theorem reached_initial : Reached initial [] [] [] :=
  ⟨rfl, fun _ => rfl, rfl, rfl, rfl, .nil, rfl⟩

namespace Reached

variable {scan : Scan} {before current : List Char} {done : List (List Char)}

theorem depth_eq (h : Reached scan before current done) :
    scan.depth = depthAfter 0 (before ++ current) := by
  rw [depthAfter_append, h.depth_before, h.depth]

theorem step (h : Reached scan before current done) (c : Char) :
    ∃ before' current' done', before' ++ current' = before ++ current ++ [c]
      ∧ Reached (scan.step (byteSize (before ++ current)) c) before' current' done' := by
  by_cases hcut : c = ',' ∧ scan.depth = 0
  · -- the current piece is over, and the next one begins after the comma
    obtain ⟨rfl, hdepth⟩ := hcut
    have hcurrent : depthAfter 0 current = 0 := h.depth ▸ hdepth
    have hall : depthAfter 0 (before ++ current) = 0 := h.depth_eq ▸ hdepth
    refine ⟨before ++ current ++ [','], [], done ++ [current], List.append_nil _, ?_⟩
    rw [step_of_cut hdepth]
    constructor
    · rw [depthAfter_append, hall]
      rfl
    · intro s
      have hpiece : pieces current = [current] := h.uncut
      rw [List.append_assoc, List.append_assoc, h.pieces_append, List.singleton_append,
        pieces_append_comma hcurrent, hpiece, List.append_assoc]
    · rfl
    · exact hdepth
    · rw [byteSize_append (before ++ current), byteSize_singleton]
      rfl
    · have hspans : Spans (before ++ current ++ [',']) (scan.start, byteSize (before ++ current))
          current := ⟨before, [','], rfl, by rw [h.start]⟩
      refine List.rel_append (h.cut.imp fun b p hb => ?_) (.cons hspans .nil)
      rw [List.append_assoc]
      exact hb.append _
    · rw [List.append_nil, outerCommas_concat, if_pos ⟨rfl, hall⟩, List.length_append, h.count]
      rfl
  · -- the character goes on with the current piece
    obtain ⟨hstart, hsame⟩ := step_of_not_cut hcut (byteSize (before ++ current))
    refine ⟨before, current ++ [c], done, (List.append_assoc _ _ _).symm, ?_⟩
    constructor
    · exact h.depth_before
    · exact h.pieces_append
    · refine h.uncut.append (uncut_cons_iff.mpr ⟨?_, rfl⟩)
      rwa [← h.depth]
    · rw [depth_step, h.depth, depthAfter_append]
      rfl
    · rw [hstart, h.start]
    · rw [hsame]
      exact h.cut
    · rw [← List.append_assoc, outerCommas_concat, ← h.depth_eq, if_neg hcut, h.count]
      rfl

/-- What a pass reaches in a text, it reaches character by character. -/
theorem run (h : Reached scan before current done) (s : List Char) :
    ∃ before' current' done', before' ++ current' = before ++ current ++ s
      ∧ Reached (scan.run (byteSize (before ++ current)) s) before' current' done' := by
  induction s generalizing scan before current done with
  | nil => exact ⟨before, current, done, (List.append_nil _).symm, h⟩
  | cons c s ih =>
      obtain ⟨before', current', done', hread, h'⟩ := h.step c
      obtain ⟨before'', current'', done'', hread'', h''⟩ := ih h'
      refine ⟨before'', current'', done'', by rw [hread'', hread, List.append_assoc]; rfl, ?_⟩
      rwa [hread, byteSize_append _ [c], byteSize_singleton] at h''

end Reached

theorem exists_reached (read : List Char) : ∃ before current done, read = before ++ current
    ∧ Reached (initial.run 0 read) before current done := by
  obtain ⟨before, current, done, hread, h⟩ := reached_initial.run read
  exact ⟨before, current, done, hread.symm, h⟩

theorem run_append (scan : Scan) (i : Nat) (a b : List Char) :
    scan.run i (a ++ b) = (scan.run i a).run (i + byteSize a) b := by
  induction a generalizing scan i with
  | nil => rfl
  | cons c a ih =>
      rw [List.cons_append, run, run, ih, ← List.singleton_append, byteSize_append,
        byteSize_singleton, Nat.add_assoc]

/-- A character adds at most the piece that is over before it. -/
theorem bounds_step {scan : Scan} {i : Nat} (hi : scan.start ≤ i) (c : Char) :
    (scan.start ≤ (scan.step i c).start ∧ (scan.step i c).start ≤ i + c.utf8Size)
      ∧ ∀ b ∈ (scan.step i c).cut, b ∈ scan.cut ∨ b.1 = scan.start := by
  by_cases hcut : c = ',' ∧ scan.depth = 0
  · obtain ⟨rfl, hdepth⟩ := hcut
    rw [step_of_cut hdepth]
    refine ⟨⟨Nat.le_succ_of_le hi, le_refl _⟩, fun b hb => ?_⟩
    rcases List.mem_append.mp hb with hb | hb
    · exact Or.inl hb
    · exact Or.inr (by rw [List.mem_singleton.mp hb])
  · obtain ⟨hstart, hsame⟩ := step_of_not_cut hcut i
    rw [hstart, hsame]
    exact ⟨⟨le_refl _, Nat.le_add_right_of_le hi⟩, fun b hb => Or.inl hb⟩

/-- The pieces that are found from here on begin no earlier than the current one. -/
theorem bounds_run {scan : Scan} {i : Nat} (hi : scan.start ≤ i) (s : List Char) :
    scan.start ≤ (scan.run i s).start
      ∧ ∀ b ∈ (scan.run i s).cut, b ∈ scan.cut ∨ scan.start ≤ b.1 := by
  induction s generalizing scan i with
  | nil => exact ⟨le_refl _, fun b hb => Or.inl hb⟩
  | cons c s ih =>
      obtain ⟨⟨hstart, hnext⟩, hstep⟩ := bounds_step hi c
      obtain ⟨hstart', hrun⟩ := ih hnext
      refine ⟨hstart.trans hstart', fun b hb => ?_⟩
      rcases hrun b hb with hb | hb
      · exact (hstep b hb).imp_right fun h => h.ge
      · exact Or.inr (hstart.trans hb)

/-! ## Safety -/

/-- Where a pass over a text stands after what it has read. -/
structure SafeAfter (text : String) (read : List Char) (scan : Scan) : Prop where
  start_le : scan.start ≤ byteSize read
  le_size : byteSize read ≤ text.utf8ByteSize
  start_boundary : IsBoundary text scan.start
  boundary : IsBoundary text (byteSize read)
  /-- The depth never has to go below zero. -/
  depth : IsGreatest {n : Int | ∃ t, t <:+ read ∧ n = surplus t} scan.depth
  depth_le : scan.depth ≤ read.count '('

theorem safeAfter {text : String} {read rest : List Char} (htext : text.toList = read ++ rest) :
    SafeAfter text read (initial.run 0 read) := by
  obtain ⟨before, current, done, hread, h⟩ := exists_reached read
  have hdepth : (initial.run 0 read).depth = depthAfter 0 read := by rw [h.depth_eq, hread]
  have hgreatest := isGreatest_depthAfter read
  rw [← hdepth] at hgreatest
  obtain ⟨t, ht, hmax⟩ := hgreatest.1
  constructor
  · rw [h.start, hread, byteSize_append]
    exact Nat.le_add_right _ _
  · rw [← byteSize_toList, htext, byteSize_append]
    exact Nat.le_add_right _ _
  · rw [h.start]
    refine isBoundary_of_append (b := current ++ rest) ?_
    rw [htext, hread, List.append_assoc]
  · exact isBoundary_of_append htext
  · exact hgreatest
  · have hcount : t.count '(' ≤ read.count '(' := ht.sublist.count_le _
    rw [surplus] at hmax
    omega

end Scan

/-! ## The slices of a text -/

theorem mapM_slice?_eq {text : String} {bounds : List (Nat × Nat)} {parts : List (List Char)}
    (h : List.Forall₂ (Spans text.toList) bounds parts) :
    bounds.mapM (slice? text) = some (parts.map String.ofList) := by
  induction h with
  | nil => rfl
  | cons hb _ ih =>
      rw [List.mapM_cons, hb.slice?_eq, ih]
      rfl

/-- The bounds of the pieces, with the pieces that stand between them. -/
theorem spans_pieceBounds (text : String) :
    List.Forall₂ (Spans text.toList) (pieceBounds text) (pieces text.toList) := by
  obtain ⟨before, current, done, htext, h⟩ := Scan.exists_reached text.toList
  have hpieces : pieces text.toList = done ++ [current] := by
    rw [htext, h.pieces_append, show pieces current = [current] from h.uncut]
  have hlast : Spans text.toList ((Scan.initial.run 0 text.toList).start, text.utf8ByteSize)
      current := by
    refine ⟨before, [], by rw [htext, List.append_nil], ?_⟩
    rw [h.start, ← htext, byteSize_toList]
  rw [hpieces]
  refine List.rel_append (h.cut.imp fun b p hb => ?_) (.cons hlast .nil)
  rw [htext]
  exact hb.append current

theorem length_pieces (s : List Char) : (pieces s).length = outerCommas s + 1 := by
  obtain ⟨before, current, done, hs, h⟩ := Scan.exists_reached s
  rw [hs, h.pieces_append, show pieces current = [current] from h.uncut, List.length_append,
    h.count]
  rfl

theorem stop_le_of_mem {s : List Char} {bounds : List (Nat × Nat)} {parts : List (List Char)}
    (h : List.Forall₂ (Spans s) bounds parts) : ∀ b ∈ bounds, b.2 ≤ byteSize s := by
  induction h with
  | nil => exact fun b hb => nomatch hb
  | cons hb _ ih => exact List.forall_mem_cons.mpr ⟨hb.stop_le, ih⟩

/-- An outer comma lies behind a piece or before it. -/
theorem outer_comma_not_within {text : String} {read rest : List Char}
    (htext : text.toList = read ++ ',' :: rest) (hdepth : depthAfter 0 read = 0) :
    ∀ b ∈ pieceBounds text, b.2 ≤ byteSize read ∨ byteSize read < b.1 := by
  obtain ⟨before, current, done, hread, h⟩ := Scan.exists_reached read
  generalize hscan : Scan.initial.run 0 read = scan at h
  have hzero : scan.depth = 0 := by rw [h.depth_eq, ← hread, hdepth]
  have hcut := Scan.step_of_cut hzero (byteSize read)
  have hrun : Scan.initial.run 0 text.toList
      = (scan.step (byteSize read) ',').run (byteSize read + 1) rest := by
    rw [htext, Scan.run_append, hscan, Nat.zero_add]
    rfl
  -- what comes after the comma is cut into pieces that start behind it
  generalize scan.step (byteSize read) ',' = next at hcut hrun
  have hstart : next.start = byteSize read + 1 := by rw [hcut]
  obtain ⟨hlast, hlater⟩ := Scan.bounds_run hstart.le rest
  rw [hstart] at hlast hlater
  intro b hb
  rw [pieceBounds, hrun] at hb
  rcases List.mem_append.mp hb with hb | hb
  · rcases hlater b hb with hb | hb
    · -- a piece from before the comma
      rw [hcut] at hb
      refine Or.inl ?_
      rcases List.mem_append.mp hb with hb | hb
      · refine (stop_le_of_mem h.cut b hb).trans ?_
        rw [hread, byteSize_append]
        exact Nat.le_add_right _ _
      · rw [List.mem_singleton.mp hb]
    · exact Or.inr hb
  · rw [List.mem_singleton.mp hb]
    exact Or.inr hlast

/-! ## The noun before an `s` -/

/-- A word without its last byte. There is none if the word is empty or if that byte is not a
character of its own. -/
def withoutLastByte? (word : String) : Option String :=
  if word.utf8ByteSize = 0 then none else slice? word (0, word.utf8ByteSize - 1)

theorem withoutLastByte?_of_dropSuffix? {word : String} {stem : List Char}
    (h : dropSuffix? "es".toList word.toList = some stem) :
    withoutLastByte? word = some (String.ofList (stem ++ "e".toList)) := by
  have hparts : word.toList = [] ++ (stem ++ "e".toList) ++ ['s'] := by
    rw [dropSuffix?_eq_some_iff.mp h, List.nil_append, List.append_assoc]
    rfl
  have hsize : word.utf8ByteSize = byteSize (stem ++ "e".toList) + 1 := by
    rw [← byteSize_toList, hparts, List.nil_append, byteSize_append, byteSize_singleton]
    rfl
  rw [withoutLastByte?, if_neg (by omega), hsize, Nat.add_sub_cancel]
  exact Spans.slice?_eq ⟨[], ['s'], hparts, rfl⟩

/-- The rule for plurals in `es`, with the noun that it looks up cut out of the word by its bytes.
There is no outcome if that fails. -/
def singularOfEsBySlice (word : String) : Option (Option (List Char)) :=
  match dropSuffix? "es".toList word.toList with
  | none => some none
  | some stem =>
      let otherwise := if isUsStem stem then some stem else none
      if endsInAny ["ss", "x", "zz", "ch", "sh"] stem then
        (withoutLastByte? word).map fun noun => if noun ∈ cheNouns then otherwise else some stem
      else some otherwise

theorem singularOfEsBySlice_eq (word : String) :
    singularOfEsBySlice word = some (singularOfEs? word.toList) := by
  unfold singularOfEsBySlice singularOfEs?
  cases h : dropSuffix? "es".toList word.toList with
  | none => rfl
  | some stem =>
      dsimp only [Option.bind_some]
      rw [withoutLastByte?_of_dropSuffix? h, Option.map_some]
      cases endsInAny ["ss", "x", "zz", "ch", "sh"] stem with
      | false => rfl
      | true =>
          rw [if_pos rfl]
          cases hche : isIn cheNouns (stem ++ "e".toList) with
          | false =>
              rw [if_neg (by rw [← isIn_iff, hche]; exact Bool.false_ne_true)]
              rfl
          | true =>
              rw [if_pos (isIn_iff.mp hche)]
              rfl

/-! ## The law -/

/-- What is to be said of the cut of a text into pieces by their bounds in bytes. -/
structure CutSafely (text : String) : Prop where
  /-- All bounds are boundaries of characters and in order, and the slices are the pieces. -/
  slices : (pieceBounds text).mapM (slice? text) = some ((pieces text.toList).map String.ofList)
  /-- Joined with commas the pieces give back the text. -/
  joined : [','].intercalate (pieces text.toList) = text.toList
  /-- There is one piece more than there are outer commas. -/
  count : (pieces text.toList).length = outerCommas text.toList + 1
  /-- No outer comma of the text lies within the bounds of a piece. -/
  outer : ∀ read rest, text.toList = read ++ ',' :: rest → depthAfter 0 read = 0 →
    ∀ b ∈ pieceBounds text, b.2 ≤ byteSize read ∨ byteSize read < b.1
  /-- At every character, and at the end, the pass stands at boundaries and at a true depth. -/
  pass : ∀ read rest, text.toList = read ++ rest →
    Scan.SafeAfter text read (Scan.initial.run 0 read)

/-- **Slices are cut between characters**, those of a text at its outer commas and that of a word
that is looked up without the last letter of its ending. -/
theorem slices_sound :
    (∀ text : String, CutSafely text)
      ∧ ∀ word : String, singularOfEsBySlice word = some (singularOfEs? word.toList) := by
  refine ⟨fun text => ?_, singularOfEsBySlice_eq⟩
  exact
    { slices := mapM_slice?_eq (spans_pieceBounds text)
      joined := intercalate_piecesFrom 0 text.toList
      count := length_pieces text.toList
      outer := fun _ _ => outer_comma_not_within
      pass := fun _ _ => Scan.safeAfter }

/-- Characters of several bytes, a comma in a group, a closing parenthesis too many and an empty
piece. -/
example : pieceBounds "é(,),ü)),,x" = [(0, 5), (6, 10), (11, 11), (12, 13)] := by decide +kernel

end MigrationDraft.Shorthand
