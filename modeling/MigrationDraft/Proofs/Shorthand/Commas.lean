import MigrationDraft.Shorthand

set_option autoImplicit false

/-!
# Outer commas

A comma outside all parentheses is a clean cut: what stands before it and what stands after it
are read independently of each other (`pieces_append_comma`), however malformed they are, as
long as the depth of parentheses is zero at the cut. Reading a shorthand text is therefore a
homomorphism from texts joined by such commas to schemas joined end to end.

A text that has no outer comma and closes what it opens is *self-contained*. Such texts are the
material of a printed schema: they join to self-contained texts, and between commas they come
back as pieces. A text that is so at every depth is *neutral* and can be put in anywhere.
-/

namespace MigrationDraft.Shorthand

/-! ## Depth -/

/-- Only parentheses change the depth. -/
theorem nextDepth_of_ne {c : Char} (ho : c ≠ '(') (hc : c ≠ ')') (depth : Nat) :
    nextDepth depth c = depth := by
  simp [nextDepth, ho, hc]

theorem depthAfter_of_not_mem {s : List Char} (ho : '(' ∉ s) (hc : ')' ∉ s) (depth : Nat) :
    depthAfter depth s = depth := by
  induction s with
  | nil => rfl
  | cons c s ih =>
      rw [List.mem_cons, not_or] at ho hc
      rw [depthAfter_cons, nextDepth_of_ne (Ne.symm ho.1) (Ne.symm hc.1), ih ho.2 hc.2]

/-! ## Cutting at a comma of depth zero -/

theorem piecesFrom_append_comma {depth : Nat} {a : List Char} (h : depthAfter depth a = 0)
    (b : List Char) : piecesFrom depth (a ++ ',' :: b) = piecesFrom depth a ++ pieces b := by
  induction a generalizing depth with
  | nil =>
      have hd : depth = 0 := h
      simp [hd, piecesFrom, pieces]
  | cons c a ih =>
      rw [List.cons_append, piecesFrom, piecesFrom]
      by_cases hcut : c = ',' ∧ depth = 0
      · have hnext : nextDepth depth c = 0 := by
          rw [nextDepth_of_ne (by simp [hcut.1]) (by simp [hcut.1]), hcut.2]
        rw [depthAfter_cons, hnext] at h
        rw [if_pos hcut, if_pos hcut, ih h, List.cons_append]
      · rw [depthAfter_cons] at h
        rw [if_neg hcut, if_neg hcut, ih h]
        -- the character goes to the first piece, which is a piece of `a`
        cases hp : piecesFrom (nextDepth depth c) a with
        | nil => exact absurd hp (piecesFrom_ne_nil _ _)
        | cons p ps => rfl

/-- At a comma of depth zero the pieces before and the pieces after it are side by side. -/
theorem pieces_append_comma {a : List Char} (h : depthAfter 0 a = 0) (b : List Char) :
    pieces (a ++ ',' :: b) = pieces a ++ pieces b :=
  piecesFrom_append_comma h b

/-! ## Self-contained texts -/

/-- The text, begun at the given depth, is not cut anywhere. -/
def Uncut (depth : Nat) (s : List Char) : Prop := piecesFrom depth s = [s]

theorem uncut_cons_iff {depth : Nat} {c : Char} {s : List Char} :
    Uncut depth (c :: s) ↔ ¬(c = ',' ∧ depth = 0) ∧ Uncut (nextDepth depth c) s := by
  unfold Uncut
  rw [piecesFrom]
  constructor
  · intro h
    split at h
    · simp at h
    · next hcut =>
        refine ⟨hcut, ?_⟩
        cases hp : piecesFrom (nextDepth depth c) s with
        | nil => exact absurd hp (piecesFrom_ne_nil _ _)
        | cons p ps =>
            rw [hp] at h
            simpa using h
  · rintro ⟨hcut, h⟩
    rw [if_neg hcut, h]
    rfl

theorem uncut_append_iff {depth : Nat} {a b : List Char} :
    Uncut depth (a ++ b) ↔ Uncut depth a ∧ Uncut (depthAfter depth a) b := by
  induction a generalizing depth with
  | nil => exact (and_iff_right rfl).symm
  | cons c a ih =>
      rw [List.cons_append, uncut_cons_iff, uncut_cons_iff, ih, depthAfter_cons, and_assoc]

theorem Uncut.append {depth : Nat} {a b : List Char} (ha : Uncut depth a)
    (hb : Uncut (depthAfter depth a) b) : Uncut depth (a ++ b) :=
  uncut_append_iff.mpr ⟨ha, hb⟩

theorem uncut_of_not_mem_comma {s : List Char} (h : ',' ∉ s) (depth : Nat) : Uncut depth s := by
  induction s generalizing depth with
  | nil => rfl
  | cons c s ih =>
      rw [List.mem_cons, not_or] at h
      exact uncut_cons_iff.mpr ⟨fun hcut => h.1 hcut.1.symm, ih h.2 _⟩

/-- Within parentheses a comma cuts nothing, so only a closing one could bring a cut about. -/
theorem uncut_of_not_mem_close {s : List Char} (h : ')' ∉ s) {depth : Nat} (hd : 0 < depth) :
    Uncut depth s := by
  induction s generalizing depth with
  | nil => rfl
  | cons c s ih =>
      rw [List.mem_cons, not_or] at h
      have hnext : 0 < nextDepth depth c := by
        unfold nextDepth
        rw [if_neg (Ne.symm h.1)]
        split <;> omega
      exact uncut_cons_iff.mpr ⟨fun hcut => by omega, ih h.2 hnext⟩

/-- A text that has no outer comma and leaves the depth of parentheses as it is, wherever it
stands. -/
structure Neutral (t : List Char) : Prop where
  uncut : ∀ depth, Uncut depth t
  depth : ∀ depth, depthAfter depth t = depth

theorem Neutral.append {a b : List Char} (ha : Neutral a) (hb : Neutral b) : Neutral (a ++ b) := by
  refine ⟨fun depth => (ha.uncut depth).append (hb.uncut _), fun depth => ?_⟩
  rw [depthAfter_append, ha.depth, hb.depth]

/-- A text without commas and parentheses. -/
theorem neutral_of_not_mem {t : List Char} (hcomma : ',' ∉ t) (ho : '(' ∉ t) (hc : ')' ∉ t) :
    Neutral t :=
  ⟨uncut_of_not_mem_comma hcomma, depthAfter_of_not_mem ho hc⟩

/-- A group, whatever commas it has inside. -/
theorem neutral_group {inner : List Char} (ho : '(' ∉ inner) (hc : ')' ∉ inner) :
    Neutral ('(' :: (inner ++ [')'])) := by
  constructor
  · intro depth
    refine uncut_cons_iff.mpr ⟨by simp, ?_⟩
    exact (uncut_of_not_mem_close hc (Nat.succ_pos depth)).append
      (uncut_of_not_mem_comma (by simp) _)
  · intro depth
    show depthAfter (depth + 1) (inner ++ [')']) = depth
    rw [depthAfter_append, depthAfter_of_not_mem ho hc]
    rfl

/-- A text without an outer comma that closes every parenthesis it opens. -/
structure SelfContained (s : List Char) : Prop where
  uncut : Uncut 0 s
  depth : depthAfter 0 s = 0

theorem Neutral.selfContained {t : List Char} (h : Neutral t) : SelfContained t :=
  ⟨h.uncut 0, h.depth 0⟩

theorem SelfContained.append {a b : List Char} (ha : SelfContained a) (hb : SelfContained b) :
    SelfContained (a ++ b) := by
  refine ⟨ha.uncut.append ?_, ?_⟩
  · rw [ha.depth]
    exact hb.uncut
  · rw [depthAfter_append, ha.depth, hb.depth]

theorem selfContained_of_not_mem {s : List Char} (hcomma : ',' ∉ s) (ho : '(' ∉ s)
    (hc : ')' ∉ s) : SelfContained s :=
  (neutral_of_not_mem hcomma ho hc).selfContained

theorem selfContained_group {inner : List Char} (ho : '(' ∉ inner) (hc : ')' ∉ inner) :
    SelfContained ('(' :: (inner ++ [')'])) :=
  (neutral_group ho hc).selfContained

/-- A self-contained text before a comma is the first piece. -/
theorem SelfContained.pieces_append_comma {a : List Char} (ha : SelfContained a)
    (b : List Char) : pieces (a ++ ',' :: b) = a :: pieces b := by
  rw [Shorthand.pieces_append_comma ha.depth]
  show piecesFrom 0 a ++ pieces b = a :: pieces b
  rw [ha.uncut]
  rfl

/-- A blank in front of a text is in front of its first piece. -/
theorem pieces_space_cons (s : List Char) :
    pieces (' ' :: s) = (pieces s).modifyHead (' ' :: ·) := rfl

end MigrationDraft.Shorthand

namespace MigrationDraft

open Shorthand

/-! ## The law -/

/-- **Reading is compositional over outer commas.** The pieces of two texts joined by a comma of
depth zero are the pieces of each, and so are the columns, for any two texts. -/
theorem Schema.ofShorthand_append_comma (a b : String) (h : depthAfter 0 a.toList = 0) :
    pieces (a ++ "," ++ b).toList = pieces a.toList ++ pieces b.toList
      ∧ Schema.ofShorthand (a ++ "," ++ b) = Schema.ofShorthand a ++ Schema.ofShorthand b := by
  have htext : (a ++ "," ++ b).toList = a.toList ++ ',' :: b.toList := by
    simp [String.toList_append]
  have hpieces := pieces_append_comma h b.toList
  rw [← htext] at hpieces
  refine ⟨hpieces, ?_⟩
  unfold Schema.ofShorthand
  rw [hpieces, List.flatMap_append]

/-- The law at a seam between a text with stray and nested parentheses, which ends in a blank
field, and a text with a foreign key and a group left open. -/
theorem Schema.ofShorthand_append_comma_stray :
    depthAfter 0 "x)),p:enum((a,b),c):foreign, ".toList = 0
      ∧ pieces ("x)),p:enum((a,b),c):foreign, " ++ "," ++ "user_id:integer:foreign,(,").toList
          = pieces "x)),p:enum((a,b),c):foreign, ".toList
            ++ pieces "user_id:integer:foreign,(,".toList
      ∧ Schema.ofShorthand
          ("x)),p:enum((a,b),c):foreign, " ++ "," ++ "user_id:integer:foreign,(,")
        = Schema.ofShorthand "x)),p:enum((a,b),c):foreign, "
          ++ Schema.ofShorthand "user_id:integer:foreign,(," :=
  ⟨by decide, Schema.ofShorthand_append_comma _ _ (by decide)⟩

end MigrationDraft
